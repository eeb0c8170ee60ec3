set_option autoImplicit false

/-!
# Random numbers

A small generator of pseudo-random numbers: a counter that advances by a fixed odd step,
and a mixing function on it.  Equal seeds give equal sequences.

Normative source: SPEC_FULL §4.3 (`random`) and §11.1 (seed).
-/

namespace Argot

/-- The state of a generator. -/
structure Generator where
  state : UInt64
  deriving DecidableEq, Repr, Inhabited

namespace Generator

/-- The generator of a seed. -/
def ofSeed (seed : Int) : Generator := ⟨UInt64.ofInt seed⟩

/-- The next 64 bits. -/
def next (g : Generator) : UInt64 × Generator :=
  let state := g.state + 0x9E3779B97F4A7C15
  let z := (state ^^^ (state >>> 30)) * 0xBF58476D1CE4E5B9
  let z := (z ^^^ (z >>> 27)) * 0x94D049BB133111EB
  (z ^^^ (z >>> 31), ⟨state⟩)

/-- A whole number below a positive bound. -/
def draw (bound : Nat) (g : Generator) : Nat × Generator :=
  let (z, g) := g.next
  (z.toNat % bound, g)

theorem draw_lt {bound : Nat} (h : 0 < bound) (g : Generator) : (g.draw bound).1 < bound :=
  Nat.mod_lt _ h

/-- A second generator, seeded from the first one. -/
def split (g : Generator) : Generator × Generator :=
  let (z, g) := g.next
  (⟨z⟩, g)

end Generator
end Argot
