import Argot.Value

set_option autoImplicit false

/-!
# The parse cache

The forms of recently read texts, filed under a hash of the text.  The slots stand in the
order in which they were filled, and when all are taken the oldest one is given up.  A
slot keeps its text, so that another text with the same hash is never answered with it.

Normative source: SPEC_FULL §13 (parse cache).
-/

namespace Argot

/-- One remembered text. -/
structure CacheSlot where
  key : UInt64
  text : Text
  forms : List Value
  deriving Inhabited

/-- The remembered texts, oldest first, and how often looking one up succeeded and
failed.  A capacity of zero turns the cache off. -/
structure ParseCache where
  capacity : Nat
  slots : List CacheSlot
  hits : Nat
  misses : Nat
  deriving Inhabited

namespace ParseCache

/-- A cache that remembers nothing yet. -/
def ofCapacity (capacity : Nat) : ParseCache := ⟨capacity, [], 0, 0⟩

/-- The slot of a key. -/
def slot? (c : ParseCache) (key : UInt64) : Option CacheSlot := c.slots.find? (·.key == key)

/-- The forms of a text, if they are remembered.  Looking a text up counts as a hit or a
miss. -/
def get (hash : Text → UInt64) (text : Text) (c : ParseCache) :
    Option (List Value) × ParseCache :=
  if c.capacity = 0 then (none, c)
  else
    match (c.slot? (hash text)).filter (·.text == text) with
    | some slot => (some slot.forms, { c with hits := c.hits + 1 })
    | none => (none, { c with misses := c.misses + 1 })

/-- Replaces the slot of the same key, in its place. -/
def overwrite (slot : CacheSlot) (slots : List CacheSlot) : List CacheSlot :=
  slots.map fun s => if s.key == slot.key then slot else s

/-- Remembers the forms of a text.  A new key goes to the end, and pushes the oldest slot
out if all are taken. -/
def put (hash : Text → UInt64) (text : Text) (forms : List Value) (c : ParseCache) :
    ParseCache :=
  if c.capacity = 0 then c
  else
    let slot : CacheSlot := ⟨hash text, text, forms⟩
    if (c.slot? slot.key).isSome then { c with slots := overwrite slot c.slots }
    else
      let kept := if c.capacity ≤ c.slots.length then c.slots.tail else c.slots
      { c with slots := kept ++ [slot] }

/-- How many texts are remembered. -/
def size (c : ParseCache) : Nat := c.slots.length

end ParseCache
end Argot
