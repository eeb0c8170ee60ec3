import Argot.Proofs.Readers

set_option autoImplicit false

/-!
# Packed values say where they end

Bytes behind a packed value make no difference to what is read, and are left behind with the rest
(`readValue_append`).  So a text that holds one value is not the beginning of another one that does,
and an encoding that is cut off is refused.
-/

namespace Argot

open MessagePack

variable {find : Text → Option Value}

/-! ## Texts that hold one value -/

/-- What is read off the front of a text is read as well when more bytes follow, and they are left
behind. -/
theorem readValue_append {t rest : Text} {x : Value} (read : readValue find t = .ok (x, rest))
    (more : Text) : readValue find (t ++ more) = .ok (x, rest ++ more) := by
  obtain ⟨_, _, _, again⟩ := yields_readNested find (maxDepth + 1) t x rest read
  exact again more

theorem readValue_of_ofMessagePack {t : Text} {x : Value}
    (accepted : Value.ofMessagePack find t = .ok x) : readValue find t = .ok (x, []) := by
  rw [Value.ofMessagePack] at accepted
  cases read : readValue find t with
  | error e =>
    rw [read] at accepted
    cases accepted
  | ok result =>
    obtain ⟨y, rest⟩ := result
    rw [read] at accepted
    change (if rest.isEmpty then Except.ok y else _) = Except.ok x at accepted
    cases rest with
    | nil =>
      cases accepted
      rfl
    | cons b rest => cases accepted

theorem ofMessagePack_of_readValue {t : Text} {x : Value}
    (read : readValue find t = .ok (x, [])) : Value.ofMessagePack find t = .ok x := by
  rw [Value.ofMessagePack, read]
  rfl

/-- If a text holds one value, nothing can be read from a shorter beginning of it: what would
be left behind is too little for what has been cut off. -/
theorem refused_of_strict_prefix {t start : Text} {x : Value}
    (whole : readValue find t = .ok (x, [])) (beginning : start <+: t) (shorter : start ≠ t) :
    ∃ e, readValue find start = .error e := by
  obtain ⟨more, rfl⟩ := beginning
  cases read : readValue find start with
  | error e => exact ⟨e, rfl⟩
  | ok result =>
    obtain ⟨y, rest⟩ := result
    have again := readValue_append read more
    obtain ⟨_, left⟩ := Prod.mk.inj (Except.ok.inj (again.symm.trans whole))
    obtain rfl := (List.append_eq_nil_iff.1 left).2
    exact absurd (List.append_nil start).symm shorter

/-- What fits the format and can be read where names mean what `find` says: nested no deeper
than the reader goes, with lengths that a word of four bytes can hold, and with builtins whose
names stand for builtins. -/
structure Value.Packable (find : Text → Option Value) (x : Value) : Prop where
  shallow : x.nesting ≤ maxDepth
  short : x.shorterThan 0x100000000 = true
  resolvable : ∀ b ∈ x.builtins, ∃ c, find b.name = some (.builtin c)

theorem Value.Packable.read {x : Value} (h : x.Packable find) :
    readValue find x.toMessagePack = .ok (x.linked find, []) := by
  have found : ∀ b ∈ x.builtins, (findBuiltin find b.name).isSome := by
    intro b member
    obtain ⟨c, bound⟩ := h.resolvable b member
    rw [findBuiltin, bound]
    rfl
  have alone := readsLinked x (Nat.lt_succ_of_le h.shallow) h.short found []
  rw [List.append_nil] at alone
  exact alone

/-- **Packed values say where they end.**  Let names mean what `find` says, in whatever scope
that is, or in none.

* What is read off the front of a text is read again when more bytes follow, and exactly these
  are left behind in addition.  This is so of every text, and not only of encodings.
* No text that holds one value is the beginning of another one that does.
* The encoding of a value is such a text, if it fits the format and its builtins can be found.
  A beginning of it that is not all of it is refused, both by itself and as the front of a
  text. -/
theorem packed_values_are_self_delimiting (find : Text → Option Value) :
    (∀ b x rest, readValue find b = .ok (x, rest) →
      ∀ c, readValue find (b ++ c) = .ok (x, rest ++ c)) ∧
    (∀ b b' x x', Value.ofMessagePack find b = .ok x → Value.ofMessagePack find b' = .ok x' →
      b <+: b' → b = b') ∧
    ∀ x : Value, x.Packable find →
      Value.ofMessagePack find x.toMessagePack = .ok (x.linked find) ∧
      ∀ start, start <+: x.toMessagePack → start ≠ x.toMessagePack →
        ∃ e, readValue find start = .error e ∧ Value.ofMessagePack find start = .error e := by
  refine ⟨fun b x rest => readValue_append, ?_, ?_⟩
  · intro b b' x x' accepted accepted' beginning
    by_cases same : b = b'
    · exact same
    · obtain ⟨e, refused⟩ :=
        refused_of_strict_prefix (readValue_of_ofMessagePack accepted') beginning same
      rw [readValue_of_ofMessagePack accepted] at refused
      cases refused
  · intro x packable
    refine ⟨ofMessagePack_of_readValue packable.read, ?_⟩
    intro start beginning shorter
    obtain ⟨e, refused⟩ := refused_of_strict_prefix packable.read beginning shorter
    refine ⟨e, refused, ?_⟩
    rw [Value.ofMessagePack, refused]
    rfl

/-- A list with a builtin that goes by another name in the scope.  Cut off before its last
byte it is refused; with a byte of its own behind it, that byte is left. -/
theorem list_with_renamed_builtin_delimits_itself :
    let scope := ((∅ : Store).pushGlobal Vocabulary.words.primitives).bind 0 "plus"
      (.builtin ⟨0, "+", .numeric .add⟩)
    let x : Value := .list [.quote (.symbol "n"), .builtin ⟨3, "plus", .equal⟩]
    let y : Value := .list [.quote (.symbol "n"), .builtin ⟨0, "+", .numeric .add⟩]
    x.Packable (scope.lookup 0) ∧
      Value.ofMessagePack (scope.lookup 0) x.toMessagePack = .ok y ∧
      readValue (scope.lookup 0) (x.toMessagePack ++ [0xC0]) = .ok (y, [0xC0]) ∧
      (∃ e, Value.ofMessagePack (scope.lookup 0) x.toMessagePack.dropLast = .error e) ∧
      ∀ t z, Value.ofMessagePack (scope.lookup 0) t = .ok z → x.toMessagePack <+: t →
        x.toMessagePack = t := by
  intro scope x y
  have found : scope.lookup 0 "plus" = some (.builtin ⟨0, "+", .numeric .add⟩) := rfl
  have packable : x.Packable (scope.lookup 0) := by
    refine ⟨by decide, by decide, fun b member => ?_⟩
    obtain rfl : b = ⟨3, "plus", .equal⟩ := by
      simpa [x, Value.builtins, Value.allBuiltins] using member
    exact ⟨_, found⟩
  obtain ⟨further, single, own⟩ := packed_values_are_self_delimiting (scope.lookup 0)
  obtain ⟨accepted, cut⟩ := own x packable
  have linked : x.linked (scope.lookup 0) = y := rfl
  rw [linked] at accepted
  obtain ⟨e, _, refused⟩ := cut x.toMessagePack.dropLast (List.dropLast_prefix _) (by decide)
  exact ⟨packable, accepted, further _ _ _ (readValue_of_ofMessagePack accepted) [0xC0],
    ⟨e, refused⟩, fun t z held => single _ t y z accepted held⟩

end Argot
