import Argot.Proofs.Readers

set_option autoImplicit false

/-!
# Reading packed values from any bytes

Nothing is known of bytes that come from elsewhere.  The reader takes what it reads off their
front, at least two bytes for every value that it makes, at no more than `maxDepth` levels,
and makes nothing that it could not read again after writing it
(`any_bytes_are_read_within_bounds`).
-/

namespace Argot.MessagePack

/-! ## One value -/

section Taking

variable {find : Text → Option Value} {t rest : Text} {x : Value}

theorem takeValue_eq_ok_iff :
    takeValue find t = (.ok x, rest) ↔ readValue find t = .ok (x, rest) := by
  unfold takeValue
  cases readValue find t with
  | error e => simp
  | ok out => simp [Prod.ext_iff]

theorem takeValue_eq_error_iff {e : ValueError} {left : Text} :
    takeValue find t = (.error e, left) ↔ readValue find t = .error e ∧ left = t := by
  unfold takeValue
  cases readValue find t with
  | error e' => simp [eq_comm]
  | ok out => simp

/-- The bytes that were taken, and what they bound. -/
theorem bounded_of_takeValue (result : takeValue find t = (.ok x, rest)) :
    ∃ taken, t = taken ++ rest ∧ Bounded find (maxDepth + 1) taken.length x := by
  obtain ⟨taken, whole, bounded, _⟩ :=
    yields_readNested find _ t x rest (takeValue_eq_ok_iff.1 result)
  exact ⟨taken, whole, bounded⟩

theorem Bounded.two_le {levels bytes : Nat} (h : Bounded find levels bytes x) : 2 ≤ bytes := by
  have part : 0 < x.parts.length := List.length_pos_iff.2 (List.ne_nil_of_mem x.mem_parts_self)
  have := h.parts
  omega

theorem Bounded.encodable {bytes : Nat} (h : Bounded find (maxDepth + 1) bytes x)
    (own : OwnNames find) : x.Encodable find :=
  ⟨Nat.le_of_lt_succ h.shallow, h.short own, h.builtins own⟩

/-- What has been read is read again after it has been written. -/
theorem Bounded.takeValue_toMessagePack {bytes : Nat} (h : Bounded find (maxDepth + 1) bytes x)
    (own : OwnNames find) (more : Text) :
    takeValue find (x.toMessagePack ++ more) = (.ok x, more) := by
  have read := (h.encodable own).readsBack more
  rw [h.detached] at read
  exact takeValue_eq_ok_iff.2 read

end Taking

/-! ## One value after another -/

/-- Values are read off the front until no bytes are left or one cannot be read.  Each entry
is what one reading comes to, with the bytes that it leaves. -/
inductive ReadsOut (find : Text → Option Value) :
    Text → List (Except ValueError Value × Text) → Prop where
  | done : ReadsOut find [] []
  | refused {t left : Text} {e : ValueError} (some : t ≠ [])
      (result : takeValue find t = (.error e, left)) : ReadsOut find t [(.error e, left)]
  | value {t rest : Text} {x : Value} {entries : List (Except ValueError Value × Text)}
      (result : takeValue find t = (.ok x, rest)) (others : ReadsOut find rest entries) :
      ReadsOut find t ((.ok x, rest) :: entries)

section ReadsOut

variable (find : Text → Option Value)

/-- Every reading takes two bytes, but for one that is refused, so there is an end. -/
theorem exists_readsOut (t : Text) :
    ∃ entries, ReadsOut find t entries ∧ 2 * entries.length ≤ t.length + 1 := by
  by_cases empty : t = []
  · subst empty
    exact ⟨[], .done, Nat.zero_le _⟩
  · cases result : takeValue find t with
    | mk outcome rest =>
      cases outcome with
      | error e =>
        have some : 0 < t.length := List.length_pos_iff.2 empty
        refine ⟨_, .refused empty result, ?_⟩
        rw [List.length_singleton]
        omega
      | ok x =>
        obtain ⟨taken, whole, bounded⟩ := bounded_of_takeValue result
        have room := bounded.two_le
        have split : t.length = taken.length + rest.length := by rw [whole, List.length_append]
        obtain ⟨entries, others, few⟩ := exists_readsOut rest
        refine ⟨_, .value result others, ?_⟩
        rw [List.length_cons]
        omega
termination_by t.length

variable {find}

/-- A scan with enough fuel is such a sequence of readings. -/
theorem scan_of_readsOut {t : Text} {entries : List (Except ValueError Value × Text)}
    (h : ReadsOut find t entries) {fuel : Nat} (enough : entries.length ≤ fuel) :
    scan find fuel t = entries.map fun entry => (entry.1, entry.2.length) := by
  induction h generalizing fuel with
  | done => cases fuel <;> rfl
  | @refused t left e some result =>
    rw [List.length_singleton] at enough
    obtain ⟨fuel, rfl⟩ : ∃ f, fuel = f + 1 := ⟨fuel - 1, by omega⟩
    rw [scan, if_neg (by simpa using some), result]
    rfl
  | @value t rest x entries result others ih =>
    rw [List.length_cons] at enough
    obtain ⟨fuel, rfl⟩ : ∃ f, fuel = f + 1 := ⟨fuel - 1, by omega⟩
    obtain ⟨taken, whole, bounded⟩ := bounded_of_takeValue result
    have some : t ≠ [] := by
      rintro rfl
      have room := bounded.two_le
      rw [(List.append_eq_nil_iff.1 whole.symm).1] at room
      exact absurd room (by decide)
    have later := ih (Nat.le_of_succ_le_succ enough)
    rw [scan, if_neg (by simpa using some), result, List.map_cons, ← later]

end ReadsOut

/-- Where every builtin of a scope and of those around it goes by its own name, it is found under
no other one. -/
theorem ownNames_lookup {s : Store} {scope : Nat}
    (own : ∀ i ∈ s.chain scope, ∀ name b, s.local? i name = some (.builtin b) → b.name = name) :
    OwnNames (s.lookup scope) := by
  intro name b found
  rw [Store.lookup_eq_findSome?] at found
  obtain ⟨i, member, here⟩ := List.exists_of_findSome?_eq_some found
  exact own i member name b here

/-! ## Any bytes -/

/-- **Any bytes are read within bounds, and what is read can be written and read again.**  Let
names mean what `find` says, in whatever scope that is, and take any bytes.

* If no value can be read off their front, all of them are left.
* Otherwise what is left is an end of them that is at least two bytes shorter.  The value has
  no more parts than half the bytes that were taken, missing values counted, and it is nested
  no deeper than `maxDepth`.  Where builtins go by their own names, writing the value behind
  any buffer adds bytes that are read as that value, whatever follows them.
* Reading one value after another comes to an end, after at most one reading for every two
  bytes and another one that fails. -/
theorem any_bytes_are_read_within_bounds (find : Text → Option Value) (b : Text) :
    (∀ e left, takeValue find b = (.error e, left) → left = b) ∧
    (∀ x rest, takeValue find b = (.ok x, rest) →
      rest <:+ b ∧ rest.length + 2 ≤ b.length ∧
      2 * x.parts.length ≤ b.length - rest.length ∧ x.nesting ≤ maxDepth ∧
      (OwnNames find → ∀ buffer more,
        ∃ bytes, x.appendMessagePack buffer = buffer ++ bytes ∧
          takeValue find (bytes ++ more) = (.ok x, more))) ∧
    ∃ entries, ReadsOut find b entries ∧ 2 * entries.length ≤ b.length + 1 ∧
      readAllValues find b = entries.map fun entry => (entry.1, entry.2.length) := by
  refine ⟨?_, ?_, ?_⟩
  · intro e left result
    exact (takeValue_eq_error_iff.1 result).2
  · intro x rest result
    obtain ⟨taken, whole, bounded⟩ := bounded_of_takeValue result
    have split : b.length = taken.length + rest.length := by rw [whole, List.length_append]
    have room := bounded.two_le
    refine ⟨⟨taken, whole.symm⟩, by omega, ?_, Nat.le_of_lt_succ bounded.shallow, ?_⟩
    · rw [split, Nat.add_sub_cancel]
      exact bounded.parts
    · intro own buffer more
      exact ⟨x.toMessagePack, appendMessagePack_eq x buffer,
        bounded.takeValue_toMessagePack own more⟩
  · obtain ⟨entries, read, few⟩ := exists_readsOut find b
    have some : entries.length ≤ b.length := by
      cases read with
      | done => exact Nat.zero_le _
      | refused some result => exact List.length_pos_iff.2 some
      | value result others =>
        rw [List.length_cons] at few ⊢
        omega
    exact ⟨entries, read, few, scan_of_readsOut read some⟩

/-- A list that holds one builtin and says so in more bytes than it has to, and behind it a list
that announces more items than there are bytes. -/
theorem roundabout_bytes_are_read_within_bounds :
    let scope := (∅ : Store).pushGlobal Vocabulary.words.primitives
    let x : Value := .list [.builtin ⟨0, "+", .numeric .add⟩]
    let first : Text := [0xDC, 0x00, 0x02, 0xCD, 0x00, 0x06, 0xDC, 0x00, 0x01,
      0x92, 0x07, 0xD9, 0x01, 0x2B]
    let hostile : Text := [0x92, 0x06, 0xDD, 0xFF, 0xFF, 0xFF, 0xFF]
    OwnNames (scope.lookup 0) ∧
      takeValue (scope.lookup 0) (first ++ hostile) = (.ok x, hostile) ∧
      takeValue (scope.lookup 0) (x.appendMessagePack []) = (.ok x, []) ∧
      x.appendMessagePack [] ≠ first ∧
      (∀ e left, takeValue (scope.lookup 0) hostile = (.error e, left) → left = hostile) ∧
      takeValue (scope.lookup 0) hostile = (.error (.listTooLong 0xFFFFFFFF 0), hostile) := by
  intro scope x first hostile
  have own : OwnNames (scope.lookup 0) := by
    refine ownNames_lookup fun i member name b found => ?_
    have alone : scope.chain 0 = [0] := rfl
    rw [alone, List.mem_singleton] at member
    subst member
    have bound : scope.local? 0 name = (registered 0 Vocabulary.words.primitives).find? name := rfl
    rw [bound, registered, NameMap.find?_map] at found
    obtain ⟨op, _, same⟩ := Option.map_eq_some_iff.1 found
    cases same
    rfl
  have read : takeValue (scope.lookup 0) (first ++ hostile) = (.ok x, hostile) := rfl
  obtain ⟨bytes, appended, again⟩ :=
    ((any_bytes_are_read_within_bounds (scope.lookup 0) (first ++ hostile)).2.1 x hostile read)
      |>.2.2.2.2 own [] []
  refine ⟨own, read, ?_, by decide +kernel, ?_, rfl⟩
  · rw [appended, List.nil_append]
    rwa [List.append_nil] at again
  · exact (any_bytes_are_read_within_bounds (scope.lookup 0) hostile).1

end Argot.MessagePack
