import Argot.Interpreter.Basic
import Argot.MessagePack.Value

set_option autoImplicit false

/-!
# Packing values and reading them back

Every item that the writers produce is taken off the front of a text by the reader of its
kind, whatever follows it.  The same then holds of whole values, by induction on the value:
the reader recurses on how many levels are left, so a value must not be nested deeper than
that, and a list is read at all because its items take at least two bytes each
(`two_le_length`).

What is lost is only the scope that a closure remembers (`Value.detached`).
-/

namespace Argot

/-! ## What an encoding keeps -/

namespace Value

mutual

/-- How deep values are nested in a value; the value itself is at depth zero. -/
def nesting : Value → Nat
  | .quote x => x.nesting + 1
  | .list items => nestingOfItems items
  | .closure params body _ => max params.nesting body.nesting + 1
  | .scopedLet bindings body => max bindings.nesting body.nesting + 1
  | _ => 0

/-- How deep values are nested in the list of the items. -/
def nestingOfItems : List Value → Nat
  | [] => 0
  | x :: xs => max (x.nesting + 1) (nestingOfItems xs)

end

mutual

/-- Whether every list, string and name in a value is shorter than a limit. -/
def shorterThan (limit : Nat) : Value → Bool
  | .quote x => x.shorterThan limit
  | .symbol name => name.length < limit
  | .string s => s.length < limit
  | .list items => items.length < limit && allShorterThan limit items
  | .builtin b => b.name.length < limit
  | .closure params body _ => params.shorterThan limit && body.shorterThan limit
  | .scopedLet bindings body => bindings.shorterThan limit && body.shorterThan limit
  | .nil | .number _ | .boolean _ => true

/-- Whether every list, string and name in the values is shorter than a limit. -/
def allShorterThan (limit : Nat) : List Value → Bool
  | [] => true
  | x :: xs => x.shorterThan limit && allShorterThan limit xs

end

mutual

/-- The builtins that occur in a value. -/
def builtins : Value → List Builtin
  | .quote x => x.builtins
  | .list items => allBuiltins items
  | .builtin b => [b]
  | .closure params body _ => params.builtins ++ body.builtins
  | .scopedLet bindings body => bindings.builtins ++ body.builtins
  | .nil | .symbol _ | .number _ | .boolean _ | .string _ => []

/-- The builtins that occur in the values. -/
def allBuiltins : List Value → List Builtin
  | [] => []
  | x :: xs => x.builtins ++ allBuiltins xs

end

mutual

/-- The value with the scopes of its closures left behind. -/
def detached : Value → Value
  | .quote x => .quote x.detached
  | .list items => .list (allDetached items)
  | .closure params body _ => .closure params.detached body.detached none
  | .scopedLet bindings body => .scopedLet bindings.detached body.detached
  | x => x

/-- The values with the scopes of their closures left behind. -/
def allDetached : List Value → List Value
  | [] => []
  | x :: xs => x.detached :: allDetached xs

end

mutual

/-- The value as it is read back: with the scopes of its closures left behind, and with the
builtins that the names of its builtins stand for. -/
def linked (find : Text → Option Value) : Value → Value
  | .quote x => .quote (x.linked find)
  | .list items => .list (allLinked find items)
  | .builtin b => (findBuiltin find b.name).getD (.builtin b)
  | .closure params body _ => .closure (params.linked find) (body.linked find) none
  | .scopedLet bindings body => .scopedLet (bindings.linked find) (body.linked find)
  | x => x

/-- The values as they are read back. -/
def allLinked (find : Text → Option Value) : List Value → List Value
  | [] => []
  | x :: xs => x.linked find :: allLinked find xs

end

theorem allLinked_eq_map (find : Text → Option Value) (xs : List Value) :
    allLinked find xs = xs.map (linked find) := by
  induction xs with
  | nil => rfl
  | cons x xs ih => rw [allLinked, ih, List.map_cons]

end Value

/-! ## Items -/

namespace MessagePack

theorem readArrayHeader_arrayHeader {n : Nat} (h : n < 0x100000000) (rest : Text) :
    readArrayHeader (arrayHeader n ++ rest) = .ok (n, rest) := by
  unfold arrayHeader
  split
  · rename_i small
    have lead : (UInt8.ofNat (0x90 + n)).toNat = 0x90 + n := by
      rw [UInt8.toNat_ofNat']
      omega
    have range : 0x90 ≤ UInt8.ofNat (0x90 + n) ∧ UInt8.ofNat (0x90 + n) ≤ 0x9F := by
      rw [UInt8.le_iff_toNat_le, UInt8.le_iff_toNat_le, lead]
      exact ⟨Nat.le_add_right _ _, Nat.add_le_add_left small _⟩
    rw [List.cons_append, List.nil_append, readArrayHeader, if_pos range, lead,
      Nat.add_sub_cancel_left]
  · split
    · rename_i medium
      exact @readWord_bigEndian 2 _ medium rest
    · exact @readWord_bigEndian 4 _ h rest

theorem readUInt8_unsigned (n : UInt8) (rest : Text) :
    readUInt8 (unsigned n ++ rest) = .ok (n, rest) := by
  have fits : n.toNat < 256 := n.toNat_lt
  have back : UInt8.ofNat n.toNat = n := UInt8.ofNat_toNat
  have read : readUnsigned (unsigned n ++ rest) = .ok (n.toNat, rest) := by
    unfold unsigned
    split
    · rename_i small
      rw [List.cons_append, List.nil_append, readUnsigned, if_pos small]
    · have word : bigEndian 1 n.toNat = [n] := by
        rw [bigEndian, bigEndian]
        show [UInt8.ofNat (n.toNat / 1 % 256)] = [n]
        rw [Nat.div_one, Nat.mod_eq_of_lt fits, back]
      have shown := @readWord_bigEndian 1 _ fits rest
      rw [word] at shown
      exact shown
  rw [readUInt8, read]
  show (if n.toNat < 256 then Except.ok (UInt8.ofNat n.toNat, rest) else _) = _
  rw [if_pos fits, back]

theorem readBoolean_boolean (b : Bool) (rest : Text) :
    readBoolean (boolean b ++ rest) = .ok (b, rest) := by
  cases b <;> rfl

theorem readDouble_double (x : Binary64) (rest : Text) :
    readDouble (double x ++ rest) = .ok (x, rest) := by
  have word := @readWord_bigEndian 8 _ x.bits.toNat_lt rest
  simp [readDouble, double, word, bind, Except.bind]

theorem readStringHeader_stringHeader {n : Nat} (h : n < 0x100000000) (rest : Text) :
    readStringHeader (stringHeader n ++ rest) = .ok (n, rest) := by
  unfold stringHeader
  split
  · rename_i small
    have lead : (UInt8.ofNat (0xA0 + n)).toNat = 0xA0 + n := by
      rw [UInt8.toNat_ofNat']
      omega
    have range : 0xA0 ≤ UInt8.ofNat (0xA0 + n) ∧ UInt8.ofNat (0xA0 + n) ≤ 0xBF := by
      rw [UInt8.le_iff_toNat_le, UInt8.le_iff_toNat_le, lead]
      exact ⟨Nat.le_add_right _ _, Nat.add_le_add_left small _⟩
    rw [List.cons_append, List.nil_append, readStringHeader, if_pos range, lead,
      Nat.add_sub_cancel_left]
  · split
    · rename_i medium
      exact @readWord_bigEndian 1 _ medium rest
    · split
      · rename_i large
        exact @readWord_bigEndian 2 _ large rest
      · exact @readWord_bigEndian 4 _ h rest

theorem readString_string {s : Text} (h : s.length < 0x100000000) (rest : Text) :
    readString (string s ++ rest) = .ok (s, rest) := by
  rw [readString, string, List.append_assoc, readStringHeader_stringHeader h]
  exact readBytes_append s rest

theorem ofItem_ok {α : Type} (x : α) : ofItem (.ok x) = .ok x := rfl

theorem readHeader_header (k : Variant) (rest : Text) :
    readHeader (header k ++ rest) = .ok (k, rest) := by
  have small : k.size < 0x100000000 := by cases k <;> decide
  have nonempty : k.size ≠ 0 := by cases k <;> decide
  have size := readArrayHeader_arrayHeader small (unsigned k.code ++ rest)
  have code := readUInt8_unsigned k.code rest
  simp [readHeader, header, size, code, nonempty, ofItem_ok, bind, Except.bind]

theorem length_header (k : Variant) : (header k).length = 2 := by cases k <;> rfl

end MessagePack

/-! ## Values -/

open MessagePack

/-- No value takes fewer than two bytes. -/
theorem two_le_length (x : Value) : 2 ≤ x.toMessagePack.length := by
  cases x <;> rw [Value.toMessagePack] <;> simp only [List.length_append, length_header] <;> omega

theorem two_mul_length_le (xs : List Value) :
    2 * xs.length ≤ (Value.allToMessagePack xs).length := by
  induction xs with
  | nil => exact Nat.zero_le _
  | cons x xs ih =>
    have item := two_le_length x
    rw [Value.allToMessagePack, List.length_append, List.length_cons]
    omega

theorem allToMessagePack_eq_flatten (xs : List Value) :
    Value.allToMessagePack xs = (xs.map Value.toMessagePack).flatten := by
  induction xs with
  | nil => rfl
  | cons x xs ih => rw [Value.allToMessagePack, ih, List.map_cons, List.flatten_cons]

mutual

/-- A buffer is only added to, and what is added does not depend on it. -/
theorem appendMessagePack_eq : (x : Value) → (buffer : Text) →
    x.appendMessagePack buffer = buffer ++ x.toMessagePack
  | .nil, buffer => by rw [Value.appendMessagePack, Value.toMessagePack]
  | .number _, _ | .boolean _, _ | .string _, _ | .symbol _, _ | .builtin _, _ => by
    rw [Value.appendMessagePack, Value.toMessagePack, List.append_assoc]
  | .quote x, buffer => by
    rw [Value.appendMessagePack, Value.toMessagePack, appendMessagePack_eq x, List.append_assoc]
  | .list xs, buffer => by
    rw [Value.appendMessagePack, Value.toMessagePack, appendAllMessagePack_eq xs,
      List.append_assoc, List.append_assoc]
  | .closure params body _, buffer => by
    rw [Value.appendMessagePack, Value.toMessagePack, appendMessagePack_eq body,
      appendMessagePack_eq params, List.append_assoc, List.append_assoc]
  | .scopedLet bindings body, buffer => by
    rw [Value.appendMessagePack, Value.toMessagePack, appendMessagePack_eq body,
      appendMessagePack_eq bindings, List.append_assoc, List.append_assoc]

theorem appendAllMessagePack_eq : (xs : List Value) → (buffer : Text) →
    Value.appendAllMessagePack buffer xs = buffer ++ Value.allToMessagePack xs
  | [], buffer => by rw [Value.appendAllMessagePack, Value.allToMessagePack, List.append_nil]
  | x :: xs, buffer => by
    rw [Value.appendAllMessagePack, Value.allToMessagePack, appendAllMessagePack_eq xs,
      appendMessagePack_eq x, List.append_assoc]

end

/-- The reader looks a builtin up by its name and finds that builtin. -/
theorem findBuiltin_eq {find : Text → Option Value} {b : Builtin}
    (bound : find b.name = some (.builtin b)) : findBuiltin find b.name = some (.builtin b) := by
  rw [findBuiltin, bound]

section Reading

variable {find : Text → Option Value}

mutual

/-- Where builtins are bound to their own names, they are themselves again. -/
theorem linked_eq_detached : (x : Value) →
    (∀ b ∈ x.builtins, find b.name = some (.builtin b)) → x.linked find = x.detached
  | .nil, _ | .number _, _ | .boolean _, _ | .string _, _ | .symbol _, _ => rfl
  | .builtin b, bound => by
    have found := findBuiltin_eq (bound b (by simp [Value.builtins]))
    rw [Value.linked, found]
    rfl
  | .quote x, bound => by rw [Value.linked, Value.detached, linked_eq_detached x bound]
  | .list xs, bound => by rw [Value.linked, Value.detached, allLinked_eq_allDetached xs bound]
  | .closure params body _, bound => by
    rw [Value.builtins] at bound
    rw [Value.linked, Value.detached,
      linked_eq_detached params fun b member => bound b (List.mem_append_left _ member),
      linked_eq_detached body fun b member => bound b (List.mem_append_right _ member)]
  | .scopedLet bindings body, bound => by
    rw [Value.builtins] at bound
    rw [Value.linked, Value.detached,
      linked_eq_detached bindings fun b member => bound b (List.mem_append_left _ member),
      linked_eq_detached body fun b member => bound b (List.mem_append_right _ member)]

theorem allLinked_eq_allDetached : (xs : List Value) →
    (∀ b ∈ Value.allBuiltins xs, find b.name = some (.builtin b)) →
    Value.allLinked find xs = Value.allDetached xs
  | [], _ => rfl
  | x :: xs, bound => by
    rw [Value.allBuiltins] at bound
    rw [Value.allLinked, Value.allDetached,
      linked_eq_detached x fun b member => bound b (List.mem_append_left _ member),
      allLinked_eq_allDetached xs fun b member => bound b (List.mem_append_right _ member)]

end

/-- What a value is read back as depends on nothing that follows it. -/
def ReadsBack (find : Text → Option Value) (levels : Nat) (x : Value) : Prop :=
  ∀ rest, readNested find levels (x.toMessagePack ++ rest) = .ok (x.detached, rest)

/-- The value is read, whatever follows it. -/
def ReadsLinked (find : Text → Option Value) (levels : Nat) (x : Value) : Prop :=
  ∀ rest, readNested find levels (x.toMessagePack ++ rest) = .ok (x.linked find, rest)

/-- Values that are read one by one are read one after another. -/
theorem readMany_of_readsBack {levels : Nat} {seen : Value → Value} {xs : List Value}
    (each : ∀ x ∈ xs, ∀ rest,
      readNested find levels (x.toMessagePack ++ rest) = .ok (seen x, rest)) (rest : Text) :
    readMany (readNested find levels) xs.length (Value.allToMessagePack xs ++ rest) =
      .ok (xs.map seen, rest) := by
  induction xs with
  | nil => rfl
  | cons x xs ih =>
    have first := each x List.mem_cons_self (Value.allToMessagePack xs ++ rest)
    have others := ih fun y member => each y (List.mem_cons_of_mem x member)
    rw [Value.allToMessagePack, List.append_assoc, List.length_cons, readMany]
    simp [first, others, bind, Except.bind]

theorem readsLinked_builtin {levels : Nat} {b : Builtin}
    (short : b.name.length < 0x100000000) (found : (findBuiltin find b.name).isSome) :
    ReadsLinked find (levels + 1) (.builtin b) := by
  intro rest
  obtain ⟨x, found⟩ := Option.isSome_iff_exists.1 found
  have read := readString_string short rest
  rw [Value.toMessagePack, List.append_assoc, readNested, readHeader_header]
  simp [read, found, ofItem_ok, bind, Except.bind, Value.linked]

theorem readsLinked_quote {levels : Nat} {x : Value} (inner : ReadsLinked find levels x) :
    ReadsLinked find (levels + 1) (.quote x) := by
  intro rest
  have read := inner rest
  rw [Value.toMessagePack, List.append_assoc, readNested, readHeader_header]
  simp [read, bind, Except.bind, Value.linked]

/-- The announced number of items never exceeds what follows. -/
theorem readsLinked_list {levels : Nat} {xs : List Value} (short : xs.length < 0x100000000)
    (each : ∀ x ∈ xs, ReadsLinked find levels x) : ReadsLinked find (levels + 1) (.list xs) := by
  intro rest
  have count := readArrayHeader_arrayHeader short (Value.allToMessagePack xs ++ rest)
  have items := readMany_of_readsBack each rest
  -- the reader refuses more items than half the bytes that are left
  have room : ¬ (Value.allToMessagePack xs ++ rest).length < 2 * xs.length := by
    have bytes := two_mul_length_le xs
    rw [List.length_append]
    omega
  rw [Value.toMessagePack, List.append_assoc, List.append_assoc, readNested, readHeader_header]
  simp only [bind, Except.bind, ofItem_ok, count, if_neg room, items, Value.linked,
    Value.allLinked_eq_map]

theorem readsLinked_closure {levels : Nat} {params body : Value} (home : Option Nat)
    (first : ReadsLinked find levels params) (second : ReadsLinked find levels body) :
    ReadsLinked find (levels + 1) (.closure params body home) := by
  intro rest
  have readFirst := first (body.toMessagePack ++ rest)
  have readSecond := second rest
  rw [Value.toMessagePack, List.append_assoc, List.append_assoc, readNested, readHeader_header]
  simp [readFirst, readSecond, bind, Except.bind, Value.linked]

theorem readsLinked_scopedLet {levels : Nat} {bindings body : Value}
    (first : ReadsLinked find levels bindings) (second : ReadsLinked find levels body) :
    ReadsLinked find (levels + 1) (.scopedLet bindings body) := by
  intro rest
  have readFirst := first (body.toMessagePack ++ rest)
  have readSecond := second rest
  rw [Value.toMessagePack, List.append_assoc, List.append_assoc, readNested, readHeader_header]
  simp [readFirst, readSecond, bind, Except.bind, Value.linked]

mutual

/-- A value that is nested fewer than `levels` deep, and whose builtins have names that stand
for builtins, is read back.  The induction is on the value, and each level of it uses up one
level of the reader. -/
theorem readsLinked : (x : Value) → {levels : Nat} → x.nesting < levels →
    x.shorterThan 0x100000000 = true →
    (∀ b ∈ x.builtins, (findBuiltin find b.name).isSome) → ReadsLinked find levels x
  -- the writer counts no levels: that the reader has one left is all that `nesting` is for
  | x, 0, deep, _, _ => absurd deep (Nat.not_lt_zero _)
  | .nil, levels + 1, _, _, _ => by
    intro rest
    rw [Value.toMessagePack, readNested, readHeader_header]
    rfl
  | .number x, levels + 1, _, _, _ => by
    intro rest
    have read := readDouble_double x rest
    rw [Value.toMessagePack, List.append_assoc, readNested, readHeader_header]
    simp [read, ofItem_ok, bind, Except.bind, Value.linked]
  | .boolean b, levels + 1, _, _, _ => by
    intro rest
    have read := readBoolean_boolean b rest
    rw [Value.toMessagePack, List.append_assoc, readNested, readHeader_header]
    simp [read, ofItem_ok, bind, Except.bind, Value.linked]
  | .string s, levels + 1, _, short, _ => by
    intro rest
    have read := readString_string (of_decide_eq_true short) rest
    rw [Value.toMessagePack, List.append_assoc, readNested, readHeader_header]
    simp [read, ofItem_ok, bind, Except.bind, Value.linked]
  | .symbol name, levels + 1, _, short, _ => by
    intro rest
    have read := readString_string (of_decide_eq_true short) rest
    rw [Value.toMessagePack, List.append_assoc, readNested, readHeader_header]
    simp [read, ofItem_ok, bind, Except.bind, Value.linked]
  | .builtin b, levels + 1, _, short, found =>
    readsLinked_builtin (of_decide_eq_true short) (found b (by simp [Value.builtins]))
  | .quote x, levels + 1, shallow, short, found => by
    rw [Value.nesting] at shallow
    exact readsLinked_quote (readsLinked x (by omega) short found)
  | .list xs, levels + 1, shallow, short, found => by
    rw [Value.nesting] at shallow
    rw [Value.shorterThan, Bool.and_eq_true] at short
    exact readsLinked_list (of_decide_eq_true short.1)
      (readsLinked_items xs (by omega) short.2 found)
  | .closure params body home, levels + 1, shallow, short, found => by
    rw [Value.nesting] at shallow
    rw [Value.shorterThan, Bool.and_eq_true] at short
    rw [Value.builtins] at found
    refine readsLinked_closure home (readsLinked params (by omega) short.1 fun b member => ?_)
      (readsLinked body (by omega) short.2 fun b member => ?_)
    · exact found b (List.mem_append_left _ member)
    · exact found b (List.mem_append_right _ member)
  | .scopedLet bindings body, levels + 1, shallow, short, found => by
    rw [Value.nesting] at shallow
    rw [Value.shorterThan, Bool.and_eq_true] at short
    rw [Value.builtins] at found
    refine readsLinked_scopedLet (readsLinked bindings (by omega) short.1 fun b member => ?_)
      (readsLinked body (by omega) short.2 fun b member => ?_)
    · exact found b (List.mem_append_left _ member)
    · exact found b (List.mem_append_right _ member)

theorem readsLinked_items : (xs : List Value) → {levels : Nat} →
    Value.nestingOfItems xs ≤ levels → Value.allShorterThan 0x100000000 xs = true →
    (∀ b ∈ Value.allBuiltins xs, (findBuiltin find b.name).isSome) →
    ∀ x ∈ xs, ReadsLinked find levels x
  | [], _, _, _, _ => by
    intro x member
    cases member
  | x :: xs, levels, shallow, short, found => by
    rw [Value.nestingOfItems] at shallow
    rw [Value.allShorterThan, Bool.and_eq_true] at short
    rw [Value.allBuiltins] at found
    have first : ReadsLinked find levels x := readsLinked x (by omega) short.1 fun b member =>
      found b (List.mem_append_left _ member)
    have others : ∀ y ∈ xs, ReadsLinked find levels y :=
      readsLinked_items xs (by omega) short.2 fun b member =>
        found b (List.mem_append_right _ member)
    intro y member
    rcases List.mem_cons.1 member with rfl | member
    · exact first
    · exact others y member

end

/-! ## Sequences -/

/-- Values that are read back one by one are all found by a scan that has enough fuel. -/
theorem scan_allToMessagePack {xs : List Value}
    (each : ∀ x ∈ xs, ReadsBack find (maxDepth + 1) x) (fuel : Nat)
    (enough : xs.length ≤ fuel) :
    (scan find fuel (Value.allToMessagePack xs)).map Prod.fst =
      xs.map fun x => .ok x.detached := by
  induction xs generalizing fuel with
  | nil => cases fuel <;> rfl
  | cons x xs ih =>
    obtain ⟨fuel, rfl⟩ : ∃ f, fuel = f + 1 := ⟨fuel - 1, by rw [List.length_cons] at enough; omega⟩
    have read := each x List.mem_cons_self (Value.allToMessagePack xs)
    have others := ih (fun y member => each y (List.mem_cons_of_mem x member)) fuel
      (by rw [List.length_cons] at enough; omega)
    have nonempty : (x.toMessagePack ++ Value.allToMessagePack xs).isEmpty = false := by
      have bytes := two_le_length x
      cases whole : x.toMessagePack with
      | nil => simp [whole] at bytes
      | cons b bs => rfl
    rw [Value.allToMessagePack, scan, nonempty]
    simp only [Bool.false_eq_true, if_false, takeValue, readValue, read, List.map_cons, others]

end Reading

/-- What can be read back where names mean what `find` says: nested no deeper than the
reader goes, with lengths that a word of four bytes can hold, and with builtins that are
found under their own names. -/
structure Value.Encodable (find : Text → Option Value) (x : Value) : Prop where
  shallow : x.nesting ≤ maxDepth
  short : x.shorterThan 0x100000000 = true
  builtins : ∀ b ∈ x.builtins, find b.name = some (.builtin b)

theorem Value.Encodable.readsBack {find : Text → Option Value} {x : Value}
    (h : x.Encodable find) : ReadsBack find (maxDepth + 1) x := by
  have found : ∀ b ∈ x.builtins, (findBuiltin find b.name).isSome := by
    intro b member
    rw [findBuiltin_eq (h.builtins b member)]
    rfl
  have read := readsLinked x (Nat.lt_succ_of_le h.shallow) h.short found
  rw [ReadsLinked, linked_eq_detached x h.builtins] at read
  exact read

/-- **Packing loses nothing but the scopes of closures, and packed values can be
streamed.**  Let names mean what `find` says, in whatever scope that is.

* Writing an encodable value behind any buffer adds the encoding of the value to it.
* Whatever follows the encoding, reading takes exactly the encoding off the front and
  gives the value back, number bits and all, without the scopes its closures remember.
* A text that holds the encoding alone is read as that value.
* Values written one after another are read back in order: as many as there were, in
  front of anything, and by a scan to the end of the text. -/
theorem packing_is_lossless (find : Text → Option Value) :
    (∀ x : Value, x.Encodable find →
      (∀ buffer, x.appendMessagePack buffer = buffer ++ x.toMessagePack) ∧
      (∀ rest, readValue find (x.toMessagePack ++ rest) = .ok (x.detached, rest)) ∧
      Value.ofMessagePack find x.toMessagePack = .ok x.detached) ∧
    ∀ xs : List Value, (∀ x ∈ xs, x.Encodable find) →
      (∀ buffer, Value.appendAllMessagePack buffer xs =
        buffer ++ (xs.map Value.toMessagePack).flatten) ∧
      (∀ rest, readMany (readValue find) xs.length (Value.appendAllMessagePack [] xs ++ rest) =
        .ok (xs.map Value.detached, rest)) ∧
      (readAllValues find (Value.appendAllMessagePack [] xs)).map Prod.fst =
        xs.map fun x => .ok x.detached := by
  constructor
  · intro x encodable
    have alone := encodable.readsBack []
    rw [List.append_nil] at alone
    refine ⟨appendMessagePack_eq x, encodable.readsBack, ?_⟩
    simp [Value.ofMessagePack, readValue, alone, bind, Except.bind]
  · intro xs encodable
    have each : ∀ x ∈ xs, ReadsBack find (maxDepth + 1) x :=
      fun x member => (encodable x member).readsBack
    have bytes : xs.length ≤ (Value.allToMessagePack xs).length := by
      have items := two_mul_length_le xs
      omega
    have appended : Value.appendAllMessagePack [] xs = Value.allToMessagePack xs := by
      rw [appendAllMessagePack_eq, List.nil_append]
    refine ⟨?_, ?_, ?_⟩
    · intro buffer
      rw [appendAllMessagePack_eq, allToMessagePack_eq_flatten]
    · intro rest
      rw [appended]
      exact readMany_of_readsBack each rest
    · rw [appended]
      exact scan_allToMessagePack each _ bytes

/-- A list of every variant, with a closure that remembers a scope and a builtin of the
global scope, and behind it a number that is missing. -/
theorem every_variant_packed :
    let scope := (∅ : Store).pushGlobal Vocabulary.words.primitives
    let plus : Builtin := ⟨0, "+", .numeric .add⟩
    let x : Value := .list [.nil, .number ⟨0x8000000000000000⟩, .boolean true, .string "a b",
      .quote (.symbol "n"), .builtin plus, .closure (.list []) (.symbol "n") (some 0),
      .scopedLet (.list []) .nil]
    let y : Value := .number ⟨0x7FF8000000000001⟩
    (∀ z ∈ [x, y], z.Encodable (scope.lookup 0)) ∧
      Value.ofMessagePack (scope.lookup 0) x.toMessagePack = .ok x.detached ∧
      (readAllValues (scope.lookup 0) (Value.appendAllMessagePack [] [x, y])).map Prod.fst =
        [.ok x.detached, .ok y] := by
  intro scope plus x y
  have found : scope.lookup 0 "+" = some (.builtin plus) := rfl
  have first : x.Encodable (scope.lookup 0) := by
    refine ⟨by decide, by decide, ?_⟩
    intro b member
    obtain rfl : b = plus := by simpa [x, Value.builtins, Value.allBuiltins] using member
    exact found
  have second : y.Encodable (scope.lookup 0) := by
    refine ⟨by decide, by decide, ?_⟩
    intro b member
    simp [y, Value.builtins] at member
  have both : ∀ z ∈ [x, y], z.Encodable (scope.lookup 0) := by
    intro z member
    rcases List.mem_cons.1 member with rfl | member
    · exact first
    · obtain rfl := List.mem_singleton.1 member
      exact second
  obtain ⟨single, sequence⟩ := packing_is_lossless (scope.lookup 0)
  exact ⟨both, (single x first).2.2, (sequence [x, y] both).2.2⟩

end Argot
