import Argot.Datum.Json
import Argot.Interpreter.Basic
import Argot.Proofs.Packing

set_option autoImplicit false

/-!
# Values as plain data and back

Writing visits the numbers of a value from left to right and stops at the first that is
infinite or missing (`Value.firstUnwritable`); nothing else stops it.  Data that a value was
written as is read as that value again, by induction on the value: the keys of the objects
tell the variants apart, and the two keys of a pair are found in either order.
-/

namespace Argot

/-! ## The numbers of a value -/

theorem Binary64.isFinite_eq_false_iff (x : Binary64) :
    x.isFinite = false ↔ x.isNaN = true ∨ x.isInfinite = true := by
  simp only [isFinite, isNaN, isInfinite, decide_eq_false_iff_not, decide_eq_true_eq,
    beq_iff_eq]
  omega

namespace Value

mutual

/-- The numbers that occur in a value, from left to right. -/
def numbers : Value → List Binary64
  | .number x => [x]
  | .quote x => x.numbers
  | .list items => allNumbers items
  | .closure params body _ => params.numbers ++ body.numbers
  | .scopedLet bindings body => bindings.numbers ++ body.numbers
  | .nil | .symbol _ | .boolean _ | .string _ | .builtin _ => []

/-- The numbers that occur in the values, from left to right. -/
def allNumbers : List Value → List Binary64
  | [] => []
  | x :: xs => x.numbers ++ allNumbers xs

end

end Value

/-- The first of the numbers that plain data cannot hold. -/
def firstUnwritable (numbers : List Binary64) : Option Binary64 :=
  numbers.find? fun x => !x.isFinite

theorem firstUnwritable_append (first second : List Binary64) :
    firstUnwritable (first ++ second) = (firstUnwritable first).or (firstUnwritable second) :=
  List.find?_append

theorem firstUnwritable_isSome_iff (numbers : List Binary64) :
    (firstUnwritable numbers).isSome = true ↔
      ∃ x ∈ numbers, x.isNaN = true ∨ x.isInfinite = true := by
  rw [firstUnwritable, List.find?_isSome]
  simp only [Bool.not_eq_true', Binary64.isFinite_eq_false_iff]

/-! ## Writing -/

/-- Writing gives data when there is no unwritable number, and otherwise stops at one. -/
inductive Stops {α : Type} : Option Binary64 → Except DatumError α → Prop where
  | never (d : α) : Stops none (.ok d)
  | atNumber (x : Binary64) : Stops (some x) (.error (.notFinite x))

theorem Stops.map {α β : Type} {first : Option Binary64} {r : Except DatumError α} (f : α → β)
    (h : Stops first r) : Stops first (r >>= fun d => .ok (f d)) := by
  cases h with
  | never d => exact .never (f d)
  | atNumber x => exact .atNumber x

/-- What is written second is only reached when the first is written. -/
theorem Stops.pair {α β γ : Type} {first second : Option Binary64} {r : Except DatumError α}
    {s : Except DatumError β} (f : α → β → γ) (h : Stops first r) (k : Stops second s) :
    Stops (first.or second) (r >>= fun d => s >>= fun e => .ok (f d e)) := by
  cases h with
  | never d => exact k.map (f d)
  | atNumber x => exact .atNumber x

mutual

theorem stops_toDatum : (x : Value) → Stops (firstUnwritable x.numbers) x.toDatum
  | .nil | .boolean _ | .string _ | .symbol _ | .builtin _ => .never _
  | .number x => by
    rw [Value.numbers, Value.toDatum, firstUnwritable, List.find?_cons]
    cases x.isFinite with
    | false => exact .atNumber x
    | true => exact .never _
  | .quote x => by
    rw [Value.numbers, Value.toDatum]
    exact (stops_toDatum x).map _
  | .list xs => by
    rw [Value.numbers, Value.toDatum]
    exact (stops_allToDatum xs).map _
  | .closure params body _ => by
    rw [Value.numbers, Value.toDatum, firstUnwritable_append]
    exact (stops_toDatum params).pair _ (stops_toDatum body)
  | .scopedLet bindings body => by
    rw [Value.numbers, Value.toDatum, firstUnwritable_append]
    exact (stops_toDatum bindings).pair _ (stops_toDatum body)

theorem stops_allToDatum : (xs : List Value) →
    Stops (firstUnwritable (Value.allNumbers xs)) (Value.allToDatum xs)
  | [] => .never _
  | x :: xs => by
    rw [Value.allNumbers, Value.allToDatum, firstUnwritable_append]
    exact (stops_toDatum x).pair _ (stops_allToDatum xs)

end

theorem Stops.error_iff {α : Type} {first : Option Binary64} {r : Except DatumError α}
    (h : Stops first r) (e : DatumError) :
    r = .error e ↔ ∃ n, first = some n ∧ e = .notFinite n := by
  cases h with
  | never d => simp
  | atNumber n => simp [eq_comm]

theorem Stops.exists_ok {α : Type} {r : Except DatumError α} (h : Stops none r) :
    ∃ d, r = .ok d := by
  cases h with
  | never d => exact ⟨d, rfl⟩

/-! ## Reading -/

theorem map_eq_ok_iff {α β : Type} {r : Except DatumError α} {f : α → β} {y : β} :
    (r >>= fun x => .ok (f x)) = .ok y ↔ ∃ x, r = .ok x ∧ f x = y := by
  cases r with
  | error e => simp [bind, Except.bind]
  | ok x => simp [bind, Except.bind]

theorem pair_eq_ok_iff {α β γ : Type} {r : Except DatumError α} {s : Except DatumError β}
    {f : α → β → γ} {z : γ} :
    (r >>= fun x => s >>= fun y => .ok (f x y)) = .ok z ↔
      ∃ x y, r = .ok x ∧ s = .ok y ∧ f x y = z := by
  cases r with
  | error e => simp [bind, Except.bind]
  | ok x => cases s <;> simp [bind, Except.bind]

section Reading

variable {find : Text → Option Value}

theorem toValue_symbol (name : Text) :
    (Datum.object [("sym", .text name)]).toValue find = .ok (.symbol name) := by
  have key : Tag.ofKey? "sym" = some .symbol := by decide
  simp [Datum.toValue, Datum.objectToValue, key]

theorem toValue_quote_object (d : Datum) :
    (Datum.object [("quote", d)]).toValue find =
      d.toValue find >>= fun x => .ok (.quote x) := by
  have key : Tag.ofKey? "quote" = some .quote := by decide
  simp [Datum.toValue, Datum.objectToValue, key]

theorem toValue_quote {d : Datum} {x : Value} (inner : d.toValue find = .ok x) :
    (Datum.object [("quote", d)]).toValue find = .ok (.quote x) := by
  rw [toValue_quote_object, inner]
  rfl

theorem toValue_builtin {b : Builtin} (bound : find b.name = some (.builtin b)) :
    (Datum.object [("builtin", .text b.name)]).toValue find = .ok (.builtin b) := by
  have key : Tag.ofKey? "builtin" = some .builtin := by decide
  simp [Datum.toValue, Datum.objectToValue, key, findBuiltin_eq bound]

/-- The parts of a pair are found under their own keys. -/
theorem partToValue_own (k l : Text) (d e : Datum) :
    Datum.partToValue find k [(k, d), (l, e)] = d.toValue find := if_pos rfl

theorem partToValue_other {k l : Text} (differ : k ≠ l) (d e : Datum) :
    Datum.partToValue find l [(k, d), (l, e)] = e.toValue find := by
  rw [Datum.partToValue, if_neg differ, Datum.partToValue, if_pos rfl]

/-- The objects that stand for a pair: the key of the object, the key of the part beside the
body, and what the two parts make. -/
inductive PairKeys : (key part : Text) → (Value → Value → Value) → Prop where
  | closure : PairKeys "closure" "params" fun params body => .closure params body none
  | scopedLet : PairKeys "scoped-let" "variables" .scopedLet

namespace PairKeys

variable {key part : Text} {pair : Value → Value → Value}

theorem body_ne (keys : PairKeys key part pair) : Text.ofString "body" ≠ part := by
  cases keys <;> decide

theorem toDatum_eq (keys : PairKeys key part pair) (x body : Value) :
    (pair x body).toDatum = x.toDatum >>= fun d => body.toDatum >>= fun b =>
      .ok (.object [(key, .object [("body", b), (part, d)])]) := by
  cases keys <;> rfl

theorem toValue_object (keys : PairKeys key part pair) (parts : List (Text × Datum)) :
    (Datum.object [(key, .object parts)]).toValue find =
      Datum.partToValue find part parts >>= fun x =>
        Datum.partToValue find "body" parts >>= fun body => .ok (pair x body) := by
  cases keys with
  | closure =>
    have tag : Tag.ofKey? "closure" = some .closure := by decide
    simp [Datum.toValue, Datum.objectToValue, tag]
  | scopedLet =>
    have tag : Tag.ofKey? "scoped-let" = some .scopedLet := by decide
    simp [Datum.toValue, Datum.objectToValue, tag]

theorem toValue_eq (keys : PairKeys key part pair) {d b : Datum} {x body : Value}
    (first : d.toValue find = .ok x) (second : b.toValue find = .ok body) :
    (Datum.object [(key, .object [("body", b), (part, d)])]).toValue find = .ok (pair x body) := by
  rw [keys.toValue_object, partToValue_own, partToValue_other keys.body_ne, first, second]
  rfl

end PairKeys

mutual

/-- Data that a value was written as is read as that value, without the scopes that its
closures remember. -/
theorem toValue_of_toDatum : (x : Value) → {d : Datum} → x.toDatum = .ok d →
    (∀ b ∈ x.builtins, find b.name = some (.builtin b)) → d.toValue find = .ok x.detached
  | .nil, _, written, _ | .boolean _, _, written, _ | .string _, _, written, _ => by
    cases written
    rfl
  | .number x, _, written, _ => by
    rw [Value.toDatum] at written
    split at written
    · cases written
      rfl
    · cases written
  | .symbol name, _, written, _ => by
    cases written
    exact toValue_symbol name
  | .builtin b, _, written, bound => by
    cases written
    exact toValue_builtin (bound b (by simp [Value.builtins]))
  | .quote x, _, written, bound => by
    rw [Value.toDatum, map_eq_ok_iff] at written
    obtain ⟨d, inner, rfl⟩ := written
    exact toValue_quote (toValue_of_toDatum x inner bound)
  | .list xs, _, written, bound => by
    rw [Value.toDatum, map_eq_ok_iff] at written
    obtain ⟨ds, items, rfl⟩ := written
    have read := allToValue_of_allToDatum xs items bound
    simp [Datum.toValue, read, Value.detached, bind, Except.bind]
  | .closure params body _, _, written, bound => by
    rw [Value.toDatum, pair_eq_ok_iff] at written
    obtain ⟨p, b, first, second, rfl⟩ := written
    rw [Value.builtins] at bound
    exact PairKeys.closure.toValue_eq
      (toValue_of_toDatum params first fun b member => bound b (List.mem_append_left _ member))
      (toValue_of_toDatum body second fun b member => bound b (List.mem_append_right _ member))
  | .scopedLet bindings body, _, written, bound => by
    rw [Value.toDatum, pair_eq_ok_iff] at written
    obtain ⟨v, b, first, second, rfl⟩ := written
    rw [Value.builtins] at bound
    exact PairKeys.scopedLet.toValue_eq
      (toValue_of_toDatum bindings first fun b member => bound b (List.mem_append_left _ member))
      (toValue_of_toDatum body second fun b member => bound b (List.mem_append_right _ member))

theorem allToValue_of_allToDatum : (xs : List Value) → {ds : List Datum} →
    Value.allToDatum xs = .ok ds →
    (∀ b ∈ Value.allBuiltins xs, find b.name = some (.builtin b)) →
    Datum.allToValue find ds = .ok (Value.allDetached xs)
  | [], _, written, _ => by
    cases written
    rfl
  | x :: xs, _, written, bound => by
    rw [Value.allToDatum, pair_eq_ok_iff] at written
    obtain ⟨d, ds, first, others, rfl⟩ := written
    rw [Value.allBuiltins] at bound
    have read := toValue_of_toDatum x first fun b member =>
      bound b (List.mem_append_left _ member)
    have readOthers := allToValue_of_allToDatum xs others fun b member =>
      bound b (List.mem_append_right _ member)
    simp [Datum.allToValue, read, readOthers, Value.allDetached, bind, Except.bind]

end

end Reading

/-- **Plain data loses nothing but the scopes of closures, and only numbers that are
infinite or missing cannot be written.**

* Writing a value fails if and only if such a number occurs in it, wherever that is.  The
  failure is a value error, and it is about the first of them.
* Otherwise the value is written, and where names mean what `find` says, in any scope in which
  every builtin of the value is found under its own name, it is read back without the scopes
  that its closures remember.
* So is its JSON text, wherever reading JSON undoes writing it on the data in between. -/
theorem plain_data_is_lossless (x : Value) :
    ((∃ e, x.toDatum = .error e) ↔ ∃ n ∈ x.numbers, n.isNaN = true ∨ n.isInfinite = true) ∧
    (∀ e, x.toDatum = .error e →
      e.report.kind = .value ∧
      ∃ n, x.numbers.find? (fun n => n.isNaN || n.isInfinite) = some n ∧ e = .notFinite n) ∧
    ∀ find : Text → Option Value, (∀ b ∈ x.builtins, find b.name = some (.builtin b)) →
      (¬ ∃ n ∈ x.numbers, n.isNaN = true ∨ n.isInfinite = true) →
      ∃ d, x.toDatum = .ok d ∧ d.toValue find = .ok x.detached ∧
        (Datum.ofJson? d.toJson = some d →
          (Datum.ofJson? d.toJson).map (Datum.toValue find) = some (.ok x.detached)) := by
  have unwritable : (fun n : Binary64 => n.isNaN || n.isInfinite) = fun n => !n.isFinite := by
    funext n
    rw [Bool.eq_iff_iff, Bool.or_eq_true, Bool.not_eq_true', Binary64.isFinite_eq_false_iff]
  refine ⟨?_, ?_, ?_⟩
  · rw [← firstUnwritable_isSome_iff, Option.isSome_iff_exists]
    simp only [(stops_toDatum x).error_iff]
    exact ⟨fun ⟨_, n, first, _⟩ => ⟨n, first⟩, fun ⟨n, first⟩ => ⟨_, n, first, rfl⟩⟩
  · intro e failed
    obtain ⟨n, first, rfl⟩ := ((stops_toDatum x).error_iff e).1 failed
    rw [unwritable]
    exact ⟨rfl, n, first, rfl⟩
  · intro find bound finite
    rw [← firstUnwritable_isSome_iff, Option.not_isSome_iff_eq_none] at finite
    obtain ⟨d, written⟩ := (finite ▸ stops_toDatum x).exists_ok
    have read := toValue_of_toDatum x written bound
    refine ⟨d, written, read, ?_⟩
    intro undone
    rw [undone, Option.map_some, read]

/-- A list of every variant with a nil inside a quote and a closure that remembers a scope is
written and read back; with a number that is missing in the body of the closure it is not. -/
theorem every_variant_as_data :
    let scope := (∅ : Store).pushGlobal Vocabulary.words.primitives
    let plus : Builtin := ⟨0, "+", .numeric .add⟩
    let x (body : Value) : Value := .list [.nil, .number ⟨0x8000000000000000⟩, .boolean true,
      .string "sym", .quote (.quote .nil), .builtin plus, .closure (.list []) body (some 0),
      .scopedLet (.list []) .nil]
    (∃ d, (x (.symbol "n")).toDatum = .ok d ∧
      d.toValue (scope.lookup 0) = .ok (x (.symbol "n")).detached) ∧
    ∃ e, (x (.number .nan)).toDatum = .error e := by
  intro scope plus x
  have found : scope.lookup 0 "+" = some (.builtin plus) := rfl
  constructor
  · obtain ⟨d, written, read, _⟩ := (plain_data_is_lossless (x (.symbol "n"))).2.2
      (scope.lookup 0) (by
        intro b member
        obtain rfl : b = plus := by simpa [x, Value.builtins, Value.allBuiltins] using member
        exact found)
      (by decide)
    exact ⟨d, written, read⟩
  · exact (plain_data_is_lossless (x (.number .nan))).1.2 ⟨.nan, by decide, by decide⟩

end Argot
