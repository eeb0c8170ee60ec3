import Argot.Proofs.PlainData

set_option autoImplicit false

/-!
# Which data are values

Five shapes of objects stand for values (`Datum.Documented` lists all but builtins, which go by
name).  Data of these shapes are read as a value that is written as the same data again.

Reading accepts more than that.  It is strict about an object that says what it is, which has one
field of a known key, but not about the pair inside a closure or a block: there it looks for two
keys, takes a missing part for nil, and never looks at other parts.  `Datum.tidied` puts in what is
missing from the pairs and drops what is not looked at.  What is read from data is written as the
tidied data (`tidied_of_toValue`), so reading accepts just the data that are documented when
tidied, and only documented data are written back unchanged.
-/

namespace Argot

namespace Datum

/-! ## Documented and plain data -/

/-- The data that stand for values without builtins. -/
inductive Documented : Datum → Prop where
  | null : Documented .null
  | bool (b : Bool) : Documented (.bool b)
  | double {x : Binary64} (finite : x.isFinite = true) : Documented (.double x)
  | text (s : Text) : Documented (.text s)
  | array {items : List Datum} (each : ∀ d ∈ items, Documented d) : Documented (.array items)
  | symbol (name : Text) : Documented (.object [("sym", .text name)])
  | quote {d : Datum} (inner : Documented d) : Documented (.object [("quote", d)])
  | closure {params body : Datum} (first : Documented params) (second : Documented body) :
      Documented (.object [("closure", .object [("body", body), ("params", params)])])
  | scopedLet {bindings body : Datum} (first : Documented bindings) (second : Documented body) :
      Documented (.object [("scoped-let", .object [("body", body), ("variables", bindings)])])

/-- Whether an object with these fields stands for a builtin. -/
def namesBuiltin : List (Text × Datum) → Bool
  | [(key, _)] => key == "builtin"
  | _ => false

mutual

/-- Whether data are made of nil, truth values, finite numbers, texts, arrays and objects, without
any object that stands for a builtin. -/
def isPlain : Datum → Bool
  | .null | .bool _ | .text _ => true
  | .double x => x.isFinite
  | .array items => allPlain items
  | .object fields => !namesBuiltin fields && fieldsPlain fields
  | .single _ | .integer _ _ | .bytes _ => false
termination_by structural d => d

/-- Whether all data are plain. -/
def allPlain : List Datum → Bool
  | [] => true
  | d :: ds => d.isPlain && allPlain ds
termination_by structural items => items

/-- Whether the data of all fields are plain. -/
def fieldsPlain : List (Text × Datum) → Bool
  | [] => true
  | (_, d) :: rest => d.isPlain && fieldsPlain rest
termination_by structural fields => fields

end

/-! ## Tidied data -/

mutual

/-- The data with nothing but their two parts in all pairs that are read, nil for a missing one. -/
def tidied : Datum → Datum
  | .array items => .array (allTidied items)
  | .object fields => .object (fieldsTidied fields)
  | .null => .null
  | .bool b => .bool b
  | .double x => .double x
  | .single x => .single x
  | .integer type i => .integer type i
  | .text s => .text s
  | .bytes s => .bytes s
termination_by structural d => d

/-- The data of a list, tidied. -/
def allTidied : List Datum → List Datum
  | [] => []
  | d :: ds => d.tidied :: allTidied ds
termination_by structural items => items

/-- The fields of an object, tidied by what its key says. -/
def fieldsTidied : List (Text × Datum) → List (Text × Datum)
  | [(key, d)] =>
    match Tag.ofKey? key with
    | some .quote => [(key, d.tidied)]
    | some .closure =>
      match d with
      | .object parts =>
        [(key, .object [("body", partTidied "body" parts), ("params", partTidied "params" parts)])]
      | d => [(key, d)]
    | some .scopedLet =>
      match d with
      | .object parts =>
        [(key, .object [("body", partTidied "body" parts),
          ("variables", partTidied "variables" parts)])]
      | d => [(key, d)]
    | _ => [(key, d)]
  | fields => fields
termination_by structural fields => fields

/-- The part under a key, tidied, or nil. -/
def partTidied (key : Text) : List (Text × Datum) → Datum
  | [] => .null
  | (k, d) :: rest => if k = key then d.tidied else partTidied key rest
termination_by structural parts => parts

end

end Datum

/-! ## Objects that are read -/

/-- The key of the objects with a tag. -/
def Tag.key : Tag → Text
  | .symbol => "sym"
  | .quote => "quote"
  | .builtin => "builtin"
  | .closure => "closure"
  | .scopedLet => "scoped-let"

theorem Tag.key_of_ofKey? {key : Text} {tag : Tag} (known : Tag.ofKey? key = some tag) :
    tag.key = key := by
  grind [Tag.ofKey?, Tag.key]

theorem Tag.ofKey?_key (tag : Tag) : Tag.ofKey? tag.key = some tag := by
  cases tag <;> decide

section Reading

variable {find : Text → Option Value}

open Datum

/-- What an object with one field is read as, by the key of the field. -/
inductive ObjectReads (find : Text → Option Value) : Text → Datum → Value → Prop where
  | symbol (name : Text) : ObjectReads find "sym" (.text name) (.symbol name)
  | quote {d : Datum} {x : Value} (inner : d.toValue find = .ok x) :
      ObjectReads find "quote" d (.quote x)
  | builtin {name : Text} {x : Value} (found : findBuiltin find name = some x) :
      ObjectReads find "builtin" (.text name) x
  | closure {parts : List (Text × Datum)} {params body : Value}
      (first : partToValue find "params" parts = .ok params)
      (second : partToValue find "body" parts = .ok body) :
      ObjectReads find "closure" (.object parts) (.closure params body none)
  | scopedLet {parts : List (Text × Datum)} {bindings body : Value}
      (first : partToValue find "variables" parts = .ok bindings)
      (second : partToValue find "body" parts = .ok body) :
      ObjectReads find "scoped-let" (.object parts) (.scopedLet bindings body)

theorem objectReads_of_objectToValue {key : Text} {d : Datum} {x : Value}
    (read : objectToValue find [(key, d)] = .ok x) : ObjectReads find key d x := by
  unfold objectToValue at read
  cases known : Tag.ofKey? key with
  | none =>
    simp only [known] at read
    cases read
  | some tag =>
    simp only [known] at read
    cases Tag.key_of_ofKey? known
    cases tag with
    | symbol =>
      cases d with
      | text name =>
        cases read
        exact .symbol name
      | _ => cases read
    | quote =>
      obtain ⟨x, inner, rfl⟩ := map_eq_ok_iff.1 read
      exact .quote inner
    | builtin =>
      cases d with
      | text name =>
        dsimp only at read
        cases found : findBuiltin find name with
        | none =>
          rw [found] at read
          cases read
        | some y =>
          rw [found] at read
          cases read
          exact .builtin found
      | _ => cases read
    | closure =>
      cases d with
      | object parts =>
        obtain ⟨params, body, first, second, rfl⟩ := pair_eq_ok_iff.1 read
        exact .closure first second
      | _ => cases read
    | scopedLet =>
      cases d with
      | object parts =>
        obtain ⟨bindings, body, first, second, rfl⟩ := pair_eq_ok_iff.1 read
        exact .scopedLet first second
      | _ => cases read

/-! ## Documented data -/

theorem exists_allToValue {ds : List Datum}
    (each : ∀ d ∈ ds, ∃ x, d.toValue find = .ok x ∧ x.toDatum = .ok d) :
    ∃ xs, allToValue find ds = .ok xs ∧ Value.allToDatum xs = .ok ds := by
  induction ds with
  | nil => exact ⟨[], rfl, rfl⟩
  | cons d ds ih =>
    obtain ⟨x, read, written⟩ := each d List.mem_cons_self
    obtain ⟨xs, readAll, writtenAll⟩ := ih fun e member => each e (List.mem_cons_of_mem d member)
    refine ⟨x :: xs, ?_, ?_⟩
    · rw [allToValue, pair_eq_ok_iff]
      exact ⟨x, xs, read, readAll, rfl⟩
    · rw [Value.allToDatum, pair_eq_ok_iff]
      exact ⟨d, ds, written, writtenAll, rfl⟩

theorem PairKeys.exists_value {key part : Text} {pair : Value → Value → Value}
    (keys : PairKeys key part pair) {d b : Datum} {x body : Value}
    (read : d.toValue find = .ok x) (read' : b.toValue find = .ok body)
    (written : x.toDatum = .ok d) (written' : body.toDatum = .ok b) :
    ∃ y, (Datum.object [(key, .object [("body", b), (part, d)])]).toValue find = .ok y ∧
      y.toDatum = .ok (.object [(key, .object [("body", b), (part, d)])]) := by
  refine ⟨pair x body, keys.toValue_eq read read', ?_⟩
  rw [keys.toDatum_eq, written, written']
  rfl

/-- Documented data are read, and what is read is written as the same data. -/
theorem Datum.Documented.exists_value (find : Text → Option Value) {d : Datum}
    (documented : d.Documented) : ∃ x, d.toValue find = .ok x ∧ x.toDatum = .ok d := by
  induction documented with
  | null => exact ⟨.nil, rfl, rfl⟩
  | bool b => exact ⟨.boolean b, rfl, rfl⟩
  | @double n finite => exact ⟨.number n, rfl, if_pos finite⟩
  | text s => exact ⟨.string s, rfl, rfl⟩
  | array _ ih =>
    obtain ⟨xs, read, written⟩ := exists_allToValue ih
    refine ⟨.list xs, ?_, ?_⟩
    · rw [Datum.toValue, map_eq_ok_iff]
      exact ⟨xs, read, rfl⟩
    · rw [Value.toDatum, map_eq_ok_iff]
      exact ⟨_, written, rfl⟩
  | symbol name => exact ⟨.symbol name, toValue_symbol name, rfl⟩
  | quote _ ih =>
    obtain ⟨x, read, written⟩ := ih
    refine ⟨.quote x, toValue_quote read, ?_⟩
    rw [Value.toDatum, map_eq_ok_iff]
    exact ⟨_, written, rfl⟩
  | closure _ _ ih ih' =>
    obtain ⟨params, read, written⟩ := ih
    obtain ⟨body, read', written'⟩ := ih'
    exact PairKeys.closure.exists_value read read' written written'
  | scopedLet _ _ ih ih' =>
    obtain ⟨bindings, read, written⟩ := ih
    obtain ⟨body, read', written'⟩ := ih'
    exact PairKeys.scopedLet.exists_value read read' written written'

/-! ## Tidied data -/

theorem tidied_symbol (d : Datum) :
    (Datum.object [("sym", d)]).tidied = .object [("sym", d)] := by
  have key : Tag.ofKey? "sym" = some .symbol := Tag.ofKey?_key .symbol
  simp [tidied, fieldsTidied, key]

theorem tidied_quote (d : Datum) :
    (Datum.object [("quote", d)]).tidied = .object [("quote", d.tidied)] := by
  have key : Tag.ofKey? "quote" = some .quote := Tag.ofKey?_key .quote
  simp [tidied, fieldsTidied, key]

theorem PairKeys.tidied_object {key part : Text} {pair : Value → Value → Value}
    (keys : PairKeys key part pair) (parts : List (Text × Datum)) :
    (Datum.object [(key, .object parts)]).tidied =
      .object [(key, .object
        [("body", partTidied "body" parts), (part, partTidied part parts)])] := by
  cases keys with
  | closure =>
    have tag : Tag.ofKey? "closure" = some .closure := Tag.ofKey?_key .closure
    simp [tidied, fieldsTidied, tag]
  | scopedLet =>
    have tag : Tag.ofKey? "scoped-let" = some .scopedLet := Tag.ofKey?_key .scopedLet
    simp [tidied, fieldsTidied, tag]

mutual

/-- What is read from plain data is written as the tidied data, which are documented. -/
theorem tidied_of_toValue : (d : Datum) → {x : Value} → d.isPlain = true →
    d.toValue find = .ok x → x.toDatum = .ok d.tidied ∧ d.tidied.Documented
  | .null, _, _, read => by
    cases read
    exact ⟨rfl, .null⟩
  | .bool b, _, _, read => by
    cases read
    exact ⟨rfl, .bool b⟩
  | .text s, _, _, read => by
    cases read
    exact ⟨rfl, .text s⟩
  | .double n, _, finite, read => by
    cases read
    exact ⟨if_pos finite, .double finite⟩
  | .array items, _, plain, read => by
    rw [Datum.toValue, map_eq_ok_iff] at read
    obtain ⟨xs, each, rfl⟩ := read
    obtain ⟨written, documented⟩ := tidied_of_allToValue items plain each
    rw [Value.toDatum, written]
    exact ⟨rfl, .array documented⟩
  | .object fields, _, plain, read => by
    rw [isPlain, Bool.and_eq_true, Bool.not_eq_true'] at plain
    exact tidied_of_objectToValue fields plain.1 plain.2 read
termination_by d => sizeOf d

theorem tidied_of_allToValue : (ds : List Datum) → {xs : List Value} → allPlain ds = true →
    allToValue find ds = .ok xs →
      Value.allToDatum xs = .ok (allTidied ds) ∧ ∀ d ∈ allTidied ds, d.Documented
  | [], _, _, read => by
    cases read
    exact ⟨rfl, fun _ member => nomatch member⟩
  | d :: ds, _, plain, read => by
    rw [allPlain, Bool.and_eq_true] at plain
    rw [allToValue, pair_eq_ok_iff] at read
    obtain ⟨x, xs, first, others, rfl⟩ := read
    obtain ⟨written, documented⟩ := tidied_of_toValue d plain.1 first
    obtain ⟨writtenAll, documentedAll⟩ := tidied_of_allToValue ds plain.2 others
    rw [Value.allToDatum, written, writtenAll]
    exact ⟨rfl, List.forall_mem_cons.2 ⟨documented, documentedAll⟩⟩
termination_by ds => sizeOf ds

theorem tidied_of_objectToValue : (fields : List (Text × Datum)) → {x : Value} →
    namesBuiltin fields = false → fieldsPlain fields = true →
    objectToValue find fields = .ok x →
      x.toDatum = .ok (Datum.object fields).tidied ∧ (Datum.object fields).tidied.Documented
  | [], _, _, _, read | _ :: _ :: _, _, _, _, read => by cases read
  | [(key, d)], _, noBuiltin, plain, read => by
    rw [fieldsPlain, Bool.and_eq_true] at plain
    cases objectReads_of_objectToValue read with
    | symbol name =>
      rw [tidied_symbol]
      exact ⟨rfl, .symbol name⟩
    | quote inner =>
      obtain ⟨written, documented⟩ := tidied_of_toValue d plain.1 inner
      rw [tidied_quote, Value.toDatum, written]
      exact ⟨rfl, .quote documented⟩
    | builtin => cases noBuiltin
    | @closure parts params body first second =>
      rw [isPlain, Bool.and_eq_true] at plain
      obtain ⟨written, documented⟩ := tidied_of_partToValue "params" parts plain.1.2 first
      obtain ⟨written', documented'⟩ := tidied_of_partToValue "body" parts plain.1.2 second
      rw [PairKeys.closure.tidied_object, Value.toDatum, written, written']
      exact ⟨rfl, .closure documented documented'⟩
    | @scopedLet parts bindings body first second =>
      rw [isPlain, Bool.and_eq_true] at plain
      obtain ⟨written, documented⟩ := tidied_of_partToValue "variables" parts plain.1.2 first
      obtain ⟨written', documented'⟩ := tidied_of_partToValue "body" parts plain.1.2 second
      rw [PairKeys.scopedLet.tidied_object, Value.toDatum, written, written']
      exact ⟨rfl, .scopedLet documented documented'⟩
termination_by fields => sizeOf fields

theorem tidied_of_partToValue (key : Text) : (parts : List (Text × Datum)) → {x : Value} →
    fieldsPlain parts = true → partToValue find key parts = .ok x →
      x.toDatum = .ok (partTidied key parts) ∧ (partTidied key parts).Documented
  | [], _, _, read => by
    cases read
    exact ⟨rfl, .null⟩
  | (k, d) :: rest, _, plain, read => by
    rw [fieldsPlain, Bool.and_eq_true] at plain
    rw [partToValue] at read
    rw [partTidied]
    split at read
    next found =>
      rw [if_pos found]
      exact tidied_of_toValue d plain.1 read
    next other =>
      rw [if_neg other]
      exact tidied_of_partToValue key rest plain.2 read
termination_by parts => sizeOf parts

end

/-- Tidying changes an object only if it is read as a quote, a closure or a block. -/
theorem tidied_cases (key : Text) (d : Datum) :
    (Datum.object [(key, d)]).tidied = .object [(key, d)] ∨
    key = "quote" ∨
    ∃ part pair parts, PairKeys key part pair ∧ d = .object parts := by
  unfold tidied fieldsTidied
  cases known : Tag.ofKey? key with
  | none => exact .inl rfl
  | some tag =>
    have named := Tag.key_of_ofKey? known
    cases tag with
    | symbol | builtin => exact .inl rfl
    | quote => exact .inr (.inl named.symm)
    | closure =>
      cases d with
      | object parts =>
        subst named
        exact .inr (.inr ⟨_, _, parts, .closure, rfl⟩)
      | _ => exact .inl rfl
    | scopedLet =>
      cases d with
      | object parts =>
        subst named
        exact .inr (.inr ⟨_, _, parts, .scopedLet, rfl⟩)
      | _ => exact .inl rfl

mutual

/-- Reading does not see what tidying changes. -/
theorem toValue_tidied : (d : Datum) → d.tidied.toValue find = d.toValue find
  | .null | .bool _ | .text _ | .double _ | .single _ | .integer _ _ | .bytes _ => rfl
  | .array items => by rw [tidied, Datum.toValue, Datum.toValue, allToValue_tidied items]
  | .object fields => toValue_object_tidied fields
termination_by d => sizeOf d

theorem allToValue_tidied : (ds : List Datum) →
    allToValue find (allTidied ds) = allToValue find ds
  | [] => rfl
  | d :: ds => by rw [allTidied, allToValue, allToValue, toValue_tidied d, allToValue_tidied ds]
termination_by ds => sizeOf ds

theorem toValue_object_tidied : (fields : List (Text × Datum)) →
    (Datum.object fields).tidied.toValue find = (Datum.object fields).toValue find
  | [] | _ :: _ :: _ => rfl
  | [(key, d)] => by
    rcases tidied_cases key d with same | rfl | ⟨part, pair, parts, keys, rfl⟩
    · rw [same]
    · rw [tidied_quote, toValue_quote_object, toValue_quote_object, toValue_tidied d]
    · rw [keys.tidied_object, keys.toValue_object, keys.toValue_object, partToValue_own,
        partToValue_other keys.body_ne, toValue_partTidied part parts,
        toValue_partTidied "body" parts]
termination_by fields => sizeOf fields

theorem toValue_partTidied (key : Text) : (parts : List (Text × Datum)) →
    (partTidied key parts).toValue find = partToValue find key parts
  | [] => rfl
  | (k, d) :: rest => by
    rw [partTidied, partToValue]
    split
    · exact toValue_tidied d
    · exact toValue_partTidied key rest
termination_by parts => sizeOf parts

end

end Reading

/-- **Reading is strict about objects and lenient about the pairs in them.**  For plain data, that
is data with finite numbers and without builtins, and whatever names mean:

* they are read as a value if and only if they are documented once they are tidied, that is, once
  every pair that is read holds its two parts and nothing else, with nil for a missing part;
* the value is written as the tidied data; so it is written as the data it was read from if and only
  if these are documented: every object in them is exactly one of those that stand for a symbol, a
  quote, a closure or a block, with no key missing and none added at either level. -/
theorem plain_data_is_read_up_to_pairs {d : Datum} (plain : d.isPlain = true)
    (find : Text → Option Value) :
    ((∃ x, d.toValue find = .ok x) ↔ d.tidied.Documented) ∧
    ∀ x, d.toValue find = .ok x →
      x.toDatum = .ok d.tidied ∧ (x.toDatum = .ok d ↔ d.Documented) := by
  constructor
  · constructor
    · rintro ⟨x, read⟩
      exact (tidied_of_toValue d plain read).2
    · intro documented
      obtain ⟨x, read, _⟩ := documented.exists_value find
      exact ⟨x, toValue_tidied d ▸ read⟩
  · intro x read
    obtain ⟨written, documented⟩ := tidied_of_toValue d plain read
    refine ⟨written, ?_, ?_⟩
    · intro same
      rw [written] at same
      exact Except.ok.inj same ▸ documented
    · intro strict
      obtain ⟨y, readAgain, back⟩ := strict.exists_value find
      rw [read] at readAgain
      rwa [Except.ok.inj readAgain]

/-- A quoted closure without a body, and with a note that is not looked at, is read; it is written
with nil for the body and without the note. -/
theorem closure_with_note_is_tidied :
    let params : Datum := .array [.object [("sym", .text "x")]]
    let d : Datum := .object [("quote", .object [("closure",
      .object [("note", .object []), ("params", params)])])]
    let tidy : Datum := .object [("quote", .object [("closure",
      .object [("body", .null), ("params", params)])])]
    d.isPlain = true ∧
    ∃ x, d.toValue (fun _ => none) = .ok x ∧ x.toDatum = .ok tidy ∧ ¬ d.Documented := by
  intro params d tidy
  have plain : d.isPlain = true := by decide
  have read : d.toValue (fun _ => none) =
      .ok (.quote (.closure (.list [.symbol "x"]) .nil none)) := by rfl
  obtain ⟨written, strict⟩ := (plain_data_is_read_up_to_pairs plain fun _ => none).2 _ read
  have tidied : d.tidied = tidy := by rfl
  rw [tidied] at written
  refine ⟨plain, _, read, written, fun documented => ?_⟩
  have same := written.symm.trans (strict.2 documented)
  simp [tidy, d] at same

/-- A closure without any part is read, though it is none of the documented objects, and it is not
written as it was. -/
theorem closure_without_parts_is_read :
    let d : Datum := .object [("closure", .object [])]
    let x : Value := .closure .nil .nil none
    d.isPlain = true ∧ d.toValue (fun _ => none) = .ok x ∧
    x.toDatum = .ok (.object [("closure", .object [("body", .null), ("params", .null)])]) ∧
    x.toDatum ≠ .ok d := by
  refine ⟨by decide, rfl, rfl, ?_⟩
  intro same
  simp [Value.toDatum, bind, Except.bind] at same

end Argot
