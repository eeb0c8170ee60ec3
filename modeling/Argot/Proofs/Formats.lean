import Argot.Proofs.Delimiting
import Argot.Proofs.PlainData
import Argot.Proofs.Refusals

set_option autoImplicit false

/-!
# One run in several formats

A text is run before its results are rendered, so that the format has no influence on the run
(`Machine.runOutput_eq`).  Text and MessagePack render every value; hence a run is displayed in
both or in neither, and what is complained about is the first failure of a form.  JSON has no
notation for numbers that are infinite or missing, and renders exactly the values in which none
occurs (`exists_render_json_iff`).

A line of hexadecimal digits stands for bytes (`Text.ofHexDump?`), and the bytes for a value.  It is
the value of the line of text at the same place, without the scopes that its closures remember; in
print these are not seen anyway (`Value.print_detached`).
-/

namespace Argot

/-! ## Hexadecimal digits -/

namespace Text

/-- The bytes that a text gives as two hexadecimal digits each. -/
def ofHexDump? : Text → Option Text
  | [] => some []
  | [_] => none
  | high :: low :: rest => do
    let h ← Numeral.hexDigit? high
    let l ← Numeral.hexDigit? low
    let t ← ofHexDump? rest
    some (UInt8.ofNat (16 * h + l) :: t)

theorem exists_hexDigits (b : UInt8) :
    ∃ high low, ofHex 2 b.toNat = [high, low] ∧
      Numeral.hexDigit? high = some (b.toNat / 16) ∧
      Numeral.hexDigit? low = some (b.toNat % 16) := by
  -- digits are made by repeated division, which for a byte is no more than a table
  have all : ∀ n : Fin 256,
      (ofHex 2 n).map Numeral.hexDigit? = [some (n.val / 16), some (n.val % 16)] := by
    decide +kernel
  have digits : (ofHex 2 b.toNat).map Numeral.hexDigit? =
      [some (b.toNat / 16), some (b.toNat % 16)] :=
    all ⟨b.toNat, b.toNat_lt⟩
  obtain ⟨high, rest, split, first, others⟩ := List.map_eq_cons_iff.1 digits
  obtain ⟨low, none, split', second, last⟩ := List.map_eq_cons_iff.1 others
  obtain rfl := List.map_eq_nil_iff.1 last
  exact ⟨high, low, by rw [split, split'], first, second⟩

/-- The digits of bytes stand for these bytes. -/
theorem ofHexDump?_hexDump (t : Text) : ofHexDump? t.hexDump = some t := by
  induction t with
  | nil => rfl
  | cons b t ih =>
    obtain ⟨high, low, digits, first, second⟩ := exists_hexDigits b
    have byte : UInt8.ofNat (16 * (b.toNat / 16) + b.toNat % 16) = b := by
      rw [Nat.div_add_mod, UInt8.ofNat_toNat]
    have shown : hexDump (b :: t) = high :: low :: hexDump t := by
      rw [hexDump, List.flatMap_cons, digits]
      rfl
    rw [shown, ofHexDump?, first, second, ih]
    simp only [Option.bind_eq_bind, Option.bind_some, byte]

end Text

/-! ## Values without scopes -/

namespace Value

mutual

/-- The scope that a closure remembers is not seen in print. -/
theorem write_detached (v : Vocabulary) : (x : Value) → (tail : Text) →
    x.detached.write v tail = x.write v tail
  | .nil, _ | .symbol _, _ | .number _, _ | .boolean _, _ | .string _, _ | .builtin _, _ => rfl
  | .quote x, tail => by rw [detached, write, write, write_detached v x]
  | .list xs, tail => by rw [detached, write, write, writeItems_detached v xs]
  | .closure params body _, tail => by
    rw [detached, write, write, write_detached v params, write_detached v body]
  | .scopedLet bindings body, tail => by
    rw [detached, write, write, write_detached v bindings, write_detached v body]

theorem writeItems_detached (v : Vocabulary) : (xs : List Value) → (tail : Text) →
    writeItems v (allDetached xs) tail = writeItems v xs tail
  | [], _ => rfl
  | [x], tail => by
    rw [allDetached, allDetached, writeItems, writeItems, write_detached v x]
  | x :: y :: rest, tail => by
    have others := writeItems_detached v (y :: rest) tail
    rw [allDetached] at others
    rw [allDetached, allDetached, writeItems, writeItems, write_detached v x, others]

end

theorem print_detached (v : Vocabulary) (x : Value) : x.detached.print v = x.print v :=
  write_detached v x []

/-- An encodable value is read back from the digits of its encoding. -/
theorem Encodable.ofMessagePack_eq {find : Text → Option Value} {x : Value}
    (encodable : x.Encodable find) : ofMessagePack find x.toMessagePack = .ok x.detached := by
  have alone := encodable.readsBack []
  rw [List.append_nil] at alone
  exact ofMessagePack_of_readValue alone

end Value

/-! ## Rendering -/

section Rendering

variable {v : Vocabulary} {f : Format} {ys : List Outcome} {lines : List Text}

/-- JSON renders the values without a number that is infinite or missing. -/
theorem exists_render_json_iff {x : Value} : (∃ line, Format.json.render v x = .ok line) ↔
    ∀ n ∈ x.numbers, n.isNaN = false ∧ n.isInfinite = false := by
  have finite : (∀ n ∈ x.numbers, n.isNaN = false ∧ n.isInfinite = false) ↔
      firstUnwritable x.numbers = none := by
    rw [← Option.not_isSome_iff_eq_none, firstUnwritable_isSome_iff]
    simp
  rw [finite]
  have stops := stops_toDatum x
  cases first : firstUnwritable x.numbers with
  | none =>
    rw [first] at stops
    obtain ⟨d, written⟩ := stops.exists_ok
    refine iff_of_true ⟨d.toJson, ?_⟩ rfl
    rw [Format.render, written]
  | some n =>
    rw [first] at stops
    have failed : x.toDatum = .error (.notFinite n) := (stops.error_iff _).2 ⟨n, rfl, rfl⟩
    refine iff_of_false ?_ nofun
    rintro ⟨line, rendered⟩
    rw [Format.render, failed] at rendered
    cases rendered

/-- A result has a line if it is a value that the format renders. -/
theorem line_eq_ok_iff {y : Outcome} {line : Text} :
    Outcome.line v f y = .ok line ↔ ∃ x, y = .ok x ∧ f.render v x = .ok line := by
  cases y with
  | error e => exact iff_of_false nofun nofun
  | ok x =>
    cases rendered : f.render v x <;> simp [Outcome.line, rendered]

/-- Results are displayed if and only if all are values that the format renders. -/
theorem outcomeLines_eq_ok_iff_render : outcomeLines v f ys = .ok lines ↔
    ∃ xs : List Value, ys = xs.map .ok ∧ xs.map (f.render v) = lines.map .ok := by
  rw [outcomeLines_eq_ok_iff]
  induction ys generalizing lines with
  | nil =>
    cases lines with
    | nil => exact iff_of_true rfl ⟨[], rfl, rfl⟩
    | cons line lines =>
      refine iff_of_false nofun ?_
      rintro ⟨xs, all, rendered⟩
      obtain rfl := List.map_eq_nil_iff.1 all.symm
      cases rendered
  | cons y ys ih =>
    cases lines with
    | nil =>
      refine iff_of_false nofun ?_
      rintro ⟨xs, all, rendered⟩
      obtain rfl := List.map_eq_nil_iff.1 rendered
      cases all
    | cons line lines =>
      rw [List.map_cons, List.map_cons, List.cons.injEq, line_eq_ok_iff, ih]
      constructor
      · rintro ⟨⟨x, rfl, first⟩, xs, rfl, others⟩
        exact ⟨x :: xs, rfl, by rw [List.map_cons, first, others, List.map_cons]⟩
      · rintro ⟨xs, all, rendered⟩
        obtain ⟨x, xs, rfl, rfl, rfl⟩ := List.map_eq_cons_iff.1 all.symm
        obtain ⟨first, others⟩ := List.cons.inj rendered
        exact ⟨⟨x, rfl, first⟩, xs, rfl, others⟩

/-- Values have lines together if each of them has one. -/
theorem exists_map_render_iff {xs : List Value} :
    (∃ lines : List Text, xs.map (f.render v) = lines.map .ok) ↔
      ∀ x ∈ xs, ∃ line, f.render v x = .ok line := by
  induction xs with
  | nil => exact iff_of_true ⟨[], rfl⟩ nofun
  | cons x xs ih =>
    rw [List.forall_mem_cons, ← ih]
    constructor
    · rintro ⟨lines, rendered⟩
      obtain ⟨line, lines, rfl, first, others⟩ := List.map_eq_cons_iff.1 rendered.symm
      exact ⟨⟨line, first.symm⟩, lines, others.symm⟩
    · rintro ⟨⟨line, first⟩, lines, others⟩
      exact ⟨line :: lines, by rw [List.map_cons, first, others, List.map_cons]⟩

theorem map_ok_eq_iff {xs : List Value} {g : Value → Text} :
    xs.map (fun x => (.ok (g x) : Except Report Text)) = lines.map .ok ↔ lines = xs.map g := by
  have composed : xs.map (fun x => (.ok (g x) : Except Report Text)) = (xs.map g).map .ok := by
    rw [List.map_map]
    rfl
  rw [composed, List.map_inj_right fun _ _ => Except.ok.inj, eq_comm]

/-- In a format that renders every value, what is complained about is the first failure. -/
theorem outcomeLines_eq_error_iff_of_renders (renders : ∀ x, ∃ line, f.render v x = .ok line)
    {c : Complaint} : outcomeLines v f ys = .error c ↔
      ∃ before e after, ys = before ++ .error e :: after ∧ (∀ z ∈ before, ∃ x, z = .ok x) ∧
        c = ⟨.evaluator, e.message v⟩ := by
  have hasLine (z : Outcome) : (∃ line, Outcome.line v f z = .ok line) ↔ ∃ x, z = .ok x := by
    simp only [line_eq_ok_iff]
    constructor
    · rintro ⟨_, x, same, _⟩
      exact ⟨x, same⟩
    · rintro ⟨x, rfl⟩
      obtain ⟨line, rendered⟩ := renders x
      exact ⟨line, x, rfl, rendered⟩
  rw [outcomeLines_eq_error_iff]
  simp only [hasLine]
  constructor
  · rintro ⟨before, y, after, rfl, values, wrong⟩
    cases y with
    | ok x =>
      obtain ⟨line, shown⟩ := (hasLine (.ok x)).2 ⟨x, rfl⟩
      rw [shown] at wrong
      cases wrong
    | error e =>
      cases wrong
      exact ⟨before, e, after, rfl, values, rfl⟩
  · rintro ⟨before, e, after, rfl, values, rfl⟩
    exact ⟨before, .error e, after, rfl, values, rfl⟩

end Rendering

/-! ## Runs on display -/

namespace Machine

variable {m n : Machine} {text : Text} {fuel : Nat} {f : Format} {lines : List Text}

/-- A run is displayed if it is answered with values that the format renders. -/
theorem runOutput_eq_ok_iff : runOutput fuel f text m = some (.ok lines, n) ↔
    ∃ xs : List Value, run fuel text m = some (.ok (xs.map .ok), n) ∧
      xs.map (f.render m.interpreter.vocabulary) = lines.map .ok := by
  rw [runOutput_eq_some_iff]
  constructor
  · rintro ⟨answer, ran, shown⟩
    cases answer with
    | error r => cases shown
    | ok ys =>
      obtain ⟨xs, rfl, rendered⟩ := outcomeLines_eq_ok_iff_render.1 shown
      exact ⟨xs, ran, rendered⟩
  · rintro ⟨xs, ran, rendered⟩
    exact ⟨_, ran, outcomeLines_eq_ok_iff_render.2 ⟨xs, rfl, rendered⟩⟩

theorem exists_runOutput_eq_ok_iff : (∃ lines, runOutput fuel f text m = some (.ok lines, n)) ↔
    ∃ xs : List Value, run fuel text m = some (.ok (xs.map .ok), n) ∧
      ∀ x ∈ xs, ∃ line, f.render m.interpreter.vocabulary x = .ok line := by
  simp only [runOutput_eq_ok_iff, ← exists_map_render_iff]
  exact ⟨fun ⟨lines, xs, ran, rendered⟩ => ⟨xs, ran, lines, rendered⟩,
    fun ⟨xs, ran, lines, rendered⟩ => ⟨lines, xs, ran, rendered⟩⟩

/-- Formats that render every value complain about the same. -/
theorem runOutput_eq_error_iff_of_renders {g : Format} {c : Complaint}
    (renders : ∀ x, ∃ line, f.render m.interpreter.vocabulary x = .ok line)
    (renders' : ∀ x, ∃ line, g.render m.interpreter.vocabulary x = .ok line) :
    runOutput fuel f text m = some (.error c, n) ↔
      runOutput fuel g text m = some (.error c, n) := by
  rw [runOutput_eq_some_iff, runOutput_eq_some_iff]
  refine exists_congr fun answer => and_congr_right fun _ => ?_
  cases answer with
  | error r => exact Iff.rfl
  | ok ys =>
    exact (outcomeLines_eq_error_iff_of_renders renders).trans
      (outcomeLines_eq_error_iff_of_renders renders').symm

/-- A run that is not refused has as many results as forms were read. -/
theorem length_of_run {ys : List Outcome} (ran : run fuel text m = some (.ok ys, n)) :
    ∃ forms, (m.interpreter.read text).1 = .ok forms ∧ ys.length = forms.length := by
  cases read : m.interpreter.read text with
  | mk result i =>
    cases result with
    | error r =>
      rw [run_of_read_error fuel read] at ran
      cases ran
    | ok forms =>
      rw [run_of_read_forms fuel read] at ran
      obtain ⟨⟨zs, k⟩, evaluated, same⟩ := Option.map_eq_some_iff.1 ran
      cases same
      exact ⟨forms, rfl, (answersInOrder_of_evalAll evaluated).1⟩

end Machine

open Machine

/-- **The format only affects what is displayed.**  Take an interpreter in any state whatsoever, and
any text.

* In every format, known or not, the interpreter is left as by running the text without any
  display; if that does not end, neither does the display.
* Text and MessagePack succeed if and only if the text is answered with values only; and they fail
  with the same complaint.
* JSON succeeds if and only if, in addition, none of these values has a number in it, however
  deep, that is infinite or missing.
* A success in any format is a line for each form that is read.  In the states that an interpreter
  can be in, these are the forms of the text.
* A line of text is the value at its place in print.  The MessagePack line at this place stands for
  bytes.  Let names mean what `find` says, and let the builtins of the value be found under their
  names.  If the value is nested no deeper than the reader goes, and four bytes can hold its
  lengths, then the bytes are read as that value without the scopes that its closures remember, and
  it still looks the same in print. -/
theorem format_affects_only_display (m : Machine) (text : Text) (fuel : Nat) :
    let v := m.interpreter.vocabulary
    (∀ f, (runOutput fuel f text m).map Prod.snd = (run fuel text m).map Prod.snd) ∧
    (∀ f, f = .text ∨ f = .messagePack → ∀ n,
      (∃ lines, runOutput fuel f text m = some (.ok lines, n)) ↔
        ∃ xs : List Value, run fuel text m = some (.ok (xs.map .ok), n)) ∧
    (∀ c n, runOutput fuel .text text m = some (.error c, n) ↔
      runOutput fuel .messagePack text m = some (.error c, n)) ∧
    (∀ n, (∃ lines, runOutput fuel .json text m = some (.ok lines, n)) ↔
      ∃ xs : List Value, run fuel text m = some (.ok (xs.map .ok), n) ∧
        ∀ x ∈ xs, ∀ a ∈ x.numbers, a.isNaN = false ∧ a.isInfinite = false) ∧
    (∀ f lines n, runOutput fuel f text m = some (.ok lines, n) →
      ∃ forms, (m.interpreter.read text).1 = .ok forms ∧ lines.length = forms.length) ∧
    (m.Arises → (m.interpreter.read text).1 = readText v text) ∧
    ∀ (xs : List Value) (n : Machine), run fuel text m = some (.ok (xs.map .ok), n) →
      ∃ shown packed, runOutput fuel .text text m = some (.ok shown, n) ∧
        runOutput fuel .messagePack text m = some (.ok packed, n) ∧
        ∀ (i : Nat) (line line' : Text), shown[i]? = some line → packed[i]? = some line' →
          ∃ x bytes, xs[i]? = some x ∧ line = x.print v ∧ Text.ofHexDump? line' = some bytes ∧
            ∀ find, x.Encodable find →
              Value.ofMessagePack find bytes = .ok x.detached ∧ x.detached.print v = line := by
  intro v
  have text_renders (x : Value) : ∃ line, Format.text.render v x = .ok line := ⟨_, rfl⟩
  have messagePack_renders (x : Value) : ∃ line, Format.messagePack.render v x = .ok line :=
    ⟨_, rfl⟩
  refine ⟨?_, ?_, ?_, ?_, ?_, ?_, ?_⟩
  · intro f
    rw [runOutput_eq, Option.map_map]
    rfl
  · rintro f known n
    have renders : ∀ x, ∃ line, f.render v x = .ok line := by
      rcases known with rfl | rfl
      · exact text_renders
      · exact messagePack_renders
    rw [exists_runOutput_eq_ok_iff]
    exact exists_congr fun xs => and_iff_left fun x _ => renders x
  · intro c n
    exact runOutput_eq_error_iff_of_renders text_renders messagePack_renders
  · intro n
    rw [exists_runOutput_eq_ok_iff]
    simp only [exists_render_json_iff]
  · intro f lines n ends
    obtain ⟨xs, ran, rendered⟩ := runOutput_eq_ok_iff.1 ends
    obtain ⟨forms, read, each⟩ := length_of_run ran
    have lengths := congrArg List.length rendered
    rw [List.length_map, List.length_map] at lengths
    rw [List.length_map] at each
    exact ⟨forms, read, lengths.symm.trans each⟩
  · intro arises
    obtain ⟨cache, _, read⟩ := Interpreter.read_eq arises.faithful text
    rw [read]
  · intro xs n ran
    refine ⟨xs.map (Value.print v), xs.map fun x => x.toMessagePack.hexDump,
      runOutput_eq_ok_iff.2 ⟨xs, ran, map_ok_eq_iff.2 rfl⟩,
      runOutput_eq_ok_iff.2 ⟨xs, ran, map_ok_eq_iff.2 rfl⟩, ?_⟩
    intro i line line' here here'
    rw [List.getElem?_map, Option.map_eq_some_iff] at here here'
    obtain ⟨x, found, rfl⟩ := here
    obtain ⟨x', found', rfl⟩ := here'
    -- both lines are renderings of the one value at their place
    obtain rfl : x = x' := Option.some.inj (found.symm.trans found')
    refine ⟨x, x.toMessagePack, found, rfl, Text.ofHexDump?_hexDump _, ?_⟩
    intro find encodable
    exact ⟨encodable.ofMessagePack_eq, x.print_detached v⟩

/-- A closure that remembers a scope and has an infinite number in its body: JSON cannot render it,
and from its MessagePack line it is read back without the scope. -/
theorem closure_over_infinity_on_display :
    let m := Machine.create { Settings.standard .words with lexical := true, cacheCapacity := 0 } ∅
    let text : Text := "(closure (n) inf)"
    let x (home : Option Nat) : Value :=
      .closure (.list [.symbol "n"]) (.number ⟨0x7FF0000000000000⟩) home
    ∃ n shown packed bytes, run 10 text m = some (.ok [.ok (x (some 0))], n) ∧
      (¬ ∃ lines, runOutput 10 .json text m = some (.ok lines, n)) ∧
      runOutput 10 .text text m = some (.ok [shown], n) ∧
      runOutput 10 .messagePack text m = some (.ok [packed], n) ∧
      Text.ofHexDump? packed = some bytes ∧
      Value.ofMessagePack (fun _ => none) bytes = .ok (x none) ∧
      (x none).print .words = shown := by
  intro m text x
  obtain ⟨n, ran⟩ : ∃ n, run 10 text m = some (.ok [.ok (x (some 0))], n) := ⟨_, rfl⟩
  obtain ⟨_, _, _, json, each, _, lines⟩ := format_affects_only_display m text 10
  obtain ⟨shown, packed, displayed, displayed', places⟩ := lines [x (some 0)] n ran
  have one {f : Format} {ls : List Text} (ends : runOutput 10 f text m = some (.ok ls, n)) :
      ∃ line, ls = [line] := by
    obtain ⟨forms, read, length⟩ := each f ls n ends
    obtain ⟨forms', read', single⟩ := length_of_run ran
    obtain rfl : forms' = forms := Except.ok.inj (read'.symm.trans read)
    exact List.length_eq_one_iff.1 (length.trans single.symm)
  obtain ⟨line, rfl⟩ := one displayed
  obtain ⟨line', rfl⟩ := one displayed'
  obtain ⟨y, bytes, found, _, digits, decoded⟩ := places 0 line line' rfl rfl
  cases found
  have encodable : (x (some 0)).Encodable fun _ => none := ⟨by decide, by decide, nofun⟩
  obtain ⟨read, looks⟩ := decoded _ encodable
  refine ⟨n, line, line', bytes, ran, ?_, displayed, displayed', digits, read, looks⟩
  intro success
  obtain ⟨xs, ran', finite⟩ := (json n).1 success
  rw [ran] at ran'
  have values : xs.map Except.ok = [Except.ok (x (some 0))] :=
    (Except.ok.inj (Prod.mk.inj (Option.some.inj ran')).1).symm
  obtain ⟨y, rfl, same⟩ := List.map_eq_singleton_iff.1 values
  cases same
  have bounded := (finite _ List.mem_cons_self ⟨0x7FF0000000000000⟩ (by decide)).2
  exact absurd bounded (by decide)

end Argot
