import Mathlib.Data.List.TakeWhile
import Mathlib.Tactic.MkIffOfInductiveProp
import Argot.Proofs.OwnWords
import Argot.Repl

set_option autoImplicit false

/-!
# Dialogues group by group

A dialogue takes its lines one at a time and keeps what it has of an unfinished entry
(`Machine.converse`).  Here the lines are cut first, without a machine: a *group* is the lines of
one entry, and `Reads` says which groups a list of lines consists of and how it ends.  Lines have
one reading and no other (`Reads.unique`, `exists_reads`).  What a dialogue does with its lines is
then what is done about their groups one after another (`converse_of_reads`): nothing is lost
but an entry that the input leaves unfinished, and no entry is answered twice.

When an entry goes on is a question about the entry as it stands: whether it wants more, and
whether it starts with a point by now.  One would like to ask the second question of its first line
only.  That is the same as long as no blank text wants more, which holds if the delimiters are
well-formed UTF-8 (`needsMore_of_blank`).
-/

namespace Argot

/-! ## Points and blanks -/

namespace Text

/-- Whether the first character that is not whitespace is a point. -/
def isPointed (t : Text) : Bool := startsWithPoint t.trim

theorem encode_ne_nil (r : Rune) : r.encode ≠ [] := by
  cases r with
  | char c => exact String.utf8EncodeChar_ne_nil
  | stray b => exact List.cons_ne_nil b []

theorem wordsOf_dropWhile (rs : List Rune) :
    wordsOf (rs.dropWhile Rune.isSpace) = wordsOf rs := by
  induction rs with
  | nil => rfl
  | cons r rs ih =>
    by_cases space : r.isSpace = true
    · rw [List.dropWhile_cons_of_pos space, ih]
      simp [wordsOf, openField, space]
    · rw [List.dropWhile_cons_of_neg space]

theorem solid_of_dropWhile {rs rest : List Rune} {r : Rune}
    (inner : rs.dropWhile Rune.isSpace = r :: rest) : r.isSpace = false := by
  have front := List.head?_dropWhile_not Rune.isSpace rs
  rw [inner] at front
  simpa using front

theorem wordsOf_cons_of_solid {r : Rune} (solid : r.isSpace = false) (rs : List Rune) :
    wordsOf (r :: rs) = (r.encode ++ (openField rs).1) :: (openField rs).2 := by
  simp [wordsOf, openField, solid, encode_ne_nil]

/-- A text starts with a point if its first word does. -/
theorem isPointed_eq (t : Text) : t.isPointed = t.fields.head?.any startsWithPoint := by
  rw [isPointed, trim, fields_eq_wordsOf, ← wordsOf_dropWhile]
  cases inner : t.runes.dropWhile Rune.isSpace with
  | nil => rfl
  | cons r rs =>
    have solid := solid_of_dropWhile inner
    -- the first character survives at the other end too
    obtain ⟨kept, trimmed⟩ : ∃ kept,
        ((r :: rs).reverse.dropWhile Rune.isSpace).reverse = r :: kept := by
      rw [List.reverse_cons, List.dropWhile_append]
      split
      · exact ⟨[], by simp [solid]⟩
      · exact ⟨(rs.reverse.dropWhile Rune.isSpace).reverse, by simp⟩
    simp only [trimmed, wordsOf_cons_of_solid solid, List.flatMap_cons, List.head?_cons,
      Option.any_some, startsWithPoint, List.head?_append_of_ne_nil _ (encode_ne_nil r)]

/-- What follows on later lines does not change how an entry starts, unless all of it is
blank. -/
theorem isPointed_append_newline {t : Text} (some : t.fields ≠ []) (line : Text) :
    (t ++ newline ++ line).isPointed = t.isPointed := by
  obtain ⟨word, rest, fields⟩ := List.exists_cons_of_ne_nil some
  rw [isPointed_eq, isPointed_eq, fields_append_newline, fields]
  rfl

/-- A text without words is made of whitespace. -/
theorem exists_chars_of_blank {t : Text} (blank : t.fields = []) :
    ∃ cs, t = ofChars cs ∧ ∀ c ∈ cs, (Rune.char c).isSpace = true := by
  have all : ∀ r ∈ t.runes, r.isSpace = true := by
    rw [fields_eq_wordsOf, ← wordsOf_dropWhile] at blank
    cases inner : t.runes.dropWhile Rune.isSpace with
    | nil => exact List.dropWhile_eq_nil_iff.1 inner
    | cons s ss =>
      rw [inner, wordsOf_cons_of_solid (solid_of_dropWhile inner)] at blank
      cases blank
  have utf8 : t.isUtf8 = true := by
    rw [isUtf8, List.all_eq_true]
    intro r member
    cases r with
    | char c => rfl
    | stray b => exact absurd (all _ member) Bool.false_ne_true
  obtain ⟨cs, rfl⟩ := isUtf8_iff.1 utf8
  rw [runes_ofChars] at all
  exact ⟨cs, rfl, fun c member => all _ (List.mem_map_of_mem member)⟩

end Text

namespace Interpreter

/-- No blank text wants more. -/
def IgnoresBlanks (i : Interpreter) : Prop :=
  ∀ t : Text, t.fields = [] → i.needsMore t = false

/-- No delimiter stands in a blank text if the delimiters are well-formed. -/
theorem needsMore_of_blank {i : Interpreter} (valid : i.vocabulary.IsValid)
    (utf8 : ∀ d ∈ i.vocabulary.delimiters, d.isUtf8 = true) : i.IgnoresBlanks := by
  intro t blank
  obtain ⟨cs, rfl, spaces⟩ := Text.exists_chars_of_blank blank
  have apart : setOff i.vocabulary.delimiters (Text.ofChars cs) = Text.ofChars cs := by
    rcases setOff_append_cases valid (Text.ofChars cs) [] with ⟨-, copied⟩ | ⟨starts, -⟩
    · rw [List.append_nil] at copied
      rw [copied]
      exact List.append_nil _
    · obtain ⟨d, member, rest, inside, -, front⟩ := starts
      rw [List.append_nil] at front
      obtain ⟨ds, rfl⟩ := Text.isUtf8_iff.1 (utf8 d member)
      cases ds with
      | nil => exact absurd rfl (valid.nonempty_delimiter member)
      | cons c ds =>
        -- the first character of the delimiter would be one of the text
        have here : String.utf8EncodeChar c <:+: Text.ofChars cs :=
          (List.prefix_append _ _).isInfix.trans (front.isInfix.trans inside.isInfix)
        have space := spaces c (hasInfix_ofChars.1 (Text.hasInfix_iff.2 here))
        have solid := valid.solid_delimiter member
        rw [Text.hasSpace, Text.runes_ofChars, List.map_cons, List.any_cons, space] at solid
        exact absurd solid Bool.noConfusion
  rw [needsMore, tokenize, Argot.tokenize, apart, blank]
  rfl

end Interpreter

/-! ## Groups of lines -/

/-- The lines of one entry: the first, and those that continue it. -/
structure LineGroup where
  first : Text
  further : List Text
  deriving DecidableEq, Repr

namespace LineGroup

/-- All lines of a group. -/
def lines (g : LineGroup) : List Text := g.first :: g.further

/-- The entry. -/
def text (g : LineGroup) : Text := Text.join Text.newline g.lines

/-- Whether the entry has no words. -/
def isBlank (g : LineGroup) : Bool := g.text.fields.isEmpty

/-- Whether the entry is a command. -/
def isCommand (g : LineGroup) : Bool := g.text.isPointed

/-- Whether the entry is the command that ends a dialogue. -/
def isQuit (g : LineGroup) : Bool := g.text.fields.head? == some Command.quit.word

theorem text_cons (t line : Text) (lines : List Text) :
    text ⟨t, line :: lines⟩ = text ⟨t ++ Text.newline ++ line, lines⟩ := by
  cases lines <;> simp [text, LineGroup.lines, Text.join]

end LineGroup

section Reading

variable (more : Text → Bool)

/-- More is wanted of an entry before each of these further lines, and `still` says whether it
is wanted after the last. -/
def Wanted (still : Bool) : Text → List Text → Prop
  | t, [] => more t = still
  | t, line :: lines => more t = true ∧ Wanted still (t ++ Text.newline ++ line) lines

instance decidableWanted (still : Bool) :
    (t : Text) → (lines : List Text) → Decidable (Wanted more still t lines)
  | _, [] => inferInstanceAs (Decidable (_ = _))
  | t, line :: lines =>
    have := decidableWanted still (t ++ Text.newline ++ line) lines
    inferInstanceAs (Decidable (_ ∧ _))

/-- A line that starts with a point is a group of its own; any other goes on for as long as
more is wanted. -/
def LineGroup.IsComplete (g : LineGroup) : Prop :=
  if g.first.isPointed then g.further = [] else Wanted more false g.first g.further

/-- A line that does not start with a point, and all lines after it are wanted and not
enough. -/
def LineGroup.IsUnfinished (g : LineGroup) : Prop :=
  g.first.isPointed = false ∧ Wanted more true g.first g.further

instance (g : LineGroup) : Decidable (g.IsComplete more) :=
  inferInstanceAs (Decidable (if g.first.isPointed then _ else _))

instance (g : LineGroup) : Decidable (g.IsUnfinished more) := inferInstanceAs (Decidable (_ ∧ _))

/-- How the lines of a dialogue end. -/
inductive Ending where
  /-- after a group -/
  | between
  /-- in the middle of a group -/
  | within (g : LineGroup)
  /-- with a command, and these lines are not read -/
  | quit (unread : List Text)
  deriving DecidableEq, Repr

/-- The groups of a list of lines. -/
@[mk_iff]
inductive Reads : List Text → List LineGroup → Ending → Prop
  | between : Reads [] [] .between
  | within {g : LineGroup} (unfinished : g.IsUnfinished more) : Reads g.lines [] (.within g)
  | quit {g : LineGroup} (complete : g.IsComplete more) (quits : g.isQuit = true)
      (unread : List Text) : Reads (g.lines ++ unread) [g] (.quit unread)
  | next {g : LineGroup} (complete : g.IsComplete more) (goesOn : g.isQuit = false)
      {lines : List Text} {groups : List LineGroup} {ending : Ending}
      (later : Reads lines groups ending) : Reads (g.lines ++ lines) (g :: groups) ending

end Reading

section Unique

variable {more : Text → Bool}

/-- Two completions of one entry from the same lines take the same number of them. -/
theorem Wanted.unique {t : Text} {ls ls' rest rest' : List Text} (h : Wanted more false t ls)
    (h' : Wanted more false t ls') (same : ls ++ rest = ls' ++ rest') : ls = ls' := by
  induction ls generalizing t ls' with
  | nil =>
    cases ls' with
    | nil => rfl
    | cons l ls' => exact absurd (h'.1.symm.trans h) Bool.noConfusion
  | cons l ls ih =>
    cases ls' with
    | nil => exact absurd (h.1.symm.trans h') Bool.noConfusion
    | cons l' ls' =>
      obtain ⟨rfl, tails⟩ := List.cons.inj same
      rw [ih h.2 h'.2 tails]

/-- Lines that are not enough do not start with lines that are. -/
theorem Wanted.not_enough {t : Text} {ls rest : List Text}
    (h : Wanted more true t (ls ++ rest)) : ¬ Wanted more false t ls := by
  induction ls generalizing t with
  | nil =>
    intro complete
    have wanted : more t = true := by
      cases rest with
      | nil => exact h
      | cons l rest => exact h.1
    exact absurd (wanted.symm.trans complete) Bool.noConfusion
  | cons l ls ih => exact fun complete => ih h.2 complete.2

/-- One more of the lines that are wanted is enough or not. -/
theorem Wanted.append_line {t : Text} {ls : List Text} (h : Wanted more true t ls) (line : Text) :
    ∃ still, Wanted more still t (ls ++ [line]) := by
  induction ls generalizing t with
  | nil => exact ⟨_, h, rfl⟩
  | cons l ls ih =>
    obtain ⟨still, later⟩ := ih h.2
    exact ⟨still, h.1, later⟩

namespace LineGroup

theorem IsComplete.unique {g g' : LineGroup} {rest rest' : List Text} (h : g.IsComplete more)
    (h' : g'.IsComplete more) (same : g.lines ++ rest = g'.lines ++ rest') : g = g' := by
  obtain ⟨first, further⟩ := g
  obtain ⟨first', further'⟩ := g'
  obtain ⟨rfl, tails⟩ : first = first' ∧ further ++ rest = further' ++ rest' := List.cons.inj same
  unfold IsComplete at h h'
  by_cases pointed : first.isPointed = true
  · rw [if_pos pointed] at h h'
    rw [LineGroup.mk.injEq]
    exact ⟨rfl, h.trans h'.symm⟩
  · rw [if_neg pointed] at h h'
    have sameFurther : further = further' := h.unique h' tails
    rw [sameFurther]

theorem IsUnfinished.not_complete {g g' : LineGroup} {rest : List Text} (h : g.IsUnfinished more)
    (same : g.lines = g'.lines ++ rest) : ¬ g'.IsComplete more := by
  obtain ⟨first, further⟩ := g
  obtain ⟨first', further'⟩ := g'
  obtain ⟨rfl, rfl⟩ : first = first' ∧ further = further' ++ rest := List.cons.inj same
  unfold IsComplete
  rw [if_neg (by rw [h.1]; exact Bool.false_ne_true)]
  exact h.2.not_enough

theorem lines_injective : Function.Injective lines := by
  intro ⟨first, further⟩ ⟨first', further'⟩ same
  obtain ⟨rfl, rfl⟩ := List.cons.inj same
  rfl

/-- What one line more makes of a group. -/
def push (g : LineGroup) (line : Text) : LineGroup := ⟨g.first, g.further ++ [line]⟩

theorem lines_push (g : LineGroup) (line : Text) (rest : List Text) :
    (g.push line).lines ++ rest = g.lines ++ line :: rest := by
  simp [lines, push]

/-- A group of one line is unfinished or complete. -/
theorem single_cases (more : Text → Bool) (line : Text) :
    IsUnfinished more ⟨line, []⟩ ∨ IsComplete more ⟨line, []⟩ := by
  by_cases pointed : line.isPointed = true
  · exact .inr (by rw [IsComplete, if_pos pointed])
  · cases wanted : more line with
    | true => exact .inl ⟨Bool.eq_false_iff.2 pointed, wanted⟩
    | false =>
      refine .inr ?_
      rw [IsComplete, if_neg pointed]
      exact wanted

/-- One line more leaves an unfinished group unfinished or completes it. -/
theorem IsUnfinished.push_cases {g : LineGroup} (h : g.IsUnfinished more) (line : Text) :
    (g.push line).IsUnfinished more ∨ (g.push line).IsComplete more := by
  obtain ⟨still, later⟩ := h.2.append_line line
  cases still with
  | true => exact .inl ⟨h.1, later⟩
  | false =>
    refine .inr ?_
    rw [IsComplete, if_neg (by rw [push, h.1]; exact Bool.false_ne_true)]
    exact later

end LineGroup

/-- A complete group at the front of lines that have a reading. -/
theorem Reads.exists_of_complete {g : LineGroup} (complete : g.IsComplete more) {lines : List Text}
    (later : ∃ groups ending, Reads more lines groups ending) :
    ∃ groups ending, Reads more (g.lines ++ lines) groups ending := by
  obtain ⟨groups, ending, later⟩ := later
  cases quits : g.isQuit with
  | true => exact ⟨_, _, .quit complete quits lines⟩
  | false => exact ⟨_, _, .next complete quits later⟩

/-- Every list of lines has a reading. -/
theorem exists_reads (more : Text → Bool) (lines : List Text) :
    ∃ groups ending, Reads more lines groups ending := by
  -- the lines after an unfinished group are read together with it
  have both : (∃ groups ending, Reads more lines groups ending) ∧
      ∀ g : LineGroup, g.IsUnfinished more →
        ∃ groups ending, Reads more (g.lines ++ lines) groups ending := by
    induction lines with
    | nil =>
      refine ⟨⟨[], .between, .between⟩, fun g unfinished => ⟨[], .within g, ?_⟩⟩
      rw [List.append_nil]
      exact .within unfinished
    | cons line lines ih =>
      obtain ⟨fresh, started⟩ := ih
      constructor
      · rcases LineGroup.single_cases more line with unfinished | complete
        · exact started _ unfinished
        · exact Reads.exists_of_complete complete fresh
      · intro g unfinished
        rw [← LineGroup.lines_push]
        rcases unfinished.push_cases line with unfinished | complete
        · exact started _ unfinished
        · exact Reads.exists_of_complete complete fresh
  exact both.1

/-- A list of lines has no two readings. -/
theorem Reads.unique {lines : List Text} {groups groups' : List LineGroup} {ending ending' : Ending}
    (h : Reads more lines groups ending) (h' : Reads more lines groups' ending') :
    groups' = groups ∧ ending' = ending := by
  induction h generalizing groups' with
  | between =>
    rcases (reads_iff more _ _ _).1 h' with
      ⟨-, rfl, rfl⟩ | ⟨g, -, same, -⟩ | ⟨g, -, -, unread, same, -⟩ | ⟨g, -, -, _, _, -, same, -⟩
    · exact ⟨rfl, rfl⟩
    all_goals exact absurd same.symm (List.cons_ne_nil _ _)
  | within unfinished =>
    rcases (reads_iff more _ _ _).1 h' with
      ⟨same, -⟩ | ⟨g, -, same, rfl, rfl⟩ | ⟨g, complete, -, unread, same, -⟩ |
        ⟨g, complete, -, _, _, -, same, -⟩
    · exact absurd same (List.cons_ne_nil _ _)
    · exact ⟨rfl, congrArg _ (LineGroup.lines_injective same.symm)⟩
    · exact absurd complete (unfinished.not_complete same)
    · exact absurd complete (unfinished.not_complete same)
  | quit complete quits unread =>
    rcases (reads_iff more _ _ _).1 h' with
      ⟨same, -⟩ | ⟨g, unfinished, same, -⟩ | ⟨g, complete', -, unread', same, rfl, rfl⟩ |
        ⟨g, complete', goesOn, _, _, -, same, -⟩
    · exact absurd same (List.cons_ne_nil _ _)
    · exact absurd complete (unfinished.not_complete same.symm)
    · obtain rfl := complete.unique complete' same
      exact ⟨rfl, congrArg _ (List.append_cancel_left same).symm⟩
    · obtain rfl := complete.unique complete' same
      exact absurd (quits.symm.trans goesOn) Bool.noConfusion
  | next complete goesOn later ih =>
    rcases (reads_iff more _ _ _).1 h' with
      ⟨same, -⟩ | ⟨g, unfinished, same, -⟩ | ⟨g, complete', quits, unread', same, -⟩ |
        ⟨g, complete', -, lines', groups', later', same, rfl⟩
    · exact absurd same (List.cons_ne_nil _ _)
    · exact absurd complete (unfinished.not_complete same.symm)
    · obtain rfl := complete.unique complete' same
      exact absurd (quits.symm.trans goesOn) Bool.noConfusion
    · obtain rfl := complete.unique complete' same
      obtain rfl := List.append_cancel_left same
      obtain ⟨rfl, rfl⟩ := ih later'
      exact ⟨rfl, rfl⟩

end Unique

/-! ## The point of the first line -/

/-- The rule by which an entry goes on: it wants more, and does not start with a point. -/
def unlessPointed (more : Text → Bool) (t : Text) : Bool := more t && !t.isPointed

theorem unlessPointed_of_plain {more : Text → Bool} {t : Text} (plain : t.isPointed = false) :
    unlessPointed more t = more t := by
  simp [unlessPointed, plain]

section FirstLine

variable {more : Text → Bool} (ignores : ∀ t : Text, t.fields = [] → more t = false)

include ignores

/-- An entry that wants more has a word, so that its start is settled. -/
theorem not_pointed_append {t : Text} (wanted : more t = true) (plain : t.isPointed = false)
    (line : Text) : (t ++ Text.newline ++ line).isPointed = false := by
  have word : t.fields ≠ [] := by
    intro blank
    rw [ignores t blank] at wanted
    cases wanted
  rw [Text.isPointed_append_newline word, plain]

theorem wanted_unlessPointed_iff {still : Bool} {t : Text} {ls : List Text}
    (plain : t.isPointed = false) :
    Wanted (unlessPointed more) still t ls ↔ Wanted more still t ls := by
  induction ls generalizing t with
  | nil => rw [Wanted, Wanted, unlessPointed_of_plain plain]
  | cons l ls ih =>
    rw [Wanted, Wanted, unlessPointed_of_plain plain]
    exact and_congr_right fun wanted => ih (not_pointed_append ignores wanted plain l)

theorem isComplete_unlessPointed_iff {g : LineGroup} :
    g.IsComplete (unlessPointed more) ↔ g.IsComplete more := by
  unfold LineGroup.IsComplete
  by_cases pointed : g.first.isPointed = true
  · rw [if_pos pointed, if_pos pointed]
  · rw [if_neg pointed, if_neg pointed,
      wanted_unlessPointed_iff ignores (Bool.eq_false_iff.2 pointed)]

theorem isUnfinished_unlessPointed_iff {g : LineGroup} :
    g.IsUnfinished (unlessPointed more) ↔ g.IsUnfinished more :=
  and_congr_right fun plain => wanted_unlessPointed_iff ignores plain

omit ignores in
/-- A reading by one rule is one by another that makes the same groups. -/
theorem Reads.imp {more' : Text → Bool}
    (complete : ∀ g : LineGroup, g.IsComplete more → g.IsComplete more')
    (unfinished : ∀ g : LineGroup, g.IsUnfinished more → g.IsUnfinished more')
    {lines : List Text} {groups : List LineGroup} {ending : Ending}
    (h : Reads more lines groups ending) : Reads more' lines groups ending := by
  induction h with
  | between => exact .between
  | within u => exact .within (unfinished _ u)
  | quit c quits unread => exact .quit (complete _ c) quits unread
  | next c goesOn _ ih => exact .next (complete _ c) goesOn ih

/-- **It is enough to look at the first line for a point if no blank text wants more.** -/
theorem reads_unlessPointed_iff {lines : List Text} {groups : List LineGroup} {ending : Ending} :
    Reads (unlessPointed more) lines groups ending ↔ Reads more lines groups ending :=
  ⟨Reads.imp (fun _ => (isComplete_unlessPointed_iff ignores).1)
      fun _ => (isUnfinished_unlessPointed_iff ignores).1,
    Reads.imp (fun _ => (isComplete_unlessPointed_iff ignores).2)
      fun _ => (isUnfinished_unlessPointed_iff ignores).2⟩

end FirstLine

/-- More is wanted of no line that starts with a point, so that one rule is enough. -/
theorem LineGroup.IsComplete.wanted {more : Text → Bool} {g : LineGroup}
    (complete : g.IsComplete (unlessPointed more)) :
    Wanted (unlessPointed more) false g.first g.further := by
  unfold LineGroup.IsComplete at complete
  split at complete
  · rename_i pointed
    rw [complete]
    show unlessPointed more g.first = false
    simp [unlessPointed, pointed]
  · exact complete

theorem Interpreter.continues_eq (i : Interpreter) : i.continues = unlessPointed i.needsMore := by
  funext t
  exact Bool.and_comm _ _

/-! ## What is done about a group -/

/-- The prompts of a group: one for the group, and another for each further line. -/
def LineGroup.prompts (d : Dialogue) (g : LineGroup) : List Emission :=
  .out d.prompt :: g.further.map fun _ => .out Dialogue.continuationPrompt

/-- What is printed when the lines end: the prompt for the line that does not come and the end of
that line, and nothing after a command to quit. -/
def Ending.closing (d : Dialogue) : Ending → List Emission
  | .between => [.out d.prompt, .out Text.newline]
  | .within g => g.prompts d ++ [.out Dialogue.continuationPrompt, .out Text.newline]
  | .quit _ => []

theorem Command.word_injective : Function.Injective Command.word := by
  intro c c' same
  have known := Command.ofWord?_word c
  rw [same, Command.ofWord?_word] at known
  exact (Option.some.inj known).symm

namespace Machine

/-- Follows a command. -/
def follow (entry : Text) : Act (List Emission) :=
  match entry.fields with
  | [] => return []
  | word :: _ =>
    match Command.ofWord? word with
    | none => return [.outLine (Text.ofString "unknown command " ++ word)]
    | some c => modifyGet (obey c ((Text.after? word entry.trim).getD entry.trim).trim)

/-- Runs a program once and shows the lines of the run after its trace. -/
def present (fuel : Nat) (f : Format) (program : Text) : Act (List Emission) := do
  let lines ← runOutput fuel f program
  let trace ← takeTrace
  return trace ++ (displayed lines).map .outLine

/-- Attends to a group. -/
def attend (fuel : Nat) (d : Dialogue) (g : LineGroup) : Act (List Emission) :=
  if g.isBlank then return []
  else if g.isCommand then follow g.text
  else present fuel d.format g.text

/-- Attends to groups one after another, with the prompts of each in front. -/
def attendAll (fuel : Nat) (d : Dialogue) : List LineGroup → Act (List Emission)
  | [] => return []
  | g :: groups => do
    let said ← attend fuel d g
    let later ← attendAll fuel d groups
    return g.prompts d ++ said ++ later

theorem attendAll_nil (fuel : Nat) (d : Dialogue) (m : Machine) :
    attendAll fuel d [] m = some ([], m) := rfl

theorem attendAll_cons (fuel : Nat) (d : Dialogue) (g : LineGroup) (groups : List LineGroup)
    (m : Machine) :
    attendAll fuel d (g :: groups) m =
      (attend fuel d g m).bind fun out =>
        (attendAll fuel d groups out.2).map fun outs =>
          (g.prompts d ++ out.1 ++ outs.1, outs.2) := by
  rw [attendAll, Act.andThen_apply]
  congr
  funext out
  rw [Act.andThen_apply]
  cases attendAll fuel d groups out.2 <;> rfl

/-- A complete entry is attended to, and the dialogue goes on unless that was a command to
quit. -/
theorem answer_text (fuel : Nat) (d : Dialogue) (g : LineGroup) (m : Machine) :
    answer fuel d g.text m =
      (attend fuel d g m).map fun out => ((out.1, if g.isQuit then .over else .entry), out.2) := by
  cases words : g.text.fields with
  | nil =>
    have goesOn : g.isQuit = false := by rw [LineGroup.isQuit, words]; rfl
    simp only [answer, Entry.ofText, attend, LineGroup.isBlank, words, goesOn]
    rfl
  | cons word rest =>
    have some : g.isBlank = false := by rw [LineGroup.isBlank, words]; rfl
    have pointed : g.isCommand = startsWithPoint word := by
      rw [LineGroup.isCommand, Text.isPointed_eq, words]
      rfl
    have goesOn (other : word ≠ Command.quit.word) : g.isQuit = false := by
      rw [LineGroup.isQuit, words]
      simpa using other
    cases command : startsWithPoint word with
    | false =>
      have other : word ≠ Command.quit.word := by
        rintro rfl
        cases command
      simp only [answer, Entry.ofText, attend, some, words, pointed, command, goesOn other, present,
        Bool.false_eq_true, if_false, Act.andThen_apply]
      cases runOutput fuel d.format g.text m <;> rfl
    | true =>
      simp only [answer, Entry.ofText, attend, some, words, pointed, command, follow,
        Bool.false_eq_true, if_false, if_true]
      cases known : Command.ofWord? word with
      | none =>
        have other : word ≠ Command.quit.word := by
          rintro rfl
          rw [Command.ofWord?_word] at known
          cases known
        rw [goesOn other]
        rfl
      | some c =>
        have spelled : c.word = word := by simpa using List.find?_some known
        by_cases quit : c = .quit
        · have quits : g.isQuit = true := by
            rw [LineGroup.isQuit, words, ← spelled, quit]
            exact beq_self_eq_true _
          rw [quit, quits]
          rfl
        · have other : word ≠ Command.quit.word := by
            rintro rfl
            exact quit (Command.word_injective spelled)
          rw [goesOn other]
          cases c with
          | quit => exact absurd rfl quit
          | ast | cache | clear | ls | trace | verb => rfl

/-! ## The vocabulary stays -/

theorem vocabulary_run {fuel : Nat} {text : Text} {m m' : Machine} {answer : Answer}
    (ends : run fuel text m = some (answer, m')) :
    m'.interpreter.vocabulary = m.interpreter.vocabulary := by
  have kept : (m.interpreter.read text).2.vocabulary = m.interpreter.vocabulary := by
    unfold Interpreter.read
    split
    · rfl
    · split <;> rfl
  cases read : m.interpreter.read text with
  | mk forms i =>
    rw [read] at kept
    cases forms with
    | error e =>
      rw [run_of_read_error fuel read] at ends
      cases ends
      exact kept
    | ok xs =>
      rw [run_of_read_forms fuel read] at ends
      obtain ⟨⟨outcomes, n⟩, evaluated, same⟩ := Option.map_eq_some_iff.1 ends
      cases same
      have unchanged := congrArg Interpreter.vocabulary (interpreter_evalAll evaluated)
      exact unchanged.trans kept

theorem runOutput_apply (fuel : Nat) (f : Format) (text : Text) (m : Machine) :
    runOutput fuel f text m =
      (run fuel text m).map fun out =>
        (runLines out.2.interpreter.vocabulary f out.1, out.2) := by
  rw [runOutput, Act.andThen_apply]
  cases run fuel text m <;> rfl

theorem present_apply (fuel : Nat) (f : Format) (text : Text) (m : Machine) :
    present fuel f text m =
      (runOutput fuel f text m).map fun out =>
        (out.2.commons.trace.reverse.map .trace ++ (displayed out.1).map .outLine,
          { out.2 with commons := { out.2.commons with trace := [] } }) := by
  rw [present, Act.andThen_apply]
  cases runOutput fuel f text m <;> rfl

theorem vocabulary_obey (c : Command) (rest : Text) (m : Machine) :
    (obey c rest m).2.interpreter.vocabulary = m.interpreter.vocabulary := by
  cases c <;> rfl

theorem follow_apply (entry : Text) (m : Machine) :
    ∃ said m', follow entry m = some (said, m') ∧
      m'.interpreter.vocabulary = m.interpreter.vocabulary := by
  cases words : entry.fields with
  | nil =>
    simp only [follow, words]
    exact ⟨_, _, rfl, rfl⟩
  | cons word _ =>
    simp only [follow, words]
    cases Command.ofWord? word with
    | none => exact ⟨_, _, rfl, rfl⟩
    | some c => exact ⟨_, _, rfl, vocabulary_obey c _ m⟩

/-- Nothing that is entered changes the vocabulary. -/
theorem vocabulary_attend {fuel : Nat} {d : Dialogue} {g : LineGroup} {m m' : Machine}
    {said : List Emission} (ends : attend fuel d g m = some (said, m')) :
    m'.interpreter.vocabulary = m.interpreter.vocabulary := by
  unfold attend at ends
  split at ends
  · cases ends
    rfl
  · split at ends
    · obtain ⟨_, n, follows, same⟩ := follow_apply g.text m
      rw [follows] at ends
      cases ends
      exact same
    · rw [present_apply, runOutput_apply, Option.map_map] at ends
      obtain ⟨⟨answer, n⟩, ran, same⟩ := Option.map_eq_some_iff.1 ends
      cases same
      have kept := vocabulary_run ran
      exact kept

theorem continues_attend {fuel : Nat} {d : Dialogue} {g : LineGroup} {m m' : Machine}
    {said : List Emission} (ends : attend fuel d g m = some (said, m')) :
    m'.interpreter.continues = m.interpreter.continues := by
  funext t
  simp only [Interpreter.continues, Interpreter.needsMore, Interpreter.tokenize,
    vocabulary_attend ends]

/-! ## Line by line and group by group -/

section Lines

variable (fuel : Nat) (d : Dialogue)

theorem converse_cons {turn : Turn} (waiting : turn ≠ .over) (line : Text) (rest : List Text)
    (m : Machine) :
    converse fuel d turn (line :: rest) m =
      (hear fuel d turn line m).bind fun out =>
        (converse fuel d out.1.2 rest out.2).map fun outs =>
          (.out (d.promptAt turn) :: (out.1.1 ++ outs.1), outs.2) := by
  have step : converse fuel d turn (line :: rest) = (do
      let heard ← hear fuel d turn line
      let later ← converse fuel d heard.2 rest
      return .out (d.promptAt turn) :: (heard.1 ++ later)) := by
    cases turn with
    | entry | more _ => rfl
    | _ => exact absurd rfl waiting
  rw [step, Act.andThen_apply]
  congr
  funext out
  show ((converse fuel d out.1.2 rest) >>= _) out.2 = _
  rw [Act.andThen_apply]
  cases converse fuel d out.1.2 rest out.2 <;> rfl

theorem converse_over (lines : List Text) (m : Machine) :
    converse fuel d .over lines m = some ([], m) := by
  cases lines <;> rfl

theorem hear_apply (turn : Turn) (line : Text) (m : Machine) :
    hear fuel d turn line m =
      if m.interpreter.continues (turn.extend line) = true then
        some (([], .more (turn.extend line)), m)
      else answer fuel d (turn.extend line) m := by
  show (if m.interpreter.continues (turn.extend line) = true then
      (pure ([], .more (turn.extend line)) : Act (List Emission × Turn))
    else answer fuel d (turn.extend line)) m = _
  split <;> rfl

/-- The prompts for a line and for the further ones of its group. -/
def promptsFrom (turn : Turn) (further : List Text) : List Emission :=
  .out (d.promptAt turn) :: further.map fun _ => .out Dialogue.continuationPrompt

/-- The lines that complete an entry are taken in one by one and answered together. -/
theorem converse_of_complete {m : Machine} (turn : Turn) (waiting : turn ≠ .over) (line : Text)
    {further : List Text}
    (complete : Wanted m.interpreter.continues false (turn.extend line) further)
    (rest : List Text) :
    converse fuel d turn (line :: (further ++ rest)) m =
      (answer fuel d (LineGroup.text ⟨turn.extend line, further⟩) m).bind fun out =>
        (converse fuel d out.1.2 rest out.2).map fun outs =>
          (promptsFrom d turn further ++ (out.1.1 ++ outs.1), outs.2) := by
  induction further generalizing turn line with
  | nil =>
    have enough : ¬ m.interpreter.continues (turn.extend line) = true :=
      Bool.eq_false_iff.1 complete
    rw [converse_cons fuel d waiting, hear_apply, if_neg enough]
    rfl
  | cons l further ih =>
    have later := ih (.more (turn.extend line)) (by simp) l complete.2
    rw [converse_cons fuel d waiting, hear_apply, if_pos complete.1, Option.bind_some]
    show ((converse fuel d (.more (turn.extend line)) (l :: (further ++ rest)) m).map _) = _
    rw [later, LineGroup.text_cons, Option.map_bind]
    congr
    funext out
    simp only [Function.comp_apply, Option.map_map]
    rfl

/-- The lines that leave an entry unfinished are taken in one by one to no effect. -/
theorem converse_of_unfinished {m : Machine} (turn : Turn) (waiting : turn ≠ .over) (line : Text)
    {further : List Text}
    (unfinished : Wanted m.interpreter.continues true (turn.extend line) further) :
    converse fuel d turn (line :: further) m =
      some (promptsFrom d turn further ++
        [.out Dialogue.continuationPrompt, .out Text.newline], m) := by
  induction further generalizing turn line with
  | nil =>
    have wanted : m.interpreter.continues (turn.extend line) = true := unfinished
    rw [converse_cons fuel d waiting, hear_apply, if_pos wanted]
    rfl
  | cons l further ih =>
    have later := ih (.more (turn.extend line)) (by simp) l unfinished.2
    rw [converse_cons fuel d waiting, hear_apply, if_pos unfinished.1, Option.bind_some]
    show ((converse fuel d (.more (turn.extend line)) (l :: further) m).map _) = _
    rw [later]
    rfl

/-- A complete group is attended to as a whole. -/
theorem converse_of_group {m : Machine} {g : LineGroup}
    (complete : Wanted m.interpreter.continues false g.first g.further) (rest : List Text) :
    converse fuel d .entry (g.lines ++ rest) m =
      (attend fuel d g m).bind fun out =>
        (converse fuel d (if g.isQuit then .over else .entry) rest out.2).map fun outs =>
          (g.prompts d ++ out.1 ++ outs.1, outs.2) := by
  have together := converse_of_complete fuel d .entry (by simp) g.first complete rest
  have entry : answer fuel d (LineGroup.text ⟨Turn.entry.extend g.first, g.further⟩) m = _ :=
    answer_text fuel d g m
  rw [entry, Option.bind_map] at together
  refine together.trans ?_
  congr
  funext out
  simp only [Function.comp_apply, List.append_assoc]
  rfl

/-- **What a dialogue does with its lines is what is done about their groups.** -/
theorem converse_of_reads {more : Text → Bool} {lines : List Text} {groups : List LineGroup}
    {ending : Ending} (reads : Reads (unlessPointed more) lines groups ending) {m : Machine}
    (rule : m.interpreter.continues = unlessPointed more) :
    converse fuel d .entry lines m =
      (attendAll fuel d groups m).map fun out => (out.1 ++ ending.closing d, out.2) := by
  induction reads generalizing m with
  | between => rfl
  | @within g unfinished =>
    exact converse_of_unfinished fuel d .entry (by simp) g.first (rule ▸ unfinished.2)
  | @quit g complete quits unread =>
    rw [converse_of_group fuel d (rule ▸ complete.wanted), attendAll_cons, quits]
    cases attend fuel d g m with
    | none => rfl
    | some out =>
      simp only [if_true, Option.bind_some, converse_over, attendAll_nil, Option.map_some,
        Ending.closing, List.append_nil]
  | @next g complete goesOn lines groups ending later ih =>
    rw [converse_of_group fuel d (rule ▸ complete.wanted), attendAll_cons, goesOn]
    cases ends : attend fuel d g m with
    | none => rfl
    | some out =>
      have rest := ih (m := out.2) ((continues_attend ends).trans rule)
      simp only [Option.bind_some, Bool.false_eq_true, if_false, rest, Option.map_map,
        Function.comp_def, List.append_assoc]

/-- Nothing but the run of a program can fail to come to an end. -/
theorem attend_eq_none_iff {g : LineGroup} {m : Machine} :
    attend fuel d g m = none ↔
      g.isBlank = false ∧ g.isCommand = false ∧ runOutput fuel d.format g.text m = none := by
  unfold attend
  cases blank : g.isBlank with
  | true =>
    have silent : (pure [] : Act (List Emission)) m = some ([], m) := rfl
    simp [silent]
  | false =>
    cases command : g.isCommand with
    | true =>
      obtain ⟨said, n, follows, -⟩ := follow_apply g.text m
      simp [follows]
    | false => simp [present_apply]

theorem attendAll_eq_none_iff {groups : List LineGroup} {m : Machine} :
    attendAll fuel d groups m = none ↔
      ∃ before g after said n, groups = before ++ g :: after ∧
        attendAll fuel d before m = some (said, n) ∧ attend fuel d g n = none := by
  constructor
  · intro none
    induction groups generalizing m with
    | nil => cases none
    | cons g groups ih =>
      rw [attendAll_cons] at none
      cases here : attend fuel d g m with
      | none => exact ⟨[], g, groups, [], m, rfl, rfl, here⟩
      | some out =>
        rw [here, Option.bind_some, Option.map_eq_none_iff] at none
        obtain ⟨before, g', after, said, n, rfl, reached, fails⟩ := ih none
        refine ⟨g :: before, g', after, g.prompts d ++ out.1 ++ said, n, rfl, ?_, fails⟩
        rw [attendAll_cons, here, Option.bind_some, reached, Option.map_some]
  · rintro ⟨before, g, after, said, n, rfl, reached, fails⟩
    induction before generalizing m said with
    | nil =>
      cases reached
      rw [List.nil_append, attendAll_cons, fails, Option.bind_none]
    | cons g' before ih =>
      rw [attendAll_cons] at reached
      rw [List.cons_append, attendAll_cons]
      cases here : attend fuel d g' m with
      | none => rfl
      | some out =>
        rw [here, Option.bind_some] at reached
        obtain ⟨⟨later, n'⟩, there, same⟩ := Option.map_eq_some_iff.1 reached
        cases same
        rw [Option.bind_some, ih later there, Option.map_none]

end Lines

end Machine

/-! ## Inputs -/

/-- The lines of an input with what ends them: a line feed at the end of each, which may be missing
from the last, and none elsewhere. -/
structure CutIntoLines (input : Text) (lines : List Text) : Prop where
  whole : lines.flatten = input
  nonempty : ∀ line ∈ lines, line ≠ []
  ended : ∀ line ∈ lines.dropLast, line.getLast? = some Text.lineFeed
  once : ∀ line ∈ lines, Text.lineFeed ∉ line.dropLast

/-- The byte is a carriage return or a line feed. -/
def endsLine (b : UInt8) : Bool := b == 0x0D || b == 0x0A

theorem dropEndWhile_cons_congr {p : UInt8 → Bool} {t t' : Text}
    (same : Text.dropEndWhile p t = Text.dropEndWhile p t') (b : UInt8) :
    Text.dropEndWhile p (b :: t) = Text.dropEndWhile p (b :: t') := by
  have kept := List.reverse_injective same
  simp only [Text.dropEndWhile, List.reverse_cons, List.dropWhile_append, kept]

namespace CutIntoLines

theorem nil : CutIntoLines [] [] := ⟨rfl, by simp, by simp, by simp⟩

theorem cons_lineFeed {t : Text} {lines : List Text} (cut : CutIntoLines t lines) :
    CutIntoLines (Text.lineFeed :: t) ([Text.lineFeed] :: lines) where
  whole := congrArg (Text.lineFeed :: ·) cut.whole
  nonempty := List.forall_mem_cons.2 ⟨List.cons_ne_nil _ _, cut.nonempty⟩
  ended := by
    cases lines with
    | nil => simp
    | cons l ls => exact List.forall_mem_cons.2 ⟨rfl, cut.ended⟩
  once := List.forall_mem_cons.2 ⟨by simp, cut.once⟩

theorem single {b : UInt8} : CutIntoLines [b] [[b]] where
  whole := rfl
  nonempty := by simp
  ended := by simp
  once := by simp

theorem cons_cons {b : UInt8} (other : b ≠ Text.lineFeed) {t line : Text} {lines : List Text}
    (cut : CutIntoLines t (line :: lines)) : CutIntoLines (b :: t) ((b :: line) :: lines) where
  whole := congrArg (b :: ·) cut.whole
  nonempty := List.forall_mem_cons.2
    ⟨List.cons_ne_nil _ _, (List.forall_mem_cons.1 cut.nonempty).2⟩
  ended := by
    cases lines with
    | nil => simp
    | cons l ls =>
      obtain ⟨first, later⟩ := List.forall_mem_cons.1 cut.ended
      refine List.forall_mem_cons.2 ⟨?_, later⟩
      rw [List.getLast?_cons, first]
      rfl
  once := by
    obtain ⟨first, later⟩ := List.forall_mem_cons.1 cut.once
    refine List.forall_mem_cons.2 ⟨?_, later⟩
    have some := (List.forall_mem_cons.1 cut.nonempty).1
    rw [List.dropLast_cons_of_ne_nil some, List.mem_cons]
    rintro (same | inside)
    · exact other same.symm
    · exact first inside

end CutIntoLines

theorem Text.lines_cons_of_nil {b : UInt8} (other : b ≠ 0x0A) {t : Text}
    (bare : t.lines = []) : Text.lines (b :: t) = [[b]] := by
  rw [Text.lines, if_neg other, bare]

theorem Text.lines_cons_of_cons {b : UInt8} (other : b ≠ 0x0A) {t line : Text}
    {rest : List Text} (bare : t.lines = line :: rest) :
    Text.lines (b :: t) = (b :: line) :: rest := by
  rw [Text.lines, if_neg other, bare]

/-- Every input is cut into lines, and they are what a dialogue reads when what ends them is taken
off. -/
theorem exists_cutIntoLines (input : Text) :
    ∃ lines, CutIntoLines input lines ∧
      inputLines input = lines.map (Text.dropEndWhile endsLine) := by
  show ∃ lines, CutIntoLines input lines ∧
    input.lines.map (Text.dropEndWhile endsLine) = lines.map (Text.dropEndWhile endsLine)
  induction input with
  | nil => exact ⟨[], .nil, rfl⟩
  | cons b t ih =>
    obtain ⟨lines, cut, same⟩ := ih
    by_cases feed : b = Text.lineFeed
    · subst feed
      refine ⟨_, cut.cons_lineFeed, ?_⟩
      rw [List.map_cons, ← same]
      rfl
    · cases lines with
      | nil =>
        obtain rfl : t = [] := cut.whole.symm
        exact ⟨_, .single, by rw [Text.lines_cons_of_nil feed rfl]⟩
      | cons line lines =>
        cases bare : Text.lines t with
        | nil =>
          rw [bare] at same
          cases same
        | cons l ls =>
          rw [bare] at same
          obtain ⟨first, later⟩ := List.cons.inj same
          refine ⟨_, cut.cons_cons feed, ?_⟩
          rw [Text.lines_cons_of_cons feed bare]
          exact congrArg₂ List.cons (dropEndWhile_cons_congr first b) later

/-! ## Whole dialogues -/

/-- **A dialogue answers its lines in groups.**  An input is cut into lines, and what ends them is
taken off.  The lines have one reading:

* a line that starts with a point is a group, and any other goes on for exactly as long as more is
  wanted of what has come together and that does not start with a point.  If no blank text wants
  more, as in every valid vocabulary whose delimiters are well-formed UTF-8, then what wants more
  never comes to start with a point, and only the first line has to be looked at for that;
* the dialogue attends to the groups in their order, with a prompt for each group and for each of
  its further lines: blank ones are skipped, commands are followed, and programs are run once each
  and the lines of the run shown after it;
* after a command to quit nothing more is read.  Otherwise there is a prompt for the line that does
  not come, and what is left of an unfinished group is dropped;
* the dialogue comes to its end unless the run of a program that it has come to does not. -/
theorem dialogue_answers_its_lines_in_groups (fuel : Nat) (d : Dialogue) (input : Text)
    (m : Machine) :
    (∃ lines, CutIntoLines input lines ∧
      inputLines input = lines.map (Text.dropEndWhile endsLine)) ∧
    (m.interpreter.vocabulary.IsValid →
      (∀ delimiter ∈ m.interpreter.vocabulary.delimiters, delimiter.isUtf8 = true) →
        m.interpreter.IgnoresBlanks) ∧
    ∃ groups ending,
      (∀ groups' ending',
        Reads (unlessPointed m.interpreter.needsMore) (inputLines input) groups' ending' ↔
          groups' = groups ∧ ending' = ending) ∧
      (m.interpreter.IgnoresBlanks → ∀ groups' ending',
        Reads m.interpreter.needsMore (inputLines input) groups' ending' ↔
          groups' = groups ∧ ending' = ending) ∧
      Machine.repl fuel d input m =
        (Machine.attendAll fuel d groups m).map (fun out => (out.1 ++ ending.closing d, out.2)) ∧
      (Machine.repl fuel d input m = none ↔
        ∃ before g after said n, groups = before ++ g :: after ∧
          Machine.attendAll fuel d before m = some (said, n) ∧
          g.isBlank = false ∧ g.isCommand = false ∧
          Machine.runOutput fuel d.format g.text n = none) := by
  obtain ⟨groups, ending, reads⟩ :=
    exists_reads (unlessPointed m.interpreter.needsMore) (inputLines input)
  have only (groups' : List LineGroup) (ending' : Ending) :
      Reads (unlessPointed m.interpreter.needsMore) (inputLines input) groups' ending' ↔
        groups' = groups ∧ ending' = ending :=
    ⟨fun other => reads.unique other, fun ⟨same, ends⟩ => same ▸ ends ▸ reads⟩
  have said : Machine.repl fuel d input m = _ :=
    Machine.converse_of_reads fuel d reads m.interpreter.continues_eq
  refine ⟨exists_cutIntoLines input, Interpreter.needsMore_of_blank, groups, ending, only,
    fun ignores groups' ending' => ?_, said, ?_⟩
  · rw [← reads_unlessPointed_iff ignores]
    exact only groups' ending'
  · rw [said, Option.map_eq_none_iff, Machine.attendAll_eq_none_iff]
    simp only [Machine.attend_eq_none_iff]

/-- A list on two lines, a blank line, a command and the beginning of a list. -/
theorem five_lines_make_three_groups :
    let m := Machine.create (Settings.standard Vocabulary.words) ∅
    let d : Dialogue := ⟨"> ", .text⟩
    let groups : List LineGroup := [⟨"(+ 1", ["2)"]⟩, ⟨"", []⟩, ⟨".cache", []⟩]
    m.interpreter.IgnoresBlanks ∧
      Machine.repl 10 d "(+ 1\r\n2)\n\n.cache\n(car" m =
        (Machine.attendAll 10 d groups m).map
          (fun out => (out.1 ++ (Ending.within ⟨"(car", []⟩).closing d, out.2)) := by
  intro m d groups
  let input : Text := "(+ 1\r\n2)\n\n.cache\n(car"
  obtain ⟨-, wellFormed, groups', ending', -, only, said, -⟩ :=
    dialogue_answers_its_lines_in_groups 10 d input m
  have ignores : m.interpreter.IgnoresBlanks := wellFormed (by decide) (by decide)
  have lines : inputLines input = groups.flatMap LineGroup.lines ++ [Text.ofString "(car"] := by
    decide +kernel
  have unfinished : LineGroup.IsUnfinished m.interpreter.needsMore ⟨"(car", []⟩ := by
    decide +kernel
  have reads : Reads m.interpreter.needsMore (inputLines input) groups
      (.within ⟨"(car", []⟩) := by
    rw [lines]
    exact .next (by decide +kernel) (by decide +kernel) (.next (by decide +kernel)
      (by decide +kernel) (.next (by decide +kernel) (by decide +kernel) (.within unfinished)))
  obtain ⟨rfl, rfl⟩ := (only ignores _ _).1 reads
  exact ⟨ignores, said⟩

/-- Only looking at the first line for a point does not give the groups: a blank line that wants
more may be followed by a command, which is obeyed all the same. -/
theorem command_after_blank_line_is_obeyed :
    ¬ ∀ (fuel : Nat) (d : Dialogue) (input : Text) (m : Machine),
      m.interpreter.vocabulary.IsValid →
      ∀ groups ending, Reads m.interpreter.needsMore (inputLines input) groups ending →
        Machine.repl fuel d input m =
          (Machine.attendAll fuel d groups m).map
            (fun out => (out.1 ++ ending.closing d, out.2)) := by
  intro claim
  let m := Machine.create (Settings.standard (Vocabulary.words.set .listOpen [0x85])) ∅
  let d : Dialogue := ⟨"> ", .text⟩
  let blank : Text := [0xC2, 0x85]
  let input : Text := blank ++ Text.newline ++ Text.ofString ".quit" ++ Text.newline
  let g : LineGroup := ⟨blank, [Text.ofString ".quit"]⟩
  have valid : m.interpreter.vocabulary.IsValid := by decide +kernel
  have unfinished : g.IsUnfinished m.interpreter.needsMore := by decide +kernel
  have lines : inputLines input = g.lines := by decide +kernel
  have reads : Reads m.interpreter.needsMore (inputLines input) [] (.within g) := by
    rw [lines]
    exact .within unfinished
  have same := congrArg (Option.map fun out => out.1.length) (claim 0 d input m valid _ _ reads)
  have short : (Machine.repl 0 d input m).map (fun out => out.1.length) = some 2 := by
    decide +kernel
  rw [short] at same
  cases same

end Argot
