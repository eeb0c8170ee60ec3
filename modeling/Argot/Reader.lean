import Argot.Token
import Argot.Value
import Argot.Number.Numeral

set_option autoImplicit false

/-!
# Reading forms

Tokens are read from left to right with a stack of the forms that are still open.  A
token opens a form, closes one, fails, or is a form by itself; a finished form goes to
the form around it, and one with nothing around it is the result.

`readOne` stops after one form and hands back the tokens behind it.  `readAll` goes on
to the end or to the first error.

Normative source: SPEC_FULL §4.2 (parser).
-/

namespace Argot

/-- Why a token sequence is not a form. -/
inductive ReadError where
  | endOfInput
  | missingClose
  | missingForm
  | unexpectedClose
  deriving DecidableEq, Repr, Inhabited

/-- What the error says. -/
def ReadError.message (v : Vocabulary) : ReadError → Text
  | .endOfInput => "unexpected end of input"
  | .missingClose => Text.ofString "unexpected end of input: missing " ++ v.listClose
  | .missingForm =>
    Text.ofString "unexpected end of input: " ++ v.quoteMark ++
      Text.ofString " must be followed by a form"
  | .unexpectedClose => Text.ofString "unexpected close " ++ v.listClose

/-- The form that a single token stands for: a number if it spells one, a truth value, or
else the symbol of that name. -/
def readAtom (v : Vocabulary) (tok : Text) : Value :=
  match Numeral.parse? tok with
  | some n => .number n.value
  | none =>
    if tok = v.trueWord then .boolean true
    else if tok = v.falseWord then .boolean false
    else .symbol tok

/-- A form that waits for more: a list with the items read so far, last one first, or a
quote. -/
inductive Pending where
  | list (items : List Value)
  | quote
  deriving Repr, Inhabited

/-- What becomes of the stack when a token has been read. -/
inductive ReadStep where
  | shift (stack : List Pending)
  | emit (form : Value)
  | fail (error : ReadError)
  deriving Repr, Inhabited

/-- Hands a finished form to the innermost pending one. -/
def deliver (form : Value) : List Pending → ReadStep
  | [] => .emit form
  | .quote :: stack => deliver (.quote form) stack
  | .list items :: stack => .shift (.list (form :: items) :: stack)

/-- Reads a token that does not close the innermost list. -/
def startForm (v : Vocabulary) (stack : List Pending) (tok : Text) : ReadStep :=
  if tok = v.listOpen then .shift (.list [] :: stack)
  else if tok = v.quoteMark then .shift (.quote :: stack)
  else if tok = v.listClose then .fail .unexpectedClose
  else deliver (readAtom v tok) stack

/-- Reads one token. -/
def readToken (v : Vocabulary) (stack : List Pending) (tok : Text) : ReadStep :=
  match stack with
  | .list items :: outer =>
    if tok = v.listClose then deliver (.list items.reverse) outer else startForm v stack tok
  | _ => startForm v stack tok

/-- The error at the end of the tokens, which depends on what is still open. -/
def endError : List Pending → ReadError
  | [] => .endOfInput
  | .list _ :: _ => .missingClose
  | .quote :: _ => .missingForm

/-- Reads tokens until the form is finished. -/
def readOneFrom (v : Vocabulary) (stack : List Pending) :
    List Text → Except ReadError (Value × List Text)
  | [] => .error (endError stack)
  | tok :: rest =>
    match readToken v stack tok with
    | .shift stack' => readOneFrom v stack' rest
    | .emit form => .ok (form, rest)
    | .fail e => .error e

/-- One form off the front of the tokens, and the tokens that follow it. -/
def readOne (v : Vocabulary) (tokens : List Text) : Except ReadError (Value × List Text) :=
  readOneFrom v [] tokens

/-- Reads tokens to the end, or to the first error. -/
def readAllFrom (v : Vocabulary) (stack : List Pending) :
    List Text → List (Except ReadError Value)
  | [] => if stack.isEmpty then [] else [.error (endError stack)]
  | tok :: rest =>
    match readToken v stack tok with
    | .shift stack' => readAllFrom v stack' rest
    | .emit form => .ok form :: readAllFrom v [] rest
    | .fail e => [.error e]

/-- Every form of a token sequence; an error is the last entry. -/
def readAll (v : Vocabulary) (tokens : List Text) : List (Except ReadError Value) :=
  readAllFrom v [] tokens

/-- Inside a form, reading everything first finishes that form. -/
theorem readAllFrom_eq (v : Vocabulary) (stack : List Pending) (tokens : List Text)
    (h : stack ≠ [] ∨ tokens ≠ []) :
    readAllFrom v stack tokens =
      match readOneFrom v stack tokens with
      | .ok (form, rest) => .ok form :: readAll v rest
      | .error e => [.error e] := by
  induction tokens generalizing stack with
  | nil =>
    cases stack with
    | nil => simp at h
    | cons p stack => simp [readAllFrom, readOneFrom]
  | cons tok rest ih =>
    unfold readAllFrom readOneFrom
    cases step : readToken v stack tok with
    | emit form => rfl
    | fail e => rfl
    | shift stack' =>
      refine ih stack' (Or.inl ?_)
      rintro rfl
      have deliverNe : ∀ (s : List Pending) (x : Value), deliver x s ≠ .shift [] := by
        intro s
        induction s with
        | nil => simp [deliver]
        | cons p s ihs => cases p <;> simp [deliver, ihs]
      have startNe : startForm v stack tok ≠ .shift [] := by
        unfold startForm
        repeat' split
        all_goals first | exact deliverNe _ _ | simp
      unfold readToken at step
      split at step
      · split at step
        · exact deliverNe _ _ step
        · exact startNe step
      · exact startNe step

/-- Reading everything is reading one form after another. -/
theorem readAll_eq (v : Vocabulary) {tokens : List Text} (h : tokens ≠ []) :
    readAll v tokens =
      match readOne v tokens with
      | .ok (form, rest) => .ok form :: readAll v rest
      | .error e => [.error e] :=
  readAllFrom_eq v [] tokens (Or.inr h)

end Argot
