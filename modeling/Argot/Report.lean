import Argot.Text.Basic

set_option autoImplicit false

/-!
# Reports

What a host program is told about an error: its kind, by number, and its message.  A
report of another origin has a message and no kind.  A host that wants to know whether an
error is of some kind compares it with a *pattern*, a report whose message may be left
empty.

Normative source: SPEC_FULL §7 (error handling) and §11.2 (kinds and messages).
-/

namespace Argot

/-- The kind of an error, by its number. -/
structure ErrorKind where
  code : Int
  deriving DecidableEq, Repr, Inhabited

namespace ErrorKind

/-- No kind at all. -/
def unknown : ErrorKind := ⟨0⟩
/-- The text is not a program. -/
def parse : ErrorKind := ⟨1⟩
/-- The wrong number of arguments. -/
def arity : ErrorKind := ⟨2⟩
/-- An argument of the wrong type. -/
def type : ErrorKind := ⟨3⟩
/-- A name without meaning. -/
def unbound : ErrorKind := ⟨4⟩
/-- A call of something that cannot be called. -/
def notCallable : ErrorKind := ⟨5⟩
/-- A text without tokens. -/
def noInput : ErrorKind := ⟨6⟩
/-- An argument of the right type that is not allowed. -/
def value : ErrorKind := ⟨7⟩

/-- The name of a kind. -/
def name (k : ErrorKind) : Text :=
  match k.code with
  | 1 => "parse error"
  | 2 => "arity error"
  | 3 => "type error"
  | 4 => "unbound symbol"
  | 5 => "not callable"
  | 6 => "no input"
  | 7 => "value error"
  | n => Text.ofString "ErrorKind(" ++ Text.ofInt n ++ Text.ofString ")"

end ErrorKind

/-- What a host program is told about an error. -/
inductive Report where
  | plain (message : Text)
  | diagnosis (kind : ErrorKind) (message : Text)
  deriving DecidableEq, Repr, Inhabited

namespace Report

/-- The message of a report. -/
def message : Report → Text
  | .plain m => m
  | .diagnosis _ m => m

/-- The kind of a report. -/
def kind : Report → ErrorKind
  | .plain _ => .unknown
  | .diagnosis k _ => k

/-- Whether a report fits a pattern: the kinds agree, and so do the messages unless the
pattern leaves its message empty.  Reports without a kind fit nothing. -/
def fits : (pattern : Report) → Report → Bool
  | .diagnosis k m, .diagnosis k' m' => k == k' && (m.isEmpty || m == m')
  | _, _ => false

end Report
end Argot
