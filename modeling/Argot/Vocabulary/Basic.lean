import Argot.Text.Basic

set_option autoImplicit false

/-!
# Vocabularies

The reserved words of the language are not fixed: a vocabulary chooses a token for each
of fifteen roles.  Three tokens delimit lists and quotes, two are the truth values, four
name the special forms and six name builtins.  The arithmetic builtins keep their signs
in every vocabulary.

Normative source: SPEC_FULL §6 (reserved tokens) and §13 (reserved vocabulary).
-/

namespace Argot

/-- What a reserved token is for. -/
inductive Role where
  | listOpen
  | listClose
  | quoteMark
  | trueWord
  | falseWord
  | ifForm
  | varForm
  | closureForm
  | letForm
  | andName
  | orName
  | notName
  | carName
  | cdrName
  | randomName
  deriving DecidableEq, Repr, Inhabited

namespace Role

/-- Every role, in the order in which vocabularies are checked and listed. -/
def all : List Role :=
  [.listOpen, .listClose, .quoteMark, .trueWord, .falseWord, .ifForm, .varForm, .closureForm,
    .letForm, .andName, .orName, .notName, .carName, .cdrName, .randomName]

theorem mem_all (r : Role) : r ∈ all := by cases r <;> decide

/-- The name of a role in vocabulary files and messages. -/
def name : Role → Text
  | .listOpen => "open"
  | .listClose => "close"
  | .quoteMark => "quote"
  | .trueWord => "bool-true"
  | .falseWord => "bool-false"
  | .ifForm => "if"
  | .varForm => "var"
  | .closureForm => "closure"
  | .letForm => "scoped-let"
  | .andName => "and"
  | .orName => "or"
  | .notName => "not"
  | .carName => "car"
  | .cdrName => "cdr"
  | .randomName => "random"

/-- The role of a given name. -/
def ofName? (name : Text) : Option Role := all.find? fun r => r.name == name

end Role

/-- A token for every role. -/
structure Vocabulary where
  listOpen : Text
  listClose : Text
  quoteMark : Text
  trueWord : Text
  falseWord : Text
  ifForm : Text
  varForm : Text
  closureForm : Text
  letForm : Text
  andName : Text
  orName : Text
  notName : Text
  carName : Text
  cdrName : Text
  randomName : Text
  deriving DecidableEq, Repr, Inhabited

namespace Vocabulary

/-- The token of a role. -/
def token (v : Vocabulary) : Role → Text
  | .listOpen => v.listOpen
  | .listClose => v.listClose
  | .quoteMark => v.quoteMark
  | .trueWord => v.trueWord
  | .falseWord => v.falseWord
  | .ifForm => v.ifForm
  | .varForm => v.varForm
  | .closureForm => v.closureForm
  | .letForm => v.letForm
  | .andName => v.andName
  | .orName => v.orName
  | .notName => v.notName
  | .carName => v.carName
  | .cdrName => v.cdrName
  | .randomName => v.randomName

/-- The vocabulary with a given token for every role. -/
def ofTokens (token : Role → Text) : Vocabulary where
  listOpen := token .listOpen
  listClose := token .listClose
  quoteMark := token .quoteMark
  trueWord := token .trueWord
  falseWord := token .falseWord
  ifForm := token .ifForm
  varForm := token .varForm
  closureForm := token .closureForm
  letForm := token .letForm
  andName := token .andName
  orName := token .orName
  notName := token .notName
  carName := token .carName
  cdrName := token .cdrName
  randomName := token .randomName

@[simp] theorem token_ofTokens (token : Role → Text) (r : Role) :
    (ofTokens token).token r = token r := by cases r <;> rfl

@[simp] theorem ofTokens_token (v : Vocabulary) : ofTokens v.token = v := rfl

/-- The vocabulary with another token for one role. -/
def set (v : Vocabulary) (role : Role) (token : Text) : Vocabulary :=
  ofTokens fun r => if r = role then token else v.token r

@[simp] theorem token_set (v : Vocabulary) (role r : Role) (token : Text) :
    (v.set role token).token r = if r = role then token else v.token r := by simp [set]

/-- The vocabulary of pictures, which is the default one. -/
def pictures : Vocabulary where
  listOpen := "💖"
  listClose := "💔"
  quoteMark := "😪"
  trueWord := "👍"
  falseWord := "👎"
  ifForm := "🐶"
  varForm := "🌹"
  closureForm := "🐷"
  letForm := "🍙"
  andName := "😎"
  orName := "😕"
  notName := "❌"
  carName := "🚗"
  cdrName := "💭"
  randomName := "🎨"

/-- The same language in words, for terminals without pictures. -/
def words : Vocabulary where
  listOpen := "("
  listClose := ")"
  quoteMark := "'"
  trueWord := "true"
  falseWord := "false"
  ifForm := "if"
  varForm := "var"
  closureForm := "closure"
  letForm := "scoped-let"
  andName := "and"
  orName := "or"
  notName := "not"
  carName := "car"
  cdrName := "cdr"
  randomName := "random"

/-- The names of the arithmetic and comparison builtins, the same in every vocabulary. -/
def arithmetic : List Text := ["+", "-", "*", "/", "%", "=", "<", ">"]

/-- The tokens that are words of their own even without whitespace around them. -/
def delimiters (v : Vocabulary) : List Text := [v.listOpen, v.listClose, v.quoteMark]

/-- The names of the special forms. -/
def specialForms (v : Vocabulary) : List Text :=
  [v.ifForm, v.varForm, v.closureForm, v.letForm]

end Vocabulary
end Argot
