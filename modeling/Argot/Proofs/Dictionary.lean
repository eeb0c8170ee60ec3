import Argot.Builtin

set_option autoImplicit false

/-!
# Values under other names

A dictionary says what the names and the builtins of one program are called in another.
Two values match under a dictionary when they differ only in what things are called, and
in the scopes that closures remember; which scopes may stand for which is a relation of
its own, since scopes come and go while names do not.

Program text mentions scopes of its own, if any at all (`Dictionary.written`), and what is
quoted, or stands in a closure, is program text.  So of the scopes in a value that a
program has computed, all that are not in program text are remembered by the closures
among the leaves of its lists.

Builtins do not tell matching arguments apart (`Primitive.alike_apply`).
-/

namespace Argot

/-- Which scopes of one store stand for which scopes of another. -/
abbrev Pairing : Type := Nat → Nat → Prop

/-- What names and builtins are called elsewhere.  Different names stay different, and so
do different builtins; `written` relates the scopes that program text may mention. -/
structure Dictionary where
  name : Text → Text
  name_injective : ∀ {m n}, name m = name n → m = n
  builtin : Builtin → Builtin → Prop
  builtin_name : ∀ {b b'}, builtin b b' → b'.name = name b.name
  builtin_op : ∀ {b b'}, builtin b b' → b'.op = b.op
  builtin_unique : ∀ {b b' c c'}, builtin b b' → builtin c c' → (b = c ↔ b' = c')
  written : Pairing

/-- Every name is called what it is. -/
def Dictionary.Plain (d : Dictionary) : Prop := ∀ n, d.name n = n

mutual

/-- The values differ only in names and in the scopes that closures remember, which stand
in the relation `home`. -/
inductive Value.Matches (d : Dictionary) : (home : Pairing) → Value → Value → Prop where
  | nil {home : Pairing} : Value.Matches d home .nil .nil
  | quote {home : Pairing} {x x' : Value} (inner : Value.Matches d d.written x x') :
      Value.Matches d home (.quote x) (.quote x')
  | symbol {home : Pairing} (n : Text) : Value.Matches d home (.symbol n) (.symbol (d.name n))
  | number {home : Pairing} (x : Binary64) : Value.Matches d home (.number x) (.number x)
  | boolean {home : Pairing} (b : Bool) : Value.Matches d home (.boolean b) (.boolean b)
  | string {home : Pairing} (s : Text) : Value.Matches d home (.string s) (.string s)
  | list {home : Pairing} {xs xs' : List Value} (each : Value.MatchesAll d home xs xs') :
      Value.Matches d home (.list xs) (.list xs')
  | builtin {home : Pairing} {b b' : Builtin} (same : d.builtin b b') :
      Value.Matches d home (.builtin b) (.builtin b')
  | closure {home : Pairing} {p p' b b' : Value} {h h' : Option Nat}
      (params : Value.Matches d d.written p p') (body : Value.Matches d d.written b b')
      (remembers : Option.Rel home h h') : Value.Matches d home (.closure p b h) (.closure p' b' h')
  | scopedLet {home : Pairing} {p p' b b' : Value} (bindings : Value.Matches d d.written p p')
      (body : Value.Matches d d.written b b') :
      Value.Matches d home (.scopedLet p b) (.scopedLet p' b')

/-- The values match one by one. -/
inductive Value.MatchesAll (d : Dictionary) :
    (home : Pairing) → List Value → List Value → Prop where
  | nil {home : Pairing} : Value.MatchesAll d home [] []
  | cons {home : Pairing} {x x' : Value} {xs xs' : List Value} (first : Value.Matches d home x x')
      (rest : Value.MatchesAll d home xs xs') : Value.MatchesAll d home (x :: xs) (x' :: xs')

end

/-- The failures are of one kind and about names and values that match. -/
inductive Failure.Matches (d : Dictionary) (home : Pairing) : Failure → Failure → Prop where
  | nilExpression : Failure.Matches d home .nilExpression .nilExpression
  | unsupported {x y : Value} (about : x.Matches d home y) :
      Failure.Matches d home (.unsupported x) (.unsupported y)
  | unboundSymbol (n : Text) :
      Failure.Matches d home (.unboundSymbol n) (.unboundSymbol (d.name n))
  | notCallable {x y : Value} (about : x.Matches d home y) :
      Failure.Matches d home (.notCallable x) (.notCallable y)
  | closureArity (params args : Nat) :
      Failure.Matches d home (.closureArity params args) (.closureArity params args)
  | paramsNotList {x y : Value} (about : x.Matches d home y) :
      Failure.Matches d home (.paramsNotList x) (.paramsNotList y)
  | paramNotSymbol {x y : Value} (about : x.Matches d home y) :
      Failure.Matches d home (.paramNotSymbol x) (.paramNotSymbol y)
  | formArity (n : Text) (wanted args : Nat) :
      Failure.Matches d home (.formArity n wanted args) (.formArity (d.name n) wanted args)
  | conditionNotBoolean (n : Text) {x y : Value} (about : x.Matches d home y) :
      Failure.Matches d home (.conditionNotBoolean n x) (.conditionNotBoolean (d.name n) y)
  | targetNotSymbol (n : Text) {x y : Value} (about : x.Matches d home y) :
      Failure.Matches d home (.targetNotSymbol n x) (.targetNotSymbol (d.name n) y)
  | bindingsNotList (n : Text) {x y : Value} (about : x.Matches d home y) :
      Failure.Matches d home (.bindingsNotList n x) (.bindingsNotList (d.name n) y)
  | bindingNotPair (n : Text) {x y : Value} (about : x.Matches d home y) :
      Failure.Matches d home (.bindingNotPair n x) (.bindingNotPair (d.name n) y)
  | bindingNotSymbol (n : Text) {x y : Value} (about : x.Matches d home y) :
      Failure.Matches d home (.bindingNotSymbol n x) (.bindingNotSymbol (d.name n) y)
  | noArguments (n : Text) : Failure.Matches d home (.noArguments n) (.noArguments (d.name n))
  | notOneArgument (n : Text) (args : Nat) :
      Failure.Matches d home (.notOneArgument n args) (.notOneArgument (d.name n) args)
  | notNumber (n : Text) {x y : Value} (about : x.Matches d home y) :
      Failure.Matches d home (.notNumber n x) (.notNumber (d.name n) y)
  | notBoolean (n : Text) {x y : Value} (about : x.Matches d home y) :
      Failure.Matches d home (.notBoolean n x) (.notBoolean (d.name n) y)
  | notList (n : Text) {x y : Value} (about : x.Matches d home y) :
      Failure.Matches d home (.notList n x) (.notList (d.name n) y)
  | emptyList (n : Text) : Failure.Matches d home (.emptyList n) (.emptyList (d.name n))
  | boundNotNumber (n : Text) {x y : Value} (about : x.Matches d home y) :
      Failure.Matches d home (.boundNotNumber n x) (.boundNotNumber (d.name n) y)
  | boundOutOfRange (n : Text) {x y : Value} (about : x.Matches d home y) :
      Failure.Matches d home (.boundOutOfRange n x) (.boundOutOfRange (d.name n) y)
  | host (kind : ErrorKind) (message : Text) :
      Failure.Matches d home (.host kind message) (.host kind message)

variable {d : Dictionary} {home home' : Pairing}

/-! ## Scopes in values -/

namespace Value

mutual

/-- The scopes that the closures in a value remember. -/
def homes : Value → List Nat
  | .quote x => x.homes
  | .list xs => homesOfAll xs
  | .closure p b home => home.toList ++ (p.homes ++ b.homes)
  | .scopedLet p b => p.homes ++ b.homes
  | .nil | .symbol _ | .number _ | .boolean _ | .string _ | .builtin _ => []

/-- The scopes that the closures in values remember. -/
def homesOfAll : List Value → List Nat
  | [] => []
  | x :: xs => x.homes ++ homesOfAll xs

end

mutual

/-- Values that match still match when more scopes may stand for each other, and only the
scopes in the values count. -/
theorem Matches.mono_homes : (x : Value) → {y : Value} →
    (∀ i i', i ∈ x.homes → home i i' → home' i i') → x.Matches d home y → x.Matches d home' y
  | .nil, _, _, .nil => .nil
  -- what is quoted stands in `d.written`, which `home` has no part in
  | .quote _, _, _, .quote inner => .quote inner
  | .symbol _, _, _, .symbol n => .symbol n
  | .number _, _, _, .number x => .number x
  | .boolean _, _, _, .boolean b => .boolean b
  | .string _, _, _, .string s => .string s
  | .list xs, _, more, .list each => .list (MatchesAll.mono_homes xs more each)
  | .builtin _, _, _, .builtin same => .builtin same
  | .closure _ _ _, _, _, .closure params body .none => .closure params body .none
  | .closure _ _ _, _, more, .closure params body (.some related) =>
    .closure params body (.some (more _ _ List.mem_cons_self related))
  | .scopedLet _ _, _, _, .scopedLet bindings body => .scopedLet bindings body

theorem MatchesAll.mono_homes : (xs : List Value) → {ys : List Value} →
    (∀ i i', i ∈ homesOfAll xs → home i i' → home' i i') → MatchesAll d home xs ys →
      MatchesAll d home' xs ys
  | [], _, _, .nil => .nil
  | x :: xs, _, more, .cons first rest =>
    .cons
      (Matches.mono_homes x (fun i i' member => more i i' (List.mem_append_left _ member)) first)
      (MatchesAll.mono_homes xs
        (fun i i' member => more i i' (List.mem_append_right _ member)) rest)

end

theorem Matches.mono (more : ∀ i i', home i i' → home' i i') {x y : Value}
    (h : x.Matches d home y) : x.Matches d home' y :=
  Matches.mono_homes x (fun i i' _ => more i i') h

theorem MatchesAll.mono (more : ∀ i i', home i i' → home' i i') {xs ys : List Value}
    (h : MatchesAll d home xs ys) : MatchesAll d home' xs ys :=
  MatchesAll.mono_homes xs (fun i i' _ => more i i') h

theorem Matches.mono_option (more : ∀ i i', home i i' → home' i i') {x y : Option Value}
    (h : Option.Rel (Matches d home) x y) : Option.Rel (Matches d home') x y := by
  cases h with
  | some matching => exact .some (matching.mono more)
  | none => exact .none

/-! ## What can be told of a value -/

theorem Matches.typeName_eq {x y : Value} (h : x.Matches d home y) : y.typeName = x.typeName := by
  cases h <;> rfl

theorem MatchesAll.length_eq {xs ys : List Value} (h : MatchesAll d home xs ys) :
    ys.length = xs.length := by
  induction xs generalizing ys with
  | nil =>
    cases h
    rfl
  | cons x xs ih =>
    cases h with
    | cons first rest => rw [List.length_cons, List.length_cons, ih rest]

mutual

/-- Equality cannot tell matching values apart: it compares names with names and builtins
with builtins, and it does not look at scopes. -/
theorem Matches.equal_eq : (x : Value) → {x' y y' : Value} → {home home' : Pairing} →
    x.Matches d home x' → y.Matches d home' y' → x'.equal y' = x.equal y
  | .nil, _, _, _, _, _, .nil, hy => by cases hy <;> rfl
  | .quote x, _, _, _, _, _, .quote inner, hy => by
    cases hy with
    | quote inner' =>
      rw [Value.equal, Value.equal]
      exact Matches.equal_eq x inner inner'
    | _ => rfl
  | .symbol _, _, _, _, _, _, .symbol m, hy => by
    cases hy with
    | symbol n =>
      rw [Value.equal, Value.equal, Bool.eq_iff_iff, beq_iff_eq, beq_iff_eq]
      exact ⟨d.name_injective, congrArg d.name⟩
    | _ => rfl
  | .number _, _, _, _, _, _, .number x, hy => by cases hy <;> rfl
  | .boolean _, _, _, _, _, _, .boolean b, hy => by cases hy <;> rfl
  | .string _, _, _, _, _, _, .string s, hy => by cases hy <;> rfl
  | .list xs, _, _, _, _, _, .list each, hy => by
    cases hy with
    | list each' =>
      rw [Value.equal, Value.equal]
      exact MatchesAll.equalAll_eq xs each each'
    | _ => rfl
  | .builtin b, _, _, _, _, _, .builtin same, hy => by
    cases hy with
    | builtin same' =>
      rw [Value.equal, Value.equal, Bool.eq_iff_iff, beq_iff_eq, beq_iff_eq]
      exact (d.builtin_unique same same').symm
    | _ => rfl
  | .closure p b _, _, _, _, _, _, .closure params body _, hy => by
    cases hy with
    | closure params' body' _ =>
      rw [Value.equal, Value.equal, Matches.equal_eq p params params',
        Matches.equal_eq b body body']
    | _ => rfl
  | .scopedLet p b, _, _, _, _, _, .scopedLet bindings body, hy => by
    cases hy with
    | scopedLet bindings' body' =>
      rw [Value.equal, Value.equal, Matches.equal_eq p bindings bindings',
        Matches.equal_eq b body body']
    | _ => rfl

theorem MatchesAll.equalAll_eq : (xs : List Value) → {xs' ys ys' : List Value} →
    {home home' : Pairing} → MatchesAll d home xs xs' → MatchesAll d home' ys ys' →
    equalAll xs' ys' = equalAll xs ys
  | [], _, _, _, _, _, .nil, hy => by cases hy <;> rfl
  | x :: xs, _, _, _, _, _, .cons first rest, hy => by
    cases hy with
    | nil => rfl
    | cons first' rest' =>
      rw [equalAll, equalAll, Matches.equal_eq x first first', MatchesAll.equalAll_eq xs rest rest']

end

mutual

/-- Under a plain dictionary, values that match look the same in print. -/
theorem Matches.write_eq (plain : d.Plain) (v : Vocabulary) :
    (x : Value) → {y : Value} → {home : Pairing} → x.Matches d home y → (tail : Text) →
      y.write v tail = x.write v tail
  | .nil, _, _, .nil, _ => rfl
  | .quote x, _, _, .quote inner, tail => by
    rw [write, write, Matches.write_eq plain v x inner]
  | .symbol _, _, _, .symbol n, tail => by rw [plain n]
  | .number _, _, _, .number _, _ => rfl
  | .boolean _, _, _, .boolean _, _ => rfl
  | .string _, _, _, .string _, _ => rfl
  | .list xs, _, _, .list each, tail => by
    rw [write, write, MatchesAll.writeItems_eq plain v xs each]
  | .builtin b, _, _, .builtin same, tail => by
    rw [write, write, d.builtin_name same, plain b.name]
  | .closure p b _, _, _, .closure params body _, tail => by
    rw [write, write, Matches.write_eq plain v p params, Matches.write_eq plain v b body]
  | .scopedLet p b, _, _, .scopedLet bindings body, tail => by
    rw [write, write, Matches.write_eq plain v p bindings, Matches.write_eq plain v b body]

theorem MatchesAll.writeItems_eq (plain : d.Plain) (v : Vocabulary) :
    (xs : List Value) → {ys : List Value} → {home : Pairing} → MatchesAll d home xs ys →
      (tail : Text) → writeItems v ys tail = writeItems v xs tail
  | [], _, _, .nil, _ => rfl
  | [x], _, _, .cons first .nil, tail => by
    rw [writeItems, writeItems, Matches.write_eq plain v x first]
  | x :: y :: rest, _, _, .cons first (.cons second others), tail => by
    rw [writeItems, writeItems, Matches.write_eq plain v x first,
      MatchesAll.writeItems_eq plain v (y :: rest) (.cons second others)]

end

theorem Matches.print_eq (plain : d.Plain) {x y : Value} (h : x.Matches d home y)
    (v : Vocabulary) : y.print v = x.print v :=
  Matches.write_eq plain v x h []

end Value

theorem Failure.Matches.kind_eq {e e' : Failure} (h : e.Matches d home e') :
    e'.kind = e.kind := by
  cases h <;> rfl

/-- Under a plain dictionary, failures that match say the same. -/
theorem Failure.Matches.message_eq (plain : d.Plain) {e e' : Failure} (h : e.Matches d home e')
    (v : Vocabulary) : e'.message v = e.message v := by
  cases h with
  | nilExpression | closureArity | host => rfl
  | unboundSymbol n | noArguments n | emptyList n | formArity n | notOneArgument n =>
    simp only [Failure.message, plain n]
  | unsupported about | notCallable about | paramNotSymbol about =>
    simp only [Failure.message, about.print_eq plain v]
  | paramsNotList about =>
    simp only [Failure.message, about.print_eq plain v, about.typeName_eq]
  | conditionNotBoolean n about | targetNotSymbol n about | bindingsNotList n about
  | bindingNotPair n about | bindingNotSymbol n about | boundNotNumber n about
  | boundOutOfRange n about =>
    simp only [Failure.message, plain n, about.print_eq plain v]
  | notNumber n about | notBoolean n about | notList n about =>
    simp only [Failure.message, plain n, about.print_eq plain v, about.typeName_eq]

theorem Failure.Matches.mono (more : ∀ i i', home i i' → home' i i') {e e' : Failure}
    (h : e.Matches d home e') : e.Matches d home' e' := by
  cases h with
  | nilExpression => exact .nilExpression
  | unboundSymbol n => exact .unboundSymbol n
  | closureArity params args => exact .closureArity params args
  | formArity n wanted args => exact .formArity n wanted args
  | noArguments n => exact .noArguments n
  | notOneArgument n args => exact .notOneArgument n args
  | emptyList n => exact .emptyList n
  | host kind message => exact .host kind message
  | unsupported about => exact .unsupported (about.mono more)
  | notCallable about => exact .notCallable (about.mono more)
  | paramsNotList about => exact .paramsNotList (about.mono more)
  | paramNotSymbol about => exact .paramNotSymbol (about.mono more)
  | conditionNotBoolean n about => exact .conditionNotBoolean n (about.mono more)
  | targetNotSymbol n about => exact .targetNotSymbol n (about.mono more)
  | bindingsNotList n about => exact .bindingsNotList n (about.mono more)
  | bindingNotPair n about => exact .bindingNotPair n (about.mono more)
  | bindingNotSymbol n about => exact .bindingNotSymbol n (about.mono more)
  | notNumber n about => exact .notNumber n (about.mono more)
  | notBoolean n about => exact .notBoolean n (about.mono more)
  | notList n about => exact .notList n (about.mono more)
  | boundNotNumber n about => exact .boundNotNumber n (about.mono more)
  | boundOutOfRange n about => exact .boundOutOfRange n (about.mono more)

/-! ## Builtins -/

/-- Both answers are values that stand in the relation, or both are failures that match. -/
inductive Alike (d : Dictionary) (home : Pairing) {α β : Type} (R : α → β → Prop) :
    Except Failure α → Except Failure β → Prop where
  | value {x : α} {y : β} (related : R x y) : Alike d home R (.ok x) (.ok y)
  | failure {e e' : Failure} (about : e.Matches d home e') :
      Alike d home R (.error e) (.error e')

theorem Alike.mono (more : ∀ i i', home i i' → home' i i') {x y : Except Failure Value}
    (h : Alike d home (Value.Matches d home) x y) :
    Alike d home' (Value.Matches d home') x y := by
  cases h with
  | value matching => exact .value (matching.mono more)
  | failure about => exact .failure (about.mono more)

theorem Alike.andThen {α β γ δ : Type} {R : α → β → Prop} {S : γ → δ → Prop}
    {x : Except Failure α} {y : Except Failure β} {f : α → Except Failure γ}
    {g : β → Except Failure δ} (h : Alike d home R x y)
    (next : ∀ a b, R a b → Alike d home S (f a) (g b)) : Alike d home S (x >>= f) (y >>= g) := by
  cases h with
  | value related => exact next _ _ related
  | failure about => exact .failure about

namespace Builtin

open Value

variable (name : Text) {args args' : List Value}

theorem alike_numbers (h : MatchesAll d home args args') :
    Alike d home Eq (numbers name args) (numbers (d.name name) args') := by
  induction args generalizing args' with
  | nil =>
    cases h
    exact .value rfl
  | cons x xs ih =>
    cases h with
    | cons first rest =>
      cases first with
      | number x =>
        refine (ih rest).andThen ?_
        rintro numbers _ rfl
        exact .value rfl
      | _ => exact .failure (.notNumber name (by constructor <;> assumption))

theorem alike_booleans (h : MatchesAll d home args args') :
    Alike d home Eq (booleans name args) (booleans (d.name name) args') := by
  induction args generalizing args' with
  | nil =>
    cases h
    exact .value rfl
  | cons x xs ih =>
    cases h with
    | cons first rest =>
      cases first with
      | boolean b =>
        refine (ih rest).andThen ?_
        rintro booleans _ rfl
        exact .value rfl
      | _ => exact .failure (.notBoolean name (by constructor <;> assumption))

theorem matches_notOneArgument (h : MatchesAll d home args args') :
    Failure.Matches d home (.notOneArgument name args.length)
      (.notOneArgument (d.name name) args'.length) := by
  rw [h.length_eq]
  exact .notOneArgument name args.length

theorem alike_onlyList (h : MatchesAll d home args args') :
    Alike d home (MatchesAll d home) (onlyList name args) (onlyList (d.name name) args') := by
  have wrongNumber := matches_notOneArgument name h
  cases h with
  | nil => exact .failure wrongNumber
  | cons first rest =>
    cases rest with
    | nil =>
      cases first with
      | list each => exact .value each
      | _ => exact .failure (.notList name (by constructor <;> assumption))
    | cons second others => cases first <;> exact .failure wrongNumber

theorem alike_bound (h : MatchesAll d home args args') :
    Alike d home Eq (bound name args) (bound (d.name name) args') := by
  have wrongNumber := matches_notOneArgument name h
  cases h with
  | nil => exact .failure wrongNumber
  | cons first rest =>
    cases rest with
    | nil =>
      cases first with
      | number n =>
        rw [bound, bound]
        split
        · exact .failure (.boundOutOfRange name (.number n))
        · exact .value rfl
      | _ => exact .failure (.boundNotNumber name (by constructor <;> assumption))
    | cons second others => cases first <;> exact .failure wrongNumber

theorem alike_someArguments (h : MatchesAll d home args args') :
    Alike d home Eq (someArguments name args) (someArguments (d.name name) args') := by
  cases h with
  | nil => exact .failure (.noArguments name)
  | cons first rest => exact .value rfl

theorem alike_numeric (op : NumericOp) (h : MatchesAll d home args args') :
    Alike d home (Matches d home) (numeric op name args) (numeric op (d.name name) args') := by
  refine (alike_someArguments name h).andThen fun _ _ _ => (alike_numbers name h).andThen ?_
  rintro numbers _ rfl
  cases numbers with
  | nil => exact .failure (.noArguments name)
  | cons x rest => exact .value (.number _)

theorem alike_equal (h : MatchesAll d home args args') :
    Alike d home (Matches d home) (Builtin.equal name args)
      (Builtin.equal (d.name name) args') := by
  cases h with
  | nil => exact .failure (.noArguments name)
  | @cons _ x x' xs xs' first rest =>
    have same : xs'.all x'.equal = xs.all x.equal := by
      induction xs generalizing xs' with
      | nil =>
        cases rest
        rfl
      | cons y ys ih =>
        cases rest with
        | cons second others =>
          rw [List.all_cons, List.all_cons, ih others, Matches.equal_eq x first second]
    rw [Builtin.equal, Builtin.equal, same]
    exact .value (.boolean _)

theorem alike_ordered (lt : Binary64 → Binary64 → Bool) (h : MatchesAll d home args args') :
    Alike d home (Matches d home) (ordered lt name args) (ordered lt (d.name name) args') := by
  refine (alike_someArguments name h).andThen fun _ _ _ => (alike_numbers name h).andThen ?_
  rintro numbers _ rfl
  exact .value (.boolean _)

theorem alike_conjunction (h : MatchesAll d home args args') :
    Alike d home (Matches d home) (conjunction name args) (conjunction (d.name name) args') := by
  refine (alike_someArguments name h).andThen fun _ _ _ => (alike_booleans name h).andThen ?_
  rintro booleans _ rfl
  exact .value (.boolean _)

theorem alike_disjunction (h : MatchesAll d home args args') :
    Alike d home (Matches d home) (disjunction name args) (disjunction (d.name name) args') := by
  refine (alike_someArguments name h).andThen fun _ _ _ => (alike_booleans name h).andThen ?_
  rintro booleans _ rfl
  exact .value (.boolean _)

theorem alike_negation (h : MatchesAll d home args args') :
    Alike d home (Matches d home) (negation name args) (negation (d.name name) args') := by
  refine (alike_booleans name h).andThen ?_
  rintro booleans _ rfl
  refine .value (.list ?_)
  induction booleans with
  | nil => exact .nil
  | cons b rest ih => exact .cons (.boolean _) ih

theorem alike_first (h : MatchesAll d home args args') :
    Alike d home (Matches d home) (Builtin.first name args)
      (Builtin.first (d.name name) args') := by
  refine (alike_onlyList name h).andThen ?_
  intro items items' each
  cases each with
  | nil => exact .failure (.emptyList name)
  | cons first rest => exact .value first

theorem alike_rest (h : MatchesAll d home args args') :
    Alike d home (Matches d home) (Builtin.rest name args) (Builtin.rest (d.name name) args') := by
  refine (alike_onlyList name h).andThen ?_
  intro items items' each
  cases each with
  | nil => exact .value (.list .nil)
  | cons first rest => exact .value (.list rest)

theorem alike_random (g : Generator) (h : MatchesAll d home args args') :
    Alike d home (Matches d home) (random name args g).1 (random (d.name name) args' g).1 ∧
      (random (d.name name) args' g).2 = (random name args g).2 := by
  have same := alike_bound name h
  unfold random
  generalize bound name args = bound₁ at same
  generalize bound (d.name name) args' = bound₂ at same
  cases same with
  | value equal =>
    cases equal
    exact ⟨.value (.number _), rfl⟩
  | failure about => exact ⟨.failure about, rfl⟩

end Builtin

/-- Whether functions of the host tell matching arguments apart is up to the host; no other
primitive does, and all draw the same random numbers. -/
theorem Primitive.alike_apply {host host' : Host} (name : Text) {args args' : List Value}
    (g : Generator) (op : Primitive) (h : Value.MatchesAll d home args args')
    (hosts : ∀ slot, op = .host slot →
      Alike d home (Value.Matches d home) (host slot name args) (host' slot (d.name name) args')) :
    Alike d home (Value.Matches d home) (op.apply host name args g).1
        (op.apply host' (d.name name) args' g).1 ∧
      (op.apply host' (d.name name) args' g).2 = (op.apply host name args g).2 := by
  cases op with
  | numeric op => exact ⟨Builtin.alike_numeric name op h, rfl⟩
  | equal => exact ⟨Builtin.alike_equal name h, rfl⟩
  | increasing => exact ⟨Builtin.alike_ordered name _ h, rfl⟩
  | decreasing => exact ⟨Builtin.alike_ordered name _ h, rfl⟩
  | conjunction => exact ⟨Builtin.alike_conjunction name h, rfl⟩
  | disjunction => exact ⟨Builtin.alike_disjunction name h, rfl⟩
  | negation => exact ⟨Builtin.alike_negation name h, rfl⟩
  | first => exact ⟨Builtin.alike_first name h, rfl⟩
  | rest => exact ⟨Builtin.alike_rest name h, rfl⟩
  | random => exact Builtin.alike_random name g h
  | host slot => exact ⟨hosts slot rfl, rfl⟩

end Argot
