import Argot.Builtin

set_option autoImplicit false

/-!
# Values and their parts

What is asked of a value is often asked of everything in it.  `Value.parts` lists a value
and whatever it is made of, behind quotes and in closures too, and `Value.Each p` asks `p`
of each of them.

Builtins make up nothing of their own: what they answer is a number, a truth value, or
made of parts of their arguments, and they fail in ordinary ways (`Primitive.meets_apply`).
-/

namespace Argot

namespace Value

/-! ## Views -/

/-- The number that a value is. -/
def number? : Value → Option Binary64
  | .number x => some x
  | _ => none

/-- The truth value that a value is. -/
def boolean? : Value → Option Bool
  | .boolean b => some b
  | _ => none

/-- The items of the list that a value is. -/
def list? : Value → Option (List Value)
  | .list items => some items
  | _ => none

/-! ## Parts -/

mutual

/-- A value and everything in it. -/
def parts : Value → List Value
  | .quote x => .quote x :: x.parts
  | .list xs => .list xs :: partsOfAll xs
  | .closure params body home => .closure params body home :: (params.parts ++ body.parts)
  | .scopedLet bindings body => .scopedLet bindings body :: (bindings.parts ++ body.parts)
  | .nil => [.nil]
  | .symbol n => [.symbol n]
  | .number x => [.number x]
  | .boolean b => [.boolean b]
  | .string s => [.string s]
  | .builtin b => [.builtin b]

/-- The values and everything in them. -/
def partsOfAll : List Value → List Value
  | [] => []
  | x :: xs => x.parts ++ partsOfAll xs

end

theorem mem_partsOfAll {y : Value} {xs : List Value} :
    y ∈ partsOfAll xs ↔ ∃ x ∈ xs, y ∈ x.parts := by
  induction xs with
  | nil => simp [partsOfAll]
  | cons x xs ih => simp [partsOfAll, ih]

theorem mem_parts_self (x : Value) : x ∈ x.parts := by
  cases x <;> simp [parts]

/-- The property holds of the value and of everything in it. -/
def Each (p : Value → Prop) (x : Value) : Prop := ∀ y ∈ x.parts, p y

instance (p : Value → Prop) [DecidablePred p] : DecidablePred (Each p) :=
  fun x => inferInstanceAs (Decidable (∀ y ∈ x.parts, p y))

variable {p q : Value → Prop}

theorem Each.self {x : Value} (h : x.Each p) : p x := h x x.mem_parts_self

theorem Each.mono {x : Value} (h : x.Each p) (weaker : ∀ y, p y → q y) : x.Each q :=
  fun y member => weaker y (h y member)

theorem each_quote {x : Value} : (Value.quote x).Each p ↔ p (.quote x) ∧ x.Each p := by
  simp [Each, parts]

theorem each_list {xs : List Value} :
    (Value.list xs).Each p ↔ p (.list xs) ∧ ∀ x ∈ xs, x.Each p := by
  simp only [Each, parts, List.forall_mem_cons, mem_partsOfAll]
  exact and_congr_right fun _ =>
    ⟨fun h x inList y inItem => h y ⟨x, inList, inItem⟩,
      fun h y ⟨x, inList, inItem⟩ => h x inList y inItem⟩

theorem each_closure {params body : Value} {home : Option Nat} :
    (Value.closure params body home).Each p ↔
      p (.closure params body home) ∧ params.Each p ∧ body.Each p := by
  simp [Each, parts, or_imp, forall_and]

theorem each_symbol {n : Text} : (Value.symbol n).Each p ↔ p (.symbol n) := by simp [Each, parts]

theorem each_number {x : Binary64} : (Value.number x).Each p ↔ p (.number x) := by
  simp [Each, parts]

theorem each_boolean {b : Bool} : (Value.boolean b).Each p ↔ p (.boolean b) := by
  simp [Each, parts]

theorem each_builtin {b : Builtin} : (Value.builtin b).Each p ↔ p (.builtin b) := by
  simp [Each, parts]

/-- Numbers and truth values have the property, and a list has it just if its items do. -/
structure Inherited (P : Value → Prop) : Prop where
  number : ∀ x, P (.number x)
  boolean : ∀ b, P (.boolean b)
  list : ∀ {xs}, P (.list xs) ↔ ∀ x ∈ xs, P x

theorem inherited_each (number : ∀ x, p (.number x)) (boolean : ∀ b, p (.boolean b))
    (list : ∀ xs, p (.list xs)) : Inherited (Each p) where
  number x := each_number.2 (number x)
  boolean b := each_boolean.2 (boolean b)
  list := each_list.trans (and_iff_right (list _))

end Value

/-! ## How a computation ends -/

/-- An answer has the one property, a failure the other one. -/
def Meets {α : Type} (P : α → Prop) (E : Failure → Prop) : Except Failure α → Prop
  | .ok x => P x
  | .error e => E e

section Meets

variable {α β : Type} {P P' : α → Prop} {Q : β → Prop} {E E' : Failure → Prop}

theorem Meets.mono {m : Except Failure α} (h : Meets P E m) (weaker : ∀ x, P x → P' x)
    (weaker' : ∀ e, E e → E' e) : Meets P' E' m := by
  cases m with
  | ok x => exact weaker x h
  | error e => exact weaker' e h

theorem Meets.andThen {m : Except Failure α} {f : α → Except Failure β} (h : Meets P E m)
    (next : ∀ x, P x → Meets Q E (f x)) : Meets Q E (m >>= f) := by
  cases m with
  | ok x => exact next x h
  | error e => exact h

/-- Nothing is asked of failures. -/
theorem meets_of_answer {m : Except Failure α} (h : ∀ x, m = .ok x → P x) :
    Meets P (fun _ => True) m := by
  cases m with
  | ok x => exact h x rfl
  | error e => trivial

end Meets

/-! ## What builtins answer -/

/-- Whether a failure is not about an expression that no program can spell. -/
def Failure.isOrdinary : Failure → Bool
  | .nilExpression | .unsupported _ => false
  | _ => true

namespace Builtin

variable {P : Value → Prop} {E : Failure → Prop} (ordinary : ∀ e : Failure, e.isOrdinary → E e)
  (name : Text)

include ordinary

theorem meets_numbers (args : List Value) : Meets (fun _ => True) E (numbers name args) := by
  fun_induction numbers name args with
  | case1 => trivial
  | case2 x rest ih => exact ih.andThen fun _ _ => trivial
  | case3 => exact ordinary _ rfl

theorem meets_booleans (args : List Value) : Meets (fun _ => True) E (booleans name args) := by
  fun_induction booleans name args with
  | case1 => trivial
  | case2 b rest ih => exact ih.andThen fun _ _ => trivial
  | case3 => exact ordinary _ rfl

theorem meets_someArguments (args : List Value) :
    Meets (fun _ => True) E (someArguments name args) := by
  unfold someArguments
  split
  · exact ordinary _ rfl
  · trivial

theorem meets_onlyList (list : ∀ {xs}, P (.list xs) → ∀ x ∈ xs, P x) {args : List Value}
    (given : ∀ x ∈ args, P x) : Meets (fun xs => ∀ x ∈ xs, P x) E (onlyList name args) := by
  unfold onlyList
  split
  · exact list (given _ List.mem_cons_self)
  · exact ordinary _ rfl
  · exact ordinary _ rfl

theorem meets_bound (args : List Value) : Meets (fun _ => True) E (bound name args) := by
  unfold bound
  split
  · split
    · exact ordinary _ rfl
    · trivial
  · exact ordinary _ rfl
  · exact ordinary _ rfl

variable (kind : Value.Inherited P)

include kind

theorem meets_numeric (op : NumericOp) (args : List Value) :
    Meets P E (numeric op name args) := by
  refine (meets_someArguments ordinary name args).andThen fun _ _ => ?_
  refine (meets_numbers ordinary name args).andThen fun numbers _ => ?_
  cases numbers with
  | nil => exact ordinary _ rfl
  | cons x rest => exact kind.number _

theorem meets_equal (args : List Value) : Meets P E (equal name args) := by
  cases args with
  | nil => exact ordinary _ rfl
  | cons x rest => exact kind.boolean _

theorem meets_ordered (lt : Binary64 → Binary64 → Bool) (args : List Value) :
    Meets P E (ordered lt name args) := by
  refine (meets_someArguments ordinary name args).andThen fun _ _ => ?_
  exact (meets_numbers ordinary name args).andThen fun _ _ => kind.boolean _

theorem meets_conjunction (args : List Value) : Meets P E (conjunction name args) := by
  refine (meets_someArguments ordinary name args).andThen fun _ _ => ?_
  exact (meets_booleans ordinary name args).andThen fun _ _ => kind.boolean _

theorem meets_disjunction (args : List Value) : Meets P E (disjunction name args) := by
  refine (meets_someArguments ordinary name args).andThen fun _ _ => ?_
  exact (meets_booleans ordinary name args).andThen fun _ _ => kind.boolean _

theorem meets_negation (args : List Value) : Meets P E (negation name args) := by
  refine (meets_booleans ordinary name args).andThen fun bs _ => kind.list.2 ?_
  intro x member
  obtain ⟨b, _, rfl⟩ := List.mem_map.1 member
  exact kind.boolean _

theorem meets_first {args : List Value} (given : ∀ x ∈ args, P x) :
    Meets P E (first name args) := by
  refine (meets_onlyList ordinary name kind.list.1 given).andThen fun items itemsHave => ?_
  cases items with
  | nil => exact ordinary _ rfl
  | cons x rest => exact itemsHave x List.mem_cons_self

theorem meets_rest {args : List Value} (given : ∀ x ∈ args, P x) :
    Meets P E (rest name args) := by
  refine (meets_onlyList ordinary name kind.list.1 given).andThen fun items itemsHave => ?_
  exact kind.list.2 fun x member => itemsHave x (List.mem_of_mem_tail member)

theorem meets_random (args : List Value) (g : Generator) :
    Meets P E (random name args g).1 := by
  have bounded := meets_bound ordinary name args
  unfold random
  split
  · rename_i e refused
    rw [refused] at bounded
    exact bounded
  · exact kind.number _

end Builtin

/-- What a builtin answers is a number, a truth value, or made of parts of its arguments,
and so it has what they have; and it fails in an ordinary way.  Functions of the host are
taken at their word. -/
theorem Primitive.meets_apply {P : Value → Prop} (kind : Value.Inherited P) {E : Failure → Prop}
    (ordinary : ∀ e : Failure, e.isOrdinary → E e) {host : Host} {name : Text} {args : List Value}
    (given : ∀ x ∈ args, P x) (op : Primitive)
    (hosted : ∀ slot, op = .host slot → Meets P E (host slot name args)) (g : Generator) :
    Meets P E (op.apply host name args g).1 := by
  cases op with
  | numeric op => exact Builtin.meets_numeric ordinary name kind op args
  | equal => exact Builtin.meets_equal ordinary name kind args
  | increasing => exact Builtin.meets_ordered ordinary name kind _ args
  | decreasing => exact Builtin.meets_ordered ordinary name kind _ args
  | conjunction => exact Builtin.meets_conjunction ordinary name kind args
  | disjunction => exact Builtin.meets_disjunction ordinary name kind args
  | negation => exact Builtin.meets_negation ordinary name kind args
  | first => exact Builtin.meets_first ordinary name kind given
  | rest => exact Builtin.meets_rest ordinary name kind given
  | random => exact Builtin.meets_random ordinary name kind args g
  | host slot => exact hosted slot rfl

/-- Only random numbers advance the generator. -/
theorem Primitive.generator_apply {op : Primitive} (steady : op ≠ .random) (host : Host)
    (name : Text) (args : List Value) (g : Generator) : (op.apply host name args g).2 = g := by
  cases op with
  | random => exact absurd rfl steady
  | _ => rfl

end Argot
