import Argot.Proofs.Parts

set_option autoImplicit false

/-!
# Equality

Equality of values is symmetric and transitive, and a value is equal to itself unless
something in it is nil or not a number.  The builtin for equality compares all its arguments
with the first one only.  That it says of all pairs of them whether they are equal, and says
the same in every order, is then a matter of symmetry and transitivity; it does not need a
value to be equal to itself.
-/

namespace Argot

namespace Value

/-! ## One level of values -/

/-- Values of one variant whose parts are equal. -/
inductive Equates : Value → Value → Prop where
  | quote {x y : Value} (inner : x.equal y = true) : Equates (.quote x) (.quote y)
  | symbol (n : Text) : Equates (.symbol n) (.symbol n)
  | number {x y : Binary64} (same : x.equals y = true) : Equates (.number x) (.number y)
  | boolean (b : Bool) : Equates (.boolean b) (.boolean b)
  | string (s : Text) : Equates (.string s) (.string s)
  | list {xs ys : List Value} (each : equalAll xs ys = true) : Equates (.list xs) (.list ys)
  | builtin (b : Builtin) : Equates (.builtin b) (.builtin b)
  | closure {p q b c : Value} {h k : Option Nat} (params : p.equal q = true)
      (body : b.equal c = true) : Equates (.closure p b h) (.closure q c k)
  | scopedLet {p q b c : Value} (bindings : p.equal q = true) (body : b.equal c = true) :
      Equates (.scopedLet p b) (.scopedLet q c)

/-- Values are equal only if they are of one variant. -/
theorem equates {x y : Value} : x.equal y = true → x.Equates y := by
  fun_cases equal x y with
  | case1 x y => exact .quote
  | case2 m n =>
    intro same
    obtain rfl := beq_iff_eq.1 same
    exact .symbol m
  | case3 x y => exact .number
  | case4 b c =>
    intro same
    obtain rfl := beq_iff_eq.1 same
    exact .boolean b
  | case5 s t =>
    intro same
    obtain rfl := beq_iff_eq.1 same
    exact .string s
  | case6 xs ys => exact .list
  | case7 b c =>
    intro same
    obtain rfl := beq_iff_eq.1 same
    exact .builtin b
  | case8 =>
    intro both
    obtain ⟨params, body⟩ := Bool.and_eq_true_iff.1 both
    exact .closure params body
  | case9 =>
    intro both
    obtain ⟨bindings, body⟩ := Bool.and_eq_true_iff.1 both
    exact .scopedLet bindings body
  | case10 => exact fun impossible => absurd impossible Bool.false_ne_true

theorem equalAll_cons {x : Value} {xs ys : List Value} (h : equalAll (x :: xs) ys = true) :
    ∃ y ys', ys = y :: ys' ∧ x.equal y = true ∧ equalAll xs ys' = true := by
  cases ys with
  | nil => cases h
  | cons y ys => exact ⟨y, ys, rfl, Bool.and_eq_true_iff.1 h⟩

theorem equalAll_nil {ys : List Value} (h : equalAll [] ys = true) : ys = [] := by
  cases ys with
  | nil => rfl
  | cons y ys => cases h

/-! ## Symmetry and transitivity -/

mutual

theorem equal_symm : (x : Value) → {y : Value} → x.equal y = true → y.equal x = true
  | .quote x, _, h => by
    cases equates h with
    | quote inner => exact equal_symm x inner
  | .number x, _, h => by
    cases equates h with
    | @number _ y same => exact (y.equals_comm x).trans same
  | .list xs, _, h => by
    cases equates h with
    | list each => exact equalAll_symm xs each
  | .closure p b _, _, h => by
    cases equates h with
    | closure params body => exact Bool.and_eq_true_iff.2 ⟨equal_symm p params, equal_symm b body⟩
  | .scopedLet p b, _, h => by
    cases equates h with
    | scopedLet bindings body =>
      exact Bool.and_eq_true_iff.2 ⟨equal_symm p bindings, equal_symm b body⟩
  | .nil, _, h => by cases equates h
  | .symbol n, _, h | .boolean b, _, h | .string s, _, h | .builtin b, _, h => by
    cases equates h
    exact h

theorem equalAll_symm : (xs : List Value) → {ys : List Value} → equalAll xs ys = true →
    equalAll ys xs = true
  | [], _, h => by
    obtain rfl := equalAll_nil h
    rfl
  | x :: xs, _, h => by
    obtain ⟨y, ys, rfl, first, rest⟩ := equalAll_cons h
    exact Bool.and_eq_true_iff.2 ⟨equal_symm x first, equalAll_symm xs rest⟩

end

mutual

/-- The variant of the first value decides that of the second, and this one that of the third. -/
theorem equal_trans : (x : Value) → {y z : Value} → x.equal y = true → y.equal z = true →
    x.equal z = true
  | .quote x, _, _, h, h' => by
    cases equates h with
    | quote inner =>
    cases equates h' with
    | quote inner' => exact equal_trans x inner inner'
  | .number x, _, _, h, h' => by
    cases equates h with
    | number same =>
    cases equates h' with
    | number same' => exact Binary64.equals_trans same same'
  | .list xs, _, _, h, h' => by
    cases equates h with
    | list each =>
    cases equates h' with
    | list each' => exact equalAll_trans xs each each'
  | .closure p b _, _, _, h, h' => by
    cases equates h with
    | closure params body =>
    cases equates h' with
    | closure params' body' =>
      exact Bool.and_eq_true_iff.2 ⟨equal_trans p params params', equal_trans b body body'⟩
  | .scopedLet p b, _, _, h, h' => by
    cases equates h with
    | scopedLet bindings body =>
    cases equates h' with
    | scopedLet bindings' body' =>
      exact Bool.and_eq_true_iff.2 ⟨equal_trans p bindings bindings', equal_trans b body body'⟩
  | .nil, _, _, h, _ => by cases equates h
  | .symbol n, _, _, h, h' | .boolean b, _, _, h, h' | .string s, _, _, h, h'
  | .builtin b, _, _, h, h' => by
    cases equates h
    exact h'

theorem equalAll_trans : (xs : List Value) → {ys zs : List Value} → equalAll xs ys = true →
    equalAll ys zs = true → equalAll xs zs = true
  | [], _, _, h, h' => by
    obtain rfl := equalAll_nil h
    exact h'
  | x :: xs, _, _, h, h' => by
    obtain ⟨y, ys, rfl, first, rest⟩ := equalAll_cons h
    obtain ⟨z, zs, rfl, first', rest'⟩ := equalAll_cons h'
    exact Bool.and_eq_true_iff.2 ⟨equal_trans x first first', equalAll_trans xs rest rest'⟩

end

/-! ## Values that are equal to themselves -/

/-- Whether a part of a value is neither nil nor a number that is missing. -/
def isPresent : Value → Bool
  | .nil => false
  | .number x => !x.isNaN
  | _ => true

theorem each_scopedLet {p : Value → Prop} {bindings body : Value} :
    (Value.scopedLet bindings body).Each p ↔
      p (.scopedLet bindings body) ∧ bindings.Each p ∧ body.Each p := by
  simp [Each, parts, or_imp, forall_and]

mutual

/-- A value is equal to itself exactly if nothing in it is missing. -/
theorem equal_self_iff : (x : Value) → (x.equal x = true ↔ x.Each fun y => y.isPresent = true)
  | .quote x => by
    rw [each_quote, equal, equal_self_iff x]
    exact (and_iff_right rfl).symm
  | .list xs => by
    rw [each_list, equal, equalAll_self_iff xs]
    exact (and_iff_right rfl).symm
  | .closure p b _ => by
    rw [each_closure, equal, Bool.and_eq_true, equal_self_iff p, equal_self_iff b]
    exact (and_iff_right rfl).symm
  | .scopedLet p b => by
    rw [each_scopedLet, equal, Bool.and_eq_true, equal_self_iff p, equal_self_iff b]
    exact (and_iff_right rfl).symm
  | .number x => by
    rw [each_number, equal, Binary64.equals_self]
    rfl
  | .nil | .symbol n | .boolean b | .string s | .builtin b => by
    simp [Each, parts, equal, isPresent]

theorem equalAll_self_iff : (xs : List Value) →
    (equalAll xs xs = true ↔ ∀ x ∈ xs, x.Each fun y => y.isPresent = true)
  | [] => by simp [equalAll]
  | x :: xs => by
    rw [equalAll, Bool.and_eq_true, List.forall_mem_cons, equal_self_iff x, equalAll_self_iff xs]

end

/-! ## Many values -/

/-- Values that are equal to one value are equal to each other. -/
theorem all_equal_iff {x : Value} {xs : List Value} :
    xs.all x.equal = true ↔ (x :: xs).Pairwise fun y z => y.equal z = true := by
  rw [List.all_eq_true, List.pairwise_cons]
  refine ⟨fun first => ⟨first, ?_⟩, And.left⟩
  refine List.pairwise_of_forall_mem_list fun y member z member' => ?_
  exact equal_trans y (equal_symm x (first y member)) (first z member')

/-- Of two positions either may be the earlier one. -/
theorem pairwise_equal_iff {xs : List Value} :
    (xs.Pairwise fun y z => y.equal z = true) ↔
      ∀ i j (hi : i < xs.length) (hj : j < xs.length), i ≠ j → xs[i].equal xs[j] = true := by
  rw [List.pairwise_iff_getElem]
  constructor
  · intro earlier i j hi hj differ
    rcases Nat.lt_or_gt_of_ne differ with before | after
    · exact earlier i j hi hj before
    · exact equal_symm _ (earlier j i hj hi after)
  · intro apart i j hi hj before
    exact apart i j hi hj (Nat.ne_of_lt before)

end Value

/-- Whether all arguments are equal is a matter of pairs of them. -/
theorem Builtin.equal_answers (name : Text) {args : List Value} (given : args ≠ []) :
    ∃ answer, Builtin.equal name args = .ok (.boolean answer) ∧
      (answer = true ↔ args.Pairwise fun y z => y.equal z = true) := by
  obtain ⟨x, xs, rfl⟩ := List.exists_cons_of_ne_nil given
  exact ⟨xs.all x.equal, rfl, Value.all_equal_iff⟩

/-- The arguments may come in any order. -/
theorem Builtin.equal_perm (name : Text) {args args' : List Value} (perm : args.Perm args') :
    Builtin.equal name args' = Builtin.equal name args := by
  by_cases given : args = []
  · subst given
    rw [perm.nil_eq]
  · have given' : args' ≠ [] := fun none => given (none ▸ perm).eq_nil
    obtain ⟨answer, told, iff⟩ := Builtin.equal_answers name given
    obtain ⟨answer', told', iff'⟩ := Builtin.equal_answers name given'
    have same : answer' = answer := by
      rw [Bool.eq_iff_iff, iff, iff']
      exact (perm.pairwise_iff fun {x y} => Value.equal_symm x).symm
    rw [told, told', same]

/-- **Equality is a partial equivalence, and its builtin does not depend on the order of its
arguments.**

* Equality of values of whatever variant is symmetric and transitive.  A value is equal to
  itself if and only if neither the value nor anything in it is nil or not a number: no item
  of a list, nothing quoted, no part of a closure or of a block.
* Given arguments, the builtin answers a truth value.  It is true if and only if every two
  arguments at different positions are equal, and it is the same for every permutation of
  them. -/
theorem equality_is_a_partial_equivalence :
    (∀ a b : Value, a.equal b = true → b.equal a = true) ∧
    (∀ a b c : Value, a.equal b = true → b.equal c = true → a.equal c = true) ∧
    (∀ a : Value, a.equal a = true ↔ a.Each fun part => part.isPresent = true) ∧
    ∀ (host : Host) (name : Text) (g : Generator) (args : List Value), args ≠ [] →
      (∃ answer, Primitive.equal.apply host name args g = (.ok (.boolean answer), g) ∧
        (answer = true ↔ ∀ i j (hi : i < args.length) (hj : j < args.length), i ≠ j →
          args[i].equal args[j] = true)) ∧
      ∀ args', args.Perm args' →
        Primitive.equal.apply host name args' g = Primitive.equal.apply host name args g := by
  refine ⟨fun a b => Value.equal_symm a, fun a b c => Value.equal_trans a, Value.equal_self_iff, ?_⟩
  intro host name g args given
  constructor
  · obtain ⟨answer, told, iff⟩ := Builtin.equal_answers name given
    refine ⟨answer, ?_, iff.trans Value.pairwise_equal_iff⟩
    rw [Primitive.apply, told]
  · intro args' perm
    rw [Primitive.apply, Primitive.apply, Builtin.equal_perm name perm]

/-- The two zeros are equal, also in closures that remember different scopes.  A list with a
number that is missing is not equal to itself; it makes the answer false wherever it stands. -/
theorem zeros_are_equal_and_missing_numbers_are_not :
    let f : Value := .closure (.list []) (.number (.zero false)) (some 0)
    let g : Value := .closure (.list []) (.number (.zero true)) none
    let missing : Value := .list [.number .nan]
    let answer (args : List Value) := Primitive.equal.apply (fun _ _ _ => .ok .nil) "=" args ⟨0⟩
    f.equal g = true ∧ g.equal f = true ∧ f.equal f = true ∧ missing.equal missing = false ∧
      answer [f, g, f] = (.ok (.boolean true), ⟨0⟩) ∧
      answer [f, g, missing] = (.ok (.boolean false), ⟨0⟩) ∧
      answer [missing, f, g] = (.ok (.boolean false), ⟨0⟩) := by
  intro f g missing answer
  obtain ⟨symm, -, refl, order⟩ := equality_is_a_partial_equivalence
  have zeros : f.equal g = true := by decide
  have present : f.Each fun part => part.isPresent = true := by decide
  have absent : ¬ missing.Each fun part => part.isPresent = true := by decide
  have turned : [f, g, missing].Perm [missing, f, g] :=
    @List.perm_append_comm _ [f, g] [missing]
  have last : answer [f, g, missing] = (.ok (.boolean false), ⟨0⟩) := rfl
  refine ⟨zeros, symm f g zeros, (refl f).2 present, ?_, rfl, last, ?_⟩
  · exact Bool.eq_false_iff.2 fun same => absent ((refl missing).1 same)
  · exact ((order _ _ _ _ (List.cons_ne_nil f _)).2 _ turned).trans last

end Argot
