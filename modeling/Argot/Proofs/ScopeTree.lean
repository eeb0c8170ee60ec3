import Argot.Proofs.Likeness
import Argot.Proofs.Programs

set_option autoImplicit false

/-!
# The tree of scopes

The scopes that an interpreter makes form a tree.  Its root is the global scope, which has
no parent; every other scope has an older one of the tree for its parent, and closures
remember scopes of the tree.  What is bound in the tree may be of a certain kind besides: a
`Kind` says what is asked of every part of a value, and which failures there may be.

Evaluation keeps the tree, and answers values of the kind or fails as the kind allows
(`eval_upholds`).  The proof relates two ways to evaluate at a time, so that it also says
which evaluations can take the place of one another inside the tree (`Run.Upholds`).
-/

namespace Argot

/-! ## Parts with a scope -/

namespace Value

/-- The scope that a closure remembers. -/
def home? : Value → Option Nat
  | .closure _ _ home => home
  | _ => none

mutual

/-- The scopes in a value are those that its parts remember. -/
theorem homes_eq : (x : Value) → x.homes = x.parts.filterMap home?
  | .quote x => by rw [homes, homes_eq x, parts, List.filterMap_cons_none rfl]
  | .list xs => by rw [homes, homesOfAll_eq xs, parts, List.filterMap_cons_none rfl]
  | .closure p b home => by
    rw [homes, homes_eq p, homes_eq b, parts, ← List.filterMap_append]
    cases home <;> rfl
  | .scopedLet p b => by
    rw [homes, homes_eq p, homes_eq b, parts, ← List.filterMap_append]
    rfl
  | .nil | .symbol _ | .number _ | .boolean _ | .string _ | .builtin _ => rfl

theorem homesOfAll_eq : (xs : List Value) → homesOfAll xs = (partsOfAll xs).filterMap home?
  | [] => rfl
  | x :: xs => by
    rw [homesOfAll, homes_eq x, homesOfAll_eq xs, partsOfAll, List.filterMap_append]

end

theorem mem_homes {x : Value} {h : Nat} : h ∈ x.homes ↔ ∃ y ∈ x.parts, y.home? = some h := by
  rw [homes_eq, List.mem_filterMap]

/-- Whether a part of a value can be a part of program text. -/
def isWritten : Value → Bool
  | .quote _ | .symbol _ | .number _ | .boolean _ | .list _ => true
  | .nil | .string _ | .builtin _ | .closure _ _ _ | .scopedLet _ _ => false

theorem textual_written (v : Vocabulary) : Textual v (Each fun y => y.isWritten = true) where
  atom tok := by
    unfold readAtom
    split
    · exact each_number.2 rfl
    · split
      · exact each_boolean.2 rfl
      · split
        · exact each_boolean.2 rfl
        · exact each_symbol.2 rfl
  quote written := each_quote.2 ⟨rfl, written⟩
  list written := each_list.2 ⟨rfl, written⟩

end Value

/-! ## Kinds of values -/

/-- What is asked of every part of a value, and of failures. -/
structure Kind where
  part : Value → Prop
  failure : Failure → Prop

namespace Kind

/-- The value is of the kind, and it remembers only scopes from the root on and below the
size. -/
def Has (k : Kind) (root size : Nat) (x : Value) : Prop :=
  x.Each fun y => k.part y ∧ ∀ h, y.home? = some h → root ≤ h ∧ h < size

variable {k : Kind} {root size size' : Nat} {x : Value}

theorem Has.mono (h : k.Has root size x) (more : size ≤ size') : k.Has root size' x :=
  Value.Each.mono h fun _ good => ⟨good.1, fun i same =>
    ⟨(good.2 i same).1, Nat.lt_of_lt_of_le (good.2 i same).2 more⟩⟩

theorem Has.quoted (h : k.Has root size (.quote x)) : k.Has root size x :=
  (Value.each_quote.1 h).2

theorem Has.body {params body : Value} {home : Option Nat}
    (h : k.Has root size (.closure params body home)) : k.Has root size body :=
  (Value.each_closure.1 h).2.2

theorem Has.parts (h : k.Has root size x) : x.Each k.part := Value.Each.mono h fun _ good => good.1

theorem Has.home (h : k.Has root size x) {i : Nat} (member : i ∈ x.homes) :
    root ≤ i ∧ i < size := by
  obtain ⟨y, part, remembers⟩ := Value.mem_homes.1 member
  exact (h y part).2 i remembers

/-- The kind goes with the rules: program text is of the kind and so are the closures that
evaluation makes; failures are allowed unless no value of the kind leads to them; and
functions of the host that are of the kind keep to it. -/
structure Fits (k : Kind) (r : Rules) : Prop where
  written : ∀ y : Value, y.isWritten = true → k.part y
  closure : ∀ params body scope,
    k.part (.closure params body (if r.lexical then some scope else none))
  ordinary : ∀ e : Failure, e.isOrdinary = true → k.failure e
  nilExpression : k.part .nil → k.failure .nilExpression
  unsupported : ∀ bindings body, k.part (.scopedLet bindings body) →
    k.failure (.unsupported (.scopedLet bindings body))
  host : ∀ registration name slot, k.part (.builtin ⟨registration, name, .host slot⟩) →
    ∀ root size args, (∀ x ∈ args, k.Has root size x) →
      Meets (k.Has root size) k.failure (r.host slot name args)

variable {r : Rules} (fits : k.Fits r)

include fits

theorem Fits.has_of_written (written : x.Each fun y => y.isWritten = true) :
    k.Has root size x := by
  refine Value.Each.mono written fun y isWritten => ⟨fits.written y isWritten, ?_⟩
  intro h remembers
  cases y with
  | closure => cases isWritten
  | _ => cases remembers

theorem Fits.has_symbol (n : Text) : k.Has root size (.symbol n) :=
  fits.has_of_written (Value.each_symbol.2 rfl)

theorem Fits.has_boolean (b : Bool) : k.Has root size (.boolean b) :=
  fits.has_of_written (Value.each_boolean.2 rfl)

theorem Fits.inherited : Value.Inherited (k.Has root size) :=
  Value.inherited_each (fun _ => (fits.has_of_written (Value.each_number.2 rfl)).self)
    (fun b => (fits.has_boolean b).self)
    fun _ => ⟨fits.written _ rfl, fun _ impossible => nomatch impossible⟩

theorem Fits.has_closure {params body : Value} {scope : Nat} (hasParams : k.Has root size params)
    (hasBody : k.Has root size body) (above : root ≤ scope) (below : scope < size) :
    k.Has root size (.closure params body (if r.lexical then some scope else none)) := by
  refine Value.each_closure.2 ⟨⟨fits.closure params body scope, ?_⟩, hasParams, hasBody⟩
  intro h remembers
  change (if r.lexical then some scope else none) = some h at remembers
  split at remembers
  · cases remembers
    exact ⟨above, below⟩
  · cases remembers

end Kind

/-! ## The tree -/

namespace Store

/-- The scopes from the root on are a tree, and everything bound in it is of the kind. -/
structure Tree (k : Kind) (root : Nat) (s : Store) : Prop where
  top : ∃ f, s.frame? root = some f ∧ f.parent = none ∧ f.isGlobal = true
  under : ∀ i f, root < i → s.frame? i = some f →
    f.isGlobal = false ∧ ∃ p, f.parent = some p ∧ root ≤ p ∧ p < i
  bound : ∀ i name x, root ≤ i → s.local? i name = some x → k.Has root s.size x

namespace Tree

variable {k : Kind} {root : Nat} {s : Store}

theorem present (tree : s.Tree k root) : root < s.size := by
  obtain ⟨f, found, _⟩ := tree.top
  exact frame?_lt found

/-- Whatever a name means in the tree is of the kind. -/
theorem lookup (tree : s.Tree k root) {scope : Nat} (above : root ≤ scope) {name : Text} {x : Value}
    (found : s.lookup scope name = some x) : k.Has root s.size x := by
  by_cases present : scope < s.size
  · rw [lookup_eq s present] at found
    rcases Option.or_eq_some_iff.1 found with own | ⟨_, outer⟩
    · exact tree.bound scope name x above own
    · obtain ⟨p, parent, found'⟩ := Option.bind_eq_some_iff.1 outer
      have older := parent?_lt parent
      obtain ⟨f, here⟩ := frame?_isSome present
      have link := (Option.filter_eq_some_iff.1 parent).1
      rw [here, Option.bind_some] at link
      rcases Nat.eq_or_lt_of_le above with rfl | inside
      · -- the root has no parent
        obtain ⟨g, there, orphan, _⟩ := tree.top
        obtain rfl := Option.some.inj (here.symm.trans there)
        rw [orphan] at link
        cases link
      · obtain ⟨_, q, link', above', _⟩ := tree.under scope f inside here
        obtain rfl := Option.some.inj (link.symm.trans link')
        exact tree.lookup above' found'
  · rw [lookup_eq_findSome?, chain_eq, if_neg present] at found
    cases found
termination_by scope

/-- Binding a value of the kind keeps the tree, wherever the name is bound. -/
theorem bind (tree : s.Tree k root) (scope : Nat) (name : Text) {x : Value}
    (has : k.Has root s.size x) : (s.bind scope name x).Tree k root := by
  have frames : ∀ i f, (s.bind scope name x).frame? i = some f →
      ∃ g, s.frame? i = some g ∧ f.parent = g.parent ∧ f.isGlobal = g.isGlobal := by
    intro i f found
    rw [frame?_bind] at found
    split at found
    · obtain ⟨g, there, rfl⟩ := Option.map_eq_some_iff.1 found
      exact ⟨g, there, rfl, rfl⟩
    · exact ⟨f, found, rfl, rfl⟩
  refine ⟨?_, ?_, ?_⟩
  · have there : root < (s.bind scope name x).size := by
      rw [size_bind]
      exact tree.present
    obtain ⟨f, found⟩ := frame?_isSome there
    obtain ⟨g, before, parent, isGlobal⟩ := frames root f found
    obtain ⟨g', before', orphan, global⟩ := tree.top
    obtain rfl := Option.some.inj (before.symm.trans before')
    exact ⟨f, found, parent.trans orphan, isGlobal.trans global⟩
  · intro i f inside found
    obtain ⟨g, before, parent, isGlobal⟩ := frames i f found
    obtain ⟨notGlobal, p, link, range⟩ := tree.under i g inside before
    exact ⟨isGlobal.trans notGlobal, p, parent.trans link, range⟩
  · intro i n y above found
    rw [size_bind]
    rw [local?_bind] at found
    split at found
    · cases found
      exact has
    · exact tree.bound i n y above found

/-- A new scope under one of the tree is of the tree. -/
theorem push (tree : s.Tree k root) {f : Frame} {p : Nat} (link : f.parent = some p)
    (above : root ≤ p) (below : p < s.size) (notGlobal : f.isGlobal = false)
    (bindings : ∀ name x, f.bindings.find? name = some x → k.Has root s.size x) :
    (s.push f).Tree k root := by
  refine ⟨?_, ?_, ?_⟩
  · obtain ⟨g, found, orphan, global⟩ := tree.top
    exact ⟨g, untouched_push s f root g found, orphan, global⟩
  · intro i g inside found
    rw [frame?_push] at found
    split at found
    · rename_i newest
      cases found
      exact ⟨notGlobal, p, link, above, newest ▸ below⟩
    · exact tree.under i g inside found
  · intro i n x inside found
    rw [local?_push] at found
    rw [size_push]
    split at found
    · exact (bindings n x found).mono (Nat.le_succ _)
    · exact (tree.bound i n x inside found).mono (Nat.le_succ _)

/-- A new global scope is the root of a tree of its own. -/
theorem pushGlobal (primitives : NameMap Primitive)
    (kind : ∀ registration name op, primitives.find? name = some op →
      k.part (.builtin ⟨registration, name, op⟩)) :
    (s.pushGlobal primitives).Tree k s.size := by
  have newest : (s.pushGlobal primitives).frame? s.size = some { globalFrame with
      bindings := registered s.registrations primitives } :=
    (frame?_push s.register.2 _ s.size).trans (if_pos rfl)
  have size : (s.pushGlobal primitives).size = s.size + 1 := size_push s.register.2 _
  refine ⟨⟨_, newest, rfl, rfl⟩, ?_, ?_⟩
  · intro i f inside found
    have below := frame?_lt found
    omega
  · intro i n x above found
    have below : i < (s.pushGlobal primitives).size := by
      rcases Nat.lt_or_ge i (s.pushGlobal primitives).size with below | outside
      · exact below
      · rw [local?_eq_none_of_le outside] at found
        cases found
    obtain rfl : i = s.size := by omega
    rw [local?, newest, Option.bind_some] at found
    change (registered s.registrations primitives).find? n = some x at found
    rw [registered, NameMap.find?_map] at found
    obtain ⟨op, bound, rfl⟩ := Option.map_eq_some_iff.1 found
    refine Value.each_builtin.2 ⟨kind _ _ _ bound, ?_⟩
    intro _ impossible
    cases impossible

end Tree
end Store

/-! ## Runs that keep the tree -/

namespace Run

variable {α β : Type}

/-- Started in the tree, with at least `n` scopes in the store, the first run keeps the tree
and loses no scope; what it answers has the property, given how many scopes there are then,
or it fails as the kind allows.  And the second run does the same. -/
def Upholds (k : Kind) (root n : Nat) (P : Nat → α → Prop) (m m' : Run α) : Prop :=
  ∀ w, w.store.Tree k root → n ≤ w.store.size →
    m' w = m w ∧ m.Ends w fun answer w' =>
      w'.store.Tree k root ∧ w.store.size ≤ w'.store.size ∧
        Meets (P w'.store.size) k.failure answer

namespace Upholds

variable {k : Kind} {root n : Nat} {P : Nat → α → Prop} {Q : Nat → β → Prop}

/-- A run that ends for certain, with a known result. -/
theorem of_apply {m : Run α} (result : World → Except Failure α × World)
    (known : ∀ w, m w = some (result w))
    (good : ∀ w, w.store.Tree k root → n ≤ w.store.size →
      (result w).2.store.Tree k root ∧ w.store.size ≤ (result w).2.store.size ∧
        Meets (P (result w).2.store.size) k.failure (result w).1) : Upholds k root n P m m :=
  fun w tree enough => ⟨rfl, .of_apply (known w) (good w tree enough)⟩

theorem pure {x : α} (h : ∀ size, n ≤ size → P size x) :
    Upholds k root n P (Pure.pure x) (Pure.pure x) :=
  of_apply (fun w => (.ok x, w)) (pure_apply x) fun w tree enough =>
    ⟨tree, Nat.le_refl _, h w.store.size enough⟩

theorem throw {e : Failure} (h : k.failure e) :
    Upholds k root n P (MonadExcept.throw e) (MonadExcept.throw e) :=
  of_apply (fun w => (.error e, w)) (throw_apply e) fun _ tree _ => ⟨tree, Nat.le_refl _, h⟩

theorem exhausted : Upholds k root n P Run.exhausted Run.exhausted :=
  fun _ _ _ => ⟨rfl, .exhausted⟩

theorem andThen {m m' : Run α} {f f' : α → Run β} (h : Upholds k root n P m m')
    (next : ∀ size x, n ≤ size → P size x → Upholds k root size Q (f x) (f' x)) :
    Upholds k root n Q (m >>= f) (m' >>= f') := by
  intro w tree enough
  obtain ⟨same, ends⟩ := h w tree enough
  constructor
  · rw [andThen_apply, andThen_apply, same]
    cases first : m w with
    | none => rfl
    | some out =>
      obtain ⟨answer, w₁⟩ := out
      obtain ⟨tree₁, grown, good⟩ := ends answer w₁ first
      cases answer with
      | error e => rfl
      | ok x => exact (next _ x (Nat.le_trans enough grown) good w₁ tree₁ (Nat.le_refl _)).1
  · refine .andThen (ends.mono ?_)
    intro answer w₁ ⟨tree₁, grown, good⟩
    constructor
    · rintro e rfl
      exact ⟨tree₁, grown, good⟩
    · rintro x rfl
      have later := (next _ x (Nat.le_trans enough grown) good w₁ tree₁ (Nat.le_refl _)).2
      refine later.mono ?_
      intro answer w₂ ⟨tree₂, grown', good'⟩
      exact ⟨tree₂, Nat.le_trans grown grown', good'⟩

theorem record (r : Rules) (e : TraceEvent) :
    Upholds k root n (fun _ _ => True) (Run.record r e) (Run.record r e) :=
  of_apply _ (record_apply r e) fun _ tree _ => ⟨tree, Nat.le_refl _, trivial⟩

theorem lookup {r : Rules} (fits : k.Fits r) {scope : Nat} (above : root ≤ scope) (name : Text) :
    Upholds k root n (k.Has root) (Run.lookup scope name) (Run.lookup scope name) := by
  refine of_apply _ (lookup_apply scope name) fun w tree _ => ⟨tree, Nat.le_refl _, ?_⟩
  cases found : w.store.lookup scope name with
  | none => exact fits.ordinary _ rfl
  | some x => exact tree.lookup above found

theorem bind (scope : Nat) (name : Text) {x : Value} (has : k.Has root n x) :
    Upholds k root n (fun _ _ => True) (Run.bind scope name x) (Run.bind scope name x) := by
  refine of_apply _ (bind_apply scope name x) fun w tree enough => ⟨?_, ?_, trivial⟩
  · exact tree.bind scope name (has.mono enough)
  · exact Nat.le_of_eq (w.store.size_bind scope name x).symm

theorem pushFrame {parent : Nat} (above : root ≤ parent) (below : parent < n) (name : Text)
    {bindings : List (Text × Value)} (has : ∀ e ∈ bindings, k.Has root n e.2) :
    let f := { Store.childFrame name parent with bindings := NameMap.ofList bindings }
    Upholds k root n (fun size i => root ≤ i ∧ i < size) (Run.pushFrame f) (Run.pushFrame f) := by
  intro f
  refine of_apply _ (pushFrame_apply f) fun w tree enough => ⟨?_, ?_, ?_, ?_⟩
  · refine tree.push rfl above (Nat.lt_of_lt_of_le below enough) rfl fun n x found => ?_
    exact (has _ (NameMap.find?_ofList_eq_some found)).mono enough
  · rw [Store.size_push]
    exact Nat.le_succ _
  · exact Nat.le_of_lt tree.present
  · rw [Store.size_push]
    exact Nat.lt_succ_self _

theorem callBuiltin {r : Rules} (fits : k.Fits r) {b : Builtin} (kind : k.part (.builtin b))
    {args : List Value} (has : ∀ x ∈ args, k.Has root n x) :
    Upholds k root n (k.Has root) (Run.callBuiltin r b args) (Run.callBuiltin r b args) := by
  refine of_apply _ (callBuiltin_apply r b args) fun w tree enough => ⟨tree, Nat.le_refl _, ?_⟩
  have hasNow : ∀ x ∈ args, k.Has root w.store.size x := fun x member => (has x member).mono enough
  refine Primitive.meets_apply fits.inherited fits.ordinary hasNow b.op ?_ w.generator
  intro slot isHost
  obtain ⟨registration, name, op⟩ := b
  cases isHost
  exact fits.host registration name slot kind root _ args hasNow

end Upholds
end Run

/-! ## Steps -/

/-- In the tree, with at least `floor` scopes in the store, the first way to evaluate keeps
the tree and answers values of the kind, and the second one does the same. -/
def Evaluator.Upholds (k : Kind) (root floor : Nat) (ev ev' : Evaluator) : Prop :=
  ∀ n, floor ≤ n → ∀ x scope depth, k.Has root n x → root ≤ scope → scope < n →
    Run.Upholds k root n (k.Has root) (ev x scope depth) (ev' x scope depth)

/-- Being of the kind, by the number of scopes that there are. -/
def Traits.ofKind (k : Kind) (root : Nat) : Traits Nat where
  later := (· ≤ ·)
  text := k.Has root
  value := k.Has root
  failure := k.failure
  allows _ := True

section Steps

open Run

variable {k : Kind} {root floor : Nat} {ev ev' : Evaluator}
  (evs : Evaluator.Upholds k root floor ev ev') {r : Rules} (fits : k.Fits r)
  {n : Nat} (enough : floor ≤ n) {scope : Nat} (above : root ≤ scope) (below : scope < n)
  (depth : Nat)

include fits

theorem Traits.sound_ofKind : (Traits.ofKind k root).Sound where
  refl := Nat.le_refl
  trans := Nat.le_trans
  text_later more has := has.mono more
  value_later more has := has.mono more
  items := fits.inherited.list.1
  truth _ := fits.has_boolean
  ordinary := fits.ordinary

theorem Traits.whole_ofKind {x : Value} (has : k.Has root n x) :
    (Traits.ofKind k root).Whole r.vocabulary n x := by
  cases x with
  | nil => exact fits.nilExpression has.self.1
  | quote x => exact has.quoted
  | symbol => trivial
  | list xs => exact ⟨fits.inherited.list.1 has, fun _ _ => trivial⟩
  | scopedLet bindings body => exact fits.unsupported bindings body has.self.1
  | _ => exact has

include evs enough above below

theorem Move.upholds_run {a : Move} (holds : a.Holds (.ofKind k root) n) :
    Upholds k root n (k.Has root) (a.run r ev scope depth) (a.run r ev' scope depth) := by
  cases a with
  | answer x => exact .pure fun _ still => Kind.Has.mono holds still
  | fail e => exact .throw holds
  | lookup name => exact .lookup fits above name
  | define name x =>
    have has : k.Has root n x := holds.2
    refine .andThen (.bind scope name has) fun n₁ _ more _ => ?_
    refine .pure fun size still => fits.inherited.list.2 ?_
    exact List.forall_mem_cons.2 ⟨fits.has_symbol name, List.forall_mem_cons.2
      ⟨has.mono (Nat.le_trans more still), List.forall_mem_singleton.2 (fits.has_boolean true)⟩⟩
  | close params body =>
    have made := fits.has_closure holds.2.1 holds.2.2 above below
    exact .pure fun _ still => made.mono still
  | call b args =>
    obtain ⟨hasFunction, hasArgs⟩ := holds
    refine .andThen (.record r _) fun n₁ _ more _ => ?_
    exact .callBuiltin fits (Value.Each.self hasFunction).1 fun x member =>
      Kind.Has.mono (hasArgs x member) more
  | block name bindings body =>
    obtain ⟨hasValues, hasBody⟩ := holds
    refine .andThen (.pushFrame above below name hasValues) fun n₁ inner more range => ?_
    exact evs n₁ (Nat.le_trans enough more) body inner _ (Kind.Has.mono hasBody more) range.1
      range.2
  | enter params body home bindings =>
    obtain ⟨hasClosure, hasValues⟩ := holds
    have inside : root ≤ home.getD scope ∧ home.getD scope < n := by
      cases home with
      | none => exact ⟨above, below⟩
      | some h => exact (Value.Each.self hasClosure).2 h rfl
    refine .andThen (.pushFrame inside.1 inside.2 _ hasValues) fun n₁ inner more range => ?_
    refine .andThen (.record r _) fun n₂ _ more₂ _ => ?_
    have later := Nat.le_trans more more₂
    exact evs n₂ (Nat.le_trans enough later) body inner _
      (Kind.Has.mono (Kind.Has.body hasClosure) later) range.1 (Nat.lt_of_lt_of_le range.2 more₂)

theorem Plan.upholds_run {p : Plan} (holds : p.Holds (.ofKind k root) n) :
    Upholds k root n (k.Has root) (p.run r ev scope depth) (p.run r ev' scope depth) := by
  induction holds with
  | move moves => exact Move.upholds_run evs fits enough above below depth moves
  | eval has _ ih =>
    refine .andThen (evs _ enough _ scope _ has above below) fun n₁ y more hasY => ?_
    exact ih more hasY (Nat.le_trans enough more) (Nat.lt_of_lt_of_le below more)

omit enough above below in
theorem upholds_evalStep : Evaluator.Upholds k root floor (evalStep r ev) (evalStep r ev') := by
  intro n enough x scope depth has above below
  rw [evalStep_eq, evalStep_eq]
  refine .andThen (.record r _) fun n₁ _ more _ => ?_
  have holds := (Traits.sound_ofKind fits).holds_plan
    (Traits.whole_ofKind fits (has.mono more)) r.eagerIf
  exact Plan.upholds_run evs fits (Nat.le_trans enough more) above (Nat.lt_of_lt_of_le below more)
    depth holds

end Steps

/-- Evaluation keeps the tree, and answers values of the kind or fails as the kind
allows. -/
theorem eval_upholds {k : Kind} {r : Rules} (fits : k.Fits r) (root fuel : Nat) :
    Evaluator.Upholds k root 0 (eval r fuel) (eval r fuel) := by
  induction fuel with
  | zero => exact fun _ _ _ _ _ _ _ _ => .exhausted
  | succ fuel ih => exact upholds_evalStep ih fits

end Argot
