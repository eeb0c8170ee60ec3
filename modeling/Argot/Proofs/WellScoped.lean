import Argot.Proofs.SessionTree
import Argot.Proofs.FlatMachine

set_option autoImplicit false

/-!
# Chains of scopes

Nothing about a link says that it points to an older scope, or that following links ever
ends.  In a session it does: from every scope that can be reached, the links lead to the
global scope of the session without coming to any scope twice, and no other scope on the way
calls itself global (`Store.WellChained`).  Looking up names and listing them go along just
these links.

This is so between the operations of a session and at every point of an evaluation too.  To
say the latter, `evalWatched` evaluates as `eval` does, and checks a condition on the world
and on the scopes under evaluation before and after every evaluation that is part of it.  If
the condition ever failed, it would do something else.
-/

namespace Argot

/-! ## Going up -/

namespace Store

/-- Following the links to parents from a scope, wherever they point, one comes to these
scopes, and then to an end. -/
inductive Ascent (s : Store) : (scope : Nat) → (path : List Nat) → Prop where
  | top {i : Nat} {f : Frame} (found : s.frame? i = some f) (orphan : f.parent = none) :
      Ascent s i [i]
  | step {i p : Nat} {f : Frame} {path : List Nat} (found : s.frame? i = some f)
      (link : f.parent = some p) (rest : Ascent s p path) : Ascent s i (i :: path)

/-- The links lead from the scope along the path to the root.  They come to no scope twice,
and only the root is marked as global.  Names are looked up and listed along the whole path,
and the depth counts its links. -/
structure WellChained (s : Store) (root scope : Nat) (path : List Nat) : Prop where
  ascent : s.Ascent scope path
  nodup : path.Nodup
  last : path.getLast? = some root
  global : ∀ i ∈ path, ∀ f, s.frame? i = some f → (f.isGlobal = true ↔ i = root)
  lookup : ∀ name, s.lookup scope name = path.findSome? fun i => s.local? i name
  depth : s.depth scope + 1 = path.length
  visible : ∀ name, name ∈ s.visibleNames scope ↔ ∃ i ∈ path, name ∈ s.names i

/-- The links lead to the root from every scope that can be reached from it, or from one of
the scopes given. -/
def WellScoped (s : Store) (root : Nat) (starts : List Nat) : Prop :=
  ∀ i, s.ReachedFrom (root :: starts) i → ∃ path, s.WellChained root i path

theorem mem_visibleNames {s : Store} {scope : Nat} {name : Text} :
    name ∈ s.visibleNames scope ↔ ∃ i ∈ s.chain scope, name ∈ s.names i := by
  rw [← names_visible, NameMap.mem_names_iff, NameMap.contains, find?_visible,
    lookup_eq_findSome?, List.isSome_findSome?, List.any_eq_true]
  simp only [isSome_local?]

namespace Tree

variable {k : Kind} {root : Nat} {s : Store}

/-- In the tree the links lead downwards to the root, and the chain of a scope is where they
lead. -/
theorem ascent (tree : s.Tree k root) {i : Nat} (above : root ≤ i) (below : i < s.size) :
    s.Ascent i (s.chain i) ∧ (∀ j ∈ s.chain i, root ≤ j ∧ j ≤ i) ∧ (s.chain i).Nodup ∧
      (s.chain i).getLast? = some root := by
  obtain ⟨f, found⟩ := frame?_isSome below
  rcases Nat.eq_or_lt_of_le above with rfl | inside
  · obtain ⟨g, there, orphan, _⟩ := tree.top
    have chain : s.chain root = [root] := by
      rw [chain_eq, if_pos below, parent?, there, Option.bind_some, orphan]
      rfl
    rw [chain]
    refine ⟨.top there orphan, ?_, List.pairwise_singleton _ root, rfl⟩
    exact List.forall_mem_singleton.2 ⟨Nat.le_refl _, Nat.le_refl _⟩
  · obtain ⟨_, p, link, above', older⟩ := tree.under i f inside found
    obtain ⟨rest, bounds, nodup, last⟩ := tree.ascent above' (Nat.lt_trans older below)
    have chain : s.chain i = i :: s.chain p := by
      rw [chain_eq, if_pos below, parent?, found, Option.bind_some, link, Option.filter_some,
        decide_eq_true older]
      rfl
    rw [chain]
    refine ⟨.step found link rest, ?_, List.nodup_cons.2 ⟨?_, nodup⟩, ?_⟩
    · refine List.forall_mem_cons.2 ⟨⟨above, Nat.le_refl i⟩, ?_⟩
      intro j member
      exact ⟨(bounds j member).1, Nat.le_trans (bounds j member).2 (Nat.le_of_lt older)⟩
    · intro again
      have := (bounds i again).2
      omega
    · rw [List.getLast?_cons, last]
      rfl
termination_by i

theorem wellChained (tree : s.Tree k root) {i : Nat} (above : root ≤ i) (below : i < s.size) :
    s.WellChained root i (s.chain i) := by
  obtain ⟨ascent, bounds, nodup, last⟩ := tree.ascent above below
  refine ⟨ascent, nodup, last, ?_, s.lookup_eq_findSome? i, ?_, fun _ => mem_visibleNames⟩
  · intro j member f found
    rcases Nat.eq_or_lt_of_le (bounds j member).1 with rfl | inside
    · obtain ⟨g, there, _, isGlobal⟩ := tree.top
      obtain rfl := Option.some.inj (found.symm.trans there)
      exact iff_of_true isGlobal rfl
    · have notGlobal := (tree.under j f inside found).1
      rw [notGlobal]
      exact iff_of_false Bool.false_ne_true (Nat.ne_of_gt inside)
  · rw [depth, chain_eq, if_pos below]
    rfl

/-- In the tree the links lead to the root from everything that can be reached. -/
theorem wellScoped (tree : s.Tree k root) {starts : List Nat}
    (inside : ∀ i ∈ starts, root ≤ i ∧ i < s.size) : s.WellScoped root starts := by
  intro i reached
  obtain ⟨above, below⟩ := tree.reached
    (List.forall_mem_cons.2 ⟨⟨Nat.le_refl root, tree.present⟩, inside⟩) reached
  exact ⟨s.chain i, tree.wellChained above below⟩

end Tree
end Store

/-! ## Watching an evaluation -/

open Classical in
/-- Evaluates an expression and checks, before and after every evaluation on the way, the
world and the scopes under evaluation, innermost first: `outer` are those around.  Where the
check fails, the evaluation is given up for the alarm. -/
noncomputable def evalWatched (r : Rules) (good : List Nat → World → Prop) (alarm : Run Value) :
    (fuel : Nat) → (outer : List Nat) → Evaluator
  | 0, _ => fun _ _ _ => Run.exhausted
  | fuel + 1, outer => fun x scope depth w =>
    if good (scope :: outer) w then
      (evalStep r (evalWatched r good alarm fuel (scope :: outer)) x scope depth w).bind
        fun out => if good (scope :: outer) out.2 then some out else alarm out.2
    else alarm w

open Classical in
theorem evalWatched_succ (r : Rules) (good : List Nat → World → Prop) (alarm : Run Value)
    (fuel : Nat) (outer : List Nat) (x : Value) (scope depth : Nat) (w : World) :
    evalWatched r good alarm (fuel + 1) outer x scope depth w =
      if good (scope :: outer) w then
        (evalStep r (evalWatched r good alarm fuel (scope :: outer)) x scope depth w).bind
          fun out => if good (scope :: outer) out.2 then some out else alarm out.2
      else alarm w := rfl

/-- If the check passes whenever the scopes are a tree and those under evaluation are in it,
then the alarm is never raised. -/
theorem evalWatched_upholds {k : Kind} {r : Rules} (fits : k.Fits r) {root : Nat}
    {good : List Nat → World → Prop}
    (sound : ∀ w starts, w.store.Tree k root → (∀ i ∈ starts, root ≤ i ∧ i < w.store.size) →
      good starts w)
    (alarm : Run Value) (fuel : Nat) {floor : Nat} {outer : List Nat}
    (inside : ∀ i ∈ outer, root ≤ i ∧ i < floor) :
    Evaluator.Upholds k root floor (eval r fuel) (evalWatched r good alarm fuel outer) := by
  induction fuel generalizing floor outer with
  | zero => exact fun _ _ _ _ _ _ _ _ => .exhausted
  | succ fuel ih =>
    intro n enough x scope depth has above below w tree size
    have inside' : ∀ i ∈ scope :: outer, root ≤ i ∧ i < n := by
      refine List.forall_mem_cons.2 ⟨⟨above, below⟩, fun i member => ?_⟩
      exact ⟨(inside i member).1, Nat.lt_of_lt_of_le (inside i member).2 enough⟩
    have passes : ∀ w' : World, w'.store.Tree k root → n ≤ w'.store.size →
        good (scope :: outer) w' := by
      intro w' tree' size'
      refine sound w' _ tree' fun i member => ?_
      exact ⟨(inside' i member).1, Nat.lt_of_lt_of_le (inside' i member).2 size'⟩
    obtain ⟨same, ends⟩ :=
      upholds_evalStep (ih inside') fits n (Nat.le_refl n) x scope depth has above below w tree size
    refine ⟨?_, ends⟩
    show evalWatched r good alarm (fuel + 1) outer x scope depth w =
      evalStep r (eval r fuel) x scope depth w
    rw [evalWatched_succ, if_pos (passes w tree size), same]
    cases result : evalStep r (eval r fuel) x scope depth w with
    | none => rfl
    | some out =>
      obtain ⟨tree', grown, _⟩ := ends out.1 out.2 result
      rw [Option.bind_some, if_pos (passes out.2 tree' (Nat.le_trans size grown))]

/-! ## Sessions -/

mutual

theorem Value.homes_of_homeless : (x : Value) → x.homeless = true → x.homes = []
  | .quote x, plain => Value.homes_of_homeless x plain
  | .list xs, plain => Value.homesOfAll_of_homeless xs plain
  | .closure p b home, plain => by
    simp only [Value.homeless, Bool.and_eq_true, Option.isNone_iff_eq_none] at plain
    obtain ⟨⟨rfl, params⟩, body⟩ := plain
    rw [Value.homes, Value.homes_of_homeless p params, Value.homes_of_homeless b body]
    rfl
  | .scopedLet p b, plain => by
    obtain ⟨bindings, body⟩ := Bool.and_eq_true_iff.1 plain
    rw [Value.homes, Value.homes_of_homeless p bindings, Value.homes_of_homeless b body]
    rfl
  | .nil, _ | .symbol _, _ | .number _, _ | .boolean _, _ | .string _, _ | .builtin _, _ => rfl

theorem Value.homesOfAll_of_homeless :
    (xs : List Value) → Value.allHomeless xs = true → Value.homesOfAll xs = []
  | [], _ => rfl
  | x :: xs, plain => by
    obtain ⟨head, tail⟩ := Bool.and_eq_true_iff.1 plain
    rw [Value.homesOfAll, Value.homes_of_homeless x head, Value.homesOfAll_of_homeless xs tail]
    rfl

end

/-- Host functions make no closures that remember scopes: every scope in an answer is in one
of the arguments. -/
def Host.PassesOn (host : Host) : Prop :=
  ∀ slot name args y, host slot name args = .ok y → ∀ h ∈ y.homes, ∃ x ∈ args, h ∈ x.homes

/-- Nothing is asked but that closures remember scopes of the tree. -/
def Kind.any : Kind := ⟨fun _ => True, fun _ => True⟩

theorem Kind.has_any_iff {root size : Nat} {x : Value} :
    Kind.any.Has root size x ↔ ∀ h ∈ x.homes, root ≤ h ∧ h < size := by
  constructor
  · exact fun has h member => has.home member
  · intro inside y part
    exact ⟨trivial, fun h remembers => inside h (Value.mem_homes.2 ⟨y, part, remembers⟩)⟩

theorem Kind.fits_any {r : Rules} (host : r.host.PassesOn) : Kind.any.Fits r where
  written _ _ := trivial
  closure _ _ _ := trivial
  ordinary _ _ := trivial
  nilExpression _ := trivial
  unsupported _ _ _ := trivial
  host _ name slot _ root size args has := by
    refine meets_of_answer fun y answer => Kind.has_any_iff.2 fun h member => ?_
    obtain ⟨x, given, inArgument⟩ := host slot name args y answer h member
    exact (has x given).home inArgument

namespace Machine

variable {m m' : Machine}

/-- An operation that brings in no closure with a scope keeps the tree, or starts a new
one. -/
theorem Upholds.perform (upholds : m.Upholds .any) {op : Operation} (plain : op.homeless = true)
    {answer : Option Answer} (ends : perform op m = some (answer, m')) : m'.Upholds .any := by
  cases op with
  | run fuel text =>
    obtain ⟨⟨answer₁, m₁⟩, ran, same⟩ := Option.map_eq_some_iff.1 ends
    cases same
    exact (upholds.run ran).1
  | clear =>
    cases ends
    exact upholds_clear upholds.fits upholds.primitives upholds.faithful
  | addGlobal name x =>
    cases ends
    refine upholds.addGlobal name (Kind.has_any_iff.2 fun h member => ?_)
    rw [Value.homes_of_homeless x plain] at member
    exact absurd member List.not_mem_nil
  | addFunction name slot =>
    cases ends
    exact upholds.addFunction name slot fun _ => trivial

theorem Upholds.performAll (upholds : m.Upholds .any) {ops : List Operation}
    (plain : ∀ op ∈ ops, op.homeless = true) {answers : List (Option Answer)}
    (ends : performAll ops m = some (answers, m')) : m'.Upholds .any := by
  induction ops generalizing m answers with
  | nil =>
    cases ends
    exact upholds
  | cons op rest ih =>
    obtain ⟨plainHead, plainTail⟩ := List.forall_mem_cons.1 plain
    rw [performAll_cons] at ends
    obtain ⟨⟨answer, m₁⟩, first, ends⟩ := Option.bind_eq_some_iff.1 ends
    obtain ⟨⟨later, m₂⟩, others, same⟩ := Option.map_eq_some_iff.1 ends
    cases same
    exact ih (upholds.perform plainHead first) plainTail others

end Machine

/-- **Chains of scopes stay well formed.**  Take an interpreter with any settings, in any
company, and any session on it in which texts are run, the interpreter is cleared, and
functions and values are added.  No closure that is added remembers a scope, and functions of
the host answer no closure with a scope that is in none of their arguments.

* After the session, the links lead to the current global scope from every scope that can be
  reached from it.
* So they do at every point of every evaluation that may come next, for whatever can be
  reached from the global scope or from a scope under evaluation: let any text be run, take
  any of its forms, and evaluate those in front of it.  If the evaluation of the form is
  watched for this, it gives the same as if it is not, whatever the alarm would do and
  however deep evaluations may nest. -/
theorem scope_chains_stay_well_formed (settings : Settings) (host : settings.host.PassesOn)
    (c : Commons) (ops : List Operation) (plain : ∀ op ∈ ops, op.homeless = true)
    (answers : List (Option Answer)) (m : Machine)
    (ends : Machine.performAll ops (Machine.create settings c) = some (answers, m)) :
    let global := m.interpreter.global
    m.commons.store.WellScoped global [] ∧
    ∀ text before x after, readText m.interpreter.vocabulary text = .ok (before ++ x :: after) →
      ∀ fuel outcomes m₁, Machine.evalAll fuel global before m = some (outcomes, m₁) →
        ∀ fuel' alarm,
          evalWatched m₁.interpreter.rules (fun scopes w => w.store.WellScoped global scopes) alarm
              fuel' [] x global 0 m₁.world =
            eval m₁.interpreter.rules fuel' x global 0 m₁.world := by
  intro global
  have fresh : (Machine.create settings c).Upholds .any :=
    Machine.upholds_create settings c (Kind.fits_any host) fun _ _ _ _ => trivial
  have upholds := fresh.performAll plain ends
  refine ⟨upholds.tree.wellScoped fun _ member => absurd member List.not_mem_nil, ?_⟩
  intro text before x after read fuel outcomes m₁ evaluated fuel' alarm
  have written := (Value.textual_written _).forms read
  obtain ⟨upholds₁, _⟩ :=
    upholds.evalAll (fun y member => written y (List.mem_append_left _ member)) evaluated
  have global₁ : m₁.interpreter.global = global := by
    rw [Machine.interpreter_evalAll evaluated]
  have tree := upholds₁.tree
  rw [global₁] at tree
  have watched : Evaluator.Upholds .any global 0 (eval m₁.interpreter.rules fuel')
      (evalWatched m₁.interpreter.rules (fun scopes w => w.store.WellScoped global scopes) alarm
        fuel' []) :=
    evalWatched_upholds upholds₁.fits (fun _ _ tree inside => tree.wellScoped inside) alarm fuel'
      fun _ member => absurd member List.not_mem_nil
  exact (watched m₁.commons.store.size (Nat.zero_le _) x global 0
    (upholds₁.fits.has_of_written (written x (by simp))) (Nat.le_refl _) tree.present m₁.world tree
    (Nat.le_refl _)).1

/-- After a session that was cleared once, the second global scope binds a closure that
remembers just this scope, and a list with a closure that remembers a scope below it.  The
links lead to the global scope all the same, also while the closures are called. -/
theorem cleared_session_with_cycles_is_well_scoped :
    let settings : Settings :=
      { Settings.standard .words with lexical := true, host := fun _ _ args => .ok (.list args) }
    let ops : List Operation :=
      [.run 20 "(var f (closure (n) (closure () n))) (f 1)", .clear, .addFunction "both" 0,
        .addGlobal "g" (.closure (.list []) (.symbol "h") none),
        .run 20 "(var f (closure (n) (closure () (both n f)))) (var h (both (f 1) f))"]
    ∃ answers m h x, Machine.performAll ops (Machine.create settings ∅) = some (answers, m) ∧
      m.interpreter.global = 2 ∧
      m.commons.store.lookup 2 "h" = some h ∧ h.homes = [3, 2] ∧
      m.commons.store.WellScoped 2 [] ∧
      readText m.interpreter.vocabulary "((f (g)))" = .ok [x] ∧
      (eval m.interpreter.rules 20 x 2 0 m.world).isSome = true ∧
      ∀ fuel alarm,
        evalWatched m.interpreter.rules (fun scopes w => w.store.WellScoped 2 scopes) alarm
            fuel [] x 2 0 m.world =
          eval m.interpreter.rules fuel x 2 0 m.world := by
  intro settings ops
  have host : settings.host.PassesOn := by
    intro slot name args y answer h member
    cases answer
    obtain ⟨z, part, remembers⟩ := Value.mem_homes.1 member
    rcases List.mem_cons.1 part with rfl | within
    · cases remembers
    · obtain ⟨x, given, part⟩ := Value.mem_partsOfAll.1 within
      exact ⟨x, given, Value.mem_homes.2 ⟨z, part, remembers⟩⟩
  have plain : ∀ op ∈ ops, op.homeless = true := by decide +kernel
  have session : (Machine.performAll ops (Machine.create settings ∅)).map (fun out =>
      (out.2.interpreter.global, (out.2.commons.store.lookup 2 "h").map Value.homes,
        (readText out.2.interpreter.vocabulary "((f (g)))").toOption.map fun xs =>
          (xs.length, xs.all fun x =>
            (eval out.2.interpreter.rules 20 x 2 0 out.2.world).isSome))) =
      some (2, some [3, 2], some (1, true)) := by
    decide +kernel
  obtain ⟨⟨answers, m⟩, ends, facts⟩ := Option.map_eq_some_iff.1 session
  obtain ⟨global, facts⟩ := Prod.mk.inj facts
  obtain ⟨bound, next⟩ := Prod.mk.inj facts
  obtain ⟨h, found, homes⟩ := Option.map_eq_some_iff.1 bound
  obtain ⟨xs, read, facts⟩ := Option.map_eq_some_iff.1 next
  obtain ⟨single, evaluates⟩ := Prod.mk.inj facts
  obtain ⟨x, rfl⟩ := List.length_eq_one_iff.1 single
  have read : readText m.interpreter.vocabulary "((f (g)))" = .ok [x] := by
    cases result : readText m.interpreter.vocabulary "((f (g)))" with
    | error e =>
      rw [result] at read
      cases read
    | ok ys =>
      rw [result] at read
      cases read
      rfl
  obtain ⟨chains, watched⟩ :=
    scope_chains_stay_well_formed settings host ∅ ops plain answers m ends
  rw [global] at chains watched
  refine ⟨answers, m, h, x, ends, global, found, homes, chains, read, ?_, ?_⟩
  · rw [List.all_cons, List.all_nil, Bool.and_true] at evaluates
    exact evaluates
  · exact watched "((f (g)))" [] x [] read 0 [] m rfl

end Argot
