import Mathlib.Tactic.Choose
import Argot.Proofs.Renumbering

set_option autoImplicit false

/-!
# Clones of interpreters with dynamic closures

Where no closure remembers a scope, a clone shares nothing with its original but the store in
which both make their scopes.  The clone gets a copy of the global scope, and with the copy it is
the same flat machine, apart from its generator (`Machine.Scopeless.apart_clonePair`).  From then
on the two are apart, whatever they are asked to do.

What one of them gets is therefore what it gets alone.  Only the numbers of later registrations
depend on the other one, and they are told apart by nobody.
-/

namespace Argot

/-! ## The copy of the global scope -/

namespace Relocation

theorem value_of_homeless (r : Relocation) {x : Value} (homeless : x.homeless = true) :
    r.value x = x := by
  cases x with
  | closure params body home =>
    cases home with
    | none => rfl
    | some _ => cases homeless
  | _ => rfl

/-- A scope that stands on its own is copied as it is. -/
theorem frame_of_plain (r : Relocation) {f : Frame} (plain : f.Plain) : r.frame f = f := by
  have bindings : f.bindings.map (fun _ x => r.value x) = f.bindings := by
    apply NameMap.ext_find?
    intro name
    rw [NameMap.find?_map]
    cases found : f.bindings.find? name with
    | none => rfl
    | some x => rw [Option.map_some, r.value_of_homeless (plain.homeless name x found)]
  rw [frame, bindings, plain.orphan, Option.map_none, ← plain.orphan]

end Relocation

namespace Store

theorem registrations_copyBelow (s : Store) (root : Nat) :
    (s.copyBelow root).registrations = s.registrations := by
  have pushed : ∀ (fs : List Frame) (t : Store),
      (fs.foldl (fun t f => t.push ((Relocation.below s root).frame f)) t).registrations =
        t.registrations := by
    intro fs
    induction fs with
    | nil => exact fun _ => rfl
    | cons f fs ih => exact fun t => ih _
  exact pushed _ s

/-- The copy of the root is new, and there it is. -/
theorem frame?_image_root {s : Store} {root : Nat} {f : Frame} (found : s.frame? root = some f) :
    s.size ≤ (Relocation.below s root).image root ∧
      (s.copyBelow root).frame? ((Relocation.below s root).image root) =
        some ((Relocation.below s root).frame f) := by
  have chosen := root_mem_scopes (frame?_lt found)
  obtain ⟨k, image, _⟩ := exists_image chosen
  refine ⟨?_, ?_⟩
  · rw [image]
    exact Nat.le_add_right _ _
  · rw [frame?_image chosen, found, Option.map_some]

end Store

/-! ## A clone and its original, apart -/

/-- The flat machine with another generator. -/
def FlatMachine.drawing (g : Generator) (f : FlatMachine) : FlatMachine :=
  { f with world := ⟨f.world.names, g⟩ }

namespace Machine

variable {i : Interpreter} {c : Commons} {m : Machine}

/-- Another generator makes another flat machine in one respect only. -/
theorem Scopeless.drawing (scopeless : Scopeless ⟨i, c⟩) (g : Generator) :
    Scopeless ⟨{ i with generator := g }, c⟩ ∧
      flat ⟨{ i with generator := g }, c⟩ = (flat ⟨i, c⟩).drawing g :=
  scopeless.relocate rfl g scopeless.faithful

/-- The original is the flat machine that it was. -/
theorem Scopeless.original (scopeless : Scopeless ⟨i, c⟩) (g : Generator) :
    let original : Machine :=
      ⟨{ i with generator := g }, { c with store := c.store.copyBelow i.global }⟩
    original.Scopeless ∧ original.flat = (flat ⟨i, c⟩).drawing g := by
  intro original
  obtain ⟨f, found, _⟩ := scopeless.root
  have same : original.commons.store.frame? i.global = c.store.frame? i.global :=
    (c.store.untouched_copyBelow i.global _ f found).trans found.symm
  exact scopeless.relocate same g scopeless.faithful

/-- The clone is the flat machine that its original was. -/
theorem Scopeless.twin (scopeless : Scopeless ⟨i, c⟩) (g : Generator) (capacity : Nat) :
    let twin : Machine :=
      ⟨{ i with
          global := (Relocation.below c.store i.global).image i.global
          generator := g
          cache := ParseCache.ofCapacity capacity },
        { c with store := c.store.copyBelow i.global }⟩
    twin.Scopeless ∧ twin.flat = (flat ⟨i, c⟩).drawing g := by
  intro twin
  obtain ⟨f, found, plain⟩ := scopeless.root
  have copied := (Store.frame?_image_root found).2
  rw [Relocation.frame_of_plain _ plain] at copied
  have same : twin.commons.store.frame? twin.interpreter.global = c.store.frame? i.global :=
    copied.trans found.symm
  exact scopeless.relocate same g (ParseCache.faithful_ofCapacity _ capacity)

theorem registrations_clone (m : Machine) :
    m.clone.2.commons.store.registrations = m.commons.store.registrations := by
  rw [clone_snd]
  exact Store.registrations_copyBelow _ _

/-- A clone and its original start apart, and as the same flat machine but for their
generators. -/
theorem Scopeless.apart_clonePair (scopeless : m.Scopeless) :
    Apart m.clonePair m.clone.2.commons ∧
      ∀ k, ∃ g, flat ⟨m.clonePair k, m.clone.2.commons⟩ = m.flat.drawing g := by
  have original := scopeless.original m.interpreter.generator.split.2
  have twin := scopeless.twin m.interpreter.generator.split.1 m.interpreter.cache.capacity
  have fresh : (m.clonePair 0).global < (m.clonePair 1).global := by
    obtain ⟨f, found, _⟩ := scopeless.root
    rw [global_clonePair_zero, clonePair_one, clone_fst]
    exact Nat.lt_of_lt_of_le scopeless.present (Store.frame?_image_root found).1
  refine ⟨⟨?_, ?_⟩, ?_⟩
  · refine Fin.forall_fin_two.2 ⟨?_, ?_⟩
    · rw [clonePair_zero, clone_snd]
      exact original.1
    · rw [clonePair_one, clone_fst, clone_snd]
      exact twin.1
  · refine Fin.forall_fin_two.2 ⟨Fin.forall_fin_two.2 ⟨?_, ?_⟩, Fin.forall_fin_two.2 ⟨?_, ?_⟩⟩
    · exact fun different => absurd rfl different
    · exact fun _ => Nat.ne_of_lt fresh
    · exact fun _ => Nat.ne_of_gt fresh
    · exact fun different => absurd rfl different
  · refine Fin.forall_fin_two.2 ⟨?_, ?_⟩
    · rw [clonePair_zero, clone_snd]
      exact ⟨_, original.2⟩
    · rw [clonePair_one, clone_fst, clone_snd]
      exact ⟨_, twin.2⟩

end Machine

/-! ## Machines with a history -/

/-- The host tells apart only builtins of the first registrations. -/
def Host.KnowsOnly (count : Nat) (host : Host) : Prop :=
  ∀ π : Equiv.Perm Nat, (∀ i, i < count → π i = i) → host.Respects π

namespace Machine

/-- A machine that knows of no scopes, and of no registrations that are yet to come. -/
structure SelfContained (m : Machine) : Prop where
  scopeless : m.Scopeless
  blind : m.interpreter.host.KnowsOnly m.commons.store.registrations
  known : ∀ π : Equiv.Perm Nat, (∀ i, i < m.commons.store.registrations → π i = i) →
    m.flat.renumber π = m.flat

variable {c : Commons} {m : Machine} {settings : Settings} {history : List Operation}
  {answers : List (Option Answer)}

theorem scopeless_create (dynamic : settings.lexical = false) (host : settings.host.Homeless)
    (c : Commons) : (create settings c).Scopeless :=
  ⟨dynamic, host, ParseCache.faithful_ofCapacity _ _, (flat_clear _).2⟩

/-- A new machine knows the builtins of its own registration. -/
theorem renumber_flat_create {π : Equiv.Perm Nat}
    (fixed : π c.store.registrations = c.store.registrations) :
    (create settings c).flat.renumber π = (create settings c).flat := by
  have bound := @FlatMachine.registered_renumber π c.store.registrations
    settings.vocabulary.primitives
  rw [fixed] at bound
  rw [create, (flat_clear _).1]
  exact congrArg (fun names => FlatMachine.mk _ _ ⟨names, _⟩) bound

theorem selfContained_of_history (dynamic : settings.lexical = false)
    (host : settings.host.Homeless) (blind : settings.host.KnowsOnly m.commons.store.registrations)
    (plain : ∀ op ∈ history, op.homeless = true)
    (known : ∀ op ∈ history, ∀ i ∈ op.registrationsIn, i < m.commons.store.registrations)
    (ends : performAll history (create settings c) = some (answers, m)) : m.SelfContained := by
  obtain ⟨same, after⟩ := (scopeless_create dynamic host c).performAll plain
  obtain ⟨scopeless, counted⟩ := after _ ends
  have total : m.commons.store.registrations =
      c.store.registrations + 1 + Operation.totalRegistrations history := counted
  rw [ends] at same
  have performed : FlatMachine.performAll (Operation.numbered (c.store.registrations + 1) history)
      (create settings c).flat = some (answers, m.flat) := same.symm
  have rules : m.interpreter.host = settings.host :=
    congrArg Rules.host (FlatMachine.rules_performAll performed)
  refine ⟨scopeless, rules ▸ blind, fun π fixed => ?_⟩
  have unchanged : history.map (Operation.renumber π.symm) = history := by
    refine (List.map_congr_left fun op member => ?_).trans (List.map_id history)
    exact op.renumber_of_fixed fun i there =>
      π.symm_apply_eq.2 (fixed i (known op member i there)).symm
  have steps : List.Forall₂ (Renumbered π)
      (Operation.numbered (c.store.registrations + 1) history)
      (Operation.numbered (c.store.registrations + 1) history) :=
    renumbered_numbered fun i small => fixed i (by omega)
  have renumbered := FlatMachine.performAll_renumber (f := (create settings c).flat)
    (blind π fixed) steps
  rw [renumber_flat_create (fixed _ (by omega)), ← Operation.numbered_renumber, unchanged,
    performed] at renumbered
  exact (congrArg Prod.snd (Option.some.inj renumbered)).symm

end Machine

/-! ## What one sees of an interpreter -/

/-- What has been answered, what names mean globally, and which functions are registered. -/
structure View where
  answers : List (Option Answer)
  bindings : NameMap Value
  functions : NameMap Primitive

/-- The view with its builtins numbered otherwise. -/
def View.renumber (π : Equiv.Perm Nat) (view : View) : View where
  answers := view.answers.map (Option.map (Answer.renumber π))
  bindings := view.bindings.map fun _ x => x.renumber π
  functions := view.functions

/-- What one sees of a flat machine after operations. -/
def FlatMachine.view (out : List (Option Answer) × FlatMachine) : View :=
  ⟨out.1, out.2.world.names, out.2.primitives⟩

/-- What one sees of a machine after operations. -/
def Machine.view (out : List (Option Answer) × Machine) : View where
  answers := out.1
  bindings := out.2.commons.store.visible out.2.interpreter.global
  functions := out.2.interpreter.primitives

/-- What one sees of an interpreter after a conversation. -/
def Session.view (k : Fin 2) (out : List (Fin 2 × Option Answer) × Session) : Option View :=
  out.2.interpreters[k.val]?.map fun i => Machine.view (side k out.1, ⟨i, out.2.commons⟩)

/-- All that one sees of a machine without scopes is there in its flat machine. -/
theorem Machine.Scopeless.view_performAll {m : Machine} (scopeless : m.Scopeless)
    {ops : List Operation} (plain : ∀ op ∈ ops, op.homeless = true) :
    (Machine.performAll ops m).map view =
      (m.flat.performAll (Operation.numbered m.commons.store.registrations ops)).map
        FlatMachine.view := by
  rw [← (scopeless.performAll plain).1, Option.map_map]
  rfl

/-- Each interpreter gets in a conversation what a machine of its own gets from the same operations
alone: the conversation ends exactly if both machines come to an end, and then one sees the same
of them.  The permutations say which number a registration has in the conversation, by its number
alone; numbers below `count` were given before. -/
structure Isolated (count : Nat) (alone : Fin 2 → Machine) (turns : List (Fin 2 × Operation))
    (s : Session) (π : Fin 2 → Equiv.Perm Nat) : Prop where
  known : ∀ k i, i < count → π k i = i
  quiet : ∀ k, (∀ turn ∈ turns, turn.1 ≠ k → turn.2.registrations = 0) → π k = Equiv.refl Nat
  ends : (s.operate turns).isSome ↔ ∀ k, (Machine.performAll
    ((Session.side k turns).map (Operation.renumber (π k).symm)) (alone k)).isSome
  same : ∀ out, s.operate turns = some out → ∀ k, ∃ mine, Machine.performAll
    ((Session.side k turns).map (Operation.renumber (π k).symm)) (alone k) = some mine ∧
      Session.view k out = some ((Machine.view mine).renumber (π k)) ∧
      ∀ v, (Session.side k out.1).map (Option.map (Answer.printed v)) =
        mine.1.map (Option.map (Answer.printed v))

section Turns

variable {pair : Fin 2 → Interpreter} {c : Commons} {turns : List (Fin 2 × Operation)}

/-- What a flat machine makes of its turns is what its machine makes of them alone, numbered
otherwise. -/
theorem Apart.performAll_side (apart : Apart pair c) {k : Fin 2} {π : Equiv.Perm Nat}
    (plain : ∀ turn ∈ turns, turn.2.homeless = true) (blind : (pair k).host.Respects π)
    (known : (Machine.flat ⟨pair k, c⟩).renumber π = Machine.flat ⟨pair k, c⟩)
    (steps : List.Forall₂ (Renumbered π)
      (Operation.numbered c.store.registrations (Session.side k turns))
      (Session.side k (Session.numbered c.store.registrations turns))) :
    FlatMachine.performAll (Session.side k (Session.numbered c.store.registrations turns))
        (Machine.flat ⟨pair k, c⟩) =
      (Machine.performAll ((Session.side k turns).map (Operation.renumber π.symm)) ⟨pair k, c⟩).map
        fun out => FlatMachine.renumberSteps π (out.1, out.2.flat) := by
  have renumbered := FlatMachine.performAll_renumber (f := Machine.flat ⟨pair k, c⟩) blind steps
  have plain' : ∀ op ∈ (Session.side k turns).map (Operation.renumber π.symm),
      op.homeless = true := by
    intro op member
    obtain ⟨op', member', rfl⟩ := List.mem_map.1 member
    obtain ⟨turn, member'', rfl⟩ := List.mem_map.1 member'
    rw [Operation.homeless_renumber]
    exact plain turn (List.mem_filter.1 member'').1
  rw [known, ← Operation.numbered_renumber, ← ((apart.scopeless k).performAll plain').1,
    Option.map_map] at renumbered
  exact renumbered

/-- Interpreters that are apart, and know only what was registered before, are isolated. -/
theorem Apart.isolated (apart : Apart pair c)
    (blind : ∀ k, (pair k).host.KnowsOnly c.store.registrations)
    (known : ∀ k (π : Equiv.Perm Nat), (∀ i, i < c.store.registrations → π i = i) →
      (Machine.flat ⟨pair k, c⟩).renumber π = Machine.flat ⟨pair k, c⟩)
    (plain : ∀ turn ∈ turns, turn.2.homeless = true) :
    ∃ π, Isolated c.store.registrations (fun k => ⟨pair k, c⟩) turns (.ofPair pair c) π := by
  choose π fixed quiet each using
    fun k => exists_renumbering k turns (Nat.le_refl c.store.registrations)
  have mine (k : Fin 2) := apart.performAll_side plain (blind k (π k) (fixed k))
    (known k (π k) (fixed k)) ((each k).imp fun _ _ both => both.1)
  refine ⟨π, fixed, fun k => quiet k rfl, ⟨?_, ?_⟩, ?_⟩
  · intro ends k
    obtain ⟨out, ended⟩ := Option.isSome_iff_exists.1 ends
    obtain ⟨_, _, _, performed⟩ := apart.operate plain ended
    have answered := performed k
    rw [mine k] at answered
    obtain ⟨_, alone, _⟩ := Option.map_eq_some_iff.1 answered
    exact Option.isSome_of_mem alone
  · intro ends
    refine apart.isSome_operate plain fun k => ?_
    rw [mine k, Option.isSome_map]
    exact ends k
  · intro out ended k
    obtain ⟨pair', c', session, performed⟩ := apart.operate plain ended
    have answered := performed k
    rw [mine k] at answered
    obtain ⟨out', alone, same⟩ := Option.map_eq_some_iff.1 answered
    refine ⟨out', alone, ?_, fun v => ?_⟩
    · rw [Session.view, session, Session.getElem?_ofPair, Option.map_some]
      exact congrArg (fun seen => some (FlatMachine.view seen)) same.symm
    · have answers : out'.1.map (Option.map (Answer.renumber (π k))) = Session.side k out.1 :=
        congrArg Prod.fst same
      rw [← answers, List.map_map]
      refine List.map_congr_left fun answer _ => ?_
      cases answer with
      | none => rfl
      | some answer => exact congrArg some (Answer.printed_renumber v answer)

end Turns

open Machine in
/-- Take an interpreter whose closures are dynamic, after any operations that bring in no closure
with a scope and no builtin that is yet to be registered, and clone it.  Whatever the two are
asked to do from then on, and in whatever order, each of them answers, binds and registers what it
does alone, up to the numbers of later registrations; those stay what they are, too, if the other
one registers nothing.  The clone does what its original would have done in its place, if they
drew the same random numbers. -/
theorem dynamic_clone_is_isolated {settings : Settings} {c : Commons} {history : List Operation}
    {answers : List (Option Answer)} {m : Machine} (dynamic : settings.lexical = false)
    (host : settings.host.Homeless)
    (blind : settings.host.KnowsOnly m.commons.store.registrations)
    (plain : ∀ op ∈ history, op.homeless = true)
    (known : ∀ op ∈ history, ∀ i ∈ op.registrationsIn, i < m.commons.store.registrations)
    (ends : performAll history (create settings c) = some (answers, m)) :
    Session.clone 0 ⟨#[m.interpreter], m.commons⟩ = some (1, m.withClone) ∧
      (∀ turns : List (Fin 2 × Operation), (∀ turn ∈ turns, turn.2.homeless = true) →
        ∃ π, Isolated m.commons.store.registrations
          (fun k => ⟨m.clonePair k, m.clone.2.commons⟩) turns m.withClone π) ∧
      ∀ ops : List Operation, (∀ op ∈ ops, op.homeless = true) → ∀ g,
        (performAll ops ⟨{ m.clone.1 with generator := g }, m.clone.2.commons⟩).map view =
          (performAll ops ⟨{ m.interpreter with generator := g }, m.commons⟩).map view := by
  have contained := selfContained_of_history dynamic host blind plain known ends
  have scopeless := contained.scopeless
  refine ⟨m.clone_eq_withClone, fun turns plain' => ?_, fun ops plain' g => ?_⟩
  · obtain ⟨apart, flats⟩ := scopeless.apart_clonePair
    rw [← m.registrations_clone]
    refine apart.isolated (fun k => ?_) (fun k π fixed => ?_) plain'
    · obtain ⟨g, same⟩ := flats k
      have rules : (m.clonePair k).host = m.interpreter.host :=
        congrArg (fun f => f.rules.host) same
      rw [rules, m.registrations_clone]
      exact contained.blind
    · obtain ⟨g, same⟩ := flats k
      rw [m.registrations_clone] at fixed
      rw [same]
      exact congrArg (FlatMachine.drawing g) (contained.known π fixed)
  · have twin := scopeless.twin g m.interpreter.cache.capacity
    have original := scopeless.drawing g
    rw [clone_fst, clone_snd]
    refine (twin.1.view_performAll plain').trans ?_
    rw [original.1.view_performAll plain', twin.2, original.2]
    show Option.map _ (FlatMachine.performAll (Operation.numbered
      (m.commons.store.copyBelow m.interpreter.global).registrations ops) _) = _
    rw [Store.registrations_copyBelow]

/-- The original registers a function and forgets the rest; the clone keeps what there was, and
registers a function of the same name. -/
theorem clone_keeps_what_original_clears :
    let settings : Settings :=
      { Settings.standard .words with host := fun _ _ args => .ok (.list args), cacheCapacity := 0 }
    let history : List Operation :=
      [.addFunction "pack" 0, .addGlobal "plus" (.builtin ⟨0, "+", .numeric .add⟩),
        .run 20 "(var f (closure (n) (pack n (plus n n))))"]
    let turns : List (Fin 2 × Operation) :=
      [(0, .addFunction "late" 1), (0, .clear), (1, .addFunction "late" 1),
        (1, .run 20 "(f 1) (= late late)"), (0, .run 20 "(f 1)")]
    let heard (k : Fin 2) (out : List (Fin 2 × Option Answer) × Session) :=
      (Session.side k out.1).filterMap (Option.map (Answer.printed .words))
    ∃ answers m out π, Machine.performAll history (Machine.create settings ∅) = some (answers, m) ∧
      m.withClone.operate turns = some out ∧
      heard 0 out = [.ok [.error (.diagnosis .unbound "symbol f not found in environment")]] ∧
      heard 1 out = [.ok [.ok "(1 2)", .ok "true"]] ∧
      Isolated 2 (fun k => ⟨m.clonePair k, m.clone.2.commons⟩) turns m.withClone π := by
  intro settings history turns heard
  let before := Machine.performAll history (Machine.create settings ∅)
  have counted : (before.map fun out => out.2.commons.store.registrations) = some 2 := by
    decide +kernel
  have heard₀ : (before.bind fun out => (out.2.withClone.operate turns).map (heard 0)) =
      some [.ok [.error (.diagnosis .unbound "symbol f not found in environment")]] := by
    decide +kernel
  have heard₁ : (before.bind fun out => (out.2.withClone.operate turns).map (heard 1)) =
      some [.ok [.ok "(1 2)", .ok "true"]] := by
    decide +kernel
  obtain ⟨⟨answers, m⟩, ends, count⟩ := Option.map_eq_some_iff.1 counted
  rw [ends, Option.bind_some] at heard₀ heard₁
  obtain ⟨out, ended, answered₀⟩ := Option.map_eq_some_iff.1 heard₀
  rw [ended] at heard₁
  have homeless : settings.host.Homeless := by
    rintro slot name args _ plain ⟨⟩
    exact Value.homeless_list.2 plain
  have blind : settings.host.KnowsOnly m.commons.store.registrations := by
    intro π _ slot name args
    exact congrArg (fun xs => Except.ok (Value.list xs)) (Value.renumberAll_eq_map π args).symm
  obtain ⟨_, conversations, _⟩ := dynamic_clone_is_isolated rfl homeless blind (by decide)
    (by rw [show m.commons.store.registrations = 2 from count]; decide) ends
  obtain ⟨π, isolated⟩ := conversations turns (by decide)
  rw [show m.commons.store.registrations = 2 from count] at isolated
  exact ⟨answers, m, out, π, ends, ended, answered₀, Option.some.inj heard₁, isolated⟩

end Argot
