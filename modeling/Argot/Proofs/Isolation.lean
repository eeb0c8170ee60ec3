import Mathlib.Logic.Function.Basic
import Argot.Proofs.Copying

set_option autoImplicit false

/-!
# A clone and its original

An interpreter is undisturbed when nothing that counts for it is the global scope of another
one over the same store.  Running a text writes to one global scope and to scopes that are
new, so whoever is undisturbed stays so, and cannot tell whether the other one has run
anything: it is a twin of a machine that works alone.

A clone never disturbs its original.  The clone is undisturbed if, at the time of cloning,
closures stand alone.  A closure in a list, such as the record that a definition answers, is
not moved over: it resolves names through the global scope of the original even when the
clone calls it.
-/

namespace Argot

/-! ## Somebody else at work -/

theorem Store.Keeps.size_le {scope : Nat} {s s' : Store} (h : s.Keeps scope s') :
    s.size ≤ s'.size := by
  by_cases empty : s.size = 0
  · omega
  · have last : s.size - 1 < s.size := by omega
    obtain ⟨f, found⟩ := frame?_isSome last
    by_cases own : s.size - 1 = scope
    · obtain ⟨f', found', _⟩ := h.own f (own ▸ found)
      have := frame?_lt found'
      omega
    · have := frame?_lt (h.others _ f own found)
      omega

/-- The pairs so far, and the scopes yet to come when the second store has `c` scopes. -/
def Pairing.rebased (σ : Pairing) (a b c : Nat) : Pairing :=
  fun i j => σ.within a b i j ∨ ∃ k, i = a + k ∧ j = c + k

/-- Where nothing is paired with the scope that somebody else writes to, stores still
correspond afterwards. -/
theorem Store.Corresponds.rebase {d : Dictionary} {σ : Pairing} {s t t₁ : Store}
    (h : s.Corresponds d σ t) {other : Nat} (keeps : t.Keeps other t₁)
    (apart : ∀ i j, σ.within s.size t.size i j → j ≠ other) :
    s.Corresponds d (σ.rebased s.size t.size t₁.size) t₁ := by
  have unchanged : ∀ {i j}, σ.within s.size t.size i j → t₁.frame? j = t.frame? j := by
    intro i j paired
    obtain ⟨f, found⟩ := frame?_isSome paired.2.2
    rw [keeps.others j f (apart i j paired) found, found]
  have more := keeps.size_le
  have still : ∀ i j, σ.within s.size t.size i j →
      (σ.rebased s.size t.size t₁.size).within s.size t₁.size i j :=
    fun i j paired => ⟨.inl paired, paired.2.1, Nat.lt_of_lt_of_le paired.2.2 more⟩
  constructor
  · rintro i i' j j' (first | ⟨k, rfl, rfl⟩) (second | ⟨l, rfl, rfl⟩)
    · exact h.unique first.1 second.1
    · have := first.2
      omega
    · have := second.2
      omega
    · omega
  · rintro i i' (paired | ⟨k, rfl, rfl⟩)
    · have := paired.2
      omega
    · omega
  · exact fun k => .inr ⟨k, rfl, rfl⟩
  · exact fun pair => still _ _ (h.written pair)
  · rintro i i' (paired | ⟨k, rfl, rfl⟩)
    · have parents := h.parent_within paired
      rw [parent?, parent?, unchanged paired, ← parent?, ← parent?]
      generalize s.parent? i = p at parents
      generalize t.parent? i' = p' at parents
      cases parents with
      | none => exact .none
      | some paired' => exact .some (.inl paired')
    · rw [parent?_eq_none_of_le (Nat.le_add_right _ k),
        parent?_eq_none_of_le (Nat.le_add_right _ k)]
      exact .none
  · rintro i i' (paired | ⟨k, rfl, rfl⟩) n
    · have values := h.binding paired.1 n
      rw [local?, local?, unchanged paired, ← local?, ← local?]
      exact Value.Matches.mono_option still values
    · rw [local?_eq_none_of_le (Nat.le_add_right _ k), local?_eq_none_of_le (Nat.le_add_right _ k)]
      exact .none

/-! ## Two interpreters -/

namespace Session

/-- A session of two interpreters. -/
def ofPair (pair : Fin 2 → Interpreter) (c : Commons) : Session := ⟨#[pair 0, pair 1], c⟩

theorem getElem?_ofPair (pair : Fin 2 → Interpreter) (c : Commons) :
    ∀ k : Fin 2, (ofPair pair c).interpreters[k.val]? = some (pair k) :=
  Fin.forall_fin_two.2 ⟨rfl, rfl⟩

/-- When one interpreter does something, the other one is left as it is. -/
theorem act_ofPair {α : Type} (a : Act α) (pair : Fin 2 → Interpreter) (c : Commons) (k : Fin 2) :
    (ofPair pair c).act k a =
      (a ⟨pair k, c⟩).map fun out =>
        (out.1, ofPair (Function.update pair k out.2.interpreter) out.2.commons) := by
  have here := getElem?_ofPair pair c k
  have updated (i : Interpreter) : ∀ k : Fin 2, #[pair 0, pair 1].setIfInBounds k.val i =
      #[Function.update pair k i 0, Function.update pair k i 1] :=
    Fin.forall_fin_two.2 ⟨rfl, rfl⟩
  unfold ofPair at here ⊢
  simp only [act, here]
  cases a ⟨pair k, c⟩ with
  | none => rfl
  | some out => simp only [updated, Option.map_some]

/-- From neither global scope one gets to the other one. -/
def Separate (s : Session) : Prop :=
  ∀ k l : Fin 2, l ≠ k → ∃ i j, s.interpreters[k.val]? = some i ∧
    s.interpreters[l.val]? = some j ∧ ¬ s.commons.store.Reaches i.global j.global

theorem separate_ofPair {pair : Fin 2 → Interpreter} {c : Commons} :
    (ofPair pair c).Separate ↔
      ∀ k l, l ≠ k → ¬ c.store.Reaches (pair k).global (pair l).global := by
  simp only [Separate, getElem?_ofPair, Option.some.injEq]
  constructor
  · intro separate k l different
    obtain ⟨_, _, rfl, rfl, unreached⟩ := separate k l different
    exact unreached
  · exact fun separate k l different => ⟨_, _, rfl, rfl, separate k l different⟩

/-- Lets interpreters run texts, each at its turn. -/
def converse : List (Fin 2 × Call) → Session → Option (List (Fin 2 × Answer) × Session)
  | [], s => some ([], s)
  | turn :: rest, s =>
    (s.act turn.1 (Machine.run turn.2.fuel turn.2.text)).bind fun out =>
      (converse rest out.2).map fun outs => ((turn.1, out.1) :: outs.1, outs.2)

/-- The turns of one of the interpreters. -/
def turnsOf {α : Type} (k : Fin 2) (turns : List (Fin 2 × α)) : List (Fin 2 × α) :=
  turns.filter fun turn => turn.1 = k

/-- What one of the interpreters gets at its turns. -/
def side {α : Type} (k : Fin 2) (turns : List (Fin 2 × α)) : List α :=
  (turnsOf k turns).map Prod.snd

section Sides

variable {α : Type} {k l : Fin 2}

theorem side_cons_self (x : α) (turns : List (Fin 2 × α)) :
    side k ((k, x) :: turns) = x :: side k turns := by
  simp [side, turnsOf]

theorem side_cons_of_ne (different : l ≠ k) (x : α) (turns : List (Fin 2 × α)) :
    side k ((l, x) :: turns) = side k turns := by
  simp [side, turnsOf, different]

theorem side_turnsOf_self (turns : List (Fin 2 × α)) : side k (turnsOf k turns) = side k turns := by
  simp [side, turnsOf]

end Sides

theorem converse_cons (turn : Fin 2 × Call) (rest : List (Fin 2 × Call)) (s : Session) :
    converse (turn :: rest) s =
      (s.act turn.1 (Machine.run turn.2.fuel turn.2.text)).bind fun out =>
        (converse rest out.2).map fun outs => ((turn.1, out.1) :: outs.1, outs.2) := rfl

end Session

/-- Two interpreters whose global scopes exist and whose caches are right. -/
structure Sound (pair : Fin 2 → Interpreter) (c : Commons) : Prop where
  there : ∀ k, (pair k).global < c.store.size
  faithful : ∀ k, (pair k).cache.Faithful (pair k).vocabulary

/-- An interpreter that the other one cannot disturb: it is a twin of a machine that works
alone, and nothing that is paired in the twins is the global scope of the other one. -/
def Undisturbed (k : Fin 2) (alone : Machine) (pair : Fin 2 → Interpreter) (c : Commons) : Prop :=
  ∃ σ, Machine.Twins σ alone ⟨pair k, c⟩ ∧
    ∀ i j, Machine.pairs σ alone ⟨pair k, c⟩ i j → ∀ l, l ≠ k → j ≠ (pair l).global

section Turns

variable {k l : Fin 2} {alone m : Machine} {pair : Fin 2 → Interpreter} {c : Commons}
  {turns : List (Fin 2 × Call)} {out : List (Fin 2 × Answer) × Session}

/-- Global scopes stay what they are. -/
theorem Machine.Advances.global_update (advances : Machine.Advances ⟨pair k, c⟩ m) (l : Fin 2) :
    (Function.update pair k m.interpreter l).global = (pair l).global := by
  by_cases same : l = k
  · subst same
    rw [Function.update_self, advances.global]
  · rw [Function.update_of_ne same]

theorem Sound.advance (sound : Sound pair c) (advances : Machine.Advances ⟨pair k, c⟩ m) :
    Sound (Function.update pair k m.interpreter) m.commons where
  there l := by
    rw [advances.global_update]
    exact Nat.lt_of_lt_of_le (sound.there l) advances.keeps.size_le
  faithful l := by
    by_cases same : l = k
    · subst same
      rw [Function.update_self]
      exact advances.faithful
    · rw [Function.update_of_ne same]
      exact sound.faithful l

namespace Undisturbed

/-- What the other interpreter does leaves this one a twin of its machine. -/
theorem run_other (undisturbed : Undisturbed k alone pair c) (different : l ≠ k)
    (advances : Machine.Advances ⟨pair l, c⟩ m) :
    Undisturbed k alone (Function.update pair l m.interpreter) m.commons := by
  obtain ⟨σ, twins, away⟩ := undisturbed
  have apart : ∀ i j, Machine.pairs σ alone ⟨pair k, c⟩ i j → j ≠ (pair l).global :=
    fun i j paired => away i j paired l different
  have more := advances.keeps.size_le
  obtain ⟨f, found⟩ := Store.frame?_isSome twins.global.2.2
  have unchanged : m.commons.store.frame? (pair k).global = c.store.frame? (pair k).global := by
    rw [advances.keeps.others _ f (apart _ _ twins.global) found, found]
  -- the scopes that the other one has made pair with nothing, those yet to come move up
  refine ⟨σ.rebased alone.commons.store.size c.store.size m.commons.store.size, ?_, ?_⟩
  · rw [Function.update_of_ne different.symm]
    refine ⟨⟨twins.rules, ⟨twins.world.store.rebase advances.keeps apart,
      twins.world.generator⟩⟩, twins.vocabulary, ?_, ?_, twins.faithful, twins.faithful'⟩
    · exact ⟨.inl twins.global, twins.global.2.1, Nat.lt_of_lt_of_le twins.global.2.2 more⟩
    · rw [← twins.heading, Machine.heading, Machine.heading, unchanged]
  · simp only [advances.global_update]
    rintro i j ⟨known | ⟨_, rfl, _⟩, there, _⟩ l' different'
    · exact away i j known l' different'
    · omega

/-- A text that this interpreter runs is answered as by its machine. -/
theorem run_self (undisturbed : Undisturbed k alone pair c) (sound : Sound pair c) (fuel : Nat)
    (text : Text) :
    Option.Rel
      (fun out out' =>
        Undisturbed k out.2 (Function.update pair k out'.2.interpreter) out'.2.commons ∧
        ∀ v, Answer.printed v out'.1 = Answer.printed v out.1)
      (Machine.run fuel text alone) (Machine.run fuel text ⟨pair k, c⟩) := by
  obtain ⟨σ, twins, away⟩ := undisturbed
  have ran := twins.run fuel text
  generalize Machine.run fuel text alone = out at ran
  generalize Machine.run fuel text ⟨pair k, c⟩ = out' at ran
  cases ran with
  | none => exact .none
  | @some out out' agrees =>
    refine .some ⟨⟨σ, ?_, ?_⟩, agrees.alike.printed_eq Dictionary.plain_isPlain⟩
    · rw [Function.update_self]
      exact agrees.twins
    · simp only [agrees.advances'.global_update]
      -- a pair is an old one, or newer than all global scopes
      intro i j paired l different
      by_cases old : j < c.store.size
      · exact away i j ⟨paired.1, (twins.world.store.present paired.1).2 old, old⟩ l different
      · have there := sound.there l
        omega

/-- After a conversation the interpreter is undisturbed, and its machine, alone, has given
the same answers. -/
theorem converse (undisturbed : Undisturbed k alone pair c) (sound : Sound pair c)
    (ends : Session.converse turns (.ofPair pair c) = some out) :
    ∃ answers alone' pair' c', out.2 = Session.ofPair pair' c' ∧ Undisturbed k alone' pair' c' ∧
      Machine.answerAll (Session.side k turns) alone = some (answers, alone') ∧
      ∀ v, (Session.side k out.1).map (Answer.printed v) = answers.map (Answer.printed v) := by
  induction turns generalizing alone pair c out with
  | nil =>
    cases ends
    exact ⟨[], alone, pair, c, rfl, undisturbed, rfl, fun _ => rfl⟩
  | cons turn rest ih =>
    obtain ⟨l, call⟩ := turn
    rw [Session.converse_cons, Session.act_ofPair] at ends
    obtain ⟨_, first, later⟩ := Option.bind_eq_some_iff.1 ends
    obtain ⟨out₁, ran, rfl⟩ := Option.map_eq_some_iff.1 first
    obtain ⟨outs, ended, rfl⟩ := Option.map_eq_some_iff.1 later
    have advances := Machine.advances_of_run (m := ⟨pair l, c⟩) (sound.faithful l) ran
    by_cases same : l = k
    · subst same
      have agrees := undisturbed.run_self sound call.fuel call.text
      rw [ran] at agrees
      cases mine : Machine.run call.fuel call.text alone with
      | none =>
        rw [mine] at agrees
        cases agrees
      | some out₂ =>
        rw [mine] at agrees
        rcases agrees with @⟨_, _, undisturbed₁, printed⟩
        obtain ⟨answers, alone', pair', c', session, undisturbed', answered, shown⟩ :=
          ih undisturbed₁ (sound.advance advances) ended
        refine ⟨out₂.1 :: answers, alone', pair', c', session, undisturbed', ?_, fun v => ?_⟩
        · rw [Session.side_cons_self, Machine.answerAll_cons, mine, Option.bind_some, answered]
          rfl
        · rw [Session.side_cons_self, List.map_cons, List.map_cons, printed v, shown v]
    · obtain ⟨answers, alone', pair', c', session, undisturbed', answered, shown⟩ :=
        ih (undisturbed.run_other same advances) (sound.advance advances) ended
      refine ⟨answers, alone', pair', c', session, undisturbed', ?_, fun v => ?_⟩
      · rw [Session.side_cons_of_ne same, answered]
      · rw [Session.side_cons_of_ne same, shown v]

/-- One does not get from the global scope of the interpreter to the other one. -/
theorem not_reaches (undisturbed : Undisturbed k alone pair c) (different : l ≠ k) :
    ¬ c.store.Reaches (pair k).global (pair l).global := by
  intro reached
  obtain ⟨_, twins, away⟩ := undisturbed
  obtain ⟨i, paired⟩ := twins.world.store.reaches twins.global reached
  exact away i _ paired l different rfl

end Undisturbed

/-- A conversation ends if everybody who has a turn is undisturbed and their machine, alone,
answers what it is given. -/
theorem Sound.isSome_converse (sound : Sound pair c)
    (answering : ∀ turn ∈ turns, ∃ alone, Undisturbed turn.1 alone pair c ∧
      (Machine.answerAll (Session.side turn.1 turns) alone).isSome) :
    (Session.converse turns (.ofPair pair c)).isSome := by
  induction turns generalizing pair c with
  | nil => rfl
  | cons turn rest ih =>
    obtain ⟨k, call⟩ := turn
    obtain ⟨alone, undisturbed, answered⟩ := answering _ List.mem_cons_self
    have agrees := undisturbed.run_self sound call.fuel call.text
    simp only [Session.side_cons_self, Machine.answerAll_cons] at answered
    rw [Session.converse_cons, Session.act_ofPair]
    cases ran : Machine.run call.fuel call.text ⟨pair k, c⟩ with
    | none =>
      rw [ran] at agrees
      generalize Machine.run call.fuel call.text alone = mine at agrees answered
      cases agrees
      cases answered
    | some out =>
      have advances := Machine.advances_of_run (m := ⟨pair k, c⟩) (sound.faithful k) ran
      rw [ran] at agrees
      generalize Machine.run call.fuel call.text alone = mine at agrees answered
      rcases agrees with @⟨mine, _, undisturbed', _⟩
      rw [Option.bind_some, Option.isSome_map] at answered
      rw [Option.map_some, Option.bind_some, Option.isSome_map]
      refine ih (sound.advance advances) fun turn member => ?_
      by_cases same : turn.1 = k
      · exact ⟨mine.2, same ▸ undisturbed', same ▸ answered⟩
      · obtain ⟨alone₁, undisturbed₁, answered₁⟩ := answering turn (List.mem_cons_of_mem _ member)
        rw [Session.side_cons_of_ne (Ne.symm same)] at answered₁
        exact ⟨alone₁, undisturbed₁.run_other (Ne.symm same) advances, answered₁⟩

end Turns

/-! ## Machines with a history -/

namespace Machine

/-- A machine in a store of program values is a twin of itself. -/
theorem twins_self {m : Machine} (settled : m.commons.store.Settled)
    (there : m.interpreter.global < m.commons.store.size) (faithful : m.Faithful) :
    Twins (m.commons.store.reached m.interpreter.global) m m where
  rules := (Respells.refl m.interpreter.vocabulary).rules rfl rfl rfl rfl
  world := ⟨settled.corresponds_reached _, rfl⟩
  vocabulary := rfl
  global := ⟨⟨rfl, .inl .root⟩, there, there⟩
  heading := rfl
  faithful := faithful
  faithful' := faithful

theorem twins_create (settings : Settings) :
    Twins (.since 0) (create settings ∅) (create settings ∅) where
  toCorresponds := create_corresponds (.refl settings.vocabulary) settings
    (Store.corresponds_since _ ∅) rfl
  vocabulary := rfl
  global := ⟨⟨rfl, Nat.le_refl 0⟩, Nat.zero_lt_one, Nat.zero_lt_one⟩
  heading := rfl
  faithful := ParseCache.faithful_ofCapacity _ _
  faithful' := ParseCache.faithful_ofCapacity _ _

/-- What is true of a machine that was made in an empty store and has run texts. -/
structure Grown (m : Machine) : Prop where
  settled : m.commons.store.Settled
  rooted : m.commons.store.RootedAt m.interpreter.global
  faithful : m.Faithful

theorem grown_of_history {settings : Settings} {history : List Call} {answers : List Answer}
    {m : Machine} (ends : answerAll history (create settings ∅) = some (answers, m)) : m.Grown := by
  have agrees := (twins_create settings).answerAll history
  rw [ends] at agrees
  rcases agrees with @⟨_, _, twins, grows, advances, _⟩
  have global : m.interpreter.global = 0 := advances.global
  refine ⟨twins.world.store.settled, ⟨twins.global.2.1, ?_, ?_⟩, twins.faithful⟩
  · intro f found
    obtain ⟨f', found', more⟩ := advances.keeps.own _ rfl
    rw [advances.global, found'] at found
    exact Option.some.inj found ▸ more.parent
  · intro i there other
    rw [global] at other
    exact grows.parent_new i (Nat.pos_of_ne_zero other) there

/-! ## Clones -/

/-- A machine and its clone, in this order. -/
def clonePair (m : Machine) : Fin 2 → Interpreter
  | 0 => m.clone.2.interpreter
  | 1 => m.clone.1

theorem clonePair_zero (m : Machine) :
    m.clonePair 0 = { m.interpreter with generator := m.interpreter.generator.split.2 } := by
  show m.clone.2.interpreter = _
  rw [clone_snd]

theorem clonePair_one (m : Machine) : m.clonePair 1 = m.clone.1 := rfl

/-- The session of a machine and its clone. -/
def withClone (m : Machine) : Session := .ofPair m.clonePair m.clone.2.commons

theorem clone_eq_withClone (m : Machine) :
    Session.clone 0 ⟨#[m.interpreter], m.commons⟩ = some (1, m.withClone) := rfl

theorem Grown.global_clone {m : Machine} (grown : m.Grown) :
    m.clone.1.global = m.commons.store.size + m.interpreter.global := by
  rw [clone_fst]
  exact grown.rooted.image_eq grown.rooted.there

/-- From the old global scope one gets to old scopes only. -/
theorem Grown.old_of_reaches {m : Machine} (grown : m.Grown) {i : Nat}
    (reached : m.clone.2.commons.store.Reaches m.interpreter.global i) :
    i < m.commons.store.size := by
  rw [clone_snd] at reached
  induction reached with
  | root => exact grown.rooted.there
  | parent _ link ih => exact Nat.lt_trans (Store.parent?_lt link) ih
  | home _ bound member ih =>
    rw [grown.rooted.local?_copyBelow ih] at bound
    exact (grown.settled _ _ _ bound).lt_of_mem member

theorem Grown.settled_clone {m : Machine} (grown : m.Grown) :
    m.clone.2.commons.store.Settled := by
  rw [clone_snd]
  exact grown.rooted.settled_copyBelow grown.settled

theorem Grown.size_clone {m : Machine} (grown : m.Grown) :
    m.clone.2.commons.store.size = m.commons.store.size + m.commons.store.size := by
  rw [clone_snd]
  exact grown.rooted.size_copyBelow

theorem global_clonePair_zero (m : Machine) : (m.clonePair 0).global = m.interpreter.global := by
  rw [clonePair_zero]

/-- One never gets from the original to its clone, and back only where closures do not stand
alone. -/
theorem Grown.not_reaches {m : Machine} (grown : m.Grown) {k l : Fin 2} (different : l ≠ k)
    (alone : k = 0 ∨ m.commons.store.ClosuresStandAlone m.interpreter.global) :
    ¬ m.clone.2.commons.store.Reaches (m.clonePair k).global (m.clonePair l).global := by
  by_cases original : k = 0
  · subst original
    obtain rfl : l = 1 := by omega
    intro reached
    rw [global_clonePair_zero] at reached
    have old := grown.old_of_reaches reached
    rw [clonePair_one, grown.global_clone] at old
    omega
  · obtain rfl : k = 1 := by omega
    obtain rfl : l = 0 := by omega
    have standAlone := alone.resolve_left original
    rw [global_clonePair_zero, clonePair_one, grown.global_clone, clone_snd]
    exact (grown.rooted.closuresStandAlone_iff grown.settled).1 standAlone

/-- Closures stand alone exactly if the clone is separate from its original. -/
theorem Grown.separate_iff {m : Machine} (grown : m.Grown) :
    m.commons.store.ClosuresStandAlone m.interpreter.global ↔ m.withClone.Separate := by
  rw [withClone, Session.separate_ofPair]
  constructor
  · exact fun standAlone k l different => grown.not_reaches different (.inr standAlone)
  · intro separate
    have unreached := separate 1 0 Fin.zero_ne_one
    rw [global_clonePair_zero, clonePair_one, grown.global_clone, clone_snd] at unreached
    exact (grown.rooted.closuresStandAlone_iff grown.settled).2 unreached

theorem Grown.sound_clone {m : Machine} (grown : m.Grown) :
    Sound m.clonePair m.clone.2.commons where
  there := by
    have old := grown.rooted.there
    refine Fin.forall_fin_two.2 ⟨?_, ?_⟩
    · rw [global_clonePair_zero, grown.size_clone]
      omega
    · rw [clonePair_one, grown.global_clone, grown.size_clone]
      omega
  faithful := by
    have remembered : m.interpreter.cache.Faithful m.interpreter.vocabulary := grown.faithful
    refine Fin.forall_fin_two.2 ⟨?_, ?_⟩
    · rw [clonePair_zero]
      exact remembered
    · rw [clonePair_one, clone_fst]
      exact ParseCache.faithful_ofCapacity _ _

/-- The original is undisturbed by its clone, and the clone by its original where closures
stand alone. -/
theorem Grown.undisturbed_clone {m : Machine} (grown : m.Grown) {k : Fin 2}
    (alone : k = 0 ∨ m.commons.store.ClosuresStandAlone m.interpreter.global) :
    Undisturbed k ⟨m.clonePair k, m.clone.2.commons⟩ m.clonePair m.clone.2.commons := by
  have sound := grown.sound_clone
  refine ⟨_, twins_self grown.settled_clone (sound.there k) (sound.faithful k), ?_⟩
  rintro _ i ⟨⟨rfl, reached | new⟩, _, below⟩ l different rfl
  · exact grown.not_reaches different alone reached
  · exact absurd below (Nat.not_lt.2 new)

/-- Stated for any generator: unifying the numbers that cloning draws would compute them. -/
theorem Grown.twins_copy {m : Machine} (grown : m.Grown)
    (standAlone : m.commons.store.ClosuresStandAlone m.interpreter.global) (g : Generator) :
    Twins (m.commons.store.copied m.interpreter.global)
      ⟨{ m.interpreter with generator := g }, m.commons⟩
      ⟨{ m.interpreter with
          global := (Relocation.below m.commons.store m.interpreter.global).image
            m.interpreter.global
          generator := g
          cache := ParseCache.ofCapacity m.interpreter.cache.capacity },
        { m.commons with store := m.commons.store.copyBelow m.interpreter.global }⟩ := by
  have old := grown.rooted.there
  have size := grown.rooted.size_copyBelow
  have global := grown.rooted.image_eq old
  have copy := grown.rooted.frame?_copy m.interpreter.global
  have remembered : m.interpreter.cache.Faithful m.interpreter.vocabulary := grown.faithful
  refine ⟨⟨(Respells.refl m.interpreter.vocabulary).rules rfl rfl rfl rfl,
    ⟨grown.rooted.corresponds_copied grown.settled standAlone, rfl⟩⟩, rfl, ?_, ?_,
    remembered, ParseCache.faithful_ofCapacity _ _⟩
  · simp only [pairs, global, size]
    exact ⟨⟨rfl, .inl .root⟩, old, Nat.add_lt_add_left old _⟩
  · simp only [Machine.heading, global, copy, Option.map_map]
    rfl

/-- Where closures stand alone, a clone is a twin of what its original was, had it drawn the
same numbers. -/
theorem Grown.twins_clone {m : Machine} (grown : m.Grown)
    (standAlone : m.commons.store.ClosuresStandAlone m.interpreter.global) :
    Twins (m.commons.store.copied m.interpreter.global)
      ⟨{ m.interpreter with generator := m.clone.1.generator }, m.commons⟩
      ⟨m.clone.1, m.clone.2.commons⟩ := by
  have drawn : m.clone.1.generator = m.interpreter.generator.split.1 := by rw [clone_fst]
  rw [drawn, clone_fst, clone_snd]
  exact grown.twins_copy standAlone _

end Machine

/-! ## Isolation -/

/-- What a machine shows after some texts: its answers and its global scope, in print. -/
def Machine.impression (v : Vocabulary) (out : List Answer × Machine) :
    List (Except Report (List (Except Report Text))) × Text :=
  (out.1.map (Answer.printed v), out.2.renderGlobal [])

/-- Twins show the same. -/
theorem Machine.Twins.impression_eq {σ : Pairing} {m m' : Machine} (twins : Twins σ m m')
    (calls : List Call) (v : Vocabulary) :
    (Machine.answerAll calls m').map (impression v) =
      (Machine.answerAll calls m).map (impression v) := by
  have agrees := twins.answerAll calls
  generalize Machine.answerAll calls m = out at agrees
  generalize Machine.answerAll calls m' = out' at agrees
  cases agrees with
  | none => rfl
  | some agrees =>
    simp only [Option.map_some, impression, agrees.printed, agrees.twins.renderGlobal_eq]

/-- What one of the interpreters shows after a conversation. -/
def Session.impression (v : Vocabulary) (k : Fin 2) (out : List (Fin 2 × Answer) × Session) :
    Option (List (Except Report (List (Except Report Text))) × Text) :=
  out.2.interpreters[k.val]?.map fun i =>
    Machine.impression v (side k out.1, ⟨i, out.2.commons⟩)

namespace Undisturbed

variable {k : Fin 2} {alone : Machine} {pair : Fin 2 → Interpreter} {c : Commons}
  {turns : List (Fin 2 × Call)} {out : List (Fin 2 × Answer) × Session}

/-- After a conversation the interpreter shows what its machine shows. -/
theorem impression_eq (undisturbed : Undisturbed k alone pair c) (sound : Sound pair c)
    (ends : Session.converse turns (.ofPair pair c) = some out) (v : Vocabulary) :
    (Machine.answerAll (Session.side k turns) alone).map (Machine.impression v) =
      Session.impression v k out := by
  obtain ⟨answers, alone', pair', c', session, undisturbed', answered, printed⟩ :=
    undisturbed.converse sound ends
  obtain ⟨_, twins, _⟩ := undisturbed'
  rw [answered, Session.impression, session, Session.getElem?_ofPair]
  simp only [Session.ofPair, Option.map_some, Machine.impression, printed, twins.renderGlobal_eq]

/-- The own turns of the interpreter end exactly if its machine has an answer to them. -/
theorem isSome_converse_turnsOf (undisturbed : Undisturbed k alone pair c) (sound : Sound pair c)
    (turns : List (Fin 2 × Call)) :
    (Session.converse (Session.turnsOf k turns) (.ofPair pair c)).isSome ↔
      (Machine.answerAll (Session.side k turns) alone).isSome := by
  rw [← Session.side_turnsOf_self]
  constructor
  · intro ended
    obtain ⟨out, ends⟩ := Option.isSome_iff_exists.1 ended
    obtain ⟨_, _, _, _, _, _, answered, _⟩ := undisturbed.converse sound ends
    rw [answered]
    rfl
  · intro answered
    refine sound.isSome_converse fun turn member => ?_
    obtain rfl : turn.1 = k := of_decide_eq_true (List.mem_filter.1 member).2
    exact ⟨alone, undisturbed, answered⟩

/-- After a conversation the interpreter shows what it shows after its own turns. -/
theorem impression_turnsOf (undisturbed : Undisturbed k alone pair c) (sound : Sound pair c)
    (ends : Session.converse turns (.ofPair pair c) = some out) (v : Vocabulary) :
    (Session.converse (Session.turnsOf k turns) (.ofPair pair c)).map (Session.impression v k) =
      some (Session.impression v k out) := by
  obtain ⟨_, _, _, _, _, _, answered, _⟩ := undisturbed.converse sound ends
  obtain ⟨own, ended⟩ := Option.isSome_iff_exists.1
    ((undisturbed.isSome_converse_turnsOf sound turns).2 (Option.isSome_of_mem answered))
  rw [ended, Option.map_some, ← undisturbed.impression_eq sound ends,
    ← undisturbed.impression_eq sound ended, Session.side_turnsOf_self]

end Undisturbed

/-- A clone and its original.  Whatever the two do in turn, the original shows what it shows
after its own turns alone.  So does the clone if closures stand alone at the time of cloning,
which is to say that the two are separate; it then shows what its original would have shown
with the same numbers to draw. -/
theorem clone_is_isolated {settings : Settings} {history : List Call} {answers : List Answer}
    {m : Machine}
    (ends : Machine.answerAll history (Machine.create settings ∅) = some (answers, m)) :
    let standAlone := m.commons.store.ClosuresStandAlone m.interpreter.global
    Session.clone 0 ⟨#[m.interpreter], m.commons⟩ = some (1, m.withClone) ∧
    (standAlone ↔ m.withClone.Separate) ∧
    (∀ turns out, m.withClone.converse turns = some out → ∀ k, k = 0 ∨ standAlone → ∀ v,
      (m.withClone.converse (Session.turnsOf k turns)).map (Session.impression v k) =
        some (Session.impression v k out)) ∧
    (standAlone →
      (∀ turns, (m.withClone.converse turns).isSome ↔
        ∀ k, (m.withClone.converse (Session.turnsOf k turns)).isSome) ∧
      (∀ turns out, m.withClone.converse turns = some out → out.2.Separate) ∧
      ∀ calls v,
        (Machine.answerAll calls ⟨m.clone.1, m.clone.2.commons⟩).map (Machine.impression v) =
          (Machine.answerAll calls
            ⟨{ m.interpreter with generator := m.clone.1.generator }, m.commons⟩).map
            (Machine.impression v)) := by
  intro standAlone
  have grown := Machine.grown_of_history ends
  have sound := grown.sound_clone
  refine ⟨m.clone_eq_withClone, grown.separate_iff, fun turns out ended k alone v => ?_,
    fun alone => ?_⟩
  · exact (grown.undisturbed_clone alone).impression_turnsOf sound ended v
  have undisturbed (k : Fin 2) := grown.undisturbed_clone (k := k) (.inr alone)
  refine ⟨fun turns => ?_, fun turns out ended k l different => ?_, fun calls v => ?_⟩
  · simp only [Machine.withClone, (undisturbed _).isSome_converse_turnsOf sound]
    constructor
    · intro ended k
      obtain ⟨out, ended⟩ := Option.isSome_iff_exists.1 ended
      obtain ⟨_, _, _, _, _, _, answered, _⟩ := (undisturbed k).converse sound ended
      exact Option.isSome_of_mem answered
    · exact fun answered => sound.isSome_converse fun turn _ =>
        ⟨_, undisturbed turn.1, answered turn.1⟩
  · obtain ⟨_, _, pair, c, session, undisturbed', _⟩ := (undisturbed k).converse sound ended
    rw [session]
    exact ⟨pair k, pair l, Session.getElem?_ofPair pair c k, Session.getElem?_ofPair pair c l,
      undisturbed'.not_reaches different⟩
  · exact (grown.twins_clone alone).impression_eq calls v

/-- It is enough to look at all bindings. -/
theorem Store.closuresStandAlone_of_frames {s : Store}
    (check : ∀ f ∈ s.frames.toList, ∀ e ∈ f.bindings.entries,
      e.2.homes = [] ∨ e.2.typeName ≠ "list") (root : Nat) : s.ClosuresStandAlone root := by
  intro i n xs _ bound
  obtain ⟨f, found, bound⟩ := Option.bind_eq_some_iff.1 bound
  rcases check f (Array.mem_toList_iff.2 (Array.mem_of_getElem? found)) (n, .list xs)
    (NameMap.mem_entries_of_find? bound) with none | other
  · exact none
  · exact absurd rfl other

/-- A closure that remembers a scope of its own, cloned along with that scope: its answer is
the old one after the original has changed a name. -/
theorem closure_with_its_scope_cloned :
    let settings := { Settings.standard .words with lexical := true, cacheCapacity := 0 }
    let history : List Call :=
      [⟨20, "(var x true) (var g ((closure (n) (closure () (and n x))) x))"⟩]
    let turns : List (Fin 2 × Call) := [(0, ⟨20, "(var x false)"⟩), (1, ⟨20, "(g)"⟩)]
    ∃ answers m out, Machine.answerAll history (Machine.create settings ∅) = some (answers, m) ∧
      m.commons.store.ClosuresStandAlone m.interpreter.global ∧
      m.withClone.converse turns = some out ∧
      (Session.side 1 out.1).map (Answer.printed .words) = [.ok [.ok "true"]] ∧
      out.2.Separate ∧
      ∀ v k, (m.withClone.converse (Session.turnsOf k turns)).map (Session.impression v k) =
        some (Session.impression v k out) := by
  intro settings history turns
  have ends : (Machine.answerAll history (Machine.create settings ∅)).isSome = true := by
    decide +kernel
  have plain : ∀ out ∈ Machine.answerAll history (Machine.create settings ∅),
      ∀ f ∈ out.2.commons.store.frames.toList, ∀ e ∈ f.bindings.entries,
        e.2.homes = [] ∨ e.2.typeName ≠ "list" := by
    decide +kernel
  have heard : ((Machine.answerAll history (Machine.create settings ∅)).bind fun out =>
      (out.2.withClone.converse turns).map fun out =>
        (Session.side 1 out.1).map (Answer.printed .words)) = some [.ok [.ok "true"]] := by
    decide +kernel
  obtain ⟨⟨answers, m⟩, ends⟩ := Option.isSome_iff_exists.1 ends
  rw [ends, Option.bind_some] at heard
  obtain ⟨out, ends', heard⟩ := Option.map_eq_some_iff.1 heard
  have standAlone := Store.closuresStandAlone_of_frames (plain _ ends) m.interpreter.global
  obtain ⟨_, _, shown, separate⟩ := clone_is_isolated ends
  exact ⟨answers, m, out, ends, standAlone, ends', heard,
    (separate standAlone).2.1 turns out ends',
    fun v k => shown turns out ends' k (.inr standAlone) v⟩

/-- The record that a definition answers holds the closure, and it is not moved over: what the
clone gets from it depends on what its original does later. -/
theorem closure_in_list_sees_the_original :
    let settings := { Settings.standard .words with lexical := true, cacheCapacity := 0 }
    let history : List Call := [⟨20, "(var x true) (var r (var f (closure () x)))"⟩]
    let turns : List (Fin 2 × Call) := [(0, ⟨20, "(var x false)"⟩), (1, ⟨20, "((car (cdr r)))"⟩)]
    let heard (turns : List (Fin 2 × Call)) :=
      (Machine.answerAll history (Machine.create settings ∅)).bind fun out =>
        (out.2.withClone.converse turns).map fun out =>
          (Session.side 1 out.1).map (Answer.printed .words)
    heard turns = some [.ok [.ok "false"]] ∧
      heard (Session.turnsOf 1 turns) = some [.ok [.ok "true"]] := by
  intro settings history turns heard
  constructor <;> decide +kernel

end Argot
