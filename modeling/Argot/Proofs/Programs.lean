import Mathlib.Data.List.Forall2
import Mathlib.Logic.Equiv.Defs
import Argot.Proofs.Correspondence
import Argot.Proofs.Caching

set_option autoImplicit false

/-!
# Programs under other names

Program text is made of lists, quotes and atoms; it holds no closures and no builtins, so
calling its names something else gives text that matches it (`Value.matches_rename`), and
whatever a reader reads is of this kind.

Machines correspond when they evaluate by rules that correspond, in worlds that
correspond.  They stay that way while they evaluate matching expressions one after
another, and their answers are alike.
-/

namespace Argot

/-! ## Program text -/

namespace Value

mutual

/-- Whether a value is a tree of lists and quotes over symbols, numbers, truth values and
strings. -/
def isSource : Value → Bool
  | .quote x => x.isSource
  | .symbol _ | .number _ | .boolean _ | .string _ => true
  | .list xs => allSource xs
  | .nil | .builtin _ | .closure _ _ _ | .scopedLet _ _ => false

/-- Whether all values are such trees. -/
def allSource : List Value → Bool
  | [] => true
  | x :: xs => x.isSource && allSource xs

end

mutual

/-- The value with other names for symbols and builtins, also behind quotes and in
closures. -/
def rename (f : Text → Text) : Value → Value
  | .nil => .nil
  | .quote x => .quote (x.rename f)
  | .symbol n => .symbol (f n)
  | .number x => .number x
  | .boolean b => .boolean b
  | .string s => .string s
  | .list xs => .list (renameAll f xs)
  | .builtin b => .builtin { b with name := f b.name }
  | .closure p b home => .closure (p.rename f) (b.rename f) home
  | .scopedLet p b => .scopedLet (p.rename f) (b.rename f)

/-- All values with other names. -/
def renameAll (f : Text → Text) : List Value → List Value
  | [] => []
  | x :: xs => x.rename f :: renameAll f xs

end

theorem renameAll_eq_map (f : Text → Text) (xs : List Value) :
    renameAll f xs = xs.map (rename f) := by
  induction xs with
  | nil => rfl
  | cons x xs ih => rw [renameAll, ih, List.map_cons]

theorem allSource_iff {xs : List Value} : allSource xs = true ↔ ∀ x ∈ xs, x.isSource = true := by
  induction xs with
  | nil => simp [allSource]
  | cons x xs ih => simp [allSource, ih]

mutual

/-- Program text matches itself under other names. -/
theorem matches_rename (d : Dictionary) (home : Pairing) :
    (x : Value) → x.isSource = true → x.Matches d home (x.rename d.name)
  | .quote x, source => .quote (matches_rename d d.written x source)
  | .symbol n, _ => .symbol n
  | .number x, _ => .number x
  | .boolean b, _ => .boolean b
  | .string s, _ => .string s
  | .list xs, source => .list (matchesAll_rename d home xs source)

theorem matchesAll_rename (d : Dictionary) (home : Pairing) :
    (xs : List Value) → allSource xs = true → MatchesAll d home xs (renameAll d.name xs)
  | [], _ => .nil
  | x :: xs, source =>
    .cons (matches_rename d home x (Bool.and_eq_true_iff.1 source).1)
      (matchesAll_rename d home xs (Bool.and_eq_true_iff.1 source).2)

end

end Value

open Value

/-! ## What is read is program text -/

/-- A property of all program text: atoms have it, and so do quotes and lists of what has
it. -/
structure Value.Textual (v : Vocabulary) (P : Value → Prop) : Prop where
  atom : ∀ tok, P (readAtom v tok)
  quote : ∀ {x}, P x → P (.quote x)
  list : ∀ {xs}, (∀ x ∈ xs, P x) → P (.list xs)

/-- The items that wait for more have the property. -/
def Pending.Holds (P : Value → Prop) : Pending → Prop
  | .list items => ∀ x ∈ items, P x
  | .quote => True

/-- Everything that has been read has the property. -/
def ReadStep.Holds (P : Value → Prop) : ReadStep → Prop
  | .shift stack => ∀ pending ∈ stack, pending.Holds P
  | .emit form => P form
  | .fail _ => True

section Reading

variable {v : Vocabulary} {P : Value → Prop} (textual : Value.Textual v P)

include textual

theorem holds_deliver {form : Value} {stack : List Pending} (has : P form)
    (pending : ∀ p ∈ stack, p.Holds P) : (deliver form stack).Holds P := by
  induction stack generalizing form with
  | nil => exact has
  | cons innermost stack ih =>
    obtain ⟨inner, outer⟩ := List.forall_mem_cons.1 pending
    cases innermost with
    | quote => exact ih (textual.quote has) outer
    | list items => exact List.forall_mem_cons.2 ⟨List.forall_mem_cons.2 ⟨has, inner⟩, outer⟩

theorem holds_startForm {stack : List Pending} (tok : Text) (pending : ∀ p ∈ stack, p.Holds P) :
    (startForm v stack tok).Holds P := by
  unfold startForm
  split
  · exact List.forall_mem_cons.2 ⟨fun _ member => absurd member List.not_mem_nil, pending⟩
  split
  · exact List.forall_mem_cons.2 ⟨trivial, pending⟩
  split
  · trivial
  · exact holds_deliver textual (textual.atom tok) pending

theorem holds_readToken {stack : List Pending} (tok : Text) (pending : ∀ p ∈ stack, p.Holds P) :
    (readToken v stack tok).Holds P := by
  unfold readToken
  split
  · rename_i items outer
    obtain ⟨inner, rest⟩ := List.forall_mem_cons.1 pending
    split
    · refine holds_deliver textual (textual.list ?_) rest
      exact fun x member => inner x (List.mem_reverse.1 member)
    · exact holds_startForm textual tok pending
  · exact holds_startForm textual tok pending

/-- Every form that is read has the property, whatever comes after it. -/
theorem holds_readAllFrom {stack : List Pending} {tokens : List Text}
    (pending : ∀ p ∈ stack, p.Holds P) {x : Value} (read : .ok x ∈ readAllFrom v stack tokens) :
    P x := by
  induction tokens generalizing stack with
  | nil =>
    unfold readAllFrom at read
    split at read <;> simp at read
  | cons tok rest ih =>
    have step := holds_readToken textual tok pending
    unfold readAllFrom at read
    split at read
    · rename_i stack' shifted
      rw [shifted] at step
      exact ih step read
    · rename_i form emitted
      rw [emitted] at step
      rcases List.mem_cons.1 read with here | later
      · exact Except.ok.inj here ▸ step
      · exact ih (fun _ member => absurd member List.not_mem_nil) later
    · simp at read

end Reading

theorem mem_of_allForms {entries : List (Except ReadError Value)} {xs : List Value}
    (read : allForms entries = .ok xs) : ∀ x ∈ xs, .ok x ∈ entries := by
  induction entries generalizing xs with
  | nil =>
    cases read
    exact fun _ member => absurd member List.not_mem_nil
  | cons entry rest ih =>
    cases entry with
    | error e => cases read
    | ok y =>
      cases others : allForms rest with
      | error e =>
        rw [allForms, others] at read
        cases read
      | ok ys =>
        rw [allForms, others] at read
        cases read
        intro x member
        rcases List.mem_cons.1 member with rfl | later
        · exact List.mem_cons_self
        · exact List.mem_cons_of_mem _ (ih others x later)

/-- The forms of a text have every property of program text. -/
theorem Value.Textual.forms {v : Vocabulary} {P : Value → Prop} (textual : Value.Textual v P)
    {text : Text} {xs : List Value} (read : readText v text = .ok xs) : ∀ x ∈ xs, P x := by
  unfold readText at read
  dsimp only at read
  split at read
  · cases read
  · split at read
    · rename_i forms all
      cases read
      intro x member
      exact holds_readAllFrom textual (fun _ member => absurd member List.not_mem_nil)
        (mem_of_allForms all x member)
    · cases read

theorem isSource_readAtom (v : Vocabulary) (tok : Text) : (readAtom v tok).isSource = true := by
  unfold readAtom
  split
  · rfl
  · split
    · rfl
    · split <;> rfl

theorem allSource_of_readText {v : Vocabulary} {text : Text} {xs : List Value}
    (read : readText v text = .ok xs) : allSource xs = true := by
  have textual : Value.Textual v fun x => x.isSource = true :=
    ⟨isSource_readAtom v, fun has => has, fun has => allSource_iff.2 has⟩
  exact allSource_iff.2 (textual.forms read)

/-! ## Machines -/

namespace Machine

variable {d : Dictionary} {σ : Pairing}

/-- The rules and the worlds of the machines correspond. -/
structure Corresponds (d : Dictionary) (σ : Pairing) (m m' : Machine) : Prop where
  rules : m.interpreter.rules.Corresponds d m'.interpreter.rules
  world : m.world.Corresponds d σ m'.world

/-- The pairs of scopes that the machines have. -/
def pairs (σ : Pairing) (m m' : Machine) : Pairing :=
  σ.within m.commons.store.size m'.commons.store.size

/-- Neither machine has an answer, or both have and correspond again.  `R` relates the
answers, given which scopes are paired and there. -/
inductive Ended {α : Type} (d : Dictionary) (σ : Pairing) (R : Pairing → α → α → Prop)
    (m m' : Machine) : Option (α × Machine) → Option (α × Machine) → Prop where
  | exhausted : Ended d σ R m m' none none
  | ended {x x' : α} {n n' : Machine} (machines : n.Corresponds d σ n')
      (grows : m.commons.store.Grows n.commons.store)
      (grows' : m'.commons.store.Grows n'.commons.store) (answers : R (pairs σ n n') x x') :
      Ended d σ R m m' (some (x, n)) (some (x', n'))

/-- The results of the forms are alike, one by one. -/
def OutcomesAlike (d : Dictionary) (home : Pairing) : List Outcome → List Outcome → Prop :=
  List.Forall₂ (Alike d home (Matches d home))

theorem eval_corresponds {m m' : Machine} (machines : m.Corresponds d σ m') (fuel : Nat)
    {x x' : Value} (matching : x.Matches d d.written x') {scope scope' : Nat}
    (scopes : pairs σ m m' scope scope') :
    Ended d σ (fun home => Alike d home (Matches d home)) m m' (eval fuel x scope m)
      (eval fuel x' scope' m') := by
  have evaluated := Argot.eval_corresponds machines.rules fuel 0 0 matching machines.world scopes
  rw [eval_apply, eval_apply]
  generalize Argot.eval m.interpreter.rules fuel x scope 0 m.world = out at evaluated
  generalize Argot.eval m'.interpreter.rules fuel x' scope' 0 m'.world = out' at evaluated
  cases evaluated with
  | none => exact .exhausted
  | some ends =>
    exact .ended ⟨machines.rules, ends.stores, ends.generator⟩ ends.grows ends.grows' ends.answers

theorem evalAll_corresponds {m m' : Machine} (machines : m.Corresponds d σ m') (fuel : Nat)
    {xs xs' : List Value} (matching : MatchesAll d d.written xs xs') {scope scope' : Nat}
    (scopes : pairs σ m m' scope scope') :
    Ended d σ (OutcomesAlike d) m m' (evalAll fuel scope xs m) (evalAll fuel scope' xs' m') := by
  induction xs generalizing xs' m m' with
  | nil =>
    cases matching
    exact .ended machines (.refl _) (.refl _) .nil
  | cons x xs ih =>
    rcases matching with _ | ⟨first, rest⟩
    have head := eval_corresponds machines fuel first scopes
    rw [evalAll_cons, evalAll_cons]
    generalize eval fuel x scope m = out at head
    generalize eval fuel _ scope' m' = out' at head
    cases head with
    | exhausted => exact .exhausted
    | @ended y y' n n' machines₁ grows grows' alike =>
      -- the scopes are paired still: stores only grow
      have tail := ih machines₁ rest
        (Pairing.within_mono grows.size_le grows'.size_le _ _ scopes)
      simp only [Option.bind_some]
      generalize evalAll fuel scope xs n = outs at tail
      generalize evalAll fuel scope' _ n' = outs' at tail
      cases tail with
      | exhausted => exact .exhausted
      | ended machines₂ more more' others =>
        have still := alike.mono (Pairing.within_mono more.size_le more'.size_le)
        exact .ended machines₂ (grows.trans more) (grows'.trans more') (.cons still others)

end Machine

/-! ## Fresh machines -/

/-- Names are called what the permutation says; all builtins but functions of the host are
known, by their new names, and program text mentions no scopes. -/
def Dictionary.renaming (r : Equiv.Perm Text) : Dictionary where
  name := r
  name_injective same := r.injective same
  builtin b b' := b' = { b with name := r b.name } ∧ ∀ slot, b.op ≠ .host slot
  builtin_name same := by rw [same.1]
  builtin_op same := by rw [same.1]
  builtin_unique := by
    rintro ⟨registration, name, op⟩ _ ⟨registration', name', op'⟩ _ ⟨rfl, _⟩ ⟨rfl, _⟩
    simp only [Builtin.mk.injEq, r.injective.eq_iff]
  written _ _ := False

/-- Every scope from a number on stands for itself. -/
def Pairing.since (first : Nat) : Pairing := fun i i' => i' = i ∧ first ≤ i

/-- Any store corresponds to itself if all that counts is yet to come. -/
theorem Store.corresponds_since (r : Equiv.Perm Text) (s : Store) :
    s.Corresponds (.renaming r) (.since s.size) s where
  unique := by
    rintro i _ j _ ⟨rfl, _⟩ ⟨rfl, _⟩
    rfl
  present := by
    rintro i _ ⟨rfl, _⟩
    rfl
  fresh k := ⟨rfl, Nat.le_add_right _ k⟩
  written := False.elim
  parent := by
    rintro i _ ⟨rfl, new⟩
    rw [parent?_eq_none_of_le new]
    exact .none
  binding := by
    rintro i _ ⟨rfl, new⟩ n
    rw [local?_eq_none_of_le new, local?_eq_none_of_le new]
    exact .none

/-- The roles that name special forms and builtins. -/
def Role.callable : List Role :=
  [.ifForm, .varForm, .closureForm, .letForm, .andName, .orName, .notName, .carName, .cdrName,
    .randomName]

/-- The permutation takes the names that one vocabulary gives to special forms and builtins
to those that another one gives them, and it keeps the arithmetic names. -/
structure Respells (r : Equiv.Perm Text) (v w : Vocabulary) : Prop where
  token : ∀ role ∈ Role.callable, r (v.token role) = w.token role
  arithmetic : ∀ n ∈ Vocabulary.arithmetic, r n = n

theorem Respells.refl (v : Vocabulary) : Respells (Equiv.refl Text) v v :=
  ⟨fun _ _ => rfl, fun _ _ => rfl⟩

namespace NameMap

/-- Calling the names of a list something else does not change what is found. -/
theorem find?_ofList_map {α : Type} {f : Text → Text} (injective : ∀ {m n}, f m = f n → m = n)
    (entries : List (Text × α)) (n : Text) :
    (ofList (entries.map (Prod.map f id))).find? (f n) = (ofList entries).find? n := by
  have filled : ∀ m m' : NameMap α, (∀ n, m'.find? (f n) = m.find? n) →
      ((entries.map (Prod.map f id)).foldl (fun m e => m.insert e.1 e.2) m').find? (f n) =
        (entries.foldl (fun m e => m.insert e.1 e.2) m).find? n := by
    induction entries with
    | nil => exact fun m m' before => before n
    | cons e rest ih =>
      intro m m' before
      refine ih _ _ fun n => ?_
      rw [find?_insert, find?_insert, before n]
      exact if_congr ⟨injective, congrArg f⟩ rfl rfl
  exact filled ∅ ∅ fun _ => rfl

end NameMap

section Spellings

variable {r : Equiv.Perm Text} {v w : Vocabulary}

/-- The same special forms, under other names. -/
theorem Respells.form? (spelling : Respells r v w) (n : Text) : w.form? (r n) = v.form? n := by
  have tokens := spelling.token
  simp only [Role.callable, List.forall_mem_cons, Vocabulary.token] at tokens
  obtain ⟨choice, definition, abstraction, block, _⟩ := tokens
  unfold Vocabulary.form?
  rw [← choice, ← definition, ← abstraction, ← block]
  simp only [r.injective.eq_iff]

/-- The same builtins, under other names. -/
theorem Respells.primitives (spelling : Respells r v w) (n : Text) :
    w.primitives.find? (r n) = v.primitives.find? n := by
  have tokens := spelling.token
  have signs := spelling.arithmetic
  simp only [Role.callable, List.forall_mem_cons, Vocabulary.token] at tokens
  simp only [Vocabulary.arithmetic, List.forall_mem_cons] at signs
  obtain ⟨_, _, _, _, conjunction, disjunction, negation, first, rest, random, _⟩ := tokens
  obtain ⟨add, sub, mul, div, mod, equal, less, greater, _⟩ := signs
  unfold Vocabulary.primitives
  refine Eq.trans ?_ (NameMap.find?_ofList_map (fun same => r.injective same) _ n)
  simp only [List.map_cons, List.map_nil, Prod.map_apply, id_eq, add, sub, mul, div, mod, equal,
    less, greater, conjunction, disjunction, negation, first, rest, random]

theorem Vocabulary.primitives_ne_host {n : Text} {op : Primitive}
    (found : v.primitives.find? n = some op) (slot : Nat) : op ≠ .host slot := by
  rintro rfl
  have member := NameMap.find?_ofList_eq_some found
  simp at member

/-- The rules of an interpreter in another vocabulary. -/
theorem Respells.rules (spelling : Respells r v w) {i i' : Interpreter}
    (vocabulary : i.vocabulary = v) (vocabulary' : i'.vocabulary = w)
    (lexical : i'.lexical = i.lexical) (eagerIf : i'.eagerIf = i.eagerIf) :
    i.rules.Corresponds (.renaming r) i'.rules where
  form n := by
    show i'.vocabulary.form? (r n) = i.vocabulary.form? n
    rw [vocabulary, vocabulary', spelling.form?]
  lexical := lexical
  eagerIf := eagerIf
  host := by
    intro b b' slot home args args' same isHost
    exact absurd isHost (same.2 slot)

variable {σ : Pairing}

/-- Global scopes with the same builtins under other names, and under registrations of the
same number. -/
theorem Store.Corresponds.pushGlobal {s s' : Store} (h : s.Corresponds (.renaming r) σ s')
    (registrations : s'.registrations = s.registrations) (spelling : Respells r v w) :
    (s.pushGlobal v.primitives).Corresponds (.renaming r) σ (s'.pushGlobal w.primitives) := by
  -- a registration counts up and touches no scope
  have registered : Store.Corresponds (.renaming r) σ s.register.2 s'.register.2 :=
    ⟨h.unique, h.present, h.fresh, h.written, h.parent, h.binding⟩
  refine registered.push .none fun n => ?_
  show Option.Rel _ ((Argot.registered s.registrations v.primitives).find? n)
    ((Argot.registered s'.registrations w.primitives).find? (r n))
  rw [Argot.registered, Argot.registered, NameMap.find?_map, NameMap.find?_map,
    spelling.primitives, registrations]
  cases found : v.primitives.find? n with
  | none => exact .none
  | some op => exact .some (.builtin ⟨rfl, Vocabulary.primitives_ne_host found⟩)

/-- New machines correspond that differ only in their vocabularies. -/
theorem Machine.create_corresponds (spelling : Respells r v w) (settings : Settings)
    {c c' : Commons} (stores : c.store.Corresponds (.renaming r) σ c'.store)
    (registrations : c'.store.registrations = c.store.registrations) :
    (create { settings with vocabulary := v } c).Corresponds (.renaming r) σ
      (create { settings with vocabulary := w } c') where
  rules := spelling.rules rfl rfl rfl rfl
  world := ⟨stores.pushGlobal registrations spelling, rfl⟩

end Spellings
end Argot
