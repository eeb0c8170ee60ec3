import Argot.Proofs.Renaming
import Argot.Proofs.Visibility

set_option autoImplicit false

/-!
# Stores that correspond

Two stores correspond under a dictionary and a pairing of scopes when paired scopes have
paired parents and bind what the dictionary calls the same names to values that match.
The pairing also says which scopes that do not exist yet will stand for each other: the
next scope of one store is paired with the next scope of the other, and so on.  Scopes
without a partner may be there in either store; nothing is said about them, and nothing
that is evaluated in a paired scope can see them.

Correspondence is a renaming (`Renaming.paired`), so evaluations of matching expressions in
paired scopes end alike and leave stores behind that correspond again, under the same
pairing (`eval_corresponds`).
-/

namespace Argot

open Value

/-! ## Stores -/

/-- The pairs of scopes that have numbers below the bounds. -/
def Pairing.within (σ : Pairing) (a b : Nat) : Pairing := fun i i' => σ i i' ∧ i < a ∧ i' < b

theorem Pairing.within_mono {σ : Pairing} {a b a₁ b₁ : Nat} (ha : a ≤ a₁) (hb : b ≤ b₁)
    (i i' : Nat) (h : σ.within a b i i') : σ.within a₁ b₁ i i' :=
  ⟨h.1, Nat.lt_of_lt_of_le h.2.1 ha, Nat.lt_of_lt_of_le h.2.2 hb⟩

namespace Store

/-- Scopes have been added, each under a parent, and the links between the old ones are as
they were. -/
structure Grows (s s₁ : Store) : Prop where
  size_le : s.size ≤ s₁.size
  parent_eq : ∀ i, i < s.size → s₁.parent? i = s.parent? i
  parent_new : ∀ i, s.size ≤ i → i < s₁.size → ∃ p, s₁.parent? i = some p

theorem Grows.refl (s : Store) : s.Grows s :=
  ⟨Nat.le_refl _, fun _ _ => rfl, fun _ new old => absurd old (Nat.not_lt.2 new)⟩

theorem Grows.trans {s₁ s₂ s₃ : Store} (h : s₁.Grows s₂) (h' : s₂.Grows s₃) : s₁.Grows s₃ := by
  refine ⟨Nat.le_trans h.size_le h'.size_le, ?_, ?_⟩
  · intro i old
    rw [h'.parent_eq i (Nat.lt_of_lt_of_le old h.size_le), h.parent_eq i old]
  · intro i new there
    by_cases early : i < s₂.size
    · obtain ⟨p, parent⟩ := h.parent_new i new early
      exact ⟨p, (h'.parent_eq i early).trans parent⟩
    · exact h'.parent_new i (Nat.le_of_not_lt early) there

theorem parent?_push (s : Store) (f : Frame) (i : Nat) :
    (s.push f).parent? i = if i = s.size then f.parent.filter (· < i) else s.parent? i := by
  rw [parent?, frame?_push]
  split <;> rfl

theorem local?_push (s : Store) (f : Frame) (i : Nat) (n : Text) :
    (s.push f).local? i n = if i = s.size then f.bindings.find? n else s.local? i n := by
  rw [local?, frame?_push]
  split <;> rfl

theorem grows_push {s : Store} {f : Frame} {p : Nat} (parent : f.parent = some p)
    (older : p < s.size) : s.Grows (s.push f) := by
  refine ⟨?_, ?_, ?_⟩
  · rw [size_push]
    omega
  · intro i old
    rw [parent?_push, if_neg (Nat.ne_of_lt old)]
  · intro i new there
    rw [size_push] at there
    obtain rfl : i = s.size := by omega
    refine ⟨p, ?_⟩
    rw [parent?_push, if_pos rfl, parent, Option.filter_some, decide_eq_true older]
    rfl

theorem grows_bind (s : Store) (scope : Nat) (n : Text) (x : Value) :
    s.Grows (s.bind scope n x) := by
  refine ⟨Nat.le_of_eq (size_bind s scope n x).symm, fun i _ => parent?_bind s scope i n x, ?_⟩
  intro i new there
  rw [size_bind] at there
  omega

/-- Paired scopes have paired parents; pairs of scopes are there in both stores or in none, and
the scopes yet to come are paired one by one. -/
structure Aligned (σ : Pairing) (s s' : Store) : Prop where
  unique : ∀ {i i' j j'}, σ i i' → σ j j' → (i = j ↔ i' = j')
  present : ∀ {i i'}, σ i i' → (i < s.size ↔ i' < s'.size)
  fresh : ∀ k, σ (s.size + k) (s'.size + k)
  parent : ∀ {i i'}, σ i i' → Option.Rel σ (s.parent? i) (s'.parent? i')

/-- A number that no scope has is one from which no name means anything. -/
theorem lookup_eq_none_of_le {s : Store} {scope : Nat} (absent : s.size ≤ scope) (name : Text) :
    s.lookup scope name = none := by
  rw [lookup, lookupUpTo, local?_eq_none_of_le absent, parent?_eq_none_of_le absent]

namespace Aligned

variable {d : Dictionary} {σ : Pairing} {s s' : Store}

/-- The next scopes stand for each other and for no other. -/
theorem newest (h : s.Aligned σ s') {i i' : Nat} (paired : σ i i') :
    i = s.size ↔ i' = s'.size :=
  h.unique paired (h.fresh 0)

/-- If names that are called the same are bound alike in paired scopes, they mean the like from
there. -/
theorem lookup (h : s.Aligned σ s') {R : Value → Value → Prop}
    (binding : ∀ {i i'}, σ i i' → ∀ n, Option.Rel R (s.local? i n) (s'.local? i' (d.name n)))
    {i i' : Nat} (paired : σ i i') (n : Text) :
    Option.Rel R (s.lookup i n) (s'.lookup i' (d.name n)) := by
  have present := h.present paired
  by_cases there : i < s.size
  · rw [lookup_eq s there, lookup_eq s' (present.1 there)]
    have own := binding paired n
    have parents := h.parent paired
    generalize s.local? i n = x at own
    generalize s'.local? i' (d.name n) = x' at own
    generalize s'.parent? i' = p' at parents
    cases own with
    | some related => exact .some related
    | none =>
      cases parent : s.parent? i with
      | none =>
        rw [parent] at parents
        cases parents
        exact .none
      | some p =>
        rw [parent] at parents
        cases parents with
        | some paired' =>
          have older := parent?_lt parent
          exact lookup h binding paired' n
  · have absent := Nat.le_of_not_lt there
    have absent' := Nat.le_of_not_lt fun there' => there (present.2 there')
    rw [lookup_eq_none_of_le absent, lookup_eq_none_of_le absent']
    exact .none
termination_by i

theorem bind (h : s.Aligned σ s') (i i' : Nat) (n n' : Text) (x x' : Value) :
    (s.bind i n x).Aligned σ (s'.bind i' n' x') where
  unique := h.unique
  present := by
    intro j j' other
    rw [size_bind, size_bind]
    exact h.present other
  fresh := by
    intro k
    rw [size_bind, size_bind]
    exact h.fresh k
  parent := by
    intro j j' other
    rw [parent?_bind, parent?_bind]
    exact h.parent other

/-- Binding in paired scopes binds in these and in no others. -/
theorem local?_bind (h : s.Aligned σ s') {i i' j j' : Nat} (paired : σ i i') (other : σ j j')
    (n m : Text) {x x' : Value} {R : Value → Value → Prop} (new : R x x')
    (old : Option.Rel R (s.local? j m) (s'.local? j' (d.name m))) :
    Option.Rel R ((s.bind i n x).local? j m)
      ((s'.bind i' (d.name n) x').local? j' (d.name m)) := by
  have sameScope := h.unique other paired
  have sameName : m = n ↔ d.name m = d.name n := ⟨congrArg d.name, d.name_injective⟩
  have present := h.present paired
  rw [Store.local?_bind, Store.local?_bind]
  by_cases written : j = i ∧ m = n ∧ i < s.size
  · rw [if_pos written,
      if_pos ⟨sameScope.1 written.1, sameName.1 written.2.1, present.1 written.2.2⟩]
    exact .some new
  · rw [if_neg written, if_neg fun all =>
      written ⟨sameScope.2 all.1, sameName.2 all.2.1, present.2 all.2.2⟩]
    exact old

/-- New scopes under paired parents, or both without parent. -/
theorem push (h : s.Aligned σ s') {f f' : Frame} (parents : Option.Rel σ f.parent f'.parent) :
    (s.push f).Aligned σ (s'.push f') where
  unique := h.unique
  present := by
    intro i i' other
    have newest := h.newest other
    have old := h.present other
    rw [size_push, size_push]
    omega
  fresh := by
    intro k
    rw [size_push, size_push, Nat.add_assoc, Nat.add_assoc, Nat.add_comm 1 k]
    exact h.fresh (k + 1)
  parent := by
    intro i i' other
    have newest := h.newest other
    rw [parent?_push, parent?_push]
    by_cases new : i = s.size
    · have new' := newest.1 new
      rw [if_pos new, if_pos new', new, new']
      generalize f.parent = p at parents
      generalize f'.parent = p' at parents
      cases parents with
      | none => exact .none
      | @some p p' paired =>
        -- a link is followed if it leads to an older scope, which is so in both stores or none
        have older := h.present paired
        rw [Option.filter_some, Option.filter_some]
        by_cases there : p < s.size
        · rw [decide_eq_true there, decide_eq_true (older.1 there)]
          exact .some paired
        · rw [decide_eq_false there, decide_eq_false fun there' => there (older.2 there')]
          exact .none
    · rw [if_neg new, if_neg fun new' => new (newest.2 new')]
      exact h.parent other

theorem local?_push (h : s.Aligned σ s') {i i' : Nat} (paired : σ i i') {n n' : Text}
    {f f' : Frame} {R : Value → Value → Prop}
    (new : Option.Rel R (f.bindings.find? n) (f'.bindings.find? n'))
    (old : Option.Rel R (s.local? i n) (s'.local? i' n')) :
    Option.Rel R ((s.push f).local? i n) ((s'.push f').local? i' n') := by
  have newest := h.newest paired
  rw [Store.local?_push, Store.local?_push]
  by_cases last : i = s.size
  · rw [if_pos last, if_pos (newest.1 last)]
    exact new
  · rw [if_neg last, if_neg fun last' => last (newest.2 last')]
    exact old

end Aligned

/-- Paired scopes have paired parents and bind matching values to what the dictionary
calls the same names; pairs of scopes are there in both stores or in none, and the scopes
yet to come are paired one by one. -/
structure Corresponds (d : Dictionary) (σ : Pairing) (s s' : Store) : Prop where
  unique : ∀ {i i' j j'}, σ i i' → σ j j' → (i = j ↔ i' = j')
  present : ∀ {i i'}, σ i i' → (i < s.size ↔ i' < s'.size)
  fresh : ∀ k, σ (s.size + k) (s'.size + k)
  written : ∀ {i i'}, d.written i i' → σ.within s.size s'.size i i'
  parent : ∀ {i i'}, σ i i' → Option.Rel σ (s.parent? i) (s'.parent? i')
  binding : ∀ {i i'}, σ i i' → ∀ n,
    Option.Rel (Matches d (σ.within s.size s'.size)) (s.local? i n) (s'.local? i' (d.name n))

namespace Corresponds

variable {d : Dictionary} {σ : Pairing} {s s' : Store}

theorem aligned (h : s.Corresponds d σ s') : s.Aligned σ s' :=
  ⟨h.unique, h.present, h.fresh, h.parent⟩

/-- The parents of paired scopes that exist are paired and exist. -/
theorem parent_within (h : s.Corresponds d σ s') {i i' : Nat}
    (paired : σ.within s.size s'.size i i') :
    Option.Rel (σ.within s.size s'.size) (s.parent? i) (s'.parent? i') := by
  have parents := h.parent paired.1
  generalize s'.parent? i' = p' at parents
  cases parent : s.parent? i with
  | none =>
    rw [parent] at parents
    cases parents
    exact .none
  | some p =>
    rw [parent] at parents
    cases parents with
    | some paired' =>
      have older := Nat.lt_trans (parent?_lt parent) paired.2.1
      exact .some ⟨paired', older, (h.present paired').1 older⟩

/-- Names that are called the same mean values that match. -/
theorem lookup (h : s.Corresponds d σ s') {i i' : Nat} (paired : σ i i') (n : Text) :
    Option.Rel (Matches d (σ.within s.size s'.size)) (s.lookup i n)
      (s'.lookup i' (d.name n)) :=
  h.aligned.lookup h.binding paired n

/-- Binding in paired scopes. -/
theorem bind (h : s.Corresponds d σ s') {i i' : Nat} (paired : σ i i') (n : Text) {x x' : Value}
    (matching : x.Matches d (σ.within s.size s'.size) x') :
    (s.bind i n x).Corresponds d σ (s'.bind i' (d.name n) x') := by
  have bound := h.aligned.bind i i' n (d.name n) x x'
  refine ⟨bound.unique, bound.present, bound.fresh, ?_, bound.parent, ?_⟩
  · rw [size_bind, size_bind]
    exact h.written
  · intro j j' other m
    rw [size_bind, size_bind]
    exact h.aligned.local?_bind paired other n m matching (h.binding other m)

/-- New scopes under paired parents, or both without parent. -/
theorem push (h : s.Corresponds d σ s') {f f' : Frame}
    (parents : Option.Rel σ f.parent f'.parent)
    (bindings : ∀ n, Option.Rel (Matches d (σ.within s.size s'.size)) (f.bindings.find? n)
      (f'.bindings.find? (d.name n))) :
    (s.push f).Corresponds d σ (s'.push f') := by
  have pushed := h.aligned.push parents
  have more := @Pairing.within_mono σ _ _ _ _ (Nat.le_succ s.size) (Nat.le_succ s'.size)
  refine ⟨pushed.unique, pushed.present, pushed.fresh, ?_, pushed.parent, ?_⟩
  · intro i i' pair
    rw [size_push, size_push]
    exact more i i' (h.written pair)
  · intro i i' other n
    rw [size_push, size_push]
    exact h.aligned.local?_push other (Matches.mono_option more (bindings n))
      (Matches.mono_option more (h.binding other n))

end Corresponds
end Store

/-! ## Evaluation -/

/-- The stores correspond, and the next random numbers are the same. -/
structure World.Corresponds (d : Dictionary) (σ : Pairing) (w w' : World) : Prop where
  store : w.store.Corresponds d σ w'.store
  generator : w'.generator = w.generator

/-- The rules differ only in the names of the special forms and in tracing; the functions
of the host that the dictionary knows do not tell matching arguments apart. -/
structure Rules.Corresponds (d : Dictionary) (r r' : Rules) : Prop where
  form : ∀ n, r'.vocabulary.form? (d.name n) = r.vocabulary.form? n
  lexical : r'.lexical = r.lexical
  eagerIf : r'.eagerIf = r.eagerIf
  host : ∀ {b b' slot home args args'}, d.builtin b b' → b.op = .host slot →
    MatchesAll d home args args' →
    Alike d home (Matches d home) (r.host slot b.name args) (r'.host slot b'.name args')

/-- Correspondence under a pairing.  The scopes that are paired and there stand for each
other. -/
def Renaming.paired (d : Dictionary) (σ : Pairing) : Renaming d where
  stores := Store.Corresponds d σ
  home s s' := σ.within s.size s'.size
  grows := Store.Grows
  refl := .refl
  trans := .trans
  more grows grows' := Pairing.within_mono grows.size_le grows'.size_le
  written stores _ _ := stores.written
  lookup stores paired := stores.lookup paired.1
  bind stores paired matching n := stores.bind paired.1 n matching
  grows_bind := Store.grows_bind
  push := by
    intro s s' p p' f f' stores paired parent parent' bindings
    have parents : Option.Rel σ f.parent f'.parent := by
      rw [parent, parent']
      exact .some paired.1
    refine ⟨stores.push parents bindings, ⟨stores.fresh 0, ?_, ?_⟩,
      Store.grows_push parent paired.2.1, Store.grows_push parent' paired.2.2⟩
    · rw [Store.size_push]
      exact Nat.lt_succ_self _
    · rw [Store.size_push]
      exact Nat.lt_succ_self _

theorem Rules.Corresponds.renames {d : Dictionary} {r r' : Rules} (h : r.Corresponds d r')
    (σ : Pairing) : r.Renames (.paired d σ) r' :=
  ⟨h.form, h.lexical, h.eagerIf, h.host⟩

/-- **Evaluation does not depend on what things are called.**  Under rules that correspond,
matching expressions are evaluated alike in paired scopes. -/
theorem eval_corresponds {d : Dictionary} {r r' : Rules} (rules : r.Corresponds d r')
    {σ : Pairing} (fuel depth depth' : Nat) {x x' : Value} (matching : x.Matches d d.written x')
    {w w' : World} (worlds : w.Corresponds d σ w') {scope scope' : Nat}
    (scopes : σ.within w.store.size w'.store.size scope scope') :
    Option.Rel (Run.EndsAlike (.paired d σ) w.store w'.store) (eval r fuel x scope depth w)
      (eval r' fuel x' scope' depth' w') := by
  let c : (Renaming.paired d σ).Stage := ⟨(w.store, w'.store), worlds.store⟩
  have paired : (Renaming.paired d σ).pairs c scope scope' := scopes
  exact eval_renames (rules.renames σ) fuel depth depth' matching paired w w' rfl rfl
    worlds.generator

end Argot
