import Argot.Proofs.Correspondence

set_option autoImplicit false

/-!
# Other numbers for everything

The numbers of scopes and of registrations stand for identities.  A dictionary whose relation
`written` pairs all scopes that count, those that do not exist yet among them, also says what
closures match that stand behind a quote, or in the body of another closure; a function of the
host may have put them there.  Stores and worlds are relabelled by such a dictionary when they are
the same but for names and numbers.

This is another renaming (`Renaming.relabelled`): evaluations of matching expressions in paired
scopes end alike, in worlds that are relabelled again (`eval_relabels`).  Nothing is asked of the
scopes that closures remember, not even that they exist.
-/

namespace Argot

open Value

/-! ## Stores -/

/-- No scope stands for two. -/
def Pairing.OneToOne (σ : Pairing) : Prop := ∀ {i i' j j'}, σ i i' → σ j j' → (i = j ↔ i' = j')

namespace Store

/-- Paired scopes have paired parents and bind matching values to what the dictionary calls the
same names; they are there in both stores or in none, and the scopes yet to come are paired one
by one. -/
structure Relabels (d : Dictionary) (s s' : Store) : Prop where
  unique : d.written.OneToOne
  present : ∀ {i i'}, d.written i i' → (i < s.size ↔ i' < s'.size)
  fresh : ∀ k, d.written (s.size + k) (s'.size + k)
  parent : ∀ {i i'}, d.written i i' → Option.Rel d.written (s.parent? i) (s'.parent? i')
  binding : ∀ {i i'}, d.written i i' → ∀ n,
    Option.Rel (Matches d d.written) (s.local? i n) (s'.local? i' (d.name n))

namespace Relabels

variable {d : Dictionary} {s s' : Store}

theorem aligned (h : s.Relabels d s') : s.Aligned d.written s' :=
  ⟨h.unique, h.present, h.fresh, h.parent⟩

/-- Names that are called the same mean values that match. -/
theorem lookup (h : s.Relabels d s') {i i' : Nat} (paired : d.written i i') (n : Text) :
    Option.Rel (Matches d d.written) (s.lookup i n) (s'.lookup i' (d.name n)) :=
  h.aligned.lookup h.binding paired n

/-- Binding in paired scopes. -/
theorem bind (h : s.Relabels d s') {i i' : Nat} (paired : d.written i i') (n : Text)
    {x x' : Value} (matching : x.Matches d d.written x') :
    (s.bind i n x).Relabels d (s'.bind i' (d.name n) x') := by
  have bound := h.aligned.bind i i' n (d.name n) x x'
  exact ⟨bound.unique, bound.present, bound.fresh, bound.parent, fun other m =>
    h.aligned.local?_bind paired other n m matching (h.binding other m)⟩

/-- New scopes under paired parents. -/
theorem push (h : s.Relabels d s') {f f' : Frame}
    (parents : Option.Rel d.written f.parent f'.parent)
    (bindings : ∀ n, Option.Rel (Matches d d.written) (f.bindings.find? n)
      (f'.bindings.find? (d.name n))) :
    (s.push f).Relabels d (s'.push f') := by
  have pushed := h.aligned.push parents
  exact ⟨pushed.unique, pushed.present, pushed.fresh, pushed.parent, fun other n =>
    h.aligned.local?_push other (bindings n) (h.binding other n)⟩

end Relabels
end Store

/-! ## Evaluation -/

/-- The stores are relabelled, and the next random numbers are the same. -/
structure World.Relabels (d : Dictionary) (w w' : World) : Prop where
  store : w.store.Relabels d w'.store
  generator : w'.generator = w.generator

/-- The rules differ only in the names of the special forms and in tracing; the functions of the
host that the dictionary knows do not tell matching arguments apart. -/
structure Rules.Relabels (d : Dictionary) (r r' : Rules) : Prop where
  form : ∀ n, r'.vocabulary.form? (d.name n) = r.vocabulary.form? n
  lexical : r'.lexical = r.lexical
  eagerIf : r'.eagerIf = r.eagerIf
  host : ∀ {b b' slot args args'}, d.builtin b b' → b.op = .host slot →
    MatchesAll d d.written args args' →
    Alike d d.written (Matches d d.written) (r.host slot b.name args) (r'.host slot b'.name args')

/-- Relabelling.  The same scopes stand for each other in all stores. -/
def Renaming.relabelled (d : Dictionary) : Renaming d where
  stores := Store.Relabels d
  home _ _ := d.written
  grows _ _ := True
  refl _ := trivial
  trans _ _ := trivial
  more _ _ _ _ := id
  written _ _ _ := id
  lookup stores := stores.lookup
  bind stores paired matching n := stores.bind paired n matching
  grows_bind _ _ _ _ := trivial
  push := by
    intro s s' p p' f f' stores paired parent parent' bindings
    have parents : Option.Rel d.written f.parent f'.parent := by
      rw [parent, parent']
      exact .some paired
    exact ⟨stores.push parents bindings, stores.fresh 0, trivial, trivial⟩

theorem Rules.Relabels.renames {d : Dictionary} {r r' : Rules} (h : r.Relabels d r') :
    r.Renames (.relabelled d) r' :=
  ⟨h.form, h.lexical, h.eagerIf, h.host⟩

/-- **Evaluation does not depend on numbers.**  Under rules that are the same but for names and
numbers, matching expressions are evaluated alike in paired scopes. -/
theorem eval_relabels {d : Dictionary} {r r' : Rules} (rules : r.Relabels d r')
    (fuel depth depth' : Nat) {x x' : Value} (matching : x.Matches d d.written x')
    {w w' : World} (worlds : w.Relabels d w') {scope scope' : Nat}
    (scopes : d.written scope scope') :
    Option.Rel (fun out out' => Alike d d.written (Matches d d.written) out.1 out'.1 ∧
        out.2.Relabels d out'.2)
      (eval r fuel x scope depth w) (eval r' fuel x' scope' depth' w') := by
  let c : (Renaming.relabelled d).Stage := ⟨(w.store, w'.store), worlds.store⟩
  have paired : (Renaming.relabelled d).pairs c scope scope' := scopes
  have ends := eval_renames rules.renames fuel depth depth' matching paired w w' rfl rfl
    worlds.generator
  generalize eval r fuel x scope depth w = out at ends
  generalize eval r' fuel x' scope' depth' w' = out' at ends
  cases ends with
  | none => exact .none
  | some ends => exact .some ⟨ends.answers, ends.stores, ends.generator⟩

end Argot
