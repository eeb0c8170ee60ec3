import Argot.Proofs.WellScoped

set_option autoImplicit false

/-!
# Binding, looking up and listing

A binding is written into one scope and read from many: it is what a name means wherever the chain
passes that scope, unless a scope further inside binds the name too.  Nothing else changes
(`Store.lookup_bind_of_apart`).  The lists of names say the same as looking each name up, and a copy of a
scope is written to without any other scope noticing.
-/

namespace Argot
namespace Store

variable {s : Store}

/-! ## Chains -/

/-- Every parent is older than its children, as it is when scopes are made one after another. -/
def InOrder (s : Store) : Prop := ∀ i f p, s.frame? i = some f → f.parent = some p → p < i

theorem inOrder_empty : (∅ : Store).InOrder := fun _ _ _ found => nomatch found

theorem InOrder.push (order : s.InOrder) {f : Frame}
    (older : ∀ p, f.parent = some p → p < s.size) : (s.push f).InOrder := by
  intro i g p found link
  rw [frame?_push] at found
  by_cases newest : i = s.size
  · rw [if_pos newest, Option.some.injEq] at found
    subst newest found
    exact older p link
  · rw [if_neg newest] at found
    exact order i g p found link

theorem InOrder.parent?_eq (order : s.InOrder) {i : Nat} {f : Frame}
    (found : s.frame? i = some f) : s.parent? i = f.parent := by
  rw [parent?, found, Option.bind_some]
  cases link : f.parent with
  | none => rfl
  | some p => rw [Option.filter_some, decide_eq_true (order i f p found link), if_pos rfl]

/-- The chain of a scope is where its links lead. -/
theorem InOrder.ascent_chain (order : s.InOrder) {i : Nat} (present : i < s.size) :
    s.Ascent i (s.chain i) := by
  obtain ⟨f, found⟩ := frame?_isSome present
  rw [chain_eq, if_pos present, order.parent?_eq found]
  cases link : f.parent with
  | none => exact .top found link
  | some p =>
    have older := order i f p found link
    exact .step found link (order.ascent_chain (Nat.lt_trans older present))
termination_by i

/-- The members of a chain get older and older. -/
theorem chain_sorted (s : Store) (i : Nat) :
    (s.chain i).Pairwise (· > ·) ∧ ∀ j ∈ s.chain i, j ≤ i := by
  rw [chain_eq]
  split
  · cases parent : s.parent? i with
    | none => simp
    | some p =>
      have older := parent?_lt parent
      obtain ⟨sorted, within⟩ := chain_sorted s p
      have below : ∀ j ∈ s.chain p, j < i := fun j member =>
        Nat.lt_of_le_of_lt (within j member) older
      refine ⟨List.pairwise_cons.2 ⟨below, sorted⟩, List.forall_mem_cons.2 ⟨Nat.le_refl i, ?_⟩⟩
      exact fun j member => Nat.le_of_lt (below j member)
  · simp
termination_by i

/-! ## Looking up what was bound -/

theorem findSome?_congr {α β : Type} {l : List α} {f g : α → Option β}
    (same : ∀ a ∈ l, f a = g a) : l.findSome? f = l.findSome? g := by
  induction l with
  | nil => rfl
  | cons a l ih =>
    obtain ⟨first, rest⟩ := List.forall_mem_cons.1 same
    rw [List.findSome?_cons, List.findSome?_cons, first, ih rest]

section Bind

variable {scope : Nat} (present : scope < s.size) {name : Text} (x : Value) {t : Nat}

include present

/-- The binding is not found under another name, nor from a scope whose chain does not pass it. -/
theorem lookup_bind_of_apart {m : Text} (apart : m ≠ name ∨ scope ∉ s.chain t) :
    (s.bind scope name x).lookup t m = s.lookup t m := by
  rw [lookup_eq_findSome?, chain_bind, lookup_eq_findSome?]
  refine findSome?_congr fun i onChain => ?_
  rw [local?_bind, if_neg]
  rintro ⟨rfl, rfl, -⟩
  exact apart.elim (fun differ => differ rfl) fun absent => absent onChain

variable {inner outer : List Nat} (passes : s.chain t = inner ++ scope :: outer)

include passes

/-- Where a chain passes the scope, the scopes further inside come first. -/
theorem lookup_bind_of_passes : (s.bind scope name x).lookup t name =
    (inner.findSome? fun i => s.local? i name).or (some x) := by
  have sorted := (s.chain_sorted t).1
  rw [passes, List.pairwise_append] at sorted
  have others : inner.findSome? (fun i => (s.bind scope name x).local? i name) =
      inner.findSome? fun i => s.local? i name := by
    refine findSome?_congr fun i further => ?_
    have younger := sorted.2.2 i further scope List.mem_cons_self
    rw [local?_bind, if_neg fun written => Nat.ne_of_gt younger written.1]
  rw [lookup_eq_findSome?, chain_bind, passes, List.findSome?_append, others, List.findSome?_cons,
    local?_bind, if_pos ⟨rfl, rfl, present⟩]

/-- A name that no scope further inside binds means what it was bound to. -/
theorem lookup_bind_of_unbound (free : ∀ i ∈ inner, s.isBound i name = false) :
    (s.bind scope name x).lookup t name = some x := by
  have none : (inner.findSome? fun i => s.local? i name) = none := by
    rw [List.findSome?_eq_none_iff]
    intro i further
    exact Option.isNone_iff_eq_none.1 (Option.isSome_eq_false_iff.1 (free i further))
  rw [lookup_bind_of_passes present x passes, none]
  rfl

/-- A name that a scope further inside binds means what it did. -/
theorem lookup_bind_of_bound {i : Nat} (further : i ∈ inner) (bound : s.isBound i name = true) :
    (s.bind scope name x).lookup t name = s.lookup t name := by
  have found : (inner.findSome? fun i => s.local? i name).isSome = true := by
    rw [List.isSome_findSome?, List.any_eq_true]
    exact ⟨i, further, bound⟩
  obtain ⟨y, found⟩ := Option.isSome_iff_exists.1 found
  rw [lookup_bind_of_passes present x passes, lookup_eq_findSome?, passes, List.findSome?_append,
    found]
  rfl

end Bind

/-! ## Lists of names -/

theorem mem_visibleNames_iff {t : Nat} {m : Text} :
    m ∈ s.visibleNames t ↔ (s.lookup t m).isSome = true := by
  rw [← names_visible, NameMap.mem_names_iff, NameMap.contains, find?_visible]

theorem names_sorted (s : Store) (t : Nat) : (s.names t).Pairwise (· < ·) := by
  unfold names
  cases s.frame? t with
  | none => exact .nil
  | some f => exact f.bindings.names_sorted

/-! ## Copies -/

/-- What is visible from a scope depends on the scopes on its chain only. -/
theorem Untouched.visible {s' : Store} (h : s.Untouched s') {t : Nat} (present : t < s.size) :
    s'.visible t = s.visible t := by
  apply NameMap.ext_find?
  intro m
  rw [find?_visible, find?_visible, h.lookup present]

theorem frame?_duplicate {t : Nat} (present : t < s.size) (i : Nat) :
    (s.duplicate t).frame? i = if i = s.size then s.frame? t else s.frame? i := by
  obtain ⟨f, found⟩ := frame?_isSome present
  rw [duplicate, found]
  exact frame?_push s f i

theorem size_duplicate {t : Nat} (present : t < s.size) : (s.duplicate t).size = s.size + 1 := by
  obtain ⟨f, found⟩ := frame?_isSome present
  rw [duplicate, found]
  exact size_push s f

/-- Writing to a copy touches no scope that was there before. -/
theorem untouched_bind_duplicate {t : Nat} (present : t < s.size) (name : Text) (x : Value) :
    s.Untouched ((s.duplicate t).bind s.size name x) := by
  intro i f found
  have old := Nat.ne_of_lt (frame?_lt found)
  rw [frame?_bind, if_neg old, frame?_duplicate present, if_neg old, found]

/-- Until it is written to, a copy looks like the scope. -/
theorem InOrder.lookup_duplicate (order : s.InOrder) {t : Nat} (present : t < s.size) (m : Text) :
    (s.duplicate t).lookup s.size m = s.lookup t m := by
  obtain ⟨f, found⟩ := frame?_isSome present
  have older : ∀ p, f.parent = some p → p < s.size := fun p link =>
    Nat.lt_trans (order t f p found link) present
  have copied : s.duplicate t = s.push f := by rw [duplicate, found]
  have inside : s.size < (s.push f).size := by
    rw [size_push]
    exact Nat.lt_succ_self _
  have newest : (s.push f).frame? s.size = some f := by rw [frame?_push, if_pos rfl]
  rw [copied, lookup_eq _ inside, lookup_eq s present, local?, local?, newest, found,
    (order.push older).parent?_eq newest, order.parent?_eq found]
  cases link : f.parent with
  | none => rfl
  | some p =>
    rw [Option.bind_some, Option.bind_some, Option.bind_some,
      (untouched_push s f).lookup (older p link)]

end Store

/-- **Binding, looking up and listing agree.**  Take any tree of scopes in a store.

* Binding a name in a scope leaves what every other name means, and what all names mean in a scope
  whose chain does not pass that scope.  Where the chain passes it, the name means what it was bound
  to if no scope further inside binds it, and what it did if one does.
* The visible names are strictly increasing and are those that can be looked up.  The names of a
  scope are strictly increasing and are those that are bound in it.
* Binding a name in a copy of a scope leaves all that is seen from the scopes there were: their
  bindings, what names mean in them and both lists of names.
* When parents are older than their children, as in a store that grows by one scope after another,
  the chain of a scope is where its links lead, and a copy sees what the scope sees but for the name
  that is bound in it. -/
theorem binding_looking_up_and_listing_agree (s : Store) :
    (∀ scope < s.size, ∀ (name : Text) (x : Value) (t : Nat),
      (∀ m, m ≠ name ∨ scope ∉ s.chain t →
        (s.bind scope name x).lookup t m = s.lookup t m) ∧
      ∀ inner outer, s.chain t = inner ++ scope :: outer →
        ((∀ i ∈ inner, s.isBound i name = false) →
          (s.bind scope name x).lookup t name = some x) ∧
        ((∃ i ∈ inner, s.isBound i name = true) →
          (s.bind scope name x).lookup t name = s.lookup t name)) ∧
    (∀ t, (s.visibleNames t).Pairwise (· < ·) ∧
      (∀ m, m ∈ s.visibleNames t ↔ (s.lookup t m).isSome = true) ∧
      (s.names t).Pairwise (· < ·) ∧ ∀ m, m ∈ s.names t ↔ s.isBound t m = true) ∧
    (∀ t < s.size, ∀ (name : Text) (x : Value),
      let written := (s.duplicate t).bind s.size name x
      (s.duplicate t).size = s.size + 1 ∧ (s.duplicate t).frame? s.size = s.frame? t ∧
      ∀ u < s.size, written.frame? u = s.frame? u ∧
        (∀ m, written.lookup u m = s.lookup u m ∧ written.isBound u m = s.isBound u m) ∧
        written.visibleNames u = s.visibleNames u ∧ written.names u = s.names u) ∧
    (s.InOrder → ∀ t < s.size, s.Ascent t (s.chain t) ∧
      ∀ (name m : Text) (x : Value), ((s.duplicate t).bind s.size name x).lookup s.size m =
        if m = name then some x else s.lookup t m) := by
  refine ⟨?_, ?_, ?_, ?_⟩
  · intro scope present name x t
    refine ⟨fun m apart => Store.lookup_bind_of_apart present x apart, ?_⟩
    intro inner outer passes
    refine ⟨Store.lookup_bind_of_unbound present x passes, ?_⟩
    rintro ⟨i, further, bound⟩
    exact Store.lookup_bind_of_bound present x passes further bound
  · intro t
    exact ⟨NameMap.names_sorted _, fun m => Store.mem_visibleNames_iff, s.names_sorted t,
      fun m => (s.isSome_local? t m).symm⟩
  · intro t present name x written
    have untouched := Store.untouched_bind_duplicate present name x
    refine ⟨Store.size_duplicate present, ?_, ?_⟩
    · rw [Store.frame?_duplicate present, if_pos rfl]
    · intro u old
      obtain ⟨f, found⟩ := Store.frame?_isSome old
      have same : written.frame? u = s.frame? u := (untouched u f found).trans found.symm
      refine ⟨same, fun m => ⟨untouched.lookup old m, ?_⟩, ?_, ?_⟩
      · rw [Store.isBound, Store.isBound, Store.local?, Store.local?, same]
      · rw [← Store.names_visible, ← Store.names_visible, untouched.visible old]
      · rw [Store.names, Store.names, same]
  · intro order t present
    refine ⟨order.ascent_chain present, fun name m x => ?_⟩
    have inside : s.size < (s.duplicate t).size := by
      rw [Store.size_duplicate present]
      exact Nat.lt_succ_self _
    rw [Store.lookup_bind_self inside, order.lookup_duplicate present]

/-- Two scopes under a global one and a third inside one of these, which shadows a global name: the
third does not see the name bound anew, and the other scope does. -/
theorem inner_binding_shadows_the_global_one :
    let global : Frame := { Store.globalFrame with
      bindings := NameMap.ofList [("z", .boolean true), ("a", .boolean true)] }
    let child : Frame := { Store.childFrame "child" 0 with
      bindings := NameMap.ofList [("a", .boolean false)] }
    let s := ((((∅ : Store).push global).push child).push (Store.childFrame "inner" 1)).push
      (Store.childFrame "other" 0)
    let s' := s.bind 0 "a" .nil
    s'.lookup 2 "a" = s.lookup 2 "a" ∧ s'.lookup 3 "a" = some .nil ∧
      s'.lookup 3 "z" = s.lookup 3 "z" ∧ Text.ofString "z" ∈ s.visibleNames 2 ∧
      ((s.duplicate 1).bind 4 "z" .nil).lookup 2 "z" = s.lookup 2 "z" ∧
      ((s.duplicate 1).bind 4 "z" .nil).lookup 4 "z" = some .nil := by
  intro global child s s'
  obtain ⟨bound, listed, copied, links⟩ := binding_looking_up_and_listing_agree s
  have under {q n : Nat} (older : q < n) : ∀ p, some q = some p → p < n := by
    rintro p ⟨⟩
    exact older
  have order : s.InOrder :=
    (((Store.inOrder_empty.push (by rintro p ⟨⟩)).push (under (by decide : 0 < 1))).push
      (under (by decide : 1 < 2))).push (under (by decide : 0 < 3))
  refine ⟨?_, ?_, ?_, ?_, ?_, ?_⟩
  · exact ((bound 0 (by decide) "a" .nil 2).2 [2, 1] [] rfl).2 ⟨1, by decide, rfl⟩
  · exact ((bound 0 (by decide) "a" .nil 3).2 [3] [] rfl).1 (by decide)
  · exact (bound 0 (by decide) "a" .nil 3).1 "z" (.inl (by decide))
  · exact ((listed 2).2.1 _).2 rfl
  · exact (((copied 1 (by decide) "z" .nil).2.2 2 (by decide)).2.1 "z").1
  · exact (((links order) 1 (by decide)).2 "z" "z" .nil).trans (if_pos rfl)

end Argot
