import Mathlib.Data.Finset.Card
import Mathlib.Tactic.Choose
import Argot.Proofs.FaithfulCopies

set_option autoImplicit false

/-!
# Copying scope by scope

An interpreter is cloned with copies of all scopes below its global scope at once.  The same
can be done with a tour of the scopes that starts at the copy of the root, with no list of
what to copy (`Store.tour`).  The tour goes through the bindings of a copy, in any order; it
goes to the scope that a closure remembers, up from there to see whether the links come past
the root, and makes a copy on the way back if they do.  A table says where scopes have been
found to be.

A scope gets into the table only after everything above it, and through a closure that is
bound above one may come to it a second time in between.  Then it is copied twice.  The tour
ends all the same: on the way up the path gets shorter, and before it goes down again there is
one more scope in the table.  What it has made at the end is a faithful copy, and is the copy
that cloning makes, if copies of the same scope are taken as one
(`cloning_copies_the_scopes_faithfully`).
-/

namespace Argot

/-! ## The tour -/

/-- The store with the copies that there are, and where scopes have been found to be, latest
first. -/
structure Tour where
  store : Store
  table : List (Nat × Nat)

namespace Tour

/-- A way to get from a scope to where it is after copying. -/
abbrev Visit : Type := Nat → Tour → Option (Nat × Tour)

/-- The order in which to go through the bindings of each copy. -/
abbrev Order : Type := Nat → List (Text × Value) → List (Text × Value)

/-- Notes where a scope is. -/
def note (i i' : Nat) (w : Tour) : Tour := { w with table := (i, i') :: w.table }

/-- Adds a copy of a scope and notes it. -/
def copy (i : Nat) (f : Frame) (w : Tour) : Tour := ⟨w.store.push f, (i, w.store.size) :: w.table⟩

/-- Binds a name in a copy. -/
def bind (n : Nat) (name : Text) (x : Value) (w : Tour) : Tour :=
  { w with store := w.store.bind n name x }

/-- Moves a value: a closure remembers the scope that its scope has become. -/
def value (visit : Visit) (x : Value) (w : Tour) : Option (Value × Tour) :=
  match x.home? with
  | none => some (x, w)
  | some h => (visit h w).map fun (h', w) => (x.rehome fun _ => h', w)

/-- Moves values and binds them in a copy, one after another. -/
def entries (visit : Visit) (n : Nat) : List (Text × Value) → Tour → Option Tour
  | [], w => some w
  | (name, x) :: rest, w =>
    (value visit x w).bind fun (y, w) => entries visit n rest (w.bind n name y)

/-- Finds out where a scope is after copying.  If it is not in the table, its parent is looked
for first; where that stays in its place, so does the scope. -/
def scope (order : Order) : (fuel : Nat) → Visit
  | 0, _, _ => none
  | fuel + 1, i, w =>
    match w.table.lookup i with
    | some i' => some (i', w)
    | none =>
      (w.store.frame? i).bind fun f =>
        match f.parent with
        | none => some (i, w.note i i)
        | some p =>
          (scope order fuel p w).bind fun (p', w) =>
            if p' = p then some (i, w.note i i)
            else
              let n := w.store.size
              (entries (scope order fuel) n (order n f.bindings.entries)
                (w.copy i { f with parent := some p' })).map (n, ·)

end Tour

/-- Copies the root, and with it whatever has to be copied.  The copy of the root is the first
one. -/
def Store.tour (order : Tour.Order) (fuel : Nat) (s : Store) (root : Nat) : Option Store :=
  (s.frame? root).bind fun f =>
    (Tour.entries (Tour.scope order fuel) s.size (order s.size f.bindings.entries)
      (Tour.copy root f ⟨s, []⟩)).map Tour.store

namespace Tour

/-! ## More fuel -/

section Fuel

variable {visit visit' : Visit}

theorem value_mono (more : ∀ h w out, visit h w = some out → visit' h w = some out) {x : Value}
    {w : Tour} {out : Value × Tour} (ends : value visit x w = some out) :
    value visit' x w = some out := by
  unfold value at ends ⊢
  cases remembered : x.home? with
  | none =>
    rw [remembered] at ends
    exact ends
  | some h =>
    rw [remembered] at ends
    obtain ⟨found, arrived, rfl⟩ := Option.map_eq_some_iff.1 ends
    simp only [more h w found arrived, Option.map_some]

theorem entries_mono (more : ∀ h w out, visit h w = some out → visit' h w = some out) {n : Nat}
    {list : List (Text × Value)} {w out : Tour} (ends : entries visit n list w = some out) :
    entries visit' n list w = some out := by
  induction list generalizing w with
  | nil => exact ends
  | cons entry rest ih =>
    obtain ⟨name, x⟩ := entry
    obtain ⟨⟨y, w₁⟩, moved, later⟩ := Option.bind_eq_some_iff.1 ends
    exact Option.bind_eq_some_iff.2 ⟨(y, w₁), value_mono more moved, ih later⟩

theorem scope_succ (order : Order) (fuel : Nat) {i : Nat} {w : Tour} {out : Nat × Tour}
    (ends : scope order fuel i w = some out) : scope order (fuel + 1) i w = some out := by
  induction fuel generalizing i w out with
  | zero => cases ends
  | succ fuel ih =>
    rw [scope] at ends ⊢
    cases known : w.table.lookup i with
    | some i' =>
      rw [known] at ends
      exact ends
    | none =>
      simp only [known] at ends ⊢
      obtain ⟨f, found, ends⟩ := Option.bind_eq_some_iff.1 ends
      refine Option.bind_eq_some_iff.2 ⟨f, found, ?_⟩
      cases link : f.parent with
      | none =>
        rw [link] at ends
        exact ends
      | some p =>
        simp only [link] at ends ⊢
        obtain ⟨⟨p', w₁⟩, above, ends⟩ := Option.bind_eq_some_iff.1 ends
        refine Option.bind_eq_some_iff.2 ⟨(p', w₁), ih above, ?_⟩
        split at ends
        · rename_i stays
          rw [if_pos stays]
          exact ends
        · rename_i moves
          rw [if_neg moves]
          obtain ⟨w₂, through, rfl⟩ := Option.map_eq_some_iff.1 ends
          exact Option.map_eq_some_iff.2 ⟨w₂, entries_mono (fun _ _ _ => ih) through, rfl⟩

/-- What has been found with some fuel is found with more. -/
theorem scope_of_le (order : Order) {fuel fuel' : Nat} (more : fuel ≤ fuel') {i : Nat} {w : Tour}
    {out : Nat × Tour} (ends : scope order fuel i w = some out) :
    scope order fuel' i w = some out := by
  induction more with
  | refl => exact ends
  | step _ ih => exact scope_succ order _ ih

end Fuel

/-! ## The table while it is filled -/

/-- The copies that have been noted, of whatever scope. -/
def made (s : Store) (w : Tour) : Nat → Nat → Prop := fun i n => s.size ≤ n ∧ (i, n) ∈ w.table

/-- How many scopes are not in the table. -/
def unmet (s : Store) (w : Tour) : Nat :=
  ((Finset.range s.size).filter fun i => w.table.lookup i = none).card

/-- All copies but for pending bindings are as they should be, every scope is where the table
says, and every new scope is a copy. -/
structure UnderWay (s : Store) (root : Nat) (pending : Nat → Text → Prop) (w : Tour) : Prop where
  copied : s.Copied root pending (w.made s) w.store s.size
  noted : ∀ i i', (i, i') ∈ w.table → s.Moves root (w.made s) i i'
  covered : ∀ n, s.size ≤ n → n < w.store.size → ∃ i, w.made s i n

section Table

variable {s : Store} {root i : Nat} {w w' : Tour}

theorem lookup_eq_none_iff : w.table.lookup i = none ↔ ∀ i', (i, i') ∉ w.table := by
  rw [List.lookup_eq_none_iff]
  constructor
  · intro absent i' member
    simpa using absent (i, i') member
  · rintro absent ⟨j, j'⟩ member
    refine bne_iff_ne.2 ?_
    rintro rfl
    exact absent j' member

theorem mem_of_lookup {i' : Nat} (known : w.table.lookup i = some i') : (i, i') ∈ w.table := by
  obtain ⟨before, after, whole, _⟩ := List.lookup_eq_some_iff.1 known
  rw [whole]
  exact List.mem_append_right _ List.mem_cons_self

theorem made_mono (grown : w.table <:+ w'.table) {n : Nat} (made : w.made s i n) :
    w'.made s i n :=
  ⟨made.1, grown.subset made.2⟩

theorem moves_mono (grown : w.table <:+ w'.table) {i' : Nat}
    (moves : s.Moves root (w.made s) i i') : s.Moves root (w'.made s) i i' :=
  moves.imp id (made_mono grown)

/-- A scope in the table stays there. -/
theorem unmet_subset (grown : w.table <:+ w'.table) :
    ((Finset.range s.size).filter fun i => w'.table.lookup i = none) ⊆
      (Finset.range s.size).filter fun i => w.table.lookup i = none := by
  intro j member
  rw [Finset.mem_filter, lookup_eq_none_iff] at member ⊢
  exact ⟨member.1, fun j' known => member.2 j' (grown.subset known)⟩

theorem unmet_le (grown : w.table <:+ w'.table) : w'.unmet s ≤ w.unmet s :=
  Finset.card_le_card (unmet_subset grown)

/-- A scope that has come into the table is no longer counted. -/
theorem unmet_lt (grown : w.table <:+ w'.table) (present : i < s.size)
    (before : w.table.lookup i = none) {i' : Nat} (after : (i, i') ∈ w'.table) :
    w'.unmet s < w.unmet s := by
  refine Finset.card_lt_card
    ((Finset.ssubset_iff_of_subset (unmet_subset grown)).2 ⟨i, ?_, ?_⟩)
  · exact Finset.mem_filter.2 ⟨Finset.mem_range.2 present, before⟩
  · intro member
    exact lookup_eq_none_iff.1 (Finset.mem_filter.1 member).2 i' after

end Table

section Steps

variable {s : Store} {root i n : Nat} {w : Tour} {pending pending' : Nat → Text → Prop}
  {f : Frame}

theorem UnderWay.lt (h : UnderWay s root pending w) (made : w.made s i n) : n < w.store.size := by
  obtain ⟨_, _, _, found, _⟩ := h.copied.frame i n made
  exact Store.frame?_lt found

/-- Binding a moved value in a copy settles the binding. -/
theorem UnderWay.bind (h : UnderWay s root pending w) (made : w.made s i n)
    (found : s.frame? i = some f) {name : Text} {x y : Value}
    (bound : f.bindings.find? name = some x) (moved : x.Rehomed (s.Moves root (w.made s)) y)
    (left : ∀ m k, pending m k → ¬ (m = n ∧ k = name) → pending' m k) :
    UnderWay s root pending' (w.bind n name y) where
  copied :=
    { h.copied with
      untouched := by
        intro j g old
        have other : j ≠ n := Nat.ne_of_lt (Nat.lt_of_lt_of_le (Store.frame?_lt old) made.1)
        rw [Tour.bind, Store.frame?_bind, if_neg other]
        exact h.copied.untouched j g old
      frame := by
        intro j m made'
        obtain ⟨g, g', here, there, moved'⟩ := h.copied.frame j m made'
        rw [Tour.bind, Store.frame?_bind, there]
        by_cases same : m = n
        · subst same
          obtain rfl := h.copied.unique i j m made made'
          obtain rfl := Option.some.inj (found.symm.trans here)
          refine ⟨f, _, found, if_pos rfl, moved'.insert bound moved fun k still other => ?_⟩
          exact left m k still fun settled => other settled.2
        · refine ⟨g, g', here, if_neg same, moved'.mono (fun _ _ => id) fun k still => ?_⟩
          exact left m k still fun settled => same settled.1 }
  noted := h.noted
  covered := by
    intro m new present
    rw [Tour.bind, Store.size_bind] at present
    exact h.covered m new present

/-- Noting that a scope stays in its place makes no copy. -/
theorem made_note (old : i < s.size) : (w.note i i).made s = w.made s := by
  funext j n
  refine propext ⟨fun made => ⟨made.1, ?_⟩, fun made => ⟨made.1, List.mem_cons_of_mem _ made.2⟩⟩
  refine (List.mem_cons.1 made.2).resolve_left fun same => ?_
  cases same
  exact absurd made.1 (Nat.not_le_of_lt old)

theorem UnderWay.note (h : UnderWay s root pending w) (beside : s.Beside root i) :
    UnderWay s root pending (w.note i i) := by
  have made := made_note (w := w) beside.lt_size
  refine ⟨?_, ?_, ?_⟩
  · rw [made]
    exact h.copied
  · rw [made]
    rintro j j' member
    rcases List.mem_cons.1 member with same | known
    · cases same
      exact .inl ⟨rfl, beside⟩
    · exact h.noted j j' known
  · rw [made]
    exact h.covered

/-- A new copy comes to those that there are. -/
theorem made_copy (grown : s.size ≤ w.store.size) {j : Nat} :
    (w.copy i f).made s j n ↔ (j = i ∧ n = w.store.size) ∨ w.made s j n := by
  constructor
  · rintro ⟨new, member⟩
    rcases List.mem_cons.1 member with same | known
    · cases same
      exact .inl ⟨rfl, rfl⟩
    · exact .inr ⟨new, known⟩
  · rintro (⟨rfl, rfl⟩ | ⟨new, known⟩)
    · exact ⟨grown, List.mem_cons_self⟩
    · exact ⟨new, List.mem_cons_of_mem _ known⟩

/-- A copy whose parent has been moved is made, and its bindings are pending. -/
theorem UnderWay.copy (h : UnderWay s root pending w) (reached : s.ReachedFrom [root] i)
    (below : s.Below root i) (other : i ≠ root) (found : s.frame? i = some f) {q : Option Nat}
    (parent : Option.Rel (s.Moves root (w.made s)) f.parent q)
    (weaker : ∀ m k, pending m k → pending' m k)
    (all : ∀ k x, f.bindings.find? k = some x → pending' w.store.size k) :
    UnderWay s root pending' (w.copy i { f with parent := q }) := by
  have grown : s.size ≤ w.store.size := h.copied.untouched.size_le
  have suffix : w.table <:+ (w.copy i { f with parent := q }).table := List.suffix_cons _ _
  have made {j n : Nat} := @made_copy s i n w { f with parent := q } grown j
  exact
    { copied :=
      { untouched := by
          intro j g old
          have earlier : j ≠ w.store.size :=
            Nat.ne_of_lt (Nat.lt_of_lt_of_le (Store.frame?_lt old) grown)
          rw [Tour.copy, Store.frame?_push, if_neg earlier]
          exact h.copied.untouched j g old
        top := made.2 (.inr h.copied.top)
        single := by
          intro n top
          rcases made.1 top with ⟨same, _⟩ | earlier
          · exact absurd same.symm other
          · exact h.copied.single n earlier
        unique := by
          intro j k n first second
          rcases made.1 first with ⟨rfl, rfl⟩ | earlier
          · rcases made.1 second with ⟨rfl, _⟩ | earlier'
            · rfl
            · exact absurd (h.lt earlier') (Nat.lt_irrefl _)
          · rcases made.1 second with ⟨rfl, rfl⟩ | earlier'
            · exact absurd (h.lt earlier) (Nat.lt_irrefl _)
            · exact h.copied.unique j k n earlier earlier'
        new := fun j n new => new.1
        reached := by
          intro j n new
          rcases made.1 new with ⟨rfl, _⟩ | earlier
          · exact reached
          · exact h.copied.reached j n earlier
        below := by
          intro j n new
          rcases made.1 new with ⟨rfl, _⟩ | earlier
          · exact below
          · exact h.copied.below j n earlier
        frame := by
          intro j n new
          rcases made.1 new with ⟨rfl, rfl⟩ | earlier
          · have parent' := optionRel_mono parent fun _ _ => moves_mono suffix
            refine ⟨f, _, found, ?_, .ofParent parent' all⟩
            rw [Tour.copy, Store.frame?_push, if_pos rfl]
          · obtain ⟨g, g', here, there, moved⟩ := h.copied.frame j n earlier
            refine ⟨g, g', here, ?_, moved.mono (fun _ _ => moves_mono suffix) (weaker n)⟩
            rw [Tour.copy, Store.frame?_push, if_neg (Nat.ne_of_lt (Store.frame?_lt there))]
            exact there }
      noted := by
        intro j j' member
        rcases List.mem_cons.1 member with same | known
        · cases same
          exact .inr (made.2 (.inl ⟨rfl, rfl⟩))
        · exact moves_mono suffix (h.noted j j' known)
      covered := by
        intro n new present
        rw [Tour.copy, Store.size_push] at present
        by_cases last : n = w.store.size
        · exact ⟨i, made.2 (.inl ⟨rfl, last⟩)⟩
        · obtain ⟨j, earlier⟩ := h.covered n new (by omega)
          exact ⟨j, made.2 (.inr earlier)⟩ }

/-- The tour starts with the copy of the root, whose bindings are pending.  If the root has a
parent, that stays in its place. -/
theorem underWay_start (ends : ∃ path, s.Ascent root path) (found : s.frame? root = some f)
    (all : ∀ k x, f.bindings.find? k = some x → pending s.size k) :
    UnderWay s root pending (copy root f ⟨s, []⟩) := by
  obtain ⟨path, ascent⟩ := ends
  have made {j n : Nat} : (copy root f ⟨s, []⟩).made s j n ↔ j = root ∧ n = s.size := by
    refine (@made_copy s root n ⟨s, []⟩ f (Nat.le_refl _) j).trans (or_iff_left ?_)
    exact fun nothing => List.not_mem_nil nothing.2
  have parent : Option.Rel (s.Moves root ((copy root f ⟨s, []⟩).made s)) f.parent f.parent := by
    cases ascent with
    | top found' orphan =>
      obtain rfl := Option.some.inj (found.symm.trans found')
      rw [orphan]
      exact .none
    | @step _ p _ path found' link rest =>
      obtain rfl := Option.some.inj (found.symm.trans found')
      have once := List.nodup_cons.1 (Store.Ascent.step found link rest).nodup
      rw [link]
      exact .some (.inl ⟨rfl, path, rest, once.1⟩)
  exact
    { copied :=
      { untouched := by
          intro j g old
          rw [Tour.copy, Store.frame?_push, if_neg (Nat.ne_of_lt (Store.frame?_lt old))]
          exact old
        top := made.2 ⟨rfl, rfl⟩
        single := fun n top => (made.1 top).2
        unique := fun j k n first second => (made.1 first).1.trans (made.1 second).1.symm
        new := fun j n new => new.1
        reached := by
          intro j n new
          obtain ⟨rfl, _⟩ := made.1 new
          exact .start List.mem_cons_self
        below := by
          intro j n new
          obtain ⟨rfl, _⟩ := made.1 new
          exact ⟨path, ascent, ascent.head_mem⟩
        frame := by
          intro j n new
          obtain ⟨rfl, rfl⟩ := made.1 new
          refine ⟨f, f, found, ?_, .ofParent parent all⟩
          rw [Tour.copy, Store.frame?_push, if_pos rfl] }
      noted := by
        intro j j' member
        cases List.mem_singleton.1 member
        exact .inr (made.2 ⟨rfl, rfl⟩)
      covered := by
        intro n new present
        rw [Tour.copy, Store.size_push] at present
        exact ⟨root, made.2 ⟨rfl, Nat.le_antisymm (Nat.le_of_lt_succ present) new⟩⟩ }

end Steps

/-! ## The tour ends -/

/-- The visit ends somewhere, with the table as it should be. -/
def Arrives (s : Store) (root : Nat) (pending : Nat → Text → Prop) (w : Tour) (i : Nat)
    (out : Option (Nat × Tour)) : Prop :=
  ∃ i' w', out = some (i', w') ∧ UnderWay s root pending w' ∧ w.table <:+ w'.table ∧
    s.Moves root (w'.made s) i i'

/-- Visits end well from all scopes that can be reached, while fewer scopes than the bound are
not in the table. -/
def EndsBelow (s : Store) (root bound : Nat) (visit : Visit) : Prop :=
  ∀ pending w i, UnderWay s root pending w → s.ReachedFrom [root] i → w.unmet s < bound →
    Arrives s root pending w i (visit i w)

section Ends

variable {s : Store} {root i n bound : Nat} {visit : Visit} {w : Tour}
  {pending : Nat → Text → Prop} {f : Frame}

theorem EndsBelow.value (ends : EndsBelow s root bound visit) (under : UnderWay s root pending w)
    {x : Value} (reached : ∀ h, x.home? = some h → s.ReachedFrom [root] h)
    (few : w.unmet s < bound) :
    ∃ y w', value visit x w = some (y, w') ∧ UnderWay s root pending w' ∧
      w.table <:+ w'.table ∧ x.Rehomed (s.Moves root (w'.made s)) y := by
  cases remembered : x.home? with
  | none =>
    refine ⟨x, w, ?_, under, List.suffix_refl _, .same remembered⟩
    simp only [Tour.value, remembered]
  | some h =>
    obtain ⟨h', w', arrives, under', grown, moves⟩ :=
      ends pending w h under (reached h remembered) few
    refine ⟨x.rehome fun _ => h', w', ?_, under', grown, .of_rehome fun i here => ?_⟩
    · simp only [Tour.value, remembered, arrives, Option.map_some]
    · obtain rfl := Option.some.inj (remembered.symm.trans here)
      exact moves

/-- Going through the bindings of a copy settles them, one after another. -/
theorem EndsBelow.entries (ends : EndsBelow s root bound visit) (found : s.frame? i = some f)
    {list : List (Text × Value)} (own : ∀ e ∈ list, f.bindings.find? e.1 = some e.2)
    (made : w.made s i n)
    (under : UnderWay s root (fun m k => pending m k ∨ m = n ∧ k ∈ list.map Prod.fst) w)
    (few : w.unmet s < bound) :
    ∃ w', entries visit n list w = some w' ∧ UnderWay s root pending w' ∧
      w.table <:+ w'.table := by
  induction list generalizing w with
  | nil =>
    refine ⟨w, rfl, ?_, List.suffix_refl _⟩
    simpa using under
  | cons entry rest ih =>
    obtain ⟨name, x⟩ := entry
    obtain ⟨bound, own'⟩ := List.forall_mem_cons.1 own
    have here : s.local? i name = some x := by rw [Store.local?, found, Option.bind_some, bound]
    have reached (h : Nat) (remembered : x.home? = some h) : s.ReachedFrom [root] h :=
      .home (under.copied.reached i n made) here
        (Value.mem_homes.2 ⟨x, x.mem_parts_self, remembered⟩)
    -- while the scope of the value is visited, this binding and those behind it are pending
    obtain ⟨y, w₁, moved, under₁, grown₁, rehomed⟩ := ends.value under reached few
    have left (m : Nat) (k : Text)
        (still : pending m k ∨ m = n ∧ k ∈ ((name, x) :: rest).map Prod.fst)
        (other : ¬ (m = n ∧ k = name)) : pending m k ∨ m = n ∧ k ∈ rest.map Prod.fst := by
      rcases still with still | ⟨rfl, member⟩
      · exact .inl still
      · rcases List.mem_cons.1 member with rfl | later
        · exact absurd ⟨rfl, rfl⟩ other
        · exact .inr ⟨rfl, later⟩
    have under₂ := under₁.bind (made_mono grown₁ made) found bound rehomed left
    obtain ⟨w₂, through, under', grown₂⟩ := ih (w := w₁.bind n name y) own'
      (made_mono grown₁ made) under₂ (Nat.lt_of_le_of_lt (unmet_le grown₁) few)
    refine ⟨w₂, ?_, under', grown₁.trans grown₂⟩
    rw [Tour.entries, moved]
    exact through

variable {order : Order}

theorem find?_of_mem_order (perm : ∀ n list, (order n list).Perm list) {m : NameMap Value}
    {e : Text × Value} (member : e ∈ order n m.entries) : m.find? e.1 = some e.2 :=
  NameMap.find?_of_mem_entries ((perm n m.entries).subset member)

theorem mem_order_of_find? (perm : ∀ n list, (order n list).Perm list) {m : NameMap Value}
    {name : Text} {x : Value} (bound : m.find? name = some x) :
    name ∈ (order n m.entries).map Prod.fst := by
  have member := (perm n m.entries).symm.subset (NameMap.mem_entries_of_find? bound)
  exact List.mem_map.2 ⟨(name, x), member, rfl⟩

/-- A scope that is not in the table is copied below a copy of its parent: it gets into the table,
and then the bindings of the copy are gone through. -/
theorem EndsBelow.copy (ends : EndsBelow s root (w.unmet s) visit)
    (perm : ∀ n list, (order n list).Perm list) (reached : s.ReachedFrom [root] i)
    (below : s.Below root i) (other : i ≠ root) (unknown : w.table.lookup i = none)
    (found : s.frame? i = some f) {w₁ : Tour} (under : UnderWay s root pending w₁)
    (grown : w.table <:+ w₁.table) {q : Option Nat}
    (parent : Option.Rel (s.Moves root (w₁.made s)) f.parent q) :
    Arrives s root pending w i
      ((Tour.entries visit w₁.store.size (order w₁.store.size f.bindings.entries)
        (w₁.copy i { f with parent := q })).map (w₁.store.size, ·)) := by
  have under₁ : UnderWay s root (fun m k => pending m k ∨ m = w₁.store.size ∧
      k ∈ (order w₁.store.size f.bindings.entries).map Prod.fst)
      (w₁.copy i { f with parent := q }) :=
    under.copy reached below other found parent (fun _ _ => Or.inl)
      fun _ _ bound => .inr ⟨rfl, mem_order_of_find? perm bound⟩
  have grown₁ : w.table <:+ (w₁.copy i { f with parent := q }).table :=
    grown.trans (List.suffix_cons _ _)
  have made : (w₁.copy i { f with parent := q }).made s i w₁.store.size :=
    ⟨under.copied.untouched.size_le, List.mem_cons_self⟩
  obtain ⟨w₂, through, under₂, grown₂⟩ := ends.entries found
    (fun _ => find?_of_mem_order perm) made under₁
    (unmet_lt grown₁ (Store.frame?_lt found) unknown made.2)
  refine ⟨w₁.store.size, w₂, ?_, under₂, grown₁.trans grown₂, .inr (made_mono grown₂ made)⟩
  rw [through, Option.map_some]

/-- Every scope that can be reached leads up to an end. -/
def Grounded (s : Store) (root : Nat) : Prop :=
  ∀ i, s.ReachedFrom [root] i → ∃ path, s.Ascent i path

/-- From any scope that can be reached, the way up is no longer than there are scopes. -/
theorem endsBelow_of_arrives (grounded : Grounded s root) {fuel : Nat}
    (arrives : ∀ {pending : Nat → Text → Prop} {w : Tour} {i : Nat} {path : List Nat},
      UnderWay s root pending w → s.ReachedFrom [root] i → s.Ascent i path →
      w.unmet s * (s.size + 1) + path.length < fuel → Arrives s root pending w i (visit i w))
    (enough : bound * (s.size + 1) ≤ fuel) : EndsBelow s root bound visit := by
  intro pending w i under reached few
  obtain ⟨path, ascent⟩ := grounded i reached
  have short := ascent.length_le
  have room : (w.unmet s + 1) * (s.size + 1) ≤ bound * (s.size + 1) :=
    Nat.mul_le_mul_right _ few
  rw [Nat.succ_mul] at room
  exact arrives under reached ascent (by omega)

/-- A visit ends if there is fuel for the way up, and for a way up from every scope that is not
in the table. -/
theorem scope_arrives (perm : ∀ n list, (order n list).Perm list) (grounded : Grounded s root)
    (fuel : Nat) {path : List Nat} (under : UnderWay s root pending w)
    (reached : s.ReachedFrom [root] i) (ascent : s.Ascent i path)
    (enough : w.unmet s * (s.size + 1) + path.length < fuel) :
    Arrives s root pending w i (scope order fuel i w) := by
  induction fuel generalizing pending w i path with
  | zero => exact absurd enough (Nat.not_lt_zero _)
  | succ fuel ih =>
    rw [scope]
    cases known : w.table.lookup i with
    | some i' =>
      exact ⟨i', w, rfl, under, List.suffix_refl _, under.noted i i' (mem_of_lookup known)⟩
    | none =>
      -- the root has been in the table from the start
      have other : i ≠ root := by
        rintro rfl
        exact lookup_eq_none_iff.1 known _ under.copied.top.2
      have noted {w' : Tour} (under' : UnderWay s root pending w') (grown : w.table <:+ w'.table)
          (beside : s.Beside root i) :
          Arrives s root pending w i (some (i, w'.note i i)) :=
        ⟨i, w'.note i i, rfl, under'.note beside, grown.trans (List.suffix_cons _ _),
          .inl ⟨rfl, beside⟩⟩
      cases ascent with
      | @top _ f found orphan =>
        simp only [under.copied.untouched i f found, Option.bind_some, orphan]
        refine noted under (List.suffix_refl _) ⟨[i], .top found orphan, fun member => ?_⟩
        exact other (List.mem_singleton.1 member).symm
      | @step _ p f path found link rest =>
        rw [List.length_cons] at enough
        have above : s.ReachedFrom [root] p := .parent reached found link
        obtain ⟨p', w₁, arrives, under₁, grown₁, moves⟩ := ih under above rest (by omega)
        simp only [under.copied.untouched i f found, Option.bind_some, link, arrives]
        rcases moves with ⟨rfl, beside⟩ | made
        · rw [if_pos rfl]
          exact noted under₁ grown₁ (beside.of_parent found link other)
        · -- the scope is in the table before the bindings of its copy are gone through, so that
          -- one scope less is left to meet, and the way up may be as long as any
          have new : p' ≠ p := by
            have old : p < s.size := rest.lt_size rest.head_mem
            have := made.1
            omega
          have below := (under₁.copied.below p p' made).of_parent found link
          have parent : Option.Rel (s.Moves root (w₁.made s)) f.parent (some p') := by
            rw [link]
            exact .some (.inr made)
          have ends : EndsBelow s root (w.unmet s) (scope order fuel) :=
            endsBelow_of_arrives grounded ih (by omega)
          rw [if_neg new]
          exact ends.copy perm reached below other known found under₁ grown₁ parent

/-- Fuel for a way up from every scope is enough for the whole tour. -/
theorem exists_tour (perm : ∀ n list, (order n list).Perm list) (grounded : Grounded s root) :
    ∃ w, UnderWay s root Store.nonePending w ∧
      ∀ fuel, s.size * (s.size + 1) ≤ fuel → s.tour order fuel root = some w.store := by
  obtain ⟨path, ascent⟩ := grounded root (.start List.mem_cons_self)
  obtain ⟨f, found⟩ := Store.frame?_isSome (ascent.lt_size ascent.head_mem)
  let start : Tour := copy root f ⟨s, []⟩
  let list := order s.size f.bindings.entries
  have under : UnderWay s root (fun m k => False ∨ m = s.size ∧ k ∈ list.map Prod.fst) start :=
    underWay_start ⟨path, ascent⟩ found
      fun _ _ bound => .inr ⟨rfl, mem_order_of_find? perm bound⟩
  have ends : EndsBelow s root s.size (scope order (s.size * (s.size + 1))) :=
    endsBelow_of_arrives grounded (scope_arrives perm grounded _) (Nat.le_refl _)
  have few : start.unmet s < s.size := by
    have all : unmet s ⟨s, []⟩ ≤ s.size :=
      (Finset.card_filter_le _ _).trans (Finset.card_range _).le
    have noted : (root, s.size) ∈ start.table := List.mem_cons_self
    exact Nat.lt_of_lt_of_le
      (unmet_lt (List.suffix_cons _ _) (Store.frame?_lt found) rfl noted) all
  obtain ⟨w, through, under', _⟩ :=
    ends.entries found (fun _ => find?_of_mem_order perm) ⟨Nat.le_refl _, List.mem_cons_self⟩
      under few
  refine ⟨w, under', fun fuel enough => ?_⟩
  rw [Store.tour, found, Option.bind_some,
    entries_mono (fun _ _ _ => scope_of_le order enough) through, Option.map_some]

end Ends

/-! ## The tour and copying all at once -/

/-- Where copies of the same scope are taken as one, the tour has made what is made at once. -/
theorem UnderWay.merges {s : Store} {root : Nat} {w : Tour}
    (under : UnderWay s root Store.nonePending w) (linked : s.Linked root) :
    ∃ merge : Nat → Nat, (∀ i, i < s.size → merge i = i) ∧
      merge s.size = (Relocation.below s root).image root ∧
      ∀ n, s.size ≤ n → n < w.store.size → ∃ f, w.store.frame? n = some f ∧
        (s.copyBelow root).frame? (merge n) = some (f.rehome merge) := by
  choose origin made using fun n (new : s.size ≤ n ∧ n < w.store.size) =>
    under.covered n new.1 new.2
  let merge (n : Nat) : Nat :=
    if new : s.size ≤ n ∧ n < w.store.size then (Relocation.below s root).image (origin n new)
    else n
  have old (i : Nat) (present : i < s.size) : merge i = i :=
    dif_neg fun new => Nat.not_le_of_lt present new.1
  have merged (i i' : Nat) (moves : s.Moves root (w.made s) i i') :
      merge i' = (Relocation.below s root).image i := by
    rcases moves with ⟨rfl, beside⟩ | copy
    · rw [old _ beside.lt_size, beside.image_eq]
    · have new := And.intro copy.1 (under.lt copy)
      have same : origin i' new = i := under.copied.unique _ _ _ (made i' new) copy
      rw [← same]
      exact dif_pos new
  refine ⟨merge, old, merged _ _ (.inr under.copied.top), fun n new present => ?_⟩
  obtain ⟨i, copy⟩ := under.covered n new present
  obtain ⟨f, f', found, found', moved⟩ := under.copied.frame i n copy
  obtain ⟨path, ascent, member⟩ := under.copied.below i n copy
  have reached := under.copied.reached i n copy
  obtain rfl := ascent.unique (linked i reached)
  refine ⟨f', found', ?_⟩
  rw [merged i n (.inr copy), Store.frame?_image (linked.mem_scopes reached member), found,
    Option.map_some, Relocation.frame_eq, moved.rehome_eq merged]

end Tour

/-- In the tree of a session the links lead along the chains. -/
theorem Store.Tree.linked {k : Kind} {s : Store} {root : Nat} (tree : s.Tree k root) :
    s.Linked root := by
  intro i reached
  obtain ⟨above, below⟩ :=
    tree.reached (List.forall_mem_singleton.2 ⟨Nat.le_refl root, tree.present⟩) reached
  exact (tree.ascent above below).1

/-- **Cloning copies the scopes faithfully, and so does a tour of the scopes, which always
ends.**  Take an interpreter from whose global scope one can only get to scopes from which the
links lead along their chains, to an end.  Closures and scopes may refer to each other in
cycles.

* Cloning leaves all scopes as they were and makes a faithful copy of those below the global
  scope, of which the copy is the global scope of the clone.
* A tour that makes one copy after another ends, in whatever order it goes through the bindings
  of each copy, and more fuel than it needs makes no difference.  It too leaves all scopes as
  they were and makes a faithful copy.
* The tour may copy a scope more than once.  Where the copies of a scope are taken as one, what
  it has made is what cloning makes. -/
theorem cloning_copies_the_scopes_faithfully (m : Machine)
    (linked : m.commons.store.Linked m.interpreter.global) :
    let s := m.commons.store
    let root := m.interpreter.global
    let cloned := m.clone.2.commons.store
    (∃ copy, s.FaithfulCopy root cloned m.clone.1.global copy) ∧
    ∀ order : Tour.Order, (∀ n list, (order n list).Perm list) →
      ∃ t, (∀ fuel, s.size * (s.size + 1) ≤ fuel → s.tour order fuel root = some t) ∧
        (∃ copy, s.FaithfulCopy root t s.size copy) ∧
        ∃ merge : Nat → Nat, (∀ i, i < s.size → merge i = i) ∧ merge s.size = m.clone.1.global ∧
          ∀ n, s.size ≤ n → n < t.size → ∃ f, t.frame? n = some f ∧
            cloned.frame? (merge n) = some (f.rehome merge) := by
  intro s root cloned
  have global : m.clone.1.global = (Relocation.below s root).image root := by rw [m.clone_fst]
  have store : cloned = s.copyBelow root := by
    show m.clone.2.commons.store = _
    rw [m.clone_snd]
  rw [global, store]
  refine ⟨⟨_, (Store.copied_copyBelow linked).faithfulCopy⟩, fun order perm => ?_⟩
  obtain ⟨w, under, ends⟩ := Tour.exists_tour perm fun i reached => ⟨_, linked i reached⟩
  exact ⟨w.store, ends, ⟨_, under.copied.faithfulCopy⟩, under.merges linked⟩

/-- A closure is bound in the global scope, and in a scope above the one that it remembers.  A
tour comes to that scope on the way up from it and makes two copies of it. -/
theorem a_scope_copied_twice_counts_as_one :
    let settings : Settings :=
      { Settings.standard .words with lexical := true, cacheCapacity := 0 }
    let text : Text := "(var r (car (cdr (scoped-let ((z 0))
      (var k (scoped-let ((a 1)) (closure () a)))))))"
    ∃ answer m t, Machine.run 20 text (Machine.create settings ∅) = some (answer, m) ∧
      m.interpreter.global = 0 ∧ m.commons.store.size = 3 ∧ m.commons.store.Linked 0 ∧
      m.commons.store.tour (fun _ list => list.reverse) 12 0 = some t ∧
      t.size = 7 ∧ m.clone.2.commons.store.size = 6 ∧
      (∃ copy, m.commons.store.FaithfulCopy 0 t 3 copy) ∧
      ∃ merge : Nat → Nat, (∀ i, i < 3 → merge i = i) ∧ merge 3 = m.clone.1.global ∧
        ∀ n, 3 ≤ n → n < 7 → ∃ f, t.frame? n = some f ∧
          m.clone.2.commons.store.frame? (merge n) = some (f.rehome merge) := by
  intro settings text
  have session : (Machine.run 20 text (Machine.create settings ∅)).map (fun out =>
      (out.2.interpreter.global, out.2.commons.store.size, (out.2.commons.store.copyBelow 0).size,
        (out.2.commons.store.tour (fun _ list => list.reverse) 12 0).map Store.size)) =
      some (0, 3, 6, some 7) := by
    decide +kernel
  obtain ⟨⟨answer, m⟩, ends, facts⟩ := Option.map_eq_some_iff.1 session
  obtain ⟨global, facts⟩ := Prod.mk.inj facts
  obtain ⟨size, facts⟩ := Prod.mk.inj facts
  obtain ⟨copies, toured⟩ := Prod.mk.inj facts
  obtain ⟨t, tour, copies'⟩ := Option.map_eq_some_iff.1 toured
  have fresh : (Machine.create settings ∅).Upholds .any := by
    refine Machine.upholds_create settings ∅ (Kind.fits_any ?_) fun _ _ _ _ => trivial
    intro slot name args y answer
    cases answer
  have linked : m.commons.store.Linked m.interpreter.global := (fresh.run ends).1.tree.linked
  have cloned : m.clone.2.commons.store.size = 6 := by
    rw [m.clone_snd, global]
    exact copies
  obtain ⟨_, tours⟩ := cloning_copies_the_scopes_faithfully m linked
  obtain ⟨t', same, faithful, merges⟩ :=
    tours (fun _ list => list.reverse) fun _ list => list.reverse_perm
  rw [global] at linked same faithful
  rw [size] at same faithful merges
  obtain rfl := Option.some.inj (tour.symm.trans (same 12 (by decide)))
  rw [copies'] at merges
  exact ⟨answer, m, t, ends, global, size, linked, tour, copies', cloned, faithful, merges⟩

end Argot
