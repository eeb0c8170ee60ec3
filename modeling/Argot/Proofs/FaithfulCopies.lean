import Mathlib.Data.List.Perm.Subperm
import Argot.Proofs.Copying
import Argot.Proofs.Packing
import Argot.Proofs.WellScoped

set_option autoImplicit false

/-!
# Faithful copies of scopes

Cloning adds copies of scopes to the store.  Closures and scopes may refer to each other in
cycles, so whether a copy is faithful cannot be told from one scope alone: it takes all
copies at once (`Store.FaithfulCopy`).  The links lead from a copy through scopes that are
like those that they lead through from the scope itself, one for one, and through the copy of
the root where they lead through the root; and a closure that is bound in a copy remembers
such a copy again, or a scope from which the links do not come past the root.

What has to be checked are the copies one by one (`Store.Copied`), each against the scope that
it was made of: its name, its mark, its parent and its bindings.  Some bindings may still be
left as they were, which are then pending.  Where none is, the copy is faithful.  The copies
that an interpreter is cloned with are (`Store.copied_copyBelow`).
-/

namespace Argot

/-! ## Values that remember other scopes -/

namespace Value

/-- Makes a closure remember another scope. -/
def rehome (f : Nat → Nat) : Value → Value
  | .closure params body (some home) => .closure params body (some (f home))
  | x => x

/-- The second value is the first one, but for the scope that it remembers if it is a closure. -/
inductive Rehomed (moves : Nat → Nat → Prop) : Value → Value → Prop where
  | closure {params body : Value} {h h' : Nat} (moved : moves h h') :
      Rehomed moves (.closure params body (some h)) (.closure params body (some h'))
  | same {x : Value} (homeless : x.home? = none) : Rehomed moves x x

theorem rehome_of_homeless (f : Nat → Nat) {x : Value} (homeless : x.home? = none) :
    x.rehome f = x := by
  cases x with
  | closure params body home =>
    cases home with
    | none => rfl
    | some h => cases homeless
  | _ => rfl

namespace Rehomed

variable {moves moves' : Nat → Nat → Prop} {x y : Value}

theorem mono (h : x.Rehomed moves y) (more : ∀ i i', moves i i' → moves' i i') :
    x.Rehomed moves' y := by
  cases h with
  | closure moved => exact .closure (more _ _ moved)
  | same homeless => exact .same homeless

theorem detached_eq (h : x.Rehomed moves y) : y.detached = x.detached := by
  cases h with
  | closure moved => rfl
  | same homeless => rfl

/-- Moving on to where another move would lead at once. -/
theorem rehome_eq (h : x.Rehomed moves y) {f g : Nat → Nat}
    (same : ∀ i i', x.home? = some i → moves i i' → f i' = g i) : y.rehome f = x.rehome g := by
  cases h with
  | @closure params body i i' moved => rw [rehome, rehome, same i i' rfl moved]
  | same homeless => rw [rehome_of_homeless f homeless, rehome_of_homeless g homeless]

/-- A value is moved by a function on scopes. -/
theorem of_rehome {f : Nat → Nat} (moved : ∀ i, x.home? = some i → moves i (f i)) :
    x.Rehomed moves (x.rehome f) := by
  cases remembered : x.home? with
  | none =>
    rw [rehome_of_homeless f remembered]
    exact .same remembered
  | some i =>
    cases x with
    | closure params body home =>
      cases remembered
      exact .closure (moved i rfl)
    | _ => cases remembered

end Rehomed
end Value

theorem Relocation.value_eq (r : Relocation) (x : Value) : r.value x = x.rehome r.image := by
  cases x with
  | closure params body home => cases home <;> rfl
  | _ => rfl

/-- Moves the parent of a scope, and the closures that are bound in it. -/
def Frame.rehome (g : Nat → Nat) (f : Frame) : Frame :=
  { f with
    parent := f.parent.map g
    bindings := f.bindings.map fun _ x => x.rehome g }

theorem Relocation.frame_eq (r : Relocation) (f : Frame) : r.frame f = f.rehome r.image := by
  simp only [frame, Frame.rehome, value_eq]

/-! ## Where the links lead -/

namespace Store

variable {s t : Store} {root i p : Nat} {f : Frame} {path : List Nat}

namespace Ascent

/-- There is one way to go. -/
theorem unique (h : s.Ascent i path) {path' : List Nat} (h' : s.Ascent i path') :
    path = path' := by
  induction h generalizing path' with
  | top found orphan =>
    cases h' with
    | top => rfl
    | step found' link =>
      obtain rfl := Option.some.inj (found.symm.trans found')
      rw [orphan] at link
      cases link
  | step found link rest ih =>
    cases h' with
    | top found' orphan =>
      obtain rfl := Option.some.inj (found.symm.trans found')
      rw [orphan] at link
      cases link
    | step found' link' rest' =>
      obtain rfl := Option.some.inj (found.symm.trans found')
      obtain rfl := Option.some.inj (link.symm.trans link')
      rw [ih rest']

/-- Adding scopes does not change where the links of the others lead. -/
theorem of_untouched (untouched : s.Untouched t) (h : s.Ascent i path) : t.Ascent i path := by
  induction h with
  | top found orphan => exact .top (untouched _ _ found) orphan
  | step found link rest ih => exact .step (untouched _ _ found) link ih

theorem lt_size (h : s.Ascent i path) {j : Nat} (member : j ∈ path) : j < s.size := by
  induction h with
  | top found orphan =>
    obtain rfl := List.mem_singleton.1 member
    exact frame?_lt found
  | step found link rest ih =>
    rcases List.mem_cons.1 member with rfl | later
    · exact frame?_lt found
    · exact ih later

theorem head_mem (h : s.Ascent i path) : i ∈ path := by
  cases h <;> exact List.mem_cons_self

/-- From a scope on the way, the rest of the way is left. -/
theorem exists_suffix (h : s.Ascent i path) {j : Nat} (member : j ∈ path) :
    ∃ rest, rest <:+ path ∧ s.Ascent j rest := by
  induction h with
  | top found orphan =>
    obtain rfl := List.mem_singleton.1 member
    exact ⟨_, List.suffix_refl _, .top found orphan⟩
  | step found link rest ih =>
    rcases List.mem_cons.1 member with rfl | later
    · exact ⟨_, List.suffix_refl _, .step found link rest⟩
    · obtain ⟨rest', suffix, ascent⟩ := ih later
      exact ⟨rest', suffix.trans (List.suffix_cons _ _), ascent⟩

/-- A way that ends comes to no scope twice. -/
theorem nodup (h : s.Ascent i path) : path.Nodup := by
  induction h with
  | top found orphan => exact List.pairwise_singleton _ _
  | @step i p f path found link rest ih =>
    refine List.nodup_cons.2 ⟨fun again => ?_, ih⟩
    -- the way from here would be part of itself
    obtain ⟨rest', suffix, ascent⟩ := rest.exists_suffix again
    have whole : i :: path = rest' := (Ascent.step found link rest).unique ascent
    have longer := suffix.length_le
    rw [← whole, List.length_cons] at longer
    omega

/-- A chain leaves the way at the first link that does not lead to an older scope. -/
theorem chain_subset (h : s.Ascent i path) : s.chain i ⊆ path := by
  induction h with
  | @top i f found orphan =>
    rw [chain_eq, if_pos (frame?_lt found), parent?, found, Option.bind_some, orphan]
    exact List.Subset.refl _
  | @step i p f path found link rest ih =>
    rw [chain_eq, if_pos (frame?_lt found), parent?, found, Option.bind_some, link,
      Option.filter_some]
    by_cases older : p < i
    · rw [decide_eq_true older, if_pos rfl]
      exact List.cons_subset_cons i ih
    · rw [decide_eq_false older, if_neg Bool.false_ne_true]
      exact List.cons_subset_cons i (List.nil_subset path)

/-- There are no more scopes on a way than there are scopes. -/
theorem length_le (h : s.Ascent i path) : path.length ≤ s.size := by
  have within : path ⊆ List.range s.size := fun _ member => List.mem_range.2 (h.lt_size member)
  have short := (h.nodup.subperm within).length_le
  rwa [List.length_range] at short

end Ascent

/-- The links lead from the scope to the root, and past it if that has a parent. -/
def Below (s : Store) (root i : Nat) : Prop := ∃ path, s.Ascent i path ∧ root ∈ path

/-- The links lead from the scope to an end and not to the root. -/
def Beside (s : Store) (root i : Nat) : Prop := ∃ path, s.Ascent i path ∧ root ∉ path

theorem Beside.lt_size (h : s.Beside root i) : i < s.size := by
  obtain ⟨path, ascent, _⟩ := h
  exact ascent.lt_size ascent.head_mem

theorem Below.of_parent (h : s.Below root p) (found : s.frame? i = some f)
    (link : f.parent = some p) : s.Below root i := by
  obtain ⟨path, ascent, member⟩ := h
  exact ⟨i :: path, .step found link ascent, List.mem_cons_of_mem _ member⟩

theorem Beside.of_parent (h : s.Beside root p) (found : s.frame? i = some f)
    (link : f.parent = some p) (other : i ≠ root) : s.Beside root i := by
  obtain ⟨path, ascent, missing⟩ := h
  refine ⟨i :: path, .step found link ascent, fun member => ?_⟩
  rcases List.mem_cons.1 member with same | above
  · exact other same.symm
  · exact missing above

/-! ## What a faithful copy is -/

/-- Scopes of the same name and mark that bind the same names, and to the same values up to the
scopes that closures remember. -/
structure Alike (s t : Store) (i j : Nat) : Prop where
  present : i < s.size ∧ j < t.size
  name : (t.frame? j).map Frame.name = (s.frame? i).map Frame.name
  isGlobal : (t.frame? j).map Frame.isGlobal = (s.frame? i).map Frame.isGlobal
  names : t.names j = s.names i
  value : ∀ name, (t.local? j name).map Value.detached = (s.local? i name).map Value.detached

/-- The links lead through scopes that are alike, one for one, and through the one root where
they lead through the other. -/
def Parallel (s : Store) (root : Nat) (t : Store) (root' : Nat) (i j : Nat) : Prop :=
  ∃ path path', s.Ascent i path ∧ t.Ascent j path' ∧
    List.Forall₂ (fun k l => s.Alike t k l ∧ (k = root ↔ l = root')) path path'

/-- Where a scope is after copying: at a copy of it, if the links lead from it to the root. -/
def Moves (s : Store) (root : Nat) (copy : Nat → Nat → Prop) (i i' : Nat) : Prop :=
  i' = i ∧ s.Beside root i ∨ copy i i'

/-- The second store has copies of scopes below the root of the first one, the root among them,
and all scopes of the first one as they were.  From a copy the links lead as from the scope
itself, and what is bound in it has been moved over. -/
structure FaithfulCopy (s : Store) (root : Nat) (t : Store) (root' : Nat)
    (copy : Nat → Nat → Prop) : Prop where
  untouched : s.Untouched t
  top : copy root root'
  new : ∀ i n, copy i n → s.size ≤ n
  below : ∀ i n, copy i n → s.Below root i
  parallel : ∀ i n, copy i n → s.Parallel root t root' i n
  parent : ∀ i n, copy i n →
    Option.Rel (s.Moves root copy) ((s.frame? i).bind Frame.parent) ((t.frame? n).bind Frame.parent)
  binding : ∀ i n, copy i n → ∀ name,
    Option.Rel (Value.Rehomed (s.Moves root copy)) (s.local? i name) (t.local? n name)

end Store

/-! ## Checking the copies one by one -/

theorem optionRel_mono {α β : Type} {R R' : α → β → Prop} {x : Option α} {y : Option β}
    (h : Option.Rel R x y) (more : ∀ a b, R a b → R' a b) : Option.Rel R' x y := by
  cases h with
  | none => exact .none
  | some related => exact .some (more _ _ related)

namespace Frame

/-- The second scope is the first one after moving, but for bindings that are pending. -/
structure MovedTo (moves : Nat → Nat → Prop) (pending : Text → Prop) (f f' : Frame) : Prop where
  name : f'.name = f.name
  isGlobal : f'.isGlobal = f.isGlobal
  parent : Option.Rel moves f.parent f'.parent
  binding : ∀ name, Option.Rel (fun x y => x.Rehomed moves y ∨ pending name ∧ y = x)
    (f.bindings.find? name) (f'.bindings.find? name)

namespace MovedTo

variable {moves moves' : Nat → Nat → Prop} {pending pending' : Text → Prop} {f f' : Frame}

theorem mono (h : f.MovedTo moves pending f') (more : ∀ i i', moves i i' → moves' i i')
    (weaker : ∀ name, pending name → pending' name) : f.MovedTo moves' pending' f' where
  name := h.name
  isGlobal := h.isGlobal
  parent := optionRel_mono h.parent more
  binding := by
    intro name
    refine optionRel_mono (h.binding name) fun x y => ?_
    rintro (moved | ⟨still, same⟩)
    · exact .inl (moved.mono more)
    · exact .inr ⟨weaker name still, same⟩

/-- Only the parent has been moved. -/
theorem ofParent {p : Option Nat} (parent : Option.Rel moves f.parent p)
    (all : ∀ name x, f.bindings.find? name = some x → pending name) :
    f.MovedTo moves pending { f with parent := p } where
  name := rfl
  isGlobal := rfl
  parent := parent
  binding := by
    intro name
    show Option.Rel _ (f.bindings.find? name) (f.bindings.find? name)
    cases bound : f.bindings.find? name with
    | none => exact .none
    | some x => exact .some (.inr ⟨all name x bound, rfl⟩)

/-- Binding the moved value of a name settles the binding. -/
theorem insert (h : f.MovedTo moves pending f') {name : Text} {x y : Value}
    (bound : f.bindings.find? name = some x) (moved : x.Rehomed moves y)
    (left : ∀ k, pending k → k ≠ name → pending' k) :
    f.MovedTo moves pending' { f' with bindings := f'.bindings.insert name y } where
  name := h.name
  isGlobal := h.isGlobal
  parent := h.parent
  binding := by
    intro k
    rw [NameMap.find?_insert]
    by_cases same : k = name
    · subst same
      rw [if_pos rfl, bound]
      exact .some (.inl moved)
    · rw [if_neg same]
      refine optionRel_mono (h.binding k) fun a b => Or.imp id ?_
      rintro ⟨still, rfl⟩
      exact ⟨left k still same, rfl⟩

/-- Moving on to where another move would lead at once. -/
theorem rehome_eq (h : f.MovedTo moves (fun _ => False) f') {g g' : Nat → Nat}
    (same : ∀ i i', moves i i' → g i' = g' i) : f'.rehome g = f.rehome g' := by
  have parents : f'.parent.map g = f.parent.map g' := by
    have related := h.parent
    generalize f.parent = p at related ⊢
    generalize f'.parent = p' at related ⊢
    cases related with
    | none => rfl
    | some moved => exact congrArg some (same _ _ moved)
  have bindings : f'.bindings.map (fun _ x => x.rehome g) =
      f.bindings.map (fun _ x => x.rehome g') := by
    refine NameMap.ext_find? fun name => ?_
    have related := h.binding name
    rw [NameMap.find?_map, NameMap.find?_map]
    generalize f.bindings.find? name = x at related ⊢
    generalize f'.bindings.find? name = y at related ⊢
    cases related with
    | none => rfl
    | some moved =>
      have rehomed := moved.resolve_right fun pending => pending.1
      exact congrArg some (rehomed.rehome_eq fun i i' _ => same i i')
  rw [Frame.rehome, Frame.rehome, parents, bindings, h.name, h.isGlobal]

end MovedTo
end Frame

namespace Store

/-- Every copy is the copy of one scope that can be reached from the root, and is that scope
after moving, but for bindings that are pending. -/
structure Copied (s : Store) (root : Nat) (pending : Nat → Text → Prop)
    (copy : Nat → Nat → Prop) (t : Store) (root' : Nat) : Prop where
  untouched : s.Untouched t
  top : copy root root'
  single : ∀ n, copy root n → n = root'
  unique : ∀ i j n, copy i n → copy j n → i = j
  new : ∀ i n, copy i n → s.size ≤ n
  reached : ∀ i n, copy i n → s.ReachedFrom [root] i
  below : ∀ i n, copy i n → s.Below root i
  frame : ∀ i n, copy i n → ∃ f f', s.frame? i = some f ∧ t.frame? n = some f' ∧
    f.MovedTo (s.Moves root copy) (pending n) f'

section Copied

variable {s t : Store} {root root' i n : Nat} {copy : Nat → Nat → Prop}

theorem Alike.refl (untouched : s.Untouched t) (present : i < s.size) : s.Alike t i i := by
  obtain ⟨f, found⟩ := frame?_isSome present
  have found' := untouched i f found
  refine ⟨⟨present, frame?_lt found'⟩, ?_, ?_, ?_, fun name => ?_⟩
  all_goals simp only [Store.names, local?, found, found']

/-- Nothing is pending. -/
abbrev nonePending : Nat → Text → Prop := fun _ _ => False

/-- What a scope binds has been moved over in its copy. -/
theorem Copied.binding (copied : s.Copied root nonePending copy t root') (made : copy i n)
    (name : Text) :
    Option.Rel (Value.Rehomed (s.Moves root copy)) (s.local? i name) (t.local? n name) := by
  obtain ⟨f, f', found, found', moved⟩ := copied.frame i n made
  have each := moved.binding name
  rw [local?, local?, found, found', Option.bind_some, Option.bind_some]
  generalize f.bindings.find? name = x at each ⊢
  generalize f'.bindings.find? name = y at each ⊢
  cases each with
  | none => exact .none
  | some here => exact .some (here.resolve_right fun pending => pending.1)

/-- A scope and its copy are alike. -/
theorem Copied.alike (copied : s.Copied root nonePending copy t root') (made : copy i n) :
    s.Alike t i n := by
  obtain ⟨f, f', found, found', moved⟩ := copied.frame i n made
  have value (name : Text) :
      (t.local? n name).map Value.detached = (s.local? i name).map Value.detached := by
    have each := copied.binding made name
    generalize s.local? i name = x at each ⊢
    generalize t.local? n name = y at each ⊢
    cases each with
    | none => rfl
    | some rehomed => exact congrArg some rehomed.detached_eq
  refine ⟨⟨frame?_lt found, frame?_lt found'⟩, ?_, ?_, ?_, value⟩
  · rw [found, found', Option.map_some, Option.map_some, moved.name]
  · rw [found, found', Option.map_some, Option.map_some, moved.isGlobal]
  · have names : f'.bindings.names = f.bindings.names := by
      refine NameMap.names_eq_of_isSome fun name => ?_
      have same := congrArg Option.isSome (value name)
      rw [Option.isSome_map, Option.isSome_map, local?, local?, found, found'] at same
      exact same
    simp only [Store.names, found, found', names]

/-- A copy is made of the root just where it is the copy of the root. -/
theorem Copied.root_iff {pending : Nat → Text → Prop}
    (copied : s.Copied root pending copy t root') (made : copy i n) : i = root ↔ n = root' := by
  constructor
  · rintro rfl
    exact copied.single n made
  · rintro rfl
    exact copied.unique i root n made copied.top

/-- Along the links from a scope beside the root nothing has changed. -/
theorem Copied.beside (copied : s.Copied root nonePending copy t root') {path : List Nat}
    (ascent : s.Ascent i path) (beside : root ∉ path) :
    List.Forall₂ (fun k l => s.Alike t k l ∧ (k = root ↔ l = root')) path path := by
  refine List.forall₂_same.2 fun k member => ⟨.refl copied.untouched (ascent.lt_size member), ?_⟩
  have old := ascent.lt_size member
  have new := copied.new root root' copied.top
  exact iff_of_false (fun same => beside (same ▸ member)) (by omega)

/-- From a copy the links lead as from the scope. -/
theorem Copied.parallel (copied : s.Copied root nonePending copy t root') {path : List Nat}
    (ascent : s.Ascent i path) (made : copy i n) :
    ∃ path', t.Ascent n path' ∧
      List.Forall₂ (fun k l => s.Alike t k l ∧ (k = root ↔ l = root')) path path' := by
  induction ascent generalizing n with
  | @top i f₀ found₀ orphan =>
    obtain ⟨f, f', found, found', moved⟩ := copied.frame i n made
    obtain rfl := Option.some.inj (found₀.symm.trans found)
    have parents := moved.parent
    rw [orphan] at parents
    cases parent : f'.parent with
    | some p =>
      rw [parent] at parents
      cases parents
    | none =>
      exact ⟨[n], .top found' parent, .cons ⟨copied.alike made, copied.root_iff made⟩ .nil⟩
  | @step i p f₀ path found₀ link rest ih =>
    obtain ⟨f, f', found, found', moved⟩ := copied.frame i n made
    obtain rfl := Option.some.inj (found₀.symm.trans found)
    have parents := moved.parent
    rw [link] at parents
    cases parent : f'.parent with
    | none =>
      rw [parent] at parents
      cases parents
    | some p' =>
      rw [parent] at parents
      cases parents with
      | some moves =>
      have here := And.intro (copied.alike made) (copied.root_iff made)
      -- from a parent that was not copied the old links lead on, and else those of its copy
      rcases moves with ⟨rfl, path', ascent', beside⟩ | made'
      · obtain rfl := rest.unique ascent'
        exact ⟨n :: path, .step found' parent (rest.of_untouched copied.untouched),
          .cons here (copied.beside rest beside)⟩
      · obtain ⟨path', ascent', alike⟩ := ih made'
        exact ⟨n :: path', .step found' parent ascent', .cons here alike⟩

/-- Copies that have been checked one by one are faithful. -/
theorem Copied.faithfulCopy (copied : s.Copied root nonePending copy t root') :
    s.FaithfulCopy root t root' copy where
  untouched := copied.untouched
  top := copied.top
  new := copied.new
  below := copied.below
  parallel := by
    intro i n made
    obtain ⟨path, ascent, _⟩ := copied.below i n made
    obtain ⟨path', ascent', alike⟩ := copied.parallel ascent made
    exact ⟨path, path', ascent, ascent', alike⟩
  parent := by
    intro i n made
    obtain ⟨f, f', found, found', moved⟩ := copied.frame i n made
    rw [found, found', Option.bind_some, Option.bind_some]
    exact moved.parent
  binding := fun _ _ made => copied.binding made

end Copied

/-! ## Copying all at once -/

section CopyBelow

variable {s : Store} {root i : Nat}

/-- Where the links from everything that can be reached lead along the chains, to an end. -/
def Linked (s : Store) (root : Nat) : Prop :=
  ∀ i, s.ReachedFrom [root] i → s.Ascent i (s.chain i)

/-- A scope beside the root is not copied. -/
theorem Beside.image_eq (h : s.Beside root i) : (Relocation.below s root).image i = i := by
  obtain ⟨path, ascent, missing⟩ := h
  exact image_of_not_mem fun among => missing (ascent.chain_subset (mem_scopes_below.1 among).2)

/-- The scopes that can be reached and are copied, with their copies. -/
def imaged (s : Store) (root : Nat) : Nat → Nat → Prop :=
  fun i n => s.ReachedFrom [root] i ∧ root ∈ s.chain i ∧ n = (Relocation.below s root).image i

theorem Linked.mem_scopes (linked : s.Linked root) (reached : s.ReachedFrom [root] i)
    (member : root ∈ s.chain i) : i ∈ (Relocation.below s root).scopes :=
  mem_scopes_below.2 ⟨(linked i reached).lt_size (linked i reached).head_mem, member⟩

theorem Linked.moves_image (linked : s.Linked root) (reached : s.ReachedFrom [root] i) :
    s.Moves root (s.imaged root) i ((Relocation.below s root).image i) := by
  by_cases member : root ∈ s.chain i
  · exact .inr ⟨reached, member, rfl⟩
  · have beside : s.Beside root i := ⟨s.chain i, linked i reached, member⟩
    exact .inl ⟨beside.image_eq, beside⟩

/-- The copy of a scope that can be reached is that scope after moving. -/
theorem Linked.movedTo (linked : s.Linked root) (reached : s.ReachedFrom [root] i) {f : Frame}
    (found : s.frame? i = some f) (pending : Text → Prop) :
    f.MovedTo (s.Moves root (s.imaged root)) pending ((Relocation.below s root).frame f) where
  name := rfl
  isGlobal := rfl
  parent := by
    show Option.Rel _ f.parent (f.parent.map (Relocation.below s root).image)
    cases link : f.parent with
    | none => exact .none
    | some p => exact .some (linked.moves_image (.parent reached found link))
  binding := by
    intro name
    show Option.Rel _ _ ((f.bindings.map fun _ x => (Relocation.below s root).value x).find? name)
    rw [NameMap.find?_map]
    cases bound : f.bindings.find? name with
    | none => exact .none
    | some x =>
      have here : s.local? i name = some x := by rw [local?, found, Option.bind_some, bound]
      refine .some (.inl ?_)
      show Value.Rehomed _ x ((Relocation.below s root).value x)
      rw [Relocation.value_eq]
      refine .of_rehome fun h remembered => linked.moves_image (.home reached here ?_)
      exact Value.mem_homes.2 ⟨x, x.mem_parts_self, remembered⟩

theorem copied_copyBelow (linked : s.Linked root) :
    s.Copied root nonePending (s.imaged root) (s.copyBelow root)
      ((Relocation.below s root).image root) where
  untouched := untouched_copyBelow s root
  top := ⟨.start List.mem_cons_self, (linked root (.start List.mem_cons_self)).head_mem, rfl⟩
  single := fun _ made => made.2.2
  unique := by
    rintro i j _ ⟨reached, member, rfl⟩ ⟨reached', member', same⟩
    obtain ⟨k, image, place⟩ := exists_image (linked.mem_scopes reached member)
    obtain ⟨k', image', place'⟩ := exists_image (linked.mem_scopes reached' member')
    obtain rfl : k = k' := by omega
    exact Option.some.inj (place.symm.trans place')
  new := by
    rintro i _ ⟨reached, member, rfl⟩
    obtain ⟨k, image, _⟩ := exists_image (linked.mem_scopes reached member)
    omega
  reached := fun _ _ made => made.1
  below := fun i _ made => ⟨s.chain i, linked i made.1, made.2.1⟩
  frame := by
    rintro i _ ⟨reached, member, rfl⟩
    have among := linked.mem_scopes reached member
    obtain ⟨f, found⟩ := frame?_isSome (mem_scopes_below.1 among).1
    refine ⟨f, _, found, ?_, linked.movedTo reached found _⟩
    rw [frame?_image among, found]
    rfl

end CopyBelow
end Store
end Argot
