import Argot.Proofs.Confinement

set_option autoImplicit false

/-!
# What is visible from a scope

How the meaning of a name in a scope changes when a name is bound there, when a child
scope is made, and when something happens in other scopes.  All names that mean
something, with their values, are one map (`Store.visible`).
-/

namespace Argot

/-! ## One map over another -/

namespace NameMap

variable {α : Type}

/-- The first map, and the second one for the names that the first one does not have. -/
def overlay (inner outer : NameMap α) : NameMap α :=
  inner.entries.foldr (fun (name, a) m => m.insert name a) outer

theorem find?_overlay (inner outer : NameMap α) (name : Text) :
    (inner.overlay outer).find? name = (inner.find? name).or (outer.find? name) := by
  show (inner.entries.foldr _ outer).find? name = (lookup name inner.entries).or _
  generalize inner.entries = entries
  induction entries with
  | nil => rfl
  | cons e rest ih =>
    obtain ⟨n, a⟩ := e
    rw [List.foldr_cons, find?_insert, ih, lookup]
    by_cases same : n = name
    · rw [if_pos same, if_pos same.symm]
      rfl
    · rw [if_neg same, if_neg (Ne.symm same)]

theorem mem_entries_of_find? {m : NameMap α} {name : Text} {a : α}
    (found : m.find? name = some a) : (name, a) ∈ m.entries := by
  rw [find?] at found
  generalize m.entries = entries at found
  induction entries with
  | nil => cases found
  | cons e rest ih =>
    obtain ⟨n, b⟩ := e
    rw [lookup] at found
    split at found
    · rename_i same
      obtain rfl := Option.some.inj found
      exact same ▸ List.mem_cons_self
    · exact List.mem_cons_of_mem _ (ih found)

theorem lookup_of_mem {entries : List (Text × α)}
    (sorted : entries.Pairwise fun a b => a.1 < b.1) {name : Text} {a : α}
    (member : (name, a) ∈ entries) : lookup name entries = some a := by
  induction entries with
  | nil => cases member
  | cons e rest ih =>
    obtain ⟨n, b⟩ := e
    obtain ⟨below, sorted'⟩ := List.pairwise_cons.1 sorted
    rcases List.mem_cons.1 member with same | later
    · cases same
      exact if_pos rfl
    · have differs : n ≠ name := fun same => List.lt_irrefl name (same ▸ below (name, a) later)
      rw [lookup, if_neg differs, ih sorted' later]

/-- Each name stands once, so every entry is found. -/
theorem find?_of_mem_entries {m : NameMap α} {name : Text} {a : α}
    (member : (name, a) ∈ m.entries) : m.find? name = some a :=
  lookup_of_mem m.sorted member

/-- What is found in a map that was filled up from a list was in the list, or in the map
before. -/
theorem find?_foldl_insert {entries : List (Text × α)} {m : NameMap α} {name : Text} {a : α}
    (found : (entries.foldl (fun m (n, a) => m.insert n a) m).find? name = some a) :
    (name, a) ∈ entries ∨ m.find? name = some a := by
  induction entries generalizing m with
  | nil => exact .inr found
  | cons e rest ih =>
    obtain ⟨n, b⟩ := e
    rcases ih found with member | found
    · exact .inl (List.mem_cons_of_mem _ member)
    · rw [find?_insert] at found
      split at found
      · rename_i same
        obtain rfl := Option.some.inj found
        exact .inl (same ▸ List.mem_cons_self)
      · exact .inr found

theorem find?_ofList_eq_some {entries : List (Text × α)} {name : Text} {a : α}
    (found : (ofList entries).find? name = some a) : (name, a) ∈ entries := by
  rcases find?_foldl_insert found with member | impossible
  · exact member
  · cases impossible

theorem isSome_find?_foldl_insert {entries : List (Text × α)} {m : NameMap α} {name : Text}
    (h : name ∈ entries.map Prod.fst ∨ (m.find? name).isSome = true) :
    ((entries.foldl (fun m (n, a) => m.insert n a) m).find? name).isSome = true := by
  induction entries generalizing m with
  | nil =>
    rcases h with member | found
    · cases member
    · exact found
  | cons e rest ih =>
    obtain ⟨n, b⟩ := e
    refine ih ?_
    rw [find?_insert]
    by_cases same : name = n
    · rw [if_pos same]
      exact .inr rfl
    · rw [if_neg same]
      rcases h with member | found
      · rw [List.map_cons, List.mem_cons] at member
        exact .inl (member.resolve_left same)
      · exact .inr found

/-- A map made from a list has the names of the list. -/
theorem isSome_find?_ofList {entries : List (Text × α)} {name : Text} :
    ((ofList entries).find? name).isSome = true ↔ name ∈ entries.map Prod.fst := by
  constructor
  · intro found
    obtain ⟨a, found⟩ := Option.isSome_iff_exists.1 found
    exact List.mem_map.2 ⟨(name, a), find?_ofList_eq_some found, rfl⟩
  · exact fun member => isSome_find?_foldl_insert (.inl member)

/-- Maps in which the same names are found list the same names. -/
theorem names_eq_of_isSome {β : Type} {m : NameMap α} {m' : NameMap β}
    (h : ∀ name, (m.find? name).isSome = (m'.find? name).isSome) : m.names = m'.names := by
  have same : m.map (fun _ _ => ()) = m'.map (fun _ _ => ()) := by
    apply ext_find?
    intro name
    have found := h name
    rw [find?_map, find?_map]
    cases inFirst : m.find? name with
    | none =>
      cases inSecond : m'.find? name with
      | none => rfl
      | some b =>
        rw [inFirst, inSecond] at found
        cases found
    | some a =>
      cases inSecond : m'.find? name with
      | none =>
        rw [inFirst, inSecond] at found
        cases found
      | some b => rfl
  rw [← names_map (fun _ _ => ()) m, same, names_map]

end NameMap

/-! ## Looking names up -/

namespace Store

/-- A name means what the innermost scope says, or else what it means to the parent. -/
theorem lookup_eq (s : Store) {scope : Nat} (present : scope < s.size) (name : Text) :
    s.lookup scope name =
      (s.local? scope name).or ((s.parent? scope).bind fun p => s.lookup p name) := by
  rw [lookup_eq_findSome?, chain_eq, if_pos present, List.findSome?_cons]
  cases s.local? scope name with
  | some x => rfl
  | none =>
    cases s.parent? scope with
    | none => rfl
    | some p => exact (lookup_eq_findSome? s p name).symm

theorem frame?_isSome {s : Store} {scope : Nat} (present : scope < s.size) :
    ∃ f, s.frame? scope = some f :=
  ⟨s.frames[scope], Array.getElem?_eq_getElem present⟩

theorem Untouched.size_le {s s' : Store} (h : s.Untouched s') : s.size ≤ s'.size := by
  by_cases empty : s.size = 0
  · omega
  · have last : s.size - 1 < s.size := by omega
    obtain ⟨f, found⟩ := frame?_isSome last
    have present := frame?_lt (h _ f found)
    omega

theorem untouched_push (s : Store) (f : Frame) : s.Untouched (s.push f) := by
  intro i g found
  rw [frame?_push, if_neg (Nat.ne_of_lt (frame?_lt found)), found]

/-- What happens outside the chain of a scope does not change what names mean in it. -/
theorem Untouched.lookup {s s' : Store} (h : s.Untouched s') {scope : Nat}
    (present : scope < s.size) (name : Text) : s'.lookup scope name = s.lookup scope name := by
  obtain ⟨f, found⟩ := frame?_isSome present
  have found' := h scope f found
  have present' := frame?_lt found'
  rw [lookup_eq s present, lookup_eq s' present']
  have sameLocal : s'.local? scope name = s.local? scope name := by
    rw [local?, local?, found, found']
  have sameParent : s'.parent? scope = s.parent? scope := by
    rw [parent?, parent?, found, found']
  rw [sameLocal, sameParent]
  cases parent : s.parent? scope with
  | none => rfl
  | some p =>
    have older := parent?_lt parent
    have sameAbove := Untouched.lookup h (Nat.lt_trans older present) name
    show (s.local? scope name).or (s'.lookup p name) = (s.local? scope name).or (s.lookup p name)
    rw [sameAbove]
termination_by scope

/-- In a new scope a name means what is bound there, or else what it means in the scope
around it. -/
theorem lookup_push {s : Store} {f : Frame} {parent : Nat} (under : f.parent = some parent)
    (present : parent < s.size) (name : Text) :
    (s.push f).lookup s.size name = (f.bindings.find? name).or (s.lookup parent name) := by
  have inside : s.size < (s.push f).size := by
    rw [size_push]
    omega
  have newest : (s.push f).frame? s.size = some f := by rw [frame?_push, if_pos rfl]
  have parentOf : (s.push f).parent? s.size = some parent := by
    rw [parent?, newest, Option.bind_some, under, Option.filter_some, decide_eq_true present]
    rfl
  rw [lookup_eq _ inside, local?, newest, Option.bind_some, parentOf, Option.bind_some,
    (untouched_push s f).lookup present]

/-- Binding a name in a scope changes the meaning of that name there, and of no other. -/
theorem lookup_bind_self {s : Store} {scope : Nat} (present : scope < s.size) (name n : Text)
    (x : Value) :
    (s.bind scope name x).lookup scope n = if n = name then some x else s.lookup scope n := by
  rw [lookup_eq_findSome?, chain_bind]
  by_cases same : n = name
  · rw [if_pos same, chain_eq, if_pos present, List.findSome?_cons, local?_bind,
      if_pos ⟨rfl, same, present⟩]
  · have others : (fun i => (s.bind scope name x).local? i n) = fun i => s.local? i n := by
      funext i
      rw [local?_bind, if_neg fun written => same written.2.1]
    rw [if_neg same, others, lookup_eq_findSome?]

/-! ## The visible names -/

/-- Every name that means something in a scope, with its meaning. -/
def visible (s : Store) (scope : Nat) : NameMap Value :=
  (s.chain scope).foldr
    (fun i outer => ((s.frame? i).elim ∅ Frame.bindings).overlay outer) ∅

@[simp] theorem find?_visible (s : Store) (scope : Nat) (name : Text) :
    (s.visible scope).find? name = s.lookup scope name := by
  rw [visible, lookup_eq_findSome?]
  induction s.chain scope with
  | nil => rfl
  | cons i rest ih =>
    rw [List.foldr_cons, NameMap.find?_overlay, ih, List.findSome?_cons, local?]
    cases s.frame? i with
    | none => rfl
    | some f =>
      show (f.bindings.find? name).or _ = _
      rw [Option.bind_some]
      cases f.bindings.find? name <;> rfl

theorem isSome_local? (s : Store) (i : Nat) (name : Text) :
    (s.local? i name).isSome = true ↔ name ∈ s.names i := by
  unfold local? names
  cases s.frame? i with
  | none => simp
  | some f => exact NameMap.mem_names_iff.symm

/-- The visible names are those that mean something. -/
theorem names_visible (s : Store) (scope : Nat) :
    (s.visible scope).names = s.visibleNames scope := by
  apply NameMap.names_eq_of_isSome
  intro name
  rw [Bool.eq_iff_iff, NameMap.isSome_find?_ofList, find?_visible, lookup_eq_findSome?,
    List.isSome_findSome?, List.any_eq_true]
  simp only [isSome_local?, List.mem_map, List.mem_flatMap]
  constructor
  · rintro ⟨i, onChain, bound⟩
    exact ⟨(name, ()), ⟨i, onChain, name, bound, rfl⟩, rfl⟩
  · rintro ⟨_, ⟨i, onChain, _, bound, rfl⟩, rfl⟩
    exact ⟨i, onChain, bound⟩

end Store
end Argot
