import Argot.Text.Basic

set_option autoImplicit false

/-!
# Maps from names

A finite map from names, kept in the bytewise order of the names.  Each name stands once,
so two maps with the same look-ups are the same map (`NameMap.ext_find?`).

Normative source: SPEC_FULL §3 (a frame maps names, each once).
-/

namespace Argot

/-- A finite map from names; the entries are in increasing order of their names. -/
structure NameMap (α : Type) where
  entries : List (Text × α)
  sorted : entries.Pairwise fun a b => a.1 < b.1

namespace NameMap

variable {α β : Type}

/-- The map of no name. -/
def empty : NameMap α := ⟨[], .nil⟩

instance : EmptyCollection (NameMap α) := ⟨empty⟩
instance : Inhabited (NameMap α) := ⟨empty⟩

/-- The names of a map, in order. -/
def names (m : NameMap α) : List Text := m.entries.map Prod.fst

/-- What is filed under a name in a list of entries. -/
def lookup (name : Text) : List (Text × α) → Option α
  | [] => none
  | (n, a) :: rest => if n = name then some a else lookup name rest

/-- What is filed under a name. -/
def find? (m : NameMap α) (name : Text) : Option α := lookup name m.entries

/-- Whether something is filed under a name. -/
def contains (m : NameMap α) (name : Text) : Bool := (m.find? name).isSome

/-- Files `a` under a name, in place of what was there or in its position in the order. -/
def insertEntry (name : Text) (a : α) : List (Text × α) → List (Text × α)
  | [] => [(name, a)]
  | (n, b) :: rest =>
    if name < n then (name, a) :: (n, b) :: rest
    else if n = name then (name, a) :: rest
    else (n, b) :: insertEntry name a rest

theorem mem_insertEntry {name : Text} {a : α} {entries : List (Text × α)} {e : Text × α}
    (h : e ∈ insertEntry name a entries) : e = (name, a) ∨ e ∈ entries := by
  induction entries with
  | nil => simpa [insertEntry] using h
  | cons p rest ih =>
    obtain ⟨n, b⟩ := p
    unfold insertEntry at h
    split at h
    · simpa using h
    · split at h
      · rcases List.mem_cons.1 h with h | h
        · exact Or.inl h
        · exact Or.inr (List.mem_cons_of_mem _ h)
      · rcases List.mem_cons.1 h with h | h
        · exact Or.inr (h ▸ List.mem_cons_self)
        · rcases ih h with h | h
          · exact Or.inl h
          · exact Or.inr (List.mem_cons_of_mem _ h)

theorem sorted_insertEntry {name : Text} {a : α} {entries : List (Text × α)}
    (h : entries.Pairwise fun a b => a.1 < b.1) :
    (insertEntry name a entries).Pairwise fun a b => a.1 < b.1 := by
  induction entries with
  | nil => simp [insertEntry]
  | cons p rest ih =>
    obtain ⟨n, b⟩ := p
    have below := (List.pairwise_cons.1 h).1
    have tail := (List.pairwise_cons.1 h).2
    unfold insertEntry
    split
    · rename_i lt
      refine List.pairwise_cons.2 ⟨?_, h⟩
      intro e he
      rcases List.mem_cons.1 he with rfl | he
      · exact lt
      · exact List.lt_trans lt (below e he)
    · rename_i notLt
      split
      · rename_i same
        subst same
        exact List.pairwise_cons.2 ⟨fun e he => below e he, tail⟩
      · rename_i differs
        refine List.pairwise_cons.2 ⟨?_, ih tail⟩
        intro e he
        rcases mem_insertEntry he with rfl | he
        · refine Classical.byContradiction fun notGt => ?_
          exact differs (List.le_antisymm (List.not_lt.1 notLt) (List.not_lt.1 notGt))
        · exact below e he

/-- Files `a` under a name. -/
def insert (m : NameMap α) (name : Text) (a : α) : NameMap α :=
  ⟨insertEntry name a m.entries, sorted_insertEntry m.sorted⟩

/-- The map of a list of entries; a later entry replaces an earlier one of the same name. -/
def ofList (entries : List (Text × α)) : NameMap α :=
  entries.foldl (fun m (name, a) => m.insert name a) empty

/-- The same names with other contents. -/
def map (f : Text → α → β) (m : NameMap α) : NameMap β where
  entries := m.entries.map fun (name, a) => (name, f name a)
  sorted := List.pairwise_map.2 m.sorted

/-! ## Look-up -/

theorem lookup_insertEntry (name name' : Text) (a : α) (entries : List (Text × α)) :
    lookup name' (insertEntry name a entries) =
      if name' = name then some a else lookup name' entries := by
  induction entries with
  | nil =>
    by_cases h : name' = name
    · simp [insertEntry, lookup, h]
    · simp [insertEntry, lookup, h, Ne.symm h]
  | cons p rest ih =>
    obtain ⟨n, b⟩ := p
    unfold insertEntry
    split
    · by_cases h : name' = name
      · simp [lookup, h]
      · simp [lookup, h, Ne.symm h]
    · split
      · rename_i same
        subst same
        by_cases h : name' = n
        · simp [lookup, h]
        · simp [lookup, h, Ne.symm h]
      · rename_i differs
        simp only [lookup, ih]
        by_cases h : n = name'
        · subst h
          simp [differs]
        · simp [h]

@[simp] theorem find?_insert (m : NameMap α) (name name' : Text) (a : α) :
    (m.insert name a).find? name' = if name' = name then some a else m.find? name' :=
  lookup_insertEntry name name' a m.entries

@[simp] theorem find?_empty (name : Text) : (empty : NameMap α).find? name = none := rfl

theorem lookup_isSome_iff {name : Text} {entries : List (Text × α)} :
    (lookup name entries).isSome = true ↔ name ∈ entries.map Prod.fst := by
  induction entries with
  | nil => simp [lookup]
  | cons p rest ih =>
    obtain ⟨n, b⟩ := p
    by_cases h : n = name
    · simp [lookup, h]
    · simp [lookup, h, ih, Ne.symm h]

theorem mem_names_iff {m : NameMap α} {name : Text} :
    name ∈ m.names ↔ m.contains name = true := lookup_isSome_iff.symm

theorem names_sorted (m : NameMap α) : m.names.Pairwise (· < ·) := List.pairwise_map.2 m.sorted

@[simp] theorem find?_map (f : Text → α → β) (m : NameMap α) (name : Text) :
    (m.map f).find? name = (m.find? name).map (f name) := by
  simp only [find?, map]
  induction m.entries with
  | nil => rfl
  | cons p rest ih =>
    obtain ⟨n, b⟩ := p
    by_cases h : n = name
    · simp [lookup, h]
    · simp [lookup, h, ih]

@[simp] theorem names_map (f : Text → α → β) (m : NameMap α) : (m.map f).names = m.names := by
  simp [names, map, List.map_map, Function.comp_def]

/-! ## Extensionality -/

theorem lookup_eq_none_of_lt {name : Text} {entries : List (Text × α)}
    (h : ∀ e ∈ entries, name < e.1) : lookup name entries = none := by
  induction entries with
  | nil => rfl
  | cons p rest ih =>
    obtain ⟨n, b⟩ := p
    have differs : n ≠ name := fun same => List.lt_irrefl name (same ▸ h (n, b) List.mem_cons_self)
    simp only [lookup, if_neg differs]
    exact ih fun e he => h e (List.mem_cons_of_mem _ he)

theorem lookup_head_lt {n n' : Text} {a a' : α} {rest rest' : List (Text × α)}
    (sorted' : ((n', a') :: rest').Pairwise fun a b => a.1 < b.1)
    (same : ∀ name, lookup name ((n, a) :: rest) = lookup name ((n', a') :: rest')) :
    ¬ n < n' := by
  intro lt
  have missing : lookup n ((n', a') :: rest') = none := by
    refine lookup_eq_none_of_lt fun e he => ?_
    rcases List.mem_cons.1 he with rfl | he
    · exact lt
    · exact List.lt_trans lt ((List.pairwise_cons.1 sorted').1 e he)
  have found := same n
  rw [missing] at found
  simp [lookup] at found

theorem entries_eq_of_lookup {entries entries' : List (Text × α)}
    (sorted : entries.Pairwise fun a b => a.1 < b.1)
    (sorted' : entries'.Pairwise fun a b => a.1 < b.1)
    (same : ∀ name, lookup name entries = lookup name entries') : entries = entries' := by
  induction entries generalizing entries' with
  | nil =>
    cases entries' with
    | nil => rfl
    | cons p rest =>
      have found := same p.1
      simp [lookup] at found
  | cons p rest ih =>
    obtain ⟨n, a⟩ := p
    cases entries' with
    | nil =>
      have found := same n
      simp [lookup] at found
    | cons p' rest' =>
      obtain ⟨n', a'⟩ := p'
      have names : n = n' :=
        List.le_antisymm (List.not_lt.1 (lookup_head_lt sorted fun name => (same name).symm))
          (List.not_lt.1 (lookup_head_lt sorted' same))
      subst names
      have contents : a = a' := by simpa [lookup] using same n
      subst contents
      have below := (List.pairwise_cons.1 sorted).1
      have below' := (List.pairwise_cons.1 sorted').1
      refine congrArg _ (ih (List.pairwise_cons.1 sorted).2 (List.pairwise_cons.1 sorted').2 ?_)
      intro name
      by_cases h : n = name
      · subst h
        rw [lookup_eq_none_of_lt below, lookup_eq_none_of_lt below']
      · simpa [lookup, h] using same name

/-- A map is determined by its look-ups. -/
theorem ext_find? {m m' : NameMap α} (h : ∀ name, m.find? name = m'.find? name) : m = m' := by
  cases m
  cases m'
  congr
  exact entries_eq_of_lookup (by assumption) (by assumption) h

end NameMap
end Argot
