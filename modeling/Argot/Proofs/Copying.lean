import Argot.Interpreter.Clone
import Argot.Proofs.Twins

set_option autoImplicit false

/-!
# What a copied scope can reach

From a scope one gets to its parent and to the scopes that the closures bound in it
remember.  In a store that an interpreter has made, everything is below its global scope,
so cloning copies every scope; a copy has copies for parents, and the closures bound in it
remember copies.  Closures in lists are the exception: they still remember the scopes that
they were made in.

Where no list that can be reached holds such a closure, the scopes that can be reached
from the global scope and their copies correspond (`Store.corresponds_copied`).
-/

namespace Argot

open Value

/-! ## Values that keep to the store -/

namespace Value

mutual

/-- A scope in a value has a partner in every value that matches it. -/
theorem Matches.home_of_mem : (x : Value) → {y : Value} → {home : Pairing} →
    x.Matches .plain home y → ∀ j ∈ y.homes, ∃ i ∈ x.homes, home i j
  | .quote x, _, _, .quote inner => fun j member => by
    obtain ⟨_, _, impossible⟩ := Matches.home_of_mem x inner j member
    exact impossible.elim
  | .list xs, _, _, .list each => MatchesAll.home_of_mem xs each
  | .closure p b _, _, _, .closure params body remembers => fun j member => by
    rcases List.mem_append.1 member with own | inside
    · cases remembers with
      | none => cases own
      | some paired =>
        obtain rfl := List.mem_singleton.1 own
        exact ⟨_, List.mem_cons_self, paired⟩
    · rcases List.mem_append.1 inside with inParams | inBody
      · obtain ⟨_, _, impossible⟩ := Matches.home_of_mem p params j inParams
        exact impossible.elim
      · obtain ⟨_, _, impossible⟩ := Matches.home_of_mem b body j inBody
        exact impossible.elim
  | .scopedLet p b, _, _, .scopedLet bindings body => fun j member => by
    rcases List.mem_append.1 member with inBindings | inBody
    · obtain ⟨_, _, impossible⟩ := Matches.home_of_mem p bindings j inBindings
      exact impossible.elim
    · obtain ⟨_, _, impossible⟩ := Matches.home_of_mem b body j inBody
      exact impossible.elim
  | .nil, _, _, .nil => fun _ member => absurd member List.not_mem_nil
  | .symbol _, _, _, .symbol _ => fun _ member => absurd member List.not_mem_nil
  | .number _, _, _, .number _ => fun _ member => absurd member List.not_mem_nil
  | .boolean _, _, _, .boolean _ => fun _ member => absurd member List.not_mem_nil
  | .string _, _, _, .string _ => fun _ member => absurd member List.not_mem_nil
  | .builtin _, _, _, .builtin _ => fun _ member => absurd member List.not_mem_nil

theorem MatchesAll.home_of_mem : (xs : List Value) → {ys : List Value} → {home : Pairing} →
    MatchesAll .plain home xs ys → ∀ j ∈ homesOfAll ys, ∃ i ∈ homesOfAll xs, home i j
  | [], _, _, .nil => fun _ member => absurd member List.not_mem_nil
  | x :: xs, _, _, .cons first rest => fun j member => by
    rcases List.mem_append.1 member with here | later
    · obtain ⟨i, found, paired⟩ := Matches.home_of_mem x first j here
      exact ⟨i, List.mem_append_left _ found, paired⟩
    · obtain ⟨i, found, paired⟩ := MatchesAll.home_of_mem xs rest j later
      exact ⟨i, List.mem_append_right _ found, paired⟩

end

/-- Closures in the value remember scopes below the bound, and apart from that the value is
one that programs make: program text in it mentions no scopes, and no builtin is a
function of the host. -/
def Settled (bound : Nat) (x : Value) : Prop :=
  x.Matches .plain (Pairing.within (.since 0) bound bound) x

theorem Settled.lt_of_mem {bound : Nat} {x : Value} (h : x.Settled bound) {i : Nat}
    (member : i ∈ x.homes) : i < bound := by
  obtain ⟨_, _, paired⟩ := Matches.home_of_mem x h i member
  exact paired.2.2

end Value

namespace Store

/-- Every value that is bound is one that programs make, over the scopes of the store. -/
def Settled (s : Store) : Prop := ∀ i n x, s.local? i n = some x → x.Settled s.size

theorem Corresponds.settled {s : Store} (h : s.Corresponds .plain (.since 0) s) : s.Settled := by
  intro i n x bound
  have self := h.binding (i := i) ⟨rfl, Nat.zero_le i⟩ n
  change Option.Rel _ (s.local? i n) (s.local? i n) at self
  rw [bound] at self
  cases self with
  | some matching => exact matching

/-! ## Reachable scopes -/

/-- One gets from the root to a scope by parents and by closures that are bound. -/
inductive Reaches (s : Store) (root : Nat) : Nat → Prop where
  | root : Reaches s root root
  | parent {i p : Nat} (reached : Reaches s root i) (link : s.parent? i = some p) :
      Reaches s root p
  | home {i h : Nat} {n : Text} {x : Value} (reached : Reaches s root i)
      (bound : s.local? i n = some x) (member : h ∈ x.homes) : Reaches s root h

theorem Reaches.trans {s : Store} {a b c : Nat} (h : s.Reaches a b) (h' : s.Reaches b c) :
    s.Reaches a c := by
  induction h' with
  | root => exact h
  | parent _ link ih => exact .parent ih link
  | home _ bound member ih => exact .home ih bound member

theorem Reaches.lt {s : Store} (settled : s.Settled) {root i : Nat} (there : root < s.size)
    (h : s.Reaches root i) : i < s.size := by
  induction h with
  | root => exact there
  | parent _ link ih => exact Nat.lt_trans (parent?_lt link) ih
  | home _ bound member _ => exact (settled _ _ _ bound).lt_of_mem member

/-- In stores that correspond, what can be reached from a paired scope is paired. -/
theorem Corresponds.reaches {σ : Pairing} {s t : Store} (h : s.Corresponds .plain σ t)
    {root root' : Nat} (paired : σ.within s.size t.size root root') {j : Nat}
    (reached : t.Reaches root' j) : ∃ i, σ.within s.size t.size i j := by
  induction reached with
  | root => exact ⟨root, paired⟩
  | @parent i' p' _ link ih =>
    obtain ⟨i, pair⟩ := ih
    have parents := h.parent_within pair
    rw [link] at parents
    generalize s.parent? i = p at parents
    cases parents with
    | some pair' => exact ⟨_, pair'⟩
  | @home i' h' n y _ bound member ih =>
    obtain ⟨i, pair, _, _⟩ := ih
    have values := h.binding pair n
    change Option.Rel _ (s.local? i n) (t.local? i' n) at values
    rw [bound] at values
    generalize s.local? i n = x at values
    cases values with
    | some matching =>
      obtain ⟨k, _, pair'⟩ := Matches.home_of_mem _ matching h' member
      exact ⟨k, pair'⟩

/-- Every scope that can be reached stands for itself, and so does every one yet to come. -/
def reached (s : Store) (root : Nat) : Pairing :=
  fun i i' => i' = i ∧ (s.Reaches root i ∨ s.size ≤ i)

/-- A store corresponds to itself in what can be reached from a scope. -/
theorem Settled.corresponds_reached {s : Store} (settled : s.Settled) (root : Nat) :
    s.Corresponds .plain (s.reached root) s where
  unique := by
    rintro i _ j _ ⟨rfl, _⟩ ⟨rfl, _⟩
    rfl
  present := by
    rintro i _ ⟨rfl, _⟩
    rfl
  fresh k := ⟨rfl, .inr (Nat.le_add_right _ k)⟩
  written := False.elim
  parent := by
    rintro _ i ⟨rfl, known⟩
    cases link : s.parent? i with
    | none => exact .none
    | some p =>
      refine .some ⟨rfl, .inl ?_⟩
      rcases known with reached | new
      · exact .parent reached link
      · rw [parent?_eq_none_of_le new] at link
        cases link
  binding := by
    rintro _ i ⟨rfl, known⟩ n
    show Option.Rel _ (s.local? i n) (s.local? i n)
    cases bound : s.local? i n with
    | none => exact .none
    | some x =>
      have self := settled i n x bound
      refine .some (Matches.mono_homes x ?_ self)
      rintro _ j member ⟨⟨rfl, _⟩, below⟩
      rcases known with reached | new
      · exact ⟨⟨rfl, .inl (.home reached bound member)⟩, below⟩
      · rw [local?_eq_none_of_le new] at bound
        cases bound

/-! ## Copies -/

/-- Where every item of a list gives something, items stay in their places. -/
theorem getElem?_filterMap_of_isSome {α β : Type} {f : α → Option β} {xs : List α}
    (all : ∀ x ∈ xs, (f x).isSome) (k : Nat) : (xs.filterMap f)[k]? = xs[k]?.bind f := by
  induction xs generalizing k with
  | nil => rfl
  | cons x xs ih =>
    obtain ⟨y, given⟩ := Option.isSome_iff_exists.1 (all x List.mem_cons_self)
    rw [List.filterMap_cons_some given]
    cases k with
    | zero => exact given.symm
    | succ k => exact ih (fun x member => all x (List.mem_cons_of_mem _ member)) k

theorem frames_foldl_push (g : Frame → Frame) (fs : List Frame) (t : Store) :
    (fs.foldl (fun t f => t.push (g f)) t).frames = t.frames ++ (fs.map g).toArray := by
  induction fs generalizing t with
  | nil => simp
  | cons f fs ih =>
    rw [List.foldl_cons, ih]
    simp [push]

theorem frames_copies (s : Store) (root : Nat) :
    (s.copyBelow root).frames = s.frames ++ (((Relocation.below s root).scopes.filterMap
      s.frame?).map (Relocation.below s root).frame).toArray :=
  frames_foldl_push _ _ s

theorem untouched_copyBelow (s : Store) (root : Nat) : s.Untouched (s.copyBelow root) := by
  intro i f found
  rw [frame?, frames_copies, Array.getElem?_append_left (frame?_lt found)]
  exact found

section Image

variable {s : Store} {root i : Nat}

theorem mem_scopes_below :
    i ∈ (Relocation.below s root).scopes ↔ i < s.size ∧ root ∈ s.chain i := by
  rw [Relocation.below, List.mem_filter, List.mem_range, List.contains_iff_mem]

theorem root_mem_scopes (there : root < s.size) : root ∈ (Relocation.below s root).scopes := by
  rw [mem_scopes_below, chain_eq, if_pos there]
  exact ⟨there, List.mem_cons_self⟩

/-- The place of a copy among the copies. -/
theorem exists_image (member : i ∈ (Relocation.below s root).scopes) :
    ∃ k, (Relocation.below s root).image i = s.size + k ∧
      (Relocation.below s root).scopes[k]? = some i := by
  obtain ⟨k, place⟩ := Option.isSome_iff_exists.1 (List.isSome_idxOf?.2 member)
  obtain ⟨within, here, _⟩ := List.idxOf?_eq_some_iff.1 place
  refine ⟨k, ?_, ?_⟩
  · rw [Relocation.image, place]
    rfl
  · rw [List.getElem?_eq_getElem within, here]

theorem image_of_not_mem (missing : i ∉ (Relocation.below s root).scopes) :
    (Relocation.below s root).image i = i := by
  rw [Relocation.image, List.idxOf?_eq_none_iff.2 missing]

/-- At the image of a scope there is its copy. -/
theorem frame?_image (member : i ∈ (Relocation.below s root).scopes) :
    (s.copyBelow root).frame? ((Relocation.below s root).image i) =
      (s.frame? i).map (Relocation.below s root).frame := by
  have present : ∀ j ∈ (Relocation.below s root).scopes, (s.frame? j).isSome := by
    intro j among
    obtain ⟨_, same⟩ := frame?_isSome (mem_scopes_below.1 among).1
    exact Option.isSome_of_mem same
  obtain ⟨k, image, place⟩ := exists_image member
  rw [frame?, frames_copies, image, size, Array.getElem?_append_right (Nat.le_add_right _ _),
    Nat.add_sub_cancel_left, List.getElem?_toArray, List.getElem?_map,
    getElem?_filterMap_of_isSome present, place, Option.bind_some]

end Image

/-- All scopes are below the root, which is itself without parent. -/
structure RootedAt (root : Nat) (s : Store) : Prop where
  there : root < s.size
  alone : ∀ f, s.frame? root = some f → f.parent = none
  linked : ∀ i, i < s.size → i ≠ root → ∃ p, s.parent? i = some p

section Copies

variable {s : Store} {root : Nat}

theorem RootedAt.mem_chain (rooted : s.RootedAt root) {i : Nat} (there : i < s.size) :
    root ∈ s.chain i := by
  rw [chain_eq, if_pos there]
  by_cases same : i = root
  · exact same ▸ List.mem_cons_self
  · obtain ⟨p, link⟩ := rooted.linked i there same
    have older := parent?_lt link
    rw [link]
    exact List.mem_cons_of_mem _ (mem_chain rooted (Nat.lt_trans older there))
termination_by i

/-- Every scope is copied. -/
theorem RootedAt.below_eq (rooted : s.RootedAt root) :
    Relocation.below s root = ⟨List.range s.size, s.size⟩ := by
  have all : (List.range s.size).filter (fun i => (s.chain i).contains root) =
      List.range s.size := by
    refine List.filter_eq_self.2 fun i member => ?_
    exact List.contains_iff_mem.2 (rooted.mem_chain (List.mem_range.1 member))
  rw [Relocation.below, all]

theorem RootedAt.image_eq (rooted : s.RootedAt root) {i : Nat} (there : i < s.size) :
    (Relocation.below s root).image i = s.size + i := by
  have index : (List.range s.size).idxOf? i = some i := by
    refine List.idxOf?_eq_some_iff.2 ⟨by simpa using there, by simp, ?_⟩
    intro j earlier
    rw [List.getElem_range]
    omega
  rw [rooted.below_eq, Relocation.image, index]

theorem filterMap_frame? (s : Store) :
    (List.range s.size).filterMap s.frame? = s.frames.toList := by
  have listed : s.frame? = fun i => s.frames.toList[i]? := by
    funext i
    rw [frame?, Array.getElem?_toList]
  rw [listed, size, ← Array.length_toList]
  induction s.frames.toList with
  | nil => rfl
  | cons f fs ih =>
    rw [List.length_cons, List.range_succ_eq_map, List.filterMap_cons]
    simpa [List.filterMap_map] using ih

theorem RootedAt.frames_copyBelow (rooted : s.RootedAt root) :
    (s.copyBelow root).frames = s.frames ++ s.frames.map (Relocation.below s root).frame := by
  have scopes : (Relocation.below s root).scopes = List.range s.size :=
    congrArg Relocation.scopes rooted.below_eq
  rw [copyBelow, frames_foldl_push, scopes, filterMap_frame?, ← Array.toList_map,
    Array.toArray_toList]

theorem RootedAt.size_copyBelow (rooted : s.RootedAt root) :
    (s.copyBelow root).size = s.size + s.size := by
  rw [size, rooted.frames_copyBelow, Array.size_append, Array.size_map]
  rfl

/-- The old scopes are left as they are. -/
theorem RootedAt.frame?_copyBelow (rooted : s.RootedAt root) {i : Nat} (old : i < s.size) :
    (s.copyBelow root).frame? i = s.frame? i := by
  rw [frame?, rooted.frames_copyBelow, Array.getElem?_append_left old, frame?]

/-- The copy of a scope. -/
theorem RootedAt.frame?_copy (rooted : s.RootedAt root) (i : Nat) :
    (s.copyBelow root).frame? (s.size + i) =
      (s.frame? i).map (Relocation.below s root).frame := by
  have behind : s.frames.size ≤ s.size + i := Nat.le_add_right _ i
  rw [frame?, rooted.frames_copyBelow, Array.getElem?_append_right behind, Array.getElem?_map,
    frame?]
  exact congrArg (fun k => Option.map _ s.frames[k]?) (Nat.add_sub_cancel_left s.size i)

theorem RootedAt.parent?_copyBelow (rooted : s.RootedAt root) {i : Nat} (old : i < s.size) :
    (s.copyBelow root).parent? i = s.parent? i := by
  rw [parent?, parent?, rooted.frame?_copyBelow old]

theorem RootedAt.local?_copyBelow (rooted : s.RootedAt root) {i : Nat} (old : i < s.size)
    (n : Text) : (s.copyBelow root).local? i n = s.local? i n := by
  rw [local?, local?, rooted.frame?_copyBelow old]

/-- The parent of a copy is the copy of the parent. -/
theorem RootedAt.parent?_copy (rooted : s.RootedAt root) {i : Nat} (there : i < s.size) :
    (s.copyBelow root).parent? (s.size + i) = (s.parent? i).map (s.size + ·) := by
  obtain ⟨f, found⟩ := frame?_isSome there
  rw [parent?, rooted.frame?_copy, found, Option.map_some, Option.bind_some]
  by_cases same : i = root
  · subst same
    have alone := rooted.alone f found
    rw [parent?, found, Option.bind_some, Relocation.frame, alone]
    rfl
  · obtain ⟨p, link⟩ := rooted.linked i there same
    have older := parent?_lt link
    have raw : f.parent = some p := by
      rw [parent?, found, Option.bind_some] at link
      exact (Option.filter_eq_some_iff.1 link).1
    rw [link, Relocation.frame, raw, Option.map_some, Option.map_some,
      rooted.image_eq (Nat.lt_trans older there), Option.filter_some,
      decide_eq_true (Nat.add_lt_add_left older s.size)]
    rfl

/-- What a copy binds: the same, but closures remember copies. -/
theorem RootedAt.local?_copy (rooted : s.RootedAt root) (i : Nat) (n : Text) :
    (s.copyBelow root).local? (s.size + i) n =
      (s.local? i n).map (Relocation.below s root).value := by
  rw [local?, rooted.frame?_copy, local?]
  cases s.frame? i with
  | none => rfl
  | some f =>
    rw [Option.map_some, Option.bind_some, Option.bind_some, Relocation.frame, NameMap.find?_map]

/-- What a copy binds matches what was bound before, if scopes are paired with their copies
and no closure of a list remembers a scope. -/
theorem RootedAt.matches_value (rooted : s.RootedAt root) {x : Value} (settled : x.Settled s.size)
    {home : Pairing} (copied : ∀ i ∈ x.homes, home i (s.size + i))
    (direct : ∀ xs, x = .list xs → x.homes = []) :
    x.Matches .plain home ((Relocation.below s root).value x) := by
  cases x with
  | closure p b remembered =>
    cases settled with
    | closure params body remembers =>
    cases remembered with
    | none => exact .closure params body .none
    | some h =>
      have there : h < s.size := by
        cases remembers with
        | some paired => exact paired.2.1
      rw [Relocation.value, rooted.image_eq there]
      exact .closure params body (.some (copied h List.mem_cons_self))
  | list xs =>
    have none := direct xs rfl
    refine Matches.mono_homes (.list xs) ?_ settled
    intro i i' member
    rw [none] at member
    cases member
  | quote x =>
    cases settled with
    | quote inner => exact .quote inner
  | builtin b =>
    cases settled with
    | builtin known => exact .builtin known
  | scopedLet p b =>
    cases settled with
    | scopedLet bindings body => exact .scopedLet bindings body
  | nil => exact .nil
  | symbol n => exact .symbol n
  | number x => exact .number x
  | boolean b => exact .boolean b
  | string t => exact .string t

theorem RootedAt.settled_value (rooted : s.RootedAt root) {x : Value} (settled : x.Settled s.size) :
    ((Relocation.below s root).value x).Settled (s.size + s.size) := by
  have wider : s.size ≤ s.size + s.size := Nat.le_add_right _ _
  cases x with
  | closure p b remembered =>
    cases settled with
    | closure params body remembers =>
    cases remembered with
    | none => exact .closure params body .none
    | some h =>
      have there : h < s.size := by
        cases remembers with
        | some paired => exact paired.2.1
      rw [Relocation.value, rooted.image_eq there]
      have below : s.size + h < s.size + s.size := Nat.add_lt_add_left there _
      exact .closure params body (.some ⟨⟨rfl, Nat.zero_le _⟩, below, below⟩)
  | _ => exact settled.mono (Pairing.within_mono wider wider)

theorem RootedAt.settled_copyBelow (rooted : s.RootedAt root) (settled : s.Settled) :
    (s.copyBelow root).Settled := by
  intro i n x bound
  rw [rooted.size_copyBelow]
  by_cases old : i < s.size
  · rw [rooted.local?_copyBelow old] at bound
    have wider : s.size ≤ s.size + s.size := Nat.le_add_right _ _
    exact (settled i n x bound).mono (Pairing.within_mono wider wider)
  · obtain ⟨k, rfl⟩ := Nat.exists_eq_add_of_le (Nat.le_of_not_lt old)
    rw [rooted.local?_copy] at bound
    obtain ⟨y, known, rfl⟩ := Option.map_eq_some_iff.1 bound
    exact rooted.settled_value (settled k n y known)

/-- No list that can be reached holds a closure that remembers a scope: every such closure
is itself the value of a name. -/
def ClosuresStandAlone (s : Store) (root : Nat) : Prop :=
  ∀ i n xs, s.Reaches root i → s.local? i n = some (.list xs) → (Value.list xs).homes = []

/-- Every scope that can be reached is paired with its copy, and every scope yet to come
with the one that is as far behind the copies. -/
def copied (s : Store) (root : Nat) : Pairing :=
  fun i j => j = s.size + i ∧ (s.Reaches root i ∨ s.size ≤ i)

/-- Where closures stand alone, scopes and their copies correspond. -/
theorem RootedAt.corresponds_copied (rooted : s.RootedAt root) (settled : s.Settled)
    (standAlone : s.ClosuresStandAlone root) :
    s.Corresponds .plain (s.copied root) (s.copyBelow root) where
  unique := by
    rintro i _ j _ ⟨rfl, _⟩ ⟨rfl, _⟩
    omega
  present := by
    rintro i _ ⟨rfl, _⟩
    rw [rooted.size_copyBelow]
    omega
  fresh k := ⟨by rw [rooted.size_copyBelow, Nat.add_assoc], .inr (Nat.le_add_right _ k)⟩
  written := False.elim
  parent := by
    rintro i _ ⟨rfl, known⟩
    rcases known with reached | new
    · rw [rooted.parent?_copy (reached.lt settled rooted.there)]
      cases link : s.parent? i with
      | none => exact .none
      | some p => exact .some ⟨rfl, .inl (.parent reached link)⟩
    · have new' : (s.copyBelow root).size ≤ s.size + i := by
        rw [rooted.size_copyBelow]
        omega
      rw [parent?_eq_none_of_le new, parent?_eq_none_of_le new']
      exact .none
  binding := by
    rintro i _ ⟨rfl, known⟩ n
    show Option.Rel _ (s.local? i n) ((s.copyBelow root).local? (s.size + i) n)
    rw [rooted.local?_copy, rooted.size_copyBelow]
    cases bound : s.local? i n with
    | none => exact .none
    | some x =>
      rcases known with reached | new
      · refine .some (rooted.matches_value (settled i n x bound) ?_ ?_)
        · intro h member
          have there := (settled i n x bound).lt_of_mem member
          exact ⟨⟨rfl, .inl (.home reached bound member)⟩, there, Nat.add_lt_add_left there _⟩
        · rintro xs rfl
          exact standAlone i n xs reached bound
      · rw [local?_eq_none_of_le new] at bound
        cases bound

/-- From an old scope one gets to the old root. -/
theorem RootedAt.reaches_root_copyBelow (rooted : s.RootedAt root) {i : Nat} (old : i < s.size) :
    (s.copyBelow root).Reaches i root := by
  by_cases same : i = root
  · exact same ▸ .root
  · obtain ⟨p, link⟩ := rooted.linked i old same
    have older := parent?_lt link
    have above := reaches_root_copyBelow rooted (Nat.lt_trans older old)
    exact .trans (.parent .root (rooted.parent?_copyBelow old ▸ link)) above
termination_by i

/-- A closure that is moved remembers the copy of its scope; all others remember what they
did. -/
theorem RootedAt.mem_homes_value (rooted : s.RootedAt root) {x : Value} {h : Nat}
    (there : h < s.size) (member : h ∈ x.homes) :
    h ∈ ((Relocation.below s root).value x).homes ∨
      s.size + h ∈ ((Relocation.below s root).value x).homes := by
  cases x with
  | closure p b remembered =>
    cases remembered with
    | none => exact .inl member
    | some h₀ =>
      rcases List.mem_cons.1 member with rfl | inside
      · rw [Relocation.value, rooted.image_eq there]
        exact .inr List.mem_cons_self
      · exact .inl (List.mem_cons_of_mem _ inside)
  | _ => exact .inl member

/-- From the copy of the root one gets back to the root, or else to the copies of all that
can be reached. -/
theorem RootedAt.reaches_copy (rooted : s.RootedAt root) (settled : s.Settled) {i : Nat}
    (reached : s.Reaches root i) :
    (s.copyBelow root).Reaches (s.size + root) root ∨
      (s.copyBelow root).Reaches (s.size + root) (s.size + i) := by
  induction reached with
  | root => exact .inr .root
  | @parent i p reached link ih =>
    refine ih.imp_right fun copy => .parent copy ?_
    rw [rooted.parent?_copy (reached.lt settled rooted.there), link, Option.map_some]
  | @home i h n x reached bound member ih =>
    rcases ih with back | copy
    · exact .inl back
    have there := (settled i n x bound).lt_of_mem member
    have moved := rooted.local?_copy i n
    rw [bound, Option.map_some] at moved
    -- a closure that is left as it was leads out of the copies, and from there to the root
    rcases rooted.mem_homes_value there member with stays | moves
    · exact .inl (.trans (.home copy moved stays) (rooted.reaches_root_copyBelow there))
    · exact .inr (.home copy moved moves)

/-- Closures stand alone exactly if one cannot get back from the copy of the root to the
root. -/
theorem RootedAt.closuresStandAlone_iff (rooted : s.RootedAt root) (settled : s.Settled) :
    s.ClosuresStandAlone root ↔ ¬ (s.copyBelow root).Reaches (s.size + root) root := by
  constructor
  · intro standAlone back
    have corresponds := rooted.corresponds_copied settled standAlone
    have paired : (s.copied root).within s.size (s.copyBelow root).size root (s.size + root) := by
      refine ⟨⟨rfl, .inl .root⟩, rooted.there, ?_⟩
      rw [rooted.size_copyBelow]
      exact Nat.add_lt_add_left rooted.there _
    -- all that is reached from a copy is a copy, and copies stand behind the old scopes
    obtain ⟨i, ⟨behind, _⟩, _, _⟩ := corresponds.reaches paired back
    have := rooted.there
    omega
  · intro apart i n xs reached bound
    refine List.eq_nil_iff_forall_not_mem.2 fun h member => apart ?_
    rcases rooted.reaches_copy settled reached with back | copy
    · exact back
    · have there := (settled i n _ bound).lt_of_mem member
      have same := rooted.local?_copy i n
      rw [bound, Option.map_some] at same
      exact .trans (.home copy same member) (rooted.reaches_root_copyBelow there)

end Copies
end Store
end Argot
