import Mathlib.Data.List.DropRight
import Mathlib.Data.Set.Card
import Argot.Interpreter.Basic

set_option autoImplicit false

/-!
# The cache as a queue

The slots of a cache hold both its entries and their order.  Taken apart they are a
`Catalogue`: a map from keys to entries, and a queue of the keys.  A new key is queued at the
end, and if the queue is full, the key at its front leaves it together with its entry; an
entry of a key that is queued already is replaced where it is.  The cache does to its slots
what is done here to map and queue (`ParseCache.catalogue_put`).

Map and queue stay in step (`Catalogue.Sound`).  As long as no two texts in use have the same
key, the queue holds the last texts that were put, as many as there is room for
(`Catalogue.Recent`).
-/

namespace Argot

/-! ## Requests -/

/-- A text that is looked up, with its forms if it can be read. -/
structure Request where
  text : Text
  forms : Option (List Value)

namespace Request

variable {σ : Type} (get : Text → σ → Option (List Value) × σ) (put : Text → List Value → σ → σ)

/-- Looks the text up, and puts it if it was not found and has forms.  Answers what was
put. -/
def serve (q : Request) (s : σ) : Option (Text × List Value) × σ :=
  match get q.text s, q.forms with
  | (none, s), some forms => (some (q.text, forms), put q.text forms s)
  | (_, s), _ => (none, s)

/-- Serves requests one after another.  Answers what was put, in order. -/
def serveAll : List Request → σ → List (Text × List Value) × σ
  | [], s => ([], s)
  | q :: rest, s =>
    let (new, s) := q.serve get put s
    let (later, s) := serveAll rest s
    (new.toList ++ later, s)

/-- A request is served by looking up alone, or by looking up in vain and putting. -/
theorem serve_cases (q : Request) (s : σ) :
    q.serve get put s = (none, (get q.text s).2) ∨
      ∃ forms, (get q.text s).1 = none ∧
        q.serve get put s = (some (q.text, forms), put q.text forms (get q.text s).2) := by
  unfold serve
  generalize get q.text s = out
  obtain ⟨found, s'⟩ := out
  cases found with
  | some _ => exact .inl rfl
  | none =>
    cases q.forms with
    | none => exact .inl rfl
    | some forms => exact .inr ⟨forms, rfl, rfl⟩

variable {get put}

theorem serveAll_cons (q : Request) (rest : List Request) (s : σ) :
    serveAll get put (q :: rest) s =
      ((q.serve get put s).1.toList ++ (serveAll get put rest (q.serve get put s).2).1,
        (serveAll get put rest (q.serve get put s).2).2) := rfl

/-- Requests are served alike in states that answer alike and change alike. -/
theorem serveAll_map {τ : Type} {get' : Text → τ → Option (List Value) × τ}
    {put' : Text → List Value → τ → τ} (view : σ → τ) (P : σ → Prop)
    (got : ∀ text s, P s → get' text (view s) = ((get text s).1, view (get text s).2) ∧
      P (get text s).2)
    (filed : ∀ text forms s, P s → put' text forms (view s) = view (put text forms s) ∧
      P (put text forms s))
    (requests : List Request) (s : σ) (has : P s) :
    serveAll get' put' requests (view s) =
      ((serveAll get put requests s).1, view (serveAll get put requests s).2) := by
  induction requests generalizing s with
  | nil => rfl
  | cons q rest ih =>
    obtain ⟨found, has'⟩ := got q.text s has
    have step : q.serve get' put' (view s) = ((q.serve get put s).1, view (q.serve get put s).2) ∧
        P (q.serve get put s).2 := by
      unfold serve
      rw [found]
      generalize get q.text s = out at has'
      obtain ⟨answer, s'⟩ := out
      cases answer with
      | some _ => exact ⟨rfl, has'⟩
      | none =>
        cases q.forms with
        | none => exact ⟨rfl, has'⟩
        | some forms =>
          obtain ⟨same, has''⟩ := filed q.text forms s' has'
          exact ⟨congrArg (some (q.text, forms), ·) same, has''⟩
    rw [serveAll_cons, serveAll_cons, step.1, ih _ step.2]

end Request

/-! ## Map and queue -/

/-- A cache in two parts: the entries by their keys, and the keys in the order in which they
came. -/
structure Catalogue where
  capacity : Nat
  entries : UInt64 → Option (Text × List Value)
  order : List UInt64
  hits : Nat
  misses : Nat

namespace Catalogue

/-- Nothing is filed yet. -/
def ofCapacity (capacity : Nat) : Catalogue := ⟨capacity, fun _ => none, [], 0, 0⟩

/-- The forms that are filed for a text. -/
def get (hash : Text → UInt64) (text : Text) (x : Catalogue) : Option (List Value) × Catalogue :=
  if x.capacity = 0 then (none, x)
  else
    match (x.entries (hash text)).filter (·.1 == text) with
    | some e => (some e.2, { x with hits := x.hits + 1 })
    | none => (none, { x with misses := x.misses + 1 })

/-- The key at the front leaves the queue, and its entry leaves the map. -/
def dropOldest (x : Catalogue) : Catalogue :=
  { x with
    entries := fun key => if x.order.head? = some key then none else x.entries key
    order := x.order.tail }

/-- Room for a new key: the oldest goes if all is taken. -/
def makeRoom (x : Catalogue) : Catalogue :=
  if x.capacity ≤ x.order.length then x.dropOldest else x

/-- Queues a new key. -/
def enqueue (key : UInt64) (x : Catalogue) : Catalogue :=
  { x.makeRoom with order := x.makeRoom.order ++ [key] }

/-- Files the forms of a text under its key. -/
def put (hash : Text → UInt64) (text : Text) (forms : List Value) (x : Catalogue) : Catalogue :=
  if x.capacity = 0 then x
  else
    let x := if (x.entries (hash text)).isSome then x else x.enqueue (hash text)
    { x with entries := Function.update x.entries (hash text) (some (text, forms)) }

/-- Serves requests one after another. -/
abbrev serveAll (hash : Text → UInt64) (requests : List Request) (x : Catalogue) :
    List (Text × List Value) × Catalogue :=
  Request.serveAll (get hash) (put hash) requests x

/-! ## In step -/

/-- Map and queue are in step: the map has entries for just the keys in the queue, which are
all different and not too many, and each entry is filed under the key of its own text. -/
structure Sound (hash : Text → UInt64) (x : Catalogue) : Prop where
  nodup : x.order.Nodup
  keys : ∀ key, (x.entries key).isSome ↔ key ∈ x.order
  bounded : x.order.length ≤ x.capacity
  filed : ∀ key e, x.entries key = some e → key = hash e.1

variable {hash : Text → UInt64} {text : Text} {forms : List Value} {x : Catalogue} {key : UInt64}

theorem sound_ofCapacity (hash : Text → UInt64) (capacity : Nat) :
    (ofCapacity capacity).Sound hash where
  nodup := .nil
  keys _ := by simp [ofCapacity]
  bounded := Nat.zero_le _
  filed := by
    intro key e found
    cases found

/-- Looking up changes the counts only. -/
theorem get_snd (hash : Text → UInt64) (text : Text) (x : Catalogue) :
    ∃ hits misses, (x.get hash text).2 = { x with hits := hits, misses := misses } ∧
      (x.capacity ≠ 0 → hits + misses = x.hits + x.misses + 1) := by
  unfold get
  split
  · rename_i off
    exact ⟨x.hits, x.misses, rfl, fun on => absurd off on⟩
  · split
    · exact ⟨x.hits + 1, x.misses, rfl, fun _ => by omega⟩
    · exact ⟨x.hits, x.misses + 1, rfl, fun _ => by omega⟩

theorem Sound.get (sound : x.Sound hash) (text : Text) : (x.get hash text).2.Sound hash := by
  obtain ⟨hits, misses, same, _⟩ := get_snd hash text x
  rw [same]
  exact ⟨sound.nodup, sound.keys, sound.bounded, sound.filed⟩

theorem Sound.dropOldest (sound : x.Sound hash) : x.dropOldest.Sound hash := by
  obtain ⟨capacity, entries, order, hits, misses⟩ := x
  obtain ⟨nodup, keys, bounded, filed⟩ := sound
  cases order with
  | nil => exact ⟨nodup, fun key => by simpa [Catalogue.dropOldest] using keys key, bounded,
      fun key e found => filed key e (by simpa [Catalogue.dropOldest] using found)⟩
  | cons oldest rest =>
    obtain ⟨gone, others⟩ := List.nodup_cons.1 nodup
    refine ⟨others, fun key => ?_, Nat.le_of_succ_le bounded, fun key e found => ?_⟩
    · have before := keys key
      by_cases same : oldest = key
      · subst same
        simp [Catalogue.dropOldest, gone]
      · simpa [Catalogue.dropOldest, same, Ne.symm same] using before
    · refine filed key e ?_
      simp only [Catalogue.dropOldest] at found
      split at found
      · cases found
      · exact found

theorem Sound.makeRoom (sound : x.Sound hash) : x.makeRoom.Sound hash := by
  unfold Catalogue.makeRoom
  split
  · exact sound.dropOldest
  · exact sound

theorem capacity_makeRoom (x : Catalogue) : x.makeRoom.capacity = x.capacity := by
  unfold makeRoom
  split <;> rfl

/-- There is room where room was made. -/
theorem length_makeRoom_lt (on : x.capacity ≠ 0) (bounded : x.order.length ≤ x.capacity) :
    x.makeRoom.order.length < x.capacity := by
  unfold makeRoom
  split
  · show x.order.tail.length < x.capacity
    rw [List.length_tail]
    omega
  · omega

/-- A key that has no entry gets none when room is made. -/
theorem entries_makeRoom (new : x.entries key = none) : x.makeRoom.entries key = none := by
  unfold makeRoom
  split
  · simp only [dropOldest, new, ite_self]
  · exact new

theorem Sound.not_mem_makeRoom (sound : x.Sound hash) (new : x.entries key = none) :
    key ∉ x.makeRoom.order := by
  rw [← sound.makeRoom.keys, entries_makeRoom new]
  exact Bool.false_ne_true

/-- Filing an entry under a key that is queued: the other keys are in step already. -/
theorem sound_update (nodup : x.order.Nodup) (queued : hash text ∈ x.order)
    (keys : ∀ key, key ≠ hash text → ((x.entries key).isSome ↔ key ∈ x.order))
    (bounded : x.order.length ≤ x.capacity)
    (filed : ∀ key e, x.entries key = some e → key = hash e.1) (forms : List Value) :
    Sound hash
      { x with entries := Function.update x.entries (hash text) (some (text, forms)) } where
  nodup := nodup
  keys key := by
    by_cases same : key = hash text
    · subst same
      simpa using queued
    · simpa [Function.update_of_ne same] using keys key same
  bounded := bounded
  filed key e found := by
    by_cases same : key = hash text
    · subst same
      simp only [Function.update_self] at found
      cases found
      rfl
    · simp only [Function.update_of_ne same] at found
      exact filed key e found

theorem Sound.put (sound : x.Sound hash) (text : Text) (forms : List Value) :
    (x.put hash text forms).Sound hash := by
  unfold Catalogue.put
  split
  · exact sound
  rename_i on
  cases found : x.entries (hash text) with
  | some e =>
    -- the entry of a queued key is replaced, whatever text it was for
    have queued : hash text ∈ x.order := (sound.keys _).1 (by rw [found]; rfl)
    exact sound_update sound.nodup queued (fun key _ => sound.keys key) sound.bounded
      sound.filed forms
  | none =>
    have kept := sound.makeRoom
    refine sound_update (x := x.enqueue (hash text)) ?_ List.mem_concat_self ?_ ?_ kept.filed forms
    · show (x.makeRoom.order ++ [hash text]).Nodup
      rw [← List.concat_eq_append]
      exact .concat (sound.not_mem_makeRoom found) kept.nodup
    · intro key other
      simpa [Catalogue.enqueue, other] using kept.keys key
    · show (x.makeRoom.order ++ [hash text]).length ≤ x.makeRoom.capacity
      rw [List.length_append, capacity_makeRoom]
      exact length_makeRoom_lt on sound.bounded

/-- Filing changes neither the capacity nor the counts. -/
theorem put_counts (hash : Text → UInt64) (text : Text) (forms : List Value) (x : Catalogue) :
    (x.put hash text forms).capacity = x.capacity ∧ (x.put hash text forms).hits = x.hits ∧
      (x.put hash text forms).misses = x.misses := by
  unfold put enqueue makeRoom dropOldest
  split
  · exact ⟨rfl, rfl, rfl⟩
  · dsimp only
    split
    · exact ⟨rfl, rfl, rfl⟩
    · split <;> exact ⟨rfl, rfl, rfl⟩

/-- A request keeps map and queue in step, and is counted. -/
theorem Sound.serve (sound : x.Sound hash) (q : Request) :
    let x' := (q.serve (Catalogue.get hash) (Catalogue.put hash) x).2
    x'.Sound hash ∧ x'.capacity = x.capacity ∧
      (x.capacity ≠ 0 → x'.hits + x'.misses = x.hits + x.misses + 1) := by
  obtain ⟨hits, misses, got, counted⟩ := get_snd hash q.text x
  intro x'
  rcases q.serve_cases (Catalogue.get hash) (Catalogue.put hash) x with
    served | ⟨forms, _, served⟩
  · simp only [x', served]
    refine ⟨sound.get q.text, ?_, fun on => ?_⟩
    · rw [got]
    · rw [got]
      exact counted on
  · have counts := put_counts hash q.text forms (x.get hash q.text).2
    simp only [x', served]
    refine ⟨(sound.get q.text).put q.text forms, ?_, fun on => ?_⟩
    · rw [counts.1, got]
    · rw [counts.2.1, counts.2.2, got]
      exact counted on

theorem Sound.serveAll (sound : x.Sound hash) (requests : List Request) :
    let x' := (serveAll hash requests x).2
    x'.Sound hash ∧ x'.capacity = x.capacity ∧
      (x.capacity ≠ 0 → x'.hits + x'.misses = x.hits + x.misses + requests.length) := by
  induction requests generalizing x with
  | nil => exact ⟨sound, rfl, fun _ => rfl⟩
  | cons q rest ih =>
    obtain ⟨sound₁, capacity₁, counted₁⟩ := sound.serve q
    obtain ⟨sound₂, capacity₂, counted₂⟩ := ih sound₁
    refine ⟨sound₂, capacity₂.trans capacity₁, fun on => ?_⟩
    have first := counted₁ on
    have later := counted₂ (by rwa [capacity₁])
    rw [List.length_cons, ← Nat.add_assoc, Nat.add_right_comm, ← first]
    exact later

/-- There are as many entries as keys in the queue. -/
theorem Sound.ncard_keys (sound : x.Sound hash) :
    {key | (x.entries key).isSome}.ncard = x.order.length := by
  have same : {key | (x.entries key).isSome} = (x.order.toFinset : Set UInt64) := by
    ext key
    simpa using sound.keys key
  rw [same, Set.ncard_coe_finset, List.toFinset_card_of_nodup sound.nodup]

/-! ## First in, first out -/

/-- The entries, in the order of the queue, are the last that were put. -/
def Recent (puts : List (Text × List Value)) (x : Catalogue) : Prop :=
  x.order.map x.entries = (puts.rtake x.capacity).map some

/-- With room for one less, the oldest of the last ones is left out if there are as many as
there is room for. -/
theorem rtake_eq_tail {α : Type} (l : List α) (n : Nat) :
    l.rtake n =
      if n + 1 ≤ (l.rtake (n + 1)).length then (l.rtake (n + 1)).tail else l.rtake (n + 1) := by
  simp only [List.rtake, List.length_drop]
  split
  · rw [List.tail_drop]
    congr 1
    omega
  · congr 1
    omega

variable {puts : List (Text × List Value)}

theorem Recent.length_eq (recent : x.Recent puts) :
    (puts.rtake x.capacity).length = x.order.length := by
  simpa using (congrArg List.length recent).symm

/-- Just the last entries that were put can be found in the map. -/
theorem Recent.mem_iff (recent : x.Recent puts) (sound : x.Sound hash) {e : Text × List Value} :
    e ∈ puts.rtake x.capacity ↔ x.entries (hash e.1) = some e := by
  have members : some e ∈ x.order.map x.entries ↔ e ∈ puts.rtake x.capacity := by
    rw [recent]
    simp
  rw [← members, List.mem_map]
  constructor
  · rintro ⟨key, _, found⟩
    rwa [← sound.filed key e found]
  · intro found
    exact ⟨hash e.1, (sound.keys _).1 (by rw [found]; rfl), found⟩

/-- What is answered for a text is what was last put for it, if that is recent enough. -/
theorem Recent.get (recent : x.Recent puts) (sound : x.Sound hash) (on : x.capacity ≠ 0)
    (text : Text) :
    (x.get hash text).1 = ((puts.rtake x.capacity).find? (·.1 == text)).map (·.2) := by
  have answered : (x.get hash text).1 =
      ((x.entries (hash text)).filter (·.1 == text)).map (·.2) := by
    rw [Catalogue.get, if_neg on]
    cases (x.entries (hash text)).filter (·.1 == text) <;> rfl
  rw [answered]
  cases found : (puts.rtake x.capacity).find? (·.1 == text) with
  | some e =>
    have same : e.1 = text := by simpa using List.find?_some found
    have filed := (recent.mem_iff sound).1 (List.mem_of_find?_eq_some found)
    rw [same] at filed
    rw [filed, Option.filter_some, if_pos (by simpa using same)]
  | none =>
    cases filed : x.entries (hash text) with
    | none => rfl
    | some e =>
      have own := sound.filed _ _ filed
      have put : e ∈ puts.rtake x.capacity := (recent.mem_iff sound).2 (own ▸ filed)
      have other := List.find?_eq_none.1 found e put
      rw [Option.filter_some, if_neg other]

/-- What is left when the oldest is gone has the entries that it had. -/
theorem Sound.map_dropOldest (sound : x.Sound hash) :
    x.dropOldest.order.map x.dropOldest.entries = x.order.tail.map x.entries := by
  refine List.map_congr_left fun key queued => if_neg fun oldest => ?_
  have nodup := sound.nodup
  rw [List.eq_cons_of_mem_head? oldest, List.nodup_cons] at nodup
  exact nodup.1 queued

/-- Where room is made, the last entries that were put are left, but for one. -/
theorem Recent.makeRoom (recent : x.Recent puts) (sound : x.Sound hash) {n : Nat}
    (capacity : x.capacity = n + 1) :
    x.makeRoom.order.map x.makeRoom.entries = (puts.rtake n).map some := by
  rw [rtake_eq_tail, ← capacity, recent.length_eq, Catalogue.makeRoom]
  split
  · rw [List.map_tail, ← recent, ← List.map_tail]
    exact sound.map_dropOldest
  · exact recent

/-- A new key comes after the last ones, and the oldest goes if all is taken. -/
theorem Recent.put (recent : x.Recent puts) (sound : x.Sound hash) (on : x.capacity ≠ 0)
    (new : x.entries (hash text) = none) (forms : List Value) :
    (x.put hash text forms).Recent (puts ++ [(text, forms)]) := by
  obtain ⟨n, capacity⟩ : ∃ n, x.capacity = n + 1 := Nat.exists_eq_succ_of_ne_zero on
  have filed : x.put hash text forms =
      { x.enqueue (hash text) with
        entries := Function.update x.makeRoom.entries (hash text) (some (text, forms)) } := by
    simp only [Catalogue.put, if_neg on, new, Option.isSome_none, Bool.false_eq_true, if_false,
      Catalogue.enqueue]
  have unchanged :
      x.makeRoom.order.map (Function.update x.makeRoom.entries (hash text) (some (text, forms))) =
        x.makeRoom.order.map x.makeRoom.entries := by
    refine List.map_congr_left fun key queued => Function.update_of_ne ?_ _ _
    rintro rfl
    exact sound.not_mem_makeRoom new queued
  rw [filed, Recent]
  show (x.makeRoom.order ++ [hash text]).map _ = (List.rtake _ x.makeRoom.capacity).map some
  rw [capacity_makeRoom, capacity, List.rtake_concat_succ, List.map_append, List.map_append,
    unchanged, recent.makeRoom sound capacity]
  simp

/-- A request for a text in use: no text in use has the key of another one, so what is put is
new. -/
theorem Recent.serve (recent : x.Recent puts) (sound : x.Sound hash) (on : x.capacity ≠ 0)
    {used : Set Text} (injective : Set.InjOn hash used) (known : ∀ e ∈ puts, e.1 ∈ used)
    {q : Request} (asked : q.text ∈ used) :
    let out := q.serve (Catalogue.get hash) (Catalogue.put hash) x
    out.2.Recent (puts ++ out.1.toList) ∧ ∀ e ∈ out.1, e.1 ∈ used := by
  obtain ⟨hits, misses, got, _⟩ := get_snd hash q.text x
  have recent' : (x.get hash q.text).2.Recent puts := by
    rw [got]
    exact recent
  intro out
  rcases q.serve_cases (Catalogue.get hash) (Catalogue.put hash) x with
    served | ⟨forms, missed, served⟩
  · simp only [out, served, Option.toList_none, List.append_nil]
    exact ⟨recent', fun _ none => absurd none (Option.not_mem_none _)⟩
  · have new : (x.get hash q.text).2.entries (hash q.text) = none := by
      rw [got]
      cases filed : x.entries (hash q.text) with
      | none => rfl
      | some e =>
        -- an entry under this key would be one for this text, and would have been found
        have own := sound.filed _ _ filed
        have put : e ∈ puts.rtake x.capacity := (recent.mem_iff sound).2 (own ▸ filed)
        have same := injective asked (known e (List.mem_of_mem_drop put)) own
        rw [recent.get sound on, Option.map_eq_none_iff, List.find?_eq_none] at missed
        exact absurd (beq_iff_eq.2 same.symm) (missed e put)
    have on' : (x.get hash q.text).2.capacity ≠ 0 := by rwa [got]
    simp only [out, served, Option.toList_some]
    refine ⟨recent'.put (sound.get q.text) on' new forms, ?_⟩
    rintro _ ⟨⟩
    exact asked

theorem Recent.serveAll (recent : x.Recent puts) (sound : x.Sound hash) (on : x.capacity ≠ 0)
    {used : Set Text} (injective : Set.InjOn hash used) (known : ∀ e ∈ puts, e.1 ∈ used)
    {requests : List Request} (asked : ∀ q ∈ requests, q.text ∈ used) :
    (serveAll hash requests x).2.Recent (puts ++ (serveAll hash requests x).1) := by
  induction requests generalizing x puts with
  | nil =>
    rw [show (serveAll hash [] x).1 = [] from rfl, List.append_nil]
    exact recent
  | cons q rest ih =>
    obtain ⟨first, others⟩ := List.forall_mem_cons.1 asked
    obtain ⟨recent₁, put⟩ := recent.serve sound on injective known first
    obtain ⟨sound₁, capacity₁, _⟩ := sound.serve q
    have known₁ : ∀ e ∈ puts ++ (q.serve (Catalogue.get hash) (Catalogue.put hash) x).1.toList,
        e.1 ∈ used := by
      intro e member
      rcases List.mem_append.1 member with before | now
      · exact known e before
      · exact put e (Option.mem_toList.1 now)
    have later := ih recent₁ sound₁ (by rwa [capacity₁]) known₁ others
    rw [List.append_assoc] at later
    exact later

end Catalogue

/-! ## The cache -/

namespace ParseCache

variable {hash : Text → UInt64} {c : ParseCache}

/-- The cache taken apart into map and queue. -/
def catalogue (c : ParseCache) : Catalogue where
  capacity := c.capacity
  entries key := (c.slot? key).map fun slot => (slot.text, slot.forms)
  order := c.slots.map (·.key)
  hits := c.hits
  misses := c.misses

theorem catalogue_get (hash : Text → UInt64) (text : Text) (c : ParseCache) :
    c.catalogue.get hash text = ((c.get hash text).1, (c.get hash text).2.catalogue) := by
  by_cases off : c.capacity = 0
  · rw [get, Catalogue.get, if_pos off, if_pos (show c.catalogue.capacity = 0 from off)]
  · rw [get, Catalogue.get, if_neg off, if_neg (show c.catalogue.capacity ≠ 0 from off)]
    simp only [catalogue]
    cases c.slot? (hash text) with
    | none => rfl
    | some slot =>
      rw [Option.map_some, Option.filter_some, Option.filter_some]
      cases slot.text == text <;> rfl

/-- The slots with another one at the end, whose key none of them has. -/
theorem find?_append_new {slots : List CacheSlot} {slot : CacheSlot}
    (new : slots.find? (·.key == slot.key) = none) (key : UInt64) :
    (slots ++ [slot]).find? (·.key == key) =
      if key = slot.key then some slot else slots.find? (·.key == key) := by
  rw [List.find?_append, List.find?_singleton]
  by_cases same : key = slot.key
  · subst same
    simp [new]
  · simp [same, Ne.symm same]

theorem key_overwritten (slot s : CacheSlot) :
    (if s.key == slot.key then slot else s).key = s.key := by
  split
  · rename_i same
    exact (beq_iff_eq.1 same).symm
  · rfl

theorem order_overwrite (slot : CacheSlot) (slots : List CacheSlot) :
    (overwrite slot slots).map (·.key) = slots.map (·.key) := by
  rw [overwrite, List.map_map]
  exact List.map_congr_left fun s _ => key_overwritten slot s

/-- A slot that is overwritten is found in place of the one it replaces. -/
theorem find?_overwrite {slots : List CacheSlot} {slot : CacheSlot}
    (there : (slots.find? (·.key == slot.key)).isSome) (key : UInt64) :
    (overwrite slot slots).find? (·.key == key) =
      if key = slot.key then some slot else slots.find? (·.key == key) := by
  have replaced : (overwrite slot slots).find? (·.key == key) =
      (slots.find? (·.key == key)).map fun s => if s.key == slot.key then slot else s := by
    rw [overwrite, List.find?_map]
    congr 2
    funext s
    exact congrArg (· == key) (key_overwritten slot s)
  rw [replaced]
  cases found : slots.find? (·.key == key) with
  | none =>
    rw [if_neg fun same => ?_, Option.map_none]
    rw [← same, found] at there
    cases there
  | some s =>
    have own : s.key = key := by simpa using List.find?_some found
    by_cases same : key = slot.key
    · simp [own, same]
    · simp [own, same]

/-- Without the oldest slot, its key is not found any more, since no other has it. -/
theorem find?_tail {slots : List CacheSlot} (nodup : (slots.map (·.key)).Nodup) (key : UInt64) :
    slots.tail.find? (·.key == key) =
      if (slots.map (·.key)).head? = some key then none else slots.find? (·.key == key) := by
  cases slots with
  | nil => simp
  | cons oldest rest =>
    rw [List.map_cons, List.nodup_cons] at nodup
    by_cases same : oldest.key = key
    · subst same
      have gone : rest.find? (·.key == oldest.key) = none := by
        rw [List.find?_eq_none]
        intro s member other
        exact nodup.1 (List.mem_map.2 ⟨s, member, beq_iff_eq.1 other⟩)
      simp [gone]
    · simp [same]

theorem catalogue_overwrite (slot : CacheSlot) (there : (c.slot? slot.key).isSome) :
    { c.catalogue with
      entries := Function.update c.catalogue.entries slot.key (some (slot.text, slot.forms)) } =
      catalogue { c with slots := overwrite slot c.slots } := by
  simp only [catalogue, Catalogue.mk.injEq, order_overwrite, true_and, and_true]
  funext key
  rw [Function.update_apply, slot?, slot?, find?_overwrite there]
  by_cases same : key = slot.key
  · rw [if_pos same, if_pos same, Option.map_some]
  · rw [if_neg same, if_neg same]

theorem catalogue_append (slot : CacheSlot) (new : c.slot? slot.key = none) :
    { c.catalogue with
      order := c.catalogue.order ++ [slot.key]
      entries := Function.update c.catalogue.entries slot.key (some (slot.text, slot.forms)) } =
      catalogue { c with slots := c.slots ++ [slot] } := by
  simp only [catalogue, Catalogue.mk.injEq, List.map_append, List.map_cons, List.map_nil, true_and,
    and_true]
  funext key
  rw [Function.update_apply, slot?, slot?, find?_append_new new]
  by_cases same : key = slot.key
  · rw [if_pos same, if_pos same, Option.map_some]
  · rw [if_neg same, if_neg same]

theorem catalogue_tail (nodup : c.catalogue.order.Nodup) :
    c.catalogue.dropOldest = catalogue { c with slots := c.slots.tail } := by
  have entries : c.catalogue.dropOldest.entries =
      (catalogue { c with slots := c.slots.tail }).entries := by
    funext key
    show _ = Option.map _ (c.slots.tail.find? (·.key == key))
    rw [find?_tail nodup]
    by_cases oldest : (c.slots.map (·.key)).head? = some key
    · rw [if_pos oldest]
      exact if_pos oldest
    · rw [if_neg oldest]
      exact if_neg oldest
  have order : c.catalogue.dropOldest.order =
      (catalogue { c with slots := c.slots.tail }).order := List.map_tail.symm
  exact congrArg₂ (Catalogue.mk c.capacity · · c.hits c.misses) entries order

/-- The cache does to its slots what is done to map and queue. -/
theorem catalogue_put (nodup : c.catalogue.order.Nodup) (text : Text) (forms : List Value) :
    c.catalogue.put hash text forms = (c.put hash text forms).catalogue := by
  by_cases off : c.capacity = 0
  · rw [put, Catalogue.put, if_pos off, if_pos (show c.catalogue.capacity = 0 from off)]
  rw [put, Catalogue.put, if_neg off, if_neg (show c.catalogue.capacity ≠ 0 from off)]
  have entry : (c.catalogue.entries (hash text)).isSome = (c.slot? (hash text)).isSome :=
    Option.isSome_map
  have size : c.catalogue.order.length = c.slots.length := List.length_map _
  simp only [entry]
  by_cases there : (c.slot? (hash text)).isSome
  · simp only [if_pos there]
    exact catalogue_overwrite ⟨hash text, text, forms⟩ there
  have new : c.slot? (hash text) = none := by simpa using there
  simp only [if_neg there, Catalogue.enqueue, Catalogue.makeRoom, size]
  by_cases taken : c.capacity ≤ c.slots.length
  · have new' : slot? { c with slots := c.slots.tail } (hash text) = none := by
      rw [slot?, find?_tail nodup, ← slot?, new, ite_self]
    rw [if_pos taken, if_pos (show c.catalogue.capacity ≤ _ from taken), catalogue_tail nodup]
    exact catalogue_append ⟨hash text, text, forms⟩ new'
  · rw [if_neg taken, if_neg (show ¬c.catalogue.capacity ≤ _ from taken)]
    exact catalogue_append ⟨hash text, text, forms⟩ new

/-- Serves requests one after another. -/
abbrev serveAll (hash : Text → UInt64) (requests : List Request) (c : ParseCache) :
    List (Text × List Value) × ParseCache :=
  Request.serveAll (get hash) (put hash) requests c

/-- Requests make of the cache what they make of map and queue. -/
theorem catalogue_serveAll (sound : c.catalogue.Sound hash) (requests : List Request) :
    c.catalogue.serveAll hash requests =
      ((c.serveAll hash requests).1, (c.serveAll hash requests).2.catalogue) := by
  refine Request.serveAll_map catalogue (fun c => c.catalogue.Sound hash) ?_ ?_ requests c sound
  · intro text c sound
    refine ⟨catalogue_get hash text c, ?_⟩
    have after := sound.get text
    rwa [catalogue_get] at after
  · intro text forms c sound
    refine ⟨catalogue_put sound.nodup text forms, ?_⟩
    rw [← catalogue_put sound.nodup]
    exact sound.put text forms

end ParseCache

/-! ## Reading -/

namespace Interpreter

/-- What is asked of the cache when a text is read. -/
def request (i : Interpreter) (text : Text) : Request :=
  ⟨text, (readText i.vocabulary text).toOption⟩

/-- Reads texts one after another, for what is remembered of them. -/
def readInTurn (texts : List Text) (i : Interpreter) : Interpreter :=
  texts.foldl (fun i text => (i.read text).2) i

/-- Reading a text serves a request, and changes the cache only. -/
theorem read_snd (i : Interpreter) (text : Text) :
    (i.read text).2 =
      { i with
        cache := ((i.request text).serve (ParseCache.get i.hash) (ParseCache.put i.hash)
          i.cache).2 } := by
  unfold read Request.serve request
  generalize i.cache.get i.hash text = out
  obtain ⟨found, cache⟩ := out
  cases found with
  | some _ => rfl
  | none => cases readText i.vocabulary text <;> rfl

theorem cache_readInTurn (texts : List Text) (i : Interpreter) :
    (i.readInTurn texts).cache = (i.cache.serveAll i.hash (texts.map i.request)).2 := by
  induction texts generalizing i with
  | nil => rfl
  | cons text rest ih =>
    have step := i.read_snd text
    rw [readInTurn, List.foldl_cons, step]
    exact ih _

end Interpreter

/-- **The cache is a bounded queue.**  Let a cache with room for some texts serve requests one
after another, under any hash function.

* It is at all times what a map of entries and a queue of their keys have become that served
  the same requests.  The queue has no key twice and is never longer than there is room for;
  just its keys have entries, each the hash of the text of its entry.  The size is the number
  of entries, and hits and misses add up to the number of requests.
* If no two of the texts asked for have the same hash, the entries in the order of the queue
  are the last that were put, as many as there is room for.  So a text is found exactly if it
  is among them, and with the forms put for it.
* Reading texts one after another serves the requests for them. -/
theorem cache_is_a_bounded_queue {capacity : Nat} (positive : 0 < capacity)
    (hash : Text → UInt64) (requests : List Request) :
    let c := ((ParseCache.ofCapacity capacity).serveAll hash requests).2
    let puts := ((ParseCache.ofCapacity capacity).serveAll hash requests).1
    let x := ((Catalogue.ofCapacity capacity).serveAll hash requests).2
    (x = c.catalogue ∧ x.order.Nodup ∧ (∀ key, (x.entries key).isSome ↔ key ∈ x.order) ∧
      x.order.length ≤ capacity ∧ (∀ key e, x.entries key = some e → key = hash e.1) ∧
      c.size = {key | (x.entries key).isSome}.ncard ∧ c.hits + c.misses = requests.length) ∧
    (Set.InjOn hash {text | ∃ q ∈ requests, q.text = text} →
      x.order.map x.entries = (puts.rtake capacity).map some ∧
      ∀ text, (c.get hash text).1 = ((puts.rtake capacity).find? (·.1 == text)).map (·.2)) ∧
    ∀ (i : Interpreter) (texts : List Text), i.hash = hash → i.cache = .ofCapacity capacity →
      texts.map i.request = requests → (i.readInTurn texts).cache = c := by
  intro c puts x
  have on : capacity ≠ 0 := Nat.ne_of_gt positive
  have empty := Catalogue.sound_ofCapacity hash capacity
  have same : (Catalogue.ofCapacity capacity).serveAll hash requests = (puts, c.catalogue) :=
    ParseCache.catalogue_serveAll (c := .ofCapacity capacity) empty requests
  have apart : x = c.catalogue := congrArg Prod.snd same
  obtain ⟨sound, room, counted⟩ := empty.serveAll requests
  change x.Sound hash at sound
  change x.capacity = capacity at room
  refine ⟨⟨apart, sound.nodup, sound.keys, room ▸ sound.bounded, sound.filed, ?_, ?_⟩, ?_, ?_⟩
  · rw [sound.ncard_keys, apart]
    exact (List.length_map _).symm
  · have total : x.hits + x.misses = 0 + requests.length := counted on
    rw [apart, Nat.zero_add] at total
    exact total
  · intro injective
    have start : (Catalogue.ofCapacity capacity).Recent [] := by
      rw [Catalogue.Recent, List.rtake_nil]
      rfl
    have recent := start.serveAll empty on injective
      (fun _ member => absurd member List.not_mem_nil) fun q member => ⟨q, member, rfl⟩
    rw [same, List.nil_append, ← apart] at recent
    refine ⟨room ▸ recent, fun text => ?_⟩
    have answered := recent.get sound (room ▸ on) text
    rw [room, apart, ParseCache.catalogue_get] at answered
    exact answered
  · rintro i texts rfl start rfl
    rw [i.cache_readInTurn, start]

/-- Six texts are read with room for two, one of them in vain: the first one is forgotten when
the third one comes, so that it is put once more, and only then found. -/
theorem first_text_is_put_again :
    let i : Interpreter :=
      { (Machine.create { Settings.standard .words with cacheCapacity := 2 } ∅).interpreter with
        hash := fun text => (text.headD 0).toUInt64 }
    let texts : List Text := ["a", "b", ")", "c", "a", "a"]
    let c := (i.readInTurn texts).cache
    Set.InjOn i.hash {text | ∃ q ∈ texts.map i.request, q.text = text} ∧
      c.catalogue.order = [i.hash "c", i.hash "a"] ∧ c.size = 2 ∧ c.hits = 1 ∧ c.misses = 5 ∧
      ∀ text, (c.get i.hash text).1.isSome ↔ text ∈ (["c", "a"] : List Text) := by
  intro i texts c
  have facts : ((ParseCache.ofCapacity 2).serveAll i.hash (texts.map i.request)).1.map Prod.fst =
      (["a", "b", "c", "a"] : List Text) ∧ c.catalogue.order = [i.hash "c", i.hash "a"] ∧
      c.size = 2 ∧ c.hits = 1 ∧ c.misses = 5 := by
    decide +kernel
  have different : ∀ a ∈ texts, ∀ b ∈ texts, i.hash a = i.hash b → a = b := by decide +kernel
  have injective : Set.InjOn i.hash {text | ∃ q ∈ texts.map i.request, q.text = text} := by
    rintro _ ⟨_, asked, rfl⟩ _ ⟨_, asked', rfl⟩ same
    obtain ⟨a, member, rfl⟩ := List.mem_map.1 asked
    obtain ⟨b, member', rfl⟩ := List.mem_map.1 asked'
    exact different a member b member' same
  obtain ⟨_, fifo, reading⟩ :=
    cache_is_a_bounded_queue (by decide : 0 < 2) i.hash (texts.map i.request)
  have answered := (fifo injective).2
  rw [← reading i texts rfl rfl rfl] at answered
  obtain ⟨put, facts⟩ := facts
  refine ⟨injective, facts.1, facts.2.1, facts.2.2.1, facts.2.2.2, fun text => ?_⟩
  have last : ((((ParseCache.ofCapacity 2).serveAll i.hash (texts.map i.request)).1.rtake 2).map
      Prod.fst) = (["c", "a"] : List Text) := by
    rw [List.rtake, List.map_drop, put, ← List.length_map Prod.fst, put]
    rfl
  rw [answered, Option.isSome_map, List.find?_isSome, ← last]
  simp only [beq_iff_eq, List.mem_map]

end Argot
