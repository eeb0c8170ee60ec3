import Argot.Proofs.Acts

set_option autoImplicit false

/-!
# The cache is never noticed

A cache is faithful to a vocabulary when every text it remembers is remembered with its
own forms.  A text that cannot be read is never remembered, a text is never answered with
the forms of another one that has the same hash, and giving a slot up or overwriting it
removes no faithful slot's neighbours; so a cache that starts empty stays faithful.

With a faithful cache, reading a text is reading it anew (`Interpreter.read_eq`).  Two
machines that differ only in what they remember therefore stay that way
(`Machine.performAll_alike`).
-/

namespace Argot

/-! ## Faithful caches -/

namespace ParseCache

variable {v : Vocabulary} {c : ParseCache} {hash : Text → UInt64} {text : Text} {forms : List Value}

/-- Every remembered text is remembered with its own forms. -/
def Faithful (v : Vocabulary) (c : ParseCache) : Prop :=
  ∀ slot ∈ c.slots, readText v slot.text = .ok slot.forms

theorem faithful_ofCapacity (v : Vocabulary) (capacity : Nat) :
    (ofCapacity capacity).Faithful v := by
  intro slot member
  cases member

/-- What a faithful cache answers are the forms of the text it was asked for. -/
theorem Faithful.of_hit (faithful : c.Faithful v) {c' : ParseCache}
    (hit : c.get hash text = (some forms, c')) :
    readText v text = .ok forms ∧ c'.Faithful v := by
  unfold get at hit
  split at hit
  · cases hit
  · split at hit
    · rename_i slot found
      cases hit
      -- the hash only finds the slot; it counts if its text is the one asked for
      obtain ⟨here, sameText⟩ := Option.filter_eq_some_iff.1 found
      have remembered := faithful slot (List.mem_of_find?_eq_some here)
      rw [eq_of_beq sameText] at remembered
      exact ⟨remembered, faithful⟩
    · cases hit

theorem Faithful.of_miss (faithful : c.Faithful v) {c' : ParseCache}
    (miss : c.get hash text = (none, c')) : c'.Faithful v := by
  unfold get at miss
  split at miss
  · cases miss
    exact faithful
  · split at miss
    · cases miss
    · cases miss
      exact faithful

/-- Remembering a text that was read keeps a cache faithful, whether it gets a new slot,
pushes the oldest one out or takes the place of another text. -/
theorem Faithful.put (faithful : c.Faithful v) (read : readText v text = .ok forms) :
    (c.put hash text forms).Faithful v := by
  unfold ParseCache.put
  split
  · exact faithful
  dsimp only
  split
  -- a slot of the same hash is overwritten where it stands, whatever its text was
  · intro slot member
    obtain ⟨before, remembered, rfl⟩ := List.mem_map.1 member
    split
    · exact read
    · exact faithful before remembered
  · intro slot member
    rcases List.mem_append.1 member with kept | new
    · split at kept
      · exact faithful slot (List.mem_of_mem_tail kept)
      · exact faithful slot kept
    · obtain rfl := List.mem_singleton.1 new
      exact read

end ParseCache

/-- With a faithful cache, a text is read as if for the first time. -/
theorem Interpreter.read_eq {i : Interpreter} (faithful : i.cache.Faithful i.vocabulary)
    (text : Text) : ∃ cache : ParseCache, cache.Faithful i.vocabulary ∧
      i.read text = (readText i.vocabulary text, { i with cache := cache }) := by
  unfold Interpreter.read
  split
  · rename_i forms cache hit
    obtain ⟨read, after⟩ := faithful.of_hit hit
    exact ⟨cache, after, by rw [read]⟩
  · rename_i cache miss
    have after := faithful.of_miss miss
    split
    · rename_i e refused
      exact ⟨cache, after, by rw [refused]⟩
    · rename_i forms read
      exact ⟨cache.put i.hash text forms, after.put read, by rw [read]⟩

/-! ## Machines that remember differently -/

namespace Machine

/-- The machine with another hash function and other remembered texts. -/
def remembering (m : Machine) (hash : Text → UInt64) (cache : ParseCache) : Machine :=
  { m with interpreter := { m.interpreter with hash := hash, cache := cache } }

/-- The machine without what it remembers: all that can be told of it but its cache. -/
def forgetful (m : Machine) : Machine := m.remembering (fun _ => 0) (.ofCapacity 0)

/-- The cache of the machine is faithful to its vocabulary. -/
def Faithful (m : Machine) : Prop := m.interpreter.cache.Faithful m.interpreter.vocabulary

theorem faithful_forgetful (m : Machine) : m.forgetful.Faithful :=
  ParseCache.faithful_ofCapacity _ 0

/-- Runs a text without asking the cache. -/
def runAnew (fuel : Nat) (text : Text) : Act Answer := fun m =>
  match readText m.interpreter.vocabulary text with
  | .error e => some (.error e, m)
  | .ok xs => (evalAll fuel m.interpreter.global xs m).map (Prod.map .ok id)

/-- Evaluation does not look at the cache. -/
theorem evalAll_remembering (fuel scope : Nat) (xs : List Value) (m : Machine)
    (hash : Text → UInt64) (cache : ParseCache) :
    evalAll fuel scope xs (m.remembering hash cache) =
      (evalAll fuel scope xs m).map fun out => (out.1, out.2.remembering hash cache) := by
  induction xs generalizing m with
  | nil => rfl
  | cons x xs ih =>
    rw [evalAll_cons, evalAll_cons, eval_apply, eval_apply]
    show (Option.map _ (Argot.eval m.interpreter.rules fuel x scope 0 m.world)).bind _ = _
    cases Argot.eval m.interpreter.rules fuel x scope 0 m.world with
    | none => rfl
    | some out =>
      have rest := ih (m.inWorld out.2)
      show Option.map _ (evalAll fuel scope xs ((m.inWorld out.2).remembering hash cache)) =
        Option.map _ (Option.map _ (evalAll fuel scope xs (m.inWorld out.2)))
      rw [rest]
      cases evalAll fuel scope xs (m.inWorld out.2) <;> rfl

section RunAnew

variable {m : Machine} {text : Text}

theorem runAnew_of_error {e : Refusal} (fuel : Nat)
    (refused : readText m.interpreter.vocabulary text = .error e) :
    runAnew fuel text m = some (.error e, m) := by
  rw [runAnew, refused]

theorem runAnew_of_forms {xs : List Value} (fuel : Nat)
    (read : readText m.interpreter.vocabulary text = .ok xs) :
    runAnew fuel text m =
      (evalAll fuel m.interpreter.global xs m).map (Prod.map .ok id) := by
  rw [runAnew, read]

theorem runAnew_remembering (fuel : Nat) (text : Text) (m : Machine) (hash : Text → UInt64)
    (cache : ParseCache) :
    runAnew fuel text (m.remembering hash cache) =
      (runAnew fuel text m).map fun out => (out.1, out.2.remembering hash cache) := by
  cases read : readText m.interpreter.vocabulary text with
  | error e =>
    rw [runAnew_of_error fuel read]
    exact runAnew_of_error (m := m.remembering hash cache) fuel read
  | ok xs =>
    have evaluated := evalAll_remembering fuel m.interpreter.global xs m hash cache
    rw [runAnew_of_forms fuel read, runAnew_of_forms (m := m.remembering hash cache) fuel read]
    show Option.map _ (evalAll fuel m.interpreter.global xs (m.remembering hash cache)) = _
    rw [evaluated]
    cases evalAll fuel m.interpreter.global xs m <;> rfl

/-- With a faithful cache, running a text is running it anew, apart from what is
remembered afterwards; and that is faithful again. -/
theorem run_eq_runAnew (faithful : m.Faithful) (fuel : Nat) (text : Text) :
    ∃ cache : ParseCache, cache.Faithful m.interpreter.vocabulary ∧
      run fuel text m =
        (runAnew fuel text m).map
          fun out => (out.1, out.2.remembering m.interpreter.hash cache) := by
  obtain ⟨cache, after, read⟩ := Interpreter.read_eq faithful text
  refine ⟨cache, after, ?_⟩
  cases result : readText m.interpreter.vocabulary text with
  | error e =>
    rw [result] at read
    rw [run_of_read_error fuel read, runAnew_of_error fuel result]
    rfl
  | ok xs =>
    rw [result] at read
    have evaluated := evalAll_remembering fuel m.interpreter.global xs m m.interpreter.hash cache
    rw [run_of_read_forms fuel read, runAnew_of_forms fuel result]
    show Option.map _ (evalAll fuel m.interpreter.global xs
      (m.remembering m.interpreter.hash cache)) = _
    rw [evaluated]
    cases evalAll fuel m.interpreter.global xs m <;> rfl

/-- Running a text anew keeps the vocabulary. -/
theorem vocabulary_runAnew {fuel : Nat} {answer : Answer} {m' : Machine}
    (ends : runAnew fuel text m = some (answer, m')) :
    m'.interpreter.vocabulary = m.interpreter.vocabulary := by
  cases read : readText m.interpreter.vocabulary text with
  | error e =>
    rw [runAnew_of_error fuel read] at ends
    cases ends
    rfl
  | ok xs =>
    rw [runAnew_of_forms fuel read] at ends
    obtain ⟨⟨ys, m₁⟩, evaluated, same⟩ := Option.map_eq_some_iff.1 ends
    cases same
    rw [id, interpreter_evalAll evaluated]

/-- A faithful cache stays faithful when a text is run. -/
theorem Faithful.run (faithful : m.Faithful) {fuel : Nat} {answer : Answer} {m' : Machine}
    (ends : run fuel text m = some (answer, m')) : m'.Faithful := by
  obtain ⟨cache, after, same⟩ := run_eq_runAnew faithful fuel text
  rw [same] at ends
  obtain ⟨⟨answer₁, m₁⟩, anew, same⟩ := Option.map_eq_some_iff.1 ends
  cases same
  show cache.Faithful m₁.interpreter.vocabulary
  rw [vocabulary_runAnew anew]
  exact after

end RunAnew

/-! ## Operations -/

variable {m : Machine}

/-- The answer and all that can be told of the machine but its cache. -/
def forgetting {α : Type} (out : α × Machine) : α × Machine := (out.1, out.2.forgetful)

/-- What is remembered makes no difference to an operation. -/
theorem perform_forgetful (faithful : m.Faithful) (op : Operation) :
    (perform op m).map forgetting = (perform op m.forgetful).map forgetting := by
  cases op with
  | run fuel text =>
    obtain ⟨cache, _, same⟩ := run_eq_runAnew faithful fuel text
    obtain ⟨cache', _, same'⟩ := run_eq_runAnew m.faithful_forgetful fuel text
    have anew : runAnew fuel text m.forgetful = (runAnew fuel text m).map forgetting :=
      runAnew_remembering fuel text m _ _
    show (Option.map _ (run fuel text m)).map _ = (Option.map _ (run fuel text m.forgetful)).map _
    rw [same, same', anew]
    cases runAnew fuel text m <;> rfl
  | clear => rfl
  | addGlobal name x => rfl
  | addFunction name slot => rfl

theorem Faithful.perform (faithful : m.Faithful) {op : Operation} {answer : Option Answer}
    {m' : Machine} (ends : perform op m = some (answer, m')) : m'.Faithful := by
  cases op with
  | run fuel text =>
    obtain ⟨⟨answer₁, m₁⟩, ran, same⟩ := Option.map_eq_some_iff.1 ends
    cases same
    exact faithful.run ran
  | clear | addGlobal | addFunction =>
    cases ends
    exact faithful

/-- Machines that differ in what they remember do the same, operation after operation. -/
theorem performAll_alike {m m' : Machine} (faithful : m.Faithful) (faithful' : m'.Faithful)
    (alike : m.forgetful = m'.forgetful) (ops : List Operation) :
    (performAll ops m).map forgetting = (performAll ops m').map forgetting := by
  induction ops generalizing m m' with
  | nil => exact congrArg (fun k => some ([], k)) alike
  | cons op rest ih =>
    have step : (perform op m).map forgetting = (perform op m').map forgetting := by
      rw [perform_forgetful faithful, perform_forgetful faithful', alike]
    rw [performAll_cons, performAll_cons]
    cases first : perform op m with
    | none =>
      rw [first] at step
      rw [Option.map_eq_none_iff.1 step.symm]
    | some out =>
      rw [first] at step
      obtain ⟨out', first', same⟩ := Option.map_eq_some_iff.1 step.symm
      obtain ⟨answer, m₁⟩ := out
      obtain ⟨answer', m₁'⟩ := out'
      obtain ⟨rfl, alike₁⟩ := Prod.mk.inj same
      have others := ih (faithful.perform first) (faithful'.perform first') alike₁.symm
      rw [first']
      show (Option.map _ (performAll rest m₁)).map _ = (Option.map _ (performAll rest m₁')).map _
      cases ends : performAll rest m₁ with
      | none =>
        rw [ends] at others
        rw [Option.map_eq_none_iff.1 others.symm]
      | some outs =>
        rw [ends] at others
        obtain ⟨outs', ends', same⟩ := Option.map_eq_some_iff.1 others.symm
        obtain ⟨answers, m₂⟩ := outs
        obtain ⟨answers', m₂'⟩ := outs'
        obtain ⟨rfl, alike₂⟩ := Prod.mk.inj same
        rw [ends']
        exact congrArg (fun k => some (answer' :: answers', k)) alike₂.symm

/-- The machine with another hash function. -/
def hashingBy (m : Machine) (hash : Text → UInt64) : Machine :=
  m.remembering hash m.interpreter.cache

end Machine

/-- **The cache is transparent.**  Take two interpreters of the same settings but for the
capacity of their caches, with any hash functions, even ones under which all texts
collide.  Whatever operations are done on both, one of them has no answer exactly when the
other has none; otherwise every text is answered with the same results or the same
refusal, and afterwards the two agree in everything but their caches: in all scopes, the
global one among them, in the registered functions and in the generator.  Since this holds
of every sequence of operations, it holds after every step of one. -/
theorem cache_is_transparent (settings : Settings) (c : Commons) (hash hash' : Text → UInt64)
    (capacity capacity' : Nat) (ops : List Operation) :
    let first := (Machine.create { settings with cacheCapacity := capacity } c).hashingBy hash
    let second := (Machine.create { settings with cacheCapacity := capacity' } c).hashingBy hash'
    (Machine.performAll ops first).map Machine.forgetting =
      (Machine.performAll ops second).map Machine.forgetting := by
  intro first second
  have faithful : first.Faithful := ParseCache.faithful_ofCapacity _ capacity
  have faithful' : second.Faithful := ParseCache.faithful_ofCapacity _ capacity'
  exact Machine.performAll_alike faithful faithful' rfl ops

end Argot
