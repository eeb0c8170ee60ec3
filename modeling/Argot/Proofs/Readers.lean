import Argot.Proofs.Packing
import Argot.Proofs.Parts

set_option autoImplicit false

/-!
# Readers of packed values

What a reader makes of the bytes it takes is stated as a condition on both
(`MessagePack.Yields`), with one rule for every way to build a reader.  The condition also says
that bytes behind the ones it takes make no difference to a reader.

One test looks further.  A list that announces more items than can follow is refused, and what can
follow is a matter of all the bytes that are left.  More bytes can only turn this test in favour of
the list (`Yields.enough`), so what has been read once is read again.

A list may announce any number of items below `2 ^ 32`; each of them has bytes of its own all the
same, so the bytes bound the number of values by an induction on the levels, and on the items inside
(`yields_readNested`).
-/

namespace Argot.MessagePack

variable {ε α β : Type}

/-! ## What readers make of the bytes they take -/

/-- What is read comes from the front of the text, and stands in the relation to the number of
bytes taken.  When more bytes follow, the same is read, and they are left behind. -/
def Yields (P : Nat → α → Prop) (read : Text → Except ε (α × Text)) : Prop :=
  ∀ t x rest, read t = .ok (x, rest) → ∃ taken, t = taken ++ rest ∧ P taken.length x ∧
    ∀ more, read (t ++ more) = .ok (x, rest ++ more)

namespace Yields

variable {P P' : Nat → α → Prop} {Q : Nat → β → Prop} {read : Text → Except ε (α × Text)}

theorem mono (h : Yields P read) (weaker : ∀ n x, P n x → P' n x) : Yields P' read := by
  intro t x rest result
  obtain ⟨taken, whole, holds, again⟩ := h t x rest result
  exact ⟨taken, whole, weaker _ _ holds, again⟩

theorem ok {x : α} (holds : P 0 x) : Yields P fun t => (.ok (x, t) : Except ε (α × Text)) := by
  intro t y rest result
  cases result
  exact ⟨[], rfl, holds, fun _ => rfl⟩

theorem error (e : Text → ε) : Yields P fun t => (.error (e t) : Except ε (α × Text)) := by
  intro t x rest result
  cases result

/-- One reader after another. -/
theorem andThen {next : α × Text → Except ε (β × Text)} (first : Yields P read)
    (second : ∀ n x, P n x → Yields (fun k y => Q (n + k) y) fun t => next (x, t)) :
    Yields Q fun t => read t >>= next := by
  intro t y rest both
  change (read t >>= next) = .ok (y, rest) at both
  cases result : read t with
  | error e =>
    rw [result] at both
    cases both
  | ok out =>
    obtain ⟨x, middle⟩ := out
    rw [result] at both
    obtain ⟨taken, whole, holds, again⟩ := first t x middle result
    obtain ⟨taken', whole', holds', again'⟩ := second _ x holds middle y rest both
    refine ⟨taken ++ taken', ?_, ?_, fun more => ?_⟩
    · rw [whole, whole', List.append_assoc]
    · rw [List.length_append]
      exact holds'
    · show (read (t ++ more) >>= next) = _
      rw [again more]
      exact again' more

/-- A choice that does not depend on the text. -/
theorem choice {condition : Prop} [Decidable condition] {yes no : Text → Except ε (α × Text)}
    (whenTrue : condition → Yields P yes) (whenFalse : ¬ condition → Yields P no) :
    Yields P fun t => if condition then yes t else no t := by
  by_cases holds : condition
  · simp only [if_pos holds]
    exact whenTrue holds
  · simp only [if_neg holds]
    exact whenFalse holds

/-- A reader that asks for a number of bytes.  Where there are enough, there are still enough when
there are more. -/
theorem enough (wanted : Nat) (e : Text → ε) (inner : Yields P read) :
    Yields P fun t => if t.length < wanted then .error (e t) else read t := by
  intro t x rest result
  by_cases short : t.length < wanted
  · simp only [if_pos short] at result
    cases result
  · simp only [if_neg short] at result
    obtain ⟨taken, whole, holds, again⟩ := inner t x rest result
    refine ⟨taken, whole, holds, fun more => ?_⟩
    have longer : ¬ (t ++ more).length < wanted := by
      rw [List.length_append]
      omega
    simp only [if_neg longer]
    exact again more

/-- A reader that needs a byte to begin with. -/
theorem ofLead {e : ε} (nothing : read [] = .error e)
    (inner : ∀ lead, Yields (fun n x => P (n + 1) x) fun t => read (lead :: t)) :
    Yields P read := by
  intro t x rest result
  cases t with
  | nil =>
    rw [nothing] at result
    cases result
  | cons lead t =>
    obtain ⟨taken, rfl, holds, again⟩ := inner lead t x rest result
    exact ⟨lead :: taken, rfl, holds, again⟩

/-- As a part of a value, an item is read the same. -/
theorem item {read : Text → Except Fault (α × Text)} (h : Yields P read) :
    Yields P fun t => ofItem (read t) := by
  intro t x rest result
  change ofItem (read t) = .ok (x, rest) at result
  cases out : read t with
  | error e =>
    rw [out] at result
    cases result
  | ok pair =>
    rw [out] at result
    cases result
    obtain ⟨taken, whole, holds, again⟩ := h t x rest out
    refine ⟨taken, whole, holds, fun more => ?_⟩
    show ofItem (read (t ++ more)) = _
    rw [again more]
    rfl

end Yields

/-! ## Items -/

theorem yields_readBytes (n : Nat) : Yields (fun k s => k = n ∧ s.length = n) (readBytes n) := by
  intro t s rest result
  unfold readBytes at result ⊢
  by_cases short : t.length < n
  · rw [if_pos short] at result
    cases result
  · rw [if_neg short] at result
    cases result
    have some := Nat.le_of_not_lt short
    have length : (t.take n).length = n := List.length_take_of_le some
    refine ⟨t.take n, (List.take_append_drop n t).symm, ⟨length, length⟩, fun more => ?_⟩
    have longer : ¬ (t ++ more).length < n := by
      rw [List.length_append]
      omega
    rw [if_neg longer, List.take_append_of_le_length some, List.drop_append_of_le_length some]

theorem ofBigEndian_lt (bytes : Text) : ofBigEndian bytes < Nat.pow 256 bytes.length := by
  suffices h : ∀ start, bytes.foldl (fun n b => n * 256 + b.toNat) start <
      (start + 1) * Nat.pow 256 bytes.length by
    simpa [ofBigEndian] using h 0
  induction bytes with
  | nil => simp
  | cons b bytes ih =>
    intro start
    have byte : b.toNat < 256 := b.toNat_lt
    have split : Nat.pow 256 (b :: bytes).length = 256 * Nat.pow 256 bytes.length :=
      Nat.mul_comm _ _
    rw [List.foldl_cons, split, ← Nat.mul_assoc]
    exact Nat.lt_of_lt_of_le (ih _) (Nat.mul_le_mul_right _ (by omega))

theorem yields_readWord (width : Nat) :
    Yields (fun _ n => n < Nat.pow 256 width) (readWord width) := by
  refine (yields_readBytes width).andThen ?_
  rintro _ bytes ⟨-, length⟩
  exact .ok (length ▸ ofBigEndian_lt bytes)

/-- What a word of four bytes or fewer can announce. -/
theorem yields_shortWord {width : Nat} (fits : width ≤ 4) :
    Yields (fun _ n => n < 0x100000000) (readWord width) :=
  (yields_readWord width).mono fun _ _ small =>
    Nat.lt_of_lt_of_le small (Nat.pow_le_pow_right (by decide) fits)

theorem yields_readArrayHeader :
    Yields (fun k n => 1 ≤ k ∧ n < 0x100000000) readArrayHeader := by
  have word {width : Nat} (fits : width ≤ 4) :
      Yields (fun k n => 1 ≤ k + 1 ∧ n < 0x100000000) (readWord width) :=
    (yields_shortWord fits).mono fun k _ small => ⟨Nat.succ_pos k, small⟩
  refine .ofLead rfl fun lead => ?_
  refine .choice (fun _ => .ok ⟨Nat.succ_pos 0, ?_⟩) fun _ => ?_
  · have := lead.toNat_lt
    omega
  refine .choice (fun _ => word (by decide)) fun _ => ?_
  exact .choice (fun _ => word (by decide)) fun _ => .error _

theorem yields_readNatural (width : Nat) : Yields (fun _ _ => True) (readNatural width) := by
  refine .andThen (P := fun _ _ => True) ?_ fun _ _ _ => ?_
  · exact (yields_readWord width).andThen fun _ _ _ => .ok trivial
  · exact .choice (fun _ => .error _) fun _ => .ok trivial

theorem yields_readUInt8 : Yields (fun k _ => 1 ≤ k) readUInt8 := by
  refine .andThen (P := fun k _ => 1 ≤ k) ?_ fun k _ some => ?_
  · have word (width : Nat) : Yields (fun k _ => 1 ≤ k + 1) (readWord width) :=
      (yields_readWord width).mono fun k _ _ => Nat.succ_pos k
    have natural (width : Nat) : Yields (fun k _ => 1 ≤ k + 1) (readNatural width) :=
      (yields_readNatural width).mono fun k _ _ => Nat.succ_pos k
    refine .ofLead rfl fun lead => ?_
    refine .choice (fun _ => .ok (Nat.succ_pos 0)) fun _ => ?_
    refine .choice (fun _ => word 1) fun _ => ?_
    refine .choice (fun _ => word 2) fun _ => ?_
    refine .choice (fun _ => word 4) fun _ => ?_
    refine .choice (fun _ => word 8) fun _ => ?_
    refine .choice (fun _ => natural 1) fun _ => ?_
    refine .choice (fun _ => natural 2) fun _ => ?_
    refine .choice (fun _ => natural 4) fun _ => ?_
    refine .choice (fun _ => natural 8) fun _ => ?_
    exact .choice (fun _ => .error _) fun _ => .error _
  · exact .choice (fun _ => .ok some) fun _ => .error _

theorem yields_readBoolean : Yields (fun _ _ => True) readBoolean := by
  refine .ofLead rfl fun lead => ?_
  exact .choice (fun _ => .ok trivial) fun _ => .choice (fun _ => .ok trivial) fun _ => .error _

theorem yields_readDouble : Yields (fun _ _ => True) readDouble := by
  refine .ofLead rfl fun lead => ?_
  refine .choice (fun _ => (yields_readWord 4).andThen fun _ _ _ => .ok trivial) fun _ => ?_
  refine .choice (fun _ => (yields_readWord 8).andThen fun _ _ _ => .ok trivial) fun _ => ?_
  exact .enough 8 _ (.error _)

theorem yields_readString : Yields (fun _ s => s.length < 0x100000000) readString := by
  refine .andThen (P := fun _ n => n < 0x100000000) ?_ fun _ n small => ?_
  · refine .ofLead rfl fun lead => ?_
    refine .choice (fun _ => .ok ?_) fun _ => ?_
    · have := lead.toNat_lt
      omega
    refine .choice (fun _ => yields_shortWord (by decide)) fun _ => ?_
    refine .choice (fun _ => yields_shortWord (by decide)) fun _ => ?_
    exact .choice (fun _ => yields_shortWord (by decide)) fun _ => .error _
  · exact (yields_readBytes n).mono fun _ s taken => taken.2.symm ▸ small

/-- The head of a value takes two bytes at least. -/
theorem yields_readHeader : Yields (fun k _ => 2 ≤ k) readHeader := by
  refine yields_readArrayHeader.item.andThen fun k size some => ?_
  refine .choice (fun _ => .error _) fun _ => ?_
  refine yields_readUInt8.item.andThen fun k' code some' => ?_
  cases known : Variant.ofCode? code with
  | none =>
    simp only [known]
    exact .error _
  | some variant =>
    simp only [known]
    refine .choice (fun _ => .ok ?_) fun _ => .error _
    omega

/-! ## Values -/

/-- Every builtin goes by its own name. -/
def OwnNames (find : Text → Option Value) : Prop :=
  ∀ name b, find name = some (.builtin b) → b.name = name

/-- A value as it can come of `bytes` bytes with so many levels: there are two bytes for each
of its parts, no closure in it remembers a scope, and where builtins go by their own names, it
can be written and read. -/
structure Bounded (find : Text → Option Value) (levels bytes : Nat) (x : Value) : Prop where
  parts : 2 * x.parts.length ≤ bytes
  shallow : x.nesting < levels
  detached : x.detached = x
  short : OwnNames find → x.shorterThan 0x100000000 = true
  builtins : OwnNames find → ∀ b ∈ x.builtins, find b.name = some (.builtin b)

/-- The same of all the items of a list. -/
structure BoundedAll (find : Text → Option Value) (levels bytes : Nat) (xs : List Value) :
    Prop where
  parts : 2 * (Value.partsOfAll xs).length ≤ bytes
  shallow : Value.nestingOfItems xs ≤ levels
  detached : Value.allDetached xs = xs
  short : OwnNames find → Value.allShorterThan 0x100000000 xs = true
  builtins : OwnNames find → ∀ b ∈ Value.allBuiltins xs, find b.name = some (.builtin b)

section Values

variable {find : Text → Option Value} {levels bytes : Nat}

theorem findBuiltin_eq_some {name : Text} {x : Value} (found : findBuiltin find name = some x) :
    ∃ b, x = .builtin b ∧ find name = some (.builtin b) := by
  unfold findBuiltin at found
  split at found
  · rename_i b bound
    cases found
    exact ⟨b, rfl, bound⟩
  · cases found

namespace Bounded

/-- A value without parts of its own. -/
theorem leaf {x : Value} (room : 2 ≤ bytes) (alone : x.parts.length = 1) (flat : x.nesting = 0)
    (detached : x.detached = x) (short : x.shorterThan 0x100000000 = true)
    (none : x.builtins = []) : Bounded find (levels + 1) bytes x where
  parts := by omega
  shallow := by omega
  detached := detached
  short _ := short
  builtins _ b member := by
    rw [none] at member
    cases member

/-- A builtin may have a name of any length, unless it goes by its own name: then it is the
name that was read. -/
theorem builtin {name : Text} {b : Builtin} (room : 2 ≤ bytes)
    (short : name.length < 0x100000000) (found : find name = some (.builtin b)) :
    Bounded find (levels + 1) bytes (.builtin b) where
  parts := room
  shallow := Nat.succ_pos _
  detached := rfl
  short own := decide_eq_true (own name b found ▸ short)
  builtins own c member := by
    obtain rfl := List.mem_singleton.1 member
    rw [own name c found, found]

theorem quote {k : Nat} {x : Value} (room : 2 + k ≤ bytes) (inner : Bounded find levels k x) :
    Bounded find (levels + 1) bytes (.quote x) where
  parts := by
    have := inner.parts
    rw [Value.parts, List.length_cons]
    omega
  shallow := Nat.succ_lt_succ inner.shallow
  detached := congrArg Value.quote inner.detached
  short := inner.short
  builtins := inner.builtins

/-- A value of two parts. -/
theorem pair {k k' : Nat} {a b x : Value} (room : 2 + k + k' ≤ bytes)
    (first : Bounded find levels k a) (second : Bounded find levels k' b)
    (parts : x.parts = x :: (a.parts ++ b.parts))
    (nesting : x.nesting = max a.nesting b.nesting + 1)
    (detached : a.detached = a → b.detached = b → x.detached = x)
    (short : ∀ limit, x.shorterThan limit = (a.shorterThan limit && b.shorterThan limit))
    (builtins : x.builtins = a.builtins ++ b.builtins) : Bounded find (levels + 1) bytes x where
  parts := by
    have := first.parts
    have := second.parts
    rw [parts, List.length_cons, List.length_append]
    omega
  shallow := by
    have := first.shallow
    have := second.shallow
    omega
  detached := detached first.detached second.detached
  short own := by rw [short, first.short own, second.short own, Bool.and_self]
  builtins own c member := by
    rw [builtins] at member
    exact (List.mem_append.1 member).elim (first.builtins own c) (second.builtins own c)

theorem list {k : Nat} {xs : List Value} (room : 2 + k ≤ bytes)
    (items : BoundedAll find levels k xs) (short : xs.length < 0x100000000) :
    Bounded find (levels + 1) bytes (.list xs) where
  parts := by
    have := items.parts
    rw [Value.parts, List.length_cons]
    omega
  shallow := Nat.lt_succ_of_le items.shallow
  detached := congrArg Value.list items.detached
  short own := by rw [Value.shorterThan, items.short own, decide_eq_true short, Bool.and_self]
  builtins := items.builtins

end Bounded

theorem BoundedAll.nil : BoundedAll find levels 0 [] where
  parts := Nat.le_refl 0
  shallow := Nat.zero_le _
  detached := rfl
  short _ := rfl
  builtins _ _ member := absurd member List.not_mem_nil

theorem BoundedAll.cons {k k' : Nat} {x : Value} {xs : List Value} (first : Bounded find levels k x)
    (rest : BoundedAll find levels k' xs) : BoundedAll find levels (k + k') (x :: xs) where
  parts := by
    have := first.parts
    have := rest.parts
    rw [Value.partsOfAll, List.length_append]
    omega
  shallow := Nat.max_le.2 ⟨first.shallow, rest.shallow⟩
  detached := by rw [Value.allDetached, first.detached, rest.detached]
  short own := by rw [Value.allShorterThan, first.short own, rest.short own, Bool.and_self]
  builtins own b member := by
    rw [Value.allBuiltins] at member
    exact (List.mem_append.1 member).elim (first.builtins own b) (rest.builtins own b)

/-- Items that are bounded one by one are bounded together, however many were announced. -/
theorem yields_readMany {read : Text → Except ValueError (Value × Text)}
    (each : Yields (fun k x => Bounded find levels k x) read) (count : Nat) :
    Yields (fun k xs => BoundedAll find levels k xs ∧ xs.length = count) (readMany read count) := by
  induction count with
  | zero => exact .ok ⟨.nil, rfl⟩
  | succ count ih =>
    refine each.andThen fun k x first => ?_
    refine ih.andThen fun k' xs rest => ?_
    refine .ok ⟨.cons first rest.1, ?_⟩
    exact congrArg (· + 1) rest.2

/-- What is read is bounded by the bytes taken and by the levels left.  Each level of the
induction is one level of the reader. -/
theorem yields_readNested (find : Text → Option Value) (levels : Nat) :
    Yields (Bounded find levels) (readNested find levels) := by
  induction levels with
  | zero => exact .error _
  | succ levels ih =>
    refine yields_readHeader.andThen fun k variant room => ?_
    cases variant with
    | nil => exact .ok (.leaf room rfl rfl rfl rfl rfl)
    | number =>
      refine yields_readDouble.item.andThen fun k' x _ => .ok ?_
      exact .leaf (by omega) rfl rfl rfl rfl rfl
    | boolean =>
      refine yields_readBoolean.item.andThen fun k' b _ => .ok ?_
      exact .leaf (by omega) rfl rfl rfl rfl rfl
    | string =>
      refine yields_readString.item.andThen fun k' s short => .ok ?_
      exact .leaf (by omega) rfl rfl rfl (decide_eq_true short) rfl
    | symbol =>
      refine yields_readString.item.andThen fun k' n short => .ok ?_
      exact .leaf (by omega) rfl rfl rfl (decide_eq_true short) rfl
    | builtin =>
      refine yields_readString.item.andThen fun k' name short => ?_
      cases found : findBuiltin find name with
      | none =>
        simp only [found]
        exact .error _
      | some x =>
        simp only [found]
        obtain ⟨b, rfl, bound⟩ := findBuiltin_eq_some found
        exact .ok (.builtin (by omega) short bound)
    | quote => exact ih.andThen fun k' x inner => .ok (.quote (by omega) inner)
    | list =>
      refine yields_readArrayHeader.item.andThen fun k' count announced => ?_
      refine .enough _ _ ((yields_readMany ih count).andThen fun k'' xs items => .ok ?_)
      exact .list (by omega) items.1 (items.2 ▸ announced.2)
    | closure =>
      refine ih.andThen fun k' params first => ih.andThen fun k'' body second => .ok ?_
      refine .pair (by omega) first second rfl rfl ?_ (fun _ => rfl) rfl
      intro kept kept'
      rw [Value.detached, kept, kept']
    | scopedLet =>
      refine ih.andThen fun k' bindings first => ih.andThen fun k'' body second => .ok ?_
      refine .pair (by omega) first second rfl rfl ?_ (fun _ => rfl) rfl
      intro kept kept'
      rw [Value.detached, kept, kept']

end Values

end Argot.MessagePack
