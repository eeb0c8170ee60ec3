import Argot.Proofs.Parts

set_option autoImplicit false

/-!
# What builtins make of their arguments

Every primitive looks at the number of its arguments, then at their types, then at their values,
and answers if there is nothing to complain about.  What it complains about is said here without
running it: how many arguments a primitive takes, which type it works on, and which values it
refuses (`Primitive.fault?`).  Primitives check these things in different places, each on its own
way through the arguments, and all of them come to that verdict (`Primitive.meets_fault?`).

The answers do not depend on the way either.  A chain of comparisons between neighbours compares
all pairs, as the order of numbers is transitive, and taking the last truth value unless one before
it decides is the same as looking for the decisive one anywhere.
-/

namespace Argot

/-! ## What primitives ask for -/

namespace Binary64

/-- Whether a bound for random numbers is not a number, is below one, or is `2 ^ 63` or more. -/
def isUnfitBound (n : Binary64) : Bool :=
  let top := ofNat 0x8000000000000000
  n.isNaN || n.less (ofNat 1) || top.less n || top.equals n

/-- Of two numbers that are not missing, one is less than the other or they are equal. -/
theorem not_less_eq {x y : Binary64} (hx : x.isNaN = false) (hy : y.isNaN = false) :
    (!x.less y) = (y.less x || y.equals x) := by
  rw [Bool.eq_iff_iff]
  simp only [less, equals, hx, hy, Bool.not_false, Bool.true_and, Bool.not_eq_true',
    decide_eq_false_iff_not, Bool.or_eq_true, decide_eq_true_eq, beq_iff_eq]
  omega

end Binary64

namespace Primitive

/-- Whether a primitive takes that many arguments. -/
def takes : Primitive → Nat → Bool
  | .negation, _ | .host _, _ => true
  | .first, n | .rest, n | .random, n => n == 1
  | .numeric _, n | .equal, n | .increasing, n | .decreasing, n | .conjunction, n
  | .disjunction, n => n != 0

/-- Whether a value is of the type that a primitive works on. -/
def suits : Primitive → Value → Bool
  | .numeric _, x | .increasing, x | .decreasing, x | .random, x => x.number?.isSome
  | .conjunction, x | .disjunction, x | .negation, x => x.boolean?.isSome
  | .first, x | .rest, x => x.list?.isSome
  | .equal, _ | .host _, _ => true

/-- Whether a primitive refuses arguments of the right number and type for their value. -/
def refuses : Primitive → List Value → Bool
  | .first, [.list []] => true
  | .random, [.number n] => n.isUnfitBound
  | _, _ => false

/-- The kind of the first fault of some arguments. -/
def fault? (op : Primitive) (args : List Value) : Option ErrorKind :=
  if op.takes args.length = false then some .arity
  else if args.all op.suits = false then some .type
  else if op.refuses args = true then some .value
  else none

section Faults

variable {op : Primitive} {args : List Value}

theorem fault?_eq_arity (wrong : op.takes args.length = false) : op.fault? args = some .arity :=
  if_pos wrong

theorem fault?_eq_type (taken : op.takes args.length = true) {x : Value} (member : x ∈ args)
    (unsuited : op.suits x = false) : op.fault? args = some .type := by
  have some : args.all op.suits = false := List.all_eq_false.2 ⟨x, member, by simp [unsuited]⟩
  rw [fault?, if_neg (by simp [taken]), if_pos some]

theorem fault?_of_suited (taken : op.takes args.length = true)
    (suited : args.all op.suits = true) :
    op.fault? args = if op.refuses args = true then some .value else none := by
  rw [fault?, if_neg (by simp [taken]), if_neg (by simp [suited])]

theorem fault?_eq_none (taken : op.takes args.length = true) (suited : args.all op.suits = true)
    (lenient : op.refuses args = false) : op.fault? args = none := by
  rw [fault?_of_suited taken suited, lenient]
  rfl

/-- A fault is of the kind that is looked for first. -/
theorem fault?_iff :
    (op.fault? args = some .arity ↔ op.takes args.length = false) ∧
    (op.fault? args = some .type ↔ op.takes args.length = true ∧ args.all op.suits = false) ∧
    (op.fault? args = some .value ↔
      op.takes args.length = true ∧ args.all op.suits = true ∧ op.refuses args = true) ∧
    (op.fault? args = none ↔
      op.takes args.length = true ∧ args.all op.suits = true ∧ op.refuses args = false) := by
  unfold fault?
  cases op.takes args.length <;> cases args.all op.suits <;> cases op.refuses args <;> decide

end Faults
end Primitive

/-! ## How arguments are read -/

namespace Builtin

/-- Reads arguments of one type up to the first that is of another one. -/
def readEach {α : Type} (read? : Value → Option α) (complaint : Value → Failure) :
    List Value → Except Failure (List α)
  | [] => .ok []
  | x :: rest =>
    match read? x with
    | some a => return a :: (← readEach read? complaint rest)
    | none => .error (complaint x)

theorem numbers_eq_readEach (name : Text) (args : List Value) :
    numbers name args = readEach Value.number? (.notNumber name) args := by
  fun_induction numbers name args with
  | case1 => rfl
  | case2 x rest ih => rw [readEach, ← ih]; rfl
  | case3 x rest other =>
    cases x with
    | number x => exact absurd rfl (other x)
    | _ => rfl

theorem booleans_eq_readEach (name : Text) (args : List Value) :
    booleans name args = readEach Value.boolean? (.notBoolean name) args := by
  fun_induction booleans name args with
  | case1 => rfl
  | case2 b rest ih => rw [readEach, ← ih]; rfl
  | case3 x rest other =>
    cases x with
    | boolean b => exact absurd rfl (other b)
    | _ => rfl

section ReadEach

variable {α : Type} {read? : Value → Option α} {complaint : Value → Failure}

theorem readEach_map (make : α → Value) (reads : ∀ a, read? (make a) = some a) (items : List α) :
    readEach read? complaint (items.map make) = .ok items := by
  induction items with
  | nil => rfl
  | cons a items ih => rw [List.map_cons, readEach, reads, ih]; rfl

/-- Either all arguments are read, or one of another type is named. -/
theorem meets_readEach (args : List Value) :
    Meets (fun items => args.map read? = items.map some)
      (fun e => ∃ x ∈ args, read? x = none ∧ e = complaint x) (readEach read? complaint args) := by
  induction args with
  | nil => rfl
  | cons x rest ih =>
    rw [readEach]
    cases read : read? x with
    | none => exact ⟨x, List.mem_cons_self, read, rfl⟩
    | some a =>
      refine (ih.mono (fun _ => id) ?_).andThen fun items readRest => ?_
      · rintro e ⟨y, member, other, rfl⟩
        exact ⟨y, List.mem_cons_of_mem x member, other, rfl⟩
      · show List.map read? (x :: rest) = List.map some (a :: items)
        rw [List.map_cons, List.map_cons, read, readRest]

end ReadEach

/-! ## Each primitive finds the first fault -/

section Checks

variable {op : Primitive} {args : List Value} (name : Text)

/-- The failure is about the first fault of the arguments. -/
abbrev Blames (op : Primitive) (args : List Value) (e : Failure) : Prop :=
  op.fault? args = some e.kind

theorem meets_someArguments_fault? (atLeastOne : ∀ n, op.takes n = (n != 0)) :
    Meets (fun _ => op.takes args.length = true) (Blames op args) (someArguments name args) := by
  cases args with
  | nil => exact Primitive.fault?_eq_arity (atLeastOne 0)
  | cons x rest => exact atLeastOne (rest.length + 1)

/-- Reading arguments is checking their type. -/
theorem meets_readEach_fault? {α : Type} {read? : Value → Option α} {complaint : Value → Failure}
    (typed : ∀ x, op.suits x = (read? x).isSome) (kind : ∀ x, (complaint x).kind = .type)
    (taken : op.takes args.length = true) :
    Meets (fun items => items.length = args.length ∧ args.all op.suits = true) (Blames op args)
      (readEach read? complaint args) := by
  refine (meets_readEach args).mono (fun items read => ⟨?_, ?_⟩) ?_
  · simpa using (congrArg List.length read).symm
  · rw [List.all_eq_true]
    intro x member
    have among : read? x ∈ items.map some := read ▸ List.mem_map_of_mem member
    obtain ⟨a, -, same⟩ := List.mem_map.1 among
    rw [typed, ← same]
    rfl
  · rintro e ⟨x, member, other, rfl⟩
    rw [Blames, kind]
    exact Primitive.fault?_eq_type taken member (by rw [typed, other]; rfl)

theorem meets_numbers_fault? (typed : ∀ x, op.suits x = x.number?.isSome)
    (taken : op.takes args.length = true) :
    Meets (fun xs => xs.length = args.length ∧ args.all op.suits = true) (Blames op args)
      (numbers name args) := by
  rw [numbers_eq_readEach]
  exact meets_readEach_fault? typed (fun _ => rfl) taken

theorem meets_booleans_fault? (typed : ∀ x, op.suits x = x.boolean?.isSome)
    (taken : op.takes args.length = true) :
    Meets (fun bs => bs.length = args.length ∧ args.all op.suits = true) (Blames op args)
      (booleans name args) := by
  rw [booleans_eq_readEach]
  exact meets_readEach_fault? typed (fun _ => rfl) taken

theorem fault?_of_not_single (one : ∀ n, op.takes n = (n == 1)) (several : ∀ x, args ≠ [x]) :
    op.fault? args = some .arity := by
  refine Primitive.fault?_eq_arity ?_
  rw [one, beq_eq_false_iff_ne]
  intro single
  obtain ⟨x, rfl⟩ := List.length_eq_one_iff.1 single
  exact several x rfl

theorem meets_onlyList_fault? (one : ∀ n, op.takes n = (n == 1))
    (typed : ∀ x, op.suits x = x.list?.isSome) :
    Meets (fun items => args = [.list items]) (Blames op args) (onlyList name args) := by
  unfold onlyList
  split
  · rfl
  · rename_i x other
    refine Primitive.fault?_eq_type (one 1) List.mem_cons_self ?_
    rw [typed]
    cases x with
    | list items => exact absurd rfl (other items)
    | _ => rfl
  · rename_i several
    exact fault?_of_not_single one several

theorem meets_bound_fault? (args : List Value) :
    Meets (fun _ => Primitive.random.fault? args = none) (Blames .random args)
      (bound name args) := by
  unfold bound
  split
  · rename_i n
    have verdict := @Primitive.fault?_of_suited .random [.number n] rfl rfl
    have refused : (n.isNaN || n.less (.ofNat 1) || !n.less (.ofNat 0x8000000000000000)) =
        n.isUnfitBound := by
      have top : (Binary64.ofNat 0x8000000000000000).isNaN = false := by decide +kernel
      rw [Binary64.isUnfitBound]
      cases missing : n.isNaN with
      | true => simp
      | false => simp [Binary64.not_less_eq missing top, Bool.or_assoc]
    rw [refused]
    split
    · rename_i unfit
      exact verdict.trans (if_pos unfit)
    · rename_i fit
      exact verdict.trans (if_neg fit)
  · rename_i x other
    refine Primitive.fault?_eq_type rfl List.mem_cons_self ?_
    cases x with
    | number n => exact absurd rfl (other n)
    | _ => rfl
  · rename_i several
    exact fault?_of_not_single (fun _ => rfl) several

end Checks
end Builtin

/-- The primitives of the language answer if their arguments have no fault, and otherwise fail with
the first one. -/
theorem Primitive.meets_fault? {op : Primitive} (native : ∀ slot, op ≠ .host slot) (host : Host)
    (name : Text) (args : List Value) (g : Generator) :
    Meets (fun _ => op.fault? args = none) (Builtin.Blames op args)
      (op.apply host name args g).1 := by
  cases op with
  | numeric op =>
    refine (Builtin.meets_someArguments_fault? name fun _ => rfl).andThen fun _ taken => ?_
    refine (Builtin.meets_numbers_fault? name (fun _ => rfl) taken).andThen ?_
    rintro xs ⟨many, suited⟩
    cases xs with
    | nil =>
      rw [← many] at taken
      cases taken
    | cons x xs => exact fault?_eq_none taken suited rfl
  | equal =>
    cases args with
    | nil => exact fault?_eq_arity rfl
    | cons x xs => exact fault?_eq_none rfl (List.all_eq_true.2 fun _ _ => rfl) rfl
  | increasing | decreasing =>
    refine (Builtin.meets_someArguments_fault? name fun _ => rfl).andThen fun _ taken => ?_
    refine (Builtin.meets_numbers_fault? name (fun _ => rfl) taken).andThen fun _ read => ?_
    exact fault?_eq_none taken read.2 rfl
  | conjunction | disjunction =>
    refine (Builtin.meets_someArguments_fault? name fun _ => rfl).andThen fun _ taken => ?_
    refine (Builtin.meets_booleans_fault? name (fun _ => rfl) taken).andThen fun _ read => ?_
    exact fault?_eq_none taken read.2 rfl
  | negation =>
    refine (Builtin.meets_booleans_fault? name (fun _ => rfl) rfl).andThen fun _ read => ?_
    exact fault?_eq_none rfl read.2 rfl
  | first =>
    refine (Builtin.meets_onlyList_fault? name (fun _ => rfl) fun _ => rfl).andThen ?_
    rintro items rfl
    cases items with
    | nil => exact rfl
    | cons x items => exact rfl
  | rest =>
    refine (Builtin.meets_onlyList_fault? name (fun _ => rfl) fun _ => rfl).andThen ?_
    rintro items rfl
    exact rfl
  | random =>
    have bounded := Builtin.meets_bound_fault? name args
    rw [Primitive.apply, Builtin.random]
    cases read : Builtin.bound name args <;> rw [read] at bounded <;> exact bounded
  | host slot => exact absurd rfl (native slot)

/-- The computation fails with a failure of that kind. -/
def FailsWith {α : Type} (kind : ErrorKind) (m : Except Failure α) : Prop :=
  ∃ e, m = .error e ∧ e.kind = kind

/-- How a computation ends tells the fault. -/
theorem Meets.iff_fault {α : Type} {fault : Option ErrorKind} {m : Except Failure α}
    (h : Meets (fun _ => fault = none) (fun e => fault = some e.kind) m) :
    (∀ kind, FailsWith kind m ↔ fault = some kind) ∧ ((∃ x, m = .ok x) ↔ fault = none) := by
  cases m with
  | ok x =>
    obtain rfl : fault = none := h
    simp [FailsWith]
  | error e =>
    obtain rfl : fault = some e.kind := h
    simp [FailsWith]

/-! ## Answers -/

namespace Builtin

/-- Where the relation is transitive, comparing neighbours is comparing all pairs. -/
theorem monotone_iff_pairwise (lt : Binary64 → Binary64 → Bool)
    (trans : ∀ x y z, lt x y = true → lt y z = true → lt x z = true) (xs : List Binary64) :
    monotone lt xs = true ↔ xs.Pairwise fun x y => lt x y = true := by
  induction xs with
  | nil => simp [monotone]
  | cons x rest ih =>
    cases rest with
    | nil => simp [monotone]
    | cons y rest =>
      rw [monotone, Bool.and_eq_true, ih, List.pairwise_cons (a := x), List.forall_mem_cons]
      refine and_congr_left fun ordered => ?_
      refine ⟨fun first => ⟨first, fun z later => ?_⟩, And.left⟩
      exact trans x y z first ((List.pairwise_cons.1 ordered).1 z later)

theorem monotone_less_iff (xs : List Binary64) :
    monotone Binary64.less xs = true ↔ xs.Pairwise fun x y => x.less y = true :=
  monotone_iff_pairwise Binary64.less (fun _ _ _ => Binary64.less_trans) xs

/-- Numbers decrease just if they increase from the last to the first. -/
theorem monotone_reverse (xs : List Binary64) :
    monotone (fun x y => y.less x) xs.reverse = monotone Binary64.less xs := by
  rw [Bool.eq_iff_iff, monotone_less_iff,
    monotone_iff_pairwise (fun x y => y.less x) fun _ _ _ first second =>
      Binary64.less_trans second first,
    List.pairwise_reverse]

/-- The decisive truth value decides wherever it stands. -/
theorem lastUnless_eq (decisive : Bool) (bs : List Bool) :
    lastUnless decisive bs = if decisive ∈ bs then decisive else !decisive := by
  fun_induction lastUnless decisive bs with
  | case1 => simp
  | case2 b => cases b <;> cases decisive <;> rfl
  | case3 c rest => simp
  | case4 b c rest other ih => simp [ih, Ne.symm other]

theorem lastUnless_false (bs : List Bool) : lastUnless false bs = bs.all id := by
  rw [lastUnless_eq]
  cases all : bs.all id <;> simp_all [List.all_eq_true]

theorem lastUnless_true (bs : List Bool) : lastUnless true bs = bs.any id := by
  rw [lastUnless_eq]
  cases any : bs.any id <;> simp_all

section Maps

variable (name : Text)

theorem someArguments_map {α : Type} {items : List α} (given : items ≠ []) (make : α → Value) :
    someArguments name (items.map make) = .ok () := by
  obtain ⟨a, rest, rfl⟩ := List.exists_cons_of_ne_nil given
  rfl

theorem numbers_map (xs : List Binary64) : numbers name (xs.map .number) = .ok xs := by
  rw [numbers_eq_readEach]
  exact readEach_map .number (fun _ => rfl) xs

theorem booleans_map (bs : List Bool) : booleans name (bs.map .boolean) = .ok bs := by
  rw [booleans_eq_readEach]
  exact readEach_map .boolean (fun _ => rfl) bs

theorem conjunction_map {bs : List Bool} (given : bs ≠ []) :
    conjunction name (bs.map .boolean) = .ok (.boolean (bs.all id)) := by
  rw [conjunction, someArguments_map name given, booleans_map, ← lastUnless_false]
  rfl

theorem disjunction_map {bs : List Bool} (given : bs ≠ []) :
    disjunction name (bs.map .boolean) = .ok (.boolean (bs.any id)) := by
  rw [disjunction, someArguments_map name given, booleans_map, ← lastUnless_true]
  rfl

theorem negation_map (bs : List Bool) :
    negation name (bs.map .boolean) = .ok (.list (bs.map fun b => .boolean !b)) := by
  rw [negation, booleans_map]
  rfl

theorem ordered_map (lt : Binary64 → Binary64 → Bool) {xs : List Binary64} (given : xs ≠ []) :
    ordered lt name (xs.map .number) = .ok (.boolean (monotone lt xs)) := by
  rw [ordered, someArguments_map name given, numbers_map]
  rfl

end Maps
end Builtin

/-! ## The builtins of the language -/

/-- **Every builtin classifies every argument list.**  The arguments may be of any number and of any
variant, nil included.

* A builtin fails with an arity error just if it does not take that many arguments; failing that,
  with a type error just if one of them is not of the type it works on; failing that, with a value
  error just if it refuses their value, which happens to the first item of an empty list and to
  bounds of random numbers.  In every remaining case it answers.
* Conjunction and disjunction answer whether all arguments are true and whether one is, in whatever
  order they come.  Negation answers the list of all negations in order.
* The test for increasing order answers whether every earlier argument is less than every later one,
  and the test for decreasing order agrees with it on the reversed arguments.
* A list that is not empty is its first item in front of the rest of it. -/
theorem builtins_classify_their_arguments (host : Host) (name : Text) (g : Generator) :
    let answer (op : Primitive) (args : List Value) := (op.apply host name args g).1
    (∀ op : Primitive, (∀ slot, op ≠ .host slot) → ∀ args : List Value,
      (FailsWith .arity (answer op args) ↔ op.takes args.length = false) ∧
      (FailsWith .type (answer op args) ↔
        op.takes args.length = true ∧ ∃ x ∈ args, op.suits x = false) ∧
      (FailsWith .value (answer op args) ↔
        op.takes args.length = true ∧ (∀ x ∈ args, op.suits x = true) ∧
          op.refuses args = true) ∧
      ((∃ x, answer op args = .ok x) ↔
        op.takes args.length = true ∧ (∀ x ∈ args, op.suits x = true) ∧
          op.refuses args = false)) ∧
    (∀ bs : List Bool, bs ≠ [] →
      answer .conjunction (bs.map .boolean) = .ok (.boolean (bs.all id)) ∧
      answer .disjunction (bs.map .boolean) = .ok (.boolean (bs.any id)) ∧
      ∀ bs' : List Bool, bs.Perm bs' →
        answer .conjunction (bs'.map .boolean) = answer .conjunction (bs.map .boolean) ∧
        answer .disjunction (bs'.map .boolean) = answer .disjunction (bs.map .boolean)) ∧
    (∀ bs : List Bool,
      answer .negation (bs.map .boolean) = .ok (.list (bs.map fun b => .boolean !b))) ∧
    (∀ xs : List Binary64, xs ≠ [] →
      ∃ increasing, answer .increasing (xs.map .number) = .ok (.boolean increasing) ∧
        (increasing = true ↔ xs.Pairwise fun x y => x.less y = true) ∧
        answer .decreasing (xs.reverse.map .number) = .ok (.boolean increasing)) ∧
    (∀ items : List Value, items ≠ [] → ∃ x rest,
      answer .first [.list items] = .ok x ∧ answer .rest [.list items] = .ok (.list rest) ∧
        items = [x] ++ rest) := by
  intro answer
  refine ⟨?_, ?_, ?_, ?_, ?_⟩
  · intro op native args
    obtain ⟨fails, answers⟩ := (Primitive.meets_fault? native host name args g).iff_fault
    obtain ⟨arity, type, value, none⟩ := @Primitive.fault?_iff op args
    rw [fails, fails, fails, answers, arity, type, value, none, List.all_eq_true, List.all_eq_false]
    simp only [Bool.not_eq_true, and_self]
  · intro bs given
    refine ⟨Builtin.conjunction_map name given, Builtin.disjunction_map name given, ?_⟩
    intro bs' perm
    have given' : bs' ≠ [] := fun none => given (none ▸ perm).eq_nil
    simp only [answer, Primitive.apply, Builtin.conjunction_map name given,
      Builtin.conjunction_map name given', Builtin.disjunction_map name given,
      Builtin.disjunction_map name given', perm.all_eq, perm.any_eq, and_self]
  · exact fun bs => Builtin.negation_map name bs
  · intro xs given
    refine ⟨_, Builtin.ordered_map name Binary64.less given, Builtin.monotone_less_iff xs, ?_⟩
    have given' : xs.reverse ≠ [] := fun none => given (List.reverse_eq_nil_iff.1 none)
    rw [← Builtin.monotone_reverse]
    exact Builtin.ordered_map name _ given'
  · intro items given
    obtain ⟨x, rest, rfl⟩ := List.exists_cons_of_ne_nil given
    exact ⟨x, rest, rfl, rfl, rfl⟩

/-- Looking for the first fault does not stop at an argument that would decide the answer, and the
two zeros are not in order. -/
theorem arguments_of_each_class :
    let answer (op : Primitive) (args : List Value) :=
      (op.apply (fun _ _ _ => .ok .nil) "f" args ⟨0⟩).1
    let zeros : List Binary64 := [.zero true, .zero false]
    FailsWith .arity (answer .random []) ∧
      FailsWith .type (answer .conjunction [.boolean false, .nil]) ∧
      FailsWith .value (answer .random [.number (.infinity false)]) ∧
      (∃ x, answer .rest [.list []] = .ok x) ∧
      answer .disjunction [.boolean false, .boolean true] =
        answer .disjunction [.boolean true, .boolean false] ∧
      answer .negation [.boolean false, .boolean true] =
        .ok (.list [.boolean true, .boolean false]) ∧
      answer .increasing (zeros.map .number) ≠ .ok (.boolean true) ∧
      ∃ x rest, answer .first [.list [.nil, .boolean true]] = .ok x ∧
        answer .rest [.list [.nil, .boolean true]] = .ok (.list rest) ∧
        [.nil, .boolean true] = [x] ++ rest := by
  intro answer zeros
  obtain ⟨classes, logic, negation, order, parts⟩ :=
    builtins_classify_their_arguments (fun _ _ _ => .ok .nil) "f" ⟨0⟩
  have random := classes .random nofun
  refine ⟨(random []).1.2 rfl, ?_, ?_, ?_, ?_, negation [false, true], ?_, ?_⟩
  · exact (classes .conjunction nofun _).2.1.2 ⟨rfl, .nil, by simp, rfl⟩
  · exact (random _).2.2.1.2 ⟨rfl, by simp [Primitive.suits, Value.number?], by decide +kernel⟩
  · exact (classes .rest nofun _).2.2.2.2 ⟨rfl, by simp [Primitive.suits, Value.list?], rfl⟩
  · exact ((logic [true, false] (by decide)).2.2 [false, true] (by decide)).2
  · obtain ⟨increasing, told, iff, -⟩ := order zeros (by decide)
    have apart : ¬ zeros.Pairwise fun x y => x.less y = true := by decide
    intro holds
    have same : increasing = true := by simpa [told, answer] using holds
    exact apart (iff.1 same)
  · exact parts _ (by simp)

end Argot
