import Mathlib.Data.List.Nodup
import Argot.Proofs.Grammar
import Argot.Vocabulary.Validity

set_option autoImplicit false

/-!
# What a valid vocabulary guarantees

The checks of a vocabulary go through its tokens one after another and stop at the first
fault.  Here their success is turned into facts about all tokens at once: none is empty or
holds whitespace, no two roles share one (`IsValid.token_injective`), and no delimiter
stands inside another token (`IsValid.not_inside`).
-/

namespace Argot

namespace Vocabulary

/-! ## One token at a time -/

/-- A token without fault is a word that is no number and has not been used before. -/
theorem tokenFault?_eq_none {seen : List NamedToken} {t : NamedToken}
    (passes : tokenFault? seen t = none) :
    t.token ≠ [] ∧ t.token.hasSpace = false ∧ isNumeral t.token = false ∧
      ∀ s ∈ seen, s.token ≠ t.token := by
  unfold tokenFault? at passes
  split at passes
  · cases passes
  · rename_i nonempty
    split at passes
    · cases passes
    · rename_i solid
      split at passes
      · cases passes
      · rename_i numeral
        rw [Option.map_eq_none_iff, List.find?_eq_none] at passes
        refine ⟨fun empty => nonempty (by rw [empty]; rfl), Bool.eq_false_iff.2 solid,
          Bool.eq_false_iff.2 numeral, fun s member same => ?_⟩
        exact passes s member (beq_iff_eq.2 same)

/-- Tokens without fault are told apart from each other and from those before them. -/
theorem tokensFault?_eq_none {seen tokens : List NamedToken}
    (pass : tokensFault? seen tokens = none) :
    (∀ t ∈ tokens, t.token ≠ [] ∧ t.token.hasSpace = false ∧ isNumeral t.token = false) ∧
      (∀ t ∈ tokens, ∀ s ∈ seen, s.token ≠ t.token) ∧
      (tokens.map NamedToken.token).Nodup := by
  induction tokens generalizing seen with
  | nil => simp
  | cons t rest ih =>
    rw [tokensFault?, Option.or_eq_none_iff] at pass
    obtain ⟨nonempty, solid, numeral, fresh⟩ := tokenFault?_eq_none pass.1
    obtain ⟨words, apart, nodup⟩ := ih pass.2
    refine ⟨?_, ?_, ?_⟩
    · intro s member
      rcases List.mem_cons.1 member with rfl | member
      · exact ⟨nonempty, solid, numeral⟩
      · exact words s member
    · intro s member earlier before
      rcases List.mem_cons.1 member with rfl | member
      · exact fresh earlier before
      · exact apart s member earlier (List.mem_append_left _ before)
    · rw [List.map_cons, List.nodup_cons]
      refine ⟨fun among => ?_, nodup⟩
      obtain ⟨s, member, same⟩ := List.mem_map.1 among
      exact apart s member t (List.mem_append_right _ List.mem_cons_self) same.symm

theorem delimiterFault?_eq_none {delimiters : List Text} {tokens : List NamedToken}
    (pass : delimiterFault? delimiters tokens = none) :
    ∀ d ∈ delimiters, ∀ t ∈ tokens, t.token ≠ d → Text.hasInfix d t.token = false := by
  intro d delimiter t member differ
  have quiet := List.findSome?_eq_none_iff.1 (List.findSome?_eq_none_iff.1 pass d delimiter) t member
  by_cases inside : Text.hasInfix d t.token = true
  · rw [if_pos ⟨differ, inside⟩] at quiet
    cases quiet
  · exact Bool.eq_false_iff.2 inside

/-! ## The whole vocabulary -/

/-- The reserved tokens and the arithmetic names. -/
def tokens (v : Vocabulary) : List Text := Role.all.map v.token ++ arithmetic

theorem tokens_eq (v : Vocabulary) : v.tokens = v.named.map NamedToken.token := by
  simp [tokens, named, Function.comp_def]

theorem token_mem_tokens (v : Vocabulary) (role : Role) : v.token role ∈ v.tokens :=
  List.mem_append_left _ (List.mem_map.2 ⟨role, role.mem_all, rfl⟩)

theorem delimiter_mem_tokens (v : Vocabulary) {d : Text} (delimiter : d ∈ v.delimiters) :
    d ∈ v.tokens := by
  have among : d ∈ [Role.listOpen, .listClose, .quoteMark].map v.token := delimiter
  obtain ⟨role, _, rfl⟩ := List.mem_map.1 among
  exact v.token_mem_tokens role

namespace IsValid

variable {v : Vocabulary}

/-- What the check looks at in each token. -/
theorem token_passes (valid : v.IsValid) {t : Text} (member : t ∈ v.tokens) :
    t ≠ [] ∧ t.hasSpace = false ∧ isNumeral t = false := by
  rw [tokens_eq] at member
  obtain ⟨named, among, rfl⟩ := List.mem_map.1 member
  exact (tokensFault?_eq_none (Option.or_eq_none_iff.1 valid).1).1 named among

theorem nonempty (valid : v.IsValid) (role : Role) : v.token role ≠ [] :=
  (valid.token_passes (v.token_mem_tokens role)).1

theorem solid (valid : v.IsValid) (role : Role) : (v.token role).hasSpace = false :=
  (valid.token_passes (v.token_mem_tokens role)).2.1

/-- Different roles have different tokens. -/
theorem token_injective (valid : v.IsValid) : Function.Injective v.token := by
  have nodup := (tokensFault?_eq_none (Option.or_eq_none_iff.1 valid).1).2.2
  rw [named, List.map_append, List.map_map] at nodup
  intro r s same
  exact List.inj_on_of_nodup_map nodup.of_append_left r.mem_all s.mem_all same

theorem token_ne (valid : v.IsValid) (r s : Role) (differ : r ≠ s) : v.token r ≠ v.token s :=
  fun same => differ (valid.token_injective same)

theorem delimitersDiffer (valid : v.IsValid) : v.DelimitersDiffer where
  open_ne_close := valid.token_ne .listOpen .listClose (by decide)
  open_ne_quote := valid.token_ne .listOpen .quoteMark (by decide)
  close_ne_quote := valid.token_ne .listClose .quoteMark (by decide)

theorem nonempty_delimiter (valid : v.IsValid) {d : Text} (delimiter : d ∈ v.delimiters) :
    d ≠ [] :=
  (valid.token_passes (v.delimiter_mem_tokens delimiter)).1

theorem solid_delimiter (valid : v.IsValid) {d : Text} (delimiter : d ∈ v.delimiters) :
    d.hasSpace = false :=
  (valid.token_passes (v.delimiter_mem_tokens delimiter)).2.1

/-- The token of any other role is no delimiter. -/
theorem token_not_delimiter (valid : v.IsValid) {role : Role}
    (other : role ∉ [.listOpen, .listClose, .quoteMark]) : v.token role ∉ v.delimiters := by
  intro member
  have among : v.token role ∈ [Role.listOpen, .listClose, .quoteMark].map v.token := member
  obtain ⟨delimiter, listed, same⟩ := List.mem_map.1 among
  exact other (valid.token_injective same ▸ listed)

/-- No delimiter stands inside another token. -/
theorem not_inside (valid : v.IsValid) {d t : Text} (delimiter : d ∈ v.delimiters)
    (member : t ∈ v.tokens) (differ : t ≠ d) : Text.hasInfix d t = false := by
  rw [tokens_eq] at member
  obtain ⟨named, among, rfl⟩ := List.mem_map.1 member
  exact delimiterFault?_eq_none (Option.or_eq_none_iff.1 valid).2 d delimiter named among differ

end IsValid
end Vocabulary
end Argot
