import CallCode.Machine.Expectation
import Mathlib.Data.List.Basic

/-!
# Containment of opcodes

Expected opcodes are looked for in turn, and each is matched with the first one of the code that
is left.  No match is lost by that: the expected list is found exactly if it is a subsequence
of the opcodes, and otherwise as much of it is found as can be.
-/

namespace CallCode

/-- The longest beginning of the expected opcodes that is a subsequence of the actual ones. -/
structure LongestFound (expected actual found : List Opcode) : Prop where
  begins : found <+: expected
  occurs : found.Sublist actual
  longest : ∀ other, other <+: expected → other.Sublist actual → other.length ≤ found.length

namespace LongestFound

variable {expected actual found : List Opcode}

/-- There is only one longest beginning. -/
theorem unique {other : List Opcode} (left : LongestFound expected actual found)
    (right : LongestFound expected actual other) : found = other := by
  have shorter := right.longest found left.begins left.occurs
  have inside := List.prefix_of_prefix_length_le left.begins right.begins shorter
  exact inside.eq_of_length_le (left.longest other right.begins right.occurs)

/-- All that is expected is found exactly if it is a subsequence. -/
theorem eq_expected_iff (longest : LongestFound expected actual found) :
    found = expected ↔ expected.Sublist actual := by
  constructor
  · rintro rfl
    exact longest.occurs
  · intro occurs
    exact longest.begins.eq_of_length_le (longest.longest expected List.prefix_rfl occurs)

/-- The first match is as good as any later one: what comes behind a later match also comes
behind the first. -/
theorem matched (opcode : Opcode) (longest : LongestFound expected actual found) :
    LongestFound (opcode :: expected) (opcode :: actual) (opcode :: found) where
  begins := List.cons_prefix_cons.mpr ⟨rfl, longest.begins⟩
  occurs := longest.occurs.cons_cons opcode
  longest := by
    intro other begins occurs
    obtain rfl | ⟨rest, rfl, shorter⟩ := List.prefix_cons_iff.mp begins
    · exact Nat.zero_le _
    · have rests := List.cons_sublist_cons.mp occurs
      exact Nat.succ_le_succ (longest.longest rest shorter rests)

/-- An opcode other than the next expected one is of no use. -/
theorem skipped {opcode other : Opcode} (different : opcode ≠ other)
    (longest : LongestFound (opcode :: expected) actual found) :
    LongestFound (opcode :: expected) (other :: actual) found where
  begins := longest.begins
  occurs := longest.occurs.cons other
  longest := by
    intro beginning begins occurs
    refine longest.longest beginning begins ?_
    obtain rfl | ⟨rest, rfl, -⟩ := List.prefix_cons_iff.mp begins
    · exact List.nil_sublist actual
    · exact List.Sublist.of_cons_of_ne different occurs

end LongestFound

/-- Matching in turn leaves what comes after the longest beginning. -/
theorem longestFound_unmatched (expected actual : List Opcode) : ∃ found,
    expected = found ++ unmatched expected actual ∧ LongestFound expected actual found := by
  -- the induction is on the actual opcodes, each of which is matched or passed over
  fun_induction unmatched expected actual with
  | case1 actual =>
      exact ⟨[], rfl, List.prefix_rfl, List.nil_sublist actual,
        fun other begins _ => begins.length_le⟩
  | case2 expected =>
      exact ⟨[], rfl, List.nil_prefix, List.Sublist.refl [],
        fun other _ occurs => occurs.length_le⟩
  | case3 expected opcode following ih =>
      obtain ⟨found, split, longest⟩ := ih
      exact ⟨opcode :: found, congrArg (opcode :: ·) split, longest.matched opcode⟩
  | case4 opcode expected actual following different ih =>
      obtain ⟨found, split, longest⟩ := ih
      exact ⟨found, split, longest.skipped different⟩

/-- Nothing is left exactly if the expected opcodes are a subsequence. -/
theorem unmatched_eq_nil_iff {expected actual : List Opcode} :
    unmatched expected actual = [] ↔ expected.Sublist actual := by
  obtain ⟨found, split, longest⟩ := longestFound_unmatched expected actual
  rw [← longest.eq_expected_iff]
  constructor
  · intro none_left
    rw [split, none_left, List.append_nil]
  · rintro rfl
    exact List.self_eq_append_right.mp split

/-- The last `pop` occurs once more, but not behind a `swap`. -/
example : unmatched [.pop, .swap, .pop] [.pop, .pop, .dup] = [.swap, .pop] := by decide

namespace ObjectCode

theorem expectContains_eq (code : ObjectCode) (expected : List Opcode) :
    code.expectContains expected =
      if expected.Sublist code.opcodes.toList then .ok ()
      else .error
        (.missing (unmatched expected code.opcodes.toList) code.opcodes.toList) := by
  unfold expectContains
  dsimp only
  split
  · rename_i all
    rw [if_pos (unmatched_eq_nil_iff.mp all)]
  · rename_i some_left
    rw [if_neg (mt unmatched_eq_nil_iff.mpr some_left)]

/-- Expected opcodes are contained exactly if they are a subsequence of those of the code.
Otherwise what is reported as missing are the expected ones behind their longest beginning that
is a subsequence. -/
theorem expectContains_iff (code : ObjectCode) (expected : List Opcode) :
    (code.expectContains expected = .ok () ↔ expected.Sublist code.opcodes.toList) ∧
    ∀ mismatch, code.expectContains expected = .error mismatch ↔
      ¬expected.Sublist code.opcodes.toList ∧ ∃ found remaining,
        LongestFound expected code.opcodes.toList found ∧ expected = found ++ remaining ∧
          mismatch = .missing remaining code.opcodes.toList := by
  obtain ⟨found, split, longest⟩ := longestFound_unmatched expected code.opcodes.toList
  rw [expectContains_eq]
  by_cases contained : expected.Sublist code.opcodes.toList
  · simp [contained]
  · simp only [contained, if_false, reduceCtorEq, not_false_eq_true, true_and,
      Except.error.injEq]
    intro mismatch
    constructor
    · rintro rfl
      exact ⟨found, _, longest, split, rfl⟩
    · rintro ⟨other, remaining, also, halves, rfl⟩
      obtain rfl := longest.unique also
      rw [List.append_cancel_left (split.symm.trans halves)]

end ObjectCode

end CallCode
