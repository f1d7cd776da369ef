import CallCode.Proofs.BoundArguments
import CallCode.Proofs.SpreadArguments

/-!
# Vectors of arguments

Where the parameters of a call are not known, all of its arguments are packed into one vector.
The last instruction of the code says how many there are and, where some stand for their
elements, which of them do.
-/

namespace CallCode

open Lower

/-- The code ends with the expansion of the arguments into a vector: the count is that of the
arguments, and the mask has the bits of those that stand for their elements and no others. -/
def Assembler.EndsWithDespread (assembler : Assembler) (arguments : List Expr) : Prop :=
  ∃ count mask, assembler.last? = some ⟨.despread, .spread count mask⟩ ∧
    count.toNat = arguments.length ∧ MarksSpread mask (operandsOf arguments)

theorem Assembler.endsWithDespread_despread (assembler : Assembler) {arguments : List Expr}
    (few : arguments.length ≤ maxSpreadArguments) :
    (assembler.despread arguments.length.toUInt8 (spreadMask arguments)).EndsWithDespread
      arguments := by
  have byte : arguments.length < 256 := Nat.lt_of_le_of_lt few (by decide)
  have marks : MarksSpread (spreadMask (sources (operandsOf arguments)))
      (operandsOf arguments) :=
    marksSpread_spreadMask (by rwa [length_operandsOf])
  rw [sources_operandsOf] at marks
  refine ⟨_, _, ?_, UInt8.toNat_ofNat_of_lt' byte, marks⟩
  simp [last?, despread, emit]

/-- Whatever arguments are packed, one vector is pushed, and the code ends with the instruction
that makes it.  If some arguments stand for their elements, there are at most 32, and the
instruction expands the arguments in these places.  Otherwise it makes an array of all
arguments; its operand for the element type leads to the root class exactly if that has one of
the first 65536 places in the pool.  More than 32 arguments, some of which stand for their
elements, are refused before anything is lowered. -/
theorem vector_of_packVector (context : Context) (arguments : List Expr)
    (position : Position) (before : LoweringState) :
    (∀ after, Runs (packVector (operandsOf arguments) position) context before () after →
      after.stack = .objectArray :: before.stack ∧
        (containsSpread arguments = true →
          arguments.length ≤ 32 ∧ after.assembler.EndsWithDespread arguments) ∧
        (containsSpread arguments = false →
          after.assembler.EndsWithArray .object arguments.length)) ∧
    (containsSpread arguments = true → 32 < arguments.length →
      packVector (operandsOf arguments) position context before =
        .error (.rejected (.tooManyArguments arguments.length 32 position)) before) := by
  constructor
  · intro after run
    obtain ⟨_, -, pushed⟩ :=
      packVector_run ((inductive_trivial context).steady_arguments arguments) run
    obtain ⟨loaded, -, -, ends⟩ := runs_packVector run
    rw [sources_operandsOf, length_operandsOf] at ends
    refine ⟨pushed.stack, fun spread => ?_, fun plain => ?_⟩
    · obtain ⟨-, few, made⟩ | ⟨plain, -, -⟩ := ends
      · rw [made]
        exact ⟨few, loaded.assembler.endsWithDespread_despread few⟩
      · exact absurd (spread.symm.trans plain) (by decide)
    · obtain ⟨spread, -, -⟩ | ⟨-, few, made⟩ := ends
      · exact absurd (spread.symm.trans plain) (by decide)
      · rw [made]
        exact loaded.assembler.endsWithArray_arrayInit .object few
  · intro spread many
    rw [← sources_operandsOf arguments] at spread
    rw [← length_operandsOf arguments] at many ⊢
    exact packVector_of_tooMany spread many position context before

/-- One of three arguments stands for its elements, no argument does, and 33 do. -/
theorem vector_of_packVector_three :
    let context : Context := { types := .builtin, frame := .method .object }
    let before : LoweringState := { ledger := { classId := .object, keyOf := fun _ => 0 } }
    let three : List Expr := [.int 5, .spread .this, .null]
    let many : List Expr := List.replicate 33 (.spread .this)
    (∃ after, Runs (packVector (operandsOf three) .synthetic) context before () after ∧
      containsSpread three = true ∧ after.stack = [.objectArray] ∧
        after.assembler.EndsWithDespread three) ∧
    (∃ after, Runs (packVector (operandsOf []) .synthetic) context before () after ∧
      containsSpread [] = false ∧ after.stack = [.objectArray] ∧
        after.assembler.EndsWithArray .object 0) ∧
    containsSpread many = true ∧ 32 < many.length ∧
      packVector (operandsOf many) .synthetic context before =
        .error (.rejected (.tooManyArguments 33 32 .synthetic)) before := by
  intro context before three many
  obtain ⟨expanded, expands⟩ := exists_runs_of_answer? (show answer?
    (packVector (operandsOf three) .synthetic) context before = some () by decide +kernel)
  obtain ⟨stack, despread, -⟩ :=
    (vector_of_packVector context three .synthetic before).1 expanded expands
  obtain ⟨empty, makes⟩ := exists_runs_of_answer? (show answer?
    (packVector (operandsOf []) .synthetic) context before = some () by decide +kernel)
  obtain ⟨single, -, array⟩ :=
    (vector_of_packVector context [] .synthetic before).1 empty makes
  have refused := (vector_of_packVector context many .synthetic before).2 rfl (by decide)
  exact ⟨⟨expanded, expands, rfl, stack, (despread rfl).2⟩,
    ⟨empty, makes, rfl, single, array rfl⟩, rfl, by decide, refused⟩

end CallCode
