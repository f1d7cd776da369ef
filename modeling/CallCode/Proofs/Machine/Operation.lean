import CallCode.Machine.Assembler
import CallCode.Proofs.Machine.Decoding
import Mathlib.Data.List.Forall2

/-!
# Operations

An operation is an instruction with its constants in place of their indices.  It
does not depend on the pool, on the width of an index or on where the code stands.
-/

namespace CallCode

-- byte arrays are compared as the core library compares them
attribute [local instance (high)] ByteArray.instDecidableEq

/-- What an instruction does. -/
inductive Operation
  /-- An opcode without operands. -/
  | plain (opcode : Opcode)
  | constant (value : Constant)
  | readLocal (slot : UInt16)
  /-- Read the shared cell of a captured local. -/
  | readCell (slot : UInt16)
  /-- An opcode whose operand is a type. -/
  | typed (opcode : Opcode) (type : Identity)
  | getField (name : ByteArray)
  | getStaticField (owner : Identity) (name : ByteArray)
  | arrayInit (element : Identity) (count : UInt16)
  | despread (count : UInt8) (mask : UInt32)
  | invoke (opcode : Opcode) (owner member : Identity) (count : UInt8)
  | callSite (slot : UInt16) (count flags : UInt8)
  | callRoutine (routine count flags : UInt8)
  | jump (distance : UInt16)
  | lookupSwitch (fallback : UInt16) (cases : List SwitchCase)
  | raiseFatal (message : ByteArray)
  deriving DecidableEq

namespace ConstantPool

/-- The type at an index. -/
def type? (pool : ConstantPool) (index : UInt16) : Option Identity :=
  match pool.get? index.toNat with
  | some (.type id) => some id
  | _ => none

/-- The bytes of the text at an index. -/
def text? (pool : ConstantPool) (index : UInt16) : Option ByteArray :=
  match pool.get? index.toNat with
  | some (.text bytes) => some bytes
  | _ => none

/-- The member at an index, with the owner through which it is seen. -/
def member? (pool : ConstantPool) (index : UInt16) : Option (Identity × Identity) :=
  match pool.get? index.toNat with
  | some (.member owner id) => some (owner, id)
  | _ => none

/-- The number or text at an index. -/
def literal? (pool : ConstantPool) (index : UInt16) : Option Constant :=
  match pool.get? index.toNat with
  | some (.int value) => some (.int value)
  | some (.text bytes) => some (.text bytes)
  | _ => none

section Reading

variable {pool : ConstantPool} {index : UInt16}

theorem type?_of_get? {id : Identity} (found : pool.get? index.toNat = some (.type id)) :
    pool.type? index = some id := by
  simp [type?, found]

theorem text?_of_get? {bytes : ByteArray}
    (found : pool.get? index.toNat = some (.text bytes)) :
    pool.text? index = some bytes := by
  simp [text?, found]

theorem member?_of_get? {owner id : Identity}
    (found : pool.get? index.toNat = some (.member owner id)) :
    pool.member? index = some (owner, id) := by
  simp [member?, found]

end Reading

/-- Every constant of a pool has the same index in a larger one. -/
def Within (pool larger : ConstantPool) : Prop :=
  pool.constants.toList <+: larger.constants.toList

theorem Within.refl (pool : ConstantPool) : pool.Within pool := List.prefix_rfl

theorem Within.trans {first second third : ConstantPool} (lower : first.Within second)
    (upper : second.Within third) : first.Within third :=
  List.IsPrefix.trans lower upper

theorem Within.get? {pool larger : ConstantPool} (within : pool.Within larger)
    {index : Nat} {constant : Constant} (found : pool.get? index = some constant) :
    larger.get? index = some constant := by
  obtain ⟨rest, split⟩ := within
  have small : index < pool.constants.toList.length := by
    simpa using (Array.getElem?_eq_some_iff.mp found).1
  rw [ConstantPool.get?, ← Array.getElem?_toList] at found ⊢
  rw [← split, List.getElem?_append_left small, found]

theorem add_within (pool : ConstantPool) (constant : Constant) :
    pool.Within (pool.add constant).2 := by
  unfold add
  split
  · exact Within.refl pool
  · simp [Within]

theorem size_add_le (pool : ConstantPool) (constant : Constant) :
    (pool.add constant).2.size ≤ pool.size + 1 := by
  unfold add
  split
  · exact Nat.le_succ _
  · simp [size]

end ConstantPool

namespace Instruction

/-- The operation of an instruction, if its operands are those of its opcode and
its constants are of the kinds that the opcode expects. -/
def operation? (pool : ConstantPool) (instruction : Instruction) : Option Operation :=
  let opcode := instruction.opcode
  match instruction.operands with
  | .none => if opcode.shape = .none then some (.plain opcode) else none
  | .byte value =>
      match opcode with
      | .constant => (pool.literal? value.toUInt16).map .constant
      | .getLocal => some (.readLocal value.toUInt16)
      | _ => none
  | .word value =>
      match opcode with
      | .constantWide => (pool.literal? value).map .constant
      | .getLocalWide => some (.readLocal value)
      | .getRef => some (.readCell value)
      | .getField => (pool.text? value).map .getField
      | .raiseFatal => (pool.text? value).map .raiseFatal
      | .jump => some (.jump value)
      | .getOuterThis | .newInstance | .checkCast | .box | .unbox | .loadClass =>
          (pool.type? value).map (.typed opcode)
      | _ => none
  | .words first second =>
      match opcode with
      | .getStaticField => do
          return .getStaticField (← pool.type? first) (← pool.text? second)
      | .arrayInit => return .arrayInit (← pool.type? first) second
      | _ => none
  | .member index count =>
      if opcode.isInvoke then
        (pool.member? index).map fun member => .invoke opcode member.1 member.2 count
      else none
  | .site slot count flags =>
      if opcode = .callSite then some (.callSite slot count flags) else none
  | .adapter routine count flags =>
      if opcode = .callAdapter then some (.callRoutine routine count flags) else none
  | .spread count mask =>
      if opcode = .despread then some (.despread count mask) else none
  | .table fallback cases =>
      if opcode = .lookupSwitch ∧ cases.length < 65536 then
        some (.lookupSwitch fallback cases)
      else none

theorem wellShaped_of_operation? {pool : ConstantPool} {instruction : Instruction}
    {operation : Operation} (known : instruction.operation? pool = some operation) :
    instruction.WellShaped := by
  obtain ⟨opcode, operands⟩ := instruction
  cases operands with
  | none =>
      simp only [operation?, Option.ite_none_right_eq_some] at known
      exact ⟨known.1.symm, trivial⟩
  | byte value =>
      refine ⟨?_, trivial⟩
      simp only [operation?] at known
      split at known <;> first | rfl | simp at known
  | word value =>
      refine ⟨?_, trivial⟩
      simp only [operation?] at known
      split at known <;> first | rfl | simp at known
  | words first second =>
      refine ⟨?_, trivial⟩
      simp only [operation?] at known
      split at known <;> first | rfl | simp at known
  | member index count =>
      refine ⟨?_, trivial⟩
      simp only [operation?, Option.ite_none_right_eq_some] at known
      have isInvoke := known.1
      cases opcode <;> first | rfl | simp [Opcode.isInvoke] at isInvoke
  | site slot count flags =>
      simp only [operation?, Option.ite_none_right_eq_some] at known
      exact ⟨by rw [known.1]; rfl, trivial⟩
  | adapter routine count flags =>
      simp only [operation?, Option.ite_none_right_eq_some] at known
      exact ⟨by rw [known.1]; rfl, trivial⟩
  | spread count mask =>
      simp only [operation?, Option.ite_none_right_eq_some] at known
      exact ⟨by rw [known.1]; rfl, trivial⟩
  | table fallback cases =>
      simp only [operation?, Option.ite_none_right_eq_some] at known
      exact ⟨by rw [known.1.1]; rfl, known.1.2⟩

end Instruction

/-- An operation that has no constant is spelled by one instruction, whatever the
pool is. -/
def Instruction.Spells (instruction : Instruction) : Operation → Prop
  | .plain opcode => instruction = ⟨opcode, .none⟩
  | .despread count mask => instruction = ⟨.despread, .spread count mask⟩
  | .callSite slot count flags => instruction = ⟨.callSite, .site slot count flags⟩
  | .callRoutine routine count flags =>
      instruction = ⟨.callAdapter, .adapter routine count flags⟩
  | _ => True

/-- The instructions of some code perform the given operations in order. -/
def Performs (pool : ConstantPool) (placed : List Placed) (code : List Operation) : Prop :=
  List.Forall₂ (fun item operation =>
    item.instruction.operation? pool = some operation) placed code

/-- The instructions of some code spell the given operations in order. -/
def Spells (placed : List Placed) (code : List Operation) : Prop :=
  List.Forall₂ (fun item operation => item.instruction.Spells operation) placed code

theorem Performs.append {pool : ConstantPool} {first second : List Placed}
    {firstCode secondCode : List Operation} (left : Performs pool first firstCode)
    (right : Performs pool second secondCode) :
    Performs pool (first ++ second) (firstCode ++ secondCode) :=
  List.rel_append left right

/-- Every instruction does something that is allowed. -/
def Allows (allowed : Operation → Prop) (pool : ConstantPool) (placed : List Placed) : Prop :=
  ∀ item ∈ placed, ∃ operation, item.instruction.operation? pool = some operation ∧
    allowed operation

namespace Allows

variable {allowed : Operation → Prop} {pool : ConstantPool} {first second : List Placed}

theorem append (left : Allows allowed pool first) (right : Allows allowed pool second) :
    Allows allowed pool (first ++ second) := by
  intro item member
  rcases List.mem_append.mp member with inFirst | inSecond
  · exact left item inFirst
  · exact right item inSecond

theorem cons {item : Placed} {operation : Operation}
    (known : item.instruction.operation? pool = some operation) (here : allowed operation)
    (rest : Allows allowed pool first) : Allows allowed pool (item :: first) := by
  intro other member
  rcases List.mem_cons.mp member with rfl | inRest
  · exact ⟨operation, known, here⟩
  · exact rest other inRest

theorem of_performs {code : List Operation} (performs : Performs pool first code)
    (each : ∀ operation ∈ code, allowed operation) : Allows allowed pool first := by
  induction performs with
  | nil => simp [Allows]
  | cons known _ ih =>
      refine .cons known (each _ List.mem_cons_self) (ih ?_)
      exact fun other member => each other (List.mem_cons_of_mem _ member)

theorem wellShaped (allows : Allows allowed pool first) :
    ∀ item ∈ first, item.instruction.WellShaped := by
  intro item member
  obtain ⟨operation, known, -⟩ := allows item member
  exact Instruction.wellShaped_of_operation? known

end Allows

theorem Performs.wellShaped {pool : ConstantPool} {placed : List Placed}
    {code : List Operation} (performs : Performs pool placed code) :
    ∀ item ∈ placed, item.instruction.WellShaped :=
  (Allows.of_performs performs fun _ _ => trivial).wellShaped

end CallCode
