import CallCode.Proofs.Lowering.Bodies

/-!
# Kinds of constants

Every constant operand in the code of a class leads to a constant of the kind that its
opcode expects.  The bodies of a class share one pool, which grows with each of them, also
with those that fail.
-/

namespace CallCode

open Lower

/-- What a constant operand stands for. -/
inductive ConstantKind
  /-- A number or text that is pushed. -/
  | literal
  | type
  /-- A name or a message. -/
  | text
  | member
  deriving DecidableEq, Repr

/-- Whether a constant can stand where one of a kind is expected. -/
def ConstantKind.admits : ConstantKind → Constant → Bool
  | literal, .int _ | literal, .text _ | type, .type _ | text, .text _
  | member, .member _ _ => true
  | _, _ => false

/-- The kinds of the constants that an opcode expects, in the order of its operands. -/
def Opcode.constantKinds : Opcode → List ConstantKind
  | constant | constantWide => [.literal]
  | newInstance | arrayInit | checkCast | box | unbox | loadClass | getOuterThis => [.type]
  | getStaticField => [.type, .text]
  | getField | raiseFatal => [.text]
  | invokeStatic | invokeVirtual | invokeInterface | invokeSpecial => [.member]
  | _ => []

/-- The operands that can be indices of constants, in order. -/
def Operands.indices : Operands → List Nat
  | byte index => [index.toNat]
  | word index | member index _ => [index.toNat]
  | words first second => [first.toNat, second.toNat]
  | _ => []

/-- A constant operand: the index of the constant and the kind that is expected. -/
structure ConstantOperand where
  index : Nat
  kind : ConstantKind
  deriving DecidableEq, Repr

/-- The constant operands of an instruction, in order. -/
def Instruction.constantOperands (instruction : Instruction) : List ConstantOperand :=
  List.zipWith .mk instruction.operands.indices instruction.opcode.constantKinds

/-- Every constant that the opcode expects is one of the operands. -/
theorem Instruction.WellShaped.length_constantOperands {instruction : Instruction}
    (shaped : instruction.WellShaped) :
    instruction.constantOperands.length = instruction.opcode.constantKinds.length := by
  obtain ⟨opcode, operands⟩ := instruction
  have shape : operands.shape = opcode.shape := shaped.shape
  cases operands <;> cases opcode <;> first | rfl | cases shape

/-- An index is one of the pool, and the constant there is of the expected kind. -/
def ConstantOperand.Valid (operand : ConstantOperand) (pool : ConstantPool) : Prop :=
  operand.index < pool.size ∧
    ∃ constant, pool.get? operand.index = some constant ∧ operand.kind.admits constant

/-! ## One instruction -/

section Reading

variable {pool : ConstantPool} {index : UInt16}

theorem ConstantOperand.Valid.of_get? {operand : ConstantOperand} {constant : Constant}
    (found : pool.get? operand.index = some constant)
    (admitted : operand.kind.admits constant = true) : operand.Valid pool :=
  ⟨(Array.getElem?_eq_some_iff.mp found).1, constant, found, admitted⟩

theorem valid_of_literal? (known : (pool.literal? index).isSome) :
    ConstantOperand.Valid ⟨index.toNat, .literal⟩ pool := by
  unfold ConstantPool.literal? at known
  split at known
  · exact .of_get? ‹_› rfl
  · exact .of_get? ‹_› rfl
  · cases known

theorem valid_of_type? (known : (pool.type? index).isSome) :
    ConstantOperand.Valid ⟨index.toNat, .type⟩ pool := by
  unfold ConstantPool.type? at known
  split at known
  · exact .of_get? ‹_› rfl
  · cases known

theorem valid_of_text? (known : (pool.text? index).isSome) :
    ConstantOperand.Valid ⟨index.toNat, .text⟩ pool := by
  unfold ConstantPool.text? at known
  split at known
  · exact .of_get? ‹_› rfl
  · cases known

theorem valid_of_member? (known : (pool.member? index).isSome) :
    ConstantOperand.Valid ⟨index.toNat, .member⟩ pool := by
  unfold ConstantPool.member? at known
  split at known
  · exact .of_get? ‹_› rfl
  · cases known

end Reading

/-- Where the operation of an instruction is known, its constants are of the right
kinds. -/
theorem Instruction.valid_of_operation? {instruction : Instruction} {pool : ConstantPool}
    (known : (instruction.operation? pool).isSome = true) :
    ∀ operand ∈ instruction.constantOperands, operand.Valid pool := by
  obtain ⟨opcode, operands⟩ := instruction
  simp only [constantOperands]
  cases operands with
  | byte index =>
      simp only [operation?] at known
      split at known
      · rw [Option.isSome_map] at known
        have valid := valid_of_literal? known
        rw [UInt8.toNat_toUInt16] at valid
        simpa [Operands.indices, Opcode.constantKinds] using valid
      · simp [Opcode.constantKinds]
      · cases known
  | word index =>
      simp only [operation?] at known
      split at known
      · rw [Option.isSome_map] at known
        simpa [Operands.indices, Opcode.constantKinds] using valid_of_literal? known
      · simp [Opcode.constantKinds]
      · simp [Opcode.constantKinds]
      · rw [Option.isSome_map] at known
        simpa [Operands.indices, Opcode.constantKinds] using valid_of_text? known
      · rw [Option.isSome_map] at known
        simpa [Operands.indices, Opcode.constantKinds] using valid_of_text? known
      · simp [Opcode.constantKinds]
      all_goals first
        | cases known
        | rw [Option.isSome_map] at known
          simpa [Operands.indices, Opcode.constantKinds] using valid_of_type? known
  | words first second =>
      simp only [operation?] at known
      split at known
      · simp only [Option.bind_eq_bind, Option.isSome_bind, Option.any_eq_true] at known
        obtain ⟨type, knownType, text, knownText, -⟩ := known
        have owner := valid_of_type? (Option.isSome_iff_exists.mpr ⟨type, knownType⟩)
        have name := valid_of_text? (Option.isSome_iff_exists.mpr ⟨text, knownText⟩)
        simpa [Operands.indices, Opcode.constantKinds] using And.intro owner name
      · simp only [Option.bind_eq_bind, Option.isSome_bind, Option.any_eq_true] at known
        obtain ⟨type, knownType, -⟩ := known
        have element := valid_of_type? (Option.isSome_iff_exists.mpr ⟨type, knownType⟩)
        simpa [Operands.indices, Opcode.constantKinds] using element
      · cases known
  | member index count =>
      simp only [operation?] at known
      split at known
      · rename_i isInvoke
        rw [Option.isSome_map] at known
        have valid := valid_of_member? known
        cases opcode <;> first
          | cases isInvoke; done
          | simpa [Operands.indices, Opcode.constantKinds] using valid
      · cases known
  | _ => simp [Operands.indices]

/-! ## The bodies of a class -/

/-- The units that lowering one body after another leads to, whether the bodies succeed or
not. -/
inductive ClassUnit.Lowered (hook : ChainHook) : ClassUnit → Prop
  | fresh (types : TypeTable) (ledger : Ledger) (resolver : TypeResolver) :
      Lowered hook { types, ledger, resolver }
  | body {unit : ClassUnit} {Result : Type} {action : Lower Result} (name : String)
      (frame : Frame) : Lowered hook unit → action.OnlyLowers hook →
      Lowered hook (unit.lowerBody name frame action).2

/-- The instructions of all recorded bodies are sound in the pool. -/
def ClassUnit.Sound (unit : ClassUnit) : Prop :=
  ∀ body ∈ unit.bodies, ∀ instruction ∈ body.listing.outline, instruction.Sound unit.pool

variable {hook : ChainHook} {unit : ClassUnit}

theorem ClassUnit.Sound.absorb {state : LoweringState} (sound : unit.Sound)
    (within : unit.pool.Within state.assembler.pool) : (unit.absorb state).Sound :=
  fun body among instruction member => (sound body among instruction member).later within

/-- Another body leaves the earlier ones sound and, if it is recorded, is sound itself. -/
theorem ClassUnit.Sound.lowerBody {Result : Type} {action : Lower Result}
    (sound : unit.Sound) (hooks : hook.Sound) (lowers : action.OnlyLowers hook)
    (name : String) (frame : Frame) : (unit.lowerBody name frame action).2.Sound := by
  rw [ClassUnit.lowerBody]
  cases unit.admit? name frame with
  | error error => exact sound
  | ok =>
      simp only
      cases outcome : action (unit.context frame) unit.initialState with
      | error fault state =>
          have ends : Ends action (unit.context frame) unit.initialState (some fault) state :=
            outcome
          exact sound.absorb (lowers.follows hooks ends).within
      | ok result state =>
          have ends : Ends action (unit.context frame) unit.initialState none state :=
            ⟨result, outcome⟩
          have follows := lowers.follows hooks ends
          intro body among instruction member
          rcases Array.mem_push.mp among with early | rfl
          · exact sound.absorb follows.within body early instruction member
          · obtain ⟨slots, extended⟩ := follows.code recoverable_none
            obtain ⟨placed, outline, placedSound, -⟩ := extended.places
            have same : state.assembler.listing.outline = placed := by
              simpa [ClassUnit.initialState, Listing.outline] using outline
            rw [same] at member
            exact placedSound instruction member

theorem ClassUnit.Lowered.sound (lowered : unit.Lowered hook) (hooks : hook.Sound) :
    unit.Sound := by
  induction lowered with
  | fresh => exact fun body among => by simp at among
  | body name frame _ lowers ih => exact ih.lowerBody hooks lowers name frame

/-- What reading the code of a listing meets at each offset is one of its instructions. -/
theorem Listing.exists_of_mem_walk {listing : Listing} {offset : Nat}
    (shaped : ∀ item ∈ listing.items, item.instruction.WellShaped)
    (visited : offset ∈ listing.assemble.walk) :
    ∃ item ∈ listing.items, listing.assemble.instructionAt offset = some item.instruction := by
  have split : listing.items.toList = [] ++ listing.items.toList ++ [] := by simp
  have located := located_assemble split fun item member => shaped item (by simpa using member)
  have ends : codeSize [] + codeSize listing.items.toList = listing.assemble.size := by
    rw [size_assemble, size_eq_codeSize, codeSize_nil, Nat.zero_add]
  have walked := ObjectCode.toList_walkFrom located ends #[]
  rw [codeSize_nil] at walked located
  rw [ObjectCode.walk, ← Array.mem_toList_iff, walked, List.nil_append] at visited
  obtain ⟨item, member, found⟩ := ObjectCode.exists_of_mem_startsFrom located visited
  exact ⟨item, by simpa using member, found⟩

/-- Constants are of the expected kinds.  Whatever the bodies of a class asked for, and
also if some of them failed, reading the code of a recorded body finds an instruction at
each offset that it visits, with all the constants that the opcode expects, and each of
them is in the final pool and of its kind. -/
theorem constants_well_kinded (plain : hook.Plain) (lowered : unit.Lowered hook)
    (small : unit.finish.pool.size ≤ maxConstants) :
    ∀ body ∈ unit.finish.bodies, ∀ offset ∈ body.code.walk,
      ∃ instruction, body.code.instructionAt offset = some instruction ∧
        instruction.constantOperands.length = instruction.opcode.constantKinds.length ∧
        ∀ operand ∈ instruction.constantOperands, operand.Valid unit.finish.pool := by
  intro body among offset visited
  have sound : ∀ item ∈ body.listing.items, item.instruction.Sound unit.pool := by
    intro item member
    rw [← Instruction.sound_pending]
    refine lowered.sound plain.sound body among _ ?_
    exact List.mem_map_of_mem (by simpa using member)
  obtain ⟨item, member, found⟩ :=
    Listing.exists_of_mem_walk (fun item member => (sound item member).shaped) visited
  refine ⟨item.instruction, found, (sound item member).shaped.length_constantOperands, ?_⟩
  exact Instruction.valid_of_operation? ((sound item member).known _ (.refl _) small)

/-- `C.class.f(this())`, which is rejected behind its receiver. -/
def rejectedCall : Entry :=
  .call (.method ⟨.classLiteral ⟨5⟩, .named "f",
    [.call (.chain ⟨.sameClass, [], .synthetic⟩)], false, false, false, none, none,
    .synthetic⟩)

/-- `D.class.g(E.class)` -/
def recordedCall : Entry :=
  .call (.method ⟨.classLiteral ⟨6⟩, .named "g", [.classLiteral ⟨7⟩], false, false, false,
    none, none, .synthetic⟩)

/-- A class of two bodies, the first of which fails. -/
def twoBodies : ClassUnit :=
  let first := (ClassUnit.start .empty ⟨1⟩).lowerBody "f" (.method ⟨1⟩)
    (rejectedCall.lower noHook)
  (first.2.lowerBody "g" (.method ⟨1⟩) (recordedCall.lower noHook)).2

/-- The body that fails leaves a constant in the pool, and one is recorded. -/
theorem constants_of_two_bodies :
    noHook.Plain ∧ twoBodies.Lowered noHook ∧
      twoBodies.finish.pool.size ≤ maxConstants ∧ twoBodies.finish.bodies.size = 1 ∧
      ∀ body ∈ twoBodies.finish.bodies, ∀ offset ∈ body.code.walk,
        ∃ instruction, body.code.instructionAt offset = some instruction ∧
          instruction.constantOperands.length = instruction.opcode.constantKinds.length ∧
          ∀ operand ∈ instruction.constantOperands, operand.Valid twoBodies.finish.pool := by
  have lowered : twoBodies.Lowered noHook :=
    .body _ _ (.body _ _ (.fresh _ _ _) (rejectedCall.onlyLowers noHook))
      (recordedCall.onlyLowers noHook)
  have added : twoBodies.finish.pool =
      (((({} : ConstantPool).add (.type ⟨5⟩)).2.add (.type ⟨6⟩)).2.add (.type ⟨7⟩)).2 := by
    rfl
  have small : twoBodies.finish.pool.size ≤ maxConstants := by
    rw [added]
    calc
      _ ≤ ((({} : ConstantPool).add (.type ⟨5⟩)).2.add (.type ⟨6⟩)).2.size + 1 :=
        ConstantPool.size_add_le _ _
      _ ≤ (({} : ConstantPool).add (.type ⟨5⟩)).2.size + 1 + 1 :=
        Nat.succ_le_succ (ConstantPool.size_add_le _ _)
      _ ≤ 0 + 1 + 1 + 1 :=
        Nat.succ_le_succ (Nat.succ_le_succ (ConstantPool.size_add_le _ _))
      _ ≤ maxConstants := by decide
  refine ⟨.none, lowered, small, by decide +kernel, ?_⟩
  exact constants_well_kinded .none lowered small

end CallCode
