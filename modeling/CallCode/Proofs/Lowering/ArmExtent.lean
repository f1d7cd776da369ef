import CallCode.Proofs.ConstantIndices
import CallCode.Proofs.Lowering.PlacedCoercions
import CallCode.Proofs.Lowering.SwitchLayout

/-!
# How long an arm is

Where the arm of a switch is lowered, its operands stand on the stack already, so that it is
known beforehand which instructions it places.  How many bytes these take also depends on
the constants that are there: an integer is pushed by a shorter instruction if its place in
the pool fits one byte.
-/

namespace CallCode

open Lower

/-! ## Extents -/

/-- How many bytes some code takes, and the constants that are there behind it. -/
structure Extent where
  size : Nat := 0
  pool : ConstantPool

namespace Emit

/-- The constants once those that a call is given are among them. -/
def poolAfter (pool : ConstantPool) (emit : Emit) : ConstantPool :=
  emit.constants.foldl (fun pool constant => (pool.add constant).2) pool

/-- The number of bytes that a call writes. -/
def size (pool : ConstantPool) (emit : Emit) : Nat :=
  1 + ((emit.content pool).2.flatMap OperandField.bytes).length

theorem pool_run (assembler : Assembler) (emit : Emit) :
    (emit.run assembler).2.pool = emit.poolAfter assembler.pool := by
  have load (constant : Constant) :
      (assembler.loadConstant constant).pool = (assembler.pool.add constant).2 := by
    unfold Assembler.loadConstant Assembler.intern
    by_cases short : (assembler.pool.add constant).1 < 256
    · simp only [short, if_true]
      rfl
    · simp only [short, if_false]
      rfl
  cases emit with
  | loadConstant constant => exact load constant
  | loadString text => exact load (.ofString text)
  | loadInt value =>
      by_cases zero : value = 0
      · subst zero
        rfl
      by_cases one : value = 1
      · subst one
        rfl
      simpa [run, poolAfter, constants, Assembler.loadInt, zero, one] using load (.int value)
  | getLocal slot =>
      by_cases short : slot < 256
      · simp only [run, Assembler.getLocal, short, if_true]
        rfl
      · simp only [run, Assembler.getLocal, short, if_false]
        rfl
  | _ => rfl

theorem size_run (assembler : Assembler) (emit : Emit) :
    (emit.run assembler).2.listing.size =
      assembler.listing.size + emit.size assembler.pool := by
  obtain ⟨operands, placed, fields, -, -⟩ := emit.emits_run assembler
  have bytes : operands.size =
      ((emit.content assembler.pool).2.flatMap OperandField.bytes).length := by
    rw [← Operands.length_encode, ← Operands.flatMap_fields, fields]
    simp [List.flatMap_map]
  rw [placed]
  simp only [Listing.push, Instruction.size, bytes, Emit.size]

end Emit

namespace Extent

/-- The extent behind one more call. -/
def emit (extent : Extent) (emit : Emit) : Extent :=
  ⟨extent.size + emit.size extent.pool, emit.poolAfter extent.pool⟩

/-- The extent behind further calls. -/
def emitAll (extent : Extent) (emits : List Emit) : Extent := emits.foldl Extent.emit extent

theorem emitAll_append (extent : Extent) (emits further : List Emit) :
    extent.emitAll (emits ++ further) = (extent.emitAll emits).emitAll further :=
  List.foldl_append

/-- Behind an assembler that wrote some code from a number of bytes on, the code has an
extent. -/
structure Reached (extent : Extent) (start : Nat) (assembler : Assembler) : Prop where
  size : assembler.listing.size = start + extent.size
  pool : assembler.pool = extent.pool

end Extent

theorem Extent.Reached.emitAll {extent : Extent} {start : Nat} {assembler : Assembler}
    (reached : extent.Reached start assembler) (emits : List Emit) :
    (extent.emitAll emits).Reached start (assembler.emitAll emits) := by
  induction emits generalizing extent assembler with
  | nil => exact reached
  | cons emit emits ih =>
      have next : (extent.emit emit).Reached start (emit.run assembler).2 := by
        constructor
        · rw [Emit.size_run, reached.size, reached.pool, Extent.emit, Nat.add_assoc]
        · rw [Emit.pool_run, reached.pool]
          rfl
      exact ih next

/-! ## What an arm emits -/

/-- The calls that bring the vector on top of the receiver. -/
def arrangementEmits (inConstructor : Bool) : List Emit :=
  if inConstructor then [.plain .swap rfl, .plain .dupX1 rfl]
  else [.plain .dupX1 rfl, .plain .dup2X1 rfl, .plain .pop rfl]

/-- The calls that load one element of the vector on top beneath it. -/
def elementEmits (types : TypeTable) (position : Nat) (type : ValueType) : List Emit :=
  [.plain .dup rfl, .loadInt (.ofNat position), .plain .arrayLoad rfl] ++
    coercionEmits types .object type ++ [.plain .swap rfl]

/-- The calls that turn the vector on top into the array of its last elements. -/
def remainderEmits (position : Nat) (type : ValueType) : List Emit :=
  [.loadInt (.ofNat position), .loadClass type.signature,
    .callAdapter Routine.sliceArguments.number 3 0, .checkCast type.signature]

/-- The calls that unpack the vector on top into parameters from a position on. -/
def unpackingEmits (types : TypeTable) (position : Nat) : List Param → List Emit
  | [] => [.plain .pop rfl]
  | [param] =>
      if param.type.isArray then remainderEmits position param.type
      else elementEmits types position param.type ++ [.plain .pop rfl]
  | param :: params =>
      elementEmits types position param.type ++ unpackingEmits types (position + 1) params

/-- The calls that lower an arm. -/
def armEmits (context : Context) (classId : Identity) (candidate : Candidate) : List Emit :=
  arrangementEmits context.frame.isConstructor ++
    unpackingEmits context.types 0 candidate.constructor.params ++
      [.invoke .invokeSpecial classId candidate.constructor.id
        candidate.constructor.params.length.toUInt8 rfl]

theorem Opcode.operandSize_jump : Opcode.jump.operandSize = 2 := rfl

/-- The extent of a switch behind one more arm, with the branch at its end. -/
def Extent.behindArm (extent : Extent) (context : Context) (classId : Identity)
    (candidate : Candidate) : Extent :=
  extent.emitAll (armEmits context classId candidate ++ [.jump .jump Opcode.operandSize_jump])

/-! ## How many bytes an arm takes -/

/-- Whatever constants are there, some calls take a number of bytes between two bounds. -/
structure Spans (emits : List Emit) (least most : Nat) : Prop where
  least : ∀ extent : Extent, extent.size + least ≤ (extent.emitAll emits).size
  most : ∀ extent : Extent, (extent.emitAll emits).size ≤ extent.size + most

namespace Spans

variable {emits further : List Emit} {least most moreLeast moreMost : Nat}

theorem nil : Spans [] 0 0 := ⟨fun _ => Nat.le_refl _, fun _ => Nat.le_refl _⟩

theorem append (left : Spans emits least most) (right : Spans further moreLeast moreMost) :
    Spans (emits ++ further) (least + moreLeast) (most + moreMost) := by
  constructor
  all_goals
    intro extent
    rw [Extent.emitAll_append]
  · have lower := left.least extent
    have upper := right.least (extent.emitAll emits)
    omega
  · have lower := left.most extent
    have upper := right.most (extent.emitAll emits)
    omega

theorem mono (spans : Spans emits least most) (lower : moreLeast ≤ least)
    (upper : most ≤ moreMost) : Spans emits moreLeast moreMost where
  least extent := Nat.le_trans (Nat.add_le_add_left lower _) (spans.least extent)
  most extent := Nat.le_trans (spans.most extent) (Nat.add_le_add_left upper _)

theorem one {emit : Emit} (lower : ∀ pool, least ≤ emit.size pool)
    (upper : ∀ pool, emit.size pool ≤ most) : Spans [emit] least most where
  least extent := Nat.add_le_add_left (lower extent.pool) _
  most extent := Nat.add_le_add_left (upper extent.pool) _

/-- The size of most calls does not depend on the constants. -/
theorem fixed {emit : Emit} {size : Nat} (same : ∀ pool, emit.size pool = size) :
    Spans [emit] size size :=
  .one (fun pool => Nat.le_of_eq (same pool).symm) fun pool => Nat.le_of_eq (same pool)

theorem loadInt (value : Int64) : Spans [.loadInt value] 1 3 := by
  refine .one (fun _ => Nat.le_add_right _ _) fun pool => ?_
  simp only [Emit.size, Emit.content, Emit.constantContent]
  split
  · decide
  · split
    · decide
    · split <;> simp [OperandField.bytes, bytesOfUInt16]

theorem coercion (types : TypeTable) (source target : ValueType) :
    Spans (coercionEmits types source target) 0 6 := by
  have boxes : Spans (boxingEmits types source) 0 3 := by
    unfold boxingEmits
    split
    · exact (fixed fun _ => rfl).mono (Nat.zero_le _) (Nat.le_refl _)
    · exact nil.mono (Nat.le_refl _) (Nat.zero_le _)
  have converts : Spans (if types.isPrimitive target then [.unbox target.base]
      else if types.isAssignable (types.boxed source) target then []
      else [.checkCast target.signature]) 0 3 := by
    split
    · exact (fixed fun _ => rfl).mono (Nat.zero_le _) (Nat.le_refl _)
    · split
      · exact nil.mono (Nat.le_refl _) (Nat.zero_le _)
      · exact (fixed fun _ => rfl).mono (Nat.zero_le _) (Nat.le_refl _)
  unfold coercionEmits
  split
  · exact nil.mono (Nat.le_refl _) (Nat.zero_le _)
  · exact boxes.append converts

theorem element (types : TypeTable) (position : Nat) (type : ValueType) :
    Spans (elementEmits types position type) 4 12 := by
  have copies : Spans [.plain .dup rfl] 1 1 := fixed fun _ => rfl
  have loads : Spans [.plain .arrayLoad rfl] 1 1 := fixed fun _ => rfl
  have swaps : Spans [.plain .swap rfl] 1 1 := fixed fun _ => rfl
  exact (((copies.append (loadInt _)).append loads).append (coercion _ _ _)).append swaps

theorem slicing (position : Nat) (type : ValueType) :
    Spans (remainderEmits position type) 11 13 := by
  have classes : Spans [.loadClass type.signature] 3 3 := fixed fun _ => rfl
  have slices : Spans [.callAdapter Routine.sliceArguments.number 3 0] 4 4 := fixed fun _ => rfl
  have casts : Spans [.checkCast type.signature] 3 3 := fixed fun _ => rfl
  exact (((loadInt _).append classes).append slices).append casts

theorem unpacking (types : TypeTable) (position : Nat) (params : List Param) :
    Spans (unpackingEmits types position params) (4 * params.length + 1)
      (12 * params.length + 1) := by
  have pops : Spans [.plain .pop rfl] 1 1 := fixed fun _ => rfl
  fun_induction unpackingEmits types position params with
  | case1 position => exact pops
  | case2 position param isArray =>
      exact (slicing _ _).mono (by simp) (Nat.le_refl _)
  | case3 position param isSingle => exact (element _ _ _).append pops
  | case4 position param params several ih =>
      refine ((element _ _ _).append ih).mono ?_ ?_
      · rw [List.length_cons]
        omega
      · rw [List.length_cons]
        omega

theorem arm (context : Context) (classId : Identity) (candidate : Candidate) :
    Spans (armEmits context classId candidate)
      (4 * candidate.constructor.params.length + 7)
      (12 * candidate.constructor.params.length + 8) := by
  have arranges : Spans (arrangementEmits context.frame.isConstructor) 2 3 := by
    have plain (opcode : Opcode) (bare : opcode.operandSize = 0) :
        Spans [.plain opcode bare] 1 1 := fixed fun _ => rfl
    unfold arrangementEmits
    split
    · exact ((plain .swap rfl).append (plain .dupX1 rfl)).mono (Nat.le_refl _) (Nat.le_succ _)
    · exact ((plain .dupX1 rfl).append ((plain .dup2X1 rfl).append (plain .pop rfl))).mono
        (Nat.le_succ _) (Nat.le_refl _)
  have invokes : Spans [.invoke .invokeSpecial classId candidate.constructor.id
      candidate.constructor.params.length.toUInt8 rfl] 4 4 := fixed fun _ => rfl
  refine ((arranges.append (unpacking _ _ _)).append invokes).mono ?_ ?_
  · omega
  · omega

end Spans

/-! ## Arms are lowered to these calls -/

variable {context : Context} {before : LoweringState} {rest : TypeStack}
  {vector newInstance : ValueType}

theorem runs_unpackElement (position : Nat) (type : ValueType)
    (found : before.stack = vector :: rest) :
    Runs (unpackElement position type) context before ()
      (before.place (elementEmits context.types position type)
        (vector :: coercedType context.types .object type :: rest)) := by
  obtain ⟨assembler, stack, ledger, diagnostics⟩ := before
  obtain rfl : stack = vector :: rest := found
  refine runs_then rfl (runs_then rfl (runs_then rfl (runs_then rfl (runs_then rfl
    (runs_then rfl ?_)))))
  refine runs_then (runs_coerceTo type rfl) ?_
  rw [elementEmits, ← LoweringState.place_place _ _ _
    (coercedType context.types .object type :: vector :: rest)]
  rfl

theorem runs_unpackRest (position : Nat) (type : ValueType)
    (found : before.stack = vector :: rest) :
    Runs (unpackRest position type) context before ()
      (before.place (remainderEmits position type) (type :: rest)) := by
  obtain ⟨assembler, stack, ledger, diagnostics⟩ := before
  obtain rfl : stack = vector :: rest := found
  rfl

theorem runs_arrangeReceiver (inConstructor : Bool)
    (found : before.stack = newInstance :: vector :: rest) :
    Runs (arrangeReceiver inConstructor) context before ()
      (before.place (arrangementEmits inConstructor)
        (vector :: newInstance :: (remainder inConstructor newInstance vector ++ rest))) := by
  obtain ⟨assembler, stack, ledger, diagnostics⟩ := before
  obtain rfl : stack = newInstance :: vector :: rest := found
  cases inConstructor <;> rfl

theorem runs_unpackVector (position : Nat) (params : List Param)
    (found : before.stack = vector :: rest) :
    ∃ loaded : TypeStack, loaded.length = params.length ∧
      Runs (unpackVector position params) context before ()
        (before.place (unpackingEmits context.types position params) (loaded ++ rest)) := by
  fun_induction unpackVector position params generalizing before rest with
  | case1 position =>
      refine ⟨[], rfl, ?_⟩
      obtain ⟨assembler, stack, ledger, diagnostics⟩ := before
      obtain rfl : stack = vector :: rest := found
      rfl
  | case2 position param isArray =>
      refine ⟨[param.type], rfl, ?_⟩
      rw [unpackingEmits, if_pos isArray]
      exact runs_unpackRest position param.type found
  | case3 position param isSingle ih =>
      obtain ⟨loaded, count, drops⟩ := @ih (before.place
        (elementEmits context.types position param.type)
        (vector :: coercedType context.types .object param.type :: rest)) _ rfl
      refine ⟨loaded ++ [coercedType context.types .object param.type], by simpa using count, ?_⟩
      rw [LoweringState.place_place] at drops
      rw [unpackingEmits, if_neg isSingle, List.append_assoc]
      exact runs_then (runs_unpackElement position param.type found) drops
  | case4 position param params several ih =>
      obtain ⟨loaded, count, unpacks⟩ := @ih (before.place
        (elementEmits context.types position param.type)
        (vector :: coercedType context.types .object param.type :: rest)) _ rfl
      refine ⟨loaded ++ [coercedType context.types .object param.type], by simpa using count, ?_⟩
      rw [LoweringState.place_place] at unpacks
      rw [unpackingEmits, List.append_assoc]
      · exact runs_then (runs_unpackElement position param.type found) unpacks
      · exact several

variable {classId : Identity} {candidate : Candidate} {position : Position}

theorem runs_runConstructor {constructor : Constructor} {loaded : TypeStack}
    (found : before.stack = loaded ++ newInstance :: rest)
    (count : loaded.length = constructor.params.length)
    (few : constructor.params.length < 256) :
    Runs (runConstructor classId constructor position) context before ()
      (before.place [.invoke .invokeSpecial classId constructor.id
        constructor.params.length.toUInt8 rfl] rest) := by
  refine runs_then ((runs_accept _).mpr ⟨byteCount_ok.mpr ⟨few, rfl⟩, rfl⟩) ?_
  refine runs_then rfl ((runs_remove _).mpr ⟨?_, ?_⟩)
  · simp [found, count]
  · have left : before.stack.drop (constructor.params.length + 1) = rest := by
      rw [found, ← count, List.drop_append]
      simp
    rw [← left]
    rfl

/-! ## Arms as a whole -/

theorem runs_lowerArm (found : before.stack = newInstance :: vector :: rest)
    (few : candidate.constructor.params.length < 256) :
    Runs (lowerArm classId candidate context.frame.isConstructor position) context before ()
      (before.place (armEmits context classId candidate)
        (remainder context.frame.isConstructor newInstance vector ++ rest)) := by
  have arranges : Runs (arrangeReceiver context.frame.isConstructor) context before () _ :=
    runs_arrangeReceiver _ found
  generalize remainder context.frame.isConstructor newInstance vector ++ rest = below at *
  have arranged : (before.place (arrangementEmits context.frame.isConstructor)
    (vector :: newInstance :: below)).stack = vector :: newInstance :: below := rfl
  obtain ⟨loaded, count, unpacks⟩ := runs_unpackVector 0 candidate.constructor.params arranged
  rw [LoweringState.place_place] at unpacks
  refine runs_then arranges (runs_then unpacks ?_)
  have invokes : Runs (runConstructor classId candidate.constructor position) context
      (before.place (arrangementEmits context.frame.isConstructor ++
        unpackingEmits context.types 0 candidate.constructor.params)
        (loaded ++ newInstance :: below)) () _ := runs_runConstructor rfl count few
  rwa [LoweringState.place_place] at invokes

/-- An arm whose label is near enough is placed, with the branch at its end. -/
theorem runs_placeArm {label : Label} (extent : Extent) {start : Nat}
    (near : before.assembler.listing.size - label.offset - 2 < 65536)
    (few : candidate.constructor.params.length < 256)
    (reached : extent.Reached start before.assembler) : ∃ exit after,
      Runs (placeArm classId context.frame.isConstructor position
        (newInstance :: vector :: rest) (candidate, label)) context before exit after ∧
      (extent.behindArm context classId candidate).Reached start after.assembler := by
  have reaches : before.assembler.listing.distance label =
      .ok (before.assembler.listing.size - label.offset - 2).toUInt16 := if_pos near
  have resolved : extent.Reached start (before.assembler.setDistance label
      (before.assembler.listing.size - label.offset - 2).toUInt16) :=
    ⟨reached.size, reached.pool⟩
  have jumps := (resolved.emitAll (armEmits context classId candidate)).emitAll
    [.jump .jump rfl]
  rw [← Extent.emitAll_append] at jumps
  simp only [placeArm, restore, runs_bind, runs_modify, runs_resolve, runs_writeLabelled,
    runs_get, runs_pure]
  exact ⟨_, _, ⟨(), _, rfl, (), _, ⟨_, reaches, rfl⟩, (), _, runs_lowerArm rfl few, _, _,
    ⟨rfl, rfl⟩, _, _, ⟨rfl, rfl⟩, rfl, rfl⟩, jumps⟩

end CallCode
