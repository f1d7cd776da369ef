import CallCode.Proofs.Assignability
import CallCode.Proofs.ChainedOperands
import CallCode.Proofs.ConstantIndices

/-!
# What binding leaves

Binding arguments leaves one operand for each parameter, of a type that fits, however the
arguments are bound.  Where arguments are packed, the code ends with the array of them.
-/

namespace CallCode

open Lower

theorem ValueType.array_of_component {type element : ValueType}
    (found : type.component = some element) : element.array = type := by
  obtain ⟨base, dims⟩ := type
  by_cases flat : dims = 0
  · simp [component, flat] at found
  · obtain rfl : (⟨base, dims - 1⟩ : ValueType) = element := by
      simpa [component, flat] using found
    simp [array]

/-- A conversion leaves a type that fits. -/
theorem isAssignable_coercedType (types : TypeTable) (source target : ValueType) :
    types.isAssignable (coercedType types source target) target = true := by
  unfold coercedType
  split
  · exact TypeTable.isAssignable_refl target
  · split
    · rename_i fits
      exact fits
    · exact TypeTable.isAssignable_refl target

theorem CodesEach.forall₂ {Thing : Type} {codes : Thing → List Operation → ValueType → Prop}
    {things : List Thing} {code : List Operation} {types : List ValueType}
    (each : CodesEach codes things code types) :
    List.Forall₂ (fun type thing => ∃ code, codes thing code type) types things := by
  induction each with
  | nil => exact .nil
  | cons known _ ih => exact .cons ⟨_, known⟩ ih

variable {context : Context} {before after : LoweringState}

/-- The types fit those of the parameters, one by one. -/
def Fit (types : TypeTable) (sources : List ValueType) (params : List Param) : Prop :=
  List.Forall₂ (fun source (param : Param) => types.isAssignable source param.type = true)
    sources params

theorem fit_of_loadEach {arguments : List Operand} {params : List Param}
    (steady : ∀ argument ∈ arguments, argument.Steady context fun _ _ _ => True)
    (count : arguments.length = params.length)
    (run : Runs (loadEach arguments params) context before () after) : ∃ types,
      after.stack = types.reverse ++ before.stack ∧ Fit context.types types params := by
  obtain ⟨_, types, each, pushed⟩ := loadEach_run steady run
  refine ⟨types, pushed.stack, ?_⟩
  have converted : List.Forall₂
      (fun source (param : Param) => context.types.isAssignable source param.type = true)
      types ((arguments.zip params).map (·.2)) := by
    rw [List.forall₂_map_right_iff]
    refine each.forall₂.imp ?_
    rintro type ⟨argument, param⟩ ⟨_, _, source, -, -, rfl⟩
    exact isAssignable_coercedType context.types source param.type
  rwa [List.map_snd_zip (Nat.le_of_eq count.symm)] at converted

/-- Arguments are loaded one for each parameter, or else the last ones are packed. -/
theorem bindArguments_cases {arguments : List Operand} {params : List Param}
    (run : Runs (bindArguments arguments params) context before () after) :
    (¬Packs context arguments params ∧ arguments.length = params.length ∧
      Runs (loadEach arguments params) context before () after) ∨
    Packs context arguments params ∧ ∃ fixed variadic element middle,
      params = fixed ++ [variadic] ∧ variadic.type.component = some element ∧
      fixed.length ≤ arguments.length ∧
      Runs (loadEach (arguments.take fixed.length) fixed) context before () middle ∧
      Runs (packSurplus (arguments.drop fixed.length) element) context middle () after := by
  rw [← bindWith_loadAs] at run
  by_cases packs : Packs context arguments params
  · right
    refine ⟨packs, ?_⟩
    obtain ⟨isVariadic, surplus⟩ := packs
    obtain ⟨element, variadic⟩ := Option.isSome_iff_exists.mp isVariadic
    obtain ⟨enough, middle, loads, packing⟩ := runs_bindWith_of_packs variadic surplus run
    obtain ⟨last, found, array⟩ := Option.bind_eq_some_iff.mp variadic
    obtain ⟨fixed, rfl⟩ := List.getLast?_eq_some_iff.mp found
    simp only [List.length_append, List.length_singleton, Nat.add_sub_cancel,
      Nat.add_le_add_iff_right] at enough loads packing
    have leading : (arguments.take fixed.length).length = fixed.length := by simp [enough]
    rw [zip_append_of_length_eq leading] at loads
    exact ⟨fixed, last, element, middle, rfl, array, enough, loads, packing⟩
  · left
    obtain ⟨count, loads⟩ := (runs_bindWith_of_not_packs packs).mp run
    exact ⟨packs, count, loads⟩

/-! ## The array at the end -/

/-- The instruction that was placed last. -/
def Assembler.last? (assembler : Assembler) : Option Instruction :=
  assembler.listing.items.back?.map (·.instruction)

/-- The code ends with the making of an array of so many elements, and the operand for the
element type was written for its identity. -/
def Assembler.EndsWithArray (assembler : Assembler) (element : ValueType) (count : Nat) :
    Prop :=
  ∃ index size : UInt16, assembler.last? = some ⟨.arrayInit, .words index size⟩ ∧
    size.toNat = count ∧
    ConstantOperand.WrittenFor assembler.pool ⟨index.toNat, .type⟩ (.type element.signature)

theorem Assembler.endsWithArray_arrayInit (assembler : Assembler) (element : ValueType)
    {count : Nat} (few : count < 65536) :
    (assembler.arrayInit element.signature count.toUInt16).EndsWithArray element count := by
  have known := assembler.knows_intern (.type element.signature)
  refine ⟨_, count.toUInt16, ?_, UInt16.toNat_ofNat_of_lt' few,
    ConstantOperand.writtenFor_half known .type⟩
  simp [last?, arrayInit, emit]

theorem endsWithArray_of_packSurplus {surplus : List Operand} {element : ValueType}
    (run : Runs (packSurplus surplus element) context before () after) :
    after.assembler.EndsWithArray element surplus.length := by
  have packs : Runs (packWith loadAs surplus element) context before () after := run
  obtain ⟨loaded, -, few, rfl⟩ := runs_packWith packs
  exact loaded.assembler.endsWithArray_arrayInit element few

/-- Whatever arguments are bound, one operand for each parameter is pushed, of a type that
fits.  Where arguments are packed, the last operand is of exactly the variadic type, and the
code ends with the array of the arguments that have no parameter of their own; its operand
for the element type leads to the identity of that type exactly if the identity has one of
the first 65536 places in the pool. -/
theorem operands_of_bindArguments (context : Context) (arguments : List Expr)
    (params : List Param) (before after : LoweringState)
    (run : Runs (bindArguments (operandsOf arguments) params) context before () after) :
    ∃ types, after.stack = types.reverse ++ before.stack ∧ Fit context.types types params ∧
      (Packs context (operandsOf arguments) params → ∃ fixed variadic element count,
        params = fixed ++ [variadic] ∧ variadic.type.component = some element ∧
          arguments.length = fixed.length + count ∧ types.getLast? = some variadic.type ∧
          after.assembler.EndsWithArray element count) := by
  have steady := (inductive_trivial context).steady_arguments arguments
  rcases bindArguments_cases run with ⟨plain, count, loads⟩ |
    ⟨-, fixed, variadic, element, middle, rfl, array, enough, loads, packing⟩
  · obtain ⟨types, stack, fit⟩ := fit_of_loadEach steady count loads
    exact ⟨types, stack, fit, fun packs => absurd packs plain⟩
  · have leading : ((operandsOf arguments).take fixed.length).length = fixed.length := by
      simp [enough]
    obtain ⟨types, stack, fit⟩ :=
      fit_of_loadEach (fun argument member => steady argument (List.mem_of_mem_take member))
        leading loads
    obtain ⟨_, -, pushed⟩ := packSurplus_run
      (fun argument member => steady argument (List.mem_of_mem_drop member)) packing
    have same : element.array = variadic.type := ValueType.array_of_component array
    refine ⟨types ++ [variadic.type], ?_, ?_, ?_⟩
    · rw [pushed.stack, stack, same]
      simp
    · exact List.rel_append fit (.cons (TypeTable.isAssignable_refl variadic.type) .nil)
    · intro _
      have surplus : ((operandsOf arguments).drop fixed.length).length =
          arguments.length - fixed.length := by
        rw [List.length_drop, operandsOf_eq_map, List.length_map]
      have total : fixed.length ≤ arguments.length := by
        rwa [operandsOf_eq_map, List.length_map] at enough
      refine ⟨fixed, variadic, element, arguments.length - fixed.length, rfl, array, by omega,
        List.getLast?_concat, ?_⟩
      rw [← surplus]
      exact endsWithArray_of_packSurplus packing

/-- One argument is missing, and an empty array stands for it. -/
theorem operands_of_bindArguments_missing :
    let context : Context := { types := .builtin, frame := .method .object }
    let params : List Param := [⟨"count", .int⟩, ⟨"names", .arrayOf .string⟩]
    let before : LoweringState := { ledger := { classId := .object, keyOf := fun _ => 0 } }
    ∃ after, Runs (bindArguments (operandsOf [.int 5]) params) context before () after ∧
      Packs context (operandsOf [.int 5]) params ∧ ∃ types,
        after.stack = types.reverse ∧ Fit context.types types params ∧
          types.getLast? = some (.arrayOf .string) ∧
          after.assembler.EndsWithArray .string 0 := by
  intro context params before
  obtain ⟨after, run⟩ := exists_runs_of_answer? (show answer?
    (bindArguments (operandsOf [.int 5]) params) context before = some () by decide +kernel)
  have packs : Packs context (operandsOf [.int 5]) params :=
    ⟨by decide +kernel, by decide +kernel⟩
  obtain ⟨types, stack, fit, packed⟩ :=
    operands_of_bindArguments context [.int 5] params before after run
  obtain ⟨fixed, variadic, element, count, split, array, total, last, ends⟩ := packed packs
  have halves : [⟨"count", .int⟩] ++ [⟨"names", .arrayOf .string⟩] = fixed ++ [variadic] := split
  obtain ⟨rfl, single⟩ := List.append_inj' halves rfl
  obtain rfl := List.singleton_inj.mp single
  obtain rfl : ValueType.string = element := Option.some.inj array
  obtain rfl : 0 = count := Nat.add_left_cancel total
  exact ⟨after, run, packs, types, by rw [stack, List.append_nil], fit, last, ends⟩

end CallCode
