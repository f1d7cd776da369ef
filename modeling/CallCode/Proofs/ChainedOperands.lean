import CallCode.Proofs.Lowering.ChainOutcome

/-!
# The operands of a directly chained call

A constructor that a chained call binds at once gets its operands by a loop of its own,
which leaves null as it is and packs nothing.  It does what binding arguments does, up to
casts of null, as long as no null stands for a primitive and the last argument needs no
packing.
-/

namespace CallCode

open Lower

/-! ## Binding, with the way to load an argument left open -/

/-- Load operands as one array. -/
def packWith (load : Operand → ValueType → Lower Unit) (surplus : List Operand)
    (element : ValueType) : Lower Unit := do
  surplus.forM fun operand => load operand element
  let count ← accept (wordCount surplus.length .synthetic)
  write (·.arrayInit element.signature count)
  replace element.array surplus.length

/-- Load operands for the parameters at the same positions. -/
def loadEachWith (load : Operand → ValueType → Lower Unit)
    (pairs : List (Operand × Param)) : Lower Unit :=
  pairs.forM fun (operand, param) => load operand param.type

/-- Push the arguments as values of the parameters, one for each parameter. -/
def bindWith (load : Operand → ValueType → Lower Unit) (arguments : List Operand)
    (params : List Param) : Lower Unit := do
  let typeOf := (← read).typeOf
  if arguments.length + 1 < params.length then
    fail (arityMismatch arguments params)
  match variadicElement params, packsSurplus typeOf arguments params with
  | some element, true =>
      let fixed := params.length - 1
      loadEachWith load ((arguments.take fixed).zip params)
      packWith load (arguments.drop fixed) element
  | _, _ =>
      if arguments.length = params.length then loadEachWith load (arguments.zip params)
      else fail (arityMismatch arguments params)

theorem bindWith_loadAs (arguments : List Operand) (params : List Param) :
    bindWith loadAs arguments params = bindArguments arguments params := rfl

/-- Load an operand as a value of a type, but leave null as it is where a reference is
expected. -/
def loadSparing (operand : Operand) (type : ValueType) : Lower Unit := do
  let types := (← read).types
  if operand.source.isNull && !types.isPrimitive type then operand.load
  else loadAs operand type

/-- Load an operand for a constructor that is bound at once; null needs no conversion. -/
def loadChained (operand : Operand) (type : ValueType) : Lower Unit := do
  operand.load
  if !operand.source.isNull then
    coerceTo type

variable {context : Context} {before after : LoweringState}

/-- The arguments at the end of a call are packed for its last parameter. -/
def Packs (context : Context) (arguments : List Operand) (params : List Param) : Prop :=
  (variadicElement params).isSome = true ∧
    packsSurplus context.typeOf arguments params = true

/-- Null stands for no primitive that is not tracked as null is. -/
def NullFits (types : TypeTable) (pair : Operand × Param) : Prop :=
  pair.1.source.isNull = true → types.isPrimitive pair.2.type = true → pair.2.type = .object

section Binding

variable {load other : Operand → ValueType → Lower Unit} {arguments : List Operand}
  {params : List Param}

theorem runs_bindWith_of_not_packs (fixed : ¬Packs context arguments params) :
    Runs (bindWith load arguments params) context before () after ↔
      arguments.length = params.length ∧
        Runs (loadEachWith load (arguments.zip params)) context before () after := by
  simp only [bindWith, runs_bind, runs_read]
  constructor
  · rintro ⟨_, _, ⟨rfl, rfl⟩, run⟩
    by_cases short : arguments.length + 1 < params.length
    · simp [short] at run
    rw [if_neg short] at run
    split at run
    · rename_i variadic surplus
      exact absurd ⟨Option.isSome_of_eq_some variadic, surplus⟩ fixed
    · rw [runs_ite] at run
      split at run
      · rename_i count
        exact ⟨count, run⟩
      · simp at run
  · rintro ⟨count, run⟩
    have enough : ¬arguments.length + 1 < params.length := by omega
    refine ⟨_, _, ⟨rfl, rfl⟩, ?_⟩
    rw [if_neg enough]
    split
    · rename_i variadic surplus
      exact absurd ⟨Option.isSome_of_eq_some variadic, surplus⟩ fixed
    · simpa [count] using run

theorem runs_bindWith_congr
    (same : ∀ argument ∈ arguments, ∀ type before after,
      Runs (load argument type) context before () after ↔
        Runs (other argument type) context before () after) :
    Runs (bindWith load arguments params) context before () after ↔
      Runs (bindWith other arguments params) context before () after := by
  have each {some : List Operand} (among : ∀ argument ∈ some, argument ∈ arguments)
      (start finish : LoweringState) :
      Runs (loadEachWith load (some.zip params)) context start () finish ↔
        Runs (loadEachWith other (some.zip params)) context start () finish := by
    apply runs_forM_congr
    rintro ⟨argument, param⟩ member
    exact same argument (among argument (List.of_mem_zip member).1) param.type
  have packed {some : List Operand} (among : ∀ argument ∈ some, argument ∈ arguments)
      (element : ValueType) (start finish : LoweringState) :
      Runs (packWith load some element) context start () finish ↔
        Runs (packWith other some element) context start () finish := by
    rw [packWith, packWith, runs_bind, runs_bind]
    apply exists_congr
    intro _
    apply exists_congr
    intro middle
    apply and_congr_left
    intro _
    exact runs_forM_congr fun argument member => same argument (among argument member) element
  simp only [bindWith, runs_bind, runs_read, runs_ite]
  apply exists_congr
  intro _
  apply exists_congr
  intro _
  apply and_congr_right
  rintro ⟨rfl, rfl⟩
  split
  · simp
  split
  · simp only [runs_bind, each fun _ => List.mem_of_mem_take, packed fun _ => List.mem_of_mem_drop]
  · simp only [runs_ite, each fun _ => id]

theorem runs_bindWith_of_packs {element : ValueType}
    (variadic : variadicElement params = some element)
    (surplus : packsSurplus context.typeOf arguments params = true)
    (run : Runs (bindWith load arguments params) context before () after) :
    params.length ≤ arguments.length + 1 ∧ ∃ middle,
      Runs (loadEachWith load ((arguments.take (params.length - 1)).zip params)) context before ()
        middle ∧
      Runs (packWith load (arguments.drop (params.length - 1)) element) context middle ()
        after := by
  simp only [bindWith, runs_bind, runs_read] at run
  obtain ⟨_, _, ⟨rfl, rfl⟩, run⟩ := run
  by_cases short : arguments.length + 1 < params.length
  · simp [short] at run
  rw [if_neg short] at run
  simp only [variadic, surplus, runs_bind] at run
  obtain ⟨_, middle, loads, packs⟩ := run
  exact ⟨Nat.le_of_not_lt short, middle, loads, packs⟩

end Binding

/-! ## One operand -/

theorem runs_load_null :
    Runs (Expr.operand .null).load context before () after ↔
      after = { before with
        assembler := before.assembler.loadNull, stack := .object :: before.stack } := by
  simp [Expr.operand, Expr.lower]

theorem eq_null_of_isNull {expr : Expr} (isNull : expr.isNull = true) : expr = .null := by
  cases expr <;> first | rfl | cases isNull

/-- An operand that is known by its type on top needs no conversion to that type. -/
theorem runs_coerceTo_self {target : ValueType} {rest : TypeStack}
    (found : before.stack = target :: rest) :
    Runs (coerceTo target) context before () after ↔ before = after := by
  simp [coerceTo, found]

section Operand

variable {expr : Expr} {type : ValueType}

theorem runs_loadChained_of_null (isNull : expr.isNull = true) :
    Runs (loadChained expr.operand type) context before () after ↔
      Runs expr.operand.load context before () after := by
  have source : expr.operand.source.isNull = true := isNull
  simp [loadChained, source]

theorem runs_loadChained_of_not_null (value : expr.isNull = false) :
    Runs (loadChained expr.operand type) context before () after ↔
      Runs (loadAs expr.operand type) context before () after := by
  have source : expr.operand.source.isNull = false := value
  simp [loadChained, loadAs, source]

theorem runs_loadSparing :
    Runs (loadSparing expr.operand type) context before () after ↔
      if expr.isNull = true ∧ context.types.isPrimitive type = false then
        Runs expr.operand.load context before () after
      else Runs (loadAs expr.operand type) context before () after := by
  have source : expr.operand.source = expr := rfl
  simp [loadSparing, source]

theorem runs_loadSparing_of_not_null (value : expr.isNull = false) :
    Runs (loadSparing expr.operand type) context before () after ↔
      Runs (loadAs expr.operand type) context before () after := by
  rw [runs_loadSparing, if_neg (by simp [value])]

/-- Where null fits, sparing its conversion is what the loop does. -/
theorem runs_loadSparing_iff {param : Param}
    (fits : NullFits context.types (expr.operand, param)) :
    Runs (loadSparing expr.operand param.type) context before () after ↔
      Runs (loadChained expr.operand param.type) context before () after := by
  cases isNull : expr.isNull with
  | false => rw [runs_loadSparing_of_not_null isNull, runs_loadChained_of_not_null isNull]
  | true =>
      rw [runs_loadSparing, runs_loadChained_of_null isNull]
      cases primitive : context.types.isPrimitive param.type with
      | false => rw [if_pos ⟨isNull, rfl⟩]
      | true =>
          have object : param.type = .object := fits isNull primitive
          obtain rfl := eq_null_of_isNull isNull
          rw [if_neg (by simp), loadAs, runs_bind, object]
          constructor
          · rintro ⟨_, middle, loads, coerces⟩
            have found := runs_load_null.mp loads
            rw [runs_coerceTo_self (by rw [found])] at coerces
            exact coerces ▸ loads
          · intro loads
            have found := runs_load_null.mp loads
            refine ⟨(), after, loads, ?_⟩
            rw [runs_coerceTo_self (by rw [found])]

theorem stack_of_loadAs (run : Runs (loadAs expr.operand type) context before () after) :
    ∃ loaded, after.stack = loaded :: before.stack ∧
      (context.types.isPrimitive type = true → loaded = type) := by
  obtain ⟨_, _, ⟨_, _, -, -, rfl⟩, pushed⟩ := loadAs_run ((inductive_trivial context).steady expr) run
  refine ⟨_, pushed.stack, ?_⟩
  intro primitive
  rw [coercedType, if_pos (.inr primitive)]

theorem stack_of_loadSparing
    (run : Runs (loadSparing expr.operand type) context before () after) :
    ∃ loaded, after.stack = loaded :: before.stack ∧
      (context.types.isPrimitive type = true → loaded = type) := by
  rw [runs_loadSparing] at run
  split at run
  · rename_i spared
    obtain ⟨_, loaded, -, pushed⟩ := (inductive_trivial context).steady expr _ _ run
    refine ⟨loaded, pushed.stack, ?_⟩
    intro primitive
    rw [spared.2] at primitive
    cases primitive
  · exact stack_of_loadAs run

/-- Null is tracked as an object, and any other operand of a primitive parameter as that
primitive. -/
theorem stack_of_loadChained
    (run : Runs (loadChained expr.operand type) context before () after) :
    ∃ loaded, after.stack = loaded :: before.stack ∧ (expr.isNull = true → loaded = .object) ∧
      (expr.isNull = false → context.types.isPrimitive type = true → loaded = type) := by
  cases isNull : expr.isNull with
  | true =>
      rw [runs_loadChained_of_null isNull] at run
      obtain rfl := eq_null_of_isNull isNull
      rw [runs_load_null.mp run]
      exact ⟨.object, rfl, fun _ => rfl, by simp⟩
  | false =>
      rw [runs_loadChained_of_not_null isNull] at run
      obtain ⟨loaded, stack, typed⟩ := stack_of_loadAs run
      exact ⟨loaded, stack, by simp, fun _ => typed⟩

end Operand

/-! ## Operands one after another -/

/-- Each argument comes from an expression. -/
def OfExprs (pairs : List (Operand × Param)) : Prop :=
  ∀ pair ∈ pairs, ∃ expr : Expr, pair.1 = expr.operand

section Operands

variable {pairs : List (Operand × Param)}

theorem runs_loadEach_sparing_iff (written : OfExprs pairs)
    (fits : ∀ pair ∈ pairs, NullFits context.types pair) :
    Runs (loadEachWith loadSparing pairs) context before () after ↔
      Runs (loadEachWith loadChained pairs) context before () after := by
  apply runs_forM_congr
  rintro ⟨argument, param⟩ member start finish
  obtain ⟨expr, same⟩ := written _ member
  obtain rfl : argument = expr.operand := same
  exact runs_loadSparing_iff (fits _ member)

/-- If both ways leave the same types on the stack, then they began with the same ones, and
no null stands for a primitive. -/
theorem fits_of_stack_eq {sparingBefore sparingAfter : LoweringState} (written : OfExprs pairs)
    (chained : Runs (loadEachWith loadChained pairs) context before () after)
    (sparing : Runs (loadEachWith loadSparing pairs) context sparingBefore () sparingAfter)
    (same : after.stack = sparingAfter.stack) :
    (∀ pair ∈ pairs, NullFits context.types pair) ∧ before.stack = sparingBefore.stack := by
  induction pairs generalizing before sparingBefore with
  | nil =>
      obtain ⟨-, rfl⟩ := (runs_pure ()).mp chained
      obtain ⟨-, rfl⟩ := (runs_pure ()).mp sparing
      exact ⟨by simp, same⟩
  | cons pair pairs ih =>
      obtain ⟨argument, param⟩ := pair
      rw [loadEachWith, runs_forM_cons] at chained sparing
      obtain ⟨middle, load, chained⟩ := chained
      obtain ⟨sparingMiddle, sparingLoad, sparing⟩ := sparing
      obtain ⟨expr, given⟩ := written _ List.mem_cons_self
      obtain rfl : argument = expr.operand := given
      obtain ⟨fits, sameStack⟩ :=
        ih (fun pair member => written pair (List.mem_cons_of_mem _ member)) chained sparing
      obtain ⟨loaded, stack, null, -⟩ := stack_of_loadChained load
      obtain ⟨spared, sparingStack, typed⟩ := stack_of_loadSparing sparingLoad
      rw [stack, sparingStack] at sameStack
      obtain ⟨rfl, below⟩ := List.cons.inj sameStack
      refine ⟨List.forall_mem_cons.mpr ⟨?_, fits⟩, below⟩
      intro isNull primitive
      exact (typed primitive).symm.trans (null isNull)

/-- Operand by operand, the types on the stack are those of the parameters where these are
primitives, unless null stands for one. -/
theorem types_of_loadEach_chained (written : OfExprs pairs)
    (run : Runs (loadEachWith loadChained pairs) context before () after) : ∃ types,
      after.stack = types.reverse ++ before.stack ∧
      List.Forall₂ (fun type pair => (pair.1.source.isNull = true → type = .object) ∧
        (pair.1.source.isNull = false → context.types.isPrimitive pair.2.type = true →
          type = pair.2.type)) types pairs := by
  induction pairs generalizing before with
  | nil =>
      obtain ⟨-, rfl⟩ := (runs_pure ()).mp run
      exact ⟨[], rfl, .nil⟩
  | cons pair pairs ih =>
      obtain ⟨argument, param⟩ := pair
      rw [loadEachWith, runs_forM_cons] at run
      obtain ⟨middle, load, run⟩ := run
      obtain ⟨expr, given⟩ := written _ List.mem_cons_self
      obtain rfl : argument = expr.operand := given
      obtain ⟨type, stack, typed⟩ := stack_of_loadChained load
      obtain ⟨types, sameStack, each⟩ :=
        ih (fun pair member => written pair (List.mem_cons_of_mem _ member)) run
      refine ⟨type :: types, ?_, .cons typed each⟩
      rw [sameStack, stack, List.reverse_cons, List.append_assoc, List.singleton_append]

end Operands

/-! ## An array in place of the last argument -/

/-- The opcode of the instruction that was placed last. -/
def Assembler.lastOpcode? (assembler : Assembler) : Option Opcode :=
  assembler.listing.items.back?.map (·.instruction.opcode)

theorem Assembler.lastOpcode?_emit (assembler : Assembler) (opcode : Opcode)
    (operands : Operands) : (assembler.emit opcode operands).lastOpcode? = some opcode := by
  simp [lastOpcode?, emit]

section Packing

variable {expr : Expr} {target : ValueType}

theorem lastOpcode?_of_boxTop {type : ValueType}
    (run : Runs boxTop context before type after) :
    after.assembler = before.assembler ∨ after.assembler.lastOpcode? = some .box := by
  simp only [boxTop, runs_bind, runs_read, runs_top, runs_ite, runs_write, runs_replace,
    runs_pure] at run
  obtain ⟨_, _, ⟨rfl, rfl⟩, _, _, ⟨rfl, -⟩, run⟩ := run
  split at run
  · obtain ⟨_, _, rfl, _, _, ⟨-, rfl⟩, -, rfl⟩ := run
    exact .inr (Assembler.lastOpcode?_emit _ _ _)
  · obtain ⟨-, rfl⟩ := run
    exact .inl rfl

theorem lastOpcode?_of_cast {reference : ValueType}
    (run : Runs (do
      if !context.types.isAssignable reference target then
        write (·.checkCast target.signature)
        replace target 1) context before () after) :
    after.assembler = before.assembler ∨ after.assembler.lastOpcode? = some .checkCast := by
  rw [runs_ite] at run
  split at run
  · simp only [runs_bind, runs_write, runs_replace] at run
    obtain ⟨_, _, rfl, -, rfl⟩ := run
    exact .inr (Assembler.lastOpcode?_emit _ _ _)
  · obtain ⟨-, rfl⟩ := (runs_pure _).mp run
    exact .inl rfl

/-- A conversion to a reference boxes or casts last, if it does anything. -/
theorem lastOpcode?_of_coerceTo (reference : context.types.isPrimitive target = false)
    (run : Runs (coerceTo target) context before () after) :
    after.assembler = before.assembler ∨ after.assembler.lastOpcode? = some .box ∨
      after.assembler.lastOpcode? = some .checkCast := by
  simp only [coerceTo, runs_bind, runs_read, runs_top] at run
  obtain ⟨_, _, ⟨rfl, rfl⟩, source, _, ⟨rfl, -⟩, run⟩ := run
  by_cases same : source = target
  · rw [if_pos same] at run
    obtain ⟨-, rfl⟩ := (runs_pure _).mp run
    exact .inl rfl
  rw [if_neg same, if_neg (by simp [reference])] at run
  by_cases primitive : context.types.isPrimitive source = true
  · rw [if_pos primitive, runs_bind] at run
    obtain ⟨value, boxed, boxes, casts⟩ := run
    rcases lastOpcode?_of_cast casts with same | cast
    · rw [same]
      exact (lastOpcode?_of_boxTop boxes).imp_right .inl
    · exact .inr (.inr cast)
  · rw [if_neg primitive] at run
    exact (lastOpcode?_of_cast run).imp_right .inr

theorem runs_loadSparing_cases (run : Runs (loadSparing expr.operand target) context before () after) :
    ∃ loaded, Runs expr.operand.load context before () loaded ∧
      (loaded = after ∨ Runs (coerceTo target) context loaded () after) := by
  rw [runs_loadSparing] at run
  split at run
  · exact ⟨after, run, .inl rfl⟩
  · rw [loadAs, runs_bind] at run
    obtain ⟨_, loaded, loads, coerces⟩ := run
    exact ⟨loaded, loads, .inr coerces⟩

theorem runs_loadChained_cases (run : Runs (loadChained expr.operand target) context before () after) :
    ∃ loaded, Runs expr.operand.load context before () loaded ∧
      (loaded = after ∨ Runs (coerceTo target) context loaded () after) := by
  cases isNull : expr.isNull with
  | true => exact ⟨after, (runs_loadChained_of_null isNull).mp run, .inl rfl⟩
  | false =>
      rw [runs_loadChained_of_not_null isNull, loadAs, runs_bind] at run
      obtain ⟨_, loaded, loads, coerces⟩ := run
      exact ⟨loaded, loads, .inr coerces⟩

theorem items_le_of_coerceTo (run : Runs (coerceTo target) context before () after) :
    before.assembler.listing.items.size ≤ after.assembler.listing.items.size := by
  obtain ⟨_, converts⟩ := coerceTo_run run
  obtain ⟨placed, items, -⟩ := converts.writes.appends
  have lengths := congrArg List.length items
  rw [List.length_append, Array.length_toList, Array.length_toList] at lengths
  omega

theorem runs_packWith {load : Operand → ValueType → Lower Unit} {surplus : List Operand}
    {element : ValueType}
    (run : Runs (packWith load surplus element) context before () after) : ∃ loaded,
      Runs (surplus.forM fun operand => load operand element) context before () loaded ∧
        surplus.length < 65536 ∧
        after = { loaded with
          assembler := loaded.assembler.arrayInit element.signature surplus.length.toUInt16
          stack := element.array :: loaded.stack.drop surplus.length } := by
  simp only [packWith, runs_bind, runs_accept, wordCount_ok, runs_write, runs_replace] at run
  obtain ⟨_, loaded, loads, _, _, ⟨⟨few, rfl⟩, rfl⟩, _, _, rfl, -, packed⟩ := run
  exact ⟨loaded, loads, few, packed⟩

theorem runs_packWith_one {load : Operand → ValueType → Lower Unit} {operand : Operand}
    {element : ValueType}
    (run : Runs (packWith load [operand] element) context before () after) : ∃ loaded,
      Runs (load operand element) context before () loaded ∧
        after = { loaded with
          assembler := loaded.assembler.arrayInit element.signature 1
          stack := element.array :: loaded.stack.drop 1 } := by
  obtain ⟨finish, loads, -, packed⟩ := runs_packWith run
  obtain ⟨loaded, load, rest⟩ := runs_forM_cons.mp loads
  obtain ⟨-, rfl⟩ := (runs_pure ()).mp rest
  exact ⟨loaded, load, packed⟩

/-- What a conversion to a reference adds to the code of an operand is not what makes an
array of it. -/
theorem not_wrapped_of_converted {element : Identity} {count : UInt16}
    {loaded converted : LoweringState} (reference : context.types.isPrimitive target = false)
    (adds : loaded = after ∨ Runs (coerceTo target) context loaded () after)
    (kept : loaded.assembler.listing.items.size ≤ converted.assembler.listing.items.size)
    (wrapped : after.assembler = converted.assembler.arrayInit element count) : False := by
  have last : after.assembler.lastOpcode? = some .arrayInit := by
    rw [wrapped]
    exact Assembler.lastOpcode?_emit _ _ _
  have more : loaded.assembler.listing.items.size < after.assembler.listing.items.size := by
    rw [wrapped]
    simp only [Assembler.arrayInit, Assembler.emit, Assembler.intern, Listing.items_push,
      Array.size_push]
    omega
  have ends : after.assembler = loaded.assembler ∨ after.assembler.lastOpcode? = some .box ∨
      after.assembler.lastOpcode? = some .checkCast := by
    rcases adds with rfl | coerces
    · exact .inl rfl
    · exact lastOpcode?_of_coerceTo reference coerces
  rcases ends with same | box | cast
  · rw [same] at more
    exact Nat.lt_irrefl _ more
  · rw [last] at box
    cases box
  · rw [last] at cast
    cases cast

/-- What the loop adds to the code of an operand is not what makes an array of it. -/
theorem not_packs_one {element : ValueType} (reference : context.types.isPrimitive target = false)
    (chained : Runs (loadChained expr.operand target) context before () after)
    (packs : Runs (packWith loadSparing [expr.operand] element) context before () after) :
    False := by
  obtain ⟨spared, sparing, packed⟩ := runs_packWith_one packs
  obtain ⟨loaded, loads, added⟩ := runs_loadChained_cases chained
  obtain ⟨sparingLoaded, sparingLoads, sparingAdded⟩ := runs_loadSparing_cases sparing
  obtain ⟨-, rfl⟩ := runs_unique loads sparingLoads
  have kept : sparingLoaded.assembler.listing.items.size ≤
      spared.assembler.listing.items.size := by
    rcases sparingAdded with rfl | coerces
    · exact Nat.le_refl _
    · exact items_le_of_coerceTo coerces
  exact not_wrapped_of_converted reference added kept (by rw [packed])

end Packing

theorem TypeTable.isPrimitive_of_component {types : TypeTable} {type element : ValueType}
    (array : type.component = some element) : types.isPrimitive type = false := by
  have dims : type.dims ≠ 0 := by
    intro flat
    rw [ValueType.component, if_pos flat] at array
    cases array
  rw [isPrimitive, primitiveOf, if_neg dims]
  rfl

/-- What has no partner is left out of a zip. -/
theorem zip_append_of_length_eq {First Second : Type} {firsts : List First}
    {seconds rest : List Second} (same : firsts.length = seconds.length) :
    firsts.zip (seconds ++ rest) = firsts.zip seconds := by
  have whole : (firsts ++ []).zip (seconds ++ rest) = firsts.zip seconds ++ [].zip rest :=
    List.zip_append same
  rwa [List.append_nil, List.zip_nil_left, List.append_nil] at whole

theorem ofExprs_zip (exprs : List Expr) (params : List Param) :
    OfExprs ((operandsOf exprs).zip params) := by
  rintro ⟨argument, param⟩ member
  have among : argument ∈ operandsOf exprs := (List.of_mem_zip member).1
  rw [operandsOf_eq_map] at among
  obtain ⟨expr, -, same⟩ := List.mem_map.mp among
  exact ⟨expr, same.symm⟩

section Agreement

variable {exprs : List Expr} {params : List Param}

/-- The loop does not end where binding does that packs arguments. -/
theorem not_packs_of_runs (count : exprs.length = params.length)
    (chained : Runs (loadEachWith loadChained ((operandsOf exprs).zip params)) context before ()
      after)
    (bound : Runs (bindWith loadSparing (operandsOf exprs) params) context before () after) :
    ¬Packs context (operandsOf exprs) params := by
  rintro ⟨variadic, surplus⟩
  obtain ⟨element, variadic⟩ := Option.isSome_iff_exists.mp variadic
  obtain ⟨-, middle, fixed, packs⟩ := runs_bindWith_of_packs variadic surplus bound
  obtain ⟨last, found, array⟩ := Option.bind_eq_some_iff.mp variadic
  obtain ⟨front, rfl⟩ := List.getLast?_eq_some_iff.mp found
  rcases List.eq_nil_or_concat' exprs with rfl | ⟨firsts, expr, rfl⟩
  · simp at count
  have same : firsts.length = front.length := by simpa using count
  have operands : operandsOf (firsts ++ [expr]) = operandsOf firsts ++ [expr.operand] := by
    simp [operandsOf_eq_map]
  have loaded : (operandsOf firsts).length = front.length := by
    rw [length_operandsOf, same]
  have paired : (operandsOf firsts ++ [expr.operand]).zip (front ++ [last]) =
      (operandsOf firsts).zip front ++ [(expr.operand, last)] := by
    rw [List.zip_append loaded]
    rfl
  have leading : (front ++ [last]).length - 1 = (operandsOf firsts).length := by simp [loaded]
  rw [operands, leading, List.take_left, zip_append_of_length_eq loaded] at fixed
  rw [operands, leading, List.drop_left] at packs
  rw [operands, paired, loadEachWith, runs_forM_concat] at chained
  obtain ⟨state, loads, load⟩ := chained
  -- the types below the last operand agree, so both ways arrive there in the same state
  have sameStack : state.stack = middle.stack := by
    obtain ⟨spared, sparing, packed⟩ := runs_packWith_one packs
    obtain ⟨_, below, -⟩ := stack_of_loadSparing sparing
    obtain ⟨_, above, -⟩ := stack_of_loadChained load
    rw [packed, below] at above
    exact (List.cons.inj above).2.symm
  obtain ⟨fits, -⟩ := fits_of_stack_eq (ofExprs_zip firsts front) loads fixed sameStack
  have arrives := (runs_loadEach_sparing_iff (ofExprs_zip firsts front) fits).mp fixed
  obtain ⟨-, rfl⟩ := runs_unique loads arrives
  exact not_packs_one (TypeTable.isPrimitive_of_component array) load packs

/-- How the operands that the loop leaves compare with what binding leaves. -/
structure BindsSparingly (context : Context) (arguments : List Operand) (params : List Param)
    (received loaded : LoweringState) : Prop where
  /-- Up to null, the arguments are bound exactly if none of them has to be packed. -/
  plain : (∀ argument ∈ arguments, argument.source.isNull = false) →
    (Runs (bindArguments arguments params) context received () loaded ↔
      ¬Packs context arguments params)
  sparing : Runs (bindWith loadSparing arguments params) context received () loaded ↔
    (∀ pair ∈ arguments.zip params, NullFits context.types pair) ∧
      ¬Packs context arguments params
  /-- The operands of primitive parameters are of their types exactly if null fits. -/
  typed : ∃ types, loaded.stack = types.reverse ++ received.stack ∧
    types.length = params.length ∧
    (List.Forall₂ (fun type (param : Param) => context.types.isPrimitive param.type = true →
        type = param.type) types params ↔
      ∀ pair ∈ arguments.zip params, NullFits context.types pair)

theorem forall₂_typed_iff {types : List ValueType} {pairs : List (Operand × Param)}
    (each : List.Forall₂ (fun type pair => (pair.1.source.isNull = true → type = .object) ∧
      (pair.1.source.isNull = false → context.types.isPrimitive pair.2.type = true →
        type = pair.2.type)) types pairs) :
    List.Forall₂ (fun type (param : Param) => context.types.isPrimitive param.type = true →
        type = param.type) types (pairs.map (·.2)) ↔
      ∀ pair ∈ pairs, NullFits context.types pair := by
  induction each with
  | nil => simp
  | @cons type pair types pairs typed _ ih =>
      rw [List.map_cons, List.forall₂_cons, ih, List.forall_mem_cons]
      apply and_congr_left
      intro _
      rw [NullFits]
      cases isNull : pair.1.source.isNull with
      | true =>
          rw [typed.1 isNull, imp_iff_right rfl]
          exact imp_congr_right fun _ => eq_comm
      | false => simpa using typed.2 isNull

theorem bindsSparingly_of_runs {received loaded : LoweringState}
    (count : exprs.length = params.length)
    (chained : Runs (loadEachWith loadChained ((operandsOf exprs).zip params)) context received ()
      loaded) :
    BindsSparingly context (operandsOf exprs) params received loaded := by
  have lengths : (operandsOf exprs).length = params.length := by
    rw [length_operandsOf, count]
  have written := ofExprs_zip exprs params
  have sparing : Runs (bindWith loadSparing (operandsOf exprs) params) context received () loaded ↔
      (∀ pair ∈ (operandsOf exprs).zip params, NullFits context.types pair) ∧
        ¬Packs context (operandsOf exprs) params := by
    constructor
    · intro bound
      have fixed := not_packs_of_runs count chained bound
      obtain ⟨-, each⟩ := (runs_bindWith_of_not_packs fixed).mp bound
      exact ⟨(fits_of_stack_eq written chained each rfl).1, fixed⟩
    · rintro ⟨fits, fixed⟩
      rw [runs_bindWith_of_not_packs fixed, runs_loadEach_sparing_iff written fits]
      exact ⟨lengths, chained⟩
  refine ⟨?_, sparing, ?_⟩
  · intro values
    have fits : ∀ pair ∈ (operandsOf exprs).zip params, NullFits context.types pair := by
      rintro ⟨argument, param⟩ member isNull
      rw [values argument (List.of_mem_zip member).1] at isNull
      cases isNull
    have alike : ∀ argument ∈ operandsOf exprs, ∀ type start finish,
        Runs (loadSparing argument type) context start () finish ↔
          Runs (loadAs argument type) context start () finish := by
      intro argument member type start finish
      obtain ⟨expr, -, rfl⟩ := List.mem_map.mp (operandsOf_eq_map exprs ▸ member)
      exact runs_loadSparing_of_not_null (values _ member)
    rw [← bindWith_loadAs, ← runs_bindWith_congr alike, sparing]
    exact and_iff_right fits
  · obtain ⟨types, stack, each⟩ := types_of_loadEach_chained written chained
    have typed := forall₂_typed_iff each
    rw [List.map_snd_zip (by omega)] at typed
    refine ⟨types, stack, ?_, typed⟩
    rw [each.length_eq, List.length_zip]
    omega

end Agreement

/-- A constructor that is bound at once gets its operands between the receiver and the
invocation. -/
theorem chainDirectly_steps {classId : Identity} {constructor : Constructor} {exprs : List Expr}
    {position : Position}
    (run : Runs (chainDirectly classId constructor (operandsOf exprs) position) context before ()
      after) : ∃ received loaded,
      received = { before with
        assembler := before.assembler.getThis
        stack := .simple context.frame.classId :: before.stack } ∧
      Runs (loadEachWith loadChained ((operandsOf exprs).zip constructor.params)) context received
        () loaded ∧
      after = { loaded with
        assembler := loaded.assembler.invoke .invokeSpecial classId constructor.id
          constructor.params.length.toUInt8
        stack := before.stack } := by
  have steady := (inductive_trivial context).steady_arguments exprs
  obtain ⟨_, -, pushed⟩ := chainDirectly_run steady run
  have stack : after.stack = before.stack := pushed.stack
  simp only [chainDirectly, runs_bind, runs_depth, runs_write, runs_read, runs_push,
    runs_accept, byteCount_ok, runs_dropAbove] at run
  obtain ⟨_, _, ⟨rfl, rfl⟩, _, _, rfl, _, _, ⟨rfl, rfl⟩, _, received, tracked, _, loaded,
    loads, _, _, ⟨⟨-, rfl⟩, rfl⟩, _, _, rfl, -, dropped⟩ := run
  refine ⟨received, loaded, tracked, loads, ?_⟩
  rw [← stack, dropped]

/-- A chained call was bound at once: the receiver was pushed, then the operands, and the
constructor of the candidate was run on them. -/
def RunsCandidate (context : Context) (hook : ChainHook) (call : ChainCall Expr)
    (before after : LoweringState) (candidate : Candidate) (received loaded : LoweringState) :
    Prop :=
  ∃ classId table ready,
    ChainPrepared context hook call.operands before ready classId table ∧
    call.operands.boundCandidate context.frame table = some candidate ∧
    received = { ready with
      assembler := ready.assembler.getThis
      stack := .simple context.frame.classId :: ready.stack } ∧
    after = { loaded with
      assembler := loaded.assembler.invoke .invokeSpecial classId candidate.constructor.id
        candidate.constructor.params.length.toUInt8
      stack := ready.stack }

/-- Where a chained call is bound at once, the operands between the receiver and the
invocation are those that binding the arguments gives, with null left as it is where a
reference is expected, exactly if null stands for no primitive and no argument has to be
packed.  Every operand of a primitive parameter is of its type exactly if null stands for
none. -/
theorem operands_of_direct_chain (context : Context) (hook : ChainHook) (call : ChainCall Expr)
    (before after : LoweringState)
    (run : Runs (lowerChainCall hook call.operands) context before .direct after) :
    ∃ candidate received loaded,
      RunsCandidate context hook call before after candidate received loaded ∧
      BindsSparingly context (operandsOf call.arguments) candidate.constructor.params received
        loaded := by
  cases lowerChainCall_run run with
  | @direct ready classId table candidate prepared bound chains =>
      have arity := arity_of_boundCandidate bound
      rw [ChainCall.arguments_operands] at chains arity
      have count : call.arguments.length = candidate.constructor.params.length := by
        rw [arity, operandsOf_eq_map, List.length_map]
      obtain ⟨received, loaded, receives, loads, ends⟩ := chainDirectly_steps chains
      have binds := bindsSparingly_of_runs count loads
      exact ⟨candidate, received, loaded, ⟨classId, table, ready, prepared, bound, receives, ends⟩,
        binds⟩

/-- A class with a constructor for a name and a limit, and a subclass of it. -/
def accountTypes : TypeTable :=
  let account : TypeDecl :=
    { name := "Account", id := ⟨301⟩, kind := .classType, superclass := some .object,
      constructors :=
        [⟨⟨302⟩, ⟨301⟩, [⟨"name", .string⟩, ⟨"limit", .int⟩], .openAccess⟩] }
  let savings : TypeDecl :=
    { name := "Savings", id := ⟨303⟩, kind := .classType, superclass := some ⟨301⟩ }
  (TypeTable.builtin.insert account).insert savings

/-- The constructor of the subclass runs that of its superclass, without a name. -/
theorem operands_of_direct_chain_account :
    let context : Context := { types := accountTypes, frame := .constructor ⟨303⟩ }
    let call : ChainCall Expr := ⟨.superclass, [.null, .int 5], .synthetic⟩
    let before : LoweringState := { ledger := { classId := ⟨303⟩, keyOf := fun _ => 7 } }
    ∃ after, Runs (lowerChainCall noHook call.operands) context before .direct after ∧
      ∃ candidate received loaded,
        RunsCandidate context noHook call before after candidate received loaded ∧
        BindsSparingly context (operandsOf [.null, .int 5]) candidate.constructor.params received
          loaded := by
  intro context call before
  obtain ⟨after, run⟩ := exists_runs_of_answer? (show answer?
    (lowerChainCall noHook call.operands) context before = some .direct by decide +kernel)
  exact ⟨after, run, operands_of_direct_chain context noHook call before after run⟩

end CallCode
