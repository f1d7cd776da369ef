import CallCode.Lowering.Coercion

/-!
# Binding arguments

Arguments are bound to parameters one by one, and the surplus ones, or a missing
one, are packed into an array for a variadic parameter.  Where no parameters are
known, all arguments are packed into one vector.
-/

namespace CallCode

open Lower

/-- Load an operand as a value of a type. -/
def loadAs (operand : Operand) (type : ValueType) : Lower Unit := do
  operand.load
  coerceTo type

/-- Load an operand and box it. -/
def loadBoxed (operand : Operand) : Lower Unit := do
  operand.load
  let _ ← boxTop

/-- Load operands for the parameters at the same positions. -/
def loadEach (arguments : List Operand) (params : List Param) : Lower Unit :=
  (arguments.zip params).forM fun (operand, param) => loadAs operand param.type

/-- The error of arguments that do not bind to parameters. -/
def arityMismatch (arguments : List Operand) (params : List Param) : LoweringError :=
  .internal (.arityMismatch arguments.length params.length)

/-- Whether the last arguments of a variadic call are packed.  They are not if
there is one argument for each parameter and the last one is an array. -/
def packsSurplus (typeOf : Expr → ValueType) (arguments : List Operand)
    (params : List Param) : Bool :=
  arguments.length != params.length ||
    !(arguments.getLast?.any fun operand => (typeOf operand.source).isArray)

/-- Load operands as one array. -/
def packSurplus (surplus : List Operand) (element : ValueType) : Lower Unit := do
  surplus.forM fun operand => loadAs operand element
  let count ← accept (wordCount surplus.length .synthetic)
  write (·.arrayInit element.signature count)
  replace element.array surplus.length

/-- Push the arguments as values of the parameters, one for each parameter. -/
def bindArguments (arguments : List Operand) (params : List Param) : Lower Unit := do
  let typeOf := (← read).typeOf
  if arguments.length + 1 < params.length then
    fail (arityMismatch arguments params)
  match variadicElement params, packsSurplus typeOf arguments params with
  | some element, true =>
      let fixed := params.length - 1
      loadEach (arguments.take fixed) params
      packSurplus (arguments.drop fixed) element
  | _, _ =>
      if arguments.length = params.length then loadEach arguments params
      else fail (arityMismatch arguments params)

/-- The bits of the arguments that stand for their elements, the first lowest. -/
def spreadMask : List Expr → UInt32
  | [] => 0
  | argument :: arguments =>
      argument.isSpread.toUInt32 ||| (spreadMask arguments <<< 1)

/-- The most arguments that a spread mask covers. -/
def maxSpreadArguments : Nat := 32

/-- Push the arguments, boxed, as one vector in which spread ones are expanded. -/
def packVector (arguments : List Operand) (position : Position) : Lower Unit := do
  let count := arguments.length
  let spread := containsSpread (sources arguments)
  if spread && decide (maxSpreadArguments < count) then
    fail (.tooManyArguments count maxSpreadArguments position)
  arguments.forM loadBoxed
  if spread then
    let operand ← accept (byteCount count position)
    write (·.despread operand (spreadMask (sources arguments)))
  else
    let operand ← accept (wordCount count position)
    write (·.arrayInit .object operand)
  replace .objectArray count

end CallCode
