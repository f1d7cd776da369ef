/-!
# Support routines

What lowering does not bind statically is left to routines of the runtime.  They
are numbered in the order of their declaration here.
-/

namespace CallCode

/-- A routine of the runtime that code can call. -/
inductive Routine
  /-- Dispatch on any receiver. -/
  | invokeMethod
  /-- Dispatch on the current instance. -/
  | invokeOnCurrent
  /-- Dispatch to the implementation of the superclass. -/
  | invokeOnSuper
  /-- Dispatch on a class. -/
  | invokeStatic
  /-- Assign a property; it takes no sender. -/
  | setProperty
  /-- Call a closure with an argument vector. -/
  | invokeClosure
  /-- Choose a constructor for an argument vector and answer its dispatch key. -/
  | selectConstructor
  /-- Cut the arguments from a position on out of a vector. -/
  | sliceArguments
  | castToType
  | castToClass
  | castToString
  | castToEnum
  /-- Convert a value implicitly. -/
  | convert
  /-- Keep an explicit cast visible to dispatch. -/
  | wrap
  deriving DecidableEq, Inhabited, Repr

namespace Routine

/-- The number of a routine in code. -/
def number (routine : Routine) : UInt8 := routine.ctorIdx.toUInt8

/-- All routines in the order of their numbers. -/
def all : List Routine :=
  [invokeMethod, invokeOnCurrent, invokeOnSuper, invokeStatic, setProperty,
    invokeClosure, selectConstructor, sliceArguments, castToType, castToClass,
    castToString, castToEnum, convert, wrap]

/-- The name of a routine in the runtime. -/
def name : Routine → String
  | invokeMethod => "InvokeMethod"
  | invokeOnCurrent => "InvokeMethodOnCurrent"
  | invokeOnSuper => "InvokeMethodOnSuper"
  | invokeStatic => "InvokeStaticMethod"
  | setProperty => "SetProperty"
  | invokeClosure => "InvokeClosure"
  | selectConstructor => "SelectConstructor"
  | sliceArguments => "CastToVargsArray"
  | castToType => "CastToType"
  | castToClass => "CastToClass"
  | castToString => "CastToString"
  | castToEnum => "CastToEnum"
  | convert => "AsType"
  | wrap => "Wrap"

/-- The routine of a name. -/
def ofName? (name : String) : Option Routine := all.find? (·.name == name)

/-- Whether a cached call site can take the place of the routine. -/
def isCacheable : Routine → Bool
  | invokeMethod | invokeOnCurrent | invokeStatic => true
  | _ => false

end Routine

end CallCode
