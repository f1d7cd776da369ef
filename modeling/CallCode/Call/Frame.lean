import CallCode.Identity

/-!
# Frames

A frame describes the method whose body is being lowered.
-/

namespace CallCode

/-- Choices that the caller of lowering makes. -/
structure Options where
  /-- Trust the targets of the optimizer for calls on the current instance and
  for constructor calls. -/
  fastPath : Bool := false
  /-- Allow those targets for calls on the current instance. -/
  optimizeForInt : Bool := true
  /-- The most arguments that a support routine takes one by one. -/
  maxFixedArguments : Nat := 2
  deriving DecidableEq, Repr

/-- The method that is being lowered. -/
structure Frame where
  classId : Identity
  /-- The type of the lexical `this`, which differs inside generated closures. -/
  thisType : Identity := classId
  isConstructor : Bool := false
  isStaticMethod : Bool := false
  /-- The code has no instance, as in a static initializer. -/
  isStaticContext : Bool := false
  /-- The code belongs to a function that the compiler generated. -/
  inGeneratedFunction : Bool := false
  options : Options := {}
  deriving DecidableEq, Repr

namespace Frame

/-- An instance method of a class. -/
def method (classId : Identity) : Frame := { classId }

/-- A constructor of a class. -/
def constructor (classId : Identity) : Frame :=
  { classId, isConstructor := true }

/-- A static method of a class. -/
def static (classId : Identity) : Frame :=
  { classId, isStaticMethod := true, isStaticContext := true }

/-- Whether there is no instance, so that `this` is the class. -/
def isStatic (frame : Frame) : Bool :=
  frame.isStaticMethod || frame.isStaticContext

end Frame

end CallCode
