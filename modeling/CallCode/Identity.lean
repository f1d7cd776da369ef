import CallCode.Digest.Hex
import CallCode.Digest.XxHash64

/-!
# Identities of types and members

A type, a method and a constructor are each known by one 64-bit identity, which
depends on the declaration alone and not on the order of registration.  The four
kinds of identity start from different markers, and a member mixes in the
identities of its parameter types one after another, so their order matters.
-/

namespace CallCode

/-- The identity of a type, a method or a constructor. -/
structure Identity where
  bits : UInt64
  deriving DecidableEq, Hashable, Inhabited, Repr

namespace Identity

/-- The identity that no declaration is meant to have. -/
def empty : Identity := ⟨0⟩

def isEmpty (id : Identity) : Bool := id.bits == 0

/-- The odd multiplier between two steps of a mix. -/
def separator : UInt64 := 0x4bc94d6bd06053ad

def typeMarker : UInt64 := 0x2fac10b63a6cc57c
def methodMarker : UInt64 := 0x7d3c8b4a92e15f6d
def constructorMarker : UInt64 := 0x9a7f3d5e2b8c4601
def arrayMarker : UInt64 := 0x5ea77ffbcdf5f302

/-- The markers of the first eight parameter positions. -/
def parameterMarkers : List UInt64 :=
  [0x9e3779b97f4a7c15, 0xbf58476d1ce4e5b9, 0x94d049bb133111eb,
    0xd6e8feb86659fd93, 0xe7037ed1a0b428db, 0xc6a4a7935bd1e995,
    0x8648dbbc94d49b8d, 0xa2b48b2c69e0d657]

/-- The marker of a parameter position; a position past the eighth counts on
from the first marker. -/
def parameterMarker (position : Nat) : UInt64 :=
  parameterMarkers[position]?.getD (0x9e3779b97f4a7c15 + position.toUInt64)

/-- Mix the parameters from `position` onwards into `mixed`. -/
def mixParameters (mixed : UInt64) (position : Nat) : List Identity → UInt64
  | [] => mixed
  | parameter :: parameters =>
      mixParameters
        (mixed * separator + (parameterMarker position ^^^ parameter.bits))
        (position + 1) parameters

/-- The identity of the type with a qualified name. -/
def ofTypeName (name : String) : Identity :=
  ⟨typeMarker ^^^ XxHash64.ofText name⟩

/-- The identity of a method, from its declaring type, name and parameters. -/
def ofMethod (owner : Identity) (name : String) (parameters : List Identity) :
    Identity :=
  ⟨mixParameters (methodMarker ^^^ owner.bits ^^^ XxHash64.ofText name) 0 parameters⟩

/-- The identity of a constructor, from its declaring type and parameters. -/
def ofConstructor (owner : Identity) (parameters : List Identity) : Identity :=
  ⟨mixParameters (constructorMarker ^^^ owner.bits) 0 parameters⟩

/-- The identity of an array type; with no dimensions it is the element. -/
def ofArray (element : Identity) (dims : UInt8) : Identity :=
  if dims = 0 then element
  else ⟨element.bits * separator + (arrayMarker ^^^ dims.toUInt64)⟩

/-- The text of an identity where no name is known. -/
def text (id : Identity) : String := Hex.ofWord id.bits

/-- The text of an identity in structural dumps. -/
def debugText (id : Identity) : String := "TypeHash(" ++ id.text ++ ")"

/-! ## Reserved identities

The built-in types are registered under fixed identities that are not derived
from their names.
-/

def void : Identity := ⟨0xe4b3797ddcf989ea⟩
def boolean : Identity := ⟨0x1e0c8fa4cced99c1⟩
def int : Identity := ⟨0x4f5e5320cd1c92bf⟩
def long : Identity := ⟨0x7d6c550df59a1924⟩
def double : Identity := ⟨0x95aebfc985e9b115⟩

/-- The root of the class hierarchy. -/
def object : Identity := ⟨0x2b44191092e74388⟩

def string : Identity := ⟨0x0e8b2d31cdfa9716⟩

/-- The type of class literals. -/
def metaclass : Identity := ⟨0x269d68dfde65ae7f⟩

/-- The base class of all enums. -/
def enumBase : Identity := ⟨0x543fb8f520aa3e26⟩

/-- The shared cell of a captured local that is assigned to. -/
def reference : Identity := ⟨0x3e9f5d2a8c7b1403⟩

def booleanBox : Identity := ⟨0x1a095090689d4647⟩
def integerBox : Identity := ⟨0x6c8e4b2f9a1d3705⟩
def longBox : Identity := ⟨0xb27d0e9c4f6a8153⟩
def doubleBox : Identity := ⟨0x83f1a6d5c2e97b40⟩

end Identity

end CallCode
