import CallCode.Digest.XxHash64
import CallCode.TypeTable.Descriptor

/-!
# Constructor candidates

A table lists the constructors of a class in the order of their descriptors and
gives each a dispatch key.  The keys choose a constructor while the program runs,
so of two candidates with one key only the first can be reached.
-/

namespace CallCode

/-- How a descriptor is turned into a dispatch key. -/
abbrev KeyFunction := String → Int32

/-- The key of a descriptor: both halves of its digest folded into one. -/
def descriptorKey : KeyFunction := fun descriptor =>
  let digest := XxHash64.ofText descriptor
  (digest ^^^ (digest >>> 32)).toUInt32.toInt32

/-- A constructor that can be dispatched to. -/
structure Candidate where
  constructor : Constructor
  descriptor : String
  key : Int32
  deriving DecidableEq, Repr

/-- The positions of two candidates that have the same key. -/
structure Collision where
  first : Nat
  second : Nat
  deriving DecidableEq, Repr

/-- The constructors of a class in the order of their descriptors. -/
structure CandidateTable where
  classId : Identity
  candidates : List Candidate
  deriving DecidableEq, Repr

/-- For each of `keys` that occurs before it, its position and that of its first
occurrence; `earlier` are the keys in front. -/
def collisionsAfter (earlier : List Int32) : List Int32 → List Collision
  | [] => []
  | key :: keys =>
      let following := collisionsAfter (earlier ++ [key]) keys
      match earlier.idxOf? key with
      | some first => ⟨first, earlier.length⟩ :: following
      | none => following

/-- The first candidate of every key, in order. -/
def distinctKeys : List Candidate → List Candidate
  | [] => []
  | candidate :: candidates =>
      candidate :: (distinctKeys candidates).filter (·.key != candidate.key)

namespace CandidateTable

/-- The candidate for a constructor whose parameter types are all registered. -/
def candidate? (types : TypeTable) (keyOf : KeyFunction)
    (constructor : Constructor) : Option Candidate := do
  let descriptor ← types.signatureDescriptor constructor.params
  return ⟨constructor, descriptor, keyOf descriptor⟩

/-- The table of a class with at least one constructor. -/
def build (types : TypeTable) (classId : Identity) (position : Position)
    (keyOf : KeyFunction) : Except LoweringError CandidateTable :=
  match types.find? classId with
  | none => .error (.unknownType classId.text position)
  | some decl =>
      if decl.constructors.isEmpty then
        .error (.noConstructors decl.name position)
      else
        match decl.constructors.mapM (candidate? types keyOf) with
        | none =>
            .error (.unknownType ("parameter of " ++ decl.name ++ " constructor")
              position)
        | some candidates =>
            .ok ⟨classId,
              candidates.mergeSort fun first second =>
                decide (first.descriptor ≤ second.descriptor)⟩

/-- The candidates that cannot be reached, each with the one that hides it. -/
def collisions (table : CandidateTable) : List Collision :=
  collisionsAfter [] (table.candidates.map (·.key))

def hasCollisions (table : CandidateTable) : Bool := !table.collisions.isEmpty

/-- The candidate with `count` parameters, if there is exactly one. -/
def uniqueOfArity (table : CandidateTable) (count : Nat) : Option Candidate :=
  match table.candidates.filter (·.constructor.params.length == count) with
  | [candidate] => some candidate
  | _ => none

/-- The candidates that a switch can reach, in the order of their keys. -/
def arms (table : CandidateTable) : List Candidate :=
  (distinctKeys table.candidates).mergeSort fun first second =>
    decide (first.key ≤ second.key)

end CandidateTable

end CallCode
