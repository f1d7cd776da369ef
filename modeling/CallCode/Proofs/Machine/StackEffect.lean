import CallCode.Machine.CallFlags
import CallCode.Proofs.Machine.Control
import CallCode.TypeTable.Basic

/-!
# Stack effects

Every operation takes a number of values off the stack and puts a number there.  An
invocation takes its arguments and, unless it is static, a receiver, and it returns
one value unless the member is a constructor or returns nothing.  The effect of code
that runs straight through is the sum of those of its operations.
-/

namespace CallCode

/-- The values that an opcode takes or reads, where its operands do not matter. -/
def Opcode.pops : Opcode → Nat
  | pop | dup | getField | checkCast | box | unbox | lookupSwitch => 1
  | dupX1 | swap | arrayLoad => 2
  | dup2X1 => 3
  | _ => 0

/-- The values that an opcode leaves, where its operands do not matter. -/
def Opcode.pushes : Opcode → Nat
  | pop | jump | lookupSwitch | raiseFatal => 0
  | dup | swap => 2
  | dupX1 => 3
  | dup2X1 => 5
  | _ => 1

/-- Whether the invocation of a member leaves a value. -/
def TypeTable.returnsValue (types : TypeTable) (member : Identity) : Bool :=
  (types.constructor? member).isNone &&
    !(types.method? member).any fun method => method.returnType.isVoid

namespace Operation

/-- The values that an operation takes or reads. -/
def pops : Operation → Nat
  | plain opcode | typed opcode _ => opcode.pops
  | getField _ => 1
  | arrayInit _ count => count.toNat
  | despread count _ => count.toNat
  | invoke opcode _ _ count => count.toNat + if opcode = .invokeStatic then 0 else 1
  | callSite _ count _ => count.toNat + 1
  | callRoutine routine count flags =>
      if routine < 5 then 3 + if (CallFlags.ofBits flags).spread then 1 else count.toNat
      else count.toNat
  | lookupSwitch _ _ => 1
  | constant _ | readLocal _ | readCell _ | getStaticField _ _ | jump _ | raiseFatal _ => 0

/-- The values that an operation leaves. -/
def pushes (types : TypeTable) : Operation → Nat
  | plain opcode | typed opcode _ => opcode.pushes
  | invoke _ _ member _ => if types.returnsValue member then 1 else 0
  | jump _ | lookupSwitch _ _ | raiseFatal _ => 0
  | _ => 1

/-- By how much an operation changes the depth of the stack. -/
def change (types : TypeTable) (operation : Operation) : Int :=
  operation.pushes types - operation.pops

/-- Whether an operation is an instance invocation of a static method. -/
def lacksReceiver (types : TypeTable) : Operation → Bool
  | invoke opcode _ member _ =>
      opcode != .invokeStatic && (types.method? member).any (·.isStatic)
  | _ => false

end Operation

section Straight

variable (types : TypeTable)

-- the zero of a sum is the numeral, whatever algebra on numbers is imported
attribute [local instance (high)] Zero.ofOfNat0

/-- By how much code changes the depth of the stack. -/
def netChange (code : List Operation) : Int :=
  (code.map (Operation.change types)).sum

/-- How many invocations of code take a receiver that is not there. -/
def missingReceivers (code : List Operation) : Nat :=
  code.countP (Operation.lacksReceiver types)

/-- From a depth on, every operation finds the values that it takes. -/
def Covered : Int → List Operation → Prop
  | _, [] => True
  | depth, operation :: code =>
      (operation.pops : Int) ≤ depth ∧ Covered (depth + operation.change types) code

@[simp]
theorem netChange_nil : netChange types [] = 0 := rfl

@[simp]
theorem netChange_cons (operation : Operation) (code : List Operation) :
    netChange types (operation :: code) =
      operation.change types + netChange types code := by
  simp [netChange]

@[simp]
theorem netChange_append (first second : List Operation) :
    netChange types (first ++ second) = netChange types first + netChange types second := by
  simp [netChange]

@[simp]
theorem missingReceivers_append (first second : List Operation) :
    missingReceivers types (first ++ second) =
      missingReceivers types first + missingReceivers types second := by
  simp [missingReceivers]

variable {types}

theorem Covered.mono {depth higher : Int} {code : List Operation}
    (covered : Covered types depth code) (enough : depth ≤ higher) :
    Covered types higher code := by
  induction code generalizing depth higher with
  | nil => trivial
  | cons operation code ih =>
      obtain ⟨first, rest⟩ := covered
      exact ⟨by omega, ih rest (by omega)⟩

theorem covered_append {depth : Int} {first second : List Operation} :
    Covered types depth (first ++ second) ↔
      Covered types depth first ∧
        Covered types (depth + netChange types first) second := by
  induction first generalizing depth with
  | nil => simp [Covered]
  | cons operation first ih =>
      simp [Covered, ih, and_assoc, Int.add_assoc]

variable (types)

/-- Code that runs straight through, needs a number of values and changes the depth by
`gain`, except that each missing receiver takes one value more than it should. -/
structure Effect (code : List Operation) (needs : Nat) (gain : Int) : Prop where
  straight : ∀ operation ∈ code, operation.falls = true
  net : netChange types code = gain - missingReceivers types code
  covered : missingReceivers types code = 0 → Covered types needs code

variable {types} {code further : List Operation} {needs moreNeeds : Nat}
  {gain moreGain total : Int}

theorem Effect.nil : Effect types [] 0 0 where
  straight := by simp
  net := rfl
  covered := fun _ => trivial

theorem Effect.append (left : Effect types code needs gain)
    (right : Effect types further moreNeeds moreGain)
    (enough : (moreNeeds : Int) ≤ needs + gain) :
    Effect types (code ++ further) needs (gain + moreGain) where
  straight := by
    intro operation member
    rcases List.mem_append.mp member with first | second
    · exact left.straight operation first
    · exact right.straight operation second
  net := by
    have leftNet := left.net
    have rightNet := right.net
    simp only [netChange_append, missingReceivers_append]
    omega
  covered := by
    intro none
    rw [missingReceivers_append] at none
    have leftNone : missingReceivers types code = 0 := by omega
    have rightNone : missingReceivers types further = 0 := by omega
    have leftNet := left.net
    rw [covered_append]
    refine ⟨left.covered leftNone, (right.covered rightNone).mono ?_⟩
    omega

/-- The same effect with its gain in another form. -/
theorem Effect.gains (effect : Effect types code needs gain)
    (sum : gain = total) : Effect types code needs total :=
  sum ▸ effect

theorem Effect.mono (effect : Effect types code needs gain) {higher : Nat}
    (enough : needs ≤ higher) : Effect types code higher gain where
  straight := effect.straight
  net := effect.net
  covered := fun none => (effect.covered none).mono (by omega)

theorem Effect.single {operation : Operation} (falls : operation.falls = true)
    (receives : operation.lacksReceiver types = false)
    (pops : operation.pops = needs)
    (change : (operation.pushes types : Int) - needs = gain) :
    Effect types [operation] needs gain where
  straight := by simpa using falls
  net := by simp [missingReceivers, receives, Operation.change, pops, change]
  covered := fun _ => ⟨by simp [pops], trivial⟩

end Straight

end CallCode
