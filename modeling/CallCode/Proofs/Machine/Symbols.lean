import CallCode.Proofs.Machine.Steps
import CallCode.Proofs.Machine.Walking

/-!
# Symbolic code

A symbol is an instruction as it can be told without the pool that it refers to and the
offset at which it stands.  It has its constants in place of their indices, and a branch
has the number of the instruction that it leads to.  The wider form of an index is the
same symbol, the wider form of a local is another one.
-/

namespace CallCode

-- byte arrays are compared as the core library compares them
attribute [local instance (high)] ByteArray.instDecidableEq

/-- An instruction without its place. -/
inductive Symbol
  | operation (operation : Operation)
  | readLocal (opcode : Opcode) (slot : UInt16)
  | site (slot : Int) (count flags : UInt8)
  /-- A branch to the instruction of a number. -/
  | jump (target : Option Nat)
  | lookupSwitch (fallback : Option Nat) (cases : List (Int32 × Option Nat))
  deriving DecidableEq

/-- Where the cases of a switch lead, the first of which stands at `entry`. -/
def caseTargets (starts : List Nat) : Nat → List SwitchCase → List (Int32 × Option Nat)
  | _, [] => []
  | entry, case :: cases =>
      (case.key, starts.idxOf? (entry + 6 + case.distance.toNat)) ::
        caseTargets starts (entry + 6) cases

namespace Operation

/-- The symbol of an operation at an offset, in code whose instructions have the given
starts. -/
def symbol (starts : List Nat) (offset : Nat) (opcode : Opcode) : Operation → Symbol
  | .readLocal slot => .readLocal opcode slot
  | .callSite slot count flags => .site slot.toNat count flags
  | .jump distance => .jump (starts.idxOf? (offset + 3 + distance.toNat))
  | .lookupSwitch fallback cases =>
      .lookupSwitch (starts.idxOf? (offset + 5 + fallback.toNat))
        (caseTargets starts (offset + 5) cases)
  | operation => .operation operation

def isFixed : Operation → Bool
  | .readLocal _ | .callSite _ _ _ | .jump _ | .lookupSwitch _ _ => false
  | _ => true

/-- The symbol of an operation that has no branches, in its shortest form. -/
def straightSymbol : Operation → Symbol
  | .readLocal slot => .readLocal (if slot < 256 then .getLocal else .getLocalWide) slot
  | .callSite slot count flags => .site slot.toNat count flags
  | operation => .operation operation

/-- Whether control may go to another place than to the next instruction. -/
def isBranch : Operation → Bool
  | .jump _ | .lookupSwitch _ _ => true
  | _ => false

theorem isBranch_of_falls {operation : Operation} (falls : operation.falls = true) :
    operation.isBranch = false := by
  cases operation <;> first | rfl | cases falls

theorem isBranch_of_isFixed {operation : Operation} (fixed : operation.isFixed = true) :
    operation.isBranch = false := by
  cases operation <;> first | rfl | cases fixed

theorem straightSymbol_of_isFixed {operation : Operation} (fixed : operation.isFixed = true) :
    operation.straightSymbol = .operation operation := by
  cases operation <;> first | rfl | cases fixed

end Operation

/-- Instructions that read no local have only one form. -/
theorem Instruction.isTight_of_isFixed {instruction : Instruction} {pool : ConstantPool}
    {operation : Operation} (known : instruction.operation? pool = some operation)
    (fixed : operation.isFixed = true) : instruction.isTight = true := by
  unfold Instruction.isTight
  split
  · cases known
    cases fixed
  · rfl

theorem Instruction.opcode_of_readLocal {instruction : Instruction} {pool : ConstantPool}
    {slot : UInt16} (known : instruction.operation? pool = some (.readLocal slot))
    (tight : instruction.isTight = true) :
    instruction.opcode = if slot < 256 then .getLocal else .getLocalWide := by
  obtain ⟨opcode, operands⟩ := instruction
  cases operands with
  | byte value =>
      cases opcode <;> simp [operation?] at known
      subst known
      rw [if_pos]
      rw [UInt16.lt_iff_toNat_lt, UInt8.toNat_toUInt16]
      exact value.toNat_lt
  | word value =>
      cases opcode <;> simp [operation?] at known
      subst known
      rw [if_neg]
      simpa [isTight] using tight
  | none => simp [operation?] at known
  | words => cases opcode <;> simp [operation?, Option.bind_eq_some_iff] at known
  | member => simp [operation?] at known
  | site => simp [operation?] at known
  | adapter => simp [operation?] at known
  | spread => simp [operation?] at known
  | table => simp [operation?] at known

/-- An instruction without branches has the same symbol wherever it stands. -/
theorem Operation.symbol_eq_straightSymbol {operation : Operation} {pool : ConstantPool}
    {instruction : Instruction} (known : instruction.operation? pool = some operation)
    (straight : operation.isBranch = false) (tight : instruction.isTight = true)
    (starts : List Nat) (offset : Nat) :
    operation.symbol starts offset instruction.opcode = operation.straightSymbol := by
  cases operation with
  | readLocal slot =>
      rw [symbol, straightSymbol, Instruction.opcode_of_readLocal known tight]
  | jump => cases straight
  | lookupSwitch => cases straight
  | _ => rfl

/-! ## Reading -/

theorem startsFrom_append (offset : Nat) (first second : List Placed) :
    startsFrom offset (first ++ second) =
      startsFrom offset first ++ startsFrom (offset + codeSize first) second := by
  induction first generalizing offset with
  | nil => rfl
  | cons item first ih =>
      rw [List.cons_append, startsFrom, startsFrom, ih, codeSize_cons, Nat.add_assoc,
        List.cons_append]

namespace ObjectCode

/-- The symbol at an offset of some code whose instructions have the given starts. -/
def symbolAt (code : ObjectCode) (pool : ConstantPool) (starts : List Nat) (offset : Nat) :
    Option Symbol := do
  let instruction ← code.instructionAt offset
  let operation ← instruction.operation? pool
  return operation.symbol starts offset instruction.opcode

/-- The symbols of the code from an offset on.  A branch may lead to its end, which has the
number behind the last instruction. -/
def symbolsFrom (code : ObjectCode) (pool : ConstantPool) (offset : Nat) :
    Option (List Symbol) :=
  let offsets := (code.walkFrom offset #[]).toList
  offsets.mapM (code.symbolAt pool (offsets ++ [code.size]))

/-- Some instructions in a row have the given symbols. -/
def Spelled (code : ObjectCode) (pool : ConstantPool) (starts : List Nat) (offset : Nat)
    (placed : List Placed) (symbols : List Symbol) : Prop :=
  List.Forall₂ (fun start symbol => code.symbolAt pool starts start = some symbol)
    (startsFrom offset placed) symbols

variable {code : ObjectCode} {pool : ConstantPool} {starts : List Nat} {offset : Nat}
  {first second placed : List Placed} {symbols further : List Symbol}

theorem Spelled.append (left : code.Spelled pool starts offset first symbols)
    (right : code.Spelled pool starts (offset + codeSize first) second further) :
    code.Spelled pool starts offset (first ++ second) (symbols ++ further) := by
  rw [Spelled, startsFrom_append]
  exact List.rel_append left right

theorem Spelled.cons {item : Placed} {operation : Operation}
    (found : code.instructionAt offset = some item.instruction)
    (known : item.instruction.operation? pool = some operation)
    (rest : code.Spelled pool starts (offset + item.instruction.size) placed symbols) :
    code.Spelled pool starts offset (item :: placed)
      (operation.symbol starts offset item.instruction.opcode :: symbols) := by
  apply List.Forall₂.cons
  · simp [symbolAt, found, known]
  · exact rest

theorem spelled_straight {operations : List Operation} (located : code.Located offset placed)
    (performs : Performs pool placed operations)
    (straight : ∀ operation ∈ operations, operation.isBranch = false)
    (tight : ∀ item ∈ placed, item.instruction.isTight = true) :
    code.Spelled pool starts offset placed (operations.map Operation.straightSymbol) := by
  induction performs generalizing offset with
  | nil => exact .nil
  | @cons item operation rest operations known _ ih =>
      obtain ⟨here, following⟩ := located
      rw [List.forall_mem_cons] at straight tight
      have spelled := Spelled.cons here known (ih following straight.2 tight.2)
      rwa [Operation.symbol_eq_straightSymbol known straight.1 tight.1] at spelled

theorem isTight_of_performs {operations : List Operation}
    (performs : Performs pool placed operations)
    (fixed : ∀ operation ∈ operations, operation.isFixed = true) :
    ∀ item ∈ placed, item.instruction.isTight = true := by
  induction performs with
  | nil => simp
  | cons known _ ih =>
      rw [List.forall_mem_cons] at fixed ⊢
      exact ⟨Instruction.isTight_of_isFixed known fixed.1, ih fixed.2⟩

theorem spelled_fixed {operations : List Operation} (located : code.Located offset placed)
    (performs : Performs pool placed operations)
    (fixed : ∀ operation ∈ operations, operation.isFixed = true) :
    code.Spelled pool starts offset placed (operations.map .operation) := by
  have same : operations.map .operation = operations.map Operation.straightSymbol :=
    List.map_congr_left fun operation member =>
      (Operation.straightSymbol_of_isFixed (fixed operation member)).symm
  rw [same]
  apply spelled_straight located performs
  · exact fun operation member => Operation.isBranch_of_isFixed (fixed operation member)
  · exact isTight_of_performs performs fixed

theorem Spelled.mapM (spelled : code.Spelled pool starts offset placed symbols) :
    (startsFrom offset placed).mapM (code.symbolAt pool starts) = some symbols := by
  rw [Spelled] at spelled
  generalize startsFrom offset placed = offsets at spelled
  induction spelled with
  | nil => rfl
  | cons here _ ih => simp [here, ih]

/-- The symbols of the instructions that stand up to the end of the code. -/
theorem symbolsFrom_of_spelled (located : code.Located offset placed)
    (ends : offset + codeSize placed = code.size)
    (spelled : code.Spelled pool (startsFrom offset placed ++ [offset + codeSize placed]) offset
      placed symbols) : code.symbolsFrom pool offset = some symbols := by
  rw [symbolsFrom, toList_walkFrom located ends, List.nil_append, ← ends]
  exact spelled.mapM

end ObjectCode

/-! ## Numbers of instructions -/

/-- The starts of some instructions in a row, and their end, have the numbers from `first`
on. -/
def Numbered (starts : List Nat) (offset first : Nat) (placed : List Placed) : Prop :=
  ∀ front back, placed = front ++ back →
    starts.idxOf? (offset + codeSize front) = some (first + front.length)

namespace Numbered

variable {starts : List Nat} {offset first : Nat} {front back placed : List Placed}

theorem here (numbered : Numbered starts offset first placed) :
    starts.idxOf? offset = some first :=
  numbered [] placed rfl

theorem behind (numbered : Numbered starts offset first placed) :
    starts.idxOf? (offset + codeSize placed) = some (first + placed.length) :=
  numbered placed [] (List.append_nil placed).symm

theorem left (numbered : Numbered starts offset first (front ++ back)) :
    Numbered starts offset first front := by
  rintro ahead rest rfl
  exact numbered ahead (rest ++ back) (List.append_assoc _ _ _)

theorem right (numbered : Numbered starts offset first (front ++ back)) :
    Numbered starts (offset + codeSize front) (first + front.length) back := by
  rintro ahead rest rfl
  have found := numbered (front ++ ahead) rest (List.append_assoc _ _ _).symm
  rwa [codeSize_append, List.length_append, ← Nat.add_assoc, ← Nat.add_assoc] at found

theorem tail {item : Placed} (numbered : Numbered starts offset first (item :: placed)) :
    Numbered starts (offset + item.instruction.size) (first + 1) placed := by
  have split : Numbered starts offset first ([item] ++ placed) := numbered
  have behind := split.right
  rwa [codeSize_cons, codeSize_nil, Nat.add_zero, List.length_singleton] at behind

/-- No two instructions start at one offset, as each of them takes a byte. -/
theorem of_startsFrom (offset : Nat) (placed : List Placed) :
    Numbered (startsFrom offset placed ++ [offset + codeSize placed]) offset 0 placed := by
  rintro front back rfl
  rw [Nat.zero_add]
  induction front generalizing offset with
  | nil =>
      cases back with
      | nil => simp [startsFrom]
      | cons item back => simp [startsFrom, List.idxOf?_cons]
  | cons item front ih =>
      have advances := item.instruction.size_pos
      have later : offset ≠ offset + codeSize (item :: front) := by
        rw [codeSize_cons]
        omega
      have found := ih (offset + item.instruction.size)
      rw [Nat.add_assoc, ← codeSize_cons, Nat.add_assoc, ← codeSize_cons] at found
      rw [List.cons_append, startsFrom, List.cons_append, List.idxOf?_cons,
        if_neg (by simpa using later), found]
      rfl

end Numbered

/-! ## Slots -/

namespace Symbol

def slot? : Symbol → Option Int
  | .site slot _ _ => some slot
  | _ => none

def mapSlot (change : Int → Int) : Symbol → Symbol
  | .site slot count flags => .site (change slot) count flags
  | symbol => symbol

/-- Symbols that are the same but for slots that are related. -/
inductive Alike (related : Int → Int → Prop) : Symbol → Symbol → Prop
  | same {symbol : Symbol} : symbol.slot? = none → Alike related symbol symbol
  | site {slot other : Int} {count flags : UInt8} : related slot other →
      Alike related (.site slot count flags) (.site other count flags)

end Symbol

def withoutSlots (symbols : List Symbol) : List Symbol :=
  symbols.map (·.mapSlot fun _ => 0)

def firstSlot (symbols : List Symbol) : Int := (symbols.findSome? Symbol.slot?).getD 0

/-- Symbols with slots relative to the first of them. -/
def relativeSlots (symbols : List Symbol) : List Symbol :=
  symbols.map (·.mapSlot (· - firstSlot symbols))

section Slots

variable {symbols others : List Symbol}

theorem withoutSlots_eq {related : Int → Int → Prop}
    (alike : List.Forall₂ (Symbol.Alike related) symbols others) :
    withoutSlots symbols = withoutSlots others := by
  induction alike with
  | nil => rfl
  | cons first _ ih =>
      rw [withoutSlots, withoutSlots, List.map_cons, List.map_cons]
      congr 1
      cases first with
      | same => rfl
      | site => rfl

/-- The first slots differ as all the others do. -/
theorem firstSlot_sub {shift : Int}
    (alike : List.Forall₂ (Symbol.Alike fun slot other => slot - other = shift) symbols others)
    (sends : symbols.findSome? Symbol.slot? ≠ none) :
    firstSlot symbols - firstSlot others = shift := by
  induction alike with
  | nil => exact absurd rfl sends
  | @cons symbol other symbols others first _ ih =>
      cases first with
      | same none =>
          simp only [firstSlot, List.findSome?_cons, none] at sends ih ⊢
          exact ih sends
      | site related => exact related

/-- Slots that differ by as much as their bases are the same relative to those. -/
theorem map_mapSlot_eq {shift base otherBase : Int}
    (alike : List.Forall₂ (Symbol.Alike fun slot other => slot - other = shift) symbols others)
    (bases : symbols.findSome? Symbol.slot? ≠ none → base - otherBase = shift) :
    symbols.map (·.mapSlot (· - base)) = others.map (·.mapSlot (· - otherBase)) := by
  induction alike with
  | nil => rfl
  | @cons symbol other symbols others first _ ih =>
      rw [List.map_cons, List.map_cons]
      cases first with
      | same none =>
          rw [List.findSome?_cons, none] at bases
          rw [ih bases]
          cases symbol with
          | site => cases none
          | _ => rfl
      | site related =>
          have total : base - otherBase = shift := bases (by simp [Symbol.slot?])
          rw [ih fun _ => total, Symbol.mapSlot, Symbol.mapSlot]
          congr 2
          omega

theorem relativeSlots_eq {shift : Int}
    (alike : List.Forall₂ (Symbol.Alike fun slot other => slot - other = shift) symbols
      others) : relativeSlots symbols = relativeSlots others :=
  map_mapSlot_eq alike (firstSlot_sub alike)

end Slots

end CallCode
