/-!
# Operation codes

Every instruction starts with one byte for its opcode.  Opcodes are numbered in
the order of their declaration here.
-/

namespace CallCode

/-- The operations of the stack machine. -/
inductive Opcode
  /-- Push a constant by a one-byte index. -/
  | constant
  /-- Push a constant by a two-byte index. -/
  | constantWide
  | pushNull
  | pushTrue
  | pushFalse
  | pushZero
  | pushOne
  | pop
  /-- `a → a a` -/
  | dup
  /-- `b a → a b a` -/
  | dupX1
  /-- `c b a → b a c b a` -/
  | dup2X1
  /-- `b a → a b` -/
  | swap
  | getLocal
  | getLocalWide
  /-- Push the shared cell of a captured local, not its value. -/
  | getRef
  | getThis
  /-- Push the instance of an enclosing class. -/
  | getOuterThis
  /-- Pop an instance and push one of its fields. -/
  | getField
  | getStaticField
  /-- Push a new instance that no constructor has run on. -/
  | newInstance
  /-- Pop a number of values and push an array of them. -/
  | arrayInit
  /-- `array index → element` -/
  | arrayLoad
  /-- Pop a number of values and push a vector of them, in which the values of
  the masked positions are expanded. -/
  | despread
  | invokeStatic
  | invokeVirtual
  | invokeInterface
  /-- Call a constructor or a method of the superclass. -/
  | invokeSpecial
  /-- Call through a cached call site. -/
  | callSite
  /-- Call a support routine of the runtime. -/
  | callAdapter
  | checkCast
  | box
  | unbox
  /-- Push a class literal. -/
  | loadClass
  | jump
  /-- Pop a key and branch on it. -/
  | lookupSwitch
  /-- Stop with a fatal error. -/
  | raiseFatal
  deriving DecidableEq, Inhabited, Repr

namespace Opcode

/-- All opcodes in the order of their bytes. -/
def all : List Opcode :=
  [constant, constantWide, pushNull, pushTrue, pushFalse, pushZero, pushOne,
    pop, dup, dupX1, dup2X1, swap, getLocal, getLocalWide, getRef, getThis,
    getOuterThis, getField, getStaticField, newInstance, arrayInit, arrayLoad,
    despread, invokeStatic, invokeVirtual, invokeInterface, invokeSpecial,
    callSite, callAdapter, checkCast, box, unbox, loadClass, jump, lookupSwitch,
    raiseFatal]

/-- The byte of an opcode. -/
def toByte (opcode : Opcode) : UInt8 := opcode.ctorIdx.toUInt8

/-- The opcode of a byte. -/
def ofByte? (byte : UInt8) : Option Opcode := all[byte.toNat]?

theorem ofByte?_toByte (opcode : Opcode) : ofByte? opcode.toByte = some opcode := by
  cases opcode <;> rfl

/-- The number of operand bytes; for `lookupSwitch`, those before its cases. -/
def operandSize : Opcode → Nat
  | constant | getLocal => 1
  | constantWide | getLocalWide | getRef | getOuterThis | getField | newInstance
  | checkCast | box | unbox | loadClass | jump | raiseFatal => 2
  | invokeStatic | invokeVirtual | invokeInterface | invokeSpecial
  | callAdapter => 3
  | getStaticField | arrayInit | callSite | lookupSwitch => 4
  | despread => 5
  | pushNull | pushTrue | pushFalse | pushZero | pushOne | pop | dup | dupX1
  | dup2X1 | swap | getThis | arrayLoad => 0

/-- Whether the opcode calls a member that was bound at compile time. -/
def isInvoke : Opcode → Bool
  | invokeStatic | invokeVirtual | invokeInterface | invokeSpecial => true
  | _ => false

/-- The name of an opcode in listings. -/
def mnemonic : Opcode → String
  | constant => "CONSTANT"
  | constantWide => "CONSTANT_WIDE"
  | pushNull => "PUSH_NULL"
  | pushTrue => "PUSH_TRUE"
  | pushFalse => "PUSH_FALSE"
  | pushZero => "PUSH_ZERO"
  | pushOne => "PUSH_ONE"
  | pop => "POP"
  | dup => "DUP"
  | dupX1 => "DUP_X1"
  | dup2X1 => "DUP2_X1"
  | swap => "SWAP"
  | getLocal => "GET_LOCAL"
  | getLocalWide => "GET_LOCAL_WIDE"
  | getRef => "GET_REF"
  | getThis => "GET_THIS"
  | getOuterThis => "GET_OUTER_THIS"
  | getField => "GET_FIELD"
  | getStaticField => "GET_STATIC_FIELD"
  | newInstance => "NEW"
  | arrayInit => "ARRAY_INIT"
  | arrayLoad => "ARRAY_LOAD"
  | despread => "DESPREAD"
  | invokeStatic => "INVOKE_STATIC"
  | invokeVirtual => "INVOKE_VIRTUAL"
  | invokeInterface => "INVOKE_INTERFACE"
  | invokeSpecial => "INVOKE_SPECIAL"
  | callSite => "CALL_SITE"
  | callAdapter => "CALL_ADAPTER"
  | checkCast => "CHECK_CAST"
  | box => "BOX"
  | unbox => "UNBOX"
  | loadClass => "LOAD_CLASS"
  | jump => "JUMP"
  | lookupSwitch => "LOOKUP_SWITCH"
  | raiseFatal => "RAISE_FATAL"

/-- The opcode with a given name. -/
def ofMnemonic? (name : String) : Option Opcode := all.find? (·.mnemonic == name)

/-- The names of opcodes as a bracketed list of quoted words. -/
def listText (opcodes : List Opcode) : String :=
  "[" ++ String.intercalate ", "
    (opcodes.map fun opcode => "\"" ++ opcode.mnemonic ++ "\"") ++ "]"

end Opcode

end CallCode
