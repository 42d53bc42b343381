import StackVM.Operation

/-!
# Opcodes

The first byte of an instruction. Opcodes lie in groups: control `0x00`, the four scalar kinds from
`0x20`, `0x40`, `0x60` and `0x70`, strings `0x80`, arrays `0x90` and structs `0xA0`. Within a group the
members follow one another; bytes between the groups are unassigned.
-/

namespace StackVM

inductive Opcode where
  | nop | unreachable | drop | dup | swap | select
  | br | brIf | brTable
  | call | ret
  | globalGet | globalSet | globalTee
  | localGet | localSet | localTee
  | constGet
  | refNull
  /-- A number written in the code. -/
  | const (scalar : Scalar)
  | operation (op : Operation)
  | stringLen | stringConcat | stringEq | stringNe
  | arrayNew | arrayNewDefault | arrayLen | arrayGet | arraySet
  | structNew | structNewDefault | structGet | structSet
deriving DecidableEq, Repr

/-! ### The table -/

/-- Each member of the enumeration in byte order, from which places within a group are counted. -/
def IntTest.all : List IntTest := [.eq, .ne, .ltS, .ltU, .gtS, .gtU, .leS, .leU, .geS, .geU]

@[inherit_doc IntTest.all]
def IntBinary.all : List IntBinary :=
  [.add, .sub, .mul, .divS, .divU, .remS, .remU, .shl, .shrS, .shrU, .xor, .and, .or]

@[inherit_doc IntTest.all]
def FloatTest.all : List FloatTest := [.eq, .ne, .lt, .gt, .le, .ge]

@[inherit_doc IntTest.all]
def FloatBinary.all : List FloatBinary := [.add, .sub, .mul, .div]

namespace Opcode

def control : List Opcode :=
  [.nop, .unreachable, .drop, .dup, .swap, .select, .br, .brIf, .brTable, .call, .ret,
    .globalGet, .globalSet, .globalTee, .localGet, .localSet, .localTee, .constGet, .refNull,
    .operation .refIsNull, .operation .refEq, .operation .refNe]

def intGroup (w : IntWidth) (conversions : List Conversion) : List Opcode :=
  .const w.scalar :: .operation (.intEqz w) ::
    (IntTest.all.map fun t => .operation (.intTest w t)) ++
    (IntBinary.all.map fun op => .operation (.intBinary w op)) ++
    conversions.map fun c => .operation (.convert c)

def floatGroup (w : FloatWidth) (conversions : List Conversion) : List Opcode :=
  .const w.scalar :: (FloatTest.all.map fun t => .operation (.floatTest w t)) ++
    (FloatBinary.all.map fun op => .operation (.floatBinary w op)) ++
    conversions.map fun c => .operation (.convert c)

def i32Conversions : List Conversion :=
  [.extend .signed, .extend .unsigned, .intToFloat .w32 .w32 .signed,
    .intToFloat .w32 .w32 .unsigned, .intToFloat .w32 .w64 .signed, .intToFloat .w32 .w64 .unsigned]

def i64Conversions : List Conversion :=
  [.wrap, .intToFloat .w64 .w32 .signed, .intToFloat .w64 .w32 .unsigned,
    .intToFloat .w64 .w64 .signed, .intToFloat .w64 .w64 .unsigned]

def floatToInts (w : FloatWidth) : List Conversion :=
  [.floatToInt w .w32 .signed, .floatToInt w .w32 .unsigned, .floatToInt w .w64 .signed,
    .floatToInt w .w64 .unsigned]

/-- The groups of opcodes, each with the byte of its first member. -/
def groups : List (Nat × List Opcode) :=
  [(0x00, control),
    (0x20, intGroup .w32 i32Conversions),
    (0x40, intGroup .w64 i64Conversions),
    (0x60, floatGroup .w32 (floatToInts .w32 ++ [.promote])),
    (0x70, floatGroup .w64 (floatToInts .w64 ++ [.demote])),
    (0x80, [.stringLen, .stringConcat, .stringEq, .stringNe]),
    (0x90, [.arrayNew, .arrayNewDefault, .arrayLen, .arrayGet, .arraySet]),
    (0xA0, [.structNew, .structNewDefault, .structGet, .structSet])]

/-- Every opcode with its byte, in the order of the bytes. -/
def assigned : List (Nat × Opcode) :=
  groups.flatMap fun (start, members) => members.zipIdx start |>.map fun (op, byte) => (byte, op)

def all : List Opcode := assigned.map Prod.snd

/-- The byte of an opcode. -/
def byteNat (op : Opcode) : Nat :=
  ((assigned.find? fun entry => entry.2 == op).map Prod.fst).getD 0

/-- The opcode of each byte value, `none` where the byte is unassigned. -/
def byByte : Array (Option Opcode) :=
  Array.ofFn fun i : Fin 256 => (assigned.find? fun entry => entry.1 == i.val).map Prod.snd

def byte (op : Opcode) : UInt8 := UInt8.ofNat op.byteNat

def ofByte? (b : UInt8) : Option Opcode := byByte[b.toNat]?.join

end Opcode

/-! ### Names -/

def Signedness.suffix : Signedness → String
  | .signed => "_s"
  | .unsigned => "_u"

def IntTest.text : IntTest → String
  | .eq => "eq"
  | .ne => "ne"
  | .ltS => "lt_s"
  | .ltU => "lt_u"
  | .gtS => "gt_s"
  | .gtU => "gt_u"
  | .leS => "le_s"
  | .leU => "le_u"
  | .geS => "ge_s"
  | .geU => "ge_u"

def IntBinary.text : IntBinary → String
  | .add => "add"
  | .sub => "sub"
  | .mul => "mul"
  | .divS => "div_s"
  | .divU => "div_u"
  | .remS => "rem_s"
  | .remU => "rem_u"
  | .shl => "shl"
  | .shrS => "shr_s"
  | .shrU => "shr_u"
  | .xor => "xor"
  | .and => "and"
  | .or => "or"

def FloatTest.text : FloatTest → String
  | .eq => "eq"
  | .ne => "ne"
  | .lt => "lt"
  | .gt => "gt"
  | .le => "le"
  | .ge => "ge"

def FloatBinary.text : FloatBinary → String
  | .add => "add"
  | .sub => "sub"
  | .mul => "mul"
  | .div => "div"

/-- Source kind, target kind, and a sign where the bits of an integer can be read in two ways. -/
def Conversion.text (c : Conversion) : String :=
  c.source.text ++ ".to_" ++ c.target.text ++
    match c with
    | .extend sign | .intToFloat _ _ sign | .floatToInt _ _ sign => sign.suffix
    | .wrap | .promote | .demote => ""

def Operation.text : Operation → String
  | .refIsNull => "ref.is_null"
  | .refEq => "ref.eq"
  | .refNe => "ref.ne"
  | .intEqz w => w.scalar.text ++ ".eqz"
  | .intTest w t => w.scalar.text ++ "." ++ t.text
  | .intBinary w op => w.scalar.text ++ "." ++ op.text
  | .floatTest w t => w.scalar.text ++ "." ++ t.text
  | .floatBinary w op => w.scalar.text ++ "." ++ op.text
  | .convert c => c.text

namespace Opcode

def mnemonic : Opcode → String
  | .nop => "nop"
  | .unreachable => "unreachable"
  | .drop => "drop"
  | .dup => "dup"
  | .swap => "swap"
  | .select => "select"
  | .br => "br"
  | .brIf => "br_if"
  | .brTable => "br_table"
  | .call => "call"
  | .ret => "return"
  | .globalGet => "global.get"
  | .globalSet => "global.set"
  | .globalTee => "global.tee"
  | .localGet => "local.get"
  | .localSet => "local.set"
  | .localTee => "local.tee"
  | .constGet => "const.get"
  | .refNull => "ref.null"
  | .const s => s.text ++ ".const"
  | .operation op => op.text
  | .stringLen => "string.len"
  | .stringConcat => "string.concat"
  | .stringEq => "string.eq"
  | .stringNe => "string.ne"
  | .arrayNew => "array.new"
  | .arrayNewDefault => "array.new_default"
  | .arrayLen => "array.len"
  | .arrayGet => "array.get"
  | .arraySet => "array.set"
  | .structNew => "struct.new"
  | .structNewDefault => "struct.new_default"
  | .structGet => "struct.get"
  | .structSet => "struct.set"

def ofMnemonic? (s : String) : Option Opcode := all.find? fun op => op.mnemonic == s

/-! ### Operands -/

/-- Byte widths of the operand fields that every instruction with the opcode has. A branch table has
further fields, as many as its first one says. -/
def widths : Opcode → List Nat
  | .br | .brIf => [4]
  | .brTable => [2]
  | .globalGet | .globalSet | .globalTee | .localGet | .localSet | .localTee | .constGet => [2]
  | .const s => [s.width]
  | .arrayNew => [2, 2]
  | .arrayNewDefault | .structNew | .structNewDefault | .structGet | .structSet => [2]
  | _ => []

/-- Bytes of an instruction, except for a branch table, which is longer by its cases. -/
def width (op : Opcode) : Nat := 1 + op.widths.foldr (· + ·) 0

/-- Whether the opcode ends a basic block. -/
def isTerminator : Opcode → Bool
  | .br | .brIf | .brTable | .ret | .unreachable => true
  | _ => false

/-- Whether control can go on to the next instruction. -/
def fallsThrough : Opcode → Bool
  | .br | .brTable | .ret | .unreachable => false
  | _ => true

end Opcode

end StackVM
