import Retarget.Wasm.Basic

/-!
# The binary format of WebAssembly

A module is a row of sections, each with its number and its size in front.
-/

namespace Retarget.Wasm

abbrev Bytes := List UInt8

def leb (n : Nat) : Bytes :=
  if n < 128 then [UInt8.ofNat n] else UInt8.ofNat (n % 128 + 128) :: leb (n / 128)
termination_by n
decreasing_by omega

/-- The lowest `count` bytes of a number, the lowest first. -/
def littleEndian : (count : Nat) → Nat → Bytes
  | 0, _ => []
  | count + 1, n => UInt8.ofNat (n % 256) :: littleEndian count (n / 256)

def floatBytes (x : Float) : Bytes := littleEndian 8 x.toBits.toNat

def vector (items : List Bytes) : Bytes := leb items.length ++ items.flatten

def sized (bytes : Bytes) : Bytes := leb bytes.length ++ bytes

def floatType : UInt8 := 0x7c

def emptyType : UInt8 := 0x40

def FloatOp.opcode : FloatOp → UInt8
  | eq => 0x61
  | ne => 0x62
  | lt => 0x63
  | gt => 0x64
  | le => 0x65
  | ge => 0x66
  | abs => 0x99
  | neg => 0x9a
  | ceil => 0x9b
  | floor => 0x9c
  | trunc => 0x9d
  | sqrt => 0x9f
  | add => 0xa0
  | sub => 0xa1
  | mul => 0xa2
  | div => 0xa3
  | min => 0xa4
  | max => 0xa5

def endByte : UInt8 := 0x0b

mutual

def Instr.bytes : Instr → Bytes
  | .const value => 0x44 :: floatBytes value
  | .localGet index => 0x20 :: leb index
  | .localSet index => 0x21 :: leb index
  | .localTee index => 0x22 :: leb index
  | .globalGet index => 0x23 :: leb index
  | .globalSet index => 0x24 :: leb index
  | .float op => [op.opcode]
  | .isZero => [0x45]
  | .both => [0x71]
  | .toFloat => [0xb8]
  | .drop => [0x1a]
  | .call function => 0x10 :: leb function
  | .ret => [0x0f]
  | .br depth => 0x0c :: leb depth
  | .brIf depth => 0x0d :: leb depth
  | .block body => 0x02 :: emptyType :: Instr.listBytes body ++ [endByte]
  | .loop body => 0x03 :: emptyType :: Instr.listBytes body ++ [endByte]
  | .ifThen body => 0x04 :: emptyType :: Instr.listBytes body ++ [endByte]
  | .ifElse valued consequent alternate =>
    0x04 :: (if valued then floatType else emptyType) :: Instr.listBytes consequent ++
      0x05 :: Instr.listBytes alternate ++ [endByte]

def Instr.listBytes : List Instr → Bytes
  | [] => []
  | instr :: more => instr.bytes ++ Instr.listBytes more

end

def Signature.bytes (s : Signature) : Bytes :=
  0x60 :: vector (List.replicate s.params [floatType]) ++
    vector (if s.returns then [[floatType]] else [])

def Body.bytes (b : Body) : Bytes :=
  sized (vector [leb b.locals ++ [floatType]] ++ Instr.listBytes b.code ++ [endByte])

def globalBytes : Bytes := [floatType, 0x01] ++ (Instr.const (0.0 / 0.0)).bytes ++ [endByte]

def exportBytes (name : String) (function : Nat) : Bytes :=
  sized name.toUTF8.toList ++ 0x00 :: leb function

def numbered (number : UInt8) (content : Bytes) : Bytes := number :: sized content

def Binary.bytes (b : Binary) : Bytes :=
  [0x00, 0x61, 0x73, 0x6d, 0x01, 0x00, 0x00, 0x00] ++
    numbered 1 (vector (b.signatures.map (·.bytes))) ++
    numbered 3 (vector (b.functions.map leb)) ++
    (if b.globals = 0 then [] else numbered 6 (vector (List.replicate b.globals globalBytes))) ++
    numbered 7 (vector (b.exports.map fun (name, function) => exportBytes name function)) ++
    (match b.start with
    | some function => numbered 8 (leb function)
    | none => []) ++
    numbered 10 (vector (b.bodies.map (·.bytes)))

end Retarget.Wasm
