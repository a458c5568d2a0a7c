import Retarget.Json.Print
import Retarget.Mlir.Basic
import Retarget.Module.Version
import Retarget.Target.Error
import Std.Data.ExtTreeMap

/-!
# The text of MLIR operations

Results are numbered in the order of their definitions; an isolated region starts anew.
-/

namespace Retarget.Mlir

def numberText (x : Float) : String :=
  if x.isNaN then "0x7FF8000000000000"
  else if x.isInf then (if x > 0 then "0x7FF0000000000000" else "0xFFF0000000000000")
  else
    match wholeNumber? x with
    | some n => writeTenths x n
    | none => FloatLayout.source.write x

def escape : Char → String
  | '"' => "\\\""
  | '\\' => "\\\\"
  | '\n' => "\\n"
  | c => if c.toNat < 32 then "\\" ++ (hexPair c.toNat).toUpper else String.singleton c

def quote (s : String) : String := "\"" ++ String.join (s.toList.map escape) ++ "\""

def Attr.text : Attr → String
  | number x => numberText x
  | string s => quote s
  | boolean b => if b then "true" else "false"
  | null => "null"
  | undefined => "undefined"
  | strings items => "[" ++ commaSeparated (items.map quote) ++ "]"
  | places items => "[" ++ commaSeparated (items.map toString) ++ "]"

def binaryName : BinaryOperator → String
  | .add => "add"
  | .sub => "sub"
  | .mul => "mul"
  | .div => "div"
  | .rem => "rem"
  | .exp => "pow"
  | .eq => "eq"
  | .notEq => "ne"
  | .strictEq => "strict_eq"
  | .strictNotEq => "strict_ne"
  | .lt => "lt"
  | .ltEq => "le"
  | .gt => "gt"
  | .gtEq => "ge"
  | .bitAnd => "bit_and"
  | .bitOr => "bit_or"
  | .bitXor => "bit_xor"
  | .shl => "shl"
  | .shr => "shr"
  | .ushr => "ushr"
  | .isIn => "in"
  | .instanceOf => "instanceof"

def unaryName : UnaryOperator → String
  | .neg => "neg"
  | .plus => "plus"
  | .not => "not"
  | .bitNot => "bit_not"
  | .typeOf => "typeof"
  | .void => "void"
  | .delete => "delete"

def Opcode.name : Opcode → String
  | constant => "constant"
  | template => "template"
  | reference => "ref"
  | thisValue => "this"
  | superValue => "super"
  | binary operator => binaryName operator
  | unary operator => unaryName operator
  | logical => "logical"
  | update => "update"
  | assign => "assign"
  | select => "select"
  | call => "call"
  | construct => "new"
  | getIndex => "get_index"
  | getProperty => "get_property"
  | array => "array"
  | object => "object"
  | property => "property"
  | spread => "spread"
  | staticProperty => "static_property"
  | sequence => "sequence"
  | await => "await"
  | function => "func"
  | closure => "closure"
  | initializer => "constructor"
  | method => "method"
  | classBody => "class"
  | declare => "declare"
  | block => "block"
  | branch => "if"
  | forLoop => "for"
  | forEach => "for_each"
  | whileLoop => "while"
  | doWhile => "do_while"
  | breakOut => "break"
  | continueLoop => "continue"
  | returnValue => "return"
  | throwValue => "throw"
  | tryBlock => "try"
  | switchOn => "switch"
  | caseOf => "case"
  | yield => "yield"

structure Numbering where
  names : Std.ExtTreeMap Value Nat := ∅
  next : Nat := 0

namespace Numbering

def define (n : Numbering) (v : Value) : Numbering := ⟨n.names.insert v n.next, n.next + 1⟩

def operand (n : Numbering) (v : Value) : String :=
  match n.names[v]? with
  | some number => "%" ++ toString number
  | none => "%v" ++ toString v

end Numbering

def Head.details (h : Head) (n : Numbering) : String :=
  match h.value? with
  | some value => " " ++ value.text
  | none =>
    let operands := commaSeparated (h.operands.map n.operand)
    let attrs := commaSeparated (h.attrs.map fun (key, value) => key ++ " = " ++ value.text)
    (if h.operands.isEmpty then "" else " " ++ operands) ++
      (if h.attrs.isEmpty then "" else " \x7b" ++ attrs ++ "\x7d")

def pad (depth : Nat) : String := copies (2 * depth) ' '

mutual

def Op.print (depth : Nat) (n : Numbering) : Op → String × Numbering
  | .mk head regions =>
    let (start, n) := match head.result with
      | some v => ("%" ++ toString n.next ++ " = ", n.define v)
      | none => ("", n)
    let first := pad depth ++ start ++ "luascript." ++ head.opcode.name ++ head.details n
    let (inside, n) := Op.printRegions depth head.opcode.isIsolated n regions
    let type := if head.result.isSome then " : !luascript.value" else ""
    (first ++ inside ++ type ++ "\n", n)

def Op.printList (depth : Nat) (n : Numbering) : List Op → String × Numbering
  | [] => ("", n)
  | op :: more =>
    let (first, n) := Op.print depth n op
    let (rest, n) := Op.printList depth n more
    (first ++ rest, n)

def Op.printRegions (depth : Nat) (isolated : Bool) (n : Numbering) : List (List Op) → String × Numbering
  | [] => ("", n)
  | region :: more =>
    let (inside, after) := Op.printList (depth + 1) (if isolated then { n with next := 0 } else n) region
    let (rest, n) := Op.printRegions depth isolated (if isolated then n else after) more
    (" \x7b\n" ++ inside ++ pad depth ++ "\x7d" ++ rest, n)

end

def programText (canonical : Bool) (ops : List Op) : String :=
  "// Generated by luascript\n" ++ (if canonical then "// passes: canonicalize, cse\n" else "") ++
    "module attributes \x7bluascript.schema = \"" ++ schemaVersion ++ "\"\x7d \x7b\n" ++
    (Op.printList 1 {} ops).1 ++ "\x7d\n"

end Retarget.Mlir
