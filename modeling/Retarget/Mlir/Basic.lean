import Retarget.Node.Operator

/-!
# MLIR operations

A program is a tree of operations. An operation may have a result, uses the results of others as operands, has
attributes, and holds further operations in its regions. An operation sees the results of its own region and of
those around it, unless a region is isolated.
-/

namespace Retarget.Mlir

inductive Attr where
  | number (value : Float)
  | string (value : String)
  | boolean (value : Bool)
  | null
  | undefined
  | strings (items : List String)
  | places (items : List Nat)
  deriving Repr, Inhabited

def Attr.truthiness? : Attr → Option Bool
  | number x => some (x != 0.0 && !x.isNaN)
  | string s => some (s != "")
  | boolean b => some b
  | null | undefined => some false
  | _ => none

inductive Opcode where
  | constant | template | reference | thisValue | superValue
  | binary (operator : BinaryOperator)
  | unary (operator : UnaryOperator)
  | logical | update | assign | select
  | call | construct | getIndex | getProperty
  | array | object | property | spread | staticProperty
  | sequence | await
  | function | closure | initializer | method | classBody
  | declare | block | branch | forLoop | forEach | whileLoop | doWhile
  | breakOut | continueLoop | returnValue | throwValue | tryBlock | switchOn | caseOf
  | yield
  deriving DecidableEq, Repr, Inhabited

namespace Opcode

def isPure : Opcode → Bool
  | constant | template | reference | thisValue | superValue | binary _ => true
  | unary operator => operator != .delete
  | _ => false

/-- Operations that give the same result whenever they have the same operands and attributes. -/
def isMergeable : Opcode → Bool
  | constant | thisValue | binary _ => true
  | unary operator => operator != .delete
  | _ => false

def isIsolated : Opcode → Bool
  | function | closure | initializer | method => true
  | _ => false

end Opcode

abbrev Value := Nat

abbrev Attrs := List (String × Attr)

structure Head where
  opcode : Opcode
  result : Option Value := none
  operands : List Value := []
  attrs : Attrs := []
  deriving Repr, Inhabited

namespace Head

def constant (value : Attr) : Head := { opcode := .constant, attrs := [("value", value)] }

def value? (h : Head) : Option Attr :=
  match h.opcode, h.attrs with
  | .constant, (_, value) :: _ => some value
  | _, _ => none

end Head

inductive Op where
  | mk (head : Head) (regions : List (List Op))
  deriving Repr, Inhabited

namespace Op

def head : Op → Head
  | mk head _ => head

def regions : Op → List (List Op)
  | mk _ regions => regions

def withAttrs (op : Op) (attrs : Attrs) : Op :=
  mk { op.head with attrs := op.head.attrs ++ attrs } op.regions

mutual

def size : Op → Nat
  | mk _ regions => 1 + regionsSize regions

def listSize : List Op → Nat
  | [] => 0
  | op :: more => size op + listSize more

def regionsSize : List (List Op) → Nat
  | [] => 0
  | region :: more => listSize region + regionsSize more

end

mutual

def uses : Op → List Value
  | mk head regions => head.operands ++ regionsUses regions

def listUses : List Op → List Value
  | [] => []
  | op :: more => uses op ++ listUses more

def regionsUses : List (List Op) → List Value
  | [] => []
  | region :: more => listUses region ++ regionsUses more

end

end Op

end Retarget.Mlir
