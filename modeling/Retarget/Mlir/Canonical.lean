import Retarget.Mlir.Print
import Std.Data.ExtTreeSet

/-!
# Canonical forms of MLIR

Three passes over a program, in this order:

* `Op.foldList` evaluates operations on constants;
* `Op.mergeList` lets an operation stand for those that follow it and compute the same;
* `removeDead` drops operations without effects whose results nobody uses.
-/

namespace Retarget.Mlir

/-! ## Folding -/

abbrev Constants := Std.ExtTreeMap Value Attr

def finite? (x : Float) : Option Attr := if x.isFinite then some (.number x) else none

def evaluateNumbers? (operator : BinaryOperator) (a b : Float) : Option Attr :=
  match operator with
  | .add => finite? (a + b)
  | .sub => finite? (a - b)
  | .mul => finite? (a * b)
  | .div => finite? (a / b)
  | .rem => finite? (remainder a b)
  | .exp => finite? (a ^ b)
  | .eq | .strictEq => some (.boolean (a == b))
  | .notEq | .strictNotEq => some (.boolean (a != b))
  | .lt => some (.boolean (a < b))
  | .ltEq => some (.boolean (a ≤ b))
  | .gt => some (.boolean (a > b))
  | .gtEq => some (.boolean (a ≥ b))
  | _ => none

def evaluate? (opcode : Opcode) (args : List Attr) : Option Attr :=
  match opcode, args with
  | .binary .add, [.string a, .string b] => some (.string (a ++ b))
  | .binary operator, [.number a, .number b] => evaluateNumbers? operator a b
  | .unary .neg, [.number a] => finite? (-a)
  | .unary .plus, [.number a] => finite? a
  | .unary .not, [a] => a.truthiness?.map fun b => .boolean !b
  | _, _ => none

def Head.fold (known : Constants) (h : Head) : Head :=
  match (h.operands.mapM (known[·]?)).bind (evaluate? h.opcode) with
  | some value => { Head.constant value with result := h.result }
  | none => h

def Head.learn (known : Constants) (h : Head) : Constants :=
  match h.result, h.value? with
  | some result, some value => known.insert result value
  | _, _ => known

mutual

def Op.fold (known : Constants) : Op → Op × Constants
  | .mk head regions =>
    let head := if regions.isEmpty then head.fold known else head
    let (regions, known) := Op.foldRegions (head.learn known) regions
    (.mk head regions, known)

def Op.foldList (known : Constants) : List Op → List Op × Constants
  | [] => ([], known)
  | op :: more =>
    let (op, known) := Op.fold known op
    let (more, known) := Op.foldList known more
    (op :: more, known)

def Op.foldRegions (known : Constants) : List (List Op) → List (List Op) × Constants
  | [] => ([], known)
  | region :: more =>
    let (region, known) := Op.foldList known region
    let (more, known) := Op.foldRegions known more
    (region :: more, known)

end

/-! ## Merging -/

/-- An operand as it stands in a key. -/
def operandKey (v : Value) : String := "Value(" ++ toString v ++ ")"

/-- The text that tells apart operations that could be merged: the name, the operands and the attributes. -/
def Head.key (h : Head) : String :=
  h.opcode.name ++ "[" ++ commaSeparated (h.operands.map operandKey) ++ "]" ++
    String.intercalate "," (h.attrs.map fun (key, value) => key ++ "=" ++ value.text)

abbrev Available := Std.ExtTreeMap String Value

abbrev Replaced := Std.ExtTreeMap Value Value

def Head.replace (replaced : Replaced) (h : Head) : Head :=
  { h with operands := h.operands.map fun v => replaced.getD v v }

/-- The result that an operation without regions could have in common with others. -/
def Head.mergeable? (h : Head) : Option Value := if h.opcode.isMergeable then h.result else none

mutual

/-- Merges the operations of a region into those before them. A region sees the operations of the regions
around it, and what it adds is not seen outside. -/
def Op.mergeList (available : Available) (replaced : Replaced) : List Op → List Op × Replaced
  | [] => ([], replaced)
  | .mk head [] :: more =>
    let head := head.replace replaced
    match head.mergeable? with
    | none =>
      let (more, replaced) := Op.mergeList available replaced more
      (.mk head [] :: more, replaced)
    | some result =>
      match available[head.key]? with
      | some earlier => Op.mergeList available (replaced.insert result earlier) more
      | none =>
        let (more, replaced) := Op.mergeList (available.insert head.key result) replaced more
        (.mk head [] :: more, replaced)
  | .mk head (region :: regions) :: more =>
    let head := head.replace replaced
    let inside := if head.opcode.isIsolated then ∅ else available
    let (region, replaced) := Op.mergeList inside replaced region
    let (regions, replaced) := Op.mergeRegions inside replaced regions
    let (more, replaced) := Op.mergeList available replaced more
    (.mk head (region :: regions) :: more, replaced)

def Op.mergeRegions (available : Available) (replaced : Replaced) : List (List Op) → List (List Op) × Replaced
  | [] => ([], replaced)
  | region :: more =>
    let (region, replaced) := Op.mergeList available replaced region
    let (more, replaced) := Op.mergeRegions available replaced more
    (region :: more, replaced)

end

/-! ## Removing -/

def Op.isDead (used : Std.ExtTreeSet Value) : Op → Bool
  | .mk head regions =>
    head.opcode.isPure && regions.isEmpty && head.result.elim false (!used.contains ·)

mutual

def Op.sweep (used : Std.ExtTreeSet Value) : Op → Op
  | .mk head regions => .mk head (Op.sweepRegions used regions)

def Op.sweepList (used : Std.ExtTreeSet Value) : List Op → List Op
  | [] => []
  | op :: more =>
    if op.isDead used then Op.sweepList used more else Op.sweep used op :: Op.sweepList used more

def Op.sweepRegions (used : Std.ExtTreeSet Value) : List (List Op) → List (List Op)
  | [] => []
  | region :: more => Op.sweepList used region :: Op.sweepRegions used more

end

def removeDead (ops : List Op) : List Op :=
  let swept := Op.sweepList (.ofList (Op.listUses ops)) ops
  if Op.listSize swept < Op.listSize ops then removeDead swept else ops
termination_by Op.listSize ops

def canonical (ops : List Op) : List Op :=
  let folded := (Op.foldList ∅ ops).1
  let merged := (Op.mergeList ∅ ∅ folded).1
  removeDead merged

end Retarget.Mlir
