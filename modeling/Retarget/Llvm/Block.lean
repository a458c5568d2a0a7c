import Retarget.Llvm.Basic
import Retarget.Numeric.Plan

/-!
# Writing blocks

The lines of a function are written from the top. Instructions after a terminator open a block that nothing
leads to, and a terminator after a terminator is left out, so each block ends in exactly one.
-/

namespace Retarget.Llvm

structure Draft where
  lines : Array Line := #[]
  nextValue : Nat := 0
  nextLabel : Nat := 0
  block : Label := .entry
  terminated : Bool := false
  deriving Repr, Inhabited

namespace Draft

def push (d : Draft) (line : Line) : Draft := { d with lines := d.lines.push line }

def start (d : Draft) (label : Label) : Draft :=
  { d.push (.label label) with block := label, terminated := false }

def opened (d : Draft) : Draft :=
  if d.terminated then { d with nextLabel := d.nextLabel + 1 }.start (.dead d.nextLabel) else d

def instruction (d : Draft) (instr : Instr) : Draft := d.opened.push (.instr instr)

def define (d : Draft) (computation : Computation) : Draft :=
  let d := d.opened
  { d.push (.instr (.define d.nextValue computation)) with nextValue := d.nextValue + 1 }

def terminate (d : Draft) (terminator : Terminator) : Draft :=
  if d.terminated then d else { d.push (.terminator terminator) with terminated := true }

end Draft

abbrev Gen := ReaderT NumericScope (StateT Draft (Except BackendError))

namespace Gen

def node (id : NodeId) : Gen Node := do
  liftM ((← read).module.find .llvm id)

def unsupported (node : Node) (reason : String) : Gen α := throw (node.unsupported .llvm reason)

def label (construct : Construct) (part : Part) : Gen Label := do
  let number := (← get).nextLabel
  modify fun d => { d with nextLabel := number + 1 }
  return .part construct part number

def startBlock (label : Label) : Gen Unit := modify (·.start label)

def instruction (instr : Instr) : Gen Unit := modify (·.instruction instr)

def terminator (terminator : Terminator) : Gen Unit := modify (·.terminate terminator)

def jump (target : Label) : Gen Unit := terminator (.jump target)

def define (computation : Computation) : Gen Nat := do
  modify (·.define computation)
  return (← get).nextValue - 1

def value (computation : Computation) : Gen Operand := return .value (← define computation)

end Gen

end Retarget.Llvm
