import Retarget.Json.Token

/-!
# Reading JSON text

`Json.parse?` reads a text as one JSON value: a machine reads one token at a time and keeps the arrays and
objects that are still open on a stack. At most `Json.maxNesting` of them may be open at once.
-/

namespace Retarget.Json

def maxNesting : Nat := 127

namespace Parser

/-- An open array or object; what it holds so far is kept in reverse. -/
inductive Frame where
  | array (items : List Json)
  | object (fields : List (String × Json)) (name : String)

inductive Mode where
  | value
  | firstItem
  | firstName
  | name (fields : List (String × Json))
  | colon (fields : List (String × Json)) (name : String)
  | done (value : Json)

structure State where
  mode : Mode := .value
  stack : List Frame := []

def enter (mode : Mode) (stack : List Frame) : Option State :=
  if stack.length ≤ maxNesting then some ⟨mode, stack⟩ else none

def startValue (stack : List Frame) : Token → Option State
  | .str s => some ⟨.done (.str s), stack⟩
  | .atom value => some ⟨.done value, stack⟩
  | .openArray => enter .firstItem (.array [] :: stack)
  | .openObject => enter .firstName (.object [] "" :: stack)
  | _ => none

def afterValue (value : Json) : List Frame → Token → Option State
  | .array items :: stack, .comma => some ⟨.value, .array (value :: items) :: stack⟩
  | .array items :: stack, .closeArray => some ⟨.done (.arr (value :: items).reverse), stack⟩
  | .object fields name :: stack, .comma =>
    let fields := (name, value) :: fields
    some ⟨.name fields, .object fields "" :: stack⟩
  | .object fields name :: stack, .closeObject =>
    some ⟨.done (.obj ((name, value) :: fields).reverse), stack⟩
  | _, _ => none

def step (s : State) (t : Token) : Option State :=
  match s.mode, t with
  | .value, t => startValue s.stack t
  | .firstItem, .closeArray => some ⟨.done (.arr []), s.stack.tail⟩
  | .firstItem, t => startValue s.stack t
  | .firstName, .closeObject => some ⟨.done (.obj []), s.stack.tail⟩
  | .firstName, .str name => some ⟨.colon [] name, s.stack⟩
  | .name fields, .str name => some ⟨.colon fields name, s.stack⟩
  | .colon fields name, .colon => some ⟨.value, .object fields name :: s.stack.tail⟩
  | .done value, t => afterValue value s.stack t
  | _, _ => none

def State.value? (s : State) : Option Json :=
  match s.mode, s.stack with
  | .done value, [] => some value
  | _, _ => none

end Parser

def parse? (text : String) : Option Json := do
  let tokens ← tokens? text
  (← tokens.foldlM Parser.step {}).value?

def parseValue? (text : String) : Option Json := (parse? text).map normalize

end Retarget.Json
