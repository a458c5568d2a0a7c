/-!
# JSON values

A `Json` value keeps the fields of an object in the order in which they were written, repeated names
included. `Json.normalize` gives the value the document stands for when order carries no meaning: fields
sorted by name, the last of several fields of one name kept.
-/

namespace Retarget

/-- A number of a document: written as an integer, or in any other way. -/
inductive Number where
  | int (n : Int)
  | float (x : Float)
  deriving DecidableEq, Repr, Inhabited

namespace Number

def toFloat : Number → Float
  | .int n => if n < 0 then -(Float.ofNat n.natAbs) else Float.ofNat n.natAbs
  | .float x => x

/-- The number as a natural number below `bound`; a float is none, whole or not. -/
def below? (bound : Nat) : Number → Option Nat
  | .int (.ofNat n) => if n < bound then some n else none
  | _ => none

end Number

inductive Json where
  | null
  | bool (b : Bool)
  | num (n : Number)
  | str (s : String)
  | arr (items : List Json)
  | obj (fields : List (String × Json))
  deriving Repr, Inhabited

namespace Json

mutual

def decEq : (a b : Json) → Decidable (a = b)
  | .null, .null => isTrue rfl
  | .bool a, .bool b => decidable_of_iff (a = b) (by simp)
  | .num a, .num b => decidable_of_iff (a = b) (by simp)
  | .str a, .str b => decidable_of_iff (a = b) (by simp)
  | .arr a, .arr b => have := decEqList a b; decidable_of_iff (a = b) (by simp)
  | .obj a, .obj b => have := decEqFields a b; decidable_of_iff (a = b) (by simp)
  | .null, .bool _ | .null, .num _ | .null, .str _ | .null, .arr _ | .null, .obj _
  | .bool _, .null | .bool _, .num _ | .bool _, .str _ | .bool _, .arr _ | .bool _, .obj _
  | .num _, .null | .num _, .bool _ | .num _, .str _ | .num _, .arr _ | .num _, .obj _
  | .str _, .null | .str _, .bool _ | .str _, .num _ | .str _, .arr _ | .str _, .obj _
  | .arr _, .null | .arr _, .bool _ | .arr _, .num _ | .arr _, .str _ | .arr _, .obj _
  | .obj _, .null | .obj _, .bool _ | .obj _, .num _ | .obj _, .str _ | .obj _, .arr _ =>
    isFalse (by simp)

def decEqList : (a b : List Json) → Decidable (a = b)
  | [], [] => isTrue rfl
  | [], _ :: _ | _ :: _, [] => isFalse (by simp)
  | a :: as, b :: bs =>
    have := decEq a b
    have := decEqList as bs
    decidable_of_iff (a = b ∧ as = bs) (by simp)

def decEqFields : (a b : List (String × Json)) → Decidable (a = b)
  | [], [] => isTrue rfl
  | [], _ :: _ | _ :: _, [] => isFalse (by simp)
  | (m, a) :: as, (n, b) :: bs =>
    have := decEq a b
    have := decEqFields as bs
    decidable_of_iff ((m = n ∧ a = b) ∧ as = bs) (by simp)

end

instance : DecidableEq Json := decEq

def ofInt (n : Int) : Json := .num (.int n)

def ofNat (n : Nat) : Json := .num (.int n)

/-- A double, always written with a point or an exponent; one that is not finite is `null`. -/
def ofFloat (x : Float) : Json := if x.isFinite then .num (.float x) else .null

/-- A value or `null`. -/
def ofOption (write : α → Json) : Option α → Json
  | none => .null
  | some a => write a

def ofList (write : α → Json) (items : List α) : Json := .arr (items.map write)

def optionalField (name : String) (write : α → Json) : Option α → List (String × Json)
  | none => []
  | some a => [(name, write a)]

def lookup? (name : String) (fields : List (String × Json)) : Option Json :=
  (fields.find? (·.1 == name)).map (·.2)

def get? (name : String) : Json → Option Json
  | .obj fields => lookup? name fields
  | _ => none

def asString? : Json → Option String
  | .str s => some s
  | _ => none

def asList? : Json → Option (List Json)
  | .arr items => some items
  | _ => none

/-- Whether the value is `true` itself. -/
def isTrue : Json → Bool
  | .bool b => b
  | _ => false

def kindName : Json → String
  | .null => "null"
  | .bool _ => "a boolean"
  | .num _ => "a number"
  | .str _ => "a string"
  | .arr _ => "an array"
  | .obj _ => "an object"

mutual

def depth : Json → Nat
  | .arr items => 1 + depthList items
  | .obj fields => 1 + depthFields fields
  | _ => 1

def depthList : List Json → Nat
  | [] => 0
  | item :: rest => max item.depth (depthList rest)

def depthFields : List (String × Json) → Nat
  | [] => 0
  | (_, value) :: rest => max value.depth (depthFields rest)

end

def lastOfEach : List (String × α) → List (String × α)
  | [] => []
  | [field] => [field]
  | first :: second :: rest =>
    if first.1 == second.1 then lastOfEach (second :: rest)
    else first :: lastOfEach (second :: rest)

def sortFields (fields : List (String × α)) : List (String × α) :=
  lastOfEach (fields.mergeSort fun a b => a.1 ≤ b.1)

mutual

/-- The value with the fields of every object sorted by name, the last of each name kept. -/
def normalize : Json → Json
  | .arr items => .arr (normalizeList items)
  | .obj fields => .obj (sortFields (normalizeFields fields))
  | value => value

/-- `normalize` on every element. -/
def normalizeList : List Json → List Json
  | [] => []
  | item :: rest => item.normalize :: normalizeList rest

/-- `normalize` on every member. -/
def normalizeFields : List (String × Json) → List (String × Json)
  | [] => []
  | (name, value) :: rest => (name, value.normalize) :: normalizeFields rest

end

end Json

end Retarget
