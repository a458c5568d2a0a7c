import Retarget.Json.Read

/-!
# Type descriptors

A `TypeDescriptor` is an optional static annotation of a node. Descriptors are compared by structure.
-/

namespace Retarget

/-- A static type. The properties of an object are sorted by name. -/
inductive TypeDescriptor where
  /-- One of `number`, `string`, `boolean`, `null`, `undefined`, `any`, or another name. -/
  | primitive (name : String)
  | array (element : TypeDescriptor)
  | object (properties : List (String × TypeDescriptor))
  | function (params : List TypeDescriptor) (returns : TypeDescriptor)
  | union (members : List TypeDescriptor)
  deriving Repr, Inhabited

namespace TypeDescriptor

mutual

def decEq : (a b : TypeDescriptor) → Decidable (a = b)
  | .primitive a, .primitive b => decidable_of_iff (a = b) (by simp)
  | .array a, .array b => have := decEq a b; decidable_of_iff (a = b) (by simp)
  | .object a, .object b => have := decEqFields a b; decidable_of_iff (a = b) (by simp)
  | .function as a, .function bs b =>
    have := decEqList as bs
    have := decEq a b
    decidable_of_iff (as = bs ∧ a = b) (by simp)
  | .union a, .union b => have := decEqList a b; decidable_of_iff (a = b) (by simp)
  | .primitive _, .array _ | .primitive _, .object _ | .primitive _, .function .. | .primitive _, .union _
  | .array _, .primitive _ | .array _, .object _ | .array _, .function .. | .array _, .union _
  | .object _, .primitive _ | .object _, .array _ | .object _, .function .. | .object _, .union _
  | .function .., .primitive _ | .function .., .array _ | .function .., .object _ | .function .., .union _
  | .union _, .primitive _ | .union _, .array _ | .union _, .object _ | .union _, .function .. =>
    isFalse (by simp)

def decEqList : (a b : List TypeDescriptor) → Decidable (a = b)
  | [], [] => isTrue rfl
  | [], _ :: _ | _ :: _, [] => isFalse (by simp)
  | a :: as, b :: bs =>
    have := decEq a b
    have := decEqList as bs
    decidable_of_iff (a = b ∧ as = bs) (by simp)

def decEqFields : (a b : List (String × TypeDescriptor)) → Decidable (a = b)
  | [], [] => isTrue rfl
  | [], _ :: _ | _ :: _, [] => isFalse (by simp)
  | (m, a) :: as, (n, b) :: bs =>
    have := decEq a b
    have := decEqFields as bs
    decidable_of_iff ((m = n ∧ a = b) ∧ as = bs) (by simp)

end

instance : DecidableEq TypeDescriptor := decEq

def number : TypeDescriptor := .primitive "number"

def string : TypeDescriptor := .primitive "string"

def boolean : TypeDescriptor := .primitive "boolean"

def any : TypeDescriptor := .primitive "any"

def isString : TypeDescriptor → Bool
  | .primitive name => name == "string"
  | _ => false

def isNumber : TypeDescriptor → Bool
  | .primitive name => name == "number"
  | _ => false

def members : TypeDescriptor → List TypeDescriptor
  | .union members => members
  | type => [type]

def distinct (types : List TypeDescriptor) : List TypeDescriptor :=
  types.foldl (fun kept type => if type ∈ kept then kept else kept ++ [type]) []

/-- The union of types: members of unions count singly, repeated ones once, a single one stands for
itself, and none at all is `any`. -/
def unionOf (types : List TypeDescriptor) : TypeDescriptor :=
  match distinct (types.flatMap members) with
  | [] => any
  | [type] => type
  | several => .union several

mutual

def text : TypeDescriptor → String
  | .primitive name => name
  | .array element => element.text ++ "[]"
  | .object [] => "\x7b\x7d"
  | .object properties => "\x7b " ++ ", ".intercalate (textFields properties) ++ " \x7d"
  | .function params returns => "(" ++ ", ".intercalate (textList params) ++ ") => " ++ returns.text
  | .union members => " | ".intercalate (textList members)

/-- `text` on every type. -/
def textList : List TypeDescriptor → List String
  | [] => []
  | type :: rest => type.text :: textList rest

def textFields : List (String × TypeDescriptor) → List String
  | [] => []
  | (name, type) :: rest => (name ++ ": " ++ type.text) :: textFields rest

end

mutual

def toJson : TypeDescriptor → Json
  | .primitive name => .obj [("kind", .str "primitive"), ("name", .str name)]
  | .array element => .obj [("kind", .str "array"), ("element", element.toJson)]
  | .object properties => .obj [("kind", .str "object"), ("properties", .obj (toJsonFields properties))]
  | .function params returns =>
    .obj [("kind", .str "function"), ("params", .arr (toJsonList params)), ("returns", returns.toJson)]
  | .union members => .obj [("kind", .str "union"), ("members", .arr (toJsonList members))]

/-- `toJson` on every type. -/
def toJsonList : List TypeDescriptor → List Json
  | [] => []
  | type :: rest => type.toJson :: toJsonList rest

/-- `toJson` on every property. -/
def toJsonFields : List (String × TypeDescriptor) → List (String × Json)
  | [] => []
  | (name, type) :: rest => (name, type.toJson) :: toJsonFields rest

end

def shapes : List String := ["primitive", "array", "object", "function", "union"]

/-- The shape of a type and the rest of the document: an object with its shape under `kind`, or a list that
starts with the shape. -/
def shape? (indexed : Bool) : Json → Option (String × Json)
  | .obj fields => do return (← Json.required (Json.tag? indexed shapes) "kind" fields, .obj fields)
  | .arr (tag :: rest) => do return (← Json.tag? indexed shapes tag, .arr rest)
  | _ => none

/-- Reads a type of at most `fuel` levels; a type inside another one may give its shape by number. -/
def read? : (fuel : Nat) → (indexed : Bool) → Json → Option TypeDescriptor
  | 0, _, _ => none
  | fuel + 1, indexed, value => do
    let (shape, content) ← shape? indexed value
    let read := read? fuel true
    match shape with
    | "primitive" =>
      let fields ← content.record? ["name"] 1
      return .primitive (← Json.required Json.string? "name" fields)
    | "array" =>
      let fields ← content.record? ["element"] 1
      return .array (← Json.required read "element" fields)
    | "object" =>
      let fields ← content.record? ["properties"] 1
      let properties ← Json.required Json.object? "properties" fields
      let properties ← properties.mapM fun (name, value) => do return (name, ← read value)
      return .object (Json.sortFields properties)
    | "function" =>
      let fields ← content.record? ["params", "returns"] 2
      let params ← Json.required (Json.list? read) "params" fields
      return .function params (← Json.required read "returns" fields)
    | _ =>
      let fields ← content.record? ["members"] 1
      return .union (← Json.required (Json.list? read) "members" fields)

def ofJson? (value : Json) : Option TypeDescriptor := read? value.depth false value

end TypeDescriptor

end Retarget
