import Retarget.Json.Basic

/-!
# Reading typed values

A reader of a type is a function `Json → Option α`. This module has the readers of the basic types and the
rules for the fields of a record:

* a known field that occurs twice is refused;
* a `required` field has to be there;
* an `optional` field may be missing or `null`;
* a `defaulted` field may be missing, but not `null`.

Unknown fields are ignored. A record may also be given as the list of its fields in order (`record?`).
-/

namespace Retarget.Json

abbrev Fields := List (String × Json)

inductive Found where
  | absent
  | once (value : Json)
  | repeated

def find (name : String) (fields : Fields) : Found :=
  match fields.filter (·.1 == name) with
  | [] => .absent
  | [field] => .once field.2
  | _ => .repeated

def required (read : Json → Option α) (name : String) (fields : Fields) : Option α :=
  match find name fields with
  | .once value => read value
  | _ => none

/-- A field that may be missing or `null`. -/
def optional (read : Json → Option α) (name : String) (fields : Fields) : Option (Option α) :=
  match find name fields with
  | .absent => some none
  | .once .null => some none
  | .once value => (read value).map some
  | .repeated => none

def defaulted (default : α) (read : Json → Option α) (name : String) (fields : Fields) : Option α :=
  match find name fields with
  | .absent => some default
  | .once value => read value
  | .repeated => none

def object? : Json → Option Fields
  | .obj fields => some fields
  | _ => none

/-- The fields of a record, given as an object or as the list of the fields `names`, of which those from
`least` on may be left off. -/
def record? (names : List String) (least : Nat) : Json → Option Fields
  | .obj fields => some fields
  | .arr items =>
    if least ≤ items.length && items.length ≤ names.length then some (names.zip items) else none
  | _ => none

def string? : Json → Option String := asString?

def bool? : Json → Option Bool
  | .bool b => some b
  | _ => none

/-- An integer of at least zero and below `bound`. -/
def natBelow? (bound : Nat) : Json → Option Nat
  | .num n => n.below? bound
  | _ => none

def nat8? : Json → Option Nat := natBelow? 0x100

def nat16? : Json → Option Nat := natBelow? 0x10000

def nat32? : Json → Option Nat := natBelow? 0x100000000

def nat64? : Json → Option Nat := natBelow? 0x10000000000000000

def float? : Json → Option Float
  | .num n => some n.toFloat
  | _ => none

def list? (read : Json → Option α) : Json → Option (List α)
  | .arr items => items.mapM read
  | _ => none

/-- A value or `null`. -/
def nullable? (read : Json → Option α) : Json → Option (Option α)
  | .null => some none
  | value => (read value).map some

/-- A word out of a fixed vocabulary: a string, or an object with that one name and nothing under it. What
counts as nothing is `null` and, where `nested`, an empty object. -/
def keyword? (nested : Bool) (read : String → Option α) : Json → Option α
  | .str s => read s
  | .obj [(s, .null)] => read s
  | .obj [(s, .obj [])] => if nested then read s else none
  | _ => none

/-- The tag of a value that can be of several shapes: the name of a shape or, where `indexed`, its place in
the list of shapes. -/
def tag? (indexed : Bool) (shapes : List String) : Json → Option String
  | .str s => if shapes.contains s then some s else none
  | .num (.int (.ofNat n)) => if indexed then shapes[n]? else none
  | _ => none

end Retarget.Json
