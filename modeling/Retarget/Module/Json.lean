import Retarget.Json.Parse
import Retarget.Module.Basic
import Retarget.Module.Version

/-!
# Modules as documents

`Module.toJson` writes a module, `Module.ofJson` reads one. A table by ids is an object whose names are the
ids in decimal, written in ascending order.
-/

namespace Retarget

namespace Json

/-- The id that a name of a table stands for: decimal digits of a 32-bit number, without leading zeros. -/
def idName? (name : String) : Option NodeId :=
  let digits := name.toList
  let value := digitsValue digits
  if !digits.isEmpty && digits.all Char.isDigit && (digits.length == 1 || digits.head? != some '0') &&
      value < 0x100000000 then
    some value
  else none

def ofIdMap (write : α → Json) (map : IdMap α) : Json :=
  .obj (map.toList.map fun (id, a) => (toString id, write a))

def idMap? (read : Json → Option α) : Json → Option (IdMap α)
  | .obj fields => do
    let entries ← fields.mapM fun (name, value) => do return (← idName? name, ← read value)
    return Std.ExtTreeMap.ofList entries
  | _ => none

end Json

namespace Metadata

def toJson (m : Metadata) : Json :=
  .obj <| [("cfg", .ofIdMap Flow.Graph.toJson m.cfg)] ++ Json.optionalField "source" .str m.source ++
    if m.directives.isEmpty then [] else [("directives", .ofList .str m.directives)]

def ofJson? (value : Json) : Option Metadata := do
  let fields ← value.record? ["cfg", "source", "directives"] 0
  return {
    cfg := ← Json.defaulted ∅ (Json.idMap? Flow.Graph.ofJson?) "cfg" fields
    source := ← Json.optional Json.string? "source" fields
    directives := ← Json.defaulted [] (Json.list? Json.string?) "directives" fields }

end Metadata

inductive DocumentError where
  | unreadable
  | incompatible (found : String)
  deriving DecidableEq, Repr

def DocumentError.message : DocumentError → String
  | .unreadable => "invalid IR JSON"
  | .incompatible found =>
    "unsupported schemaVersion `" ++ found ++ "` (this build reads " ++ Retarget.schemaVersion ++ ")"

namespace Module

def toJson (m : Module) : Json :=
  .obj [("schemaVersion", .str m.schemaVersion), ("nodes", .ofIdMap Node.toJson m.nodes),
    ("body", .ofList .ofNat m.body), ("metadata", m.metadata.toJson)]

def ofJson? (value : Json) : Option Module := do
  let fields ← value.record? ["schemaVersion", "nodes", "body", "metadata"] 3
  return {
    schemaVersion := ← Json.required Json.string? "schemaVersion" fields
    nodes := ← Json.required (Json.idMap? Node.ofJson?) "nodes" fields
    body := ← Json.required Json.ids? "body" fields
    metadata := ← Json.defaulted {} Metadata.ofJson? "metadata" fields }

def ofJson (value : Json) : Except DocumentError Module :=
  match ofJson? value with
  | none => .error .unreadable
  | some m => if isCompatible m.schemaVersion then .ok m else .error (.incompatible m.schemaVersion)

def ofText (text : String) : Except DocumentError Module :=
  match Json.parse? text with
  | none => .error .unreadable
  | some value => ofJson value

end Module

end Retarget
