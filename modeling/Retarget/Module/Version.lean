import Retarget.Json.Token
import Retarget.Text.Pieces

/-!
# Versions of the document format

A version is three numbers with dots between them. Documents of another major version cannot be read.
-/

namespace Retarget

def schemaVersion : String := "1.0.0"

def versionNumbers? (version : String) : Option (Nat × Nat × Nat) :=
  match pieces '.' version.toList with
  | [major, minor, patch] =>
    if [major, minor, patch].all fun part => !part.isEmpty && part.all Char.isDigit then
      some (Json.digitsValue major, Json.digitsValue minor, Json.digitsValue patch)
    else none
  | _ => none

def isCompatible (version : String) : Bool :=
  match versionNumbers? version, versionNumbers? schemaVersion with
  | some (major, _), some (ours, _) => major == ours
  | _, _ => false

end Retarget
