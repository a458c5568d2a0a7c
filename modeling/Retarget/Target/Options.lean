import Retarget.Json.Parse
import Retarget.Json.Read

/-!
# Options of code generation

Options are read from a document that may leave out any of them but may not hold anything else.
-/

namespace Retarget

inductive LuaVersion where
  | v51 | v54
  deriving DecidableEq, Repr, Inhabited

namespace LuaVersion

def text : LuaVersion → String
  | v51 => "5.1"
  | v54 => "5.4"

def ofText? (s : String) : Option LuaVersion := [v51, v54].find? (·.text == s)

end LuaVersion

structure LuaOptions where
  version : LuaVersion := .v54
  indentWidth : Nat := 4
  deriving DecidableEq, Repr, Inhabited

def hostTriple : String := "x86_64-unknown-linux-gnu"

structure CompileOptions where
  optLevel : Nat := 0
  targetTriple : String := hostTriple
  debugInfo : Bool := false
  wasmOptimize : Bool := true
  mlirCanonicalize : Bool := true
  lua : LuaOptions := {}
  deriving DecidableEq, Repr, Inhabited

/-- The fields of a record that has no others; they may be given as a list, of which the end may be left
off. -/
def Json.closedRecord? (names : List String) (value : Json) : Option Json.Fields := do
  let fields ← value.record? names 0
  if fields.all fun field => names.contains field.1 then some fields else none

namespace LuaOptions

def fieldNames : List String := ["version", "indentWidth"]

def toJson (o : LuaOptions) : Json :=
  .obj [("version", .str o.version.text), ("indentWidth", .ofNat o.indentWidth)]

def ofJson? (value : Json) : Option LuaOptions := do
  let fields ← value.closedRecord? fieldNames
  return {
    version := ← Json.defaulted .v54 (Json.keyword? false LuaVersion.ofText?) "version" fields
    indentWidth := ← Json.defaulted 4 Json.nat64? "indentWidth" fields }

end LuaOptions

namespace CompileOptions

def fieldNames : List String :=
  ["optLevel", "targetTriple", "debugInfo", "wasmOptimize", "mlirCanonicalize", "lua"]

def toJson (o : CompileOptions) : Json :=
  .obj [("optLevel", .ofNat o.optLevel), ("targetTriple", .str o.targetTriple),
    ("debugInfo", .bool o.debugInfo), ("wasmOptimize", .bool o.wasmOptimize),
    ("mlirCanonicalize", .bool o.mlirCanonicalize), ("lua", o.lua.toJson)]

def ofJson? (value : Json) : Option CompileOptions := do
  let fields ← value.closedRecord? fieldNames
  return {
    optLevel := ← Json.defaulted 0 Json.nat8? "optLevel" fields
    targetTriple := ← Json.defaulted hostTriple Json.string? "targetTriple" fields
    debugInfo := ← Json.defaulted false Json.bool? "debugInfo" fields
    wasmOptimize := ← Json.defaulted true Json.bool? "wasmOptimize" fields
    mlirCanonicalize := ← Json.defaulted true Json.bool? "mlirCanonicalize" fields
    lua := ← Json.defaulted {} LuaOptions.ofJson? "lua" fields }

def ofText? (text : String) : Option CompileOptions := (Json.parse? text).bind ofJson?

end CompileOptions

end Retarget
