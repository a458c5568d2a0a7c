import Retarget.Validate.Shape

/-!
# The published schema

`Schema.document` is the JSON schema (draft 07) of module documents, made from the table of fields.
-/

namespace Retarget.Schema

def type (name : String) : Json := .obj [("type", .str name)]

def typeIn (names : List String) : Json := .obj [("type", .ofList .str names)]

def listOf (items : Json) : Json := .obj [("type", .str "array"), ("items", items)]

def closed (required : List String) (properties : List (String × Json)) : Json :=
  .obj [("type", .str "object"), ("properties", .obj properties), ("required", .ofList .str required),
    ("additionalProperties", .bool false)]

def id : Json :=
  .obj [("type", .str "integer"), ("minimum", .ofNat 0), ("maximum", .ofNat 0xffffffff)]

def field : FieldType → Json
  | .id => id
  | .optId => .obj [("oneOf", .arr [id, type "null"])]
  | .ids => listOf id
  | .items => listOf (closed ["spread", "value"] [("spread", type "boolean"), ("value", id)])
  | .text => type "string"
  | .optText => typeIn ["string", "null"]
  | .texts => listOf (type "string")
  | .flag => type "boolean"
  | .number => type "number"
  | .oneOf words => .obj [("enum", .ofList .str words)]

def node (kind : String) (table : Shape.FieldTable) : Json :=
  closed
    (["id", "kind"] ++ (table.filter (!·.2.isOptional)).map (·.1))
    ([("kind", .obj [("const", .str kind)]), ("id", id), ("span", typeIn ["object", "null"]),
      ("type", typeIn ["object", "null"]), ("synthetic", type "boolean")] ++
      table.map fun (name, type) => (name, field type))

def document : Json :=
  let variants := Shape.kinds.map fun (kind, _) =>
    Json.obj [("$ref", .str ("#/definitions/" ++ kind))]
  .obj [
    ("$schema", .str "http://json-schema.org/draft-07/schema#"),
    ("$id", .str ("https://luascript.dev/ir/" ++ schemaVersion ++ "/module.json")),
    ("title", .str "LuaScript IR module"),
    ("type", .str "object"),
    ("required", .ofList .str ["schemaVersion", "nodes", "body"]),
    ("additionalProperties", .bool false),
    ("properties", .obj [
      ("schemaVersion",
        .obj [("type", .str "string"), ("pattern", .str "^1\\.[0-9]+\\.[0-9]+$")]),
      ("nodes",
        .obj [("type", .str "object"), ("propertyNames", .obj [("pattern", .str "^[0-9]+$")]),
          ("additionalProperties", .obj [("oneOf", .arr variants)])]),
      ("body", field .ids),
      ("metadata", type "object")]),
    ("definitions", .obj (Shape.kinds.map fun (kind, table) => (kind, node kind table)))]

end Retarget.Schema
