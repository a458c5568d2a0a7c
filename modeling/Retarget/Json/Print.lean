import Retarget.Binary64.Layout
import Retarget.Json.Basic

/-!
# JSON text

`Json.compact` writes a value without blanks, `Json.pretty` with one field or element a line, indented by
two blanks a level. Text outside the control characters is written as it is.
-/

namespace Retarget

def hexPair (n : Nat) : String :=
  String.ofList [Nat.digitChar (n / 16 % 16), Nat.digitChar (n % 16)]

namespace Json

def escapeChar (c : Char) : String :=
  match c with
  | '"' => "\\\""
  | '\\' => "\\\\"
  | '\n' => "\\n"
  | '\r' => "\\r"
  | '\t' => "\\t"
  | '\x08' => "\\b"
  | '\x0c' => "\\f"
  | c => if c.toNat < 32 then "\\u00" ++ hexPair c.toNat else String.singleton c

def quote (s : String) : String :=
  s.foldl (fun text c => text ++ escapeChar c) "\"" ++ "\""

/-- A number; a float without digits is `null`. -/
def numberText : Number → String
  | .int n => toString n
  | .float x => (FloatLayout.json.write? x).getD "null"

mutual

def compact : Json → String
  | .null => "null"
  | .bool b => if b then "true" else "false"
  | .num n => numberText n
  | .str s => quote s
  | .arr items => "[" ++ compactList items ++ "]"
  | .obj fields => "\x7b" ++ compactFields fields ++ "\x7d"

def compactList : List Json → String
  | [] => ""
  | [item] => item.compact
  | item :: rest => item.compact ++ "," ++ compactList rest

def compactFields : List (String × Json) → String
  | [] => ""
  | [(name, value)] => quote name ++ ":" ++ value.compact
  | (name, value) :: rest => quote name ++ ":" ++ value.compact ++ "," ++ compactFields rest

end

def newline (level : Nat) : String :=
  "\n" ++ copies (2 * level) ' '

mutual

def prettyAt (level : Nat) : Json → String
  | .arr [] => "[]"
  | .arr items => "[" ++ prettyList (level + 1) items ++ newline level ++ "]"
  | .obj [] => "\x7b\x7d"
  | .obj fields => "\x7b" ++ prettyFields (level + 1) fields ++ newline level ++ "\x7d"
  | .null => "null"
  | .bool b => if b then "true" else "false"
  | .num n => numberText n
  | .str s => quote s

def prettyList (level : Nat) : List Json → String
  | [] => ""
  | [item] => newline level ++ item.prettyAt level
  | item :: rest => newline level ++ item.prettyAt level ++ "," ++ prettyList level rest

def prettyFields (level : Nat) : List (String × Json) → String
  | [] => ""
  | [(name, value)] => newline level ++ quote name ++ ": " ++ value.prettyAt level
  | (name, value) :: rest =>
    newline level ++ quote name ++ ": " ++ value.prettyAt level ++ "," ++ prettyFields level rest

end

def pretty (value : Json) : String := value.prettyAt 0

end Json

end Retarget
