import Retarget.Lua.Text

/-!
# Writing Lua

Statements are written one to a line, indented by their level. A function inside an expression carries its
own level.
-/

namespace Retarget.Lua

def FunctionName.text : FunctionName → String
  | localName name => "local function " ++ name
  | plain name => "function " ++ name
  | field table name => "function " ++ table ++ "." ++ name
  | method table name => "function " ++ table ++ ":" ++ name

def commas (parts : List String) : String := ", ".intercalate parts

/-- The indentation of a level, in steps of `width` blanks. -/
def indentation (width level : Nat) : String := copies (width * level) ' '

def line (width level : Nat) (text : String) : String := indentation width level ++ text ++ "\n"

mutual

def Expr.text (width : Nat) : Expr → String
  | .nil => "nil"
  | .bool value => if value then "true" else "false"
  | .number value => numberText value
  | .string value => quote value
  | .name name => name
  | .varargs => "..."
  | .paren inner => "(" ++ inner.text width ++ ")"
  | .binary op left right => left.text width ++ " " ++ op.symbol ++ " " ++ right.text width
  | .unary op operand => op.symbol ++ operand.text width
  | .index table key => table.text width ++ "[" ++ key.text width ++ "]"
  | .field table name => table.text width ++ "." ++ name
  | .call function arguments => function.text width ++ "(" ++ commas (Expr.texts width arguments) ++ ")"
  | .method receiver name arguments =>
    receiver.text width ++ ":" ++ name ++ "(" ++ commas (Expr.texts width arguments) ++ ")"
  | .function level params body =>
    "function(" ++ commas params ++ ")\n" ++ Stmt.texts width (level + 1) body ++
      indentation width level ++ "end"
  | .table entries => "\x7b" ++ commas (Entry.texts width entries) ++ "\x7d"

def Expr.texts (width : Nat) : List Expr → List String
  | [] => []
  | e :: more => e.text width :: Expr.texts width more

def Entry.text (width : Nat) : Entry → String
  | .item value => value.text width
  | .named name value => name ++ " = " ++ value.text width
  | .keyed key value => "[" ++ key.text width ++ "] = " ++ value.text width

def Entry.texts (width : Nat) : List Entry → List String
  | [] => []
  | e :: more => e.text width :: Entry.texts width more

def Simple.text (width : Nat) : Simple → String
  | .comment text => "-- " ++ text
  | .local names [] => "local " ++ commas names
  | .local names values => "local " ++ commas names ++ " = " ++ commas (Expr.texts width values)
  | .assign target value => target.text width ++ " = " ++ value.text width
  | .call value => value.text width
  | .goto label => "goto " ++ label
  | .label name => "::" ++ name ++ "::"
  | .breakLoop => "break"
  | .ret [] => "return"
  | .ret values => "return " ++ commas (Expr.texts width values)

def Stmt.text (width level : Nat) : Stmt → String
  | .simple s => line width level (s.text width)
  | .doLine s => line width level ("do " ++ s.text width ++ " end")
  | .ifLine test s => line width level ("if " ++ test.text width ++ " then " ++ s.text width ++ " end")
  | .function name params body =>
    line width level (name.text ++ "(" ++ commas params ++ ")") ++ Stmt.texts width (level + 1) body ++
      line width level "end"
  | .doBlock body =>
    line width level "do" ++ Stmt.texts width (level + 1) body ++ line width level "end"
  | .ifBlock test body alternate =>
    line width level ("if " ++ test.text width ++ " then") ++ Stmt.texts width (level + 1) body ++
      alternate.text width level
  | .whileLoop test body =>
    line width level ("while " ++ test.text width ++ " do") ++ Stmt.texts width (level + 1) body ++
      line width level "end"
  | .repeatUntil body test =>
    line width level "repeat" ++ Stmt.texts width (level + 1) body ++
      line width level ("until " ++ test.text width)
  | .forIn names iterator body =>
    line width level ("for " ++ commas names ++ " in " ++ iterator.text width ++ " do") ++
      Stmt.texts width (level + 1) body ++ line width level "end"
  | .forRange name first last body =>
    line width level ("for " ++ name ++ " = " ++ first.text width ++ ", " ++ last.text width ++ " do") ++
      Stmt.texts width (level + 1) body ++ line width level "end"

def Stmt.texts (width level : Nat) : List Stmt → String
  | [] => ""
  | s :: more => s.text width level ++ Stmt.texts width level more

def Alternate.text (width level : Nat) : Alternate → String
  | .none => line width level "end"
  | .elseIf test body alternate =>
    line width level ("elseif " ++ test.text width ++ " then") ++ Stmt.texts width (level + 1) body ++
      alternate.text width level
  | .otherwise body =>
    line width level "else" ++ Stmt.texts width (level + 1) body ++ line width level "end"

end

end Retarget.Lua
