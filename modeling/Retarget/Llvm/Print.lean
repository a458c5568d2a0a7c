import Retarget.Binary64.Layout
import Retarget.Llvm.Basic
import Retarget.Numeric.Plan

/-!
# The text of LLVM programs
-/

namespace Retarget.Llvm

/-- The name of a global symbol, in quotes if it has characters that are not allowed otherwise. -/
def symbol (name : String) : String :=
  let plain (c : Char) := c.isAlphanum || c == '_' || c == '$' || c == '.' || c == '-'
  if name != "" && name.toList.all plain then name else "\"" ++ name ++ "\""

/-- The lowest `count` hexadecimal digits of a number. -/
def hexDigits (count n : Nat) : String :=
  String.ofList ((List.range count).reverse.map fun place => (Nat.digitChar (n / Nat.pow 16 place % 16)).toUpper)

def floatText (x : Float) : String :=
  match wholeNumber? x with
  | some n => writeTenths x n
  | none => "0x" ++ hexDigits 16 x.toBits.toNat

def Construct.name : Construct → String
  | branch => "if"
  | whileLoop => "while"
  | doLoop => "do"
  | forLoop => "for"
  | conjunction => "and"
  | disjunction => "or"
  | choice => "cond"

def Part.name : Part → String
  | taken => "then"
  | other => "else"
  | test => "cond"
  | body => "body"
  | update => "update"
  | done => "end"

def Label.text : Label → String
  | entry => "entry"
  | dead number => "dead." ++ toString number
  | part construct role number => construct.name ++ "." ++ role.name ++ "." ++ toString number

def valueText (number : Nat) : String := "%" ++ toString number

def Operand.text : Operand → String
  | const x => floatText x
  | value number => valueText number
  | arg index => "%arg" ++ toString index
  | half => "0.5"

def Operand.typed (operand : Operand) : String := "double " ++ operand.text

def Address.text : Address → String
  | param name => "%" ++ name ++ ".addr"
  | .variable name id => "%" ++ name ++ "." ++ toString id ++ ".addr"
  | global name => "@" ++ symbol name

def Arithmetic.name : Arithmetic → String
  | add => "fadd"
  | sub => "fsub"
  | mul => "fmul"
  | div => "fdiv"
  | rem => "frem"

def Predicate.name : Predicate → String
  | equal => "oeq"
  | different => "une"
  | less => "olt"
  | lessEqual => "ole"
  | greater => "ogt"
  | greaterEqual => "oge"
  | unequal => "one"

def Builtin.name : Builtin → String
  | ceil => "ceil"
  | fabs => "fabs"
  | floor => "floor"
  | maximum => "maximum"
  | minimum => "minimum"
  | pow => "pow"
  | sqrt => "sqrt"
  | trunc => "trunc"

def Builtin.symbol (b : Builtin) : String := "llvm." ++ b.name ++ ".f64"

def argumentsText (args : List Operand) : String := "(" ++ commaSeparated (args.map (·.typed)) ++ ")"

def Computation.text : Computation → String
  | load source => "load double, ptr " ++ source.text
  | negate value => "fneg " ++ value.typed
  | arithmetic op left right => op.name ++ " " ++ left.typed ++ ", " ++ right.text
  | compare predicate left right => "fcmp " ++ predicate.name ++ " " ++ left.typed ++ ", " ++ right.text
  | invert flag => "xor i1 " ++ valueText flag ++ ", true"
  | toFloat flag => "uitofp i1 " ++ valueText flag ++ " to double"
  | phi first firstFrom second secondFrom =>
    "phi double [ " ++ first.text ++ ", %" ++ firstFrom.text ++ " ], [ " ++ second.text ++ ", %" ++
      secondFrom.text ++ " ]"
  | call function args => "call double @" ++ symbol function ++ argumentsText args
  | builtin function args => "call double @" ++ function.symbol ++ argumentsText args

def Instr.text : Instr → String
  | allocate place => place.text ++ " = alloca double"
  | store value target => "store " ++ value.typed ++ ", ptr " ++ target.text
  | define number computation => valueText number ++ " = " ++ computation.text

def Terminator.text : Terminator → String
  | jump target => "br label %" ++ target.text
  | branch flag taken other =>
    "br i1 " ++ valueText flag ++ ", label %" ++ taken.text ++ ", label %" ++ other.text
  | ret value => "ret " ++ value.typed
  | retVoid => "ret void"

def Line.text : Line → String
  | label l => l.text ++ ":"
  | instr i => "  " ++ i.text
  | terminator t => "  " ++ t.text
  | comment line => "  ; line " ++ toString line

def Function.header (f : Function) : String :=
  if f.isInit then "define internal void @" ++ f.name ++ "() #0"
  else
    let params := (List.range f.params).map fun i => (Operand.arg i).typed
    "define double @" ++ symbol f.name ++ "(" ++ commaSeparated params ++ ") #0"

def Function.text (f : Function) : String :=
  f.header ++ " \x7b\n" ++ String.join (f.lines.map fun line => line.text ++ "\n") ++ "\x7d\n"

def Builtin.declaration (b : Builtin) : String :=
  "declare double @" ++ b.symbol ++ "(" ++ commaSeparated (List.replicate b.arity "double") ++ ")\n"

def passNames (level : Nat) : List String :=
  (if 1 ≤ level then ["mem2reg"] else []) ++ (if 2 ≤ level then ["inline", "gvn"] else []) ++
    (if 3 ≤ level then ["loop-vectorize", "slp-vectorizer"] else [])

namespace Program

def preamble (p : Program) : String :=
  "; ModuleID = '" ++ p.source ++ "'\nsource_filename = \"" ++ p.source ++ "\"\ntarget triple = \"" ++
    p.triple ++ "\"\n; optimization level: O" ++ toString p.level ++ "\n" ++
    (match passNames p.level with
    | [] => ""
    | names => "; passes: " ++ commaSeparated names ++ "\n") ++ "\n"

def globalsText (p : Program) : String :=
  match p.globals with
  | [] => ""
  | names =>
    let line (name : String) :=
      (Address.global name).text ++ " = global " ++ (Operand.const (0.0 / 0.0)).typed ++ "\n"
    String.join (names.map line) ++ "\n"

def startText (p : Program) : String :=
  if p.functions.any (·.isInit) then
    "@llvm.global_ctors = appending global [1 x \x7b i32, ptr, ptr \x7d] [\x7b i32, ptr, ptr \x7d \x7b " ++
      "i32 65535, ptr @" ++ NumericPlan.initName ++ ", ptr null \x7d]\n\n"
  else ""

def declarations (p : Program) : String :=
  match p.builtins with
  | [] => ""
  | called => String.join (called.map (·.declaration)) ++ "\n"

def attributes (p : Program) : String :=
  "attributes #0 = \x7b " ++ (if p.level = 0 then "noinline nounwind optnone" else "nounwind") ++ " \x7d\n"

def text (p : Program) : String :=
  p.preamble ++ p.globalsText ++ p.startText ++ String.join (p.functions.map fun f => f.text ++ "\n") ++
    p.declarations ++ p.attributes

end Program

end Retarget.Llvm
