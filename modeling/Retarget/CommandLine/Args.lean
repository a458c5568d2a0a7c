import Retarget.Target.Basic
import Retarget.Target.Options

/-!
# Arguments of the command line

Options come as `--name value`, `--name=value`, `-n value`, `-nvalue` or `-n=value`, and short options without
a value can be run together. After `--` there are no more options. No option but `--verbose` can be given twice.
-/

namespace Retarget

inductive InputKind where
  | ir | js | ast
  deriving DecidableEq, Repr, Inhabited

def InputKind.ofWord? : String → Option InputKind
  | "ir" => some .ir
  | "js" => some .js
  | "ast" => some .ast
  | _ => none

inductive TargetChoice where
  | one (target : Target)
  | all
  deriving DecidableEq, Repr, Inhabited

def TargetChoice.ofWord? (s : String) : Option TargetChoice :=
  if s == "all" then some .all else (Target.all.find? (·.name == s)).map .one

def optLevelOf? (s : String) : Option Nat := do
  let (negative, digits) := match s.toList with
    | '-' :: rest => (true, rest)
    | '+' :: rest => (false, rest)
    | chars => (false, chars)
  guard (!digits.isEmpty && digits.all (·.isDigit))
  let n := digits.foldl (fun n c => 10 * n + (c.toNat - 48)) 0
  guard (n ≤ 3 && !(negative && n != 0))
  return n

inductive Setting where
  | verbose | config | help | version
  | kind | reader | output
  | target | level | triple | luaVersion | debugInfo
  deriving DecidableEq, Repr, Inhabited

namespace Setting

def short? : Setting → Option Char
  | verbose => some 'v'
  | help => some 'h'
  | version => some 'V'
  | output => some 'o'
  | target => some 't'
  | level => some 'O'
  | debugInfo => some 'g'
  | _ => none

def long? : Setting → Option String
  | verbose => some "verbose"
  | config => some "config"
  | help => some "help"
  | version => some "version"
  | kind => some "as"
  | reader => some "parser"
  | output => some "output"
  | target => some "target"
  | level => none
  | triple => some "triple"
  | luaVersion => some "lua-version"
  | debugInfo => some "debug-info"

def takesValue : Setting → Bool
  | verbose | help | version | debugInfo => false
  | _ => true

def accepts : Setting → String → Bool
  | config, value | output, value => value != ""
  | kind, value => (InputKind.ofWord? value).isSome
  | target, value => (TargetChoice.ofWord? value).isSome
  | level, value => (optLevelOf? value).isSome
  | _, _ => true

end Setting

inductive Verb where
  | check | ir | compile | schema
  deriving DecidableEq, Repr, Inhabited

namespace Verb

def ofWord? : String → Option Verb
  | "check" => some check
  | "ir" => some ir
  | "compile" => some compile
  | "schema" => some schema
  | _ => none

def settings : Verb → List Setting
  | check => [.verbose, .config, .help, .kind, .reader]
  | ir => [.verbose, .config, .help, .kind, .reader, .output]
  | compile =>
    [.verbose, .config, .help, .kind, .reader, .output, .target, .level, .triple, .luaVersion, .debugInfo]
  | schema => [.verbose, .config, .help, .output]

end Verb

def leadingSettings : List Setting := [.verbose, .config, .help, .version]

inductive Stop where
  | usage | help | version
  deriving DecidableEq, Repr

structure Given where
  values : List (Setting × String) := []
  pending : Option Setting := none
  positionals : List String := []
  closed : Bool := false
  deriving Repr

namespace Given

def get? (g : Given) (s : Setting) : Option String := g.values.lookup s

def give (g : Given) (s : Setting) (value : String) : Except Stop Given :=
  match s with
  | .help => .error .help
  | .version => .error .version
  | s =>
    if (s != .verbose && (g.get? s).isSome) || !s.accepts value then .error .usage
    else .ok { g with values := (s, value) :: g.values, pending := none }

def giveShort (g : Given) (settings : List Setting) : List Char → Except Stop Given
  | [] => .ok g
  | c :: more =>
    match settings.find? (·.short? == some c) with
    | none => .error .usage
    | some s =>
      if s.takesValue then
        match more with
        | [] => .ok { g with pending := some s }
        | '=' :: value => g.give s (String.ofList value)
        | value => g.give s (String.ofList value)
      else do (← g.give s "").giveShort settings more

def giveLong (g : Given) (settings : List Setting) (chars : List Char) : Except Stop Given :=
  let name := String.ofList (chars.takeWhile (· != '='))
  match settings.find? (·.long? == some name), chars.dropWhile (· != '=') with
  | none, _ => .error .usage
  | some s, [] => if s.takesValue then .ok { g with pending := some s } else g.give s ""
  | some s, _ :: value => if s.takesValue then g.give s (String.ofList value) else .error .usage

def isOption (arg : String) : Bool :=
  match arg.toList with
  | '-' :: _ :: _ => true
  | _ => false

def take (settings : List Setting) (g : Given) (arg : String) : Except Stop Given :=
  if g.closed then .ok { g with positionals := g.positionals ++ [arg] }
  else
    match g.pending with
    | some s => if isOption arg then .error .usage else g.give s arg
    | none =>
      match arg.toList with
      | ['-', '-'] => .ok { g with closed := true }
      | '-' :: '-' :: chars => g.giveLong settings chars
      | '-' :: c :: chars => g.giveShort settings (c :: chars)
      | _ => .ok { g with positionals := g.positionals ++ [arg] }

def takeVerb (g : Given) : List String → Except Stop (Given × Verb × List String)
  | [] => .error .usage
  | arg :: rest => do
    if g.closed then throw .usage
    if g.pending.isSome || isOption arg then (← take leadingSettings g arg).takeVerb rest
    else if arg == "help" then throw (helpFor rest)
    else match Verb.ofWord? arg with
      | some verb => return (g, verb, rest)
      | none => throw .usage
where
  helpFor : List String → Stop
    | [] => .help
    | [topic] => if topic == "help" || (Verb.ofWord? topic).isSome then .help else .usage
    | _ => .usage

end Given

structure Input where
  path : String
  kind : Option InputKind
  reader : String
  deriving DecidableEq, Repr

structure CompileCommand where
  input : Input
  target : TargetChoice
  output : Option String
  optLevel : Option Nat
  triple : Option String
  luaVersion : Option String
  debugInfo : Bool
  deriving DecidableEq, Repr

inductive Command where
  | check (input : Input)
  | ir (input : Input) (output : Option String)
  | compile (command : CompileCommand)
  | schema (output : Option String)
  deriving DecidableEq, Repr

structure Invocation where
  config : Option String
  command : Command
  deriving DecidableEq, Repr

namespace Invocation

def inputOf (defaultReader : String) (g : Given) : Except Stop Input :=
  match g.positionals with
  | [path] =>
    if path == "" then .error .usage
    else .ok ⟨path, (g.get? .kind).bind InputKind.ofWord?, (g.get? .reader).getD defaultReader⟩
  | _ => .error .usage

def commandOf (defaultReader : String) (g : Given) : Verb → Except Stop Command
  | .check => do return .check (← inputOf defaultReader g)
  | .ir => do return .ir (← inputOf defaultReader g) (g.get? .output)
  | .compile => do
    return .compile {
      input := ← inputOf defaultReader g
      target := ((g.get? .target).bind TargetChoice.ofWord?).getD (.one .lua)
      output := g.get? .output
      optLevel := (g.get? .level).bind optLevelOf?
      triple := g.get? .triple
      luaVersion := g.get? .luaVersion
      debugInfo := (g.get? .debugInfo).isSome }
  | .schema => if g.positionals.isEmpty then .ok (.schema (g.get? .output)) else .error .usage

def ofArgs (defaultReader : String) (args : List String) : Except Stop Invocation := do
  let (leading, verb, rest) ← Given.takeVerb {} args
  let g ← rest.foldlM (Given.take verb.settings) {}
  if g.pending.isSome then throw .usage
  return ⟨(g.get? .config).or (leading.get? .config), ← commandOf defaultReader g verb⟩

end Invocation

end Retarget
