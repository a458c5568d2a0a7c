import Retarget.CommandLine.Args
import Retarget.CommandLine.Host
import Retarget.CommandLine.Path
import Retarget.Compile
import Retarget.Lower.Program
import Retarget.Source.Render
import Retarget.Syntax.Read
import Retarget.Text.Blank
import Retarget.Validate.Document
import Retarget.Validate.Schema

/-!
# Running commands

A command ends with what it prints, or with diagnostics.
-/

namespace Retarget

/-- The diagnostics that end a command, and the sources they point into. -/
structure Failure where
  diagnostics : List Diagnostic
  files : SourceFiles := {}

namespace Failure

def single (message : String) (code : Option ErrorCode) (notes : List String) : Failure :=
  ⟨[{ level := .error, message, code, notes }], {}⟩

def validation (path : String) (r : Report) : Failure :=
  ⟨r.errors.map fun message =>
    { level := .error, message, code := some .schemaViolation, notes := ["in " ++ path] }, {}⟩

def backend (errors : List BackendError) : Failure := ⟨errors.map (·.toDiagnostic), {}⟩

end Failure

structure Outcome where
  code : Nat
  stdout : String := ""
  stderr : String := ""
  deriving DecidableEq, Repr

namespace CommandLine

variable {m : Type → Type} [Monad m]

abbrev Action (m : Type → Type) := ExceptT Failure m

def ask (path : String) (request : m (Except HostError α)) : Action m α := do
  match ← liftM request with
  | .ok a => return a
  | .error e => throw (.single (path ++ ": " ++ e.message) none [])

def readFile (host : Host m) (path : String) : Action m String := ask path (host.readText path)

def loadOptions (host : Host m) : Option String → Action m CompileOptions
  | none => return {}
  | some path => do
    match CompileOptions.ofText? (← readFile host path) with
    | some options => return options
    | none => throw (.single ("invalid config " ++ path) none [])

/-- What a file holds: by its extension, or by whether it is a document with a version. -/
def inputKind (host : Host m) (input : Input) : Action m InputKind := do
  match input.kind with
  | some kind => return kind
  | none =>
    match Path.extension? input.path with
    | some "js" | some "mjs" | some "cjs" => return .js
    | _ =>
      let text ← readFile host input.path
      let version := (Json.parseValue? text).bind (·.get? "schemaVersion")
      return if version.isSome then .ir else .ast

def runReader (host : Host m) (command path : String) : Action m String := do
  let fail (message : String) (notes : List String) : Action m String :=
    throw (.single message (some .readerFailed) notes)
  match words command with
  | [] => fail "empty parser command" []
  | program :: args =>
    match ← liftM (host.runProgram program (args ++ [path])) with
    | .error e =>
      fail ("failed to run `" ++ program ++ "`: " ++ e.message)
        ["set --parser or LUASCRIPT_PARSER to an ESTree parser command"]
    | .ok result =>
      if result.status = 0 then return result.output
      else
        fail ("parser exited with exit status: " ++ toString result.status)
          [String.ofList (trimBlanks result.errors.toList)]

def readModule (path text : String) : Except Failure Module := do
  let report := validateText text
  if !report.ok then throw (.validation path report)
  (Module.ofText text).mapError fun e => .single e.message (some .invalidModule) []

def lowerText (path tree source : String) : Except Failure Module := do
  let program ← (Syntax.Program.ofText tree).mapError fun e =>
    .single (path ++ ": " ++ e.message) (some .invalidProgram) []
  let (fileId, files) := SourceFiles.add {} path source
  (program.lower { fileId, sourceName := some path }).mapError fun e => ⟨[e.toDiagnostic], files⟩

def loadModule (host : Host m) (input : Input) (kind : InputKind) : Action m Module := do
  let path := input.path
  let loaded ← match kind with
    | .ir => do
      let text ← readFile host path
      pure (readModule path text)
    | .ast => do
      let tree ← readFile host path
      pure (lowerText path tree "")
    | .js => do
      let tree ← runReader host input.reader path
      let source ← readFile host path
      pure (lowerText path tree source)
  let module ← liftM loaded
  let report := module.validate
  if !report.ok then throw (.validation path report)
  return module

def printed (text : String) : String := if text.toList.getLast? == some '\n' then text else text ++ "\n"

def emitArtifact (host : Host m) (path : Option String) (artifact : Artifact) : Action m String := do
  match path, artifact with
  | some path, _ =>
    ask path (host.write path artifact)
    return ""
  | none, .text s => return printed s
  | none, .binary _ => throw (.single "binary output needs a file" none ["pass -o <file>"])

def luaVersionOf (name : String) : Except Failure LuaVersion :=
  match LuaVersion.ofText? name with
  | some version => .ok version
  | none =>
    .error (.single ("unsupported Lua version `" ++ name ++ "`") none ["supported versions: 5.1, 5.4"])

def CompileCommand.options (c : CompileCommand) (base : CompileOptions) : Except Failure CompileOptions := do
  let version ← match c.luaVersion with
    | some name => luaVersionOf name
    | none => pure base.lua.version
  return { base with
    optLevel := c.optLevel.getD base.optLevel
    targetTriple := c.triple.getD base.targetTriple
    debugInfo := base.debugInfo || c.debugInfo
    lua := { base.lua with version := version } }

def compileOne (host : Host m) (compiler : Compiler) (module : Module) (c : CompileCommand)
    (target : Target) : Action m String := do
  let compilation ← liftM ((compiler.compile module target.name).mapError fun e => Failure.backend [e])
  let artifact ← liftM (compilation.result.mapError Failure.backend)
  let default := if target = .wasm then some (Path.withExtension c.input.path target.extension) else none
  emitArtifact host (c.output.or default) artifact

/-- Writes the artifacts into a directory, and gives the problems of the targets that have none. -/
def writeAll (host : Host m) (directory input : String) : List Compilation → Action m (List BackendError)
  | [] => return []
  | ⟨target, .ok artifact⟩ :: more => do
    let name := Path.withExtension input target.extension
    let path := Path.join directory ((Path.fileName? name).getD name)
    let _ ← emitArtifact host (some path) artifact
    writeAll host directory input more
  | ⟨_, .error errors⟩ :: more => do return errors ++ (← writeAll host directory input more)

def compileAll (host : Host m) (compiler : Compiler) (module : Module) (c : CompileCommand) : Action m String := do
  let directory := c.output.getD (Path.parent c.input.path)
  ask directory (host.makeDirectory directory)
  let errors ← writeAll host directory c.input.path (compiler.compileAll module)
  if !errors.isEmpty then throw (.backend errors)
  return ""

def runCommand (host : Host m) (options : CompileOptions) : Command → Action m String
  | .check input => do
    match ← inputKind host input with
    | .ir =>
      let report := validateText (← readFile host input.path)
      if !report.ok then throw (.validation input.path report)
      return input.path ++ ": valid IR\n"
    | kind =>
      let module ← loadModule host input kind
      return input.path ++ ": ok (" ++ toString module.nodes.size ++ " nodes)\n"
  | .ir input output => do
    let kind ← inputKind host input
    let module ← loadModule host input kind
    emitArtifact host output (.text module.toJson.pretty)
  | .compile c => do
    let options ← liftM (CompileCommand.options c options)
    let kind ← inputKind host c.input
    let module ← loadModule host c.input kind
    let compiler : Compiler := { options }
    match c.target with
    | .one target => compileOne host compiler module c target
    | .all => compileAll host compiler module c
  | .schema output => emitArtifact host output (.text Schema.document.normalize.pretty)

def runInvocation (host : Host m) (colors : Bool) (i : Invocation) : m Outcome := do
  let action : Action m String := do
    let options ← loadOptions host i.config
    runCommand host options i.command
  match ← action.run with
  | .ok stdout => return { code := 0, stdout }
  | .error failure =>
    let r : Renderer := { files := failure.files, colors }
    return { code := 1, stderr := String.join (failure.diagnostics.map fun d => r.render d ++ "\n") }

def usage : String :=
  "Usage: luascript [OPTIONS] <COMMAND>\n\n" ++
  "Commands:\n" ++
  "  check    Validates an IR document, or lowers a program and validates the result\n" ++
  "  ir       Prints the lowered IR as JSON\n" ++
  "  compile  Compiles to one or all targets\n" ++
  "  schema   Prints the JSON-Schema document describing the IR\n" ++
  "  help     Print this message or the help of the given subcommand(s)\n\n" ++
  "Options:\n" ++
  "  -v, --verbose...     More logging on stderr (-v info, -vv debug, -vvv trace)\n" ++
  "      --config <FILE>  JSON file with compile options\n" ++
  "  -h, --help           Print help\n" ++
  "  -V, --version        Print version\n"

def defaultReader : String := "acorn --ecma2022 --locations"

def run (host : Host m) (colors : Bool) (reader : String) (args : List String) : m Outcome :=
  match Invocation.ofArgs reader args with
  | .ok i => runInvocation host colors i
  | .error .usage => return { code := 2, stderr := usage }
  | .error .help =>
    return { code := 0, stdout := "Compiles JavaScript to Lua, WebAssembly, LLVM IR and MLIR\n\n" ++ usage }
  | .error .version => return { code := 0, stdout := "luascript 0.1.0\n" }

end CommandLine

end Retarget
