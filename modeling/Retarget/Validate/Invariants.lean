import Retarget.Module.Parents
import Retarget.Module.Walk
import Retarget.Validate.Problem

/-!
# Invariants of a module

`Module.problems` lists everything that is wrong with a module: references to missing or unfitting nodes,
nodes that are owned twice or in a circle, identifiers bound to declarations that are not visible or come
later, and control-flow graphs that do not fit the module. A module without problems is valid.
-/

namespace Retarget

namespace Module

variable (m : Module) (parents : Parents)

def formProblems : List Problem :=
  (m.nodes.toList.filterMap fun (key, node) =>
    if key == node.id then none else some (.keyMismatch key node.id)) ++
  if isCompatible m.schemaVersion then [] else [.incompatibleVersion m.schemaVersion]

def referenceProblem? (node : Node) (r : Reference) : Option Problem :=
  match m.node? r.target with
  | none => some (.missingReference node.id r.field r.target)
  | some target =>
    if r.category.admits target.kind then none
    else some (.wrongCategory node.id r.field r.category target.kind.name target.id)

def statementProblem? (index : Nat) (id : NodeId) : Option Problem :=
  match m.node? id with
  | none => some (.missingStatement index id)
  | some node => if node.kind.isStatement then none else some (.notStatement index node.kind.name)

def referenceProblems : List Problem :=
  (m.nodes.values.flatMap fun node => node.kind.references.filterMap (m.referenceProblem? node)) ++
  (m.body.mapIdx m.statementProblem?).reduceOption

/-- What is wrong with the owners of the top-level statements from `index` on. -/
def bodyOwnerProblems (parents : Parents) : (index : Nat) → (seen : IdSet) → List NodeId → List Problem
  | _, _, [] => []
  | index, seen, id :: rest =>
    (parents.parent? id).toList.map (.ownedStatement index id ·) ++
    (if id ∈ seen then [.repeatedStatement index id] else []) ++
    bodyOwnerProblems parents (index + 1) (seen.insert id) rest

def treeProblems : List Problem :=
  (parents.conflicts.map fun c => .ownedTwice c.child c.first c.second) ++
  (m.nodes.values.filterMap fun node =>
    if parents.inCycle node.id then some (.ownershipCycle node.id) else none) ++
  bodyOwnerProblems parents 0 ∅ m.body

def isFunction (id : NodeId) : Bool :=
  match m.kind? id with
  | some kind => kind.function?.isSome
  | none => false

/-- Whether a declaration is declared by `var`. -/
def isVarDeclaration (id : NodeId) : Bool :=
  match m.kind? id with
  | some (.variableDecl .varKind _) => true
  | _ => false

/-- The node in whose subtree a declared name is visible; `none` is the whole module. -/
def scopeOwner? (binding : Node) : Option NodeId :=
  match binding.kind with
  | .functionExpr _ | .classExpr _ => some binding.id
  | .parameter _ => do
    let parent ← parents.parent? binding.id
    match m.kind? parent with
    | some (.rest _) => parents.parent? parent
    | _ => some parent
  | .declarator .. => do
    let parent ← parents.parent? binding.id
    match m.kind? parent with
    | some (.variableDecl .varKind _) => (parents.ancestors parent).find? m.isFunction
    | some (.variableDecl ..) => parents.parent? parent
    | _ => some parent
  | _ => parents.parent? binding.id

def isBlockScoped (binding : Node) : Bool :=
  match binding.kind with
  | .classDecl _ => true
  | .declarator .. =>
    match parents.parent? binding.id with
    | some parent => !m.isVarDeclaration parent
    | none => true
  | _ => false

def sourceOrder : IdMap Nat :=
  (m.walk fun _ => true).foldl
    (fun order event =>
      match event with
      | .enter node => order.insert node.id order.size
      | .leave _ => order)
    ∅

/-- Whether a function lies between `id` and its owner `owner`. -/
def crossesFunction (owner : Option NodeId) (id : NodeId) : Bool :=
  ((parents.ancestors id).takeWhile (some · != owner)).any m.isFunction

def bindingProblem? (order : IdMap Nat) (id : NodeId) (name : String)
    (binding : NodeId) (target : Node) : Option Problem :=
  let owner := m.scopeOwner? parents target
  let visible := match owner with
    | some owner => parents.isAncestorOrSelf owner id
    | none => true
  if !visible then some (.outOfScope id name binding)
  else if !m.isBlockScoped parents target || m.crossesFunction parents owner id then none
  else
    match order[id]?, order[binding]? with
    | some used, some declared => if used < declared then some (.usedEarly id name binding) else none
    | _, _ => none

def scopeProblems : List Problem :=
  let order := m.sourceOrder
  m.nodes.values.filterMap fun node =>
    match node.kind with
    | .identifier name (some binding) =>
      match m.node? binding with
      | some target =>
        if target.kind.isBinding then m.bindingProblem? parents order node.id name binding target
        else none
      | none => none
    | _ => none

def repeatedBlocks (function : NodeId) : (index : Nat) → (seen : IdSet) → List Flow.Block → List Problem
  | _, _, [] => []
  | index, seen, block :: rest =>
    (if block.id ∈ seen then [.repeatedBlock function index block.id] else []) ++
    repeatedBlocks function (index + 1) (seen.insert block.id) rest

def blockProblems (function : NodeId) (ids : IdSet) (index : Nat) (block : Flow.Block) : List Problem :=
  (block.successors.filterMap fun id =>
    if id ∈ ids then none else some (.missingSuccessor function index id)) ++
  (block.statements.filterMap fun id =>
    if id ∈ m.nodes then none else some (.missingBlockStatement function index id))

def graphProblems (function : NodeId) (g : Flow.Graph) : List Problem :=
  let ids : IdSet := .ofList (g.blocks.map (·.id))
  let owner := match m.node? function with
    | some node =>
      if node.kind.function?.isSome then [] else [.graphOwnerKind function node.kind.name]
    | none => [.graphOwnerMissing function]
  let repeated := repeatedBlocks function 0 ∅ g.blocks
  let inside :=
    if g.entry ∈ ids then
      (g.blocks.mapIdx (m.blockProblems function ids)).flatten ++
      (g.blocks.mapIdx fun index block =>
        if block.id ∈ g.reachable then [] else [.unreachableBlock function index block.id]).flatten
    else [.missingEntry function g.entry]
  owner ++ repeated ++ inside

def flowProblems : List Problem :=
  m.metadata.cfg.toList.flatMap fun (function, g) => m.graphProblems function g

def problems : List Problem :=
  let parents := m.parents
  m.formProblems ++ m.referenceProblems ++ m.treeProblems parents ++ m.scopeProblems parents ++
    m.flowProblems

def isValid : Bool := m.problems.isEmpty

end Module

structure Report where
  errors : List String
  deriving DecidableEq, Repr

def Report.ok (r : Report) : Bool := r.errors.isEmpty

def Module.validate (m : Module) : Report := ⟨m.problems.map (·.message)⟩

end Retarget
