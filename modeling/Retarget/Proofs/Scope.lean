import Mathlib.Data.List.ReduceOption
import Retarget.Proofs.Ownership
import Retarget.Validate.Invariants

/-!
# Sound modules and visible names

What the checks of a module say, without the way in which they search.

* `Module.Sound`: references lead to nodes that fit, ownership is a forest, and the top-level statements are
  roots of it. `Module.sound_iff`: the checks of form, references and ownership find nothing exactly then.
* `ScopeOwner`: the node in whose subtree a declared name is visible. A declaration without one is visible
  everywhere.
* `Module.mem_scopeProblems`: in a sound module, an identifier is reported as out of scope exactly if it lies
  outside the subtree of the scope owner of its declaration, and as used early exactly if it is visible and
  `Module.IsEarly`.
-/

namespace Retarget

open Relation List Option Parents NodeTable

/-! ## Scope owners -/

/-- `f` is a function. -/
def IsFunction (g : NodeId → Option Kind) (f : NodeId) : Prop :=
  ∃ kind, g f = some kind ∧ kind.function?.isSome = true

/-- `y` is `x` or inside of it, with no function between them. -/
def Nested (g : NodeId → Option Kind) : NodeId → NodeId → Prop :=
  ReflTransGen fun p c => Owns g p c ∧ ¬IsFunction g p

/-- `f` is the nearest function above a node. -/
inductive NearestFunction (g : NodeId → Option Kind) (f : NodeId) : NodeId → Prop
  | here {x : NodeId} (h : Owns g f x) (hf : IsFunction g f) : NearestFunction g f x
  | above {x p : NodeId} (h : Owns g p x) (hp : ¬IsFunction g p) (hf : NearestFunction g f p) :
    NearestFunction g f x

/-- `o` is the node in whose subtree the name that `d` declares is visible. -/
inductive ScopeOwner (g : NodeId → Option Kind) (d : NodeId) : NodeId → Prop
  | functionExpr {f} (h : g d = some (.functionExpr f)) : ScopeOwner g d d
  | classExpr {c} (h : g d = some (.classExpr c)) : ScopeOwner g d d
  | parameter {name p} (h : g d = some (.parameter name)) (hp : Owns g p d)
      (hrest : ∀ a, g p ≠ some (.rest a)) : ScopeOwner g d p
  | restParameter {name r a p} (h : g d = some (.parameter name)) (hr : Owns g r d)
      (hrest : g r = some (.rest a)) (hp : Owns g p r) : ScopeOwner g d p
  | var {name init v ds f} (h : g d = some (.declarator name init)) (hv : Owns g v d)
      (hvar : g v = some (.variableDecl .varKind ds)) (hf : NearestFunction g f v) : ScopeOwner g d f
  | lexical {name init v kind ds p} (h : g d = some (.declarator name init)) (hv : Owns g v d)
      (hkind : g v = some (.variableDecl kind ds)) (hne : kind ≠ .varKind) (hp : Owns g p v) :
      ScopeOwner g d p
  | loop {name init p} (h : g d = some (.declarator name init)) (hp : Owns g p d)
      (hdecl : ∀ kind ds, g p ≠ some (.variableDecl kind ds)) : ScopeOwner g d p
  | statement {kind p} (h : g d = some kind) (hkind : kind.isStatement = true) (hp : Owns g p d) :
      ScopeOwner g d p

/-- The name that `d` declares is visible at `i`. -/
def Visible (g : NodeId → Option Kind) (d i : NodeId) : Prop := ∀ o, ScopeOwner g d o → Contains g o i

def BlockScoped (g : NodeId → Option Kind) (d : NodeId) : Prop :=
  (∃ c, g d = some (.classDecl c)) ∨
    (∃ name init, g d = some (.declarator name init)) ∧
      ∀ p ds, Owns g p d → g p ≠ some (.variableDecl .varKind ds)

/-- A function lies between an identifier and the scope owner of its declaration. -/
def CrossesFunction (g : NodeId → Option Kind) (d i : NodeId) : Prop :=
  ∃ f, IsFunction g f ∧ Encloses g f i ∧ ∀ o, ScopeOwner g d o → ¬Contains g f o

variable {g : NodeId → Option Kind} {d f i o p q x : NodeId}

namespace Module

variable {m : Module}

/-- `i` comes before the declaration `d` in the source, and runs before it. -/
def IsEarly (m : Module) (d i : NodeId) : Prop :=
  BlockScoped m.kind? d ∧ ¬CrossesFunction m.kind? d i ∧
    ∃ used declared, m.sourceOrder[i]? = some used ∧ m.sourceOrder[d]? = some declared ∧ used < declared

/-! ## Sound modules -/

def Resolved (g : NodeId → Option Kind) : Prop :=
  ∀ id kind, g id = some kind → ∀ r ∈ kind.references,
    ∃ target, g r.target = some target ∧ r.category.admits target = true

/-- References lead to nodes that fit, and ownership is a forest with the statements among its roots. -/
structure Sound (m : Module) : Prop where
  keys : m.nodes.KeysMatch
  compatible : isCompatible m.schemaVersion = true
  resolved : Resolved m.kind?
  statements : ∀ s ∈ m.body, ∃ kind, m.kind? s = some kind ∧ kind.isStatement = true
  forest : IsForest m.kind?
  roots : ∀ s ∈ m.body, ∀ p, ¬Owns m.kind? p s
  nodup : m.body.Nodup

theorem formProblems_eq_nil : m.formProblems = [] ↔ m.nodes.KeysMatch ∧ isCompatible m.schemaVersion = true := by
  rw [formProblems, append_eq_nil_iff, filterMap_eq_nil_iff]
  refine and_congr ?_ (by simp_all)
  simp only [Prod.forall, Std.ExtTreeMap.mem_toList_iff_getElem?_eq_some, NodeTable.KeysMatch]
  refine forall_congr' fun id => forall_congr' fun node => imp_congr_right fun _ => ?_
  by_cases h : id = node.id
  · simp [h]
  · simp [h, Ne.symm h]

variable {node : Node} {index : Nat}

theorem referenceProblem?_eq_none {r : Reference} :
    m.referenceProblem? node r = none ↔ ∃ target, m.kind? r.target = some target ∧ r.category.admits target = true := by
  rw [referenceProblem?, Module.kind?, NodeTable.kind?, Module.node?]
  cases m.nodes[r.target]? with
  | none => simp
  | some target => cases h : r.category.admits target.kind <;> simp [h]

theorem statementProblem?_eq_none {id : NodeId} :
    m.statementProblem? index id = none ↔ ∃ kind, m.kind? id = some kind ∧ kind.isStatement = true := by
  rw [statementProblem?, Module.kind?, NodeTable.kind?, Module.node?]
  cases m.nodes[id]? with
  | none => simp
  | some node => cases h : node.kind.isStatement <;> simp [h]

theorem referenceProblems_eq_nil :
    m.referenceProblems = [] ↔ Resolved m.kind? ∧
      ∀ s ∈ m.body, ∃ kind, m.kind? s = some kind ∧ kind.isStatement = true := by
  rw [referenceProblems, append_eq_nil_iff]
  refine and_congr ?_ ?_
  · simp only [flatMap_eq_nil_iff, filterMap_eq_nil_iff, referenceProblem?_eq_none,
      IdMap.mem_values, Resolved]
    constructor
    · intro h id kind hk
      obtain ⟨node, hnode, rfl⟩ := kind?_eq_some.1 hk
      exact h node ⟨id, hnode⟩
    · rintro h node ⟨id, hnode⟩
      exact h id node.kind (kind?_eq_some.2 ⟨node, hnode, rfl⟩)
  · refine filterMap_eq_nil_iff.trans ?_
    simp only [mem_mapIdx, id]
    constructor
    · intro h s hs
      obtain ⟨n, hn, rfl⟩ := getElem_of_mem hs
      exact statementProblem?_eq_none.1 (h _ ⟨n, hn, rfl⟩)
    · rintro h _ ⟨n, hn, rfl⟩
      exact statementProblem?_eq_none.2 (h _ (getElem_mem hn))

theorem bodyOwnerProblems_eq_nil {r : Parents} {body : List NodeId} {seen : IdSet} :
    bodyOwnerProblems r index seen body = [] ↔
      (∀ s ∈ body, r.parent? s = none) ∧ (∀ s ∈ body, s ∉ seen) ∧ body.Nodup := by
  induction body generalizing index seen with
  | nil => simp [bodyOwnerProblems]
  | cons id rest ih =>
    simp only [bodyOwnerProblems, append_eq_nil_iff, map_eq_nil_iff, toList_eq_nil_iff,
      ih, Std.ExtTreeSet.mem_insert, forall_mem_cons, nodup_cons, not_or]
    have hseen : (if id ∈ seen then [Problem.repeatedStatement index id] else []) = [] ↔ id ∉ seen := by
      simp_all
    have hrest : (∀ s ∈ rest, ¬compare id s = .eq ∧ s ∉ seen) ↔ id ∉ rest ∧ ∀ s ∈ rest, s ∉ seen := by
      constructor
      · intro h
        exact ⟨fun hmem => (h id hmem).1 (by simp), fun s hs => (h s hs).2⟩
      · rintro ⟨hid, h⟩ s hs
        refine ⟨fun heq => hid ?_, h s hs⟩
        rwa [(by simpa using heq : id = s)]
    tauto

theorem owner_eq (hkeys : m.nodes.KeysMatch)
    (hunique : ∀ {p q c}, Owns m.kind? p c → Owns m.kind? q c → p = q) : m.parents.Owner = Owns m.kind? :=
  funext fun _ => funext fun _ => propext (owner_iff hkeys hunique)

theorem treeProblems_eq_nil (hkeys : m.nodes.KeysMatch) :
    m.treeProblems m.parents = [] ↔
      IsForest m.kind? ∧ (∀ s ∈ m.body, ∀ p, ¬Owns m.kind? p s) ∧ m.body.Nodup := by
  rw [treeProblems, append_eq_nil_iff, append_eq_nil_iff, map_eq_nil_iff,
    bodyOwnerProblems_eq_nil, Module.parents, conflicts_eq_nil hkeys]
  have hroots : (∀ s ∈ m.body, (ofNodes m.nodes.values).parent? s = none) ↔
      ∀ s ∈ m.body, ∀ p, ¬Owns m.kind? p s :=
    forall₂_congr fun s _ => parent?_eq_none hkeys
  rw [hroots]
  constructor
  · rintro ⟨⟨hunique, hcycle⟩, hroots, -, hnodup⟩
    refine ⟨⟨hunique, fun x hx => ?_⟩, hroots, hnodup⟩
    -- A node in a circle owns something, so that it is stored and its circle would have been found.
    obtain ⟨-, ⟨⟨kind, hkind, -⟩, -⟩⟩ := TransGen.head'_iff.1 hx
    obtain ⟨node, hnode, rfl⟩ := kind?_eq_some.1 hkind
    have hfind := filterMap_eq_nil_iff.1 hcycle node (IdMap.mem_values.2 ⟨x, hnode⟩)
    rw [hkeys x node hnode, if_pos] at hfind
    · exact absurd hfind nofun
    · rw [inCycle_iff]
      change TransGen m.parents.Owner x x
      rwa [owner_eq hkeys hunique]
  · rintro ⟨hforest, hroots, hnodup⟩
    refine ⟨⟨hforest.owner_unique, filterMap_eq_nil_iff.2 fun node _ => if_neg fun hcycle => ?_⟩,
      hroots, by simp, hnodup⟩
    have hx : TransGen m.parents.Owner node.id node.id := inCycle_iff.1 hcycle
    rw [owner_eq hkeys hforest.owner_unique] at hx
    exact hforest.acyclic node.id hx

/-- **The checks of form, references and ownership are exact.** -/
theorem sound_iff : m.formProblems = [] ∧ m.referenceProblems = [] ∧ m.treeProblems m.parents = [] ↔ m.Sound := by
  rw [formProblems_eq_nil, referenceProblems_eq_nil]
  constructor
  · rintro ⟨⟨hkeys, hversion⟩, ⟨hresolved, hbody⟩, htree⟩
    obtain ⟨hforest, hroots, hnodup⟩ := (treeProblems_eq_nil hkeys).1 htree
    exact ⟨hkeys, hversion, hresolved, hbody, hforest, hroots, hnodup⟩
  · intro h
    exact ⟨⟨h.keys, h.compatible⟩, ⟨h.resolved, h.statements⟩,
      (treeProblems_eq_nil h.keys).2 ⟨h.forest, h.roots, h.nodup⟩⟩

/-! ## The scope owner as it is found -/

theorem isFunction_iff : m.isFunction f = true ↔ IsFunction m.kind? f := by
  rw [Module.isFunction, IsFunction]
  cases m.kind? f <;> simp

namespace Sound

variable (h : m.Sound)
include h

theorem owner_eq : m.parents.Owner = Owns m.kind? := Module.owner_eq h.keys h.forest.owner_unique

theorem parent?_eq_some : m.parents.parent? x = some p ↔ Owns m.kind? p x :=
  owner_iff h.keys h.forest.owner_unique

theorem acyclic_owner (x : NodeId) : ¬TransGen m.parents.Owner x x := by
  rw [h.owner_eq]
  exact h.forest.acyclic x

theorem mem_ancestors : p ∈ m.parents.ancestors x ↔ Encloses m.kind? p x := by
  rw [Parents.mem_ancestors h.acyclic_owner, h.owner_eq]

theorem isAncestorOrSelf_iff : m.parents.isAncestorOrSelf p x = true ↔ Contains m.kind? p x := by
  rw [Parents.isAncestorOrSelf_iff h.acyclic_owner, h.owner_eq]

theorem find?_ancestors : (m.parents.ancestors x).find? m.isFunction = some f ↔ NearestFunction m.kind? f x := by
  constructor
  · intro hf
    have hrow := isRow_ancestors h.acyclic_owner x
    generalize m.parents.ancestors x = row at hf hrow
    induction hrow with
    | nil => exact absurd hf nofun
    | cons hq _ ih =>
      have howns := h.parent?_eq_some.1 hq
      rw [List.find?_cons] at hf
      split at hf
      next hfun =>
        obtain rfl := some.inj hf
        exact .here howns (isFunction_iff.1 hfun)
      next hfun => exact .above howns (fun hq => absurd (isFunction_iff.2 hq) (by simp [hfun])) (ih hf)
  · intro hf
    induction hf with
    | here howns hf =>
      rw [ancestors_of_some h.acyclic_owner (h.parent?_eq_some.2 howns), List.find?_cons,
        isFunction_iff.2 hf]
    | above howns hp _ ih =>
      rw [ancestors_of_some h.acyclic_owner (h.parent?_eq_some.2 howns), List.find?_cons,
        Bool.eq_false_iff.2 fun hfun => hp (isFunction_iff.1 hfun)]
      exact ih

attribute [local simp] Kind.isStatement

/-- **The scope owner that is found is the scope owner.** -/
theorem scopeOwner?_eq_some (hnode : m.nodes[d]? = some node) (hbinding : node.kind.isBinding = true) :
    m.scopeOwner? m.parents node = some o ↔ ScopeOwner m.kind? d o := by
  have hid : node.id = d := h.keys d node hnode
  have hkind : m.kind? d = some node.kind := kind?_eq_some.2 ⟨node, hnode, rfl⟩
  obtain ⟨id, kind, span, type, synthetic⟩ := node
  obtain rfl : id = d := hid
  have hparent : ∀ {x p}, m.parents.parent? x = some p ↔ Owns m.kind? p x := h.parent?_eq_some
  rw [scopeOwner?]
  cases kind <;> simp only [Kind.isBinding, Bool.false_eq_true] at hbinding
  case functionExpr f =>
    simp only [some.injEq]
    constructor
    · rintro rfl
      exact .functionExpr hkind
    · intro hs
      cases hs <;> simp_all
  case classExpr c =>
    simp only [some.injEq]
    constructor
    · rintro rfl
      exact .classExpr hkind
    · intro hs
      cases hs <;> simp_all
  case functionDecl f | classDecl c =>
    refine hparent.trans ⟨.statement hkind rfl, fun hs => ?_⟩
    cases hs <;> simp_all
  case parameter name =>
    simp only [bind_eq_bind, bind_eq_some_iff, hparent]
    constructor
    · rintro ⟨p, hp, ho⟩
      split at ho
      next a hrest => exact .restParameter hkind hp hrest (hparent.1 ho)
      next hrest =>
        obtain rfl := some.inj ho
        exact .parameter hkind hp hrest
    · intro hs
      cases hs with
      | parameter _ hp hrest =>
        refine ⟨o, hp, ?_⟩
        split
        next a ha => exact absurd ha (hrest a)
        next => rfl
      | restParameter _ hr hrest hp => exact ⟨_, hr, by rw [hrest]; exact hparent.2 hp⟩
      | _ => simp_all
  case declarator name init =>
    simp only [bind_eq_bind, bind_eq_some_iff, hparent]
    constructor
    · rintro ⟨p, hp, ho⟩
      split at ho
      next ds hvar => exact .var hkind hp hvar (h.find?_ancestors.1 ho)
      next kind ds hne hdecl => exact .lexical hkind hp hdecl (fun heq => hne (by rw [heq])) (hparent.1 ho)
      next hdecl =>
        obtain rfl := some.inj ho
        exact .loop hkind hp hdecl
    · intro hs
      cases hs with
      | var _ hv hvar hf => exact ⟨_, hv, by rw [hvar]; exact h.find?_ancestors.2 hf⟩
      | lexical _ hv hdecl hne hp =>
        refine ⟨_, hv, ?_⟩
        rw [hdecl]
        split
        next heq => cases heq; exact absurd rfl hne
        next => exact hparent.2 hp
        next hno => exact absurd rfl (hno _ _)
      | loop _ hp hdecl =>
        refine ⟨o, hp, ?_⟩
        split
        next ds ha => exact absurd ha (hdecl _ ds)
        next kind ds _ ha => exact absurd ha (hdecl kind ds)
        next => rfl
      | _ => simp_all

theorem isBlockScoped_iff (hnode : m.nodes[d]? = some node) :
    m.isBlockScoped m.parents node = true ↔ BlockScoped m.kind? d := by
  have hid : node.id = d := h.keys d node hnode
  have hkind : m.kind? d = some node.kind := kind?_eq_some.2 ⟨node, hnode, rfl⟩
  rw [isBlockScoped, BlockScoped, hkind, hid]
  split
  next c hc => simp [hc]
  next name init hc =>
    have hvar : ∀ p, m.isVarDeclaration p = true ↔ ∃ ds, m.kind? p = some (.variableDecl .varKind ds) := by
      intro p
      rw [isVarDeclaration]
      split
      next ds hp => simp [hp]
      next hp => simpa using hp
    cases hp : m.parents.parent? d with
    | none =>
      have hno : ∀ p, ¬Owns m.kind? p d := fun p hp' => absurd (hp.symm.trans (h.parent?_eq_some.2 hp')) nofun
      simp [hc, hno]
    | some p =>
      have howns := h.parent?_eq_some.1 hp
      simp only [hc, some.injEq, reduceCtorEq, exists_false, false_or, Bool.not_eq_true',
        Bool.eq_false_iff, ne_eq, hvar, not_exists, Kind.declarator.injEq, exists_eq', exists_and_left,
        exists_eq_left', true_and]
      exact ⟨fun hno q ds hq => by rw [h.forest.owner_unique hq howns]; exact hno ds,
        fun hno ds => hno p ds howns⟩
  next hclass hdecl =>
    refine iff_of_false nofun ?_
    rintro (⟨c, hc⟩ | ⟨⟨name, init, hc⟩, -⟩)
    · exact hclass c (some.inj hc)
    · exact hdecl name init (some.inj hc)

theorem mem_takeWhile_ancestors :
    f ∈ (m.parents.ancestors x).takeWhile (some · != some o) ↔
      Encloses m.kind? f x ∧ ¬(Contains m.kind? f o ∧ Encloses m.kind? o x) := by
  have hrow := isRow_ancestors h.acyclic_owner x
  generalize m.parents.ancestors x = row at hrow
  induction hrow with
  | nil hnone =>
    refine ⟨nofun, fun ⟨hf, _⟩ => ?_⟩
    obtain ⟨p, -, hp⟩ := TransGen.tail'_iff.1 hf
    exact absurd (hnone.symm.trans (h.parent?_eq_some.2 hp)) nofun
  | @cons low high row hq _ ih =>
    have howns := h.parent?_eq_some.1 hq
    have habove : ∀ a, Encloses m.kind? a low ↔ a = high ∨ Encloses m.kind? a high := fun a =>
      ⟨fun ha => (reflTransGen_iff_eq_or_transGen.1 (h.forest.contains_of_encloses ha howns)).imp
        Eq.symm fun h => h, fun ha => ha.elim (fun heq => heq ▸ .single howns) fun ha => ha.tail howns⟩
    rw [takeWhile_cons]
    by_cases ho : high = o
    · subst ho
      simp only [bne_self_eq_false, Bool.false_eq_true, if_false, not_mem_nil, false_iff]
      exact fun hf => hf.2 ⟨h.forest.contains_of_encloses hf.1 howns, .single howns⟩
    · rw [if_pos (by simpa using ho), mem_cons, habove f, habove o]
      refine (or_congr_right ih).trans ?_
      constructor
      · rintro (rfl | ⟨hf, hno⟩)
        · refine ⟨.inl rfl, fun ⟨hfo, hof⟩ => ?_⟩
          rcases hof with rfl | hof
          · exact ho rfl
          · exact h.forest.acyclic o (hof.trans_left hfo)
        · refine ⟨.inr hf, fun ⟨hfo, hof⟩ => hno ⟨hfo, ?_⟩⟩
          exact hof.resolve_left (Ne.symm ho)
      · rintro ⟨rfl | hf, hno⟩
        · exact .inl rfl
        · exact .inr ⟨hf, fun ⟨hfo, hof⟩ => hno ⟨hfo, .inr hof⟩⟩

end Sound

end Module

theorem Kind.children_identifier (name : String) (binding : Option NodeId) :
    (Kind.identifier name binding).children = [] := by
  cases binding <;> rfl

theorem NearestFunction.isFunction (h : NearestFunction g f x) : IsFunction g f := by
  induction h with
  | here _ hf => exact hf
  | above _ _ _ ih => exact ih

theorem ScopeOwner.ne_identifier {name : String} {binding : Option NodeId} (h : ScopeOwner g d o) :
    g o ≠ some (.identifier name binding) := by
  intro ho
  have hleaf : ∀ c, ¬Owns g o c := fun c hc => by
    rw [owns_iff ho, Kind.children_identifier] at hc
    exact absurd hc nofun
  cases h with
  | functionExpr h | classExpr h => exact absurd (h.symm.trans ho) nofun
  | parameter _ hp | restParameter _ _ _ hp | lexical _ _ _ _ hp | loop _ hp | statement _ _ hp =>
    exact hleaf _ hp
  | var _ _ _ hf =>
    obtain ⟨kind, hk, hfun⟩ := hf.isFunction
    rw [ho] at hk
    cases hk
    exact absurd hfun nofun

namespace Module

variable {m : Module} {name : String} {binding : Option NodeId}

namespace Sound

variable (h : m.Sound)
include h

theorem crossesFunction_iff {owner : Option NodeId} (hi : m.kind? i = some (.identifier name binding))
    (howner : ∀ o, owner = some o ↔ ScopeOwner m.kind? d o) (hvisible : Visible m.kind? d i) :
    m.crossesFunction m.parents owner i = true ↔ CrossesFunction m.kind? d i := by
  rw [crossesFunction, List.any_eq_true]
  simp only [isFunction_iff]
  cases owner with
  | none =>
    have hnone : ∀ o, ¬ScopeOwner m.kind? d o := fun o ho => absurd ((howner o).2 ho) nofun
    have hall : ∀ l : List NodeId, l.takeWhile (some · != none) = l := fun l => by
      induction l with
      | nil => rfl
      | cons a l ih => rw [takeWhile_cons, if_pos (by simp), ih]
    simp only [hall, h.mem_ancestors, CrossesFunction, hnone, false_implies, implies_true, and_true]
    exact exists_congr fun f => and_comm
  | some o =>
    have ho : ScopeOwner m.kind? d o := (howner o).1 rfl
    have hio : Encloses m.kind? o i := by
      refine (reflTransGen_iff_eq_or_transGen.1 (hvisible o ho)).resolve_left fun heq => ?_
      exact ho.ne_identifier (heq ▸ hi)
    simp only [h.mem_takeWhile_ancestors, hio, and_true, CrossesFunction, ← howner, some.injEq,
      forall_eq']
    exact exists_congr fun f => by tauto

variable {problem : Problem}

theorem bindingProblem?_eq_some {target : Node} (hd : m.nodes[d]? = some target)
    (hbinding : target.kind.isBinding = true) (hi : m.kind? i = some (.identifier name binding)) :
    m.bindingProblem? m.parents m.sourceOrder i name d target = some problem ↔
      (problem = .outOfScope i name d ∧ ¬Visible m.kind? d i) ∨
      (problem = .usedEarly i name d ∧ Visible m.kind? d i ∧ m.IsEarly d i) := by
  have howner : ∀ o, m.scopeOwner? m.parents target = some o ↔ ScopeOwner m.kind? d o := fun o =>
    h.scopeOwner?_eq_some hd hbinding
  rw [bindingProblem?]
  generalize m.scopeOwner? m.parents target = owner at howner
  have hif : ∀ (visible : Bool) (rest : Option Problem), (visible = true ↔ Visible m.kind? d i) →
      (Visible m.kind? d i → (rest = some problem ↔ problem = .usedEarly i name d ∧ m.IsEarly d i)) →
      ((if !visible then some (.outOfScope i name d) else rest) = some problem ↔
        (problem = .outOfScope i name d ∧ ¬Visible m.kind? d i) ∨
        (problem = .usedEarly i name d ∧ Visible m.kind? d i ∧ m.IsEarly d i)) := by
    intro visible rest hvisible hrest
    by_cases hv : Visible m.kind? d i
    · simp [hvisible.2 hv, hrest hv, hv]
    · simp [Bool.eq_false_iff.2 fun ht => hv (hvisible.1 ht), hv, eq_comm]
  refine hif _ _ ?_ fun hv => ?_
  · simp only [Visible, ← howner]
    cases owner with
    | none => simp
    | some o => simpa using h.isAncestorOrSelf_iff
  · simp only [IsEarly, ← h.isBlockScoped_iff hd, ← h.crossesFunction_iff hi howner hv]
    cases m.isBlockScoped m.parents target with
    | false => simp
    | true =>
      cases m.crossesFunction m.parents owner i with
      | true => simp
      | false =>
        cases m.sourceOrder[i]? with
        | none => simp
        | some used =>
          cases m.sourceOrder[d]? with
          | none => simp
          | some declared => by_cases hlt : used < declared <;> simp [hlt, eq_comm]

/-- **What is reported about the bindings of identifiers**, in a sound module. -/
theorem mem_scopeProblems :
    problem ∈ m.scopeProblems m.parents ↔
      ∃ i name d, m.kind? i = some (.identifier name (some d)) ∧
        ((problem = .outOfScope i name d ∧ ¬Visible m.kind? d i) ∨
         (problem = .usedEarly i name d ∧ Visible m.kind? d i ∧ m.IsEarly d i)) := by
  rw [scopeProblems, mem_filterMap]
  -- A binding is resolved, so that the two checks on it that give nothing never apply.
  have htarget : ∀ {i name d}, m.kind? i = some (.identifier name (some d)) →
      ∃ target, m.nodes[d]? = some target ∧ target.kind.isBinding = true := by
    intro i name d hi
    obtain ⟨kind, hkind, hadmits⟩ :=
      h.resolved i _ hi ⟨"binding", d, .binding, false⟩ (by simp [Kind.references, Reference.cross])
    obtain ⟨target, ht, rfl⟩ := kind?_eq_some.1 hkind
    exact ⟨target, ht, hadmits⟩
  constructor
  · rintro ⟨node, hnode, hproblem⟩
    obtain ⟨i, hi⟩ := IdMap.mem_values.1 hnode
    have hid : node.id = i := h.keys i node hi
    split at hproblem
    next name d hkind =>
      have hik : m.kind? i = some (.identifier name (some d)) := kind?_eq_some.2 ⟨node, hi, hkind⟩
      obtain ⟨target, ht, hb⟩ := htarget hik
      rw [Module.node?, ht, hid] at hproblem
      dsimp only at hproblem
      rw [if_pos hb] at hproblem
      exact ⟨i, name, d, hik, (h.bindingProblem?_eq_some ht hb hik).1 hproblem⟩
    next => cases hproblem
  · rintro ⟨i, name, d, hik, hproblem⟩
    obtain ⟨node, hi, hkind⟩ := kind?_eq_some.1 hik
    obtain ⟨target, ht, hb⟩ := htarget hik
    refine ⟨node, IdMap.mem_values.2 ⟨i, hi⟩, ?_⟩
    rw [hkind]
    dsimp only
    rw [Module.node?, ht, h.keys i node hi]
    dsimp only
    rw [if_pos hb]
    exact (h.bindingProblem?_eq_some ht hb hik).2 hproblem

end Sound

theorem isValid_iff : m.isValid = true ↔ m.Sound ∧ m.scopeProblems m.parents = [] ∧ m.flowProblems = [] := by
  rw [isValid, List.isEmpty_iff, problems, ← sound_iff]
  simp only [append_eq_nil_iff, and_assoc]

theorem Sound.problems_eq (h : m.Sound) (hflow : m.flowProblems = []) : m.problems = m.scopeProblems m.parents := by
  obtain ⟨hform, hreference, htree⟩ := sound_iff.2 h
  rw [problems, hform, hreference, htree, hflow, append_nil, nil_append, nil_append, nil_append]

end Module

end Retarget
