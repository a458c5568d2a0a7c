import Retarget.Lower.Pattern
import Retarget.Proofs.Lower.Declaration

/-!
# Patterns

The steps that take a value apart become roots, in declarations and in assignments; the temporaries that hold
parts of the value can be used as long as the steps are not below a node that closes their scope.

* `destructurePattern_lowers`: a pattern takes the node of its value, and declares all its names in a declaration.
* `assignPattern_lowers` and `lexicalDeclaration_lowers`: assignments and declarations become one node.
-/

namespace Retarget

open Syntax LowerM List Syntax.Tree

variable {A B C : Multiset Root} {U : Set Fact} {r : Lowerers} {fills : Bool} {c : Category} {mode : BindingMode}

attribute [local simp] patternNames Kind.parts Kind.references sum_root_map

variable {p : Phrase} {excluded : List PatternKey} {pos : Pos} {value : NodeId} {temp : Temp} {key : PatternKey}
  {target value : NodeId}

theorem patternNames_eq : ∀ list : Tree (.list p), list.patternNames = list.toList.flatMap patternNames
  | .nil => rfl
  | .cons head tail => by
    rw [patternNames, patternNames_eq tail, toList_cons, flatMap_cons]

theorem patternNames_toOption (o : Tree (.opt p)) : o.patternNames = o.toOption.toList.flatMap patternNames := by
  cases o with
  | absent => rfl
  | present item => simp [toOption]

theorem string_lowers {value : String} :
    Lowers fills ∅ 0 (LowerM.string value pos) (root .expression) := syntheticTyped_done rfl rfl rfl

theorem number_lowers {value : Float} :
    Lowers fills ∅ 0 (LowerM.number value pos) (root .expression) := syntheticTyped_done rfl rfl rfl

theorem methodCall_lowers (object : NodeId) (method : String) (arguments : List NodeId) (pos : Pos) :
    Lowers fills ∅ (root .expression object + roots .expression arguments) (methodCall object method arguments pos)
      (root .expression) := by
  refine string_lowers.before fun property => ?_
  refine (synthetic_lowers (c := .expression) (.of_isFree rfl) rfl).into (B := roots .expression arguments)
    (by simp; abel)
    fun callee => ?_
  exact synthetic_done rfl rfl (by simp [Function.comp_def])

theorem assignableIdentifier_lowers {name : String} :
    Lowers fills ∅ 0 (assignableIdentifier name pos) (root .assignTarget) := by
  refine (resolve?_lowers name).andThen subset_rfl fun binding => .skip .get fun s => ?_
  rw [Set.empty_union]
  dsimp only
  split
  · exact .of_fails malformed_fails.bind
  · exact (node_lowers (.identifier name binding) rfl).done Reference.parts_cross.symm

theorem noteAssigned_quiet : Quiet (noteAssigned target value) := by
  refine kindOf_quiet.bind fun kind => ?_
  split
  · refine Quiet.get.bind fun s => typeOf_quiet.bind fun type => ?_
    split
    · exact recordType_quiet
    · exact .pure
  · exact .pure

theorem assignment_lowers (hC : C = root .assignTarget target + root .expression value) :
    Lowers fills ∅ C (synthetic (assignment target value) pos) (root .expression) :=
  synthetic_done rfl rfl hC

attribute [local simp] stepCategory

theorem bindTemp_lowers :
    Lowers fills ∅ (root .expression value) (bindTemp mode value pos) (fun result => root (stepCategory mode) result.2)
      fun result => {.usable result.1.id} := by
  cases mode with
  | declare kind =>
    refine .skip freshName_quiet fun name => .skip typeOf_quiet fun type => ?_
    have hallowed : (Kind.declarator name (some value)).Allowed ∅ := .of_isFree rfl
    refine (synthetic_lowers (c := .declarator) hallowed rfl).bind subset_rfl (add_zero _).symm fun id =>
      .skip recordType_quiet fun _ => .pure (by simp) ?_
    rintro v rfl
    exact .inr (usable_mem_madeFacts rfl rfl)
  | assign =>
    refine (pendingTemp_lowers pos).andThen subset_rfl fun temp => ?_
    rw [Set.empty_union]
    refine (useTemp_lowers (c := .assignTarget) rfl).beside subset_rfl fun target => ?_
    refine (assignment_lowers rfl).next (by simp) (add_zero _).symm fun step => ?_
    exact .pure (by simp) subset_rfl

theorem bindLeaf_lowers (hmode : mode = .assign ∨ fills = true) (id : Identifier) (value : NodeId) :
    Lowers fills ∅ (root .expression value) (bindLeaf mode id value) (root (stepCategory mode))
      fun _ => declaredFacts mode [id.name] := by
  unfold bindLeaf
  cases mode with
  | declare kind =>
    obtain rfl : fills = true := hmode.resolve_left nofun
    refine declareName_lowers.conseq (B := 0) subset_rfl (by simp)
      (by simp) ?_
    rintro step v ⟨name, hname, rfl⟩
    rw [mem_singleton.1 hname]
    exact .inr (.inr rfl)
  | assign =>
    refine assignableIdentifier_lowers.before fun target => ?_
    exact .skip noteAssigned_quiet fun _ => assignment_lowers rfl

theorem isUndefined_lowers : Lowers fills {.usable temp.id} 0 (isUndefined temp pos) (root .expression) := by
  refine temp_lowers.beside subset_rfl fun tested => ?_
  refine (synthetic_done (c := .expression) rfl rfl (by rfl)).before fun undefined => ?_
  exact synthetic_done rfl rfl (by simp; abel)

/-! ## Keys -/

def keyRoots : PatternKey → Multiset Root
  | .computed key => root .expression key
  | .name _ | .index _ | .held _ => 0

def keyFacts : PatternKey → Set Fact
  | .held temp => {.usable temp.id}
  | .name _ | .index _ | .computed _ => ∅

theorem keyRoots_of_isReusable (h : key.isReusable = true) : keyRoots key = 0 := by
  cases key <;> simp_all [PatternKey.isReusable, keyRoots]

theorem memberAccess_lowers :
    Lowers fills ({.usable temp.id} ∪ keyFacts key) (keyRoots key) (memberAccess temp key pos) (root .expression) := by
  have hlast : ∀ (object property : NodeId) (computed : Bool),
      Lowers fills ({.usable temp.id} ∪ keyFacts key) (root .expression property + root .expression object)
        (synthetic (.member object property computed) pos) (root .expression) := by
    intro object property computed
    exact synthetic_done rfl rfl (by simp; abel)
  refine temp_lowers.beside Set.subset_union_left fun object => ?_
  cases key with
  | name text =>
    refine string_lowers.before fun property => ?_
    exact hlast object property false
  | index i =>
    refine number_lowers.before fun property => ?_
    exact hlast object property true
  | computed key =>
    rw [add_comm]
    exact hlast object key true
  | held held =>
    refine temp_lowers.beside Set.subset_union_right fun property => ?_
    exact hlast object property true

def restFacts (temp : Temp) (excluded : List PatternKey) : Set Fact :=
  {.usable temp.id} ∪ {fact | ∃ key ∈ excluded, fact ∈ keyFacts key}

theorem objectRest_lowers (hexcluded : ∀ key ∈ excluded, key.isReusable = true) :
    Lowers fills (restFacts temp excluded) 0 (objectRest mode temp excluded pos)
      fun result => root .expression result.1 + roots (stepCategory mode) result.2 := by
  refine (resolve?_lowers "Object").andThen (Set.empty_subset _) fun binding => ?_
  refine ((synthetic_lowers (c := .expression) (.identifier "Object" binding) rfl).doneWith Set.subset_union_right
    Reference.parts_cross.symm).beside subset_rfl fun object => ?_
  refine (synthetic_done (c := .expression) rfl rfl (by rfl)).before fun empty => ?_
  refine temp_lowers.beside (by simp [restFacts]) fun source => ?_
  refine (methodCall_lowers object "assign" [empty, source] pos).next (B := 0) (Set.empty_subset _) ?_ fun copy => ?_
  · simp only [roots_cons, roots_nil]
    abel
  split
  · exact .ret (by simp)
  refine bindTemp_lowers.bind (Set.empty_subset _) rfl fun ⟨rest, step⟩ => ?_
  have hdelete : ∀ key ∈ excluded, Lowers fills (restFacts temp excluded ∪ usableFacts binding ∪ {.usable rest.id}) 0
      (do
        let access ← memberAccess rest key pos
        synthetic (.unary .delete access) pos) (root .expression) := by
    intro key hkey
    refine memberAccess_lowers.next (B := 0) ?_ ?_ fun access => ?_
    · rintro v (rfl | hv)
      · exact .inr rfl
      · exact .inl (.inl (.inr ⟨key, hkey, hv⟩))
    · rw [keyRoots_of_isReusable (hexcluded key hkey), add_zero]
    · exact synthetic_done rfl rfl (by simp)
  refine (Lowers.mapM_roots hdelete).beside subset_rfl fun deletions => ?_
  rw [sum_root]
  refine temp_lowers.beside Set.subset_union_right fun result => ?_
  exact (synthetic_lowers (c := .expression) (.of_isFree rfl) rfl).into (B := root (stepCategory mode) step)
    (by simp; abel)
    fun id => .ret (by simp)

theorem holdKey_lowers {needed : Bool} :
    Lowers fills (keyFacts key) (keyRoots key) (holdKey mode needed key pos)
      (fun result => keyRoots result.1 + roots (stepCategory mode) result.2) fun result => keyFacts result.1 := by
  unfold holdKey
  split
  · refine bindTemp_lowers.bind (by simp [keyFacts]) (add_zero _).symm fun ⟨temp, step⟩ => ?_
    exact .pure (by simp [keyRoots]) Set.subset_union_right
  · exact .pure (by simp) subset_rfl

section

variable (hr : r.Sound)
include hr

theorem lowerMember_lowers (hc : ∀ object property computed, c.admits (.member object property computed) = true)
    {m : Tree .member} : Lowers fills ∅ 0 (lowerMember r m) (root c) := by
  have hlast : ∀ (object property : NodeId) (computed : Bool) (pos : Pos) (type : Option TypeDescriptor),
      Lowers fills ∅ (root .expression property + root .expression object)
        (typed (.member object property computed) pos type) (root c) := by
    intro object property computed pos type
    exact typed_done rfl (hc object property computed) (by simp; abel)
  unfold lowerMember
  split
  rename_i object property computed optional pos
  dsimp only
  split
  · exact .of_fails unhandled_fails.bind
  · refine (hr.expr none object).before fun object => ?_
    split
    · refine (hr.expr none _).before fun property => ?_
      exact hlast object property true pos none
    · refine (typed_done (c := .expression) rfl rfl (by rfl)).before fun property => ?_
      exact hlast object property false pos _
    · exact .of_fails unhandled_fails.bind

theorem defaultValue_lowers {fallback : Expr} :
    Lowers fills ∅ (root .expression value) (defaultValue r mode value fallback pos)
      fun result => root .expression result.1 + root (stepCategory mode) result.2 := by
  refine bindTemp_lowers.bind subset_rfl (add_zero _).symm fun ⟨temp, step⟩ => ?_
  rw [Set.empty_union]
  refine isUndefined_lowers.beside subset_rfl fun test => ?_
  refine (hr.expr none fallback).before fun fallback => ?_
  refine temp_lowers.beside subset_rfl fun current => ?_
  refine .skip unionType_quiet fun type => ?_
  exact (syntheticTyped_lowers (.of_isFree rfl) rfl).into
    (B := root (stepCategory mode) step) (by simp; abel) fun id => .ret rfl

theorem patternKey_lowers {key : Expr} {computed : Bool} :
    Lowers fills ∅ 0 (patternKey r key computed) keyRoots keyFacts := by
  unfold patternKey
  split
  · refine (hr.expr none key).before fun id => .pure (by simp [keyRoots]) subset_rfl
  split
  · exact .pure rfl subset_rfl
  · exact .pure rfl subset_rfl
  · exact .of_fails malformed_fails

variable (hmode : mode = .assign ∨ fills = true) {pattern : Pattern}
include hmode

theorem destructureMembers_lowers {hasRest : Bool} {members : List (Tree .patternMember)}
    (hexcluded : ∀ key ∈ excluded, key.isReusable = true) :
    Lowers fills (restFacts temp excluded) 0 (destructureMembers r mode temp hasRest excluded members)
      (roots (stepCategory mode)) fun _ => declaredFacts mode (members.flatMap patternNames) := by
  induction members generalizing excluded with
  | nil => exact .pure rfl (by cases mode <;> simp [declaredFacts, settledFacts])
  | cons member more ih =>
    rw [flatMap_cons, declaredFacts_append]
    cases member with
    | patternProperty key value computed shorthand pos =>
      refine (patternKey_lowers hr).andThen (Set.empty_subset _) fun key => ?_
      refine holdKey_lowers.bind Set.subset_union_right rfl fun result => ?_
      obtain ⟨key, holding⟩ := result
      refine memberAccess_lowers.next (B := roots (stepCategory mode) holding) ?_ (by abel)
        fun access => ?_
      · rintro v (rfl | hv)
        · exact .inl (.inl (.inl rfl))
        · exact .inr hv
      refine (hr.destructure mode value access hmode).bind (Set.empty_subset _) rfl fun result => ?_
      have hothers : Lowers fills (restFacts temp excluded ∪ keyFacts key) 0
          (destructureMembers r mode temp hasRest (if key.isReusable then excluded ++ [key] else excluded) more)
          (roots (stepCategory mode)) fun _ => declaredFacts mode (more.flatMap patternNames) := by
        split
        next hkey =>
          refine (ih ?_).weaken ?_
          · intro k hk
            rcases mem_append.1 hk with hk | hk
            · exact hexcluded k hk
            · rwa [mem_singleton.1 hk]
          · rintro v (hv | ⟨k, hk, hv⟩)
            · exact .inl (.inl hv)
            · rcases mem_append.1 hk with hk | hk
              · exact .inl (.inr ⟨k, hk, hv⟩)
              · rw [mem_singleton.1 hk] at hv
                exact .inr hv
        next => exact (ih hexcluded).weaken Set.subset_union_left
      refine hothers.andThen ?_ fun others => .pure ?_ ?_
      · rintro v (hv | hv)
        · exact .inl (.inl (.inl hv))
        · exact .inl (.inr hv)
      · simp only [roots_append]
        abel
      · rintro v (hv | hv)
        · exact .inl (.inr (.inl hv))
        · exact .inr hv
    | patternRest argument pos =>
      refine (objectRest_lowers hexcluded).beside subset_rfl fun result => ?_
      obtain ⟨collected, copying⟩ := result
      refine (hr.destructure mode argument collected hmode).bind (B := roots (stepCategory mode) copying)
        (Set.empty_subset _) (by simp) fun result => ?_
      refine (ih hexcluded).andThen Set.subset_union_left fun others => .pure ?_ ?_
      · simp only [roots_append]
        abel
      · rintro v (hv | hv)
        · exact .inl (.inr (.inl hv))
        · exact .inr hv

theorem destructureElements_lowers (temp : Temp) (elements : List (Option Pattern)) (index : Nat) :
    Lowers fills {.usable temp.id} 0 (destructureElements r mode temp index elements) (roots (stepCategory mode))
      fun _ => declaredFacts mode (elements.flatMap fun o => o.toList.flatMap patternNames) := by
  have helement : ∀ (element : Pattern) (access : NodeId) (index : Nat) (more : List (Option Pattern)),
      Lowers fills {.usable temp.id} 0 (destructureElements r mode temp index more) (roots (stepCategory mode))
        (fun _ => declaredFacts mode (more.flatMap fun o => o.toList.flatMap patternNames)) →
      Lowers fills {.usable temp.id} (root .expression access)
        (do
          let result ← r.destructure mode element access
          return result.1 ++ (← destructureElements r mode temp index more)) (roots (stepCategory mode))
        fun _ => declaredFacts mode ((some element :: more).flatMap fun o => o.toList.flatMap patternNames) := by
    intro element access index more ih
    rw [flatMap_cons, Option.toList_some, flatMap_singleton, declaredFacts_append]
    refine (hr.destructure mode element access hmode).bind (Set.empty_subset _) (add_zero _).symm
      fun result => ?_
    obtain ⟨steps, _⟩ := result
    refine ih.bind (B := roots (stepCategory mode) steps) Set.subset_union_left (by simp) fun others => .pure ?_ ?_
    · rw [roots_append, add_comm]
    · rintro v (hv | hv)
      · exact .inl (.inr (.inl hv))
      · exact .inr hv
  fun_induction destructureElements r mode temp index elements with
  | case1 => exact .pure rfl (by cases mode <;> simp [declaredFacts, settledFacts])
  | case2 index more ih => exact ih
  | case3 index argument pos more ih =>
    refine temp_lowers.beside subset_rfl fun object => ?_
    refine number_lowers.before fun start => ?_
    refine (methodCall_lowers object "slice" [start] pos).next (B := 0) (Set.empty_subset _) ?_ fun sliced => ?_
    · simp only [roots_cons, roots_nil]
      abel
    · exact helement argument sliced (index + 1) more ih
  | case4 index element more _ ih =>
    refine memberAccess_lowers.next (B := 0) (by simp [keyFacts]) rfl
      fun access => ?_
    exact helement element access (index + 1) more ih

/-- **A pattern takes the node of its value**, and its steps become roots. -/
theorem destructurePattern_lowers :
    Lowers fills ∅ (root .expression value) (destructurePattern r mode pattern value)
      (fun result => roots (stepCategory mode) result.1)
      fun result => declaredFacts mode pattern.patternNames ∪ keptTemp mode result.2 := by
  have hkept : ∀ temp, keptTemp mode (some temp) ⊆ {.usable temp.id} := by
    intro temp
    cases mode with
    | declare => exact Set.empty_subset _
    | assign => exact subset_rfl
  have hnone : keptTemp mode none = ∅ := by cases mode <;> rfl
  unfold destructurePattern
  split
  next id =>
    refine (bindLeaf_lowers hmode id value).bind (B := 0) subset_rfl (by simp) fun step => ?_
    refine .pure (by simp) ?_
    rw [hnone, Set.union_empty]
    exact Set.subset_union_right
  next m =>
    split
    · exact .of_fails malformed_fails.bind
    next hassign =>
      obtain rfl : mode = .assign := by simpa using hassign
      refine (lowerMember_lowers hr (c := .assignTarget) (fun _ _ _ => rfl)).before fun target => ?_
      refine (assignment_lowers rfl).next (B := 0) subset_rfl (by simp) fun step => ?_
      exact .pure (by simp) (by simp [keptTemp, declaredFacts])
  next target fallback pos =>
    refine (defaultValue_lowers hr).next (B := 0) subset_rfl (by simp)
      fun result => ?_
    obtain ⟨value, step⟩ := result
    refine (hr.destructure mode target value hmode).bind (B := root (stepCategory mode) step) subset_rfl (by simp)
      fun result => ?_
    refine .pure ?_ Set.subset_union_right
    rw [roots_cons, add_comm]
  next members pos =>
    refine bindTemp_lowers.bind subset_rfl (add_zero _).symm fun result => ?_
    obtain ⟨temp, step⟩ := result
    refine (destructureMembers_lowers hr hmode (by simp)).andThen (by simp [restFacts]) fun steps => .pure ?_ ?_
    · rw [roots_cons, add_zero, add_comm]
    · rw [patternNames, patternNames_eq]
      exact Set.union_subset Set.subset_union_right ((hkept temp).trans (by simp))
  next elements pos =>
    refine bindTemp_lowers.bind subset_rfl (add_zero _).symm fun result => ?_
    obtain ⟨temp, step⟩ := result
    refine (destructureElements_lowers hr hmode temp _ 0).andThen Set.subset_union_right
      fun steps => .pure ?_ ?_
    · rw [roots_cons, add_zero, add_comm]
    · have hnames : elements.patternNames =
          (elements.toList.map toOption).flatMap fun o => o.toList.flatMap patternNames := by
        rw [patternNames_eq, flatMap_map]
        exact congrArg (List.flatMap · _) (funext patternNames_toOption)
      rw [patternNames, hnames]
      exact Set.union_subset Set.subset_union_right ((hkept temp).trans (by simp))
  next => exact .of_fails malformed_fails

omit hmode

theorem assignLowered_lowers :
    Lowers fills ∅ (root .expression value) (assignLowered r pattern value pos) (root .expression) := by
  refine (hr.destructure .assign pattern value (.inl rfl)).bind subset_rfl (add_zero _).symm fun ⟨steps, temp⟩ => ?_
  cases temp
  case' some temp =>
    refine temp_lowers.beside ?_ fun last => ?_
    · exact fun v hv => .inr (.inr hv)
  all_goals
    dsimp only
    rw [pure_bind]
    split
    next hsteps =>
      refine .ret ?_
      simpa [add_comm] using congrArg (roots .expression) hsteps
    next =>
      exact synthetic_done rfl rfl (by simp [add_comm])

/-- **An assignment becomes one expression.** -/
theorem assignPattern_lowers {target : Pattern} {value : Expr} :
    Lowers fills ∅ 0 (assignPattern r target value pos) (root .expression) := by
  have hlast : ∀ target value, Lowers fills ∅ (root .assignTarget target + root .expression value)
      (do typed (assignment target value) pos (← typeOf value)) (root .expression) := fun target value =>
    .skip typeOf_quiet fun type => typed_done rfl rfl (by simp [assignment])
  unfold assignPattern
  split
  next id =>
    refine (hr.expr _ value).before fun value => ?_
    refine assignableIdentifier_lowers.before fun target => ?_
    exact .skip noteAssigned_quiet fun _ => hlast target value
  next m =>
    refine (hr.expr none value).before fun value => ?_
    refine (lowerMember_lowers hr (c := .assignTarget) (fun _ _ _ => rfl)).before fun target => ?_
    exact hlast target value
  next =>
    refine (hr.expr none value).before fun value => ?_
    exact assignLowered_lowers hr

theorem declareLowered_lowers {kind : DeclarationKind} :
    Lowers true ∅ (root .expression value) (declareLowered r pattern value kind) (root .statement) := by
  refine (hr.destructure (.declare kind) pattern value (.inr rfl)).next subset_rfl (add_zero _).symm
    fun ⟨steps, _⟩ => ?_
  exact synthetic_done rfl rfl (by simp)

theorem optional_lowers {hint : Option String} (e : Option Expr) :
    Lowers fills ∅ 0 (e.mapM (r.expr hint)) fun o => roots .expression o.toList :=
  Lowers.mapOption (hr.expr hint) e

theorem lexicalDeclarator_lowers (kind : DeclarationKind) (d : Tree .declarator) :
    Lowers true ∅ 0 (lexicalDeclarator r kind d) (roots .declarator) fun _ => settledFacts d.patternNames := by
  unfold lexicalDeclarator
  split
  next id init pos =>
    split
    · exact .of_fails malformed_fails.bind
    · refine (optional_lowers hr init.toOption).before fun init => ?_
      refine declareName_lowers.bind subset_rfl rfl fun id' => .pure (by simp) ?_
      rintro v ⟨name, hname, rfl⟩
      simp only [patternNames, mem_singleton] at hname
      exact .inr (.inr (congrArg _ hname))
  next pattern init _ _ =>
    refine (hr.expr none init).before fun value => ?_
    refine (hr.destructure (.declare kind) pattern value (.inr rfl)).bind subset_rfl rfl fun ⟨steps, _⟩ => ?_
    exact .pure (by simp) fun v hv => .inr (.inl hv)
  next => exact .of_fails malformed_fails

/-- **A declaration becomes one node**, and all its names are declared. -/
theorem lexicalDeclaration_lowers (hc : ∀ kind ds, c.admits (.variableDecl kind ds) = true) (d : Tree .declaration) :
    Lowers true ∅ 0 (lexicalDeclaration r d) (root c) fun _ => settledFacts d.patternNames := by
  unfold lexicalDeclaration
  split
  next kind declarators pos =>
    have hone : ∀ d ∈ declarators.toList, Lowers true ∅ 0 (lexicalDeclarator r kind d) (roots .declarator)
        fun _ => ∅ ∪ settledFacts d.patternNames := fun d _ => by
      rw [Set.empty_union]
      exact lexicalDeclarator_lowers hr kind d
    refine (Lowers.mapM hone).andThen subset_rfl fun steps => ?_
    refine (node_lowers (.of_isFree rfl) (hc kind _)).conseq (B := 0) subset_rfl ?_ (by simp) ?_
    · rw [sum_roots]
      simp [Kind.parts, Kind.references]
    · rintro _ v ⟨name, hname, rfl⟩
      rw [patternNames, patternNames_eq] at hname
      obtain ⟨d, hd, hname⟩ := mem_flatMap.1 hname
      exact .inl (.inr (.inr ⟨d, hd, name, hname, rfl⟩))

theorem varAssignments_lowers {declarators : List (Tree .declarator)} :
    Lowers fills ∅ 0 (varAssignments r declarators) (roots .expression) := by
  refine (Lowers.mapM_roots (R := roots .expression) fun d _ => ?_).before fun assignments => .ret ?_
  · split
    · refine (assignPattern_lowers hr).before fun id => .ret (by simp)
    · exact .ret rfl
  · rw [sum_roots, add_zero]

end

end Retarget
