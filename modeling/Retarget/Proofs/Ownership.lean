import Retarget.Module.Parents
import Retarget.Proofs.Table

/-!
# Ownership

Which node owns which, as a relation on the ids of a program, and the recorded owners as a way to decide it.

* `Kind.children_eq`: the children of a node of each kind.
* `Owns`, `Encloses` and `Contains` are direct ownership, ownership through any number of nodes, and the
  same with the node itself.
* `IsForest`: no node has two owners, and none owns itself. The nodes above a node are then in a row.
* `Parents.inCycle_iff`: the search upward finds a circle exactly if there is one, in every graph.
* `Parents.mem_ancestors`: without circles, the ancestors of a node are all its owners, direct or not.
* `Parents.conflicts_eq_nil` and `Module.owner_iff`: without conflicts, the recorded owners are all owners.
-/

namespace Retarget

open Relation List Option TransGen

/-! ## Children -/

namespace Reference

def ownedTargets (references : List Reference) : List NodeId := (references.filter (·.owned)).map (·.target)

@[simp]
theorem ownedTargets_append (l l' : List Reference) : ownedTargets (l ++ l') = ownedTargets l ++ ownedTargets l' := by
  simp [ownedTargets]

section

variable (field : String)
include field

@[simp]
theorem ownedTargets_one (id : NodeId) (category : Category) : ownedTargets (one field id category) = [id] := rfl

@[simp]
theorem ownedTargets_opt (id : Option NodeId) (category : Category) :
    ownedTargets (opt field id category) = id.toList := by cases id <;> rfl

@[simp]
theorem ownedTargets_many (ids : List NodeId) (category : Category) : ownedTargets (many field ids category) = ids := by
  rw [ownedTargets, many, filter_eq_self.2]
  · exact ext_getElem (by simp) fun i h h' => by simp
  · intro r hr
    obtain ⟨i, hi, rfl⟩ := mem_mapIdx.1 hr
    rfl

@[simp]
theorem ownedTargets_items (list : List ListItem) : ownedTargets (items field list) = list.map (·.value) := by
  rw [ownedTargets, items, filter_eq_self.2]
  · exact ext_getElem (by simp) fun i h h' => by simp
  · intro r hr
    obtain ⟨i, hi, rfl⟩ := mem_mapIdx.1 hr
    rfl

@[simp]
theorem ownedTargets_cross (id : Option NodeId) (category : Category) :
    ownedTargets (cross field id category) = [] := by cases id <;> rfl

end

end Reference

variable {kind : Kind}

namespace Kind

def functionChildren (f : FunctionNode) : List NodeId := f.params ++ f.rest.toList ++ [f.body]

def classChildren (c : ClassNode) : List NodeId :=
  c.superClass.toList ++ [c.constructor] ++ c.methods ++ c.staticProperties ++ [c.metadata] ++ [c.prototype]

/-- The children of a node in the order of its fields, kind by kind. -/
def childList : Kind → List NodeId
  | template parts => parts
  | binary _ left right | logical _ left right => [left, right]
  | unary _ argument | spread argument | awaitExpr argument | throwStmt argument | update _ _ argument
  | rest argument => [argument]
  | assign _ target value => [target, value]
  | conditional test consequent alternate => [test, consequent, alternate]
  | call callee arguments _ | newExpr callee arguments _ => callee :: arguments.map (·.value)
  | member base key _ => [base, key]
  | array elements _ => elements.map (·.value)
  | object properties => properties
  | property key value _ => [key, value]
  | sequence expressions => expressions
  | functionExpr f | arrow f | functionDecl f => functionChildren f
  | classExpr c | classDecl c => classChildren c
  | variableDecl _ declarations => declarations
  | declarator _ init => init.toList
  | method _ value _ _ _ => [value]
  | exprStmt expression => [expression]
  | block body => body
  | ifStmt test consequent alternate => test :: consequent :: alternate.toList
  | forStmt init test step body => init.toList ++ test.toList ++ step.toList ++ [body]
  | forEach _ binding iterable body => [binding, iterable, body]
  | whileStmt test body | doWhile body test => [test, body]
  | returnStmt argument => argument.toList
  | tryStmt body handler finalizer => body :: (handler.toList ++ finalizer.toList)
  | catchClause param body => param.toList ++ [body]
  | switchStmt discriminant cases => discriminant :: cases
  | switchCase test consequent => test.toList ++ consequent
  | _ => []

theorem children_eq (kind : Kind) : kind.children = kind.childList := by
  change Reference.ownedTargets kind.references = kind.childList
  cases kind <;> simp [references, childList, FunctionNode.references, functionChildren,
    ClassNode.references, classChildren]
  all_goals rfl

theorem exists_reference_of_mem_children {c : NodeId} (h : c ∈ kind.children) :
    ∃ r ∈ kind.references, r.target = c ∧ r.owned = true := by
  obtain ⟨r, hr, rfl⟩ := mem_map.1 h
  exact ⟨r, (mem_filter.1 hr).1, rfl, (mem_filter.1 hr).2⟩

end Kind

/-! ## Owners -/

variable {g : NodeId → Option Kind} {a b c p q x y : NodeId}

/-- `p` owns `c`; `g` says what the nodes are. -/
def Owns (g : NodeId → Option Kind) (p c : NodeId) : Prop := ∃ kind, g p = some kind ∧ c ∈ kind.children

/-- `a` owns `x`, directly or through others. -/
abbrev Encloses (g : NodeId → Option Kind) : NodeId → NodeId → Prop := TransGen (Owns g)

/-- `a` is `x` or owns it. -/
abbrev Contains (g : NodeId → Option Kind) : NodeId → NodeId → Prop := ReflTransGen (Owns g)

structure IsForest (g : NodeId → Option Kind) : Prop where
  owner_unique : ∀ {p q c}, Owns g p c → Owns g q c → p = q
  acyclic : ∀ x, ¬Encloses g x x

theorem Owns.of_eq (h : g p = some kind) (hc : c ∈ kind.children) : Owns g p c :=
  ⟨kind, h, hc⟩

theorem owns_iff (h : g p = some kind) : Owns g p c ↔ c ∈ kind.children := by
  simp [Owns, h]

namespace IsForest

theorem contains_of_encloses (h : IsForest g) (hx : Encloses g a x) (hp : Owns g p x) : Contains g a p := by
  obtain ⟨q, haq, hqx⟩ := tail'_iff.1 hx
  rwa [h.owner_unique hp hqx]

theorem contains_cases (h : IsForest g) (hx : Contains g a x) (hp : Owns g p x) : a = x ∨ Contains g a p := by
  rcases ReflTransGen.cases_tail hx with rfl | ⟨q, haq, hqx⟩
  · exact .inl rfl
  · rw [h.owner_unique hp hqx]
    exact .inr haq

theorem contains_total (h : IsForest g) (ha : Contains g a x) (hb : Contains g b x) :
    Contains g a b ∨ Contains g b a := by
  induction ha with
  | refl => exact .inr hb
  | tail hac hcx ih =>
    rcases h.contains_cases hb hcx with rfl | hb
    · exact .inl (hac.tail hcx)
    · exact ih hb

theorem not_contains_of_owns (h : IsForest g) (hp : Owns g p x) : ¬Contains g x p := fun hx =>
  h.acyclic p (head' hp hx)

end IsForest

namespace Parents

variable {r : Parents} {id : NodeId}

/-- `a` is recorded as the owner of `c`. -/
def Owner (r : Parents) (a c : NodeId) : Prop := r.parent? c = some a

/-! ## Circles -/

theorem mem_of_transGen {S : NodeId → Prop} (closed : ∀ x q, S x → r.Owner q x → S q) (hx : S x)
    (h : TransGen r.Owner y x) : S y := by
  induction h using head_induction_on with
  | single hyx => exact closed _ _ hx hyx
  | head hyz _ ih => exact closed _ _ ih hyz

variable {goal : NodeId} {fuel : Nat} {seen : IdSet} {row : List NodeId}

theorem transGen_of_meets (h : r.meets goal fuel seen x = true) : TransGen r.Owner goal x := by
  induction fuel generalizing seen x with
  | zero => exact absurd h (by simp [meets])
  | succ fuel ih =>
    rw [meets] at h
    split at h
    next => exact absurd h (by simp)
    next q hq =>
      rw [Bool.or_eq_true, Bool.and_eq_true, beq_iff_eq] at h
      rcases h with rfl | ⟨-, h⟩
      · exact .single hq
      · exact (ih h).tail hq

/-- On the way up, `passed` are the nodes before `x`, and `seen` holds those after the first, `x` included.
Unless the goal is met, a repeated node closes a circle without the goal. -/
theorem meets_of_transGen (passed : List NodeId) (h : TransGen r.Owner goal x) (hnodup : (x :: passed).Nodup)
    (hkeys : ∀ y ∈ passed, y ∈ r.owner) (hfuel : r.owner.size < fuel + passed.length)
    (hseen : ∀ y ∈ seen, y ∈ x :: passed ∧ y ≠ goal) (hclosed : ∀ y ∈ seen, y ≠ x → ∀ q, r.Owner q y → q ∈ seen)
    (hx : x ∈ seen ∨ ∀ y, y ∉ seen) (hfresh : ∀ y ∈ x :: passed, y ∉ seen → y = goal) :
    r.meets goal fuel seen x = true := by
  induction fuel generalizing seen x passed with
  | zero =>
    exact absurd (IdMap.length_le_size (nodup_cons.1 hnodup).2 hkeys) (by omega)
  | succ fuel ih =>
    obtain ⟨q, hgq, hqx⟩ := tail'_iff.1 h
    rw [meets, show r.parent? x = some q from hqx]
    by_cases hq : q = goal
    · simp [hq]
    have hqseen : q ∉ seen := by
      intro hq'
      have hxs : x ∈ seen := hx.resolve_right fun hnone => hnone q hq'
      refine (hseen goal (mem_of_transGen ?_ hxs h)).2 rfl
      intro y z hy hz
      by_cases hyx : y = x
      · subst hyx
        rwa [some.inj (hz.symm.trans hqx)]
      · exact hclosed y hy hyx z hz
    have hgq' : TransGen r.Owner goal q :=
      (reflTransGen_iff_eq_or_transGen.1 hgq).resolve_left hq
    have hne : q ∉ x :: passed := fun hmem => hq (hfresh q hmem hqseen)
    have hxkey : x ∈ r.owner := IdMap.mem_iff.2 ⟨q, hqx⟩
    simp only [hqseen, decide_false, Bool.not_false, Bool.true_and, Bool.or_eq_true]
    refine .inr (ih _ hgq' (nodup_cons.2 ⟨hne, hnodup⟩) ?_ ?_ ?_ ?_ ?_ ?_)
    · exact forall_mem_cons.2 ⟨hxkey, hkeys⟩
    · rw [length_cons]
      omega
    · intro y hy
      rcases Std.ExtTreeSet.mem_insert.1 hy with hy | hy
      · obtain rfl : q = y := by simpa using hy
        exact ⟨mem_cons_self, hq⟩
      · exact ⟨mem_cons_of_mem _ (hseen y hy).1, (hseen y hy).2⟩
    · intro y hy hyq z hz
      rcases Std.ExtTreeSet.mem_insert.1 hy with hy | hy
      · exact absurd (by simpa using hy : q = y).symm hyq
      by_cases hyx : y = x
      · subst hyx
        rw [some.inj (hz.symm.trans hqx)]
        exact Std.ExtTreeSet.mem_insert_self
      · exact Std.ExtTreeSet.mem_insert.2 (.inr (hclosed y hy hyx z hz))
    · exact .inl Std.ExtTreeSet.mem_insert_self
    · intro y hy hys
      rw [Std.ExtTreeSet.mem_insert, not_or] at hys
      rcases mem_cons.1 hy with rfl | hy
      · exact absurd (by simp) hys.1
      · exact hfresh y hy hys.2

/-- **The search for circles is exact**, in every graph. -/
theorem inCycle_iff : r.inCycle id = true ↔ TransGen r.Owner id id := by
  refine ⟨transGen_of_meets, fun h => ?_⟩
  refine meets_of_transGen [] h (by simp) (by simp) (by simp) ?_ ?_ (.inr ?_) ?_ <;>
    simp [Std.ExtTreeSet.not_mem_empty]

/-! ## Ancestors -/

/-- `row` are the owners upward from a node to one that has none. -/
inductive IsRow (r : Parents) : NodeId → List NodeId → Prop
  | nil {low : NodeId} (h : r.parent? low = none) : IsRow r low []
  | cons {low high : NodeId} {row : List NodeId} (h : r.parent? low = some high) (tail : IsRow r high row) :
    IsRow r low (high :: row)

theorem IsRow.eq {row' : List NodeId} (h : r.IsRow x row) (h' : r.IsRow x row') : row = row' := by
  induction h generalizing row' with
  | nil h =>
    cases h' with
    | nil => rfl
    | cons hq => exact absurd (h.symm.trans hq) nofun
  | cons hq _ ih =>
    cases h' with
    | nil h => exact absurd (h.symm.trans hq) nofun
    | cons hq' tail =>
      cases hq.symm.trans hq'
      rw [ih tail]

theorem IsRow.mem_iff (h : r.IsRow x row) : y ∈ row ↔ TransGen r.Owner y x := by
  induction h with
  | nil h =>
    refine ⟨nofun, fun hy => ?_⟩
    obtain ⟨q, -, hq⟩ := tail'_iff.1 hy
    exact absurd (h.symm.trans hq) nofun
  | cons hq _ ih =>
    rw [mem_cons, ih]
    constructor
    · rintro (rfl | hy)
      · exact .single hq
      · exact hy.tail hq
    · intro hy
      obtain ⟨z, hyz, hz⟩ := tail'_iff.1 hy
      rw [← some.inj (hq.symm.trans hz)] at hyz
      exact (reflTransGen_iff_eq_or_transGen.1 hyz).imp Eq.symm fun h => h

section

variable (hacyclic : ∀ x, ¬TransGen r.Owner x x)
include hacyclic

theorem isRow_chain (passed : List NodeId) (hnodup : (x :: passed).Nodup)
    (hkeys : ∀ y ∈ passed, y ∈ r.owner) (hfuel : r.owner.size < fuel + passed.length)
    (hseen : ∀ y ∈ seen, ReflTransGen r.Owner x y) (hpassed : ∀ y ∈ x :: passed, y ∈ seen) :
    r.IsRow x (r.chain fuel seen x) := by
  induction fuel generalizing seen x passed with
  | zero => exact absurd (IdMap.length_le_size (nodup_cons.1 hnodup).2 hkeys) (by omega)
  | succ fuel ih =>
    rw [chain]
    split
    next h => exact .nil h
    next q hq =>
      have hq' : q ∉ seen := fun hmem => hacyclic q (head' hq (hseen q hmem))
      rw [if_neg hq']
      have hxkey : x ∈ r.owner := IdMap.mem_iff.2 ⟨q, hq⟩
      have hne : q ∉ x :: passed := fun hmem => hq' (hpassed q hmem)
      refine .cons hq (ih _ (nodup_cons.2 ⟨hne, hnodup⟩) ?_ ?_ ?_ ?_)
      · exact forall_mem_cons.2 ⟨hxkey, hkeys⟩
      · rw [length_cons]
        omega
      · intro y hy
        rcases Std.ExtTreeSet.mem_insert.1 hy with hy | hy
        · obtain rfl : q = y := by simpa using hy
          exact .refl
        · exact (hseen y hy).head hq
      · intro y hy
        rcases mem_cons.1 hy with rfl | hy
        · exact Std.ExtTreeSet.mem_insert_self
        · exact Std.ExtTreeSet.mem_insert.2 (.inr (hpassed y hy))

theorem isRow_ancestors (x : NodeId) : r.IsRow x (r.ancestors x) := by
  refine isRow_chain hacyclic [] (by simp) (by simp) (by simp) ?_ ?_
  · intro y hy
    have hxy : x = y := by simpa using hy
    rw [hxy]
  · simp

theorem mem_ancestors : y ∈ r.ancestors x ↔ TransGen r.Owner y x := (isRow_ancestors hacyclic x).mem_iff

theorem ancestors_of_some (h : r.parent? x = some q) : r.ancestors x = q :: r.ancestors q :=
  (isRow_ancestors hacyclic x).eq (.cons h (isRow_ancestors hacyclic q))

theorem isAncestorOrSelf_iff : r.isAncestorOrSelf a x = true ↔ ReflTransGen r.Owner a x := by
  rw [isAncestorOrSelf, Bool.or_eq_true, beq_iff_eq, contains_iff_mem, mem_ancestors hacyclic,
    reflTransGen_iff_eq_or_transGen, eq_comm]

end

/-! ## Recording owners -/

/-- The owners and their children, in the order in which they are recorded. -/
def claims (nodes : List Node) : List (NodeId × NodeId) :=
  nodes.flatMap fun node => node.kind.children.map (node.id, ·)

theorem ofNodes_eq (nodes : List Node) : ofNodes nodes = (claims nodes).foldl (fun r l => r.claim l.1 l.2) {} := by
  rw [claims, foldl_flatMap]
  simp only [foldl_map]
  rfl

structure Records (r : Parents) (l : List (NodeId × NodeId)) : Prop where
  mem_of_owner : ∀ {a c}, r.Owner a c → (a, c) ∈ l
  exists_owner : ∀ {a c}, (a, c) ∈ l → ∃ q, r.Owner q c
  conflicts : r.conflicts = [] ↔ ∀ a b c, (a, c) ∈ l → (b, c) ∈ l → a = b

theorem Records.claim {l : List (NodeId × NodeId)} (h : Records r l) (a c : NodeId) :
    Records (r.claim a c) (l ++ [(a, c)]) := by
  rw [Parents.claim]
  split
  next hnone =>
    -- The child is claimed for the first time, so that no claim can clash with this one.
    have hnew : ∀ b, (b, c) ∉ l := fun b hb => by
      obtain ⟨q, hq⟩ := h.exists_owner hb
      exact absurd (hnone.symm.trans hq) nofun
    have howner : ∀ b d, Owner { r with owner := r.owner.insert c a } b d ↔
        (c = d ∧ a = b) ∨ (c ≠ d ∧ r.Owner b d) := by
      intro b d
      simp only [Owner, parent?, Std.ExtTreeMap.getElem?_insert]
      by_cases hcd : c = d <;> simp [hcd]
    refine ⟨fun hb => ?_, fun hb => ?_, ?_⟩
    · rcases (howner _ _).1 hb with ⟨rfl, rfl⟩ | ⟨-, hb⟩
      · simp
      · exact mem_append_left _ (h.mem_of_owner hb)
    · rename_i b d
      by_cases hcd : c = d
      · exact ⟨a, (howner _ _).2 (.inl ⟨hcd, rfl⟩)⟩
      · have hb' : (b, d) ∈ l := by simpa [Ne.symm hcd] using hb
        obtain ⟨q, hq⟩ := h.exists_owner hb'
        exact ⟨q, (howner _ _).2 (.inr ⟨hcd, hq⟩)⟩
    · rw [h.conflicts]
      grind
  next first hfirst =>
    have hmem : (first, c) ∈ l := h.mem_of_owner hfirst
    split
    next heq =>
      obtain rfl : first = a := by simpa using heq
      have hl : ∀ b d, (b, d) ∈ l ++ [(first, c)] ↔ (b, d) ∈ l := by
        intro b d
        simp only [mem_append, mem_singleton, Prod.mk.injEq]
        exact ⟨fun hb => hb.elim id fun ⟨hb, hd⟩ => by rw [hb, hd]; exact hmem, .inl⟩
      refine ⟨fun hb => (hl _ _).2 (h.mem_of_owner hb), fun hb => h.exists_owner ((hl _ _).1 hb), ?_⟩
      simp only [hl, h.conflicts]
    next hne =>
      have hne' : first ≠ a := by simpa using hne
      refine ⟨fun hb => mem_append_left _ (h.mem_of_owner hb), fun hb => ?_, ?_⟩
      · rcases mem_append.1 hb with hb | hb
        · exact h.exists_owner hb
        · cases mem_singleton.1 hb
          exact ⟨first, hfirst⟩
      · refine ⟨fun hnil => absurd hnil (by simp), fun hall => ?_⟩
        exact absurd (hall first a c (mem_append_left _ hmem) (by simp)) hne'

theorem records_ofNodes (nodes : List Node) : Records (ofNodes nodes) (claims nodes) := by
  rw [ofNodes_eq]
  suffices h : ∀ (l done : List (NodeId × NodeId)) (r : Parents), Records r done →
      Records (l.foldl (fun r l => r.claim l.1 l.2) r) (done ++ l) by
    refine h (claims nodes) [] {} ⟨fun ho => ?_, nofun, ?_⟩
    · exact absurd ho (by simp [Owner, parent?])
    · simp
  intro l
  induction l with
  | nil => simp
  | cons head tail ih =>
    intro done r hr
    have := ih (done ++ [head]) _ (hr.claim head.1 head.2)
    simpa using this

end Parents

/-! ## The owners in a table -/

def NodeTable.KeysMatch (nodes : NodeTable) : Prop :=
  ∀ (id : NodeId) (node : Node), nodes[id]? = some node → node.id = id

section Table

variable {nodes : NodeTable}

section

variable (hkeys : nodes.KeysMatch)
include hkeys

theorem Parents.mem_claims : (a, c) ∈ claims nodes.values ↔ Owns nodes.kind? a c := by
  simp only [claims, mem_flatMap, List.mem_map, Prod.mk.injEq, IdMap.mem_values, Owns,
    NodeTable.kind?_eq_some]
  constructor
  · rintro ⟨node, ⟨id, hnode⟩, child, hchild, rfl, rfl⟩
    rw [hkeys id node hnode]
    exact ⟨node.kind, ⟨node, hnode, rfl⟩, hchild⟩
  · rintro ⟨kind, ⟨node, hnode, rfl⟩, hchild⟩
    exact ⟨node, ⟨a, hnode⟩, c, hchild, hkeys a node hnode, rfl⟩

theorem Parents.conflicts_eq_nil :
    (ofNodes nodes.values).conflicts = [] ↔
      ∀ {p q c}, Owns nodes.kind? p c → Owns nodes.kind? q c → p = q := by
  rw [(records_ofNodes _).conflicts]
  simp only [mem_claims hkeys]

theorem Parents.owns_of_owner (h : (ofNodes nodes.values).Owner a c) :
    Owns nodes.kind? a c := (mem_claims hkeys).1 ((records_ofNodes _).mem_of_owner h)

theorem Parents.parent?_eq_none : (ofNodes nodes.values).parent? c = none ↔ ∀ p, ¬Owns nodes.kind? p c := by
  constructor
  · intro h p hp
    obtain ⟨q, hq⟩ := (records_ofNodes _).exists_owner ((mem_claims hkeys).2 hp)
    exact absurd (h.symm.trans hq) nofun
  · intro h
    by_contra hne
    obtain ⟨q, hq⟩ := ne_none_iff_exists'.1 hne
    exact h q (owns_of_owner hkeys hq)

/-- **Without conflicts, the recorded owners are all owners.** -/
theorem Parents.owner_iff (hunique : ∀ {p q c}, Owns nodes.kind? p c → Owns nodes.kind? q c → p = q) :
    (ofNodes nodes.values).Owner a c ↔ Owns nodes.kind? a c := by
  refine ⟨owns_of_owner hkeys, fun h => ?_⟩
  obtain ⟨q, hq⟩ := (records_ofNodes _).exists_owner ((mem_claims hkeys).2 h)
  rwa [hunique h (owns_of_owner hkeys hq)]

end

end Table

end Retarget
