import Mathlib.Data.Multiset.UnionInter
import Retarget.Proofs.Builder.Operation
import Retarget.Proofs.Lower.Adjoin

/-!
# Programs in the making

What holds of a builder while a program is lowered. The nodes stored so far form a forest, whose roots are held
by the computation until they get an owner.

* `Grown b held`: the builder `b` with the roots `held`. All references are resolved or wait for a reserved
  declaration, and every identifier is in the scope of its declaration, where a name declared in a case of a
  switch counts as visible in the whole switch.
* `Usable b d`: new identifiers may be bound to `d`, since its scope is still open.
* `Stores.grown`: storing a node on top of roots keeps all that, if the identifiers of the names that the node
  closes lie below it. `Stores.grown_of_plain` and `Stores.closes_since` are the two ways to meet the condition:
  the node closes nothing, or all that was stored since the scope was entered lies below it.
-/

namespace Retarget

open Relation List Option Retarget.Except Reference Multiset NodeTable Builder Kind

/-! ## Kinds that close no names -/

namespace Reference

def ownedCategories (references : List Reference) : List Category :=
  (references.filter (·.owned)).map (·.category)

@[simp]
theorem ownedCategories_append (l l' : List Reference) :
    ownedCategories (l ++ l') = ownedCategories l ++ ownedCategories l' := by simp [ownedCategories]

@[simp]
theorem ownedCategories_nil : ownedCategories [] = [] := rfl

section

variable (field : String)
include field

@[simp]
theorem ownedCategories_one (id : NodeId) (category : Category) :
    ownedCategories (one field id category) = [category] := rfl

@[simp]
theorem ownedCategories_opt (id : Option NodeId) (category : Category) :
    ownedCategories (opt field id category) = id.toList.map fun _ => category := by cases id <;> rfl

@[simp]
theorem ownedCategories_many (ids : List NodeId) (category : Category) :
    ownedCategories (many field ids category) = ids.map fun _ => category := by
  rw [ownedCategories, many, filter_eq_self.2]
  · exact ext_getElem (by simp) fun i h h' => by simp
  · intro r hr
    obtain ⟨i, hi, rfl⟩ := mem_mapIdx.1 hr
    rfl

@[simp]
theorem ownedCategories_items (list : List ListItem) :
    ownedCategories (items field list) = list.map fun _ => .expression := by
  rw [ownedCategories, items, filter_eq_self.2]
  · exact ext_getElem (by simp) fun i h h' => by simp
  · intro r hr
    obtain ⟨i, hi, rfl⟩ := mem_mapIdx.1 hr
    rfl

@[simp]
theorem ownedCategories_cross (id : Option NodeId) (category : Category) :
    ownedCategories (cross field id category) = [] := by cases id <;> rfl

end

theorem mem_ownedCategories {references : List Reference} {r : Reference} (h : r ∈ references)
    (howned : r.owned = true) : r.category ∈ ownedCategories references :=
  mem_map_of_mem (mem_filter.2 ⟨h, howned⟩)

end Reference

variable {category : Category} {kind k : Kind} {c y : NodeId} {name : String}

namespace Category

def carriesNames : Category → Bool
  | statement | binding | forInit | parameter | restElement | declarator | switchCase => true
  | _ => false

theorem carriesNames_of_admits (h : category.admits kind = true) (hkind : kind.carriesNames = true) :
    category.carriesNames = true := by
  cases kind <;> cases hkind <;> cases category <;> first | rfl | cases h

end Category

namespace Kind

/-- Kinds whose nodes close no names, whatever their children are. -/
def isPlain : Kind → Bool
  | functionExpr _ | arrow _ | functionDecl _ | rest _ | variableDecl .. | block _ | ifStmt .. | forStmt ..
  | forEach .. | whileStmt .. | doWhile .. | catchClause .. | switchStmt .. | switchCase .. => false
  | _ => true

def isBare : Kind → Bool
  | parameter _ | rest _ | declarator _ none => true
  | _ => false

/-- Kinds whose nodes pass the names of their children on to the node above. -/
def passesNames : Kind → Bool
  | rest _ | variableDecl .. | switchCase .. => true
  | _ => false

theorem function?_of_isPlain (h : kind.isPlain = true) : kind.function? = none := by
  cases kind <;> first | rfl | cases h

theorem carriesNames_of_isPlain (h : kind.isPlain = true) :
    ∀ c ∈ ownedCategories kind.references, c.carriesNames = false := by
  cases kind <;> simp only [isPlain, Bool.false_eq_true] at h <;>
    simp [references, ClassNode.references, or_imp, forall_and, Category.carriesNames]

theorem admits_of_passesNames (h : kind.passesNames = true)
    (hcategory : category ∈ ownedCategories kind.references) (hk : category.admits k = true) :
    ((∃ a, kind = .rest a) ∧ ∃ name, k = .parameter name) ∨
    ((∃ declared ds, kind = .variableDecl declared ds) ∧ ∃ name init, k = .declarator name init) ∨
    ((∃ test consequent, kind = .switchCase test consequent) ∧
      ¬∃ test consequent, k = .switchCase test consequent) := by
  cases kind with
  | rest a =>
    obtain rfl : category = .parameter := by simpa [references] using hcategory
    refine .inl ⟨⟨a, rfl⟩, ?_⟩
    cases k <;> first | exact ⟨_, rfl⟩ | cases hk
  | variableDecl declared ds =>
    obtain rfl : category = .declarator := by
      simp only [references, ownedCategories_many, List.mem_map] at hcategory
      obtain ⟨-, -, rfl⟩ := hcategory
      rfl
    refine .inr (.inl ⟨⟨declared, ds, rfl⟩, ?_⟩)
    cases k <;> first | exact ⟨_, _, rfl⟩ | cases hk
  | switchCase test consequent =>
    refine .inr (.inr ⟨⟨test, consequent, rfl⟩, ?_⟩)
    rintro ⟨test, consequent, rfl⟩
    simp only [references, ownedCategories_append, ownedCategories_many,
      ownedCategories_opt, List.mem_append, List.mem_map] at hcategory
    rcases hcategory with ⟨-, -, rfl⟩ | ⟨-, -, rfl⟩ <;> cases hk
  | _ => cases h

theorem ne_binding : ∀ c ∈ ownedCategories kind.references, c ≠ .binding := by
  cases kind <;> simp [references, FunctionNode.references, ClassNode.references, or_imp, forall_and]

end Kind

/-! ## Grown builders -/

variable {g : NodeId → Option Kind} {b b' : Builder} {H R : Multiset NodeId} {kind : Kind} {d i p x : NodeId}

/-- The name that `d` declares is visible at `i`, if the cases of a switch are taken as one scope. -/
def VisibleAcross (g : NodeId → Option Kind) (d i : NodeId) : Prop :=
  ∀ o, ScopeOwner g d o → Contains g o i ∨ (IsCase g o ∧ ∀ s, Owns g s o → Contains g s i)

/-- New identifiers may be bound to `d`: it is still to be stored, or no node has closed its scope. -/
def Usable (b : Builder) (d : NodeId) : Prop :=
  d ∈ b.reserved ∨ (∃ kind, b.kind? d = some kind ∧ kind.isBinding = true) ∧
    ∀ o, ScopeOwner b.kind? d o → IsCase b.kind? o ∧ ∀ s, ¬Owns b.kind? s o

/-- There is nothing below `x` but bare declarations. -/
def Barren (g : NodeId → Option Kind) (x : NodeId) : Prop :=
  ∀ y kind, Contains g x y → g y = some kind → kind.isBare = true

/-- A program in the making, whose roots are `H`. -/
structure Grown (b : Builder) (H : Multiset NodeId) : Prop where
  keys : b.nodes.KeysMatch
  stored_lt : ∀ {x k}, b.kind? x = some k → x < b.nextId
  reserved_lt : ∀ {x}, x ∈ b.reserved → x < b.nextId
  reserved_new : ∀ {x}, x ∈ b.reserved → b.kind? x = none
  dense : ∀ {x}, 0 < x → x < b.nextId → x ∈ b.reserved ∨ ∃ k, b.kind? x = some k
  resolved : ∀ {x k}, b.kind? x = some k → ∀ r ∈ k.references,
    (∃ target, b.kind? r.target = some target ∧ r.category.admits target = true) ∨
      (r.category = .binding ∧ r.target ∈ b.reserved)
  forest : IsForest b.kind?
  nodup : H.Nodup
  held : ∀ x ∈ H, (∃ k, b.kind? x = some k) ∧ ∀ q, ¬Owns b.kind? q x
  cover : ∀ {x k}, b.kind? x = some k → ∃ h ∈ H, Contains b.kind? h x
  older : ∀ {i name d}, b.kind? i = some (.identifier name (some d)) → d < i
  visible : ∀ {i name d}, b.kind? i = some (.identifier name (some d)) → VisibleAcross b.kind? d i

namespace Grown

variable (h : Grown b H)
include h

theorem exists_of_owns (hc : Owns b.kind? p c) : ∃ k, b.kind? c = some k := by
  obtain ⟨k, hp, hc⟩ := hc
  obtain ⟨r, hr, rfl, howned⟩ := exists_reference_of_mem_children hc
  rcases h.resolved hp r hr with ⟨target, ht, -⟩ | ⟨hb, -⟩
  · exact ⟨target, ht⟩
  · exact absurd hb (k.ne_binding _ (mem_ownedCategories hr howned))

theorem usable_lt (hd : Usable b d) : d < b.nextId := by
  rcases hd with hd | ⟨⟨k, hk, -⟩, -⟩
  · exact h.reserved_lt hd
  · exact h.stored_lt hk

theorem eq_of_contains (hx : x ∈ H) (hp : p ∈ H) (hxy : Contains b.kind? x y) (hpy : Contains b.kind? p y) : x = p := by
  have hroot : ∀ {a c}, c ∈ H → Contains b.kind? a c → a = c := by
    intro a c hc hac
    rcases ReflTransGen.cases_tail hac with rfl | ⟨q, -, hq⟩
    · rfl
    · exact absurd hq ((h.held c hc).2 q)
  rcases h.forest.contains_total hxy hpy with hxp | hpx
  · exact hroot hp hxp
  · exact (hroot hx hpx).symm

theorem binding_cases (hi : b.kind? i = some (.identifier name (some d))) :
    d ∈ b.reserved ∨ ∃ k, b.kind? d = some k ∧ k.isBinding = true := by
  rcases h.resolved hi ⟨"binding", d, .binding, false⟩ (by simp [references, cross]) with
    ⟨k, hk, hadmits⟩ | ⟨-, hd⟩
  · exact .inr ⟨k, hk, hadmits⟩
  · exact .inl hd

end Grown

/-- The two builders differ at most in the types and places of nodes. -/
structure Alike (b b' : Builder) : Prop where
  keys : b.nodes.KeysMatch → b'.nodes.KeysMatch
  kind_eq : b'.kind? = b.kind?
  next_eq : b'.nextId = b.nextId
  reserved_eq : b'.reserved = b.reserved

theorem Alike.refl (b : Builder) : Alike b b := ⟨id, rfl, rfl, rfl⟩

theorem Alike.trans {b'' : Builder} (h : Alike b b') (h' : Alike b' b'') : Alike b b'' :=
  ⟨fun hkeys => h'.keys (h.keys hkeys), h'.kind_eq.trans h.kind_eq, h'.next_eq.trans h.next_eq,
    h'.reserved_eq.trans h.reserved_eq⟩

theorem Usable.congr (halike : Alike b b') (h : Usable b d) : Usable b' d := by
  rwa [Usable, halike.kind_eq, halike.reserved_eq]

/-! ## Storing a node -/

/-- A node of this kind closes no names: it passes them on, or its children carry none. -/
def Inert (g : NodeId → Option Kind) (kind : Kind) : Prop :=
  kind.passesNames = true ∨
    (kind.function? = none ∧ ∀ c ∈ kind.children, ∀ k, g c = some k → k.carriesNames = false)

/-- `b'` is `b` with a checked node of the given kind under the id `p`, which is the next one or reserved. -/
structure Stores (b b' : Builder) (p : NodeId) (kind : Kind) : Prop where
  kind_eq : b'.kind? = adjoin b.kind? p kind
  keys : b'.nodes.KeysMatch
  new : b.kind? p = none
  next_le : b.nextId ≤ b'.nextId
  lt : p < b'.nextId
  given : ∀ {x}, x < b'.nextId → x < b.nextId ∨ x = p
  reserved : ∀ x, x ∈ b'.reserved ↔ x ∈ b.reserved ∧ x ≠ p
  fresh : p = b.nextId ∨ p ∈ b.reserved
  checked : ∀ r ∈ kind.references, r.target ≠ p ∧
    ((∃ target, b.kind? r.target = some target ∧ r.category.admits target = true) ∨ r.target ∈ b.reserved)

/-- The node refers to what is there: its children are stored, a reserved id is for a declaration, and a name
is bound to a declaration whose scope is open. -/
structure Linked (b : Builder) (p : NodeId) (kind : Kind) : Prop where
  binding : p ∈ b.reserved → kind.isBinding = true
  stored : ∀ r ∈ kind.references, r.category = .binding ∨ ∃ k, b.kind? r.target = some k
  usable : ∀ name d, kind = .identifier name (some d) → Usable b d

theorem NodeTable.kind?_insert {nodes : NodeTable} {node : Node} :
    kind? (nodes.insert p node) = adjoin nodes.kind? p node.kind := by
  funext x
  rw [kind?, Std.ExtTreeMap.getElem?_insert]
  by_cases hx : p = x
  · subst hx
    simp
  · simp [hx, adjoin_of_ne (Ne.symm hx), kind?]

theorem Builder.setType_alike {type : Option TypeDescriptor} (hset : b.setType x type = .ok b') : Alike b b' := by
  obtain ⟨node, hnode, rfl⟩ := setType_eq_ok.1 hset
  refine ⟨fun hkeys => hkeys.insert (hkeys x node hnode), ?_, rfl, rfl⟩
  change NodeTable.kind? (b.nodes.insert x { node with type := type }) = b.nodes.kind?
  rw [kind?_insert]
  funext y
  by_cases hy : y = x
  · subst hy
    rw [adjoin_self]
    exact (kind?_eq_some.2 ⟨node, hnode, rfl⟩).symm
  · exact adjoin_of_ne hy

namespace Grown

variable (h : Grown b H) {e : Envelope}
include h

theorem create (hcreate : b.create kind e = .ok (p, b')) : Stores b b' p kind ∧ p = b.nextId := by
  obtain ⟨hcheck, -, rfl, rfl⟩ := create_eq_ok.1 hcreate
  have hnew : ∀ x ∈ b.reserved, x ≠ b.nextId := fun x hx => (h.reserved_lt hx).ne
  refine ⟨⟨kind?_insert, h.keys.insert rfl, ?_, Nat.le_succ _, Nat.lt_succ_self _,
    Nat.lt_succ_iff_lt_or_eq.1, ?_, .inl rfl, check_ok hcheck⟩, rfl⟩
  · by_contra hstored
    obtain ⟨k, hk⟩ := ne_none_iff_exists'.1 hstored
    exact (h.stored_lt hk).ne rfl
  · exact fun x => ⟨fun hx => ⟨hx, hnew x hx⟩, And.left⟩

theorem fill (hfill : b.fill p kind e = .ok b') : Stores b b' p kind ∧ p ∈ b.reserved := by
  obtain ⟨hp, hcheck, rfl⟩ := fill_eq_ok.1 hfill
  refine ⟨⟨kind?_insert, h.keys.insert rfl, h.reserved_new hp, le_rfl, h.reserved_lt hp, .inl, ?_,
    .inr hp, check_ok hcheck⟩, hp⟩
  exact fun x => IdSet.mem_erase.trans and_comm

theorem reserve (hreserve : b.reserve = .ok (p, b')) :
    Grown b' H ∧ b'.kind? = b.kind? ∧ p = b.nextId ∧ b'.nextId = b.nextId + 1 ∧
      ∀ x, x ∈ b'.reserved ↔ x = p ∨ x ∈ b.reserved := by
  obtain ⟨-, rfl, rfl⟩ := reserve_eq_ok.1 hreserve
  have hmem : ∀ x, x ∈ b.reserved.insert b.nextId ↔ x = b.nextId ∨ x ∈ b.reserved := fun x =>
    IdSet.mem_insert
  refine ⟨⟨h.keys, fun hk => (h.stored_lt hk).trans (Nat.lt_succ_self _), fun hx => ?_, fun hx => ?_,
    fun hpos hx => ?_, fun hk r hr => ?_, h.forest, h.nodup, h.held, h.cover, h.older, h.visible⟩, rfl, rfl, rfl, hmem⟩
  · rcases (hmem _).1 hx with rfl | hx
    · exact Nat.lt_succ_self _
    · exact (h.reserved_lt hx).trans (Nat.lt_succ_self _)
  · rcases (hmem _).1 hx with rfl | hx
    · by_contra hstored
      obtain ⟨k, hk⟩ := ne_none_iff_exists'.1 hstored
      exact (h.stored_lt hk).ne rfl
    · exact h.reserved_new hx
  · rcases Nat.lt_succ_iff_lt_or_eq.1 hx with hx | rfl
    · exact (h.dense hpos hx).imp_left fun hx => (hmem _).2 (.inr hx)
    · exact .inl ((hmem _).2 (.inl rfl))
  · exact (h.resolved hk r hr).imp_right fun hr => ⟨hr.1, (hmem _).2 (.inr hr.2)⟩

theorem congr (halike : Alike b b') : Grown b' H := by
  constructor
  case keys => exact halike.keys h.keys
  case nodup => exact h.nodup
  all_goals simp only [halike.kind_eq, halike.next_eq, halike.reserved_eq]
  exacts [h.stored_lt, h.reserved_lt, h.reserved_new, h.dense, h.resolved, h.forest, h.held, h.cover, h.older,
    h.visible]

end Grown

namespace Stores

variable (hs : Stores b b' p kind) (h : Grown b (kind.children + R))
include hs h

theorem adjoins : Adjoins b.kind? p kind := by
  refine ⟨hs.new, fun q hq => ?_, fun hp => ?_, fun c hc => (h.held c ?_).2⟩
  · obtain ⟨k, hk⟩ := h.exists_of_owns hq
    exact absurd (hs.new.symm.trans hk) nofun
  · obtain ⟨r, hr, htarget, -⟩ := exists_reference_of_mem_children hp
    exact (hs.checked r hr).1 htarget
  · exact mem_add.2 (.inl hc)

theorem not_mem_rest : p ∉ R := fun hp => by
  obtain ⟨⟨k, hk⟩, -⟩ := h.held p (mem_add.2 (.inr hp))
  exact absurd (hs.new.symm.trans hk) nofun

section

variable (hlinked : Linked b p kind)
include hlinked

theorem resolved (hx : b'.kind? x = some k) : ∀ r ∈ k.references,
      (∃ target, b'.kind? r.target = some target ∧ r.category.admits target = true) ∨
        (r.category = .binding ∧ r.target ∈ b'.reserved) := by
  intro r hr
  have hold : ((∃ target, b.kind? r.target = some target ∧ r.category.admits target = true) ∨
      (r.category = .binding ∧ r.target ∈ b.reserved)) := by
    by_cases hxp : x = p
    · subst hxp
      rw [hs.kind_eq, adjoin_self] at hx
      cases hx
      rcases (hs.checked r hr).2 with hstored | hreserved
      · exact .inl hstored
      · refine .inr ⟨(hlinked.stored r hr).resolve_right fun ⟨k, hk⟩ => ?_, hreserved⟩
        exact absurd ((h.reserved_new hreserved).symm.trans hk) nofun
    · rw [hs.kind_eq, adjoin_of_ne hxp] at hx
      exact h.resolved hx r hr
  rcases hold with ⟨target, htarget, hadmits⟩ | ⟨hcategory, hreserved⟩
  · rw [hs.kind_eq]
    exact .inl ⟨target, (hs.adjoins h).eq_of_some htarget, hadmits⟩
  · by_cases hp : r.target = p
    · refine .inl ⟨kind, by rw [hs.kind_eq, hp, adjoin_self], ?_⟩
      rw [hcategory]
      exact hlinked.binding (hp ▸ hreserved)
    · exact .inr ⟨hcategory, (hs.reserved _).2 ⟨hreserved, hp⟩⟩

/-- **A node on top of roots becomes a root**, if the identifiers of the names that it closes lie below it. -/
theorem grown (hclose : ∀ d i name, Closes b'.kind? p d → b'.kind? i = some (.identifier name (some d)) →
    Contains b'.kind? p i) : Grown b' ({p} + R) := by
  have ha := hs.adjoins h
  have hne : ∀ {x k}, b'.kind? x = some k → x ≠ p → b.kind? x = some k := fun hk hx => by
    rwa [hs.kind_eq, adjoin_of_ne hx] at hk
  have hp : b'.kind? p = some kind := by rw [hs.kind_eq, adjoin_self]
  obtain ⟨-, hnodup, hdisjoint⟩ := nodup_add.1 h.nodup
  refine ⟨hs.keys, fun {x k} hk => ?_, fun {x} hx => ?_, fun {x} hx => ?_, fun {x} hpos hx => ?_,
    hs.resolved h hlinked, ?_, ?_, fun x hx => ?_, fun {x k} hk => ?_,
    fun {i name d} hi => ?_, fun {i name d} hi o ho => ?_⟩
  · by_cases hxp : x = p
    · exact hxp ▸ hs.lt
    · exact (h.stored_lt (hne hk hxp)).trans_le hs.next_le
  · exact (h.reserved_lt ((hs.reserved x).1 hx).1).trans_le hs.next_le
  · obtain ⟨hx, hxp⟩ := (hs.reserved x).1 hx
    rw [hs.kind_eq, adjoin_of_ne hxp]
    exact h.reserved_new hx
  · by_cases hxp : x = p
    · exact .inr ⟨kind, hxp ▸ hp⟩
    · refine (h.dense hpos ((hs.given hx).resolve_right hxp)).imp (fun hmem => (hs.reserved x).2 ⟨hmem, hxp⟩) ?_
      rintro ⟨k, hk⟩
      exact ⟨k, by rw [hs.kind_eq]; exact ha.eq_of_some hk⟩
  · rw [hs.kind_eq]
    exact ha.isForest h.forest
  · rw [Multiset.singleton_add, Multiset.nodup_cons]
    exact ⟨hs.not_mem_rest h, hnodup⟩
  · rw [Multiset.singleton_add, Multiset.mem_cons] at hx
    rcases hx with rfl | hx
    · exact ⟨⟨kind, hp⟩, by rw [hs.kind_eq]; exact ha.root_adjoin⟩
    · obtain ⟨⟨k, hk⟩, hroot⟩ := h.held x (mem_add.2 (.inr hx))
      rw [hs.kind_eq]
      refine ⟨⟨k, ha.eq_of_some hk⟩, fun q hq => ?_⟩
      rcases ha.owns_iff.1 hq with ⟨-, hc⟩ | hq
      · exact disjoint_left.1 hdisjoint hc hx
      · exact hroot q hq
  · by_cases hxp : x = p
    · exact ⟨p, by simp, hxp ▸ .refl⟩
    · obtain ⟨r, hr, hrx⟩ := h.cover (hne hk hxp)
      rw [hs.kind_eq]
      rcases mem_add.1 hr with hr | hr
      · exact ⟨p, by simp, ha.contains_self_iff.2 (.inr ⟨r, hr, hrx⟩)⟩
      · exact ⟨r, mem_add.2 (.inr hr), ha.contains hrx⟩
  · by_cases hip : i = p
    · subst hip
      obtain rfl : kind = .identifier name (some d) := some.inj (hp.symm.trans hi)
      have hi : i = b.nextId := hs.fresh.resolve_right fun hi => absurd (hlinked.binding hi) nofun
      exact hi ▸ h.usable_lt (hlinked.usable name d rfl)
    · exact h.older (hne hi hip)
  · rw [hs.kind_eq] at ho hi hclose ⊢
    rcases ho.of_adjoin ha with ⟨hdp, hold⟩ | rfl
    · by_cases hip : i = p
      · -- The new node is the identifier, and the scope of its declaration is still open.
        subst hip
        rw [adjoin_self] at hi
        cases hi
        rcases hlinked.usable name d rfl with hd | ⟨-, hopen⟩
        · exact absurd hold.isSome (by simp [h.reserved_new hd])
        · obtain ⟨⟨test, consequent, hcase⟩, hroot⟩ := hopen o hold
          refine .inr ⟨⟨test, consequent, ha.eq_of_some hcase⟩, fun s hso => ?_⟩
          rcases ha.owns_iff.1 hso with ⟨-, hc⟩ | hso
          · exact absurd hc nofun
          · exact absurd hso (hroot s)
      · have hi' : b.kind? i = some (.identifier name (some d)) := by rwa [adjoin_of_ne hip] at hi
        rcases h.visible hi' o hold with hoi | ⟨⟨test, consequent, hcase⟩, hall⟩
        · exact .inl (ha.contains hoi)
        · refine .inr ⟨⟨test, consequent, ha.eq_of_some hcase⟩, fun s hso => ?_⟩
          rcases ha.owns_iff.1 hso with ⟨rfl, -⟩ | hold'
          · exact hclose d i name (.inr ⟨o, hso, ⟨test, consequent, ha.eq_of_some hcase⟩, ho⟩) hi
          · exact ha.contains (hall s hold')
    · by_cases hcase : IsCase (adjoin b.kind? o kind) o
      · exact .inr ⟨hcase, fun s hso => absurd hso (ha.root_adjoin s)⟩
      · exact .inl (hclose d i name (.inl ⟨ho, hcase⟩) hi)

theorem usable (hd : Usable b d) (hopen : ¬Closes b'.kind? p d) : Usable b' d := by
  have ha := hs.adjoins h
  rw [hs.kind_eq] at hopen
  have hself : ∀ o, ScopeOwner (adjoin b.kind? p kind) d o → o = p →
      IsCase (adjoin b.kind? p kind) o ∧ ∀ s, ¬Owns (adjoin b.kind? p kind) s o := by
    rintro o ho rfl
    exact ⟨by_contra fun hcase => hopen (.inl ⟨ho, hcase⟩), ha.root_adjoin⟩
  rcases hd with hd | ⟨⟨k, hk, hkind⟩, howner⟩
  · by_cases hdp : d = p
    · subst hdp
      refine .inr ⟨⟨kind, by rw [hs.kind_eq, adjoin_self], hlinked.binding hd⟩, fun o ho => ?_⟩
      rw [hs.kind_eq] at ho ⊢
      exact hself o ho ((ho.of_adjoin ha).resolve_left fun hold => hold.1 rfl)
    · exact .inl ((hs.reserved d).2 ⟨hd, hdp⟩)
  · refine .inr ⟨⟨k, by rw [hs.kind_eq]; exact ha.eq_of_some hk, hkind⟩, fun o ho => ?_⟩
    rw [hs.kind_eq] at ho ⊢
    rcases ho.of_adjoin ha with ⟨-, hold⟩ | hop
    · obtain ⟨⟨test, consequent, hcase⟩, hroot⟩ := howner o hold
      have hcase' : IsCase (adjoin b.kind? p kind) o := ⟨test, consequent, ha.eq_of_some hcase⟩
      refine ⟨hcase', fun s hso => ?_⟩
      rcases ha.owns_iff.1 hso with ⟨rfl, -⟩ | hold'
      · exact hopen (.inr ⟨o, hso, hcase', ho⟩)
      · exact hroot s hold'
    · exact hself o ho hop

theorem isBinding_of_usable (hd : Usable b d) : ∀ k, b'.kind? d = some k → k.isBinding = true := by
  intro k hk
  by_cases hdp : d = p
  · subst hdp
    rw [hs.kind_eq, adjoin_self] at hk
    cases hk
    rcases hd with hd | ⟨⟨k, hk, -⟩, -⟩
    · exact hlinked.binding hd
    · exact absurd (hs.new.symm.trans hk) nofun
  · rw [hs.kind_eq, adjoin_of_ne hdp] at hk
    rcases hd with hd | ⟨⟨k', hk', hkind⟩, -⟩
    · exact absurd ((h.reserved_new hd).symm.trans hk) nofun
    · rwa [some.inj (hk.symm.trans hk')]

theorem isBinding_of_bound (hi : b'.kind? i = some (.identifier name (some d))) :
    ∀ k, b'.kind? d = some k → k.isBinding = true := by
  intro k hk
  rcases hs.resolved h hlinked hi ⟨"binding", d, .binding, false⟩
    (by simp [references, cross]) with ⟨target, htarget, hadmits⟩ | ⟨-, hreserved⟩
  · rwa [some.inj (hk.symm.trans htarget)]
  · obtain ⟨hd, hdp⟩ := (hs.reserved d).1 hreserved
    rw [hs.kind_eq, adjoin_of_ne hdp, h.reserved_new hd] at hk
    cases hk

end

theorem exists_category (hc : c ∈ kind.children) (hk : b.kind? c = some k) :
    ∃ category ∈ ownedCategories kind.references, category.admits k = true := by
  obtain ⟨r, hr, rfl, howned⟩ := exists_reference_of_mem_children hc
  refine ⟨r.category, mem_ownedCategories hr howned, ?_⟩
  rcases (hs.checked r hr).2 with ⟨target, htarget, hadmits⟩ | hreserved
  · rwa [some.inj (hk.symm.trans htarget)]
  · exact absurd ((h.reserved_new hreserved).symm.trans hk) nofun

theorem not_closes_of_inert (hfunction : kind.function? = none)
    (hinert : ∀ c ∈ kind.children, ∀ k, b.kind? c = some k → k.carriesNames = false)
    (hbinding : ∀ k, b'.kind? d = some k → k.isBinding = true) (hself : d = p → kind.scopesItself = false) :
    ¬Closes b'.kind? p d := by
  intro hclose
  rw [hs.kind_eq] at hclose hbinding
  rcases (hs.adjoins h).closes_cases hclose hbinding with ⟨hdp, hscope⟩ | ⟨c, hc, -, hfun | ⟨k, hk, hcarries⟩⟩
  · exact absurd hscope (by simp [hself hdp])
  · exact absurd hfun (by simp [hfunction])
  · exact absurd hcarries (by simp [hinert c hc k hk])

theorem not_closes_of_passesNames (hpasses : kind.passesNames = true)
    (hbinding : ∀ k, b'.kind? d = some k → k.isBinding = true) : ¬Closes b'.kind? p d := by
  intro hclose
  rw [hs.kind_eq] at hclose hbinding
  have ha := hs.adjoins h
  have hp := adjoin_self b.kind? p kind
  have hchild : ∀ {c k}, Owns (adjoin b.kind? p kind) p c → adjoin b.kind? p kind c = some k →
      ((∃ a, kind = .rest a) ∧ ∃ name, k = .parameter name) ∨
      ((∃ declared ds, kind = .variableDecl declared ds) ∧ ∃ name init, k = .declarator name init) ∨
      ((∃ test consequent, kind = .switchCase test consequent) ∧
        ¬∃ test consequent, k = .switchCase test consequent) := by
    intro c k hc hk
    have hmem : c ∈ kind.children := (owns_iff hp).1 hc
    have hcp : c ≠ p := fun hcp => ha.ne (hcp ▸ hmem)
    rw [adjoin_of_ne hcp] at hk
    obtain ⟨category, hcategory, hadmits⟩ := hs.exists_category h hmem hk
    exact admits_of_passesNames hpasses hcategory hadmits
  rcases hclose with ⟨howner, hcase⟩ | ⟨c, hc, ⟨test, consequent, hk⟩, -⟩
  · have hnocase : ¬∃ test consequent, kind = .switchCase test consequent := by
      rintro ⟨test, consequent, rfl⟩
      exact hcase ⟨test, consequent, hp⟩
    cases howner with
    | functionExpr hk | classExpr hk =>
      cases some.inj (hp.symm.trans hk)
      exact absurd hpasses nofun
    | parameter hk hd hrest =>
      rcases hchild hd hk with ⟨⟨a, rfl⟩, -⟩ | ⟨-, name, init, hk⟩ | ⟨hcase, -⟩
      · exact hrest a hp
      · exact absurd hk nofun
      · exact hnocase hcase
    | loop hk hd hdecl =>
      rcases hchild hd hk with ⟨-, name, hk⟩ | ⟨⟨declared, ds, rfl⟩, -⟩ | ⟨hcase, -⟩
      · exact absurd hk nofun
      · exact hdecl declared ds hp
      · exact hnocase hcase
    | statement hk hkind hd =>
      rcases hchild hd hk with ⟨-, name, rfl⟩ | ⟨-, name, init, rfl⟩ | ⟨hcase, -⟩
      · exact absurd hkind nofun
      · exact absurd hkind nofun
      · exact hnocase hcase
    | restParameter hk hr hrest hd =>
      rcases hchild hd hrest with ⟨-, name, hk⟩ | ⟨-, name, init, hk⟩ | ⟨hcase, -⟩
      · exact absurd hk nofun
      · exact absurd hk nofun
      · exact hnocase hcase
    | lexical hk hv hdecl hne hd =>
      rcases hchild hd hdecl with ⟨-, name, hk⟩ | ⟨-, name, init, hk⟩ | ⟨hcase, -⟩
      · exact absurd hk nofun
      · exact absurd hk nofun
      · exact hnocase hcase
    | var hk hv hvar hf =>
      obtain ⟨k, hk, hfun⟩ := hf.isFunction
      cases some.inj (hp.symm.trans hk)
      cases kind <;> cases hpasses <;> cases hfun
  · rcases hchild hc hk with ⟨-, name, hk⟩ | ⟨-, name, init, hk⟩ | ⟨-, hcase⟩
    · exact absurd hk nofun
    · exact absurd hk nofun
    · exact hcase ⟨test, consequent, rfl⟩

/-- **Storing a node that closes no names** keeps all scopes open. -/
theorem grown_of_inert (hinert : Inert b.kind? kind) (hself : kind.scopesItself = true → p ∉ b.reserved)
    (hlinked : Linked b p kind) : Grown b' ({p} + R) ∧ ∀ d, Usable b d → Usable b' d := by
  have hopen : ∀ {d}, (∀ k, b'.kind? d = some k → k.isBinding = true) →
      (d = p → kind.scopesItself = false) → ¬Closes b'.kind? p d := by
    intro d hd hdp
    rcases hinert with hpasses | ⟨hfunction, hchildren⟩
    · exact hs.not_closes_of_passesNames h hpasses hd
    · exact hs.not_closes_of_inert h hfunction hchildren hd hdp
  refine ⟨hs.grown h hlinked fun d i name hclose hi => ?_, fun d hd => ?_⟩
  · refine absurd hclose (hopen (hs.isBinding_of_bound h hlinked hi) fun hdp => ?_)
    -- The own name of a new node is bound to no identifier yet.
    by_contra hscope
    subst hdp
    have hfresh := hself (by simpa using hscope)
    by_cases hid : i = d
    · subst hid
      rw [hs.kind_eq, adjoin_self] at hi
      cases hi
      exact hscope rfl
    · rw [hs.kind_eq, adjoin_of_ne hid] at hi
      rcases h.binding_cases hi with hd | ⟨k, hk, -⟩
      · exact hfresh hd
      · exact absurd (hs.new.symm.trans hk) nofun
  · refine hs.usable h hlinked hd (hopen (hs.isBinding_of_usable h hlinked hd) fun hdp => ?_)
    by_contra hscope
    subst hdp
    rcases hd with hd | ⟨⟨k, hk, -⟩, -⟩
    · exact hself (by simpa using hscope) hd
    · exact absurd (hs.new.symm.trans hk) nofun

end Stores

/-! ## Closing a scope -/

/-- What has happened since `b₀`: nothing is lost, and new nodes have new ids. -/
structure Since (b₀ b : Builder) : Prop where
  kinds : ∀ {x k}, b₀.kind? x = some k → b.kind? x = some k
  next_le : b₀.nextId ≤ b.nextId
  fresh : ∀ {x k}, b.kind? x = some k → b₀.kind? x = none → b₀.nextId ≤ x

section Since

variable {b₀ : Builder} {F : Multiset NodeId} (h₀ : Grown b₀ F)
include h₀

theorem contains_old (hkinds : ∀ {x k}, b₀.kind? x = some k → b.kind? x = some k) (hx : b₀.kind? x = some k)
    (hxy : Contains b.kind? x y) : Contains b₀.kind? x y ∧ ∃ k, b₀.kind? y = some k := by
  induction hxy with
  | refl => exact ⟨.refl, k, hx⟩
  | tail _ hc ih =>
    obtain ⟨hxa, k, hk⟩ := ih
    rw [owns_iff (hkinds hk), ← owns_iff hk] at hc
    exact ⟨hxa.tail hc, h₀.exists_of_owns hc⟩

/-- **Storing a node that closes a scope**: the node is on top of all that was stored since the scope was
entered, apart from bare declarations. -/
theorem Stores.grown_since (hsince : Since b₀ b) (hs : Stores b b' p kind) (h : Grown b (kind.children + R))
    (hF : ∀ x ∈ F, x ∈ (kind.children : Multiset NodeId) + R) (hR : ∀ x ∈ R, x ∈ F ∨ Barren b.kind? x)
    (hold : ∀ c ∈ kind.children, c ∈ F → kind.function? = none ∧ ∀ k, b.kind? c = some k → k.carriesNames = false)
    (hself : kind.scopesItself = true → b₀.nextId ≤ p) (hlinked : Linked b p kind) :
    Grown b' ({p} + R) ∧ ∀ d < b₀.nextId, Usable b d → Usable b' d := by
  have ha := hs.adjoins h
  -- What is closed was declared inside the scope.
  have hnew : ∀ {d}, (∀ k, b'.kind? d = some k → k.isBinding = true) → Closes b'.kind? p d → b₀.nextId ≤ d := by
    intro d hd hclose
    rw [hs.kind_eq] at hd hclose
    rcases ha.closes_cases hclose hd with ⟨rfl, hscope⟩ | ⟨c, hc, hcd, hcarries⟩
    · exact hself hscope
    · by_contra hlt
      have hstored : ∃ k, b.kind? d = some k := by
        rcases ReflTransGen.cases_tail hcd with rfl | ⟨q, -, hq⟩
        · exact (h.held _ (mem_add.2 (.inl hc))).1
        · exact h.exists_of_owns hq
      obtain ⟨k, hk⟩ := hstored
      obtain ⟨k₀, hk₀⟩ : ∃ k, b₀.kind? d = some k := by
        by_contra hnone
        exact hlt (hsince.fresh hk (eq_none_iff_forall_ne_some.2 fun k hk => hnone ⟨k, hk⟩))
      obtain ⟨r, hr, hrd⟩ := h₀.cover hk₀
      obtain rfl := h.eq_of_contains (mem_add.2 (.inl hc)) (hF r hr) hcd (contains_mono hsince.kinds hrd)
      obtain ⟨hfunction, hinert⟩ := hold c hc hr
      rcases hcarries with hfun | ⟨k, hk, hcarries⟩
      · exact absurd hfun (by simp [hfunction])
      · exact absurd hcarries (by simp [hinert k hk])
  refine ⟨hs.grown h hlinked fun d i name hclose hi => ?_, fun d hlt hd => ?_⟩
  · have hd := hnew (hs.isBinding_of_bound h hlinked hi) hclose
    rw [hs.kind_eq]
    by_cases hip : i = p
    · exact hip ▸ .refl
    rw [hs.kind_eq, adjoin_of_ne hip] at hi
    obtain ⟨r, hr, hri⟩ := h.cover hi
    refine ha.contains_self_iff.2 (.inr ⟨r, (mem_add.1 hr).resolve_right fun hr => ?_, hri⟩)
    rcases hR r hr with hr | hbarren
    · obtain ⟨⟨k, hk⟩, -⟩ := h₀.held r hr
      obtain ⟨-, k', hk'⟩ := contains_old h₀ hsince.kinds hk hri
      exact Nat.not_lt.2 (Nat.le_of_lt (hd.trans_lt (h.older hi))) (h₀.stored_lt hk')
    · cases hbarren i _ hri hi
  · refine hs.usable h hlinked hd fun hclose => ?_
    exact Nat.not_le.2 hlt (hnew (hs.isBinding_of_usable h hlinked hd) hclose)

end Since

end Retarget
