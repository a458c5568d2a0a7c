import Mathlib.Algebra.Order.Group.Multiset
import Mathlib.Tactic.Abel
import Retarget.Lower.Declare
import Retarget.Proofs.Lower.Place.Context

/-!
# The state of lowering

What a state of lowering holds, and what can become of it.

* `Root`: a node that has no owner yet, with the category of nodes that its owner will ask for.
* `Ready s H`: the nodes of the state `s` form a forest with the roots `H` and the pending temporaries, and all
  names in scope can be used.
* `Step fills W s s'`: from `s` to `s'` nodes are only added, under new ids or, if the step `fills`, under ids that
  are reserved in the innermost scope. No id but those in `W` is left reserved that was not so before.
* `Fact`: what else is known about a state and stays true in every step.
-/

namespace Retarget

open List Option ScopeStack

/-! ## Scopes -/

namespace ScopeStack

variable {s t : ScopeStack} {name other : String} {d : NodeId}

def names (s : ScopeStack) : Bindings :=
  match s.inner with
  | [] => s.root
  | frame :: _ => frame.bindings

def locals (s : ScopeStack) : List NodeId := s.names.map (·.2)

/-- What is outside the innermost frame, and what that frame belongs to. -/
def base (s : ScopeStack) : Option (FrameKind × List ScopeFrame × Bindings) :=
  match s.inner with
  | [] => none
  | frame :: outer => some (frame.kind, outer, s.root)

def ids (s : ScopeStack) : List NodeId := s.inner.flatMap (·.bindings.map (·.2)) ++ s.root.map (·.2)

theorem mem_of_lookup? {bindings : Bindings} (h : lookup? name bindings = some d) : d ∈ bindings.map (·.2) := by
  obtain ⟨entry, hentry, rfl⟩ := map_eq_some_iff.1 h
  exact mem_map_of_mem (mem_of_find?_eq_some hentry)

theorem lookup?_append {l l' : Bindings} : lookup? name (l ++ l') = (lookup? name l).or (lookup? name l') := by
  rw [lookup?, List.find?_append, map_or, lookup?, lookup?]

theorem local?_eq : s.local? name = lookup? name s.names := by
  obtain ⟨inner, root⟩ := s
  cases inner <;> rfl

theorem mem_of_local? (h : s.local? name = some d) : d ∈ s.locals := by
  rw [local?_eq] at h
  exact mem_of_lookup? h

theorem mem_of_resolve? (h : s.resolve? name = some d) : d ∈ s.ids := by
  rw [resolve?, or_eq_some_iff] at h
  refine mem_append.2 ?_
  rcases h with h | ⟨-, h⟩
  · obtain ⟨frame, hframe, hd⟩ := exists_of_findSome?_eq_some h
    exact .inl (mem_flatMap.2 ⟨frame, hframe, mem_of_lookup? hd⟩)
  · exact .inr (mem_of_lookup? h)

theorem ids_of_locals (h : d ∈ s.locals) : d ∈ s.ids := by
  obtain ⟨inner, root⟩ := s
  cases inner with
  | nil => exact mem_append.2 (.inr h)
  | cons frame outer => exact mem_append.2 (.inl (mem_flatMap.2 ⟨frame, mem_cons_self, h⟩))

@[simp]
theorem base_add : (s.add name d).base = s.base := by
  obtain ⟨inner, root⟩ := s
  cases inner <;> rfl

@[simp]
theorem names_add : (s.add name d).names = (name, d) :: s.names := by
  obtain ⟨inner, root⟩ := s
  cases inner <;> rfl

theorem local?_add_self : (s.add name d).local? name = some d := by
  simp [local?_eq, lookup?]

theorem local?_add_of_ne (h : name ≠ other) : (s.add name d).local? other = s.local? other := by
  simp [local?_eq, lookup?, h]

theorem mem_ids_add {x : NodeId} : x ∈ (s.add name d).ids ↔ x = d ∨ x ∈ s.ids := by
  obtain ⟨inner, root⟩ := s
  cases inner <;> simp [add, ids]

theorem addToFunction_eq_add (h : ∀ b ∈ s.base, b.1 ≠ .block) : s.addToFunction name d = s.add name d := by
  obtain ⟨inner, root⟩ := s
  cases inner with
  | nil => rfl
  | cons frame outer =>
    have hkind : frame.kind ≠ .block := h _ rfl
    simp [addToFunction, addOutsideBlocks, add, hkind]

@[simp]
theorem names_push (kind : FrameKind) : (s.push kind).names = [] := rfl

@[simp]
theorem ids_push (kind : FrameKind) : (s.push kind).ids = s.ids := rfl

theorem pop_eq_of_base {kind : FrameKind} (h : t.base = (s.push kind).base) : t.pop = s := by
  obtain ⟨inner, root⟩ := t
  cases inner with
  | nil => exact absurd h nofun
  | cons frame outer =>
    obtain ⟨-, rfl, rfl⟩ := h
    rfl

end ScopeStack

/-! ## Roots -/

/-- A node without an owner, and the category of nodes that its owner will ask for. -/
structure Root where
  id : NodeId
  category : Category

def root (category : Category) (id : NodeId) : Multiset Root := {⟨id, category⟩}

def roots (category : Category) (ids : List NodeId) : Multiset Root := ids.map fun id => Root.mk id category

variable {α : Type} {T L : Multiset Root}

section Roots

variable {c : Category} {x : NodeId} {r : Root} {l l' : List NodeId}

@[simp]
theorem roots_nil : roots c [] = 0 := rfl

@[simp]
theorem roots_cons : roots c (x :: l) = root c x + roots c l := rfl

@[simp]
theorem roots_append : roots c (l ++ l') = roots c l + roots c l' := by simp [roots]

@[simp]
theorem mem_root : r ∈ root c x ↔ r = ⟨x, c⟩ := Multiset.mem_singleton

@[simp]
theorem mem_roots : r ∈ roots c l ↔ ∃ x ∈ l, ⟨x, c⟩ = r := by simp [roots]

theorem sum_root : (l.map (root c)).sum = roots c l := by
  induction l with
  | nil => rfl
  | cons x l ih => rw [map_cons, sum_cons, ih, roots_cons]

theorem sum_root_map {f : α → NodeId} {l : List α} : (l.map fun a => root c (f a)).sum = roots c (l.map f) := by
  rw [← sum_root, List.map_map]
  rfl

theorem sum_roots {lists : List (List NodeId)} : (lists.map (roots c)).sum = roots c lists.flatten := by
  induction lists with
  | nil => rfl
  | cons l lists ih => rw [map_cons, sum_cons, ih, flatten_cons, roots_append]

namespace Root

def ids (H : Multiset Root) : Multiset NodeId := H.map (·.id)

@[simp]
theorem ids_zero : ids 0 = 0 := rfl

@[simp]
theorem ids_add (H H' : Multiset Root) : ids (H + H') = ids H + ids H' := Multiset.map_add ..

@[simp]
theorem ids_root : ids (root c x) = {x} := rfl

variable {H : Multiset Root}

theorem id_mem_ids (h : r ∈ H) : r.id ∈ ids H := Multiset.mem_map_of_mem _ h

theorem mem_ids : x ∈ ids H ↔ ∃ r ∈ H, r.id = x := Multiset.mem_map

def Fits (b : Builder) (r : Root) : Prop := ∃ k, b.kind? r.id = some k ∧ r.category.admits k = true

end Root

end Roots

namespace Reference

def parts (references : List Reference) : Multiset Root :=
  (references.filter (·.owned)).map fun r => Root.mk r.target r.category

@[simp]
theorem parts_nil : parts [] = 0 := rfl

@[simp]
theorem parts_append (l l' : List Reference) : parts (l ++ l') = parts l + parts l' := by
  simp [parts, filter_append, map_append]

@[simp]
theorem parts_one (field : String) (id : NodeId) (c : Category) : parts (one field id c) = root c id := rfl

@[simp]
theorem parts_opt (field : String) (id : Option NodeId) (c : Category) :
    parts (opt field id c) = roots c id.toList := by cases id <;> rfl

@[simp]
theorem parts_cross {field : String} {id : Option NodeId} {c : Category} : parts (cross field id c) = 0 := by
  cases id <;> rfl

theorem parts_mapIdx (field : Nat → String) (f : α → NodeId) (c : Category) (l : List α) :
    parts (l.mapIdx fun i a => ⟨field i, f a, c, true⟩) = roots c (l.map f) := by
  rw [parts, filter_eq_self.2 ?_]
  · exact congrArg _ (ext_getElem (by simp) fun i h h' => by simp)
  · intro r hr
    obtain ⟨i, hi, rfl⟩ := mem_mapIdx.1 hr
    rfl

@[simp]
theorem parts_many (field : String) (ids : List NodeId) (c : Category) : parts (many field ids c) = roots c ids := by
  have h := parts_mapIdx (fun i => field ++ "[" ++ toString i ++ "]") id c ids
  rwa [List.map_id] at h

@[simp]
theorem parts_items (field : String) (items : List ListItem) :
    parts (Reference.items field items) = roots .expression (items.map (·.value)) := parts_mapIdx _ _ _ _

end Reference

namespace Kind

variable {kind : Kind}

def parts (kind : Kind) : Multiset Root := Reference.parts kind.references

theorem ids_parts : Root.ids kind.parts = kind.children := by
  simp [Root.ids, parts, Reference.parts, children, Function.comp_def]

theorem mem_parts {r : Reference} (hr : r ∈ kind.references) (howned : r.owned = true) :
    ⟨r.target, r.category⟩ ∈ kind.parts :=
  Multiset.mem_coe.2 (mem_map.2 ⟨r, mem_filter.2 ⟨hr, howned⟩, rfl⟩)

end Kind

/-! ## Steps -/

variable {s s' s'' s₀ : LowerState} {b b' : Builder} {H A B C F R : Multiset Root} {fills : Bool} {W : Set NodeId}
  {name : String} {d x : NodeId}

/-- The ids that wait for the declarations of names of the innermost scope. -/
def LowerState.Waits (s : LowerState) (name : String) (d : NodeId) : Prop :=
  s.scopes.local? name = some d ∧ d ∈ s.builder.reserved

/-- Every id that was reserved still is, or has a node that names can be bound to. -/
def LowerState.Settled (s : LowerState) : Prop :=
  ∀ d ∈ s.reservations, d ∈ s.builder.reserved ∨ ∃ k, s.builder.kind? d = some k ∧ k.isBinding = true

/-- From `s` to `s'` nodes are added, and scopes of older declarations stay open. -/
structure Step (fills : Bool) (W : Set NodeId) (s s' : LowerState) : Prop where
  kinds : ∀ {x k}, s.builder.kind? x = some k → s'.builder.kind? x = some k
  next_le : s.builder.nextId ≤ s'.builder.nextId
  fresh : ∀ {x k}, s'.builder.kind? x = some k → s.builder.kind? x = none →
    s.builder.nextId ≤ x ∨ (fills = true ∧ x ∈ s.scopes.locals)
  usable : ∀ {d}, d < s.builder.nextId → Usable s.builder d → Usable s'.builder d
  base : s'.scopes.base = s.scopes.base
  named : ∃ new : Bindings, s'.scopes.names = new ++ s.scopes.names ∧ ∀ entry ∈ new, s.builder.nextId ≤ entry.2
  reserved : ∀ d ∈ s'.builder.reserved, d ∈ s.builder.reserved ∨ d ∈ W
  waits : ∀ name d, s.scopes.local? name = some d → d ∈ s'.builder.reserved → d ∉ W →
    s'.scopes.local? name = some d
  context : s'.context = s.context
  outer : s'.outer = s.outer
  settled : s.Settled → s'.Settled

namespace Step

theorem of_alike (hbuilder : Alike s.builder s'.builder) (hscopes : s'.scopes = s.scopes)
    (hcontext : s'.context = s.context) (houter : s'.outer = s.outer) (hsettled : s'.reservations = s.reservations) :
    Step fills W s s' := by
  refine ⟨?_, ?_, ?_, fun _ hd => hd.congr hbuilder, by rw [hscopes], ⟨[], by rw [hscopes]; rfl, nofun⟩, ?_, ?_,
    hcontext, houter, ?_⟩
  · rw [hbuilder.kind_eq]
    exact id
  · rw [hbuilder.next_eq]
  · rw [hbuilder.kind_eq]
    exact fun h hnone => absurd (hnone.symm.trans h) nofun
  · rw [hbuilder.reserved_eq]
    exact fun d => .inl
  · rw [hscopes]
    exact fun name d h _ _ => h
  · intro hs d hd
    rw [hsettled] at hd
    rw [hbuilder.kind_eq, hbuilder.reserved_eq]
    exact hs d hd

theorem refl (s : LowerState) : Step fills W s s := of_alike (.refl _) rfl rfl rfl rfl

theorem locals (h : Step fills W s s') : ∀ d ∈ s'.scopes.locals, d ∈ s.scopes.locals ∨ s.builder.nextId ≤ d := by
  obtain ⟨new, hnames, hnew⟩ := h.named
  intro d hd
  rw [ScopeStack.locals, hnames, map_append, mem_append] at hd
  rcases hd with hd | hd
  · obtain ⟨entry, hentry, rfl⟩ := mem_map.1 hd
    exact .inr (hnew entry hentry)
  · exact .inl hd

theorem trans (h : Step fills W s s') (h' : Step fills W s' s'') : Step fills W s s'' := by
  refine ⟨fun hk => h'.kinds (h.kinds hk), h.next_le.trans h'.next_le, fun {x k} hk hnone => ?_,
    fun hlt hd => h'.usable (hlt.trans_le h.next_le) (h.usable hlt hd), h'.base.trans h.base, ?_,
    fun d hd => ?_, fun name d hd hreserved hW => ?_, h'.context.trans h.context, h'.outer.trans h.outer,
    fun hs => h'.settled (h.settled hs)⟩
  · by_cases hx : s'.builder.kind? x = none
    · rcases h'.fresh hk hx with hle | ⟨hfills, hlocal⟩
      · exact .inl (h.next_le.trans hle)
      · exact (h.locals x hlocal).symm.imp_right fun hlocal => ⟨hfills, hlocal⟩
    · obtain ⟨k', hk'⟩ := ne_none_iff_exists'.1 hx
      exact h.fresh hk' hnone
  · obtain ⟨new, hnames, hnew⟩ := h.named
    obtain ⟨new', hnames', hnew'⟩ := h'.named
    refine ⟨new' ++ new, by rw [hnames', hnames, append_assoc], fun entry hentry => ?_⟩
    rcases mem_append.1 hentry with hentry | hentry
    · exact h.next_le.trans (hnew' entry hentry)
    · exact hnew entry hentry
  · rcases h'.reserved d hd with hd | hd
    · exact h.reserved d hd
    · exact .inr hd
  · have hmiddle := (h'.reserved d hreserved).resolve_right hW
    exact h'.waits name d (h.waits name d hd hmiddle hW) hreserved hW

theorem mono {fills' : Bool} {W' : Set NodeId} (h : Step fills W s s') (hfills : fills = true → fills' = true)
    (hW : W ⊆ W') : Step fills' W' s s' :=
  { h with
    fresh := fun hk hnone => (h.fresh hk hnone).imp_right (And.imp_left hfills)
    reserved := fun d hd => (h.reserved d hd).imp_right (@hW d)
    waits := fun name d hd hreserved hnot => h.waits name d hd hreserved fun hmem => hnot (hW hmem) }

theorem weaken (h : Step false ∅ s s') : Step fills W s s' := h.mono nofun (Set.empty_subset W)

theorem unfilled (h : Step fills W s s') (hnames : s.scopes.names = []) : Step false W s s' := by
  refine { h with fresh := fun hk hnone => .inl ((h.fresh hk hnone).resolve_right ?_) }
  simp [ScopeStack.locals, hnames]

theorem since (h : Step false W s s') : Since s.builder s'.builder :=
  ⟨h.kinds, h.next_le, fun hk hnone => (h.fresh hk hnone).resolve_right (by simp)⟩

end Step

/-! ## Ready states -/

/-- The builder has the roots `T`, each of a kind that its owner can have. -/
structure Held (b : Builder) (T : Multiset Root) : Prop where
  grown : Grown b (Root.ids T)
  fits : ∀ r ∈ T, r.Fits b

/-- The roots that a state holds: `H`, and the pending temporaries. -/
structure Holds (s : LowerState) (H : Multiset Root) : Prop where
  held : Held s.builder (H + roots .declarator s.pendingTemps)
  pending : ∀ t ∈ s.pendingTemps, Barren s.builder.kind? t

/-- A state with the roots `H` in which all names stand for declarations whose scope is open. -/
structure Ready (s : LowerState) (H : Multiset Root) : Prop extends Holds s H where
  usable : ∀ d ∈ s.scopes.ids, Usable s.builder d

def AllBarren (b : Builder) (L : Multiset Root) : Prop := ∀ t ∈ L, Barren b.kind? t.id

theorem Held.stored (h : Held b T) {r : Root} (hr : r ∈ T) : ∃ k, b.kind? r.id = some k :=
  (h.fits r hr).imp fun _ => And.left

theorem Held.congr (h : Held b T) (halike : Alike b b') : Held b' T := by
  refine ⟨h.grown.congr halike, fun r hr => ?_⟩
  rw [Root.Fits, halike.kind_eq]
  exact h.fits r hr

namespace Holds

theorem grown (h : Holds s H) : Grown s.builder (Root.ids (H + roots .declarator s.pendingTemps)) := h.held.grown

theorem of_eq (h : Holds s H) (hbuilder : s'.builder = s.builder) (hpending : s'.pendingTemps = s.pendingTemps) :
    Holds s' H := by
  obtain ⟨hheld, hbarren⟩ := h
  rw [← hbuilder, ← hpending] at hheld hbarren
  exact ⟨hheld, hbarren⟩

end Holds

theorem Ready.congr (h : Ready s H) (hbuilder : Alike s.builder s'.builder) (hscopes : s'.scopes = s.scopes)
    (hpending : s'.pendingTemps = s.pendingTemps) : Ready s' H := by
  refine ⟨⟨?_, ?_⟩, ?_⟩
  · rw [hpending]
    exact h.held.congr hbuilder
  · rw [hbuilder.kind_eq, hpending]
    exact h.pending
  · rw [hscopes]
    exact fun d hd => (h.usable d hd).congr hbuilder

theorem Ready.local_lt (h : Ready s H) (hd : s.scopes.local? name = some d) : d < s.builder.nextId :=
  h.grown.usable_lt (h.usable d (ids_of_locals (mem_of_local? hd)))

theorem Barren.mono {T : Multiset NodeId} (hgrown : Grown b T)
    (hkinds : ∀ {x k}, b.kind? x = some k → b'.kind? x = some k) {k : Kind} (hx : b.kind? x = some k)
    (h : Barren b.kind? x) : Barren b'.kind? x := by
  intro y kind hxy hy
  obtain ⟨hold, k', hk'⟩ := contains_old hgrown hkinds hx hxy
  exact h y kind hold (hk'.trans ((hkinds hk').symm.trans hy))

theorem AllBarren.mono (hheld : Held b T) (hkinds : ∀ {x k}, b.kind? x = some k → b'.kind? x = some k)
    (hsub : ∀ t ∈ L, t ∈ T) (h : AllBarren b L) : AllBarren b' L := by
  intro t ht
  obtain ⟨k, hk⟩ := hheld.stored (hsub t ht)
  exact (h t ht).mono hheld.grown hkinds hk

theorem AllBarren.add {L' : Multiset Root} (h : AllBarren b L) (h' : AllBarren b L') : AllBarren b (L + L') :=
  fun t ht => (Multiset.mem_add.1 ht).elim (h t) (h' t)

@[simp]
theorem allBarren_zero : AllBarren b 0 := fun _ h => absurd h (Multiset.notMem_zero _)

def Kind.listsFields : Kind → Bool
  | classMetadata summary => !summary.instanceFields.isEmpty
  | _ => false

/-- Some class has instance fields. -/
def ListsFields (g : NodeId → Option Kind) : Prop := ∃ x kind, g x = some kind ∧ kind.listsFields = true

/-- Declarations of temporaries that no statement has taken. There are none, unless some class has instance fields, or
`X` tells why. -/
structure Lost (X : Prop) (b : Builder) (L : Multiset Root) : Prop where
  barren : AllBarren b L
  declarators : ∀ t ∈ L, t.category = .declarator
  why : L = 0 ∨ ListsFields b.kind? ∨ X

namespace Lost

variable {X : Prop} {L L' : Multiset Root}

theorem zero : Lost X b 0 := ⟨allBarren_zero, by simp, .inl rfl⟩

theorem add (h : Lost X b L) (h' : Lost X b L') : Lost X b (L + L') := by
  refine ⟨h.barren.add h'.barren, fun t ht => (Multiset.mem_add.1 ht).elim (h.declarators t) (h'.declarators t), ?_⟩
  rcases h.why with hL | hwhy
  · rcases h'.why with hL' | hwhy
    · exact .inl (by rw [hL, hL', add_zero])
    · exact .inr hwhy
  · exact .inr hwhy

theorem mono (hheld : Held b T) (hkinds : ∀ {x k}, b.kind? x = some k → b'.kind? x = some k) (hsub : ∀ t ∈ L, t ∈ T)
    (h : Lost X b L) : Lost X b' L :=
  ⟨h.barren.mono hheld hkinds hsub, h.declarators,
    h.why.imp_right (Or.imp_left fun ⟨x, kind, hx, hlists⟩ => ⟨x, kind, hkinds hx, hlists⟩)⟩

theorem widen {Y : Prop} (h : Lost X b L) (hXY : X → ListsFields b.kind? ∨ Y) : Lost Y b L :=
  ⟨h.barren, h.declarators, h.why.imp_right fun hwhy => hwhy.elim .inl hXY⟩

end Lost

/-! ## Facts -/

inductive Fact where
  /-- New identifiers may be bound to `d`. -/
  | usable (d : NodeId)
  /-- The node `x` carries no names. -/
  | inert (x : NodeId)
  /-- There is nothing below the node `x` but bare declarations. -/
  | barren (x : NodeId)
  /-- The node `x` is one of the category. -/
  | fits (category : Category) (x : NodeId)
  | settled (name : String)
  | calm
  | outsideBlocks
  /-- The context is `c`. -/
  | context (c : FunctionContext)
  | listsFields

def Fact.Holds (s : LowerState) : Fact → Prop
  | usable d => Usable s.builder d
  | inert x => ∃ k, s.builder.kind? x = some k ∧ k.carriesNames = false
  | barren x => (∃ k, s.builder.kind? x = some k) ∧ Barren s.builder.kind? x
  | fits category x => Root.Fits s.builder ⟨x, category⟩
  | settled name => ∀ d, ¬s.Waits name d
  | calm => ∀ name d, ¬s.Waits name d
  | outsideBlocks => ∀ b ∈ s.scopes.base, b.1 ≠ .block
  | context c => s.context = c
  | listsFields => ListsFields s.builder.kind?

theorem Step.not_waits (h : Step fills ∅ s s') (hready : Ready s H) (hname : ∀ d, ¬s.Waits name d) :
    ∀ d, ¬s'.Waits name d := by
  rintro d ⟨hlocal, hreserved⟩
  have hold : d ∈ s.builder.reserved := (h.reserved d hreserved).resolve_right (Set.notMem_empty d)
  obtain ⟨new, hnames, hnew⟩ := h.named
  rw [local?_eq, hnames, lookup?_append, or_eq_some_iff] at hlocal
  rcases hlocal with hlocal | ⟨-, hlocal⟩
  · obtain ⟨entry, hentry, rfl⟩ := mem_map.1 (mem_of_lookup? hlocal)
    exact Nat.not_lt.2 (hnew entry hentry) (hready.grown.reserved_lt hold)
  · exact hname d ⟨local?_eq.trans hlocal, hold⟩

theorem Fact.Holds.of_step {fact : Fact} (hready : Ready s H) (hstep : Step fills ∅ s s') (h : fact.Holds s) :
    fact.Holds s' := by
  cases fact with
  | usable d => exact hstep.usable (hready.grown.usable_lt h) h
  | inert x =>
    obtain ⟨k, hk, hinert⟩ := h
    exact ⟨k, hstep.kinds hk, hinert⟩
  | barren x =>
    obtain ⟨⟨k, hk⟩, hbarren⟩ := h
    exact ⟨⟨k, hstep.kinds hk⟩, hbarren.mono hready.grown hstep.kinds hk⟩
  | fits category x =>
    obtain ⟨k, hk, hadmits⟩ := h
    exact ⟨k, hstep.kinds hk, hadmits⟩
  | settled name => exact hstep.not_waits hready h
  | calm => exact fun name => hstep.not_waits hready (h name)
  | outsideBlocks =>
    rw [Holds, hstep.base]
    exact h
  | context c => exact hstep.context.trans h
  | listsFields =>
    obtain ⟨x, kind, hx, hlists⟩ := h
    exact ⟨x, kind, hstep.kinds hx, hlists⟩

theorem Step.waits_of_unfilled (h : Step false ∅ s s') (hready : Ready s H) (hd : s.Waits name d) :
    s'.Waits name d := by
  obtain ⟨hlocal, hreserved⟩ := hd
  have hlt := hready.grown.reserved_lt hreserved
  have hstill : d ∈ s'.builder.reserved := by
    rcases h.usable hlt (.inl hreserved) with hd | ⟨⟨k, hk, -⟩, -⟩
    · exact hd
    · have hle := (h.fresh hk (hready.grown.reserved_new hreserved)).resolve_right (by simp)
      exact absurd hlt (Nat.not_lt.2 hle)
  exact ⟨h.waits name d hlocal hstill (Set.notMem_empty d), hstill⟩

end Retarget
