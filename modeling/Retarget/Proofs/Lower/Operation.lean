import Retarget.Proofs.Lower.Triple

/-!
# The operations of lowering

Specifications of the operations that store nodes and declare names.

* `Kind.Allowed U kind`: a node of this kind may be stored under the facts `U`, and closes no names.
* `create_lowers`: such a node takes its children and becomes a root. Its check can only fail for its own values.
* `Lowers.declare`: a new declaration gets a name.
* `Ready.fill`: a node is stored under the id that was reserved for it.
-/

namespace Retarget

open Syntax LowerM List Reference ScopeStack Retarget.Fact Kind

variable {s s' s₀ : LowerState} {A B C F : Multiset Root} {U : Set Fact} {fills : Bool} {W : Set NodeId}
  {kind : Kind} {c : Category} {name : String} {d p x : NodeId}

def usableFacts (o : Option NodeId) : Set Fact := {fact | ∃ d ∈ o, fact = .usable d}

/-! ## Storing nodes -/

/-- A node of this kind closes no names, what it refers to is known, and it is allowed in the context. -/
structure Kind.Allowed (U : Set Fact) (kind : Kind) : Prop where
  place : kind.function? = none ∧
    (kind.allowedAt {} = true ∨ ∃ context, .context context ∈ U ∧ kind.allowedAt context = true)
  inert : kind.passesNames = true ∨ (kind.function? = none ∧
    ∀ r ∈ kind.references, r.owned = true → r.category.carriesNames = true → inert r.target ∈ U)
  binding : ∀ name d, kind = .identifier name (some d) → usable d ∈ U
  cross : ∀ r ∈ kind.references, r.owned = false → r.category ≠ .binding → fits r.category r.target ∈ U

namespace Reference

@[simp]
theorem all_owned_one (field : String) (id : NodeId) (category : Category) :
    (one field id category).all (·.owned) = true := rfl

@[simp]
theorem all_owned_opt (field : String) (id : Option NodeId) (category : Category) :
    (opt field id category).all (·.owned) = true := by cases id <;> rfl

@[simp]
theorem all_owned_many (field : String) (ids : List NodeId) (category : Category) :
    (many field ids category).all (·.owned) = true := by
  rw [List.all_eq_true]
  intro r hr
  obtain ⟨i, hi, rfl⟩ := mem_mapIdx.1 hr
  rfl

@[simp]
theorem all_owned_items (field : String) (list : List ListItem) : (items field list).all (·.owned) = true := by
  rw [List.all_eq_true]
  intro r hr
  obtain ⟨i, hi, rfl⟩ := mem_mapIdx.1 hr
  rfl

end Reference

variable {r : Reference} {b' : Builder} {α : Type} {f : Builder → Except BuilderError (α × Builder)} {e : Envelope}
  {pos : Pos} {type : Option TypeDescriptor}

namespace Kind

def isFree : Kind → Bool
  | identifier _ (some _) | method .. | breakStmt | continueStmt | returnStmt _ | awaitExpr _ => false
  | kind => kind.isPlain || kind.passesNames

theorem isPlain_or_of_isFree (h : kind.isFree = true) : kind.isPlain = true ∨ kind.passesNames = true := by
  unfold isFree at h
  split at h
  case h_7 => simpa using h
  all_goals cases h

theorem place_of_isFree (h : kind.isFree = true) : kind.function? = none ∧ kind.allowedAt {} = true := by
  cases kind <;> first | exact ⟨rfl, rfl⟩ | cases h

/-- Kinds that refer to a node they do not own: a declaration, or the home of a method. -/
def refersAcross : Kind → Bool
  | identifier _ (some _) | method .. => true
  | _ => false

theorem all_owned (h : kind.refersAcross = false) : kind.references.all (·.owned) = true := by
  cases kind
  case identifier name binding =>
    cases binding with
    | none => rfl
    | some d => cases h
  case method => cases h
  all_goals
    simp only [references, FunctionNode.references, ClassNode.references, all_append, all_nil,
      all_owned_one, all_owned_opt, all_owned_many, all_owned_items,
      Bool.and_self]

theorem owned_of_mem (h : kind.refersAcross = false) (hr : r ∈ kind.references) : r.owned = true :=
  all_eq_true.1 (all_owned h) r hr

theorem not_refersAcross_of_isFree (h : kind.isFree = true) : kind.refersAcross = false := by
  cases kind with
  | identifier name binding =>
    cases binding with
    | none => rfl
    | some d => cases h
  | method => cases h
  | _ => rfl

theorem Allowed.of_plain (hplace : kind.function? = none ∧
      (kind.allowedAt {} = true ∨ ∃ context, .context context ∈ U ∧ kind.allowedAt context = true))
    (h : kind.isPlain = true ∨ kind.passesNames = true) (hacross : kind.refersAcross = false) : kind.Allowed U := by
  refine ⟨hplace, ?_, ?_, fun r hr howned _ => ?_⟩
  · rcases h with hplain | hpasses
    · refine .inr ⟨function?_of_isPlain hplain, fun r hr howned hcarries => ?_⟩
      have hfalse := carriesNames_of_isPlain hplain _ (mem_ownedCategories hr howned)
      exact absurd hcarries (by simp [hfalse])
    · exact .inl hpasses
  · rintro name d rfl
    cases hacross
  · exact absurd (owned_of_mem hacross hr) (by simp [howned])

theorem Allowed.of_isFree (h : kind.isFree = true) : kind.Allowed U :=
  .of_plain ((place_of_isFree h).imp_right .inl) (isPlain_or_of_isFree h) (not_refersAcross_of_isFree h)

theorem Allowed.of_context {context : FunctionContext} (hU : .context context ∈ U) (h : kind.allowedAt context = true)
    (hplain : kind.isPlain = true) (hacross : kind.refersAcross = false) : kind.Allowed U :=
  .of_plain ⟨function?_of_isPlain hplain, .inr ⟨context, hU, h⟩⟩ (.inl hplain) hacross

theorem Allowed.of_inert (hfunction : kind.function? = none) (hcalm : kind.allowedAt {} = true)
    (howned : kind.refersAcross = false)
    (hinert : ∀ r ∈ kind.references, r.category.carriesNames = true → Fact.inert r.target ∈ U) : kind.Allowed U := by
  refine ⟨⟨hfunction, .inl hcalm⟩, .inr ⟨hfunction, fun r hr _ => hinert r hr⟩, ?_, fun r hr hcross => ?_⟩
  · rintro name d rfl
    cases howned
  · exact absurd (owned_of_mem howned hr) (by simp [hcross])

theorem Allowed.identifier (name : String) (binding : Option NodeId) :
    (identifier name binding).Allowed (usableFacts binding) := by
  refine ⟨⟨rfl, .inl rfl⟩, .inr ⟨rfl, ?_⟩, ?_, ?_⟩
  · simp [references, Reference.cross]
  · rintro name' d h
    cases h
    exact ⟨d, rfl, rfl⟩
  · simp [references, Reference.cross]

theorem eq_identifier_of_binding (hr : r ∈ kind.references) (hcategory : r.category = .binding) :
    ∃ name, kind = .identifier name (some r.target) := by
  by_cases howned : r.owned = true
  · exact absurd hcategory (kind.ne_binding _ (mem_ownedCategories hr howned))
  cases hacross : kind.refersAcross with
  | false => exact absurd (owned_of_mem hacross hr) howned
  | true =>
    cases kind with
    | identifier name binding =>
      cases binding with
      | none => cases hacross
      | some d =>
        obtain rfl : r = ⟨"binding", d, .binding, false⟩ := by simpa [references, cross] using hr
        exact ⟨name, rfl⟩
    | method key value k isStatic home =>
      simp only [references, one, cross, List.mem_append, List.mem_singleton,
        List.mem_map] at hr
      rcases hr with rfl | ⟨d, -, rfl⟩ <;> cases hcategory
    | _ => cases hacross

end Kind

def madeFacts (U : Set Fact) (kind : Kind) (id : NodeId) : Set Fact :=
  {fact | (fact = .inert id ∧ kind.carriesNames = false) ∨
    (fact = .usable id ∧ kind.isBinding = true ∧ kind.scopesItself = false) ∨
    (fact = .barren id ∧ kind.isBare = true ∧ ∀ c ∈ kind.childList, barren c ∈ U) ∨
    (fact = .listsFields ∧ kind.listsFields = true) ∨ ∃ c, fact = .fits c id ∧ c.admits kind = true}

theorem inert_mem_madeFacts (h : kind.carriesNames = false) : .inert p ∈ madeFacts U kind p := .inl ⟨rfl, h⟩

theorem usable_mem_madeFacts (h : kind.isBinding = true) (hself : kind.scopesItself = false) :
    .usable p ∈ madeFacts U kind p := .inr (.inl ⟨rfl, h, hself⟩)

theorem barren_mem_madeFacts (h : kind.isBare = true)
    (hbelow : ∀ c ∈ kind.childList, barren c ∈ U) : .barren p ∈ madeFacts U kind p :=
  .inr (.inr (.inl ⟨rfl, h, hbelow⟩))

theorem listsFields_mem_madeFacts (h : kind.listsFields = true) : .listsFields ∈ madeFacts U kind p :=
  .inr (.inr (.inr (.inl ⟨rfl, h⟩)))

theorem fits_mem_madeFacts (h : c.admits kind = true) : .fits c p ∈ madeFacts U kind p :=
  .inr (.inr (.inr (.inr ⟨c, rfl, h⟩)))

theorem Stores.made (hs : Stores s.builder b' p kind) (ha : Adjoins s.builder.kind? p kind)
    (hfacts : ∀ u ∈ U, u.Holds s) : ∀ v ∈ madeFacts U kind p, v.Holds { s with builder := b' } := by
  rintro v (⟨rfl, hcarries⟩ | ⟨rfl, hkind, hscope⟩ | ⟨rfl, hkind, hbelow⟩ | ⟨rfl, hlists⟩ |
    ⟨c, rfl, hadmits⟩)
  · exact ⟨kind, by rw [hs.kind_eq, adjoin_self], hcarries⟩
  · refine .inr ⟨⟨kind, by rw [hs.kind_eq, adjoin_self], hkind⟩, fun o ho => ?_⟩
    rw [hs.kind_eq] at ho
    exact absurd ho (ha.not_scopeOwner hkind hscope)
  · refine ⟨⟨kind, by rw [hs.kind_eq, adjoin_self]⟩, fun y k hpy hy => ?_⟩
    rw [hs.kind_eq] at hpy hy
    rcases ha.contains_self_iff.1 hpy with rfl | ⟨c, hc, hcy⟩
    · rw [adjoin_self] at hy
      exact Option.some.inj hy ▸ hkind
    · have hyp : y ≠ p := by
        rintro rfl
        exact ha.ne (ha.eq_of_contains (ha.contains hcy) ▸ hc)
      rw [adjoin_of_ne hyp] at hy
      exact (hfacts _ (hbelow c (children_eq kind ▸ hc))).2 y k hcy hy
  · exact ⟨p, kind, by rw [hs.kind_eq, adjoin_self], hlists⟩
  · exact ⟨kind, by rw [hs.kind_eq, adjoin_self], hadmits⟩

theorem Held.grown_children {b : Builder} {T : Multiset Root} (h : Held b (kind.parts + T)) :
    Grown b (kind.children + Root.ids T) := by
  have hgrown := h.grown
  rwa [Root.ids_add, ids_parts] at hgrown

section Stores

variable {b' : Builder} {T : Multiset Root} (hs : Stores s.builder b' p kind) (hheld : Held s.builder (kind.parts + T))
include hs hheld

theorem Stores.kinds {k : Kind} (hk : s.builder.kind? x = some k) : b'.kind? x = some k := by
  rw [hs.kind_eq]
  exact (hs.adjoins hheld.grown_children).eq_of_some hk

theorem Stores.held (hgrown : Grown b' ({p} + Root.ids T)) (hc : c.admits kind = true) : Held b' (root c p + T) := by
  refine ⟨by rwa [Root.ids_add], fun r hr => ?_⟩
  rcases Multiset.mem_add.1 hr with hr | hr
  · rw [mem_root.1 hr]
    exact ⟨kind, by rw [hs.kind_eq, adjoin_self], hc⟩
  · obtain ⟨k, hk, hadmits⟩ := hheld.fits r (Multiset.mem_add.2 (.inr hr))
    exact ⟨k, hs.kinds hheld hk, hadmits⟩

theorem Step.of_stores {W' : Set NodeId} (hstep : Step false W s₀ s)
    (hp : s₀.builder.nextId ≤ p ∨ (fills = true ∧ p ∈ s₀.scopes.locals)) (hW : ∀ d ∈ W, d = p ∨ d ∈ W')
    (husable : ∀ d < s₀.builder.nextId, Usable s.builder d → Usable b' d)
    (hbinding : p ∈ s.builder.reserved → kind.isBinding = true) : Step fills W' s₀ { s with builder := b' } := by
  have hold : ∀ d ∈ b'.reserved, d ∈ s.builder.reserved ∧ (d ∈ W → d ∈ W') := fun d hd => by
    obtain ⟨hd, hne⟩ := (hs.reserved d).1 hd
    exact ⟨hd, fun hdW => (hW d hdW).resolve_left hne⟩
  refine ⟨fun hk => hs.kinds hheld (hstep.kinds hk), hstep.next_le.trans hs.next_le, fun {x k} hk hnone => ?_,
    fun hlt hd => husable _ hlt (hstep.usable hlt hd), hstep.base, hstep.named, fun d hd => ?_,
    fun name d hd hreserved hdW => ?_, hstep.context, hstep.outer, fun hsettled d hd => ?_⟩
  · by_cases hx : x = p
    · exact hx ▸ hp
    · rw [hs.kind_eq, adjoin_of_ne hx] at hk
      exact .inl (hstep.since.fresh hk hnone)
  · exact (hstep.reserved d (hold d hd).1).imp_right (hold d hd).2
  · exact hstep.waits name d hd (hold d hreserved).1 fun hdW' => hdW ((hold d hreserved).2 hdW')
  · rcases hstep.settled hsettled d hd with hreserved | ⟨k, hk, hkind⟩
    · by_cases hdp : d = p
      · exact .inr ⟨kind, by rw [hs.kind_eq, hdp, adjoin_self], hbinding (hdp ▸ hreserved)⟩
      · exact .inl ((hs.reserved d).2 ⟨hreserved, hdp⟩)
    · exact .inr ⟨k, hs.kinds hheld hk, hkind⟩

end Stores

namespace Kind.Allowed

variable (hallowed : kind.Allowed U) (hfacts : ∀ u ∈ U, u.Holds s) {T : Multiset Root}
  (hheld : Held s.builder (kind.parts + T))
include hallowed hfacts hheld

theorem known (hr : r ∈ kind.references) (hcategory : r.category ≠ .binding) :
    Root.Fits s.builder ⟨r.target, r.category⟩ := by
  by_cases howned : r.owned = true
  · exact hheld.fits _ (Multiset.mem_add.2 (.inl (mem_parts hr howned)))
  · exact hfacts _ (hallowed.cross r hr (by simpa using howned) hcategory)

theorem fits (hnew : s.builder.kind? p = none) (hbinding : p ∈ s.builder.reserved → kind.isBinding = true) :
    s.builder.Fits p kind := by
  intro r hr
  by_cases hcategory : r.category = .binding
  · obtain ⟨name, rfl⟩ := eq_identifier_of_binding hr hcategory
    rcases hfacts _ (hallowed.binding name r.target rfl) with hreserved | ⟨⟨k, hk, hkind⟩, -⟩
    · refine ⟨fun htarget => ?_, .inr hreserved⟩
      rw [htarget] at hreserved
      exact absurd (hbinding hreserved) nofun
    · refine ⟨fun htarget => ?_, .inl ⟨k, hk, by rwa [hcategory]⟩⟩
      rw [htarget, hnew] at hk
      exact absurd hk nofun
  · obtain ⟨k, hk, hadmits⟩ := hallowed.known hfacts hheld hr hcategory
    refine ⟨fun htarget => ?_, .inl ⟨k, hk, hadmits⟩⟩
    rw [htarget, hnew] at hk
    exact absurd hk nofun

end Kind.Allowed

/-- **A node that closes no names** takes its children and becomes a root. -/
theorem Ready.store (hready : Ready s (kind.parts + F)) (hs : Stores s.builder b' p kind) (hallowed : kind.Allowed U)
    (hfacts : ∀ u ∈ U, u.Holds s) (hc : c.admits kind = true)
    (hself : kind.scopesItself = true → p ∉ s.builder.reserved)
    (hbinding : p ∈ s.builder.reserved → kind.isBinding = true) :
    Ready { s with builder := b' } (root c p + F) ∧ (∀ d, Usable s.builder d → Usable b' d) ∧
      (∀ v ∈ madeFacts U kind p, v.Holds { s with builder := b' }) ∧ Tame {s.context} s.builder.kind? b'.kind? := by
  have hheld := hready.held
  rw [add_assoc] at hheld
  have hgrown := hheld.grown_children
  have hinert : Inert s.builder.kind? kind := by
    refine hallowed.inert.imp_right fun ⟨hfunction, hrefs⟩ => ⟨hfunction, fun c hc k hk => ?_⟩
    obtain ⟨r, hr, rfl, howned⟩ := exists_reference_of_mem_children hc
    by_contra hcarries
    obtain ⟨k', hk', hadmits⟩ := hheld.fits _ (Multiset.mem_add.2 (.inl (mem_parts hr howned)))
    rw [← Option.some.inj (hk.symm.trans hk')] at hadmits
    have hcategory := Category.carriesNames_of_admits hadmits (by simpa using hcarries)
    obtain ⟨k', hk', hfalse⟩ := hfacts _ (hrefs r hr howned hcategory)
    rw [Option.some.inj (hk.symm.trans hk')] at hcarries
    exact hcarries hfalse
  have hlinked : Linked s.builder p kind := by
    refine ⟨hbinding, fun r hr => ?_, fun name d hk => hfacts _ (hallowed.binding name d hk)⟩
    by_cases hcategory : r.category = .binding
    · exact .inl hcategory
    · exact .inr ((hallowed.known hfacts hheld hr hcategory).imp fun _ => And.left)
  obtain ⟨hgrown', husable⟩ := hs.grown_of_inert hgrown hinert hself hlinked
  refine ⟨⟨⟨?_, fun t ht => ?_⟩, fun d hd => husable d (hready.usable d hd)⟩, husable,
    hs.made (hs.adjoins hgrown) hfacts, ?_⟩
  · rw [add_assoc]
    exact hs.held hheld hgrown' hc
  · obtain ⟨k, hk⟩ := hready.held.stored (r := ⟨t, .declarator⟩) (by simp [show t ∈ s.pendingTemps from ht])
    exact (hready.pending t ht).mono hready.grown (hs.kinds hheld) hk
  · obtain ⟨hfunction, hplace⟩ := hallowed.place
    rw [hs.kind_eq]
    refine .store (hs.adjoins hgrown) hfunction ?_
    rcases hplace with hcalm | ⟨context, hcontext, hplace⟩
    · exact allowedAt_of_calm hcalm
    · rwa [show s.context = context from hfacts _ hcontext]

/-! ## Errors of the builder -/

namespace Builder

variable {b : Builder} {T : Multiset NodeId} {e : Envelope} {error : BuilderError}

theorem isMisuse_of_scalarError? (h : scalarError? kind = some error) : error.isMisuse = false := by
  unfold scalarError? at h
  split at h
  case h_7 => exact absurd h nofun
  all_goals
    simp only [Option.ite_none_left_eq_some, Option.ite_none_right_eq_some, Option.some.injEq] at h
    obtain ⟨-, rfl⟩ := h
    rfl

theorem isMisuse_of_check (hgrown : Grown b T) (hfits : b.Fits p kind) (h : b.check p kind = .error error) :
    error.isMisuse = false := by
  have hnone : kind.references.findSome? (b.referenceError? p kind) = none := by
    refine List.findSome?_eq_none_iff.2 fun r hr => referenceError?_eq_none.2 ?_
    obtain ⟨hne, htarget⟩ := hfits r hr
    exact ⟨hne, htarget.imp_right fun hreserved => ⟨hgrown.reserved_new hreserved, hreserved⟩⟩
  rw [check, kindError?, hnone, Option.or_none] at h
  split at h
  next hscalar =>
    cases h
    exact isMisuse_of_scalarError? hscalar
  next => cases h

theorem isMisuse_of_create (hgrown : Grown b T) (hfits : b.Fits b.nextId kind)
    (h : b.create kind e = .error error) : error.isMisuse = false := by
  rw [create, perform, run_create] at h
  cases hcheck : b.check b.nextId kind with
  | error error' =>
    rw [hcheck] at h
    cases h
    exact isMisuse_of_check hgrown hfits hcheck
  | ok =>
    by_cases hroom : b.nextId < idLimit
    · simp [hcheck, hroom] at h
    · obtain rfl : BuilderError.idsExhausted = error := by simpa [hcheck, hroom] using h
      rfl

theorem isMisuse_of_fill (hgrown : Grown b T) (hfits : b.Fits p kind) (hp : p ∈ b.reserved)
    (h : b.fill p kind e = .error error) : error.isMisuse = false := by
  rw [fill, perform, run_fill, if_pos hp] at h
  cases hcheck : b.check p kind with
  | error error' =>
    rw [hcheck] at h
    cases h
    exact isMisuse_of_check hgrown hfits hcheck
  | ok =>
    rw [hcheck] at h
    cases h

end Builder

/-! ## Operations of the builder -/

theorem build_eq_ok {a : α} :
    build f s = .ok (a, s') ↔ ∃ b, f s.builder = .ok (a, b) ∧ s' = { s with builder := b } := by
  unfold build
  split
  next a' b h => simp [h, and_assoc, eq_comm]
  next e h => simp [h]

theorem build_endsWell {P : α → LowerState → Prop} (hok : ∀ a b, f s.builder = .ok (a, b) → P a { s with builder := b })
    (herror : ∀ e, f s.builder = .error e → e.isMisuse = false) : EndsWell (build f) s P := by
  unfold EndsWell build
  cases hf : f s.builder with
  | ok result => exact hok result.1 result.2 hf
  | error e => exact herror e hf

theorem span_quiet : Quiet (span pos) := Quiet.get.bind fun _ => .pure

theorem create_lowers (hallowed : kind.Allowed U) (hc : c.admits kind = true) :
    Lowers fills U kind.parts (create kind e) (root c) (madeFacts U kind) := by
  intro s F hready hfacts
  have hheld := hready.held
  rw [add_assoc] at hheld
  have hfresh : s.builder.nextId ∉ s.builder.reserved := fun hmem => (hready.grown.reserved_lt hmem).ne rfl
  refine build_endsWell (fun p b hcreate => ?_) fun error herror => ?_
  · obtain ⟨hs, hp⟩ := hready.grown.create hcreate
    rw [← hp] at hfresh
    obtain ⟨hready', husable, hmade, htame⟩ :=
      hready.store hs hallowed hfacts hc (fun _ => hfresh) fun h => absurd h hfresh
    have hstep : Step false ∅ s s := .refl s
    exact ⟨⟨0, .zero, by rwa [add_zero]⟩, hstep.of_stores hs hheld (.inl hp.ge) nofun
      (fun d _ => husable d) fun h => absurd h hfresh, prefix_rfl, hmade, htame⟩
  · have hnew : s.builder.kind? s.builder.nextId = none := by
      by_contra hstored
      obtain ⟨k, hk⟩ := Option.ne_none_iff_exists'.1 hstored
      exact (hready.grown.stored_lt hk).ne rfl
    exact Builder.isMisuse_of_create hready.grown
      (hallowed.fits hfacts hheld hnew fun hmem => absurd hmem hfresh) herror

section Made

variable (hallowed : kind.Allowed U) (hc : c.admits kind = true)
include hallowed hc

theorem typed_lowers : Lowers fills U kind.parts (typed kind pos type) (root c) (madeFacts U kind) :=
  .skip span_quiet fun _ => create_lowers hallowed hc

theorem node_lowers : Lowers fills U kind.parts (node kind pos) (root c) (madeFacts U kind) :=
  typed_lowers hallowed hc

theorem syntheticTyped_lowers : Lowers fills U kind.parts (syntheticTyped kind pos type) (root c) (madeFacts U kind) :=
  .skip span_quiet fun _ => create_lowers hallowed hc

theorem synthetic_lowers : Lowers fills U kind.parts (synthetic kind pos) (root c) (madeFacts U kind) :=
  syntheticTyped_lowers hallowed hc

end Made

namespace Lowers

variable {β : Type} {U' : Set Fact} {x : LowerM NodeId} {R : NodeId → Multiset Root} {V : NodeId → Set Fact}
  {Q : β → Multiset Root} {W : β → Set Fact}

theorem doneWith (hx : Lowers fills U' kind.parts x R V) (hU : U' ⊆ U) (hC : C = kind.parts) :
    Lowers fills U C x R :=
  hx.conseq hU (by rw [add_zero, hC]) (fun _ => (add_zero _).symm) (by simp)

/-- A node whose children are all there is. -/
theorem done (hx : Lowers fills U kind.parts x R V) (hC : C = kind.parts) : Lowers fills U C x R :=
  hx.doneWith subset_rfl hC

/-- A node, and what is done with it next to the roots `B` that are not its children. -/
theorem into {k : NodeId → LowerM β} (hx : Lowers fills U kind.parts x R V) (hC : C = kind.parts + B)
    (hk : ∀ id, Lowers fills U (R id + B) (k id) Q W) : Lowers fills U C (x >>= k) Q W := hx.next subset_rfl hC hk

end Lowers

section Done

variable (hfree : kind.isFree = true) (hc : c.admits kind = true) (hC : C = kind.parts)
include hfree hc hC

theorem typed_done : Lowers fills U C (typed kind pos type) (root c) := (typed_lowers (.of_isFree hfree) hc).done hC

theorem node_done : Lowers fills U C (node kind pos) (root c) := typed_done hfree hc hC

theorem syntheticTyped_done : Lowers fills U C (syntheticTyped kind pos type) (root c) :=
  (syntheticTyped_lowers (.of_isFree hfree) hc).done hC

theorem synthetic_done : Lowers fills U C (synthetic kind pos) (root c) := syntheticTyped_done hfree hc hC

end Done

theorem setType_lowers {id : NodeId} :
    Lowers fills {.fits c id} 0 (LowerM.setType id type) fun _ => 0 := by
  intro s F hready hfacts
  refine build_endsWell (fun a b hset => ?_) fun error herror => ?_
  · obtain ⟨b', hset, hb⟩ := Except.bind_eq_ok.1 hset
    cases hb
    have halike := Builder.setType_alike hset
    refine ⟨⟨0, .zero, ?_⟩, .of_alike halike rfl rfl rfl rfl, prefix_rfl, by simp, .of_eq halike.kind_eq⟩
    exact hready.congr halike rfl rfl
  · obtain ⟨k, hk, -⟩ := hfacts _ rfl
    obtain ⟨node, hnode, -⟩ := NodeTable.kind?_eq_some.1 hk
    obtain ⟨b', hset⟩ : ∃ b', s.builder.setType id type = .ok b' := ⟨_, Builder.setType_eq_ok.2 ⟨node, hnode, rfl⟩⟩
    rw [hset] at herror
    cases herror

/-! ## Declaring names -/

def GivesNew {α : Type} (x : LowerM α) (f : α → NodeId) : Prop :=
  ∀ s F a s', Ready s F → x s = .ok (a, s') → s.builder.nextId ≤ f a

theorem create_givesNew : GivesNew (create kind e) id := by
  intro s F p s' _ hrun
  obtain ⟨b, hcreate, -⟩ := build_eq_ok.1 hrun
  exact (Builder.create_eq_ok.1 hcreate).2.2.1.ge

theorem typed_givesNew : GivesNew (typed kind pos type) id :=
  fun s F p s' hs hrun => create_givesNew s F p s' hs hrun

theorem syntheticTyped_givesNew : GivesNew (syntheticTyped kind pos type) id :=
  fun s F p s' hs hrun => create_givesNew s F p s' hs hrun

def Binds (U : Set Fact) (name : String) (y : LowerM Unit) (d : NodeId) : Prop :=
  ∀ s, (∀ u ∈ U, u.Holds s) → y s = .ok (⟨⟩, { s with scopes := s.scopes.add name d })

theorem bindName_binds (name : String) (d : NodeId) : Binds U name (bindName name d) d := fun _ _ => rfl

theorem bindInFunction_binds (hU : .outsideBlocks ∈ U) : Binds U name (bindInFunction name d) d := by
  intro s hfacts
  rw [← addToFunction_eq_add (hfacts _ hU)]
  rfl

theorem Lowered.add_name {R : Multiset Root} {V : Set Fact} {u : LowerState} (h : Lowered fills s F R V u)
    (hnew : s.builder.nextId ≤ d) (husable : .usable d ∈ V) (hstored : .fits c d ∈ V)
    (hsettled : (settled name).Holds u) :
    Lowered fills s F R (V ∪ {.settled name}) { u with scopes := u.scopes.add name d } := by
  obtain ⟨L, hL, hu⟩ := h.ready
  have hd : d ∉ u.builder.reserved := fun hreserved => by
    obtain ⟨k, hk, -⟩ := h.facts _ hstored
    exact absurd ((hu.grown.reserved_new hreserved).symm.trans hk) nofun
  have hself : ∀ d', ¬LowerState.Waits { u with scopes := u.scopes.add name d } name d' := by
    rintro d' ⟨hlocal, hreserved⟩
    obtain rfl := Option.some.inj (ScopeStack.local?_add_self.symm.trans hlocal)
    exact hd hreserved
  have hother : ∀ {other d'}, LowerState.Waits { u with scopes := u.scopes.add name d } other d' →
      u.Waits other d' := by
    intro other d' hwaits
    by_cases hname : name = other
    · exact absurd (hname ▸ hwaits) (hself d')
    · exact ⟨(ScopeStack.local?_add_of_ne hname).symm.trans hwaits.1, hwaits.2⟩
  refine ⟨⟨L, hL, ⟨hu.held, hu.pending⟩, fun d' hd' => ?_⟩, ?_, h.pending, ?_, h.tame⟩
  · rcases mem_ids_add.1 hd' with rfl | hd'
    · exact h.facts _ husable
    · exact hu.usable d' hd'
  · obtain ⟨new, hnames, hentries⟩ := h.step.named
    refine { h.step with
      base := base_add.trans h.step.base
      named := ⟨(name, d) :: new, by rw [names_add, hnames, cons_append], ?_⟩
      waits := fun other d' hd' hreserved hW => ?_ }
    · rintro entry (_ | ⟨_, hentry⟩)
      · exact hnew
      · exact hentries entry hentry
    · have hlocal := h.step.waits other d' hd' hreserved hW
      have hne : name ≠ other := fun hname => hsettled d' ⟨hname ▸ hlocal, hreserved⟩
      exact (ScopeStack.local?_add_of_ne hne).trans hlocal
  · rintro v (hv | rfl)
    · have hv' := h.facts v hv
      cases v with
      | usable | inert | barren | fits | context | listsFields => exact hv'
      | settled other => exact fun d' hwaits => hv' d' (hother hwaits)
      | calm => exact fun other d' hwaits => hv' other d' (hother hwaits)
      | outsideBlocks => exact fun b hb => hv' b (base_add ▸ hb)
    · exact hself

/-- **A new declaration gets a name**, if none is awaited for it. -/
theorem Lowers.declare {β : Type} {x : LowerM α} {f : α → NodeId} {y : α → LowerM Unit} {k : α → LowerM β}
    {R : α → Multiset Root} {V : α → Set Fact} {Q : β → Multiset Root} {W : β → Set Fact} {U' : Set Fact}
    (hx : Lowers fills U' A x R V) (hnew : GivesNew x f) (hU : U' ⊆ U) (hC : C = A + B)
    (hy : ∀ a, Binds U name (y a) (f a)) (husable : ∀ a, .usable (f a) ∈ V a) (hstored : ∀ a, .fits c (f a) ∈ V a)
    (hsettled : .settled name ∈ U ∨ .calm ∈ U)
    (hk : ∀ a, Lowers fills (U ∪ (V a ∪ {.settled name})) (R a + B) (k a) Q W) :
    Lowers fills U C (x >>= fun a => y a >>= fun _ => k a) Q W := by
  have hdeclare : Lowers fills U A (x >>= fun a => y a >>= fun _ => Pure.pure a) R
      fun a => V a ∪ {.settled name} := by
    intro s F hs hfacts
    refine ((hx s F hs fun f hf => hfacts f (hU hf)).and (hnew s _ · · hs)).bind fun a u ⟨hu, hle⟩ => ?_
    have hfacts' : ∀ v ∈ U, v.Holds u := fun v hv => (hfacts v hv).of_step hs hu.step
    have hname : (settled name).Holds u := by
      rcases hsettled with hmem | hmem
      · exact hfacts' _ hmem
      · exact hfacts' _ hmem name
    exact .bind_of_ok (hy a u hfacts') (.pure (hu.add_name hle (husable a) (hstored a) hname))
  have h := hdeclare.bind subset_rfl hC hk
  simpa only [bind_assoc, pure_bind] using h

/-! ## Reserved ids -/

theorem resolve?_lowers (name : String) : Lowers fills ∅ 0 (resolve? name) (fun _ => 0) usableFacts := by
  intro s F hready _
  refine .bind_of_ok rfl (.pure (.refl hready ?_))
  rintro v ⟨d, hd, rfl⟩
  exact hready.usable d (mem_of_resolve? hd)

theorem reserved?_endsWell :
    EndsWell (reserved? name) s fun o s' =>
      s' = s ∧ (∀ d ∈ o, s.Waits name d) ∧ (o = none → (settled name).Holds s) := by
  refine ⟨rfl, fun d hd => ?_, fun hnone d ⟨hlocal, hreserved⟩ => ?_⟩
  · obtain ⟨hlocal, hreserved⟩ := Option.filter_eq_some_iff.1 hd
    exact ⟨hlocal, by simpa [Builder.isReserved] using hreserved⟩
  · rw [Option.filter_eq_none_iff] at hnone
    exact hnone d hlocal (by simpa [Builder.isReserved] using hreserved)

/-- **A node under the id that was reserved for it.** -/
theorem Ready.fill (hready : Ready s (kind.parts + F)) (hallowed : kind.Allowed U) (hfacts : ∀ u ∈ U, u.Holds s)
    (hwaits : s.Waits name p) (hc : c.admits kind = true) (hself : kind.scopesItself = false)
    (hbinding : kind.isBinding = true) (pos : Pos) :
    EndsWell (LowerM.fill p kind pos) s fun _ s' =>
      Lowered true s F (root c p) (madeFacts U kind p ∪ {.settled name}) s' := by
  have hheld := hready.held
  rw [add_assoc] at hheld
  refine .bind_of_ok rfl ?_
  refine build_endsWell (fun a b hfill => ?_) fun error herror => ?_
  · obtain ⟨b', hfill, hb⟩ := Except.bind_eq_ok.1 hfill
    cases hb
    obtain ⟨hs, -⟩ := hready.grown.fill hfill
    obtain ⟨hready', husable, hmade, htame⟩ :=
      hready.store hs hallowed hfacts hc (fun h => absurd h (by simp [hself])) fun _ => hbinding
    refine ⟨⟨0, .zero, by rwa [add_zero]⟩, ?_, prefix_rfl, ?_, htame⟩
    · have hstep : Step false ∅ s s := .refl s
      exact hstep.of_stores hs hheld (.inr ⟨rfl, mem_of_local? hwaits.1⟩) nofun (fun d _ => husable d) fun _ => hbinding
    · rintro v (hv | rfl)
      · exact hmade v hv
      · rintro d ⟨hlocal, hreserved⟩
        obtain rfl := Option.some.inj (hwaits.1.symm.trans hlocal)
        exact ((hs.reserved p).1 hreserved).2 rfl
  · have hfits := hallowed.fits hfacts hheld (hready.grown.reserved_new hwaits.2) fun _ => hbinding
    cases hfill : s.builder.fill p kind { span := pos.span? s.fileId } with
    | error error' =>
      rw [hfill] at herror
      cases herror
      exact Builder.isMisuse_of_fill hready.grown hfits hwaits.2 hfill
    | ok =>
      rw [hfill] at herror
      exact absurd herror nofun

end Retarget
