import Retarget.Proofs.Lower.Operation

/-!
# Entering and leaving scopes

A scope is entered, and at its end one node takes all that was stored inside. The names declared inside are then
closed: all their identifiers lie below the node.

* `Within s₀ F W s A`: since the state `s₀`, in which the roots `F` were held, the roots `A` have been made, and no
  id but those in `W` has been left reserved. `Inside` says in addition that all names can still be used.
* `Within.close`: a node on top of all that was made since closes the names in it.
* `Isolated x R`: the computation `x` makes the roots `R` in a scope of its own.
* `inScope_isolated` and `inFunction_isolated`: what scopes are made for.
-/

namespace Retarget

open Syntax LowerM ScopeStack Multiset Root

variable {s s' s₀ : LowerState} {A B E F K : Multiset Root} {U : Set Fact} {W : Set NodeId} {fills : Bool}
  {P P' : Set FunctionContext} {J : FunctionContext → Set FunctionContext} {X : Prop} {kind : Kind} {c : Category}
  {name : String} {p x : NodeId} {α : Type} {R : α → Multiset Root} {V : α → Set Fact}

/-- Since `s₀`, in which the roots `F` were held, the roots `A` have been made, with jumps that are allowed in the
contexts `P`. -/
structure Within (s₀ : LowerState) (F : Multiset Root) (W : Set NodeId) (s : LowerState) (A : Multiset Root)
    (P : Set FunctionContext := {s₀.context}) (X : Prop := False) : Prop where
  start : Ready s₀ F
  step : Step false W s₀ s
  pending : s₀.pendingTemps <+: s.pendingTemps
  holds : ∃ E, Lost X s.builder E ∧ Holds s (A + E + F)
  tame : Tame P s₀.builder.kind? s.builder.kind?

structure Inside (s₀ : LowerState) (F : Multiset Root) (s : LowerState) (A : Multiset Root)
    (P : Set FunctionContext := {s₀.context}) (X : Prop := False) : Prop extends Within s₀ F ∅ s A P X where
  usable : ∀ d ∈ s.scopes.ids, Usable s.builder d

theorem Inside.refl (h : Ready s F) : Inside s F s 0 P :=
  ⟨⟨h, .refl s, List.prefix_rfl, ⟨0, .zero, by simpa using h.toHolds⟩, .of_eq rfl⟩, h.usable⟩

theorem Inside.ready (h : Inside s₀ F s A P X) : ∃ E, Lost X s.builder E ∧ Ready s (A + (E + F)) := by
  obtain ⟨E, hE, hholds⟩ := h.holds
  refine ⟨E, hE, ?_, h.usable⟩
  rwa [← add_assoc]

theorem Inside.lowers {x : LowerM α} (h : Inside s₀ F s (A + B) P) (hnames : s₀.scopes.names = [])
    (hx : Lowers fills U A x R V J) (hfacts : ∀ u ∈ U, u.Holds s) (hP : J s₀.context ⊆ P) :
    EndsWell x s fun a s' => Inside s₀ F s' (R a + B) P ∧ Step fills ∅ s s' ∧ ∀ v ∈ V a, v.Holds s' := by
  obtain ⟨E, hE, hready⟩ := h.ready
  rw [add_assoc] at hready
  refine (hx s _ hready hfacts).mono fun a s' ⟨⟨L, hL, hready'⟩, hstep, hpending, hV, htame⟩ => ?_
  have hstep' : Step false ∅ s₀ s' := (h.step.weaken.trans hstep).unfilled hnames
  rw [h.step.context] at htame
  have htame' := h.tame.trans hready.grown h.step.kinds hstep.kinds (htame.mono hP)
  refine ⟨⟨⟨h.start, hstep', h.pending.trans hpending, ⟨L + E,
    hL.add (hE.mono hready.held hstep.kinds fun t ht => by simp [ht]), ?_⟩, htame'⟩, hready'.usable⟩, hstep, hV⟩
  convert hready'.toHolds using 1
  abel

/-- The older roots `K` that a node takes cannot carry names. -/
def TakesInert (K : Multiset Root) (kind : Kind) : Prop :=
  ∀ r ∈ K, kind.function? = none ∧ r.category.carriesNames = false

theorem takesInert_zero : TakesInert 0 kind := fun _ h => absurd h (notMem_zero _)

/-- The older roots are children or still held. -/
theorem older_held (hparts : kind.parts = A + K) (hpending : s₀.pendingTemps <+: s.pendingTemps)
    (hx : x ∈ ids (K + F + roots .declarator s₀.pendingTemps)) :
    x ∈ (kind.children : Multiset NodeId) + ids (B + F + roots .declarator s.pendingTemps) := by
  obtain ⟨r, hr, rfl⟩ := mem_ids.1 hx
  rw [← Kind.ids_parts, ← ids_add, hparts]
  refine id_mem_ids ?_
  simp only [mem_add, mem_roots] at hr ⊢
  rcases hr with (hr | hr) | ⟨t, ht, rfl⟩
  · exact .inl (.inr hr)
  · exact .inr (.inl (.inr hr))
  · exact .inr (.inr ⟨t, hpending.subset ht, rfl⟩)

theorem older_or_barren (hB : AllBarren s.builder B) (hpending : ∀ t ∈ s.pendingTemps, Barren s.builder.kind? t)
    (hx : x ∈ ids (B + F + roots .declarator s.pendingTemps)) :
    x ∈ ids (K + F + roots .declarator s₀.pendingTemps) ∨ Barren s.builder.kind? x := by
  obtain ⟨r, hr, rfl⟩ := mem_ids.1 hx
  simp only [mem_add, mem_roots] at hr
  rcases hr with (hr | hr) | ⟨t, ht, rfl⟩
  · exact .inr (hB r hr)
  · exact .inl (id_mem_ids (by simp [hr]))
  · exact .inr (hpending t ht)

variable {b' b : Builder} {e : Envelope} {pos : Pos} {type : Option TypeDescriptor} {x : LowerM α} {k : α → Kind}
  {store : α → LowerM NodeId}

/-- **Closing a scope**: a node on top of all that was made since the scope was entered, apart from roots `B`
that are bare declarations. Of the older roots it can take those that carry no names. -/
theorem Within.close (fills : Bool) (W' : Set NodeId) (h : Within s₀ (K + F) W s (A + B) P X)
    (hs : Stores s.builder b' p kind) (hparts : kind.parts = A + K) (hB : AllBarren s.builder B)
    (hK : TakesInert K kind) (howned : kind.refersAcross = false) (hc : c.admits kind = true)
    (hp : s₀.builder.nextId ≤ p ∨ (fills = true ∧ p ∈ s₀.scopes.locals)) (hW : ∀ d ∈ W, d = p ∨ d ∈ W')
    (hself : kind.scopesItself = true → s₀.builder.nextId ≤ p)
    (hbinding : p ∈ s.builder.reserved → kind.isBinding = true) (hsettles : kind.Settles s₀.context P P') :
    (∃ E, Lost X b' E ∧ Holds { s with builder := b' } (root c p + B + E + F)) ∧
      Step fills W' s₀ { s with builder := b' } ∧ (∀ v ∈ madeFacts ∅ kind p, v.Holds { s with builder := b' }) ∧
        Tame P' s₀.builder.kind? b'.kind? := by
  obtain ⟨E, hE, hholds⟩ := h.holds
  have hheld : Held s.builder (kind.parts + (B + E + F + roots .declarator s.pendingTemps)) := by
    convert hholds.held using 1
    rw [hparts]
    abel
  have hgrown := hheld.grown_children
  have hF : ∀ x ∈ ids (K + F + roots .declarator s₀.pendingTemps), x ∈ (kind.children : Multiset NodeId) +
      ids (B + E + F + roots .declarator s.pendingTemps) := fun _ => older_held hparts h.pending
  have hR : ∀ x ∈ ids (B + E + F + roots .declarator s.pendingTemps), x ∈ ids (K + F +
      roots .declarator s₀.pendingTemps) ∨ Barren s.builder.kind? x := fun _ =>
    older_or_barren (hB.add hE.barren) hholds.pending
  have hold : ∀ x ∈ kind.children, x ∈ ids (K + F + roots .declarator s₀.pendingTemps) →
      kind.function? = none ∧ ∀ k, s.builder.kind? x = some k → k.carriesNames = false := by
    intro x hx hxF
    obtain ⟨-, -, hdisjoint⟩ := nodup_add.1 hgrown.nodup
    have hrest := disjoint_left.1 hdisjoint hx
    obtain ⟨r, hr, rfl⟩ := mem_ids.1 hxF
    simp only [mem_add, mem_roots] at hr
    rcases hr with (hr | hr) | ⟨t, ht, rfl⟩
    · obtain ⟨hfunction, hcategory⟩ := hK r hr
      refine ⟨hfunction, fun k hk => ?_⟩
      by_contra hcarries
      obtain ⟨k', hk', hadmits⟩ := hheld.fits r (by simp [hparts, hr])
      rw [← Option.some.inj (hk.symm.trans hk')] at hadmits
      rw [Category.carriesNames_of_admits hadmits (by simpa using hcarries)] at hcategory
      cases hcategory
    · exact absurd (id_mem_ids (by simp [hr])) hrest
    · have ht' : t ∈ s.pendingTemps := h.pending.subset ht
      have hmem : (⟨t, .declarator⟩ : Root) ∈ B + E + F + roots .declarator s.pendingTemps := by simp [ht']
      exact absurd (id_mem_ids hmem) hrest
  have hlinked : Linked s.builder p kind := by
    refine ⟨hbinding, fun r hr => .inr ?_, ?_⟩
    · exact hheld.stored (mem_add.2 (.inl (Kind.mem_parts hr (Kind.owned_of_mem howned hr))))
    · rintro name d rfl
      cases howned
  obtain ⟨hgrown', husable⟩ := hs.grown_since h.start.grown h.step.since hgrown hF hR hold hself hlinked
  have hkinds : ∀ {x k}, s.builder.kind? x = some k → b'.kind? x = some k := hs.kinds hheld
  refine ⟨⟨E, hE.mono hheld hkinds fun t ht => by simp [ht], ?_, fun t ht => ?_⟩,
    h.step.of_stores hs hheld hp hW husable hbinding, hs.made (hs.adjoins hgrown) (by simp),
    h.tame.close h.start.grown h.step.kinds hs hgrown hF hR (fun c hc hcF => (hold c hc hcF).1) hsettles⟩
  · convert hs.held hheld hgrown' hc using 1
    abel
  · have ht' : t ∈ s.pendingTemps := ht
    obtain ⟨k, hk⟩ := hheld.stored (r := ⟨t, .declarator⟩) (by simp [ht'])
    exact (hholds.pending t ht).mono hholds.grown hkinds hk

theorem Held.fits_owned {T : Multiset Root} (h : Held b (kind.parts + T))
    (howned : kind.refersAcross = false) (hnew : b.kind? p = none) : b.Fits p kind := by
  intro r hr
  obtain ⟨k, hk, hadmits⟩ :=
    h.fits _ (mem_add.2 (.inl (Kind.mem_parts hr (Kind.owned_of_mem howned hr))))
  refine ⟨fun htarget => ?_, .inl ⟨k, hk, hadmits⟩⟩
  rw [htarget, hnew] at hk
  exact absurd hk nofun

theorem Grown.kind?_nextId {T : Multiset NodeId} (h : Grown b T) : b.kind? b.nextId = none := by
  by_contra hstored
  obtain ⟨k, hk⟩ := Option.ne_none_iff_exists'.1 hstored
  exact (h.stored_lt hk).ne rfl

theorem typed_eq_create : ∃ e, typed kind pos type s = create kind e s := ⟨_, rfl⟩

theorem syntheticTyped_eq_create : ∃ e, syntheticTyped kind pos type s = create kind e s := ⟨_, rfl⟩

theorem EndsWell.of_create {P : NodeId → LowerState → Prop} {store : LowerM NodeId}
    (hstore : ∃ e, store s = create kind e s) (h : ∀ e, EndsWell (create kind e) s P) : EndsWell store s P := by
  obtain ⟨e, he⟩ := hstore
  rw [EndsWell, he]
  exact h e

theorem Holds.create {P : NodeId → LowerState → Prop} (h : Holds s A) (hsub : kind.parts ≤ A)
    (howned : kind.refersAcross = false)
    (hP : ∀ p b, Stores s.builder b p kind → p = s.builder.nextId → P p { s with builder := b }) :
    EndsWell (create kind e) s P := by
  refine build_endsWell (fun p b hcreate => ?_) fun error herror => ?_
  · obtain ⟨hs, hp⟩ := h.grown.create hcreate
    exact hP p b hs hp
  · obtain ⟨T, rfl⟩ := Multiset.le_iff_exists_add.1 hsub
    have hheld := h.held
    rw [add_assoc] at hheld
    exact Builder.isMisuse_of_create h.grown (hheld.fits_owned howned h.grown.kind?_nextId) herror

theorem Holds.fill {P : Unit → LowerState → Prop} (h : Holds s A) (hsub : kind.parts ≤ A)
    (howned : kind.refersAcross = false) (hreserved : p ∈ s.builder.reserved)
    (hP : ∀ b, Stores s.builder b p kind → P ⟨⟩ { s with builder := b }) : EndsWell (LowerM.fill p kind pos) s P := by
  refine .bind_of_ok rfl ?_
  refine build_endsWell (fun a b hfill => ?_) fun error herror => ?_
  · obtain ⟨b', hfill, hb⟩ := Except.bind_eq_ok.1 hfill
    cases hb
    exact hP b (h.grown.fill hfill).1
  · obtain ⟨T, rfl⟩ := Multiset.le_iff_exists_add.1 hsub
    have hheld := h.held
    rw [add_assoc] at hheld
    cases hfill : s.builder.fill p kind { span := pos.span? s.fileId } with
    | error error' =>
      rw [hfill] at herror
      cases herror
      exact Builder.isMisuse_of_fill h.grown (hheld.fits_owned howned (h.grown.reserved_new hreserved)) hreserved hfill
    | ok =>
      rw [hfill] at herror
      exact absurd herror nofun

theorem Within.create (h : Within s₀ F W s (kind.parts + B) P X) (hB : AllBarren s.builder B)
    (howned : kind.refersAcross = false) (hc : c.admits kind = true)
    (hsettles : kind.Settles s₀.context P P') :
    EndsWell (create kind e) s fun p s' =>
      Within s₀ F W s' (root c p + B) P' X ∧ s'.scopes = s.scopes ∧ ∀ v ∈ madeFacts ∅ kind p, v.Holds s' := by
  obtain ⟨E, hE, hholds⟩ := h.holds
  refine hholds.create ?_ howned fun p b hs hp => ?_
  · rw [add_assoc, add_assoc]
    exact le_add_right _ _
  · have hle : s₀.builder.nextId ≤ p := hp ▸ h.step.next_le
    rw [← zero_add F] at h
    obtain ⟨hholds', hstep, hmade, htame⟩ :=
      h.close false W hs (add_zero _).symm hB takesInert_zero howned hc (.inl hle)
      (fun d => .inr) (fun _ => hle) (fun hreserved => absurd hp (hholds.grown.reserved_lt hreserved).ne) hsettles
    rw [zero_add] at h
    exact ⟨⟨h.start, hstep, h.pending, hholds', htame⟩, rfl, hmade⟩

theorem Within.allBarren (h : Within s₀ F W s (A + B) P X) (hB : AllBarren s.builder B) (hstep : Step fills ∅ s s') :
    AllBarren s'.builder B := by
  obtain ⟨E, hE, hholds⟩ := h.holds
  exact hB.mono hholds.held hstep.kinds fun t ht => by simp [ht]

/-- What has been made does not depend on the context. -/
theorem Within.recontext (h : Within s₀ F W s A P) (context : FunctionContext) :
    Within { s₀ with context := context } F W { s with context := context } A P := by
  obtain ⟨E, hE, hholds⟩ := h.holds
  exact ⟨⟨⟨h.start.held, h.start.pending⟩, h.start.usable⟩,
    { h.step with context := rfl }, h.pending,
    ⟨E, hE, hholds.held, hholds.pending⟩, h.tame⟩

theorem Within.inside (h : Within s₀ F ∅ s A P X) (hscopes : s.scopes = s₀.scopes) : Inside s₀ F s A P X := by
  refine ⟨h, fun d hd => ?_⟩
  have hd' := h.start.usable d (hscopes ▸ hd)
  exact h.step.usable (h.start.grown.usable_lt hd') hd'

/-- The computation makes roots and leaves all scopes that it enters. -/
def Isolated {α : Type} (x : LowerM α) (R : α → Multiset Root)
    (J : FunctionContext → Set FunctionContext := fun c => {c}) (X : Prop := False) : Prop :=
  ∀ s F, Ready s F → EndsWell x s fun a s' => Within s F ∅ s' (R a) (J s.context) X ∧ s'.scopes = s.scopes

theorem Isolated.of_fails (hx : Fails x) : Isolated x R J X :=
  fun s _ _ => (hx s).mono fun _ _ h => h.elim

theorem Isolated.lowers (hx : Isolated x R J X) : Lowers fills U 0 x R (fun _ => ∅) J X := by
  intro s F hready _
  rw [zero_add] at hready
  refine (hx s F hready).mono fun a s' ⟨h, hscopes⟩ => ?_
  obtain ⟨E, hE, hready'⟩ := (h.inside hscopes).ready
  exact ⟨⟨E, hE, by rwa [add_assoc]⟩, h.step.weaken, h.pending, by simp, h.tame⟩

theorem Inside.isolated (h : Inside s₀ F s A P) (hx : Isolated x R) (hP : s₀.context ∈ P) :
    EndsWell x s fun a s' => Inside s₀ F s' (R a + A) P ∧ Step false ∅ s s' ∧ s'.scopes = s.scopes := by
  obtain ⟨E, hE, hready⟩ := h.ready
  refine (hx s _ hready).mono fun a s' ⟨h', hscopes⟩ => ?_
  obtain ⟨E', hE', hholds⟩ := h'.holds
  have htame := h'.tame.mono (Set.singleton_subset_iff.2 (h.step.context ▸ hP))
  refine ⟨⟨⟨h.start, h.step.trans h'.step, h.pending.trans h'.pending, ⟨E' + E,
    hE'.add (hE.mono hready.held h'.step.kinds fun t ht => by simp [ht]), ?_⟩,
    h.tame.trans hready.grown h.step.kinds h'.step.kinds htame⟩, (h'.inside hscopes).usable⟩, h'.step, hscopes⟩
  convert hholds using 1
  abel

theorem Step.leave {t t' : LowerState} (h : Step false W t t') (hbuilder : t.builder = s.builder)
    (hbuilder' : s'.builder = t'.builder) (hscopes : s'.scopes = s.scopes) (hcontext : s'.context = s.context)
    (houter : s'.outer = s.outer) (hsame : t.reservations = s.reservations)
    (hsame' : s'.reservations = t'.reservations) : Step false W s s' := by
  obtain ⟨hkinds, hnext, hfresh, husable, -, -, hreserved, -, -, -, hsettled⟩ := h
  rw [hbuilder, ← hbuilder'] at hnext
  simp only [LowerState.Settled, hbuilder, ← hbuilder', hsame, ← hsame'] at hkinds hfresh husable hreserved hsettled
  exact ⟨hkinds, hnext, fun hk hnone => .inl ((hfresh hk hnone).resolve_right (by simp)), husable, by rw [hscopes],
    ⟨[], by rw [hscopes]; rfl, nofun⟩, hreserved, fun name d hd _ _ => hscopes ▸ hd, hcontext, houter, hsettled⟩

/-- **A scope of its own**: what its names were used for is over when the scope is left. -/
theorem inScope_isolated
    (hx : ∀ s F, Ready s F → s.scopes.names = [] → EndsWell x s fun a s' => Within s F ∅ s' (R a) (J s.context)) :
    Isolated (inScope x) R J := by
  intro s F hready
  have hentered : Ready { s with scopes := s.scopes.push .block } F :=
    ⟨⟨hready.held, hready.pending⟩, hready.usable⟩
  refine .bind_of_ok rfl ((hx _ F hentered rfl).bind fun a s₂ h => .bind_of_ok rfl (.pure ?_))
  have hscopes : s₂.scopes.pop = s.scopes := pop_eq_of_base h.step.base
  obtain ⟨E, hE, hholds⟩ := h.holds
  exact ⟨⟨hready, h.step.leave rfl rfl hscopes h.step.context h.step.outer rfl rfl, h.pending,
    ⟨E, hE, hholds.of_eq rfl rfl⟩, h.tame⟩, hscopes⟩

theorem swapPending_ok {temps : List NodeId} :
    swapPending temps s = .ok (s.pendingTemps, { s with pendingTemps := temps }) := rfl

theorem leaveFunction_ok {context : FunctionContext} {outer : List FunctionContext} (h : s.outer = context :: outer) :
    leaveFunction s = .ok (⟨⟩, { s with scopes := s.scopes.pop, context := context, outer := outer }) := by
  change Except.ok _ = _
  simp only [h]

theorem calm_of_names (h : s.scopes.names = []) : Fact.calm.Holds s := by
  rintro name d ⟨hlocal, -⟩
  rw [ScopeStack.local?_eq, h] at hlocal
  exact absurd hlocal nofun

/-- **A function of its own**: the temporaries that are left over at its end are lost. -/
theorem inFunction_isolated {isAsync : Bool}
    (hx : ∀ s F, Ready s F → s.scopes.names = [] → s.pendingTemps = [] → Fact.outsideBlocks.Holds s →
      s.context = .function isAsync →
      EndsWell x s fun a s' => Within s F ∅ s' (R a) ∧ (s'.pendingTemps = [] ∨ X)) :
    Isolated (inFunction isAsync x) R (fun _ => {.function isAsync}) X := by
  intro s F hready
  refine .bind_of_ok swapPending_ok (.bind_of_ok rfl ?_)
  set s₂ : LowerState := { s with
    pendingTemps := []
    context := { inFunction := true, isAsync := isAsync }
    outer := s.context :: s.outer
    scopes := s.scopes.push .function }
  have hentered : Ready s₂ (F + roots .declarator s.pendingTemps) := by
    refine ⟨⟨?_, by simp [s₂]⟩, hready.usable⟩
    simpa [s₂] using hready.held
  have houtside : Fact.outsideBlocks.Holds s₂ := by
    rintro b hb
    cases hb
    exact nofun
  refine (hx s₂ _ hentered rfl rfl houtside rfl).bind fun a s₃ ⟨h, htaken⟩ => ?_
  refine .bind_of_ok (leaveFunction_ok h.step.outer) (.bind_of_ok swapPending_ok (.pure ?_))
  have hscopes : s₃.scopes.pop = s.scopes := pop_eq_of_base h.step.base
  obtain ⟨E, hE, hholds⟩ := h.holds
  set s₄ : LowerState := { s₃ with
    scopes := s₃.scopes.pop, context := s.context, outer := s.outer, pendingTemps := s.pendingTemps }
  have hstep : Step false ∅ s s₄ := h.step.leave rfl rfl hscopes rfl rfl rfl rfl
  refine ⟨⟨hready, hstep, List.prefix_rfl, ⟨E + roots .declarator s₃.pendingTemps, ?_, ?_, fun t ht => ?_⟩, h.tame⟩,
    hscopes⟩
  · refine (hE.widen False.elim).add ⟨fun t ht => ?_, fun t ht => ?_, htaken.imp (fun h => by simp [h]) .inr⟩
    all_goals obtain ⟨temp, htemp, rfl⟩ := mem_roots.1 ht
    · exact hholds.pending temp htemp
    · rfl
  · convert hholds.held using 1
    abel
  · have ht' : t ∈ s.pendingTemps := ht
    obtain ⟨k, hk⟩ := hready.held.stored (r := ⟨t, .declarator⟩) (by simp [ht'])
    exact (hready.pending t ht).mono hready.grown hstep.kinds hk

/-! ## Nodes that close a scope -/

theorem Lowers.inside (hx : Lowers fills {.calm} 0 x R V J) (hready : Ready s F) (hnames : s.scopes.names = []) :
    EndsWell x s fun a s' => Inside s F s' (R a) (J s.context) ∧ ∀ v ∈ V a, v.Holds s' := by
  refine (hx s F (by rwa [zero_add]) ?_).mono fun a s' ⟨⟨L, hL, hready'⟩, hstep, hpending, hV, htame⟩ => ?_
  · rintro u rfl
    exact calm_of_names hnames
  · exact ⟨⟨⟨hready, hstep.unfilled hnames, hpending, ⟨L, hL, hready'.toHolds⟩, htame⟩, hready'.usable⟩, hV⟩

theorem Lowers.isolated (hx : Lowers fills {.calm} 0 x R V J) : Isolated (inScope x) R J :=
  inScope_isolated fun _ _ hready hnames => (hx.inside hready hnames).mono fun _ _ h => h.1.toWithin

theorem Within.lowered (fills : Bool) (h : Within s₀ (K + F) W s A P X) (hscopes : s.scopes = s₀.scopes)
    (hs : Stores s.builder b' p kind) (hparts : kind.parts = A + K) (hK : TakesInert K kind)
    (howned : kind.refersAcross = false) (hc : c.admits kind = true)
    (hp : s₀.builder.nextId ≤ p ∨ (fills = true ∧ p ∈ s₀.scopes.locals)) (hW : ∀ d ∈ W, d = p)
    (hself : kind.scopesItself = true → s₀.builder.nextId ≤ p)
    (hbinding : p ∈ s.builder.reserved → kind.isBinding = true) (hsettles : kind.Settles s₀.context P {s₀.context}) :
    Lowered fills s₀ F (root c p) (madeFacts ∅ kind p) { s with builder := b' } {s₀.context} X := by
  rw [← add_zero A] at h
  obtain ⟨⟨L, hL, hholds'⟩, hstep, hmade, htame⟩ := h.close fills ∅ hs hparts allBarren_zero hK howned hc hp
    (fun d hd => .inl (hW d hd)) hself hbinding hsettles
  refine ⟨⟨L, hL, hholds', fun d hd => ?_⟩, hstep, h.pending, hmade, htame⟩
  have hd' := h.start.usable d (hscopes ▸ hd)
  exact hstep.usable (h.start.grown.usable_lt hd') hd'

/-- **A node under a reserved id that closes a scope.** -/
theorem Within.fill (fills : Bool) (h : Within s₀ F W s kind.parts P) (hscopes : s.scopes = s₀.scopes)
    (hreserved : p ∈ s.builder.reserved) (howned : kind.refersAcross = false) (hc : c.admits kind = true)
    (hbinding : kind.isBinding = true) (hW : ∀ d ∈ W, d = p)
    (hp : s₀.builder.nextId ≤ p ∨ (fills = true ∧ p ∈ s₀.scopes.locals ∧ kind.scopesItself = false))
    (hsettles : kind.Settles s₀.context P {s₀.context}) :
    EndsWell (LowerM.fill p kind pos) s fun _ s' =>
      Lowered fills s₀ F (root c p) (madeFacts ∅ kind p) s' ∧ s'.scopes = s.scopes ∧ p ∉ s'.builder.reserved := by
  obtain ⟨E, hE, hholds⟩ := h.holds
  refine hholds.fill ?_ howned hreserved fun b hs => ⟨?_, rfl, fun hmem => ((hs.reserved p).1 hmem).2 rfl⟩
  · rw [add_assoc]
    exact le_add_right _ _
  · rw [← zero_add F] at h
    refine h.lowered fills hscopes hs (add_zero _).symm takesInert_zero howned hc
      (hp.imp_right fun h => ⟨h.1, h.2.1⟩) hW
      (fun hself => hp.resolve_right fun hlocal => ?_) (fun _ => hbinding) hsettles
    simp [hlocal.2.2] at hself

/-- **A new node on top of all that was made**, which closes no names but settles the jumps. -/
theorem Lowers.settle (hx : Lowers fills U 0 x R V J) (hstore : ∀ a s, ∃ e, store a s = create (k a) e s)
    (hallowed : ∀ a, (k a).Allowed (V a)) (hparts : ∀ a, (k a).parts = R a) (hc : ∀ a, c.admits (k a) = true)
    (hP : ∀ c, c ∈ J c) (hsettles : ∀ a c, (k a).Settles c (J c) {c}) :
    Lowers fills U 0 (x >>= store) (root c) := by
  intro s F hs hfacts
  refine (hx s F hs hfacts).bind fun a u hu => .of_create (hstore a u) fun e => ?_
  obtain ⟨L, hL, hready⟩ := hu.ready
  have hheld : Held u.builder ((k a).parts + (L + F + roots .declarator u.pendingTemps)) := by
    simpa only [hparts, add_assoc] using hready.held
  have hcreate : EndsWell (create (k a) e) u fun p s' => Lowered fills s F (root c p)
      (madeFacts (V a) (k a) p) s' (J s.context) := by
    rw [← zero_add F] at hu
    refine hu.andThen fun L hready' => ?_
    rw [add_zero, ← hparts a] at hready'
    refine (create_lowers (hallowed a) (hc a) u _ hready' hu.facts).mono fun p s' h => h.widen ?_ .inr
    exact Set.singleton_subset_iff.2 (hu.step.context ▸ hP _)
  refine (hcreate.and fun p s' => build_eq_ok.1).mono fun p s' ⟨h, b, hb, hs'⟩ => ?_
  obtain ⟨hstores, -⟩ := hready.grown.create hb
  subst hs'
  refine ⟨h.ready, h.step, h.pending, by simp, hu.tame.close hs.grown hu.step.kinds hstores hheld.grown_children
    (fun x => older_held (by rw [add_zero]) hu.pending)
    (fun x => older_or_barren hL.barren hready.pending) (fun _ _ _ => (hallowed a).place.1) (hsettles a _)⟩

namespace Isolated

variable (hx : Isolated x R J X) (hstore : ∀ a s, ∃ e, store a s = create (k a) e s)
include hx hstore

/-- **A new node that closes a scope.** -/
theorem make (hparts : ∀ a, (k a).parts = R a + K) (hK : ∀ a, TakesInert K (k a))
    (howned : ∀ a, (k a).refersAcross = false) (hc : ∀ a, c.admits (k a) = true)
    (hsettles : ∀ a c, (k a).Settles c (J c) {c}) :
    Lowers fills U K (x >>= store) (root c) (fun p => {v | ∀ a, v ∈ madeFacts ∅ (k a) p}) (fun c => {c}) X := by
  intro s F hready _
  refine (hx s _ hready).bind fun a u ⟨h, hscopes⟩ => ?_
  obtain ⟨E, hE, hholds⟩ := h.holds
  refine .of_create (hstore a u) fun e => hholds.create ?_ (howned a) fun p b hs hp => ?_
  · rw [hparts a]
    refine Multiset.le_iff_exists_add.2 ⟨E + F, ?_⟩
    abel
  · have hle : s.builder.nextId ≤ p := hp ▸ h.step.next_le
    have hmade := h.lowered fills hscopes hs (hparts a) (hK a) (howned a) (hc a) (.inl hle)
      (fun d hd => absurd hd (Set.notMem_empty d)) (fun _ => hle)
      (fun hreserved => absurd hp (hholds.grown.reserved_lt hreserved).ne) (hsettles a _)
    exact hmade.weaken fun v hv => hmade.facts v (hv a)

theorem make_givesNew : GivesNew (x >>= store) id := by
  intro s F p s' hready hrun
  obtain ⟨a, u, hfirst, hrest⟩ := Stateful.bind_ok.1 hrun
  obtain ⟨h, hscopes⟩ := (hx s F hready).of_ok hfirst
  obtain ⟨e, hcreate⟩ := hstore a u
  rw [hcreate] at hrest
  obtain ⟨E, hE, hready'⟩ := (h.inside hscopes).ready
  exact h.step.next_le.trans (create_givesNew u _ p s' hready' hrest)

end Isolated

theorem reserve_endsWell (hready : Ready s F) :
    EndsWell reserve s fun id u => Ready u F ∧ Step false {id} s u ∧ u.scopes = s.scopes ∧
      u.pendingTemps = s.pendingTemps ∧ id = s.builder.nextId ∧ id ∈ u.builder.reserved ∧
        u.builder.kind? = s.builder.kind? := by
  refine EndsWell.bind (build_endsWell (fun id b hreserve => ?_) fun error herror => ?_)
    fun id u h => .bind_of_ok rfl (.pure h)
  · obtain ⟨hgrown, hkind, hid, hnext, hreserved⟩ := hready.grown.reserve hreserve
    have husable : ∀ d, Usable s.builder d → Usable b d := by
      rintro d (hd | hd)
      · exact .inl ((hreserved d).2 (.inr hd))
      · refine .inr ?_
        rwa [hkind]
    refine ⟨⟨⟨⟨hgrown, fun r hr => ?_⟩, ?_⟩, fun d hd => husable d (hready.usable d hd)⟩,
      ⟨fun hx => by rwa [hkind], by simp [hnext], fun hx hnone => ?_, fun _ => husable _, rfl, ⟨[], rfl, by simp⟩,
        fun d hd => ((hreserved d).1 hd).symm, fun name d hd _ _ => hd, rfl, rfl, fun hsettled d hd => ?_⟩,
      rfl, rfl, hid, (hreserved id).2 (.inl rfl), hkind⟩
    · rw [Root.Fits, hkind]
      exact hready.held.fits r hr
    · rw [hkind]
      exact hready.pending
    · rw [hkind, hnone] at hx
      cases hx
    · rcases IdSet.mem_insert.1 hd with rfl | hd
      · exact .inl ((hreserved _).2 (.inl rfl))
      · rw [hkind]
        exact (hsettled d hd).imp_left fun hd => (hreserved d).2 (.inr hd)
  · rw [Builder.reserve, Builder.perform, Builder.run_reserve] at herror
    by_cases hroom : s.builder.nextId < Builder.idLimit
    · simp [hroom] at herror
    · obtain rfl : BuilderError.idsExhausted = error := by simpa [hroom] using herror
      rfl

/-- **A node with a name for itself**: the name stands for an id that is reserved until the node is stored. -/
theorem selfNamed_endsWell {β : Type} {k : NodeId → α → LowerM β} {Q : β → LowerState → Prop} (hready : Ready s F)
    (hx : Lowers false ∅ 0 x R V J)
    (hk : ∀ self a u, Within s F {self} u (R a) (J s.context) → u.scopes = s.scopes → self ∈ u.builder.reserved →
      s.builder.nextId ≤ self → EndsWell (k self a) u Q) :
    EndsWell
      (do
        let self ← reserve
        let a ← inScope (do bindName name self; x)
        k self a) s Q := by
  refine (reserve_endsWell hready).bind fun self u ⟨hu, hreserve, hscopes, hpending, hself, hmem, hkind⟩ => ?_
  set v : LowerState := { u with scopes := (u.scopes.push .block).add name self }
  have hv : Ready v (0 + F) := by
    rw [zero_add]
    refine ⟨⟨hu.held, hu.pending⟩, fun d hd => ?_⟩
    rcases mem_ids_add.1 hd with rfl | hd
    · exact .inl hmem
    · exact hu.usable d hd
  have hlocal : ((u.scopes.push .block).add name self).local? name = some self := ScopeStack.local?_add_self
  have hbase : ((u.scopes.push .block).add name self).base = (u.scopes.push .block).base := base_add
  refine EndsWell.bind (P := fun a w => Within s F {self} w (R a) (J s.context) ∧ w.scopes = s.scopes ∧
    self ∈ w.builder.reserved) ?_ fun a w ⟨hwithin, hw, hmem⟩ => hk self a w hwithin hw hmem hself.ge
  refine .bind_of_ok rfl (EndsWell.bind (.bind_of_ok rfl (hx v F hv (by simp)))
    fun a w hw => .bind_of_ok rfl (.pure ?_))
  obtain ⟨⟨L, hL, hready'⟩, hstep, hprefix, -, htame⟩ := hw
  have hpop : w.scopes.pop = u.scopes := pop_eq_of_base (hstep.base.trans hbase)
  have hleave : Step false ∅ u { w with scopes := w.scopes.pop } :=
    hstep.leave rfl rfl hpop hstep.context hstep.outer rfl rfl
  have htame' : Tame (J s.context) s.builder.kind? w.builder.kind? := hkind ▸ hreserve.context ▸ htame
  exact ⟨⟨hready, hreserve.trans hleave.weaken, hpending ▸ hprefix, ⟨L, hL, hready'.toHolds.of_eq rfl rfl⟩, htame'⟩,
    hpop.trans hscopes, (hstep.waits_of_unfilled hv ⟨hlocal, hmem⟩).2⟩

end Retarget
