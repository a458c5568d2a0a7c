import Retarget.Proofs.Lower.State

/-!
# A logic for lowering

What a computation that lowers a part of a program does to the forest of nodes stored so far.

* `EndsWell x s P`: from the state `s` the computation `x` gives a result that satisfies `P`, or fails with an
  error that is not its own fault. Errors that say that the builder was misused are ruled out.
* `Lowers fills U A x R V`: the computation `x` takes the roots `A` as children and leaves the roots `R`; it may use
  the facts `U` and gives the facts `V`. The roots that are held by others are not touched.
* `Lowers.bind` and the rules for the operations of the monad make a specification of every computation out of
  specifications of its parts.
-/

namespace Retarget

open List Stateful

/-! ## Ending well -/

/-- The error says that the builder was used in a wrong way: with references to missing or unsuitable nodes, or
with ids that were not reserved or not filled. -/
def BuilderError.isMisuse : BuilderError → Bool
  | danglingReference .. | shapeMismatch .. | unfilled _ | alreadyDefined _ | unknownNode _ => true
  | invalidNode .. | idsExhausted | invalidModule _ => false

def LoweringError.isMisuse : LoweringError → Bool
  | builder error => error.isMisuse
  | unhandled .. | malformed .. | tooDeep => false

/-- The result of the computation satisfies `P`, unless it fails, and then not by misuse of the builder. -/
def EndsWell {α : Type} (x : LowerM α) (s : LowerState) (P : α → LowerState → Prop) : Prop :=
  match x s with
  | .ok (a, s') => P a s'
  | .error e => e.isMisuse = false

variable {α β : Type} {s s' s₀ u : LowerState} {H A B C F R : Multiset Root} {fills : Bool} {a : α} {c : Category}
  {f : α → LowerM β}

namespace EndsWell

variable {x : LowerM α} {k : α → LowerM β} {P : α → LowerState → Prop} {Q : β → LowerState → Prop}

theorem of_ok (h : EndsWell x s P) (hrun : x s = .ok (a, s')) : P a s' := by
  rwa [EndsWell, hrun] at h

theorem of_eq_ok (hrun : x s = .ok (a, s')) (h : P a s') : EndsWell x s P := by
  rwa [EndsWell, hrun]

variable {P' : α → LowerState → Prop}

theorem mono (h : EndsWell x s P) (hP : ∀ a s', P a s' → P' a s') : EndsWell x s P' := by
  unfold EndsWell at h ⊢
  split at h
  next a s' _ => exact hP a s' h
  next => exact h

theorem and (h : EndsWell x s P) (h' : ∀ a s', x s = .ok (a, s') → P' a s') :
    EndsWell x s fun a s' => P a s' ∧ P' a s' := by
  unfold EndsWell at h ⊢
  split at h
  next a s' hrun => exact ⟨h, h' a s' hrun⟩
  next => exact h

theorem bind (h : EndsWell x s P) (hk : ∀ a u, P a u → EndsWell (k a) u Q) : EndsWell (x >>= k) s Q := by
  unfold EndsWell at h
  split at h
  next a u hrun =>
    have h' : (x >>= k) s = k a u := by
      change (x s >>= fun p => k p.1 p.2) = _
      rw [hrun]
      rfl
    rw [EndsWell, h']
    exact hk a u h
  next e hrun =>
    have h' : (x >>= k) s = .error e := by
      change (x s >>= fun p => k p.1 p.2) = _
      rw [hrun]
      rfl
    rw [EndsWell, h']
    exact h

theorem bind_of_ok {a : α} (hrun : x s = .ok (a, u)) (h : EndsWell (k a) u Q) : EndsWell (x >>= k) s Q :=
  bind (P := fun a' u' => a' = a ∧ u' = u) (of_eq_ok hrun ⟨rfl, rfl⟩) fun _ _ ⟨ha, hu⟩ => ha ▸ hu ▸ h

theorem pure (h : P a s) : EndsWell (pure a) s P := h

theorem get {P : LowerState → LowerState → Prop} (h : P s s) : EndsWell get s P := h

theorem modify {f : LowerState → LowerState} {P : PUnit → LowerState → Prop} (h : P ⟨⟩ (f s)) :
    EndsWell (modify f) s P := h

end EndsWell

/-! ## Triples -/

/-- After a computation that started in `s` with the roots `F` of others, the roots `R` are there, apart from
declarations of temporaries that are lost, and the facts `V`. The jumps are allowed in the contexts `P`. -/
structure Lowered (fills : Bool) (s : LowerState) (F R : Multiset Root) (V : Set Fact) (s' : LowerState)
    (P : Set FunctionContext := {s.context}) (X : Prop := False) : Prop where
  ready : ∃ L, Lost X s'.builder L ∧ Ready s' (R + L + F)
  step : Step fills ∅ s s'
  pending : s.pendingTemps <+: s'.pendingTemps
  facts : ∀ v ∈ V, v.Holds s'
  tame : Tame P s.builder.kind? s'.builder.kind?

/-- The computation takes the roots `A` and leaves the roots `R`; it relies on the facts `U` and gives the
facts `V`. Run where the context is `c`, it makes jumps that are allowed in the contexts `P c`. -/
def Lowers (fills : Bool) (U : Set Fact) (A : Multiset Root) (x : LowerM α) (R : α → Multiset Root)
    (V : α → Set Fact := fun _ => ∅) (P : FunctionContext → Set FunctionContext := fun c => {c})
    (X : Prop := False) : Prop :=
  ∀ s F, Ready s (A + F) → (∀ u ∈ U, u.Holds s) →
    EndsWell x s fun a s' => Lowered fills s F (R a) (V a) s' (P s.context) X

def Fails (x : LowerM α) : Prop := ∀ s, EndsWell x s fun _ _ => False

theorem Fails.bind {x : LowerM α} {k : α → LowerM β} (hx : Fails x) : Fails (x >>= k) := fun s =>
  (hx s).bind fun _ _ h => h.elim

namespace Lowered

variable {V V' : Set Fact} {P P' : Set FunctionContext} {X : Prop}

theorem refl (h : Ready s (A + F)) (hV : ∀ v ∈ V, v.Holds s) : Lowered fills s F A V s P X :=
  ⟨⟨0, .zero, by rwa [add_zero]⟩, .refl s, prefix_rfl, hV, .of_eq rfl⟩

theorem of_alike (h : Ready s (R + F)) (hb : Alike s.builder s'.builder) (hsc : s'.scopes = s.scopes)
    (hp : s'.pendingTemps = s.pendingTemps) (hc : s'.context = s.context) (ho : s'.outer = s.outer)
    (hr : s'.reservations = s.reservations) : Lowered fills s F R ∅ s' := by
  refine ⟨⟨0, .zero, ?_⟩, .of_alike hb hsc hc ho hr, hp ▸ prefix_rfl, by simp, .of_eq hb.kind_eq⟩
  rw [add_zero]
  exact h.congr hb hsc hp

theorem weaken (h : Lowered fills s F R V s' P X) (hV : ∀ v ∈ V', v.Holds s') : Lowered fills s F R V' s' P X :=
  ⟨h.ready, h.step, h.pending, hV, h.tame⟩

theorem widen {Y : Prop} (h : Lowered fills s F R V s' P X) (hP : P ⊆ P') (hXY : X → ListsFields s'.builder.kind? ∨ Y) :
    Lowered fills s F R V s' P' Y := by
  obtain ⟨L, hL, hready⟩ := h.ready
  exact ⟨⟨L, hL.widen hXY, hready⟩, h.step, h.pending, h.facts, h.tame.mono hP⟩

variable {y : LowerM β} {Q : β → Multiset Root} {W : β → Set Fact}

theorem andThen (h : Lowered fills s (B + F) R V u P X)
    (hy : ∀ L, Ready u (R + B + (L + F)) → EndsWell y u fun b s' => Lowered fills u (L + F) (Q b) (W b) s' P X) :
    EndsWell y u fun b s' => Lowered fills s F (Q b) (W b) s' P X := by
  obtain ⟨⟨L, hL, hu⟩, hstep, hpending, -, htame⟩ := h
  have hu' : Ready u (R + B + (L + F)) := by
    convert hu using 1
    abel
  refine (hy L hu').mono fun b s' ⟨⟨L', hL', hs'⟩, hstep', hpending', hW, htame'⟩ => ?_
  refine ⟨⟨L' + L, hL'.add (hL.mono hu.held hstep'.kinds fun t ht => by simp [ht]), ?_⟩, hstep.trans hstep',
    hpending.trans hpending', hW, htame.trans hu.grown hstep.kinds hstep'.kinds htame'⟩
  convert hs' using 1
  abel

theorem next (h : Lowered fills s F R V u) (hy : Lowers fills V R y Q W) :
    EndsWell y u fun b s' => Lowered fills s F (Q b) (W b) s' := by
  have h' : Lowered fills s (0 + F) R V u := by rwa [zero_add]
  refine h'.andThen fun L hu => ?_
  rw [add_zero] at hu
  exact h.step.context ▸ hy u (L + F) hu h.facts

end Lowered

namespace Lowers

variable {U U' : Set Fact} {V : α → Set Fact} {R : α → Multiset Root} {x : LowerM α} {k : α → LowerM β}
  {Q : β → Multiset Root} {W : β → Set Fact} {P P' : FunctionContext → Set FunctionContext} {X : Prop}

/-- **One computation after the other**: the second has what the first leaves, and what the first did not
take. -/
theorem bind_run (hx : Lowers fills U' A x R V P X) (hU : U' ⊆ U) (hC : C = A + B)
    (hk : ∀ a s s', x s = .ok (a, s') → Lowers fills (U ∪ V a) (R a + B) (k a) Q W P X) :
    Lowers fills U C (x >>= k) Q W P X := by
  intro s F hs hfacts
  rw [hC, add_assoc] at hs
  refine ((hx s (B + F) hs fun f hf => hfacts f (hU hf)).and fun a => hk a s).bind fun a u ⟨hu, hk⟩ => ?_
  refine hu.andThen fun L hu' => hu.step.context ▸ hk u (L + F) hu' ?_
  rintro f (hf | hf)
  · exact (hfacts f hf).of_step hs hu.step
  · exact hu.facts f hf

theorem bind (hx : Lowers fills U' A x R V P X) (hU : U' ⊆ U) (hC : C = A + B)
    (hk : ∀ a, Lowers fills (U ∪ V a) (R a + B) (k a) Q W P X) : Lowers fills U C (x >>= k) Q W P X :=
  hx.bind_run hU hC fun a _ _ _ => hk a

theorem weaken (hx : Lowers fills U' C x R V P X) (hU : U' ⊆ U) : Lowers fills U C x R V P X := fun s F hs hfacts =>
  hx s F hs fun u hu => hfacts u (hU hu)

theorem widen (hx : Lowers fills U C x R V P) (hP : ∀ c, P c ⊆ P' c) : Lowers fills U C x R V P' X :=
  fun s F hs hfacts => (hx s F hs hfacts).mono fun _ _ h => h.widen (hP _) False.elim

/-- What is lost is made up for by a class with instance fields. -/
theorem excuse (hx : Lowers fills U C x R V P X) (hV : ∀ a, X → .listsFields ∈ V a) : Lowers fills U C x R V P :=
  fun s F hs hfacts => (hx s F hs hfacts).mono fun a _ h => h.widen subset_rfl fun hX => .inl (h.facts _ (hV a hX))

theorem forget (hx : Lowers fills U C x R V P X) : Lowers fills U C x R (fun _ => ∅) P X := fun s F hs hfacts =>
  (hx s F hs hfacts).mono fun _ _ h => h.weaken (by simp)

theorem next (hx : Lowers fills U' A x R V P X) (hU : U' ⊆ U) (hC : C = A + B)
    (hk : ∀ a, Lowers fills U (R a + B) (k a) Q W P X) : Lowers fills U C (x >>= k) Q W P X :=
  hx.bind hU hC fun a => (hk a).weaken Set.subset_union_left

theorem pure (hR : C = R a) (hV : V a ⊆ U) : Lowers fills U C (pure a) R V P X := by
  intro s F hs hfacts
  rw [hR] at hs
  exact .pure (.refl hs fun v hv => hfacts v (hV hv))

theorem ret (hR : C = R a) : Lowers fills U C (Pure.pure a) R (P := P) (X := X) := pure hR (Set.empty_subset U)

theorem of_fails (hx : Fails x) : Lowers fills U C x R V := fun s _ _ _ => (hx s).mono fun _ _ h => h.elim

theorem conseq (hx : Lowers fills U' A x R V) (hU : U' ⊆ U) (hC : C = A + B) {Q : α → Multiset Root}
    {W : α → Set Fact} (hQ : ∀ a, Q a = R a + B) (hW : ∀ a, W a ⊆ U ∪ V a) : Lowers fills U C x Q W := by
  have h := hx.bind hU hC fun a => pure (hQ a).symm (hW a)
  rwa [bind_pure] at h

theorem recast {c' : Category} {id : NodeId} (hx : Lowers fills U (root c' id + B) x R V)
    (hc : ∀ k, c.admits k = true → c'.admits k = true) : Lowers fills U (root c id + B) x R V := by
  intro s F hs hfacts
  refine hx s F ⟨⟨⟨?_, ?_⟩, hs.pending⟩, hs.usable⟩ hfacts
  · simpa using hs.grown
  · intro r hr
    simp only [Multiset.mem_add, mem_root] at hr
    rcases hr with ((rfl | hr) | hr) | hr
    · obtain ⟨k, hk, hadmits⟩ := hs.held.fits ⟨id, c⟩ (by simp)
      exact ⟨k, hk, hc k hadmits⟩
    all_goals exact hs.held.fits r (by simp only [Multiset.mem_add]; tauto)

end Lowers

/-! ## Quiet computations -/

/-- The computation leaves nodes, scopes, context and pending temporaries alone, apart from types of nodes. -/
def Quiet (x : LowerM α) : Prop :=
  ∀ s, EndsWell x s fun _ s' =>
    Alike s.builder s'.builder ∧ s'.scopes = s.scopes ∧ s'.pendingTemps = s.pendingTemps ∧ s'.context = s.context ∧
      s'.outer = s.outer ∧ s'.reservations = s.reservations

namespace Quiet

variable {x : LowerM α} {k : α → LowerM β}

theorem pure : Quiet (pure a) := fun _ => .pure ⟨.refl _, rfl, rfl, rfl, rfl, rfl⟩

theorem get : Quiet (get : LowerM LowerState) := fun _ => .get ⟨.refl _, rfl, rfl, rfl, rfl, rfl⟩

theorem modify {f : LowerState → LowerState}
    (hf : ∀ s, (f s).builder = s.builder ∧ (f s).scopes = s.scopes ∧ (f s).pendingTemps = s.pendingTemps ∧
      (f s).context = s.context ∧ (f s).outer = s.outer ∧ (f s).reservations = s.reservations) :
    Quiet (modify f : LowerM PUnit) := by
  intro s
  obtain ⟨hbuilder, hrest⟩ := hf s
  exact .modify ⟨hbuilder ▸ .refl _, hrest⟩

theorem of_fails (hx : Fails x) : Quiet x := fun s => (hx s).mono fun _ _ h => h.elim

theorem bind (hx : Quiet x) (hk : ∀ a, Quiet (k a)) : Quiet (x >>= k) := fun s =>
  (hx s).bind fun a u ⟨hb, hs, hp, hc, ho, hr⟩ => (hk a u).mono fun _ _ ⟨hb', hs', hp', hc', ho', hr'⟩ =>
    ⟨hb.trans hb', hs'.trans hs, hp'.trans hp, hc'.trans hc, ho'.trans ho, hr'.trans hr⟩

theorem mapM (hf : ∀ a, Quiet (f a)) : ∀ l : List α, Quiet (l.mapM f)
  | [] => pure
  | a :: l => by
    rw [mapM_cons]
    exact (hf a).bind fun b => (mapM hf l).bind fun bs => pure

end Quiet

namespace Lowers

variable {U U' : Set Fact} {V : α → Set Fact} {R : α → Multiset Root} {x : LowerM α} {k : α → LowerM β}
  {Q : β → Multiset Root} {W : β → Set Fact} {P : FunctionContext → Set FunctionContext} {X : Prop}

theorem of_quiet (hx : Quiet x) : Lowers fills U C x fun _ => C := by
  intro s F hs hfacts
  exact (hx s).mono fun a s' ⟨hb, hsc, hp, hc, ho, hr⟩ => .of_alike hs hb hsc hp hc ho hr

theorem skip_of (hx : Lowers fills ∅ 0 x fun _ => 0) (hk : ∀ a, Lowers fills U C (k a) Q W) :
    Lowers fills U C (x >>= k) Q W := by
  refine hx.bind (Set.empty_subset _) (zero_add C).symm fun a => ?_
  rw [zero_add, Set.union_empty]
  exact hk a

theorem skip (hx : Quiet x) (hk : ∀ a, Lowers fills U C (k a) Q W) : Lowers fills U C (x >>= k) Q W :=
  skip_of (of_quiet hx) hk

/-- What the state says about the context can be relied on. -/
theorem get {k : LowerState → LowerM β} (hk : ∀ s, Lowers fills (U ∪ {.context s.context}) C (k s) Q W) :
    Lowers fills U C (get >>= k) Q W := by
  intro s F hs hfacts
  refine .bind_of_ok rfl (hk s s F hs ?_)
  rintro u (hu | rfl)
  · exact hfacts u hu
  · rfl

theorem andThen (hx : Lowers fills U' 0 x R V P X) (hU : U' ⊆ U)
    (hk : ∀ a, Lowers fills (U ∪ V a) (R a + C) (k a) Q W P X) : Lowers fills U C (x >>= k) Q W P X :=
  hx.bind hU (zero_add C).symm hk

theorem beside (hx : Lowers fills U' 0 x R V P X) (hU : U' ⊆ U)
    (hk : ∀ a, Lowers fills U (R a + C) (k a) Q W P X) : Lowers fills U C (x >>= k) Q W P X :=
  hx.next hU (zero_add C).symm hk

theorem before (hx : Lowers fills ∅ 0 x R V P X) (hk : ∀ a, Lowers fills U (R a + C) (k a) Q W P X) :
    Lowers fills U C (x >>= k) Q W P X := hx.beside (Set.empty_subset U) hk

/-- A list of computations, each of which takes nothing. The facts that each gives can depend on its result and on
what it was run for. -/
theorem mapM {R : β → Multiset Root} {V : β → Set Fact} {G : α → Set Fact} :
    ∀ {l : List α}, (∀ a ∈ l, Lowers fills U 0 (f a) R fun b => V b ∪ G a) →
      Lowers fills U 0 (l.mapM f) (fun bs => (bs.map R).sum)
        fun bs => {v | ∃ b ∈ bs, v ∈ V b} ∪ {v | ∃ a ∈ l, v ∈ G a}
  | [], _ => pure (by simp) (by simp)
  | a :: l, hf => by
    rw [mapM_cons]
    refine (hf a mem_cons_self).andThen subset_rfl fun b => ?_
    rw [add_zero]
    refine (mapM fun a ha => hf a (mem_cons_of_mem _ ha)).andThen Set.subset_union_left
      fun bs => pure ?_ ?_
    · rw [map_cons, sum_cons, add_comm]
    · rintro v (⟨b', hb', hv⟩ | ⟨a', ha', hv⟩)
      · rcases mem_cons.1 hb' with rfl | hb'
        · exact .inl (.inr (.inl hv))
        · exact .inr (.inl ⟨b', hb', hv⟩)
      · rcases mem_cons.1 ha' with rfl | ha'
        · exact .inl (.inr (.inr hv))
        · exact .inr (.inr ⟨a', ha', hv⟩)

theorem mapM_roots {R : β → Multiset Root} {l : List α} (hf : ∀ a ∈ l, Lowers fills U 0 (f a) R) :
    Lowers fills U 0 (l.mapM f) fun bs => (bs.map R).sum :=
  (mapM (G := fun _ => ∅) fun a ha => by simpa using hf a ha).conseq (B := 0) subset_rfl (by simp)
    (by simp) (by simp)

theorem length_of_mapM :
    ∀ {l : List α} {bs : List β} {s s' : LowerState}, l.mapM f s = .ok (bs, s') → bs.length = l.length
  | [], _, _, _, h => by
    obtain ⟨rfl, -⟩ := pure_ok.1 h
    rfl
  | a :: l, _, _, _, h => by
    rw [mapM_cons] at h
    obtain ⟨b, u, -, h⟩ := bind_ok.1 h
    obtain ⟨bs, u', hrest, h⟩ := bind_ok.1 h
    obtain ⟨rfl, -⟩ := pure_ok.1 h
    rw [length_cons, length_cons, length_of_mapM hrest]

theorem mapOption {f : α → LowerM NodeId} (hf : ∀ a, Lowers fills U 0 (f a) (root c)) :
    ∀ o : Option α, Lowers fills U 0 (o.mapM f) fun ids => roots c ids.toList
  | none => ret rfl
  | some a => by
    have h : Lowers fills U 0 (f a >>= fun id => Pure.pure (some id)) fun o => roots c o.toList :=
      (hf a).beside subset_rfl fun id => ret (by simp)
    rwa [Option.mapM_some]

end Lowers

end Retarget
