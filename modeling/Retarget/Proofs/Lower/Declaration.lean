import Retarget.Proofs.Lower.Enclosed

/-!
# Declarations, temporaries and lists of statements

* `Lowerers.Sound`: what the functions that lower nested phrases do.
* `declareName_lowers`: a declared variable becomes a root that names can be bound to, and is awaited no more.
* `Declares.lowers`: the ids that are reserved on entry to a block are filled by the statements of the block.
* `statements_lowers`: statements in a row become roots, with the declarations of their temporaries.
* `blockAfter_within`: a block closes the names that are declared in it.
-/

namespace Retarget

open Syntax LowerM List Stateful Kind

variable {s s' s₀ : LowerState} {A B E F : Multiset Root} {U : Set Fact} {fills : Bool} {c : Category}
  {p x : NodeId} {pos : Pos} {α : Type} {saved : List NodeId} {binding : NodeId} {name : String} {id : NodeId}
  {kind : Kind}

attribute [local simp] parts references sum_root_map

def settledFacts (names : List String) : Set Fact := {fact | ∃ name ∈ names, fact = .settled name}

def stepCategory : BindingMode → Category
  | .declare _ => .declarator
  | .assign => .expression

def declaredFacts : BindingMode → List String → Set Fact
  | .declare _, names => settledFacts names
  | .assign, _ => ∅

/-- The temporary that holds the whole value of an assignment can be used afterwards. -/
def keptTemp : BindingMode → Option Temp → Set Fact
  | .assign, some temp => {.usable temp.id}
  | _, _ => ∅

theorem declaredFacts_append (mode : BindingMode) (l l' : List String) :
    declaredFacts mode (l ++ l') = declaredFacts mode l ∪ declaredFacts mode l' := by
  cases mode with
  | declare kind =>
    simp only [declaredFacts, settledFacts, mem_append, or_and_right, exists_or]
    rfl
  | assign => simp [declaredFacts]

structure Lowerers.Sound (r : Lowerers) : Prop where
  expr : ∀ {fills} hint e, Lowers fills ∅ 0 (r.expr hint e) (root .expression)
  stmt : ∀ stmt, Lowers true ∅ 0 (r.stmt stmt) (roots .statement) fun _ => settledFacts (lexicalNames [stmt])
  ifStmt : ∀ test consequent alternate pos,
    Lowers true ∅ 0 (r.stmt (.ifStmt test consequent alternate pos)) (fun ids => roots .statement ids.getLast?.toList)
      fun ids => {fact | ∃ id ∈ ids.getLast?, fact = .inert id}
  destructure : ∀ {fills} mode pattern value, mode = .assign ∨ fills = true →
    Lowers fills ∅ (root .expression value) (r.destructure mode pattern value)
      (fun result => roots (stepCategory mode) result.1)
      fun result => declaredFacts mode pattern.patternNames ∪ keptTemp mode result.2

/-! ## Quiet operations -/

theorem unhandled_fails {kind : String} : Fails (unhandled kind pos : LowerM α) :=
  fun _ => .bind_of_ok rfl rfl

theorem malformed_fails {kind cause : String} :
    Fails (malformed kind cause pos : LowerM α) := fun _ => .bind_of_ok rfl rfl

theorem typeOf_quiet : Quiet (typeOf id) := Quiet.get.bind fun _ => .pure

theorem kindOf_quiet : Quiet (kindOf id) := Quiet.get.bind fun _ => .pure

theorem unionType_quiet {a b : NodeId} : Quiet (unionType a b) := by
  refine typeOf_quiet.bind fun ta => typeOf_quiet.bind fun tb => ?_
  split <;> exact .pure

theorem freshName_quiet {stem : String} : Quiet (freshName stem) := by
  refine Quiet.get.bind fun _ => Quiet.bind (.modify ?_) fun _ => .pure
  exact fun _ => ⟨rfl, rfl, rfl, rfl, rfl, rfl⟩

theorem recordType_quiet {type : Option TypeDescriptor} : Quiet (recordType binding type) :=
  .modify fun _ => ⟨rfl, rfl, rfl, rfl, rfl, rfl⟩

theorem addConstant_quiet (id : NodeId) : Quiet (addConstant id) := .modify fun _ => ⟨rfl, rfl, rfl, rfl, rfl, rfl⟩

/-! ## Names and temporaries -/

theorem syntheticIdent_lowers (hc : c.admits (.identifier name (some binding)) = true) :
    Lowers fills {.usable binding} 0 (syntheticIdent name binding pos) (root c) := by
  refine .skip .get fun _ => ?_
  refine (syntheticTyped_lowers (.identifier name (some binding)) hc).doneWith ?_ rfl
  rintro v ⟨d, hd, rfl⟩
  cases hd
  rfl

theorem useTemp_lowers {temp : Temp} (hc : c.admits (.identifier temp.name (some temp.id)) = true) :
    Lowers fills {.usable temp.id} 0 (useTemp temp pos) (root c) := syntheticIdent_lowers hc

theorem temp_lowers {temp : Temp} : Lowers fills {.usable temp.id} 0 (useTemp temp pos) (root .expression) :=
  useTemp_lowers rfl

theorem create_pendingTemps {e : Envelope} (h : create kind e s = .ok (p, s')) : s'.pendingTemps = s.pendingTemps := by
  obtain ⟨b, -, rfl⟩ := build_eq_ok.1 h
  rfl

theorem pendingTemp_lowers (pos : Pos) :
    Lowers fills ∅ 0 (pendingTemp pos) (fun _ => 0) fun temp => {.usable temp.id} := by
  refine .skip freshName_quiet fun name => ?_
  intro s F hready hfacts
  have hallowed : (declarator name none).Allowed ∅ := .of_isFree rfl
  have hcreate : EndsWell (synthetic (.declarator name none) pos) s fun id =>
      Lowered fills s F (root .declarator id) (madeFacts ∅ (.declarator name none) id) :=
    synthetic_lowers hallowed rfl s F hready hfacts
  refine hcreate.bind fun id u hu => ?_
  obtain ⟨⟨L, hL, hready'⟩, hstep, hpending, hV, htame⟩ := hu
  have hbarren : (Fact.barren id).Holds u := hV _ (barren_mem_madeFacts rfl nofun)
  refine .bind_of_ok rfl (.pure ⟨⟨L, hL, ⟨?_, fun t ht => ?_⟩, hready'.usable⟩, ?_, ?_, ?_, htame⟩)
  · convert hready'.held using 1
    simp only [roots_append, roots_cons, roots_nil]
    abel
  · rcases mem_append.1 ht with ht | ht
    · exact hready'.pending t ht
    · obtain rfl := mem_singleton.1 ht
      exact hbarren.2
  · exact { hstep with }
  · exact hpending.trans (prefix_append _ _)
  · rintro v rfl
    exact hV _ (usable_mem_madeFacts rfl rfl)

theorem takePending_endsWell (h : Ready s (roots .declarator saved + F))
    (hsaved : ∀ t ∈ saved, Barren s.builder.kind? t) :
    EndsWell (takePending saved pos) s fun o s' =>
      (∃ L, Lost False s'.builder L ∧ Ready s' (roots .statement o.toList + L + F)) ∧ Step false ∅ s s' ∧
        Tame {s.context} s.builder.kind? s'.builder.kind? := by
  refine .bind_of_ok swapPending_ok ?_
  set u : LowerState := { s with pendingTemps := saved }
  have hu : Ready u (roots .declarator s.pendingTemps + F) := by
    refine ⟨⟨?_, hsaved⟩, h.usable⟩
    convert h.held using 1
    abel
  have hstep : Step false ∅ s u := .of_alike (.refl _) rfl rfl rfl rfl
  split
  next hempty =>
    rw [isEmpty_iff.1 hempty] at hu
    exact .pure ⟨⟨0, .zero, hu⟩, hstep, .of_eq rfl⟩
  next =>
    have hallowed : (variableDecl .letKind s.pendingTemps).Allowed ∅ := .of_isFree rfl
    have hparts : (variableDecl .letKind s.pendingTemps).parts = roots .declarator s.pendingTemps := by
      simp [parts, references]
    have hcreate : EndsWell (synthetic (.variableDecl .letKind s.pendingTemps) pos) u fun id =>
        Lowered false u F (root .statement id) (madeFacts ∅ (.variableDecl .letKind s.pendingTemps) id) :=
      synthetic_lowers hallowed rfl u F (by rwa [hparts]) (by simp)
    refine hcreate.bind fun v u' hend => ?_
    obtain ⟨⟨L, hL, hu'⟩, hstep', _, _, htame⟩ := hend
    exact .pure ⟨⟨L, hL, hu'⟩, hstep.trans hstep', htame⟩

/-- The computation leaves the pending temporaries alone. -/
def KeepsPending {α : Type} (x : LowerM α) : Prop := ∀ s a s', x s = .ok (a, s') → s'.pendingTemps = s.pendingTemps

namespace KeepsPending

variable {α β : Type} {x : LowerM α} {k : α → LowerM β}

theorem pure {a : α} : KeepsPending (Pure.pure a) := by
  intro s a' s' h
  obtain ⟨-, rfl⟩ := pure_ok.1 h
  rfl

theorem bind (hx : KeepsPending x) (hk : ∀ a, KeepsPending (k a)) : KeepsPending (x >>= k) := by
  intro s b s' h
  obtain ⟨a, u, hrun, hrest⟩ := bind_ok.1 h
  exact (hk a u b s' hrest).trans (hx s a u hrun)

theorem modify {f : LowerState → LowerState} (hf : ∀ s, (f s).pendingTemps = s.pendingTemps) :
    KeepsPending (modify f : LowerM PUnit) := by
  intro s a s' h
  cases h
  exact hf s

theorem of_quiet (hx : Quiet x) : KeepsPending x := fun s _ _ hrun => ((hx s).of_ok hrun).2.2.1

theorem mapM {f : α → LowerM β} (hf : ∀ a, KeepsPending (f a)) : ∀ l : List α, KeepsPending (l.mapM f)
  | [] => pure
  | a :: l => by
    rw [mapM_cons]
    exact (hf a).bind fun _ => (mapM hf l).bind fun _ => pure

theorem forM {f : α → LowerM PUnit} (hf : ∀ a, KeepsPending (f a)) : ∀ l : List α, KeepsPending (l.forM f)
  | [] => pure
  | a :: l => (hf a).bind fun _ => forM hf l

theorem synthetic : KeepsPending (synthetic kind pos) := fun _ _ _ => create_pendingTemps

end KeepsPending

theorem takePending_pendingTemps {o : Option NodeId}
    (h : takePending saved pos s = .ok (o, s')) : s'.pendingTemps = saved := by
  obtain ⟨temps, u, hswap, hrest⟩ := bind_ok.1 h
  cases hswap
  have hkeeps : KeepsPending (if s.pendingTemps.isEmpty = true then Pure.pure none else do
      return some (← synthetic (.variableDecl .letKind s.pendingTemps) pos)) := by
    split
    · exact .pure
    · exact KeepsPending.synthetic.bind fun _ => .pure
  exact hkeeps _ o s' hrest

theorem hoistVars_keepsPending (body : List Stmt) (pos : Pos) : KeepsPending (hoistVars body pos) := by
  have hone : ∀ name, KeepsPending (do
      let id ← synthetic (.declarator name none) pos
      bindInFunction name id
      return id) := fun name =>
    KeepsPending.synthetic.bind fun _ => KeepsPending.bind (.modify fun _ => rfl) fun _ => .pure
  refine KeepsPending.bind (.of_quiet .get) fun s => (KeepsPending.mapM hone _).bind fun declarators => ?_
  split
  · exact .pure
  · exact KeepsPending.synthetic.bind fun _ => .pure

theorem declareBlock_keepsPending (body : List Stmt) : KeepsPending (declareBlock body) := by
  refine .forM (fun name => KeepsPending.bind (.of_quiet (Quiet.get.bind fun _ => .pure)) fun o => ?_) _
  cases o with
  | some => exact .pure
  | none =>
    refine KeepsPending.bind (KeepsPending.bind (fun s d s' h => ?_) fun _ =>
      KeepsPending.bind (.modify fun _ => rfl) fun _ => .pure) fun _ => .modify fun _ => rfl
    obtain ⟨b, -, rfl⟩ := build_eq_ok.1 h
    rfl

theorem statements_keepsPending (r : Lowerers) (body : List Stmt) : KeepsPending (statements r body) := by
  refine KeepsPending.bind (.mapM (fun stmt s ids s' h => ?_) _) fun _ => .pure
  obtain ⟨saved, u₁, hswap, h⟩ := bind_ok.1 h
  cases hswap
  obtain ⟨ids, u₂, -, h⟩ := bind_ok.1 h
  obtain ⟨temps, u₃, htake, h⟩ := bind_ok.1 h
  cases h
  exact takePending_pendingTemps htake

/-! ## Declarations -/

theorem declareName_lowers {init : Option NodeId} {kind : DeclarationKind} :
    Lowers true ∅ (roots .expression init.toList) (declareName name init kind pos) (root .declarator)
      fun id => madeFacts ∅ (.declarator name init) id ∪ {.settled name} := by
  have hparts : (declarator name init).parts = roots .expression init.toList := by
    simp [parts, references]
  have hallowed : (declarator name init).Allowed ∅ := .of_isFree rfl
  have hrest : ∀ type id, Lowers true (madeFacts ∅ (.declarator name init) id ∪ {.settled name}) (root .declarator id)
      (do
        setType id type
        recordType id type
        if kind = .constKind then addConstant id
        pure id) (root .declarator) fun id => madeFacts ∅ (.declarator name init) id ∪ {.settled name} := by
    intro type id
    refine (setType_lowers (c := .declarator)).beside ?_ fun _ => ?_
    · rintro v rfl
      exact .inl (fits_mem_madeFacts rfl)
    · refine .skip recordType_quiet fun _ => ?_
      split
      · exact .skip (addConstant_quiet id) fun _ => .pure rfl subset_rfl
      · exact .pure rfl subset_rfl
  cases init
  case' none => refine .skip .pure fun type => ?_
  case' some value => refine .skip typeOf_quiet fun type => ?_
  all_goals
    rw [← hparts]
    intro s F hready _
    refine reserved?_endsWell.bind fun o u hend => ?_
    obtain ⟨hu, hwaits, hsettled⟩ := hend
    subst hu
    cases o with
    | some id =>
      refine (hready.fill hallowed (by simp) (hwaits id rfl) (c := .declarator) rfl rfl rfl pos).bind fun _ v hv => ?_
      exact hv.next (hrest type id)
    | none =>
      refine Lowers.declare (U := {.settled name}) (node_lowers (c := .declarator) hallowed rfl) typed_givesNew
        (by simp) (add_zero _).symm (bindName_binds name) (fun id => usable_mem_madeFacts rfl rfl)
        (fun id => fits_mem_madeFacts (c := .declarator) rfl) (.inl rfl) (fun id => ?_) u F hready ?_
      · exact (hrest type id).weaken Set.subset_union_right
      · rintro v rfl
        exact hsettled rfl

theorem hoistVars_lowers (body : List Stmt) (pos : Pos) :
    Lowers fills {.outsideBlocks, .calm} 0 (hoistVars body pos) fun o => roots .statement o.toList := by
  have hone : ∀ name, Lowers fills {.outsideBlocks, .calm} 0
      (do
        let id ← synthetic (.declarator name none) pos
        bindInFunction name id
        pure id) (root .declarator) := by
    intro name
    have hallowed : (declarator name none).Allowed ∅ := .of_isFree rfl
    exact (synthetic_lowers (c := .declarator) hallowed rfl).declare syntheticTyped_givesNew (by simp)
      (zero_add _).symm (fun id => bindInFunction_binds (.inl rfl)) (fun id => usable_mem_madeFacts rfl rfl)
      (fun id => fits_mem_madeFacts (c := .declarator) rfl) (.inr (.inr rfl)) fun id => .ret (by simp)
  refine .skip .get fun s => ?_
  refine (Lowers.mapM_roots fun name _ => hone name).beside subset_rfl fun declarators => ?_
  rw [sum_root]
  split
  next hempty =>
    rw [isEmpty_iff.1 hempty]
    exact .ret rfl
  next =>
    exact (synthetic_lowers (c := .statement) (.of_isFree rfl) rfl).into (B := 0) (by simp) fun id =>
      .ret (by simp)

/-! ## Ids that wait for declarations -/

/-- From `s` to `s'` ids are reserved for names of the innermost scope. -/
structure Reserves (names : List String) (s s' : LowerState) : Prop where
  step : Step false Set.univ s s'
  pending : s'.pendingTemps = s.pendingTemps
  reserved : ∀ d ∈ s'.builder.reserved, d ∈ s.builder.reserved ∨
    (s.builder.nextId ≤ d ∧ ∃ name ∈ names, s'.scopes.local? name = some d)
  waits : ∀ name d, s.scopes.local? name = some d → d ∈ s'.builder.reserved → s'.scopes.local? name = some d
  kind_eq : s'.builder.kind? = s.builder.kind?

theorem Reserves.refl (names : List String) (s : LowerState) : Reserves names s s :=
  ⟨.refl s, rfl, fun _ => .inl, fun _ _ h _ => h, rfl⟩

theorem Reserves.trans {names names' : List String} {s'' : LowerState} (hready : Ready s F)
    (h : Reserves names s s') (h' : Reserves names' s' s'') : Reserves (names ++ names') s s'' := by
  refine ⟨h.step.trans h'.step, h'.pending.trans h.pending, fun d hd => ?_, fun name d hd hreserved => ?_,
    h'.kind_eq.trans h.kind_eq⟩
  · rcases h'.reserved d hd with hd' | ⟨hle, name, hname, hlocal⟩
    · refine (h.reserved d hd').imp_right fun ⟨hle, name, hname, hlocal⟩ => ⟨hle, name, ?_⟩
      exact ⟨mem_append.2 (.inl hname), h'.waits name d hlocal hd⟩
    · exact .inr ⟨h.step.next_le.trans hle, name, mem_append.2 (.inr hname), hlocal⟩
  · have hlt := (hready.local_lt hd).trans_le h.step.next_le
    have hmiddle := (h'.reserved d hreserved).resolve_right fun hnew => Nat.not_le.2 hlt hnew.1
    exact h'.waits name d (h.waits name d hd hmiddle) hreserved

def Declares (names : List String) (y : LowerM PUnit) : Prop :=
  ∀ s F, Ready s F → EndsWell y s fun _ s' => Ready s' F ∧ Reserves names s s'

theorem Declares.forM {f : α → LowerM PUnit} {names : α → List String}
    (hf : ∀ a, Declares (names a) (f a)) : ∀ l : List α, Declares (l.flatMap names) (l.forM f)
  | [] => fun s _ hready => .pure ⟨hready, .refl [] s⟩
  | a :: l => fun s F hready =>
    (hf a s F hready).bind fun _ u ⟨hu, hfirst⟩ =>
      (Declares.forM hf l u F hu).mono fun _ _ ⟨hs', hrest⟩ => ⟨hs', hfirst.trans hready hrest⟩

theorem bindReserved_declares (name : String) :
    Declares [name] (do
      match ← reserved? name with
      | some _ => pure ()
      | none => bindName name (← reserve)) := by
  intro s F hready
  refine reserved?_endsWell.bind fun o u hend => ?_
  obtain ⟨hu, _, hsettled⟩ := hend
  subst hu
  cases o with
  | some id => exact .pure ⟨hready, .refl _ u⟩
  | none =>
    refine (reserve_endsWell hready).bind fun id v hend => ?_
    obtain ⟨hv, hstep, hscopes, hpending, hid, hmem, hkind⟩ := hend
    have hnew : ∀ d ∈ v.builder.reserved, d ∈ u.builder.reserved ∨ d = id := hstep.reserved
    refine .modify ⟨⟨⟨hv.held, hv.pending⟩, fun d hd => ?_⟩, ?_⟩
    · rcases ScopeStack.mem_ids_add.1 hd with rfl | hd
      · exact .inl hmem
      · exact hv.usable d hd
    have hkeeps : ∀ other d, u.scopes.local? other = some d → d ∈ v.builder.reserved →
        (v.scopes.add name id).local? other = some d := by
      intro other d hd hreserved
      have hold := (hnew d hreserved).resolve_right fun hdid => (hready.local_lt hd).ne (hdid.trans hid)
      have hne : name ≠ other := fun hname => hsettled rfl d ⟨hname ▸ hd, hold⟩
      rw [ScopeStack.local?_add_of_ne hne, hscopes]
      exact hd
    refine ⟨{ hstep with
      base := ScopeStack.base_add.trans hstep.base
      named := ⟨[(name, id)], ScopeStack.names_add.trans (by rw [hscopes]; rfl), ?_⟩
      reserved := fun d _ => .inr trivial
      waits := fun other d hd hreserved _ => hkeeps other d hd hreserved }, hpending, fun d hd => ?_, hkeeps, hkind⟩
    · rintro entry (_ | ⟨_, ⟨⟩⟩)
      exact hid.ge
    · refine (hnew d hd).imp_right ?_
      rintro rfl
      exact ⟨hid.ge, name, mem_singleton_self name, ScopeStack.local?_add_self⟩

theorem declareBlock_declares (body : List Stmt) : Declares (lexicalNames body) (declareBlock body) := by
  have h := Declares.forM bindReserved_declares (lexicalNames body)
  rwa [flatMap_singleton'] at h

/-- **What is reserved is filled**: names that are declared on entry to a block wait no more once the statements
of the block have declared them. -/
theorem Declares.lowers {names : List String} {y : LowerM PUnit} {x : LowerM α} {R : α → Multiset Root}
    {V : α → Set Fact} (hy : Declares names y) (hx : Lowers true ∅ A x R V) (hV : ∀ a, settledFacts names ⊆ V a) :
    Lowers true U A (y >>= fun _ => x) R V := by
  intro s F hready _
  refine (hy s _ hready).bind fun _ u ⟨hu, hreserves⟩ => (hx u F hu (by simp)).mono fun a s' h => ?_
  have hstep : Step true Set.univ s s' :=
    (hreserves.step.mono nofun subset_rfl).trans (h.step.mono id (Set.empty_subset _))
  have hwaits : ∀ name d, u.scopes.local? name = some d → d ∈ s'.builder.reserved →
      s'.scopes.local? name = some d := fun name d hd hreserved =>
    h.step.waits name d hd hreserved (Set.notMem_empty d)
  have hold : ∀ d ∈ s'.builder.reserved, d ∈ u.builder.reserved ∧ d ∈ s.builder.reserved := by
    intro d hd
    have hd' := (h.step.reserved d hd).resolve_right (Set.notMem_empty d)
    refine ⟨hd', (hreserves.reserved d hd').resolve_right ?_⟩
    rintro ⟨-, name, hname, hlocal⟩
    exact h.facts (.settled name) (hV a ⟨name, hname, rfl⟩) d ⟨hwaits name d hlocal hd, hd⟩
  refine ⟨h.ready, { hstep with
    reserved := fun d hd => .inl (hold d hd).2
    waits := fun name d hd hreserved _ => ?_ }, hreserves.pending ▸ h.pending, h.facts,
    hreserves.kind_eq ▸ hreserves.step.context ▸ h.tame⟩
  exact hwaits name d (hreserves.waits name d hd (hold d hreserved).1) hreserved

/-! ## Statements -/

theorem lowers_of_within {x : LowerM NodeId} (hx : ∀ {s F}, Inside s F s (roots .statement [] + 0) →
      EndsWell x s fun p s' => Within s F ∅ s' (root c p + 0) ∧ s'.scopes = s.scopes ∧ (Fact.inert p).Holds s') :
    Lowers fills U 0 x (root c) fun p => {.inert p} := by
  intro s F hready _
  have hstart : Inside s F s (roots .statement [] + 0) := by simpa using Inside.refl hready
  refine (hx hstart).mono fun p s' ⟨h, hscopes, hinert⟩ => ?_
  obtain ⟨E, hE, hready'⟩ := (h.inside hscopes).ready
  refine ⟨⟨E, hE, by rwa [add_assoc]⟩, h.step.weaken, h.pending, ?_, h.tame⟩
  rintro v rfl
  exact hinert

section

variable {r : Lowerers} (hr : r.Sound) {body : List Stmt} {stmt : Stmt}
include hr

theorem statement_lowers (stmt : Stmt) :
    Lowers true ∅ 0
      (do
        let saved ← swapPending []
        let ids ← r.stmt stmt
        let temps ← takePending saved stmt.pos
        pure (temps.toList ++ ids)) (roots .statement) fun _ => settledFacts (lexicalNames [stmt]) := by
  intro s F hready _
  refine .bind_of_ok swapPending_ok ?_
  set s₁ : LowerState := { s with pendingTemps := [] }
  have hready₁ : Ready s₁ (0 + (roots .declarator s.pendingTemps + F)) := by
    refine ⟨⟨?_, by simp [s₁]⟩, hready.usable⟩
    convert hready.held using 1
    abel
  have hstep₁ : Step true ∅ s s₁ := .of_alike (.refl _) rfl rfl rfl rfl
  refine (hr.stmt stmt s₁ _ hready₁ (by simp)).bind fun ids s₂ ⟨⟨L, hL, hready₂⟩, hstep₂, _, hfacts, htame₂⟩ => ?_
  have hstep := hstep₁.trans hstep₂
  have hsaved : ∀ t ∈ s.pendingTemps, Barren s₂.builder.kind? t := by
    intro t ht
    obtain ⟨k, hk⟩ := hready.held.stored (r := ⟨t, .declarator⟩) (by simp [ht])
    exact (hready.pending t ht).mono hready.grown hstep.kinds hk
  have hready₂' : Ready s₂ (roots .declarator s.pendingTemps + (roots .statement ids + L + F)) := by
    convert hready₂ using 1
    abel
  refine ((takePending_endsWell hready₂' hsaved).and fun _ _ => takePending_pendingTemps).bind fun temps s₃ hend => ?_
  obtain ⟨⟨⟨L', hL', hready₃⟩, hstep₃, htame₃⟩, hpending₃⟩ := hend
  rw [hstep₂.context] at htame₃
  refine .pure ⟨⟨L' + L, hL'.add (hL.mono hready₂.held hstep₃.kinds fun t ht => by simp [ht]), ?_⟩,
    hstep.trans hstep₃.weaken, hpending₃ ▸ prefix_rfl, fun v hv => (hfacts v hv).of_step hready₂ hstep₃,
    htame₂.trans hready₂.grown hstep₂.kinds hstep₃.kinds htame₃⟩
  convert hready₃ using 1
  rw [roots_append]
  abel

theorem statements_lowers :
    Lowers true ∅ 0 (statements r body) (roots .statement) fun _ => settledFacts (lexicalNames body) := by
  have hone : ∀ stmt ∈ body, Lowers true ∅ 0 _ (roots .statement)
      fun _ => ∅ ∪ settledFacts (lexicalNames [stmt]) := fun stmt _ => by
    rw [Set.empty_union]
    exact statement_lowers hr stmt
  refine (Lowers.mapM hone).andThen subset_rfl fun lists => .pure ?_ ?_
  · rw [sum_roots, add_zero]
  · rintro v ⟨name, hname, rfl⟩
    obtain ⟨stmt, hstmt, hname⟩ := mem_flatMap.1 hname
    exact .inr (.inr ⟨stmt, hstmt, name, by simpa [lexicalNames] using hname, rfl⟩)

theorem scopedStatements_isolated (body : List Stmt) : Isolated (scopedStatements r body) (roots .statement) :=
  Lowers.isolated ((declareBlock_declares body).lowers (statements_lowers hr) fun _ => subset_rfl)

section

variable {before : List NodeId} {P : Set FunctionContext} (h : Inside s₀ F s (roots .statement before + B) P)
  (hB : AllBarren s.builder B) (hc : ∀ ids, c.admits (.block ids) = true) (hP : s₀.context ∈ P)
include h hB hc hP

theorem block_within {make : List NodeId → LowerM NodeId} (hmake : ∀ ids s, ∃ e, make ids s = create (.block ids) e s) :
    EndsWell (scopedStatements r body >>= fun ids => make (before ++ ids)) s fun p s' =>
      Within s₀ F ∅ s' (root c p + B) P ∧ s'.scopes = s.scopes ∧ (Fact.inert p).Holds s' := by
  refine (h.isolated (scopedStatements_isolated hr body) hP).bind fun ids s₁ hend => ?_
  obtain ⟨h₁, hstep, hscopes₁⟩ := hend
  have hparts : Within s₀ F ∅ s₁ ((block (before ++ ids)).parts + B) P := by
    convert h₁.toWithin using 1
    simp only [parts, references, Reference.parts_many, roots_append]
    abel
  refine .of_create (hmake (before ++ ids) s₁) fun e =>
    (hparts.create (h.toWithin.allBarren hB hstep) rfl (hc _) (.plain rfl rfl hP)).mono ?_
  rintro p s' ⟨h₂, hscopes₂, hfacts⟩
  exact ⟨h₂, hscopes₂.trans hscopes₁, hfacts _ (inert_mem_madeFacts rfl)⟩

theorem blockAfter_within {b : Block} :
    EndsWell (blockAfter r before b) s fun p s' =>
      Within s₀ F ∅ s' (root c p + B) P ∧ s'.scopes = s.scopes ∧ (Fact.inert p).Holds s' := by
  unfold blockAfter
  split
  exact block_within hr h hB hc hP fun _ _ => typed_eq_create

theorem bodyAfter_within :
    EndsWell (bodyAfter r before stmt) s fun p s' =>
      Within s₀ F ∅ s' (root c p + B) P ∧ s'.scopes = s.scopes ∧ (Fact.inert p).Holds s' := by
  unfold bodyAfter
  split
  · exact blockAfter_within hr h hB hc hP
  · exact block_within hr h hB hc hP fun _ _ => syntheticTyped_eq_create

end

theorem blockAfter_lowers (hc : ∀ ids, c.admits (.block ids) = true) (b : Block) :
    Lowers fills U 0 (blockAfter r [] b) (root c) fun p => {.inert p} :=
  lowers_of_within fun h => blockAfter_within hr h allBarren_zero hc rfl

theorem bodyAfter_lowers : Lowers fills U 0 (bodyAfter r [] stmt) (root .statement) fun p => {.inert p} :=
  lowers_of_within fun h => bodyAfter_within hr h allBarren_zero (fun _ => rfl) rfl

end

end Retarget
