import Retarget.Optimize.Pipeline
import Retarget.Proofs.Builder.Session
import Retarget.Proofs.Optimize.Passes

/-!
# Optimizing twice

A round that changes nothing leaves a builder on which no pass plans anything. What was pruned can only matter to a
pass that looks at all nodes, as inlining does to find the functions that are assigned to.

* `Builder.Settled plan b`: the plan changes no node of `b`.
* `Builder.Stable b`: a round changes nothing.
* `Pipeline.apply_apply`: what was optimized until nothing changed is not changed by optimizing it again, if all
  functions that were assigned to still are.
-/

namespace Retarget

open Relation List Option Retarget.Except Builder Inline NodeTable

namespace Builder

variable {plan : Builder → Kind → Option Edit} {b b' : Builder} {id : NodeId} {e : Edit} {changed : Bool}
  {ids : List NodeId}

/-! ## Passes that change nothing -/

/-- The plan changes no node. -/
def Settled (plan : Builder → Kind → Option Edit) (b : Builder) : Prop := ∀ id old new, ¬b.Plans plan id old new

theorem edit_idle (h : e.kind? b = none) : b.edit id e = .ok (false, b) := by
  cases e with
  | literal kind | kind kind => cases h
  | copy source =>
    rw [Edit.kind?, kind?, NodeTable.kind?] at h
    rw [edit, node?]
    cases hsource : b.nodes[source]? with
    | none => rfl
    | some node =>
      rw [hsource] at h
      exact if_pos (by simpa using h)

theorem editNode_idle (h : ∀ old new, ¬b.Plans plan id old new) : b.editNode plan id = .ok (false, b) := by
  rw [editNode]
  split
  next e hplan =>
    obtain ⟨old, hold, hplan⟩ := bind_eq_some_iff.1 hplan
    refine edit_idle (eq_none_iff_forall_ne_some.2 fun new hnew => ?_)
    exact h old new ⟨hold, e, hplan, hnew⟩
  next => rfl

theorem editNode_unchanged (h : b.editNode plan id = .ok (false, b')) :
    b' = b ∧ ∀ old new, ¬b.Plans plan id old new := by
  rw [editNode] at h
  split at h
  next e hplan =>
    obtain ⟨hnone, -, rfl⟩ | ⟨new, -, hchanged, -⟩ := edit_eq_ok h
    · refine ⟨rfl, ?_⟩
      rintro old new ⟨hold, e', hplan', hnew⟩
      rw [hold, bind_some, hplan'] at hplan
      cases hplan
      rw [hnone] at hnew
      cases hnew
    · cases hchanged
  next hplan =>
    cases h
    refine ⟨rfl, ?_⟩
    rintro old new ⟨hold, e', hplan', -⟩
    rw [hold, bind_some, hplan'] at hplan
    cases hplan

theorem editList_unchanged (h : editList plan ids b = .ok (false, b')) :
    b' = b ∧ ∀ id ∈ ids, ∀ old new, ¬b.Plans plan id old new := by
  induction ids generalizing b with
  | nil =>
    cases h
    exact ⟨rfl, by simp⟩
  | cons id ids ih =>
    obtain ⟨⟨changed, b₁⟩, hnode, h⟩ := bind_eq_ok.1 h
    obtain ⟨⟨more, b₂⟩, hlist, h⟩ := bind_eq_ok.1 h
    obtain ⟨hchanged, rfl⟩ := Prod.mk.inj (Except.ok.inj h)
    obtain ⟨rfl, rfl⟩ := Bool.or_eq_false_iff.1 hchanged
    obtain ⟨rfl, hfirst⟩ := editNode_unchanged hnode
    obtain ⟨rfl, hrest⟩ := ih hlist
    exact ⟨rfl, forall_mem_cons.2 ⟨hfirst, hrest⟩⟩

theorem editAll_unchanged (h : b.editAll plan = .ok (false, b')) : b' = b ∧ b.Settled plan := by
  obtain ⟨rfl, hids⟩ := editList_unchanged h
  refine ⟨rfl, fun id old new hplans => hids id ?_ old new hplans⟩
  obtain ⟨node, hnode, -⟩ := kind?_eq_some.1 hplans.1
  exact Std.ExtTreeMap.mem_keys.2 (IdMap.mem_iff.2 ⟨node, hnode⟩)

theorem Settled.editAll (h : b.Settled plan) : b.editAll plan = .ok (false, b) := by
  rw [Builder.editAll]
  induction b.nodes.keys with
  | nil => rfl
  | cons id ids ih =>
    rw [editList, editNode_idle (h id)]
    simp only [bind, Except.bind, ih]
    rfl

/-- No pass changes anything. -/
structure Stable (b : Builder) : Prop where
  inlined : b.Settled (Inline.plan (Inline.candidates b))
  folded : b.Settled Fold.plan
  swept : b.Settled DeadCode.plan
  body : DeadCode.liveStatements? b b.body = none

/-! ## Builders after pruning -/

/-- `b'` has the nodes of `b` that can be reached, and no others. -/
structure Prunes (b b' : Builder) : Prop where
  body_eq : b'.body = b.body
  nodes_iff : ∀ (id : NodeId) (node : Node), b'.nodes[id]? = some node ↔ b.nodes[id]? = some node ∧ id ∈ b.live

namespace Prunes

variable {kind : Kind}

theorem kind? (h : Prunes b b') : b'.kind? id = some kind ↔ b.kind? id = some kind ∧ id ∈ b.live := by
  rw [Builder.kind?, Builder.kind?, kind?_eq_some, kind?_eq_some]
  simp only [h.nodes_iff]
  constructor
  · rintro ⟨node, ⟨hnode, hlive⟩, hkind⟩
    exact ⟨⟨node, hnode, hkind⟩, hlive⟩
  · rintro ⟨⟨node, hnode, hkind⟩, hlive⟩
    exact ⟨node, ⟨hnode, hlive⟩, hkind⟩

theorem kind?_eq (h : Prunes b b') (hlive : id ∈ b.live) : b'.kind? id = b.kind? id :=
  Option.ext fun _ => h.kind?.trans (and_iff_left hlive)

theorem target_live (h : Prunes b b') (hid : b'.kind? id = some kind) {r : Reference} (hr : r ∈ kind.references) :
    r.target ∈ b.live := by
  obtain ⟨hkind, hlive⟩ := h.kind?.1 hid
  obtain ⟨node, hnode, rfl⟩ := kind?_eq_some.1 hkind
  exact live_of_refers hlive (refers_iff.2 ⟨node, hnode, r, hr, rfl⟩)

theorem body_live (hid : id ∈ b.body) : id ∈ b.live := mem_live.2 ⟨id, .inl hid, .refl⟩

/-- Nothing is left to prune. -/
theorem prune_eq (h : Prunes b b') (hreserved : ∀ id, id ∉ b.reserved) : b'.pruneUnreachable.2 = b' := by
  have heq : b'.pruneUnreachable = (0, b') := by
    refine pruneUnreachable_eq_self fun id hid => ?_
    obtain ⟨node, hnode⟩ := IdMap.mem_iff.1 hid
    exact live_of_live (fun _ hid => h.body_eq ▸ hid) (fun id hid => absurd hid (hreserved id))
      (fun id hid node hnode => (h.nodes_iff id node).2 ⟨hnode, hid⟩) ((h.nodes_iff id node).1 hnode).2
  rw [heq]

end Prunes

end Builder

/-! ## Folding -/

variable {kind : Kind} {e : Edit} {α : Type}

theorem Fold.plan_mono {b b' : Builder} (h : ∀ x kind, b'.kind? x = some kind → b.kind? x = some kind)
    (he : plan b' kind = some e) : plan b kind = some e := by
  unfold plan at he ⊢
  split at he
  next operator left right =>
    obtain ⟨kind, hleft, he⟩ := bind_eq_some_iff.1 he
    obtain ⟨kind', hright, he⟩ := bind_eq_some_iff.1 he
    exact bind_eq_some_iff.2 ⟨kind, h _ _ hleft, bind_eq_some_iff.2 ⟨kind', h _ _ hright, he⟩⟩
  next operator argument =>
    obtain ⟨kind, hargument, he⟩ := bind_eq_some_iff.1 he
    exact bind_eq_some_iff.2 ⟨kind, h _ _ hargument, he⟩
  next => cases he

/-! ## Dead code -/

namespace DeadCode

variable {b b' : Builder} {id : NodeId} {old new : Kind}

theorem splitAfter?_congr {test test' : α → Bool} {list : List α} (h : ∀ a ∈ list, test a = test' a) :
    splitAfter? test list = splitAfter? test' list := by
  induction list with
  | nil => rfl
  | cons a more ih =>
    obtain ⟨ha, hmore⟩ := forall_mem_cons.1 h
    rw [splitAfter?, splitAfter?, ha, ih hmore]

theorem liveStatements?_congr {statements : List NodeId} (h : ∀ s ∈ statements, b'.kind? s = b.kind? s) :
    liveStatements? b' statements = liveStatements? b statements := by
  have hholds (test : Kind → Bool) : ∀ s ∈ statements, holds b' test s = holds b test s := fun s hs => by
    rw [holds, holds, h s hs]
  rw [liveStatements?, liveStatements?, splitAfter?_congr (hholds _)]
  cases hsplit : splitAfter? (holds b Kind.isTerminator) statements with
  | none => rfl
  | some parts =>
    obtain ⟨front, tail⟩ := parts
    have hfilter : tail.filter (holds b' isDeclaration) = tail.filter (holds b isDeclaration) :=
      filter_congr fun s hs => hholds _ s (splitAfter?_eq_some hsplit ▸ mem_append_right _ hs)
    simp only [bind_eq_bind, bind_some, hfilter]

attribute [local simp] Kind.childList

theorem Becomes.planned (h : Becomes b' old new) (hsame : ∀ c ∈ old.children, b'.kind? c = b.kind? c) :
    ∃ e, plan b old = some e ∧ e.kind? b = some new := by
  rw [Kind.children_eq] at hsame
  have htruth {c : NodeId} (hc : c ∈ old.childList) : truthiness? b c = truthiness? b' c := by
    rw [truthiness?, truthiness?, hsame c hc]
  have hcopy {c : NodeId} (hc : c ∈ old.childList) (hkind : b'.kind? c = some new) (hnew : new.isBinding = false) :
      (Edit.copy c).kind? b = some new := by
    simp [Edit.kind?, ← hsame c hc, hkind, hnew]
  cases h with
  | @block body live hlive =>
    rw [liveStatements?_congr (show ∀ s ∈ body, _ from hsame)] at hlive
    exact ⟨.kind (.block live), by simp [plan, hlive], rfl⟩
  | @switchCase test consequent live hlive =>
    rw [liveStatements?_congr fun s hs => hsame s (mem_append_right _ hs)] at hlive
    exact ⟨.kind (.switchCase test live), by simp [plan, hlive], rfl⟩
  | @taken test consequent alternate new htest h hnew =>
    rw [← htruth (by simp)] at htest
    exact ⟨.copy consequent, by simp [plan, htest], hcopy (by simp) h hnew⟩
  | @otherwise test consequent alternate new htest h hnew =>
    rw [← htruth (by simp)] at htest
    exact ⟨.copy alternate, by simp [plan, htest], hcopy (by simp) h hnew⟩
  | skipped htest | never htest =>
    rw [← htruth (by simp)] at htest
    exact ⟨.kind .empty, by simp [plan, htest], rfl⟩
  | @chosen test consequent alternate truthy new htest h hnew =>
    rw [← htruth (by simp)] at htest
    exact ⟨_, by simp [plan, htest], hcopy (by cases truthy <;> simp) h hnew⟩
  | @decided operator left right kind isLeft new hleft hdecided h hnew =>
    rw [hsame left (by simp)] at hleft
    exact ⟨_, by simp [plan, hleft, hdecided],
      hcopy (by cases isLeft <;> simp) h hnew⟩

theorem run_unchanged : run b = .ok (false, b') ↔ b' = b ∧ liveStatements? b b.body = none ∧ b.Settled plan := by
  constructor
  · intro h
    obtain ⟨⟨changed, b₁⟩, hedit, h⟩ := bind_eq_ok.1 h
    obtain ⟨hchanged, rfl⟩ := Prod.mk.inj (Except.ok.inj h)
    obtain ⟨hnone, rfl⟩ := Bool.or_eq_false_iff.1 hchanged
    have hnone : liveStatements? b b.body = none := by simpa using hnone
    rw [hnone] at hedit
    obtain ⟨rfl, hsettled⟩ := editAll_unchanged hedit
    exact ⟨rfl, hnone, hsettled⟩
  · rintro ⟨rfl, hnone, hsettled⟩
    rw [run, hnone]
    exact congrArg (· >>= _) hsettled.editAll

end DeadCode

/-! ## Inlining -/

namespace Inline

variable {b b' : Builder} {id : NodeId} {shape : Shape}

theorem getElem?_foldl {f : NodeId → Option α} {step : IdMap α → NodeId → IdMap α}
    (hstep : ∀ found first, step found first = (f first).elim found (found.insert first)) (ids : List NodeId)
    (found : IdMap α) : (ids.foldl step found)[id]? = if id ∈ ids then (f id).or found[id]? else found[id]? := by
  induction ids generalizing found with
  | nil => rfl
  | cons first ids ih =>
    rw [foldl_cons, ih, hstep]
    by_cases heq : id = first
    · subst heq
      cases f id <;> simp
    · cases f first <;> simp [heq, Ne.symm heq, Std.ExtTreeMap.getElem?_insert]

theorem getElem?_candidates :
    (candidates b)[id]? = some shape ↔ id ∈ b.body ∧ id ∉ assigned b ∧ candidate? b id = some shape := by
  rw [candidates, getElem?_foldl (f := fun id => if id ∈ assigned b then none else candidate? b id)]
  · by_cases hbody : id ∈ b.body <;> by_cases hassigned : id ∈ assigned b <;> simp [hbody, hassigned]
  · intro found first
    cases if first ∈ assigned b then none else candidate? b first <;> rfl

section

variable (h : ∀ x kind, b'.kind? x = some kind → b.kind? x = some kind)
include h

theorem shape?_mono {f : FunctionNode} (hshape : shape? b' f = some shape) : shape? b f = some shape := by
  obtain ⟨value, hvalue, hshape⟩ := bind_eq_some_iff.1 hshape
  obtain ⟨kind, hkind, hshape⟩ := bind_eq_some_iff.1 hshape
  have hreturned : returned? b f = some value := by
    unfold returned? at hvalue ⊢
    split at hvalue
    next only hbody =>
      rw [h _ _ hbody]
      dsimp only
      split at hvalue
      next value hreturn =>
        rw [h _ _ hreturn]
        exact hvalue
      next => cases hvalue
    next => cases hvalue
  refine bind_eq_some_iff.2 ⟨value, hreturned, bind_eq_some_iff.2 ⟨kind, h _ _ hkind, hshape⟩⟩

theorem candidate?_mono (hshape : candidate? b' id = some shape) : candidate? b id = some shape := by
  unfold candidate? at hshape ⊢
  split at hshape
  next f hf =>
    rw [h _ _ hf]
    dsimp only
    split at hshape
    next => cases hshape
    next hplain =>
      rw [if_neg hplain]
      exact shape?_mono h hshape
  next => cases hshape

theorem result?_mono {arguments : List ListItem} {source : NodeId}
    (hsource : result? b' shape arguments = some source) : result? b shape arguments = some source := by
  unfold result? at hsource ⊢
  split at hsource
  next => exact hsource
  next argument =>
    obtain ⟨hsimple, heq⟩ := ite_none_right_eq_some.1 hsource
    refine ite_none_right_eq_some.2 ⟨?_, heq⟩
    cases hkind : b'.kind? argument.value with
    | none =>
      rw [hkind] at hsimple
      cases hsimple
    | some kind =>
      rw [h _ _ hkind]
      rwa [hkind] at hsimple
  next => cases hsource

theorem plan_mono {found found' : IdMap Shape}
    (hfound : ∀ (id : NodeId) (shape : Shape), found'[id]? = some shape → found[id]? = some shape)
    (he : plan found' b' kind = some e) : plan found b kind = some e := by
  unfold plan at he ⊢
  split at he
  next callee arguments =>
    split at he
    next name function hcallee =>
      rw [h _ _ hcallee]
      obtain ⟨shape, hshape, he⟩ := bind_eq_some_iff.1 he
      obtain ⟨source, hsource, he⟩ := bind_eq_some_iff.1 he
      have hsource := result?_mono h hsource
      exact bind_eq_some_iff.2 ⟨shape, hfound _ _ hshape, bind_eq_some_iff.2 ⟨source, hsource, he⟩⟩
    next => cases he
  next => cases he

end

end Inline

namespace Builder

variable {b b' : Builder}

/-- **After pruning, a round still changes nothing**, if the functions that were assigned to are. -/
theorem Stable.prune (h : b.Stable) (hb' : b.Prunes b')
    (hassigned : ∀ f ∈ b.body, f ∈ assigned b → f ∈ assigned b') : b'.Stable := by
  have hmono (x : NodeId) (kind : Kind) (hx : b'.kind? x = some kind) : b.kind? x = some kind := (hb'.kind?.1 hx).1
  have hkind (e : Edit) (new : Kind) (he : e.kind? b' = some new) : e.kind? b = some new := by
    cases e with
    | literal | kind => exact he
    | copy source =>
      obtain ⟨hsource, hnew⟩ := filter_eq_some_iff.1 he
      exact filter_eq_some_iff.2 ⟨hmono _ _ hsource, hnew⟩
  constructor
  case inlined =>
    rintro id old new ⟨hold, e, hplan, hnew⟩
    refine h.inlined id old new
      ⟨hmono _ _ hold, e, plan_mono hmono (fun f shape hf => ?_) hplan, hkind e new hnew⟩
    obtain ⟨hbody, hnever, hshape⟩ := Inline.getElem?_candidates.1 hf
    rw [hb'.body_eq] at hbody
    exact getElem?_candidates.2
      ⟨hbody, fun hin => hnever (hassigned f hbody hin), candidate?_mono hmono hshape⟩
  case folded =>
    rintro id old new ⟨hold, e, hplan, hnew⟩
    exact h.folded id old new ⟨hmono _ _ hold, e, Fold.plan_mono hmono hplan, hkind e new hnew⟩
  case swept =>
    rintro id old new hplans
    refine h.swept id old new ⟨hmono _ _ hplans.1, (DeadCode.becomes hplans).planned fun c hc => hb'.kind?_eq ?_⟩
    obtain ⟨r, hr, rfl⟩ := mem_map.1 hc
    exact hb'.target_live hplans.1 (mem_of_mem_filter hr)
  case body =>
    rw [hb'.body_eq, DeadCode.liveStatements?_congr fun s hs => hb'.kind?_eq (Prunes.body_live hs)]
    exact h.body

end Builder

namespace Pipeline

variable {passes : List Pass} {limit n : Nat} {b b' : Builder} {m m' : Module}

theorem runRounds_unchanged (h : runRounds passes limit b = .ok (n, b')) (hn : n < limit) :
    ∃ b₀, runPasses passes b₀ = .ok (false, b') := by
  induction limit generalizing b n with
  | zero => cases hn
  | succ limit ih =>
    obtain ⟨⟨changed, b₁⟩, hpasses, h⟩ := bind_eq_ok.1 h
    cases changed with
    | false =>
      cases h
      exact ⟨b, hpasses⟩
    | true =>
      obtain ⟨⟨rounds, b₂⟩, hrounds, h⟩ := bind_eq_ok.1 h
      cases h
      exact ih hrounds (Nat.lt_of_succ_lt_succ hn)

theorem runRounds_zero (h : runPasses passes b = .ok (false, b)) : runRounds passes (limit + 1) b = .ok (0, b) := by
  rw [runRounds, h]
  rfl

theorem runPasses_cons {pass : Pass} : runPasses (pass :: passes) b = .ok (false, b') ↔
    ∃ b₁, pass.run b = .ok (false, b₁) ∧ runPasses passes b₁ = .ok (false, b') := by
  simp only [runPasses, bind_eq_ok, Prod.exists, pure, Except.pure, Except.ok.injEq, Prod.mk.injEq,
    Bool.or_eq_false_iff]
  constructor
  · rintro ⟨changed, b₁, hpass, others, b₂, hrest, ⟨rfl, rfl⟩, rfl⟩
    exact ⟨b₁, hpass, hrest⟩
  · rintro ⟨b₁, hpass, hrest⟩
    exact ⟨false, b₁, hpass, false, b', hrest, ⟨rfl, rfl⟩, rfl⟩

theorem runPasses_standard : runPasses standard.passes b = .ok (false, b') ↔ b' = b ∧ b.Stable := by
  have hpasses : standard.passes = [.inlining, .folding, .deadCode] := rfl
  rw [hpasses, runPasses_cons]
  constructor
  · rintro ⟨b₁, hinline, h⟩
    obtain ⟨b₂, hfold, h⟩ := runPasses_cons.1 h
    obtain ⟨b₃, hsweep, h⟩ := runPasses_cons.1 h
    cases h
    obtain ⟨rfl, hinlined⟩ := editAll_unchanged hinline
    obtain ⟨rfl, hfolded⟩ := editAll_unchanged hfold
    obtain ⟨rfl, hbody, hswept⟩ := DeadCode.run_unchanged.1 hsweep
    exact ⟨rfl, hinlined, hfolded, hswept, hbody⟩
  · rintro ⟨rfl, h⟩
    refine ⟨b', h.inlined.editAll, runPasses_cons.2 ⟨b', h.folded.editAll, runPasses_cons.2 ⟨b', ?_, rfl⟩⟩⟩
    exact DeadCode.run_unchanged.2 ⟨rfl, h.body, h.swept⟩

theorem apply_of_run {p : Pipeline} (h : p.run (.ofModule m) = .ok (n, b)) :
    p.apply m = b.pruneUnreachable.2.build := by
  rw [apply, h]
  rfl

/-- **What was optimized until nothing changed is not changed by optimizing it again**, if every function that was
assigned to still is. -/
theorem apply_apply (hrun : standard.run (.ofModule m) = .ok (n, b)) (hn : n < standard.maxRounds)
    (happly : standard.apply m = .ok m')
    (hassigned : ∀ f ∈ b.body, f ∈ assigned b → f ∈ assigned (.ofModule m')) :
    standard.apply m' = .ok m' := by
  obtain ⟨b₀, hround⟩ := runRounds_unchanged hrun hn
  obtain ⟨rfl, hstable⟩ := runPasses_standard.1 hround
  rw [apply_of_run hrun] at happly
  obtain ⟨hcomplete, rfl, hvalid⟩ := Builder.build_eq_ok.1 happly
  have hprunes : b.Prunes (.ofModule (b.pruneUnreachable.2.toModule true)) :=
    ⟨rfl, fun _ _ => getElem?_pruneUnreachable⟩
  have hreserved (id : NodeId) : id ∉ b.reserved :=
    not_mem_reserved_of_complete (b := b.pruneUnreachable.2) hcomplete
  have hagain : standard.run (.ofModule (b.pruneUnreachable.2.toModule true)) = .ok (0, _) :=
    runRounds_zero (runPasses_standard.2 ⟨rfl, hstable.prune hprunes hassigned⟩)
  rw [apply_of_run hagain, hprunes.prune_eq hreserved]
  refine Builder.build_eq_ok.2 ⟨?_, rfl, hvalid⟩
  rw [completionError?, or_eq_none_iff] at hcomplete ⊢
  exact ⟨by simp [ofModule], hcomplete.2⟩

/-- A function that is assigned to, a call of it, and an `if` that is never taken. -/
def reassigned : Module :=
  .numbered [.string "a", .returnStmt (some 1), .block [2], .functionDecl ⟨some "k", [], none, 3, false⟩,
    .identifier "k" (some 4), .string "b", .assign .assign 5 6, .exprStmt 7, .identifier "k" (some 4), .call 9 [] false,
    .exprStmt 10, .boolean false, .empty, .ifStmt 12 13 none] [4, 8, 11, 14]

theorem reassigned_apply_apply :
    ∃ m', standard.apply reassigned = .ok m' ∧ m'.nodes.size = 12 ∧ standard.apply m' = .ok m' := by
  have hok : (standard.run (.ofModule reassigned)).toOption.any (fun result => result.1 = 1 ∧
      let b' := result.2.pruneUnreachable.2
      let m' := b'.toModule true
      b'.reserved.isEmpty ∧ (∀ s ∈ b'.body, (b'.kind? s).any Kind.isStatement = true) ∧ m'.isValid ∧
        m'.nodes.size = 12 ∧
        ∀ f ∈ result.2.body, f ∈ assigned result.2 → f ∈ assigned (.ofModule m')) = true := by
    decide +kernel
  obtain ⟨⟨n, b⟩, hrun, hok⟩ := Except.exists_of_any hok
  obtain ⟨rfl, hreserved, hbody, hvalid, hsize, hassigned⟩ := of_decide_eq_true hok
  have hcomplete : b.pruneUnreachable.2.completionError? = none := by
    refine completionError?_eq_none (fun d => by simp_all) fun s hs => ?_
    simpa [Option.any_eq_true] using hbody s hs
  have happly : standard.apply reassigned = .ok (b.pruneUnreachable.2.toModule true) := by
    rw [apply_of_run hrun]
    exact Builder.build_eq_ok.2 ⟨hcomplete, rfl, fun _ => hvalid⟩
  exact ⟨_, happly, hsize, apply_apply hrun (by decide) happly hassigned⟩

end Pipeline

end Retarget
