import Mathlib.Order.MinMax
import Mathlib.Order.Nat
import Retarget.Proofs.Builder.Operation
import Retarget.Proofs.Builder.Prune

/-!
# Sessions with a builder

A session is a row of requests to a builder. A request that fails is answered with its error, and the session
goes on.

* `Builder.Change b given b'` is all that a successful request can do, with the id that it gives out.
* `Builder.Ordered seed b`: nodes are stored under their own ids, no id is stored and reserved, all ids lie
  between the seed and the counter, and every reference leads to one of them.
* `Builder.session_ordered`: so it is after every session; the ids that it gives out ascend, requests that
  fail might as well not have been made, and what is built has no reference to nowhere.
-/

namespace Retarget

open Relation List Retarget.Except

namespace Builder

variable {b b' : Builder} {x : NodeId} {seed : NodeId}

variable {y p : NodeId} {kind : Kind} {given : Option NodeId}

/-! ## Requests -/

inductive Request where
  | create (kind : Kind) (e : Envelope)
  | make (making : Making)
  | reserve
  | fill (id : NodeId) (kind : Kind) (e : Envelope)
  | replace (id : NodeId) (kind : Kind)
  | setType (id : NodeId) (type : Option TypeDescriptor)
  | pushStatement (id : NodeId)
  | setBody (body : List NodeId)
  | prune

/-- Does what is asked for, and gives the new id if there is one. -/
def Request.perform : Request → BuildM (Option NodeId)
  | .create kind e => some <$> BuildM.create kind e
  | .make making => some <$> BuildM.make making
  | .reserve => some <$> BuildM.reserve
  | .fill id kind e => (fun _ => none) <$> BuildM.fill id kind e
  | .replace id kind => (fun _ => none) <$> BuildM.replace id kind
  | .setType id type => (fun _ => none) <$> BuildM.setType id type
  | .pushStatement id => (fun _ => none) <$> modify (·.pushStatement id)
  | .setBody body => (fun _ => none) <$> modify (·.setBody body)
  | .prune => (fun _ => none) <$> modify (·.pruneUnreachable.2)

abbrev Answer := Except BuilderError (Option NodeId)

/-- The answer to a request, and the builder as the request leaves it, whether it succeeds or fails. -/
def answer (b : Builder) (request : Request) : Answer × Builder :=
  match request.perform.run b with
  | .ok given b' => (.ok given, b')
  | .error error b' => (.error error, b')

/-- The answers to a row of requests, and the builder in the end. -/
def session (b : Builder) : List Request → List Answer × Builder
  | [] => ([], b)
  | request :: requests =>
    let (first, b) := b.answer request
    let (rest, b) := b.session requests
    (first :: rest, b)

def Answer.given? : Answer → Option NodeId
  | .ok given => given
  | .error _ => none

/-- The requests of a session that do not fail. -/
def accepted (b : Builder) : List Request → List Request
  | [] => []
  | request :: requests =>
    match b.answer request with
    | (.ok _, b') => request :: b'.accepted requests
    | (.error _, b') => b'.accepted requests

/-! ## What a request does -/

/-- All that a successful request can do: the id that it gives out and the builder after it. -/
inductive Change (b : Builder) : Option NodeId → Builder → Prop
  | created {kind : Kind} {e : Envelope} (hfits : b.Fits b.nextId kind) (hroom : b.nextId < idLimit) :
    Change b (some b.nextId) ({ b with nextId := b.nextId + 1 }.store b.nextId kind e)
  | reserved (hroom : b.nextId < idLimit) :
    Change b (some b.nextId) { b with nextId := b.nextId + 1, reserved := b.reserved.insert b.nextId }
  | filled {p : NodeId} {kind : Kind} {e : Envelope} (hp : p ∈ b.reserved) (hfits : b.Fits p kind) :
    Change b none ({ b with reserved := b.reserved.erase p }.store p kind e)
  | edited {p : NodeId} {old new : Node} (hold : b.nodes[p]? = some old) (hid : new.id = old.id)
      (hfits : new.kind = old.kind ∨ b.Fits p new.kind) :
    Change b none { b with nodes := b.nodes.insert p new }
  | listed {body : List NodeId} : Change b none { b with body := body }
  | pruned : Change b none b.pruneUnreachable.2

section Map

variable {α β : Type} {f : α → β} {x : BuildM α} {c : β} {error : BuilderError}

theorem run_map : (f <$> x).run b = match x.run b with
    | .ok a b' => .ok (f a) b'
    | .error error b' => .error error b' := by
  change EStateM.map f x b = match x b with
    | .ok a b' => .ok (f a) b'
    | .error error b' => .error error b'
  rw [EStateM.map]
  cases x b <;> rfl

theorem run_map_eq_ok : (f <$> x).run b = .ok c b' ↔ ∃ a, x.run b = .ok a b' ∧ f a = c := by
  rw [run_map]
  cases x.run b <;> simp [and_comm]

theorem run_map_eq_error : (f <$> x).run b = .error error b' ↔ x.run b = .error error b' := by
  rw [run_map]
  cases x.run b <;> simp

end Map

theorem Change.of_create {e : Envelope} (h : (BuildM.create kind e).run b = .ok x b') : Change b (some x) b' := by
  obtain ⟨hcheck, hroom, rfl, rfl⟩ := create_eq_ok.1 (perform_eq_ok.2 h)
  exact .created (check_ok hcheck) hroom

theorem Request.perform_ok {request : Request} (h : request.perform.run b = .ok given b') : Change b given b' := by
  cases request with
  | create kind e =>
    obtain ⟨p, hcreate, rfl⟩ := run_map_eq_ok.1 h
    exact .of_create hcreate
  | make making =>
    obtain ⟨p, hmake, rfl⟩ := run_map_eq_ok.1 h
    rw [run_make] at hmake
    split at hmake
    · cases hmake
    · exact .of_create hmake
  | reserve =>
    obtain ⟨p, hreserve, rfl⟩ := run_map_eq_ok.1 h
    obtain ⟨hroom, rfl, rfl⟩ := reserve_eq_ok.1 (perform_eq_ok.2 hreserve)
    exact .reserved hroom
  | fill p kind e =>
    obtain ⟨⟨⟩, hfill, rfl⟩ := run_map_eq_ok.1 h
    obtain ⟨hp, hcheck, rfl⟩ := fill_eq_ok.1 (map_perform_eq_ok.2 hfill)
    exact .filled hp (check_ok hcheck)
  | replace p kind =>
    obtain ⟨⟨⟩, hreplace, rfl⟩ := run_map_eq_ok.1 h
    obtain ⟨hcheck, node, hnode, rfl⟩ := replace_eq_ok.1 (map_perform_eq_ok.2 hreplace)
    exact .edited hnode rfl (.inr (check_ok hcheck))
  | setType p type =>
    obtain ⟨⟨⟩, htype, rfl⟩ := run_map_eq_ok.1 h
    obtain ⟨node, hnode, rfl⟩ := setType_eq_ok.1 (map_perform_eq_ok.2 htype)
    exact .edited hnode rfl (.inl rfl)
  | pushStatement p =>
    cases h
    exact .listed
  | setBody body =>
    cases h
    exact .listed
  | prune =>
    cases h
    exact .pruned

/-- **A request that fails leaves the builder as it was.** -/
theorem Request.perform_error {request : Request} {error : BuilderError}
    (h : request.perform.run b = .error error b') : b' = b := by
  cases request with
  | create kind e => exact run_create_error (run_map_eq_error.1 h)
  | make making =>
    replace h := run_map_eq_error.1 h
    rw [run_make] at h
    split at h
    · cases h
      rfl
    · exact run_create_error h
  | reserve =>
    replace h := run_map_eq_error.1 h
    rw [run_reserve] at h
    split at h
    · cases h
    · cases h
      rfl
  | fill p kind e =>
    replace h := run_map_eq_error.1 h
    rw [run_fill] at h
    split at h
    · split at h
      · cases h
        rfl
      · cases h
    · cases h
      rfl
  | replace p kind =>
    replace h := run_map_eq_error.1 h
    rw [run_replace] at h
    split at h
    · cases h
      rfl
    · exact run_update_error h
  | setType p type => exact run_update_error (run_map_eq_error.1 h)
  | pushStatement p | setBody body | prune => cases h

/-! ## The order that is kept -/

def Known (b : Builder) (id : NodeId) : Prop := id ∈ b.nodes ∨ id ∈ b.reserved

/-- Nodes are stored under their own ids, no id is stored and reserved, all ids lie between the seed and the
counter, and every reference leads to one of them. -/
structure Ordered (seed : NodeId) (b : Builder) : Prop where
  keys : b.nodes.KeysMatch
  apart : ∀ id ∈ b.nodes, id ∉ b.reserved
  ranged : ∀ id, b.Known id → seed ≤ id ∧ id < b.nextId
  closed : ∀ (id : NodeId) (node : Node), b.nodes[id]? = some node →
    ∀ r ∈ node.kind.references, b.Known r.target

theorem Fits.known (h : b.Fits p kind) : ∀ r ∈ kind.references, b.Known r.target := by
  intro r hr
  obtain ⟨-, ⟨target, htarget, -⟩ | hreserved⟩ := h r hr
  · obtain ⟨node, hnode, -⟩ := NodeTable.kind?_eq_some.1 htarget
    exact .inl (IdMap.mem_iff.2 ⟨node, hnode⟩)
  · exact .inr hreserved

theorem Ordered.insert {new : Node} (h : b.Ordered seed) (hnodes : b'.nodes = b.nodes.insert p new)
    (hreserved : ∀ id, id ∈ b'.reserved ↔ id ≠ p ∧ id ∈ b.reserved) (hnext : b.nextId ≤ b'.nextId) (hid : new.id = p)
    (hp : seed ≤ p ∧ p < b'.nextId) (hrefs : ∀ r ∈ new.kind.references, b.Known r.target) : b'.Ordered seed := by
  have hmem (id : NodeId) : id ∈ b'.nodes ↔ id = p ∨ id ∈ b.nodes := by
    rw [hnodes, Std.ExtTreeMap.mem_insert, Nat.compare_eq_eq, eq_comm]
  have hknown (id : NodeId) : b'.Known id ↔ id = p ∨ b.Known id := by
    rw [Known, Known, hmem, hreserved]
    tauto
  refine ⟨hnodes ▸ h.keys.insert hid, fun id hin hout => ?_, fun id hin => ?_, fun id node hnode r hr => ?_⟩
  · obtain ⟨hne, hout⟩ := (hreserved id).1 hout
    exact h.apart id (((hmem id).1 hin).resolve_left hne) hout
  · obtain rfl | hin := (hknown id).1 hin
    · exact hp
    · exact ⟨(h.ranged id hin).1, (h.ranged id hin).2.trans_le hnext⟩
  · rw [hnodes, Std.ExtTreeMap.getElem?_insert] at hnode
    refine (hknown _).2 (.inr ?_)
    split at hnode
    next =>
      obtain rfl := Option.some.inj hnode
      exact hrefs r hr
    next => exact h.closed id node hnode r hr

/-- **Pruning keeps the order**: what a live node refers to is live. -/
theorem Ordered.prune (h : b.Ordered seed) : b.pruneUnreachable.2.Ordered seed := by
  have hknown (id : NodeId) (hid : b.pruneUnreachable.2.Known id) : b.Known id :=
    hid.imp_left fun hid => (mem_pruneUnreachable.1 hid).1
  refine ⟨fun id node hnode => ?_, fun id hid => ?_, fun id hid => ?_, fun id node hnode r hr => ?_⟩
  · exact h.keys id node (getElem?_pruneUnreachable.1 hnode).1
  · exact h.apart id (mem_pruneUnreachable.1 hid).1
  · exact h.ranged id (hknown id hid)
  · obtain ⟨hnode, hlive⟩ := getElem?_pruneUnreachable.1 hnode
    have htarget : r.target ∈ b.live := live_of_refers hlive (refers_iff.2 ⟨node, hnode, r, hr, rfl⟩)
    exact (h.closed id node hnode r hr).imp_left fun hdefined => mem_pruneUnreachable.2 ⟨hdefined, htarget⟩

/-- **A request keeps the order.** -/
theorem Change.ordered (h : Change b given b') (hb : b.Ordered seed) (hseed : seed ≤ b.nextId) : b'.Ordered seed := by
  have hfresh : b.nextId ∉ b.reserved := fun hmem => (hb.ranged _ (.inr hmem)).2.ne rfl
  cases h with
  | created hfits hroom =>
    refine hb.insert rfl (fun id => ?_) (Nat.le_succ _) rfl ⟨hseed, Nat.lt_succ_self _⟩ hfits.known
    exact ⟨fun hid => ⟨fun heq => hfresh (heq ▸ hid), hid⟩, And.right⟩
  | reserved hroom =>
    have hknown (id : NodeId) (hid : b.Known id) :
        Known { b with nextId := b.nextId + 1, reserved := b.reserved.insert b.nextId } id :=
      hid.imp_right fun hid => IdSet.mem_insert.2 (.inr hid)
    refine ⟨hb.keys, fun id hin hout => ?_, fun id hid => ?_, fun id node hnode r hr => ?_⟩
    · obtain rfl | hout := IdSet.mem_insert.1 hout
      · exact (hb.ranged _ (.inl hin)).2.ne rfl
      · exact hb.apart id hin hout
    · obtain hin | hin := hid
      · exact ⟨(hb.ranged id (.inl hin)).1, (hb.ranged id (.inl hin)).2.trans (Nat.lt_succ_self _)⟩
      · obtain rfl | hin := IdSet.mem_insert.1 hin
        · exact ⟨hseed, Nat.lt_succ_self _⟩
        · exact ⟨(hb.ranged id (.inr hin)).1, (hb.ranged id (.inr hin)).2.trans (Nat.lt_succ_self _)⟩
    · exact hknown _ (hb.closed id node hnode r hr)
  | filled hp hfits =>
    exact hb.insert rfl (fun id => IdSet.mem_erase) le_rfl rfl (hb.ranged _ (.inr hp)) hfits.known
  | @edited p old new hold hid hfits =>
    have hin : p ∈ b.nodes := IdMap.mem_iff.2 ⟨_, hold⟩
    refine hb.insert rfl (fun id => ?_) le_rfl (hid.trans (hb.keys _ _ hold)) (hb.ranged _ (.inl hin)) ?_
    · exact ⟨fun hid => ⟨fun heq => hb.apart _ hin (heq ▸ hid), hid⟩, And.right⟩
    · obtain hsame | hfits := hfits
      · rw [hsame]
        exact hb.closed _ _ hold
      · exact hfits.known
  | listed => exact ⟨hb.keys, hb.apart, hb.ranged, hb.closed⟩
  | pruned => exact hb.prune

theorem Change.counter (h : Change b given b') :
    given = none ∧ b'.nextId = b.nextId ∨ given = some b.nextId ∧ b'.nextId = b.nextId + 1 ∧ b.nextId < idLimit := by
  cases h with
  | created hfits hroom => exact .inr ⟨rfl, rfl, hroom⟩
  | reserved hroom => exact .inr ⟨rfl, rfl, hroom⟩
  | _ => exact .inl ⟨rfl, rfl⟩

theorem withSeed_ordered (seed : NodeId) : (withSeed seed).Ordered seed where
  keys := fun id node h => by simp [withSeed] at h
  apart := fun id h => by simp [withSeed] at h
  ranged := fun id h => by simp [Known, withSeed] at h
  closed := fun id node h => by simp [withSeed] at h

/-! ## Whole sessions -/

def givenOut (answers : List Answer) : List NodeId := answers.filterMap Answer.given?

/-- What holds after some requests from a builder `b` on: the order is kept, and the ids that were given out
are those between the counter then and now. -/
structure Continued (seed : NodeId) (b : Builder) (answers : List Answer) (b' : Builder) : Prop where
  ordered : b'.Ordered seed
  counted : b'.nextId = b.nextId + (givenOut answers).length
  given : givenOut answers = List.range' b.nextId (givenOut answers).length
  limited : b'.nextId ≤ max b.nextId idLimit

theorem answer_eq_error {request : Request} {error : BuilderError} (h : b.answer request = (.error error, b')) :
    b' = b := by
  rw [answer] at h
  split at h
  next => cases h
  next hrun =>
    cases h
    exact Request.perform_error hrun

theorem answer_continued (request : Request) (hb : b.Ordered seed) (hseed : seed ≤ b.nextId) :
    Continued seed b [(b.answer request).1] (b.answer request).2 := by
  cases hanswer : b.answer request with
  | mk first b' =>
    cases first with
    | error error =>
      rw [answer_eq_error hanswer]
      exact ⟨hb, rfl, rfl, le_max_left _ _⟩
    | ok given =>
      have hchange : Change b given b' := by
        rw [answer] at hanswer
        split at hanswer
        next hrun =>
          cases hanswer
          exact Request.perform_ok hrun
        next => cases hanswer
      have hordered : b'.Ordered seed := hchange.ordered hb hseed
      obtain ⟨rfl, hnext⟩ | ⟨rfl, hnext, hroom⟩ := hchange.counter
      · exact ⟨hordered, hnext, rfl, hnext.le.trans (le_max_left _ _)⟩
      · exact ⟨hordered, hnext, rfl, hnext.le.trans (Nat.le_trans hroom (le_max_right _ _))⟩

theorem Continued.trans {first second : List Answer} {b₁ b₂ : Builder} (h : Continued seed b first b₁)
    (h' : Continued seed b₁ second b₂) : Continued seed b (first ++ second) b₂ := by
  have happend : givenOut (first ++ second) = givenOut first ++ givenOut second := filterMap_append
  refine ⟨h'.ordered, ?_, ?_, ?_⟩
  · rw [happend, length_append, h'.counted, h.counted, Nat.add_assoc]
  · rw [happend, length_append, ← List.range'_append_1, ← h.given, ← h.counted, ← h'.given]
  · exact h'.limited.trans (max_le h.limited (le_max_right _ _))

theorem session_continued (requests : List Request) (hb : b.Ordered seed) (hseed : seed ≤ b.nextId) :
    Continued seed b (b.session requests).1 (b.session requests).2 := by
  induction requests generalizing b with
  | nil => exact ⟨hb, rfl, rfl, le_max_left _ _⟩
  | cons request requests ih =>
    have hfirst := answer_continued request hb hseed
    exact hfirst.trans (ih hfirst.ordered (hseed.trans (hfirst.counted ▸ Nat.le_add_right _ _)))

theorem session_accepted (b : Builder) (requests : List Request) :
    givenOut (b.session (b.accepted requests)).1 = givenOut (b.session requests).1 ∧
      (b.session (b.accepted requests)).2 = (b.session requests).2 := by
  induction requests generalizing b with
  | nil => exact ⟨rfl, rfl⟩
  | cons request requests ih =>
    rw [accepted]
    split
    next given b' hanswer =>
      simp only [session, hanswer, givenOut, filterMap_cons]
      obtain ⟨hgiven, hend⟩ := ih b'
      rw [givenOut] at hgiven
      rw [hgiven]
      exact ⟨rfl, hend⟩
    next error b' hanswer =>
      obtain rfl := answer_eq_error hanswer
      simp only [session, hanswer, givenOut, filterMap_cons]
      exact ih _

/-- **Sessions keep builders in order**, and what is built after one has no reference to nowhere. The ids that
are given out are those from the seed on, each of them once; they stay below the limit. A request that fails
changes nothing, and without it all the others go the same way. -/
theorem session_ordered (seed : NodeId) (requests : List Request) :
    let (answers, b) := (withSeed seed).session requests
    b.Ordered seed ∧
    ((givenOut answers).Pairwise (· < ·) ∧
      givenOut answers = List.range' seed (b.nextId - seed) ∧ ∀ id ∈ givenOut answers, id < idLimit) ∧
    ((∀ request error b', b.answer request = (.error error, b') → b' = b) ∧
      ∀ more, givenOut (b.session (b.accepted more)).1 = givenOut (b.session more).1 ∧
        (b.session (b.accepted more)).2 = (b.session more).2) ∧
    ∀ options m, b.build options = .ok m →
      ∀ (id : NodeId) (node : Node), m.nodes[id]? = some node →
        ∀ r ∈ node.kind.references, r.target ∈ m.nodes := by
  have h := session_continued requests (withSeed_ordered seed) le_rfl
  have hlength : (givenOut ((withSeed seed).session requests).1).length =
      ((withSeed seed).session requests).2.nextId - seed := by
    rw [h.counted]
    exact (Nat.add_sub_cancel_left ..).symm
  refine ⟨h.ordered, ⟨?_, ?_, fun id hid => ?_⟩, ⟨fun _ _ _ => answer_eq_error, session_accepted _⟩, ?_⟩
  · rw [h.given]
    exact pairwise_lt_range'
  · rw [← hlength]
    exact h.given
  · rw [h.given, mem_range'_1, ← h.counted] at hid
    exact (lt_max_iff.1 (hid.2.trans_le h.limited)).resolve_left (not_lt.2 hid.1)
  · intro options m hm id node hnode r hr
    obtain ⟨hcomplete, rfl, -⟩ := build_eq_ok.1 hm
    exact (h.ordered.closed id node hnode r hr).resolve_right (not_mem_reserved_of_complete hcomplete)

end Builder

end Retarget
