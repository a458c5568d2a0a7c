import Mathlib.Algebra.Order.Group.Nat
import Mathlib.Data.Set.Insert
import Retarget.Flow.Derive
import Retarget.Proofs.Scope

/-!
# Drawn blocks

While a graph is drawn, every block stands at the place of its id, leads to blocks that have been drawn, to each of
them once, and holds only statements of a given sort. Some of the blocks may be known to lead to each other only, and
to hold no statements of another sort.

* `Drafted P X A draft`: this is so, for the sort `P`, and for the blocks of `A` and the sort `X`.
* `Keeps`: a drawing keeps this, and adds to `A` what is drawn from its blocks.
* `drawStatement_keeps`: drawing a statement does so, if the sort `P` takes in the children of all nodes, and if the
  sort `X` comes from above or from a jump that stands before.
-/

namespace Retarget.Flow

open Draw List Flow.Frame

variable {P X Y : NodeId → Prop} {nodes : NodeTable} {α β : Type} {k k' n : Nat} {A A' : Set Nat} {p q : Prop}
  {draft : Draft}

/-- Blocks stand at their places, lead to each other and hold statements of the sort `P`. -/
structure Fits (P : NodeId → Prop) (draft : Draft) : Prop where
  id_eq : ∀ (i : Nat) (block : Block), draft[i]? = some block → block.id = i
  successor_lt : ∀ block ∈ draft, ∀ s ∈ block.successors, s < draft.length
  successors_nodup : ∀ block ∈ draft, block.successors.Nodup
  statement_mem : ∀ block ∈ draft, ∀ s ∈ block.statements, P s

/-- The block fits at the place `i` among `n` blocks; if that is in `A`, it leads only to `A` and holds no statements of
the sort `X`. -/
structure Block.Fits (P X : NodeId → Prop) (A : Set Nat) (n i : Nat) (block : Block) : Prop where
  id_eq : block.id = i
  successor : ∀ s ∈ block.successors, s < n ∧ (i ∈ A → s ∈ A)
  nodup : block.successors.Nodup
  statement : ∀ s ∈ block.statements, P s ∧ (i ∈ A → ¬X s)

structure Drafted (P X : NodeId → Prop) (A : Set Nat) (draft : Draft) : Prop where
  lt : ∀ i ∈ A, i < draft.length
  block : ∀ (i : Nat) (block : Block), draft[i]? = some block → block.Fits P X A draft.length i

variable {change : Block → Block} {b target block : Nat} {current : Option Nat} {id body : NodeId} {frames : List Frame}
  {stops : NodeId → Prop} {ids : List NodeId} {source : Nat} {fuel : Nat}

namespace Drafted

theorem fits (h : Drafted P X A draft) : Fits P draft := by
  have hget {block : Block} (hb : block ∈ draft) : ∃ i, block.Fits P X A draft.length i := by
    obtain ⟨i, hi⟩ := getElem?_of_mem hb
    exact ⟨i, h.block i block hi⟩
  constructor
  case id_eq => exact fun i block hi => (h.block i block hi).id_eq
  all_goals
    intro block hb
    obtain ⟨i, hblock⟩ := hget hb
  case successor_lt => exact fun s hs => (hblock.successor s hs).1
  case successors_nodup => exact hblock.nodup
  case statement_mem => exact fun s hs => (hblock.statement s hs).1

theorem modify (h : Drafted P X A draft)
    (hchange : ∀ block, block.Fits P X A draft.length source → (change block).Fits P X A draft.length source) :
    Drafted P X A (modify draft source change) := by
  refine ⟨fun i hi => ?_, fun i block hi => ?_⟩ <;> rw [length_modify]
  · exact h.lt i hi
  · rw [getElem?_modify, Option.map_eq_map, Option.map_eq_some_iff] at hi
    obtain ⟨old, hold, rfl⟩ := hi
    have hfits := h.block i old hold
    split
    next heq =>
      subst heq
      exact hchange old hfits
    next => exact hfits

theorem newBlock (h : Drafted P X A draft) (p : Prop) :
    Drafted P X (A ∪ {i | i = draft.length ∧ p}) (draft ++ [⟨draft.length, [], []⟩]) := by
  have hlength : (draft ++ [(⟨draft.length, [], []⟩ : Block)]).length = draft.length + 1 := by simp
  refine ⟨?_, fun i block hi => ?_⟩ <;> rw [hlength]
  · rintro i (hi | ⟨rfl, -⟩)
    · exact (h.lt i hi).trans (Nat.lt_succ_self _)
    · exact Nat.lt_succ_self _
  · rcases lt_trichotomy i draft.length with hlt | rfl | hgt
    · rw [getElem?_append_left hlt] at hi
      have hfits := h.block i block hi
      have hold (hmem : i ∈ A ∪ {i | i = draft.length ∧ p}) : i ∈ A := hmem.resolve_right fun heq => hlt.ne heq.1
      refine ⟨hfits.id_eq, fun s hs => ?_, hfits.nodup, fun s hs => ?_⟩
      · obtain ⟨hs, hmem⟩ := hfits.successor s hs
        exact ⟨hs.trans (Nat.lt_succ_self _), fun hi => .inl (hmem (hold hi))⟩
      · obtain ⟨hs, hnot⟩ := hfits.statement s hs
        exact ⟨hs, fun hi => hnot (hold hi)⟩
    · rw [getElem?_concat_length] at hi
      cases hi
      exact ⟨rfl, nofun, .nil, nofun⟩
    · rw [getElem?_eq_none (by omega)] at hi
      cases hi

end Drafted

/-- The set has grown by blocks from `k` on. -/
structure Widens (k : Nat) (A A' : Set Nat) : Prop where
  subset : A ⊆ A'
  mem_of_lt : ∀ i ∈ A', i < k → i ∈ A

theorem Widens.refl : Widens k A A := ⟨subset_rfl, fun _ hi _ => hi⟩

theorem Widens.trans {A'' : Set Nat} (h : Widens k A A') (hk : k ≤ k') (h' : Widens k' A' A'') : Widens k A A'' :=
  ⟨h.subset.trans h'.subset, fun i hi hlt => h.mem_of_lt i (h'.mem_of_lt i hi (hlt.trans_le hk)) hlt⟩

/-- The block `b` is among the first `k`, and in the set if and only if `p`. -/
structure Marked (k : Nat) (A : Set Nat) (p : Prop) (b : Nat) : Prop where
  lt : b < k
  mem_iff : b ∈ A ↔ p

theorem Marked.mono (h : Marked k A p b) (hk : k ≤ k') (hA : Widens k A A') : Marked k' A' p b :=
  ⟨h.lt.trans_le hk, fun hb => h.mem_iff.1 (hA.mem_of_lt b hb h.lt), fun hp => hA.subset (h.mem_iff.2 hp)⟩

/-- If control goes on, it does so in a block that is in the set only if `p`. -/
def Continues (p : Prop) (current : Option Nat) (k : Nat) (A : Set Nat) : Prop :=
  ∀ b ∈ current, b < k ∧ (b ∈ A → p)

theorem Continues.none : Continues p none k A := fun b hb => by cases hb

theorem Continues.some (h : Marked k A p b) : Continues p (some b) k A := fun b' hb => by
  cases hb
  exact ⟨h.lt, h.mem_iff.1⟩

theorem Continues.imp (h : Continues p current k A) (hpq : p → q) : Continues q current k A :=
  fun b hb => ⟨(h b hb).1, fun hA => hpq ((h b hb).2 hA)⟩

/-- From `k` blocks and the set `A` on, a drawing adds blocks and extends the set; `post` holds of what it gives, the
number of blocks and the set in the end. -/
def Keeps (P X : NodeId → Prop) (k : Nat) (A : Set Nat) (x : Draw α) (post : α → Nat → Set Nat → Prop) : Prop :=
  ∀ draft, draft.length = k → Drafted P X A draft →
    ∃ A', Drafted P X A' (x draft).2 ∧ k ≤ (x draft).2.length ∧ Widens k A A' ∧ post (x draft).1 (x draft).2.length A'

namespace Keeps

variable {x : Draw α} {f : α → Draw β} {post : α → Nat → Set Nat → Prop} {final : β → Nat → Set Nat → Prop}

theorem bind (hx : Keeps P X k A x post)
    (hf : ∀ a k' A', k ≤ k' → Widens k A A' → post a k' A' → Keeps P X k' A' (f a) final) :
    Keeps P X k A (x >>= f) final := by
  intro draft hlen hdraft
  obtain ⟨A₁, hdraft, hk₁, hA₁, hpost⟩ := hx draft hlen hdraft
  obtain ⟨A₂, hdraft, hk₂, hA₂, hfinal⟩ := hf _ _ A₁ hk₁ hA₁ hpost _ rfl hdraft
  exact ⟨A₂, hdraft, hk₁.trans hk₂, hA₁.trans hk₁ hA₂, hfinal⟩

theorem pure {a : α} (h : post a k A) : Keeps P X k A (Pure.pure a) post := by
  rintro draft rfl hdraft
  exact ⟨A, hdraft, le_rfl, .refl, h⟩

theorem and_answer (h : Keeps P X k A x post) {Q : α → Prop} (hQ : ∀ draft, Q (x draft).1) :
    Keeps P X k A x fun a k' A' => post a k' A' ∧ Q a := by
  intro draft hlen hdraft
  obtain ⟨A', hdraft, hk, hA, hpost⟩ := h draft hlen hdraft
  exact ⟨A', hdraft, hk, hA, hpost, hQ draft⟩

theorem newBlock (p : Prop) {f : Nat → Draw β}
    (hf : ∀ A', Widens k A A' → Marked (k + 1) A' p k → Keeps P X (k + 1) A' (f k) final) :
    Keeps P X k A (newBlock >>= f) final := by
  have hnew : Keeps P X k A Draw.newBlock fun b k' A' => b = k ∧ k' = k + 1 ∧ Marked (k + 1) A' p k := by
    rintro draft rfl hdraft
    refine ⟨_, hdraft.newBlock p, by simp [Draw.newBlock], ⟨Set.subset_union_left, ?_⟩, rfl, by simp [Draw.newBlock],
      Nat.lt_succ_self _, ?_, fun hp => .inr ⟨rfl, hp⟩⟩
    · rintro i (hi | ⟨rfl, -⟩) hlt
      · exact hi
      · exact absurd hlt (lt_irrefl _)
    · rintro (hlen | ⟨-, hp⟩)
      · exact absurd (hdraft.lt _ hlen) (lt_irrefl _)
      · exact hp
  refine hnew.bind fun b k' A' _ hA ⟨hb, hk', hmarked⟩ => ?_
  subst hb hk'
  exact hf A' hA hmarked

theorem modify
    (hchange : ∀ block : Block, block.Fits P X A k source → (change block).Fits P X A k source) {f : Unit → Draw β}
    (hf : Keeps P X k A (f ()) final) :
    Keeps P X k A ((modify fun draft : Draft => modify draft source change) >>= f) final := by
  rintro draft rfl hdraft
  exact hf _ (length_modify ..) (hdraft.modify hchange)

theorem edge (hlt : target < k) (h : source ∈ A → target ∈ A) {f : Unit → Draw β}
    (hf : Keeps P X k A (f ()) final) : Keeps P X k A (edge source target >>= f) final := by
  refine modify (fun block hfits => ?_) hf
  split
  next => exact hfits
  next hnew =>
    rw [contains_iff_mem] at hnew
    refine { hfits with successor := fun s hs => ?_, nodup := ?_ }
    · rcases mem_append.1 hs with hs | hs
      · exact hfits.successor s hs
      · rw [mem_singleton.1 hs]
        exact ⟨hlt, h⟩
    · refine nodup_append.2 ⟨hfits.nodup, by simp, fun a ha b hb => ?_⟩
      rw [mem_singleton.1 hb]
      rintro rfl
      exact hnew ha

theorem edgeFrom {source : Option Nat} (hsource : Continues p source k A) (hlt : target < k) (htarget : p → target ∈ A)
    {f : Unit → Draw β} (hf : Keeps P X k A (f ()) final) : Keeps P X k A (edgeFrom source target >>= f) final := by
  cases source with
  | none => exact hf
  | some source => exact edge hlt (fun hmem => htarget ((hsource source rfl).2 hmem)) hf

theorem record (hid : P id) (h : block ∈ A → ¬X id) {f : Unit → Draw β} (hf : Keeps P X k A (f ()) final) :
    Keeps P X k A (record block id >>= f) final := by
  refine modify (fun block hfits => ?_) hf
  refine ⟨hfits.id_eq, hfits.successor, hfits.nodup, fun s hs => ?_⟩
  rcases mem_append.1 hs with hs | hs
  · exact hfits.statement s hs
  · rw [mem_singleton.1 hs]
    exact ⟨hid, h⟩

end Keeps

/-! ## Statements -/

def Frame.targets : Frame → List Nat
  | loop exit next => [exit, next]
  | switch exit => [exit]
  | handler entry => [entry]

/-- The jumps around go to blocks that have been drawn, and if `p`, to blocks of the set. -/
def Jumps (k : Nat) (A : Set Nat) (p : Prop) (frames : List Frame) : Prop :=
  ∀ frame ∈ frames, ∀ b ∈ frame.targets, b < k ∧ (p → b ∈ A)

theorem Jumps.mono (h : Jumps k A p frames) (hk : k ≤ k') (hA : Widens k A A') (hqp : q → p) :
    Jumps k' A' q frames := fun frame hframe b hb =>
  ⟨(h frame hframe b hb).1.trans_le hk, fun hq => hA.subset ((h frame hframe b hb).2 (hqp hq))⟩

attribute [local simp] targets

theorem Jumps.targets (h : Jumps k A p frames) :
    (∀ b ∈ breakTarget? frames, b < k ∧ (p → b ∈ A)) ∧
      (∀ b ∈ continueTarget? frames, b < k ∧ (p → b ∈ A)) ∧
        ∀ b ∈ throwTarget? frames, b < k ∧ (p → b ∈ A) := by
  refine ⟨fun b hb => ?_, fun b hb => ?_, fun b hb => ?_⟩ <;>
  · obtain ⟨frame, hframe, heq⟩ := exists_of_findSome?_eq_some hb
    refine h frame hframe b ?_
    cases frame <;> simp_all

/-- All the given blocks are in the set if and only if `p`, and the jumps around go where they may. -/
structure Around (k : Nat) (A : Set Nat) (p : Prop) (blocks : List Nat) (frames : List Frame) : Prop where
  marked : ∀ b ∈ blocks, Marked k A p b
  jumps : Jumps k A p frames

/-- Drawing a statement of the sort `P` keeps the set. It may be drawn into a block of the set only if it is not of the
sort `Y`, and if the jumps around it go to blocks of the set. -/
def KeepsStatements (P X Y : NodeId → Prop) (draw : DrawStatement) : Prop :=
  ∀ ⦃k A p frames block id⦄, Marked k A p block → Jumps k A p frames → P id ∧ (Y id → ¬p) →
    Keeps P X k A (draw frames block id) (Continues p)

namespace Around

variable {blocks : List Nat} {frames : List Frame} {block : Nat} {final : β → Nat → Set Nat → Prop}

theorem mono (h : Around k A p blocks frames) (hk : k ≤ k') (hA : Widens k A A') : Around k' A' p blocks frames :=
  ⟨fun b hb => (h.marked b hb).mono hk hA, h.jumps.mono hk hA id⟩

variable (h : Around k A p blocks frames)

include h

theorem newBlock {f : Nat → Draw β}
    (hf : ∀ A', Around (k + 1) A' p (k :: blocks) frames → Keeps P X (k + 1) A' (f k) final) :
    Keeps P X k A (newBlock >>= f) final := by
  refine Keeps.newBlock p fun A' hA hnew => hf A' ⟨?_, (h.mono (Nat.le_succ k) hA).jumps⟩
  exact forall_mem_cons.2 ⟨hnew, (h.mono (Nat.le_succ k) hA).marked⟩

theorem newBlocks {γ : Type} (list : List γ) {f : List Nat → Draw β}
    (hf : ∀ new k' A', Around k' A' p (new ++ blocks) frames → Keeps P X k' A' (f new) final) :
    Keeps P X k A (list.mapM (fun _ => Draw.newBlock) >>= f) final := by
  induction list generalizing k A blocks f with
  | nil => exact hf [] k A h
  | cons head tail ih =>
    simp only [mapM_cons, bind_assoc, pure_bind]
    refine h.newBlock fun A₁ h => ih h fun new k₂ A₂ h => hf (k :: new) k₂ A₂ ⟨fun b hb => h.marked b ?_, h.jumps⟩
    simp only [cons_append, mem_cons, mem_append] at hb ⊢
    tauto

theorem edge (hsource : source ∈ blocks) (htarget : target ∈ blocks) {f : Unit → Draw β}
    (hf : Keeps P X k A (f ()) final) : Keeps P X k A (edge source target >>= f) final :=
  .edge (h.marked target htarget).lt
    (fun hmem => (h.marked target htarget).mem_iff.2 ((h.marked source hsource).mem_iff.1 hmem)) hf

theorem edgeFrom {source : Option Nat} (hsource : Continues p source k A) (htarget : target ∈ blocks)
    {f : Unit → Draw β} (hf : Keeps P X k A (f ()) final) : Keeps P X k A (edgeFrom source target >>= f) final :=
  .edgeFrom hsource (h.marked target htarget).lt (h.marked target htarget).mem_iff.2 hf

theorem record (hblock : block ∈ blocks) (hid : P id ∧ (X id → ¬p)) {f : Unit → Draw β}
    (hf : Keeps P X k A (f ()) final) : Keeps P X k A (record block id >>= f) final :=
  .record hid.1 (fun hmem hx => hid.2 hx ((h.marked block hblock).mem_iff.1 hmem)) hf

variable {frame : Frame} {f : Option Nat → Draw β}

theorem under (hframe : ∀ b ∈ frame.targets, b ∈ blocks) : Around k A p blocks (frame :: frames) :=
  ⟨h.marked, forall_mem_cons.2
    ⟨fun b hb => ⟨(h.marked b (hframe b hb)).lt, (h.marked b (hframe b hb)).mem_iff.2⟩, h.jumps⟩⟩

theorem drawUnder {draw : DrawStatement} (hdraw : KeepsStatements P X Y draw) (hblock : block ∈ blocks)
    (hframe : ∀ b ∈ frame.targets, b ∈ blocks) (hid : P id ∧ (Y id → ¬p))
    (hf : ∀ result k' A', Around k' A' p blocks frames → Continues p result k' A' → Keeps P X k' A' (f result) final) :
    Keeps P X k A (draw (frame :: frames) block id >>= f) final :=
  (hdraw (h.marked block hblock) (h.under hframe).jumps hid).bind fun result k' A' hk hA =>
    hf result k' A' (h.mono hk hA)

theorem draw {draw : DrawStatement} (hdraw : KeepsStatements P X Y draw) (hblock : block ∈ blocks)
    (hid : P id ∧ (Y id → ¬p))
    (hf : ∀ result k' A', Around k' A' p blocks frames → Continues p result k' A' → Keeps P X k' A' (f result) final) :
    Keeps P X k A (draw frames block id >>= f) final :=
  (hdraw (h.marked block hblock) h.jumps hid).bind fun result k' A' hk hA => hf result k' A' (h.mono hk hA)

end Around

/-- A statement of the list stands after one of the sort `stops`. -/
def Late (stops : NodeId → Prop) : List NodeId → NodeId → Prop
  | [], _ => False
  | head :: rest, id => stops head ∧ id ∈ rest ∨ Late stops rest id

theorem Late.mem (h : Late stops ids id) : id ∈ ids := by
  induction ids with
  | nil => exact h.elim
  | cons head rest ih => exact mem_cons_of_mem _ (h.elim And.right ih)

theorem Late.ne_head {head : NodeId} {rest : List NodeId} (hnodup : (head :: rest).Nodup)
    (h : Late stops (head :: rest) id) : id ≠ head := by
  rintro rfl
  exact (nodup_cons.1 hnodup).1 (h.elim And.right Late.mem)

theorem Late.mono {stops' : NodeId → Prop} (hstops : ∀ t, stops t → stops' t) (h : Late stops ids id) :
    Late stops' ids id := by
  induction ids with
  | nil => exact h
  | cons head rest ih => exact h.imp (And.imp_left (hstops head)) ih

theorem drawJump_keeps {target : Option Nat} (hblock : Marked k A p block) (hid : P id ∧ (X id → ¬p))
    (htarget : ∀ b ∈ target, b < k ∧ (p → b ∈ A)) : Keeps P X k A (drawJump target block id) (Continues p) := by
  refine .record hid.1 (fun hmem hx => hid.2 hx (hblock.mem_iff.1 hmem)) ?_
  cases target with
  | none => exact .pure .none
  | some target =>
    obtain ⟨hlt, hmem⟩ := htarget target rfl
    exact .edge hlt (fun hin => hmem (hblock.mem_iff.1 hin)) (.pure .none)

section Statements

variable {draw : DrawStatement} (hdraw : KeepsStatements P X Y draw) {frames : List Frame} {block : Nat} {id : NodeId}

include hdraw

theorem drawList_keeps (hstops : ∀ {t}, stops t → ∀ frames block draft, (draw frames block t draft).1 = none)
    (hframes : Jumps k A p frames) (hcurrent : Continues p current k A)
    (hids : ∀ id ∈ ids, P id ∧ (Y id → Continues False current k A ∨ ids.Nodup ∧ Late stops ids id)) :
    Keeps P X k A (drawList draw frames current ids) (Continues p) := by
  induction ids generalizing current k A with
  | nil => exact .pure hcurrent
  | cons head rest ih =>
    -- Once the block of the first statement is known, the rest is drawn from where that statement leads.
    have hdrawn : ∀ {k₁ A₁ q block}, k ≤ k₁ → Widens k A A₁ → Marked k₁ A₁ q block → (q → p) →
        (Continues False current k A → ¬q) →
        Keeps P X k₁ A₁ (draw frames block head >>= fun current => drawList draw frames current rest)
          (Continues p) := by
      intro k₁ A₁ q block hk₁ hA₁ hblock hqp hq
      obtain ⟨hsort, hlate⟩ := hids head mem_cons_self
      have hfirst : Y head → ¬q := fun hy => (hlate hy).elim hq fun hlate =>
        absurd rfl (hlate.2.ne_head hlate.1)
      have hnone : ∀ draft, stops head → (draw frames block head draft).1 = none := fun draft hstop =>
        hstops hstop frames block draft
      have hkeeps := (hdraw hblock (hframes.mono hk₁ hA₁ hqp) ⟨hsort, hfirst⟩).and_answer
        (Q := fun answer => stops head → answer = none) hnone
      refine hkeeps.bind fun current' k₂ A₂ hk₂ hA₂ hanswer => ?_
      obtain ⟨hcontinues, hnone⟩ := hanswer
      refine ih (hframes.mono (hk₁.trans hk₂) (hA₁.trans hk₁ hA₂) id) (hcontinues.imp hqp) fun id hid => ?_
      obtain ⟨hsort, hlate⟩ := hids id (mem_cons_of_mem _ hid)
      refine ⟨hsort, fun hy => ?_⟩
      obtain hdead | ⟨hnodup, ⟨hstop, -⟩ | hlate⟩ := hlate hy
      · exact .inl (hcontinues.imp (hq hdead))
      · rw [hnone hstop]
        exact .inl .none
      · exact .inr ⟨(nodup_cons.1 hnodup).2, hlate⟩
    cases current with
    | none =>
      refine .newBlock False fun A₁ hA₁ hblock => ?_
      exact hdrawn (Nat.le_succ k) hA₁ hblock False.elim fun _ h => h
    | some block =>
      have hblock : Marked k A (block ∈ A) block := ⟨(hcurrent block rfl).1, Iff.rfl⟩
      exact hdrawn le_rfl .refl hblock (hcurrent block rfl).2 fun hdead => (hdead block rfl).2

section

variable (h : Around k A p [block] frames)
include h

theorem drawIf_keeps {consequent : NodeId} {alternate : Option NodeId}
    (hid : P id ∧ (X id → ¬p)) (hconsequent : P consequent ∧ (Y consequent → ¬p))
    (halternate : ∀ a ∈ alternate, P a ∧ (Y a → ¬p)) :
    Keeps P X k A (drawIf draw frames block id consequent alternate) (Continues p) := by
  refine h.record (by simp) hid (h.newBlock fun A₁ h => h.newBlock fun A₂ h => h.edge (by simp) (by simp) ?_)
  refine h.draw hdraw (by simp) hconsequent fun result k₃ A₃ h hresult => ?_
  refine h.edgeFrom hresult (by simp) ?_
  cases alternate with
  | none => exact h.edge (by simp) (by simp) (.pure (.some (h.marked _ (by simp))))
  | some alternate =>
    refine h.newBlock fun A₄ h => h.edge (by simp) (by simp) ?_
    refine h.draw hdraw (by simp) (halternate alternate rfl) fun result k₅ A₅ h hresult => ?_
    exact h.edgeFrom hresult (by simp) (.pure (.some (h.marked _ (by simp))))

theorem drawWhile_keeps (hid : P id ∧ (X id → ¬p)) (hbody : P body ∧ (Y body → ¬p)) :
    Keeps P X k A (drawWhile draw frames block id body) (Continues p) := by
  refine h.newBlock fun A₁ h => h.edge (by simp) (by simp) (h.record (by simp) hid ?_)
  refine h.newBlock fun A₂ h => h.newBlock fun A₃ h => h.edge (by simp) (by simp) (h.edge (by simp) (by simp) ?_)
  refine h.drawUnder hdraw (by simp) (by simp) hbody fun result k₄ A₄ h hresult => ?_
  exact h.edgeFrom hresult (by simp) (.pure (.some (h.marked _ (by simp))))

theorem drawDoWhile_keeps (hid : P id ∧ (X id → ¬p))
    (hbody : P body ∧ (Y body → ¬p)) : Keeps P X k A (drawDoWhile draw frames block id body) (Continues p) := by
  refine h.newBlock fun A₁ h => h.edge (by simp) (by simp) ?_
  refine h.newBlock fun A₂ h => h.record (by simp) hid (h.newBlock fun A₃ h => ?_)
  refine h.drawUnder hdraw (by simp) (by simp) hbody fun result k₄ A₄ h hresult => ?_
  refine h.edgeFrom hresult (by simp) (h.edge (by simp) (by simp) (h.edge (by simp) (by simp) ?_))
  exact .pure (.some (h.marked _ (by simp)))

theorem drawFor_keeps {tested : Bool} (hid : P id ∧ (X id → ¬p))
    (hbody : P body ∧ (Y body → ¬p)) : Keeps P X k A (drawFor draw frames block id tested body) (Continues p) := by
  refine h.newBlock fun A₁ h => h.edge (by simp) (by simp) (h.record (by simp) hid ?_)
  refine h.newBlock fun A₂ h => h.newBlock fun A₃ h => h.newBlock fun A₄ h => h.edge (by simp) (by simp) ?_
  have hrest : Keeps P X (k + 1 + 1 + 1 + 1) A₄ (do
      edgeFrom (← draw (.loop (k + 1) (k + 1 + 1) :: frames) (k + 1 + 1 + 1) body) (k + 1 + 1)
      edge (k + 1 + 1) k
      return some (k + 1)) (Continues p) := by
    refine h.drawUnder hdraw (by simp) (by simp) hbody fun result k₅ A₅ h hresult => ?_
    refine h.edgeFrom hresult (by simp) (h.edge (by simp) (by simp) ?_)
    exact .pure (.some (h.marked _ (by simp)))
  cases tested with
  | false => exact hrest
  | true => exact h.edge (by simp) (by simp) hrest

end

variable {blocks : List Nat} {finalizer handler : Option NodeId} {after join : Nat}

section

variable (hstops : ∀ {t}, stops t → ∀ frames block draft, (draw frames block t draft).1 = none)
include hstops

theorem drawCases_keeps
    {fallthrough : Option Nat} {list : List (NodeId × Nat)} (h : Around k A p blocks frames) (hblock : block ∈ blocks)
    (hlist : ∀ entry ∈ list, entry.2 ∈ blocks) (hfallthrough : Continues p fallthrough k A)
    (hcases : ∀ entry ∈ list, ∀ s ∈ (caseParts nodes entry.1).2, P s ∧
      (Y s → ¬p ∨ (caseParts nodes entry.1).2.Nodup ∧ Late stops (caseParts nodes entry.1).2 s)) :
    Keeps P X k A (drawCases draw nodes frames block fallthrough list) (Continues p) := by
  induction list generalizing fallthrough k A with
  | nil => exact .pure hfallthrough
  | cons entry list ih =>
    obtain ⟨c, caseBlock⟩ := entry
    obtain ⟨hcaseBlock, hlist⟩ := forall_mem_cons.1 hlist
    obtain ⟨hstatements, hcases⟩ := forall_mem_cons.1 hcases
    refine h.edge hblock hcaseBlock (h.edgeFrom hfallthrough hcaseBlock ?_)
    have hcase : Continues p (some caseBlock) k A := .some (h.marked _ hcaseBlock)
    refine (drawList_keeps hdraw hstops h.jumps hcase fun s hs => ?_).bind
      fun fallthrough k₁ A₁ hk₁ hA₁ hfallthrough => ih (h.mono hk₁ hA₁) hlist hfallthrough hcases
    exact (hstatements s hs).imp_right fun hlate hy => (hlate hy).imp_left hcase.imp

theorem drawSwitch_keeps {cases : List NodeId} (h : Around k A p [block] frames) (hid : P id ∧ (X id → ¬p))
    (hcases : ∀ c ∈ cases, ∀ s ∈ (caseParts nodes c).2, P s ∧
      (Y s → ¬p ∨ (caseParts nodes c).2.Nodup ∧ Late stops (caseParts nodes c).2 s)) :
    Keeps P X k A (drawSwitch draw nodes frames block id cases) (Continues p) := by
  refine h.record (by simp) hid (h.newBlock fun A₁ h => h.newBlocks cases fun new k₂ A₂ h => ?_)
  have hswitch : Around k₂ A₂ p (new ++ [k, block]) (.switch k :: frames) := h.under (by simp)
  refine (drawCases_keeps hdraw hstops hswitch (by simp) (fun entry hentry => ?_) .none fun entry hentry =>
    hcases entry.1 (of_mem_zip hentry).1).bind fun fallthrough k₃ A₃ hk₃ hA₃ hfallthrough => ?_
  · exact mem_append_left _ (of_mem_zip hentry).2
  replace h := h.mono hk₃ hA₃
  have hexit : Continues p (some k) k₃ A₃ := .some (h.marked k (by simp))
  refine h.edgeFrom hfallthrough (by simp) ?_
  split
  · exact h.edge (by simp) (by simp) (.pure hexit)
  · exact .pure hexit

end

theorem finalizer_keeps (h : Around k A p blocks frames) (hafter : after ∈ blocks) (hjoin : join ∈ blocks)
    (hfinalizer : ∀ f ∈ finalizer, P f ∧ (Y f → ¬p)) :
    Keeps P X k A (do
      match finalizer with
      | some finalizer => edgeFrom (← draw frames after finalizer) join
      | none => pure ()
      return some join) (Continues p) := by
  cases finalizer with
  | none => exact .pure (.some (h.marked join hjoin))
  | some finalizer =>
    refine h.draw hdraw hafter (hfinalizer finalizer rfl) fun result k₁ A₁ h hresult => ?_
    exact h.edgeFrom hresult hjoin (.pure (.some (h.marked join hjoin)))

theorem guarded_keeps (h : Around k A p blocks frames) (hblock : block ∈ blocks) (hafter : after ∈ blocks)
    (hjoin : join ∈ blocks) (hbody : P body ∧ (Y body → ¬p))
    (hhandler : ∀ c ∈ handler, (P c ∧ (X c → ¬p)) ∧ ∀ b ∈ handlerBody? nodes c, P b ∧ (Y b → ¬p))
    (hfinalizer : ∀ f ∈ finalizer, P f ∧ (Y f → ¬p)) :
    Keeps P X k A (do
      let bodyEntry ← newBlock
      edge block bodyEntry
      match handler with
      | none => edgeFrom (← draw frames bodyEntry body) after
      | some handler =>
        let handlerEntry ← newBlock
        edge bodyEntry handlerEntry
        edgeFrom (← draw (.handler handlerEntry :: frames) bodyEntry body) after
        record handlerEntry handler
        let handlerEnd ← match handlerBody? nodes handler with
          | some body => draw frames handlerEntry body
          | none => pure (some handlerEntry)
        edgeFrom handlerEnd after
      match finalizer with
      | some finalizer => edgeFrom (← draw frames after finalizer) join
      | none => pure ()
      return some join) (Continues p) := by
  refine h.newBlock fun A₁ h => h.edge (by simp [hblock]) (by simp) ?_
  cases handler with
  | none =>
    refine h.draw hdraw (by simp) hbody fun result k₂ A₂ h hresult => h.edgeFrom hresult (by simp [hafter]) ?_
    exact finalizer_keeps hdraw h (by simp [hafter]) (by simp [hjoin]) hfinalizer
  | some handler =>
    obtain ⟨hrecord, hhandlerBody⟩ := hhandler handler rfl
    refine h.newBlock fun A₂ h => h.edge (by simp) (by simp) ?_
    refine h.drawUnder hdraw (by simp) (by simp) hbody fun result k₃ A₃ h hresult => ?_
    refine h.edgeFrom hresult (by simp [hafter]) (h.record (by simp) hrecord ?_)
    cases hb : handlerBody? nodes handler with
    | none =>
      have hpure : Keeps P X k₃ A₃ (pure (some (k + 1))) (Continues p) := .pure (.some (h.marked (k + 1) (by simp)))
      refine hpure.bind fun result k₄ A₄ hk₄ hA₄ hresult => ?_
      replace h := h.mono hk₄ hA₄
      refine h.edgeFrom hresult (by simp [hafter]) ?_
      exact finalizer_keeps hdraw h (by simp [hafter]) (by simp [hjoin]) hfinalizer
    | some handlerBody =>
      refine h.draw hdraw (by simp) (hhandlerBody handlerBody hb) fun result k₄ A₄ h hresult => ?_
      refine h.edgeFrom hresult (by simp [hafter]) ?_
      exact finalizer_keeps hdraw h (by simp [hafter]) (by simp [hjoin]) hfinalizer

theorem drawTry_keeps (h : Around k A p [block] frames) (hid : P id ∧ (X id → ¬p)) (hbody : P body ∧ (Y body → ¬p))
    (hhandler : ∀ c ∈ handler, (P c ∧ (X c → ¬p)) ∧ ∀ b ∈ handlerBody? nodes c, P b ∧ (Y b → ¬p))
    (hfinalizer : ∀ f ∈ finalizer, P f ∧ (Y f → ¬p)) :
    Keeps P X k A (drawTry draw nodes frames block id body handler finalizer) (Continues p) := by
  refine h.record (by simp) hid (h.newBlock fun A₁ h => ?_)
  cases finalizer.isSome with
  | false => exact guarded_keeps hdraw h (by simp) (by simp) (by simp) hbody hhandler hfinalizer
  | true =>
    refine h.newBlock fun A₂ h => ?_
    exact guarded_keeps hdraw h (by simp) (by simp) (by simp) hbody hhandler hfinalizer

end Statements

/-! ## Any statement of a table -/

/-- The statements that a node of this kind runs one after the other. -/
def statementList? : Kind → Option (List NodeId)
  | .block body => some body
  | .switchCase _ consequent => some consequent
  | _ => none

theorem statementList?_sublist {kind : Kind} {list : List NodeId} (h : statementList? kind = some list) :
    list.Sublist kind.childList := by
  cases kind <;> cases h
  · exact .refl _
  · exact sublist_append_right _ _

def IsJump (nodes : NodeTable) (id : NodeId) : Prop := ∃ kind, nodes.kind? id = some kind ∧ kind.isTerminator = true

theorem drawStatement_jump (h : 0 < fuel ∧ IsJump nodes id) (frames : List Frame) (block : Nat)
    (draft : Draft) : (drawStatement nodes fuel frames block id draft).1 = none := by
  have hjump : ∀ target, (drawJump target block id draft).1 = none := fun target => by cases target <;> rfl
  obtain ⟨hfuel, kind, hkind, hstop⟩ := h
  obtain ⟨fuel, rfl⟩ := Nat.exists_eq_succ_of_ne_zero hfuel.ne'
  rw [drawStatement, hkind]
  cases kind with
  | returnStmt | throwStmt | breakStmt | continueStmt => exact hjump _
  | _ => cases hstop

section Table

variable (hsort : ∀ {id c : NodeId} {kind : Kind}, nodes.kind? id = some kind → c ∈ kind.childList → P c)
  (hchild : ∀ {id c : NodeId} {kind : Kind}, nodes.kind? id = some kind → c ∈ kind.childList → X c →
    X id ∨ ∃ list, statementList? kind = some list ∧ list.Nodup ∧ Late (IsJump nodes) list c)

include hsort hchild

attribute [local simp] Kind.childList

/-- **Drawing a statement keeps the set**, if a child is of the sort only if its owner is or if it stands after a jump
in a list of statements. Without fuel, nothing is drawn. -/
theorem drawStatement_keeps : KeepsStatements P X (fun id => 0 < fuel ∧ X id) (drawStatement nodes fuel) := by
  induction fuel with
  | zero => exact fun k A p frames block id hblock _ _ => .pure (.some hblock)
  | succ fuel ih =>
    intro k A p frames block id hblock hframes hid
    replace hid : P id ∧ (X id → ¬p) := ⟨hid.1, fun hx => hid.2 ⟨Nat.succ_pos _, hx⟩⟩
    have haround : Around k A p [block] frames := ⟨by simpa using hblock, hframes⟩
    have hinside : ∀ {kind c}, nodes.kind? id = some kind → statementList? kind = none → c ∈ kind.childList →
        P c ∧ (X c → ¬p) := by
      intro kind c hk hnone hc
      refine ⟨hsort hk hc, fun hx => ?_⟩
      obtain hx | ⟨list, hsome, -⟩ := hchild hk hc hx
      · exact hid.2 hx
      · rw [hnone] at hsome
        cases hsome
    have hstatement : ∀ {kind c}, nodes.kind? id = some kind → statementList? kind = none → c ∈ kind.childList →
        P c ∧ (0 < fuel ∧ X c → ¬p) := fun hk hnone hc =>
      (hinside hk hnone hc).imp_right fun hnot hx => hnot hx.2
    -- The statements of a list, whose owner may be drawn into a block of the set only if it is not of the sort.
    have hitems : ∀ {owner kind list}, nodes.kind? owner = some kind → statementList? kind = some list →
        (X owner → ¬p) → ∀ s ∈ list, P s ∧
          (0 < fuel ∧ X s → ¬p ∨ list.Nodup ∧ Late (fun t => 0 < fuel ∧ IsJump nodes t) list s) := by
      intro owner kind list hk hsome howner s hs
      have hs := (statementList?_sublist hsome).subset hs
      refine ⟨hsort hk hs, fun hx => ?_⟩
      obtain hx' | ⟨list', hsome', hnodup, hlate⟩ := hchild hk hs hx.2
      · exact .inl (howner hx')
      · cases hsome.symm.trans hsome'
        exact .inr ⟨hnodup, hlate.mono fun t ht => ⟨hx.1, ht⟩⟩
    rw [drawStatement]
    split
    next body hk =>
      refine drawList_keeps ih drawStatement_jump hframes (.some hblock) fun s hs => ?_
      exact (hitems hk rfl hid.2 s hs).imp_right fun hlate hx => (hlate hx).imp_left (Continues.some hblock).imp
    next test consequent alternate hk =>
      refine drawIf_keeps ih haround hid (hstatement hk rfl (by simp)) fun a ha =>
        hstatement hk rfl ?_
      cases ha
      simp
    next test body hk => exact drawWhile_keeps ih haround hid (hstatement hk rfl (by simp))
    next iterate binding iterable body hk =>
      exact drawWhile_keeps ih haround hid (hstatement hk rfl (by simp))
    next body test hk => exact drawDoWhile_keeps ih haround hid (hstatement hk rfl (by simp))
    next init test step body hk =>
      exact drawFor_keeps ih haround hid (hstatement hk rfl (by simp))
    next discriminant cases hk =>
      refine drawSwitch_keeps ih drawStatement_jump haround hid fun c hc => ?_
      have hcase : X c → ¬p := (hinside hk rfl (by simp [hc])).2
      rw [caseParts]
      split
      next test consequent hk' => exact hitems hk' rfl hcase
      next => exact fun _ hs => absurd hs not_mem_nil
    next body handler finalizer hk =>
      refine drawTry_keeps ih haround hid (hstatement hk rfl (by simp)) (fun c hc => ?_) fun f hf =>
        hstatement hk rfl ?_
      · cases hc
        have hhandler : P c ∧ (X c → ¬p) := hinside hk rfl (by simp)
        refine ⟨hhandler, fun b hb => ?_⟩
        rw [handlerBody?] at hb
        split at hb
        next param body hk' =>
          cases hb
          refine ⟨hsort hk' (by simp), fun hx => ?_⟩
          obtain hx | ⟨list, hsome, -⟩ := hchild hk' (by simp) hx.2
          · exact hhandler.2 hx
          · cases hsome
        next => cases hb
      · cases hf
        simp
    next => exact drawJump_keeps hblock hid (by simp)
    next => exact drawJump_keeps hblock hid hframes.targets.2.2
    next => exact drawJump_keeps hblock hid hframes.targets.1
    next => exact drawJump_keeps hblock hid hframes.targets.2.1
    next => exact haround.record (by simp) hid (.pure (.some hblock))

/-- What is drawn for a whole body: the first block is in the set. -/
theorem drafted_body (hbody : P body) (hnot : ¬X body) :
    ∃ A, 0 ∈ A ∧ Drafted P X A (drawStatement nodes (nodes.size + 1) [] 0 body (Draw.newBlock []).2).2 := by
  have hempty : Drafted P X ∅ [] := ⟨nofun, nofun⟩
  have hjumps (A : Set Nat) : Jumps 1 A True [] := fun _ hframe => absurd hframe not_mem_nil
  have hkeeps : Keeps P X 0 ∅ (Draw.newBlock >>= fun b => drawStatement nodes (nodes.size + 1) [] b body)
      fun _ _ A => 0 ∈ A := by
    refine .newBlock True fun A _ hfirst draft hlen hdraft => ?_
    obtain ⟨A', hdraft, hk, hA, -⟩ := drawStatement_keeps hsort hchild hfirst (hjumps A)
      ⟨hbody, fun hx => absurd hx.2 hnot⟩ draft hlen hdraft
    exact ⟨A', hdraft, hk, hA, hA.subset (hfirst.mem_iff.2 trivial)⟩
  obtain ⟨A, hdraft, -, -, hfirst⟩ := hkeeps [] rfl hempty
  exact ⟨A, hfirst, hdraft⟩

end Table

end Retarget.Flow
