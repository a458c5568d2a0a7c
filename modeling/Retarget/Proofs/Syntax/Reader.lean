import Retarget.Proofs.Document.Field

/-!
# What readers give

Two ways to speak of a reader, with a rule for every way in which readers are put together.

* `Json.Makes x post`: whatever `x` gives satisfies `post`.
* `Json.Gives x ok a`: `x` gives `a` if `ok`, and nothing if not.
-/

namespace Retarget.Json

open List

variable {α β : Type} {name : String} {value : Json} {fields : Fields} {read : Json → Option α}

/-! ## What is given -/

/-- Whatever a computation gives satisfies `post`. -/
def Makes (x : Option α) (post : α → Prop) : Prop := ∀ a, x = some a → post a

namespace Makes

variable {x : Option α} {f : α → Option β} {g : α → β} {post : α → Prop} {post' : β → Prop}

theorem pure {a : α} (h : post a) : Makes (Pure.pure a) post := by
  intro b hb
  obtain rfl := Option.some.inj hb
  exact h

theorem bind (hx : Makes x post) (hf : ∀ a, post a → Makes (f a) post') : Makes (x >>= f) post' := by
  intro b hb
  obtain ⟨a, ha, hb⟩ := Option.bind_eq_some_iff.1 hb
  exact hf a (hx a ha) b hb

theorem none : Makes Option.none post := by
  intro a ha
  cases ha

theorem any : Makes x fun _ => True := fun _ _ => trivial

theorem skip (hf : ∀ a, Makes (f a) post') : Makes (x >>= f) post' := any.bind fun a _ => hf a

theorem map (hx : Makes x fun a => post' (g a)) : Makes (x.map g) post' := by
  intro b hb
  obtain ⟨a, ha, rfl⟩ := Option.map_eq_some_iff.1 hb
  exact hx a ha

theorem required (h : ∀ v, Makes (read v) post) : Makes (required read name fields) post := by
  unfold Json.required
  split
  case h_1 => exact h _
  case h_2 => exact .none

theorem optional (h : ∀ v, v ≠ .null → Makes (read v) post) :
    Makes (optional read name fields) fun a => ∀ x ∈ a, post x := by
  unfold Json.optional
  split
  case h_1 | h_2 => exact .pure (by simp)
  case h_3 value hnull _ => exact .map fun a ha => by simpa using h value hnull a ha
  case h_4 => exact .none

theorem list (h : ∀ v, Makes (read v) post) : Makes (list? read value) fun l => ∀ a ∈ l, post a := by
  unfold list?
  split
  case h_1 items =>
    induction items with
    | nil => exact .pure (by simp)
    | cons item items ih =>
      rw [mapM_cons]
      refine (h item).bind fun a ha => ih.bind fun l hl => .pure ?_
      exact forall_mem_cons.2 ⟨ha, hl⟩
  case h_2 => exact .none

theorem natBelow {bound : Nat} : Makes (natBelow? bound value) (· < bound) := by
  unfold natBelow?
  split
  case h_1 number =>
    unfold Number.below?
    split
    case h_1 n =>
      split
      case isTrue h => exact .pure h
      case isFalse => exact .none
    case h_2 => exact .none
  case h_2 => exact .none

end Makes

/-! ## When it is given -/

/-- A computation gives `a` if `ok`, and nothing if not. -/
structure Gives (x : Option α) (ok : Prop) (a : α) : Prop where
  of_ok : ok → x = some a
  of_not : ¬ok → x = none

namespace Gives

variable {x : Option α} {f : α → Option β} {g : α → β} {ok ok' : Prop} {a : α} {b : β}

theorem of_eq (h : x = some a) : Gives x True a := ⟨fun _ => h, absurd trivial⟩

theorem pure : Gives (Pure.pure a) True a := .of_eq rfl

theorem congr (h : Gives x ok a) (hiff : ok ↔ ok') : Gives x ok' a :=
  ⟨fun hok => h.of_ok (hiff.2 hok), fun hnot => h.of_not (hiff.not.2 hnot)⟩

theorem bind (hx : Gives x ok a) (hf : Gives (f a) ok' b) : Gives (x >>= f) (ok ∧ ok') b where
  of_ok := by
    rintro ⟨hok, hok'⟩
    rw [hx.of_ok hok]
    exact hf.of_ok hok'
  of_not := by
    intro hnot
    by_cases hok : ok
    · rw [hx.of_ok hok]
      exact hf.of_not fun hok' => hnot ⟨hok, hok'⟩
    · rw [hx.of_not hok]
      rfl

theorem known (hx : x = some a) (hf : Gives (f a) ok' b) : Gives (x >>= f) ok' b :=
  ((of_eq hx).bind hf).congr (by simp)

theorem map (hx : Gives x ok a) : Gives (x.map g) ok (g a) where
  of_ok := by
    intro hok
    rw [hx.of_ok hok]
    rfl
  of_not := by
    intro hnot
    rw [hx.of_not hnot]
    rfl

theorem list {write : α → Json} {l : List α} {ok : α → Prop} (h : ∀ a ∈ l, Gives (read (write a)) (ok a) a) :
    Gives (list? read (.arr (l.map write))) (∀ a ∈ l, ok a) l := by
  induction l with
  | nil => exact Gives.pure.congr (by simp)
  | cons a l ih =>
    obtain ⟨ha, hl⟩ := forall_mem_cons.1 h
    have hread : list? read (.arr ((a :: l).map write)) =
        (read (write a) >>= fun a => list? read (.arr (l.map write)) >>= fun l => Pure.pure (a :: l)) := mapM_cons
    rw [hread]
    refine (ha.bind ((ih hl).bind (b := a :: l) .pure)).congr ?_
    simp

end Gives

/-! ## Depth -/

theorem depth_le_depthFields {field : String × Json} (h : field ∈ fields) : field.2.depth ≤ depthFields fields := by
  induction fields with
  | nil => cases h
  | cons first rest ih =>
    rcases mem_cons.1 h with rfl | h
    · exact Nat.le_max_left ..
    · exact Nat.le_trans (ih h) (Nat.le_max_right ..)

theorem depth_le_depthList {items : List Json} (h : value ∈ items) : value.depth ≤ depthList items := by
  induction items with
  | nil => cases h
  | cons first rest ih =>
    rcases mem_cons.1 h with rfl | h
    · exact Nat.le_max_left ..
    · exact Nat.le_trans (ih h) (Nat.le_max_right ..)

theorem depth_pos : 0 < value.depth := by
  cases value with
  | arr | obj => exact Nat.add_pos_left Nat.one_pos _
  | _ => exact Nat.one_pos

theorem depth_lt_of_find (h : find name fields = .once value) : value.depth < (obj fields).depth := by
  have hmem : ∃ field ∈ fields, field.2 = value := by
    unfold find at h
    split at h
    case h_1 | h_3 => cases h
    case h_2 field hfilter =>
      cases h
      have hfield : field ∈ fields.filter (·.1 == name) := hfilter ▸ mem_singleton_self field
      exact ⟨field, mem_of_mem_filter hfield, rfl⟩
  obtain ⟨field, hfield, rfl⟩ := hmem
  have := depth_le_depthFields hfield
  rw [depth]
  omega

end Retarget.Json
