import Retarget.Proofs.Syntax.Reader
import Retarget.Syntax.Read

/-!
# Positions, names and literals

What a phrase has besides the phrases inside it. The readers make positions whose numbers have the width of the
format (`Pos.InRange`), and these are read back from what was written.

* `Written n record own pos`: a record holds the fields `own`, the position `pos` and nothing that is nested more than
  `n` levels. The rules for its fields follow the readers of phrases.
-/

namespace Retarget

open List Option

namespace Json

variable {α : Type} {name other : String} {write : α → Json} {a : Option α} {before after : Fields}

@[simp]
theorem mem_names_optionalField : name ∈ (optionalField other write a).map Prod.fst ↔ a.isSome ∧ name = other := by
  cases a <;> simp [optionalField]

theorem optional_optionalField {read : Json → Option α} (hbefore : name ∉ before.map Prod.fst)
    (hafter : name ∉ after.map Prod.fst) (hread : ∀ x ∈ a, write x ≠ .null ∧ read (write x) = some x) :
    optional read name (before ++ (optionalField name write a ++ after)) = some a := by
  have hfind : find name (before ++ (optionalField name write a ++ after)) =
      a.elim .absent fun x => .once (write x) := by
    rw [find_append_right hbefore, find, filter_append, filter_of_not_mem hafter]
    cases a <;> simp [optionalField]
  cases a with
  | none =>
    rw [optional, hfind]
    rfl
  | some x =>
    obtain ⟨hnull, hx⟩ := hread x rfl
    rw [optional_of_once hfind hnull, hx]
    rfl

end Json

namespace Syntax

open Json

/-! ## Positions -/

/-- The numbers of a line and a column have the width of the format. -/
structure LineColumn.InRange (p : LineColumn) : Prop where
  line_lt : p.line < 0x100000000
  column_lt : p.column < 0x100000000

structure SourceLocation.InRange (loc : SourceLocation) : Prop where
  start : loc.start.InRange
  stop : loc.stop.InRange

structure Pos.InRange (p : Pos) : Prop where
  loc : ∀ loc ∈ p.loc, loc.InRange
  start_lt : ∀ n ∈ p.start, n < 0x10000000000000000
  stop_lt : ∀ n ∈ p.stop, n < 0x10000000000000000

variable {value : Json} {fields : Fields} {n : Nat} {pos : Pos}

theorem LineColumn.ofJson?_makes : Makes (LineColumn.ofJson? value) InRange :=
  .skip fun _ => (Makes.required fun _ => .natBelow).bind fun _ hline =>
    (Makes.required fun _ => .natBelow).bind fun _ hcolumn => .pure ⟨hline, hcolumn⟩

theorem SourceLocation.ofJson?_makes : Makes (SourceLocation.ofJson? value) InRange :=
  .skip fun _ => (Makes.required fun _ => LineColumn.ofJson?_makes).bind fun _ hstart =>
    (Makes.required fun _ => LineColumn.ofJson?_makes).bind fun _ hstop => .skip fun _ =>
      .pure ⟨hstart, hstop⟩

theorem Pos.ofFields?_makes : Makes (Pos.ofFields? fields) InRange :=
  (Makes.optional fun _ _ => SourceLocation.ofJson?_makes).bind fun _ hloc =>
    (Makes.optional fun _ _ => .natBelow).bind fun _ hstart =>
      (Makes.optional fun _ _ => .natBelow).bind fun _ hstop => .pure ⟨hloc, hstart, hstop⟩

theorem LineColumn.ofJson?_toJson {p : LineColumn} (h : p.InRange) : ofJson? p.toJson = some p := by
  refine bind_eq_some_iff.2 ⟨p.line, natBelow?_ofNat h.line_lt, ?_⟩
  exact bind_eq_some_iff.2 ⟨p.column, natBelow?_ofNat h.column_lt, rfl⟩

theorem SourceLocation.ofJson?_toJson {loc : SourceLocation} (h : loc.InRange) : ofJson? loc.toJson = some loc := by
  obtain ⟨start, stop, source⟩ := loc
  have hstart := LineColumn.ofJson?_toJson h.start
  have hstop := LineColumn.ofJson?_toJson h.stop
  cases source <;>
    exact bind_eq_some_iff.2 ⟨start, hstart, bind_eq_some_iff.2 ⟨stop, hstop, rfl⟩⟩

def Pos.names : List String := ["loc", "start", "end"]

theorem Pos.names_fields (p : Pos) : (p.fields.map Prod.fst).Sublist names := by
  obtain ⟨loc, start, stop⟩ := p
  cases loc <;> cases start <;> cases stop <;> simp [fields, optionalField, names]

theorem Pos.not_mem_fields {p : Pos} {name : String} (h : name ∉ names) : (name, value) ∉ p.fields :=
  fun hmem => h (p.names_fields.subset (mem_map_of_mem hmem))

theorem Pos.ofFields?_append {own : Fields} {p : Pos} (hown : ∀ name ∈ names, name ∉ own.map Prod.fst)
    (h : p.InRange) : ofFields? (own ++ p.fields) = some p := by
  have hloc : optional SourceLocation.ofJson? "loc" (own ++ p.fields) = some p.loc := by
    rw [fields, append_assoc]
    refine optional_optionalField (hown _ (by simp [names])) (by simp) fun loc hloc => ⟨?_, ?_⟩
    · simp [SourceLocation.toJson]
    · exact SourceLocation.ofJson?_toJson (h.loc loc hloc)
  have hstart : optional nat64? "start" (own ++ p.fields) = some p.start := by
    rw [fields, append_assoc, ← append_assoc]
    refine optional_optionalField ?_ (by simp) fun n hn => ⟨?_, natBelow?_ofNat (h.start_lt n hn)⟩
    · simpa using hown "start" (by simp [names])
    · simp [Json.ofNat]
  have hstop : optional nat64? "end" (own ++ p.fields) = some p.stop := by
    rw [fields, ← append_assoc, ← append_nil (optionalField "end" _ _)]
    refine optional_optionalField ?_ (by simp) fun n hn => ⟨?_, natBelow?_ofNat (h.stop_lt n hn)⟩
    · simpa using hown "end" (by simp [names])
    · simp [Json.ofNat]
  exact bind_eq_some_iff.2 ⟨_, hloc, bind_eq_some_iff.2 ⟨_, hstart,
    bind_eq_some_iff.2 ⟨_, hstop, rfl⟩⟩⟩

/-! ## Records -/

/-- A record holds the fields `own` and the position `pos`, and nothing that is nested more than `n` levels. -/
structure Written (n : Nat) (record own : Fields) (pos : Pos) : Prop where
  carries : Carries record own
  pos_eq : Pos.ofFields? record = some pos
  depth_le : (Json.obj record).depth ≤ n + 1

theorem written_record {own : Fields} (hnames : (own.map Prod.fst ++ Pos.names).Nodup)
    (hpos : pos.InRange) (hdepth : (record own pos).depth ≤ n + 1) : Written n (own ++ pos.fields) own pos where
  carries := by
    intro field hfield
    have hnodup : ((own ++ pos.fields).map Prod.fst).Nodup := by
      rw [map_append]
      exact hnames.sublist ((List.Sublist.refl _).append pos.names_fields)
    exact find_of_mem hnodup (mem_append_left _ hfield)
  pos_eq := Pos.ofFields?_append
    (fun name hname hmem => (nodup_append.1 hnames).2.2 name hmem name hname rfl) hpos
  depth_le := hdepth

namespace Written

variable {α β : Type} {n : Nat} {record own : Fields} {pos : Pos} {name : String} {value : Json}
  {read : Json → Option α} {f : α → Option β} {ok ok' : Prop} {a : α} {b : β}

section

variable (h : Written n record ((name, value) :: own) pos)
include h

theorem tail : Written n record own pos :=
  ⟨h.carries.tail, h.pos_eq, h.depth_le⟩

theorem value_depth : value.depth ≤ n := by
  have := depth_lt_of_find h.carries.head
  have := h.depth_le
  omega

theorem part (hpart : value.depth ≤ n → Gives (read value) ok a)
    (hrest : Written n record own pos → Gives (f a) ok' b) : Gives (required read name record >>= f) (ok ∧ ok') b := by
  refine Gives.bind ?_ (hrest h.tail)
  rw [required_of_find h.carries.head]
  exact hpart h.value_depth

theorem data (hread : read value = some a)
    (hrest : Written n record own pos → Gives (f a) ok b) : Gives (required read name record >>= f) ok b :=
  .known ((required_of_find h.carries.head).trans hread) (hrest h.tail)

theorem defaulted {other : α} (hread : read value = some a) (hrest : Written n record own pos → Gives (f a) ok b) :
    Gives (Json.defaulted other read name record >>= f) ok b :=
  .known ((defaulted_of_find h.carries.head).trans hread) (hrest h.tail)

end

theorem position {f : Pos → Option β} (h : Written n record own pos) (hrest : Gives (f pos) ok b) :
    Gives (Pos.ofFields? record >>= f) ok b :=
  .known h.pos_eq hrest

end Written

/-! ## Names, literals and texts of templates -/

theorem Identifier.ofFields?_makes : Makes (Identifier.ofFields? fields) (·.pos.InRange) :=
  .skip fun _ => Pos.ofFields?_makes.bind fun _ hpos => .pure hpos

theorem Identifier.ofJson?_makes : Makes (Identifier.ofJson? value) (·.pos.InRange) :=
  .skip fun _ => Identifier.ofFields?_makes

theorem Identifier.ofFields?_written {record : Fields} {id : Identifier}
    (h : Written n record [("name", .str id.name)] id.pos) : ofFields? record = some id :=
  bind_eq_some_iff.2 ⟨id.name, required_of_find h.carries.head,
    bind_eq_some_iff.2 ⟨id.pos, h.pos_eq, rfl⟩⟩

attribute [local simp] Pos.names

theorem Identifier.ofJson?_toJson {id : Identifier} (h : id.pos.InRange) : ofJson? id.toJson = some id :=
  ofFields?_written (written_record (by simp) h (Nat.le_succ _))

theorem Written.name {β : Type} {record own : Fields} {field : String} {id : Option Identifier}
    {f : Option Identifier → Option β} {ok : Prop} {b : β}
    (h : Written n record ((field, .ofOption Identifier.toJson id) :: own) pos) (hid : ∀ i ∈ id, i.pos.InRange)
    (hrest : Written n record own pos → Gives (f id) ok b) :
    Gives (optional Identifier.ofJson? field record >>= f) ok b := by
  refine .known (optional_of_find h.carries.head (fun i hi => Identifier.ofJson?_toJson (hid i hi)) ?_) (hrest h.tail)
  simp [Identifier.toJson, Syntax.record]

structure Literal.Readable (lit : Literal) : Prop where
  regex_ne : lit.regex ≠ some .null
  pos : lit.pos.InRange

theorem Literal.ofFields?_makes : Makes (Literal.ofFields? fields) Readable := by
  have hregex : Makes (optional some "regex" fields) fun regex => ∀ value ∈ regex, value ≠ .null :=
    .optional fun v hv => .pure hv
  refine .skip fun _ => .skip fun _ => hregex.bind fun regex hregex => ?_
  refine .skip fun _ => Pos.ofFields?_makes.bind fun _ hpos => .pure ⟨?_, hpos⟩
  exact fun hnull => hregex .null hnull rfl

def Literal.own (lit : Literal) : Fields :=
  [("type", .str "Literal"), ("value", lit.value)] ++ optionalField "raw" .str lit.raw ++
    optionalField "regex" id lit.regex ++ optionalField "bigint" .str lit.bigint

theorem Literal.names_own (lit : Literal) : (lit.own.map Prod.fst ++ Pos.names).Nodup := by
  have hsublist : (lit.own.map Prod.fst).Sublist ["type", "value", "raw", "regex", "bigint"] := by
    obtain ⟨value, raw, regex, bigint, pos⟩ := lit
    cases raw <;> cases regex <;> cases bigint <;> simp [own, optionalField]
  have hnodup : (["type", "value", "raw", "regex", "bigint"] ++ Pos.names).Nodup := by decide
  exact hnodup.sublist (hsublist.append (.refl _))

theorem Literal.ofFields?_own {lit : Literal} (h : lit.Readable) :
    ofFields? (lit.own ++ lit.pos.fields) = some lit := by
  have hrecord := written_record lit.names_own h.pos (Nat.le_succ _)
  have hvalue : defaulted .null some "value" (lit.own ++ lit.pos.fields) = some lit.value :=
    defaulted_of_find hrecord.carries.tail.head
  have hraw : optional string? "raw" (lit.own ++ lit.pos.fields) = some lit.raw := by
    rw [own, append_assoc, append_assoc, append_assoc]
    refine optional_optionalField (by simp) ?_ (by simp [string?, asString?])
    simp [Pos.not_mem_fields]
  have hregex : optional some "regex" (lit.own ++ lit.pos.fields) = some lit.regex := by
    rw [own, append_assoc, append_assoc]
    refine optional_optionalField (by simp) ?_ fun value hvalue => ⟨?_, rfl⟩
    · simp [Pos.not_mem_fields]
    · exact fun hnull => h.regex_ne (hvalue.trans (congrArg some hnull))
  have hbigint : optional string? "bigint" (lit.own ++ lit.pos.fields) = some lit.bigint := by
    rw [own, append_assoc]
    refine optional_optionalField (by simp) ?_ (by simp [string?, asString?])
    simp [Pos.not_mem_fields]
  simp only [ofFields?, hvalue, hraw, hregex, hbigint, hrecord.pos_eq]
  rfl

theorem TemplateElement.ofJson?_makes : Makes (TemplateElement.ofJson? value) (·.pos.InRange) :=
  .skip fun _ => .skip fun _ => .skip fun _ => .skip fun _ =>
    .skip fun _ => Pos.ofFields?_makes.bind fun _ hpos => .pure hpos

theorem TemplateElement.ofJson?_toJson {e : TemplateElement} (h : e.pos.InRange) : ofJson? e.toJson = some e := by
  have hrecord := written_record (by simp) h (Nat.le_succ (e.toJson.depth))
  have hcooked : optional string? "cooked" [("raw", .str e.raw), ("cooked", .ofOption .str e.cooked)] =
      some e.cooked := by
    cases e.cooked <;> rfl
  have hgives : Gives (ofJson? e.toJson) True e :=
    .known rfl <| hrecord.data rfl fun hrecord => .known rfl <| .known hcooked <|
      hrecord.defaulted rfl fun hrecord => hrecord.position .pure
  exact hgives.of_ok trivial

end Syntax

end Retarget
