import Retarget.Proofs.Document.Annotation

/-!
# Nodes in documents

The fields of every kind of node have the names and types of the table of kinds, and the reader of the kind gives back
what was written (`Kind.restores`). As the names of a kind differ from each other and
from those that every node may have, no field hides another one; so nodes are read back (`Node.ofJson?_toJson`) and
pass the check of their shape (`Node.nodeProblems_toJson`).
-/

namespace Retarget

open Json Shape List Option

/-! ## Ids that have the width of the format -/

namespace Reference

variable {bound : Nat} {field : String} {category : Category}

theorem forall_one {target : NodeId} : (∀ r ∈ one field target category, r.target < bound) ↔ target < bound :=
  forall_mem_singleton

variable {target : Option NodeId}

theorem forall_opt : (∀ r ∈ opt field target category, r.target < bound) ↔ ∀ id ∈ target, id < bound := by
  simp [opt]

theorem forall_cross : (∀ r ∈ cross field target category, r.target < bound) ↔ ∀ id ∈ target, id < bound := by
  simp [cross]

theorem forall_mapIdx {α : Type} {f : Nat → α → Reference} {g : α → NodeId} (hf : ∀ i a, (f i a).target = g a)
    {l : List α} : (∀ r ∈ l.mapIdx f, r.target < bound) ↔ ∀ a ∈ l, g a < bound := by
  constructor
  · intro h a ha
    obtain ⟨i, hi, rfl⟩ := getElem_of_mem ha
    rw [← hf i]
    exact h _ (mem_mapIdx.2 ⟨i, hi, rfl⟩)
  · intro h r hr
    obtain ⟨i, hi, rfl⟩ := mem_mapIdx.1 hr
    rw [hf]
    exact h _ (getElem_mem hi)

theorem forall_many {targets : List NodeId} :
    (∀ r ∈ many field targets category, r.target < bound) ↔ ∀ id ∈ targets, id < bound :=
  forall_mapIdx (g := id) fun _ _ => rfl

theorem forall_items {list : List ListItem} :
    (∀ r ∈ items field list, r.target < bound) ↔ ∀ item ∈ list, item.value < bound :=
  forall_mapIdx (g := ListItem.value) fun _ _ => rfl

end Reference

open Reference (forall_one forall_opt forall_cross forall_many forall_items)

/-! ## Fields and their types -/

namespace Shape

/-- Fields with the names of a table, whose values go with their names and the types of the table. -/
inductive Aligned (P : String → FieldType → Json → Prop) : FieldTable → Fields → Prop
  | nil : Aligned P [] []
  | cons {name type value table fields} (h : P name type value) (rest : Aligned P table fields) :
    Aligned P ((name, type) :: table) ((name, value) :: fields)

section

variable {α β : Type} {name : String} {type : FieldType} {value : Json} {table : FieldTable} {fields : Fields} {a : α}
  {b : β} {get : String → Fields → Option α}

/-- The fields are those of a table, and `read` makes `a` of every record that carries them. -/
structure Restores (table : FieldTable) (fields : Fields) (read : Fields → Option α) (a : α) : Prop where
  ofTable : Aligned (fun _ => Fits) table fields
  read_eq : ∀ record, Carries record fields → read record = some a

theorem Restores.nil : Restores [] [] (fun _ => some a) a := ⟨.nil, fun _ _ => rfl⟩

theorem get_bind {record : Fields} {f : α → Option β} (h : Holds type value get a)
    (hf : Carries record ((name, value) :: fields)) (hrest : Carries record fields → f a = some b) :
    (get name record >>= f) = some b :=
  bind_eq_some_iff.2 ⟨a, h.get_eq hf.head, hrest hf.tail⟩

theorem Restores.cons {f : α → Fields → Option β} (h : Holds type value get a) (rest : Restores table fields (f a) b) :
    Restores ((name, type) :: table) ((name, value) :: fields) (fun record => get name record >>= fun a => f a record)
      b :=
  ⟨.cons h.fits rest.ofTable, fun record hf => get_bind h hf (rest.read_eq record)⟩

theorem Restores.map {read : Fields → Option α} {g : α → β} (h : Restores table fields read a) :
    Restores table fields (fun record => read record >>= fun a => some (g a)) (g a) :=
  ⟨h.ofTable, fun record hf => bind_eq_some_iff.2 ⟨a, h.read_eq record hf, rfl⟩⟩

end

end Shape

/-! ## Functions, classes and their summaries -/

theorem FunctionNode.restores {f : FunctionNode} (h : ∀ r ∈ f.references, r.target < 0x100000000) :
    Restores Shape.function f.fields ofFields? f := by
  simp only [references, forall_mem_append, forall_one, forall_opt, forall_many] at h
  exact .cons (holds_optText _) <| .cons (holds_ids h.1.1) <| .cons (holds_optId h.1.2) <| .cons (holds_id h.2) <|
    .cons holds_flag .nil

theorem ClassNode.restores {c : ClassNode} (h : ∀ r ∈ c.references, r.target < 0x100000000) :
    Restores classLike c.fields ofFields? c := by
  simp only [references, forall_mem_append, forall_one, forall_opt, forall_many] at h
  obtain ⟨⟨⟨⟨⟨hsuper, hconstructor⟩, hmethods⟩, hstatic⟩, hmetadata⟩, hprototype⟩ := h
  exact .cons holds_text <| .cons (holds_optId hsuper) <| .cons (holds_id hconstructor) <|
    .cons (holds_ids hmethods) <| .cons (holds_ids hstatic) <| .cons (holds_id hmetadata) <|
    .cons (holds_id hprototype) .nil

/-! ## Kinds -/

namespace Kind

variable {kind : Kind}

def InRange (kind : Kind) : Prop := ∀ r ∈ kind.references, r.target < 0x100000000

def IsFinite (kind : Kind) : Prop := ∀ x, kind = .number x → x.isFinite = true

/-- **The fields of a kind are those of the table of kinds**, with values of their types, and the reader of the kind
gives it back, whatever else is in the record. -/
theorem restores (h : kind.InRange) (hfinite : kind.IsFinite) : ∃ table fields, fieldsOf? kind.name = some table ∧
    fields.Perm kind.fields ∧ Restores table fields (ofFields? kind.name) kind := by
  cases kind <;> try simp only [InRange, references, forall_mem_append, forall_one, forall_opt, forall_cross,
    forall_many, forall_items] at h
  case method key value kind isStatic home =>
    obtain ⟨hvalue, hhome⟩ := h
    refine ⟨_, _, rfl, .refl _, .cons holds_text.fits <| .cons (holds_id hvalue).fits <|
      .cons (holds_word fun w => by cases w <;> rfl).fits <| .cons holds_flag.fits <|
      .cons (holds_optId hhome).fits .nil, fun record hf => ?_⟩
    -- The word of the kind of method is read before the other fields.
    have hword : Carries record [("methodKind", .str kind.word)] := forall_mem_singleton.2 hf.tail.tail.head
    exact get_bind (holds_word fun w => by cases w <;> rfl) hword fun _ => get_bind holds_text hf fun hf =>
      get_bind (holds_id hvalue) hf fun hf => get_bind holds_flag hf.tail fun hf =>
      get_bind (holds_optId hhome) hf fun _ => rfl
  case doWhile =>
    exact ⟨_, _, rfl, .swap .., .cons (holds_id h.1).fits <| .cons (holds_id h.2).fits .nil, fun record hf =>
      get_bind (holds_id h.2) hf.tail fun _ => get_bind (holds_id h.1) hf fun _ => rfl⟩
  all_goals refine ⟨_, _, rfl, .refl _, ?_⟩
  case number => exact .cons (holds_number (hfinite _ rfl)) .nil
  case string | parameter | prototype => exact .cons holds_text .nil
  case boolean => exact .cons holds_flag .nil
  case null | undefined | thisExpr | superExpr | empty | breakStmt | continueStmt => exact .nil
  case template | object | sequence | block => exact .cons (holds_ids h) .nil
  case templateElement => exact .cons holds_text <| .cons holds_text .nil
  case identifier | declarator => exact .cons holds_text <| .cons (holds_optId h) .nil
  case binary | logical | assign =>
    exact .cons (holds_word fun w => by cases w <;> rfl) <| .cons (holds_id h.1) <|
      .cons (holds_id h.2) .nil
  case unary => exact .cons (holds_word fun w => by cases w <;> rfl) <| .cons (holds_id h) .nil
  case update =>
    exact .cons (holds_word fun w => by cases w <;> rfl) <| .cons holds_flag <|
      .cons (holds_id h) .nil
  case conditional => exact .cons (holds_id h.1.1) <| .cons (holds_id h.1.2) <| .cons (holds_id h.2) .nil
  case call | newExpr => exact .cons (holds_id h.1) <| .cons (holds_items h.2) <| .cons holds_flag .nil
  case member | property => exact .cons (holds_id h.1) <| .cons (holds_id h.2) <| .cons holds_flag .nil
  case array => exact .cons (holds_items h) <| .cons holds_flag .nil
  case spread | awaitExpr | rest | exprStmt | throwStmt => exact .cons (holds_id h) .nil
  case functionExpr | arrow | functionDecl => exact (FunctionNode.restores h).map
  case classExpr | classDecl => exact (ClassNode.restores h).map
  case variableDecl => exact .cons (holds_word fun w => by cases w <;> rfl) <| .cons (holds_ids h) .nil
  case classMetadata summary =>
    have hsummary : Restores _ summary.fields ClassSummary.ofFields? summary :=
      .cons (holds_optText _) <| .cons holds_flag <| .cons (holds_texts _) <| .cons (holds_texts _) <|
        .cons (holds_texts _) <| .cons (holds_texts _) .nil
    exact hsummary.map
  case ifStmt => exact .cons (holds_id h.1.1) <| .cons (holds_id h.1.2) <| .cons (holds_optId h.2) .nil
  case forStmt =>
    exact .cons (holds_optId h.1.1.1) <| .cons (holds_optId h.1.1.2) <|
      .cons (holds_optId h.1.2) <| .cons (holds_id h.2) .nil
  case forEach =>
    exact .cons (holds_word fun w => by cases w <;> rfl) <| .cons (holds_id h.1.1) <|
      .cons (holds_id h.1.2) <| .cons (holds_id h.2) .nil
  case whileStmt => exact .cons (holds_id h.1) <| .cons (holds_id h.2) .nil
  case returnStmt => exact .cons (holds_optId h) .nil
  case tryStmt => exact .cons (holds_id h.1.1) <| .cons (holds_optId h.1.2) <| .cons (holds_optId h.2) .nil
  case catchClause => exact .cons (holds_optId h.1) <| .cons (holds_id h.2) .nil
  case switchStmt => exact .cons (holds_id h.1) <| .cons (holds_ids h.2) .nil
  case switchCase => exact .cons (holds_optId h.1) <| .cons (holds_ids h.2) .nil

end Kind

/-! ## Nodes -/

variable {name : String}

namespace Shape

variable {table : FieldTable} {fields : Fields} {P : String → FieldType → Json → Prop}

theorem Aligned.names_eq (h : Aligned P table fields) : table.map Prod.fst = fields.map Prod.fst := by
  induction h with
  | nil => rfl
  | cons _ _ ih => rw [map_cons, map_cons, ih]

theorem Aligned.exists_value (h : Aligned P table fields) {type : FieldType} (hmem : (name, type) ∈ table) :
    ∃ value, (name, value) ∈ fields ∧ P name type value := by
  induction h with
  | nil => cases hmem
  | @cons _ _ value _ _ h _ ih =>
    rcases mem_cons.1 hmem with heq | hmem
    · cases heq
      exact ⟨value, mem_cons_self, h⟩
    · exact (ih hmem).imp fun _ => .imp_left (mem_cons_of_mem _)

theorem names_nodup (h : fieldsOf? name = some table) :
    (["id", "kind"] ++ table.map Prod.fst ++ ["span", "type", "synthetic"]).Nodup := by
  have hall : ∀ entry ∈ kinds,
      (["id", "kind"] ++ entry.2.map Prod.fst ++ ["span", "type", "synthetic"]).Nodup := by decide +kernel
  obtain ⟨entry, hentry, rfl⟩ := map_eq_some_iff.1 h
  exact hall entry (mem_of_find?_eq_some hentry)

theorem mem_names (h : fieldsOf? name = some table) : name ∈ Kind.names := by
  obtain ⟨entry, hentry, -⟩ := map_eq_some_iff.1 h
  have hname := List.find?_some hentry
  rw [← eq_of_beq hname]
  exact mem_map_of_mem (mem_of_find?_eq_some hentry)

end Shape

/-- The numbers of a node have the width of the format, and its type is sorted. -/
structure Node.InRange (node : Node) : Prop where
  id_lt : node.id < 0x100000000
  kind : node.kind.InRange
  span : ∀ s ∈ node.span, s.InRange
  type : ∀ t ∈ node.type, t.Sorted

namespace Node

variable {node : Node}

def marks (node : Node) : Fields :=
  optionalField "span" Span.toJson node.span ++ optionalField "type" TypeDescriptor.toJson node.type ++
    if node.synthetic then [("synthetic", .bool true)] else []

def core (node : Node) : Fields := [("id", .ofNat node.id), ("kind", .str node.kind.name)] ++ node.kind.fields

def record (node : Node) : Fields := node.core ++ node.marks

theorem toJson_eq : node.toJson = .obj node.record := by
  simp only [toJson, record, core, marks, append_assoc]

theorem names_marks (node : Node) : (node.marks.map Prod.fst).Sublist ["span", "type", "synthetic"] := by
  obtain ⟨id, kind, span, type, synthetic⟩ := node
  cases span <;> cases type <;> cases synthetic <;> simp [marks, optionalField]

theorem record_nodup_of_names
    (h : (["id", "kind"] ++ node.kind.fields.map Prod.fst ++ ["span", "type", "synthetic"]).Nodup) :
    (node.record.map Prod.fst).Nodup := by
  have hsublist := (List.Sublist.refl (["id", "kind"] ++ node.kind.fields.map Prod.fst)).append (names_marks node)
  simpa [record, core] using h.sublist hsublist

section

variable (h : node.kind.InRange) (hfinite : node.kind.IsFinite)

include h hfinite

theorem names_nodup : (["id", "kind"] ++ node.kind.fields.map Prod.fst ++ ["span", "type", "synthetic"]).Nodup := by
  obtain ⟨table, fields, htable, hperm, hrestores⟩ := Kind.restores h hfinite
  have hnodup := Shape.names_nodup htable
  rw [hrestores.ofTable.names_eq] at hnodup
  have hperm := ((hperm.map Prod.fst).append_left ["id", "kind"]).append_right ["span", "type", "synthetic"]
  exact hperm.nodup_iff.1 hnodup

theorem record_nodup : (node.record.map Prod.fst).Nodup := record_nodup_of_names (names_nodup h hfinite)

section

variable (hname : name ∈ ["span", "type", "synthetic"])
include hname

theorem mark_not_mem : name ∉ node.core.map Prod.fst := by
  exact fun hmem => (nodup_append.1 (names_nodup h hfinite)).2.2 name hmem name hname rfl

theorem find_mark : find name node.record = find name node.marks :=
  find_append_right (mark_not_mem h hfinite hname)

theorem lookup?_mark : lookup? name node.record = lookup? name node.marks :=
  lookup?_append_right (mark_not_mem h hfinite hname)

end

theorem carries_fields : Carries node.record node.kind.fields := by
  intro field hfield
  exact find_of_mem (record_nodup h hfinite) (mem_append_left _ (mem_append_right _ hfield))

theorem read?_record : Kind.read? true node.record = some node.kind := by
  obtain ⟨table, fields, htable, hperm, hrestores⟩ := Kind.restores h hfinite
  have hfind : find "kind" node.record = .once (.str node.kind.name) :=
    find_of_mem (record_nodup h hfinite) (mem_cons_of_mem _ mem_cons_self)
  refine bind_eq_some_iff.2 ⟨node.kind.name, (required_of_find hfind).trans ?_, ?_⟩
  · exact if_pos (contains_iff_mem.2 (mem_names htable))
  · exact hrestores.read_eq _ fun field hfield => carries_fields h hfinite field (hperm.mem_iff.1 hfield)

end

theorem find_span : find "span" node.marks = node.span.elim .absent fun span => .once span.toJson := by
  obtain ⟨id, kind, span, type, synthetic⟩ := node
  cases span <;> cases type <;> cases synthetic <;> rfl

theorem find_type : find "type" node.marks = node.type.elim .absent fun type => .once type.toJson := by
  obtain ⟨id, kind, span, type, synthetic⟩ := node
  cases span <;> cases type <;> cases synthetic <;> rfl

/-- **Nodes are read back.** -/
theorem ofJson?_toJson (h : node.InRange) (hfinite : node.kind.IsFinite) : ofJson? node.toJson = some node := by
  have hid : find "id" node.record = .once (.ofNat node.id) :=
    find_of_mem (record_nodup h.kind hfinite) mem_cons_self
  have hspan : Json.optional Span.ofJson? "span" node.record = some node.span :=
    optional_of_elim ((find_mark h.kind hfinite (by decide)).trans node.find_span)
      (fun span hmem => Span.ofJson?_toJson (h.span span hmem)) fun span heq => by cases heq
  have htype : Json.optional TypeDescriptor.ofJson? "type" node.record = some node.type :=
    optional_of_elim ((find_mark h.kind hfinite (by decide)).trans node.find_type)
      (fun type hmem => TypeDescriptor.ofJson?_toJson (h.type type hmem)) fun type heq => by cases type <;> cases heq
  have hsynthetic : defaulted false bool? "synthetic" node.record = some node.synthetic := by
    rw [defaulted, find_mark h.kind hfinite (by decide)]
    obtain ⟨id, kind, span, type, synthetic⟩ := node
    cases span <;> cases type <;> cases synthetic <;> rfl
  rw [toJson_eq]
  refine bind_eq_some_iff.2 ⟨node.id, (required_of_find hid).trans (natBelow?_ofNat h.id_lt), ?_⟩
  refine bind_eq_some_iff.2 ⟨node.kind, read?_record h.kind hfinite, ?_⟩
  refine bind_eq_some_iff.2 ⟨node.span, hspan, ?_⟩
  refine bind_eq_some_iff.2 ⟨node.type, htype, ?_⟩
  exact bind_eq_some_iff.2 ⟨node.synthetic, hsynthetic, rfl⟩

theorem name_mem {field : String × Json} (h : field ∈ node.record) :
    field.1 ∈ envelope ++ node.kind.fields.map Prod.fst := by
  rcases mem_append.1 h with hcore | hmark
  · rcases mem_append.1 hcore with hhead | hfield
    · have hsubset : ["id", "kind"] ⊆ envelope := by decide
      exact mem_append_left _ (hsubset (mem_map_of_mem hhead))
    · exact mem_append_right _ (mem_map_of_mem hfield)
  · have hsubset : ["span", "type", "synthetic"] ⊆ envelope := by decide
    exact mem_append_left _ (hsubset ((names_marks node).subset (mem_map_of_mem hmark)))

theorem envelopeProblems_record (h : node.kind.InRange) (hfinite : node.kind.IsFinite) (path : String) :
    envelopeProblems path node.record = [] := by
  simp only [envelopeProblems, lookup?_mark h hfinite (mem_cons_self),
    lookup?_mark h hfinite (mem_cons_of_mem _ mem_cons_self),
    lookup?_mark h hfinite (mem_cons_of_mem _ (mem_cons_of_mem _ mem_cons_self))]
  obtain ⟨id, kind, span, type, synthetic⟩ := node
  cases type with
  | none => cases span <;> cases synthetic <;> rfl
  | some type => cases type <;> cases span <;> cases synthetic <;> rfl

theorem kindProblems_record (h : node.kind.InRange) (hfinite : node.kind.IsFinite) (path : String) :
    kindProblems path node.record = [] := by
  obtain ⟨table, fields, htable, hperm, hrestores⟩ := Kind.restores h hfinite
  have hkind : lookup? "kind" node.record = some (.str node.kind.name) := rfl
  simp only [kindProblems, hkind, htable]
  refine append_eq_nil_iff.2 ⟨flatMap_eq_nil_iff.2 fun entry hentry => ?_, ?_⟩
  · obtain ⟨value, hvalue, hfits⟩ := hrestores.ofTable.exists_value hentry
    have hmem : (entry.1, value) ∈ node.record :=
      mem_append_left _ (mem_append_right _ (hperm.mem_iff.1 hvalue))
    rw [lookup?_of_mem (record_nodup h hfinite) hmem]
    exact hfits _
  · refine map_eq_nil_iff.2 (filter_eq_nil_iff.2 fun field hfield => ?_)
    rcases mem_append.1 (name_mem hfield) with hname | hname
    · simp [hname]
    · rw [← (hperm.map Prod.fst).mem_iff, ← hrestores.ofTable.names_eq, List.mem_map] at hname
      obtain ⟨entry, hentry, heq⟩ := hname
      have hany : table.any (·.1 == field.1) = true := any_eq_true.2 ⟨entry, hentry, by simp [heq]⟩
      simp [hany]

/-- **Nodes have the shape that is asked for**, under the name of their id. -/
theorem nodeProblems_toJson (h : node.InRange) (hfinite : node.kind.IsFinite) :
    nodeProblems (toString node.id) node.toJson = [] := by
  have hid : nodeIdProblems ("nodes." ++ toString node.id) (toString node.id) (some (.ofNat node.id)) = [] := by
    change (if node.id < 0x100000000 then require (looseNat? (toString node.id) == some node.id) _ _ else _) = []
    rw [if_pos h.id_lt, looseNat?_toString]
    exact require_true (beq_self_eq_true _)
  rw [toJson_eq]
  change nodeIdProblems _ _ (some (.ofNat node.id)) ++ envelopeProblems _ node.record ++ kindProblems _ node.record = []
  rw [hid, envelopeProblems_record h.kind hfinite, kindProblems_record h.kind hfinite]
  rfl

end Node

end Retarget
