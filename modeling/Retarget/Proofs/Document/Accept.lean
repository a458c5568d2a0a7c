import Retarget.Proofs.Document.Canonical
import Retarget.Proofs.Document.Node

/-!
# Documents that pass the check of their shape

What the check accepts can be read. `Shape.Rounds type read write` says it of one type: a value without problems is
read, and what is written for the result is the value again. A record is read field by field, in the order of the table
of its kind (`Shape.Reads`), so that every kind follows from its list of types (`Kind.reads_table`).
-/

namespace Retarget

open Json List Option Node

variable {found : Option Json} {key : String} {value : Json}

namespace Shape

variable {α β : Type} {type : FieldType} {name path cause : String} {value : Json} {record : Fields}
  {table : FieldTable} {read : Json → Option α} {write : α → Json}

/-! ## Values without problems -/

theorem require_eq_nil {ok : Bool} (h : require ok path cause = []) : ok = true := by
  cases ok with
  | true => rfl
  | false => cases h

/-- What the format writes for a field: `null` for a field that is not there, and a double for a number. -/
def settled (type : FieldType) : Option Json → Json
  | none => .null
  | some (.num n) => .num (if type = .number then .float n.toFloat else n)
  | some value => value

theorem settled_some (h : type ≠ .number) : settled type (some value) = value := by
  cases value with
  | num n => rw [settled, if_neg h]
  | _ => rfl

/-- A value without problems is read, and written again as it was, up to the order of fields. -/
def Rounds (type : FieldType) (read : Json → Option α) (write : α → Json) : Prop :=
  ∀ path value, value.Proper → valueProblems path type value = [] →
    ∃ a, read value = some a ∧ (write a).normalize = (settled type (some value)).normalize

theorem exists_ofNat (h : isId value = true) : ∃ n < 0x100000000, value = .ofNat n := by
  unfold isId at h
  split at h
  · exact ⟨_, of_decide_eq_true h, rfl⟩
  · cases h

theorem exists_str (h : isText value = true) : ∃ s, value = .str s := by
  unfold isText at h
  split at h
  · exact ⟨_, rfl⟩
  · cases h

theorem id?_of_isId (h : isId value = true) : ∃ n, id? value = some n ∧ ofNat n = value := by
  obtain ⟨n, hn, rfl⟩ := exists_ofNat h
  exact ⟨n, natBelow?_ofNat hn, rfl⟩

theorem rounds_id : Rounds .id id? .ofNat := by
  intro path value _ h
  obtain ⟨n, hread, rfl⟩ := id?_of_isId (require_eq_nil h)
  exact ⟨n, hread, rfl⟩

theorem rounds_text : Rounds .text string? .str := by
  intro path value _ h
  obtain ⟨s, rfl⟩ := exists_str (require_eq_nil h)
  exact ⟨s, rfl, rfl⟩

theorem rounds_flag : Rounds .flag bool? .bool := by
  intro path value _ h
  cases value with
  | bool b => exact ⟨b, rfl, rfl⟩
  | _ => cases h

theorem rounds_number : Rounds .number float? .ofFloat := by
  intro path value hproper h
  cases value with
  | num n =>
    refine ⟨n.toFloat, rfl, ?_⟩
    rw [ofFloat, if_pos (Number.isFinite_toFloat hproper), settled, if_pos rfl]
  | _ => cases h

theorem rounds_word (all : List α) (text : α → String) :
    Rounds (.oneOf (all.map text)) (keyword? true fun s => all.find? (text · == s)) fun w => .str (text w) := by
  intro path value _ h
  cases value with
  | str s =>
    obtain ⟨w, hw, rfl⟩ := mem_map.1 (contains_iff_mem.1 (require_eq_nil h))
    have hsome : (all.find? (text · == text w)).isSome := find?_isSome.2 ⟨w, hw, beq_self_eq_true (text w)⟩
    obtain ⟨v, hv⟩ := isSome_iff_exists.1 hsome
    have htext := find?_some hv
    exact ⟨v, hv, congrArg (fun s => (str s).normalize) (eq_of_beq htext)⟩
  | _ => cases h

theorem exists_list {items : List Json}
    (h : ∀ item ∈ items, ∃ a, read item = some a ∧ (write a).normalize = item.normalize) :
    ∃ l, list? read (.arr items) = some l ∧ (ofList write l).normalize = (arr items).normalize := by
  induction items with
  | nil => exact ⟨[], rfl, rfl⟩
  | cons item rest ih =>
    obtain ⟨⟨a, ha, heq⟩, hrest⟩ := forall_mem_cons.1 h
    obtain ⟨l, hl, hsame⟩ := ih hrest
    refine ⟨a :: l, ?_, ?_⟩
    · change (item :: rest).mapM read = some (a :: l)
      rw [mapM_cons, ha, show rest.mapM read = some l from hl]
      rfl
    · rw [ofList, Json.normalize, Json.normalize, Json.arr.injEq] at hsame ⊢
      rw [map_cons, normalizeList, normalizeList, heq, hsame]

theorem of_flatten_mapIdx {f : Nat → α → List β} {l : List α} (h : (l.mapIdx f).flatten = []) {a : α} (ha : a ∈ l) :
    ∃ i, f i a = [] := by
  obtain ⟨i, hi, rfl⟩ := getElem_of_mem ha
  exact ⟨i, flatten_eq_nil_iff.1 h _ (mem_mapIdx.2 ⟨i, hi, rfl⟩)⟩

theorem rounds_ids : Rounds .ids ids? (.ofList .ofNat) := by
  intro path value _ h
  cases value with
  | arr items =>
    refine exists_list fun item hitem => ?_
    obtain ⟨i, hi⟩ := of_flatten_mapIdx h hitem
    obtain ⟨n, hread, rfl⟩ := id?_of_isId (require_eq_nil hi)
    exact ⟨n, hread, rfl⟩
  | _ => cases h

theorem rounds_texts : Rounds .texts (list? string?) (.ofList .str) := by
  intro path value _ h
  cases value with
  | arr items =>
    refine exists_list fun item hitem => ?_
    obtain ⟨s, rfl⟩ := exists_str (all_eq_true.1 (require_eq_nil h) item hitem)
    exact ⟨s, rfl, rfl⟩
  | _ => cases h

theorem lookup?_of_flagProblems (h : flagProblems path found = []) : ∃ b, found = some (.bool b) := by
  unfold flagProblems at h
  split at h
  · cases h
  · exact ⟨_, rfl⟩
  · cases h

theorem lookup?_of_idProblems (h : idProblems path found = []) : ∃ n < 0x100000000, found = some (.ofNat n) := by
  cases found with
  | none => cases h
  | some value =>
    obtain ⟨n, hn, rfl⟩ := exists_ofNat (require_eq_nil h)
    exact ⟨n, hn, rfl⟩

theorem exists_item (hproper : value.Proper) (h : itemProblems path value = []) :
    ∃ item, ListItem.ofJson? value = some item ∧ item.toJson.normalize = value.normalize := by
  cases value with
  | obj fields =>
    obtain ⟨hknown, hother⟩ := append_eq_nil_iff.1 h
    obtain ⟨hspread, hvalue⟩ := append_eq_nil_iff.1 hknown
    obtain ⟨b, hb⟩ := lookup?_of_flagProblems hspread
    obtain ⟨n, hn, hid⟩ := lookup?_of_idProblems hvalue
    have hread : ListItem.ofJson? (.obj fields) = some ⟨b, n⟩ := by
      refine bind_eq_some_iff.2 ⟨b, required_of_find (find_of_lookup? hproper.1 hb), ?_⟩
      refine bind_eq_some_iff.2 ⟨n, ?_, rfl⟩
      exact (required_of_find (find_of_lookup? hproper.1 hid)).trans (natBelow?_ofNat hn)
    refine ⟨⟨b, n⟩, hread, normalize_obj_congr (by simp) hproper.1 ?_ ?_⟩
    · intro field hfield
      rcases mem_cons.1 hfield with rfl | hfield
      · exact mem_map_of_mem (mem_of_lookup? hb)
      · rw [mem_singleton.1 hfield]
        exact mem_map_of_mem (mem_of_lookup? hid)
    · intro field hfield
      have hname := filter_eq_nil_iff.1 (map_eq_nil_iff.1 hother) field hfield
      obtain ⟨name, v⟩ := field
      by_cases hs : name = "spread"
      · subst hs
        exact ⟨.bool b, mem_cons_self, by rw [eq_of_mem_of_mem hproper.1 hfield (mem_of_lookup? hb)]⟩
      · obtain rfl : name = "value" := by simpa [hs] using hname
        refine ⟨.ofNat n, mem_cons_of_mem _ mem_cons_self, ?_⟩
        rw [eq_of_mem_of_mem hproper.1 hfield (mem_of_lookup? hid)]
  | _ => cases h

theorem rounds_items : Rounds .items (list? ListItem.ofJson?) (.ofList ListItem.toJson) := by
  intro path value hproper h
  cases value with
  | arr items =>
    refine exists_list fun item hitem => ?_
    obtain ⟨i, hi⟩ := of_flatten_mapIdx h hitem
    exact exists_item (ProperList.of_mem hproper hitem) hi
  | _ => cases h

/-! ## Records without problems -/

/-- The fields of the table have no problems in a record whose names differ. -/
structure Checked (record : Fields) (table : FieldTable) : Prop where
  nodup : (record.map Prod.fst).Nodup
  proper : ProperFields record
  fits : ∀ entry ∈ table, ∃ path, fieldProblems path entry.2 (lookup? entry.1 record) = []

theorem Checked.tail {entry : String × FieldType} (h : Checked record (entry :: table)) : Checked record table :=
  ⟨h.nodup, h.proper, fun entry hentry => h.fits entry (mem_cons_of_mem _ hentry)⟩

theorem Checked.perm {table' : FieldTable} (h : Checked record table) (hperm : table'.Perm table) :
    Checked record table' :=
  ⟨h.nodup, h.proper, fun entry hentry => h.fits entry (hperm.mem_iff.1 hentry)⟩

/-- A field of the type is found in every record that passes the check, and written again as it was. -/
def Takes (type : FieldType) (get : String → Fields → Option α) (write : α → Json) : Prop :=
  ∀ {record name table}, Checked record ((name, type) :: table) →
    ∃ a, get name record = some a ∧ (write a).normalize = (settled type (lookup? name record)).normalize

theorem Rounds.required (hrounds : Rounds type read write) (hreq : type.isOptional = false) :
    Takes type (required read) write := by
  intro record name table h
  obtain ⟨path, hfits⟩ := h.fits _ mem_cons_self
  cases hfound : lookup? name record with
  | none =>
    simp [fieldProblems, hfound, hreq] at hfits
  | some value =>
    have hvalue : valueProblems path type value = [] := by
      cases value <;> simpa [fieldProblems, hfound, hreq] using hfits
    obtain ⟨a, hread, hwrite⟩ := hrounds path value (h.proper.of_mem (mem_of_lookup? hfound)) hvalue
    exact ⟨a, (required_of_find (find_of_lookup? h.nodup hfound)).trans hread, hwrite⟩

theorem Rounds.optional (hrounds : Rounds type read write) : Takes type (optional read) (ofOption write) := by
  intro record name table h
  obtain ⟨path, hfits⟩ := h.fits _ mem_cons_self
  have hfind := find_eq h.nodup name
  cases hfound : lookup? name record with
  | none =>
    rw [hfound] at hfind
    exact ⟨none, by rw [Json.optional, hfind]; rfl, rfl⟩
  | some value =>
    rw [hfound] at hfind
    by_cases hnull : value = .null
    · subst hnull
      exact ⟨none, by rw [Json.optional, hfind]; rfl, rfl⟩
    · have hvalue : valueProblems path type value = [] := by
        cases value with
        | null => exact absurd rfl hnull
        | _ => simpa [fieldProblems, hfound] using hfits
      obtain ⟨a, hread, hwrite⟩ := hrounds path value (h.proper.of_mem (mem_of_lookup? hfound)) hvalue
      refine ⟨some a, ?_, hwrite⟩
      rw [optional_of_once hfind hnull, hread]
      rfl

theorem takes_id : Takes .id (required id?) .ofNat := rounds_id.required rfl

theorem takes_optId : Takes .optId (optional id?) (ofOption .ofNat) :=
  (show Rounds .optId id? .ofNat from rounds_id).optional

theorem takes_ids : Takes .ids (required ids?) (.ofList .ofNat) := rounds_ids.required rfl

theorem takes_text : Takes .text (required string?) .str := rounds_text.required rfl

theorem takes_optText : Takes .optText (optional string?) (ofOption .str) :=
  (show Rounds .optText string? .str from rounds_text).optional

theorem takes_texts : Takes .texts (required (list? string?)) (.ofList .str) := rounds_texts.required rfl

theorem takes_flag : Takes .flag (required bool?) .bool := rounds_flag.required rfl

theorem takes_word (all : List α) (text : α → String) :
    Takes (.oneOf (all.map text)) (required (keyword? true fun s => all.find? (text · == s))) fun w => .str (text w) :=
  (rounds_word all text).required rfl

/-- Fields with the names of a table, written as they were found in the record. -/
abbrev Writes (record : Fields) : FieldTable → Fields → Prop :=
  Aligned fun name type value => value.normalize = (settled type (lookup? name record)).normalize

/-- A record is read field by field, in the order of the table; the fields are written again. -/
def Reads (record : Fields) (table : FieldTable) (x : Option α) (P : α → Fields → Prop) : Prop :=
  ∃ a fields, x = some a ∧ Writes record table fields ∧ P a fields

namespace Reads

variable {P : β → Fields → Prop} {b : β}

theorem done (h : P b []) : Reads record [] (some b) P := ⟨b, [], rfl, .nil, h⟩

theorem map {x : Option α} {Q : α → Fields → Prop} {g : α → β} (h : Reads record table x Q)
    (hg : ∀ a fields, Q a fields → P (g a) fields) : Reads record table (x >>= fun a => some (g a)) P := by
  obtain ⟨a, fields, rfl, hwrites, ha⟩ := h
  exact ⟨g a, fields, rfl, hwrites, hg a fields ha⟩

theorem field {get : String → Fields → Option α} {f : α → Option β} (h : Checked record ((name, type) :: table))
    (htakes : Takes type get write)
    (hrest : ∀ a, Checked record table → Reads record table (f a) fun b fields => P b ((name, write a) :: fields)) :
    Reads record ((name, type) :: table) (get name record >>= f) P := by
  obtain ⟨a, hread, hwrite⟩ := htakes h
  obtain ⟨b, fields, hb, hwrites, hP⟩ := hrest a h.tail
  refine ⟨b, _, ?_, .cons hwrite hwrites, hP⟩
  rw [hread]
  exact hb

end Reads

end Shape

/-! ## Kinds -/

open Shape

variable {record : Fields}

theorem FunctionNode.reads_table (h : Checked record Shape.function) :
    Reads record Shape.function (ofFields? record) fun f fields => fields = f.fields :=
  .field h takes_optText fun _ h => .field h takes_ids fun _ h => .field h takes_optId fun _ h =>
    .field h takes_id fun _ h => .field h takes_flag fun _ _ => .done rfl

theorem ClassNode.reads_table (h : Checked record classLike) :
    Reads record classLike (ofFields? record) fun c fields => fields = c.fields :=
  .field h takes_text fun _ h => .field h takes_optId fun _ h => .field h takes_id fun _ h =>
    .field h takes_ids fun _ h => .field h takes_ids fun _ h => .field h takes_id fun _ h =>
    .field h takes_id fun _ _ => .done rfl

namespace Kind

/-- A kind is read from every record that passes the check of its table, and its fields are written as they were
found. -/
def IsRead (entry : String × FieldTable) : Prop :=
  ∀ record, Checked record entry.2 → ∃ table, table.Perm entry.2 ∧
    Reads record table (ofFields? entry.1 record) fun kind fields => kind.name = entry.1 ∧ fields.Perm kind.fields

theorem isRead_classMetadata : IsRead ("ClassMetadata", [("superClass", .optText), ("derived", .flag),
    ("instanceMethods", .texts), ("staticMethods", .texts), ("instanceFields", .texts), ("staticFields", .texts)]) := by
  intro record h
  have hreads : Reads record _ (ClassSummary.ofFields? record) fun s fields => fields = s.fields :=
    .field h takes_optText fun _ h => .field h takes_flag fun _ h => .field h takes_texts fun _ h =>
      .field h takes_texts fun _ h => .field h takes_texts fun _ h => .field h takes_texts fun _ _ => .done rfl
  exact ⟨_, .refl _, hreads.map fun _ _ hs => ⟨rfl, .of_eq hs⟩⟩

theorem isRead_method : IsRead ("MethodDefinition", [("key", .text), ("value", .id),
    ("methodKind", .oneOf (MethodKind.all.map (·.word))), ("isStatic", .flag), ("home", .optId)]) := by
  intro record h
  have hperm : [("methodKind", .oneOf (MethodKind.all.map (·.word))), ("key", .text), ("value", .id),
      ("isStatic", .flag), ("home", .optId)].Perm [("key", .text), ("value", .id),
      ("methodKind", .oneOf (MethodKind.all.map (·.word))), ("isStatic", .flag), ("home", FieldType.optId)] :=
    (List.Perm.swap ..).trans (.cons _ (.swap ..))
  refine ⟨_, hperm, ?_⟩
  exact .field (h.perm hperm) (takes_word _ _) fun _ h => .field h takes_text fun _ h =>
    .field h takes_id fun _ h => .field h takes_flag fun _ h => .field h takes_optId fun _ _ =>
      .done ⟨rfl, (List.Perm.swap ..).trans (.cons _ (.swap ..))⟩

theorem isRead_doWhile : IsRead ("DoWhileStatement", loop) := by
  intro record h
  refine ⟨[("body", .id), ("test", .id)], .swap .., ?_⟩
  exact .field (h.perm (.swap ..)) takes_id fun _ h => .field h takes_id fun _ _ => .done ⟨rfl, .refl _⟩

/-- **Every kind is read** from the records that pass the check of its table. -/
theorem isRead_of_mem : ∀ entry ∈ kinds, IsRead entry := by
  simp only [kinds, forall_mem_cons]
  and_intros
  all_goals first
    | exact isRead_classMetadata
    | exact isRead_method
    | exact isRead_doWhile
    | exact forall_mem_nil _
    | intro record h
      refine ⟨_, .refl _, ?_⟩
      first
        | exact (FunctionNode.reads_table h).map fun _ _ hf => ⟨rfl, .of_eq hf⟩
        | exact (ClassNode.reads_table h).map fun _ _ hc => ⟨rfl, .of_eq hc⟩
        -- The type of the first field says how the reader goes on.
        | repeat first
            | exact .done ⟨rfl, .refl _⟩
            | refine .field h takes_id fun _ h => ?_
            | refine .field h takes_ids fun _ h => ?_
            | refine .field h (rounds_items.required rfl) fun _ h => ?_
            | refine .field h takes_text fun _ h => ?_
            | refine .field h takes_flag fun _ h => ?_
            | refine .field h (rounds_number.required rfl) fun _ h => ?_
            | refine .field h (takes_word _ _) fun _ h => ?_
            | refine .field h takes_optId fun _ h => ?_

end Kind

/-! ## Nodes -/

namespace Shape

variable {table : FieldTable} {fields : Fields} {name kind path : String} {type : FieldType}

theorem exists_id_of_nodeIdProblems (h : nodeIdProblems path key found = []) :
    ∃ n < 0x100000000, found = some (.ofNat n) := by
  unfold nodeIdProblems at h
  split at h
  · cases h
  · split at h
    · exact ⟨_, ‹_›, rfl⟩
    · cases h
  · cases h

theorem synthetic_of_envelopeProblems (h : envelopeProblems path fields = []) :
    lookup? "synthetic" fields = none ∨ ∃ b, lookup? "synthetic" fields = some (.bool b) := by
  obtain ⟨-, hmark⟩ := append_eq_nil_iff.1 h
  split at hmark
  · exact .inl ‹_›
  · exact .inr ⟨_, ‹_›⟩
  · cases hmark

theorem exists_table_of_kindProblems (h : kindProblems path fields = []) : ∃ kind table,
    lookup? "kind" fields = some (.str kind) ∧ fieldsOf? kind = some table ∧
      (∀ entry ∈ table, ∃ path, fieldProblems path entry.2 (lookup? entry.1 fields) = []) ∧
      ∀ field ∈ fields, field.1 ∈ envelope ++ table.map Prod.fst := by
  unfold kindProblems at h
  split at h
  · rename_i kind hkind
    split at h
    · cases h
    · rename_i table htable
      obtain ⟨hfits, hknown⟩ := append_eq_nil_iff.1 h
      refine ⟨kind, table, hkind, htable, ?_, ?_⟩
      · intro entry hentry
        exact ⟨_, flatMap_eq_nil_iff.1 hfits entry hentry⟩
      · intro field hfield
        have hname := filter_eq_nil_iff.1 (map_eq_nil_iff.1 hknown) field hfield
        simp only [Bool.not_eq_true', Bool.not_eq_false, Bool.or_eq_true, List.contains_iff_mem, List.any_eq_true,
          beq_iff_eq] at hname
        rw [List.mem_append, List.mem_map]
        exact hname
  · cases h

/-! ### The canonical form of an accepted record -/

theorem withDouble_fst (kind : Option Json) (field : String × Json) : (withDouble kind field).1 = field.1 := by
  unfold withDouble
  split <;> rfl

theorem number_iff (h : fieldsOf? kind = some table) (hentry : (name, type) ∈ table) :
    type = .number ↔ kind = "NumericLiteral" ∧ name = "value" := by
  have hall : ∀ entry ∈ kinds, ∀ field ∈ entry.2,
      (field.2 = .number ↔ entry.1 = "NumericLiteral" ∧ field.1 = "value") := by decide +kernel
  obtain ⟨entry, hfind, rfl⟩ := map_eq_some_iff.1 h
  have hname := find?_some hfind
  rw [← eq_of_beq hname]
  exact hall entry (mem_of_find?_eq_some hfind) _ hentry

theorem settled_eq_withDouble (h : fieldsOf? kind = some table) (hentry : (name, type) ∈ table) :
    settled type (some value) = (withDouble (some (.str kind)) (name, value)).2 := by
  have hiff := number_iff h hentry
  unfold withDouble
  split
  · rename_i n heq
    cases heq
    simp only [settled, hiff, some.injEq, str.injEq, and_true]
  · rename_i hother
    cases value with
    | num n =>
      have hname : name ≠ "value" := fun heq => hother n (by rw [heq])
      exact settled_some (fun htype => hname (hiff.1 htype).2)
    | _ => rfl

theorem mem_canonical (hmem : (name, value) ∈ fields) (h : isSilent (name, value) = false) :
    name ∈ (canonical fields).map Prod.fst := by
  have hkept : withDouble (lookup? "kind" fields) (name, value) ∈ canonical fields := by
    refine mem_append_left _ (mem_map_of_mem (mem_filter.2 ⟨hmem, ?_⟩))
    rw [h]
    rfl
  have hname := mem_map_of_mem (f := Prod.fst) hkept
  rwa [withDouble_fst] at hname

theorem isSilent_eq_false (h : name ∉ ["span", "type", "synthetic"]) : isSilent (name, value) = false := by
  unfold isSilent
  split
  all_goals first
    | rfl
    | rename_i heq
      cases heq
      exact absurd (by decide) h

theorem tableOf_eq (hkind : lookup? "kind" fields = some (.str kind)) (htable : fieldsOf? kind = some table) :
    tableOf fields = table := by
  simp only [tableOf, hkind, htable, getD_some]

theorem canonical_nodup (hnodup : (fields.map Prod.fst).Nodup) (hkind : lookup? "kind" fields = some (.str kind))
    (htable : fieldsOf? kind = some table) : ((canonical fields).map Prod.fst).Nodup := by
  have hkept : (((fields.filter fun field => !isSilent field).map (withDouble (lookup? "kind" fields))).map Prod.fst) =
      (fields.filter fun field => !isSilent field).map Prod.fst := by
    rw [List.map_map]
    exact map_congr_left fun field _ => withDouble_fst _ field
  have hmissing : (missing table fields).map Prod.fst =
      (table.filter fun entry => entry.2.isOptional && (lookup? entry.1 fields).isNone).map Prod.fst := by
    rw [missing, List.map_map]
    rfl
  have hnames : (table.map Prod.fst).Nodup :=
    ((nodup_append.1 (nodup_append.1 (names_nodup htable)).1).2).1
  rw [canonical, tableOf_eq hkind htable, map_append, hkept, hmissing]
  refine nodup_append.2 ⟨hnodup.sublist (filter_sublist.map _), hnames.sublist (filter_sublist.map _), ?_⟩
  rintro name hname _ hother rfl
  obtain ⟨field, hfield, rfl⟩ := mem_map.1 hname
  obtain ⟨entry, hentry, heq⟩ := mem_map.1 hother
  obtain ⟨-, hcond⟩ := mem_filter.1 hentry
  rw [Bool.and_eq_true, isNone_iff_eq_none, heq] at hcond
  exact lookup?_eq_none hcond.2 (mem_map_of_mem (mem_filter.1 hfield).1)

end Shape

namespace Node

/-- What is known of a record that passes the check and has neither place nor type. -/
structure Accepted (fields : Fields) (n : Nat) (name : String) (table : FieldTable) (b : Bool) : Prop where
  id_lt : n < 0x100000000
  id : lookup? "id" fields = some (.ofNat n)
  kind : lookup? "kind" fields = some (.str name)
  fieldsOf : fieldsOf? name = some table
  checked : Checked fields table
  known : ∀ field ∈ fields, field.1 ∈ envelope ++ table.map Prod.fst
  span : ∀ value, lookup? "span" fields = some value → value = .null
  type : ∀ value, lookup? "type" fields = some value → value = .null
  synthetic : lookup? "synthetic" fields = none ∧ b = false ∨ lookup? "synthetic" fields = some (.bool b)

variable {fields : Fields}

theorem exists_accepted (hproper : (obj fields).Proper)
    (hspan : ∀ value, lookup? "span" fields = some value → value = .null)
    (htype : ∀ value, lookup? "type" fields = some value → value = .null) (h : nodeProblems key (.obj fields) = []) :
    ∃ n name table b, Accepted fields n name table b := by
  obtain ⟨henvelope, hkind⟩ := append_eq_nil_iff.1 h
  obtain ⟨hid, henvelope⟩ := append_eq_nil_iff.1 henvelope
  obtain ⟨n, hn, hid⟩ := exists_id_of_nodeIdProblems hid
  obtain ⟨name, table, hkind, htable, hfits, hknown⟩ := exists_table_of_kindProblems hkind
  obtain ⟨b, hb⟩ : ∃ b, lookup? "synthetic" fields = none ∧ b = false ∨
      lookup? "synthetic" fields = some (.bool b) := by
    rcases synthetic_of_envelopeProblems henvelope with hnone | ⟨b, hb⟩
    · exact ⟨false, .inl ⟨hnone, rfl⟩⟩
    · exact ⟨b, .inr hb⟩
  exact ⟨n, name, table, b, hn, hid, hkind, htable, ⟨hproper.1, hproper.2, hfits⟩, hknown, hspan, htype, hb⟩

namespace Accepted

variable {fields written : Fields} {kind : Kind} {table table' : FieldTable} {n : Nat} {name : String} {b : Bool}
  {field : String}

section

variable (h : Accepted fields n name table b)
include h

theorem find_eq_once (hfound : lookup? field fields = some value) : find field fields = .once value :=
  find_of_lookup? h.checked.nodup hfound

theorem optional_eq_none {α : Type} {read : Json → Option α}
    (hnull : ∀ value, lookup? field fields = some value → value = .null) :
    optional read field fields = some none := by
  rw [Json.optional, find_eq h.checked.nodup]
  cases hfound : lookup? field fields with
  | none => rfl
  | some value =>
    rw [hnull value hfound]
    rfl

theorem ofJson?_eq (hkind : Kind.ofFields? name fields = some kind) :
    ofJson? (.obj fields) = some { id := n, kind, synthetic := b } := by
  have hid : required id? "id" fields = some n :=
    (required_of_find (h.find_eq_once h.id)).trans (natBelow?_ofNat h.id_lt)
  have hread : Kind.read? true fields = some kind := by
    refine bind_eq_some_iff.2 ⟨name, (required_of_find (h.find_eq_once h.kind)).trans ?_, hkind⟩
    exact if_pos (contains_iff_mem.2 (mem_names h.fieldsOf))
  have hmark : defaulted false bool? "synthetic" fields = some b := by
    rw [defaulted, find_eq h.checked.nodup]
    rcases h.synthetic with ⟨hnone, rfl⟩ | hsome
    · rw [hnone]
      rfl
    · rw [hsome]
      rfl
  refine bind_eq_some_iff.2 ⟨n, hid, bind_eq_some_iff.2 ⟨kind, hread, ?_⟩⟩
  refine bind_eq_some_iff.2 ⟨none, h.optional_eq_none h.span, ?_⟩
  refine bind_eq_some_iff.2 ⟨none, h.optional_eq_none h.type, ?_⟩
  exact bind_eq_some_iff.2 ⟨b, hmark, rfl⟩

end

variable {type : FieldType}

theorem mem_canonical_of_mem_table (h : Accepted fields n name table b)
    (hentry : (field, type) ∈ table) : field ∈ (canonical fields).map Prod.fst := by
  have hmark : field ∉ ["span", "type", "synthetic"] := by
    intro hmem
    have hdisjoint := (nodup_append.1 (Shape.names_nodup h.fieldsOf)).2.2
    exact hdisjoint field (mem_append_right _ (mem_map_of_mem hentry)) field hmem rfl
  cases hfound : lookup? field fields with
  | some value => exact mem_canonical (mem_of_lookup? hfound) (isSilent_eq_false hmark)
  | none =>
    obtain ⟨path, hfits⟩ := h.checked.fits _ hentry
    have hoptional : type.isOptional = true := by
      by_contra hreq
      simp [fieldProblems, hfound, hreq] at hfits
    have hmissing : (field, null) ∈ missing table fields := by
      refine mem_map.2 ⟨(field, type), mem_filter.2 ⟨hentry, ?_⟩, rfl⟩
      rw [hoptional, hfound]
      rfl
    rw [canonical, tableOf_eq h.kind h.fieldsOf]
    exact mem_map_of_mem (mem_append_right _ hmissing)

section

variable (hperm : table'.Perm table) (hwrites : Writes fields table' written) (hfields : written.Perm kind.fields)

include hperm hwrites hfields

theorem exists_field (hmem : (field, type) ∈ table) :
    ∃ value, (field, value) ∈ kind.fields ∧ value.normalize = (settled type (lookup? field fields)).normalize := by
  obtain ⟨value, hvalue, hsame⟩ := hwrites.exists_value (hperm.mem_iff.2 hmem)
  exact ⟨value, hfields.mem_iff.1 hvalue, hsame⟩

theorem names_perm : (table.map Prod.fst).Perm (kind.fields.map Prod.fst) := by
  have hnames := hwrites.names_eq ▸ hperm.map Prod.fst
  exact hnames.symm.trans (hfields.map Prod.fst)

section

variable (h : Accepted fields n name table b) {field : String × Json}
include h

theorem record_nodup : ((Node.record { id := n, kind, synthetic := b }).map Prod.fst).Nodup := by
  have hperm :=
    ((names_perm hperm hwrites hfields).append_left ["id", "kind"]).append_right ["span", "type", "synthetic"]
  exact record_nodup_of_names (hperm.nodup_iff.1 (Shape.names_nodup h.fieldsOf))

theorem mem_canonical_of_mem_record
    (hfield : field ∈ Node.record { id := n, kind, synthetic := b }) : field.1 ∈ (canonical fields).map Prod.fst := by
  rcases mem_append.1 hfield with hcore | hmark
  · rcases mem_append.1 hcore with hhead | hfield
    · rcases mem_cons.1 hhead with rfl | hhead
      · exact mem_canonical (mem_of_lookup? h.id) rfl
      · rw [mem_singleton.1 hhead]
        exact mem_canonical (mem_of_lookup? h.kind) rfl
    · have hmem := (names_perm hperm hwrites hfields).mem_iff.2 (mem_map_of_mem hfield)
      obtain ⟨⟨field, type⟩, hentry, heq⟩ := mem_map.1 hmem
      rw [← heq]
      exact h.mem_canonical_of_mem_table hentry
  · -- The only mark is the synthetic one.
    cases b with
    | false => cases hmark
    | true =>
      rcases h.synthetic with ⟨-, hfalse⟩ | hsome
      · cases hfalse
      · rw [mem_singleton.1 hmark]
        exact mem_canonical (mem_of_lookup? hsome) rfl

theorem exists_of_mem_canonical (hname : kind.name = name) (hfield : field ∈ canonical fields) :
    ∃ value, (field.1, value) ∈ Node.record { id := n, kind, synthetic := b } ∧
      value.normalize = field.2.normalize := by
  have hkindField {pair : String × Json} (hpair : pair ∈ kind.fields) :
      pair ∈ record { id := n, kind, synthetic := b } :=
    mem_append_left _ (mem_append_right _ hpair)
  rw [canonical, tableOf_eq h.kind h.fieldsOf, h.kind] at hfield
  rcases mem_append.1 hfield with hkept | hmissing
  · obtain ⟨⟨given, value⟩, hgiven, rfl⟩ := mem_map.1 hkept
    obtain ⟨hmem, hloud⟩ := mem_filter.1 hgiven
    have hfound := lookup?_of_mem h.checked.nodup hmem
    rw [withDouble_fst]
    rcases mem_append.1 (h.known _ hmem) with henvelope | htable
    · simp only [envelope, mem_cons, not_mem_nil, or_false] at henvelope
      rcases henvelope with rfl | rfl | rfl | rfl | rfl
      · rw [h.id] at hfound
        cases hfound
        exact ⟨.ofNat n, mem_cons_self, rfl⟩
      · rw [h.kind] at hfound
        cases hfound
        refine ⟨.str name, ?_, rfl⟩
        rw [← hname]
        exact mem_cons_of_mem _ mem_cons_self
      · rw [h.span value hfound] at hloud
        cases hloud
      · rw [h.type value hfound] at hloud
        cases hloud
      · rcases h.synthetic with ⟨hnone, -⟩ | hsome
        · rw [hfound] at hnone
          cases hnone
        · rw [hfound] at hsome
          cases hsome
          cases b with
          | false => cases hloud
          | true => exact ⟨.bool true, mem_append_right _ mem_cons_self, rfl⟩
    · obtain ⟨⟨field, type⟩, hentry, rfl⟩ := mem_map.1 htable
      obtain ⟨written, hwritten, hsame⟩ := exists_field hperm hwrites hfields hentry
      refine ⟨written, hkindField hwritten, hsame.trans ?_⟩
      rw [hfound, settled_eq_withDouble h.fieldsOf hentry]
  · obtain ⟨⟨field, type⟩, hentry, rfl⟩ := mem_map.1 hmissing
    obtain ⟨hentry, hcond⟩ := mem_filter.1 hentry
    obtain ⟨written, hwritten, hsame⟩ := exists_field hperm hwrites hfields hentry
    rw [Bool.and_eq_true, isNone_iff_eq_none] at hcond
    refine ⟨written, hkindField hwritten, hsame.trans ?_⟩
    rw [hcond.2]
    rfl

end

end

end Accepted

/-- `2 ^ 53 + 1` as an integer, which is no double. -/
def wide : Fields :=
  [("value", .num (.int 9007199254740993)), ("kind", .str "NumericLiteral"), ("type", .null), ("id", .ofNat 8)]

/-- A condition without an alternative, with marks that say nothing. -/
def oneArmed : Fields :=
  [("consequent", .ofNat 3), ("synthetic", .bool false), ("test", .ofNat 8), ("span", .null), ("id", .ofNat 4),
    ("kind", .str "IfStatement")]

end Node

end Retarget
