import Retarget.Proofs.Document.Node
import Retarget.Proofs.Syntax.Made

/-!
# Readers that restore phrases

`Restores n read` says of the reader of a phrase that it gives back every well-formed phrase of at most `n` levels from
what was written, if nothing in the phrase is bare, and nothing otherwise. Given readers of expressions, patterns and
statements that do so (`Readers.Faithful`), the readers of all other phrases do.

* `Readers.arrowBody_restores`, `Readers.forInit_restores`, `Readers.forHead_restores`: the phrases that can be bare.
* `typed_gives`: how phrases that name their type are read.
-/

namespace Retarget

open Syntax Syntax.Tree

variable {type : String} {value : Json}

namespace Json

theorem tagged_ne_null (h : value ≠ .null) : tagged type value ≠ .null := by
  cases value <;> simp_all [tagged]

theorem Gives.node {s : Phrase} {x : Option (Tree s)} {t : Tree s} (hbare : t.isBare = false)
    (h : Gives x (All (fun _ c => c.NoneBare) t.children) t) : Gives x t.NoneBare t :=
  h.congr (noneBare_iff hbare).symm

theorem Gives.bare {s : Phrase} {x : Option (Tree s)} {t : Tree s} (hbare : t.isBare = true) (h : x = none) :
    Gives x t.NoneBare t :=
  ⟨fun hnone => absurd hnone (not_noneBare hbare), fun _ => h⟩

end Json

namespace Syntax

open Json

/-- A reader gives back the phrases of at most `n` levels in which nothing is bare, and refuses the others. -/
def Restores {s : Phrase} (n : Nat) (read : Json → Option (Tree s)) : Prop :=
  ∀ t : Tree s, t.WellFormed → t.toJson.depth ≤ n → Gives (read t.toJson) t.NoneBare t

/-! ## Lists and optional phrases -/

section

variable {s : Phrase} {n : Nat} {read : Json → Option (Tree s)} {items : List (Tree s)}

theorem noneBare_ofList : (ofList items).NoneBare ↔ ∀ item ∈ items, item.NoneBare :=
  everywhere_ofList fun list => by
    rw [← ofList_toList list]
    cases list.toList <;> rfl

theorem list?_gives (h : Restores n read) (hitems : (ofList items).WellFormed)
    (hdepth : (ofList items).toJson.depth ≤ n) :
    Gives (list? read (ofList items).toJson) (ofList items).NoneBare items := by
  rw [toJson_ofList] at hdepth ⊢
  refine (Gives.list fun item hitem => ?_).congr noneBare_ofList.symm
  have hle := depth_le_depthList (List.mem_map_of_mem (f := toJson) hitem)
  rw [depth] at hdepth
  exact h item (wellFormed_ofList.1 hitems item hitem) (by omega)

theorem listOf_restores (h : Restores n read) : Restores n (listOf read) := by
  intro list hlist hdepth
  rw [← ofList_toList list] at hlist hdepth ⊢
  exact (list?_gives h hlist hdepth).map

theorem toJson_ne_null (t : Tree s) (hs : ∀ p, s ≠ .opt p) : t.toJson ≠ .null := by
  induction t with
  | absent | present => exact absurd rfl (hs _)
  | cons head tail =>
    rw [← ofList_toList (cons head tail), toJson_ofList]
    simp
  | functionExpr _ ih | classExpr _ ih | memberExpr _ ih | memberPattern _ ih | blockStmt _ ih | variableStmt _ ih
  | functionStmt _ ih | classStmt _ ih =>
    exact tagged_ne_null (ih (by simp))
  | arrowBlock _ ih | arrowValue _ ih | initDeclaration _ ih | initExpr _ ih | headDeclaration _ ih
  | headPattern _ ih =>
    exact ih (by simp)
  | _ =>
    intro h
    cases h

theorem present_gives {item : Tree s} {x : Option (Tree s)} (h : Gives x item.NoneBare item) :
    Gives (x.map present) (present item).NoneBare (present item) :=
  .node rfl (h.map.congr (and_iff_left trivial).symm)

theorem absent_noneBare : (absent : Tree (.opt s)).NoneBare := everywhere_iff.2 ⟨rfl, trivial⟩

theorem nullable?_of_ne {α : Type} {f : Json → Option α} (h : value ≠ .null) :
    nullable? f value = (f value).map some := by
  cases value <;> first | rfl | exact absurd rfl h

theorem optOf_restores (h : Restores n read) (hs : ∀ p, s ≠ .opt p) : Restores n (optOf read) := by
  intro t ht hdepth
  cases t with
  | absent => exact Gives.pure.congr (iff_of_true trivial absent_noneBare)
  | present item =>
    obtain ⟨hitem, -⟩ := ht.parts
    have hread : optOf read (present item).toJson = (read item.toJson).map present := by
      show (nullable? read item.toJson).map Tree.ofOption = _
      rw [nullable?_of_ne (toJson_ne_null item hs), Option.map_map]
      rfl
    rw [hread]
    exact present_gives (h item hitem hdepth)

variable {β : Type} {record own : Fields} {pos : Pos} {name : String} {ok : Prop} {b : β}

theorem Written.phrase {t : Tree s} {f : Tree s → Option β} (h : Written n record ((name, t.toJson) :: own) pos)
    (hread : Restores n read) (ht : t.WellFormed) (hrest : Written n record own pos → Gives (f t) ok b) :
    Gives (required read name record >>= f) (t.NoneBare ∧ ok) b :=
  h.part (hread t ht) hrest

theorem Written.opt {t : Tree (.opt s)} {f : Tree (.opt s) → Option β}
    (h : Written n record ((name, t.toJson) :: own) pos) (hread : Restores n read) (hs : ∀ p, s ≠ .opt p)
    (ht : t.WellFormed) (hrest : Written n record own pos → Gives (f t) ok b) :
    Gives (optField read name record >>= f) (t.NoneBare ∧ ok) b := by
  refine Gives.bind ?_ (hrest h.tail)
  have hfind := h.carries.head
  cases t with
  | absent =>
    have hnone : optional read name record = some none := by
      rw [Json.optional, hfind]
      rfl
    refine Gives.congr (.of_eq ?_) (iff_of_true trivial absent_noneBare)
    rw [optField, hnone]
    rfl
  | present item =>
    obtain ⟨hitem, -⟩ := ht.parts
    have hread' : optField read name record = (read item.toJson).map present := by
      rw [optField, optional_of_once hfind (toJson_ne_null item hs), Option.map_map]
      rfl
    rw [hread']
    exact present_gives (hread item hitem h.value_depth)

end

/-! ## Phrases that name their type -/

variable {own : Fields} {pos : Pos} {shapes : List String} {ix : Bool}

theorem written_tagged {n : Nat} (hnames : ("type" :: own.map Prod.fst ++ Pos.names).Nodup) (hpos : pos.InRange)
    (hdepth : (tagged type (record own pos)).depth ≤ n + 1) :
    Written n (("type", .str type) :: (own ++ pos.fields)) (("type", .str type) :: own) pos :=
  show Written n ((("type", .str type) :: own) ++ pos.fields) _ _ from written_record hnames hpos hdepth

theorem tag?_str (h : type ∈ shapes) : tag? ix shapes (.str type) = some type :=
  if_pos (List.contains_iff_mem.2 h)

section

variable {s : Phrase} {n : Nat} {ix : Bool} {shapes : List String} {type : String} {own : Fields} {pos : Pos}
  {t : Tree s}

theorem record_gives {f : Fields → Option (Tree s)} (ht : t.WellFormed) (hdepth : (record own pos).depth ≤ n)
    (hbare : t.isBare = false) (hpos : t.pos = pos) (hnames : (own.map Prod.fst ++ Pos.names).Nodup)
    (hrest : Written n (own ++ pos.fields) own pos → All (fun _ c => c.WellFormed) t.children →
      Gives (f (own ++ pos.fields)) (All (fun _ c => c.NoneBare) t.children) t) :
    Gives ((record own pos).object? >>= f) t.NoneBare t := by
  have h := written_record hnames (hpos ▸ ht.readable.1) (Nat.le_succ_of_le hdepth)
  exact .node hbare (.known rfl (hrest h ht.parts))

theorem tagged_gives {f : Fields → Pos → String → Option (Tree s)} (ht : t.WellFormed)
    (hdepth : (tagged type (record own pos)).depth ≤ n) (hbare : t.isBare = false) (hpos : t.pos = pos)
    (hnames : ("type" :: own.map Prod.fst ++ Pos.names).Nodup) (htype : type ∈ shapes)
    (hrest : Written n (("type", .str type) :: (own ++ pos.fields)) own pos →
      All (fun _ c => c.WellFormed) t.children →
      Gives (f (("type", .str type) :: (own ++ pos.fields)) pos type) (All (fun _ c => c.NoneBare) t.children) t) :
    Gives ((tagged type (record own pos)).object? >>= fun fields => Pos.ofFields? fields >>= fun pos =>
      required (tag? ix shapes) "type" fields >>= fun type => f fields pos type) t.NoneBare t := by
  have h := written_tagged hnames (hpos ▸ ht.readable.1) (Nat.le_succ_of_le hdepth)
  exact .node hbare (.known rfl <| h.position <| h.data (tag?_str htype) fun h => hrest h ht.parts)

theorem typed_gives {f : Fields → String → Pos → Option (Tree s)} (ht : t.WellFormed)
    (hdepth : (tagged type (record own pos)).depth ≤ n + 1)
    (hrest : Written n (("type", .str type) :: (own ++ pos.fields)) own pos →
      All (fun _ c => c.WellFormed) t.children →
      Gives (f (("type", .str type) :: (own ++ pos.fields)) type pos) (All (fun _ c => c.NoneBare) t.children) t)
    (hnames : ("type" :: own.map Prod.fst ++ Pos.names).Nodup := by simp [Pos.names])
    (hbare : t.isBare = false := by rfl) (hpos : t.pos = pos := by rfl)
    (htype : type ∈ shapes := by decide) :
    Gives ((tagged type (record own pos)).object? >>= fun fields => required (tag? ix shapes) "type" fields >>=
      fun type => Pos.ofFields? fields >>= fun pos => f fields type pos) t.NoneBare t := by
  have h := written_tagged hnames (hpos ▸ ht.readable.1) hdepth
  exact .node hbare (.known rfl (h.data (tag?_str htype) fun h => h.position (hrest h ht.parts)))

end

theorem find_untyped (h : "type" ∉ own.map Prod.fst) : find "type" (own ++ pos.fields) = .absent := by
  have hpos : "type" ∉ pos.fields.map Prod.fst := by simp [Pos.not_mem_fields, Pos.names]
  rw [find_append_right h, find, filter_of_not_mem hpos]

theorem untyped_eq_none {α : Type} {fields : Fields}
    {f : Fields → String → Option α} (h : find "type" fields = .absent) :
    ((Json.obj fields).object? >>= fun fields => required (tag? ix shapes) "type" fields >>= f fields) = none := by
  show (required (tag? ix shapes) "type" fields >>= f fields) = none
  rw [required, h]
  rfl

theorem get?_untyped (h : "type" ∉ own.map Prod.fst) : (record own pos).get? "type" = none := by
  have hpos : "type" ∉ pos.fields.map Prod.fst := by simp [Pos.not_mem_fields, Pos.names]
  rw [record, get?, lookup?_append_right h, lookup?, ← List.head?_filter, filter_of_not_mem hpos]
  rfl

theorem get?_type_expr (e : Expr) : e.toJson.get? "type" = some (.str (exprTypeName e)) := by
  cases e with
  | functionExpr f | classExpr f | memberExpr f =>
    cases f
    rfl
  | _ => rfl

theorem get?_type_pattern (p : Pattern) : p.toJson.get? "type" = some (.str (patternTypeName p)) := by
  cases p with
  | memberPattern m =>
    cases m
    rfl
  | _ => rfl

theorem exprTypeName_ne (e : Expr) : exprTypeName e ≠ "BlockStatement" ∧ exprTypeName e ≠ "VariableDeclaration" := by
  cases e with
  | unsupportedExpr kind => cases kind <;> simp [exprTypeName, UnsupportedExpr.typeName]
  | _ => simp [exprTypeName]

theorem patternTypeName_ne (p : Pattern) : patternTypeName p ≠ "VariableDeclaration" := by
  cases p <;> simp [patternTypeName]

namespace Readers

/-- The readers restore phrases of at most `n` levels, and refuse what does not name its type. -/
structure Faithful (r : Readers) (n : Nat) : Prop where
  expr : ∀ ix, Restores n (r.expr ix)
  pattern : ∀ ix, Restores n (r.pattern ix)
  stmt : ∀ ix, Restores n (r.stmt ix)
  untyped_expr : ∀ ix fields, find "type" fields = .absent → r.expr ix (.obj fields) = none
  untyped_pattern : ∀ ix fields, find "type" fields = .absent → r.pattern ix (.obj fields) = none

variable {r : Readers} {n : Nat} {ix : Bool} {record : Fields} {pos : Pos} (hr : r.Faithful n) {id : Option Identifier}
include hr

theorem blockFields_gives {body : Tree (.list .stmt)} (h : Written n record [("body", body.toJson)] pos)
    (ht : (Tree.block body pos).WellFormed) :
    Gives (r.blockFields ix record) (Tree.block body pos).NoneBare (.block body pos) :=
  .node rfl (h.phrase (listOf_restores (hr.stmt ix)) ht.parts.1 fun h => h.position .pure)

theorem block_restores : Restores n (r.block ix) := by
  intro t ht hdepth
  cases t with
  | block body pos =>
    have h := written_record (by simp [Pos.names]) ht.readable.1 (Nat.le_succ_of_le hdepth)
    exact .known rfl (blockFields_gives hr h ht)

theorem declarator_restores : Restores n (r.declarator ix) := by
  intro t ht hdepth
  cases t with
  | declarator target init pos =>
    exact record_gives ht hdepth rfl rfl (by simp [Pos.names]) fun h ⟨htarget, hinit, _⟩ =>
      h.phrase (hr.pattern ix) htarget fun h =>
      h.opt (hr.expr ix) (by simp) hinit fun h => h.position .pure

theorem declaration_gives {kind : DeclarationKind} {declarators : Tree (.list .declarator)}
    (h : Written n record [("kind", .str kind.word), ("declarations", declarators.toJson)] pos)
    (ht : (Tree.declaration kind declarators pos).WellFormed) : Gives (r.declaration ix record)
      (Tree.declaration kind declarators pos).NoneBare (.declaration kind declarators pos) :=
  .node rfl <| h.data (by cases kind <;> rfl) fun h =>
    h.phrase (listOf_restores (declarator_restores hr)) ht.parts.1 fun h => h.position .pure

theorem member_gives {base key : Expr} {computed optional : Bool}
    (h : Written n record [("object", base.toJson), ("property", key.toJson), ("computed", .bool computed),
      ("optional", .bool optional)] pos) (ht : (Tree.member base key computed optional pos).WellFormed) :
    Gives (r.member ix record) (Tree.member base key computed optional pos).NoneBare
      (.member base key computed optional pos) := by
  obtain ⟨hbase, hkey, -⟩ := ht.parts
  exact .node rfl <| h.phrase (hr.expr ix) hbase fun h => h.phrase (hr.expr ix) hkey fun h => h.defaulted rfl fun h =>
    h.defaulted rfl fun h => h.position .pure

theorem function_gives {params : Tree (.list .pattern)} {body : Block} {isAsync generator : Bool}
    (h : Written n record [("id", .ofOption Identifier.toJson id), ("params", params.toJson), ("body", body.toJson),
      ("async", .bool isAsync), ("generator", .bool generator)] pos)
    (ht : (Tree.function id params body isAsync generator pos).WellFormed) :
    Gives (r.function ix record) (Tree.function id params body isAsync generator pos).NoneBare
      (.function id params body isAsync generator pos) := by
  obtain ⟨hparams, hbody, -⟩ := ht.parts
  exact .node rfl <| h.name ht.readable.2 fun h => h.phrase (listOf_restores (hr.pattern ix)) hparams fun h =>
    h.phrase (block_restores hr) hbody fun h => h.defaulted rfl fun h => h.defaulted rfl fun h => h.position .pure

theorem arrowBody_restores : Restores n r.arrowBody := by
  intro t ht hdepth
  cases t with
  | arrowBlock body =>
    cases body with
    | block body pos =>
      have htype : (Syntax.record [("body", body.toJson)] pos).get? "type" = none := get?_untyped (by simp)
      refine .bare rfl ?_
      show arrowBody r (Syntax.record [("body", body.toJson)] pos) = none
      rw [arrowBody, htype, Syntax.record, hr.untyped_expr _ _ (find_untyped (by simp))]
      rfl
  | arrowValue value =>
    obtain ⟨hvalue, -⟩ := ht.parts
    have hread : arrowBody r value.toJson = (r.expr false value.toJson).map .arrowValue := by
      rw [arrowBody, get?_type_expr, if_neg (by simpa using (exprTypeName_ne value).1)]
    show Gives (arrowBody r value.toJson) _ _
    rw [hread]
    exact .node rfl ((hr.expr false value hvalue hdepth).map.congr (and_iff_left trivial).symm)

theorem forInit_restores : Restores n r.forInit := by
  intro t ht hdepth
  cases t with
  | initDeclaration d =>
    cases d with
    | declaration kind declarators pos =>
      refine .bare rfl ?_
      show forInit r (Syntax.record [("kind", .str kind.word), ("declarations", declarators.toJson)] pos) = none
      rw [forInit, get?_untyped (by simp), Syntax.record,
        hr.untyped_expr _ _ (find_untyped (by simp))]
      rfl
  | initExpr e =>
    obtain ⟨he, -⟩ := ht.parts
    show Gives (forInit r e.toJson) _ _
    rw [forInit, get?_type_expr, if_neg (by simpa using (exprTypeName_ne e).2)]
    exact .node rfl ((hr.expr false e he hdepth).bind .pure)

theorem forHead_restores : Restores n r.forHead := by
  intro t ht hdepth
  cases t with
  | headDeclaration d =>
    cases d with
    | declaration kind declarators pos =>
      refine .bare rfl ?_
      show forHead r (Syntax.record [("kind", .str kind.word), ("declarations", declarators.toJson)] pos) = none
      rw [forHead, get?_untyped (by simp), Syntax.record,
        hr.untyped_pattern _ _ (find_untyped (by simp))]
      rfl
  | headPattern p =>
    obtain ⟨hp, -⟩ := ht.parts
    show Gives (forHead r p.toJson) _ _
    rw [forHead, get?_type_pattern, if_neg (by simpa using patternTypeName_ne p)]
    exact .node rfl ((hr.pattern false p hp hdepth).bind .pure)

theorem classMember_restores : Restores n (r.classMember ix) := by
  intro t ht hdepth
  cases t with
  | method key value role computed isStatic pos =>
    cases value with
    | function id params body isAsync generator fpos =>
      have hrole : MethodRole.ofWord? role.word = some role := by cases role <;> rfl
      refine tagged_gives ht hdepth rfl rfl (by simp [Pos.names]) (by decide) fun h ⟨hkey, hvalue, _⟩ => ?_
      have hfunction := written_record (by simp [Pos.names]) hvalue.readable.1
        (Nat.le_succ_of_le h.tail.value_depth)
      refine .known (required_of_find h.tail.carries.head) ?_
      exact h.phrase (hr.expr true) hkey fun h => (function_gives hr hfunction hvalue).bind <|
        h.tail.data hrole fun h => h.defaulted rfl fun h => h.defaulted rfl fun _ => .pure
  | field key value computed isStatic pos =>
    exact tagged_gives ht hdepth rfl rfl (by simp [Pos.names]) (by decide) fun h ⟨hkey, hvalue, _⟩ =>
      h.phrase (hr.expr true) hkey fun h => h.opt (hr.expr true) (by simp) hvalue fun h =>
        h.defaulted rfl fun h => h.defaulted rfl fun _ => .pure
  | staticBlock pos => exact tagged_gives ht hdepth rfl rfl (by simp [Pos.names]) (by decide) fun _ _ => .pure

theorem classLike_gives {superClass : Tree (.opt .expr)} {members : Tree (.list .classMember)} {bodyPos : Pos}
    (h : Written n record [("id", .ofOption Identifier.toJson id), ("superClass", superClass.toJson),
      ("body", Syntax.record [("body", members.toJson)] bodyPos)] pos)
    (ht : (Tree.classLike id superClass members bodyPos pos).WellFormed) :
    Gives (r.classLike ix record) (Tree.classLike id superClass members bodyPos pos).NoneBare
      (.classLike id superClass members bodyPos pos) := by
  obtain ⟨hsuper, hmembers, -⟩ := ht.parts
  obtain ⟨-, hid, hbodyPos⟩ := ht.readable
  have hbody := written_record (by simp [Pos.names]) hbodyPos (Nat.le_succ_of_le h.tail.tail.value_depth)
  refine .node rfl <| .known (required_of_find h.tail.tail.carries.head) ?_
  exact h.name hid fun h => h.opt (hr.expr ix) (by simp) hsuper fun h =>
    hbody.phrase (listOf_restores (classMember_restores hr)) hmembers fun hbody => hbody.position <| h.position .pure

theorem objectMember_restores : Restores n (r.objectMember ix) := by
  intro t ht hdepth
  cases t with
  | property key value role computed method shorthand pos =>
    have hrole : PropertyRole.ofWord? role.word = some role := by cases role <;> rfl
    exact tagged_gives ht hdepth rfl rfl (by simp [Pos.names]) (by decide) fun h ⟨hkey, hvalue, _⟩ =>
      h.phrase (hr.expr true) hkey fun h => h.phrase (hr.expr true) hvalue fun h => h.defaulted hrole fun h =>
        h.defaulted rfl fun h => h.defaulted rfl fun h => h.defaulted rfl fun _ => .pure
  | spreadMember argument pos =>
    exact tagged_gives ht hdepth rfl rfl (by simp [Pos.names]) (by decide) fun h ⟨hargument, _⟩ =>
      h.phrase (hr.expr true) hargument fun _ => .pure

theorem patternMember_restores : Restores n (r.patternMember ix) := by
  intro t ht hdepth
  cases t with
  | patternProperty key value computed shorthand pos =>
    exact tagged_gives ht hdepth rfl rfl (by simp [Pos.names]) (by decide) fun h ⟨hkey, hvalue, _⟩ =>
      h.phrase (hr.expr true) hkey fun h => h.phrase (hr.pattern true) hvalue fun h =>
        h.defaulted rfl fun h => h.defaulted rfl fun _ => .pure
  | patternRest argument pos =>
    exact tagged_gives ht hdepth rfl rfl (by simp [Pos.names]) (by decide) fun h ⟨hargument, _⟩ =>
      h.phrase (hr.pattern true) hargument fun _ => .pure

theorem switchCase_restores : Restores n (r.switchCase ix) := by
  intro t ht hdepth
  cases t with
  | switchCase test consequent pos =>
    exact record_gives ht hdepth rfl rfl (by simp [Pos.names]) fun h ⟨htest, hconsequent, _⟩ =>
      h.opt (hr.expr ix) (by simp) htest fun h =>
      h.phrase (listOf_restores (hr.stmt ix)) hconsequent fun h => h.position .pure

theorem catchClause_restores : Restores n (r.catchClause ix) := by
  intro t ht hdepth
  cases t with
  | catchClause param body pos =>
    exact record_gives ht hdepth rfl rfl (by simp [Pos.names]) fun h ⟨hparam, hbody, _⟩ =>
      h.opt (hr.pattern ix) (by simp) hparam fun h =>
      h.phrase (block_restores hr) hbody fun h => h.position .pure

end Readers

end Syntax

end Retarget
