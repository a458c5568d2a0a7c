import Retarget.Proofs.Syntax.Restore

/-!
# Programs are read back

* `readers_faithful`: expressions, patterns and statements of any depth are read back unless something in them is bare.
* `Program.read_back_iff`: so are programs.
-/

namespace Retarget

open Syntax Syntax.Tree

namespace Syntax

open Json

namespace Readers

variable {r : Readers} {n : Nat} {ix : Bool} (hr : r.Faithful n)
include hr

theorem readExpr_restores : Restores (n + 1) (r.readExpr ix) := by
  intro t ht hdepth
  cases t with
  | identifier id =>
    exact typed_gives ht hdepth fun h _ => .known (Identifier.ofFields?_written h) .pure
  | literal lit =>
    exact typed_gives ht hdepth (fun _ _ => .known (Literal.ofFields?_own ht.readable.2) .pure) lit.names_own
  | template quasis expressions pos =>
    have hquasis : list? TemplateElement.ofJson? (.ofList TemplateElement.toJson quasis) = some quasis :=
      list?_ofList fun e he => TemplateElement.ofJson?_toJson (ht.readable.2 e he)
    exact typed_gives ht hdepth fun h ⟨hexpressions, _⟩ => h.data hquasis fun h =>
      h.phrase (listOf_restores (hr.expr true)) hexpressions fun _ => .pure
  | thisExpr pos | superExpr pos =>
    exact typed_gives ht hdepth fun _ _ => .pure
  | unsupportedExpr kind pos =>
    cases kind <;>
      exact typed_gives ht hdepth fun _ _ => .pure
  | array elements pos =>
    exact typed_gives ht hdepth fun h ⟨helements, _⟩ =>
      h.phrase (listOf_restores (optOf_restores (hr.expr true) (by simp))) helements fun _ => .pure
  | object members pos =>
    exact typed_gives ht hdepth fun h ⟨hmembers, _⟩ =>
      h.phrase (listOf_restores (objectMember_restores hr)) hmembers fun _ => .pure
  | functionExpr f =>
    cases f
    exact typed_gives ht hdepth fun h ⟨hf, _⟩ => (function_gives hr h hf).bind .pure
  | arrow params body isAsync pos =>
    exact typed_gives ht hdepth fun h ⟨hparams, hbody, _⟩ =>
      h.phrase (listOf_restores (hr.pattern true)) hparams fun h => h.phrase (arrowBody_restores hr) hbody fun h =>
        h.defaulted rfl fun _ => .pure
  | classExpr c =>
    cases c
    exact typed_gives ht hdepth fun h ⟨hc, _⟩ => (classLike_gives hr h hc).bind .pure
  | unary operator argument before pos =>
    exact typed_gives ht hdepth fun h ⟨hargument, _⟩ => h.data rfl fun h =>
      h.phrase (hr.expr true) hargument fun h => h.defaulted rfl fun _ => .pure
  | update operator argument before pos =>
    exact typed_gives ht hdepth fun h ⟨hargument, _⟩ => h.data rfl fun h =>
      h.phrase (hr.expr true) hargument fun h => h.data rfl fun _ => .pure
  | binary operator left right pos | logical operator left right pos =>
    exact typed_gives ht hdepth fun h ⟨hleft, hright, _⟩ => h.data rfl fun h =>
      h.phrase (hr.expr true) hleft fun h => h.phrase (hr.expr true) hright fun _ => .pure
  | assign operator target value pos =>
    exact typed_gives ht hdepth fun h ⟨htarget, hvalue, _⟩ => h.data rfl fun h =>
      h.phrase (hr.pattern true) htarget fun h => h.phrase (hr.expr true) hvalue fun _ => .pure
  | conditional test consequent alternate pos =>
    exact typed_gives ht hdepth fun h ⟨htest, hconsequent, halternate, _⟩ =>
      h.phrase (hr.expr true) htest fun h => h.phrase (hr.expr true) hconsequent fun h =>
        h.phrase (hr.expr true) halternate fun _ => .pure
  | call callee arguments optional pos | newExpr callee arguments optional pos =>
    exact typed_gives ht hdepth fun h ⟨hcallee, harguments, _⟩ =>
      h.phrase (hr.expr true) hcallee fun h => h.phrase (listOf_restores (hr.expr true)) harguments fun h =>
        h.defaulted rfl fun _ => .pure
  | memberExpr m =>
    cases m
    exact typed_gives ht hdepth fun h ⟨hm, _⟩ => (member_gives hr h hm).bind .pure
  | sequence expressions pos =>
    exact typed_gives ht hdepth fun h ⟨hexpressions, _⟩ =>
      h.phrase (listOf_restores (hr.expr true)) hexpressions fun _ => .pure
  | awaitExpr argument pos | spread argument pos | parenthesized argument pos =>
    exact typed_gives ht hdepth fun h ⟨hargument, _⟩ => h.phrase (hr.expr true) hargument fun _ => .pure

theorem readPattern_restores : Restores (n + 1) (r.readPattern ix) := by
  intro t ht hdepth
  cases t with
  | idPattern id =>
    exact typed_gives ht hdepth fun h _ => .known (Identifier.ofFields?_written h) .pure
  | objectPattern members pos =>
    exact typed_gives ht hdepth fun h ⟨hmembers, _⟩ =>
      h.phrase (listOf_restores (patternMember_restores hr)) hmembers fun _ => .pure
  | arrayPattern elements pos =>
    exact typed_gives ht hdepth fun h ⟨helements, _⟩ =>
      h.phrase (listOf_restores (optOf_restores (hr.pattern true) (by simp))) helements fun _ => .pure
  | restPattern argument pos =>
    exact typed_gives ht hdepth fun h ⟨hargument, _⟩ => h.phrase (hr.pattern true) hargument fun _ => .pure
  | defaultPattern target value pos =>
    exact typed_gives ht hdepth fun h ⟨htarget, hvalue, _⟩ =>
      h.phrase (hr.pattern true) htarget fun h => h.phrase (hr.expr true) hvalue fun _ => .pure
  | memberPattern m =>
    cases m
    exact typed_gives ht hdepth fun h ⟨hm, _⟩ => (member_gives hr h hm).bind .pure

theorem readStmt_restores : Restores (n + 1) (r.readStmt ix) := by
  intro t ht hdepth
  cases t with
  | exprStmt value directive pos =>
    have hnames : (["type", "expression"] ++ (optionalField "directive" .str directive).map Prod.fst ++
        Pos.names).Nodup := by
      cases directive <;> simp [optionalField, Pos.names]
    have hdirective : Json.optional string? "directive" ([("type", .str "ExpressionStatement"),
        ("expression", value.toJson)] ++ (optionalField "directive" .str directive ++ pos.fields)) =
          some directive := by
      refine optional_optionalField (by simp) ?_ (by simp [string?, asString?])
      simp [Pos.not_mem_fields, Pos.names]
    refine typed_gives ht hdepth (fun h hparts => ?_) hnames
    exact h.phrase (hr.expr true) hparts.1 fun _ => .known hdirective .pure
  | blockStmt b =>
    cases b
    exact typed_gives ht hdepth fun h hparts => (blockFields_gives hr h hparts.1).bind .pure
  | emptyStmt pos =>
    exact typed_gives ht hdepth fun _ _ => .pure
  | variableStmt d =>
    cases d
    exact typed_gives ht hdepth fun h hparts => (declaration_gives hr h hparts.1).bind .pure
  | functionStmt f =>
    cases f
    exact typed_gives ht hdepth fun h hparts => (function_gives hr h hparts.1).bind .pure
  | classStmt c =>
    cases c
    exact typed_gives ht hdepth fun h hparts => (classLike_gives hr h hparts.1).bind .pure
  | returnStmt argument pos =>
    exact typed_gives ht hdepth fun h hparts => h.opt (hr.expr true) (by simp) hparts.1 fun _ => .pure
  | ifStmt test consequent alternate pos =>
    exact typed_gives ht hdepth fun h hparts =>
      h.phrase (hr.expr true) hparts.1 fun h => h.phrase (hr.stmt true) hparts.2.1 fun h =>
        h.opt (hr.stmt true) (by simp) hparts.2.2.1 fun _ => .pure
  | forStmt init test update body pos =>
    exact typed_gives ht hdepth fun h hparts =>
      h.opt (forInit_restores hr) (by simp) hparts.1 fun h => h.opt (hr.expr true) (by simp) hparts.2.1 fun h =>
        h.opt (hr.expr true) (by simp) hparts.2.2.1 fun h => h.phrase (hr.stmt true) hparts.2.2.2.1 fun _ => .pure
  | forIn left right body pos =>
    exact typed_gives ht hdepth fun h hparts =>
      h.phrase (forHead_restores hr) hparts.1 fun h => h.phrase (hr.expr true) hparts.2.1 fun h =>
        h.phrase (hr.stmt true) hparts.2.2.1 fun _ => .pure
  | forOf left right body isAwait pos =>
    exact typed_gives ht hdepth fun h hparts =>
      h.phrase (forHead_restores hr) hparts.1 fun h => h.phrase (hr.expr true) hparts.2.1 fun h =>
        h.phrase (hr.stmt true) hparts.2.2.1 fun h => h.defaulted rfl fun _ => .pure
  | whileStmt test body pos | doWhile test body pos =>
    exact typed_gives ht hdepth fun h hparts =>
      h.phrase (hr.expr true) hparts.1 fun h => h.phrase (hr.stmt true) hparts.2.1 fun _ => .pure
  | breakStmt label pos | continueStmt label pos =>
    exact typed_gives ht hdepth fun h _ => h.name ht.readable.2 fun _ => .pure
  | throwStmt argument pos =>
    exact typed_gives ht hdepth fun h hparts => h.phrase (hr.expr true) hparts.1 fun _ => .pure
  | tryStmt body handler finalizer pos =>
    exact typed_gives ht hdepth fun h hparts =>
      h.phrase (block_restores hr) hparts.1 fun h => h.opt (catchClause_restores hr) (by simp) hparts.2.1 fun h =>
        h.opt (block_restores hr) (by simp) hparts.2.2.1 fun _ => .pure
  | switchStmt discriminant cases pos =>
    exact typed_gives ht hdepth fun h hparts =>
      h.phrase (hr.expr true) hparts.1 fun h =>
        h.phrase (listOf_restores (switchCase_restores hr)) hparts.2.1 fun _ => .pure
  | unsupportedStmt kind pos =>
    cases kind <;>
      exact typed_gives ht hdepth fun _ _ => .pure

end Readers

/-- **Phrases of any depth are read back.** -/
theorem readers_faithful (depth : Nat) : (readers depth).Faithful depth := by
  induction depth with
  | zero =>
    have hnone {s : Phrase} (read : Json → Option (Tree s)) : Restores 0 read :=
      fun t _ hdepth => absurd hdepth (Nat.not_le_of_gt depth_pos)
    exact ⟨fun _ => hnone _, fun _ => hnone _, fun _ => hnone _, fun _ _ _ => rfl, fun _ _ _ => rfl⟩
  | succ depth ih =>
    refine ⟨fun _ => Readers.readExpr_restores ih, fun _ => Readers.readPattern_restores ih,
      fun _ => Readers.readStmt_restores ih, fun ix fields h => ?_, fun ix fields h => ?_⟩
    · exact untyped_eq_none h
    · exact untyped_eq_none h

/-! ## Programs -/

namespace Program

/-- No phrase of a program is without its type where phrases of other types could stand. -/
def NoneBare (p : Program) : Prop := ∀ stmt ∈ p.body, stmt.NoneBare

variable {value : Json} {p : Program}

theorem ofJson?_makes : Makes (ofJson? value) fun p => (ofList p.body).WellFormed ∧ p.pos.InRange := by
  refine .skip fun fields => (Makes.required fun _ => .list ((readers_careful _).stmt false)).bind fun body hbody => ?_
  refine .skip fun sourceType => Pos.ofFields?_makes.bind fun pos hpos => ?_
  exact .pure ⟨wellFormed_ofList.2 hbody, hpos⟩

theorem ofJson?_gives (hbody : (ofList p.body).WellFormed) (hpos : p.pos.InRange) :
    Gives (ofJson? p.toJson) p.NoneBare p := by
  have h := written_record (by simp [Pos.names]) hpos (Nat.le_succ p.toJson.depth)
  have hword : SourceType.ofWord? p.sourceType.word = some p.sourceType := by cases p.sourceType <;> rfl
  have hread : Gives (ofJson? p.toJson) ((ofList p.body).NoneBare ∧ True) p :=
    .known rfl <| h.part (list?_gives ((readers_faithful _).stmt false) hbody) fun h => h.defaulted hword fun h =>
      h.position .pure
  exact hread.congr ((and_iff_left trivial).trans noneBare_ofList)

theorem ofJson?_of_ok (h : ofJson value = .ok p) : ofJson? value = some p := by
  unfold ofJson at h
  cases hvalue : ofJson? value with
  | some q =>
    simp only [hvalue] at h
    split at h
    case h_1 =>
      split at h
      case isTrue => exact congrArg some (Except.ok.inj h)
      case isFalse => cases h
    case h_2 => exact congrArg some (Except.ok.inj h)
  | none =>
    simp only [hvalue] at h
    split at h
    case h_1 => split at h <;> cases h
    case h_2 => cases h

theorem ofJson_toJson : ofJson p.toJson = (ofJson? p.toJson).elim (.error .unreadable) .ok := by
  rw [ofJson, toJson, get?_untyped (by simp)]
  cases ofJson? _ <;> rfl

/-- A program that has been read is read back from what is written for it if and only if nothing in it is bare. If
something is, what is written cannot be read. -/
theorem read_back_iff (value : Json) (p : Program) (h : ofJson value = .ok p) :
    (ofJson p.toJson = .ok p ↔ p.NoneBare) ∧ (¬p.NoneBare → ofJson p.toJson = .error .unreadable) := by
  obtain ⟨hbody, hpos⟩ := ofJson?_makes p (ofJson?_of_ok h)
  have hgives := ofJson?_gives hbody hpos
  have hrefused (hbare : ¬p.NoneBare) : ofJson p.toJson = .error .unreadable := by
    rw [ofJson_toJson, hgives.of_not hbare]
    rfl
  refine ⟨⟨fun hread => ?_, fun hnone => ?_⟩, hrefused⟩
  · by_contra hbare
    rw [hrefused hbare] at hread
    cases hread
  · rw [ofJson_toJson, hgives.of_ok hnone]
    rfl

def identity : Program :=
  ⟨[.exprStmt (.arrow (.cons (.idPattern ⟨"x", {}⟩) .nil) (.arrowValue (.identifier ⟨"x", {}⟩)) false {}) none {}],
    .script, {}⟩

def counting : Program :=
  ⟨[.forStmt (.present (.initDeclaration (.declaration .letKind (.cons (.declarator (.idPattern ⟨"i", {}⟩) .absent {})
    .nil) {}))) .absent .absent (.emptyStmt {}) {}], .script, {}⟩

def nameDocument (name : String) : Json := .obj [("type", .str "Identifier"), ("name", .str name)]

/-- `identity`, as a parser writes it. -/
def identityDocument : Json :=
  .obj [("type", .str "Program"), ("body", .arr [.obj [("type", .str "ExpressionStatement"), ("expression", .obj
    [("type", .str "ArrowFunctionExpression"), ("params", .arr [nameDocument "x"]), ("body", nameDocument "x")])]])]

/-- `counting`, as a parser writes it. -/
def countingDocument : Json :=
  .obj [("type", .str "Program"), ("body", .arr [.obj [("type", .str "ForStatement"), ("init", .obj
    [("type", .str "VariableDeclaration"), ("kind", .str "let"),
      ("declarations", .arr [.obj [("id", nameDocument "i")]])]), ("body", .obj [("type", .str "EmptyStatement")])]])]

theorem identity_read_back :
    (ofJson identityDocument = .ok identity ∧ ofJson identity.toJson = .ok identity) ∧
      ofJson countingDocument = .ok counting ∧ ofJson counting.toJson = .error .unreadable := by
  have hidentity : identity.NoneBare := by
    have hname : (identifier ⟨"x", {}⟩).NoneBare := (noneBare_iff rfl).2 trivial
    have hparam : (idPattern ⟨"x", {}⟩).NoneBare := (noneBare_iff rfl).2 trivial
    have hbody : (arrowValue (.identifier ⟨"x", {}⟩)).NoneBare := (noneBare_iff rfl).2 ⟨hname, trivial⟩
    have hparams : (ofList [idPattern ⟨"x", {}⟩]).NoneBare := noneBare_ofList.2 (by simpa using hparam)
    refine List.forall_mem_singleton.2 ((noneBare_iff rfl).2 ⟨?_, trivial⟩)
    exact (noneBare_iff rfl).2 ⟨hparams, hbody, trivial⟩
  have hcounting : ¬counting.NoneBare := by
    intro hnone
    obtain ⟨hinit, -⟩ := (noneBare_iff rfl).1 (List.forall_mem_singleton.1 hnone)
    obtain ⟨hdeclaration, -⟩ := (noneBare_iff rfl).1 hinit
    exact not_noneBare rfl hdeclaration
  have hread := read_back_iff identityDocument identity rfl
  have hrefused := read_back_iff countingDocument counting rfl
  exact ⟨⟨rfl, hread.1.2 hidentity⟩, rfl, hrefused.2 hcounting⟩

end Program

end Syntax

end Retarget
