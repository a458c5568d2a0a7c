import Retarget.Proofs.Syntax.Parts

/-!
# Phrases that are read are well-formed

* `readers_careful`: whatever the readers make is well-formed, by induction on the depth.
-/

namespace Retarget.Syntax

open Json Syntax.Tree Makes Pos Identifier

variable {s : Phrase} {read : Json → Option (Tree s)} {name : String} {value : Json} {fields : Fields}

theorem Pos.inRange_nowhere : ({} : Pos).InRange := ⟨by simp, by simp, by simp⟩

theorem wellFormed_ofList {items : List (Tree s)} : (ofList items).WellFormed ↔ ∀ item ∈ items, item.WellFormed :=
  everywhere_ofList fun list => by
    rw [← ofList_toList list]
    cases list.toList <;> exact ⟨inRange_nowhere, trivial⟩

theorem wellFormed_ofOption {item : Option (Tree s)} : (ofOption item).WellFormed ↔ ∀ t ∈ item, t.WellFormed :=
  everywhere_ofOption fun opt => by
    cases opt <;> exact ⟨inRange_nowhere, trivial⟩

section

variable (h : ∀ v, Makes (read v) WellFormed)
include h

theorem listOf_makes : Makes (listOf read value) WellFormed :=
  .map fun items hitems => wellFormed_ofList.2 (list h items hitems)

theorem optOf_makes : Makes (optOf read value) WellFormed := by
  refine .map fun item hitem => wellFormed_ofOption.2 ?_
  unfold nullable? at hitem
  split at hitem
  case h_1 =>
    obtain rfl := Option.some.inj hitem
    simp
  case h_2 =>
    obtain ⟨t, ht, rfl⟩ := Option.map_eq_some_iff.1 hitem
    simpa using h _ t ht

theorem optField_makes : Makes (optField read name fields) WellFormed :=
  .map fun item hitem => wellFormed_ofOption.2 (optional (fun v _ => h v) item hitem)

end

theorem phrase_makes {t : Tree s} (hown : t.Readable) (hparts : All (fun _ c => c.WellFormed) t.children) :
    Makes (pure t) WellFormed :=
  .pure (.intro hown hparts)

/-- A phrase that stands for a phrase of another sort. -/
theorem wrap_makes {s' : Phrase} {x : Option (Tree s)} {wrap : Tree s → Tree s'} (hx : Makes x WellFormed)
    (hown : ∀ t, t.pos.InRange → (wrap t).Readable)
    (hparts : ∀ t, t.WellFormed → All (fun _ c => c.WellFormed) (wrap t).children) :
    Makes (x >>= fun t => pure (wrap t)) WellFormed :=
  hx.bind fun t ht => phrase_makes (hown t ht.readable.1) (hparts t ht)

namespace Readers

structure Careful (r : Readers) : Prop where
  expr : ∀ ix v, Makes (r.expr ix v) WellFormed
  pattern : ∀ ix v, Makes (r.pattern ix v) WellFormed
  stmt : ∀ ix v, Makes (r.stmt ix v) WellFormed

variable {r : Readers} {ix : Bool} (hr : r.Careful)
include hr

theorem blockFields_makes : Makes (r.blockFields ix fields) WellFormed := by
  refine (required fun v => listOf_makes (hr.stmt ix)).bind fun body hbody => ?_
  exact ofFields?_makes.bind fun pos hpos => phrase_makes ⟨hpos, trivial⟩ ⟨hbody, trivial⟩

theorem block_makes : Makes (r.block ix value) WellFormed := .skip fun _ => blockFields_makes hr

theorem declarator_makes : Makes (r.declarator ix value) WellFormed := by
  refine .skip fun fields => (required (hr.pattern ix)).bind fun target htarget => ?_
  refine (optField_makes (hr.expr ix)).bind fun init hinit => ofFields?_makes.bind fun pos hpos => ?_
  exact phrase_makes ⟨hpos, trivial⟩ ⟨htarget, hinit, trivial⟩

theorem declaration_makes : Makes (r.declaration ix fields) WellFormed := by
  refine .skip fun kind => (required fun v => listOf_makes fun _ => declarator_makes hr).bind
    fun declarators hdeclarators => ofFields?_makes.bind fun pos hpos => ?_
  exact phrase_makes ⟨hpos, trivial⟩ ⟨hdeclarators, trivial⟩

theorem required_expr_makes : Makes (required (r.expr ix) name fields) WellFormed := .required (hr.expr ix)

theorem required_pattern_makes : Makes (required (r.pattern ix) name fields) WellFormed := .required (hr.pattern ix)

theorem member_makes : Makes (r.member ix fields) WellFormed := by
  refine (required_expr_makes hr).bind fun object hobject => (required_expr_makes hr).bind fun key hkey => ?_
  refine .skip fun computed => .skip fun optional => ofFields?_makes.bind fun pos hpos => ?_
  exact phrase_makes ⟨hpos, trivial⟩ ⟨hobject, hkey, trivial⟩

omit hr in
theorem optional_name_makes : Makes (optional ofJson? name fields) fun id => ∀ i ∈ id, i.pos.InRange :=
  .optional fun _ _ => ofJson?_makes

theorem function_makes : Makes (r.function ix fields) WellFormed := by
  refine optional_name_makes.bind fun id hid => (required fun _ => listOf_makes (hr.pattern ix)).bind
    fun params hparams => (required fun _ => block_makes hr).bind fun body hbody => ?_
  refine .skip fun isAsync => .skip fun generator => ofFields?_makes.bind fun pos hpos => ?_
  exact .pure (.intro ⟨hpos, hid⟩ ⟨hparams, hbody, trivial⟩)

theorem arrowBody_makes : Makes (r.arrowBody value) WellFormed := by
  simp only [arrowBody, Option.map_eq_bind]
  split
  case isTrue => exact wrap_makes (block_makes hr) (fun _ h => ⟨h, trivial⟩) fun _ h => ⟨h, trivial⟩
  case isFalse => exact wrap_makes (hr.expr false value) (fun _ h => ⟨h, trivial⟩) fun _ h => ⟨h, trivial⟩

theorem forInit_makes : Makes (r.forInit value) WellFormed := by
  unfold forInit
  split
  case isTrue =>
    exact .skip fun fields => wrap_makes (declaration_makes hr) (fun _ h => ⟨h, trivial⟩) fun _ h => ⟨h, trivial⟩
  case isFalse => exact wrap_makes (hr.expr false value) (fun _ h => ⟨h, trivial⟩) fun _ h => ⟨h, trivial⟩

theorem forHead_makes : Makes (r.forHead value) WellFormed := by
  unfold forHead
  split
  case isTrue =>
    exact .skip fun fields => wrap_makes (declaration_makes hr) (fun _ h => ⟨h, trivial⟩) fun _ h => ⟨h, trivial⟩
  case isFalse => exact wrap_makes (hr.pattern false value) (fun _ h => ⟨h, trivial⟩) fun _ h => ⟨h, trivial⟩

theorem classMember_makes : Makes (r.classMember ix value) WellFormed := by
  refine .skip fun fields => ofFields?_makes.bind fun pos hpos => .skip fun type => ?_
  split
  case h_1 =>
    refine .skip fun value => (required_expr_makes hr).bind fun key hkey => ?_
    refine (function_makes hr).bind fun f hf => .skip fun role => .skip fun computed =>
      .skip fun isStatic => ?_
    exact phrase_makes ⟨hpos, trivial⟩ ⟨hkey, hf, trivial⟩
  case h_2 =>
    refine (required_expr_makes hr).bind fun key hkey => (optField_makes (hr.expr true)).bind fun value hvalue => ?_
    refine .skip fun computed => .skip fun isStatic => ?_
    exact phrase_makes ⟨hpos, trivial⟩ ⟨hkey, hvalue, trivial⟩
  case h_3 => exact phrase_makes ⟨hpos, trivial⟩ trivial

theorem classLike_makes : Makes (r.classLike ix fields) WellFormed := by
  refine .skip fun body => optional_name_makes.bind fun id hid => ?_
  refine (optField_makes (hr.expr ix)).bind fun superClass hsuper => (required fun _ =>
    listOf_makes fun _ => classMember_makes hr).bind fun members hmembers => ?_
  refine ofFields?_makes.bind fun bodyPos hbodyPos => ofFields?_makes.bind fun pos hpos => ?_
  exact .pure (.intro ⟨hpos, hid, hbodyPos⟩ ⟨hsuper, hmembers, trivial⟩)

theorem objectMember_makes : Makes (r.objectMember ix value) WellFormed := by
  refine .skip fun fields => ofFields?_makes.bind fun pos hpos => .skip fun type => ?_
  split
  case h_1 =>
    refine (required_expr_makes hr).bind fun key hkey => (required_expr_makes hr).bind fun value hvalue => ?_
    refine .skip fun role => .skip fun computed => .skip fun method =>
      .skip fun shorthand => ?_
    exact phrase_makes ⟨hpos, trivial⟩ ⟨hkey, hvalue, trivial⟩
  case h_2 =>
    exact (required_expr_makes hr).bind fun argument hargument =>
      phrase_makes ⟨hpos, trivial⟩ ⟨hargument, trivial⟩

theorem patternMember_makes : Makes (r.patternMember ix value) WellFormed := by
  refine .skip fun fields => ofFields?_makes.bind fun pos hpos => .skip fun type => ?_
  split
  case h_1 =>
    refine (required_expr_makes hr).bind fun key hkey => (required_pattern_makes hr).bind fun value hvalue => ?_
    refine .skip fun computed => .skip fun shorthand => ?_
    exact phrase_makes ⟨hpos, trivial⟩ ⟨hkey, hvalue, trivial⟩
  case h_2 =>
    exact (required_pattern_makes hr).bind fun argument hargument =>
      phrase_makes ⟨hpos, trivial⟩ ⟨hargument, trivial⟩

theorem switchCase_makes : Makes (r.switchCase ix value) WellFormed := by
  refine .skip fun fields => (optField_makes (hr.expr ix)).bind fun test htest => ?_
  refine (required fun _ => listOf_makes (hr.stmt ix)).bind fun consequent hconsequent =>
    ofFields?_makes.bind fun pos hpos => ?_
  exact phrase_makes ⟨hpos, trivial⟩ ⟨htest, hconsequent, trivial⟩

theorem catchClause_makes : Makes (r.catchClause ix value) WellFormed := by
  refine .skip fun fields => (optField_makes (hr.pattern ix)).bind fun param hparam => ?_
  refine (required fun _ => block_makes hr).bind fun body hbody => ofFields?_makes.bind fun pos hpos => ?_
  exact phrase_makes ⟨hpos, trivial⟩ ⟨hparam, hbody, trivial⟩

theorem readExpr_makes : Makes (r.readExpr ix value) WellFormed := by
  refine .skip fun fields => .skip fun type => ofFields?_makes.bind fun pos hpos => ?_
  have hexpr (name : String) : Makes (required (r.expr true) name fields) WellFormed := required_expr_makes hr
  have hexprs (name : String) : Makes (required (listOf (r.expr true)) name fields) WellFormed :=
    .required fun _ => listOf_makes (hr.expr true)
  split
  case h_1 => exact ofFields?_makes.bind fun id hid => phrase_makes ⟨hid, trivial⟩ trivial
  case h_2 => exact Literal.ofFields?_makes.bind fun lit hlit => .pure (.intro ⟨hlit.pos, hlit⟩ trivial)
  case h_3 =>
    refine (required fun _ => .list fun _ => TemplateElement.ofJson?_makes).bind fun quasis hquasis => ?_
    exact (hexprs "expressions").bind fun values hvalues => .pure (.intro ⟨hpos, hquasis⟩ ⟨hvalues, trivial⟩)
  case h_6 =>
    refine (required fun _ => listOf_makes fun _ => optOf_makes (hr.expr true)).bind fun elements helements => ?_
    exact phrase_makes ⟨hpos, trivial⟩ ⟨helements, trivial⟩
  case h_7 =>
    refine (required fun _ => listOf_makes fun _ => objectMember_makes hr).bind fun members hmembers => ?_
    exact phrase_makes ⟨hpos, trivial⟩ ⟨hmembers, trivial⟩
  case h_8 => exact wrap_makes (function_makes hr) (fun _ h => ⟨h, trivial⟩) fun _ h => ⟨h, trivial⟩
  case h_9 =>
    refine (required fun _ => listOf_makes (hr.pattern true)).bind fun params hparams => ?_
    refine (required fun _ => arrowBody_makes hr).bind fun body hbody => .skip fun isAsync => ?_
    exact phrase_makes ⟨hpos, trivial⟩ ⟨hparams, hbody, trivial⟩
  case h_10 => exact wrap_makes (classLike_makes hr) (fun _ h => ⟨h, trivial⟩) fun _ h => ⟨h, trivial⟩
  case h_11 | h_12 =>
    refine .skip fun operator => (hexpr "argument").bind fun argument hargument => .skip fun before => ?_
    exact phrase_makes ⟨hpos, trivial⟩ ⟨hargument, trivial⟩
  case h_13 | h_14 =>
    refine .skip fun operator => (hexpr "left").bind fun left hleft => (hexpr "right").bind fun right hright => ?_
    exact phrase_makes ⟨hpos, trivial⟩ ⟨hleft, hright, trivial⟩
  case h_15 =>
    refine .skip fun operator => (required_pattern_makes hr).bind fun target htarget => ?_
    exact (hexpr "right").bind fun value hvalue => phrase_makes ⟨hpos, trivial⟩ ⟨htarget, hvalue, trivial⟩
  case h_16 =>
    refine (hexpr "test").bind fun test htest => (hexpr "consequent").bind fun yes hyes => ?_
    exact (hexpr "alternate").bind fun no hno => phrase_makes ⟨hpos, trivial⟩ ⟨htest, hyes, hno, trivial⟩
  case h_17 | h_18 =>
    refine (hexpr "callee").bind fun callee hcallee => (hexprs "arguments").bind fun arguments harguments => ?_
    exact .skip fun optional => phrase_makes ⟨hpos, trivial⟩ ⟨hcallee, harguments, trivial⟩
  case h_19 => exact wrap_makes (member_makes hr) (fun _ h => ⟨h, trivial⟩) fun _ h => ⟨h, trivial⟩
  case h_20 =>
    exact (hexprs "expressions").bind fun values hvalues => phrase_makes ⟨hpos, trivial⟩ ⟨hvalues, trivial⟩
  case h_21 | h_22 => exact (hexpr "argument").bind fun e he => phrase_makes ⟨hpos, trivial⟩ ⟨he, trivial⟩
  case h_23 => exact (hexpr "expression").bind fun e he => phrase_makes ⟨hpos, trivial⟩ ⟨he, trivial⟩
  all_goals exact phrase_makes ⟨hpos, trivial⟩ trivial

theorem readPattern_makes : Makes (r.readPattern ix value) WellFormed := by
  refine .skip fun fields => .skip fun type => ofFields?_makes.bind fun pos hpos => ?_
  split
  case h_1 => exact ofFields?_makes.bind fun id hid => phrase_makes ⟨hid, trivial⟩ trivial
  case h_2 =>
    refine (required fun _ => listOf_makes fun _ => patternMember_makes hr).bind fun members hmembers => ?_
    exact phrase_makes ⟨hpos, trivial⟩ ⟨hmembers, trivial⟩
  case h_3 =>
    refine (required fun _ => listOf_makes fun _ => optOf_makes (hr.pattern true)).bind
      fun elements helements => ?_
    exact phrase_makes ⟨hpos, trivial⟩ ⟨helements, trivial⟩
  case h_4 =>
    exact (required_pattern_makes hr).bind fun argument hargument =>
      phrase_makes ⟨hpos, trivial⟩ ⟨hargument, trivial⟩
  case h_5 =>
    refine (required_pattern_makes hr).bind fun target htarget => (required_expr_makes hr).bind fun value hvalue => ?_
    exact phrase_makes ⟨hpos, trivial⟩ ⟨htarget, hvalue, trivial⟩
  case h_6 => exact wrap_makes (member_makes hr) (fun _ h => ⟨h, trivial⟩) fun _ h => ⟨h, trivial⟩

theorem readStmt_makes : Makes (r.readStmt ix value) WellFormed := by
  refine .skip fun fields => .skip fun type => ofFields?_makes.bind fun pos hpos => ?_
  have hexpr (name : String) : Makes (required (r.expr true) name fields) WellFormed := required_expr_makes hr
  have hexpr? (name : String) : Makes (optField (r.expr true) name fields) WellFormed := optField_makes (hr.expr true)
  have hstmt (name : String) : Makes (required (r.stmt true) name fields) WellFormed := .required (hr.stmt true)
  split
  case h_1 =>
    refine (hexpr "expression").bind fun e he => .skip fun directive => ?_
    exact phrase_makes ⟨hpos, trivial⟩ ⟨he, trivial⟩
  case h_2 => exact wrap_makes (blockFields_makes hr) (fun _ h => ⟨h, trivial⟩) fun _ h => ⟨h, trivial⟩
  case h_4 => exact wrap_makes (declaration_makes hr) (fun _ h => ⟨h, trivial⟩) fun _ h => ⟨h, trivial⟩
  case h_5 => exact wrap_makes (function_makes hr) (fun _ h => ⟨h, trivial⟩) fun _ h => ⟨h, trivial⟩
  case h_6 => exact wrap_makes (classLike_makes hr) (fun _ h => ⟨h, trivial⟩) fun _ h => ⟨h, trivial⟩
  case h_7 => exact (hexpr? "argument").bind fun e he => phrase_makes ⟨hpos, trivial⟩ ⟨he, trivial⟩
  case h_8 =>
    refine (hexpr "test").bind fun test htest => (hstmt "consequent").bind fun yes hyes => ?_
    refine (optField_makes (hr.stmt true)).bind fun no hno => ?_
    exact phrase_makes ⟨hpos, trivial⟩ ⟨htest, hyes, hno, trivial⟩
  case h_9 =>
    refine (optField_makes fun _ => forInit_makes hr).bind fun init hinit => (hexpr? "test").bind fun test htest => ?_
    refine (hexpr? "update").bind fun update hupdate => (hstmt "body").bind fun body hbody => ?_
    exact phrase_makes ⟨hpos, trivial⟩ ⟨hinit, htest, hupdate, hbody, trivial⟩
  case h_10 =>
    refine (required fun _ => forHead_makes hr).bind fun left hleft => (hexpr "right").bind fun right hright => ?_
    exact (hstmt "body").bind fun body hbody => phrase_makes ⟨hpos, trivial⟩ ⟨hleft, hright, hbody, trivial⟩
  case h_11 =>
    refine (required fun _ => forHead_makes hr).bind fun left hleft => (hexpr "right").bind fun right hright => ?_
    refine (hstmt "body").bind fun body hbody => .skip fun isAwait => ?_
    exact phrase_makes ⟨hpos, trivial⟩ ⟨hleft, hright, hbody, trivial⟩
  case h_12 | h_13 =>
    refine (hexpr "test").bind fun test htest => (hstmt "body").bind fun body hbody => ?_
    exact phrase_makes ⟨hpos, trivial⟩ ⟨htest, hbody, trivial⟩
  case h_14 | h_15 => exact optional_name_makes.bind fun label hlabel => .pure (.intro ⟨hpos, hlabel⟩ trivial)
  case h_16 => exact (hexpr "argument").bind fun e he => phrase_makes ⟨hpos, trivial⟩ ⟨he, trivial⟩
  case h_17 =>
    refine (required fun _ => block_makes hr).bind fun body hbody => ?_
    refine (optField_makes fun _ => catchClause_makes hr).bind fun handler hhandler => ?_
    refine (optField_makes fun _ => block_makes hr).bind fun finalizer hfinalizer => ?_
    exact phrase_makes ⟨hpos, trivial⟩ ⟨hbody, hhandler, hfinalizer, trivial⟩
  case h_18 =>
    refine (hexpr "discriminant").bind fun e he => ?_
    refine (required fun _ => listOf_makes fun _ => switchCase_makes hr).bind fun cases hcases => ?_
    exact phrase_makes ⟨hpos, trivial⟩ ⟨he, hcases, trivial⟩
  all_goals exact phrase_makes ⟨hpos, trivial⟩ trivial

end Readers

theorem readers_careful (depth : Nat) : (readers depth).Careful := by
  induction depth with
  | zero => exact ⟨fun _ _ => .none, fun _ _ => .none, fun _ _ => .none⟩
  | succ depth ih =>
    exact ⟨fun _ _ => Readers.readExpr_makes ih, fun _ _ => Readers.readPattern_makes ih,
      fun _ _ => Readers.readStmt_makes ih⟩

end Retarget.Syntax
