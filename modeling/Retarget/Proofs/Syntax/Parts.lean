import Retarget.Proofs.Syntax.Leaf

/-!
# Phrases inside phrases

`Tree.Everywhere P t` says that `P` holds of `t` and of all phrases inside it. Two properties of programs are of this
form:

* `Tree.WellFormed`: all positions are in range, and no literal has `null` for a pattern.
* `Tree.NoneBare`: no declaration and no block stands where an expression or a pattern could stand; there it is written
  without its type.
-/

namespace Retarget.Syntax.Tree

def children : Tree s → List (Sigma Tree)
  | nil | absent | identifier _ | literal _ | thisExpr _ | superExpr _ | unsupportedExpr .. | idPattern _
  | staticBlock _ | emptyStmt _ | breakStmt .. | continueStmt .. | unsupportedStmt .. => []
  | present a | template _ a _ | array a _ | object a _ | functionExpr a | classExpr a | unary _ a _ _
  | update _ a _ _ | memberExpr a | sequence a _ | awaitExpr a _ | spread a _ | parenthesized a _ | spreadMember a _
  | objectPattern a _ | arrayPattern a _ | restPattern a _ | memberPattern a | patternRest a _ | arrowBlock a
  | arrowValue a | block a _ | declaration _ a _ | initDeclaration a | initExpr a | headDeclaration a | headPattern a
  | exprStmt a _ _ | blockStmt a | variableStmt a | functionStmt a | classStmt a | returnStmt a _ | throwStmt a _ =>
    [⟨_, a⟩]
  | cons a b | arrow a b _ _ | binary _ a b _ | logical _ a b _ | assign _ a b _ | call a b _ _ | newExpr a b _ _
  | member a b _ _ _ | property a b _ _ _ _ _ | defaultPattern a b _ | patternProperty a b _ _ _ | function _ a b _ _ _
  | classLike _ a b _ _ | method a b _ _ _ _ | field a b _ _ _ | declarator a b _ | switchCase a b _ | catchClause a b _
  | whileStmt a b _ | doWhile a b _ | switchStmt a b _ => [⟨_, a⟩, ⟨_, b⟩]
  | conditional a b c _ | ifStmt a b c _ | forIn a b c _ | forOf a b c _ _ | tryStmt a b c _ =>
    [⟨_, a⟩, ⟨_, b⟩, ⟨_, c⟩]
  | forStmt a b c d _ => [⟨_, a⟩, ⟨_, b⟩, ⟨_, c⟩, ⟨_, d⟩]

/-- `Q` holds of all phrases in a list. -/
def All (Q : (s : Phrase) → Tree s → Prop) : List (Sigma Tree) → Prop
  | [] => True
  | c :: more => Q c.1 c.2 ∧ All Q more

/-- `P` holds of a phrase and of all phrases inside it. -/
inductive Everywhere (P : (s : Phrase) → Tree s → Prop) : {s : Phrase} → Tree s → Prop
  | intro {s : Phrase} {t : Tree s} (here : P s t) (inside : ∀ c ∈ t.children, Everywhere P c.2) : Everywhere P t

section

variable {P Q : (s : Phrase) → Tree s → Prop} {s : Phrase}

theorem all_iff {parts : List (Sigma Tree)} : All Q parts ↔ ∀ c ∈ parts, Q c.1 c.2 := by
  induction parts with
  | nil => simp [All]
  | cons c parts ih => simp [All, ih]

theorem everywhere_iff {t : Tree s} : Everywhere P t ↔ P s t ∧ All (fun _ c => Everywhere P c) t.children := by
  rw [all_iff]
  constructor
  · rintro ⟨here, inside⟩
    exact ⟨here, inside⟩
  · rintro ⟨here, inside⟩
    exact ⟨here, inside⟩

/-! ## Lists -/

theorem ofList_toList (list : Tree (.list s)) : ofList list.toList = list := by
  have hall (p : Phrase) (t : Tree p) : ∀ s (h : p = .list s), ofList (h ▸ t).toList = h ▸ t := by
    induction t with
    | nil =>
      intro s h
      cases h
      rfl
    | cons head tail _ ih =>
      intro s h
      cases h
      rw [toList_cons, ofList, ih _ rfl]
    | _ =>
      intro s h
      cases h
  exact hall _ list s rfl

theorem everywhere_ofList (hlist : ∀ list : Tree (.list s), P _ list) {items : List (Tree s)} :
    Everywhere P (ofList items) ↔ ∀ item ∈ items, Everywhere P item := by
  induction items with
  | nil =>
    rw [everywhere_iff]
    exact iff_of_true ⟨hlist _, trivial⟩ (by simp)
  | cons item items ih =>
    rw [everywhere_iff, List.forall_mem_cons, ← ih]
    exact ⟨fun h => ⟨h.2.1, h.2.2.1⟩, fun h => ⟨hlist _, h.1, h.2, trivial⟩⟩

theorem everywhere_ofOption (hopt : ∀ opt : Tree (.opt s), P _ opt) {item : Option (Tree s)} :
    Everywhere P (ofOption item) ↔ ∀ t ∈ item, Everywhere P t := by
  rw [everywhere_iff]
  cases item with
  | none => exact iff_of_true ⟨hopt _, trivial⟩ (by simp)
  | some t => exact ⟨fun h => by simpa using h.2.1, fun h => ⟨hopt _, h t rfl, trivial⟩⟩

theorem toJson_ofList (items : List (Tree s)) : (ofList items).toJson = .arr (items.map toJson) := by
  induction items with
  | nil => rfl
  | cons item items ih =>
    show Json.push item.toJson (ofList items).toJson = _
    rw [ih]
    rfl

end

/-! ## Well-formed phrases -/

def Readable (t : Tree s) : Prop :=
  t.pos.InRange ∧ match t with
    | literal lit => lit.Readable
    | template quasis _ _ => ∀ e ∈ quasis, e.pos.InRange
    | function id .. | breakStmt id _ | continueStmt id _ => ∀ i ∈ id, i.pos.InRange
    | classLike id _ _ bodyPos _ => (∀ i ∈ id, i.pos.InRange) ∧ bodyPos.InRange
    | _ => True

def WellFormed (t : Tree s) : Prop := Everywhere (fun _ t => t.Readable) t

variable {s : Phrase}

theorem WellFormed.intro {t : Tree s} (h : t.Readable)
    (hparts : All (fun _ c => c.WellFormed) t.children) : t.WellFormed :=
  everywhere_iff.2 ⟨h, hparts⟩

theorem WellFormed.readable {t : Tree s} (h : t.WellFormed) : t.Readable := (everywhere_iff.1 h).1

theorem WellFormed.parts {t : Tree s} (h : t.WellFormed) : All (fun _ c => c.WellFormed) t.children :=
  (everywhere_iff.1 h).2

/-! ## Phrases without their type -/

/-- A declaration or a block in the place of an expression or a pattern. -/
def isBare : Tree s → Bool
  | initDeclaration _ | headDeclaration _ | arrowBlock _ => true
  | _ => false

/-- No phrase is without its type where phrases of other types could stand. -/
def NoneBare (t : Tree s) : Prop := Everywhere (fun _ t => t.isBare = false) t

theorem noneBare_iff {t : Tree s} (h : t.isBare = false) : t.NoneBare ↔ All (fun _ c => c.NoneBare) t.children :=
  everywhere_iff.trans (and_iff_right h)

theorem not_noneBare {t : Tree s} (h : t.isBare = true) : ¬t.NoneBare :=
  fun hnone => Bool.false_ne_true ((everywhere_iff.1 hnone).1.symm.trans h)

end Retarget.Syntax.Tree
