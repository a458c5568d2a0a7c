import Retarget.Proofs.Lower.Destructure.Binding

/-!
# Running declarators

The part of the language that values are taken apart with, as nodes of a program.

* `Evaluates setting g vars heap code v heap'`: evaluated with these variables, the code has the value `v` and leaves
  the heap `heap'`. A name stands for the variable of its declaration, whatever it is called.
* `Runs setting g σ steps σ'`: the declarators `steps` are run in order.
* `Evaluates.unique` and `Runs.unique`: there is at most one way to do so.
-/

namespace Retarget.Destructure

/-- The values of the variables that have one, by their declarations. -/
abbrev Vars := NodeId → Option Val

structure Setting where
  runtime : Runtime Address
  outside : NodeId → Vars → Heap → Option (Val × Heap)

abbrev Graph := NodeId → Option Kind

inductive Code where
  | nodes (ids : List NodeId)
  | kind (kind : Kind)

section

variable (setting : Setting) (g : Graph) (vars : Vars)

/-- Evaluated with the variables `vars`, the code has the value `v` and leaves the heap `heap'`. -/
inductive Evaluates : Heap → Code → Val → Heap → Prop
  | node {id kind v heap heap'} (h : g id = some kind) (hv : Evaluates heap (.kind kind) v heap') :
    Evaluates heap (.nodes [id]) v heap'
  | outside {id v heap heap'} (h : g id = none) (hv : setting.outside id vars heap = some (v, heap')) :
    Evaluates heap (.nodes [id]) v heap'
  | next {id id' ids v w heap heap₁ heap₂} (hfirst : Evaluates heap (.nodes [id]) v heap₁)
      (hrest : Evaluates heap₁ (.nodes (id' :: ids)) w heap₂) : Evaluates heap (.nodes (id :: id' :: ids)) w heap₂
  | literal {kind c heap} (hc : kind.primitive? = some c) : Evaluates heap (.kind kind) (.primitive c) heap
  | name {text d v heap} (hd : vars d = some v) : Evaluates heap (.kind (.identifier text (some d))) v heap
  | binary {operator left right v w heap heap₁ heap₂} (hleft : Evaluates heap (.nodes [left]) v heap₁)
      (hright : Evaluates heap₁ (.nodes [right]) w heap₂) :
      Evaluates heap (.kind (.binary operator left right)) (v.binary setting.runtime operator w) heap₂
  | conditional {test consequent alternate v w heap heap₁ heap₂} (htest : Evaluates heap (.nodes [test]) v heap₁)
      (hvalue : Evaluates heap₁ (.nodes [if v.truthy then consequent else alternate]) w heap₂) :
      Evaluates heap (.kind (.conditional test consequent alternate)) w heap₂
  | property {object key name a r heap heap'} (hkey : g key = some (.string name))
      (hobject : Evaluates heap (.nodes [object]) (.object a) heap') (ha : heap'[a]? = some (.object r)) :
      Evaluates heap (.kind (.member object key false)) (r.read name) heap'
  | element {object key a index array heap heap₁ heap₂} (hobject : Evaluates heap (.nodes [object]) (.object a) heap₁)
      (hkey : Evaluates heap₁ (.nodes [key]) (.primitive (.number (Nat.toFloat index))) heap₂)
      (ha : heap₂[a]? = some (.array array)) :
      Evaluates heap (.kind (.member object key true)) (array.read index) heap₂
  /-- `array.slice(index)` -/
  | slice {callee start object key a index array heap heap₁ heap₂}
      (hcallee : g callee = some (.member object key false)) (hkey : g key = some (.string "slice"))
      (hobject : Evaluates heap (.nodes [object]) (.object a) heap₁)
      (hstart : Evaluates heap₁ (.nodes [start]) (.primitive (.number (Nat.toFloat index))) heap₂)
      (ha : heap₂[a]? = some (.array array)) :
      Evaluates heap (.kind (.call callee [⟨false, start⟩] false)) (.object heap₂.length)
        (heap₂ ++ [.array (array.drop index)])
  | emptyObject {heap} : Evaluates heap (.kind (.object [])) (.object heap.length) (heap ++ [.object ∅])
  /-- `Object.assign(target, source)`, with the global `Object` -/
  | assign {callee target source object key a b r r' heap heap₁ heap₂}
      (hcallee : g callee = some (.member object key false)) (hobject : g object = some (.identifier "Object" none))
      (hkey : g key = some (.string "assign")) (htarget : Evaluates heap (.nodes [target]) (.object a) heap₁)
      (hsource : Evaluates heap₁ (.nodes [source]) (.object b) heap₂) (ha : heap₂[a]? = some (.object r))
      (hb : heap₂[b]? = some (.object r')) :
      Evaluates heap (.kind (.call callee [⟨false, target⟩, ⟨false, source⟩] false)) (.object a)
        (heap₂.set a (.object (r ∪ r')))
  /-- `delete object.name` -/
  | delete {access object key name a r heap heap'} (haccess : g access = some (.member object key false))
      (hkey : g key = some (.string name)) (hobject : Evaluates heap (.nodes [object]) (.object a) heap')
      (ha : heap'[a]? = some (.object r)) :
      Evaluates heap (.kind (.unary .delete access)) (.primitive (.boolean true)) (heap'.set a (.object (r.erase name)))
  | sequence {ids v heap heap'} (hv : Evaluates heap (.nodes ids) v heap') :
    Evaluates heap (.kind (.sequence ids)) v heap'

end

variable {setting : Setting} {g : Graph} {vars : Vars} {i j : Nat}

/-! ## Indices -/

theorem eq_of_toFloat_eq (hi : i < 2 ^ 53) (h : Nat.toFloat i = Nat.toFloat j) : i = j :=
  Binary64.unpack_ofNat_inj hi (congrArg (fun x => x.toModel.unpack) h)

theorem eq_or_le_of_toFloat_eq (a : DenseArray) (h : Nat.toFloat i = Nat.toFloat j) :
    i = j ∨ a.elements.length ≤ i ∧ a.elements.length ≤ j := by
  have hlength := a.length_lt
  by_cases hi : i < 2 ^ 53
  · exact .inl (eq_of_toFloat_eq hi h)
  by_cases hj : j < 2 ^ 53
  · exact .inl (eq_of_toFloat_eq hj h.symm).symm
  · exact .inr (by omega)

theorem DenseArray.read_eq_of_toFloat_eq (a : DenseArray) (h : Nat.toFloat i = Nat.toFloat j) :
    a.read i = a.read j := by
  obtain rfl | ⟨hi, hj⟩ := eq_or_le_of_toFloat_eq a h
  · rfl
  · rw [read, read, List.getElem?_eq_none hi, List.getElem?_eq_none hj]

theorem DenseArray.drop_eq_of_toFloat_eq (a : DenseArray) (h : Nat.toFloat i = Nat.toFloat j) :
    a.drop i = a.drop j := by
  obtain rfl | ⟨hi, hj⟩ := eq_or_le_of_toFloat_eq a h
  · rfl
  · simp only [drop, List.drop_eq_nil_of_le hi, List.drop_eq_nil_of_le hj]

/-! ## Uniqueness -/

/-- **Code has at most one value, and leaves at most one heap.** -/
theorem Evaluates.unique {code : Code} {heap heap₁ heap₂ : Heap} {v w : Val}
    (h : Evaluates setting g vars heap code v heap₁) (h' : Evaluates setting g vars heap code w heap₂) :
    v = w ∧ heap₁ = heap₂ := by
  induction h generalizing w heap₂ with
  | node h _ ih =>
    cases h' with
    | node h' hv' =>
      cases h.symm.trans h'
      exact ih hv'
    | outside h' => cases h.symm.trans h'
  | outside h hv =>
    cases h' with
    | node h' => cases h.symm.trans h'
    | outside _ hv' =>
      cases hv.symm.trans hv'
      exact ⟨rfl, rfl⟩
  | next _ _ ihfirst ihrest =>
    cases h' with
    | next hfirst' hrest' =>
      obtain ⟨-, rfl⟩ := ihfirst hfirst'
      exact ihrest hrest'
  | literal hc =>
    cases h' with
    | literal hc' =>
      cases hc.symm.trans hc'
      exact ⟨rfl, rfl⟩
    | _ => cases hc
  | name hd =>
    cases h' with
    | literal hc => cases hc
    | name hd' =>
      cases hd.symm.trans hd'
      exact ⟨rfl, rfl⟩
  | binary _ _ ihleft ihright =>
    cases h' with
    | literal hc => cases hc
    | binary hleft' hright' =>
      obtain ⟨rfl, rfl⟩ := ihleft hleft'
      obtain ⟨rfl, rfl⟩ := ihright hright'
      exact ⟨rfl, rfl⟩
  | conditional _ _ ihtest ihvalue =>
    cases h' with
    | literal hc => cases hc
    | conditional htest' hvalue' =>
      obtain ⟨rfl, rfl⟩ := ihtest htest'
      exact ihvalue hvalue'
  | property hkey _ ha ihobject =>
    cases h' with
    | literal hc => cases hc
    | property hkey' hobject' ha' =>
      obtain ⟨hobject, rfl⟩ := ihobject hobject'
      cases hobject
      cases hkey.symm.trans hkey'
      cases ha.symm.trans ha'
      exact ⟨rfl, rfl⟩
  | element _ _ ha ihobject ihkey =>
    cases h' with
    | literal hc => cases hc
    | element hobject' hkey' ha' =>
      obtain ⟨hobject, rfl⟩ := ihobject hobject'
      obtain ⟨hindex, rfl⟩ := ihkey hkey'
      cases hobject
      cases ha.symm.trans ha'
      injection hindex with hindex
      injection hindex with hindex
      exact ⟨DenseArray.read_eq_of_toFloat_eq _ hindex, rfl⟩
  | slice hcallee hkey _ _ ha ihobject ihstart =>
    cases h' with
    | literal hc => cases hc
    | slice hcallee' hkey' hobject' hstart' ha' =>
      cases hcallee.symm.trans hcallee'
      obtain ⟨hobject, rfl⟩ := ihobject hobject'
      obtain ⟨hindex, rfl⟩ := ihstart hstart'
      cases hobject
      cases ha.symm.trans ha'
      injection hindex with hindex
      injection hindex with hindex
      rw [DenseArray.drop_eq_of_toFloat_eq _ hindex]
      exact ⟨rfl, rfl⟩
  | emptyObject =>
    cases h' with
    | literal hc => cases hc
    | emptyObject => exact ⟨rfl, rfl⟩
  | assign hcallee _ _ _ _ ha hb ihtarget ihsource =>
    cases h' with
    | literal hc => cases hc
    | assign _ _ _ htarget' hsource' ha' hb' =>
      obtain ⟨htarget, rfl⟩ := ihtarget htarget'
      obtain ⟨hsource, rfl⟩ := ihsource hsource'
      cases htarget
      cases hsource
      cases ha.symm.trans ha'
      cases hb.symm.trans hb'
      exact ⟨rfl, rfl⟩
  | delete haccess hkey _ ha ihobject =>
    cases h' with
    | literal hc => cases hc
    | delete haccess' hkey' hobject' ha' =>
      cases haccess.symm.trans haccess'
      cases hkey.symm.trans hkey'
      obtain ⟨hobject, rfl⟩ := ihobject hobject'
      cases hobject
      cases ha.symm.trans ha'
      exact ⟨rfl, rfl⟩
  | sequence _ ih =>
    cases h' with
    | literal hc => cases hc
    | sequence hv' => exact ih hv'

/-! ## Declarators -/

structure Store where
  vars : Vars
  heap : Heap

/-- The declarators `steps` are run one after the other. -/
inductive Runs (setting : Setting) (g : Graph) : Store → List NodeId → Store → Prop
  | done {σ} : Runs setting g σ [] σ
  | step {σ σ' d name init v heap steps} (h : g d = some (.declarator name (some init)))
      (hv : Evaluates setting g σ.vars σ.heap (.nodes [init]) v heap)
      (hmore : Runs setting g ⟨Function.update σ.vars d (some v), heap⟩ steps σ') : Runs setting g σ (d :: steps) σ'

namespace Runs

variable {σ σ₁ σ₂ : Store} {steps steps' : List NodeId}

section

variable (h : Runs setting g σ steps σ₁)
include h

/-- **Declarators can be run in at most one way.** -/
theorem unique (h' : Runs setting g σ steps σ₂) : σ₁ = σ₂ := by
  induction h with
  | done =>
    cases h' with
    | done => rfl
  | step h hv _ ih =>
    cases h' with
    | step h' hv' hmore' =>
      cases h.symm.trans h'
      obtain ⟨rfl, rfl⟩ := hv.unique hv'
      exact ih hmore'

theorem append (h' : Runs setting g σ₁ steps' σ₂) : Runs setting g σ (steps ++ steps') σ₂ := by
  induction h with
  | done => exact h'
  | step h hv _ ih => exact .step h hv (ih h')

theorem vars_eq {x : NodeId} (hx : x ∉ steps) : σ₁.vars x = σ.vars x := by
  induction h with
  | done => rfl
  | step _ _ _ ih =>
    rw [List.mem_cons, not_or] at hx
    rw [ih hx.2]
    exact Function.update_of_ne hx.1 _ _

end

end Runs

end Retarget.Destructure
