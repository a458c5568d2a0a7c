import Retarget.Proofs.Document.Field
import Retarget.Proofs.Mlir.Canonical

/-!
# What merging keeps

What a program does is what its runs show. An operation that cannot be merged starts with the values of its operands,
enters its regions in any order and any number of times, and finishes with a value and a heap that are not up to the
program. An operation that can be merged is silent, and its value is given by a `Meaning`. A run may stop anywhere.

* `Head.key_inj`: operations with the same key have the same name, operands and attributes.
* `Op.behaviour_mergeList`: merging keeps the runs of a region, if what stands for a result has its value.
* `Op.behaviour_merge`: merging keeps the runs of a program, if what can be merged does not read the heap.
-/

namespace Retarget.Mlir

open List Head

/-! ## Keys -/

theorem toList_operandKey (v : Value) : (operandKey v).toList = "Value(".toList ++ (Nat.toDigits 10 v ++ [')']) := by
  simp [operandKey]

theorem notMem_operandKey {c : Char} (hc : c.isDigit = false) (htext : c ∉ "Value()".toList) (v : Value) :
    c ∉ (operandKey v).toList := by
  simp_all [toList_operandKey, notMem_toDigits hc v]

theorem operandKey_inj {v w : Value} (h : (operandKey v).toList = (operandKey w).toList) : v = w := by
  rw [toList_operandKey, toList_operandKey, append_cancel_left_eq, append_cancel_right_eq] at h
  exact Json.toDigits_injective h

/-- The operands as they stand in a key. -/
def operandsText : List Value → List Char
  | [] => []
  | [v] => (operandKey v).toList
  | v :: w :: vs => (operandKey v).toList ++ ',' :: ' ' :: operandsText (w :: vs)

theorem toList_commaSeparated (vs : List Value) : (commaSeparated (vs.map operandKey)).toList = operandsText vs := by
  rw [commaSeparated]
  fun_induction operandsText vs with
  | case1 => rfl
  | case2 v => simp
  | case3 v w vs ih => simpa using ih

theorem bracket_notMem_operandsText (vs : List Value) : ']' ∉ operandsText vs := by
  have hbracket (v : Value) : ']' ∉ (operandKey v).toList := notMem_operandKey rfl (by decide) v
  fun_induction operandsText vs with
  | case1 => simp
  | case2 v => exact hbracket v
  | case3 v w vs ih => simp [ih, hbracket v]

theorem cut_inj {c : Char} {a a' b b' : List Char} (h : c ∉ a) (h' : c ∉ a') (heq : a ++ c :: b = a' ++ c :: b') :
    a = a' ∧ b = b' := by
  induction a generalizing a' with
  | nil =>
    cases a' with
    | nil => exact ⟨rfl, (cons.inj heq).2⟩
    | cons y a' => exact absurd ((cons.inj heq).1 ▸ mem_cons_self) h'
  | cons x a ih =>
    cases a' with
    | nil => exact absurd ((cons.inj heq).1 ▸ mem_cons_self) h
    | cons y a' =>
      obtain ⟨rfl, hrest⟩ := cons.inj heq
      obtain ⟨rfl, rfl⟩ := ih (not_mem_of_not_mem_cons h) (not_mem_of_not_mem_cons h') hrest
      exact ⟨rfl, rfl⟩

theorem operandsText_inj {vs ws : List Value} (h : operandsText vs = operandsText ws) : vs = ws := by
  have hcomma (v : Value) : ',' ∉ (operandKey v).toList := notMem_operandKey rfl (by decide) v
  have hne (v : Value) : (operandKey v).toList ≠ [] := by simp [toList_operandKey]
  fun_induction operandsText vs generalizing ws with
  | case1 =>
    fun_cases operandsText ws with
    | case1 => rfl
    | case2 w => exact absurd h.symm (hne w)
    | case3 w w' ws => simp [operandsText] at h
  | case2 v =>
    fun_cases operandsText ws with
    | case1 => exact absurd h (hne v)
    | case2 w => rw [operandKey_inj h]
    | case3 w w' ws => exact absurd (by simp [h, operandsText]) (hcomma v)
  | case3 v v' vs ih =>
    fun_cases operandsText ws with
    | case1 => simp [operandsText] at h
    | case2 w =>
      rw [operandsText] at h
      exact absurd (by simp [← h]) (hcomma w)
    | case3 w w' ws =>
      obtain ⟨hfirst, hrest⟩ := cut_inj (hcomma v) (hcomma w) h
      rw [operandKey_inj hfirst, ih (cons.inj hrest).2]

theorem Opcode.bracket_notMem_name (opcode : Opcode) : '[' ∉ opcode.name.toList := by
  cases opcode with
  | binary operator => cases operator <;> decide
  | unary operator => cases operator <;> decide
  | _ => decide

namespace Head

/-- The attributes as they stand in a key. -/
def attrsText (h : Head) : String := String.intercalate "," (h.attrs.map fun (key, value) => key ++ "=" ++ value.text)

theorem key_inj {h h' : Head} (heq : h.key = h'.key) :
    h.opcode.name = h'.opcode.name ∧ h.operands = h'.operands ∧ h.attrsText = h'.attrsText := by
  have hchars (h : Head) : h.key.toList =
      h.opcode.name.toList ++ '[' :: (operandsText h.operands ++ ']' :: h.attrsText.toList) := by
    simp [key, attrsText, toList_commaSeparated]
  have hlist := congrArg String.toList heq
  rw [hchars, hchars] at hlist
  obtain ⟨hname, hrest⟩ := cut_inj h.opcode.bracket_notMem_name h'.opcode.bracket_notMem_name hlist
  obtain ⟨hoperands, hattrs⟩ := cut_inj (bracket_notMem_operandsText _) (bracket_notMem_operandsText _) hrest
  exact ⟨String.toList_inj.1 hname, operandsText_inj hoperands, String.toList_inj.1 hattrs⟩

end Head

/-! ## Runs -/

variable {γ η α : Type}

/-- The value of an operation that can be merged, from its name, its attributes and the values of its operands. It may
depend on the call that the operation is part of, which has the value of `this`, and on the heap. -/
abbrev Meaning (γ η α : Type) := γ → η → String → String → List α → α

inductive Event (γ η α : Type) where
  | start (opcode : Opcode) (attrs : Attrs) (args : List α)
  | enter (call : γ) (heap : η) (region : Nat)
  | leave
  | finish (value : α) (heap : η)

/-- What can be observed of the runs from some point on. -/
abbrev Behaviour (γ η α : Type) := List (Event γ η α) → Prop

/-- The regions of an operation are entered one after the other. -/
inductive Rounds (inside : γ → η → Nat → Behaviour γ η α) : Behaviour γ η α
  | done : Rounds inside []
  | next {call heap region events more} : inside call heap region events → Rounds inside more →
      Rounds inside (.enter call heap region :: events ++ .leave :: more)

/-- An operation with effects: the run stops before it, or inside of it, or goes on with its value and the heap. -/
inductive Effect (first : Event γ η α) (inside : γ → η → Nat → Behaviour γ η α) (after : α → η → Behaviour γ η α) :
    Behaviour γ η α
  | before : Effect first inside after []
  | within {events} : Rounds inside events → Effect first inside after (first :: events)
  | past {events value heap more} : Rounds inside events → after value heap more →
      Effect first inside after (first :: events ++ .finish value heap :: more)

namespace Head

def value (m : Meaning γ η α) (call : γ) (heap : η) (ρ : Value → α) (h : Head) : α :=
  m call heap h.opcode.name h.attrsText (h.operands.map ρ)

/-- The values after an operation that has the given one. -/
def define (ρ : Value → α) (h : Head) (value : α) : Value → α := fun v => if h.result = some v then value else ρ v

end Head

namespace Op

mutual

/-- The runs of operations in a row, in a call and from a heap on, where the results `v` that can be seen have the
values `ρ v`. An isolated region is part of other calls. -/
def behaviour (m : Meaning γ η α) : List Op → γ → η → (Value → α) → Behaviour γ η α
  | [], _, _, _ => (· = [])
  | mk head regions :: more, call, heap, ρ =>
    match if regions.isEmpty then head.mergeable? else none with
    | some _ => behaviour m more call heap (head.define ρ (head.value m call heap ρ))
    | none =>
      Effect (.start head.opcode head.attrs (head.operands.map ρ))
        (fun call' heap' i events => (head.opcode.isIsolated ∨ call' = call) ∧
          regionBehaviour m regions i call' heap' ρ events)
        (fun value heap' => behaviour m more call heap' (head.define ρ value))

def regionBehaviour (m : Meaning γ η α) : List (List Op) → Nat → γ → η → (Value → α) → Behaviour γ η α
  | [], _, _, _, _ => fun _ => False
  | region :: _, 0, call, heap, ρ => behaviour m region call heap ρ
  | _ :: more, i + 1, call, heap, ρ => regionBehaviour m more i call heap ρ

end

variable {m : Meaning γ η α} {call : γ} {visible shown : List Value} {available : Available}
  {replaced replaced' : Replaced} {head : Head} {regions : List (List Op)} {ops more : List Op} {ρ ρ' : Value → α}

/-! ## Values -/

variable {heap : η} {v result : Value} {value : α}

theorem value_congr (h : ∀ v ∈ head.operands, ρ v = ρ' v) : head.value m call heap ρ = head.value m call heap ρ' := by
  rw [value, value, map_congr_left h]

theorem define_of_notMem (h : v ∉ head.result.toList) : head.define ρ value v = ρ v :=
  if_neg fun heq => h (by simp [heq])

/-- The values `ρ` before merging and `ρ'` after it: what stands for a result has its value, and what is available has
the value of the operation that it is available for. -/
structure Agrees (m : Meaning γ η α) (call : γ) (visible shown : List Value) (available : Available)
    (replaced : Replaced) (ρ ρ' : Value → α) : Prop where
  shown_subset : shown ⊆ visible
  value_eq : ∀ v ∈ visible, ρ' (replaced.getD v v) = ρ v
  computed : ∀ (key : String) (v : Value), available[key]? = some v →
    ∃ head : Head, head.key = key ∧ head.operands ⊆ shown ∧ ∀ heap, ρ' v = head.value m call heap ρ'

namespace Agrees

section

variable (h : Agrees m call visible shown available replaced ρ ρ')
include h

theorem map_operands (hoperands : head.operands ⊆ visible) :
    (head.replace replaced).operands.map ρ' = head.operands.map ρ := by
  rw [Head.replace, map_map]
  exact map_congr_left fun v hv => h.value_eq v (hoperands hv)

theorem value_replace (hoperands : head.operands ⊆ visible) :
    (head.replace replaced).value m call heap ρ' = head.value m call heap ρ := by
  rw [value, h.map_operands hoperands]
  rfl

theorem congr (hvisible : ∀ v ∈ visible, replaced'[v]? = replaced[v]?) :
    Agrees m call visible shown available replaced' ρ ρ' where
  shown_subset := h.shown_subset
  value_eq v hv := by
    rw [Std.ExtTreeMap.getD_eq_getD_getElem?, hvisible v hv, ← Std.ExtTreeMap.getD_eq_getD_getElem?]
    exact h.value_eq v hv
  computed := h.computed

theorem inside {call' : γ} (hcall : head.opcode.isIsolated ∨ call' = call) :
    Agrees m call' (head.inside visible) (head.inside shown) (if head.opcode.isIsolated then ∅ else available) replaced
      ρ ρ' := by
  unfold Head.inside
  split
  case isTrue => exact ⟨by simp, by simp, fun key v hv => by simp at hv⟩
  case isFalse hopen =>
    obtain rfl := hcall.resolve_left hopen
    exact h

end

variable {later : List Value}

section

variable (h : Agrees m call visible shown available replaced ρ ρ')
include h

theorem define_shown
    (hmerging : Merging visible shown available replaced (head.result.toList ++ later)) (hv : v ∈ shown) :
    (head.replace replaced).define ρ' value v = ρ' v :=
  define_of_notMem fun hresult => hmerging.unseen v (mem_append_left _ hresult) (h.shown_subset hv)

theorem keep (hmerging : Merging visible shown available replaced (head.result.toList ++ later)) (value : α) :
    Agrees m call (head.result.toList ++ visible) (head.result.toList ++ shown) available replaced
      (head.define ρ value) ((head.replace replaced).define ρ' value) := by
  constructor
  case shown_subset => exact append_subset.2 ⟨by simp, by simp [h.shown_subset]⟩
  case value_eq =>
    intro v hv
    rcases mem_append.1 hv with hresult | hv
    · rw [Std.ExtTreeMap.getD_eq_getD_getElem?, hmerging.unreplaced v (mem_append_left _ hresult)]
      have hresult : head.result = some v := by simpa using hresult
      simp [Head.define, Head.replace, hresult]
    · rw [h.define_shown hmerging (hmerging.stands v hv), define_of_notMem fun hresult =>
        hmerging.unseen v (mem_append_left _ hresult) hv]
      exact h.value_eq v hv
  case computed =>
    intro key v hv
    obtain ⟨op, hkey, hoperands, hvalue⟩ := h.computed key v hv
    refine ⟨op, hkey, fun w hw => mem_append_right _ (hoperands hw), fun heap => ?_⟩
    rw [h.define_shown hmerging (hmerging.available_mem key v hv), hvalue heap]
    exact value_congr fun w hw => (h.define_shown hmerging (hoperands hw)).symm

theorem remember (hoperands : head.operands ⊆ shown) (hvalue : ∀ heap, ρ' result = head.value m call heap ρ') :
    Agrees m call visible shown (available.insert head.key result) replaced ρ ρ' := by
  refine { h with computed := fun key v hv => ?_ }
  rw [Std.ExtTreeMap.getElem?_insert] at hv
  split at hv
  case isTrue hkey =>
    cases hv
    exact ⟨head, by simpa using hkey, hoperands, hvalue⟩
  case isFalse => exact h.computed key v hv

theorem drop {earlier : Value} (hresult : head.result = some result) (hvalue : ρ' earlier = value) :
    Agrees m call (result :: visible) shown available (replaced.insert result earlier) (head.define ρ value) ρ' where
  shown_subset := subset_cons_of_subset _ h.shown_subset
  value_eq v hv := by
    rw [Std.ExtTreeMap.getD_insert]
    split
    case isTrue heq =>
      obtain rfl : result = v := by simpa using heq
      simp [define, hresult, hvalue]
    case isFalse hne =>
      have hne : result ≠ v := by simpa using hne
      rw [h.value_eq v ((mem_cons.1 hv).resolve_left hne.symm),
        define_of_notMem (by simpa [hresult] using hne.symm)]
  computed := h.computed

end

end Agrees

/-! ## Merging -/

mutual

def HeapFree (m : Meaning γ η α) : Op → Prop
  | mk head regions =>
    (head.opcode.isMergeable → ∀ call heap heap', m call heap head.opcode.name = m call heap' head.opcode.name) ∧
      RegionsHeapFree m regions

/-- No operation that can be merged reads what others write. -/
def ListHeapFree (m : Meaning γ η α) : List Op → Prop
  | [] => True
  | op :: more => HeapFree m op ∧ ListHeapFree m more

def RegionsHeapFree (m : Meaning γ η α) : List (List Op) → Prop
  | [] => True
  | region :: more => ListHeapFree m region ∧ RegionsHeapFree m more

end

theorem regionsHeapFree_iff : RegionsHeapFree m regions ↔ ∀ region ∈ regions, ListHeapFree m region := by
  induction regions with
  | nil => simp [RegionsHeapFree]
  | cons region regions ih => simp [RegionsHeapFree, ih]

theorem listHeapFree_cons : ListHeapFree m (mk head regions :: more) ↔
    (head.opcode.isMergeable → ∀ call heap heap', m call heap head.opcode.name = m call heap' head.opcode.name) ∧
      (∀ region ∈ regions, ListHeapFree m region) ∧ ListHeapFree m more := by
  simp only [ListHeapFree, HeapFree, regionsHeapFree_iff, and_assoc]

/-- After merging, the runs are as before, wherever the values agree. -/
def KeepsRuns (m : Meaning γ η α) (ops : List Op) : Prop :=
  ∀ visible shown available replaced call heap ρ ρ', ListScoped visible ops →
    Merging visible shown available replaced (listResults ops) →
      Agrees m call visible shown available replaced ρ ρ' →
        behaviour m (mergeList available replaced ops).1 call heap ρ' = behaviour m ops call heap ρ

theorem regionBehaviour_mergeRegions (hregions : ∀ region ∈ regions, KeepsRuns m region)
    (hscoped : ∀ region ∈ regions, ListScoped visible region)
    (hmerging : Merging visible shown available replaced (regions.flatMap listResults))
    (h : Agrees m call visible shown available replaced ρ ρ') (i : Nat) (heap : η) :
    regionBehaviour m (mergeRegions available replaced regions).1 i call heap ρ' =
      regionBehaviour m regions i call heap ρ := by
  induction regions generalizing replaced i with
  | nil => rw [mergeRegions, regionBehaviour, regionBehaviour]
  | cons region regions ih =>
    simp only [mem_cons, forall_eq_or_imp] at hregions hscoped
    have hfirst := hmerging.sublist (sublist_append_left _ _)
    have hmerged := mergeList_merged _ _ _ _ hscoped.1 hfirst
    rw [mergeRegions]
    cases i with
    | zero =>
      rw [regionBehaviour, regionBehaviour]
      exact hregions.1 _ _ _ _ _ _ _ _ hscoped.1 hfirst h
    | succ i =>
      have hvisible (v : Value) (hv : v ∈ visible) :
          (mergeList available replaced region).2[v]? = replaced[v]? :=
        hmerged.replaced_eq v fun hmem => hfirst.unseen v hmem hv
      rw [regionBehaviour, regionBehaviour]
      refine ih hregions.2 hscoped.2 ?_ (h.congr hvisible) i
      refine (hmerging.sublist (sublist_append_right _ _)).congr hvisible fun v hv => ?_
      exact hmerged.replaced_eq v fun hmem => (nodup_append.1 hmerging.nodup).2.2 v hmem v hv rfl

theorem behaviour_silent (h : head.mergeable? = some result) :
    behaviour m (mk head [] :: more) call heap ρ =
      behaviour m more call heap (head.define ρ (head.value m call heap ρ)) := by
  rw [behaviour]
  simp [h]

theorem behaviour_effect {merged : List (List Op)} {rest : List Op}
    (h : Agrees m call visible shown available replaced ρ ρ') (hoperands : head.operands ⊆ visible)
    (hloud : (if regions.isEmpty then head.mergeable? else none) = none) (hempty : merged.isEmpty = regions.isEmpty)
    (hinside : ∀ call' heap' i, head.opcode.isIsolated ∨ call' = call →
      regionBehaviour m merged i call' heap' ρ' = regionBehaviour m regions i call' heap' ρ)
    (hafter : ∀ value heap', behaviour m rest call heap' ((head.replace replaced).define ρ' value) =
      behaviour m more call heap' (head.define ρ value)) :
    behaviour m (mk (head.replace replaced) merged :: rest) call heap ρ' =
      behaviour m (mk head regions :: more) call heap ρ := by
  have hloud' : (if merged.isEmpty then (head.replace replaced).mergeable? else none) = none := by
    rw [hempty]
    exact hloud
  have hinside' (call' : γ) (heap' : η) (i : Nat) (events : List (Event γ η α)) :
      ((head.opcode.isIsolated ∨ call' = call) ∧ regionBehaviour m merged i call' heap' ρ' events) =
        ((head.opcode.isIsolated ∨ call' = call) ∧ regionBehaviour m regions i call' heap' ρ events) :=
    propext (and_congr_right fun hcall => by rw [hinside call' heap' i hcall])
  simp only [behaviour, hloud, hloud', h.map_operands hoperands, hafter]
  simp only [Head.replace, hinside']

theorem behaviour_mergeList (hfree : ListHeapFree m ops) : KeepsRuns m ops := by
  induction ops using list_induction with
  | nil =>
    intro visible shown available replaced call heap ρ ρ' hscoped hmerging h
    rw [mergeList, behaviour, behaviour]
  | cons head regions more hregions hmore =>
    obtain ⟨hhead, hinner, hmore'⟩ := listHeapFree_cons.1 hfree
    replace hregions (region : List Op) (hmem : region ∈ regions) := hregions region hmem (hinner region hmem)
    replace hmore := hmore hmore'
    intro visible shown available replaced call heap ρ ρ' hscoped hmerging h
    obtain ⟨hoperands, hinside, hlater⟩ := listScoped_cons.1 hscoped
    rw [listResults_cons] at hmerging
    have hrest := hmerging.sublist ((sublist_append_left _ _).append (List.Sublist.refl (listResults more)))
    cases regions with
    | nil =>
      rw [mergeList]
      split
      case h_1 hmergeable =>
        refine behaviour_effect h hoperands hmergeable rfl (fun call' heap' i _ => ?_) fun value heap' => ?_
        · rw [regionBehaviour, regionBehaviour]
        · exact hmore _ _ _ _ _ _ _ _ hlater hrest.keep (h.keep hrest value)
      case h_2 result hmergeable =>
        obtain ⟨hcan, hresult⟩ : head.opcode.isMergeable ∧ head.result = some result := mergeable?_eq_some.1 hmergeable
        -- The value is the one that an operation with the same key has, now or earlier.
        have hvalue {op : Head} (hkey : op.key = (head.replace replaced).key) (heap' : η) :
            op.value m call heap' ρ' = head.value m call heap ρ := by
          obtain ⟨hname, hsame, hattrs⟩ := key_inj hkey
          rw [← h.value_replace hoperands, value, hname, hsame, hattrs]
          exact congrFun (congrFun (hhead hcan call heap' heap) _) _
        have hsilent : head.mergeable? = some result := hmergeable
        rw [behaviour_silent hsilent]
        split
        case h_1 earlier hearlier =>
          obtain ⟨op, hkey, -, hcomputed⟩ := h.computed _ _ hearlier
          rw [hresult] at hlater hrest
          refine hmore _ _ _ _ _ _ _ _ hlater (hrest.drop (hrest.available_mem _ _ hearlier)) ?_
          exact h.drop hresult ((hcomputed heap).trans (hvalue hkey heap))
        case h_2 =>
          rw [behaviour_silent hmergeable, h.value_replace hoperands]
          have hmem : result ∈ head.result.toList ++ shown := by simp [hresult]
          refine hmore _ _ _ _ _ _ _ _ hlater (hrest.keep.remember hmem) ((h.keep hrest _).remember ?_ fun heap' => ?_)
          · exact subset_append_of_subset_right _ (hrest.operands_subset hoperands)
          · have hshown := hrest.operands_subset hoperands
            rw [value_congr fun v hv => h.define_shown hrest (hshown hv), hvalue rfl heap']
            exact if_pos hresult
    | cons region regions =>
      have hinner : (flatMap listResults (region :: regions)).Sublist (head.result.toList ++
          flatMap listResults (region :: regions) ++ listResults more) :=
        (sublist_append_right _ _).trans (sublist_append_left _ _)
      have heq := (mergeRegions_merged (fun _ _ => mergeList_merged) hinside (hmerging.inside hinner)).2.2
      rw [mergeRegions] at heq
      rw [mergeList]
      refine behaviour_effect h hoperands rfl rfl (fun call' heap' i hcall => ?_) fun value heap' => ?_
      · have hregion := regionBehaviour_mergeRegions hregions hinside (hmerging.inside hinner) (h.inside hcall) i heap'
        rwa [mergeRegions] at hregion
      · obtain ⟨hvisible, hunread⟩ := hmerging.untouched heq
        exact hmore _ _ _ _ _ _ _ _ hlater (hrest.keep.congr hvisible hunread) ((h.keep hrest value).congr hvisible)

theorem agrees_nil : Agrees m call [] [] ∅ ∅ ρ ρ := ⟨by simp, by simp, fun key v hv => by simp at hv⟩

/-- **Merging keeps what a program does**, whatever runs between the operations that are merged, if none of those reads
the heap. -/
theorem behaviour_merge (h : WellScoped ops) (hfree : ListHeapFree m ops) (call : γ) (heap : η) (ρ : Value → α) :
    behaviour m (mergeList ∅ ∅ ops).1 call heap ρ = behaviour m ops call heap ρ :=
  behaviour_mergeList hfree [] [] ∅ ∅ call heap ρ ρ h.listScoped h.merging agrees_nil

/-- Two tests for a property of `this` with an assignment between them. -/
def testedTwice : List Op :=
  [mk { opcode := .constant, result := some 0, attrs := [("value", .string "x")] } [],
    mk { opcode := .thisValue, result := some 1 } [],
    mk { opcode := .binary .isIn, result := some 2, operands := [0, 1] } [],
    mk { opcode := .assign, result := some 3, operands := [1, 0], attrs := [("operator", .string "=")] } [],
    mk { opcode := .binary .isIn, result := some 4, operands := [0, 1] } [],
    mk { opcode := .returnValue, operands := [4] } []]

/-- The values are the expressions that were evaluated. -/
def spelled : Meaning Unit Nat String := fun _ _ name attrs args => name ++ "[" ++ commaSeparated args ++ "]" ++ attrs

/-- The second test is merged into the first, which has the same value if tests do not read the heap. -/
theorem testedTwice_merged : listResults testedTwice = [0, 1, 2, 3, 4] ∧
    listResults (mergeList ∅ ∅ testedTwice).1 = [0, 1, 2, 3] ∧
      behaviour spelled (mergeList ∅ ∅ testedTwice).1 () 0 toString = behaviour spelled testedTwice () 0 toString := by
  have hscoped : ListScoped [] testedTwice := by simp [testedTwice, ListScoped, Scoped, RegionsScoped, Op.head]
  have hfree : ListHeapFree spelled testedTwice := by
    induction testedTwice using list_induction with
    | nil => trivial
    | cons head regions more hregions hmore => exact listHeapFree_cons.2 ⟨fun _ _ _ _ => rfl, hregions, hmore⟩
  exact ⟨by decide, by decide +kernel, behaviour_merge ⟨hscoped, by decide⟩ hfree () 0 toString⟩

end Op

end Retarget.Mlir
