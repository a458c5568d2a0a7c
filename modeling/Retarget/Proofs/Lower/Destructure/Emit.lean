import Retarget.Proofs.Lower.Destructure.Run
import Retarget.Proofs.Lower.Program

/-!
# Emitted nodes

What the computations that take values apart emit, and what it does when it is run.

* `LowerState.Extends names s s'`: from `s` to `s'` nodes are added, and at most the names `names` are declared.
* `Covers g s s'`: the nodes that were added from `s` to `s'` can be looked into.
* `Makes x Q`: the computation `x` adds nodes, which do what `Q` says once they can be looked into.
* `Emits names s s' steps`: the declarators `steps` were added as well.
-/

namespace Retarget

open Syntax LowerM Destructure List Option Stateful NodeTable Value Std.ExtTreeMap Builder

/-! ## Scopes -/

variable {name : String} {d x : NodeId}

theorem ScopeStack.resolve?_add_of_ne {scopes : ScopeStack} {other : String} (h : name ≠ other) :
    (scopes.add name d).resolve? other = scopes.resolve? other := by
  obtain ⟨inner, root⟩ := scopes
  cases inner <;> simp [resolve?, add, lookup?, List.findSome?_cons, h]

/-! ## Tidy builders -/

namespace Builder

/-- No id is both stored and reserved, and all are below the counter. -/
structure Tidy (b : Builder) : Prop where
  stored_lt : ∀ {x k}, b.kind? x = some k → x < b.nextId
  reserved_lt : ∀ {x}, x ∈ b.reserved → x < b.nextId
  reserved_new : ∀ {x}, x ∈ b.reserved → b.kind? x = none

namespace Tidy

variable {b b' : Builder} {kind : Kind} {p : NodeId} {e : Envelope} (h : b.Tidy)
include h

theorem congr (halike : Alike b b') : b'.Tidy := by
  constructor <;> simp only [halike.kind_eq, halike.next_eq, halike.reserved_eq]
  exacts [h.stored_lt, h.reserved_lt, h.reserved_new]

theorem new : b.kind? b.nextId = none :=
  eq_none_iff_forall_ne_some.2 fun _ hk => (h.stored_lt hk).ne rfl

theorem create (hcreate : b.create kind e = .ok (p, b')) :
    b'.Tidy ∧ b'.kind? = adjoin b.kind? p kind ∧ b.kind? p = none ∧ p = b.nextId ∧ b'.nextId = b.nextId + 1 := by
  obtain ⟨-, -, rfl, rfl⟩ := create_eq_ok.1 hcreate
  refine ⟨⟨fun {x k} hk => ?_, fun hx => (h.reserved_lt hx).trans (Nat.lt_succ_self _), fun {x} hx => ?_⟩,
    kind?_insert, h.new, rfl, rfl⟩
  · change NodeTable.kind? (b.nodes.insert b.nextId _) x = some k at hk
    rw [kind?_insert] at hk
    by_cases hx : x = b.nextId
    · exact hx ▸ Nat.lt_succ_self _
    · rw [adjoin_of_ne hx] at hk
      exact (h.stored_lt hk).trans (Nat.lt_succ_self _)
  · change NodeTable.kind? (b.nodes.insert b.nextId _) x = none
    rw [kind?_insert, adjoin_of_ne (h.reserved_lt hx).ne]
    exact h.reserved_new hx

theorem fill (hfill : b.fill p kind e = .ok b') :
    b'.Tidy ∧ b'.kind? = adjoin b.kind? p kind ∧ b.kind? p = none ∧ p ∈ b.reserved ∧ b'.nextId = b.nextId := by
  obtain ⟨hp, -, rfl⟩ := fill_eq_ok.1 hfill
  refine ⟨⟨fun {x k} hk => ?_, fun hx => h.reserved_lt (IdSet.mem_erase.1 hx).2, fun {x} hx => ?_⟩,
    kind?_insert, h.reserved_new hp, hp, rfl⟩
  · change NodeTable.kind? (b.nodes.insert p _) x = some k at hk
    rw [kind?_insert] at hk
    by_cases hx : x = p
    · rw [hx]
      exact h.reserved_lt hp
    · rw [adjoin_of_ne hx] at hk
      exact h.stored_lt hk
  · obtain ⟨hne, hx⟩ := IdSet.mem_erase.1 hx
    change NodeTable.kind? (b.nodes.insert p _) x = none
    rw [kind?_insert, adjoin_of_ne hne]
    exact h.reserved_new hx

end Tidy

end Builder

/-! ## States -/

theorem adjoin_of_some {g : NodeId → Option Kind} {kind k : Kind} {y : NodeId} (hx : g x = none) (hy : g y = some k) :
    adjoin g x kind y = some k := by
  rwa [adjoin_of_ne]
  rintro rfl
  rw [hx] at hy
  cases hy

theorem resolve?_quiet : Quiet (resolve? name) := Quiet.get.bind fun _ => .pure

theorem reserved?_quiet : Quiet (reserved? name) := Quiet.get.bind fun _ => .pure

/-- From `s` to `s'` nodes are added, and at most the names `names` are declared. -/
structure LowerState.Extends (names : List String) (s s' : LowerState) : Prop where
  kinds : ∀ {x k}, s.builder.kind? x = some k → s'.builder.kind? x = some k
  tidy : s'.builder.Tidy
  locals : ∀ name ∉ names, s'.scopes.local? name = s.scopes.local? name
  resolves : ∀ name ∉ names, s'.scopes.resolve? name = s.scopes.resolve? name

namespace Destructure

variable {α β : Type} {s u s' : LowerState} {names names' : List String} {g : Graph} {setting : Setting}

theorem extends_trans (h : s.Extends names u) (h' : u.Extends names' s') : s.Extends (names ++ names') s' := by
  refine ⟨fun hk => h'.kinds (h.kinds hk), h'.tidy, fun name hname => ?_, fun name hname => ?_⟩
  all_goals rw [mem_append, not_or] at hname
  · exact (h'.locals name hname.2).trans (h.locals name hname.1)
  · exact (h'.resolves name hname.2).trans (h.resolves name hname.1)

variable {a : α} {steps ids : List NodeId} {vars : Vars} {id value step : NodeId} {v w : Val} {lit : Literal}
  {heap : Heap} {r : Record} {pos : Pos} {temp : Temp} {type : Option TypeDescriptor} {text : String} {depth : Nat}
  {index : Nat}

theorem extends_of_quiet {x : LowerM α} (hx : Quiet x) (hs : s.builder.Tidy) (hrun : x s = .ok (a, s')) :
    s.Extends [] s' := by
  obtain ⟨hbuilder, hscopes, -⟩ := (hx s).of_ok hrun
  exact ⟨fun hk => by rwa [hbuilder.kind_eq], hs.congr hbuilder, fun _ _ => by rw [hscopes], fun _ _ => by rw [hscopes]⟩

/-- The nodes that were added from `s` to `s'` can be looked into. -/
def Covers (g : Graph) (s s' : LowerState) : Prop :=
  ∀ x k, s.builder.kind? x = none → s'.builder.kind? x = some k → g x = some k

theorem Covers.left (h : Covers g s s') (hlater : u.Extends names s') : Covers g s u :=
  fun x k hx hk => h x k hx (hlater.kinds hk)

theorem none_of_extends (h : s.Extends names u) (hx : u.builder.kind? x = none) : s.builder.kind? x = none :=
  eq_none_iff_forall_ne_some.2 fun k hk => by
    have hk' := h.kinds hk
    rw [hx] at hk'
    cases hk'

theorem Covers.right (h : Covers g s s') (hearlier : s.Extends names u) : Covers g u s' :=
  fun x k hx => h x k (none_of_extends hearlier hx)

/-- From `s` to `s'` the nodes `steps` were added, maybe with others. -/
structure Emits (names : List String) (s s' : LowerState) (steps : List NodeId) : Prop extends s.Extends names s' where
  fresh : ∀ d ∈ steps, s.builder.kind? d = none
  stored : ∀ d ∈ steps, ∃ k, s'.builder.kind? d = some k

theorem Emits.append {steps' : List NodeId} (h : Emits names s u steps) (h' : Emits names' u s' steps') :
    Emits (names ++ names') s s' (steps ++ steps') := by
  refine ⟨extends_trans h.toExtends h'.toExtends, fun d hd => ?_, fun d hd => ?_⟩
  · obtain hd | hd := mem_append.1 hd
    · exact h.fresh d hd
    · exact none_of_extends h.toExtends (h'.fresh d hd)
  · obtain hd | hd := mem_append.1 hd
    · obtain ⟨k, hk⟩ := h.stored d hd
      exact ⟨k, h'.kinds hk⟩
    · exact h'.stored d hd

theorem emits_nil (h : s.Extends names s') : Emits names s s' [] := ⟨h, by simp, by simp⟩

theorem Emits.mono (h : Emits names s s' steps) (hnames : names ⊆ names') : Emits names' s s' steps :=
  ⟨⟨h.kinds, h.tidy, fun name hname => h.locals name fun hmem => hname (hnames hmem),
    fun name hname => h.resolves name fun hmem => hname (hnames hmem)⟩, h.fresh, h.stored⟩

theorem emits_of_adjoin {b : Builder} {kind : Kind} (htidy : b.Tidy) (hnew : s.builder.kind? d = none)
    (hkind : b.kind? = adjoin s.builder.kind? d kind) :
    Emits [] s { s with builder := b } [d] ∧ b.kind? d = some kind := by
  have hd : b.kind? d = some kind := by rw [hkind, adjoin_self]
  have hkept : ∀ {x k}, s.builder.kind? x = some k → b.kind? x = some k := hkind ▸ adjoin_of_some hnew
  refine ⟨⟨⟨hkept, htidy, fun _ _ => rfl, fun _ _ => rfl⟩, ?_, ?_⟩, hd⟩
  · simpa using hnew
  · simpa using ⟨kind, hd⟩

/-! ## Expressions -/

/-- The computation adds nodes, and its result is as `Q` says where they can be looked into. -/
def Makes (x : LowerM α) (Q : α → Graph → Prop) : Prop :=
  ∀ s a s', s.builder.Tidy → x s = .ok (a, s') → s.Extends [] s' ∧ ∀ g, Covers g s s' → Q a g

namespace Makes

variable {x : LowerM α} {k : α → LowerM β} {Q Q' : α → Graph → Prop} {R : β → Graph → Prop}

theorem bind (hx : Makes x Q) (hk : ∀ a, Makes (k a) fun b g => Q a g → R b g) : Makes (x >>= k) R := by
  intro s b s' hs hrun
  obtain ⟨a, u, hfirst, hrest⟩ := bind_ok.1 hrun
  obtain ⟨hu, hQ⟩ := hx s a u hs hfirst
  obtain ⟨hs', hR⟩ := hk a u b s' hu.tidy hrest
  exact ⟨extends_trans hu hs', fun g hg => hR g (hg.right hu) (hQ g (hg.left hs'))⟩

theorem mono (hx : Makes x Q) (h : ∀ a g, Q a g → Q' a g) : Makes x Q' := fun s a s' hs hrun =>
  ⟨(hx s a s' hs hrun).1, fun g hg => h a g ((hx s a s' hs hrun).2 g hg)⟩

theorem of_quiet (hx : Quiet x) : Makes x fun _ _ => True := fun _ _ _ hs hrun =>
  ⟨extends_of_quiet hx hs hrun, fun _ _ => trivial⟩

theorem pure (h : ∀ g, Q a g) : Makes (Pure.pure a) Q := by
  intro s a' s' hs hrun
  obtain ⟨rfl, rfl⟩ := pure_ok.1 hrun
  exact ⟨⟨id, hs, fun _ _ => rfl, fun _ _ => rfl⟩, fun g _ => h g⟩

theorem of_fails (hx : Fails x) : Makes x Q := fun s _ _ _ h => ((hx s).of_ok h).elim

theorem skip (hx : Quiet x) (hk : ∀ a, Makes (k a) R) : Makes (x >>= k) R :=
  (of_quiet hx).bind fun a => (hk a).mono fun _ _ h _ => h

end Makes

theorem create_makes {kind : Kind} {e : Envelope} :
    Makes (create kind e) fun id g => g id = some kind ∧ scalarError? kind = none := by
  intro s id s' hs hrun
  obtain ⟨b, hcreate, rfl⟩ := build_eq_ok.1 hrun
  obtain ⟨htidy, hkind, hnew, -⟩ := hs.create hcreate
  obtain ⟨hemits, hid⟩ := emits_of_adjoin htidy hnew hkind
  have hscalar := (check_eq_ok.1 (create_eq_ok.1 hcreate).1).1
  exact ⟨hemits.toExtends, fun g hg => ⟨hg id kind hnew hid, hscalar⟩⟩

theorem syntheticTyped_makes {kind : Kind} : Makes (syntheticTyped kind pos type) fun id g => g id = some kind :=
  .skip span_quiet fun _ => create_makes.mono fun _ _ h => h.1

theorem synthetic_makes {kind : Kind} : Makes (synthetic kind pos) fun id g => g id = some kind :=
  syntheticTyped_makes

def kindOfPrimitive : Primitive → Kind
  | .undefined => .undefined
  | .null => .null
  | .boolean value => .boolean value
  | .number value => .number value
  | .string value => .string value

theorem primitive?_kindOfPrimitive {c : Primitive} (h : scalarError? (kindOfPrimitive c) = none) :
    (kindOfPrimitive c).primitive? = some c := by
  cases c with
  | number value =>
    by_cases hfinite : value.isFinite = true
    · rw [kindOfPrimitive, Kind.primitive?, if_pos hfinite]
    · rw [kindOfPrimitive, scalarError?, if_neg hfinite] at h
      cases h
  | _ => rfl

/-- The node has the value `v` in all heaps, and leaves them as they are. -/
def Gives (setting : Setting) (g : Graph) (vars : Vars) (id : NodeId) (v : Val) : Prop :=
  ∀ heap, Evaluates setting g vars heap (.nodes [id]) v heap

theorem gives_of_name (h : g id = some (.identifier text (some d))) (hd : vars d = some v) :
    Gives setting g vars id v :=
  fun _ => .node h (.name hd)

theorem create_gives (c : Primitive) (e : Envelope) :
    Makes (create (kindOfPrimitive c) e) fun id g => ∀ setting vars, Gives setting g vars id (.primitive c) := by
  apply create_makes.mono
  intro id g h setting vars heap
  exact .node h.1 (.literal (primitive?_kindOfPrimitive h.2))

theorem number_gives {x : Float} :
    Makes (number x pos) fun id g => ∀ setting vars, Gives setting g vars id (.primitive (.number x)) :=
  .skip span_quiet fun _ => create_gives (.number x) _

theorem typed_gives (c : Primitive) (pos : Pos) (type : Option TypeDescriptor) :
    Makes (typed (kindOfPrimitive c) pos type) fun id g => ∀ setting vars, Gives setting g vars id (.primitive c) :=
  .skip span_quiet fun _ => create_gives c _

theorem lowerLiteral_gives : Makes (lowerLiteral lit) fun id g =>
    ∀ c, lit.primitive? = some c → ∀ setting vars, Gives setting g vars id (.primitive c) := by
  obtain ⟨value, raw, regex, bigint, pos⟩ := lit
  cases regex with
  | some regex => exact .of_fails unhandled_fails.bind
  | none =>
    cases bigint with
    | some digits => exact .of_fails unhandled_fails.bind
    | none =>
      cases value with
      | num n => exact (typed_gives (.number n.toFloat) pos _).mono fun id g h c hc => by cases hc; exact h
      | str text => exact (typed_gives (.string text) pos _).mono fun id g h c hc => by cases hc; exact h
      | bool b => exact (typed_gives (.boolean b) pos _).mono fun id g h c hc => by cases hc; exact h
      | null => exact (typed_gives .null pos _).mono fun id g h c hc => by cases hc; exact h
      | arr items => exact .of_fails malformed_fails
      | obj fields => exact .of_fails malformed_fails

theorem literal_gives : Makes ((lowerers depth).expr none (.literal lit)) fun id g =>
    ∀ c, lit.primitive? = some c → ∀ setting vars, Gives setting g vars id (.primitive c) := by
  cases depth with
  | zero => exact .of_fails fun _ => rfl
  | succ depth => exact lowerLiteral_gives

theorem useTemp_makes : Makes (useTemp temp pos) fun id g => g id = some (.identifier temp.name (some temp.id)) :=
  .skip .get fun _ => syntheticTyped_makes

theorem string_makes : Makes (string text pos) fun id g => g id = some (.string text) :=
  syntheticTyped_makes

/-! ## Members -/

def IsProperty (g : Graph) (id d : NodeId) (name : String) : Prop :=
  ∃ text object key, g id = some (.member object key false) ∧ g object = some (.identifier text (some d)) ∧
    g key = some (.string name)

theorem memberAccess_name : Makes (memberAccess temp (.name name) pos) fun id g => IsProperty g id temp.id name := by
  apply useTemp_makes.bind
  intro object
  apply string_makes.bind
  intro key
  apply synthetic_makes.mono
  intro id g hid hkey hobject
  exact ⟨temp.name, object, key, hid, hobject, hkey⟩

theorem memberAccess_index :
    Makes (memberAccess temp (.index index) pos) fun id g => ∀ setting vars heap a array,
      vars temp.id = some (.object a) → heap[a]? = some (.array array) →
        Evaluates setting g vars heap (.nodes [id]) (array.read index) heap := by
  apply useTemp_makes.bind
  intro object
  apply number_gives.bind
  intro key
  apply synthetic_makes.mono
  intro id g hid hkey hobject setting vars heap a array hd ha
  exact .node hid (.element (gives_of_name hobject hd heap) (hkey setting vars heap) ha)

namespace IsProperty

variable {vars : Vars} {heap : Heap} {id id' d a : Nat} {name : String} {r : Record}

theorem evaluates (h : IsProperty g id d name) (hd : vars d = some (.object a)) (ha : heap[a]? = some (.object r)) :
    Evaluates setting g vars heap (.nodes [id]) (r.read name) heap := by
  obtain ⟨text, object, key, hid, hobject, hkey⟩ := h
  exact .node hid (.property hkey (gives_of_name hobject hd heap) ha)

theorem deletes (h : IsProperty g id d name) (hid' : g id' = some (.unary .delete id)) (hd : vars d = some (.object a))
    (ha : heap[a]? = some (.object r)) : Evaluates setting g vars heap (.nodes [id']) (.primitive (.boolean true))
      (heap.set a (.object (r.erase name))) := by
  obtain ⟨text, object, key, hid, hobject, hkey⟩ := h
  exact .node hid' (.delete hid hkey (gives_of_name hobject hd heap) ha)

end IsProperty

/-! ## Method calls -/

theorem methodCall_makes (object : NodeId) (method : String) (arguments : List NodeId) (pos : Pos) :
    Makes (methodCall object method arguments pos) fun id g => ∃ callee key,
      g id = some (.call callee (arguments.map (⟨false, ·⟩)) false) ∧ g callee = some (.member object key false) ∧
        g key = some (.string method) := by
  apply string_makes.bind
  intro key
  apply synthetic_makes.bind
  intro callee
  apply synthetic_makes.mono
  intro id g hid hcallee hkey
  exact ⟨callee, key, hid, hcallee, hkey⟩

def sliceFrom (temp : Temp) (index : Nat) (pos : Pos) : LowerM NodeId := do
  let object ← useTemp temp pos
  let start ← number index.toFloat pos
  methodCall object "slice" [start] pos

theorem sliceFrom_makes :
    Makes (sliceFrom temp index pos) fun id g => ∀ setting vars heap a array,
      vars temp.id = some (.object a) → heap[a]? = some (.array array) →
        Evaluates setting g vars heap (.nodes [id]) (.object heap.length) (heap ++ [.array (array.drop index)]) := by
  apply useTemp_makes.bind
  intro object
  apply number_gives.bind
  intro start
  apply (methodCall_makes object "slice" [start] pos).mono
  intro id g hcall hstart hobject setting vars heap a array hd ha
  obtain ⟨callee, key, hid, hcallee, hkey⟩ := hcall
  exact .node hid (.slice hcallee hkey (gives_of_name hobject hd heap) (hstart setting vars heap) ha)

/-! ## Declarators -/

theorem setType_makes : Makes (setType id type) fun _ _ => True := by
  intro s x s' hs hrun
  obtain ⟨b, hbuild, rfl⟩ := build_eq_ok.1 hrun
  obtain ⟨b', hset, hb⟩ := Except.bind_eq_ok.1 hbuild
  obtain ⟨-, rfl⟩ := Prod.mk.inj (Except.ok.inj hb)
  have halike := setType_alike hset
  refine ⟨⟨fun hk => ?_, hs.congr halike, fun _ _ => rfl, fun _ _ => rfl⟩, fun _ _ => trivial⟩
  rwa [halike.kind_eq]

variable {pos : Pos}

theorem create_emits {kind : Kind} {envelope : Option Span → Envelope} (hs : s.builder.Tidy)
    (hrun : (span pos >>= fun span => create kind (envelope span)) s = .ok (d, s')) :
    Emits [] s s' [d] ∧ s'.builder.kind? d = some kind := by
  obtain ⟨span, u, hspan, hrun⟩ := bind_ok.1 hrun
  have hu := extends_of_quiet span_quiet hs hspan
  obtain ⟨b, hcreate, rfl⟩ := build_eq_ok.1 hrun
  obtain ⟨htidy, hkind, hnew, -⟩ := hu.tidy.create hcreate
  obtain ⟨hemits, hd⟩ := emits_of_adjoin htidy hnew hkind
  exact ⟨(emits_nil hu).append hemits, hd⟩

variable {kind : DeclarationKind} {temp : Temp}

theorem bindTemp_emits (hs : s.builder.Tidy) (hrun : bindTemp (.declare kind) value pos s = .ok ((temp, step), s')) :
    temp.id = step ∧ Emits [] s s' [step] ∧ s'.builder.kind? step = some (.declarator temp.name (some value)) := by
  obtain ⟨name, u, hname, hrun⟩ := bind_ok.1 hrun
  obtain ⟨type, u₁, htype, hrun⟩ := bind_ok.1 hrun
  obtain ⟨id, u₂, hid, hrun⟩ := bind_ok.1 hrun
  obtain ⟨_, u₃, hrecord, hrun⟩ := bind_ok.1 hrun
  obtain ⟨hresult, rfl⟩ := pure_ok.1 hrun
  cases hresult
  have hu := extends_of_quiet freshName_quiet hs hname
  have hu₁ := extends_of_quiet typeOf_quiet hu.tidy htype
  obtain ⟨hemits, hkind⟩ := create_emits hu₁.tidy hid
  have hu₃ := extends_of_quiet recordType_quiet hemits.tidy hrecord
  exact ⟨rfl, (emits_nil (extends_trans hu hu₁)).append (hemits.append (emits_nil hu₃)), hu₃.kinds hkind⟩

theorem fill_emits {kind : Kind} {x : Unit} (hs : s.builder.Tidy) (hrun : fill d kind pos s = .ok (x, s')) :
    Emits [] s s' [d] ∧ s'.builder.kind? d = some kind := by
  obtain ⟨span, u, hspan, hrun⟩ := bind_ok.1 hrun
  have hu := extends_of_quiet span_quiet hs hspan
  obtain ⟨b, hbuild, rfl⟩ := build_eq_ok.1 hrun
  obtain ⟨b', hfill, hb⟩ := Except.bind_eq_ok.1 hbuild
  obtain ⟨-, rfl⟩ := Prod.mk.inj (Except.ok.inj hb)
  obtain ⟨htidy, hkind, hnew, -⟩ := hu.tidy.fill hfill
  obtain ⟨hemits, hd⟩ := emits_of_adjoin htidy hnew hkind
  exact ⟨(emits_nil hu).append hemits, hd⟩

theorem local?_of_reserved? (hrun : reserved? name s = .ok (some d, s')) : s'.scopes.local? name = some d := by
  obtain ⟨t, u, hget, hrun⟩ := bind_ok.1 hrun
  obtain ⟨rfl, rfl⟩ := get_ok.1 hget
  obtain ⟨hlocal, rfl⟩ := pure_ok.1 hrun
  exact (filter_eq_some_iff.1 hlocal).1

theorem bindName_extends {x : PUnit} (hs : s.builder.Tidy) (hrun : bindName name d s = .ok (x, s')) :
    s.Extends [name] s' ∧ s'.scopes.local? name = some d := by
  obtain rfl := modify_ok.1 hrun
  refine ⟨⟨id, hs, fun other hother => ?_, fun other hother => ?_⟩, ScopeStack.local?_add_self⟩
  · exact ScopeStack.local?_add_of_ne fun h => hother (by simp [h])
  · exact ScopeStack.resolve?_add_of_ne fun h => hother (by simp [h])

theorem declareName_emits (hs : s.builder.Tidy) (hrun : declareName name (some value) kind pos s = .ok (d, s')) :
    Emits [name] s s' [d] ∧ s'.scopes.local? name = some d ∧
      s'.builder.kind? d = some (.declarator name (some value)) := by
  have hend : ∀ type id, Makes (do
      setType id type
      recordType id type
      if kind = .constKind then addConstant id
      pure id) fun d _ => d = id := by
    intro type id
    apply setType_makes.bind
    intro _
    apply Makes.skip recordType_quiet
    intro _
    split
    · exact .skip (addConstant_quiet id) fun _ => .pure fun _ _ => rfl
    · exact .pure fun _ _ => rfl
  obtain ⟨type, u, htype, hrun⟩ := bind_ok.1 hrun
  obtain ⟨o, u₁, ho, hrun⟩ := bind_ok.1 hrun
  have hu := extends_of_quiet typeOf_quiet hs htype
  have hu₁ := extends_trans hu (extends_of_quiet reserved?_quiet hu.tidy ho)
  cases o with
  | some id =>
    obtain ⟨_, u₂, hfill, hrun⟩ := bind_ok.1 hrun
    obtain ⟨hemits, hkind⟩ := fill_emits hu₁.tidy hfill
    obtain ⟨hs', hd⟩ := hend type id u₂ d s' hemits.tidy hrun
    obtain rfl := hd s'.builder.kind? fun _ _ _ hk => hk
    refine ⟨?_, ?_, hs'.kinds hkind⟩
    · exact ((emits_nil hu₁).append (hemits.append (emits_nil hs'))).mono (nil_subset _)
    · rw [hs'.locals name (by simp), hemits.locals name (by simp)]
      exact local?_of_reserved? ho
  | none =>
    obtain ⟨id, u₂, hnode, hrun⟩ := bind_ok.1 hrun
    obtain ⟨_, u₃, hbind, hrun⟩ := bind_ok.1 hrun
    obtain ⟨hemits, hkind⟩ := create_emits hu₁.tidy hnode
    obtain ⟨hu₃, hlocal⟩ := bindName_extends hemits.tidy hbind
    obtain ⟨hs', hd⟩ := hend type id u₃ d s' hu₃.tidy hrun
    obtain rfl := hd s'.builder.kind? fun _ _ _ hk => hk
    refine ⟨?_, ?_, hs'.kinds (hu₃.kinds hkind)⟩
    · exact (emits_nil hu₁).append (hemits.append ((emits_nil hu₃).append (emits_nil hs')))
    · rw [hs'.locals name (by simp)]
      exact hlocal

/-! ## Defaults -/

theorem truthy_strictEq_undefined {runtime : Runtime Address} :
    (v.binary runtime .strictEq undefined).truthy = true ↔ v = undefined := by
  cases v with
  | primitive c => cases c <;> simp [Value.binary, strictEq, Primitive.strictEq, Value.boolean, truthy,
      Primitive.truthy, undefined]
  | object a => simp [Value.binary, strictEq, Value.boolean, truthy, Primitive.truthy, undefined]

theorem isUndefined_gives :
    Makes (isUndefined temp pos) fun id g => ∀ setting vars v, vars temp.id = some v →
      Gives setting g vars id (v.binary setting.runtime .strictEq undefined) := by
  apply useTemp_makes.bind
  intro tested
  have hundefined : Makes (synthetic .undefined pos) fun id g =>
      ∀ setting vars, Gives setting g vars id (.primitive .undefined) :=
    .skip span_quiet fun _ => create_gives .undefined _
  apply hundefined.bind
  intro other
  apply synthetic_makes.mono
  intro id g hid hother htested setting vars v hd heap
  exact .node hid (.binary (gives_of_name htested hd heap) (hother setting vars heap))

theorem conditional_gives {test fallback current : NodeId} (hid : g id = some (.conditional test fallback current))
    (htest : Gives setting g vars test (v.binary setting.runtime .strictEq undefined))
    (hfallback : ∀ c, lit.primitive? = some c → Gives setting g vars fallback (.primitive c))
    (hcurrent : Gives setting g vars current v) (hw : lit.inPlaceOf? v = some w) : Gives setting g vars id w := by
  intro heap
  apply Evaluates.node hid
  apply Evaluates.conditional (htest heap)
  by_cases hv : v = undefined
  · rw [if_pos (truthy_strictEq_undefined.2 hv)]
    rw [hv] at hw
    obtain ⟨c, hc, rfl⟩ := map_eq_some_iff.1 hw
    exact hfallback c hc heap
  · rw [if_neg (mt truthy_strictEq_undefined.1 hv)]
    have hsame : lit.inPlaceOf? v = some v := by
      unfold Literal.inPlaceOf?
      split
      · exact absurd rfl hv
      · rfl
    cases hw.symm.trans hsame
    exact hcurrent heap

theorem defaultValue_emits (hs : s.builder.Tidy)
    (hrun : defaultValue (lowerers depth) (.declare kind) value (.literal lit) pos s = .ok ((id, step), s')) :
    Emits [] s s' [step] ∧ (∃ text, s'.builder.kind? step = some (.declarator text (some value))) ∧
      ∀ g, Covers g s s' → ∀ setting vars v w, vars step = some v → lit.inPlaceOf? v = some w →
        Gives setting g vars id w := by
  obtain ⟨⟨temp, step'⟩, u, htemp, hrun⟩ := bind_ok.1 hrun
  obtain ⟨rfl, hemits, hkind⟩ := bindTemp_emits hs htemp
  have hrest : Makes (do
      let test ← isUndefined temp pos
      let fallback ← (lowerers depth).expr none (.literal lit)
      let current ← useTemp temp pos
      let type ← unionType fallback current
      return (← syntheticTyped (.conditional test fallback current) pos type, temp.id)) fun result g =>
      result.2 = temp.id ∧ ∀ setting vars v w, vars temp.id = some v → lit.inPlaceOf? v = some w →
        Gives setting g vars result.1 w := by
    apply isUndefined_gives.bind
    intro test
    apply literal_gives.bind
    intro fallback
    apply useTemp_makes.bind
    intro current
    apply Makes.skip unionType_quiet
    intro type
    apply syntheticTyped_makes.bind
    intro id
    apply Makes.pure
    intro g hid hcurrent hfallback htest
    refine ⟨rfl, fun setting vars v w hv hw => ?_⟩
    exact conditional_gives hid (htest setting vars v hv) (fun c hc => hfallback c hc setting vars)
      (gives_of_name hcurrent hv) hw
  obtain ⟨hu, hgives⟩ := hrest u _ s' hemits.tidy hrun
  obtain ⟨rfl, -⟩ := hgives s'.builder.kind? fun _ _ _ hk => hk
  refine ⟨hemits.append (emits_nil hu), ⟨temp.name, hu.kinds hkind⟩, fun g hg => ?_⟩
  exact (hgives g (hg.right hemits.toExtends)).2

/-! ## Rests of objects -/

namespace Record

variable {r : Record} {name : String} {names : List String}

theorem without_nil : r.without [] = r := by
  apply Std.ExtTreeMap.ext_getElem?
  intro k
  rw [without, getElem?_filter']
  cases r[k]? <;> simp

theorem without_cons : without (r.erase name) names = r.without (name :: names) := by
  apply Std.ExtTreeMap.ext_getElem?
  intro k
  simp only [without, getElem?_filter', getElem?_erase, Std.LawfulEqCmp.compare_eq_iff_eq]
  by_cases hk : name = k
  · simp [hk]
  · simp [hk, Ne.symm hk]

theorem empty_union : ∅ ∪ r = r := by
  apply Std.ExtTreeMap.ext_getElem?
  simp [getElem?_union]

end Record

theorem Evaluates.cons {heap₁ heap₂ : Heap} (h : Evaluates setting g vars heap (.nodes [id]) v heap₁)
    (h' : Evaluates setting g vars heap₁ (.nodes ids) w heap₂) :
    Evaluates setting g vars heap (.nodes (id :: ids)) w heap₂ := by
  cases ids with
  | nil => cases h'
  | cons id' ids => exact .next h h'

theorem assign_evaluates {object empty source : NodeId} {a : Address}
    (hcall : ∃ callee key, g id = some (.call callee [⟨false, empty⟩, ⟨false, source⟩] false) ∧
      g callee = some (.member object key false) ∧ g key = some (.string "assign"))
    (hobject : g object = some (.identifier "Object" none)) (hempty : g empty = some (.object []))
    (hsource : g source = some (.identifier temp.name (some temp.id))) (hd : vars temp.id = some (.object a))
    (ha : heap[a]? = some (.object r)) :
    Evaluates setting g vars heap (.nodes [id]) (.object heap.length) (heap ++ [.object r]) := by
  obtain ⟨callee, key, hid, hcallee, hkey⟩ := hcall
  have hnew : (heap ++ [Cell.object ∅])[heap.length]? = some (.object ∅) := by simp
  have hold : (heap ++ [Cell.object ∅])[a]? = some (.object r) := by
    rw [List.getElem?_append_left (List.getElem?_eq_some_iff.1 ha).1]
    exact ha
  have hcopy : (heap ++ [Cell.object ∅]).set heap.length (.object (∅ ∪ r)) = heap ++ [.object r] := by
    rw [Record.empty_union]
    simp
  rw [← hcopy]
  apply Evaluates.node hid
  exact .assign hcallee hobject hkey (.node hempty .emptyObject) (gives_of_name hsource hd _) hnew hold

theorem resolve?_of_run {binding : Option NodeId} (hrun : resolve? name s = .ok (binding, s')) :
    binding = s.scopes.resolve? name := by
  obtain ⟨t, u, hget, hrun⟩ := bind_ok.1 hrun
  obtain ⟨rfl, rfl⟩ := get_ok.1 hget
  exact (pure_ok.1 hrun).1.symm

def copyOf (temp : Temp) (pos : Pos) : LowerM NodeId := do
  let object ← synthetic (.identifier "Object" (← resolve? "Object")) pos
  let empty ← synthetic (.object []) pos
  let source ← useTemp temp pos
  methodCall object "assign" [empty, source] pos

theorem copyOf_extends {copy : NodeId} (hs : s.builder.Tidy)
    (hobject : s.scopes.resolve? "Object" = none) (hrun : copyOf temp pos s = .ok (copy, s')) :
    s.Extends [] s' ∧ ∀ g, Covers g s s' → ∀ setting vars heap a r,
      vars temp.id = some (.object a) → heap[a]? = some (.object r) →
        Evaluates setting g vars heap (.nodes [copy]) (.object heap.length) (heap ++ [.object r]) := by
  obtain ⟨binding, u, hresolve, hrun⟩ := bind_ok.1 hrun
  obtain rfl := (resolve?_of_run hresolve).trans hobject
  have hu := extends_of_quiet resolve?_quiet hs hresolve
  have hmakes : Makes (do
      let object ← synthetic (.identifier "Object" none) pos
      let empty ← synthetic (.object []) pos
      let source ← useTemp temp pos
      methodCall object "assign" [empty, source] pos) fun id g => ∀ setting vars heap a r,
        vars temp.id = some (.object a) → heap[a]? = some (.object r) →
          Evaluates setting g vars heap (.nodes [id]) (.object heap.length) (heap ++ [.object r]) := by
    apply synthetic_makes.bind
    intro object
    apply synthetic_makes.bind
    intro empty
    apply useTemp_makes.bind
    intro source
    apply (methodCall_makes object "assign" [empty, source] pos).mono
    intro id g hcall hsource hempty hobject setting vars heap a r hd ha
    exact assign_evaluates hcall hobject hempty hsource hd ha
  obtain ⟨hs', hcopy⟩ := hmakes u copy s' hu.tidy hrun
  exact ⟨extends_trans hu hs', fun g hg => hcopy g (hg.right hu)⟩

def Deletes (g : Graph) (d : NodeId) (ids : List NodeId) (names : List String) : Prop :=
  List.Forall₂ (fun id name => ∃ access, g id = some (.unary .delete access) ∧ IsProperty g access d name) ids names

theorem deletions_make :
    Makes ((names.map PatternKey.name).mapM fun key => do
      let access ← memberAccess temp key pos
      synthetic (.unary .delete access) pos) fun ids g => Deletes g temp.id ids names := by
  induction names with
  | nil => exact .pure fun _ => .nil
  | cons name names ih =>
    have hone : Makes (do
        let access ← memberAccess temp (.name name) pos
        synthetic (.unary .delete access) pos) fun id g =>
        ∃ access, g id = some (.unary .delete access) ∧ IsProperty g access temp.id name := by
      apply memberAccess_name.bind
      intro access
      apply synthetic_makes.mono
      intro id g hid haccess
      exact ⟨access, hid, haccess⟩
    rw [map_cons, mapM_cons]
    apply hone.bind
    intro id
    apply ih.bind
    intro ids
    apply Makes.pure
    intro g hids hid
    exact .cons hid hids

theorem Deletes.evaluates {d last a : Nat} (h : Deletes g d ids names) (hd : vars d = some (.object a))
    (ha : heap[a]? = some (.object r)) (hlast : Gives setting g vars last (.object a)) :
    Evaluates setting g vars heap (.nodes (ids ++ [last])) (.object a) (heap.set a (.object (r.without names))) := by
  induction h generalizing heap r with
  | nil =>
    obtain ⟨hlt, hcell⟩ := List.getElem?_eq_some_iff.1 ha
    rw [Record.without_nil, ← hcell, set_getElem_self]
    exact hlast heap
  | @cons id name ids names hid hids ih =>
    obtain ⟨access, hid, haccess⟩ := hid
    have hlt := (List.getElem?_eq_some_iff.1 ha).1
    have ha' : (heap.set a (.object (r.erase name)))[a]? = some (.object (r.erase name)) := List.getElem?_set_self hlt
    have hrest := ih ha'
    rw [set_set, Record.without_cons] at hrest
    exact .cons (haccess.deletes hid hd ha) hrest

theorem removal_makes : Makes (do
      let deletions ← (names.map PatternKey.name).mapM fun key => do
        let access ← memberAccess temp key pos
        synthetic (.unary .delete access) pos
      let result ← useTemp temp pos
      return (← synthetic (.sequence (deletions ++ [result])) pos, [temp.id])) fun result g =>
      result.2 = [temp.id] ∧ ∀ setting vars heap a r, vars temp.id = some (.object a) → heap[a]? = some (.object r) →
        Evaluates setting g vars heap (.nodes [result.1]) (.object a) (heap.set a (.object (r.without names))) := by
  apply deletions_make.bind
  intro deletions
  apply useTemp_makes.bind
  intro last
  apply synthetic_makes.bind
  intro id
  apply Makes.pure
  intro g hid hlast hdeletions
  refine ⟨rfl, fun setting vars heap a r hd ha => ?_⟩
  exact .node hid (.sequence (hdeletions.evaluates hd ha (gives_of_name hlast hd)))

theorem objectRest_emits {taken : List String} (hs : s.builder.Tidy) (hobject : s.scopes.resolve? "Object" = none)
    (hrun : objectRest (.declare kind) temp (taken.map .name) pos s = .ok ((id, steps), s')) :
    Emits [] s s' steps ∧ ∀ g, Covers g s s' → ∀ setting vars heap a r,
      vars temp.id = some (.object a) → heap[a]? = some (.object r) →
        ∃ σ, Runs setting g ⟨vars, heap⟩ steps σ ∧ Evaluates setting g σ.vars σ.heap (.nodes [id])
          (.object heap.length) (heap ++ [.object (r.without taken)]) := by
  obtain ⟨binding, t, hresolve, hrun⟩ := bind_ok.1 hrun
  obtain ⟨object, t₁, hrunObject, hrun⟩ := bind_ok.1 hrun
  obtain ⟨empty, t₂, hempty, hrun⟩ := bind_ok.1 hrun
  obtain ⟨source, t₃, hsource, hrun⟩ := bind_ok.1 hrun
  obtain ⟨copy, u, hcall, hrun⟩ := bind_ok.1 hrun
  have hrunCopy : copyOf temp pos s = .ok (copy, u) :=
    bind_ok.2 ⟨binding, t, hresolve, bind_ok.2 ⟨object, t₁, hrunObject,
      bind_ok.2 ⟨empty, t₂, hempty, bind_ok.2 ⟨source, t₃, hsource, hcall⟩⟩⟩⟩
  obtain ⟨hu, hcopy⟩ := copyOf_extends hs hobject hrunCopy
  by_cases htaken : (taken.map PatternKey.name).isEmpty = true
  · rw [if_pos htaken] at hrun
    obtain ⟨hresult, rfl⟩ := pure_ok.1 hrun
    cases hresult
    obtain rfl : taken = [] := map_eq_nil_iff.1 (isEmpty_iff.1 htaken)
    refine ⟨emits_nil hu, fun g hg setting vars heap a r hd ha => ⟨_, .done, ?_⟩⟩
    rw [Record.without_nil]
    exact hcopy g hg setting vars heap a r hd ha
  · rw [if_neg htaken] at hrun
    obtain ⟨⟨rest, step⟩, u₁, hrest, hrun⟩ := bind_ok.1 hrun
    obtain ⟨rfl, hemits, hkind⟩ := bindTemp_emits hu.tidy hrest
    obtain ⟨hs', hremoval⟩ := removal_makes u₁ _ s' hemits.tidy hrun
    obtain ⟨rfl, -⟩ := hremoval s'.builder.kind? fun _ _ _ hk => hk
    have hsteps := (emits_nil hu).append (hemits.append (emits_nil hs'))
    refine ⟨hsteps, fun g hg setting vars heap a r hd ha => ?_⟩
    have hstep : g rest.id = some (.declarator rest.name (some copy)) :=
      hg _ _ (hsteps.fresh _ (by simp)) (hs'.kinds hkind)
    have hvalue := hcopy g (hg.left (extends_trans hemits.toExtends hs')) setting vars heap a r hd ha
    refine ⟨_, .step hstep hvalue .done, ?_⟩
    have hcollected := (hremoval g (hg.right (extends_trans hu hemits.toExtends))).2 setting
      (Function.update vars rest.id (some (.object heap.length))) (heap ++ [.object r]) heap.length r
      (Function.update_self _ _ _) (by simp)
    simpa using hcollected

end Destructure

end Retarget
