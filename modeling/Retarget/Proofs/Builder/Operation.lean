import Retarget.Builder.Build
import Retarget.Builder.Make
import Retarget.Proofs.Inversion
import Retarget.Proofs.Ownership

/-!
# Operations of the builder

When an operation succeeds, and what the builder is then.

* `Builder.check_eq_ok`: which nodes pass their check. `Builder.Fits b id kind` is what that says of references:
  each leads to another node of the right category or to a reserved id.
* `Builder.create_eq_ok` and its like: the one builder that a successful operation can give.
  `Builder.build_eq_ok`: the one module that can be built, and when it is.
-/

namespace Retarget

open Option Retarget.Except Std.ExtTreeSet

theorem NodeTable.KeysMatch.insert {nodes : NodeTable} {node : Node} {p : NodeId} (h : nodes.KeysMatch)
    (hid : node.id = p) : NodeTable.KeysMatch (nodes.insert p node) := by
  intro x n hn
  rw [Std.ExtTreeMap.getElem?_insert] at hn
  split at hn
  next heq =>
    obtain rfl := some.inj hn
    rw [hid]
    simpa using heq
  next => exact h x n hn

namespace Builder

variable {b b' : Builder} {kind : Kind} {e : Envelope} {p : NodeId}

/-- The references of a node of this kind under the id `p` lead to other nodes that fit or to reserved ids. -/
def Fits (b : Builder) (p : NodeId) (kind : Kind) : Prop :=
  ∀ r ∈ kind.references, r.target ≠ p ∧
    ((∃ target, b.kind? r.target = some target ∧ r.category.admits target = true) ∨ r.target ∈ b.reserved)

theorem referenceError?_eq_none {r : Reference} :
    b.referenceError? p kind r = none ↔ r.target ≠ p ∧
      ((∃ target, b.kind? r.target = some target ∧ r.category.admits target = true) ∨
        b.kind? r.target = none ∧ r.target ∈ b.reserved) := by
  rw [referenceError?, kind?, NodeTable.kind?]
  by_cases hself : r.target = p
  · simp [hself]
  · cases b.nodes[r.target]? with
    | some target => simp [hself]
    | none => simp [hself]

/-- **What passes the check**: the values are fine, and every reference leads to another node that fits or to an id
that is reserved. -/
theorem check_eq_ok :
    b.check p kind = .ok () ↔ scalarError? kind = none ∧ ∀ r ∈ kind.references, r.target ≠ p ∧
      ((∃ target, b.kind? r.target = some target ∧ r.category.admits target = true) ∨
        b.kind? r.target = none ∧ r.target ∈ b.reserved) := by
  have hcheck : b.check p kind = .ok () ↔ b.kindError? p kind = none := by
    rw [check]
    cases b.kindError? p kind <;> simp
  rw [hcheck, kindError?, or_eq_none_iff, List.findSome?_eq_none_iff]
  simp only [referenceError?_eq_none]

theorem check_ok (h : b.check p kind = .ok ()) : b.Fits p kind := fun r hr =>
  ((check_eq_ok.1 h).2 r hr).imp_right fun htarget => htarget.imp_right And.right

/-! ## Runs of operations

What the operations do, failures included: each of them makes its checks before it changes anything. -/

section Runs

variable {α : Type} {error : BuilderError} {a : α} {x : BuildM α}

theorem perform_eq_ok : b.perform x = .ok (a, b') ↔ x.run b = .ok a b' := by
  rw [perform]
  split
  next h => simp [h]
  next h => simp [h]

theorem map_perform_eq_ok {x : BuildM Unit} : (·.2) <$> b.perform x = .ok b' ↔ x.run b = .ok () b' := by
  rw [← perform_eq_ok]
  cases b.perform x <;> simp [Functor.map, Except.map, Prod.ext_iff]

end Runs

theorem run_check : (BuildM.check p kind).run b = match b.check p kind with
    | .ok () => .ok () b
    | .error error => .error error b := by
  cases h : b.check p kind <;> simp [BuildM.check, h]

theorem run_next : BuildM.next.run b =
    if b.nextId < idLimit then .ok b.nextId { b with nextId := b.nextId + 1 } else .error .idsExhausted b := by
  by_cases h : b.nextId < idLimit <;> simp [BuildM.next, h, -bind_pure_comp]

theorem run_create : (BuildM.create kind e).run b = match b.check b.nextId kind with
    | .error error => .error error b
    | .ok () => if b.nextId < idLimit then
        .ok b.nextId ({ b with nextId := b.nextId + 1 }.store b.nextId kind e) else .error .idsExhausted b := by
  cases h : b.check b.nextId kind with
  | error error => simp [BuildM.create, run_check, h]
  | ok =>
    by_cases hroom : b.nextId < idLimit <;> simp [BuildM.create, run_next, run_check, h, hroom, -bind_pure_comp]

theorem run_reserve : BuildM.reserve.run b =
    if b.nextId < idLimit then .ok b.nextId { b with nextId := b.nextId + 1, reserved := b.reserved.insert b.nextId }
    else .error .idsExhausted b := by
  by_cases h : b.nextId < idLimit <;> simp [BuildM.reserve, run_next, h, -bind_pure_comp]

theorem run_fill : (BuildM.fill p kind e).run b =
    if p ∈ b.reserved then
      match b.check p kind with
      | .error error => .error error b
      | .ok () => .ok () ({ b with reserved := b.reserved.erase p }.store p kind e)
    else .error (if p ∈ b.nodes then .alreadyDefined p else .unknownNode p) b := by
  by_cases hp : p ∈ b.reserved
  · cases h : b.check p kind <;> simp [BuildM.fill, isReserved, run_check, hp, h]
  · simp [BuildM.fill, isReserved, hp]

theorem run_update {change : Node → Node} : (BuildM.update p change).run b = match b.nodes[p]? with
    | some node => .ok () { b with nodes := b.nodes.insert p (change node) }
    | none => .error (.unknownNode p) b := by
  cases h : b.nodes[p]? <;> simp [BuildM.update, h]

theorem run_replace : (BuildM.replace p kind).run b = match b.check p kind with
    | .error error => .error error b
    | .ok () => (BuildM.update p ({ · with kind := kind })).run b := by
  cases h : b.check p kind <;> simp [BuildM.replace, run_check, h]

theorem run_create_error {error : BuilderError} (h : (BuildM.create kind e).run b = .error error b') : b' = b := by
  rw [run_create] at h
  split at h
  · cases h
    rfl
  · split at h
    · cases h
    · cases h
      rfl

theorem run_update_error {change : Node → Node} {error : BuilderError}
    (h : (BuildM.update p change).run b = .error error b') : b' = b := by
  rw [run_update] at h
  split at h
  · cases h
  · cases h
    rfl

theorem run_make {making : Making} : (BuildM.make making).run b =
    if making.isVoid then
      .error (.invalidNode "VariableDeclaration" "at least one declarator is required") b
    else (BuildM.create making.kind { type := making.type }).run b := by
  cases h : making.isVoid <;> simp [BuildM.make, h]

theorem create_eq_ok :
    b.create kind e = .ok (p, b') ↔ b.check b.nextId kind = .ok () ∧ b.nextId < idLimit ∧ p = b.nextId ∧
      b' = { b with nextId := b.nextId + 1 }.store b.nextId kind e := by
  rw [create, perform_eq_ok, run_create]
  cases b.check b.nextId kind with
  | error error => simp
  | ok => by_cases hroom : b.nextId < idLimit <;> simp [hroom, eq_comm]

theorem reserve_eq_ok :
    b.reserve = .ok (p, b') ↔ b.nextId < idLimit ∧ p = b.nextId ∧
      b' = { b with nextId := b.nextId + 1, reserved := b.reserved.insert b.nextId } := by
  rw [reserve, perform_eq_ok, run_reserve]
  by_cases hroom : b.nextId < idLimit <;> simp [hroom, eq_comm]

theorem fill_eq_ok :
    b.fill p kind e = .ok b' ↔ p ∈ b.reserved ∧ b.check p kind = .ok () ∧
      b' = { b with reserved := b.reserved.erase p }.store p kind e := by
  rw [fill, map_perform_eq_ok, run_fill]
  by_cases hp : p ∈ b.reserved
  · cases b.check p kind <;> simp [hp, eq_comm]
  · simp [hp]

theorem setType_eq_ok {type : Option TypeDescriptor} :
    b.setType p type = .ok b' ↔ ∃ node, b.nodes[p]? = some node ∧
      b' = { b with nodes := b.nodes.insert p { node with type := type } } := by
  rw [setType, map_perform_eq_ok, BuildM.setType, run_update]
  cases b.nodes[p]? <;> simp [eq_comm]

theorem replace_eq_ok :
    b.replace p kind = .ok b' ↔ b.check p kind = .ok () ∧ ∃ node, b.nodes[p]? = some node ∧
      b' = { b with nodes := b.nodes.insert p { node with kind := kind } } := by
  rw [replace, map_perform_eq_ok, run_replace]
  cases b.check p kind with
  | error error => simp
  | ok =>
    rw [run_update]
    cases b.nodes[p]? <;> simp [eq_comm]

theorem build_eq_ok {options : BuildOptions} {m : Module} :
    b.build options = .ok m ↔ b.completionError? = none ∧ m = b.toModule options.deriveCfg ∧
      (options.validate = true → m.isValid = true) := by
  rw [build]
  cases b.completionError? with
  | some error => simp [throw, throwThe, MonadExceptOf.throw]
  | none =>
    by_cases hv : (options.validate && !(b.toModule options.deriveCfg).isValid) = true
    · have hinvalid : options.validate = true ∧ (b.toModule options.deriveCfg).isValid = false := by
        simpa using hv
      simp only [hv, if_true]
      constructor
      · exact fun h => absurd h nofun
      rintro ⟨-, rfl, hvalid⟩
      exact absurd (hvalid hinvalid.1) (by simp [hinvalid.2])
    · have hvalid : options.validate = true → (b.toModule options.deriveCfg).isValid = true := by
        simpa using hv
      simp only [hv]
      constructor
      · intro h
        obtain rfl := Except.ok.inj h
        exact ⟨trivial, rfl, hvalid⟩
      · rintro ⟨-, rfl, -⟩
        rfl

theorem completionError?_eq_none (hfilled : ∀ d, d ∉ b.reserved)
    (hstatements : ∀ s ∈ b.body, ∃ kind, b.kind? s = some kind ∧ kind.isStatement = true) :
    b.completionError? = none := by
  have hreserved : b.reserved.min? = none := by
    rw [min?_eq_none_iff, eq_empty_iff_forall_not_mem]
    exact hfilled
  rw [completionError?, hreserved, map_none, none_or, List.head?_eq_none_iff]
  refine List.filterMap_eq_nil_iff.2 fun error herror => ?_
  obtain ⟨n, hn, rfl⟩ := List.mem_mapIdx.1 herror
  obtain ⟨kind, hkind, hstatement⟩ := hstatements _ (List.getElem_mem hn)
  obtain ⟨node, hnode, rfl⟩ := NodeTable.kind?_eq_some.1 hkind
  simp [statementError?, hnode, hstatement]

theorem not_mem_reserved_of_complete (h : b.completionError? = none) : p ∉ b.reserved := by
  rw [completionError?, or_eq_none_iff, map_eq_none_iff, min?_eq_none_iff] at h
  simp [h.1]

end Builder

end Retarget
