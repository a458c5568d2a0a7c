import Retarget.Proofs.Wasm.Typing

/-!
# Running WebAssembly code

A stack machine for the instructions that are generated. Code ends by running out, by a branch to one of the blocks
around it, or by a return; what it cannot do, such as reading a local that does not exist, has no result.

* `exec b fuel code s` runs code with a bound on the number of steps, and `Runs b code s o s'` says that the code ends
  with the outcome `o` in the state `s'`, whatever the bound takes to be.
* `Runs.unique`: code ends in at most one way.
* `runs_cons_iff` and `Runs.append`: instructions run one after the other.
-/

namespace Retarget.Wasm

open Option

inductive Value where
  | f64 (x : Float)
  | i32 (x : UInt32)
  deriving DecidableEq, Repr

def Value.truth (b : Bool) : Value := .i32 (if b then 1 else 0)

structure State where
  stack : List Value
  locals : List Float
  globals : List Float
  deriving DecidableEq, Repr

inductive Outcome where
  | next
  | branch (depth : Nat)
  | ret
  deriving DecidableEq, Repr

/-! ## Operations on doubles -/

inductive FloatOp.Meaning where
  | compare (f : Float → Float → Bool)
  | unary (f : Float → Float)
  | binary (f : Float → Float → Float)

namespace FloatOp

def truncate (x : Float) : Float := if x < 0.0 then x.ceil else x.floor

/-- The lesser of two doubles; it is NaN if one of them is, and a negative zero is less than a positive one. -/
def lesser (a b : Float) : Float :=
  if a.isNaN || b.isNaN then 0.0 / 0.0
  else if a < b then a
  else if b < a then b
  else if (1.0 / a : Float) < 0.0 then a else b

def meaning : FloatOp → Meaning
  | eq => .compare (· == ·)
  | ne => .compare (· != ·)
  | lt => .compare fun a b => a < b
  | gt => .compare fun a b => a > b
  | le => .compare fun a b => a ≤ b
  | ge => .compare fun a b => a ≥ b
  | abs => .unary Float.abs
  | neg => .unary (- ·)
  | ceil => .unary Float.ceil
  | floor => .unary Float.floor
  | trunc => .unary truncate
  | sqrt => .unary Float.sqrt
  | add => .binary (· + ·)
  | sub => .binary (· - ·)
  | mul => .binary (· * ·)
  | div => .binary (· / ·)
  | min => .binary lesser
  | max => .binary fun a b => -lesser (-a) (-b)

def Meaning.apply : Meaning → List Value → Option (List Value)
  | compare f, .f64 b :: .f64 a :: stack => some (.truth (f a b) :: stack)
  | unary f, .f64 a :: stack => some (.f64 (f a) :: stack)
  | binary f, .f64 b :: .f64 a :: stack => some (.f64 (f a b) :: stack)
  | _, _ => none

end FloatOp

/-! ## Instructions -/

/-- The state after an instruction that does not change the course of the code. -/
def Instr.step : Instr → State → Option State
  | .const value, s => some { s with stack := .f64 value :: s.stack }
  | .localGet i, s => (s.locals[i]?).map fun x => { s with stack := .f64 x :: s.stack }
  | .localSet i, ⟨.f64 x :: stack, locals, globals⟩ =>
    if i < locals.length then some ⟨stack, locals.set i x, globals⟩ else none
  | .localTee i, ⟨.f64 x :: stack, locals, globals⟩ =>
    if i < locals.length then some ⟨.f64 x :: stack, locals.set i x, globals⟩ else none
  | .globalGet i, s => (s.globals[i]?).map fun x => { s with stack := .f64 x :: s.stack }
  | .globalSet i, ⟨.f64 x :: stack, locals, globals⟩ =>
    if i < globals.length then some ⟨stack, locals, globals.set i x⟩ else none
  | .float op, s => (op.meaning.apply s.stack).map fun stack => { s with stack }
  | .isZero, ⟨.i32 x :: stack, locals, globals⟩ => some ⟨.truth (x == 0) :: stack, locals, globals⟩
  | .both, ⟨.i32 y :: .i32 x :: stack, locals, globals⟩ => some ⟨.i32 (x &&& y) :: stack, locals, globals⟩
  | .toFloat, ⟨.i32 x :: stack, locals, globals⟩ => some ⟨.f64 x.toFloat :: stack, locals, globals⟩
  | .drop, ⟨_ :: stack, locals, globals⟩ => some ⟨stack, locals, globals⟩
  | _, _ => none

/-- How a block is left whose body started on an empty stack; a branch to the block keeps `arity` operands. -/
def Outcome.leave (arity : Nat) (outer : List Value) : Outcome → State → Outcome × State
  | .branch 0, s => (.next, { s with stack := s.stack.take arity ++ outer })
  | .branch (depth + 1), s => (.branch depth, { s with stack := s.stack ++ outer })
  | o, s => (o, { s with stack := s.stack ++ outer })

def popDoubles : Nat → List Value → Option (List Float × List Value)
  | 0, stack => some ([], stack)
  | n + 1, .f64 x :: stack => (popDoubles n stack).map fun (xs, rest) => (xs ++ [x], rest)
  | _ + 1, _ => none

abbrev Runner := Code → State → Option (Outcome × State)

/-- A call of a function; its body counts as a block that can be left with the result. -/
def callWith (b : Binary) (run : Runner) (function : Nat) (s : State) : Option (Outcome × State) := do
  let sig ← b.type? function
  let body ← b.bodies[function]?
  let (arguments, rest) ← popDoubles sig.params s.stack
  match ← run body.code ⟨[], arguments ++ List.replicate body.locals 0.0, s.globals⟩ with
  | (.branch (_ + 1), _) => none
  | (_, s') => some (.next, ⟨s'.stack.take sig.results.length ++ rest, s.locals, s'.globals⟩)

/-- Runs an instruction; code inside it is run by `run`. -/
def Instr.runWith (b : Binary) (run : Runner) : Instr → State → Option (Outcome × State)
  | .call function, s => callWith b run function s
  | .ret, s => some (.ret, s)
  | .br depth, s => some (.branch depth, s)
  | .brIf depth, ⟨.i32 x :: stack, locals, globals⟩ =>
    some (if x = 0 then .next else .branch depth, ⟨stack, locals, globals⟩)
  | .block body, s => (run body { s with stack := [] }).map fun r => r.1.leave 0 s.stack r.2
  | .loop body, s =>
    (run body { s with stack := [] }).bind fun r =>
      if r.1 = .branch 0 then run [.loop body] { r.2 with stack := s.stack } else some (r.1.leave 0 s.stack r.2)
  | .ifThen body, ⟨.i32 x :: stack, locals, globals⟩ =>
    if x = 0 then some (.next, ⟨stack, locals, globals⟩)
    else (run body ⟨[], locals, globals⟩).map fun r => r.1.leave 0 stack r.2
  | .ifElse valued consequent alternate, ⟨.i32 x :: stack, locals, globals⟩ =>
    (run (if x = 0 then alternate else consequent) ⟨[], locals, globals⟩).map fun r =>
      r.1.leave (if valued then 1 else 0) stack r.2
  | i, s => (i.step s).map fun s => (.next, s)

def exec (b : Binary) : (fuel : Nat) → Runner
  | 0, _, _ => none
  | _ + 1, [], s => some (.next, s)
  | fuel + 1, i :: rest, s =>
    (i.runWith b (exec b fuel) s).bind fun r => if r.1 = .next then exec b fuel rest r.2 else some r

/-- The code ends with the outcome `o` in the state `s'`. -/
def Runs (b : Binary) (code : Code) (s : State) (o : Outcome) (s' : State) : Prop :=
  ∃ fuel, exec b fuel code s = some (o, s')

/-- The instruction ends with the outcome `o` in the state `s'`. -/
def InstrRuns (b : Binary) (i : Instr) (s : State) (o : Outcome) (s' : State) : Prop :=
  ∃ fuel, i.runWith b (exec b fuel) s = some (o, s')

/-! ## More steps change nothing -/

variable {b : Binary} {run run' : Runner} {i : Instr} {code rest : Code} {s s' s₁ : State} {o o' : Outcome}
  {r : Outcome × State} {fuel fuel' : Nat}

theorem callWith_mono (h : ∀ code s r, run code s = some r → run' code s = some r) {function : Nat}
    (hr : callWith b run function s = some r) : callWith b run' function s = some r := by
  simp only [callWith, bind_eq_bind, bind_eq_some_iff] at hr ⊢
  obtain ⟨sig, hsig, body, hbody, popped, hpopped, result, hrun, hr⟩ := hr
  exact ⟨sig, hsig, body, hbody, popped, hpopped, result, h _ _ _ hrun, hr⟩

theorem Instr.runWith_mono (h : ∀ code s r, run code s = some r → run' code s = some r)
    (hr : i.runWith b run s = some r) : i.runWith b run' s = some r := by
  unfold Instr.runWith at hr ⊢
  split at hr
  case h_1 => exact callWith_mono h hr
  case h_5 | h_8 =>
    obtain ⟨result, hrun, hr⟩ := map_eq_some_iff.1 hr
    exact map_eq_some_iff.2 ⟨result, h _ _ _ hrun, hr⟩
  case h_6 =>
    obtain ⟨result, hrun, hr⟩ := bind_eq_some_iff.1 hr
    refine bind_eq_some_iff.2 ⟨result, h _ _ _ hrun, ?_⟩
    split at hr
    · rw [if_pos ‹_›]
      exact h _ _ _ hr
    · rw [if_neg ‹_›]
      exact hr
  case h_7 =>
    split at hr
    · rw [if_pos ‹_›]
      exact hr
    · rw [if_neg ‹_›]
      obtain ⟨result, hrun, hr⟩ := map_eq_some_iff.1 hr
      exact map_eq_some_iff.2 ⟨result, h _ _ _ hrun, hr⟩
  all_goals exact hr

theorem exec_mono (hfuel : fuel ≤ fuel') (h : exec b fuel code s = some r) : exec b fuel' code s = some r := by
  induction fuel generalizing fuel' code s r with
  | zero => cases h
  | succ fuel ih =>
    obtain ⟨fuel', rfl⟩ : ∃ k, fuel' = k + 1 := ⟨fuel' - 1, by omega⟩
    have hle : fuel ≤ fuel' := by omega
    cases code with
    | nil => exact h
    | cons i rest =>
      obtain ⟨result, hi, hrest⟩ := bind_eq_some_iff.1 h
      refine bind_eq_some_iff.2 ⟨result, Instr.runWith_mono (fun code s r => ih hle) hi, ?_⟩
      split at hrest
      · rw [if_pos ‹_›]
        exact ih hle hrest
      · rw [if_neg ‹_›]
        exact hrest

/-- **Code ends in at most one way.** -/
theorem Runs.unique (h : Runs b code s o s₁) (h' : Runs b code s o' s') : o = o' ∧ s₁ = s' := by
  obtain ⟨fuel, h⟩ := h
  obtain ⟨fuel', h'⟩ := h'
  have hsame := (exec_mono (Nat.le_max_left fuel fuel') h).symm.trans (exec_mono (Nat.le_max_right fuel fuel') h')
  exact Prod.mk.inj (some.inj hsame)

/-! ## Instructions one after the other -/

theorem Runs.nil : Runs b [] s .next s := ⟨1, rfl⟩

theorem runs_cons_iff : Runs b (i :: rest) s o s' ↔
    ∃ o₁ s₁, InstrRuns b i s o₁ s₁ ∧ if o₁ = .next then Runs b rest s₁ o s' else o = o₁ ∧ s' = s₁ := by
  constructor
  · rintro ⟨fuel, h⟩
    cases fuel with
    | zero => cases h
    | succ fuel =>
      obtain ⟨⟨o₁, s₁⟩, hi, hrest⟩ := bind_eq_some_iff.1 h
      refine ⟨o₁, s₁, ⟨fuel, hi⟩, ?_⟩
      split at hrest
      · rw [if_pos ‹_›]
        exact ⟨fuel, hrest⟩
      · rw [if_neg ‹_›]
        cases hrest
        exact ⟨rfl, rfl⟩
  · rintro ⟨o₁, s₁, ⟨fuel, hi⟩, hrest⟩
    split at hrest
    next hnext =>
      obtain ⟨fuel', hrest⟩ := hrest
      refine ⟨max fuel fuel' + 1, bind_eq_some_iff.2 ⟨(o₁, s₁), ?_, ?_⟩⟩
      · exact Instr.runWith_mono (fun code s r => exec_mono (Nat.le_max_left fuel fuel')) hi
      · rw [if_pos hnext]
        exact exec_mono (Nat.le_max_right fuel fuel') hrest
    next hnext =>
      obtain ⟨rfl, rfl⟩ := hrest
      exact ⟨fuel + 1, bind_eq_some_iff.2 ⟨(o, s'), hi, if_neg hnext⟩⟩

theorem Runs.cons (hi : InstrRuns b i s .next s₁) (hrest : Runs b rest s₁ o s') : Runs b (i :: rest) s o s' :=
  runs_cons_iff.2 ⟨.next, s₁, hi, by rwa [if_pos rfl]⟩

theorem Runs.append {code' : Code} (h : Runs b code s .next s₁) (h' : Runs b code' s₁ o s') :
    Runs b (code ++ code') s o s' := by
  induction code generalizing s with
  | nil =>
    obtain ⟨-, rfl⟩ := h.unique .nil
    exact h'
  | cons i rest ih =>
    obtain ⟨o₁, s₂, hi, hrest⟩ := runs_cons_iff.1 h
    split at hrest
    next hnext =>
      cases hnext
      exact .cons hi (ih hrest)
    next hnext => exact absurd hrest.1.symm hnext

theorem InstrRuns.of_step (h : i.step s = some s') : InstrRuns b i s .next s' := by
  refine ⟨0, ?_⟩
  unfold Instr.runWith
  split
  case h_9 => rw [h]; rfl
  all_goals cases h

theorem Runs.step (h : i.step s = some s₁) (hrest : Runs b rest s₁ o s') : Runs b (i :: rest) s o s' :=
  .cons (.of_step h) hrest

theorem InstrRuns.ifElse {valued : Bool} {consequent alternate : Code} {x : UInt32} {stack : List Value}
    {locals globals : List Float}
    (h : Runs b (if x = 0 then alternate else consequent) ⟨[], locals, globals⟩ .next s') :
    InstrRuns b (.ifElse valued consequent alternate) ⟨.i32 x :: stack, locals, globals⟩ .next
      { s' with stack := s'.stack ++ stack } := by
  obtain ⟨fuel, h⟩ := h
  refine ⟨fuel, ?_⟩
  simp only [Instr.runWith, h]
  rfl

end Retarget.Wasm
