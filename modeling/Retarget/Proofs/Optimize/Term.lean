import Mathlib.Data.List.Lex
import Retarget.Binary64.Basic
import Retarget.Node.Basic

/-!
# Terms and their values

The part of the language that has a value without running anything: literals, names, and the operators of
arithmetic, comparison, logic and choice.

* `Term` is its syntax, and `Term.eval` gives a term its value, for any values of the names.
* `Unfolds g id t`: the node `id` of a program, read with all that is below it, is the term `t`. A node that is
  shared between others is read once for each of them.
* `Unfolds.eq`: a node is at most one term, so that it has at most one value.

What evaluation leaves open is gathered in `Runtime`: objects, the conversions between numbers and texts, powers of
numbers that are not finite, and the operators on bits and on objects.
-/

namespace Retarget

open Option

/-! ## Values -/

inductive Primitive where
  | undefined
  | null
  | boolean (value : Bool)
  | number (value : Float)
  | string (value : String)
  deriving DecidableEq, Repr

inductive Value (Object : Type) where
  | primitive (value : Primitive)
  | object (value : Object)
  deriving DecidableEq, Repr

/-- What an object is asked for when it is made a primitive value. -/
inductive Hint where
  | any
  | number
  deriving DecidableEq, Repr

structure Runtime (Object : Type) where
  same : Object → Object → Bool
  typeOf : Object → String
  primitive : Hint → Object → Primitive
  numberOf : String → Float
  textOf : Float → String
  power : Float → Float → Float
  power_finite : ∀ x y, x.isFinite = true → y.isFinite = true → power x y = x ^ y
  bitNot : Value Object → Value Object
  binary : BinaryOperator → Value Object → Value Object → Value Object

namespace Primitive

variable {Object : Type} (runtime : Runtime Object)

def isNullish : Primitive → Bool
  | undefined | null => true
  | _ => false

def truthy : Primitive → Bool
  | undefined | null => false
  | boolean value => value
  | number value => value != 0.0 && !value.isNaN
  | string value => value != ""

def typeOf : Primitive → String
  | undefined => "undefined"
  | null => "object"
  | boolean _ => "boolean"
  | number _ => "number"
  | string _ => "string"

def toNumber : Primitive → Float
  | undefined => 0.0 / 0.0
  | null => 0.0
  | boolean value => if value then 1.0 else 0.0
  | number value => value
  | string value => runtime.numberOf value

def toText : Primitive → String
  | undefined => "undefined"
  | null => "null"
  | boolean value => if value then "true" else "false"
  | number value => runtime.textOf value
  | string value => value

def strictEq : Primitive → Primitive → Bool
  | undefined, undefined | null, null => true
  | boolean a, boolean b => a == b
  | number a, number b => a == b
  | string a, string b => a == b
  | _, _ => false

/-- Values of different types are compared as numbers, unless they stand for nothing. -/
def looseEq (a b : Primitive) : Bool :=
  if a.isNullish || b.isNullish then a.isNullish && b.isNullish
  else if a.typeOf = b.typeOf then strictEq a b
  else a.toNumber runtime == b.toNumber runtime

/-- If one of the values is a text, both are joined as texts; other values are added as numbers. -/
def add : Primitive → Primitive → Primitive
  | string a, b => string (a ++ b.toText runtime)
  | a, string b => string (a.toText runtime ++ b)
  | a, b => number (a.toNumber runtime + b.toNumber runtime)

def units (s : String) : List Nat :=
  s.toList.flatMap fun c =>
    if c.toNat < 0x10000 then [c.toNat]
    else [0xd800 + (c.toNat - 0x10000) / 0x400, 0xdc00 + (c.toNat - 0x10000) % 0x400]

def compare (texts : List Nat → List Nat → Bool) (numbers : Float → Float → Bool) : Primitive → Primitive → Bool
  | string a, string b => texts (units a) (units b)
  | a, b => numbers (a.toNumber runtime) (b.toNumber runtime)

end Primitive

namespace Value

variable {Object : Type} (runtime : Runtime Object)

def truthy : Value Object → Bool
  | primitive value => value.truthy
  | object _ => true

def isNullish : Value Object → Bool
  | primitive value => value.isNullish
  | object _ => false

def typeOf : Value Object → String
  | primitive value => value.typeOf
  | object value => runtime.typeOf value

def toPrimitive (hint : Hint) : Value Object → Primitive
  | primitive value => value
  | object value => runtime.primitive hint value

def toNumber (value : Value Object) : Float := (value.toPrimitive runtime .number).toNumber runtime

def strictEq : Value Object → Value Object → Bool
  | primitive a, primitive b => a.strictEq b
  | object a, object b => runtime.same a b
  | _, _ => false

/-- An object that is compared with something else is made a primitive value, unless that stands for nothing. -/
def looseEq : Value Object → Value Object → Bool
  | primitive a, primitive b => a.looseEq runtime b
  | object a, object b => runtime.same a b
  | object a, primitive b => !b.isNullish && (runtime.primitive .any a).looseEq runtime b
  | primitive a, object b => !a.isNullish && a.looseEq runtime (runtime.primitive .any b)

def boolean (value : Bool) : Value Object := primitive (.boolean value)

def arithmetic (operation : Float → Float → Float) (a b : Value Object) : Value Object :=
  primitive (.number (operation (a.toNumber runtime) (b.toNumber runtime)))

def order (texts : List Nat → List Nat → Bool) (numbers : Float → Float → Bool) (a b : Value Object) : Value Object :=
  boolean ((a.toPrimitive runtime .number).compare runtime texts numbers (b.toPrimitive runtime .number))

def binary (operator : BinaryOperator) (a b : Value Object) : Value Object :=
  match operator with
  | .add => primitive ((a.toPrimitive runtime .any).add runtime (b.toPrimitive runtime .any))
  | .sub => arithmetic runtime (· - ·) a b
  | .mul => arithmetic runtime (· * ·) a b
  | .div => arithmetic runtime (· / ·) a b
  | .rem => arithmetic runtime remainder a b
  | .exp => arithmetic runtime runtime.power a b
  | .eq => boolean (a.looseEq runtime b)
  | .notEq => boolean !a.looseEq runtime b
  | .strictEq => boolean (a.strictEq runtime b)
  | .strictNotEq => boolean !a.strictEq runtime b
  | .lt => order runtime (· < ·) (· < ·) a b
  | .ltEq => order runtime (· ≤ ·) (· ≤ ·) a b
  | .gt => order runtime (· > ·) (· > ·) a b
  | .gtEq => order runtime (· ≥ ·) (· ≥ ·) a b
  | .bitAnd | .bitOr | .bitXor | .shl | .shr | .ushr | .isIn | .instanceOf => runtime.binary operator a b

/-- An operator on a value; deleting something is not one of these. -/
def unary (operator : UnaryOperator) (a : Value Object) : Value Object :=
  match operator with
  | .neg => primitive (.number (-a.toNumber runtime))
  | .plus => primitive (.number (a.toNumber runtime))
  | .not => boolean !a.truthy
  | .typeOf => primitive (.string (a.typeOf runtime))
  | .bitNot => runtime.bitNot a
  | .void | .delete => primitive .undefined

def decides (operator : LogicalOperator) (a : Value Object) : Bool :=
  match operator with
  | .and => !a.truthy
  | .or => a.truthy
  | .nullish => !a.isNullish

end Value

/-! ## Terms -/

inductive Term where
  | literal (value : Primitive)
  | name (name : String) (binding : Option NodeId)
  | unary (operator : UnaryOperator) (argument : Term)
  | binary (operator : BinaryOperator) (left right : Term)
  | logical (operator : LogicalOperator) (left right : Term)
  | conditional (test consequent alternate : Term)

abbrev Environment (Object : Type) := String → Option NodeId → Value Object

namespace Term

variable {Object : Type} (runtime : Runtime Object) (env : Environment Object)

def eval : Term → Value Object
  | literal value => .primitive value
  | name text binding => env text binding
  | unary operator argument => argument.eval.unary runtime operator
  | binary operator left right => left.eval.binary runtime operator right.eval
  | logical operator left right => if left.eval.decides operator then left.eval else right.eval
  | conditional test consequent alternate => if test.eval.truthy then consequent.eval else alternate.eval

def Same (t t' : Term) : Prop :=
  ∀ (Object : Type) (runtime : Runtime Object) (env : Environment Object), t.eval runtime env = t'.eval runtime env

theorem Same.refl (t : Term) : t.Same t := fun _ _ _ => rfl

theorem Same.trans {t t' t'' : Term} (h : t.Same t') (h' : t'.Same t'') : t.Same t'' :=
  fun Object runtime env => (h Object runtime env).trans (h' Object runtime env)

end Term

def Kind.primitive? : Kind → Option Primitive
  | .undefined => some .undefined
  | .null => some .null
  | .boolean value => some (.boolean value)
  | .number value => if value.isFinite then some (.number value) else none
  | .string value => some (.string value)
  | _ => none

/-- The node `id` stands for a term. -/
inductive Unfolds (g : NodeId → Option Kind) : NodeId → Term → Prop
  | literal {id kind value} (h : g id = some kind) (hvalue : kind.primitive? = some value) :
    Unfolds g id (.literal value)
  | name {id name binding} (h : g id = some (.identifier name binding)) : Unfolds g id (.name name binding)
  | unary {id operator argument t} (h : g id = some (.unary operator argument)) (hvalue : operator ≠ .delete)
      (ht : Unfolds g argument t) : Unfolds g id (.unary operator t)
  | binary {id operator left right t t'} (h : g id = some (.binary operator left right))
      (ht : Unfolds g left t) (ht' : Unfolds g right t') : Unfolds g id (.binary operator t t')
  | logical {id operator left right t t'} (h : g id = some (.logical operator left right))
      (ht : Unfolds g left t) (ht' : Unfolds g right t') : Unfolds g id (.logical operator t t')
  | conditional {id test consequent alternate t t' t''}
      (h : g id = some (.conditional test consequent alternate)) (ht : Unfolds g test t)
      (ht' : Unfolds g consequent t') (ht'' : Unfolds g alternate t'') :
      Unfolds g id (.conditional t t' t'')

namespace Unfolds

variable {g : NodeId → Option Kind} {id id' : NodeId} {t t' : Term}

theorem congr (h : Unfolds g id t) (hid : g id' = g id) : Unfolds g id' t := by
  cases h with
  | literal h hvalue => exact .literal (hid.trans h) hvalue
  | name h => exact .name (hid.trans h)
  | unary h hvalue ht => exact .unary (hid.trans h) hvalue ht
  | binary h ht ht' => exact .binary (hid.trans h) ht ht'
  | logical h ht ht' => exact .logical (hid.trans h) ht ht'
  | conditional h ht ht' ht'' => exact .conditional (hid.trans h) ht ht' ht''

variable {kind : Kind}

theorem of_primitive? {value : Primitive} (h : Unfolds g id t) (hid : g id = some kind)
    (hvalue : kind.primitive? = some value) : t = .literal value := by
  cases h with
  | literal h hvalue' =>
    rw [hid] at h
    cases h
    rw [hvalue] at hvalue'
    cases hvalue'
    rfl
  | name h | unary h | binary h | logical h | conditional h =>
    rw [hid] at h
    cases h
    exact absurd hvalue nofun

/-- The term is made by the operation of the kind. -/
def OfKind (g : NodeId → Option Kind) (t : Term) : Kind → Prop
  | .identifier text binding => t = .name text binding
  | .unary operator argument => ∃ s, t = .unary operator s ∧ Unfolds g argument s
  | .binary operator left right => ∃ s s', t = .binary operator s s' ∧ Unfolds g left s ∧ Unfolds g right s'
  | .logical operator left right => ∃ s s', t = .logical operator s s' ∧ Unfolds g left s ∧ Unfolds g right s'
  | .conditional test consequent alternate =>
    ∃ s s' s'', t = .conditional s s' s'' ∧ Unfolds g test s ∧ Unfolds g consequent s' ∧ Unfolds g alternate s''
  | _ => True

theorem ofKind (h : Unfolds g id t) (hid : g id = some kind) : OfKind g t kind := by
  cases h with
  | literal h hvalue =>
    obtain rfl := some.inj (hid.symm.trans h)
    cases kind <;> trivial
  | name h =>
    obtain rfl := some.inj (hid.symm.trans h)
    rfl
  | unary h _ ht =>
    obtain rfl := some.inj (hid.symm.trans h)
    exact ⟨_, rfl, ht⟩
  | binary h ht ht' | logical h ht ht' =>
    obtain rfl := some.inj (hid.symm.trans h)
    exact ⟨_, _, rfl, ht, ht'⟩
  | conditional h ht ht' ht'' =>
    obtain rfl := some.inj (hid.symm.trans h)
    exact ⟨_, _, _, rfl, ht, ht', ht''⟩

/-- **A node stands for at most one term.** -/
theorem eq (h : Unfolds g id t) (h' : Unfolds g id t') : t = t' := by
  induction h generalizing t' with
  | literal h hvalue => exact (h'.of_primitive? h hvalue).symm
  | name h => exact (h'.ofKind h).symm
  | unary h _ _ ih =>
    obtain ⟨s, rfl, hs⟩ := h'.ofKind h
    rw [ih hs]
  | binary h _ _ ih ih' | logical h _ _ ih ih' =>
    obtain ⟨s, s', rfl, hs, hs'⟩ := h'.ofKind h
    rw [ih hs, ih' hs']
  | conditional h _ _ _ ih ih' ih'' =>
    obtain ⟨s, s', s'', rfl, hs, hs', hs''⟩ := h'.ofKind h
    rw [ih hs, ih' hs', ih'' hs'']

end Unfolds

end Retarget
