import Retarget.Lower.Program
import Retarget.Proofs.Numeric.Whole
import Retarget.Proofs.Optimize.Term

/-!
# What patterns bind

The meaning of a pattern on its own: which value each of its names gets.

* `Heap`: arrays without holes and plain objects, by their addresses. What is made gets the next address.
* `Literal.propertyName`: the property that a literal key stands for when a program is run. Numbers are written with
  an exponent from `1e21` on and below `1e-6`, which `Literal.key` never does.
* `Binds task heap bound heap'`: taking a value apart gives the names `bound`, and `heap'` has the arrays and objects
  that were made for rests. Parts are taken from left to right.
-/

namespace Retarget

open Syntax List

/-! ## Values and heaps -/

namespace Destructure

abbrev Address := Nat

abbrev Val := Value Address

def undefined : Val := .primitive .undefined

structure DenseArray where
  elements : List Val
  length_lt : elements.length < 2 ^ 32

namespace DenseArray

def read (a : DenseArray) (index : Nat) : Val := a.elements[index]?.getD undefined

def drop (a : DenseArray) (index : Nat) : DenseArray where
  elements := a.elements.drop index
  length_lt := by
    rw [length_drop]
    exact Nat.lt_of_le_of_lt (Nat.sub_le _ _) a.length_lt

end DenseArray

abbrev Record := Std.ExtTreeMap String Val

namespace Record

def read (r : Record) (name : String) : Val := r[name]?.getD undefined

def without (r : Record) (names : List String) : Record := r.filter fun name _ => name ∉ names

end Record

inductive Cell where
  | array (a : DenseArray)
  | object (r : Record)

abbrev Heap := List Cell

end Destructure

open Destructure

/-! ## Literals -/

/-- How a program that is run writes a number: positional from `1e-6` up to `1e20`, whole numbers without a point,
and a sign on every exponent. -/
def FloatLayout.script : FloatLayout := ⟨.toEven, some (-6, 20), false, true⟩

namespace Syntax

namespace Literal

/-- The property that a literal key stands for when the program is run. -/
def propertyName (lit : Literal) : String :=
  match lit.bigint, lit.value with
  | some digits, _ => digits
  | none, .str s => s
  | none, .num n =>
    let x := n.toFloat
    match FloatLayout.script.write? x with
    | some text => if x == 0.0 then "0" else text
    | none => if x.isNaN then "NaN" else if x < 0.0 then "-Infinity" else "Infinity"
  | none, value => value.compact

/-- A key from `1e21` on is written out, but is read with an exponent. -/
example : key { value := .num (.float 1e21) } = "1000000000000000000000" ∧
    propertyName { value := .num (.float 1e21) } = "1e+21" := by decide +kernel

def primitive? (lit : Literal) : Option Primitive :=
  match lit.regex, lit.bigint, lit.value with
  | none, none, .num n => some (.number n.toFloat)
  | none, none, .str s => some (.string s)
  | none, none, .bool b => some (.boolean b)
  | none, none, .null => some .null
  | _, _, _ => none

def inPlaceOf? (lit : Literal) : Val → Option Val
  | .primitive .undefined => lit.primitive?.map .primitive
  | value => some value

end Literal

namespace Tree

def literal? : Tree s → Option Literal
  | literal lit => some lit
  | _ => none

def propertyName? : Expr → Option String
  | identifier id => some id.name
  | literal lit => some lit.propertyName
  | _ => none

def literalKeys : Tree s → List Literal
  | cons head tail => head.literalKeys ++ tail.literalKeys
  | present item => item.literalKeys
  | objectPattern members _ => members.literalKeys
  | arrayPattern elements _ => elements.literalKeys
  | restPattern argument _ | patternRest argument _ => argument.literalKeys
  | defaultPattern target _ _ => target.literalKeys
  | patternProperty key value _ _ _ => key.literal?.toList ++ value.literalKeys
  | _ => []

end Tree

end Syntax

/-! ## Patterns -/

namespace Destructure

inductive Task where
  | whole (pattern : Pattern) (value : Val)
  /-- Members of an object, after the properties of the names `taken`. -/
  | members (object : Address) (taken : List String) (members : Tree (.list .patternMember))
  | elements (array : Address) (index : Nat) (elements : Tree (.list (.opt .pattern)))

namespace Task

def names : Task → List String
  | whole pattern _ => pattern.patternNames
  | members _ _ list => list.patternNames
  | elements _ _ list => list.patternNames

def literalKeys : Task → List Literal
  | whole pattern _ => pattern.literalKeys
  | members _ _ list => list.literalKeys
  | elements _ _ list => list.literalKeys

end Task

abbrev Bound := List (String × Val)

/-- The task is done with the heap `heap`: the names get the values `bound`, and the heap is `heap'` afterwards. Keys
are not computed, defaults are literals, and a rest comes last. -/
inductive Binds : Task → Heap → Bound → Heap → Prop
  | identifier {id v heap} : Binds (.whole (.idPattern id) v) heap [(id.name, v)] heap
  | default {target lit pos v w heap bound heap'} (hv : lit.inPlaceOf? v = some w)
      (h : Binds (.whole target w) heap bound heap') :
      Binds (.whole (.defaultPattern target (.literal lit) pos) v) heap bound heap'
  | object {members pos a heap bound heap'} (h : Binds (.members a [] members) heap bound heap') :
      Binds (.whole (.objectPattern members pos) (.object a)) heap bound heap'
  | array {elements pos a heap bound heap'} (h : Binds (.elements a 0 elements) heap bound heap') :
      Binds (.whole (.arrayPattern elements pos) (.object a)) heap bound heap'
  | noMember {a taken heap r} (ha : heap[a]? = some (.object r)) : Binds (.members a taken .nil) heap [] heap
  | property {a taken key value shorthand pos more name r heap bound heap₁ bound' heap₂}
      (hkey : key.propertyName? = some name) (ha : heap[a]? = some (.object r))
      (hvalue : Binds (.whole value (r.read name)) heap bound heap₁)
      (hmore : Binds (.members a (taken ++ [name]) more) heap₁ bound' heap₂) :
      Binds (.members a taken (.cons (.patternProperty key value false shorthand pos) more)) heap (bound ++ bound')
        heap₂
  | objectRest {a taken argument pos r heap bound heap'} (ha : heap[a]? = some (.object r))
      (h : Binds (.whole argument (.object heap.length)) (heap ++ [.object (r.without taken)]) bound heap') :
      Binds (.members a taken (.cons (.patternRest argument pos) .nil)) heap bound heap'
  | noElement {a index heap array} (ha : heap[a]? = some (.array array)) : Binds (.elements a index .nil) heap [] heap
  | hole {a index more heap bound heap'} (h : Binds (.elements a (index + 1) more) heap bound heap') :
      Binds (.elements a index (.cons .absent more)) heap bound heap'
  | element {a index element more array heap bound heap₁ bound' heap₂} (ha : heap[a]? = some (.array array))
      (helement : Binds (.whole element (array.read index)) heap bound heap₁)
      (hmore : Binds (.elements a (index + 1) more) heap₁ bound' heap₂) :
      Binds (.elements a index (.cons (.present element) more)) heap (bound ++ bound') heap₂
  | arrayRest {a index argument pos array heap bound heap'} (ha : heap[a]? = some (.array array))
      (h : Binds (.whole argument (.object heap.length)) (heap ++ [.array (array.drop index)]) bound heap') :
      Binds (.elements a index (.cons (.present (.restPattern argument pos)) .nil)) heap bound heap'

theorem Binds.names {task : Task} {heap heap' : Heap} {bound : Bound} (h : Binds task heap bound heap') :
    bound.map Prod.fst = task.names := by
  induction h with
  | identifier => rfl
  | default _ _ ih => exact ih
  | object _ ih => exact ih
  | array _ ih => exact ih
  | noMember => rfl
  | property _ _ _ _ ihvalue ihmore =>
    rw [map_append, ihvalue, ihmore]
    rfl
  | objectRest _ _ ih =>
    rw [ih]
    exact (append_nil _).symm
  | noElement => rfl
  | hole _ ih => exact ih
  | element _ _ _ ihelement ihmore =>
    rw [map_append, ihelement, ihmore]
    rfl
  | arrayRest _ _ ih =>
    rw [ih]
    exact (append_nil _).symm

end Destructure

end Retarget
