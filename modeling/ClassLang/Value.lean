import ClassLang.Double
import ClassLang.Expr

/-!
# Values

What variables, fields and expressions hold when a program runs. Objects are
held by reference: two variables may hold the same object, and a change through
one is seen through the other. A reference names the class of its object beside
the place of the object, so that the type and the text of a value can be told
without looking at the heap.

A class is a value too, by its name. It is what the name of a class evaluates
to, until a declaration or an assignment makes an object of it.
-/

namespace ClassLang

/-- A reference to an object. -/
structure Ref where
  /-- the class of the object -/
  className : String
  /-- its place in the heap -/
  location : Nat
deriving DecidableEq

/-- The written form of a reference in a listing. -/
def Ref.listing (ref : Ref) : String := "Instance(" ++ ref.className ++ ")"

/-- A value of a running program. -/
inductive Value where
  /-- a whole number -/
  | integer (value : Integer)
  /-- a number with a fraction -/
  | double (value : Float)
  /-- a string -/
  | string (value : String)
  /-- a truth value -/
  | boolean (value : Bool)
  /-- no value -/
  | void
  /-- a class -/
  | cls (name : String)
  /-- an object -/
  | object (ref : Ref)

namespace Value

/-- The type of a value. A class and its objects have the same type. -/
def type : Value → Ty
  | integer _ => .integer
  | double _ => .double
  | string _ => .string
  | boolean _ => .boolean
  | void => .void
  | cls name => .cls name
  | object ref => .cls ref.className

/-- What a variable declared without more starts out as. For a class there is
no such value: an object is made instead. -/
def zero? : Ty → Option Value
  | .integer => some (integer .zero)
  | .double => some (double 0.0)
  | .string => some (string "")
  | .boolean => some (boolean false)
  | .void => some void
  | .cls _ => none

/-- Does a value count as true? Nought, the empty string and no value do
not. -/
def isTruthy : Value → Bool
  | integer n => n.val != 0
  | double x => x != 0.0
  | string s => !s.isEmpty
  | boolean b => b
  | void => false
  | cls _ => true
  | object _ => true

/-- Equality as the language has it: objects are equal if they are one and the
same, numbers with a fraction as numbers. -/
def equals : Value → Value → Bool
  | integer a, integer b => a == b
  | double a, double b => a == b
  | string a, string b => a == b
  | boolean a, boolean b => a == b
  | void, void => true
  | cls a, cls b => a == b
  | object a, object b => a.location == b.location
  | _, _ => false

/-- The written form of a value. -/
def text : Value → String
  | integer n => n.text
  | double x => Double.text x
  | string s => s
  | boolean b => if b then "true" else "false"
  | void => "void"
  | cls name => "<class " ++ name ++ ">"
  | object ref => ref.className ++ " instance"

/-- A value without initialisation has the type it was declared with. -/
theorem type_of_zero? {ty : Ty} {v : Value} (h : zero? ty = some v) : v.type = ty := by
  cases ty <;> simp [zero?] at h <;> subst h <;> rfl

end Value

end ClassLang
