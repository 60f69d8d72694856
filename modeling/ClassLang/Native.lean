import ClassLang.Heap
import ClassLang.Program

/-!
# Natives

Functions that a program finds under a name without defining them. All that a
native can do is add to the output: it is a name and the text that a call with
given arguments writes. It can look into its arguments: a class is given with
its definition, and an object with its class and with what its fields hold
(`Arguments`).
-/

namespace ClassLang

/-- What a native is given. -/
@[ext]
structure Arguments where
  /-- the values -/
  values : List Value
  /-- the definitions of the classes, which classes and objects lead to -/
  classes : Table ClassDef := ∅
  /-- the objects -/
  heap : Heap := {}

namespace Arguments

variable {α : Type}

/-- Values are all there is to see where no class and no object is among them. -/
instance : Coe (List Value) Arguments := ⟨fun values => { values }⟩

/-- What can be said of each value by itself. -/
def map (a : Arguments) (f : Value → α) : List α := a.values.map f

end Arguments

/-- A function that is not written in the language. -/
structure Native where
  /-- the name it is called by, dots included -/
  name : String
  /-- what a call adds to the output -/
  write : Arguments → String

namespace Native

/-- Writes its arguments one after the other and ends the row. -/
def print : Native where
  name := "System.out.print"
  write arguments := String.join (arguments.map Value.text) ++ "\n"

/-- The written form of a native, which does not tell natives apart. -/
def text (_ : Native) : String := "<native fn>"

/-- The written form of a native in a listing. -/
def listing (n : Native) : String := "<native fn " ++ n.name ++ ">"

example : print.write [Value.string "x = ", Value.boolean true] = "x = true\n" := by decide

end Native

end ClassLang
