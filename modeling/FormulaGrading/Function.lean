import FormulaGrading.Text.EditDistance
import FormulaGrading.Text.Lowercase

/-!
The names with a fixed meaning: functions of one argument, some of them under
several names, and constants.
-/

namespace FormulaGrading

/-- The functions that a formula can call. -/
inductive RealFunction where
  | abs
  | sqrt
  | exp
  | ln
  | log
  | sin
  | cos
  | tan
  | sec
  | csc
  | cot
  | asin
  | acos
  | atan
  | sinh
  | cosh
  | tanh
  | asinh
  | acosh
  | atanh
  deriving DecidableEq, Repr

namespace RealFunction

/-- The main name of a function. -/
def name : RealFunction → String
  | .abs => "abs"
  | .sqrt => "sqrt"
  | .exp => "exp"
  | .ln => "ln"
  | .log => "log"
  | .sin => "sin"
  | .cos => "cos"
  | .tan => "tan"
  | .sec => "sec"
  | .csc => "csc"
  | .cot => "cot"
  | .asin => "asin"
  | .acos => "acos"
  | .atan => "atan"
  | .sinh => "sinh"
  | .cosh => "cosh"
  | .tanh => "tanh"
  | .asinh => "asinh"
  | .acosh => "acosh"
  | .atanh => "atanh"

/-- The functions under every name of theirs. -/
def table : List (String × RealFunction) :=
  [("abs", .abs), ("sqrt", .sqrt), ("exp", .exp), ("ln", .ln), ("log", .log),
    ("sin", .sin), ("cos", .cos), ("tan", .tan), ("sec", .sec), ("csc", .csc),
    ("cosec", .csc), ("cot", .cot), ("asin", .asin), ("acos", .acos), ("atan", .atan),
    ("arcsin", .asin), ("arccos", .acos), ("arctan", .atan), ("sinh", .sinh),
    ("cosh", .cosh), ("tanh", .tanh), ("asinh", .asinh), ("acosh", .acosh),
    ("atanh", .atanh)]

/-- The function with the given name. -/
def ofName? (name : String) : Option RealFunction :=
  table.lookup name

/-- The number of arguments, which is one for every function. -/
def argumentCount (_ : RealFunction) : Nat :=
  1

/-- The names that are read as those of functions, in the order in which they are
suggested. -/
def registry : List String :=
  ["abs", "sqrt", "exp", "ln", "log", "sin", "cos", "tan", "sec", "csc", "cosec", "cot",
    "asin", "acos", "atan", "arcsin", "arccos", "arctan", "sinh", "cosh", "tanh", "asinh",
    "acosh", "atanh"]

/-- The names of functions that are at most one edit away from a name in lowercase. -/
def similarNames (name : String) : List String :=
  let lower := String.ofList (Text.lowercase name.toList)
  registry.filter fun known => Text.similar known lower

end RealFunction

/-- Whether a name is read as that of a function. -/
def isFunctionName (name : String) : Bool :=
  RealFunction.registry.contains name

/-- Every name that is read as that of a function has one. -/
theorem RealFunction.exists_ofName? {name : String} (h : isFunctionName name) :
    ∃ f, ofName? name = some f := by
  have hall : ∀ known ∈ registry, (ofName? known).isSome := by decide
  exact Option.isSome_iff_exists.1 (hall name (List.contains_iff_mem.1 h))

/-- The constants with their values. -/
def constantTable : List (String × Float) :=
  [("pi", Float.ofBits 0x400921FB54442D18), ("e", Float.ofBits 0x4005BF0A8B145769)]

/-- The value of the constant with the given name. -/
def constant? (name : String) : Option Float :=
  constantTable.lookup name

/-- Whether a name belongs to a constant. -/
def isConstantName (name : String) : Bool :=
  (constant? name).isSome

end FormulaGrading
