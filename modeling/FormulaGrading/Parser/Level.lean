import FormulaGrading.Decimal.Numeral
import FormulaGrading.Formula
import FormulaGrading.Parser.Reading

/-!
The readings of the parts of a formula.

Groups, signs, calls and operations that bind tighter than the one to their left are
read one nesting level further down. A level is therefore built from the level below
it, and the lowest level has none: what would descend from there is a fault. Within
a level, operations are read by climbing: from an operand on, for as long as the
operations that follow bind tightly enough.
-/

namespace FormulaGrading

/-- A formula with the bytes it takes up, brackets around it included. -/
structure Enclosed where
  inner : Formula
  outer : Span
  deriving DecidableEq, Repr

/-- The readings that a level offers to the level above it. -/
structure Level where
  /-- An operand, which may begin with signs. -/
  operand : Reading Formula
  /-- The operations after a left operand that bind at least as tightly as asked. -/
  climb : Formula → Precedence → Reading Formula
  /-- A group in brackets. -/
  group : Reading Enclosed

/-- A whole formula: an operand and all operations after it. -/
def Level.formula (l : Level) : Reading Formula := do
  let lhs ← l.operand
  l.climb lhs .loosest

namespace Reading

/-- A sign. -/
def signMark : Reading SignMark :=
  expecting [.add, .subtract] fun t => t.kind.sign?.map fun sign => ⟨sign, t.span⟩

/-- A binary operation. -/
def operatorMark : Reading OperatorMark :=
  expecting [.power, .multiply, .divide, .add, .subtract] fun t =>
    t.kind.operation?.map fun operation => ⟨operation, false, t.span⟩

/-- A name, whatever it may mean. -/
def symbol : Reading Symbol := do
  let t ← attempt (token .name)
  pure ⟨t.lexeme, t.span⟩

/-- A number. -/
def number : Reading Formula := do
  let t ← attempt (token .number)
  match Decimal.readUnsigned? t.lexeme.toList with
  | some value => pure (.number value t.span)
  | none => fail ⟨[t.span], .unknownText t.lexeme⟩

end Reading

/-- The deepest nesting that is read. -/
def nestingLimit : Nat :=
  256

/-- The operation that comes next. Where an operand comes next there is a product
without a token, in the gap before the operand. -/
def Cursor.operator? (c : Cursor) : Option OperatorMark :=
  match c.here? with
  | none => none
  | some token =>
      match token.kind.operation? with
      | some operation => some ⟨operation, false, token.span⟩
      | none =>
          if token.kind.opensAtom then
            let start := (c.behind?.map fun t => t.span.stop).getD token.span.start
            some ⟨.multiply, true, ⟨start, token.span.start⟩⟩
          else none

/-- Whether the operation takes the operand before it away from the operation before
that: it binds tighter, or equally where equal operations group to the right. -/
def OperatorMark.takesFrom (op before : OperatorMark) : Bool :=
  before.precedence.looser op.precedence ||
    (op.precedence == before.precedence && op.groupsRight)

/-- The product, sum and so on of two operands. -/
def Formula.combine (lhs : Formula) (op : OperatorMark) (rhs : Formula) : Formula :=
  .binary lhs op rhs (lhs.span.join rhs.span)

/-- One letter with any number of digits after it. -/
def isLetterWithDigits (name : String) : Bool :=
  match name.toList with
  | [] => false
  | c :: cs => c.isAlpha && cs.all Char.isDigit

/-- Whether a name before a group is a factor of its own: a letter, perhaps with digits,
or a declared name. -/
def multipliesGroup (declared : List String) (name : String) : Bool :=
  isLetterWithDigits name || declared.contains name

namespace Level

open Reading

section

variable (declared : List String) (below : Option Level)

/-- Reads one level further down. -/
def descend {α : Type} (f : Level → Reading α) : Reading α :=
  match below with
  | some level => f level
  | none => failHere (.tooDeep nestingLimit)

/-- A group in brackets. -/
def readGroup : Reading Enclosed := do
  let opening ← attempt (token .openBracket)
  let inner ← descend below formula
  let closing ← orFault (attempt (token .closeBracket))
    ⟨[opening.span], .unclosedBracket⟩
  pure ⟨inner, opening.span.join closing.span⟩

/-- A function with its argument in brackets. -/
def readCall : Reading Formula := do
  let function ← symbol
  if !isFunctionName function.name then
    fail ⟨[function.span], .noSuchFunction function.name
      (RealFunction.similarNames function.name)⟩
  else if !(← look fun c => c.currentIs (· == .openBracket)) then
    fail ⟨[function.span], .missingArgument function.name⟩
  else
    let argument ← descend below group
    pure (.call function argument.inner argument.outer
      (function.span.join argument.outer))

/-- A call if the name is that of a function, and else a variable. -/
def readNamed (name : Token) : Reading Formula := do
  if isFunctionName name.lexeme then attempt (readCall below)
  else
    let beforeGroup ← look fun c =>
      match c.ahead? with
      | some t => t.kind == .openBracket
      | none => false
    if beforeGroup && !multipliesGroup declared name.lexeme then
      failHere (.noSuchFunction name.lexeme (RealFunction.similarNames name.lexeme))
    else
      let symbol ← attempt symbol
      pure (.symbol symbol)

/-- A formula that takes up no more than itself. -/
def unenclosed (e : Formula) : Enclosed :=
  ⟨e, e.span⟩

/-- A number, a name, a call or a group. -/
def readAtom : Reading Enclosed := do
  match ← look Cursor.here? with
  | none => failHere .missingFormula
  | some t =>
      match t.kind with
      | .number => unenclosed <$> attempt number
      | .name => unenclosed <$> readNamed declared below t
      | .openBracket => attempt (readGroup below)
      | _ => failHere .missingFormula

/-- A sign with the operand that it applies to, which reaches over powers. -/
def readSigned : Reading Formula := do
  let mark ← attempt signMark
  if !(← look fun c => c.currentIs TokenClass.opensOperand) then
    fail ⟨[mark.span], .straySign⟩
  else
    let operand ← descend below fun level => do
      let lhs ← level.operand
      level.climb lhs mark.sign.precedence
    pure (.signed mark operand (mark.span.join operand.span))

/-- An operand, which may begin with signs. -/
def readOperand : Reading Formula := do
  match ← look Cursor.here? with
  | none => failHere .missingFormula
  | some t =>
      match t.kind with
      | .add | .subtract => readSigned below
      | .multiply => failHere (.missingOperand .multiply)
      | .divide => failHere (.missingOperand .divide)
      | .power => failHere (.missingOperand .power)
      | .closeBracket => failHere .missingFormula
      | .number | .name | .openBracket =>
          Enclosed.inner <$> attempt (readAtom declared below)

/-- The fault of an operation without a right operand. A sign before an operation that
can be no sign is itself out of place. -/
def danglingFault (op : OperatorMark) (following : Option TokenClass) : Fault :=
  let signBeforeOperation :=
    (op.operation == .add || op.operation == .subtract) &&
      (following.map TokenClass.isStrictlyBinary).getD false
  ⟨[op.span], if signBeforeOperation then .straySign else .missingOperand op.operation⟩

/-- The operation that was seen to come next, and the operand after it. -/
def readRightOperand (op : OperatorMark) : Reading Formula := do
  if op.implicit then Enclosed.inner <$> attempt (readAtom declared below)
  else
    let _ ← attempt operatorMark
    let following ← look fun c => c.here?.map Token.kind
    if (following.map TokenClass.opensOperand).getD false then readOperand declared below
    else fail (danglingFault op following)

/-- Extends the right operand of an operation by the operations that take it away from
that operation. Every round passes a token, so there are no more rounds than tokens. -/
def completeRight (op : OperatorMark) : Nat → Formula → Reading Formula
  | 0, rhs => pure rhs
  | rounds + 1, rhs => do
      match ← look Cursor.operator? with
      | none => pure rhs
      | some following =>
          if following.takesFrom op then
            let extended ← descend below fun level =>
              level.climb rhs following.precedence
            completeRight op rounds extended
          else pure rhs

/-- The number of tokens that are left. -/
def remaining : Reading Nat :=
  look fun c => c.after.length

/-- Extends a left operand by the operations after it, as long as they bind tightly
enough. Every round passes a token, so there are no more rounds than tokens. -/
def climbRounds (least : Precedence) : Nat → Formula → Reading Formula
  | 0, lhs => pure lhs
  | rounds + 1, lhs => do
      match ← look Cursor.operator? with
      | none => pure lhs
      | some op =>
          if op.precedence.looser least then pure lhs
          else
            let rhs ← readRightOperand declared below op
            let rhs ← completeRight below op (← remaining) rhs
            climbRounds least rounds (lhs.combine op rhs)

/-- The operations after a left operand that bind at least as tightly as asked. -/
def readClimb (lhs : Formula) (least : Precedence) : Reading Formula := do
  climbRounds declared below least (← remaining) lhs

/-- The level above the given one, or the lowest level. -/
def above : Level where
  operand := readOperand declared below
  climb := readClimb declared below
  group := readGroup below

end

/-- The level below one from which reading can descend the given number of times. -/
def below? (declared : List String) : Nat → Option Level
  | 0 => none
  | descents + 1 => some (above declared (below? declared descents))

/-- The level from which reading can descend the given number of times. -/
def ofDescents (declared : List String) (descents : Nat) : Level :=
  above declared (below? declared descents)

end Level

end FormulaGrading
