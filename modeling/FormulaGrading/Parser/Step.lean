import FormulaGrading.Parser

/-!
The single steps that a parser can be asked to take.
-/

namespace FormulaGrading

namespace Parser

/-- The parts of a formula that can be read on their own. -/
inductive Part where
  | formula
  | call
  | number
  | symbol
  | atom
  | group
  | sign
  | operator
  deriving DecidableEq, Repr

/-- What is read as a part of a formula. -/
inductive Piece where
  | formula (e : Formula)
  | enclosed (e : Enclosed)
  | sign (mark : SignMark)
  | operator (mark : OperatorMark)
  deriving DecidableEq

/-- How a part is read: going back on a fault, staying where the fault was met, or to the
end of the text. -/
inductive Manner where
  | attempt
  | direct
  | whole
  deriving DecidableEq, Repr

/-- The reading of a part at a level. -/
def Part.reading (part : Part) (declared : List String) (below : Option Level)
    (level : Level) : Reading Piece :=
  match part with
  | .formula => .formula <$> level.formula
  | .call => .formula <$> Level.readCall below
  | .number => .formula <$> Reading.number
  | .symbol => do return .formula (.symbol (← Reading.symbol))
  | .atom => .enclosed <$> Level.readAtom declared below
  | .group => .enclosed <$> level.group
  | .sign => .sign <$> Reading.signMark
  | .operator => .operator <$> Reading.operatorMark

/-- The level below that at which the parser reads, if there is one. -/
def below? (p : Parser) : Option Level :=
  Level.below? p.declared (nestingLimit - p.depth)

/-- Reads a part of a formula. -/
def readPart (p : Parser) (part : Part) (manner : Manner) :
    Except Fault Piece × Parser :=
  let reading := part.reading p.declared p.below?
  match manner with
  | .attempt => p.read fun level => (reading level).attempt
  | .direct => p.read reading
  | .whole => p.readWhole reading

/-- The steps. -/
inductive Step where
  | next
  | part (part : Part) (manner : Manner)
  | operand
  | signed
  | climb (lhs : Formula) (least : Precedence)
  | declare (names : List String)
  | deeper (times : Nat) (step : Step)

/-- What a step yields. -/
inductive Reply where
  | nothing
  | token (token : Token)
  | piece (piece : Piece)
  deriving DecidableEq

/-- Changes what a result holds. -/
def mapReply {α : Type} (f : α → Reply) (result : Except Fault α × Parser) :
    Except Fault Reply × Parser :=
  (result.1.map f, result.2)

/-- Takes a step. -/
def take : Step → Parser → Except Fault Reply × Parser
  | .next, p => mapReply .token (p.read fun _ => Reading.next)
  | .part part manner, p => mapReply .piece (p.readPart part manner)
  | .operand, p => mapReply (.piece ∘ .formula) (p.read Level.operand)
  | .signed, p =>
      mapReply (.piece ∘ .formula) (p.read fun _ => Level.readSigned p.below?)
  | .climb lhs least, p =>
      mapReply (.piece ∘ .formula) (p.read fun level => level.climb lhs least)
  | .declare names, p => (.ok .nothing, p.declare names)
  | .deeper times step, p => deeperTimes (take step) times p

end Parser

end FormulaGrading
