/-!
Signs and binary operations, and how tightly they bind.
-/

namespace FormulaGrading

/-- A sign in front of an operand. -/
inductive Sign where
  | plus
  | minus
  deriving DecidableEq, Repr

/-- The operations on two operands. -/
inductive Operation where
  | add
  | subtract
  | multiply
  | divide
  | power
  deriving DecidableEq, Repr

/-- How tightly the outermost operation of a formula binds, loosest first. Atoms have no
such operation. -/
inductive Precedence where
  | loosest
  | sum
  | product
  | sign
  | power
  | atom
  deriving DecidableEq, Repr

/-- The place in the order of precedence. -/
def Precedence.rank : Precedence → Nat
  | .loosest => 0
  | .sum => 1
  | .product => 2
  | .sign => 3
  | .power => 4
  | .atom => 5

/-- Whether the first binds more loosely than the second. -/
def Precedence.looser (p q : Precedence) : Bool :=
  p.rank < q.rank

theorem Precedence.rank_inj {p q : Precedence} : p.rank = q.rank ↔ p = q := by
  cases p <;> cases q <;> decide

namespace Sign

def symbol : Sign → String
  | .plus => "+"
  | .minus => "-"

/-- Signs bind tighter than products and looser than powers. -/
def precedence (_ : Sign) : Precedence :=
  .sign

end Sign

namespace Operation

def symbol : Operation → String
  | .add => "+"
  | .subtract => "-"
  | .multiply => "*"
  | .divide => "/"
  | .power => "^"

def precedence : Operation → Precedence
  | .add | .subtract => .sum
  | .multiply | .divide => .product
  | .power => .power

/-- Whether equal operations in a row group to the right. All but powers group to the
left. -/
def groupsRight : Operation → Bool
  | .power => true
  | _ => false

end Operation

end FormulaGrading
