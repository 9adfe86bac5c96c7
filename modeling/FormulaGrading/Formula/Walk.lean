import FormulaGrading.Formula

/-!
Walks over the nodes of a formula, operands before their operations and left before
right: once by recursion, and once by a machine with an explicit stack.
-/

namespace FormulaGrading

/-- The nodes of a formula, each after the nodes below it, the root last. -/
def Formula.nodes : Formula → List Formula
  | e@(.number ..) => [e]
  | e@(.symbol _) => [e]
  | e@(.signed _ operand _) => operand.nodes ++ [e]
  | e@(.binary lhs _ rhs _) => lhs.nodes ++ rhs.nodes ++ [e]
  | e@(.call _ argument ..) => argument.nodes ++ [e]

@[simp] theorem Formula.length_nodes (e : Formula) : e.nodes.length = e.size := by
  induction e <;> simp_all [nodes, size, Nat.add_assoc]

/-- The branches of a node. -/
inductive Branch where
  | left
  | right
  deriving DecidableEq, Repr

/-- A node with its address: the branches from the root down to it, the last one first.
Equal subtrees have different addresses. -/
structure Place where
  address : List Branch
  node : Formula

namespace Place

/-- The operand that comes last in the walk. -/
def lastOperand? (p : Place) : Option Place :=
  match p.node with
  | .number .. | .symbol _ => none
  | .signed _ operand _ => some ⟨.right :: p.address, operand⟩
  | .binary _ _ rhs _ => some ⟨.right :: p.address, rhs⟩
  | .call _ argument .. => some ⟨.right :: p.address, argument⟩

/-- The operands, in order. -/
def operands (p : Place) : List Place :=
  match p.node with
  | .binary lhs _ rhs _ => [⟨.left :: p.address, lhs⟩, ⟨.right :: p.address, rhs⟩]
  | _ => p.lastOperand?.toList

end Place

/-- A walk under way: the places still to be yielded, the next one on top, and the address
of the place yielded last. -/
structure Walk where
  pending : List Place
  last? : Option (List Branch)

namespace Walk

/-- The walk about to enter a formula. -/
def enter (e : Formula) : Walk :=
  ⟨[⟨[], e⟩], none⟩

/-- One step: the node on top is yielded if it has no operands or if its last operand was
yielded just before. Otherwise its operands are put on top of it. -/
def step (w : Walk) : Option (Option Formula × Walk) :=
  match w.pending with
  | [] => none
  | top :: rest =>
      match top.lastOperand? with
      | none => some (some top.node, ⟨rest, some top.address⟩)
      | some operand =>
          if w.last? = some operand.address then
            some (some top.node, ⟨rest, some top.address⟩)
          else some (none, ⟨top.operands ++ w.pending, w.last?⟩)

/-- The nodes yielded within a number of steps. -/
def run : Nat → Walk → List Formula
  | 0, _ => []
  | steps + 1, w =>
      match w.step with
      | none => []
      | some (some node, next) => node :: run steps next
      | some (none, next) => run steps next

end Walk

/-- The nodes of a formula as the stack machine yields them. Every node is looked at no
more than twice. -/
def Formula.walk (e : Formula) : List Formula :=
  Walk.run (2 * e.size) (Walk.enter e)

end FormulaGrading
