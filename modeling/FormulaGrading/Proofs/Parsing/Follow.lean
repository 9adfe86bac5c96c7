import FormulaGrading.Proofs.Grammar

/-!
What may follow a phrase: the operation that comes next, whether a phrase of a layer can
be its left operand, and whether it is too loose for a layer.
-/

namespace FormulaGrading

/-- The operation that comes next, which is a product where an atom comes next. -/
def nextOperation? (tokens : List Token) : Option Operation :=
  match tokens with
  | [] => none
  | t :: _ =>
      match t.kind.operation? with
      | some op => some op
      | none => if t.kind.opensAtom then some .multiply else none

/-- Whether a phrase of a layer can be the left operand of the operation that comes next,
if there is one. -/
def Fits (p : Precedence) (tokens : List Token) : Prop :=
  ∀ op, nextOperation? tokens = some op → op.leftOperand.rank ≤ p.rank

/-- Whether the operation that comes next, if there is one, is looser than a layer. -/
def Stops (p : Precedence) (tokens : List Token) : Prop :=
  ∀ op, nextOperation? tokens = some op → op.precedence.rank < p.rank

theorem nextOperation?_of_opensAtom {t : Token} {rest : List Token} (h : t.kind.opensAtom) :
    nextOperation? (t :: rest) = some .multiply := by
  cases hkind : t.kind <;> simp_all [nextOperation?, TokenClass.opensAtom, TokenClass.operation?]

theorem nextOperation?_of_closeBracket {t : Token} {rest : List Token}
    (h : t.kind = .closeBracket) : nextOperation? (t :: rest) = none := by
  simp [nextOperation?, h, TokenClass.operation?, TokenClass.opensAtom]

theorem operation_of_operator? (c : Cursor) :
    c.operator?.map OperatorMark.operation = nextOperation? c.after := by
  obtain ⟨before, after⟩ := c
  cases after with
  | nil => rfl
  | cons t rest =>
      simp only [Cursor.operator?, Cursor.here?, List.head?_cons, nextOperation?]
      cases t.kind.operation? with
      | some op => rfl
      | none =>
          simp only
          split <;> rfl

theorem nextOperation?_of_operator? {c : Cursor} {op : OperatorMark}
    (h : c.operator? = some op) : nextOperation? c.after = some op.operation := by
  rw [← operation_of_operator?, h, Option.map_some]

theorem nextOperation?_of_operator?_eq_none {c : Cursor} (h : c.operator? = none) :
    nextOperation? c.after = none := by
  rw [← operation_of_operator?, h, Option.map_none]

/-- An operation is taken for one with a token where its token stands, and for a product
in the gap where an atom stands. -/
theorem eq_cons_of_operator? {c : Cursor} {op : OperatorMark} (h : c.operator? = some op) :
    ∃ t rest, c.after = t :: rest ∧
      (t.kind.operation? = some op.operation ∧ op = ⟨op.operation, false, t.span⟩ ∨
        t.kind.opensAtom ∧ op = ⟨.multiply, true, op.span⟩ ∧
          ∀ last, c.behind? = some last → op.span = last.span.gap t.span) := by
  obtain ⟨before, after⟩ := c
  cases after with
  | nil => simp [Cursor.operator?, Cursor.here?] at h
  | cons t rest =>
      refine ⟨t, rest, rfl, ?_⟩
      simp only [Cursor.operator?, Cursor.here?, List.head?_cons] at h
      cases hop : t.kind.operation? with
      | some operation =>
          simp only [hop, Option.some.injEq] at h
          exact .inl ⟨by simp [← h], by simp [← h]⟩
      | none =>
          simp only [hop] at h
          split at h
          next hatom =>
            obtain rfl := Option.some.inj h
            refine .inr ⟨hatom, rfl, fun last hlast => ?_⟩
            rw [hlast]
            rfl
          next => simp at h

/-- A later operation takes the right operand of an operation for its own exactly if it
binds as tightly as right operands do. -/
theorem takesFrom_iff {following op : OperatorMark} :
    following.takesFrom op ↔
      op.operation.rightOperand.rank ≤ following.operation.precedence.rank := by
  simp only [OperatorMark.takesFrom, OperatorMark.precedence, OperatorMark.groupsRight]
  cases following.operation <;> cases op.operation <;> decide

/-- A product without a token is a product. -/
theorem eq_multiply_of_implicit {c : Cursor} {op : OperatorMark} (h : c.operator? = some op)
    (himplicit : op.implicit) : op.operation = .multiply := by
  obtain ⟨before, after⟩ := c
  cases after with
  | nil => simp [Cursor.operator?, Cursor.here?] at h
  | cons t rest =>
      simp only [Cursor.operator?, Cursor.here?, List.head?_cons] at h
      split at h
      next => simp [← Option.some.inj h] at himplicit
      next =>
        split at h
        next => rw [← Option.some.inj h]
        next => simp at h

/-- The place behind an operation that comes next. A product without a token ends where
it begins. -/
def Cursor.behindOperator (c : Cursor) (op : OperatorMark) : Cursor :=
  if op.implicit then c else ⟨c.after.take 1 ++ c.before, c.after.tail⟩

theorem Cursor.length_behindOperator_le (c : Cursor) (op : OperatorMark) :
    (c.behindOperator op).after.length ≤ c.after.length := by
  unfold behindOperator
  split
  · exact Nat.le_refl _
  · simp

theorem Cursor.tokens_behindOperator (c : Cursor) (op : OperatorMark) :
    (c.behindOperator op).tokens = c.tokens := by
  unfold behindOperator
  split
  · rfl
  · obtain ⟨before, after⟩ := c
    cases after <;> simp [tokens]

/-- The layer of right operands of an operation. A product without a token has powers on
its right. -/
def rightLayer (op : OperatorMark) : Precedence :=
  if op.implicit then .power else op.operation.rightOperand

/-- What is taken from an operation is at least as tight as its right operands. -/
theorem rightLayer_le_of_takesFrom {following op : OperatorMark}
    (hop : op.implicit → op.operation = .multiply) (h : following.takesFrom op) :
    (rightLayer op).rank ≤ following.precedence.rank := by
  rw [takesFrom_iff] at h
  unfold rightLayer OperatorMark.precedence
  split
  next himplicit =>
    rw [hop himplicit] at h
    revert h
    cases following.operation <;> decide
  next => exact h

theorem looser_iff {p q : Precedence} : p.looser q ↔ p.rank < q.rank := by
  simp [Precedence.looser]

theorem looser_eq_false_iff {p q : Precedence} : p.looser q = false ↔ q.rank ≤ p.rank := by
  simp [Precedence.looser]

/-- An operation that comes next is too loose for a layer exactly if it is looser. -/
theorem stops_iff_looser {c : Cursor} {p : Precedence} :
    Stops p c.after ↔ ∀ op, c.operator? = some op → op.precedence.looser p := by
  simp only [Stops, ← operation_of_operator?, Option.map_eq_some_iff, looser_iff]
  exact ⟨fun h op hop => h _ ⟨op, hop, rfl⟩, fun h _ ⟨op, hop, heq⟩ => heq ▸ h op hop⟩

theorem Operation.precedence_le_leftOperand (op : Operation) :
    op.precedence.rank ≤ op.leftOperand.rank := by
  cases op <;> decide

section

variable {p q : Precedence} {tokens : List Token}

theorem stops_of_none (h : nextOperation? tokens = none) : Stops p tokens := by
  simp [Stops, h]

theorem Fits.mono (h : Fits p tokens) (hle : p.rank ≤ q.rank) : Fits q tokens :=
  fun op hop => Nat.le_trans (h op hop) hle

theorem Stops.mono (h : Stops p tokens) (hle : p.rank ≤ q.rank) : Stops q tokens :=
  fun op hop => Nat.lt_of_lt_of_le (h op hop) hle

/-- What is too loose for a layer may have a phrase of it on the left. -/
theorem Stops.fits (h : Stops p tokens) : Fits p tokens := by
  intro op hop
  have hlt := h op hop
  cases op <;> cases p <;>
    simp_all [Operation.precedence, Operation.leftOperand, Precedence.rank]

/-- An operation fits behind another one exactly if it leaves the right operand of that
one alone. -/
theorem fits_precedence_iff {op : Operation} :
    Fits op.precedence tokens ↔ Stops op.rightOperand tokens := by
  refine forall_congr' fun next => imp_congr_right fun _ => ?_
  cases op <;> cases next <;> decide

/-- No operation of the layer of signs reaches behind a sign. -/
theorem Fits.stops_sign (h : Fits .sign tokens) : Stops .sign tokens := by
  intro op hop
  have hle := h op hop
  revert hle
  cases op <;> decide

/-- Nothing may follow a phrase of the loosest layer but the end or a closing bracket. -/
theorem Fits.nextOperation?_eq_none (h : Fits .loosest tokens) :
    nextOperation? tokens = none := by
  cases hnext : nextOperation? tokens with
  | none => rfl
  | some op =>
      have := h op hnext
      cases op <;> simp [Operation.leftOperand, Precedence.rank] at this

end

end FormulaGrading
