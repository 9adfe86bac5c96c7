import FormulaGrading.Proofs.Binary64.Values
import FormulaGrading.Proofs.Grading.Spacing
import FormulaGrading.Proofs.Parsing.Joining

/-!
Sums and products of responses. Either order of two responses in brackets is read if the
other one is, has the same value and the same free names, and so has the same verdict.
-/

namespace FormulaGrading

open Token (joined)

/-- Whether the order of the operands makes no difference to a value. -/
inductive Operation.Commutes : Operation → Prop
  | add : Commutes .add
  | multiply : Commutes .multiply

section

variable {op : Operation} (hop : op.Commutes)
include hop

theorem OperatorMark.toOption_apply_comm (implicit implicit' : Bool)
    (place place' span divisor span' divisor' : Span) (x y : Float) :
    (OperatorMark.apply ⟨op, implicit, place⟩ span divisor x y).toOption =
      (OperatorMark.apply ⟨op, implicit', place'⟩ span' divisor' y x).toOption := by
  cases hop with
  | add => simp only [apply, toOption_finiteAt, Decimal.add_comm_float x y]
  | multiply => simp only [apply, toOption_finiteAt, Decimal.mul_comm_float x y]

namespace Formula

variable {l r l' r' : Formula} (hl : l.plain = l'.plain) (hr : r.plain = r'.plain)
include hl hr

/-- Operands that change places may stand anywhere in their texts. -/
theorem toOption_value_combine_comm (place place' : Span) (b : Bindings) :
    ((l.combine ⟨op, false, place⟩ r).value b).toOption =
      ((r'.combine ⟨op, false, place'⟩ l').value b).toOption := by
  simp only [combine, toOption_value_binary, toOption_value_congr hl, toOption_value_congr hr]
  cases (l'.value b).toOption with
  | none => cases (r'.value b).toOption <;> rfl
  | some x =>
      cases (r'.value b).toOption with
      | none => rfl
      | some y => exact OperatorMark.toOption_apply_comm hop ..

omit hop in
theorem freeNames_combine_comm (mark mark' : OperatorMark) :
    (l.combine mark r).freeNames = (r'.combine mark' l').freeNames := by
  refine freeNames_eq_of_isFree fun name => ?_
  rw [combine, combine, isFree_binary, isFree_binary, ← mem_freeNames (e := l),
    ← mem_freeNames (e := r), freeNames_congr hl, freeNames_congr hr, mem_freeNames,
    mem_freeNames, or_comm]

end Formula

end

/-- Either order is read if the other one is. -/
theorem exists_parse_joined_comm {declared : List String} {a b : String} {e ea eb : Formula}
    (op : Operation) (ha : Formula.parse declared a = .ok ea)
    (hb : Formula.parse declared b = .ok eb)
    (h : Formula.parse declared (joined op a b) = .ok e) :
    ∃ (l r l' r' : Formula) (place place' : Span), l.plain = l'.plain ∧ r.plain = r'.plain ∧
      e = l.combine ⟨op, false, place⟩ r ∧
      Formula.parse declared (joined op b a) = .ok (r'.combine ⟨op, false, place'⟩ l') := by
  obtain ⟨ts, hscan, -, hts, -⟩ := exists_within_of_parse ha
  obtain ⟨us, hscan', -, hus, -⟩ := exists_within_of_parse hb
  obtain ⟨hlength, l, r, hl, hr, he⟩ := (parse_joined_iff op hscan hscan' hts hus).1 h
  rw [Nat.add_comm ts.length] at hlength
  exact ⟨_, _, _, _, _, _, by rw [Formula.plain_moved, Formula.plain_moved],
    by rw [Formula.plain_moved, Formula.plain_moved], he,
    (parse_joined_iff op hscan' hscan hus hts).2 ⟨hlength, r, l, hr, hl, rfl⟩⟩

namespace Grading.Policy

variable {p : Policy} {a b : String} {ea eb : Formula}

theorem verdict?_joined_comm {op : Operation} (hop : op.Commutes)
    (hcomparison : p.comparison = .byValue) (ha : Formula.parse p.names a = .ok ea)
    (hb : Formula.parse p.names b = .ok eb) (answers : List Answer) (seed : UInt64) :
    p.verdict? answers seed (joined op a b) = p.verdict? answers seed (joined op b a) := by
  cases hparse : Formula.parse p.names (joined op a b) with
  | ok e =>
      obtain ⟨l, r, l', r', place, place', hl, hr, rfl, hparse'⟩ :=
        exists_parse_joined_comm op ha hb hparse
      simp only [verdict?, hcomparison]
      rw [findByValue?_congr (read?_eq_some_iff.2 hparse') (read?_eq_some_iff.2 hparse)
        (Formula.toOption_value_combine_comm hop hl hr place place')
        (Formula.freeNames_combine_comm hl hr _ _)]
  | error fault =>
      have hunread' : ∃ fault', Formula.parse p.names (joined op b a) = .error fault' := by
        cases hparse' : Formula.parse p.names (joined op b a) with
        | ok e =>
            obtain ⟨_, _, _, _, _, _, -, -, -, hread⟩ :=
              exists_parse_joined_comm op hb ha hparse'
            exact absurd (hread.symm.trans hparse) (by simp)
        | error fault' => exact ⟨fault', rfl⟩
      obtain ⟨fault', hparse'⟩ := hunread'
      rw [verdict?_of_unread hcomparison hparse, verdict?_of_unread hcomparison hparse']

/-- A sum and a product of two responses in brackets have the verdicts of the sum and the
product in the other order, whether these are read or not. -/
theorem verdict_of_commuted (p : Policy) (a b : String) (ea eb : Formula)
    (answers : List Answer) (seed : UInt64) (hcomparison : p.comparison = .byValue)
    (ha : Formula.parse p.names a = .ok ea) (hb : Formula.parse p.names b = .ok eb) :
    p.verdict? answers seed ("(" ++ a ++ ")+(" ++ b ++ ")") =
        p.verdict? answers seed ("(" ++ b ++ ")+(" ++ a ++ ")") ∧
      p.verdict? answers seed ("(" ++ a ++ ")*(" ++ b ++ ")") =
        p.verdict? answers seed ("(" ++ b ++ ")*(" ++ a ++ ")") := by
  have hsum (a b : String) : "(" ++ a ++ ")+(" ++ b ++ ")" = joined .add a b := by
    simp [joined, Operation.symbol, ← String.toList_inj]
  have hproduct (a b : String) : "(" ++ a ++ ")*(" ++ b ++ ")" = joined .multiply a b := by
    simp [joined, Operation.symbol, ← String.toList_inj]
  rw [hsum, hsum, hproduct, hproduct]
  exact ⟨verdict?_joined_comm .add hcomparison ha hb answers seed,
    verdict?_joined_comm .multiply hcomparison ha hb answers seed⟩

/-- Texts that would be read differently without brackets. -/
theorem verdict_of_commuted_difference :
    Policy.verdict? {} [⟨1, "2x + y - 1", 1, ""⟩] 7 "(2x)+(y-1)" =
        Policy.verdict? {} [⟨1, "2x + y - 1", 1, ""⟩] 7 "(y-1)+(2x)" ∧
      Policy.verdict? {} [⟨1, "2x + y - 1", 1, ""⟩] 7 "(2x)*(y-1)" =
        Policy.verdict? {} [⟨1, "2x + y - 1", 1, ""⟩] 7 "(y-1)*(2x)" := by
  have ha : Policy.read? {} "2x" = some (.binary (.number 2 ⟨0, 1⟩) ⟨.multiply, true, ⟨1, 1⟩⟩
      (.symbol ⟨"x", ⟨1, 2⟩⟩) ⟨0, 2⟩) := by decide +kernel
  have hb : Policy.read? {} "y-1" = some (.binary (.symbol ⟨"y", ⟨0, 1⟩⟩)
      ⟨.subtract, false, ⟨1, 2⟩⟩ (.number 1 ⟨2, 3⟩) ⟨0, 3⟩) := by decide +kernel
  exact verdict_of_commuted {} "2x" "y-1" _ _ _ 7 rfl (read?_eq_some_iff.1 ha)
    (read?_eq_some_iff.1 hb)

end Grading.Policy

end FormulaGrading
