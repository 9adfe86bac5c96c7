import FormulaGrading.Grading.Exercise
import FormulaGrading.Proofs.Grading.Reviewed
import FormulaGrading.Proofs.Words

/-!
Responses without words. A response of blanks is not compared when it is put on record, and it
would be worth nothing: no formula is read of it, whatever the kinds of its blanks, and its
canonical text is empty, which no answer is searched by, not even a blank one.
-/

namespace FormulaGrading.Grading

open Text

variable {response : String} {p : Policy} {answers : List Answer} {seed : UInt64}

theorem holdsWords_eq_false_iff_blanks :
    holdsWords response = false ↔ Blanks response.toList :=
  holdsWords_eq_false_iff.trans trimmed_eq_nil_iff

theorem singleSpaced_eq_empty_iff : singleSpaced response = "" ↔ Blanks response.toList := by
  constructor
  · intro h
    have hwords := wordLists_singleSpaced response
    rw [h] at hwords
    exact wordLists_eq_nil_iff.1 hwords.symm
  · intro h
    rw [← String.toList_inj, toList_singleSpaced, wordLists_eq_nil_iff.2 h]
    rfl

theorem canonical_of_blanks (keepsCase : Bool) (h : Blanks response.toList) :
    canonical keepsCase response = "" := by
  have hnone : compact response.toList = [] := by
    rw [← flatten_wordLists, wordLists_eq_nil_iff.2 h]
    rfl
  rw [canonical, hnone]
  cases keepsCase <;> rfl

namespace Policy

/-- By value, a response of blanks earns nothing, since there is nothing to read. -/
theorem verdict?_of_blanks_byValue (hcomparison : p.comparison = .byValue)
    (h : Blanks response.toList) : p.verdict? answers seed response = some .noCredit := by
  cases hread : Formula.parse p.names response with
  | error fault => exact verdict?_of_unread hcomparison hread
  | ok e =>
      obtain ⟨c, hc, hnotBlank⟩ := exists_notBlank_of_parse hread
      exact absurd (h c hc) (by simp [hnotBlank])

/-- By text, it is not searched for. -/
theorem verdict?_of_blanks_byText (hcomparison : p.comparison = .byText)
    (h : Blanks response.toList) : p.verdict? answers seed response = some .noCredit := by
  rw [verdict?, hcomparison]
  simp only [findByText, canonical_of_blanks _ h]
  rfl

theorem verdict?_of_blanks (h : Blanks response.toList) :
    p.verdict? answers seed response = some .noCredit := by
  cases hcomparison : p.comparison with
  | byValue => exact verdict?_of_blanks_byValue hcomparison h
  | byText => exact verdict?_of_blanks_byText hcomparison h

end Policy

/-- A response of blanks holds no words, none are put on record of it, and it is worth nothing
in any exercise, even if there are answers that are blank themselves. Responses without words
to put on record are those that hold none. -/
theorem no_credit_for_blanks (x : Exercise) (response : String) :
    ((∀ c ∈ response.toList, isBlank c) →
      holdsWords response = false ∧ singleSpaced response = "" ∧
        x.entry? response = some .blank ∧ x.verdict? response = some .noCredit) ∧
    (singleSpaced response = "" ↔ holdsWords response = false) := by
  refine ⟨fun h => ?_, singleSpaced_eq_empty_iff.trans holdsWords_eq_false_iff_blanks.symm⟩
  have hnone : holdsWords response = false := holdsWords_eq_false_iff_blanks.2 h
  refine ⟨hnone, singleSpaced_eq_empty_iff.2 h, ?_, Policy.verdict?_of_blanks h⟩
  rw [Exercise.entry?, hnone]
  rfl

/-- Blanks of three kinds, one of which scanning passes over, and an answer that is as blank. -/
theorem no_credit_for_blank_answer :
    Exercise.verdict? ⟨[⟨1, "\t\u2003\u00a0", 1.0, ""⟩], { comparison := .byText }, 0⟩
      "\t\u2003\u00a0" = some .noCredit := by
  have hall : "\t\u2003\u00a0".toList.all isBlank := by decide
  exact ((no_credit_for_blanks _ "\t\u2003\u00a0").1 (List.all_eq_true.1 hall)).2.2.2

end FormulaGrading.Grading
