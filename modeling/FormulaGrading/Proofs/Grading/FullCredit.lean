import FormulaGrading.Proofs.Binary64.Order
import FormulaGrading.Proofs.Grading.Pass
import FormulaGrading.Proofs.Grading.Results

/-!
Full credit. A review asks for an answer that counts as fully correct, and a match is graded
as correct: the second takes more credit than the first. In between lie the credits that are
nearly full.
-/

namespace FormulaGrading.Grading

open Decimal

variable {p : Policy} {answers : List Answer} {credit : Float}

/-- Whether a credit counts as full, but is not graded so. -/
def IsNearlyFull (credit : Float) : Prop :=
  fullCreditFrom ≤ credit ∧ ¬1.0 - Grade.closeness ≤ credit

namespace Grade

theorem ofCredit_eq_correct_iff : ofCredit credit = .correct ↔ 1.0 - closeness ≤ credit := by
  unfold ofCredit
  split
  next hfull => exact iff_of_true rfl hfull
  next hless => exact iff_of_false (by split <;> nofun) hless

/-- What is graded as correct counts as full. -/
theorem fullCreditFrom_le_of_correct (h : ofCredit credit = .correct) :
    fullCreditFrom ≤ credit :=
  le_trans_float (by decide +kernel : fullCreditFrom ≤ 1.0 - closeness)
    (ofCredit_eq_correct_iff.1 h)

theorem fullCreditFrom_le_iff :
    fullCreditFrom ≤ credit ↔ ofCredit credit = .correct ∨ IsNearlyFull credit := by
  constructor
  · intro hcounts
    by_cases hfull : 1.0 - closeness ≤ credit
    · exact .inl (ofCredit_eq_correct_iff.2 hfull)
    · exact .inr ⟨hcounts, hfull⟩
  · rintro (hcorrect | hnearly)
    · exact fullCreditFrom_le_of_correct hcorrect
    · exact hnearly.1

theorem ofCredit_of_isNearlyFull (h : IsNearlyFull credit) : ofCredit credit = .partly := by
  have hmore : closeness < credit :=
    lt_of_lt_of_le_float (by decide +kernel : closeness < fullCreditFrom) h.1
  rw [ofCredit, if_neg h.2, if_pos hmore]

end Grade

theorem fullCreditAnswer?_eq_none_iff :
    fullCreditAnswer? answers = none ↔ ∀ a ∈ answers, ¬fullCreditFrom ≤ a.credit := by
  simp [fullCreditAnswer?]

theorem mem_of_fullCreditAnswer? {a : Answer} (h : fullCreditAnswer? answers = some a) :
    a ∈ answers ∧ fullCreditFrom ≤ a.credit := by
  have hfull := List.find?_some h
  exact ⟨List.mem_of_find?_eq_some h, of_decide_eq_true hfull⟩

theorem Problem.isHarmless_iff {problem : Problem} :
    problem.isHarmless ↔ problem.fault.cause = .noFullCredit := by
  unfold isHarmless
  split <;> simp_all

namespace Policy

theorem fault?_cause_ne_noFullCredit {fault : Fault} (h : p.fault? = some fault) :
    fault.cause ≠ .noFullCredit := by
  grind [fault?]

/-- Only the lack of full credit is harmless. -/
theorem exists_isHarmless_iff {problems : List Problem} (h : p.review? answers = some problems) :
    (∃ problem ∈ problems, problem.isHarmless) ↔
      ∀ a ∈ answers, ¬fullCreditFrom ≤ a.credit := by
  obtain ⟨ofAnswers, hanswers, rfl⟩ := Option.map_eq_some_iff.1 h
  simp only [Problem.isHarmless_iff, ← fullCreditAnswer?_eq_none_iff]
  constructor
  · rintro ⟨problem, hmem, hcause⟩
    obtain (hofPolicy | hofAnswers) | hofCredits := by
      simpa only [List.mem_append] using hmem
    · obtain ⟨fault, hfault, rfl⟩ := List.mem_map.1 hofPolicy
      obtain hpolicy | hinterval := List.mem_append.1 hfault
      · exact absurd hcause (fault?_cause_ne_noFullCredit (Option.mem_toList.1 hpolicy))
      · obtain ⟨v, -, rfl⟩ := List.mem_map.1 hinterval
        exact nomatch hcause
    · have hown := isOfAnswer_of_mem_answerProblems? hanswers problem hofAnswers
      rw [hcause] at hown
      exact nomatch hown
    · split at hofCredits
      next => exact nomatch hofCredits
      next hnone => simpa using hnone
  · intro hnone
    exact ⟨.ofExercise ⟨[], .noFullCredit⟩, by simp [hnone], rfl⟩

/-- A verdict is that of an answer, or there is no credit. -/
theorem eq_noCredit_or_of_verdict? {seed : UInt64} {response : String} {v : Verdict}
    (h : p.verdict? answers seed response = some v) :
    v = .noCredit ∨ ∃ a ∈ answers, v = .ofAnswer a := by
  have hsearch : ∃ found : Option Answer, v = .ofSearch found ∧ ∀ a ∈ found, a ∈ answers := by
    cases hcomparison : p.comparison with
    | byText =>
        simp only [verdict?, hcomparison, Option.some.injEq] at h
        refine ⟨_, h.symm, fun a ha => ?_⟩
        rw [findByText] at ha
        split at ha
        next => exact absurd ha (Option.not_mem_none a)
        next => exact List.mem_of_find?_eq_some ha
    | byValue =>
        obtain hnone | ⟨candidate, -, hverdict⟩ :=
          verdict?_eq_noCredit_or hcomparison seed response
        · obtain rfl := Option.some.inj ((hnone answers).symm.trans h)
          exact ⟨none, rfl, fun a ha => absurd ha (Option.not_mem_none a)⟩
        · obtain ⟨trials, -, rfl⟩ := Option.map_eq_some_iff.1 ((hverdict answers).symm.trans h)
          exact ⟨_, rfl, fun a ha => List.mem_of_find?_eq_some ha⟩
  obtain ⟨_ | a, rfl, hmem⟩ := hsearch
  · exact .inl rfl
  · exact .inr ⟨a, hmem a rfl, rfl⟩

/-- An answer counts as fully correct if its match is graded as correct or its credit is
nearly full; in the second case its match is graded as partly correct. So it is with the
answer that an exercise names as the right one. The review has no warning exactly if there is
such an answer, and under a warning no response is graded as correct. -/
theorem full_or_nearly_full (p : Policy) (answers : List Answer) :
    (∀ a, fullCreditFrom ≤ a.credit ↔
      (Verdict.ofAnswer a).grade = .correct ∨ IsNearlyFull a.credit) ∧
    (∀ a, IsNearlyFull a.credit → (Verdict.ofAnswer a).grade = .partly) ∧
    (∀ a, fullCreditAnswer? answers = some a → a ∈ answers ∧
      ((Verdict.ofAnswer a).grade = .correct ∨ IsNearlyFull a.credit)) ∧
    ∀ problems, p.review? answers = some problems →
      ((∀ problem ∈ problems, ¬problem.isHarmless) ↔ ∃ a ∈ answers,
        (Verdict.ofAnswer a).grade = .correct ∨ IsNearlyFull a.credit) ∧
      ((∃ problem ∈ problems, problem.isHarmless) → ∀ seed response v,
        p.verdict? answers seed response = some v → v.grade ≠ .correct) := by
  have hcounts : ∀ a : Answer, fullCreditFrom ≤ a.credit ↔
      (Verdict.ofAnswer a).grade = .correct ∨ IsNearlyFull a.credit :=
    fun a => Grade.fullCreditFrom_le_iff
  refine ⟨hcounts, fun a => Grade.ofCredit_of_isNearlyFull, fun a ha => ?_,
    fun problems hreview => ⟨?_, ?_⟩⟩
  · obtain ⟨hmem, hfull⟩ := mem_of_fullCreditAnswer? ha
    exact ⟨hmem, (hcounts a).1 hfull⟩
  · have hwarned := exists_isHarmless_iff hreview
    simp only [← hcounts]
    rw [← not_iff_not]
    simpa using hwarned
  · intro hwarned seed response v hverdict hcorrect
    obtain rfl | ⟨a, ha, rfl⟩ := eq_noCredit_or_of_verdict? hverdict
    · exact nomatch hcorrect
    · exact (exists_isHarmless_iff hreview).1 hwarned a ha ((hcounts a).2 (.inl hcorrect))

/-- The answer that an exercise names as the right one, and that the review is content with,
can be graded as partly correct. -/
theorem right_answer_graded_as_partly :
    Answer.make 1 "x" 0.9995 = .ok ⟨1, "x", 0.9995, ""⟩ ∧
      fullCreditAnswer? [⟨1, "x", 0.9995, ""⟩] = some ⟨1, "x", 0.9995, ""⟩ ∧
      Policy.review? { trials := 1 } [⟨1, "x", 0.9995, ""⟩] = some [] ∧
      Policy.verdict? { trials := 1 } [⟨1, "x", 0.9995, ""⟩] 0 "x" =
        some ⟨0.9995, some 1, none, .partly⟩ ∧
      (Verdict.ofAnswer ⟨1, "x", 0.9995, ""⟩).grade ≠ .correct := by
  decide +kernel

/-- An answer with a credit that is nearly full, and the warning for half the credit. -/
theorem full_or_nearly_full_single :
    (Verdict.ofAnswer ⟨1, "x", 0.9995, ""⟩).grade = .partly ∧
    ((Verdict.ofAnswer ⟨1, "x", 0.9995, ""⟩).grade = .correct ∨ IsNearlyFull 0.9995) ∧
    (∃ a ∈ [⟨1, "x", 0.9995, ""⟩], (Verdict.ofAnswer a).grade = .correct ∨
      IsNearlyFull a.credit) ∧
    ∀ seed response v,
      Policy.verdict? { trials := 1 } [⟨1, "x", 0.5, ""⟩] seed response = some v →
        v.grade ≠ .correct := by
  obtain ⟨-, hnearly, hnamed, hreviewed⟩ :=
    full_or_nearly_full { trials := 1 } [⟨1, "x", 0.9995, ""⟩]
  have hcontent : Policy.review? { trials := 1 } [⟨1, "x", 0.9995, ""⟩] = some [] := by
    decide +kernel
  have hwarned : Policy.review? { trials := 1 } [⟨1, "x", 0.5, ""⟩] =
      some [.ofExercise ⟨[], .noFullCredit⟩] := by decide +kernel
  refine ⟨hnearly _ ⟨(by decide +kernel : fullCreditFrom ≤ 0.9995),
    (by decide +kernel : ¬1.0 - Grade.closeness ≤ 0.9995)⟩,
    (hnamed _ (by decide +kernel)).2, (hreviewed _ hcontent).1.1 nofun, ?_⟩
  exact ((full_or_nearly_full _ _).2.2.2 _ hwarned).2 ⟨_, List.mem_singleton_self _, rfl⟩

end Policy

end FormulaGrading.Grading
