import FormulaGrading.Proofs.Evaluation
import FormulaGrading.Proofs.Grading.FullCredit
import FormulaGrading.Proofs.Grading.OwnFormula
import FormulaGrading.Proofs.Grading.Undeclared
import FormulaGrading.Proofs.Sampling.Bounds

/-!
Answers that a review has nothing against. A review tries every answer on the trials of a
certain seed, and a response is compared on these trials if it is graded with that seed. So
the formula of an answer, given as the response, earns what the answer is worth, or what an
earlier one is that it agrees with as well.
-/

namespace FormulaGrading

/-! ### Blank texts -/

/-- A text that can be read is more than blanks. -/
theorem exists_notBlank_of_parse {declared : List String} {text : String} {e : Formula}
    (h : Formula.parse declared text = .ok e) : ∃ c ∈ text.toList, Text.isBlank c = false := by
  obtain ⟨tokens, hscan, -, -, hwithin⟩ := exists_within_of_parse h
  obtain ⟨stop, hscans⟩ := Token.scans_of_scan hscan
  exact hscans.exists_notBlank (List.ne_nil_of_length_pos hwithin.derives.length_lt)

theorem Text.lowercaseChar_ne_nil (c : Char) : Text.lowercaseChar c ≠ [] := by
  unfold Text.lowercaseChar
  simp only
  split
  · simp
  · split
    · simp
    · split <;> simp

namespace Grading

/-- So is its canonical text. -/
theorem canonical_ne_empty {text : String} (keepsCase : Bool)
    (h : ∃ c ∈ text.toList, Text.isBlank c = false) : (canonical keepsCase text).isEmpty = false := by
  obtain ⟨c, hc, hblank⟩ := h
  have hletter : c ∈ Text.compact text.toList := by
    simp [Text.compact, hc, hblank]
  rw [Bool.eq_false_iff, Ne, String.isEmpty_iff, canonical, ← String.toList_inj]
  simp only [String.toList_ofList, String.toList_empty]
  split
  · exact List.ne_nil_of_mem hletter
  · obtain ⟨d, ds, hlower⟩ := List.exists_cons_of_ne_nil (Text.lowercaseChar_ne_nil c)
    have hd : d ∈ Text.lowercase (Text.compact text.toList) :=
      List.mem_flatMap.2 ⟨c, hletter, hlower ▸ List.mem_cons_self⟩
    exact List.ne_nil_of_mem hd

open Sampling

variable {p : Policy} {answers : List Answer} {a : Answer} {i : Nat}

/-- A search comes no later than to where it would succeed. -/
theorem exists_find?_of_getElem? {α : Type} (accepts : α → Bool) {xs : List α} {x : α} {i : Nat}
    (hx : xs[i]? = some x) (haccepts : accepts x) :
    ∃ j ≤ i, ∃ y, xs[j]? = some y ∧ xs.find? accepts = some y := by
  obtain ⟨hi, rfl⟩ := List.getElem?_eq_some_iff.1 hx
  cases hfind : xs.find? accepts with
  | none => exact absurd haccepts (List.find?_eq_none.1 hfind _ (List.getElem_mem hi))
  | some y =>
      obtain ⟨-, j, hj, rfl, hbefore⟩ := List.find?_eq_some_iff_getElem.1 hfind
      refine ⟨j, ?_, _, List.getElem?_eq_getElem hj, rfl⟩
      by_contra hlater
      simpa [haccepts] using hbefore i (not_le.1 hlater)

namespace Policy

/-- Whether a review has nothing against an exercise, but perhaps that no answer is fully
correct. -/
structure Accepts (p : Policy) (answers : List Answer) : Prop where
  noFault : p.fault? = none
  valid : ∀ v ∈ p.declared, v.interval.isValid
  answers : ∀ a ∈ answers, p.answerFault? true a = some none

theorem answerProblems?_eq_nil_iff {tried : Bool} :
    p.answerProblems? tried answers = some [] ↔
      ∀ a ∈ answers, p.answerFault? tried a = some none := by
  induction answers with
  | nil => simp [answerProblems?]
  | cons a rest ih =>
      rw [answerProblems?, List.forall_mem_cons, ← ih]
      cases hanswer : p.answerFault? tried a with
      | none => simp
      | some fault? => cases fault? <;> simp

theorem accepts_of_review? {problems : List Problem} (h : p.review? answers = some problems)
    (hharmless : ∀ problem ∈ problems, problem.isHarmless) : p.Accepts answers := by
  obtain ⟨ofAnswers, hanswers, rfl⟩ := Option.map_eq_some_iff.1 h
  simp only [Problem.isHarmless_iff, List.forall_mem_append, List.forall_mem_map,
    Problem.ofExercise] at hharmless
  obtain ⟨⟨⟨hpolicy, hintervals⟩, hofAnswers⟩, -⟩ := hharmless
  have hnoFault : p.fault? = none := by
    rw [Option.eq_none_iff_forall_ne_some]
    intro fault hfault
    exact fault?_cause_ne_noFullCredit hfault (hpolicy fault (by simp [hfault]))
  refine ⟨hnoFault, fun v hv => ?_, ?_⟩
  · by_contra hinvalid
    have hlisted : ⟨[], .badInterval v.name v.interval.lower v.interval.upper⟩ ∈
        p.intervalFaults :=
      List.mem_map.2 ⟨v, List.mem_filter.2 ⟨hv, by simpa using hinvalid⟩, rfl⟩
    exact absurd (hintervals _ hlisted) (by simp)
  · rw [hnoFault] at hanswers
    rw [← answerProblems?_eq_nil_iff]
    have hnone : ofAnswers = [] := by
      refine List.eq_nil_iff_forall_not_mem.2 fun problem hmem => ?_
      have hown := isOfAnswer_of_mem_answerProblems? hanswers problem hmem
      rw [hofAnswers problem hmem] at hown
      exact absurd hown (by decide)
    rwa [hnone] at hanswers

/-- What it means to have nothing against an answer. -/
theorem exists_trials_of_answerFault? (h : p.answerFault? true a = some none) :
    ∃ e trials, Formula.parse p.names a.formula = .ok e ∧
      (p.declared ≠ [] → ∀ name, e.IsFree name → name ∈ p.names) ∧
      trials? (p.sampled [e]) p.trials reviewSeed = some trials ∧
      ∀ b ∈ trials, ∃ v, e.value b = .ok v := by
  unfold answerFault? at h
  split at h
  next => exact nomatch h
  split at h
  next => exact nomatch h
  next e hparse =>
    simp only at h
    split at h
    next => exact nomatch h
    next hundeclared =>
      simp only [if_true] at h
      obtain ⟨trials, htrials, hfaultless⟩ := Option.map_eq_some_iff.1 h
      refine ⟨e, trials, hparse, fun hdeclared => ?_, htrials, fun b hb => ?_⟩
      · rw [if_neg (by simpa using hdeclared)] at hundeclared
        exact undeclaredFault?_eq_none_iff.1 hundeclared
      · have hvalue := List.findSome?_eq_none_iff.1 hfaultless b hb
        split at hvalue
        next v hv => exact ⟨v, hv⟩
        next => exact nomatch hvalue

/-- The formula of an accepted answer is read, and has finite values on the trials of a
review. -/
theorem Accepts.pass (h : p.Accepts answers) (hcomparison : p.comparison = .byValue)
    (hdeclared : p.declared ≠ []) (ha : a ∈ answers) :
    ∃ e trials, Pass p answers reviewSeed a.formula e trials ∧
      ∀ b ∈ trials, ∃ v, e.value b = .ok v ∧ v.isFinite := by
  obtain ⟨e, trials, hread, -, hdrawn, hvalues⟩ := exists_trials_of_answerFault? (h.answers a ha)
  rw [sampled_of_declared hdeclared] at hdrawn
  refine ⟨e, trials, ⟨hcomparison, h.noFault, hread, ?_⟩, fun b hb => ?_⟩
  · rw [sampled_of_declared hdeclared, hdrawn]
  · obtain ⟨v, hv⟩ := hvalues b hb
    exact ⟨v, hv, Formula.isFinite_value hv fun s w _ hw =>
      isFinite_of_trials? h.valid hdrawn hb hw⟩

theorem Accepts.verdict?_of_byText (h : p.Accepts answers) (hcomparison : p.comparison = .byText)
    (hanswer : answers[i]? = some a) :
    ∃ j ≤ i, ∃ b, answers[j]? = some b ∧
      p.verdict? answers reviewSeed a.formula = some (.ofAnswer b) := by
  obtain ⟨e, -, hread, -⟩ :=
    exists_trials_of_answerFault? (h.answers a (List.mem_of_getElem? hanswer))
  obtain ⟨j, hj, b, hb, hfind⟩ := exists_find?_of_getElem?
    (fun b => canonical p.keepsCase b.formula == canonical p.keepsCase a.formula) hanswer (by simp)
  refine ⟨j, hj, b, hb, ?_⟩
  have hsome := canonical_ne_empty p.keepsCase (exists_notBlank_of_parse hread)
  simp only [verdict?, hcomparison, findByText, hsome, hfind, Bool.false_eq_true, if_false,
    Verdict.ofSearch_some]

theorem Accepts.verdict?_of_byValue (h : p.Accepts answers)
    (hcomparison : p.comparison = .byValue) (hdeclared : p.declared ≠ [])
    (hanswer : answers[i]? = some a) :
    ∃ j ≤ i, ∃ b, answers[j]? = some b ∧
      p.verdict? answers reviewSeed a.formula = some (.ofAnswer b) := by
  obtain ⟨e, trials, hpass, hvalues⟩ :=
    h.pass hcomparison hdeclared (List.mem_of_getElem? hanswer)
  obtain ⟨j, hj, hearns⟩ := hpass.exists_earnsAt ⟨a, e, hanswer, hpass.read, fun b hb => by
    obtain ⟨v, hv, hfinite⟩ := hvalues b hb
    exact closeOn_self h.noFault hv hfinite⟩
  exact ⟨j, hj, hearns.verdict⟩

/-- Whatever the seed, all names of an accepted answer are bound. -/
theorem Accepts.not_meetsUnboundName (h : p.Accepts answers) (hdeclared : p.declared ≠ [])
    (ha : a ∈ answers) (seed : UInt64) :
    ∃ e trials, Formula.parse p.names a.formula = .ok e ∧
      trials? p.declared p.trials seed = some trials ∧
      ∀ b ∈ trials, ¬e.MeetsUnboundName b := by
  obtain ⟨e, _, hread, hnames, hdrawn, -⟩ := exists_trials_of_answerFault? (h.answers a ha)
  rw [sampled_of_declared hdeclared] at hdrawn
  obtain ⟨trials, htrials⟩ := Option.isSome_iff_exists.1
    (isSome_trials?_iff.2 (isSome_trials?_iff.1 (Option.isSome_of_eq_some hdrawn)) :
      (trials? p.declared p.trials seed).isSome)
  refine ⟨e, trials, hread, htrials, fun b hb => Formula.not_meetsUnboundName fun name hfree => ?_⟩
  rw [isSome_get?_of_trials? htrials hb]
  exact hnames hdeclared name hfree

/-- If a review has nothing against an exercise, but perhaps that no answer is fully correct,
then the formula of an answer, given as the response under the seed of the review, has the
verdict of that answer or of an earlier one. This is so for texts and for declared variables.
For the latter no answer meets a name without a value, whatever the seed. -/
theorem verdict_of_reviewed (p : Policy) (answers : List Answer) {problems : List Problem}
    (hreview : p.review? answers = some problems)
    (hharmless : ∀ problem ∈ problems, problem.isHarmless) :
    (p.comparison = .byText ∨ p.declared ≠ [] → ∀ (i : Nat) (a : Answer), answers[i]? = some a →
      ∃ j ≤ i, ∃ b, answers[j]? = some b ∧
        p.verdict? answers reviewSeed a.formula = some (.ofAnswer b)) ∧
    (p.comparison = .byValue → p.declared ≠ [] → ∀ seed, ∀ a ∈ answers, ∃ e trials,
      Formula.parse p.names a.formula = .ok e ∧
        trials? p.declared p.trials seed = some trials ∧
        ∀ b ∈ trials, ¬e.MeetsUnboundName b) := by
  have haccepts := accepts_of_review? hreview hharmless
  refine ⟨fun hkind i a hanswer => ?_, fun _ hdeclared seed a ha =>
    haccepts.not_meetsUnboundName hdeclared ha seed⟩
  cases hcomparison : p.comparison with
  | byText => exact haccepts.verdict?_of_byText hcomparison hanswer
  | byValue =>
      exact haccepts.verdict?_of_byValue hcomparison
        (hkind.resolve_left (by simp [hcomparison])) hanswer

theorem verdict_of_reviewed_sum :
    (∃ j ≤ 1, ∃ b, [⟨1, "2x", 0.5, ""⟩, ⟨2, "x + x", 0.25, ""⟩][j]? = some b ∧
      Policy.verdict? { trials := 1, declared := [⟨"x", ⟨1.0, 2.0⟩⟩] }
        [⟨1, "2x", 0.5, ""⟩, ⟨2, "x + x", 0.25, ""⟩] reviewSeed "x + x" = some (.ofAnswer b)) ∧
    ∀ seed, ∃ e trials, Formula.parse ["x"] "x + x" = .ok e ∧
      trials? [⟨"x", ⟨1.0, 2.0⟩⟩] 1 seed = some trials ∧
      ∀ b ∈ trials, ¬e.MeetsUnboundName b := by
  have hreview : Policy.review? { trials := 1, declared := [⟨"x", ⟨1.0, 2.0⟩⟩] }
      [⟨1, "2x", 0.5, ""⟩, ⟨2, "x + x", 0.25, ""⟩] =
        some [.ofExercise ⟨[], .noFullCredit⟩] := by decide +kernel
  obtain ⟨hearned, hbound⟩ := verdict_of_reviewed _ _ hreview (by decide)
  refine ⟨hearned (.inr nofun) 1 ⟨2, "x + x", 0.25, ""⟩ rfl, fun seed => ?_⟩
  exact hbound rfl nofun seed ⟨2, "x + x", 0.25, ""⟩ (by simp)

end Policy

end Grading

end FormulaGrading
