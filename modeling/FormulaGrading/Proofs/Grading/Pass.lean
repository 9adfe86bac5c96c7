import FormulaGrading.Proofs.Grading.FirstMatch

/-!
Passes of grading: comparisons by value that come to the trials. The first answer that
agrees on all of them has the verdict.
-/

namespace FormulaGrading.Grading

open Sampling

/-- Whether a response is read as a formula and compared by value on certain trials. -/
structure Pass (p : Policy) (answers : List Answer) (seed : UInt64) (response : String)
    (candidate : Formula) (trials : List Bindings) : Prop where
  byValue : p.comparison = .byValue
  noFault : p.fault? = none
  read : Formula.parse p.names response = .ok candidate
  drawn : trials? (p.sampled (compared p answers candidate)) p.trials seed = some trials

/-- Whether a response has the verdict of the answer at a place, as the first one that it
agrees with. -/
structure EarnsAt (p : Policy) (answers : List Answer) (seed : UInt64) (response : String)
    (i : Nat) : Prop where
  first : FirstMatch p answers seed response i
  verdict : ∃ a, answers[i]? = some a ∧ p.verdict? answers seed response = some (.ofAnswer a)

variable {p : Policy} {answers : List Answer} {seed : UInt64} {response : String}
  {candidate : Formula} {trials : List Bindings} {i : Nat}

/-- A response that agrees with an answer was read, and the trials were drawn. -/
theorem FirstMatch.exists_pass (h : FirstMatch p answers seed response i)
    (hcomparison : p.comparison = .byValue) :
    ∃ candidate trials, Pass p answers seed response candidate trials := by
  obtain ⟨candidate, vs, trials, hread, hvs, hdrawn, -⟩ := h.agrees
  rw [drawnFor_iff] at hvs
  exact ⟨candidate, trials, hcomparison, h.noFault, hread, hvs ▸ hdrawn⟩

theorem Policy.tolerance_of_noFault (h : p.fault? = none) :
    0.0 ≤ p.tolerance ∧ p.tolerance.isFinite := by
  obtain ⟨-, htolerance⟩ := p.fault?_eq_none_iff.1 h
  simpa only [isTolerance, Bool.and_eq_true, decide_eq_true_eq] using htolerance

/-- A response that cannot be read is worth nothing. -/
theorem Policy.findByValue?_of_read?_eq_none (h : p.read? response = none) :
    p.findByValue? answers seed response = some none := by
  rw [findByValue?, h]
  split <;> rfl

theorem Policy.verdict?_of_unread (hcomparison : p.comparison = .byValue) {fault : Fault}
    (hread : Formula.parse p.names response = .error fault) :
    p.verdict? answers seed response = some .noCredit := by
  have hnone : p.read? response = none := by
    rw [read?, hread]
    rfl
  rw [verdict?, hcomparison]
  simp only
  rw [findByValue?_of_read?_eq_none hnone]
  rfl

theorem Policy.verdict?_of_fault (hcomparison : p.comparison = .byValue) {fault : Fault}
    (hfault : p.fault? = some fault) : p.verdict? answers seed response = some .noCredit := by
  simp only [verdict?, hcomparison, findByValue?, hfault, Option.isSome_some, if_true,
    Option.map_some, Verdict.ofSearch_none]

/-- A response that can be read is compared by a search among the answers, for as long as
the trials can be drawn. -/
theorem Policy.verdict?_of_read (hcomparison : p.comparison = .byValue)
    (hnoFault : p.fault? = none) (hread : Formula.parse p.names response = .ok candidate)
    (answers : List Answer) (seed : UInt64) :
    p.verdict? answers seed response =
      (trials? (p.sampled (compared p answers candidate)) p.trials seed).map fun trials =>
        .ofSearch (answers.find? (agreesWith p candidate trials)) := by
  rw [verdict?, hcomparison]
  simp only
  rw [findByValue?, hnoFault, read?_eq_some_iff.2 hread]
  simp only [Option.isSome_none, Bool.false_eq_true, if_false, ← compared_eq]
  cases trials? (p.sampled (compared p answers candidate)) p.trials seed with
  | none => rfl
  | some trials =>
      rw [Option.map_some, Option.map_some, find?_readAnswers,
        List.find?_eq_bind_findIdx?_getElem?]

/-- Comparing by value ends without credit whatever the answers are, or it is such a
search. -/
theorem Policy.verdict?_eq_noCredit_or (hcomparison : p.comparison = .byValue) (seed : UInt64)
    (response : String) :
    (∀ answers, p.verdict? answers seed response = some .noCredit) ∨
      ∃ candidate, Formula.parse p.names response = .ok candidate ∧
        ∀ answers, p.verdict? answers seed response =
          (trials? (p.sampled (compared p answers candidate)) p.trials seed).map fun trials =>
            .ofSearch (answers.find? (agreesWith p candidate trials)) := by
  cases hfault : p.fault? with
  | some fault => exact .inl fun answers => verdict?_of_fault hcomparison hfault
  | none =>
      cases hread : Formula.parse p.names response with
      | error fault => exact .inl fun answers => verdict?_of_unread hcomparison hread
      | ok candidate =>
          exact .inr ⟨candidate, rfl,
            fun answers => verdict?_of_read hcomparison hfault hread answers seed⟩

namespace Pass

/-- There is at least one trial. -/
theorem exists_trial (h : Pass p answers seed response candidate trials) :
    ∃ b, b ∈ trials := by
  have hlength : trials.length ≠ 0 :=
    length_trials? h.drawn ▸ (p.fault?_eq_none_iff.1 h.noFault).1
  exact List.exists_mem_of_length_pos (Nat.pos_of_ne_zero hlength)

theorem firstMatch_iff (h : Pass p answers seed response candidate trials) :
    FirstMatch p answers seed response i ↔
      AgreesAt p answers candidate trials i ∧
        ∀ j < i, ¬AgreesAt p answers candidate trials j := by
  constructor
  · rintro ⟨-, candidate', vs, trials', hread, hvs, hdrawn, -, hagrees⟩
    obtain rfl := Except.ok.inj (h.read.symm.trans hread)
    obtain rfl := drawnFor_iff.1 hvs
    obtain rfl := Option.some.inj (h.drawn.symm.trans hdrawn)
    exact hagrees
  · exact fun hagrees => ⟨h.noFault, candidate, _, trials, h.read, drawnFor_iff.2 rfl,
      h.drawn, length_trials? h.drawn, hagrees⟩

/-- The verdict comes from a search among the answers. -/
theorem verdict?_eq (h : Pass p answers seed response candidate trials) :
    p.verdict? answers seed response =
      some (.ofSearch (answers.find? (agreesWith p candidate trials))) := by
  rw [Policy.verdict?_of_read h.byValue h.noFault h.read, h.drawn, Option.map_some]

/-- The first match has the verdict. -/
theorem earnsAt (h : Pass p answers seed response candidate trials)
    (hfirst : FirstMatch p answers seed response i) : EarnsAt p answers seed response i := by
  have hagrees := h.firstMatch_iff.1 hfirst
  obtain ⟨a, -, hanswer, -⟩ := hagrees.1
  refine ⟨hfirst, a, hanswer, ?_⟩
  rw [h.verdict?_eq, List.find?_eq_bind_findIdx?_getElem?, findIdx?_eq_some_iff.2 hagrees,
    Option.bind_some, hanswer]
  rfl

/-- If an answer agrees, the first that does so comes no later. -/
theorem exists_earnsAt (h : Pass p answers seed response candidate trials)
    (hagrees : AgreesAt p answers candidate trials i) :
    ∃ j ≤ i, EarnsAt p answers seed response j := by
  classical
  have hexists : ∃ j, AgreesAt p answers candidate trials j := ⟨i, hagrees⟩
  exact ⟨Nat.find hexists, Nat.find_le hagrees,
    h.earnsAt (h.firstMatch_iff.2 ⟨Nat.find_spec hexists, fun _ => Nat.find_min hexists⟩)⟩

/-- Where no answer agrees, nothing is earned. -/
theorem verdict?_of_no_agreement (h : Pass p answers seed response candidate trials)
    (hnone : ∀ i, ¬AgreesAt p answers candidate trials i) :
    p.verdict? answers seed response = some .noCredit := by
  have hsearch : answers.find? (agreesWith p candidate trials) = none := by
    refine List.find?_eq_none.2 fun a ha hagrees => ?_
    obtain ⟨i, hanswer⟩ := List.getElem?_of_mem ha
    exact hnone i (agreesAt_iff.2 ⟨a, hanswer, hagrees⟩)
  rw [h.verdict?_eq, hsearch]
  rfl

/-- A response without a value on some trial earns nothing. -/
theorem verdict?_of_no_value (h : Pass p answers seed response candidate trials)
    {b : Bindings} (hb : b ∈ trials) {fault : Fault} (hvalue : candidate.value b = .error fault) :
    p.verdict? answers seed response = some .noCredit := by
  refine h.verdict?_of_no_agreement ?_
  rintro i ⟨a, reference, -, -, hclose⟩
  obtain ⟨c, r, hc, -⟩ := hclose b hb
  exact nomatch hvalue.symm.trans hc

end Pass

end FormulaGrading.Grading
