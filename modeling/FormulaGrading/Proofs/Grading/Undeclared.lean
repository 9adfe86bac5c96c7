import FormulaGrading.Proofs.Grading.Pass
import FormulaGrading.Proofs.Sampling.Trials
import FormulaGrading.Proofs.Unbound

/-!
Names without a value in a pass of grading. Where no variables are declared, all names of
the formulas are sampled. Where some are, a formula with any other name has no value on any
trial, so it agrees with nothing.
-/

namespace FormulaGrading.Grading

open Sampling

variable {p : Policy} {answers : List Answer} {seed : UInt64} {response : String}
  {candidate e : Formula} {trials : List Bindings} {b : Bindings} {name : String}

/-- The sampled names are the declared ones, or else those of the formulas. -/
theorem Policy.mem_names_sampled {formulas : List Formula} :
    name ∈ (p.sampled formulas).map Variable.name ↔
      if p.declared = [] then ∃ e ∈ formulas, e.IsFree name else name ∈ p.names := by
  rw [sampled]
  by_cases hdeclared : p.declared = []
  · simp [hdeclared, Variable.usual, Text.mem_sortedNames, Formula.mem_freeNames]
  · simp [hdeclared, names]

theorem Policy.sampled_of_declared (hdeclared : p.declared ≠ []) (formulas : List Formula) :
    p.sampled formulas = p.declared := by
  rw [sampled, if_neg (by simpa using hdeclared)]

/-- An element that a search does not accept can be left out. -/
theorem find?_eraseIdx {α : Type} {accepts : α → Bool} {xs : List α} {i : Nat}
    (h : ∀ x, xs[i]? = some x → accepts x = false) :
    (xs.eraseIdx i).find? accepts = xs.find? accepts := by
  induction xs generalizing i with
  | nil => rfl
  | cons x rest ih =>
      cases i with
      | zero => rw [List.eraseIdx_cons_zero, List.find?_cons_of_neg (by simp [h x rfl])]
      | succ i =>
          rw [List.eraseIdx_cons_succ, List.find?_cons, List.find?_cons, ih (by simpa using h)]

namespace Pass

theorem isSome_get?_of_undeclared (h : Pass p answers seed response candidate trials)
    (hdeclared : p.declared = []) (hb : b ∈ trials) :
    (b.get? name).isSome ↔ ∃ e ∈ compared p answers candidate, e.IsFree name := by
  rw [isSome_get?_of_trials? h.drawn hb, Policy.mem_names_sampled, if_pos hdeclared]

theorem isSome_get?_of_declared (h : Pass p answers seed response candidate trials)
    (hdeclared : p.declared ≠ []) (hb : b ∈ trials) :
    (b.get? name).isSome ↔ name ∈ p.names := by
  rw [isSome_get?_of_trials? h.drawn hb, Policy.mem_names_sampled, if_neg hdeclared]

/-- A formula with a name that is not among the declared ones has no value. -/
theorem exists_fault_of_stray (h : Pass p answers seed response candidate trials)
    (hdeclared : p.declared ≠ []) (hfree : e.IsFree name) (hstray : name ∉ p.names)
    (hb : b ∈ trials) : ∃ fault, e.value b = .error fault := by
  refine Formula.exists_fault_of_unbound hfree ?_
  rw [← Option.not_isSome_iff_eq_none, h.isSome_get?_of_declared hdeclared hb]
  exact hstray

/-- With declared variables, the trials do not depend on the answers. -/
theorem of_declared (h : Pass p answers seed response candidate trials)
    (hdeclared : p.declared ≠ []) (others : List Answer) :
    Pass p others seed response candidate trials := by
  refine ⟨h.byValue, h.noFault, h.read, ?_⟩
  simpa only [Policy.sampled_of_declared hdeclared] using h.drawn

theorem not_agreesAt_of_stray (h : Pass p answers seed response candidate trials)
    (hdeclared : p.declared ≠ []) (hfree : e.IsFree name) (hstray : name ∉ p.names) {i : Nat}
    {a : Answer} (hanswer : answers[i]? = some a)
    (hread : Formula.parse p.names a.formula = .ok e) :
    ¬AgreesAt p answers candidate trials i := by
  rintro ⟨a', reference, hanswer', hread', hclose⟩
  obtain rfl := Option.some.inj (hanswer.symm.trans hanswer')
  obtain rfl := Except.ok.inj (hread.symm.trans hread')
  -- there is a trial, and on it the answer should have had a value
  obtain ⟨b, hb⟩ := h.exists_trial
  obtain ⟨_, r, -, hr, -⟩ := hclose b hb
  obtain ⟨fault, hvalue⟩ := h.exists_fault_of_stray hdeclared hfree hstray hb
  exact nomatch hvalue.symm.trans hr

/-- An answer that a response does not agree with can be left out. -/
theorem verdict?_eraseIdx (h : Pass p answers seed response candidate trials)
    (hdeclared : p.declared ≠ []) {i : Nat} (hnot : ¬AgreesAt p answers candidate trials i) :
    p.verdict? (answers.eraseIdx i) seed response = p.verdict? answers seed response := by
  rw [(h.of_declared hdeclared _).verdict?_eq, h.verdict?_eq, find?_eraseIdx]
  intro a hanswer
  rw [← Bool.not_eq_true]
  exact fun hagrees => hnot (agreesAt_iff.2 ⟨a, hanswer, hagrees⟩)

/-- Without declared variables, no name is unbound on any trial. With some, a formula meets
an unbound name only if it has a name that is not declared; and then it fails on every
trial, however the name occurs in it. It earns nothing as a response. As an answer it is
never the one that a response is credited for, and might as well not be there. -/
theorem unbound_names (h : Pass p answers seed response candidate trials) :
    (p.declared = [] → ∀ e ∈ compared p answers candidate, ∀ b ∈ trials,
      ¬e.MeetsUnboundName b) ∧
    (p.declared ≠ [] →
      (∀ e : Formula, (∀ name, e.IsFree name → name ∈ p.names) → ∀ b ∈ trials,
        ¬e.MeetsUnboundName b) ∧
      ∀ (e : Formula) (name : String), e.IsFree name → name ∉ p.names →
        (∀ b ∈ trials, ∃ fault, e.value b = .error fault) ∧
        (candidate = e → p.verdict? answers seed response = some .noCredit) ∧
        ∀ i a, answers[i]? = some a → Formula.parse p.names a.formula = .ok e →
          ¬FirstMatch p answers seed response i ∧
          p.verdict? (answers.eraseIdx i) seed response =
            p.verdict? answers seed response) := by
  refine ⟨fun hdeclared e he b hb => Formula.not_meetsUnboundName fun name hfree => ?_,
    fun hdeclared => ⟨fun e hnames b hb => Formula.not_meetsUnboundName fun name hfree => ?_,
      fun e name hfree hstray => ⟨fun b hb => h.exists_fault_of_stray hdeclared hfree hstray hb,
        ?response, ?answer⟩⟩⟩
  · exact (h.isSome_get?_of_undeclared hdeclared hb).2 ⟨e, he, hfree⟩
  · exact (h.isSome_get?_of_declared hdeclared hb).2 (hnames name hfree)
  case response =>
    rintro rfl
    obtain ⟨b, hb⟩ := h.exists_trial
    obtain ⟨fault, hvalue⟩ := h.exists_fault_of_stray hdeclared hfree hstray hb
    exact h.verdict?_of_no_value hb hvalue
  case answer =>
    intro i a hanswer hread
    have hnot := h.not_agreesAt_of_stray hdeclared hfree hstray hanswer hread
    exact ⟨fun hfirst => hnot (h.firstMatch_iff.1 hfirst).1, h.verdict?_eraseIdx hdeclared hnot⟩

end Pass

/-- A name that cancels out costs all credit, if it is not declared. -/
theorem no_credit_for_cancelled_name :
    ∃ candidate trials,
      Pass { trials := 2, declared := [⟨"x", ⟨2.0, 2.0⟩⟩] } [⟨1, "x", 1.0, ""⟩] 0 "x+y-y"
        candidate trials ∧
      candidate.IsFree "y" ∧
      Policy.verdict? { trials := 2, declared := [⟨"x", ⟨2.0, 2.0⟩⟩] } [⟨1, "x", 1.0, ""⟩] 0
        "x+y-y" = some .noCredit := by
  have hpass : Pass { trials := 2, declared := [⟨"x", ⟨2.0, 2.0⟩⟩] } [⟨1, "x", 1.0, ""⟩] 0
      "x+y-y"
      (.binary
        (.binary (.symbol ⟨"x", ⟨0, 1⟩⟩) ⟨.add, false, ⟨1, 2⟩⟩ (.symbol ⟨"y", ⟨2, 3⟩⟩) ⟨0, 3⟩)
        ⟨.subtract, false, ⟨3, 4⟩⟩ (.symbol ⟨"y", ⟨4, 5⟩⟩) ⟨0, 5⟩)
      [.ofList [("x", 2.0)], .ofList [("x", 2.0)]] :=
    ⟨rfl, by decide +kernel, read?_eq_some_iff.1 (by decide +kernel), by decide +kernel⟩
  have hfree : (Formula.binary
      (.binary (.symbol ⟨"x", ⟨0, 1⟩⟩) ⟨.add, false, ⟨1, 2⟩⟩ (.symbol ⟨"y", ⟨2, 3⟩⟩) ⟨0, 3⟩)
      ⟨.subtract, false, ⟨3, 4⟩⟩ (.symbol ⟨"y", ⟨4, 5⟩⟩) ⟨0, 5⟩).IsFree "y" := by
    simp only [Formula.isFree_binary, Formula.isFree_symbol]
    decide +kernel
  exact ⟨_, _, hpass, hfree,
    ((hpass.unbound_names.2 (by simp)).2 _ "y" hfree (by simp [Policy.names])).2.1 rfl⟩

end FormulaGrading.Grading
