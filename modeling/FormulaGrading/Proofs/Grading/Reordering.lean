import FormulaGrading.Proofs.Grading.Appending

/-!
Answers in another order. The names that are sampled are those of all formulas, whatever
their order, so the trials stay the same, and with them which answers match. The order only
decides which of these is the first.
-/

namespace FormulaGrading.Grading

open Sampling

/-- Whether an answer is the first one of a list that matches. -/
def IsFirst (matching : Answer → Prop) (answers : List Answer) (a : Answer) : Prop :=
  matching a ∧ ∃ before after, answers = before ++ a :: after ∧ ∀ a' ∈ before, ¬matching a'

/-- Whether an answer matches a response on its own. By value, it can be read and is close to
the response on all trials that are drawn for a list of answers. By text, its canonical text
is that of the response, which is more than blanks. -/
def Matches (p : Policy) (answers : List Answer) (seed : UInt64) (response : String)
    (a : Answer) : Prop :=
  match p.comparison with
  | .byValue =>
      p.fault? = none ∧ ∃ candidate reference vs trials,
        Formula.parse p.names response = .ok candidate ∧
        Formula.parse p.names a.formula = .ok reference ∧
        DrawnFor p (compared p answers candidate) vs ∧
        trials? vs p.trials seed = some trials ∧
        ∀ b ∈ trials, CloseOn p.tolerance candidate reference b
  | .byText =>
      canonical p.keepsCase response ≠ "" ∧
        canonical p.keepsCase a.formula = canonical p.keepsCase response

variable {p : Policy} {answers permuted : List Answer} {seed : UInt64} {response : String}
  {candidate : Formula} {trials : List Bindings} {a : Answer}

theorem find?_eq_some_iff_isFirst {accepts : Answer → Bool} :
    answers.find? accepts = some a ↔ IsFirst (fun a => accepts a) answers a := by
  simp only [List.find?_eq_some_iff_append, IsFirst, Bool.not_eq_true', Bool.not_eq_true]

/-- Where only one element is accepted, it is found in whatever order the elements are. -/
theorem find?_eq_of_perm {accepts : Answer → Bool} (hperm : permuted.Perm answers)
    (hunique : ∀ a ∈ answers, ∀ a' ∈ answers, accepts a → accepts a' → a = a') :
    permuted.find? accepts = answers.find? accepts := by
  cases hfound : answers.find? accepts with
  | none =>
      rw [List.find?_eq_none] at hfound ⊢
      exact fun a ha => hfound a (hperm.mem_iff.1 ha)
  | some a =>
      have ha := List.mem_of_find?_eq_some hfound
      have haccepted := List.find?_some hfound
      obtain ⟨a', hfound'⟩ := Option.isSome_iff_exists.1
        (List.find?_isSome.2 ⟨a, hperm.mem_iff.2 ha, haccepted⟩)
      rw [hfound', hunique a' (hperm.mem_iff.1 (List.mem_of_find?_eq_some hfound')) a ha
        (List.find?_some hfound') haccepted]

theorem matches_iff_of_byText (hcomparison : p.comparison = .byText) :
    Matches p answers seed response a ↔ canonical p.keepsCase response ≠ "" ∧
      canonical p.keepsCase a.formula = canonical p.keepsCase response := by
  rw [Matches, hcomparison]

/-- In a pass, an answer matches if it agrees on the trials of the pass. -/
theorem Pass.matches_iff (h : Pass p answers seed response candidate trials) :
    Matches p answers seed response a ↔ agreesWith p candidate trials a := by
  simp only [Matches, h.byValue, agreesWith, Option.any_eq_true, read?_eq_some_iff,
    agreesOnAll_iff]
  constructor
  · rintro ⟨-, candidate', reference, vs, trials', hread, hreference, hvs, hdrawn, hclose⟩
    obtain rfl := Except.ok.inj (h.read.symm.trans hread)
    obtain rfl := drawnFor_iff.1 hvs
    obtain rfl := Option.some.inj (h.drawn.symm.trans hdrawn)
    exact ⟨reference, hreference, hclose⟩
  · rintro ⟨reference, hreference, hclose⟩
    exact ⟨h.noFault, candidate, reference, _, trials, h.read, hreference, drawnFor_iff.2 rfl,
      h.drawn, hclose⟩

/-- The formulas of a comparison are the same in another order. -/
theorem compared_perm (hperm : permuted.Perm answers) (candidate : Formula) :
    (compared p permuted candidate).Perm (compared p answers candidate) :=
  (hperm.filterMap _).cons candidate

theorem Policy.sampled_perm {formulas others : List Formula} (hperm : others.Perm formulas) :
    p.sampled others = p.sampled formulas :=
  sampled_congr fun name => by simp only [hperm.mem_iff]

/-- The trials do not depend on the order of the answers. -/
theorem Pass.of_perm (h : Pass p answers seed response candidate trials)
    (hperm : permuted.Perm answers) : Pass p permuted seed response candidate trials :=
  ⟨h.byValue, h.noFault, h.read, Policy.sampled_perm (compared_perm hperm candidate) ▸ h.drawn⟩

namespace Policy

/-- Where nothing matches and nothing is found, the search is one that accepts nothing. -/
theorem exists_search_of_noCredit
    (hverdict : ∀ permuted, p.verdict? permuted seed response = some .noCredit)
    (hnone : ∀ a, ¬Matches p answers seed response a) :
    ∃ accepts : Answer → Bool, (∀ a, accepts a ↔ Matches p answers seed response a) ∧
      ∀ permuted : List Answer, permuted.Perm answers →
        p.verdict? permuted seed response = some (.ofSearch (permuted.find? accepts)) := by
  refine ⟨fun _ => false, fun a => iff_of_false Bool.false_ne_true (hnone a),
    fun permuted _ => ?_⟩
  rw [hverdict, List.find?_eq_none.2 (by simp), Verdict.ofSearch_none]

/-- Where there is a verdict, it comes from a search for an answer that matches, and this is
the same search for all orders of the answers. -/
theorem exists_search_of_perm (hdrawn : p.verdict? answers seed response ≠ none) :
    ∃ accepts : Answer → Bool, (∀ a, accepts a ↔ Matches p answers seed response a) ∧
      ∀ permuted : List Answer, permuted.Perm answers →
        p.verdict? permuted seed response = some (.ofSearch (permuted.find? accepts)) := by
  cases hcomparison : p.comparison with
  | byText =>
      by_cases hblank : canonical p.keepsCase response = ""
      · refine exists_search_of_noCredit (fun permuted => ?_) fun a => ?_
        · simp [verdict?, hcomparison, findByText, hblank]
        · simp [matches_iff_of_byText hcomparison, hblank]
      · refine ⟨fun a => canonical p.keepsCase a.formula == canonical p.keepsCase response,
          fun a => ?_, fun permuted _ => ?_⟩
        · simp [matches_iff_of_byText hcomparison, hblank]
        · simp [verdict?, hcomparison, findByText, hblank]
  | byValue =>
      cases hfault : p.fault? with
      | some fault =>
          exact exists_search_of_noCredit (fun _ => verdict?_of_fault hcomparison hfault)
            fun a => by simp [Matches, hcomparison, hfault]
      | none =>
          cases hread : Formula.parse p.names response with
          | error fault =>
              exact exists_search_of_noCredit (fun _ => verdict?_of_unread hcomparison hread)
                fun a => by simp [Matches, hcomparison, hread]
          | ok candidate =>
              rw [verdict?_of_read hcomparison hfault hread, ne_eq, Option.map_eq_none_iff,
                ← ne_eq, Option.ne_none_iff_exists'] at hdrawn
              obtain ⟨trials, hdrawn⟩ := hdrawn
              have hpass : Pass p answers seed response candidate trials :=
                ⟨hcomparison, hfault, hread, hdrawn⟩
              exact ⟨agreesWith p candidate trials, fun a => hpass.matches_iff.symm,
                fun permuted hperm => (hpass.of_perm hperm).verdict?_eq⟩

/-- The order of the answers only decides which of those that match comes first. Where there
is a verdict, that for the answers in another order comes from the first of them, in this
order, that matches under the trials of the original order. So whether any answer matches
does not depend on the order, and if only one does, neither does the verdict. -/
theorem verdict_of_perm (p : Policy) (answers permuted : List Answer) (seed : UInt64)
    (response : String) (hperm : permuted.Perm answers)
    (hdrawn : p.verdict? answers seed response ≠ none) :
    ∃ found : Option Answer,
      p.verdict? permuted seed response = some (.ofSearch found) ∧
      (∀ a, found = some a ↔ IsFirst (Matches p answers seed response) permuted a) ∧
      (found.isSome ↔ ∃ a ∈ answers, Matches p answers seed response a) ∧
      ((∀ a ∈ answers, ∀ a' ∈ answers, Matches p answers seed response a →
          Matches p answers seed response a' → a = a') →
        p.verdict? permuted seed response = p.verdict? answers seed response) := by
  obtain ⟨accepts, haccepts, hsearch⟩ := exists_search_of_perm hdrawn
  have hmatches : Matches p answers seed response = fun a => accepts a = true :=
    funext fun a => propext (haccepts a).symm
  rw [hmatches]
  refine ⟨permuted.find? accepts, hsearch permuted hperm,
    fun a => find?_eq_some_iff_isFirst, ?_, fun hunique => ?_⟩
  · simp only [List.find?_isSome, hperm.mem_iff]
  · rw [hsearch permuted hperm, hsearch answers (.refl _), find?_eq_of_perm hperm hunique]

/-- Two ways of writing a number twice, and an answer that cannot be read. -/
def doublings : List Answer :=
  [⟨1, "2x", 1.0, ""⟩, ⟨2, "x + x", 0.5, ""⟩, ⟨3, "2 +", 1.0, ""⟩]

/-- The other way round, the answer that now comes first of those that match earns less. -/
theorem verdict_of_reversed :
    doublings.reverse.Perm doublings ∧
      Policy.verdict? { trials := 1 } doublings 0 "x * 2" =
        some ⟨1.0, some 1, none, .correct⟩ ∧
      Policy.verdict? { trials := 1 } doublings.reverse 0 "x * 2" =
        some ⟨0.5, some 2, none, .partly⟩ ∧
      IsFirst (Matches { trials := 1 } doublings 0 "x * 2") doublings.reverse
        ⟨2, "x + x", 0.5, ""⟩ := by
  have hperm := List.reverse_perm doublings
  have hverdict : Policy.verdict? { trials := 1 } doublings 0 "x * 2" =
      some ⟨1.0, some 1, none, .correct⟩ := by decide +kernel
  have hreversed : Policy.verdict? { trials := 1 } doublings.reverse 0 "x * 2" =
      some ⟨0.5, some 2, none, .partly⟩ := by decide +kernel
  have hdrawn : Policy.verdict? { trials := 1 } doublings 0 "x * 2" ≠ none := by
    rw [hverdict]
    exact nofun
  obtain ⟨found, hfound, hfirst, -, -⟩ := verdict_of_perm _ _ _ 0 "x * 2" hperm hdrawn
  refine ⟨hperm, hverdict, hreversed, (hfirst _).1 ?_⟩
  rw [hreversed] at hfound
  cases found with
  | none => exact nomatch hfound
  | some a =>
      have hnumber : a.number = 2 :=
        (Option.some.inj (congrArg Verdict.answer? (Option.some.inj hfound))).symm
      -- the number tells which of the answers it is
      obtain ⟨-, before, after, hlist, -⟩ := (hfirst a).1 rfl
      have hmem : a ∈ doublings.reverse := hlist ▸ List.mem_append_right _ List.mem_cons_self
      have honly : ∀ a ∈ doublings.reverse, a.number = 2 → a = ⟨2, "x + x", 0.5, ""⟩ := by
        decide +kernel
      rw [honly a hmem hnumber]

end Policy

end FormulaGrading.Grading
