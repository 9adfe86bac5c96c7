import FormulaGrading.Proofs.Grading.FirstMatch
import FormulaGrading.Proofs.Grading.Results
import FormulaGrading.Proofs.Parsing.Symbols

/-!
The answers that a review lists. An answer is checked for its credit, for being read, for the
names in it and for its values on trials. What a review says of answers is what the first check
says that an answer fails, one answer after the other, and nothing of answers that fail none.
-/

namespace FormulaGrading

namespace Formula

/-- A variable of a formula that is not declared. -/
structure IsStray (declared : List String) (e : Formula) (s : Symbol) : Prop where
  node : .symbol s ∈ e.nodes
  free : isConstantName s.name = false
  undeclared : s.name ∉ declared

/-- The variable that is not declared and stands to the left of all others like it. -/
structure IsLeftmostStray (declared : List String) (e : Formula) (s : Symbol) : Prop where
  stray : e.IsStray declared s
  leftmost : ∀ s', e.IsStray declared s' → s' = s ∨ s.span.Before s'.span

variable {declared : List String} {text : String} {e : Formula} {s s' : Symbol}

theorem isStray_iff : e.IsStray declared s ↔ s ∈ e.freeSymbols ∧ s.name ∉ declared := by
  rw [mem_freeSymbols]
  exact ⟨fun h => ⟨⟨h.node, h.free⟩, h.undeclared⟩, fun h => ⟨h.1.1, h.1.2, h.2⟩⟩

theorem IsStray.span_lt (hread : Formula.parse declared text = .ok e) (h : e.IsStray declared s) :
    s.span.start < s.span.stop := by
  obtain ⟨tokens, hscan, hphrase⟩ := exists_phrase_of_parse hread
  obtain ⟨-, -, -, -, -, hlt, -⟩ := hphrase.exists_of_mem_nodes hscan h.node
  exact hlt

/-- Of two variables, both cannot stand to the left of the other. -/
theorem IsLeftmostStray.eq (hread : Formula.parse declared text = .ok e)
    (h : e.IsLeftmostStray declared s) (h' : e.IsLeftmostStray declared s') : s = s' := by
  obtain heq | hbefore := h'.leftmost s h.stray
  · exact heq
  obtain heq | hbefore' := h.leftmost s' h'.stray
  · exact heq.symm
  have hlt := h.stray.span_lt hread
  have hlt' := h'.stray.span_lt hread
  unfold Span.Before at hbefore hbefore'
  omega

/-- A search that goes by the order in the text finds the leftmost one. -/
theorem find?_freeSymbols_eq_some_iff (hread : Formula.parse declared text = .ok e) :
    (e.freeSymbols.find? fun s => !declared.contains s.name) = some s ↔
      e.IsLeftmostStray declared s := by
  have hfound : ∀ s, (e.freeSymbols.find? fun s => !declared.contains s.name) = some s →
      e.IsLeftmostStray declared s := by
    intro s hfind
    obtain ⟨hstray, left, right, hsplit, hleft⟩ := List.find?_eq_some_iff_append.1 hfind
    have horder := pairwise_freeSymbols hread
    rw [hsplit, List.pairwise_append] at horder
    refine ⟨isStray_iff.2 ⟨by simp [hsplit], by simpa using hstray⟩, fun s' hs' => ?_⟩
    obtain ⟨hmem, hundeclared⟩ := isStray_iff.1 hs'
    rw [hsplit, List.mem_append, List.mem_cons] at hmem
    obtain hmem | rfl | hmem := hmem
    · exact absurd (hleft s' hmem) (by simpa using hundeclared)
    · exact .inl rfl
    · exact .inr ((List.pairwise_cons.1 horder.2.1).1 s' hmem)
  refine ⟨hfound s, fun h => ?_⟩
  cases hfind : e.freeSymbols.find? fun s => !declared.contains s.name with
  | none =>
      obtain ⟨hmem, hundeclared⟩ := isStray_iff.1 h.stray
      exact absurd (List.find?_eq_none.1 hfind s hmem) (by simpa using hundeclared)
  | some s' => rw [(hfound s' hfind).eq hread h]

end Formula

namespace Grading

open Sampling

/-- What an answer is checked for. -/
inductive Check where
  | credit
  | reading
  | names
  | values
  deriving DecidableEq

/-- How many checks come before. -/
def Check.place : Check → Nat
  | .credit => 0
  | .reading => 1
  | .names => 2
  | .values => 3

/-- The fault that a formula has on the first trial on which it has no value. -/
def IsFirstFault (e : Formula) (trials : List Bindings) (fault : Fault) : Prop :=
  ∃ earlier b later, trials = earlier ++ b :: later ∧ e.value b = .error fault ∧
    ∀ b' ∈ earlier, ∃ x, e.value b' = .ok x

/-- An answer fails a check. Names are only checked where variables are declared, and values
only under a policy without a fault, on as many trials as the policy wants. -/
inductive Fails (p : Policy) (a : Answer) : Check → Fault → Prop where
  | credit (hcredit : ¬(0.0 ≤ a.credit ∧ a.credit ≤ 1.0)) :
      Fails p a .credit ⟨[], .badCredit a.credit⟩
  | reading {fault : Fault} (hread : Formula.parse p.names a.formula = .error fault) :
      Fails p a .reading fault
  | names {e : Formula} {s : Symbol} (hread : Formula.parse p.names a.formula = .ok e)
      (hdeclared : p.declared ≠ []) (hstray : e.IsLeftmostStray p.names s) :
      Fails p a .names ⟨[s.span], .undeclaredName s.name p.names⟩
  | values {e : Formula} {vs : List Variable} {trials : List Bindings} {fault : Fault}
      (hread : Formula.parse p.names a.formula = .ok e) (hnoFault : p.fault? = none)
      (hvs : DrawnFor p [e] vs) (hdrawn : trials? vs p.trials reviewSeed = some trials)
      (hlength : trials.length = p.trials) (hfault : IsFirstFault e trials fault) :
      Fails p a .values fault

/-- Whether an answer fails none of the checks that come first, up to a number of them. -/
def PassesFirst (p : Policy) (a : Answer) (count : Nat) : Prop :=
  ∀ check : Check, check.place < count → ∀ fault, ¬Fails p a check fault

/-- The fault that the first check finds which an answer fails. -/
def IsFirstFailure (p : Policy) (a : Answer) (fault : Fault) : Prop :=
  ∃ check, Fails p a check fault ∧ PassesFirst p a check.place

/-- Whether an answer fails no check. -/
def IsUsable (p : Policy) (a : Answer) : Prop :=
  ∀ check fault, ¬Fails p a check fault

/-- The problems with answers, in order: one for every answer that cannot be used, and none for
the others. -/
inductive Listed (p : Policy) : List Answer → List Problem → Prop where
  | nil : Listed p [] []
  | unusable {a : Answer} {rest : List Answer} {fault : Fault} {problems : List Problem}
      (hfirst : IsFirstFailure p a fault) (hrest : Listed p rest problems) :
      Listed p (a :: rest) (⟨some a.number, a.formula, fault⟩ :: problems)
  | usable {a : Answer} {rest : List Answer} {problems : List Problem} (husable : IsUsable p a)
      (hrest : Listed p rest problems) : Listed p (a :: rest) problems

variable {p : Policy} {a : Answer} {e : Formula} {fault : Fault} {trials : List Bindings}

theorem Check.place_injective : Function.Injective Check.place := by
  rintro (_ | _ | _ | _) (_ | _ | _ | _) <;> simp [place]

theorem passesFirst_zero : PassesFirst p a 0 :=
  fun _ hlt => absurd hlt (Nat.not_lt_zero _)

theorem PassesFirst.succ (check : Check) (h : PassesFirst p a check.place)
    (hpasses : ∀ fault, ¬Fails p a check fault) : PassesFirst p a (check.place + 1) := by
  intro other hlt
  obtain hlt | heq := Nat.lt_succ_iff_lt_or_eq.1 hlt
  · exact h other hlt
  · rwa [Check.place_injective heq]

theorem isUsable_of_passesFirst (h : PassesFirst p a 4) : IsUsable p a :=
  fun check => h check (by cases check <;> decide)

/-! ### What each check finds -/

theorem fails_credit_iff :
    Fails p a .credit fault ↔ isCredit a.credit = false ∧ fault = creditFault a.credit := by
  have hcredit : isCredit a.credit = false ↔ ¬(0.0 ≤ a.credit ∧ a.credit ≤ 1.0) := by
    rw [← Bool.not_eq_true]
    simp only [isCredit, Bool.and_eq_true, decide_eq_true_eq]
  rw [hcredit]
  constructor
  · rintro ⟨h⟩
    exact ⟨h, rfl⟩
  · rintro ⟨h, rfl⟩
    exact .credit h

theorem fails_reading_iff :
    Fails p a .reading fault ↔ Formula.parse p.names a.formula = .error fault := by
  constructor
  · rintro ⟨⟩
    assumption
  · exact .reading

theorem fails_names_iff (hread : Formula.parse p.names a.formula = .ok e) :
    Fails p a .names fault ↔
      (if p.declared.isEmpty then none else p.undeclaredFault? e) = some fault := by
  constructor
  · intro h
    cases h with
    | names hread' hdeclared hstray =>
        obtain rfl := Except.ok.inj (hread.symm.trans hread')
        rw [if_neg (by simpa using hdeclared), Policy.undeclaredFault?,
          (Formula.find?_freeSymbols_eq_some_iff hread).2 hstray, Option.map_some]
  · intro h
    split at h
    next => cases h
    next hdeclared =>
      obtain ⟨s, hfind, rfl⟩ := Option.map_eq_some_iff.1 h
      exact .names hread (by simpa using hdeclared)
        ((Formula.find?_freeSymbols_eq_some_iff hread).1 hfind)

theorem faultOnTrials?_eq_some_iff :
    Policy.faultOnTrials? e trials = some fault ↔ IsFirstFault e trials fault := by
  rw [Policy.faultOnTrials?, List.findSome?_eq_some_iff]
  refine exists_congr fun earlier => exists_congr fun b => exists_congr fun later =>
    and_congr_right fun _ => and_congr ?_ (forall₂_congr fun b' _ => ?_)
  · cases e.value b <;> simp
  · cases e.value b' <;> simp

theorem fails_values_iff (hread : Formula.parse p.names a.formula = .ok e)
    (hnoFault : p.fault? = none)
    (hdrawn : trials? (p.sampled [e]) p.trials reviewSeed = some trials) :
    Fails p a .values fault ↔ Policy.faultOnTrials? e trials = some fault := by
  rw [faultOnTrials?_eq_some_iff]
  constructor
  · intro h
    cases h with
    | values hread' _ hvs hdrawn' _ hfault =>
        obtain rfl := Except.ok.inj (hread.symm.trans hread')
        obtain rfl := drawnFor_iff.1 hvs
        obtain rfl := Option.some.inj (hdrawn.symm.trans hdrawn')
        exact hfault
  · exact fun h => .values hread hnoFault (drawnFor_iff.2 rfl) hdrawn (length_trials? hdrawn) h

/-! ### What a review says -/

namespace Policy

/-- Numbers can be drawn for whatever variables a formula is tried on. -/
theorem exists_trials (hdrawable : ∀ v ∈ p.declared, v.interval.IsDrawable)
    (formulas : List Formula) (seed : UInt64) :
    ∃ trials, trials? (p.sampled formulas) p.trials seed = some trials :=
  Option.isSome_iff_exists.1
    (isSome_trials?_iff.2 (.inr (forall_sampled_isDrawable_iff.2 hdrawable)))

/-- The fault of an answer is that of the first check that it fails, if there is one. -/
theorem answerFault?_cases (hdrawable : ∀ v ∈ p.declared, v.interval.IsDrawable) (a : Answer) :
    (∃ fault, p.answerFault? p.fault?.isNone a = some (some fault) ∧ IsFirstFailure p a fault) ∨
      (p.answerFault? p.fault?.isNone a = some none ∧ IsUsable p a) := by
  unfold answerFault?
  by_cases hcredit : isCredit a.credit
  case neg =>
    rw [if_pos (by simpa using hcredit)]
    exact .inl ⟨_, rfl, .credit, fails_credit_iff.2 ⟨by simpa using hcredit, rfl⟩,
      passesFirst_zero⟩
  rw [if_neg (by simpa using hcredit)]
  have hpassesCredit : PassesFirst p a 1 := passesFirst_zero.succ .credit fun other h =>
    absurd hcredit (by simp [(fails_credit_iff.1 h).1])
  cases hread : Formula.parse p.names a.formula with
  | error fault => exact .inl ⟨fault, rfl, .reading, .reading hread, hpassesCredit⟩
  | ok e =>
      have hpassesReading : PassesFirst p a 2 :=
        hpassesCredit.succ .reading fun other h =>
          nomatch hread.symm.trans (fails_reading_iff.1 h)
      simp only
      split
      next fault hnames =>
        exact .inl ⟨fault, rfl, .names, (fails_names_iff hread).2 hnames, hpassesReading⟩
      next hnames =>
        have hpassesNames : PassesFirst p a 3 :=
          hpassesReading.succ .names fun other h =>
            nomatch hnames.symm.trans ((fails_names_iff hread).1 h)
        cases hfault : p.fault? with
        | some other =>
            refine .inr ⟨rfl, isUsable_of_passesFirst (hpassesNames.succ .values ?_)⟩
            intro fault h
            cases h with
            | values _ hnoFault => exact nomatch hfault.symm.trans hnoFault
        | none =>
            obtain ⟨trials, hdrawn⟩ := exists_trials hdrawable [e] reviewSeed
            simp only [Option.isNone_none, if_true, hdrawn, Option.map_some, Option.some.injEq]
            have hvalues : ∀ fault, Fails p a .values fault ↔ _ :=
              fun fault => fails_values_iff hread hfault hdrawn
            cases hfound : faultOnTrials? e trials with
            | some fault =>
                exact .inl ⟨fault, rfl, .values, (hvalues fault).2 hfound, hpassesNames⟩
            | none =>
                exact .inr ⟨rfl, isUsable_of_passesFirst (hpassesNames.succ .values
                  fun fault h => nomatch hfound.symm.trans ((hvalues fault).1 h))⟩

/-- So the problems with answers are listed. -/
theorem exists_listed (hdrawable : ∀ v ∈ p.declared, v.interval.IsDrawable)
    (answers : List Answer) : ∃ problems,
      p.answerProblems? p.fault?.isNone answers = some problems ∧ Listed p answers problems := by
  induction answers with
  | nil => exact ⟨[], rfl, .nil⟩
  | cons a rest ih =>
      obtain ⟨problems, hproblems, hlisted⟩ := ih
      rw [answerProblems?]
      obtain ⟨fault, hfault, hfirst⟩ | ⟨hnone, husable⟩ := answerFault?_cases hdrawable a
      · rw [hfault, hproblems]
        exact ⟨_, rfl, .unusable hfirst hlisted⟩
      · rw [hnone, hproblems]
        exact ⟨_, rfl, .usable husable hlisted⟩

/-- Where numbers can be drawn for the declared variables, there is a review. Behind the faults
of the policy and of intervals, it has a problem for each answer that cannot be used, in order,
and for no other answer. The problem is the first one with the answer: a bad credit, a fault in
reading, the leftmost variable that is not declared, or the fault on the first trial without a
value. -/
theorem review_lists_unusable_answers (p : Policy) (answers : List Answer)
    (hdrawn : ∀ v ∈ p.declared, ∀ s, (v.interval.draw? s).isSome) :
    ∃ problems, Listed p answers problems ∧
      p.review? answers = some (
        (p.fault?.toList ++ p.intervalFaults).map Problem.ofExercise ++ problems ++
          if ∃ a ∈ answers, a.credit ≥ fullCreditFrom then []
          else [⟨none, "", ⟨[], .noFullCredit⟩⟩]) := by
  have hdrawable : ∀ v ∈ p.declared, v.interval.IsDrawable := fun v hv =>
    Interval.isSome_draw?_iff.1 (hdrawn v hv (.ofSeed reviewSeed))
  obtain ⟨problems, hproblems, hlisted⟩ := exists_listed hdrawable answers
  have hfull : (fullCreditAnswer? answers).isSome ↔ ∃ a ∈ answers, a.credit ≥ fullCreditFrom := by
    simp [fullCreditAnswer?]
  refine ⟨problems, hlisted, ?_⟩
  rw [review?, hproblems]
  simp only [Option.map_some, hfull]
  rfl

/-- Four answers: one that is not read, a good one, one with two names that are not declared,
and one without a value. -/
def answersToReview : List Answer :=
  [⟨1, "2 (x", 0.5, ""⟩, ⟨2, "x", 1.0, ""⟩, ⟨3, "x + y z", 0.5, ""⟩, ⟨4, "1/(x - x)", 0.5, ""⟩]

theorem three_unusable_answers :
    Listed { trials := 1, declared := [⟨"x", ⟨1.0, 2.0⟩⟩] } answersToReview
      [⟨some 1, "2 (x", ⟨[⟨2, 3⟩], .unclosedBracket⟩⟩,
        ⟨some 3, "x + y z", ⟨[⟨4, 5⟩], .undeclaredName "y" ["x"]⟩⟩,
        ⟨some 4, "1/(x - x)", ⟨[⟨1, 2⟩, ⟨3, 8⟩], .divisionByZero⟩⟩] := by
  obtain ⟨problems, hlisted, hreview⟩ := review_lists_unusable_answers
    { trials := 1, declared := [⟨"x", ⟨1.0, 2.0⟩⟩] } answersToReview (fun v hv s => by
      obtain rfl := List.mem_singleton.1 hv
      exact Interval.isSome_draw?_iff.2 (by decide +kernel))
  have hvalue : Policy.review? { trials := 1, declared := [⟨"x", ⟨1.0, 2.0⟩⟩] } answersToReview =
      some [⟨some 1, "2 (x", ⟨[⟨2, 3⟩], .unclosedBracket⟩⟩,
        ⟨some 3, "x + y z", ⟨[⟨4, 5⟩], .undeclaredName "y" ["x"]⟩⟩,
        ⟨some 4, "1/(x - x)", ⟨[⟨1, 2⟩, ⟨3, 8⟩], .divisionByZero⟩⟩] := by decide +kernel
  have hfull : ∃ a ∈ answersToReview, a.credit ≥ fullCreditFrom := by decide +kernel
  rw [hvalue, if_pos hfull, List.append_nil] at hreview
  rwa [Option.some.inj hreview]

end Policy

end Grading

end FormulaGrading
