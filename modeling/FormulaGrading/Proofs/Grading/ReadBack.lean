import FormulaGrading.Grading.Exercise
import FormulaGrading.Proofs.Evaluation
import FormulaGrading.Proofs.Grading.Pass
import FormulaGrading.Proofs.Writing.Longer
import FormulaGrading.Proofs.Writing.Plain

/-!
Grading what a response was read as. The written form has the verdict of the response
itself, but for two cases. Products without a token are written with one, so there may be
more tokens than are read. And a number that is too large is written as what is no number.
-/

namespace FormulaGrading

section

variable {declared : List String} {text text' : String} {tokens : List Token} {e : Formula}

/-- Finite numbers are read back from their texts. -/
theorem text_of_mem_literals (hparse : Formula.parse declared text = .ok e) {v : Float}
    (hv : v ∈ e.literals) (hfinite : v.isFinite) :
    IsPlainNumber (Decimal.text v).toList ∧
      Decimal.readUnsigned? (Decimal.text v).toList = some v := by
  obtain ⟨_, -, -, -, hwithin⟩ := exists_within_of_parse hparse
  obtain ⟨cs, hread⟩ := hwithin.derives.readUnsigned?_of_mem_literals hv
  exact Decimal.text_read hfinite (Decimal.isNegative_of_readUnsigned? hread)

/-- The written form is scanned as the words of the formula. -/
theorem scan_written (hparse : Formula.parse declared text = .ok e)
    (hfinite : ∀ v ∈ e.literals, v.isFinite) :
    ∃ tokens, Token.scan e.written = .ok tokens ∧ tokens.map Token.word = e.words := by
  obtain ⟨_, hscan, -, -, hwithin⟩ := exists_within_of_parse hparse
  have hlexical : ∀ w ∈ e.words, w.Lexical :=
    hwithin.derives.lexical_words (fun t ht => Token.isName_of_mem_scan hscan ht)
      fun v hv => (text_of_mem_literals hparse hv (hfinite v hv)).1
  rw [Token.scan, e.toList_written]
  exact Token.scanFrom_wordChars hlexical e.isChain_words 0

/-- Every text with the words of a formula is read as this formula, but for places and for
products without a token. -/
theorem parse_of_words (hparse : Formula.parse declared text = .ok e)
    (hfinite : ∀ v ∈ e.literals, v.isFinite) (hscan : Token.scan text' = .ok tokens)
    (hwords : tokens.map Token.word = e.words) (hlength : tokens.length ≤ tokenLimit) :
    ∃ e', Formula.parse declared text' = .ok e' ∧ e'.plain = e.plain := by
  obtain ⟨_, -, -, -, hwithin⟩ := exists_within_of_parse hparse
  obtain ⟨hwritten, -⟩ := writtenWithin_of_within hwithin (Nat.le_succ _) fun v hv =>
    (text_of_mem_literals hparse hv (hfinite v hv)).2
  obtain ⟨e', hwithin', hplain⟩ := hwritten tokens [] hwords rfl
  rw [List.append_nil] at hwithin'
  have hbalanced : Balanced tokens :=
    balancedAfter_zero.1 (hwithin'.derives.balancedAfter_iff.2 (balancedAfter_nil.2 rfl))
  exact ⟨e', (parse_eq_ok_iff hscan hlength hbalanced).2 (.loosen (Nat.zero_le _) hwithin'),
    hplain⟩

end

namespace Grading

open Sampling

namespace Policy

variable {p : Policy} {answers : List Answer} {seed : UInt64} {response response' : String}
  {e e' : Formula}

/-- Responses with the same values and the same free names are equivalent to the same
answer. -/
theorem findByValue?_congr (hread : p.read? response = some e)
    (hread' : p.read? response' = some e')
    (hvalue : ∀ b, (e'.value b).toOption = (e.value b).toOption)
    (hnames : e'.freeNames = e.freeNames) :
    p.findByValue? answers seed response' = p.findByValue? answers seed response := by
  have hsampled (formulas : List Formula) :
      p.sampled (e' :: formulas) = p.sampled (e :: formulas) := by
    simp only [sampled, List.flatMap_cons, hnames]
  simp only [findByValue?, hread, hread', hsampled, hvalue]

/-- A response without a value is worth nothing, since there is at least one trial. -/
theorem findByValue?_of_no_value {found : Option Answer}
    (hread : p.read? response = some e) (hvalue : ∀ b v, e.value b ≠ .ok v)
    (h : p.findByValue? answers seed response = some found) : found = none := by
  rw [findByValue?, hread] at h
  cases hfault : p.fault? with
  | some fault =>
      rw [hfault, Option.isSome_some, if_pos rfl] at h
      exact (Option.some.inj h).symm
  | none =>
      rw [hfault, Option.isSome_none, if_neg Bool.false_ne_true] at h
      cases hdrawn : trials? (p.sampled (e :: (p.readAnswers answers).map Prod.snd)) p.trials
        seed with
      | none => simp [hdrawn] at h
      | some trials =>
          have htrials : trials.length ≠ 0 :=
            length_trials? hdrawn ▸ (p.fault?_eq_none_iff.1 hfault).1
          obtain ⟨b, hb⟩ := List.exists_mem_of_length_pos (Nat.pos_of_ne_zero htrials)
          simp only [hdrawn, Option.some.injEq] at h
          rw [← h, Option.map_eq_none_iff, List.find?_eq_none]
          intro reference _ hagrees
          obtain ⟨c, _, hc, -⟩ := agreesOnAll_iff.1 hagrees b hb
          exact hvalue b c hc

end Policy

variable {x : Exercise}

/-- Responses with the same values and the same free names have the same verdict. -/
theorem verdict?_congr {response response' : String} {e e' : Formula}
    (hcomparison : x.policy.comparison = .byValue)
    (hread : x.policy.read? response = some e) (hread' : x.policy.read? response' = some e')
    (hvalue : ∀ b, (e'.value b).toOption = (e.value b).toOption)
    (hnames : e'.freeNames = e.freeNames) : x.verdict? response' = x.verdict? response := by
  simp only [Exercise.verdict?, Policy.verdict?, hcomparison]
  rw [Policy.findByValue?_congr hread hread' hvalue hnames]

/-- More tokens than are read earn nothing. -/
theorem verdict?_of_excess {text : String} {tokens : List Token}
    (hcomparison : x.policy.comparison = .byValue) (hscan : Token.scan text = .ok tokens)
    (hexcess : tokenLimit < tokens.length) : x.verdict? text = some .noCredit := by
  have hnone : x.policy.read? text = none := by
    rw [Policy.read?, parse_of_excess hscan (List.getElem?_eq_getElem hexcess)]
    rfl
  rw [Exercise.verdict?, Policy.verdict?, hcomparison]
  simp only
  rw [Policy.findByValue?_of_read?_eq_none hnone]
  rfl

/-- What a response was read as has the verdict of the response, if its numbers are finite and
it has no more words than are read. -/
theorem verdict?_written {response : String} {e : Formula}
    (hcomparison : x.policy.comparison = .byValue)
    (hparse : Formula.parse x.policy.names response = .ok e)
    (hfinite : ∀ v ∈ e.literals, v.isFinite) (hlength : e.words.length ≤ tokenLimit) :
    x.verdict? e.written = x.verdict? response := by
  obtain ⟨tokens, hscan, hwords⟩ := scan_written hparse hfinite
  rw [← hwords, List.length_map] at hlength
  obtain ⟨e', hparse', hplain⟩ := parse_of_words hparse hfinite hscan hwords hlength
  exact verdict?_congr hcomparison (read?_eq_some_iff.2 hparse) (read?_eq_some_iff.2 hparse')
    (Formula.toOption_value_congr hplain) (Formula.freeNames_congr hplain)

/-- It has no more words than are read if the response has half as many tokens. -/
theorem verdict?_written_of_short {response : String} {e : Formula} {tokens : List Token}
    (hcomparison : x.policy.comparison = .byValue)
    (hparse : Formula.parse x.policy.names response = .ok e)
    (hfinite : ∀ v ∈ e.literals, v.isFinite) (hscan : Token.scan response = .ok tokens)
    (hlength : 2 * tokens.length ≤ tokenLimit) :
    x.verdict? e.written = x.verdict? response :=
  verdict?_written hcomparison hparse hfinite
    (Nat.le_trans (Nat.le_of_lt (length_words_lt hparse hscan)) hlength)

/-- What a response was read as has the verdict of the response if all numbers are finite,
and if it has no more tokens than are read. With more tokens it earns nothing, and with an
infinite number the response itself earns nothing. -/
theorem verdict_of_reading (x : Exercise) (response : String) (e : Formula)
    (hcomparison : x.policy.comparison = .byValue)
    (hparse : Formula.parse x.policy.names response = .ok e) :
    x.readAs? response = some e.written ∧
      ((∀ v ∈ e.literals, v.isFinite) →
        ∃ tokens, Token.scan e.written = .ok tokens ∧
          (tokens.length ≤ 1024 → x.verdict? e.written = x.verdict? response) ∧
          (1024 < tokens.length → x.verdict? e.written = some .noCredit)) ∧
      (¬(∀ v ∈ e.literals, v.isFinite) →
        ∀ verdict, x.verdict? response = some verdict → verdict = .noCredit) := by
  have hread := read?_eq_some_iff.2 hparse
  refine ⟨by rw [Exercise.readAs?, hread, Option.map_some], fun hfinite => ?_,
    fun hinfinite verdict hverdict => ?_⟩
  · obtain ⟨tokens, hscan, hwords⟩ := scan_written hparse hfinite
    refine ⟨tokens, hscan, fun hlength => ?_, verdict?_of_excess hcomparison hscan⟩
    rw [← List.length_map (f := Token.word), hwords] at hlength
    exact verdict?_written hcomparison hparse hfinite hlength
  · have hvalue (b : Bindings) (v : Float) : e.value b ≠ .ok v := fun h =>
      hinfinite (Formula.isFinite_of_mem_literals h)
    simp only [Exercise.verdict?, Policy.verdict?, hcomparison] at hverdict
    obtain ⟨found, hfound, rfl⟩ := Option.map_eq_some_iff.1 hverdict
    rw [Policy.findByValue?_of_no_value hread hvalue hfound]
    rfl

/-- A product without a token. -/
def twiceDifference : Formula :=
  .binary (.number 2.0 ⟨0, 1⟩) ⟨.multiply, true, ⟨1, 1⟩⟩
    (.binary (.symbol ⟨"x", ⟨2, 3⟩⟩) ⟨.subtract, false, ⟨3, 4⟩⟩ (.symbol ⟨"y", ⟨4, 5⟩⟩) ⟨2, 5⟩)
    ⟨0, 5⟩

/-- It is understood as a product with a token, which has the same verdict. -/
theorem verdict_of_twice_difference :
    Exercise.readAs? ⟨[⟨1, "2*x-2*y", 1.0, ""⟩], {}, 0⟩ "2(x-y)" = some "2*(x-y)" ∧
      Exercise.verdict? ⟨[⟨1, "2*x-2*y", 1.0, ""⟩], {}, 0⟩ "2*(x-y)" =
        Exercise.verdict? ⟨[⟨1, "2*x-2*y", 1.0, ""⟩], {}, 0⟩ "2(x-y)" := by
  have hparse : Formula.parse [] "2(x-y)" = .ok twiceDifference := by decide +kernel
  have hwritten : twiceDifference.written = "2*(x-y)" := by decide +kernel
  obtain ⟨hreading, hfinite, -⟩ := verdict_of_reading ⟨[⟨1, "2*x-2*y", 1.0, ""⟩], {}, 0⟩
    "2(x-y)" twiceDifference rfl hparse
  rw [hwritten] at hreading hfinite
  obtain ⟨tokens, hscan, hsame, -⟩ := hfinite (by decide +kernel)
  have hlength : (Token.scan "2*(x-y)").toOption.map List.length = some 7 := by decide +kernel
  rw [hscan] at hlength
  exact ⟨hreading, hsame (Option.some.inj hlength ▸ by decide)⟩

/-- The answers of an exercise that asks for the number one. -/
def exerciseOfOne : Exercise :=
  { answers := [⟨1, "1", 1.0, ""⟩], policy := {}, seed := 0 }

/-- Ones in a row are understood as a product that has too many tokens to be read. The
quotient of two numbers that are too large is understood as that of two variables. -/
theorem other_verdict_of_reading :
    (∃ shown, exerciseOfOne.readAs? (String.ofList (onesApart 513)) = some shown ∧
      exerciseOfOne.verdict? (String.ofList (onesApart 513)) =
        some ⟨1.0, some 1, none, .correct⟩ ∧
      exerciseOfOne.verdict? shown = some .noCredit) ∧
    exerciseOfOne.readAs? "1e999/1e999" = some "inf/inf" ∧
    exerciseOfOne.verdict? "1e999/1e999" = some .noCredit ∧
    exerciseOfOne.verdict? "inf/inf" = some ⟨1.0, some 1, none, .correct⟩ := by
  refine ⟨?_, by decide +kernel⟩
  obtain ⟨e, hparse, hproduct⟩ := parse_onesApart (n := 513) (by decide) (by decide)
  obtain ⟨tokens, hscan, hwords⟩ := scan_written hparse fun v hv => by
    rw [hproduct.literals v hv]
    decide +kernel
  have hread : exerciseOfOne.policy.read? (String.ofList (onesApart 513)) = some e :=
    read?_eq_some_iff.2 hparse
  have hexcess : tokenLimit < tokens.length := by
    have hlength : tokens.length = e.words.length := by rw [← hwords, List.length_map]
    have := hproduct.words
    rw [tokenLimit]
    omega
  refine ⟨e.written, by rw [Exercise.readAs?, hread, Option.map_some], ?_,
    verdict?_of_excess rfl hscan hexcess⟩
  -- the response has the value and the free names of the answer
  have hone : exerciseOfOne.policy.read? "1" = some (.number 1.0 ⟨0, 1⟩) := by decide +kernel
  have hverdict : exerciseOfOne.verdict? "1" = some ⟨1.0, some 1, none, .correct⟩ := by
    decide +kernel
  rw [← hverdict]
  refine verdict?_congr rfl hone hread (fun b => ?_) ?_
  · rw [hproduct.value, Formula.value, finiteAt_one]
  · rw [Formula.freeNames, Formula.freeSymbols, Formula.walk_eq_nodes, hproduct.closed]
    rfl

end Grading

end FormulaGrading
