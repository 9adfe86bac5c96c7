import FormulaGrading.Proofs.Grading.BlankResponses
import Mathlib.Data.List.Forall2
import Mathlib.Logic.Relation

/-!
Comparing by text. A response is worth what the first answer with its canonical text is worth,
and nothing if that text is empty. Canonical texts hold no blanks, so that putting blanks in or
taking them out makes no difference. Without regard to case they are the lowercase forms of
those with regard to it, so that texts which are the same remain so.
-/

namespace FormulaGrading

namespace Text

/-- Whether the second text is the first one with a blank put in somewhere. -/
def InsertsBlank (text text' : String) : Prop :=
  ∃ before c after, isBlank c ∧ text.toList = before ++ after ∧
    text'.toList = before ++ c :: after

/-- Whether putting blanks in and taking them out leads from one text to the other. -/
def DifferInBlanks : String → String → Prop :=
  Relation.EqvGen InsertsBlank

variable {text text' : String}

theorem InsertsBlank.compact_eq (h : InsertsBlank text text') :
    compact text'.toList = compact text.toList := by
  obtain ⟨before, c, after, hblank, htext, htext'⟩ := h
  rw [htext, htext', compact, compact, List.filter_append, List.filter_append,
    List.filter_cons_of_neg (by simp [hblank])]

/-- What is left without blanks stays the same. -/
theorem DifferInBlanks.compact_eq (h : DifferInBlanks text text') :
    compact text'.toList = compact text.toList := by
  induction h with
  | rel _ _ h => exact h.compact_eq
  | refl _ => rfl
  | symm _ _ _ ih => exact ih.symm
  | trans _ _ _ _ _ ih ih' => exact ih'.trans ih

end Text

namespace Grading

open Text

variable {p : Policy} {answers answers' : List Answer} {seed : UInt64}
  {response response' : String} {a a' : Answer} {i : Nat}

/-! ### Canonical texts -/

theorem canonical_of_differInBlanks (keepsCase : Bool) {text text' : String}
    (h : DifferInBlanks text text') : canonical keepsCase text' = canonical keepsCase text := by
  rw [canonical, canonical, h.compact_eq]

theorem canonical_eq_empty_iff {keepsCase : Bool} {text : String} :
    canonical keepsCase text = "" ↔ Blanks text.toList := by
  refine ⟨fun hempty c hc => ?_, canonical_of_blanks keepsCase⟩
  by_contra hletter
  have hsome := canonical_ne_empty keepsCase ⟨c, hc, by simpa using hletter⟩
  simp [hempty] at hsome

/-- Ignoring the case of letters is done to what is there with regard to it. -/
theorem canonical_without_case (text : String) :
    canonical false text = String.ofList (lowercase (canonical true text).toList) := by
  rw [canonical, canonical, if_pos rfl, String.toList_ofList]
  rfl

/-! ### Answers that differ in blanks -/

/-- Whether answers are the same but for blanks in their formulas. -/
structure Answer.DifferInBlanks (a a' : Answer) : Prop where
  formula : Text.DifferInBlanks a.formula a'.formula
  number : a'.number = a.number
  credit : a'.credit = a.credit
  feedback : a'.feedback = a.feedback

theorem Answer.DifferInBlanks.ofAnswer_eq (h : a.DifferInBlanks a') :
    Verdict.ofAnswer a' = Verdict.ofAnswer a := by
  rw [Verdict.ofAnswer, Verdict.ofAnswer, h.number, h.credit, h.feedback]

/-- A search for a canonical text comes up with answers that are worth the same. -/
theorem ofSearch_of_differInBlanks (keepsCase : Bool) (sought : String)
    (h : List.Forall₂ Answer.DifferInBlanks answers answers') :
    Verdict.ofSearch (answers'.find? fun a => canonical keepsCase a.formula == sought) =
      Verdict.ofSearch (answers.find? fun a => canonical keepsCase a.formula == sought) := by
  induction h with
  | nil => rfl
  | cons hfirst _ ih =>
      rw [List.find?_cons, List.find?_cons, canonical_of_differInBlanks _ hfirst.formula]
      split
      · exact hfirst.ofAnswer_eq
      · exact ih

/-! ### First matches -/

/-- Whether the answer at a place has the canonical text of a response. -/
def SameTextAt (p : Policy) (answers : List Answer) (response : String) (i : Nat) : Prop :=
  ∃ a, answers[i]? = some a ∧ canonical p.keepsCase a.formula = canonical p.keepsCase response

/-- Whether a place is that of the first answer with the canonical text of a response, and
this text is not empty. -/
structure FirstWithText (p : Policy) (answers : List Answer) (response : String) (i : Nat) :
    Prop where
  notEmpty : canonical p.keepsCase response ≠ ""
  same : SameTextAt p answers response i
  earlier : ∀ j < i, ¬SameTextAt p answers response j

theorem sameTextAt_iff :
    SameTextAt p answers response i ↔ ∃ a, answers[i]? = some a ∧
      canonical p.keepsCase a.formula == canonical p.keepsCase response := by
  simp only [SameTextAt, beq_iff_eq]

theorem findIdx?_canonical_eq_some_iff :
    (answers.findIdx? fun a =>
        canonical p.keepsCase a.formula == canonical p.keepsCase response) = some i ↔
      SameTextAt p answers response i ∧ ∀ j < i, ¬SameTextAt p answers response j := by
  simp only [findIdx?_eq_some_iff_first, sameTextAt_iff]

/-- A search by text that succeeds somewhere comes to an end there or before. -/
theorem SameTextAt.exists_firstWithText (h : SameTextAt p answers response i)
    (hsome : canonical p.keepsCase response ≠ "") :
    ∃ j ≤ i, FirstWithText p answers response j := by
  classical
  have hexists : ∃ j, SameTextAt p answers response j := ⟨i, h⟩
  exact ⟨Nat.find hexists, Nat.find_le h, hsome, Nat.find_spec hexists,
    fun _ => Nat.find_min hexists⟩

/-- Texts that are the same with regard to case are the same without. -/
theorem SameTextAt.without_case (h : SameTextAt { p with keepsCase := true } answers response i) :
    SameTextAt { p with keepsCase := false } answers response i := by
  obtain ⟨a, hanswer, htext⟩ := h
  refine ⟨a, hanswer, ?_⟩
  show canonical false a.formula = canonical false response
  rw [canonical_without_case, canonical_without_case]
  exact congrArg (fun text : String => String.ofList (lowercase text.toList)) htext

/-! ### Verdicts -/

/-- Whether a response has the verdict of the answer at a place, as the first one with its
text. -/
structure EarnsByText (p : Policy) (answers : List Answer) (seed : UInt64) (response : String)
    (i : Nat) : Prop where
  first : FirstWithText p answers response i
  verdict : ∃ a, answers[i]? = some a ∧ p.verdict? answers seed response = some (.ofAnswer a)

namespace Policy

/-- By text, a response that is more than blanks is searched for among the answers. -/
theorem verdict?_of_text (hcomparison : p.comparison = .byText)
    (hsome : canonical p.keepsCase response ≠ "") (answers : List Answer) (seed : UInt64) :
    p.verdict? answers seed response = some (.ofSearch (answers.find? fun a =>
      canonical p.keepsCase a.formula == canonical p.keepsCase response)) := by
  rw [verdict?, hcomparison]
  simp only [findByText]
  rw [if_neg (by simpa using hsome)]

/-- Blanks make no difference by text, neither in the response nor in answers. -/
theorem verdict?_of_differInBlanks (hcomparison : p.comparison = .byText)
    (hresponse : DifferInBlanks response response')
    (hanswers : List.Forall₂ Answer.DifferInBlanks answers answers') :
    p.verdict? answers' seed response' = p.verdict? answers seed response := by
  have hcanonical := canonical_of_differInBlanks p.keepsCase hresponse
  by_cases hempty : canonical p.keepsCase response = ""
  · rw [verdict?_of_blanks (canonical_eq_empty_iff.1 hempty),
      verdict?_of_blanks (canonical_eq_empty_iff.1 (hcanonical.trans hempty))]
  · rw [verdict?_of_text hcomparison hempty, verdict?_of_text hcomparison (hcanonical ▸ hempty),
      hcanonical, ofSearch_of_differInBlanks _ _ hanswers]

end Policy

/-- The first answer with the text of a response has the verdict. -/
theorem FirstWithText.earnsByText (h : FirstWithText p answers response i)
    (hcomparison : p.comparison = .byText) (seed : UInt64) :
    EarnsByText p answers seed response i := by
  obtain ⟨a, hanswer, -⟩ := h.same
  refine ⟨h, a, hanswer, ?_⟩
  rw [Policy.verdict?_of_text hcomparison h.notEmpty, List.find?_eq_bind_findIdx?_getElem?,
    findIdx?_canonical_eq_some_iff.2 ⟨h.same, h.earlier⟩, Option.bind_some, hanswer,
    Verdict.ofSearch_some]

/-- Comparing by text gives the credit of the first answer with the canonical text of the
response, if this is not empty, and no credit if there is none. Blanks that are put in or taken
out anywhere do not matter. A response that matches the answer at a place with regard to case
matches one that comes no later if case is ignored. -/
theorem verdict_of_text (p : Policy) (answers : List Answer) (seed : UInt64)
    (response : String) (hcomparison : p.comparison = .byText) :
    (∃ found : Option Nat, (∀ i, found = some i ↔ FirstWithText p answers response i) ∧
      p.verdict? answers seed response = some
        (match found.bind fun i => answers[i]? with
        | some a =>
            { credit := a.credit
              answer? := some a.number
              feedback? := if a.feedback = "" then none else some a.feedback
              grade := .ofCredit a.credit }
        | none => { credit := 0.0, answer? := none, feedback? := none, grade := .wrong })) ∧
    (∀ answers' response', DifferInBlanks response response' →
      List.Forall₂ Answer.DifferInBlanks answers answers' →
      p.verdict? answers' seed response' = p.verdict? answers seed response) ∧
    (∀ i, FirstWithText { p with keepsCase := true } answers response i →
      EarnsByText { p with keepsCase := true } answers seed response i ∧
        ∃ j ≤ i, EarnsByText { p with keepsCase := false } answers seed response j) := by
  refine ⟨?_, fun answers' response' => Policy.verdict?_of_differInBlanks hcomparison, ?_⟩
  · by_cases hempty : canonical p.keepsCase response = ""
    · refine ⟨none, fun i => ⟨nofun, fun hfirst => absurd hempty hfirst.notEmpty⟩, ?_⟩
      rw [Policy.verdict?_of_blanks (canonical_eq_empty_iff.1 hempty)]
      rfl
    · refine ⟨answers.findIdx? fun a =>
        canonical p.keepsCase a.formula == canonical p.keepsCase response, fun i => ?_, ?_⟩
      · rw [findIdx?_canonical_eq_some_iff]
        exact ⟨fun ⟨hsame, hearlier⟩ => ⟨hempty, hsame, hearlier⟩,
          fun hfirst => ⟨hfirst.same, hfirst.earlier⟩⟩
      · rw [Policy.verdict?_of_text hcomparison hempty, List.find?_eq_bind_findIdx?_getElem?]
        cases (answers.findIdx? _).bind fun i => answers[i]? with
        | none => rfl
        | some a => simp [Verdict.ofSearch, Verdict.ofAnswer]
  · intro i hfirst
    have hsome : canonical false response ≠ "" := fun hempty =>
      hfirst.notEmpty (canonical_of_blanks _ (canonical_eq_empty_iff.1 hempty))
    obtain ⟨j, hle, hfirst'⟩ := hfirst.same.without_case.exists_firstWithText hsome
    exact ⟨hfirst.earnsByText hcomparison seed, j, hle, hfirst'.earnsByText hcomparison seed⟩

/-- The small letter i with a dot above it put behind, and the capital that it belongs to. -/
def dottedLetters : List Answer :=
  [⟨1, "i\u0307", 0.5, ""⟩, ⟨2, "\u0130", 1.0, ""⟩]

/-- In lowercase, the capital is two characters. With regard to case it is only the second
answer, and without it is the first one as well. A no-break space behind it is nothing. -/
theorem verdict_of_dotted_capital :
    FirstWithText { comparison := .byText, keepsCase := true } dottedLetters "\u0130" 1 ∧
    (∃ j ≤ 1, EarnsByText { comparison := .byText, keepsCase := false } dottedLetters 0
      "\u0130" j) ∧
    Policy.verdict? { comparison := .byText, keepsCase := true } dottedLetters 0
        "\u0130\u00a0" =
      Policy.verdict? { comparison := .byText, keepsCase := true } dottedLetters 0 "\u0130" := by
  have hfirst : FirstWithText { comparison := .byText, keepsCase := true } dottedLetters
      "\u0130" 1 := by
    refine ⟨by decide +kernel, ⟨_, rfl, by decide +kernel⟩, fun j hj => ?_⟩
    obtain rfl := Nat.lt_one_iff.1 hj
    rintro ⟨a, hanswer, htext⟩
    obtain rfl := Option.some.inj hanswer
    revert htext
    decide +kernel
  obtain ⟨-, hblanks, hcase⟩ := verdict_of_text { comparison := .byText, keepsCase := true }
    dottedLetters 0 "\u0130" rfl
  refine ⟨hfirst, (hcase 1 hfirst).2, hblanks _ _ (.rel _ _ ?_) (List.forall₂_same.2 ?_)⟩
  · exact ⟨['\u0130'], '\u00a0', [], by decide +kernel, by decide +kernel, by decide +kernel⟩
  · exact fun a _ => ⟨.refl _, rfl, rfl, rfl⟩

end Grading

end FormulaGrading
