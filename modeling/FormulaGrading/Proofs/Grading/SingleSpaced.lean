import FormulaGrading.Proofs.Grading.Spacing
import FormulaGrading.Proofs.Scanning.Blanks

/-!
Responses as they are put on record, with one blank between words. They are worth the same as
the response itself: by text always, and by value if the response holds no other blanks than
those that scanning passes over. A blank of any other kind makes a response worth nothing by
value, but is not put on record.
-/

namespace FormulaGrading

namespace Token

/-- There are characters with given texts of tokens, spaced out. -/
theorem exists_spacedOut (lexemes : List String) :
    ∃ cs, SpacedOut lexemes cs ∧ (lexemes ≠ [] → ∃ c ∈ cs.head?, isSkipped c) := by
  induction lexemes with
  | nil => exact ⟨[], .nil (by simp), fun h => absurd rfl h⟩
  | cons lexeme lexemes ih =>
      obtain ⟨rest, hrest, hgap⟩ := ih
      have hspace : isSkipped ' ' := rfl
      exact ⟨[' '] ++ (lexeme.toList ++ rest),
        .cons (List.forall_mem_singleton.2 hspace) hgap hrest, fun _ => ⟨' ', rfl, hspace⟩⟩

theorem wordsOf?_eq_some_iff {text : String} {ws : List Word} :
    wordsOf? text.toList = some ws ↔ ∃ tokens, scan text = .ok tokens ∧ tokens.map word = ws := by
  rw [wordsOf?, ← scan]
  cases scan text <;> simp [Except.toOption]

theorem wordsOf?_eq_none_iff {text : String} :
    wordsOf? text.toList = none ↔ ∃ fault, scan text = .error fault := by
  rw [wordsOf?, ← scan]
  cases scan text <;> simp [Except.toOption]

end Token

namespace Grading

open Token (wordsOf?)

namespace Policy

variable {p : Policy} {answers : List Answer} {seed : UInt64} {response response' : String}

/-- What has the same words spaced out has the verdict of both texts. -/
theorem verdict?_of_words (hcomparison : p.comparison = .byValue) {tokens tokens' : List Token}
    (hscan : Token.scan response = .ok tokens) (hscan' : Token.scan response' = .ok tokens')
    (hwords : tokens'.map Token.word = tokens.map Token.word) :
    p.verdict? answers seed response' = p.verdict? answers seed response := by
  obtain ⟨cs, hspaced, -⟩ := Token.exists_spacedOut (tokens.map Token.lexeme)
  rw [← String.toList_ofList (l := cs)] at hspaced
  obtain ⟨spaced, hscanSpaced, hwordsSpaced, hapart⟩ := hspaced.exists_scan hscan
  obtain ⟨_, -, hread⟩ := exists_parse_eq_movedOutcome hscan hscanSpaced hwordsSpaced hapart
  obtain ⟨_, -, hread'⟩ := exists_parse_eq_movedOutcome hscan' hscanSpaced
    (hwordsSpaced.trans hwords.symm) hapart
  exact (verdict?_of_moved hcomparison (hread' p.names)).symm.trans
    (verdict?_of_moved hcomparison (hread p.names))

theorem verdict?_of_wordsOf?_eq_none (hcomparison : p.comparison = .byValue)
    (h : wordsOf? response.toList = none) :
    p.verdict? answers seed response = some .noCredit := by
  obtain ⟨fault, hscan⟩ := Token.wordsOf?_eq_none_iff.1 h
  exact verdict?_of_unread hcomparison (parse_of_scan_error hscan)

/-- By value, only the words of the tokens matter. -/
theorem verdict?_of_wordsOf?_eq (hcomparison : p.comparison = .byValue)
    (h : wordsOf? response'.toList = wordsOf? response.toList) :
    p.verdict? answers seed response' = p.verdict? answers seed response := by
  cases hwords : wordsOf? response.toList with
  | none =>
      rw [verdict?_of_wordsOf?_eq_none hcomparison hwords,
        verdict?_of_wordsOf?_eq_none hcomparison (h.trans hwords)]
  | some ws =>
      obtain ⟨tokens, hscan, rfl⟩ := Token.wordsOf?_eq_some_iff.1 hwords
      obtain ⟨tokens', hscan', hsame⟩ := Token.wordsOf?_eq_some_iff.1 (h.trans hwords)
      exact verdict?_of_words hcomparison hscan hscan' hsame

theorem verdict?_singleSpaced_of_byText (hcomparison : p.comparison = .byText) :
    p.verdict? answers seed (singleSpaced response) = p.verdict? answers seed response := by
  simp only [verdict?, hcomparison, findByText, canonical_singleSpaced]

/-- If all blanks are passed over, the words of the tokens are those in the words of the
response. -/
theorem verdict?_singleSpaced_of_isSkipped (hcomparison : p.comparison = .byValue)
    (hblanks : ∀ c ∈ response.toList, Text.isBlank c → Token.isSkipped c) :
    p.verdict? answers seed (singleSpaced response) = p.verdict? answers seed response := by
  have hspaces : ∀ c ∈ (singleSpaced response).toList, Text.isBlank c → Token.isSkipped c := by
    intro c hmem hblank
    obtain rfl := eq_space_of_mem_singleSpaced hmem hblank
    rfl
  refine verdict?_of_wordsOf?_eq hcomparison ?_
  rw [Token.wordsOf?_eq hspaces, Token.wordsOf?_eq hblanks, wordLists_singleSpaced]

end Policy

/-- What is put on record of a response has the verdict of the response, by text always, and
by value if all blanks of the response are of the kinds that scanning passes over. With a
blank of another kind, the response itself earns nothing by value. -/
theorem verdict_of_single_spaced (x : Exercise) (response : String) :
    (x.policy.comparison = .byText →
      x.verdict? (singleSpaced response) = x.verdict? response) ∧
    (x.policy.comparison = .byValue →
      (∀ c ∈ response.toList, Text.isBlank c → Token.isSkipped c) →
      x.verdict? (singleSpaced response) = x.verdict? response) ∧
    (x.policy.comparison = .byValue →
      (∃ c ∈ response.toList, Text.isBlank c ∧ Token.isSkipped c = false) →
      x.verdict? response = some .noCredit) := by
  refine ⟨Policy.verdict?_singleSpaced_of_byText, Policy.verdict?_singleSpaced_of_isSkipped,
    fun hcomparison => ?_⟩
  rintro ⟨c, hmem, hblank, hskipped⟩
  exact Policy.verdict?_of_wordsOf?_eq_none hcomparison
    (Token.wordsOf?_of_mem hmem hblank hskipped)

/-- An exercise that asks for twice a number. -/
def exerciseOfTwice : Exercise :=
  { answers := [⟨1, "x + x", 1.0, ""⟩]
    policy := { trials := 1, declared := [⟨"x", ⟨2.0, 2.0⟩⟩] }
    seed := 0 }

/-- Blanks of three kinds that are passed over, and the words on record. -/
theorem verdict_of_tab_and_line_feed :
    singleSpaced "\t2 \n  x " = "2 x" ∧
      exerciseOfTwice.verdict? "2 x" = exerciseOfTwice.verdict? "\t2 \n  x " := by
  have hspaced : singleSpaced "\t2 \n  x " = "2 x" := by decide +kernel
  have hall : "\t2 \n  x ".toList.all fun c => !Text.isBlank c || Token.isSkipped c := by
    decide +kernel
  have hblanks : ∀ c ∈ "\t2 \n  x ".toList, Text.isBlank c → Token.isSkipped c := by
    intro c hmem hblank
    simpa [hblank] using List.all_eq_true.1 hall c hmem
  refine ⟨hspaced, hspaced ▸ ?_⟩
  exact (verdict_of_single_spaced exerciseOfTwice "\t2 \n  x ").2.1 rfl hblanks

/-- A no-break space between the factors of a product is a fault, and a space in its place is
none. -/
theorem other_verdict_of_no_break_space :
    singleSpaced "2\u00a0x" = "2 x" ∧
      exerciseOfTwice.verdict? "2\u00a0x" = some .noCredit ∧
      exerciseOfTwice.verdict? "2 x" = some ⟨1.0, some 1, none, .correct⟩ := by
  decide +kernel

end Grading

end FormulaGrading
