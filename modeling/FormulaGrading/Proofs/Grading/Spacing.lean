import FormulaGrading.Proofs.Grading.ReadBack
import FormulaGrading.Proofs.Parsing.Moving
import FormulaGrading.Proofs.Scanning.Spacing

/-!
What spacing changes. The tokens of a text that is spaced out differently are the tokens of
the text in other places. So are the formula or the fault that they are read as, and a
response earns the same.
-/

namespace FormulaGrading

/-- The formula without the places of its parts. -/
def Formula.unplaced (e : Formula) : Formula :=
  e.moved fun _ => 0

theorem Formula.unplaced_moved (move : Nat → Nat) (e : Formula) :
    (e.moved move).unplaced = e.unplaced := by
  rw [unplaced, moved_moved]
  rfl

theorem Formula.plain_moved (move : Nat → Nat) (e : Formula) :
    (e.moved move).plain = e.plain := by
  induction e with
  | number | symbol => rfl
  | signed _ _ _ ih => simp only [moved, plain, ih]; rfl
  | binary _ _ _ _ ihl ihr => simp only [moved, plain, ihl, ihr]; rfl
  | call _ _ _ _ ih => simp only [moved, plain, ih]; rfl

/-- Moves the bounds of the first span to those of the second one, and all else as before. -/
def moveSpan (s s' : Span) (move : Nat → Nat) : Nat → Nat :=
  Function.update (Function.update move s.stop s'.stop) s.start s'.start

section

variable {s s' : Span} {move : Nat → Nat} (hs : s.start < s.stop)
include hs

theorem moved_moveSpan : s.moved (moveSpan s s' move) = s' := by
  rw [Span.moved, moveSpan, Function.update_self, Function.update_of_ne hs.ne',
    Function.update_self]

theorem moveSpan_of_lt {n : Nat} (hn : s.stop < n) : moveSpan s s' move n = move n := by
  rw [moveSpan, Function.update_of_ne (hs.trans hn).ne', Function.update_of_ne hn.ne']

end

/-- Tokens that keep apart can be moved to wherever the same words stand. -/
theorem exists_move {tokens tokens' : List Token}
    (hwords : tokens'.map Token.word = tokens.map Token.word) (hapart : Token.KeepApart tokens')
    (hsome : ∀ t ∈ tokens', t.span.start < t.span.stop) :
    ∃ move, tokens = tokens'.map (Token.moved move) := by
  induction tokens' generalizing tokens with
  | nil => exact ⟨id, List.map_eq_nil_iff.1 hwords.symm⟩
  | cons t' tokens' ih =>
      obtain ⟨t, tokens, rfl, hword, hwords⟩ := List.map_eq_cons_iff.1 hwords.symm
      obtain ⟨hbehind, hapart⟩ := List.pairwise_cons.1 hapart
      obtain ⟨ht', hsome⟩ := List.forall_mem_cons.1 hsome
      obtain ⟨move, rfl⟩ := ih hwords.symm hapart hsome
      -- the tokens behind lie beyond both bounds, so that these can be moved on their own
      refine ⟨moveSpan t'.span t.span move,
        List.cons_eq_cons.2 ⟨?_, List.map_congr_left fun u hu => ?_⟩⟩
      · obtain ⟨hkind, hlexeme⟩ := Word.mk.inj hword
        rw [Token.moved, moved_moveSpan ht', ← hkind, ← hlexeme]
      · have hstart := hbehind u hu
        have hstop := hstart.trans (hsome u hu)
        rw [Token.moved, Token.moved, Span.moved, Span.moved, moveSpan_of_lt ht' hstart,
          moveSpan_of_lt ht' hstop]

/-- Whether two outcomes of reading are the same formula but for places, or the same fault at
the tokens of the same index. Where there is no token the fault is at the beginning. -/
inductive SameOutcome (tokens tokens' : List Token) :
    Except Fault Formula → Except Fault Formula → Prop where
  | formula {e e' : Formula} (h : e.unplaced = e'.unplaced) :
      SameOutcome tokens tokens' (.ok e) (.ok e')
  | fault {cause : Cause} {i : Nat} {t t' : Token} (ht : tokens[i]? = some t)
      (ht' : tokens'[i]? = some t') :
      SameOutcome tokens tokens' (.error ⟨[t.span], cause⟩) (.error ⟨[t'.span], cause⟩)
  | empty (h : tokens = []) (h' : tokens' = []) :
      SameOutcome tokens tokens' (.error ⟨[⟨0, 0⟩], .missingFormula⟩)
        (.error ⟨[⟨0, 0⟩], .missingFormula⟩)

section

variable {text text' : String} {tokens tokens' : List Token}
  (hscan : Token.scan text = .ok tokens) (hscan' : Token.scan text' = .ok tokens')
include hscan hscan'

/-- Where a text has its words kept apart, it is read like any other text with these words,
but for places. -/
theorem exists_parse_eq_movedOutcome (hwords : tokens'.map Token.word = tokens.map Token.word)
    (hapart : Token.KeepApart tokens') :
    ∃ move, tokens = tokens'.map (Token.moved move) ∧ ∀ declared,
      Formula.parse declared text =
        movedOutcome move (Formula.moved move) (Formula.parse declared text') := by
  have hsome : ∀ t ∈ tokens', t.span.start < t.span.stop := fun t ht =>
    ((Token.liesBetween_of_scan hscan').of_mem ht).2.1
  obtain ⟨move, rfl⟩ := exists_move hwords hapart hsome
  by_cases hnil : tokens' = []
  · subst hnil
    refine ⟨fun _ => 0, rfl, fun declared => ?_⟩
    rw [parse_of_no_tokens declared hscan, parse_of_no_tokens declared hscan']
    rfl
  · exact ⟨move, rfl, fun declared => parse_moved declared hscan' hscan hnil⟩

theorem sameOutcome_of_moved {move : Nat → Nat} {declared : List String}
    (htokens : tokens = tokens'.map (Token.moved move))
    (h : Formula.parse declared text =
      movedOutcome move (Formula.moved move) (Formula.parse declared text')) :
    SameOutcome tokens tokens' (Formula.parse declared text) (Formula.parse declared text') := by
  cases hparse : Formula.parse declared text' with
  | ok e' =>
      rw [h, hparse]
      exact .formula (e'.unplaced_moved move)
  | error fault' =>
      obtain ⟨-, ⟨rfl, rfl⟩ | ⟨t', ht', hspans⟩⟩ := fault_of_parse hscan' hparse
      · subst htokens
        rw [parse_of_no_tokens declared hscan]
        exact .empty rfl rfl
      · obtain ⟨i, hi⟩ := List.getElem?_of_mem ht'
        obtain ⟨spans, cause⟩ := fault'
        obtain rfl : spans = [t'.span] := hspans
        rw [h, hparse, htokens]
        exact .fault (t := t'.moved move) (by rw [List.getElem?_map, hi]; rfl) hi

end

namespace Grading

/-- A response is worth the same wherever its parts stand. -/
theorem Policy.verdict?_of_moved {p : Policy} {answers : List Answer} {seed : UInt64}
    {response response' : String} {move : Nat → Nat} (hcomparison : p.comparison = .byValue)
    (h : Formula.parse p.names response =
      movedOutcome move (Formula.moved move) (Formula.parse p.names response')) :
    p.verdict? answers seed response' = p.verdict? answers seed response := by
  cases hparse : Formula.parse p.names response' with
  | error fault =>
      rw [hparse] at h
      rw [verdict?_of_unread hcomparison hparse, verdict?_of_unread hcomparison h]
  | ok e =>
      rw [hparse] at h
      have hplain : e.plain = (e.moved move).plain := (e.plain_moved move).symm
      simp only [verdict?, hcomparison]
      rw [findByValue?_congr (read?_eq_some_iff.2 h) (read?_eq_some_iff.2 hparse)
        (Formula.toOption_value_congr hplain) (Formula.freeNames_congr hplain)]

end Grading

/-- A text that is spaced out differently, with at least one blank between any two neighbours,
has the same words, is read with the same outcome, and is worth the same. -/
theorem spacing_irrelevant (text text' : String) (tokens : List Token)
    (hscan : Token.scan text = .ok tokens)
    (hspaced : Token.SpacedOut (tokens.map Token.lexeme) text'.toList) :
    ∃ tokens', Token.scan text' = .ok tokens' ∧
      tokens'.map Token.word = tokens.map Token.word ∧
      (∀ declared, SameOutcome tokens tokens' (Formula.parse declared text)
        (Formula.parse declared text')) ∧
      ∀ (p : Grading.Policy) (answers : List Grading.Answer) (seed : UInt64),
        p.comparison = .byValue →
          p.verdict? answers seed text' = p.verdict? answers seed text := by
  obtain ⟨tokens', hscan', hwords, hapart⟩ := hspaced.exists_scan hscan
  obtain ⟨move, htokens, hparse⟩ := exists_parse_eq_movedOutcome hscan hscan' hwords hapart
  exact ⟨tokens', hscan', hwords,
    fun declared => sameOutcome_of_moved hscan hscan' htokens (hparse declared),
    fun p answers seed hcomparison => Grading.Policy.verdict?_of_moved hcomparison (hparse p.names)⟩

/-- A number with an exponent and a name with a digit stay what they are when blanks come
between them. -/
theorem spacing_irrelevant_number_name :
    Token.scan "2e3x1" = .ok [⟨.number, "2e3", ⟨0, 3⟩⟩, ⟨.name, "x1", ⟨3, 5⟩⟩] ∧
    Token.SpacedOut ["2e3", "x1"] " 2e3\tx1\n".toList ∧
    ∃ tokens', Token.scan " 2e3\tx1\n" = .ok tokens' ∧
      tokens'.map Token.word = [⟨.number, "2e3"⟩, ⟨.name, "x1"⟩] ∧
      (∀ declared, SameOutcome [⟨.number, "2e3", ⟨0, 3⟩⟩, ⟨.name, "x1", ⟨3, 5⟩⟩] tokens'
        (Formula.parse declared "2e3x1") (Formula.parse declared " 2e3\tx1\n")) ∧
      ∀ (p : Grading.Policy) (answers : List Grading.Answer) (seed : UInt64),
        p.comparison = .byValue →
          p.verdict? answers seed " 2e3\tx1\n" = p.verdict? answers seed "2e3x1" := by
  have hscan : Token.scan "2e3x1" =
      .ok [⟨.number, "2e3", ⟨0, 3⟩⟩, ⟨.name, "x1", ⟨3, 5⟩⟩] := rfl
  have hspaced : Token.SpacedOut ["2e3", "x1"]
      ([' '] ++ ("2e3".toList ++ (['\t'] ++ ("x1".toList ++ ['\n'])))) :=
    .cons (List.forall_mem_singleton.2 rfl) (fun _ => ⟨'\t', rfl, rfl⟩)
      (.cons (List.forall_mem_singleton.2 rfl) (fun hnil => absurd rfl hnil)
        (.nil (List.forall_mem_singleton.2 rfl)))
  exact ⟨hscan, hspaced, spacing_irrelevant _ _ _ hscan hspaced⟩

end FormulaGrading
