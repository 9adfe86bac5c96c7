import FormulaGrading.Proofs.Blanks
import FormulaGrading.Proofs.Trimming
import FormulaGrading.Session
import Mathlib.Data.List.Basic

/-!
The lines of a session. The first word of a line says what it asks for, and what else it holds
is put together again with the blanks around it. A line changes nothing but the seed, and only
if it sets one.
-/

namespace FormulaGrading.Session

open Grading Text

/-- Whether characters spell a seed: digits, perhaps behind a plus sign, for a number that
fits into 64 bits. -/
def SpellsSeed (cs : List Char) (number : UInt64) : Prop :=
  ∃ sign digits, cs = sign ++ digits ∧ (sign = [] ∨ sign = ['+']) ∧ digits ≠ [] ∧
    (∀ c ∈ digits, c.isDigit) ∧ Decimal.natOfDigits digits = number.toNat

/-- Whether a line sets the seed: it holds the word `:seed` and, behind blanks, a seed. -/
def SetsSeed (line : String) (number : UInt64) : Prop :=
  ∃ lead gap seed trail, line.toList = lead ++ ":seed".toList ++ gap ++ seed ++ trail ∧
    Blanks lead ∧ gap ≠ [] ∧ Blanks gap ∧ Blanks trail ∧ SpellsSeed seed number

variable {line text : String} {number : UInt64} {cs : List Char}

theorem not_isBlank_of_isDigit {c : Char} (h : c.isDigit) : isBlank c = false := by
  rw [Char.isDigit_iff_toNat] at h
  have hzero : '0'.toNat = 48 := rfl
  have hnine : '9'.toNat = 57 := rfl
  simp only [isBlank, Bool.or_eq_false_iff, Bool.and_eq_false_iff, decide_eq_false_iff_not]
  omega

theorem SpellsSeed.isBlank_eq_false (h : SpellsSeed cs number) : ∀ c ∈ cs, isBlank c = false := by
  obtain ⟨sign, digits, rfl, hsign, -, hdigits, -⟩ := h
  refine List.forall_mem_append.2 ⟨?_, fun c hc => not_isBlank_of_isDigit (hdigits c hc)⟩
  obtain rfl | rfl := hsign
  · exact nofun
  · exact List.forall_mem_singleton.2 rfl

theorem SpellsSeed.ne_nil (h : SpellsSeed cs number) : cs ≠ [] := by
  obtain ⟨sign, digits, rfl, -, hsome, -⟩ := h
  exact List.append_ne_nil_of_right_ne_nil sign hsome

/-- Digits are a seed if their number fits into 64 bits. -/
theorem seedOfDigits_eq_some_iff (digits : List Char) :
    (if !digits.isEmpty && digits.all Char.isDigit then
      if Decimal.natOfDigits digits < UInt64.size then
        some (UInt64.ofNat (Decimal.natOfDigits digits)) else none
    else none) = some number ↔
      digits ≠ [] ∧ (∀ c ∈ digits, c.isDigit) ∧ Decimal.natOfDigits digits = number.toNat := by
  constructor
  · intro h
    split at h
    next hcond =>
      split at h
      next hlt =>
        obtain rfl := Option.some.inj h
        simp only [Bool.and_eq_true, Bool.not_eq_true', List.isEmpty_eq_false_iff,
          List.all_eq_true] at hcond
        exact ⟨hcond.1, hcond.2, (UInt64.toNat_ofNat_of_lt hlt).symm⟩
      next => exact nomatch h
    next => exact nomatch h
  · rintro ⟨hsome, hall, hvalue⟩
    rw [if_pos (by simpa [hsome] using hall), hvalue, if_pos number.toNat_lt_size,
      UInt64.ofNat_toNat]

/-- Digits are taken behind a plus sign, or else as they are. -/
theorem readSeed?_eq_some_iff : readSeed? text = some number ↔ SpellsSeed text.toList number := by
  unfold readSeed? SpellsSeed
  simp only [seedOfDigits_eq_some_iff]
  split
  next cs hcs =>
    rw [hcs]
    constructor
    · exact fun ⟨hsome, hall, hvalue⟩ => ⟨['+'], cs, rfl, .inr rfl, hsome, hall, hvalue⟩
    · rintro ⟨sign, digits, heq, rfl | rfl, hsome, hall, hvalue⟩
      · rw [List.nil_append] at heq
        exact absurd (hall '+' (by simp [← heq])) (by decide)
      · obtain rfl := List.tail_eq_of_cons_eq heq
        exact ⟨hsome, hall, hvalue⟩
  next hplus =>
    constructor
    · exact fun ⟨hsome, hall, hvalue⟩ => ⟨[], text.toList, rfl, .inl rfl, hsome, hall, hvalue⟩
    · rintro ⟨sign, digits, heq, rfl | rfl, hsome, hall, hvalue⟩
      · rw [heq]
        exact ⟨hsome, hall, hvalue⟩
      · exact absurd heq (hplus digits)

/-- The first word of a line and what else it holds, with blanks around both. -/
theorem commandWord_eq_iff {word : String} (hsome : text ≠ "") :
    commandWord line = (word, text) ↔ ∃ lead gap trail,
      line.toList = lead ++ word.toList ++ gap ++ text.toList ++ trail ∧
        Blanks lead ∧ gap ≠ [] ∧ Blanks gap ∧ Blanks trail ∧
        word ≠ "" ∧ (∀ c ∈ word.toList, isBlank c = false) ∧ IsTrimmed text.toList := by
  constructor
  · intro h
    obtain ⟨lead, trail, hline, hlead, htrail, htrimmed⟩ :=
      trimmed_eq_iff.1 (rfl : trimmed line.toList = trimmed line.toList)
    unfold commandWord at h
    simp only at h
    split at h
    next command rest hsplit =>
      obtain ⟨rfl, rfl⟩ := Prod.mk.inj h
      obtain ⟨blank, hwhole, hblank, hcommand⟩ := splitAtFirst?_eq_some_iff.1 hsplit
      obtain ⟨lead', trail', hrest, hlead', htrail', htext⟩ :=
        trimmed_eq_iff.1 (rfl : trimmed rest = trimmed rest)
      refine ⟨lead, blank :: lead', trail' ++ trail, ?_, hlead, by simp,
        List.forall_mem_cons.2 ⟨hblank, hlead'⟩, List.forall_mem_append.2 ⟨htrail', htrail⟩,
        ?_, by simpa using hcommand, by simpa using htext⟩
      · rw [hline, hwhole]
        conv => lhs; rw [hrest]
        simp
      · intro hempty
        obtain rfl : command = [] := by simpa using hempty
        rw [htrimmed.head blank (by rw [hwhole]; rfl)] at hblank
        exact nomatch hblank
    next => exact absurd (Prod.mk.inj h).2.symm hsome
  · rintro ⟨lead, gap, trail, hline, hlead, hgapsome, hgap, htrail, hwordsome, hword, htext⟩
    obtain ⟨blank, gap, rfl⟩ := List.exists_cons_of_ne_nil hgapsome
    have hwhole : trimmed line.toList = word.toList ++ blank :: (gap ++ text.toList) := by
      refine trimmed_eq_iff.2 ⟨lead, trail, by simp [hline], hlead, htrail, ?_, fun c hc => ?_⟩
      · intro c hc
        rw [List.head?_append_of_ne_nil _ (by simpa using hwordsome)] at hc
        exact hword c (List.mem_of_head? hc)
      · rw [← List.cons_append, ← List.append_assoc,
          List.getLast?_append_of_ne_nil _ (by simpa using hsome)] at hc
        exact htext.last c hc
    have hsplit : splitAtFirst? isBlank (trimmed line.toList) =
        some (word.toList, gap ++ text.toList) :=
      splitAtFirst?_eq_some_iff.2 ⟨blank, hwhole, hgap blank (by simp), hword⟩
    have hrest : trimmed (gap ++ text.toList) = text.toList :=
      trimmed_eq_iff.2 ⟨gap, [], by simp, fun c hc => hgap c (by simp [hc]), nofun, htext⟩
    simp [commandWord, hsplit, hrest]

/-- A seed that was read is behind the word `:seed`. -/
theorem setsSeed_iff : SetsSeed line number ↔
    ∃ text, commandWord line = (":seed", text) ∧ readSeed? text = some number := by
  constructor
  · rintro ⟨lead, gap, seed, trail, hline, hlead, hsome, hgap, htrail, hseed⟩
    have hword : ∀ c ∈ ":seed".toList, isBlank c = false := by
      have hall : ":seed".toList.all fun c => !isBlank c := by decide
      simpa using hall
    refine ⟨String.ofList seed, ?_, readSeed?_eq_some_iff.2 (by simpa using hseed)⟩
    refine (commandWord_eq_iff (by simpa using hseed.ne_nil)).2 ⟨lead, gap, trail, ?_, hlead,
      hsome, hgap, htrail, by decide, hword, ?_⟩
    · simpa using hline
    · simpa using isTrimmed_of_forall hseed.isBlank_eq_false
  · rintro ⟨text, hword, hread⟩
    have hseed := readSeed?_eq_some_iff.1 hread
    obtain ⟨lead, gap, trail, hline, hlead, hsome, hgap, htrail, -⟩ :=
      (commandWord_eq_iff (by simpa using hseed.ne_nil)).1 hword
    exact ⟨lead, gap, text.toList, trail, hline, hlead, hsome, hgap, htrail, hseed⟩

theorem ofLine_eq_seed_iff :
    Command.ofLine line = .seed text ↔ commandWord line = (":seed", text) := by
  unfold Command.ofLine
  split <;> simp_all

theorem eq_trim_of_ofLine {response : String} (h : Command.ofLine line = .respond response) :
    response = trim line := by
  unfold Command.ofLine at h
  split at h <;> simp_all

variable {x : Exercise}

/-- A line that sets the seed does nothing else. -/
theorem answerLine_of_setsSeed (h : SetsSeed line number) :
    answerLine x line = (∅, x.reseed number) := by
  obtain ⟨text, hword, hread⟩ := setsSeed_iff.1 h
  have hwords : holdsWords line := by
    cases hblank : holdsWords line with
    | true => rfl
    | false => simp [commandWord, holdsWords_eq_false_iff.1 hblank, splitAtFirst?] at hword
  simp [answerLine, hwords, ofLine_eq_seed_iff.2 hword, Command.run, hread]

/-- A line that does not set the seed leaves the exercise as it is. -/
theorem answerLine_of_not_setsSeed (h : ∀ number, ¬SetsSeed line number) :
    (answerLine x line).2 = x := by
  unfold answerLine
  split
  next =>
    cases hcommand : Command.ofLine line with
    | seed text =>
        have hread : readSeed? text = none :=
          Option.eq_none_iff_forall_ne_some.2 fun number hread =>
            h number (setsSeed_iff.2 ⟨text, ofLine_eq_seed_iff.1 hcommand, hread⟩)
        simp [Command.run, hread]
    | evaluate | answers | respond => rfl
  next => rfl

/-- A line changes nothing but the seed, and that only if it sets one. -/
theorem exists_answerLine_eq (x : Exercise) (line : String) :
    ∃ number, (answerLine x line).2 = x.reseed number ∧
      (SetsSeed line number ∨ x.seed = number ∧ ∀ other, ¬SetsSeed line other) := by
  by_cases hline : ∃ number, SetsSeed line number
  · obtain ⟨number, hset⟩ := hline
    exact ⟨number, by rw [answerLine_of_setsSeed hset], .inl hset⟩
  · rw [not_exists] at hline
    exact ⟨x.seed, answerLine_of_not_setsSeed hline, .inr ⟨rfl, hline⟩⟩

end FormulaGrading.Session
