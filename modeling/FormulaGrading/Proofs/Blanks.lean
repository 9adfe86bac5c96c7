import FormulaGrading.Grading.Exercise

/-!
Words and the blanks between them. A blank splits the words of a text into those before it
and those behind it. So the words of a text with one blank between words are the same words,
and both texts hold the same characters but for blanks.
-/

namespace FormulaGrading

namespace Text

theorem wordLists_cons_blank {c : Char} (hc : isBlank c) (cs : List Char) :
    wordLists (c :: cs) = wordLists cs := by
  rw [wordLists, if_pos hc]

theorem wordLists_ne_nil {cs : List Char} (h : beginsInWord cs) : wordLists cs ≠ [] := by
  cases cs with
  | nil => exact nomatch h
  | cons c cs =>
      have hc : ¬isBlank c := by simpa [beginsInWord] using h
      rw [wordLists, if_neg hc]
      split
      · cases wordLists cs <;> exact List.cons_ne_nil _ _
      · exact List.cons_ne_nil _ _

theorem consToHead_append {c : Char} {words others : List (List Char)} (h : words ≠ []) :
    consToHead c (words ++ others) = consToHead c words ++ others := by
  obtain ⟨word, words, rfl⟩ := List.exists_cons_of_ne_nil h
  rfl

/-- A blank splits the words. -/
theorem wordLists_append_blank {c : Char} (hc : isBlank c) (xs ys : List Char) :
    wordLists (xs ++ c :: ys) = wordLists xs ++ wordLists ys := by
  induction xs with
  | nil => exact wordLists_cons_blank hc ys
  | cons x xs ih =>
      have hbegins : beginsInWord (xs ++ c :: ys) = beginsInWord xs := by
        cases xs with
        | nil => simp [beginsInWord, hc]
        | cons => rfl
      simp only [List.cons_append, wordLists, hbegins, ih]
      split
      · rfl
      · split
        next hword => exact consToHead_append (wordLists_ne_nil hword)
        next => rfl

/-- Characters without a blank are one word. -/
theorem wordLists_of_word {cs : List Char} (hsome : cs ≠ []) (h : ∀ c ∈ cs, isBlank c = false) :
    wordLists cs = [cs] := by
  induction cs with
  | nil => exact absurd rfl hsome
  | cons c cs ih =>
      obtain ⟨hc, hcs⟩ := List.forall_mem_cons.1 h
      rw [wordLists, if_neg (by simp [hc])]
      cases cs with
      | nil => rfl
      | cons d cs =>
          have hbegins : beginsInWord (d :: cs) := by simp [beginsInWord, hcs d]
          rw [if_pos hbegins, ih (List.cons_ne_nil _ _) hcs]
          rfl

/-- Words are not empty and hold no blank. -/
theorem of_mem_wordLists {cs word : List Char} (h : word ∈ wordLists cs) :
    word ≠ [] ∧ ∀ c ∈ word, isBlank c = false := by
  induction cs generalizing word with
  | nil => simp [wordLists] at h
  | cons c cs ih =>
      rw [wordLists] at h
      split at h
      next => exact ih h
      next hc =>
        have hsingle : [c] ≠ [] ∧ ∀ d ∈ [c], isBlank d = false := by simpa using hc
        split at h
        next =>
          cases hwords : wordLists cs with
          | nil =>
              rw [hwords] at h
              obtain rfl := List.mem_singleton.1 h
              exact hsingle
          | cons first rest =>
              rw [hwords] at h ih
              obtain rfl | hrest := List.mem_cons.1 h
              · refine ⟨List.cons_ne_nil _ _, List.forall_mem_cons.2 ⟨by simpa using hc, ?_⟩⟩
                exact (ih List.mem_cons_self).2
              · exact ih (List.mem_cons_of_mem _ hrest)
        next =>
          obtain rfl | hrest := List.mem_cons.1 h
          · exact hsingle
          · exact ih hrest

theorem intercalate_cons_cons (word next : List Char) (words : List (List Char)) :
    [' '].intercalate (word :: next :: words) =
      word ++ ' ' :: [' '].intercalate (next :: words) := by
  simp [List.intercalate]

/-- Words with one blank between them are read back. -/
theorem wordLists_intercalate {words : List (List Char)}
    (h : ∀ word ∈ words, word ≠ [] ∧ ∀ c ∈ word, isBlank c = false) :
    wordLists ([' '].intercalate words) = words := by
  induction words with
  | nil => rfl
  | cons word words ih =>
      obtain ⟨⟨hsome, hword⟩, hwords⟩ := List.forall_mem_cons.1 h
      cases words with
      | nil => simpa [List.intercalate] using wordLists_of_word hsome hword
      | cons next words =>
          have hspace : isBlank ' ' := rfl
          rw [intercalate_cons_cons, wordLists_append_blank hspace,
            wordLists_of_word hsome hword, ih hwords]
          rfl

/-- Between words there is no blank but the space put there. -/
theorem eq_space_of_mem_intercalate {words : List (List Char)}
    (h : ∀ word ∈ words, ∀ c ∈ word, isBlank c = false) {c : Char}
    (hmem : c ∈ [' '].intercalate words) (hblank : isBlank c) : c = ' ' := by
  have hnotBlank : ∀ word ∈ words, c ∉ word := fun word hword hc =>
    Bool.false_ne_true ((h word hword c hc).symm.trans hblank)
  clear h
  induction words with
  | nil => simp [List.intercalate] at hmem
  | cons word words ih =>
      obtain ⟨hword, hwords⟩ := List.forall_mem_cons.1 hnotBlank
      cases words with
      | nil => exact absurd (by simpa [List.intercalate] using hmem) hword
      | cons next words =>
          rw [intercalate_cons_cons, List.mem_append, List.mem_cons] at hmem
          obtain hc | hc | hc := hmem
          · exact absurd hc hword
          · exact hc
          · exact ih hc hwords

theorem flatten_consToHead (c : Char) (words : List (List Char)) :
    (consToHead c words).flatten = c :: words.flatten := by
  cases words <;> rfl

/-- Words hold all characters but blanks. -/
theorem flatten_wordLists (cs : List Char) : (wordLists cs).flatten = compact cs := by
  induction cs with
  | nil => rfl
  | cons c cs ih =>
      rw [wordLists]
      split
      next hc => rw [ih, compact, compact, List.filter_cons_of_neg (by simp [hc])]
      next hc =>
        rw [compact, List.filter_cons_of_pos (by simpa using hc), ← compact, ← ih]
        split
        · exact flatten_consToHead c _
        · rfl

end Text

namespace Grading

open Text

theorem holdsWords_eq_false_iff {response : String} :
    holdsWords response = false ↔ trimmed response.toList = [] := by
  simp [holdsWords, trim]

theorem toList_singleSpaced (response : String) :
    (singleSpaced response).toList = [' '].intercalate (wordLists response.toList) := by
  rw [singleSpaced, words, String.toList_intercalate, List.map_map]
  simp [Function.comp_def]

/-- Single spacing keeps the words. -/
theorem wordLists_singleSpaced (response : String) :
    wordLists (singleSpaced response).toList = wordLists response.toList := by
  rw [toList_singleSpaced, wordLists_intercalate fun _ => of_mem_wordLists]

theorem eq_space_of_mem_singleSpaced {response : String} {c : Char}
    (hmem : c ∈ (singleSpaced response).toList) (hblank : isBlank c) : c = ' ' := by
  rw [toList_singleSpaced] at hmem
  exact eq_space_of_mem_intercalate (fun _ hword => (of_mem_wordLists hword).2) hmem hblank

/-- Single spacing keeps the canonical text. -/
theorem canonical_singleSpaced (keepsCase : Bool) (response : String) :
    canonical keepsCase (singleSpaced response) = canonical keepsCase response := by
  rw [canonical, canonical, ← flatten_wordLists, wordLists_singleSpaced, flatten_wordLists]

end Grading

end FormulaGrading
