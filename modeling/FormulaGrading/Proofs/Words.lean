import FormulaGrading.Proofs.Blanks
import FormulaGrading.Proofs.Trimming

/-!
The words of a text, told by how the text is put together: by words, with blanks between them
and perhaps at both ends. A text is put together in this way from one list of words only. Texts
of blanks are those without words, and nothing is left of them between the blanks at their ends.
-/

namespace FormulaGrading

namespace Text

/-- Some characters, none of them blank. -/
structure IsWord (word : List Char) : Prop where
  ne_nil : word ≠ []
  noBlank : ∀ c ∈ word, isBlank c = false

/-- Characters that hold words in order. Whatever comes behind a word begins with a blank. -/
inductive Spaced : List (List Char) → List Char → Prop where
  | nil {cs : List Char} (hblanks : Blanks cs) : Spaced [] cs
  | cons {lead word rest : List Char} {words : List (List Char)} (hlead : Blanks lead)
      (hword : IsWord word) (hgap : ∀ c, rest.head? = some c → isBlank c)
      (hrest : Spaced words rest) : Spaced (word :: words) (lead ++ word ++ rest)

variable {cs lead rest word : List Char} {words : List (List Char)}

theorem Blanks.append (hlead : Blanks lead) (hrest : Blanks rest) : Blanks (lead ++ rest) :=
  List.forall_mem_append.2 ⟨hlead, hrest⟩

theorem trimmed_eq_nil_iff : trimmed cs = [] ↔ Blanks cs := by
  rw [trimmed_eq_iff]
  constructor
  · rintro ⟨lead, trail, rfl, hlead, htrail, -⟩
    rw [List.append_nil]
    exact hlead.append htrail
  · exact fun h => ⟨cs, [], by simp, h, nofun, nofun, nofun⟩

/-- Blanks at the end make no difference to what is between the blanks at both ends. -/
theorem trimmed_append_blanks (hrest : Blanks rest) : trimmed (cs ++ rest) = trimmed cs := by
  obtain ⟨lead, trail, hcs, hlead, htrail, htrimmed⟩ :=
    trimmed_eq_iff.1 (rfl : trimmed cs = trimmed cs)
  refine trimmed_eq_iff.2 ⟨lead, trail ++ rest, ?_, hlead, htrail.append hrest, htrimmed⟩
  rw [← List.append_assoc, ← hcs]

theorem wordLists_blanks_append (hlead : Blanks lead) :
    wordLists (lead ++ rest) = wordLists rest := by
  induction lead with
  | nil => rfl
  | cons c lead ih =>
      obtain ⟨hc, hlead⟩ := List.forall_mem_cons.1 hlead
      rw [List.cons_append, wordLists_cons_blank hc, ih hlead]

/-- A word ends in front of a blank. -/
theorem wordLists_word_append (hword : IsWord word)
    (hgap : ∀ c, rest.head? = some c → isBlank c) :
    wordLists (word ++ rest) = word :: wordLists rest := by
  cases rest with
  | nil => rw [List.append_nil, wordLists_of_word hword.ne_nil hword.noBlank, wordLists]
  | cons c rest =>
      rw [wordLists_append_blank (hgap c rfl), wordLists_of_word hword.ne_nil hword.noBlank,
        wordLists_cons_blank (hgap c rfl)]
      rfl

theorem Spaced.wordLists_eq (h : Spaced words cs) : wordLists cs = words := by
  induction h with
  | nil hblanks =>
      have hsame : wordLists (_ ++ []) = wordLists [] := wordLists_blanks_append hblanks
      rwa [List.append_nil] at hsame
  | cons hlead hword hgap _ ih =>
      rw [List.append_assoc, wordLists_blanks_append hlead, wordLists_word_append hword hgap, ih]

/-- All characters are put together from words. -/
theorem exists_spaced (cs : List Char) : ∃ words, Spaced words cs := by
  induction hlength : cs.length using Nat.strongRecOn generalizing cs with
  | _ n ih =>
    obtain ⟨lead, hcs, hlead, hhead⟩ := exists_of_dropWhile cs
    cases hrest : cs.dropWhile isBlank with
    | nil =>
        rw [hrest, List.append_nil] at hcs
        exact ⟨[], .nil (hcs ▸ hlead)⟩
    | cons c rest =>
        rw [hrest] at hcs hhead
        have hc := hhead c rfl
        -- the word reaches as far as there is no blank
        let inWord : Char → Bool := fun d => !isBlank d
        have hsplit := List.takeWhile_append_dropWhile (p := inWord) (l := rest)
        have hword : IsWord (c :: rest.takeWhile inWord) := by
          refine ⟨List.cons_ne_nil _ _, List.forall_mem_cons.2 ⟨hc, fun d hd => ?_⟩⟩
          simpa [inWord] using List.all_eq_true.1 List.all_takeWhile d hd
        have hgap : ∀ d, (rest.dropWhile inWord).head? = some d → isBlank d := by
          intro d hd
          have hnot := List.head?_dropWhile_not inWord rest
          rw [hd] at hnot
          simpa [inWord] using hnot
        have hlt : (rest.dropWhile inWord).length < n := by
          have hle := (List.dropWhile_suffix (l := rest) inWord).length_le
          rw [← hlength, hcs, List.length_append, List.length_cons]
          omega
        obtain ⟨words, hwords⟩ := ih _ hlt _ rfl
        refine ⟨(c :: rest.takeWhile inWord) :: words, ?_⟩
        have hspaced := Spaced.cons hlead hword hgap hwords
        rwa [List.append_assoc, List.cons_append, hsplit, ← hcs] at hspaced

/-- The maximal runs without blanks are the words that characters are put together from. -/
theorem wordLists_eq_iff : wordLists cs = words ↔ Spaced words cs := by
  refine ⟨?_, Spaced.wordLists_eq⟩
  rintro rfl
  obtain ⟨words, hwords⟩ := exists_spaced cs
  rwa [hwords.wordLists_eq]

theorem wordLists_eq_nil_iff : wordLists cs = [] ↔ Blanks cs := by
  rw [wordLists_eq_iff]
  constructor
  · rintro ⟨hblanks⟩
    exact hblanks
  · exact .nil

end Text

end FormulaGrading
