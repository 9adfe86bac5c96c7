import FormulaGrading.Proofs.Blanks
import FormulaGrading.Proofs.Scanning.Breaks
import FormulaGrading.Proofs.Writing.Words

/-!
Scanning word by word. A blank that is passed over ends the token before it, so a text is
scanned in parts, one for each of its words. Which tokens there are, but for places, depends
on the words alone if all blanks are of the kinds that are passed over. Any other blank is
at fault.
-/

namespace FormulaGrading.Token

open Text

/-- The tokens of some characters, without their places, if there are any. -/
def wordsOf? (cs : List Char) : Option (List Word) :=
  (scanFrom 0 0 cs).toOption.map (List.map word)

/-- The tokens of several rows of characters, one row after the other. -/
def wordsOfAll? : List (List Char) → Option (List Word)
  | [] => some []
  | cs :: rest => (wordsOf? cs).bind fun ws => (wordsOfAll? rest).map (ws ++ ·)

/-- Only places depend on where the characters begin. -/
theorem words_scanFrom_eq (pending offset offset' : Nat) (cs : List Char) :
    (scanFrom pending offset cs).toOption.map (List.map word) =
      (scanFrom pending offset' cs).toOption.map (List.map word) := by
  induction cs generalizing pending offset offset' with
  | nil => cases pending <;> rfl
  | cons c cs ih =>
      cases pending with
      | succ pending => exact ih ..
      | zero =>
          simp only [scanFrom]
          split
          · exact ih ..
          · split
            next => rfl
            next kind lexeme _ =>
              have hrest := ih (lexeme.length - 1) (offset + c.utf8Size) (offset' + c.utf8Size)
              revert hrest
              cases scanFrom (lexeme.length - 1) (offset + c.utf8Size) cs <;>
                cases scanFrom (lexeme.length - 1) (offset' + c.utf8Size) cs <;>
                  simp [Except.toOption, word]

/-- Characters with a character between them that ends a token are scanned in two parts. -/
theorem scanFrom_append_end {c : Char} (hc : EndsToken c) (xs ys : List Char) (offset : Nat) :
    scanFrom 0 offset (xs ++ c :: ys) = (scanFrom 0 offset xs).bind fun tokens =>
      (scanFrom 0 (offset + byteLength xs) (c :: ys)).map (tokens ++ ·) := by
  -- a token may be long, so the induction is on the number of characters
  induction hlength : xs.length using Nat.strongRecOn generalizing offset xs with
  | _ n ih =>
    cases xs with
    | nil =>
        show scanFrom 0 offset (c :: ys) = (scanFrom 0 offset (c :: ys)).map ([] ++ ·)
        cases scanFrom 0 offset (c :: ys) <;> rfl
    | cons x xs =>
        by_cases hskipped : isSkipped x
        · rw [List.cons_append, scanFrom_skip hskipped, scanFrom_skip hskipped,
            ih xs.length (by simp [← hlength]) xs _ rfl, byteLength_cons, ← Nat.add_assoc]
        · have hsame := longest?_append_end hc (x :: xs) ys (List.cons_ne_nil _ _)
          cases hlongest : longest? (x :: xs) with
          | none =>
              rw [hlongest, List.cons_append] at hsame
              rw [List.cons_append, scanFrom_none (by simpa using hskipped) hsame,
                scanFrom_none (by simpa using hskipped) hlongest]
              rfl
          | some found =>
              obtain ⟨kind, lexeme⟩ := found
              obtain ⟨hsome, xs', happend⟩ := longest?_isPrefix hlongest
              rw [hlongest] at hsame
              rw [← happend] at hlongest hlength hsame ⊢
              rw [List.append_assoc] at hsame ⊢
              have hlt : xs'.length < n := by
                have := List.length_pos_iff.2 hsome
                rw [← hlength, List.length_append]
                omega
              rw [scanFrom_token hsame, scanFrom_token hlongest, ih _ hlt xs' _ rfl,
                byteLength_append, ← Nat.add_assoc offset]
              cases scanFrom 0 (offset + byteLength lexeme) xs' with
              | error fault => rfl
              | ok tokens =>
                  show ((scanFrom 0 _ (c :: ys)).map (tokens ++ ·)).map _ =
                    (scanFrom 0 _ (c :: ys)).map _
                  cases scanFrom 0 (offset + byteLength lexeme + byteLength xs') (c :: ys) <;> rfl

/-- So the tokens of the first part come before those of the second. -/
theorem wordsOf?_append_end {c : Char} (hc : EndsToken c) (xs ys : List Char) :
    wordsOf? (xs ++ c :: ys) =
      (wordsOf? xs).bind fun ws => (wordsOf? (c :: ys)).map (ws ++ ·) := by
  rw [wordsOf?, scanFrom_append_end hc, wordsOf?, wordsOf?,
    words_scanFrom_eq 0 0 (0 + byteLength xs) (c :: ys)]
  cases scanFrom 0 0 xs with
  | error fault => rfl
  | ok tokens =>
      show ((scanFrom 0 _ (c :: ys)).map (tokens ++ ·)).toOption.map _ = _
      cases scanFrom 0 (0 + byteLength xs) (c :: ys) <;> simp [Except.toOption, Except.map]

theorem wordsOf?_cons_skipped {c : Char} (hc : isSkipped c) (cs : List Char) :
    wordsOf? (c :: cs) = wordsOf? cs := by
  rw [wordsOf?, scanFrom_skip hc, words_scanFrom_eq 0 _ 0, wordsOf?]

/-- A blank that is not passed over is at fault. -/
theorem wordsOf?_of_mem {cs : List Char} {c : Char} (hmem : c ∈ cs) (hblank : isBlank c)
    (hskipped : isSkipped c = false) : wordsOf? cs = none := by
  obtain ⟨xs, ys, rfl⟩ := List.append_of_mem hmem
  have hnone : wordsOf? (c :: ys) = none := by
    rw [wordsOf?, scanFrom_none hskipped (longest?_of_isBlank hblank ys)]
    rfl
  rw [wordsOf?_append_end (endsToken_of_isBlank hblank), hnone]
  cases wordsOf? xs <;> rfl

theorem wordsOfAll?_append (xss yss : List (List Char)) :
    wordsOfAll? (xss ++ yss) =
      (wordsOfAll? xss).bind fun ws => (wordsOfAll? yss).map (ws ++ ·) := by
  induction xss with
  | nil => simp [wordsOfAll?]
  | cons xs xss ih =>
      simp only [List.cons_append, wordsOfAll?, ih]
      cases wordsOf? xs <;> cases wordsOfAll? xss <;> cases wordsOfAll? yss <;> simp

/-- The tokens are those of the words, if all blanks are passed over. -/
theorem wordsOf?_eq {cs : List Char} (h : ∀ c ∈ cs, isBlank c → isSkipped c) :
    wordsOf? cs = wordsOfAll? (wordLists cs) := by
  induction hlength : cs.length using Nat.strongRecOn generalizing cs with
  | _ n ih =>
    by_cases hblank : ∃ c ∈ cs, isBlank c
    · obtain ⟨c, hmem, hblank⟩ := hblank
      have hskipped := h c hmem hblank
      obtain ⟨xs, ys, rfl⟩ := List.append_of_mem hmem
      obtain ⟨hxs, -, hys⟩ := List.forall_mem_append.1 h |>.imp_right List.forall_mem_cons.1
      rw [List.length_append, List.length_cons] at hlength
      rw [wordsOf?_append_end (endsToken_of_isBlank hblank), wordsOf?_cons_skipped hskipped,
        wordLists_append_blank hblank, wordsOfAll?_append,
        ih _ (by omega) hxs rfl, ih _ (by omega) hys rfl]
    · cases cs with
      | nil => rfl
      | cons c cs =>
          rw [wordLists_of_word (List.cons_ne_nil _ _) (by simpa using hblank)]
          simp [wordsOfAll?]

end FormulaGrading.Token
