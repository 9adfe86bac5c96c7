import FormulaGrading.Proofs.Writing.Words

/-!
Spacing. The texts of tokens, with blanks between them, are scanned as tokens of the same
kinds and texts: in front of a blank, each of them is still the longest token.
-/

namespace FormulaGrading

namespace Token

/-- Whether characters are some texts in a row, with at least one blank between neighbours
and any number of blanks at both ends. -/
inductive SpacedOut : List String → List Char → Prop where
  | nil {blanks : List Char} (hblanks : ∀ c ∈ blanks, isSkipped c) : SpacedOut [] blanks
  | cons {blanks rest : List Char} {lexeme : String} {lexemes : List String}
      (hblanks : ∀ c ∈ blanks, isSkipped c)
      (hgap : lexemes ≠ [] → ∃ c ∈ rest.head?, isSkipped c) (hrest : SpacedOut lexemes rest) :
      SpacedOut (lexeme :: lexemes) (blanks ++ (lexeme.toList ++ rest))

/-- Whether there is something between any two tokens. -/
def KeepApart (tokens : List Token) : Prop :=
  tokens.Pairwise fun t u => t.span.stop < u.span.start

variable {offset stop : Nat} {cs rest : List Char} {tokens : List Token}

/-- Where a blank comes next, no token begins at once. -/
theorem Scans.lt_start (h : Scans offset cs tokens stop rest)
    (hblank : ∃ c ∈ cs.head?, isSkipped c) {t : Token} (ht : t ∈ tokens) :
    offset < t.span.start := by
  obtain ⟨c, hc, hskipped⟩ := hblank
  obtain ⟨cs, rfl⟩ := List.head?_eq_some_iff.1 hc
  generalize hfront : c :: cs = front at h
  cases h with
  | done => simp at ht
  | @skip _ _ d _ _ _ _ h =>
      have hsize := d.utf8Size_pos
      have hlo := (h.liesBetween.of_mem ht).1
      omega
  | token hlongest _ =>
      rw [← hfront, longest?_of_isSkipped hskipped] at hlongest
      exact nomatch hlongest

/-- No token goes on with what comes behind the text of a token. -/
theorem SpacedOut.breaks {lexemes : List String} (h : SpacedOut lexemes rest)
    (hgap : lexemes ≠ [] → ∃ c ∈ rest.head?, isSkipped c) : Breaks rest := by
  have hblank : rest = [] ∨ ∃ c ∈ rest.head?, isSkipped c := by
    cases h with
    | nil hblanks =>
        cases rest with
        | nil => exact .inl rfl
        | cons c rest => exact .inr ⟨c, rfl, hblanks c List.mem_cons_self⟩
    | cons => exact .inr (hgap (List.cons_ne_nil _ _))
  obtain rfl | ⟨c, hc, hskipped⟩ := hblank
  · exact breaks_nil
  · obtain ⟨rest, rfl⟩ := List.head?_eq_some_iff.1 hc
    exact breaks_of_isSkipped hskipped rest

/-- Characters that are the texts of tokens with blanks between them are scanned as tokens of
the same kinds and texts. -/
theorem SpacedOut.exists_scans (hlongest : ∀ t ∈ tokens, t.IsLongest)
    (h : SpacedOut (tokens.map lexeme) cs) (offset : Nat) :
    ∃ tokens' stop, Scans offset cs tokens' stop [] ∧ tokens'.map word = tokens.map word ∧
      KeepApart tokens' := by
  generalize hlexemes : tokens.map lexeme = lexemes at h
  induction h generalizing tokens offset with
  | @nil blanks hblanks =>
      obtain rfl := List.map_eq_nil_iff.1 hlexemes
      have hscans : Scans offset (blanks ++ []) [] (offset + byteLength blanks) [] :=
        .skip_all hblanks .done
      rw [List.append_nil] at hscans
      exact ⟨[], _, hscans, rfl, .nil⟩
  | @cons blanks rest _ _ hblanks hgap hrest ih =>
      obtain ⟨t, tokens, rfl, rfl, rfl⟩ := List.map_eq_cons_iff.1 hlexemes
      obtain ⟨ht, hlongest⟩ := List.forall_mem_cons.1 hlongest
      have hkept := ht.longest?_append (hrest.breaks hgap)
      obtain ⟨tokens', stop, hscans, hwords, hapart⟩ :=
        ih hlongest (offset + byteLength blanks + byteLength t.lexeme.toList) rfl
      refine ⟨_, stop, .skip_all hblanks (.token hkept hscans), ?_,
        List.pairwise_cons.2 ⟨fun u hu => ?_, hapart⟩⟩
      · simp [hwords, word, placed]
      · have hmore : tokens.map lexeme ≠ [] := by
          rintro hnil
          obtain rfl := List.map_eq_nil_iff.1 hnil
          obtain rfl := List.map_eq_nil_iff.1 hwords
          exact List.not_mem_nil hu
        exact hscans.lt_start (hgap hmore) hu

/-- A text that is spaced out differently has the same words, in places that keep apart. -/
theorem SpacedOut.exists_scan {text text' : String} (hscan : scan text = .ok tokens)
    (h : SpacedOut (tokens.map lexeme) text'.toList) :
    ∃ tokens', scan text' = .ok tokens' ∧ tokens'.map word = tokens.map word ∧
      KeepApart tokens' := by
  obtain ⟨tokens', stop, hscans, hwords, hapart⟩ :=
    h.exists_scans (fun t => longest?_of_mem_scan hscan) 0
  exact ⟨tokens', hscans.scanFrom_eq, hwords, hapart⟩

end Token

end FormulaGrading
