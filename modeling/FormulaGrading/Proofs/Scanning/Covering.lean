import FormulaGrading.Proofs.Scanning.Rules

/-!
Covering. A text is scanned as tokens exactly if it is separators and lexemes in a row, every
lexeme the longest match of a rule where it begins. A text that is not covered to its end is
covered up to one character, which is then at fault.
-/

namespace FormulaGrading.Token

/-- The characters that may stand between tokens. -/
def separators : List Char :=
  [' ', '\t', '\r', '\n', '\x0c']

theorem isSkipped_iff {c : Char} : isSkipped c ↔ c ∈ separators := by
  simp [isSkipped, separators, or_assoc]

/-- From an offset on, characters are runs of separators and the lexemes of some tokens in order,
up to another offset, where the rest of the characters is left. -/
inductive Covers : Nat → List Char → List Token → Nat → List Char → Prop where
  | done {offset : Nat} {rest : List Char} : Covers offset rest [] offset rest
  | blanks {offset stop : Nat} {run cs rest : List Char} {tokens : List Token}
      (hrun : ∀ c ∈ run, c ∈ separators)
      (h : Covers (offset + byteLength run) cs tokens stop rest) :
      Covers offset (run ++ cs) tokens stop rest
  | token {offset stop : Nat} {kind : TokenClass} {lexeme cs rest : List Char}
      {tokens : List Token} (hlongest : IsLongestMatch kind lexeme (lexeme ++ cs))
      (h : Covers (offset + byteLength lexeme) cs tokens stop rest) :
      Covers offset (lexeme ++ cs) (placed offset kind lexeme :: tokens) stop rest

section

variable {offset stop : Nat} {cs rest : List Char} {tokens : List Token}

/-- What scanning goes over is what is covered. -/
theorem covers_iff_scans :
    Covers offset cs tokens stop rest ↔ Scans offset cs tokens stop rest := by
  constructor
  · intro h
    induction h with
    | done => exact .done
    | blanks hrun _ ih => exact .skip_all (fun c hc => isSkipped_iff.2 (hrun c hc)) ih
    | token hlongest _ ih => exact .token (longest?_eq_some_iff.2 hlongest) ih
  · intro h
    induction h with
    | done => exact .done
    | @skip _ _ c _ _ _ hskipped _ ih =>
        have hrun : ∀ d ∈ [c], d ∈ separators :=
          List.forall_mem_singleton.2 (isSkipped_iff.1 hskipped)
        exact .blanks hrun ih
    | token hlongest _ ih => exact .token (longest?_eq_some_iff.1 hlongest) ih

/-- A token is placed where its lexeme stands. -/
theorem Covers.lexeme_at (h : Covers offset cs tokens stop rest) {t : Token} (ht : t ∈ tokens) :
    ∃ before after, cs = before ++ t.lexeme.toList ++ after ∧
      t.span.start = offset + byteLength before ∧
        t.span.stop = offset + byteLength (before ++ t.lexeme.toList) := by
  induction h with
  | done => exact absurd ht List.not_mem_nil
  | @blanks _ _ run _ _ _ _ _ ih =>
      obtain ⟨before, after, rfl, hstart, hstop⟩ := ih ht
      refine ⟨run ++ before, after, by simp, ?_, ?_⟩
      · rw [hstart, byteLength_append, Nat.add_assoc]
      · rw [hstop, List.append_assoc, byteLength_append run, Nat.add_assoc]
  | @token offset _ kind lexeme cs _ _ _ _ ih =>
      obtain rfl | ht := List.mem_cons.1 ht
      · exact ⟨[], cs, by simp [placed], rfl, by simp [placed]⟩
      · obtain ⟨before, after, rfl, hstart, hstop⟩ := ih ht
        refine ⟨lexeme ++ before, after, by simp, ?_, ?_⟩
        · rw [hstart, byteLength_append, Nat.add_assoc]
        · rw [hstop, List.append_assoc, byteLength_append lexeme, Nat.add_assoc]

end

section

variable {text : String} {tokens : List Token}

theorem scan_eq_ok_iff :
    scan text = .ok tokens ↔ Covers 0 text.toList tokens text.utf8ByteSize [] := by
  rw [covers_iff_scans]
  constructor
  · intro h
    obtain ⟨stop, hscans⟩ := scans_of_scan h
    have hstop := hscans.stop_eq
    rw [Nat.zero_add, byteLength_toList] at hstop
    exact hstop ▸ hscans
  · exact fun h => h.scanFrom_eq

theorem scan_eq_error_iff {fault : Fault} :
    scan text = .error fault ↔
      ∃ tokens stop c rest, Covers 0 text.toList tokens stop (c :: rest) ∧ c ∉ separators ∧
        (∀ kind lexeme, Matches kind lexeme → ¬lexeme <+: c :: rest) ∧
          fault = ⟨[⟨stop, stop + c.utf8Size⟩], .unknownText (String.singleton c)⟩ := by
  constructor
  · intro h
    obtain ⟨tokens, stop, c, rest, hscans, hkept, hnone, hfault⟩ := scans_of_scan_error h
    refine ⟨tokens, stop, c, rest, covers_iff_scans.2 hscans, ?_, longest?_eq_none_iff.1 hnone,
      hfault⟩
    rw [← isSkipped_iff, hkept]
    exact Bool.false_ne_true
  · rintro ⟨tokens, stop, c, rest, hcovers, hkept, hnone, rfl⟩
    rw [← isSkipped_iff, Bool.not_eq_true] at hkept
    rw [scan, (covers_iff_scans.1 hcovers).scanFrom_eq_map,
      scanFrom_none hkept (longest?_eq_none_iff.2 hnone), Except.map]

/-- The lexeme of a token is the part of the text that the token takes up. -/
theorem lexeme_at_of_scan (h : scan text = .ok tokens) {t : Token} (ht : t ∈ tokens) :
    ∃ before after, text = before ++ t.lexeme ++ after ∧
      t.span.start = before.utf8ByteSize ∧ t.span.stop = (before ++ t.lexeme).utf8ByteSize := by
  obtain ⟨before, after, hparts, hstart, hstop⟩ := (scan_eq_ok_iff.1 h).lexeme_at ht
  refine ⟨String.ofList before, String.ofList after, ?_, ?_, ?_⟩
  · rw [← String.toList_inj, hparts]
    simp
  · rw [hstart, Nat.zero_add, ← byteLength_toList, String.toList_ofList]
  · rw [hstop, Nat.zero_add, ← byteLength_toList, String.toList_append, String.toList_ofList]

end

/-- A text has tokens exactly if they cover it. They are then in order, none of them empty, and
each is placed where its lexeme stands. Any other text is covered up to the first character that
neither separates tokens nor begins one, and fails there. -/
theorem scan_covers (text : String) :
    (∀ tokens, scan text = .ok tokens ↔ Covers 0 text.toList tokens text.utf8ByteSize []) ∧
    (∀ tokens, scan text = .ok tokens → LiesBetween 0 text.utf8ByteSize tokens ∧
      ∀ t ∈ tokens, ∃ before after, text = before ++ t.lexeme ++ after ∧
        t.span.start = before.utf8ByteSize ∧ t.span.stop = (before ++ t.lexeme).utf8ByteSize) ∧
    ∀ fault, scan text = .error fault ↔
      ∃ tokens stop c rest, Covers 0 text.toList tokens stop (c :: rest) ∧ c ∉ separators ∧
        (∀ kind lexeme, Matches kind lexeme → ¬lexeme <+: c :: rest) ∧
          fault = ⟨[⟨stop, stop + c.utf8Size⟩], .unknownText (String.singleton c)⟩ :=
  ⟨fun _ => scan_eq_ok_iff,
    fun _ h => ⟨liesBetween_of_scan h, fun _ ht => lexeme_at_of_scan h ht⟩,
    fun _ => scan_eq_error_iff⟩

/-- An exponent without digits is given back: its marker is a name, and its sign an operation. -/
theorem scan_covers_given_back :
    ∃ tokens, scan "2e+x1 .5e-3" = .ok tokens ∧
      tokens.map Token.lexeme = ["2", "e", "+", "x1", ".5e-3"] ∧
        Covers 0 "2e+x1 .5e-3".toList tokens 11 [] ∧ LiesBetween 0 11 tokens := by
  have hlexemes : (scan "2e+x1 .5e-3").toOption.map (List.map Token.lexeme) =
      some ["2", "e", "+", "x1", ".5e-3"] := by decide +kernel
  have hlength : "2e+x1 .5e-3".utf8ByteSize = 11 := by decide +kernel
  cases hscan : scan "2e+x1 .5e-3" with
  | error fault => exact nomatch hscan ▸ hlexemes
  | ok tokens =>
      obtain ⟨hok, hplaces, -⟩ := scan_covers "2e+x1 .5e-3"
      have hcovers := (hok tokens).1 hscan
      have hbetween := (hplaces tokens hscan).1
      rw [hscan] at hlexemes
      rw [hlength] at hcovers hbetween
      exact ⟨tokens, rfl, Option.some.inj hlexemes, hcovers, hbetween⟩

end FormulaGrading.Token
