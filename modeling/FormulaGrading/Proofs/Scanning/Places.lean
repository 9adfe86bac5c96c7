import FormulaGrading.Proofs.Scanning
import FormulaGrading.Text.Blank

/-!
Where tokens are. Scanning goes over the characters of a text from left to right, and `Scans`
says what it has found up to a place: tokens in order, none of them empty, with nothing but
blanks between them. Everything passed is ASCII, so that the position of a byte there is the
index of a character as well.
-/

namespace FormulaGrading

/-- The tokens lie in order between two positions, and none of them is empty. -/
def LiesBetween : Nat → Nat → List Token → Prop
  | lo, hi, [] => lo ≤ hi
  | lo, hi, t :: rest =>
      lo ≤ t.span.start ∧ t.span.start < t.span.stop ∧ LiesBetween t.span.stop hi rest

@[simp] theorem liesBetween_nil {lo hi : Nat} : LiesBetween lo hi [] ↔ lo ≤ hi := Iff.rfl

@[simp] theorem liesBetween_cons {lo hi : Nat} {t : Token} {rest : List Token} :
    LiesBetween lo hi (t :: rest) ↔
      lo ≤ t.span.start ∧ t.span.start < t.span.stop ∧ LiesBetween t.span.stop hi rest :=
  Iff.rfl

theorem LiesBetween.le {lo hi : Nat} {tokens : List Token} (h : LiesBetween lo hi tokens) :
    lo ≤ hi := by
  induction tokens generalizing lo with
  | nil => exact h
  | cons t rest ih =>
      obtain ⟨hstart, hlt, hrest⟩ := h
      have := ih hrest
      omega

theorem LiesBetween.of_le {lo lo' hi : Nat} {tokens : List Token}
    (h : LiesBetween lo hi tokens) (hlo : lo' ≤ lo) : LiesBetween lo' hi tokens := by
  cases tokens with
  | nil => exact Nat.le_trans hlo h
  | cons t rest => exact ⟨Nat.le_trans hlo h.1, h.2⟩

theorem liesBetween_append {lo hi : Nat} {ts us : List Token} :
    LiesBetween lo hi (ts ++ us) ↔ ∃ mid, LiesBetween lo mid ts ∧ LiesBetween mid hi us := by
  induction ts generalizing lo with
  | nil =>
      constructor
      · exact fun h => ⟨lo, Nat.le_refl _, h⟩
      · rintro ⟨mid, hle, h⟩
        exact h.of_le hle
  | cons t rest ih => simp [ih, and_assoc]

theorem LiesBetween.of_mem {lo hi : Nat} {tokens : List Token} (h : LiesBetween lo hi tokens)
    {t : Token} (ht : t ∈ tokens) :
    lo ≤ t.span.start ∧ t.span.start < t.span.stop ∧ t.span.stop ≤ hi := by
  obtain ⟨ts, us, rfl⟩ := List.append_of_mem ht
  obtain ⟨mid, hts, hmid, hlt, hus⟩ := liesBetween_append.1 h
  have := hts.le
  have := hus.le
  omega

theorem LiesBetween.of_isInfix {lo hi : Nat} {ts us : List Token} (h : LiesBetween lo hi us)
    (hwithin : ts <:+: us) : ∃ lo' hi', hi' ≤ hi ∧ LiesBetween lo' hi' ts := by
  obtain ⟨before, after, rfl⟩ := hwithin
  rw [List.append_assoc] at h
  obtain ⟨lo', -, hrest⟩ := liesBetween_append.1 h
  obtain ⟨hi', hts, hafter⟩ := liesBetween_append.1 hrest
  exact ⟨lo', hi', hafter.le, hts⟩

namespace Token

@[simp] theorem byteLength_nil : byteLength [] = 0 := rfl

@[simp] theorem byteLength_cons (c : Char) (cs : List Char) :
    byteLength (c :: cs) = c.utf8Size + byteLength cs := rfl

@[simp] theorem byteLength_append (cs ds : List Char) :
    byteLength (cs ++ ds) = byteLength cs + byteLength ds := by
  induction cs with
  | nil => simp
  | cons c cs ih => simp [ih, Nat.add_assoc]

theorem byteLength_pos {cs : List Char} (h : cs ≠ []) : 0 < byteLength cs := by
  obtain ⟨c, cs, rfl⟩ := List.exists_cons_of_ne_nil h
  have := c.utf8Size_pos
  simp only [byteLength_cons]
  omega

/-- The number of bytes of a text. -/
theorem byteLength_toList (text : String) : byteLength text.toList = text.utf8ByteSize := by
  have hof : ∀ cs : List Char, byteLength cs = (String.ofList cs).utf8ByteSize := by
    intro cs
    induction cs with
    | nil => simp
    | cons c cs ih =>
        have hsplit : String.ofList (c :: cs) = String.singleton c ++ String.ofList cs := by
          rw [String.singleton_eq_ofList, ← String.ofList_append]
          rfl
        rw [byteLength_cons, ih, hsplit, String.utf8ByteSize_append,
          String.utf8ByteSize_singleton]
  rw [hof, String.ofList_toList]

/-- Whether a character is one of the first 128, which take up one byte each. -/
def IsAscii (c : Char) : Prop :=
  c.toNat < 128

instance (c : Char) : Decidable (IsAscii c) :=
  inferInstanceAs (Decidable (c.toNat < 128))

theorem utf8Size_of_isAscii {c : Char} (h : IsAscii c) : c.utf8Size = 1 := by
  have hval : c.val ≤ 127 := by
    rw [UInt32.le_iff_toNat_le]
    exact Nat.le_of_lt_succ h
  exact if_pos hval

theorem byteLength_of_isAscii {cs : List Char} (h : ∀ c ∈ cs, IsAscii c) :
    byteLength cs = cs.length := by
  induction cs with
  | nil => rfl
  | cons c cs ih =>
      obtain ⟨hc, hcs⟩ := List.forall_mem_cons.1 h
      rw [byteLength_cons, utf8Size_of_isAscii hc, ih hcs, List.length_cons, Nat.add_comm]

theorem isAscii_of_isDigit {c : Char} (h : c.isDigit) : IsAscii c := by
  rw [Char.isDigit_iff_toNat] at h
  exact Nat.lt_of_le_of_lt h.2 (by decide)

theorem isAlpha_iff_toNat {c : Char} :
    c.isAlpha ↔ ('A'.toNat ≤ c.toNat ∧ c.toNat ≤ 'Z'.toNat) ∨
      ('a'.toNat ≤ c.toNat ∧ c.toNat ≤ 'z'.toNat) := by
  change (decide ('A'.val ≤ c.val ∧ c.val ≤ 'Z'.val) ||
    (decide ('a'.val ≤ c.val) && decide (c.val ≤ 'z'.val))) = true ↔ _
  simp only [Bool.or_eq_true, Bool.and_eq_true, decide_eq_true_eq, UInt32.le_iff_toNat_le]
  exact Iff.rfl

theorem isAscii_of_isAlpha {c : Char} (h : c.isAlpha) : IsAscii c := by
  rw [isAlpha_iff_toNat] at h
  have hupper : 'Z'.toNat = 90 := rfl
  have hlower : 'z'.toNat = 122 := rfl
  show c.toNat < 128
  omega

theorem isAscii_of_isSkipped {c : Char} (h : isSkipped c) : IsAscii c := by
  simp only [isSkipped, Bool.or_eq_true, decide_eq_true_eq] at h
  rcases h with (((rfl | rfl) | rfl) | rfl) | rfl <;> decide

theorem isAscii_of_symbolKind? {c : Char} {kind : TokenClass}
    (h : symbolKind? c = some kind) : IsAscii c := by
  unfold symbolKind? at h
  split at h
  iterate 7 decide
  exact nomatch h

theorem isAscii_of_isExponent {cs : List Char} (h : IsExponent cs) : ∀ c ∈ cs, IsAscii c := by
  cases h with
  | none => simp
  | @some c sign digits hc hsign _ hdigits =>
      refine List.forall_mem_cons.2 ⟨?_, List.forall_mem_append.2 ⟨?_, ?_⟩⟩
      · rcases hc with rfl | rfl <;> decide
      · rcases hsign with rfl | rfl | rfl <;> simp [IsAscii]
      · exact fun d hd => isAscii_of_isDigit (hdigits d hd)

theorem isAscii_of_isFraction {cs : List Char} (h : IsFraction cs) : ∀ c ∈ cs, IsAscii c := by
  cases h with
  | none => simp
  | some hdigits =>
      exact List.forall_mem_cons.2
        ⟨by decide, fun d hd => isAscii_of_isDigit (hdigits d hd)⟩

/-- Every token consists of ASCII characters. -/
theorem isAscii_of_longest? {cs lexeme : List Char} {kind : TokenClass}
    (h : longest? cs = some (kind, lexeme)) : ∀ c ∈ lexeme, IsAscii c := by
  obtain ⟨c, -, hsymbol, rfl⟩ | ⟨-, rfl, -⟩ | ⟨-, rfl, hsome⟩ := longest?_eq_some h
  · simpa using isAscii_of_symbolKind? hsymbol
  · refine List.forall_mem_append.2 ⟨fun c hc => ?_, fun c hc => ?_⟩
    · exact isAscii_of_isAlpha (List.all_eq_true.1 List.all_takeWhile c hc)
    · exact isAscii_of_isDigit (digitRun_isDigit hc)
  · obtain ⟨whole, fraction, exponent, hparts, hwhole, hfraction, hexponent, -⟩ :=
      numberRun_eq hsome
    rw [hparts]
    refine List.forall_mem_append.2 ⟨fun c hc => isAscii_of_isDigit (hwhole c hc), ?_⟩
    exact List.forall_mem_append.2
      ⟨isAscii_of_isFraction hfraction, isAscii_of_isExponent hexponent⟩

theorem append_prefix_of_drop {xs ys cs : List Char} (hxs : xs <+: cs)
    (hys : ys <+: cs.drop xs.length) : xs ++ ys <+: cs := by
  obtain ⟨rest, rfl⟩ := hxs
  rw [List.drop_left] at hys
  exact (List.prefix_append_right_inj xs).2 hys

theorem digitRun_isPrefix (cs : List Char) : digitRun cs <+: cs :=
  List.takeWhile_prefix _

theorem withDigits_isPrefix (marker rest : List Char) :
    withDigits marker rest <+: marker ++ rest := by
  simp only [withDigits]
  split
  · exact List.nil_prefix
  · exact (List.prefix_append_right_inj marker).2 (digitRun_isPrefix rest)

theorem exponentRun_isPrefix (cs : List Char) : exponentRun cs <+: cs := by
  cases cs with
  | nil => exact List.nil_prefix
  | cons c rest =>
      simp only [exponentRun]
      split
      · split <;> exact withDigits_isPrefix _ _
      · exact List.nil_prefix

theorem fractionRun_isPrefix (cs : List Char) : fractionRun cs <+: cs := by
  unfold fractionRun
  split
  · exact List.cons_prefix_cons.2 ⟨rfl, digitRun_isPrefix _⟩
  · exact List.nil_prefix

theorem numberRun_isPrefix (cs : List Char) : numberRun cs <+: cs := by
  simp only [numberRun]
  split
  · exact List.nil_prefix
  · exact append_prefix_of_drop
      (append_prefix_of_drop (digitRun_isPrefix cs) (fractionRun_isPrefix _)) (exponentRun_isPrefix _)

theorem nameRun_isPrefix (cs : List Char) : nameRun cs <+: cs := by
  obtain ⟨rest, hrest⟩ := digitRun_isPrefix (cs.dropWhile Char.isAlpha)
  exact ⟨rest, by rw [nameRun, List.append_assoc, hrest, List.takeWhile_append_dropWhile]⟩

/-- A token is not empty, and it is what the characters begin with. -/
theorem longest?_isPrefix {cs lexeme : List Char} {kind : TokenClass}
    (h : longest? cs = some (kind, lexeme)) : lexeme ≠ [] ∧ lexeme <+: cs := by
  obtain ⟨c, hc, -, rfl⟩ | ⟨-, rfl, c, hc, halpha⟩ | ⟨-, rfl, hsome⟩ := longest?_eq_some h
  · obtain ⟨rest, rfl⟩ := List.head?_eq_some_iff.1 hc
    exact ⟨List.cons_ne_nil _ _, rest, rfl⟩
  · obtain ⟨rest, rfl⟩ := List.head?_eq_some_iff.1 hc
    exact ⟨by simp [nameRun, halpha], nameRun_isPrefix _⟩
  · exact ⟨hsome, numberRun_isPrefix cs⟩

/-- Whether a token is the longest one at some place. -/
def IsLongest (t : Token) : Prop :=
  ∃ cs, longest? cs = some (t.kind, t.lexeme.toList)

/-- No token begins with a blank. Only some blanks are ASCII, as tokens are. -/
theorem longest?_of_isBlank {c : Char} (h : Text.isBlank c) (cs : List Char) :
    longest? (c :: cs) = none := by
  by_cases hascii : c.toNat < 128
  · have hcode : c.toNat = 9 ∨ c.toNat = 10 ∨ c.toNat = 11 ∨ c.toNat = 12 ∨ c.toNat = 13 ∨
        c.toNat = 32 := by
      simp only [Text.isBlank, Bool.or_eq_true, Bool.and_eq_true, decide_eq_true_eq] at h
      omega
    rw [← Char.ofNat_toNat c]
    rcases hcode with hcode | hcode | hcode | hcode | hcode | hcode <;> rw [hcode] <;> rfl
  · rw [Option.eq_none_iff_forall_ne_some]
    rintro ⟨kind, lexeme⟩ hlongest
    obtain ⟨hsome, rest, hrest⟩ := longest?_isPrefix hlongest
    obtain ⟨d, lexeme, rfl⟩ := List.exists_cons_of_ne_nil hsome
    obtain rfl : d = c := (List.cons.inj hrest).1
    exact hascii (isAscii_of_longest? hlongest d List.mem_cons_self)

theorem isBlank_of_isSkipped {c : Char} (h : isSkipped c) : Text.isBlank c := by
  simp only [isSkipped, Bool.or_eq_true, decide_eq_true_eq] at h
  rcases h with (((rfl | rfl) | rfl) | rfl) | rfl <;> rfl

theorem longest?_of_isSkipped {c : Char} (h : isSkipped c) (cs : List Char) :
    longest? (c :: cs) = none :=
  longest?_of_isBlank (isBlank_of_isSkipped h) cs

/-- The rest of a token is passed over. -/
theorem scanFrom_pending (cs rest : List Char) (offset : Nat) :
    scanFrom cs.length offset (cs ++ rest) = scanFrom 0 (offset + byteLength cs) rest := by
  induction cs generalizing offset with
  | nil => rfl
  | cons c cs ih =>
      rw [List.length_cons, List.cons_append, scanFrom, ih, byteLength, Nat.add_assoc]

/-- The token of a text at an offset. -/
def placed (offset : Nat) (kind : TokenClass) (lexeme : List Char) : Token :=
  ⟨kind, String.ofList lexeme, ⟨offset, offset + byteLength lexeme⟩⟩

/-- From an offset on, characters are scanned as some tokens up to another offset, where
the rest of the characters is left. -/
inductive Scans : Nat → List Char → List Token → Nat → List Char → Prop where
  | done {offset : Nat} {cs : List Char} : Scans offset cs [] offset cs
  | skip {offset stop : Nat} {c : Char} {cs rest : List Char} {tokens : List Token}
      (hskipped : isSkipped c) (h : Scans (offset + c.utf8Size) cs tokens stop rest) :
      Scans offset (c :: cs) tokens stop rest
  | token {offset stop : Nat} {kind : TokenClass} {lexeme cs rest : List Char}
      {tokens : List Token} (hlongest : longest? (lexeme ++ cs) = some (kind, lexeme))
      (h : Scans (offset + byteLength lexeme) cs tokens stop rest) :
      Scans offset (lexeme ++ cs) (Token.placed offset kind lexeme :: tokens) stop rest

section

variable {offset : Nat}

theorem scanFrom_skip {c : Char} (h : isSkipped c) (cs : List Char) :
    scanFrom 0 offset (c :: cs) = scanFrom 0 (offset + c.utf8Size) cs := by
  rw [scanFrom, if_pos h]

theorem scanFrom_token {kind : TokenClass} {lexeme cs : List Char}
    (h : longest? (lexeme ++ cs) = some (kind, lexeme)) :
    scanFrom 0 offset (lexeme ++ cs) =
      (scanFrom 0 (offset + byteLength lexeme) cs).map (Token.placed offset kind lexeme :: ·) := by
  obtain ⟨c, lexeme', rfl⟩ := List.exists_cons_of_ne_nil (longest?_isPrefix h).1
  have hskipped : ¬ isSkipped c := by
    intro hskipped
    rw [List.cons_append, longest?_of_isSkipped hskipped] at h
    exact nomatch h
  rw [List.cons_append] at h ⊢
  rw [scanFrom, if_neg hskipped, h]
  simp only [List.length_cons, Nat.add_sub_cancel, scanFrom_pending, byteLength_cons,
    Nat.add_assoc]
  cases scanFrom 0 (offset + (c.utf8Size + byteLength lexeme')) cs <;> rfl

theorem scanFrom_none {c : Char} {cs : List Char} (hskipped : isSkipped c = false)
    (h : longest? (c :: cs) = none) :
    scanFrom 0 offset (c :: cs) =
      .error ⟨[⟨offset, offset + c.utf8Size⟩], .unknownText (String.singleton c)⟩ := by
  rw [scanFrom, if_neg (by simp [hskipped]), h]

/-- What was scanned comes before what is scanned from there on. -/
theorem Scans.scanFrom_eq_map {stop : Nat} {cs rest : List Char} {tokens : List Token}
    (h : Scans offset cs tokens stop rest) :
    scanFrom 0 offset cs = (scanFrom 0 stop rest).map (tokens ++ ·) := by
  induction h with
  | @done offset cs => cases scanFrom 0 offset cs <;> rfl
  | skip hskipped _ ih => rw [scanFrom_skip hskipped, ih]
  | @token offset stop _ _ _ rest _ hlongest _ ih =>
      rw [scanFrom_token hlongest, ih]
      cases scanFrom 0 stop rest <;> rfl

/-- Characters that were scanned to their end. -/
theorem Scans.scanFrom_eq {stop : Nat} {cs : List Char} {tokens : List Token}
    (h : Scans offset cs tokens stop []) : scanFrom 0 offset cs = .ok tokens := by
  rw [h.scanFrom_eq_map, scanFrom, Except.map, List.append_nil]

/-- Blanks in a row are passed over. -/
theorem Scans.skip_all {stop : Nat} {blanks cs rest : List Char} {tokens : List Token}
    (hblanks : ∀ c ∈ blanks, isSkipped c)
    (h : Scans (offset + byteLength blanks) cs tokens stop rest) :
    Scans offset (blanks ++ cs) tokens stop rest := by
  induction blanks generalizing offset with
  | nil => exact h
  | cons c blanks ih =>
      obtain ⟨hc, hblanks⟩ := List.forall_mem_cons.1 hblanks
      rw [byteLength_cons, ← Nat.add_assoc] at h
      exact .skip hc (ih hblanks h)

/-- Scanning goes on to the end, or to a character that begins no token. -/
theorem exists_scans (offset : Nat) (cs : List Char) :
    ∃ tokens stop rest, Scans offset cs tokens stop rest ∧
      (rest = [] ∧ scanFrom 0 offset cs = .ok tokens ∨
        ∃ c cs', rest = c :: cs' ∧ isSkipped c = false ∧ longest? rest = none ∧
          scanFrom 0 offset cs =
            .error ⟨[⟨stop, stop + c.utf8Size⟩], .unknownText (String.singleton c)⟩) := by
  -- a token may be long, so the induction is on the number of characters
  induction hlength : cs.length using Nat.strongRecOn generalizing offset cs with
  | _ n ih =>
    cases cs with
    | nil => exact ⟨[], offset, [], .done, .inl ⟨rfl, rfl⟩⟩
    | cons c cs =>
        by_cases hskipped : isSkipped c
        · obtain ⟨tokens, stop, rest, hscans, hend⟩ :=
            ih cs.length (by simp [← hlength]) (offset + c.utf8Size) cs rfl
          refine ⟨tokens, stop, rest, .skip hskipped hscans, ?_⟩
          rwa [scanFrom_skip hskipped]
        · cases hlongest : longest? (c :: cs) with
          | none =>
              have hkept : isSkipped c = false := by simpa using hskipped
              exact ⟨[], offset, c :: cs, .done,
                .inr ⟨c, cs, rfl, hkept, hlongest, scanFrom_none hkept hlongest⟩⟩
          | some found =>
              obtain ⟨kind, lexeme⟩ := found
              obtain ⟨hsome, cs', happend⟩ := longest?_isPrefix hlongest
              rw [← happend] at hlongest hlength ⊢
              have hlt : cs'.length < n := by
                have := List.length_pos_iff.2 hsome
                rw [← hlength, List.length_append]
                omega
              obtain ⟨tokens, stop, rest, hscans, hend⟩ :=
                ih _ hlt (offset + byteLength lexeme) cs' rfl
              refine ⟨_, stop, rest, .token hlongest hscans, ?_⟩
              rw [scanFrom_token hlongest]
              obtain ⟨hrest, hok⟩ | ⟨d, ds, hrest, hkept, hnone, herror⟩ := hend
              · exact .inl ⟨hrest, by rw [hok]; rfl⟩
              · exact .inr ⟨d, ds, hrest, hkept, hnone, by rw [herror]; rfl⟩

variable {stop : Nat} {cs rest : List Char} {tokens : List Token}

theorem Scans.liesBetween (h : Scans offset cs tokens stop rest) :
    LiesBetween offset stop tokens := by
  induction h with
  | done => exact Nat.le_refl _
  | skip _ _ ih => exact ih.of_le (Nat.le_add_right ..)
  | token hlongest _ ih =>
      exact ⟨Nat.le_refl _, Nat.lt_add_of_pos_right (byteLength_pos (longest?_isPrefix hlongest).1),
        ih⟩

/-- What was passed is ASCII, so that its bytes and characters are equal in number. -/
theorem Scans.passed (h : Scans offset cs tokens stop rest) :
    ∃ passed, cs = passed ++ rest ∧ (∀ c ∈ passed, IsAscii c) ∧
      stop = offset + passed.length := by
  induction h with
  | done => exact ⟨[], rfl, by simp, rfl⟩
  | @skip offset _ c _ _ _ hskipped _ ih =>
      obtain ⟨passed, rfl, hascii, rfl⟩ := ih
      have hc : IsAscii c := isAscii_of_isSkipped hskipped
      refine ⟨c :: passed, rfl, List.forall_mem_cons.2 ⟨hc, hascii⟩, ?_⟩
      rw [utf8Size_of_isAscii hc, List.length_cons]
      omega
  | @token offset _ kind lexeme _ _ _ hlongest _ ih =>
      obtain ⟨passed, rfl, hascii, rfl⟩ := ih
      have hlexeme := isAscii_of_longest? hlongest
      refine ⟨lexeme ++ passed, by simp, List.forall_mem_append.2 ⟨hlexeme, hascii⟩, ?_⟩
      rw [byteLength_of_isAscii hlexeme, List.length_append, Nat.add_assoc]

/-- What is scanned to the end is all of the text. -/
theorem Scans.stop_eq (h : Scans offset cs tokens stop []) : stop = offset + byteLength cs := by
  obtain ⟨passed, rfl, hascii, rfl⟩ := h.passed
  rw [List.append_nil, byteLength_of_isAscii hascii]

/-- Where there are tokens there is more than blanks. -/
theorem Scans.exists_notBlank (h : Scans offset cs tokens stop rest) (hsome : tokens ≠ []) :
    ∃ c ∈ cs, Text.isBlank c = false := by
  induction h with
  | done => exact absurd rfl hsome
  | skip _ _ ih =>
      obtain ⟨c, hc, hblank⟩ := ih hsome
      exact ⟨c, List.mem_cons_of_mem _ hc, hblank⟩
  | @token _ _ _ lexeme cs _ _ hlongest _ _ =>
      cases lexeme with
      | nil => exact absurd rfl (longest?_isPrefix hlongest).1
      | cons c lexeme =>
          refine ⟨c, List.mem_cons_self, ?_⟩
          rw [Bool.eq_false_iff]
          intro hblank
          exact nomatch (longest?_of_isBlank hblank (lexeme ++ cs)).symm.trans hlongest

/-- Scanning came past the start of every token. -/
theorem Scans.to_start (h : Scans offset cs tokens stop rest) {t : Token} (ht : t ∈ tokens) :
    ∃ before rest', Scans offset cs before t.span.start rest' := by
  induction h with
  | done => simp at ht
  | skip hskipped _ ih =>
      obtain ⟨before, rest', hbefore⟩ := ih ht
      exact ⟨before, rest', .skip hskipped hbefore⟩
  | token hlongest _ ih =>
      rcases List.mem_cons.1 ht with rfl | ht
      · exact ⟨[], _, .done⟩
      · obtain ⟨before, rest', hbefore⟩ := ih ht
        exact ⟨_, rest', .token hlongest hbefore⟩

end

section

variable {text : String} {tokens : List Token}

theorem scans_of_scan (h : scan text = .ok tokens) :
    ∃ stop, Scans 0 text.toList tokens stop [] := by
  obtain ⟨found, stop, rest, hscans, ⟨rfl, hok⟩ | ⟨c, cs, -, -, -, herror⟩⟩ :=
    exists_scans 0 text.toList
  · obtain rfl := Except.ok.inj (h.symm.trans hok)
    exact ⟨stop, hscans⟩
  · exact nomatch h.symm.trans herror

theorem scans_of_scan_error {fault : Fault} (h : scan text = .error fault) :
    ∃ tokens stop c rest, Scans 0 text.toList tokens stop (c :: rest) ∧ isSkipped c = false ∧
      longest? (c :: rest) = none ∧
        fault = ⟨[⟨stop, stop + c.utf8Size⟩], .unknownText (String.singleton c)⟩ := by
  obtain ⟨found, stop, rest, hscans, ⟨-, hok⟩ | ⟨c, cs, rfl, hkept, hnone, herror⟩⟩ :=
    exists_scans 0 text.toList
  · exact nomatch h.symm.trans hok
  · exact ⟨found, stop, c, cs, hscans, hkept, hnone, Except.error.inj (h.symm.trans herror)⟩

/-- The tokens of a text lie in it. -/
theorem liesBetween_of_scan (h : scan text = .ok tokens) :
    LiesBetween 0 text.utf8ByteSize tokens := by
  obtain ⟨stop, hscans⟩ := scans_of_scan h
  have hstop : stop = text.utf8ByteSize := by
    rw [hscans.stop_eq, Nat.zero_add, byteLength_toList]
  exact hstop ▸ hscans.liesBetween

end

end Token

end FormulaGrading
