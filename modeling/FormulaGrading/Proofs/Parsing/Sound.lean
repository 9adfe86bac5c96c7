import FormulaGrading.Proofs.Parsing.Follow
import FormulaGrading.Proofs.Parsing.Outcome

/-!
Every reading of a formula yields what the grammar derives, within the descents that are
left, or ends in a fault that is to be expected. This goes by induction on the number of
descents, since a level only uses the level below it; climbing goes by induction on the
number of rounds, and its invariant is that the left operand is a phrase which the next
operation fits.
-/

namespace FormulaGrading.Level

open Reading

/-- Where an operand is due: at the beginning of a formula, or where the next token begins
an operand. -/
structure OperandDue (c : Cursor) : Prop where
  behind : c.kindBehind?.any TokenClass.endsOperand = false
  ahead : c.after ≠ []
  opens : opensFormula c.kindBehind? ∨ (firstKind? c.after).any TokenClass.opensOperand

/-- An operand was read that may be the first one of a phrase with operations after it. -/
def FirstOperand (declared : List String) (n : Nat) (c : Cursor) (e : Formula)
    (c' : Cursor) : Prop :=
  ∃ p : Precedence, (∀ later, Derived declared n later p c e c') ∧
    Precedence.sign.rank ≤ p.rank ∧ Fits p c'.after

/-- A phrase that began at the first place and had been read up to the second one was
extended by all operations that bind tightly enough. -/
structure Climbed (declared : List String) (first n : Nat) (least : Precedence)
    (start c : Cursor) (e : Formula) (c' : Cursor) : Prop where
  derived : Derived declared first (n + 1) least start e c'
  stops : Stops least c'.after
  faultless : Faultless declared c c'
  length_le : c'.after.length ≤ c.after.length

/-- A group was read one level further down. -/
def Grouped (declared : List String) (n : Nat) (c : Cursor) (x : Enclosed)
    (c' : Cursor) : Prop :=
  ∃ m opening closing ts, n = m + 1 ∧ c.after = opening :: ts ∧
    opening.kind = .openBracket ∧ closing.kind = .closeBracket ∧
    DerivesWithin declared m (m + 1) .loosest ts x.inner (closing :: c'.after) ∧
    x.outer = opening.span.join closing.span ∧ c'.tokens = c.tokens

/-- What the readings of a level promise that can descend a number of times. -/
structure Reads (declared : List String) (n : Nat) (l : Level) : Prop where
  operand : ∀ c, Ends (FirstOperand declared n c)
    (fun fault => OperandDue c → Blames declared c fault) (l.operand c)
  climb : ∀ start c first p lhs least, Derived declared first (n + 1) p start lhs c →
    Fits p c.after → least.rank ≤ p.rank →
      Ends (Climbed declared first n least start c) (Blames declared c)
        (l.climb lhs least c)
  group : ∀ c, Ends (Grouped declared n c)
    (fun fault => firstKind? c.after = some .openBracket → Blames declared c fault)
    (l.group c)

theorem OperandDue.opensAtom_of_endsOperand {c : Cursor} (h : OperandDue c)
    (hends : c.kindBehind?.any TokenClass.endsOperand) :
    (firstKind? c.after).any TokenClass.opensAtom := by
  simp [h.behind] at hends

section

variable {declared : List String} {n : Nat} {c : Cursor}

theorem Reads.formula {l : Level} (h : Reads declared n l) (c : Cursor) :
    Ends (fun e c' => Derived declared n (n + 1) .loosest c e c' ∧
        nextOperation? c'.after = none)
      (fun fault => OperandDue c → Blames declared c fault) (l.formula c) := by
  refine ends_bind _ (h.operand c) fun lhs c₁ ⟨p, hlhs, _, hfits⟩ => ?_
  refine (h.climb c c₁ n p lhs .loosest (hlhs (n + 1)) hfits (Nat.zero_le _)).mono ?_ ?_
  · intro e c' hclimbed
    exact ⟨hclimbed.derived, hclimbed.stops.fits.nextOperation?_eq_none⟩
  · intro fault hblames hdue
    exact hblames.of_faultless ((hlhs 0).faultless hdue.opensAtom_of_endsOperand)

/-- A reading further down ends as promised if the level below does, and if a fault of the
depth is among the bad ones. -/
theorem ends_descend {α : Type} {good : α → Cursor → Prop} {bad : Fault → Prop}
    {f : Level → Reading α} (hdeep : bad ⟨[c.span], .tooDeep nestingLimit⟩)
    (hbelow : ∀ m, n = m + 1 → Ends good bad (f (ofDescents declared m) c)) :
    Ends good bad (descend (below? declared n) f c) := by
  cases n with
  | zero => exact hdeep
  | succ m => exact hbelow m rfl

/-- Behind a formula there is nothing, or a closing bracket. -/
theorem eq_nil_or_closeBracket {ts : List Token} (h : nextOperation? ts = none) :
    ts = [] ∨ ∃ t rest, ts = t :: rest ∧ t.kind = .closeBracket := by
  cases ts with
  | nil => exact .inl rfl
  | cons t rest =>
      refine .inr ⟨t, rest, rfl, ?_⟩
      cases hk : t.kind <;>
        simp_all [nextOperation?, TokenClass.operation?, TokenClass.opensAtom]

end

/-- An operation that a phrase fits joins it with a right operand into a phrase of the
layer of that operation. -/
theorem derived_combine {declared : List String} {first n : Nat} {p : Precedence}
    {start c c' : Cursor} {op : OperatorMark} {l r : Formula}
    (hl : Derived declared first (n + 1) p start l c) (hfits : Fits p c.after)
    (hop : c.operator? = some op)
    (hr : Derived declared n n (rightLayer op) (c.behindOperator op) r c') :
    Derived declared first (n + 1) op.precedence start (l.combine op r) c' := by
  have hleft := (hl.loosen (hfits _ (nextOperation?_of_operator? hop))).within
  obtain ⟨ts, last, hpassed, hbefore, -, -⟩ := hl.passed
  have hlast : c.behind? = some last := by simp [Cursor.behind?, hbefore]
  have hrtokens := hr.tokens
  have hright := hr.within
  obtain ⟨t, rest, hafter, ⟨hkind, hmark⟩ | ⟨-, hmark, hgap⟩⟩ := eq_cons_of_operator? hop
  · rw [hmark] at hrtokens hright ⊢
    rw [hafter] at hleft
    simp only [Cursor.behindOperator, rightLayer, Bool.false_eq_true, if_false, hafter,
      List.tail_cons] at hrtokens hright
    refine ⟨.binary hkind hleft hright, hrtokens.trans ?_⟩
    rw [← hl.tokens]
    simp [Cursor.tokens, hafter]
  · rw [hgap last hlast] at hmark
    rw [hmark] at hleft hrtokens hright ⊢
    simp only [Cursor.behindOperator, rightLayer, if_true] at hrtokens hright
    rw [hafter] at hleft hright hpassed
    exact ⟨.adjacent hpassed hleft hright, hrtokens.trans hl.tokens⟩

/-! ### Rounds of a climb -/

/-- The operation that was seen to come next with all of its right operand. -/
def takeOperand (declared : List String) (below : Option Level) (op : OperatorMark) :
    Reading Formula := do
  let rhs ← readRightOperand declared below op
  completeRight below op (← remaining) rhs

theorem looser_or_tight (least : Precedence) (c : Cursor) :
    (∀ op, c.operator? = some op → op.precedence.looser least) ∨
      ∃ op, c.operator? = some op ∧ op.precedence.looser least = false := by
  cases c.operator? with
  | none => exact .inl nofun
  | some op => cases h : op.precedence.looser least <;> simp [h]

section

variable {declared : List String} {below : Option Level} {least : Precedence} {lhs : Formula}
  {c : Cursor}

/-- A climb takes in nothing where no operation binds tightly enough. -/
theorem climbRounds_of_stop (rounds : Nat)
    (hstop : ∀ op, c.operator? = some op → op.precedence.looser least) :
    climbRounds declared below least rounds lhs c = (.ok lhs, c) := by
  cases rounds with
  | zero => rfl
  | succ rounds =>
      rw [climbRounds, look_bind]
      cases hnext : c.operator? with
      | none => rfl
      | some op => simp [hstop op hnext]

/-- A round of a climb takes in an operation that binds tightly enough. -/
theorem climbRounds_succ {rounds : Nat} {op : OperatorMark} (hnext : c.operator? = some op)
    (htight : op.precedence.looser least = false) :
    climbRounds declared below least (rounds + 1) lhs c =
      (takeOperand declared below op >>= fun rhs =>
        climbRounds declared below least rounds (lhs.combine op rhs)) c := by
  rw [climbRounds, look_bind, hnext, takeOperand]
  simp only [htight, Bool.false_eq_true, if_false, bind_apply]
  rcases readRightOperand declared below op c with ⟨fault | rhs, c'⟩ <;> rfl

end

/-- A climb that does not stop where it begins passes some token. -/
theorem Climbed.length_lt {declared : List String} {first n : Nat} {least : Precedence}
    {start c c' : Cursor} {e : Formula}
    (h : Climbed declared first n least start c e c') (htokens : c.tokens = start.tokens)
    (hgoes : ¬ Stops least c.after) : c'.after.length < c.after.length := by
  refine Nat.lt_of_le_of_ne h.length_le fun heq => hgoes ?_
  have happend : c'.before.reverse ++ c'.after = c.before.reverse ++ c.after :=
    h.derived.tokens.trans htokens.symm
  rw [← (List.append_inj' happend heq).2]
  exact h.stops

section

variable {declared : List String} {n : Nat} {before rest : List Token} {t : Token}

theorem ends_readNumber_cons (hkind : t.kind = .number) :
    Ends (fun e c' => ∀ later, Derived declared n later .atom ⟨before, t :: rest⟩ e c')
      (Blames declared ⟨before, t :: rest⟩) (number ⟨before, t :: rest⟩) := by
  rw [number, bind_of_ok (attempt_token_cons hkind)]
  cases hvalue : Decimal.readUnsigned? t.lexeme.toList with
  | none =>
      intro hc
      have := hc.readable t (by simp) hkind
      simp [hvalue] at this
  | some value =>
      exact fun later => ⟨.number hkind hvalue, Cursor.tokens_pass ..⟩

variable (hbelow : ∀ m, n = m + 1 → Reads declared m (ofDescents declared m))

include hbelow

theorem ends_readGroup_cons (hopen : t.kind = .openBracket) :
    Ends (Grouped declared n ⟨before, t :: rest⟩) (Blames declared ⟨before, t :: rest⟩)
      (readGroup (below? declared n) ⟨before, t :: rest⟩) := by
  have hpass : Faultless declared ⟨before, t :: rest⟩ ⟨t :: before, rest⟩ :=
    faultless_cons (localFault?_openBracket hopen)
  -- a bracket that nothing follows would stay open
  have hempty : rest = [] → ∀ fault, Blames declared ⟨before, t :: rest⟩ fault := by
    rintro rfl fault hc
    obtain ⟨opened, hbalanced⟩ := hc.balanced
    rw [balancedAfter_cons_open hopen, balancedAfter_nil] at hbalanced
    omega
  rw [readGroup, bind_of_ok (attempt_token_cons hopen)]
  refine ends_bind
    (fun e c' => ∃ m, n = m + 1 ∧
      Derived declared m (m + 1) .loosest ⟨t :: before, rest⟩ e c' ∧
      nextOperation? c'.after = none)
    (ends_descend ?_ fun m hm => ?_) ?_
  · by_cases hrest : rest = []
    · exact hempty hrest _
    · exact (blames_tooDeep hrest).of_faultless hpass
  · refine ((hbelow m hm).formula _).mono (fun e c' h => ⟨m, hm, h⟩) ?_
    intro fault hblames
    by_cases hrest : rest = []
    · exact hempty hrest fault
    · refine (hblames ⟨?_, hrest, .inl ?_⟩).of_faultless hpass <;>
        simp [hopen, opensFormula, TokenClass.endsOperand]
  · rintro e ⟨before', after'⟩ ⟨m, hm, hderived, hnext⟩
    obtain rfl | ⟨closing, rest', rfl, hclose⟩ := eq_nil_or_closeBracket hnext
    · intro hc
      obtain ⟨opened, hbalanced⟩ := hc.balanced
      have := hderived.within.derives.balancedAfter_iff.1
        ((balancedAfter_cons_open hopen).1 hbalanced)
      simp at this
    · have hclosing : orFault (attempt (token .closeBracket))
          ⟨[t.span], .unclosedBracket⟩ ⟨before', closing :: rest'⟩ =
          (.ok closing, ⟨closing :: before', rest'⟩) := by
        rw [orFault, attempt_token_cons hclose]
      rw [bind_of_ok hclosing]
      refine ⟨m, t, closing, rest, hm, rfl, hopen, hclose, hderived.within, rfl, ?_⟩
      have htokens := hderived.tokens
      simp only [Cursor.tokens] at htokens ⊢
      simpa using htokens

theorem ends_readCall_cons (hkind : t.kind = .name) (hname : isFunctionName t.lexeme) :
    Ends (fun e c' => ∀ later, Derived declared n later .atom ⟨before, t :: rest⟩ e c')
      (Blames declared ⟨before, t :: rest⟩)
      (readCall (below? declared n) ⟨before, t :: rest⟩) := by
  rw [readCall, bind_of_ok (symbol_cons hkind)]
  by_cases hopen : firstKind? rest = some .openBracket
  · have hpass : Faultless declared ⟨before, t :: rest⟩ ⟨t :: before, rest⟩ := by
      apply faultless_cons
      rw [localFault?_name hkind]
      simp [nameFault?, hname, hopen]
    have hcurrent : Cursor.currentIs ⟨t :: before, rest⟩ (· == .openBracket) = true := by
      simp [Cursor.currentIs_eq, hopen]
    simp only [hname, look_bind, hcurrent, Bool.not_true, Bool.false_eq_true, if_false]
    have hrest : rest ≠ [] := by
      rintro rfl
      simp at hopen
    refine ends_bind
      (fun x c' => ∃ m, n = m + 1 ∧ Grouped declared m ⟨t :: before, rest⟩ x c')
      (ends_descend ((blames_tooDeep hrest).of_faultless hpass) fun m hm => ?_) ?_
    · refine ((hbelow m hm).group _).mono (fun x c' h => ⟨m, hm, h⟩) ?_
      exact fun fault hblames => (hblames hopen).of_faultless hpass
    · rintro x c' ⟨m, rfl, k, opening, closing, ts, rfl, hrest, hopen', hclose, hwithin,
        houter, htokens⟩ later
      simp only at hrest
      subst hrest
      refine ⟨?_, htokens.trans (Cursor.tokens_pass ..)⟩
      rw [houter]
      exact .call hkind hname hopen' hclose hwithin
  · have hcurrent : Cursor.currentIs ⟨t :: before, rest⟩ (· == .openBracket) = false := by
      rw [Cursor.currentIs_eq]
      cases hnext : firstKind? rest with
      | none => rfl
      | some kind => simpa [hnext] using hopen
    simp only [hname, look_bind, hcurrent, Bool.not_true, Bool.not_false,
      Bool.false_eq_true, if_false, if_true]
    apply blames_cons
    rw [localFault?_name hkind]
    simp [nameFault?, hname, hopen]

theorem ends_readNamed_cons (hkind : t.kind = .name) :
    Ends (fun e c' => ∀ later, Derived declared n later .atom ⟨before, t :: rest⟩ e c')
      (Blames declared ⟨before, t :: rest⟩)
      (readNamed declared (below? declared n) t ⟨before, t :: rest⟩) := by
  cases hname : isFunctionName t.lexeme with
  | true =>
      rw [readNamed, hname]
      exact ends_attempt.2 (ends_readCall_cons hbelow hkind hname)
  | false =>
      have hread : readNamed declared (below? declared n) t ⟨before, t :: rest⟩ =
          (if firstKind? rest == some .openBracket && !multipliesGroup declared t.lexeme then
            failHere (.noSuchFunction t.lexeme (RealFunction.similarNames t.lexeme))
          else do
            let symbol ← attempt symbol
            pure (.symbol symbol) : Reading Formula) ⟨before, t :: rest⟩ := by
        rw [readNamed, hname]
        cases rest <;> rfl
      rw [hread]
      split
      next hgroup =>
        apply blames_cons
        rw [localFault?_name hkind]
        simp_all [nameFault?]
      next hgroup =>
        rw [bind_of_ok (attempt_of_ok (symbol_cons hkind))]
        refine fun later => ⟨.symbol hkind hname fun hopen => ?_, Cursor.tokens_pass ..⟩
        simpa [hopen] using hgroup

theorem ends_readAtom_cons (hatom : t.kind.opensAtom) :
    Ends (fun x c' => ∀ later,
        Derived declared n later .atom ⟨before, t :: rest⟩ x.inner c')
      (Blames declared ⟨before, t :: rest⟩)
      (readAtom declared (below? declared n) ⟨before, t :: rest⟩) := by
  rw [readAtom, look_bind]
  simp only [Cursor.here?, List.head?_cons]
  cases hkind : t.kind with
  | number =>
      exact ends_map.2 (ends_attempt.2 (ends_readNumber_cons hkind))
  | name => exact ends_map.2 (ends_readNamed_cons hbelow hkind)
  | openBracket =>
      refine ends_attempt.2 ((ends_readGroup_cons hbelow hkind).mono ?_ fun _ => id)
      rintro x c' ⟨m, opening, closing, ts, rfl, hafter, hopen, hclose, hwithin, -, htokens⟩
        later
      refine ⟨?_, htokens⟩
      rw [hafter]
      exact .group hopen hclose hwithin
  | _ => simp [hkind, TokenClass.opensAtom] at hatom

theorem ends_readSigned_cons {sign : Sign} (hsign : t.kind.sign? = some sign) :
    Ends (FirstOperand declared n ⟨before, t :: rest⟩)
      (fun fault => (Cursor.kindBehind? ⟨before, t :: rest⟩).any TokenClass.endsOperand = false →
        Blames declared ⟨before, t :: rest⟩ fault)
      (readSigned (below? declared n) ⟨before, t :: rest⟩) := by
  obtain ⟨op, hop, hmay⟩ := TokenClass.operation?_of_sign? hsign
  have hmark : attempt signMark ⟨before, t :: rest⟩ =
      (.ok ⟨sign, t.span⟩, ⟨t :: before, rest⟩) :=
    attempt_expecting_cons (by simp [hsign])
  rw [readSigned, bind_of_ok hmark, look_bind, Cursor.currentIs_eq]
  by_cases hopens : (firstKind? rest).any TokenClass.opensOperand
  · have hpass : Faultless declared ⟨before, t :: rest⟩ ⟨t :: before, rest⟩ :=
      faultless_cons (localFault?_eq_none_of_followed hop hopens (.inr hmay))
    have hdue : OperandDue ⟨t :: before, rest⟩ := by
      refine ⟨?_, ?_, .inr hopens⟩
      · simp [TokenClass.endsOperand_of_operation? hop]
      · rintro rfl
        simp at hopens
    simp only [hopens, Bool.not_true, Bool.false_eq_true, if_false]
    refine ends_bind
      (fun e c' => ∃ m, n = m + 1 ∧ Derived declared m (m + 1) .sign ⟨t :: before, rest⟩ e c' ∧
        Stops .sign c'.after)
      (ends_descend (fun _ => (blames_tooDeep hdue.ahead).of_faultless hpass)
        fun m hm => ?_) ?_
    · refine ends_bind _ (((hbelow m hm).operand _).mono (fun _ _ => id) fun fault h _ =>
        (h hdue).of_faultless hpass) fun lhs c₁ ⟨p, hlhs, hp, hfits⟩ => ?_
      refine ((hbelow m hm).climb _ c₁ m p lhs sign.precedence (hlhs (m + 1)) hfits hp).mono
        (fun e c' h => ⟨m, hm, h.derived, h.stops⟩) fun fault h _ => ?_
      have hlhs' := (hlhs 0).faultless
        hdue.opensAtom_of_endsOperand
      exact h.of_faultless (hpass.trans hlhs')
    · rintro e c' ⟨m, rfl, hderived, hstops⟩
      refine ⟨.sign, fun later => ⟨?_, ?_⟩, Nat.le_refl _, hstops.fits⟩
      · exact .signed hsign hderived.within
      · exact hderived.tokens.trans (Cursor.tokens_pass ..)
  · simp only [hopens, Bool.not_false, if_true]
    intro hbehind
    apply blames_cons
    rw [localFault?_of_operation hop, operatorFault?]
    simp [hbehind, hmay, hopens]

theorem ends_readOperand (c : Cursor) :
    Ends (FirstOperand declared n c) (fun fault => OperandDue c → Blames declared c fault)
      (readOperand declared (below? declared n) c) := by
  obtain ⟨before, after⟩ := c
  rw [readOperand, look_bind]
  cases after with
  | nil => exact fun hdue => absurd rfl hdue.ahead
  | cons t rest =>
      simp only [Cursor.here?, List.head?_cons]
      -- a token that begins no operand is at fault where a formula begins
      have hstray : ∀ cause, t.kind.opensOperand = false →
          (opensFormula (Cursor.kindBehind? ⟨before, t :: rest⟩) →
            localFault? declared (Cursor.kindBehind? ⟨before, t :: rest⟩) t
              (firstKind? rest) = some ⟨[t.span], cause⟩) →
          OperandDue ⟨before, t :: rest⟩ →
          Blames declared ⟨before, t :: rest⟩ ⟨[t.span], cause⟩ := by
        intro cause hopens hlocal hdue
        refine blames_cons (hlocal (hdue.opens.resolve_right ?_))
        simp [hopens]
      have hoperation : ∀ op, t.kind.operation? = some op → t.kind.mayBeSign = false →
          OperandDue ⟨before, t :: rest⟩ →
          Blames declared ⟨before, t :: rest⟩ ⟨[t.span], .missingOperand op⟩ := by
        intro op hop hmay hdue
        refine hstray _ ?_ (fun hformula => ?_) hdue
        · cases hk : t.kind <;> simp_all [TokenClass.operation?, TokenClass.opensOperand,
            TokenClass.opensAtom]
        · rw [localFault?_of_operation hop, operatorFault?]
          simp [hdue.behind, hmay, hformula]
      have hsigned : ∀ sign, t.kind.sign? = some sign →
          Ends (FirstOperand declared n ⟨before, t :: rest⟩)
            (fun fault => OperandDue ⟨before, t :: rest⟩ →
              Blames declared ⟨before, t :: rest⟩ fault)
            (readSigned (below? declared n) ⟨before, t :: rest⟩) := fun sign hsign =>
        (ends_readSigned_cons hbelow hsign).mono (fun _ _ => id) fun _ h hdue => h hdue.behind
      have hatom : t.kind.opensAtom → Ends (FirstOperand declared n ⟨before, t :: rest⟩)
          (fun fault => OperandDue ⟨before, t :: rest⟩ →
            Blames declared ⟨before, t :: rest⟩ fault)
          ((Enclosed.inner <$> attempt (readAtom declared (below? declared n)))
            ⟨before, t :: rest⟩) := by
        intro hatom
        refine ends_map.2 (ends_attempt.2 ((ends_readAtom_cons hbelow hatom).mono ?_ ?_))
        · intro x c' h
          exact ⟨.atom, h, by decide, fun op _ => by cases op <;> decide⟩
        · exact fun fault h _ => h
      cases hkind : t.kind with
      | add => exact hsigned .plus (by rw [hkind]; rfl)
      | subtract => exact hsigned .minus (by rw [hkind]; rfl)
      | multiply => exact hoperation .multiply (by rw [hkind]; rfl) (by rw [hkind]; rfl)
      | divide => exact hoperation .divide (by rw [hkind]; rfl) (by rw [hkind]; rfl)
      | power => exact hoperation .power (by rw [hkind]; rfl) (by rw [hkind]; rfl)
      | closeBracket =>
          refine hstray .missingFormula (by rw [hkind]; rfl) fun hformula => ?_
          simp [localFault?, hkind, hformula]
      | number => exact hatom (by rw [hkind]; rfl)
      | name => exact hatom (by rw [hkind]; rfl)
      | openBracket => exact hatom (by rw [hkind]; rfl)

theorem ends_readGroup (c : Cursor) :
    Ends (Grouped declared n c)
      (fun fault => firstKind? c.after = some .openBracket → Blames declared c fault)
      (readGroup (below? declared n) c) := by
  obtain ⟨before, after⟩ := c
  by_cases hopen : firstKind? after = some .openBracket
  · cases after with
    | nil => simp at hopen
    | cons t rest =>
        exact (ends_readGroup_cons hbelow (by simpa using hopen)).mono (fun _ _ => id)
          fun fault h _ => h
  · obtain ⟨fault, hfault⟩ : ∃ fault, attempt (token .openBracket) ⟨before, after⟩ =
        (.error fault, ⟨before, after⟩) := by
      cases after with
      | nil => exact ⟨_, rfl⟩
      | cons t rest =>
          have hkind : t.kind ≠ .openBracket := by simpa using hopen
          refine ⟨⟨[t.span], .strayToken [.openBracket] t.kind⟩, ?_⟩
          simp [attempt_apply, token, expecting, bind_apply, hkind]
    rw [readGroup, bind_of_error hfault]
    exact fun h => absurd h hopen

/-- The right operand as far as no operation is taken into it, which begins where the
operation ends. Where a left operand ends in front of the operation, faults are met in order. -/
theorem ends_readRightOperand {c : Cursor} {op : OperatorMark}
    (hop : c.operator? = some op) :
    Ends (fun r c' => ∃ p, Derived declared n n p (c.behindOperator op) r c' ∧
        (rightLayer op).rank ≤ p.rank ∧ Fits p c'.after ∧
        (c.kindBehind?.any TokenClass.endsOperand → Faultless declared c c'))
      (fun fault => c.kindBehind?.any TokenClass.endsOperand → Blames declared c fault)
      (readRightOperand declared (below? declared n) op c) := by
  obtain ⟨t, rest, hafter, hcase⟩ := eq_cons_of_operator? hop
  obtain ⟨before, after⟩ := c
  obtain ⟨operation, implicit, span⟩ := op
  obtain rfl : after = t :: rest := hafter
  -- an operation with a token may be followed by signs, one without a token begins an atom
  rcases hcase with ⟨hkind, hmark⟩ | ⟨hatom, hmark, -⟩
  · obtain ⟨-, rfl, rfl⟩ := OperatorMark.mk.inj hmark
    clear hmark
    rw [readRightOperand]
    have hread : attempt operatorMark ⟨before, t :: rest⟩ =
        (.ok ⟨operation, false, t.span⟩, ⟨t :: before, rest⟩) :=
      attempt_expecting_cons (by simp [hkind])
    have hfollowing : Cursor.here? ⟨t :: before, rest⟩ = rest.head? := rfl
    simp only [Bool.false_eq_true, if_false]
    rw [bind_of_ok hread, look_bind, hfollowing]
    change Ends _ _ ((if ((firstKind? rest).map TokenClass.opensOperand).getD false then
      readOperand declared (below? declared n)
      else fail (danglingFault ⟨operation, false, t.span⟩ (firstKind? rest))) _)
    by_cases hopens : (firstKind? rest).any TokenClass.opensOperand
    · have hpass (hends : (Cursor.kindBehind? ⟨before, t :: rest⟩).any
          TokenClass.endsOperand) :
          Faultless declared ⟨before, t :: rest⟩ ⟨t :: before, rest⟩ :=
        faultless_cons (localFault?_eq_none_of_followed hkind hopens (.inl hends))
      have hdue : OperandDue ⟨t :: before, rest⟩ := by
        refine ⟨?_, ?_, .inr hopens⟩
        · simp [TokenClass.endsOperand_of_operation? hkind]
        · rintro rfl
          simp at hopens
      rw [if_pos (by cases h : firstKind? rest <;> simp_all)]
      refine (ends_readOperand hbelow _).mono ?_ fun fault h hends =>
        (h hdue).of_faultless (hpass hends)
      intro r c' ⟨p, hr, hp, hfits⟩
      refine ⟨p, hr n, ?_, hfits, fun hends => ?_⟩
      · refine Nat.le_trans ?_ hp
        show operation.rightOperand.rank ≤ _
        cases operation <;> decide
      · exact (hpass hends).trans ((hr n).faultless hdue.opensAtom_of_endsOperand)
    · rw [if_neg (by cases h : firstKind? rest <;> simp_all)]
      intro hends
      apply blames_cons
      rw [localFault?_of_operation hkind, operatorFault?, if_pos hends, operationFault?,
        if_neg hopens, danglingFault]
      cases firstKind? rest <;> simp <;> split <;> rfl
  · obtain ⟨rfl, rfl, -⟩ := OperatorMark.mk.inj hmark
    clear hmark
    rw [readRightOperand]
    refine ends_map.2 (ends_attempt.2 ((ends_readAtom_cons hbelow hatom).mono ?_
      fun _ h _ => h))
    intro x c' h
    refine ⟨.atom, h n, ?_, fun op _ => by cases op <;> decide, fun _ => ?_⟩
    · show Precedence.power.rank ≤ _
      decide
    exact (h n).faultless fun _ => by simpa using hatom

/-- Taking operations into a right operand, as long as they bind as tightly as right
operands do. -/
theorem ends_completeRight {op : OperatorMark} {start : Cursor} (rounds : Nat) (c : Cursor)
    (p : Precedence) (r : Formula) (hrounds : c.after.length ≤ rounds)
    (hr : Derived declared n n p start r c) (hfits : Fits p c.after)
    (hp : (rightLayer op).rank ≤ p.rank) (hop : op.implicit → op.operation = .multiply) :
    Ends (fun r' c' => Derived declared n n (rightLayer op) start r' c' ∧
        Stops op.operation.rightOperand c'.after ∧ Faultless declared c c')
      (Blames declared c) (completeRight (below? declared n) op rounds r c) := by
  induction rounds generalizing c p r with
  | zero =>
      have hnil : c.after = [] := List.length_eq_zero_iff.1 (Nat.le_zero.1 hrounds)
      refine ⟨hr.loosen hp, ?_, .refl c⟩
      simp [Stops, hnil, nextOperation?]
  | succ rounds ih =>
      rw [completeRight, look_bind]
      cases hnext : c.operator? with
      | none =>
          exact ⟨hr.loosen hp, stops_of_none (nextOperation?_of_operator?_eq_none hnext),
            .refl c⟩
      | some following =>
          have hoperation := nextOperation?_of_operator? hnext
          simp only
          have hahead : c.after ≠ [] := by
            intro hnil
            simp [hnil, nextOperation?] at hoperation
          by_cases htakes : following.takesFrom op
          · rw [if_pos htakes]
            refine ends_bind
              (fun e c' => Derived declared n n following.precedence start e c' ∧
                Stops following.precedence c'.after ∧ Faultless declared c c' ∧
                c'.after.length < c.after.length)
              (ends_descend (blames_tooDeep hahead) fun m hm => ?_) ?_
            · have hle : following.precedence.rank ≤ p.rank :=
                Nat.le_trans (Operation.precedence_le_leftOperand _) (hfits _ hoperation)
              subst hm
              refine ((hbelow m rfl).climb start c (m + 1) p r following.precedence hr hfits
                hle).mono (fun e c' h => ⟨h.derived, h.stops, h.faultless, ?_⟩) fun _ => id
              exact h.length_lt hr.tokens fun hstops =>
                Nat.lt_irrefl _ (hstops _ hoperation)
            · -- what the climb took in is a right operand with fewer tokens behind it
              rintro e c' ⟨he, hstops, hpass, hlt⟩
              have hlayer : (rightLayer op).rank ≤ following.precedence.rank :=
                rightLayer_le_of_takesFrom hop htakes
              refine (ih c' following.precedence e (by omega) he hstops.fits hlayer).mono ?_
                fun fault h => h.of_faultless hpass
              rintro r' c'' ⟨hr', hstops', hpass'⟩
              exact ⟨hr', hstops', hpass.trans hpass'⟩
          · rw [if_neg htakes]
            refine ⟨hr.loosen hp, fun next hn => ?_, .refl c⟩
            rw [hoperation, Option.some.injEq] at hn
            rw [takesFrom_iff, hn] at htakes
            exact Nat.lt_of_not_le htakes

/-- An operation with all of its right operand, which ends where nothing takes the operand
away from the operation. -/
theorem ends_takeOperand {c : Cursor} {op : OperatorMark} (hop : c.operator? = some op) :
    Ends (fun r c' => Derived declared n n (rightLayer op) (c.behindOperator op) r c' ∧
        Stops op.operation.rightOperand c'.after ∧
        (c.kindBehind?.any TokenClass.endsOperand → Faultless declared c c'))
      (fun fault => c.kindBehind?.any TokenClass.endsOperand → Blames declared c fault)
      (takeOperand declared (below? declared n) op c) := by
  refine ends_bind _ (ends_readRightOperand hbelow hop) ?_
  rintro r c₁ ⟨p, hr, hp, hfits, hpass⟩
  rw [remaining, look_bind]
  refine (ends_completeRight hbelow c₁.after.length c₁ p r (Nat.le_refl _) hr hfits hp
    (eq_multiply_of_implicit hop)).mono ?_ fun fault h hends => h.of_faultless (hpass hends)
  rintro r' c' ⟨hr', hstops, hpass'⟩
  exact ⟨hr', hstops, fun hends => (hpass hends).trans hpass'⟩

theorem ends_climbRounds {first : Nat} {least : Precedence} {start : Cursor} (rounds : Nat)
    (c : Cursor) (p : Precedence) (lhs : Formula) (hrounds : c.after.length ≤ rounds)
    (hl : Derived declared first (n + 1) p start lhs c) (hfits : Fits p c.after)
    (hp : least.rank ≤ p.rank) :
    Ends (Climbed declared first n least start c) (Blames declared c)
      (climbRounds declared (below? declared n) least rounds lhs c) := by
  induction rounds generalizing c p lhs with
  | zero =>
      have hnil : c.after = [] := List.length_eq_zero_iff.1 (Nat.le_zero.1 hrounds)
      refine ⟨hl.loosen hp, ?_, .refl c, Nat.le_refl _⟩
      simp [Stops, hnil, nextOperation?]
  | succ rounds ih =>
      obtain hstop | ⟨op, hnext, htight⟩ := looser_or_tight least c
      · rw [climbRounds_of_stop _ hstop]
        exact ⟨hl.loosen hp, stops_iff_looser.2 hstop, .refl c, Nat.le_refl _⟩
      · rw [climbRounds_succ hnext htight]
        refine ends_bind _ ((ends_takeOperand hbelow hnext).mono (fun _ _ => id)
          fun _ h => h hl.endsOperand) ?_
        rintro r c' ⟨hr, hstops, hpass⟩
        replace hpass := hpass hl.endsOperand
        have hlt : c'.after.length < c.after.length :=
          Nat.lt_of_lt_of_le hr.length_lt (c.length_behindOperator_le op)
        -- the phrase so far and the right operand are the left operand of the next round
        have hcombine := derived_combine hl hfits hnext hr
        refine (ih c' op.precedence (lhs.combine op r) (by omega) hcombine
          (fits_precedence_iff.2 hstops) (looser_eq_false_iff.1 htight)).mono ?_
          fun fault h => h.of_faultless hpass
        intro e c'' h
        exact ⟨h.derived, h.stops, hpass.trans h.faultless,
          Nat.le_trans h.length_le (Nat.le_of_lt hlt)⟩

end

/-- Every level keeps its promises. -/
theorem reads_ofDescents (declared : List String) (n : Nat) :
    Reads declared n (ofDescents declared n) := by
  induction n with
  | zero =>
      have hbelow : ∀ m, 0 = m + 1 → Reads declared m (ofDescents declared m) :=
        fun m hm => absurd hm (by omega)
      refine ⟨ends_readOperand hbelow, ?_, ?_⟩
      · intro start c first p lhs least hl hfits hp
        exact ends_climbRounds hbelow c.after.length c p lhs (Nat.le_refl _) hl hfits hp
      · exact ends_readGroup hbelow
  | succ n ih =>
      have hbelow : ∀ m, n + 1 = m + 1 → Reads declared m (ofDescents declared m) :=
        fun m hm => Nat.succ.inj hm ▸ ih
      refine ⟨ends_readOperand hbelow, ?_, ?_⟩
      · intro start c first p lhs least hl hfits hp
        exact ends_climbRounds hbelow c.after.length c p lhs (Nat.le_refl _) hl hfits hp
      · exact ends_readGroup hbelow

end FormulaGrading.Level
