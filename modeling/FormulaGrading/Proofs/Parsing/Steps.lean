import FormulaGrading.Proofs.Parsing.Counting
import FormulaGrading.Proofs.Parsing.Passing
import FormulaGrading.Proofs.Scanning

/-!
What the steps of a parser keep, one after the other and at any depth, however they end. The
tokens stay what they are, and the depth is what it was. An attempt that fails goes nowhere,
what reads a part of a formula passes a token, and a fault that is held back is reported once:
by the first step that reads to the end of the text.
-/

namespace FormulaGrading

namespace Cursor

theorem position_le_length (c : Cursor) : c.position ≤ c.tokens.length := by
  simp [position, tokens]

theorem eq_start_of_tokens_eq_nil {c : Cursor} (h : c.tokens = []) : c = start [] := by
  obtain ⟨before, after⟩ := c
  simp_all [tokens, start]

end Cursor

namespace Parser

/-! ### Descents -/

/-- Whether parsers differ in their depth at most. -/
structure SameButDepth (p q : Parser) : Prop where
  cursor : q.cursor = p.cursor
  heldBack : q.heldBack = p.heldBack
  declared : q.declared = p.declared

theorem SameButDepth.refl (p : Parser) : SameButDepth p p :=
  ⟨rfl, rfl, rfl⟩

/-- Descents that are too many in all go nowhere. Else the step is taken as it is by a parser
that is as far down. -/
theorem take_deeper_cases (times : Nat) (step : Step) (p : Parser) :
    (nestingLimit < p.depth + times ∧ take (.deeper times step) p =
      (.error ⟨[p.cursor.span], .tooDeep nestingLimit⟩, p)) ∨
    ∃ q : Parser, q.depth = p.depth + times ∧ SameButDepth p q ∧
      (take (.deeper times step) p).1 = (take step q).1 ∧
      SameButDepth (take step q).2 (take (.deeper times step) p).2 := by
  simp only [take]
  induction times generalizing p with
  | zero => exact .inr ⟨p, rfl, .refl p, rfl, .refl _⟩
  | succ times ih =>
      by_cases hlt : p.depth < nestingLimit
      · have hdeeper : deeperTimes (take step) (times + 1) p =
            (let (result, q) :=
              deeperTimes (take step) times { p with depth := p.depth + 1, depth_le := hlt }
            (result, { q with depth := p.depth, depth_le := p.depth_le })) := dif_pos hlt
        rw [hdeeper]
        obtain ⟨hmany, htake⟩ | ⟨q, hdepth, hsame, hresult, hafter⟩ :=
          ih { p with depth := p.depth + 1, depth_le := hlt }
        · refine .inl ⟨Nat.lt_of_lt_of_eq hmany (Nat.add_right_comm ..), ?_⟩
          rw [htake]
        · refine .inr ⟨q, hdepth.trans (Nat.add_right_comm ..), ?_, hresult, ?_⟩
          · exact ⟨hsame.cursor, hsame.heldBack, hsame.declared⟩
          · exact ⟨hafter.cursor, hafter.heldBack, hafter.declared⟩
      · exact .inl ⟨by omega, dif_neg hlt⟩

/-! ### Steps -/

section

variable {α : Type} {n : Nat} {p : Parser}

/-- Whether an outcome has kept the tokens and has not gone back, and has passed some number of
tokens if it is a value. -/
structure Passed (n : Nat) (p : Parser) (outcome : Except Fault α × Parser) : Prop where
  tokens : outcome.2.cursor.tokens = p.cursor.tokens
  forward : p.cursor.position ≤ outcome.2.cursor.position
  position : ∀ a, outcome.1 = .ok a → p.cursor.position + n ≤ outcome.2.cursor.position

theorem passed_read {r : Level → Reading α} (h : (r p.level).Passes n) :
    Passed n p (p.read r) :=
  ⟨h.tokens p.cursor, h.forward p.cursor, h.passed p.cursor⟩

theorem passed_of_fault (p : Parser) (fault : Fault) :
    Passed n p ((.error fault, p) : Except Fault α × Parser) :=
  ⟨rfl, Nat.le_refl _, fun _ h => nomatch h⟩

theorem mapReply_eq_error_iff {outcome : Except Fault α × Parser} {f : α → Reply}
    {fault : Fault} : (mapReply f outcome).1 = .error fault ↔ outcome.1 = .error fault := by
  obtain ⟨fault' | a, q⟩ := outcome <;> simp [mapReply, Except.map]

theorem Passed.mapReply {outcome : Except Fault α × Parser} (h : Passed n p outcome)
    (f : α → Reply) : Passed n p (mapReply f outcome) := by
  obtain ⟨fault | a, q⟩ := outcome
  · exact ⟨h.tokens, h.forward, fun _ hreply => nomatch hreply⟩
  · exact ⟨h.tokens, h.forward, fun _ _ => h.position a rfl⟩

theorem passed_readWhole {r : Level → Reading α} (h : (r p.level).Passes n) :
    Passed n p (p.readWhole r) := by
  have hread := passed_read h
  obtain ⟨_, -, h⟩ | ⟨-, ⟨_, h⟩ | ⟨_, h⟩ | h⟩ := p.readWhole_cases r <;> rw [h]
  · exact ⟨rfl, Nat.le_refl _, fun _ hreply => nomatch hreply⟩
  · exact passed_of_fault p _
  · exact ⟨hread.tokens, hread.forward, fun _ hreply => nomatch hreply⟩
  · exact hread

theorem passes_reading {below : Option Level} (declared : List String)
    (hbelow : ∀ l ∈ below, l.Passes) (part : Part) :
    (part.reading declared below (.above declared below)).Passes 1 := by
  cases part with
  | formula => exact (Level.passes_above declared hbelow).formula.map _
  | call => exact (Level.passes_readCall hbelow).map _
  | number => exact Reading.passes_number.map _
  | symbol => exact Reading.passes_symbol.bindLeft fun _ => .pure _
  | atom => exact (Level.passes_readAtom declared hbelow).map _
  | group => exact (Level.passes_readGroup hbelow).map _
  | sign | operator => exact (Reading.passes_expecting ..).map _

/-- How many tokens a step passes at least if it yields a value. -/
def Step.leastPassed : Step → Nat
  | .next | .part .. | .operand | .signed => 1
  | .climb .. | .declare _ => 0
  | .deeper _ step => step.leastPassed

theorem passed_take (step : Step) (p : Parser) : Passed step.leastPassed p (take step p) := by
  have hbelow (p : Parser) : ∀ l ∈ p.below?, l.Passes := Level.passes_below p.declared _
  have hlevel (p : Parser) : p.level.Passes := Level.passes_ofDescents p.declared _
  induction step generalizing p with
  | next => exact (passed_read Reading.passes_next).mapReply _
  | part part manner =>
      have hpart := passes_reading p.declared (hbelow p) part
      cases manner with
      | attempt => exact (passed_read (r := fun _ => _) hpart.attempt).mapReply _
      | direct => exact (passed_read (r := part.reading p.declared p.below?) hpart).mapReply _
      | whole => exact (passed_readWhole (r := part.reading p.declared p.below?) hpart).mapReply _
  | operand => exact (passed_read (hlevel p).operand).mapReply _
  | signed => exact (passed_read (Level.passes_readSigned (hbelow p))).mapReply _
  | climb lhs least =>
      exact (passed_read (r := fun l => l.climb lhs least) ((hlevel p).climb lhs least)).mapReply _
  | declare names => exact ⟨rfl, Nat.le_refl _, fun _ _ => Nat.le_refl _⟩
  | deeper times step ih =>
      obtain ⟨-, htake⟩ | ⟨q, -, hsame, hresult, hafter⟩ := take_deeper_cases times step p
      · rw [htake]
        exact passed_of_fault p _
      · have hpassed := ih q
        constructor
        · rw [hafter.cursor, hpassed.tokens, hsame.cursor]
        · rw [hafter.cursor, ← hsame.cursor]
          exact hpassed.forward
        · intro reply hreply
          rw [hafter.cursor, ← hsame.cursor]
          exact hpassed.position reply (hresult ▸ hreply)

end

/-- Whether a step attempts to read a part of a formula. -/
def Step.attempts : Step → Bool
  | .part _ .attempt => true
  | .deeper _ step => step.attempts
  | _ => false

/-- An attempt that fails leaves the parser where it was. -/
theorem cursor_take_of_attempts {step : Step} {p : Parser} {fault : Fault}
    (hattempt : step.attempts) (h : (take step p).1 = .error fault) :
    (take step p).2.cursor = p.cursor := by
  induction step generalizing p with
  | next | operand | signed | climb | declare => exact nomatch hattempt
  | part part manner =>
      cases manner with
      | direct | whole => exact nomatch hattempt
      | attempt => exact Reading.attempt_of_error (mapReply_eq_error_iff.1 h)
  | deeper times step ih =>
      obtain ⟨-, htake⟩ | ⟨q, -, hsame, hresult, hafter⟩ := take_deeper_cases times step p
      · rw [htake]
      · rw [hafter.cursor, ih hattempt (hresult ▸ h), hsame.cursor]

/-! ### Faults held back -/

/-- Whether a step reads a whole text from a depth, and is not too deep for that. -/
def Step.readsWhole (depth : Nat) : Step → Bool
  | .part _ .whole => true
  | .deeper times step =>
      depth + times ≤ nestingLimit && step.readsWhole (depth + times)
  | _ => false

theorem heldBack_readWhole {α : Type} (p : Parser) (r : Level → Reading α) :
    (p.readWhole r).2.heldBack = none := by
  obtain ⟨_, -, h⟩ | ⟨hheld, ⟨_, h⟩ | ⟨_, h⟩ | h⟩ := p.readWhole_cases r <;> rw [h]
  · exact hheld
  · exact hheld
  · exact hheld

/-- Only reading a whole text takes away the fault held back. -/
theorem heldBack_take (step : Step) (p : Parser) :
    (take step p).2.heldBack = if step.readsWhole p.depth then none else p.heldBack := by
  induction step generalizing p with
  | next | operand | signed | climb | declare => rfl
  | part part manner =>
      cases manner with
      | attempt | direct => rfl
      | whole => exact heldBack_readWhole p _
  | deeper times step ih =>
      obtain ⟨hmany, htake⟩ | ⟨q, hdepth, hsame, -, hafter⟩ := take_deeper_cases times step p
      · simp [htake, Step.readsWhole, Nat.not_le.2 hmany]
      · have hle := hdepth ▸ q.depth_le
        rw [hafter.heldBack, ih, hsame.heldBack, hdepth, Step.readsWhole,
          decide_eq_true hle, Bool.true_and]

/-- Reading a whole text reports the fault held back. -/
theorem take_of_readsWhole {step : Step} {p : Parser} {fault : Fault}
    (hwhole : step.readsWhole p.depth) (hheld : p.heldBack = some fault) :
    (take step p).1 = .error fault := by
  induction step generalizing p with
  | next | operand | signed | climb | declare => exact nomatch hwhole
  | part part manner =>
      cases manner with
      | attempt | direct => exact nomatch hwhole
      | whole =>
          refine mapReply_eq_error_iff.2 ?_
          simp only [readPart, readWhole, hheld]
  | deeper times step ih =>
      rw [Step.readsWhole, Bool.and_eq_true, decide_eq_true_iff] at hwhole
      obtain ⟨hmany, -⟩ | ⟨q, hdepth, hsame, hresult, -⟩ := take_deeper_cases times step p
      · exact absurd hwhole.1 (Nat.not_le.2 hmany)
      · rw [hresult]
        exact ih (hdepth ▸ hwhole.2) (hsame.heldBack.trans hheld)

/-- In front of no tokens, a part of a formula is missing. -/
theorem reading_nothing (part : Part) (declared : List String) (below : Option Level) :
    part.reading declared below (.above declared below) (.start []) =
      (.error ⟨[⟨0, 0⟩], .missingFormula⟩, .start []) := by
  cases part <;> rfl

/-- Where there are no tokens, and no fault held back is asked for, the faults are of two
kinds. -/
theorem cause_of_take {step : Step} {p : Parser} {fault : Fault}
    (hnothing : p.cursor = .start []) (hother : step.readsWhole p.depth → p.heldBack = none)
    (h : (take step p).1 = .error fault) :
    fault.cause = .missingFormula ∨ fault.cause = .tooDeep nestingLimit := by
  induction step generalizing p with
  | next | operand | signed =>
      have hread := mapReply_eq_error_iff.1 h
      simp only [read, hnothing] at hread
      cases hread
      exact .inl rfl
  | climb lhs least =>
      have hread := mapReply_eq_error_iff.1 h
      simp only [read, hnothing] at hread
      cases hread
  | declare names => cases h
  | part part manner =>
      have hread := mapReply_eq_error_iff.1 h
      have hmissing : part.reading p.declared p.below? p.level (.start []) =
          (.error ⟨[⟨0, 0⟩], .missingFormula⟩, .start []) := reading_nothing ..
      cases manner with
      | attempt | direct =>
          simp only [readPart, read, hnothing, Reading.attempt_fst, hmissing] at hread
          cases hread
          exact .inl rfl
      | whole =>
          have hbrackets : bracketFault? (Cursor.start []).tokens = none := rfl
          simp only [readPart, readWhole, hother rfl, hnothing, hbrackets, read, hmissing]
            at hread
          cases hread
          exact .inl rfl
  | deeper times step ih =>
      obtain ⟨hmany, htake⟩ | ⟨q, hdepth, hsame, hresult, -⟩ := take_deeper_cases times step p
      · rw [htake] at h
        cases h
        exact .inr rfl
      · have hle := hdepth ▸ q.depth_le
        refine ih (hsame.cursor.trans hnothing) (fun hwhole => ?_) (hresult ▸ h)
        refine hsame.heldBack.trans (hother ?_)
        rw [Step.readsWhole, decide_eq_true hle, Bool.true_and]
        exact hdepth ▸ hwhole

/-- A text has no usable tokens because of some character, or because of their number. -/
theorem cause_of_tokensOf {text : String} {fault : Fault} (h : tokensOf text = .error fault) :
    (∃ lexeme, fault.cause = .unknownText lexeme) ∨ fault.cause = .tooLong tokenLimit := by
  rw [tokensOf] at h
  split at h
  next hscan =>
    obtain rfl := Except.error.inj h
    obtain ⟨span, lexeme, rfl⟩ := Token.eq_of_scanFrom_eq_error hscan
    exact .inl ⟨lexeme, rfl⟩
  next =>
    split at h
    next => exact nomatch h
    next =>
      obtain rfl := Except.error.inj h
      exact .inr rfl

/-! ### Steps one after the other -/

/-- The parser after some steps, each taken where the one before it has ended. -/
def after (p : Parser) (steps : List Step) : Parser :=
  steps.foldl (fun p step => (take step p).2) p

theorem after_cons (p : Parser) (step : Step) (steps : List Step) :
    p.after (step :: steps) = (take step p).2.after steps :=
  rfl

theorem tokens_after (steps : List Step) (p : Parser) :
    (p.after steps).cursor.tokens = p.cursor.tokens := by
  induction steps generalizing p with
  | nil => rfl
  | cons step steps ih => rw [after_cons, ih, (passed_take step p).tokens]

theorem depth_after (steps : List Step) (p : Parser) : (p.after steps).depth = p.depth := by
  induction steps generalizing p with
  | nil => rfl
  | cons step steps ih => rw [after_cons, ih, depth_take]

theorem heldBack_after (steps : List Step) (p : Parser) :
    (p.after steps).heldBack =
      if steps.any (Step.readsWhole p.depth) then none else p.heldBack := by
  induction steps generalizing p with
  | nil => rfl
  | cons step steps ih =>
      rw [after_cons, ih, depth_take, heldBack_take, List.any_cons]
      cases Step.readsWhole p.depth step <;> simp

section

variable {declared : List String} {text : String} {fault : Fault}

theorem ofText_of_error (declared : List String) (h : tokensOf text = .error fault) :
    (ofText declared text).cursor = .start [] ∧
      (ofText declared text).heldBack = some fault := by
  simp only [ofText, h]
  exact ⟨trivial, trivial⟩

/-- Of the steps in front of a text without usable tokens, the first one that reads to its end
reports the fault, and no other one. -/
theorem take_after_eq_error_iff (h : tokensOf text = .error fault) (earlier : List Step)
    (step : Step) :
    (take step ((ofText declared text).after earlier)).1 = .error fault ↔
      step.readsWhole 0 ∧ ∀ e ∈ earlier, ¬e.readsWhole 0 := by
  obtain ⟨hcursor, hheld⟩ := ofText_of_error declared h
  let p := (ofText declared text).after earlier
  have hdepth : p.depth = 0 := depth_after earlier _
  have hnothing : p.cursor = .start [] := by
    refine Cursor.eq_start_of_tokens_eq_nil ((tokens_after earlier _).trans ?_)
    rw [hcursor, Cursor.tokens_start]
  have hkept : p.heldBack = if earlier.any (Step.readsWhole 0) then none else some fault := by
    rw [← hheld]
    exact heldBack_after earlier _
  constructor
  · intro htake
    by_contra hnot
    have hother : step.readsWhole p.depth → p.heldBack = none := by
      intro hwhole
      rw [hkept, if_pos]
      rw [List.any_eq_true]
      by_contra hnone
      exact hnot ⟨hdepth ▸ hwhole, fun e he hreads => hnone ⟨e, he, hreads⟩⟩
    obtain hmissing | hdeep := cause_of_take hnothing hother htake
    · obtain ⟨_, hcause⟩ | hcause := cause_of_tokensOf h <;>
        exact nomatch hmissing.symm.trans hcause
    · obtain ⟨_, hcause⟩ | hcause := cause_of_tokensOf h <;>
        exact nomatch hdeep.symm.trans hcause
  · rintro ⟨hwhole, hfirst⟩
    refine take_of_readsWhole (p := p) (hdepth ▸ hwhole) ?_
    rw [hkept, if_neg]
    simpa using hfirst

end

/-- What a step leaves as it was, or moves no further than it may. -/
structure Survives (p : Parser) (step : Step) : Prop where
  tokens : (take step p).2.cursor.tokens = p.cursor.tokens
  position_le : (take step p).2.cursor.position ≤ (take step p).2.cursor.tokens.length
  forward : p.cursor.position ≤ (take step p).2.cursor.position
  depth : (take step p).2.depth = p.depth
  /-- With a depth that is counted up and down, and nothing but the limit against descending on
  and on, the outcome is the same, and the limit is never exceeded. -/
  counted : ∀ (bottom : Counting.Rules) (times deepest : Nat),
    nestingLimit ≤ times → deepest ≤ nestingLimit → ∃ deepest' ≤ nestingLimit,
      Counting.take (bottom.unrolled times) step (p.counting deepest) =
        ((take step p).1, (take step p).2.counting deepest')
  /-- A failed attempt goes nowhere. -/
  attempted : step.attempts → ∀ fault, (take step p).1 = .error fault →
    (take step p).2.cursor = p.cursor
  /-- What yields a part of a formula has passed a token. -/
  passed : ∀ reply, (take step p).1 = .ok reply →
    p.cursor.position + step.leastPassed ≤ (take step p).2.cursor.position

/-- Whatever steps a parser has taken in front of a text, the next one leaves it in order, and
reports the fault of a text without usable tokens exactly if it is the first to ask for a
whole text. -/
theorem survives_take_after (declared : List String) (text : String) (earlier : List Step)
    (step : Step) :
    Survives ((ofText declared text).after earlier) step ∧
      ((ofText declared text).after earlier).cursor.tokens =
        (ofText declared text).cursor.tokens ∧
      ((ofText declared text).after earlier).depth = 0 ∧
      ∀ fault, tokensOf text = .error fault →
        ((take step ((ofText declared text).after earlier)).1 = .error fault ↔
          step.readsWhole 0 ∧ ∀ e ∈ earlier, ¬e.readsWhole 0) := by
  refine ⟨?_, tokens_after earlier _, depth_after earlier _,
    fun fault h => take_after_eq_error_iff h earlier step⟩
  have hpassed := passed_take step ((ofText declared text).after earlier)
  exact
    { tokens := hpassed.tokens
      position_le := Cursor.position_le_length _
      forward := hpassed.forward
      depth := depth_take step _
      counted := fun bottom _ deepest htimes hle => follows_take bottom htimes step _ deepest hle
      attempted := fun hattempts _ h => cursor_take_of_attempts hattempts h
      passed := hpassed.position }

/-- The number sign is no token. Attempting to read a formula does not say so, since there are
no tokens in front of it, but asking for all of it does. -/
theorem survives_take_after_attempt :
    tokensOf "#" = .error ⟨[⟨0, 1⟩], .unknownText "#"⟩ ∧
      (take (.part .formula .whole)
        ((ofText [] "#").after [.part .formula .attempt])).1 =
          .error ⟨[⟨0, 1⟩], .unknownText "#"⟩ := by
  have htokens : tokensOf "#" = .error ⟨[⟨0, 1⟩], .unknownText "#"⟩ := by rfl
  obtain ⟨-, -, -, hreports⟩ :=
    survives_take_after [] "#" [.part .formula .attempt] (.part .formula .whole)
  exact ⟨htokens, (hreports _ htokens).2 ⟨rfl, by decide⟩⟩

end Parser

end FormulaGrading
