import FormulaGrading.Proofs.Parsing.Whole

/-!
Reading tokens in other places. Reading compares no places, it only takes over the bounds of
tokens. Tokens that are moved, with their kinds and texts kept, are therefore read as the same
formula, or with the same fault, moved in the same way.
-/

namespace FormulaGrading

section

variable (move : Nat → Nat)

/-- The span between the bounds moved. -/
def Span.moved (s : Span) : Span :=
  ⟨move s.start, move s.stop⟩

def Token.moved (t : Token) : Token :=
  { t with span := t.span.moved move }

def Symbol.moved (s : Symbol) : Symbol :=
  { s with span := s.span.moved move }

def SignMark.moved (mark : SignMark) : SignMark :=
  { mark with span := mark.span.moved move }

def OperatorMark.moved (op : OperatorMark) : OperatorMark :=
  { op with span := op.span.moved move }

/-- The formula with all its spans moved. -/
def Formula.moved : Formula → Formula
  | .number value span => .number value (span.moved move)
  | .symbol s => .symbol (s.moved move)
  | .signed mark operand span =>
      .signed (mark.moved move) operand.moved (span.moved move)
  | .binary lhs op rhs span =>
      .binary lhs.moved (op.moved move) rhs.moved (span.moved move)
  | .call function argument brackets span =>
      .call (function.moved move) argument.moved (brackets.moved move) (span.moved move)

def Enclosed.moved (e : Enclosed) : Enclosed :=
  ⟨e.inner.moved move, e.outer.moved move⟩

def Fault.moved (fault : Fault) : Fault :=
  { fault with spans := fault.spans.map (Span.moved move) }

/-- The same place in the row of tokens moved. -/
def Cursor.moved (c : Cursor) : Cursor :=
  ⟨c.before.map (Token.moved move), c.after.map (Token.moved move)⟩

/-- The outcome with its value moved in the given way, or with its fault moved. -/
def movedOutcome {α : Type} (f : α → α) : Except Fault α → Except Fault α
  | .ok a => .ok (f a)
  | .error fault => .error (fault.moved move)

end

section

variable {move : Nat → Nat}

@[simp] theorem Token.kind_moved (t : Token) : (t.moved move).kind = t.kind := rfl

@[simp] theorem Token.lexeme_moved (t : Token) : (t.moved move).lexeme = t.lexeme := rfl

@[simp] theorem Token.span_moved (t : Token) :
    (t.moved move).span = t.span.moved move := rfl

@[simp] theorem Formula.span_moved (e : Formula) :
    (e.moved move).span = e.span.moved move := by
  cases e <;> rfl

theorem Formula.moved_moved (move' : Nat → Nat) (e : Formula) :
    (e.moved move).moved move' = e.moved (move' ∘ move) := by
  induction e with
  | number | symbol => rfl
  | signed _ _ _ ih => simp only [moved, ih]; rfl
  | binary _ _ _ _ ihl ihr => simp only [moved, ihl, ihr]; rfl
  | call _ _ _ _ ih => simp only [moved, ih]; rfl

theorem Formula.combine_moved (lhs rhs : Formula) (op : OperatorMark) :
    (lhs.moved move).combine (op.moved move) (rhs.moved move) =
      (lhs.combine op rhs).moved move := by
  simp [combine, moved, Span.join, Span.moved]

namespace Cursor

@[simp] theorem tokens_moved (c : Cursor) :
    (c.moved move).tokens = c.tokens.map (Token.moved move) := by
  simp [tokens, moved]

@[simp] theorem here?_moved (c : Cursor) :
    (c.moved move).here? = c.here?.map (Token.moved move) := by
  simp [here?, moved]

@[simp] theorem ahead?_moved (c : Cursor) :
    (c.moved move).ahead? = c.ahead?.map (Token.moved move) := by
  simp [ahead?, moved, List.head?_tail]

@[simp] theorem behind?_moved (c : Cursor) :
    (c.moved move).behind? = c.behind?.map (Token.moved move) := by
  simp [behind?, moved]

theorem currentIs_moved (c : Cursor) (p : TokenClass → Bool) :
    (c.moved move).currentIs p = c.currentIs p := by
  rw [currentIs, here?_moved, currentIs]
  cases c.here? <;> rfl

/-- Behind the last token there is a place to be moved, if there are tokens. -/
theorem span_moved {c : Cursor} (hsome : c.tokens ≠ []) :
    (c.moved move).span = c.span.moved move := by
  simp only [span, here?_moved, endSpan, tokens_moved, List.getLast?_map]
  cases c.here? with
  | some t => rfl
  | none =>
      rw [List.getLast?_eq_some_getLast hsome]
      rfl

theorem operator?_moved (c : Cursor) :
    (c.moved move).operator? = c.operator?.map (OperatorMark.moved move) := by
  rw [operator?, here?_moved, behind?_moved, operator?]
  rcases c.here? with _ | ⟨kind, lexeme, span⟩
  · rfl
  · cases kind with
    | number | name | openBracket => cases c.behind? <;> rfl
    | _ => rfl

end Cursor

end

namespace Reading

variable {move : Nat → Nat} {α β : Type}

/-- Whether the second reading does with moved tokens what the first one does with the tokens
where they are. There must be a token, since nothing moves the end of a row without any. -/
def MovesTo (move : Nat → Nat) (f : α → α) (r r' : Reading α) : Prop :=
  ∀ c : Cursor, c.tokens ≠ [] → (r c).2.tokens ≠ [] ∧
    r' (c.moved move) = (movedOutcome move f (r c).1, (r c).2.moved move)

variable {f : α → α} {g : β → β}

theorem MovesTo.pure (a : α) : MovesTo move f (pure a) (pure (f a)) :=
  fun _ hsome => ⟨hsome, rfl⟩

theorem MovesTo.bind {r r' : Reading α} {k k' : α → Reading β} (h : MovesTo move f r r')
    (hk : ∀ a, MovesTo move g (k a) (k' (f a))) :
    MovesTo move g (r >>= k) (r' >>= k') := by
  intro c hsome
  obtain ⟨hkept, heq⟩ := h c hsome
  rw [bind_apply, bind_apply, heq]
  revert hkept
  rcases r c with ⟨fault | a, c'⟩
  · exact fun hkept => ⟨hkept, rfl⟩
  · exact fun hkept => hk a c' hkept

theorem MovesTo.map {r r' : Reading α} {k : α → β} (h : MovesTo move f r r')
    (hk : ∀ a, k (f a) = g (k a)) : MovesTo move g (k <$> r) (k <$> r') := by
  refine h.bind fun a => ?_
  rw [Function.comp_apply, Function.comp_apply, hk]
  exact .pure _

/-- Which branch is taken depends on kinds and texts only, so that in each use both conditions
are the same by definition. -/
theorem MovesTo.ite {b b' : Bool} (hb : b' = b) {r r' s s' : Reading α}
    (hr : MovesTo move f r r') (hs : MovesTo move f s s') :
    MovesTo move f (if b then r else s) (if b' then r' else s') := by
  subst hb
  cases b' with
  | false => exact hs
  | true => exact hr

theorem MovesTo.attempt {r r' : Reading α} (h : MovesTo move f r r') :
    MovesTo move f (attempt r) (attempt r') := by
  intro c hsome
  obtain ⟨hkept, heq⟩ := h c hsome
  rw [attempt_apply, attempt_apply, heq]
  revert hkept
  rcases r c with ⟨fault | a, c'⟩
  · exact fun _ => ⟨hsome, rfl⟩
  · exact fun hkept => ⟨hkept, rfl⟩

theorem MovesTo.orFault {r r' : Reading α} (h : MovesTo move f r r') (fault : Fault) :
    MovesTo move f (orFault r fault) (orFault r' (fault.moved move)) := by
  intro c hsome
  obtain ⟨hkept, heq⟩ := h c hsome
  simp only [Reading.orFault, heq]
  revert hkept
  rcases r c with ⟨fault | a, c'⟩
  · exact fun hkept => ⟨hkept, rfl⟩
  · exact fun hkept => ⟨hkept, rfl⟩

theorem MovesTo.fail (fault : Fault) :
    MovesTo move f (fail fault) (fail (fault.moved move)) :=
  fun _ hsome => ⟨hsome, rfl⟩

theorem MovesTo.failHere (cause : Cause) : MovesTo move f (failHere cause) (failHere cause) := by
  intro c hsome
  refine ⟨hsome, ?_⟩
  rw [failHere_apply, failHere_apply, Cursor.span_moved hsome]
  rfl

theorem MovesTo.look {k : Cursor → α} (hk : ∀ c : Cursor, k (c.moved move) = f (k c)) :
    MovesTo move f (look k) (look k) :=
  fun c hsome => ⟨hsome, by rw [look_apply, look_apply, hk]; rfl⟩

/-- What is the same at the places moved. -/
theorem movesTo_look_id {k : Cursor → α} (hk : ∀ c : Cursor, k (c.moved move) = k c) :
    MovesTo move id (look k) (look k) :=
  .look hk

theorem movesTo_next : MovesTo move (Token.moved move) next next := by
  intro c hsome
  cases hnext : c.next? with
  | none =>
      have hnone : c.after = [] := Cursor.next?_eq_none_iff.1 hnext
      have hmoved : (c.moved move).next? = none := by
        rw [Cursor.next?_eq_none_iff, Cursor.moved, hnone]
        rfl
      simp only [next, hnext, hmoved]
      exact ⟨hsome, by rw [Cursor.span_moved hsome]; rfl⟩
  | some passed =>
      obtain ⟨t, d⟩ := passed
      have hkept : d.tokens ≠ [] := Cursor.tokens_of_next? hnext ▸ hsome
      have hmoved : (c.moved move).next? = some (t.moved move, d.moved move) := by
        obtain ⟨hafter, hbefore⟩ := Cursor.next?_eq_some_iff.1 hnext
        simp [Cursor.next?_eq_some_iff, Cursor.moved, hafter, hbefore]
      simp only [next, hnext, hmoved]
      exact ⟨hkept, rfl⟩

theorem movesTo_expecting (kinds : List TokenClass) {k : Token → Option α}
    (hk : ∀ t : Token, k (t.moved move) = (k t).map f) :
    MovesTo move f (expecting kinds k) (expecting kinds k) := by
  refine movesTo_next.bind fun t => ?_
  rw [hk]
  cases k t with
  | none => exact .fail _
  | some a => exact .pure a

theorem movesTo_token (kind : TokenClass) :
    MovesTo move (Token.moved move) (token kind) (token kind) := by
  refine movesTo_expecting _ fun t => ?_
  rw [Token.kind_moved]
  split <;> rfl

theorem movesTo_signMark : MovesTo move (SignMark.moved move) signMark signMark := by
  refine movesTo_expecting _ fun t => ?_
  rw [Token.kind_moved]
  cases t.kind.sign? <;> rfl

theorem movesTo_operatorMark :
    MovesTo move (OperatorMark.moved move) operatorMark operatorMark := by
  refine movesTo_expecting _ fun t => ?_
  rw [Token.kind_moved]
  cases t.kind.operation? <;> rfl

theorem movesTo_symbol : MovesTo move (Symbol.moved move) symbol symbol :=
  (movesTo_token .name).attempt.bind fun _ => .pure _

theorem movesTo_number : MovesTo move (Formula.moved move) number number := by
  refine (movesTo_token .number).attempt.bind fun t => ?_
  rw [Token.lexeme_moved]
  cases Decimal.readUnsigned? t.lexeme.toList with
  | none => exact .fail _
  | some value => exact .pure _

end Reading

namespace Level

open Reading

/-- Whether the readings that a level offers move with the tokens. -/
structure Moves (move : Nat → Nat) (l : Level) : Prop where
  operand : MovesTo move (Formula.moved move) l.operand l.operand
  climb : ∀ lhs least,
    MovesTo move (Formula.moved move) (l.climb lhs least) (l.climb (lhs.moved move) least)
  group : MovesTo move (Enclosed.moved move) l.group l.group

theorem Moves.formula {move : Nat → Nat} {l : Level} (h : Moves move l) :
    MovesTo move (Formula.moved move) l.formula l.formula :=
  h.operand.bind fun lhs => h.climb lhs .loosest

theorem movesTo_remaining {move : Nat → Nat} : MovesTo move id remaining remaining :=
  movesTo_look_id fun c => by simp [Cursor.moved]

section

variable {move : Nat → Nat} (declared : List String) {below : Option Level}
  (hbelow : ∀ l ∈ below, Moves move l)
include hbelow

theorem movesTo_descend {α : Type} {f : α → α} {k k' : Level → Reading α}
    (hk : ∀ l, Moves move l → MovesTo move f (k l) (k' l)) :
    MovesTo move f (descend below k) (descend below k') := by
  cases below with
  | none => exact .failHere _
  | some l => exact hk l (hbelow l rfl)

theorem movesTo_readGroup :
    MovesTo move (Enclosed.moved move) (readGroup below) (readGroup below) :=
  (movesTo_token .openBracket).attempt.bind fun opening =>
    (movesTo_descend hbelow fun _ h => h.formula).bind fun _ =>
      ((movesTo_token .closeBracket).attempt.orFault
        ⟨[opening.span], .unclosedBracket⟩).bind fun _ => .pure _

theorem movesTo_readCall :
    MovesTo move (Formula.moved move) (readCall below) (readCall below) := by
  refine movesTo_symbol.bind fun function => ?_
  refine .ite rfl (.fail _) ?_
  refine (movesTo_look_id fun c => c.currentIs_moved _).bind fun opens => ?_
  refine .ite rfl (.fail _) ?_
  exact (movesTo_descend hbelow fun _ h => h.group).bind fun _ => .pure _

theorem movesTo_readNamed (name : Token) :
    MovesTo move (Formula.moved move) (readNamed declared below name)
      (readNamed declared below (name.moved move)) := by
  refine .ite rfl (movesTo_readCall hbelow).attempt ?_
  refine (movesTo_look_id fun c => ?_).bind fun beforeGroup => ?_
  · rw [Cursor.ahead?_moved]
    cases c.ahead? <;> rfl
  · exact .ite rfl (.failHere _) (movesTo_symbol.attempt.bind fun _ => .pure _)

theorem movesTo_readAtom :
    MovesTo move (Enclosed.moved move) (readAtom declared below) (readAtom declared below) := by
  have hunenclosed (e : Formula) :
      unenclosed (e.moved move) = (unenclosed e).moved move := by
    rw [unenclosed, Formula.span_moved]
    rfl
  refine (MovesTo.look Cursor.here?_moved).bind fun here => ?_
  rcases here with _ | t
  · exact .failHere _
  · simp only [Option.map_some, Token.kind_moved]
    cases t.kind with
    | number => exact movesTo_number.attempt.map hunenclosed
    | name => exact (movesTo_readNamed declared hbelow t).map hunenclosed
    | openBracket => exact (movesTo_readGroup hbelow).attempt
    | _ => exact .failHere _

theorem movesTo_inner_readAtom :
    MovesTo move (Formula.moved move) (Enclosed.inner <$> attempt (readAtom declared below))
      (Enclosed.inner <$> attempt (readAtom declared below)) :=
  (movesTo_readAtom declared hbelow).attempt.map fun _ => rfl

theorem movesTo_readSigned :
    MovesTo move (Formula.moved move) (readSigned below) (readSigned below) := by
  refine movesTo_signMark.attempt.bind fun mark => ?_
  refine (movesTo_look_id fun c => c.currentIs_moved _).bind fun opens => ?_
  refine .ite rfl (.fail _) ?_
  refine MovesTo.bind (f := Formula.moved move) (movesTo_descend hbelow fun _ h => ?_)
    fun operand => ?_
  · exact h.operand.bind fun lhs => h.climb lhs mark.sign.precedence
  · rw [Formula.span_moved]
    exact .pure _

theorem movesTo_readOperand :
    MovesTo move (Formula.moved move) (readOperand declared below)
      (readOperand declared below) := by
  refine (MovesTo.look Cursor.here?_moved).bind fun here => ?_
  rcases here with _ | t
  · exact .failHere _
  · simp only [Option.map_some, Token.kind_moved]
    cases t.kind with
    | add | subtract => exact movesTo_readSigned hbelow
    | number | name | openBracket => exact movesTo_inner_readAtom declared hbelow
    | _ => exact .failHere _

theorem movesTo_readRightOperand (op : OperatorMark) :
    MovesTo move (Formula.moved move) (readRightOperand declared below op)
      (readRightOperand declared below (op.moved move)) := by
  refine .ite rfl (movesTo_inner_readAtom declared hbelow) ?_
  refine movesTo_operatorMark.attempt.bind fun _ => ?_
  refine (movesTo_look_id fun c => ?_).bind fun following => ?_
  · rw [Cursor.here?_moved]
    cases c.here? <;> rfl
  · exact .ite rfl (movesTo_readOperand declared hbelow) (.fail _)

theorem movesTo_completeRight (op : OperatorMark) (rounds : Nat) (rhs : Formula) :
    MovesTo move (Formula.moved move) (completeRight below op rounds rhs)
      (completeRight below (op.moved move) rounds (rhs.moved move)) := by
  induction rounds generalizing rhs with
  | zero => exact .pure _
  | succ rounds ih =>
      refine (MovesTo.look Cursor.operator?_moved).bind fun following => ?_
      rcases following with _ | following
      · exact .pure _
      · refine .ite rfl ?_ (.pure _)
        exact (movesTo_descend hbelow fun _ h => h.climb rhs following.precedence).bind
          fun _ => ih _

theorem movesTo_climbRounds (least : Precedence) (rounds : Nat) (lhs : Formula) :
    MovesTo move (Formula.moved move) (climbRounds declared below least rounds lhs)
      (climbRounds declared below least rounds (lhs.moved move)) := by
  induction rounds generalizing lhs with
  | zero => exact .pure _
  | succ rounds ih =>
      refine (MovesTo.look Cursor.operator?_moved).bind fun op => ?_
      rcases op with _ | op
      · exact .pure _
      · refine .ite rfl (.pure _) ?_
        refine (movesTo_readRightOperand declared hbelow op).bind fun rhs => ?_
        refine movesTo_remaining.bind fun left => ?_
        refine (movesTo_completeRight hbelow op left rhs).bind fun rhs => ?_
        rw [Formula.combine_moved]
        exact ih _

theorem moves_above : Moves move (above declared below) where
  operand := movesTo_readOperand declared hbelow
  climb lhs least :=
    movesTo_remaining.bind fun left => movesTo_climbRounds declared hbelow least left lhs
  group := movesTo_readGroup hbelow

end

/-- Whatever the descents, reading moves with the tokens. -/
theorem moves_ofDescents (move : Nat → Nat) (declared : List String) (descents : Nat) :
    Moves move (ofDescents declared descents) := by
  have hbelow : ∀ l ∈ below? declared descents, Moves move l := by
    induction descents with
    | zero => exact fun l hl => absurd hl (Option.not_mem_none l)
    | succ descents ih =>
        rintro l hl
        obtain rfl := Option.some.inj hl
        exact moves_above declared ih
  exact moves_above declared hbelow

end Level

/-- Brackets have their partners wherever they stand. -/
theorem bracketFaultFrom?_moved (move : Nat → Nat) (unclosed : List Span)
    (tokens : List Token) :
    bracketFaultFrom? (unclosed.map (Span.moved move)) (tokens.map (Token.moved move)) =
      (bracketFaultFrom? unclosed tokens).map (Fault.moved move) := by
  induction tokens generalizing unclosed with
  | nil =>
      simp only [List.map_nil, bracketFaultFrom?, List.getLast?_map]
      cases unclosed.getLast? <;> rfl
  | cons t tokens ih =>
      simp only [List.map_cons, bracketFaultFrom?, Token.kind_moved, Token.span_moved]
      cases t.kind with
      | openBracket => exact ih (t.span :: unclosed)
      | closeBracket =>
          cases unclosed with
          | nil => rfl
          | cons span unclosed => exact ih unclosed
      | _ => exact ih unclosed

/-- Texts whose tokens are the same but for places are read as the same formula, or with the
same fault, but for places. -/
theorem parse_moved {move : Nat → Nat} {text text' : String} {tokens : List Token}
    (declared : List String) (hscan : Token.scan text = .ok tokens)
    (hscan' : Token.scan text' = .ok (tokens.map (Token.moved move))) (hsome : tokens ≠ []) :
    Formula.parse declared text' =
      movedOutcome move (Formula.moved move) (Formula.parse declared text) := by
  by_cases hlength : tokens.length ≤ tokenLimit
  · rw [parse_of_tokensOf (tokensOf_of_length_le hscan hlength),
      parse_of_tokensOf (tokensOf_of_length_le hscan' (by simpa using hlength))]
    have hbrackets := bracketFaultFrom?_moved move [] tokens
    rw [List.map_nil] at hbrackets
    rw [bracketFault?, hbrackets, bracketFault?]
    cases bracketFaultFrom? [] tokens with
    | some fault => rfl
    | none =>
        have hread := ((Level.moves_ofDescents move declared nestingLimit).formula
          (.start tokens) hsome).2
        have hstart : (Cursor.start tokens).moved move = .start (tokens.map (Token.moved move)) :=
          rfl
        simp only [← hstart, hread]
        rcases (Level.ofDescents declared nestingLimit).formula (.start tokens) with
          ⟨fault | e, c⟩
        · rfl
        · simp only [movedOutcome, Cursor.here?_moved]
          cases c.here? <;> rfl
  · have hget := List.getElem?_eq_getElem (Nat.lt_of_not_le hlength)
    rw [parse_of_excess hscan hget,
      parse_of_excess hscan' (by rw [List.getElem?_map, hget]; rfl)]
    rfl

end FormulaGrading
