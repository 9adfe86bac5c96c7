import FormulaGrading.Proofs.Parsing.Passing
import FormulaGrading.Proofs.Parsing.Whole

/-!
How deep reading goes. A level down is only entered behind a token that was passed at the level
above, so with at least as many descents as tokens nothing is nested too deeply. What is read is
as low as that, too: every node of a formula has a token of its own, but for products without a
token, and of these there are fewer than atoms.
-/

namespace FormulaGrading

/-- Whether a cause is nesting that is too deep. -/
def Cause.IsTooDeep : Cause → Prop
  | .tooDeep _ => True
  | _ => False

/-! ### Short texts -/

namespace Reading

variable {α β : Type} {k m n : Nat}

/-- Whether a reading with fewer than a number of tokens ahead does not end in nesting that is
too deep. -/
def Shallow (n : Nat) (r : Reading α) : Prop :=
  ∀ c, c.after.length < n → ∀ fault, (r c).1 = .error fault → ¬fault.cause.IsTooDeep

theorem Shallow.pure (a : α) : Shallow n (pure a : Reading α) :=
  fun _ _ _ h => nomatch h

theorem Shallow.fail {fault : Fault} (h : ¬fault.cause.IsTooDeep) :
    Shallow n (fail fault : Reading α) := by
  rintro c - fault' heq
  rwa [← Except.error.inj heq]

theorem Shallow.failHere {cause : Cause} (h : ¬cause.IsTooDeep) :
    Shallow n (failHere cause : Reading α) := by
  rintro c - fault heq
  rwa [← Except.error.inj heq]

/-- What a reading passes is no longer ahead. -/
theorem Passes.length_le {r : Reading α} (h : Passes m r) {c c' : Cursor} {a : α}
    (hr : r c = (.ok a, c')) : c'.after.length + m ≤ c.after.length := by
  have htokens := congrArg List.length (h.tokens c)
  have hpassed := h.passed c a (by rw [hr])
  simp only [hr, Cursor.tokens, Cursor.position, List.length_append, List.length_reverse]
    at htokens hpassed
  omega

/-- The second part of a sequence has fewer tokens ahead, by those that the first part
passed. -/
theorem Shallow.bind {r : Reading α} {f : α → Reading β} (h : Shallow n r) (hpasses : Passes m r)
    (hf : ∀ a, Shallow k (f a)) (hle : n ≤ k + m) : Shallow n (r >>= f) := by
  intro c hc fault hfault
  rw [bind_apply] at hfault
  rcases hr : r c with ⟨fault' | a, c'⟩
  · rw [hr] at hfault
    obtain rfl : fault' = fault := Except.error.inj hfault
    exact h c hc fault' (by rw [hr])
  · rw [hr] at hfault
    have := hpasses.length_le hr
    exact hf a c' (by omega) fault hfault

theorem Shallow.lookBind {f : Cursor → α} {g : α → Reading β} (hg : ∀ a, Shallow n (g a)) :
    Shallow n (Reading.look f >>= g) :=
  fun c hc fault hfault => hg (f c) c hc fault hfault

theorem Shallow.map {r : Reading α} (h : Shallow n r) (f : α → β) : Shallow n (f <$> r) := by
  intro c hc fault hfault
  rw [map_apply] at hfault
  cases hr : (r c).1 with
  | error fault' =>
      rw [hr] at hfault
      exact Except.error.inj hfault ▸ h c hc fault' hr
  | ok a =>
      rw [hr] at hfault
      exact nomatch hfault

theorem Shallow.ite {b : Prop} [Decidable b] {r s : Reading α} (hr : Shallow n r)
    (hs : Shallow n s) : Shallow n (if b then r else s) := by
  split
  · exact hr
  · exact hs

theorem Shallow.attempt {r : Reading α} (h : Shallow n r) : Shallow n (attempt r) := by
  intro c hc fault hfault
  rw [attempt_fst] at hfault
  exact h c hc fault hfault

theorem Shallow.orFault {r : Reading α} {fault : Fault} (h : ¬fault.cause.IsTooDeep) :
    Shallow n (orFault r fault) := by
  rintro c - fault' hfault
  rw [Reading.orFault] at hfault
  rcases hr : r c with ⟨fault'' | a, c'⟩
  · rw [hr] at hfault
    exact Except.error.inj hfault ▸ h
  · rw [hr] at hfault
    cases hfault

theorem shallow_expecting (kinds : List TokenClass) (f : Token → Option α) :
    Shallow n (expecting kinds f) := by
  have hnext : Shallow n next := by
    rintro c - fault hfault
    rw [next] at hfault
    cases hnext : c.next? with
    | none =>
        rw [hnext] at hfault
        obtain rfl := Except.error.inj hfault
        exact id
    | some passed =>
        rw [hnext] at hfault
        cases hfault
  refine hnext.bind (k := n) passes_next (fun t => ?_) (Nat.le_add_right n 1)
  cases f t with
  | none => exact .fail id
  | some a => exact .pure a

theorem shallow_symbol : Shallow n symbol :=
  (shallow_expecting _ _).attempt.bind (passes_expecting ..).attempt (fun _ => .pure _)
    (Nat.le_add_right n 1)

theorem shallow_number : Shallow n number := by
  refine (shallow_expecting _ _).attempt.bind (k := n) (passes_expecting ..).attempt (fun t => ?_)
    (Nat.le_add_right n 1)
  cases Decimal.readUnsigned? t.lexeme.toList with
  | none => exact .fail id
  | some value => exact .pure _

end Reading

namespace Level

open Reading

/-- Whether the readings that a level offers are shallow. -/
structure Shallow (n : Nat) (l : Level) : Prop where
  operand : Reading.Shallow n l.operand
  climb : ∀ lhs least, Reading.Shallow n (l.climb lhs least)
  group : Reading.Shallow n l.group

theorem Shallow.formula {n : Nat} {l : Level} (h : l.Shallow n) (hpasses : l.Passes) :
    Reading.Shallow n l.formula :=
  h.operand.bind hpasses.operand (fun lhs => h.climb lhs .loosest) (Nat.le_add_right n 1)

section

variable (declared : List String) (n : Nat)
  (hbelow : ∀ l ∈ below? declared n, l.Shallow n)
include hbelow

/-- At the lowest level the bound says that there is no token ahead at all, not even the end. -/
theorem shallow_descend {α : Type} {f : Level → Reading α}
    (hf : ∀ l : Level, l.Shallow n → l.Passes → Reading.Shallow n (f l)) :
    Reading.Shallow n (descend (below? declared n) f) := by
  cases n with
  | zero => exact fun c hc => absurd hc (Nat.not_lt_zero _)
  | succ n =>
      have hsome := Option.mem_some_self (above declared (below? declared n))
      exact hf _ (hbelow _ hsome) (passes_below declared (n + 1) _ hsome)

theorem shallow_readGroup : Reading.Shallow (n + 1) (readGroup (below? declared n)) := by
  have hpasses := passes_below declared n
  refine (shallow_expecting _ _).attempt.bind (k := n) (passes_expecting ..).attempt
    (fun opening => ?_) (Nat.le_refl _)
  refine (shallow_descend declared n hbelow fun _ h hl => h.formula hl).bind (k := n)
    (passes_descend hpasses fun _ hl => hl.formula) (fun inner => ?_) (Nat.le_add_right n 1)
  refine (Reading.Shallow.orFault ?_).bind ((passes_expecting ..).attempt.orFault _)
    (fun _ => .pure _) (Nat.le_add_right n 1)
  exact id

theorem shallow_readCall : Reading.Shallow (n + 1) (readCall (below? declared n)) := by
  have hpasses := passes_below declared n
  refine shallow_symbol.bind (k := n) passes_symbol (fun function => ?_) (Nat.le_refl _)
  refine .ite (.fail id) (.lookBind fun _ => .ite (.fail id) ?_)
  exact (shallow_descend declared n hbelow fun _ h _ => h.group).bind
    (passes_descend hpasses fun _ hl => hl.group) (fun _ => .pure _) (Nat.le_add_right n 1)

theorem shallow_readNamed (name : Token) :
    Reading.Shallow (n + 1) (readNamed declared (below? declared n) name) :=
  .ite (shallow_readCall declared n hbelow).attempt
    (.lookBind fun _ => .ite (.failHere id) (shallow_symbol.attempt.bind passes_symbol.attempt
      (fun _ => .pure _) (Nat.le_add_right _ 1)))

theorem shallow_readAtom :
    Reading.Shallow (n + 1) (readAtom declared (below? declared n)) := by
  refine .lookBind fun here => ?_
  rcases here with _ | t
  · exact .failHere id
  · dsimp only
    cases t.kind with
    | number => exact shallow_number.attempt.map _
    | name => exact (shallow_readNamed declared n hbelow t).map _
    | openBracket => exact (shallow_readGroup declared n hbelow).attempt
    | _ => exact .failHere id

theorem shallow_readSigned : Reading.Shallow (n + 1) (readSigned (below? declared n)) := by
  have hpasses := passes_below declared n
  refine (shallow_expecting _ _).attempt.bind (k := n) (passes_expecting ..).attempt
    (fun mark => ?_) (Nat.le_refl _)
  refine .lookBind fun _ => .ite (.fail id) ?_
  refine (shallow_descend declared n hbelow fun _ h hl => ?_).bind (m := 0) (k := n)
    (passes_descend hpasses fun _ hl => ?_) (fun _ => .pure _) (Nat.le_refl _)
  · exact h.operand.bind hl.operand (fun lhs => h.climb lhs _) (Nat.le_add_right n 1)
  · exact (hl.operand.bindLeft fun lhs => hl.climb lhs _).mono (Nat.zero_le 1)

theorem shallow_readOperand :
    Reading.Shallow (n + 1) (readOperand declared (below? declared n)) := by
  refine .lookBind fun here => ?_
  rcases here with _ | t
  · exact .failHere id
  · dsimp only
    cases t.kind with
    | add | subtract => exact shallow_readSigned declared n hbelow
    | number | name | openBracket => exact (shallow_readAtom declared n hbelow).attempt.map _
    | _ => exact .failHere id

omit hbelow in
theorem not_isTooDeep_danglingFault (op : OperatorMark) (following : Option TokenClass) :
    ¬(danglingFault op following).cause.IsTooDeep := by
  unfold danglingFault
  dsimp only
  split <;> exact id

theorem shallow_readRightOperand (op : OperatorMark) :
    Reading.Shallow (n + 1) (readRightOperand declared (below? declared n) op) := by
  refine .ite ((shallow_readAtom declared n hbelow).attempt.map _) ?_
  refine (shallow_expecting _ _).attempt.bind (k := n + 1) (passes_expecting ..).attempt
    (fun _ => .lookBind fun following => ?_) (Nat.le_add_right _ 1)
  exact .ite (shallow_readOperand declared n hbelow)
    (.fail (not_isTooDeep_danglingFault op following))

/-- Behind a right operand a token has been passed, so that there is room for what is taken
into it. -/
theorem shallow_completeRight (op : OperatorMark) (rounds : Nat) (rhs : Formula) :
    Reading.Shallow n (completeRight (below? declared n) op rounds rhs) := by
  induction rounds generalizing rhs with
  | zero => exact .pure _
  | succ rounds ih =>
      refine .lookBind fun following => ?_
      rcases following with _ | following
      · exact .pure _
      · refine .ite ?_ (.pure _)
        exact (shallow_descend declared n hbelow fun _ h _ => h.climb rhs following.precedence).bind
          (passes_descend (passes_below declared n) fun _ hl => hl.climb rhs following.precedence)
          ih (Nat.le_refl n)

theorem shallow_climbRounds (least : Precedence) (rounds : Nat) (lhs : Formula) :
    Reading.Shallow (n + 1) (climbRounds declared (below? declared n) least rounds lhs) := by
  have hpasses := passes_below declared n
  induction rounds generalizing lhs with
  | zero => exact .pure _
  | succ rounds ih =>
      refine .lookBind fun op => ?_
      rcases op with _ | op
      · exact .pure _
      · refine .ite (.pure _) ?_
        refine (shallow_readRightOperand declared n hbelow op).bind (k := n)
          (passes_readRightOperand declared hpasses op) (fun rhs => .lookBind fun left => ?_)
          (Nat.le_refl _)
        -- an operand has been passed, so the next round has a level to spare
        refine (shallow_completeRight declared n hbelow op left rhs).bind
          (passes_completeRight hpasses op left rhs) (fun rhs => ?_) (Nat.le_refl n)
        exact fun c hc => ih _ c (Nat.lt_succ_of_lt hc)

theorem shallow_above : (above declared (below? declared n)).Shallow (n + 1) where
  operand := shallow_readOperand declared n hbelow
  climb lhs least := .lookBind fun left => shallow_climbRounds declared n hbelow least left lhs
  group := shallow_readGroup declared n hbelow

end

theorem shallow_below (declared : List String) (n : Nat) :
    ∀ l ∈ below? declared n, l.Shallow n := by
  induction n with
  | zero => exact fun l hl => absurd hl (Option.not_mem_none l)
  | succ n ih =>
      rintro l hl
      obtain rfl := Option.some.inj hl
      exact shallow_above declared n ih

/-- With as many descents as there are tokens ahead nothing is nested too deeply. -/
theorem shallow_ofDescents (declared : List String) (n : Nat) :
    (ofDescents declared n).Shallow (n + 1) :=
  shallow_above declared n (shallow_below declared n)

end Level

section

variable {declared : List String} {text : String}

/-- Only texts with more tokens than levels are nested too deeply. -/
theorem length_of_isTooDeep {fault : Fault} (h : Formula.parse declared text = .error fault)
    (hdeep : fault.cause.IsTooDeep) :
    ∃ tokens, Token.scan text = .ok tokens ∧ nestingLimit < tokens.length := by
  cases hscan : Token.scan text with
  | error found =>
      obtain rfl := Except.error.inj ((parse_of_scan_error hscan).symm.trans h)
      obtain ⟨span, lexeme, rfl⟩ := Token.eq_of_scanFrom_eq_error hscan
      exact hdeep.elim
  | ok tokens =>
      refine ⟨tokens, rfl, Nat.lt_of_not_le fun hshort => ?_⟩
      have hlength : tokens.length ≤ tokenLimit := Nat.le_trans hshort (by decide)
      cases hbracket : bracketFault? tokens with
      | some found =>
          obtain rfl := Except.error.inj
            ((parse_of_unbalanced hscan hlength hbracket).symm.trans h)
          obtain ⟨span, rfl | rfl⟩ := cause_of_bracketFaultFrom? hbracket <;> exact hdeep.elim
      | none =>
          rw [parse_of_balanced hscan hlength (bracketFault?_eq_none_iff.1 hbracket)] at h
          have hshallow := (Level.shallow_ofDescents declared nestingLimit).formula
            (Level.passes_ofDescents declared nestingLimit)
          exact hshallow (.start tokens) (Nat.lt_succ_of_le hshort) fault h hdeep

end

/-! ### Low trees -/

/-- The number of nodes on the longest way down from the root. -/
def Formula.height : Formula → Nat
  | .number .. | .symbol _ => 1
  | .signed _ operand _ => operand.height + 1
  | .binary lhs _ rhs _ => max lhs.height rhs.height + 1
  | .call _ argument .. => argument.height + 1

namespace Phrase

variable {ts : List Token} {e : Formula}

theorem length_pos (h : Phrase ts e) : 0 < ts.length := by
  rw [List.length_pos_iff]
  cases h <;> simp

/-- A product without a token is no higher than its tokens, since each operand has one that the
other one has not. -/
theorem height_le (h : Phrase ts e) : e.height ≤ ts.length := by
  induction h with
  | binary _ _ _ ihl ihr =>
      simp only [Formula.combine, Formula.height, List.length_append, List.length_cons]
      omega
  | adjacent hl hr ihl ihr =>
      have := hl.length_pos
      have := hr.length_pos
      simp only [Formula.combine, Formula.height, List.length_append, List.length_cons,
        List.length_nil] at *
      omega
  | signed _ _ ih => exact Nat.succ_le_succ ih
  | number | symbol => exact Nat.le_refl 1
  | call _ _ _ _ _ ih =>
      simp only [Formula.height, List.length_append, List.length_cons, List.length_nil]
      omega
  | group _ _ _ ih =>
      simp only [List.length_append, List.length_cons, List.length_nil]
      omega

/-- Two operands side by side leave room for their product. -/
theorem size_lt (h : Phrase ts e) : e.size < 2 * ts.length := by
  induction h with
  | number | symbol => exact Nat.lt_succ_self 1
  | _ =>
      simp only [Formula.combine, Formula.size, List.length_append, List.length_cons,
        List.length_nil] at *
      omega

end Phrase

/-- What is refused as too deep has more tokens than there are levels, and what is read is as low
and as small as its tokens are few. -/
theorem parse_shallow (declared : List String) (text : String) :
    (∀ fault, Formula.parse declared text = .error fault → fault.cause.IsTooDeep →
      ∃ tokens, Token.scan text = .ok tokens ∧ 256 < tokens.length) ∧
    ∀ e, Formula.parse declared text = .ok e →
      ∃ tokens, Token.scan text = .ok tokens ∧ tokens.length ≤ 1024 ∧
        e.height ≤ tokens.length ∧ e.size < 2 * tokens.length := by
  refine ⟨fun fault h hdeep => length_of_isTooDeep h hdeep, fun e h => ?_⟩
  obtain ⟨tokens, hscan, hlength, -, -⟩ := exists_within_of_parse h
  obtain ⟨tokens', hscan', hphrase⟩ := exists_phrase_of_parse h
  obtain rfl := Except.ok.inj (hscan.symm.trans hscan')
  exact ⟨tokens, hscan, hlength, hphrase.height_le, hphrase.size_lt⟩

/-- Names in a row meet both bounds. -/
theorem parse_shallow_product :
    ∃ e tokens, Formula.parse [] "x y z" = .ok e ∧ Token.scan "x y z" = .ok tokens ∧
      tokens.length = 3 ∧ e.height = 3 ∧ e.size = 5 ∧ e.height ≤ tokens.length ∧
      e.size < 2 * tokens.length := by
  have hparse : (Formula.parse [] "x y z").toOption.map (fun e => (e.height, e.size)) =
      some (3, 5) := by decide +kernel
  have hcount : (Token.scan "x y z").toOption.map List.length = some 3 := by decide +kernel
  cases hresult : Formula.parse [] "x y z" with
  | error fault => exact nomatch hresult ▸ hparse
  | ok e =>
      obtain ⟨tokens, hscan, -, hheight, hsize⟩ := (parse_shallow [] "x y z").2 e hresult
      rw [hresult] at hparse
      rw [hscan] at hcount
      obtain ⟨hheight', hsize'⟩ := Prod.mk.inj (Option.some.inj hparse)
      exact ⟨e, tokens, rfl, hscan, Option.some.inj hcount, hheight', hsize', hheight, hsize⟩

end FormulaGrading
