import FormulaGrading.Proofs.Parsing.Follow
import FormulaGrading.Proofs.Parsing.Outcome

/-!
Every phrase that the grammar derives within limits is read as such, as long as nothing
follows that would be taken into it. What is read is the first operand and then rounds of
operations; a climb asked for tighter operations makes only the first of these rounds,
and whoever asked makes the rest.
-/

namespace FormulaGrading.Level

open Reading

/-- The right operand of an operation, with the operations that are taken into it. -/
def rightOperand (declared : List String) (n : Nat) (op : OperatorMark) : Reading Formula := do
  let rhs ← readRightOperand declared (below? declared n) op
  completeRight (below? declared n) op (← remaining) rhs

/-- Rounds of climbing from a left operand at one place to a larger one at another. Each
passes an operation that binds tightly enough, and its right operand. No rounds are left
to make below the lowest level. -/
inductive Rounds (declared : List String) :
    Nat → Precedence → Formula → Cursor → Formula → Cursor → Prop where
  | nil {later : Nat} {least : Precedence} {e : Formula} {c : Cursor} :
      Rounds declared later least e c e c
  | cons {n : Nat} {least : Precedence} {lhs rhs e : Formula} {c c₁ c' : Cursor}
      {op : OperatorMark} (hop : c.operator? = some op)
      (hleast : least.rank ≤ op.precedence.rank)
      (hright : rightOperand declared n op c = (.ok rhs, c₁))
      (hlt : c₁.after.length < c.after.length)
      (hrest : Rounds declared (n + 1) least (lhs.combine op rhs) c₁ e c') :
      Rounds declared (n + 1) least lhs c e c'

section

variable {declared : List String} {n later : Nat} {least p q : Precedence}
  {lhs e e' : Formula} {c c' c'' : Cursor}

theorem Rounds.loosen (h : Rounds declared later q lhs c e c') (hle : p.rank ≤ q.rank) :
    Rounds declared later p lhs c e c' := by
  induction h with
  | nil => exact .nil
  | cons hop hleast hright hlt _ ih =>
      exact .cons hop (Nat.le_trans hle hleast) hright hlt (ih hle)

theorem Rounds.trans (h : Rounds declared later p lhs c e c')
    (h' : Rounds declared later p e c' e' c'') : Rounds declared later p lhs c e' c'' := by
  induction h with
  | nil => exact h'
  | cons hop hleast hright hlt _ ih => exact .cons hop hleast hright hlt (ih h')

theorem Rounds.length_le (h : Rounds declared later p lhs c e c') :
    c'.after.length ≤ c.after.length := by
  induction h with
  | nil => exact Nat.le_refl _
  | cons _ _ _ hlt _ ih => omega

/-- A climb makes all rounds that lead to a place where it has to stop. -/
theorem climbRounds_of_rounds (h : Rounds declared (n + 1) least lhs c e c')
    (hstops : Stops least c'.after) (rounds : Nat) (hrounds : c.after.length ≤ rounds) :
    climbRounds declared (below? declared n) least rounds lhs c = (.ok e, c') := by
  generalize hlater : n + 1 = later at h
  induction h generalizing rounds with
  | @nil _ least e c =>
      cases rounds with
      | zero => rfl
      | succ rounds =>
          rw [climbRounds, look_bind]
          cases hop : c.operator? with
          | none => rfl
          | some op =>
              have hlooser : op.precedence.looser least = true :=
                decide_eq_true (hstops _ (nextOperation?_of_operator? hop))
              simp only [hlooser, if_true]
              rfl
  | @cons m least lhs rhs e c c₁ c' op hop hleast hright hlt _ ih =>
      obtain rfl : n = m := Nat.succ.inj hlater
      obtain ⟨rounds, rfl⟩ : ∃ k, rounds = k + 1 := ⟨rounds - 1, by omega⟩
      rw [climbRounds, look_bind, hop]
      simp only [looser_eq_false_iff.2 hleast, Bool.false_eq_true, if_false]
      -- one round is the reading of a right operand and the rest of the climb
      have hread : (do
          let rhs ← readRightOperand declared (below? declared n) op
          let rhs ← completeRight (below? declared n) op (← remaining) rhs
          climbRounds declared (below? declared n) least rounds (lhs.combine op rhs) :
            Reading Formula) c =
          (rightOperand declared n op >>= fun rhs =>
            climbRounds declared (below? declared n) least rounds (lhs.combine op rhs)) c := by
        simp only [rightOperand, bind_apply]
        rcases readRightOperand declared (below? declared n) op c with ⟨fault | rhs, c₂⟩ <;>
          rfl
      rw [hread, bind_of_ok hright]
      exact ih hstops rounds (by omega) rfl

theorem climb_of_rounds (h : Rounds declared (n + 1) least lhs c e c')
    (hstops : Stops least c'.after) :
    (ofDescents declared n).climb lhs least c = (.ok e, c') := by
  show readClimb declared (below? declared n) lhs least c = _
  rw [readClimb, remaining, look_bind]
  exact climbRounds_of_rounds h hstops _ (Nat.le_refl _)

/-- Rounds begin with those that a tighter climb makes. -/
theorem Rounds.split (h : Rounds declared later p lhs c e c') (hstops : Stops p c'.after)
    (hle : p.rank ≤ q.rank) :
    ∃ mid c₁, Rounds declared later q lhs c mid c₁ ∧ Stops q c₁.after ∧
      Rounds declared later p mid c₁ e c' := by
  induction h with
  | nil => exact ⟨_, _, .nil, hstops.mono hle, .nil⟩
  | @cons n p lhs rhs e c c₁ c' op hop hleast hright hlt hrest ih =>
      by_cases htight : q.rank ≤ op.precedence.rank
      · obtain ⟨mid, c₂, hfirst, hstops₂, hthen⟩ := ih hstops hle
        exact ⟨mid, c₂, .cons hop htight hright hlt hfirst, hstops₂, hthen⟩
      · refine ⟨lhs, c, .nil, fun next hnext => ?_, .cons hop hleast hright hlt hrest⟩
        rw [nextOperation?_of_operator? hop, Option.some.injEq] at hnext
        rw [← hnext]
        exact Nat.lt_of_not_le htight

/-- Rounds that bind as tightly as right operands do are taken into the right operand,
one climb after the other. -/
theorem completeRight_of_rounds {op : OperatorMark}
    (h : Rounds declared n op.operation.rightOperand lhs c e c')
    (hstops : Stops op.operation.rightOperand c'.after) (rounds : Nat)
    (hrounds : c.after.length ≤ rounds) :
    completeRight (below? declared n) op rounds lhs c = (.ok e, c') := by
  induction rounds generalizing lhs c with
  | zero =>
      cases h with
      | nil => rfl
      | cons _ _ _ hlt _ => omega
  | succ rounds ih =>
      rw [completeRight, look_bind]
      cases h with
      | nil =>
          cases hop : c'.operator? with
          | none => rfl
          | some following =>
              have hlt := hstops _ (nextOperation?_of_operator? hop)
              have htakes : following.takesFrom op = false := by
                rw [← Bool.not_eq_true, takesFrom_iff]
                omega
              simp only [htakes, Bool.false_eq_true, if_false]
              rfl
      | @cons m _ _ rhs _ _ c₁ _ following hop hleast hright hlt hrest =>
          have htakes : following.takesFrom op = true := takesFrom_iff.2 hleast
          simp only [hop, htakes, if_true]
          have hall : Rounds declared (m + 1) op.operation.rightOperand lhs c e c' :=
            .cons hop hleast hright hlt hrest
          obtain ⟨mid, c₂, hfirst, hstops₂, hthen⟩ := hall.split hstops hleast
          have hclimb : descend (below? declared (m + 1))
              (fun level => level.climb lhs following.precedence) c = (.ok mid, c₂) :=
            climb_of_rounds hfirst hstops₂
          rw [bind_of_ok hclimb]
          apply ih hthen
          -- the climb did not stop at once, since the next operation is tight enough
          cases hfirst with
          | nil =>
              have := hstops₂ _ (nextOperation?_of_operator? hop)
              exact absurd this (Nat.lt_irrefl _)
          | cons _ _ _ hlt' hrest' =>
              have := hrest'.length_le
              omega

end

/-- A phrase is read when its first operand is read, and rounds of operations lead from
there to its end. -/
def IsRead (declared : List String) (first later : Nat) (p : Precedence) (c : Cursor)
    (e : Formula) (c' : Cursor) : Prop :=
  c'.tokens = c.tokens ∧ ∃ lhs c₁, (ofDescents declared first).operand c = (.ok lhs, c₁) ∧
    Rounds declared later p lhs c₁ e c'

section

variable {declared : List String} {first later n : Nat} {p q : Precedence}
  {before before' rest : List Token} {t : Token} {e l r : Formula} {c c' c'' : Cursor}

theorem IsRead.loosen (h : IsRead declared first later q c e c') (hle : p.rank ≤ q.rank) :
    IsRead declared first later p c e c' := by
  obtain ⟨htokens, lhs, c₁, hoperand, hrounds⟩ := h
  exact ⟨htokens, lhs, c₁, hoperand, hrounds.loosen hle⟩

/-- One more round behind a phrase. -/
theorem IsRead.combine {op : OperatorMark} (h : IsRead declared first (n + 1) op.precedence c l c')
    (hop : c'.operator? = some op) (hright : rightOperand declared n op c' = (.ok r, c''))
    (hlt : c''.after.length < c'.after.length) (htokens : c''.tokens = c'.tokens) :
    IsRead declared first (n + 1) op.precedence c (l.combine op r) c'' := by
  obtain ⟨htokens', lhs, c₁, hoperand, hrounds⟩ := h
  refine ⟨htokens.trans htokens', lhs, c₁, hoperand, hrounds.trans ?_⟩
  exact .cons hop (Nat.le_refl _) hright hlt .nil

/-- An operand and a climb from it on read a phrase where the climb has to stop. -/
theorem climb_of_isRead (h : IsRead declared n (n + 1) p c e c') (hstops : Stops p c'.after) :
    ((ofDescents declared n).operand >>= fun lhs => (ofDescents declared n).climb lhs p) c =
      (.ok e, c') := by
  obtain ⟨-, lhs, c₁, hoperand, hrounds⟩ := h
  rw [bind_of_ok hoperand]
  exact climb_of_rounds hrounds hstops

theorem formula_of_isRead (h : IsRead declared n (n + 1) .loosest c e c')
    (hnext : nextOperation? c'.after = none) :
    (ofDescents declared n).formula c = (.ok e, c') :=
  climb_of_isRead h (stops_of_none hnext)

/-- The right operand of an operation with a token is a phrase behind that token. -/
theorem rightOperand_of_isRead {operation : Operation}
    (hop : t.kind.operation? = some operation)
    (hopens : (firstKind? rest).any TokenClass.opensOperand)
    (h : IsRead declared n n operation.rightOperand ⟨t :: before, rest⟩ r c')
    (hstops : Stops operation.rightOperand c'.after) :
    rightOperand declared n ⟨operation, false, t.span⟩ ⟨before, t :: rest⟩ = (.ok r, c') := by
  obtain ⟨-, lhs, c₁, hoperand, hrounds⟩ := h
  have hmark : attempt operatorMark ⟨before, t :: rest⟩ =
      (.ok ⟨operation, false, t.span⟩, ⟨t :: before, rest⟩) :=
    attempt_expecting_cons (by simp [hop])
  have hread : readRightOperand declared (below? declared n) ⟨operation, false, t.span⟩
      ⟨before, t :: rest⟩ = (.ok lhs, c₁) := by
    rw [readRightOperand]
    simp only [Bool.false_eq_true, if_false]
    rw [bind_of_ok hmark, look_bind]
    refine (congrFun (if_pos ?_) _).trans hoperand
    cases rest with
    | nil => simp at hopens
    | cons next _ => simpa [Cursor.here?] using hopens
  rw [rightOperand, bind_of_ok hread, remaining, look_bind]
  exact completeRight_of_rounds hrounds hstops _ (Nat.le_refl _)

/-- The right operand of a product without a token is a phrase that begins with an atom. -/
theorem rightOperand_of_isRead_implicit {gap : Span}
    (hopens : t.kind.opensAtom)
    (h : IsRead declared n n .sign ⟨before, t :: rest⟩ r c') (hstops : Stops .sign c'.after) :
    rightOperand declared n ⟨.multiply, true, gap⟩ ⟨before, t :: rest⟩ = (.ok r, c') := by
  obtain ⟨-, lhs, c₁, hoperand, hrounds⟩ := h
  have hread : readRightOperand declared (below? declared n) ⟨.multiply, true, gap⟩
      ⟨before, t :: rest⟩ = (.ok lhs, c₁) := by
    rw [readRightOperand, ← hoperand]
    show _ = readOperand declared (below? declared n) ⟨before, t :: rest⟩
    rw [readOperand, look_bind]
    simp only [Cursor.here?, List.head?_cons, if_true]
    cases hkind : t.kind <;> simp_all [TokenClass.opensAtom]
  rw [rightOperand, bind_of_ok hread, remaining, look_bind]
  refine completeRight_of_rounds ?_ ?_ _ (Nat.le_refl _)
  · exact hrounds
  · exact hstops

/-- An atom is a phrase of which nothing but the first operand is read. -/
theorem isRead_of_readAtom {x : Enclosed} (hopens : t.kind.opensAtom)
    (h : readAtom declared (below? declared first) ⟨before, t :: rest⟩ = (.ok x, c'))
    (htokens : c'.tokens = Cursor.tokens ⟨before, t :: rest⟩) :
    IsRead declared first later p ⟨before, t :: rest⟩ x.inner c' := by
  refine ⟨htokens, x.inner, c', ?_, .nil⟩
  have hatom : (Enclosed.inner <$> attempt (readAtom declared (below? declared first)))
      ⟨before, t :: rest⟩ = (.ok x.inner, c') := by
    rw [map_apply, attempt_apply, h]
    rfl
  rw [← hatom]
  show readOperand declared (below? declared first) ⟨before, t :: rest⟩ = _
  rw [readOperand, look_bind]
  simp only [Cursor.here?, List.head?_cons]
  cases hkind : t.kind <;> simp_all [TokenClass.opensAtom]

theorem readAtom_number {value : Float} (hkind : t.kind = .number)
    (hvalue : Decimal.readUnsigned? t.lexeme.toList = some value) :
    readAtom declared (below? declared n) ⟨before, t :: rest⟩ =
      (.ok (unenclosed (.number value t.span)), ⟨t :: before, rest⟩) := by
  have hnumber : number ⟨before, t :: rest⟩ =
      (.ok (.number value t.span), ⟨t :: before, rest⟩) := by
    rw [number, bind_of_ok (attempt_token_cons hkind), hvalue]
    rfl
  rw [readAtom, look_bind]
  simp only [Cursor.here?, List.head?_cons, hkind]
  rw [map_apply, attempt_of_ok hnumber]
  rfl

theorem readAtom_symbol (hkind : t.kind = .name) (hname : isFunctionName t.lexeme = false)
    (hgroup : firstKind? rest = some .openBracket → multipliesGroup declared t.lexeme) :
    readAtom declared (below? declared n) ⟨before, t :: rest⟩ =
      (.ok (unenclosed (.symbol ⟨t.lexeme, t.span⟩)), ⟨t :: before, rest⟩) := by
  have hnamed : readNamed declared (below? declared n) t ⟨before, t :: rest⟩ =
      (.ok (.symbol ⟨t.lexeme, t.span⟩), ⟨t :: before, rest⟩) := by
    rw [readNamed, hname]
    simp only [Bool.false_eq_true, if_false, look_bind]
    refine (congrFun (if_neg ?_) _).trans ?_
    · cases rest with
      | nil => simp [Cursor.ahead?]
      | cons next _ => simpa [Cursor.ahead?] using hgroup
    · rw [bind_of_ok (attempt_of_ok (symbol_cons hkind))]
      rfl
  rw [readAtom, look_bind]
  simp only [Cursor.here?, List.head?_cons, hkind]
  rw [map_apply, hnamed]
  rfl

/-- A formula in brackets is read one level further down. -/
theorem readGroup_of_isRead {closing : Token} {ts : List Token} (hopen : t.kind = .openBracket)
    (hclose : closing.kind = .closeBracket)
    (h : IsRead declared n (n + 1) .loosest ⟨t :: before, ts⟩ e ⟨before', closing :: rest⟩) :
    readGroup (below? declared (n + 1)) ⟨before, t :: ts⟩ =
      (.ok ⟨e, t.span.join closing.span⟩, ⟨closing :: before', rest⟩) := by
  have hinner : descend (below? declared (n + 1)) formula ⟨t :: before, ts⟩ =
      (.ok e, ⟨before', closing :: rest⟩) :=
    formula_of_isRead h (nextOperation?_of_closeBracket hclose)
  rw [readGroup, bind_of_ok (attempt_token_cons hopen), bind_of_ok hinner]
  rw [bind_apply, orFault, attempt_token_cons hclose]
  rfl

theorem readAtom_group {x : Enclosed} (hopen : t.kind = .openBracket)
    (h : readGroup (below? declared n) ⟨before, t :: rest⟩ = (.ok x, c')) :
    readAtom declared (below? declared n) ⟨before, t :: rest⟩ = (.ok x, c') := by
  rw [readAtom, look_bind]
  simp only [Cursor.here?, List.head?_cons, hopen]
  exact attempt_of_ok h

/-- A function with a group as its argument. -/
theorem readAtom_call {opening : Token} {x : Enclosed} (hkind : t.kind = .name)
    (hname : isFunctionName t.lexeme) (hopen : opening.kind = .openBracket)
    (h : readGroup (below? declared n) ⟨t :: before, opening :: rest⟩ = (.ok x, c')) :
    readAtom declared (below? declared (n + 1)) ⟨before, t :: opening :: rest⟩ =
      (.ok (unenclosed (.call ⟨t.lexeme, t.span⟩ x.inner x.outer (t.span.join x.outer))), c') := by
  have hcall : readCall (below? declared (n + 1)) ⟨before, t :: opening :: rest⟩ =
      (.ok (.call ⟨t.lexeme, t.span⟩ x.inner x.outer (t.span.join x.outer)), c') := by
    have hcurrent : Cursor.currentIs ⟨t :: before, opening :: rest⟩ (· == .openBracket) = true := by
      simp [Cursor.currentIs_eq, hopen]
    have hgroup : descend (below? declared (n + 1)) group ⟨t :: before, opening :: rest⟩ =
        (.ok x, c') := h
    rw [readCall, bind_of_ok (symbol_cons hkind)]
    simp only [hname, look_bind, hcurrent, Bool.not_true, Bool.false_eq_true, if_false]
    rw [bind_of_ok hgroup]
    rfl
  have hnamed : readNamed declared (below? declared (n + 1)) t ⟨before, t :: opening :: rest⟩ =
      (.ok (.call ⟨t.lexeme, t.span⟩ x.inner x.outer (t.span.join x.outer)), c') := by
    rw [readNamed, if_pos hname]
    exact attempt_of_ok hcall
  rw [readAtom, look_bind]
  simp only [Cursor.here?, List.head?_cons, hkind]
  rw [map_apply, hnamed]
  rfl

/-- A sign with its operand, which is read one level further down. -/
theorem operand_signed {sign : Sign} {ts : List Token} (hsign : t.kind.sign? = some sign)
    (hopens : (firstKind? ts).any TokenClass.opensOperand)
    (h : IsRead declared n (n + 1) .sign ⟨t :: before, ts⟩ e c')
    (hstops : Stops .sign c'.after) :
    (ofDescents declared (n + 1)).operand ⟨before, t :: ts⟩ =
      (.ok (.signed ⟨sign, t.span⟩ e (t.span.join e.span)), c') := by
  have hmark : attempt signMark ⟨before, t :: ts⟩ =
      (.ok ⟨sign, t.span⟩, ⟨t :: before, ts⟩) :=
    attempt_expecting_cons (by simp [hsign])
  have hoperand : descend (below? declared (n + 1)) (fun level => do
      let lhs ← level.operand
      level.climb lhs sign.precedence) ⟨t :: before, ts⟩ = (.ok e, c') :=
    climb_of_isRead h hstops
  have hread : readSigned (below? declared (n + 1)) ⟨before, t :: ts⟩ =
      (.ok (.signed ⟨sign, t.span⟩ e (t.span.join e.span)), c') := by
    rw [readSigned, bind_of_ok hmark, look_bind, Cursor.currentIs_eq, hopens]
    simp only [Bool.not_true, Bool.false_eq_true, if_false]
    rw [bind_of_ok hoperand]
    rfl
  show readOperand declared (below? declared (n + 1)) ⟨before, t :: ts⟩ = _
  rw [readOperand, look_bind]
  simp only [Cursor.here?, List.head?_cons]
  cases hkind : t.kind <;> simp_all [TokenClass.sign?]

end

/-- A phrase is read as such if nothing follows that would be taken into it. -/
theorem isRead_of_within {declared : List String} {first later : Nat} {p : Precedence}
    {ts rest : List Token} {e : Formula}
    (h : DerivesWithin declared first later p ts e rest) (hfits : Fits p rest)
    (before : List Token) :
    ∃ before', IsRead declared first later p ⟨before, ts⟩ e ⟨before', rest⟩ := by
  induction h generalizing before with
  | loosen hle _ ih =>
      obtain ⟨before', hread⟩ := ih (hfits.mono hle) before
      exact ⟨before', hread.loosen hle⟩
  | @binary first n op ts ts' rest t l r hop hl hr ihl ihr =>
      have hleft : Fits op.leftOperand (t :: ts') := by
        intro next hnext
        simp only [nextOperation?, hop, Option.some.injEq] at hnext
        exact Nat.le_of_eq (by rw [hnext])
      have hstops : Stops op.rightOperand rest := fits_precedence_iff.1 hfits
      obtain ⟨before₁, hreadl⟩ := ihl hleft before
      obtain ⟨before', hreadr⟩ := ihr hstops.fits (t :: before₁)
      refine ⟨before', ?_⟩
      have hnext : Cursor.operator? ⟨before₁, t :: ts'⟩ = some ⟨op, false, t.span⟩ := by
        simp [Cursor.operator?, Cursor.here?, hop]
      exact (hreadl.loosen (Operation.precedence_le_leftOperand op)).combine hnext
        (rightOperand_of_isRead hop hr.derives.opensOperand hreadr hstops)
        (Nat.lt_succ_of_lt hr.derives.length_lt)
        (hreadr.1.trans (Cursor.tokens_pass ..))
  | @adjacent first n ts ts₁ ts₂ rest last next l r hts hl hr ihl ihr =>
      have hatom : next.kind.opensAtom := by simpa using hr.derives.opensAtom (by decide)
      have hleft : Fits .product (next :: ts₂) := by
        intro op hop
        rw [nextOperation?_of_opensAtom hatom, Option.some.injEq] at hop
        rw [← hop]
        decide
      have hstops : Stops .sign rest :=
        fits_precedence_iff.1 (show Fits Operation.multiply.precedence rest from hfits)
      obtain ⟨before₁, hreadl⟩ := ihl hleft before
      obtain ⟨before', hreadr⟩ := ihr (hfits.mono (by decide)) before₁
      refine ⟨before', ?_⟩
      -- the token behind the gap is the last one of the left operand
      obtain ⟨passed, rfl⟩ : ∃ passed, before₁ = last :: passed := by
        have htokens : before₁.reverse ++ (next :: ts₂) =
            (before.reverse ++ ts₁ ++ [last]) ++ (next :: ts₂) := by
          simpa [Cursor.tokens, hts] using hreadl.1
        have hreverse := congrArg List.reverse (List.append_cancel_right htokens)
        exact ⟨ts₁.reverse ++ before, by simpa using hreverse⟩
      have hnext : Cursor.operator? ⟨last :: passed, next :: ts₂⟩ =
          some ⟨.multiply, true, last.span.gap next.span⟩ := by
        cases hkind : next.kind <;> simp_all [TokenClass.opensAtom] <;>
          simp [Cursor.operator?, Cursor.here?, Cursor.behind?, hkind, TokenClass.operation?,
            TokenClass.opensAtom, Span.gap]
      exact hreadl.combine hnext
        (rightOperand_of_isRead_implicit hatom (hreadr.loosen (by decide)) hstops)
        hr.derives.length_lt hreadr.1
  | @signed n later sign ts rest t e hsign he ih =>
      obtain ⟨before', hread⟩ := ih hfits (t :: before)
      refine ⟨before', hread.1.trans (Cursor.tokens_pass ..), _, _, ?_, .nil⟩
      exact operand_signed hsign he.derives.opensOperand hread hfits.stops_sign
  | @number first later t rest value hkind hvalue =>
      exact ⟨t :: before, isRead_of_readAtom (by simp [hkind, TokenClass.opensAtom])
        (readAtom_number hkind hvalue) (Cursor.tokens_pass ..)⟩
  | @symbol first later t rest hkind hname hgroup =>
      exact ⟨t :: before, isRead_of_readAtom (by simp [hkind, TokenClass.opensAtom])
        (readAtom_symbol hkind hname hgroup) (Cursor.tokens_pass ..)⟩
  | @call n later f opening closing ts rest e hf hname hopen hclose _ ih =>
      have hend : Fits .loosest (closing :: rest) :=
        (stops_of_none (nextOperation?_of_closeBracket hclose)).fits
      obtain ⟨before', hread⟩ := ih hend (opening :: f :: before)
      refine ⟨closing :: before', ?_⟩
      refine isRead_of_readAtom (by simp [hf, TokenClass.opensAtom])
        (readAtom_call hf hname hopen (readGroup_of_isRead hopen hclose hread)) ?_
      have htokens := hread.1
      simp only [Cursor.tokens] at htokens ⊢
      simpa using htokens
  | @group n later opening closing ts rest e hopen hclose _ ih =>
      have hend : Fits .loosest (closing :: rest) :=
        (stops_of_none (nextOperation?_of_closeBracket hclose)).fits
      obtain ⟨before', hread⟩ := ih hend (opening :: before)
      refine ⟨closing :: before', ?_⟩
      refine isRead_of_readAtom (by simp [hopen, TokenClass.opensAtom])
        (readAtom_group hopen (readGroup_of_isRead hopen hclose hread)) ?_
      have htokens := hread.1
      simp only [Cursor.tokens] at htokens ⊢
      simpa using htokens

end FormulaGrading.Level
