import FormulaGrading.Proofs.Parsing.Passing
import FormulaGrading.Proofs.Parsing.Sound

/-!
Climbing from any place, with any left operand, and down to any precedence. The two loops are
described once more as runs that have no bound on their rounds: `Completes` extends a right
operand, and `Climbs` extends a left operand. Each run is the only one from where it begins,
and has as many rounds as tokens are passed at most. A round that completes takes in an
operation that was only looked at; the climb further down passes it, since it asks for no
tighter operation than that one.
-/

namespace FormulaGrading

theorem Cursor.position_add_length (c : Cursor) :
    c.position + c.after.length = c.tokens.length := by
  simp [position, tokens]

/-- Fewer tokens are left further on in a row. -/
theorem Cursor.length_lt_iff_position_lt {c c' : Cursor} (htokens : c'.tokens = c.tokens) :
    c'.after.length < c.after.length ↔ c.position < c'.position := by
  have hplace := c.position_add_length
  have hplace' := c'.position_add_length
  rw [htokens] at hplace'
  omega

theorem Cursor.exists_length_eq_of_operator? {c : Cursor} {op : OperatorMark}
    (h : c.operator? = some op) : ∃ left, c.after.length = left + 1 := by
  obtain ⟨t, rest, hafter, -⟩ := eq_cons_of_operator? h
  exact ⟨rest.length, by simp [hafter]⟩

namespace Level

open Reading

/-- A number of rounds that extend the right operand of an operation, up to where no operation
takes it away any more or a fault is met. The round that meets a fault is not counted. -/
inductive Completes (below : Option Level) (op : OperatorMark) :
    Nat → Formula → Cursor → Except Fault Formula × Cursor → Prop where
  | stop {rhs : Formula} {c : Cursor}
      (hstop : ∀ following, c.operator? = some following → following.takesFrom op = false) :
      Completes below op 0 rhs c (.ok rhs, c)
  | fault {rhs : Formula} {c c' : Cursor} {following : OperatorMark} {fault : Fault}
      (hnext : c.operator? = some following) (htakes : following.takesFrom op)
      (hread : descend below (fun level => level.climb rhs following.precedence) c =
        (.error fault, c')) :
      Completes below op 0 rhs c (.error fault, c')
  | round {n : Nat} {rhs extended : Formula} {c c' : Cursor} {following : OperatorMark}
      {result : Except Fault Formula × Cursor}
      (hnext : c.operator? = some following) (htakes : following.takesFrom op)
      (hread : descend below (fun level => level.climb rhs following.precedence) c =
        (.ok extended, c'))
      (hrest : Completes below op n extended c' result) :
      Completes below op (n + 1) rhs c result

/-- The operation that was seen to come next is passed with its right operand, which a number
of rounds complete. -/
inductive TakesOperand (declared : List String) (below : Option Level) (op : OperatorMark) :
    Nat → Cursor → Except Fault Formula × Cursor → Prop where
  | fault {c c' : Cursor} {fault : Fault}
      (hread : readRightOperand declared below op c = (.error fault, c')) :
      TakesOperand declared below op 0 c (.error fault, c')
  | completed {n : Nat} {rhs : Formula} {c c' : Cursor}
      {result : Except Fault Formula × Cursor}
      (hread : readRightOperand declared below op c = (.ok rhs, c'))
      (hcompletes : Completes below op n rhs c' result) :
      TakesOperand declared below op n c result

/-- A number of rounds that extend a left operand, up to where no operation binds tightly
enough any more or a fault is met. The rounds that complete right operands are counted as
well, and again the round that meets a fault is not. -/
inductive Climbs (declared : List String) (below : Option Level) (least : Precedence) :
    Nat → Formula → Cursor → Except Fault Formula × Cursor → Prop where
  | stop {lhs : Formula} {c : Cursor}
      (hstop : ∀ op, c.operator? = some op → op.precedence.looser least) :
      Climbs declared below least 0 lhs c (.ok lhs, c)
  | fault {m : Nat} {lhs : Formula} {c c' : Cursor} {op : OperatorMark} {fault : Fault}
      (hnext : c.operator? = some op) (htight : op.precedence.looser least = false)
      (hoperand : TakesOperand declared below op m c (.error fault, c')) :
      Climbs declared below least m lhs c (.error fault, c')
  | round {m n : Nat} {lhs rhs : Formula} {c c' : Cursor} {op : OperatorMark}
      {result : Except Fault Formula × Cursor}
      (hnext : c.operator? = some op) (htight : op.precedence.looser least = false)
      (hoperand : TakesOperand declared below op m c (.ok rhs, c'))
      (hrest : Climbs declared below least n (lhs.combine op rhs) c' result) :
      Climbs declared below least (1 + m + n) lhs c result

/-- Down the left operands of a formula a given operand is reached, behind which the formula
was read on from a place. The operations passed on the way bind tightly enough, and where
their right operands end no operation comes next that binds tighter, or equally if they are
powers. -/
inductive LeftSpine (declared : List String) (least : Precedence) (lhs : Formula)
    (start : Cursor) : Formula → Cursor → Prop where
  | operand : LeftSpine declared least lhs start lhs start
  | combine {e rhs : Formula} {c c' : Cursor} {op : OperatorMark}
      (he : LeftSpine declared least lhs start e c)
      (hnext : c.operator? = some op) (hleast : least.rank ≤ op.precedence.rank)
      (hrhs : Derives declared (rightLayer op) (c.behindOperator op).after rhs c'.after)
      (htokens : c'.tokens = c.tokens)
      (hends : ∀ following, c'.operator? = some following →
        following.precedence.rank ≤ op.precedence.rank ∧
          (following.precedence = op.precedence → op.operation ≠ .power)) :
      LeftSpine declared least lhs start (e.combine op rhs) c'

/-- Of the runs from a place there is just one. It has the given outcome, and as many rounds as
tokens are passed at most. -/
def EndsInRounds (runs : Nat → Except Fault Formula × Cursor → Prop) (c : Cursor)
    (result : Except Fault Formula × Cursor) : Prop :=
  ∃ rounds, (∀ n r, runs n r ↔ n = rounds ∧ r = result) ∧
    c.position + rounds ≤ result.2.position

theorem EndsInRounds.of_unique {runs : Nat → Except Fault Formula × Cursor → Prop}
    {c : Cursor} {rounds : Nat} {result : Except Fault Formula × Cursor}
    (hrun : runs rounds result) (hunique : ∀ n r, runs n r → n = rounds ∧ r = result)
    (hle : c.position + rounds ≤ result.2.position) : EndsInRounds runs c result := by
  refine ⟨rounds, fun n r => ⟨hunique n r, ?_⟩, hle⟩
  rintro ⟨rfl, rfl⟩
  exact hrun

/-- Where right operands of an operation end, what comes next binds no tighter than the
operation, and not equally if it is a power. -/
theorem rank_le_of_stops {c : Cursor} {op following : OperatorMark}
    (hstops : Stops op.operation.rightOperand c.after) (hnext : c.operator? = some following) :
    following.precedence.rank ≤ op.precedence.rank ∧
      (following.precedence = op.precedence → op.operation ≠ .power) := by
  have hlt := hstops _ (nextOperation?_of_operator? hnext)
  revert hlt
  simp only [OperatorMark.precedence]
  cases following.operation <;> cases op.operation <;> decide

/-- Where a formula was read on, it was extended. -/
theorem LeftSpine.eq_or_position_lt {declared : List String} {least : Precedence}
    {lhs e : Formula} {start c : Cursor} (h : LeftSpine declared least lhs start e c) :
    (c = start ∧ e = lhs) ∨ start.position < c.position := by
  induction h with
  | operand => exact .inl ⟨rfl, rfl⟩
  | @combine e rhs c c' op he hnext hleast hrhs htokens hends ih =>
      have hlt : c.position < c'.position := (Cursor.length_lt_iff_position_lt htokens).1
        (Nat.lt_of_lt_of_le hrhs.length_lt (c.length_behindOperator_le op))
      obtain ⟨rfl, -⟩ | hpassed := ih
      · exact .inr hlt
      · exact .inr (Nat.lt_trans hpassed hlt)

/-! ### Progress -/

theorem passes_takeOperand (declared : List String) {below : Option Level}
    (hbelow : ∀ l ∈ below, l.Passes) (op : OperatorMark) :
    Reading.Passes 1 (takeOperand declared below op) :=
  (passes_readRightOperand declared hbelow op).bindLeft fun rhs =>
    .lookBind fun left => passes_completeRight hbelow op left rhs

/-- Whether a level goes forward, and passes a token at least when it climbs from where an
operation comes next that binds tightly enough. -/
structure Advances (l : Level) : Prop where
  passes : l.Passes
  climb : ∀ {lhs e : Formula} {least : Precedence} {c c' : Cursor} {op : OperatorMark},
    c.operator? = some op → op.precedence.looser least = false →
      l.climb lhs least c = (.ok e, c') → c.position < c'.position

/-- The first round passes the operation, or the operand behind it if the operation is a
product without a token. -/
theorem advances_above (declared : List String) {below : Option Level}
    (hbelow : ∀ l ∈ below, l.Passes) : (above declared below).Advances where
  passes := passes_above declared hbelow
  climb := by
    intro lhs e least c c' op hnext htight hread
    change climbRounds declared below least c.after.length lhs c = (.ok e, c') at hread
    obtain ⟨rounds, hlength⟩ := Cursor.exists_length_eq_of_operator? hnext
    rw [hlength, climbRounds_succ hnext htight] at hread
    have hpasses : Reading.Passes 1 (takeOperand declared below op >>= fun rhs =>
        climbRounds declared below least rounds (lhs.combine op rhs)) :=
      (passes_takeOperand declared hbelow op).bindLeft fun rhs =>
        passes_climbRounds declared hbelow least rounds (lhs.combine op rhs)
    have hpassed := hpasses.passed c e (by rw [hread])
    rwa [hread] at hpassed

theorem advances_below (declared : List String) (descents : Nat) :
    ∀ l ∈ below? declared descents, l.Advances := by
  intro l hl
  cases descents with
  | zero => exact absurd hl (Option.not_mem_none l)
  | succ descents =>
      obtain rfl := Option.some.inj hl
      exact advances_above declared (passes_below declared descents)

section

variable {below : Option Level} (hbelow : ∀ l ∈ below, l.Advances) {op : OperatorMark}
  {rhs : Formula} {c : Cursor}

include hbelow

theorem passes_of_advances : ∀ l ∈ below, l.Passes :=
  fun l hl => (hbelow l hl).passes

/-- The climb further down passes what was looked at, since it asks for no tighter operation. -/
theorem position_lt_of_descend {extended : Formula} {c' : Cursor} {following : OperatorMark}
    (hnext : c.operator? = some following)
    (hread : descend below (fun level => level.climb rhs following.precedence) c =
      (.ok extended, c')) : c.position < c'.position := by
  cases below with
  | none => simp [descend] at hread
  | some l =>
      refine (hbelow l rfl).climb hnext ?_ hread
      simp [Precedence.looser]

theorem passes_descend_climb (rhs : Formula) (least : Precedence) :
    Reading.Passes 0 (descend below fun level => level.climb rhs least) :=
  passes_descend (passes_of_advances hbelow) fun _ h => h.climb rhs least

/-- Rounds that complete a right operand pass a token each. -/
theorem Completes.position_add_le {n : Nat} {result : Except Fault Formula × Cursor}
    (h : Completes below op n rhs c result) : c.position + n ≤ result.2.position := by
  induction h with
  | stop => exact Nat.le_refl _
  | @fault rhs c c' following fault hnext htakes hread =>
      have hforward := (passes_descend_climb hbelow rhs following.precedence).forward c
      rwa [hread] at hforward
  | round hnext htakes hread hrest ih =>
      have hlt := position_lt_of_descend hbelow hnext hread
      omega

/-- A fault may be met in a right operand before any token is passed. -/
theorem TakesOperand.position_add_le {declared : List String} {n : Nat}
    {result : Except Fault Formula × Cursor} (h : TakesOperand declared below op n c result) :
    c.position + n ≤ result.2.position := by
  have hforward := (passes_readRightOperand declared (passes_of_advances hbelow) op).forward c
  cases h with
  | fault hread => rwa [hread] at hforward
  | completed hread hcompletes =>
      rw [hread] at hforward
      exact Nat.le_trans (Nat.add_le_add_right hforward n) (hcompletes.position_add_le hbelow)

/-- An operation with its right operand passes a token more than the rounds that complete the
operand. -/
theorem TakesOperand.position_add_lt {declared : List String} {n : Nat} {c' : Cursor}
    (h : TakesOperand declared below op n c (.ok rhs, c')) :
    c.position + n < c'.position := by
  have hpasses := passes_readRightOperand declared (passes_of_advances hbelow) op
  cases h with
  | @completed _ rhs _ c₁ _ hread hcompletes =>
      have hpassed := hpasses.passed c rhs (by rw [hread])
      rw [hread] at hpassed
      have hrounds := hcompletes.position_add_le hbelow
      dsimp only at hpassed hrounds
      omega

/-- Rounds pass a token each. -/
theorem Climbs.position_add_le {declared : List String} {least : Precedence} {n : Nat}
    {lhs : Formula} {result : Except Fault Formula × Cursor}
    (h : Climbs declared below least n lhs c result) : c.position + n ≤ result.2.position := by
  induction h with
  | stop => exact Nat.le_refl _
  | fault hnext htight hoperand => exact hoperand.position_add_le hbelow
  | round hnext htight hoperand hrest ih =>
      have hround := hoperand.position_add_lt hbelow
      omega

/-- As many rounds as there are tokens left complete a right operand. -/
theorem exists_completes (op : OperatorMark) (rounds : Nat) (rhs : Formula) (c : Cursor)
    (hrounds : c.after.length ≤ rounds) :
    ∃ n, Completes below op n rhs c (completeRight below op rounds rhs c) := by
  induction rounds generalizing rhs c with
  | zero =>
      refine ⟨0, .stop fun following hnext => ?_⟩
      obtain ⟨left, hleft⟩ := Cursor.exists_length_eq_of_operator? hnext
      omega
  | succ rounds ih =>
      rw [completeRight, look_bind]
      cases hnext : c.operator? with
      | none => exact ⟨0, .stop (by simp [hnext])⟩
      | some following =>
          dsimp only
          cases htakes : following.takesFrom op with
          | false => exact ⟨0, .stop (by simp [hnext, htakes])⟩
          | true =>
              have hpasses := passes_descend_climb hbelow rhs following.precedence
              rw [if_pos rfl, bind_apply]
              rcases hread : descend below (fun level => level.climb rhs following.precedence) c
                with ⟨fault | extended, c'⟩
              · exact ⟨0, .fault hnext htakes hread⟩
              · have hlength := (Cursor.length_lt_iff_position_lt
                  (by rw [← hpasses.tokens c, hread])).2
                  (position_lt_of_descend hbelow hnext hread)
                obtain ⟨n, hrest⟩ := ih extended c' (by omega)
                exact ⟨n + 1, .round hnext htakes hread hrest⟩

theorem exists_takesOperand (declared : List String) (op : OperatorMark) (c : Cursor) :
    ∃ n, TakesOperand declared below op n c (takeOperand declared below op c) := by
  rw [takeOperand, bind_apply]
  rcases hread : readRightOperand declared below op c with ⟨fault | rhs, c'⟩
  · exact ⟨0, .fault hread⟩
  · obtain ⟨n, hcompletes⟩ :=
      exists_completes hbelow op c'.after.length rhs c' (Nat.le_refl _)
    exact ⟨n, .completed hread hcompletes⟩

/-- As many rounds as there are tokens left extend a left operand. -/
theorem exists_climbs (declared : List String) (least : Precedence) (rounds : Nat)
    (lhs : Formula) (c : Cursor) (hrounds : c.after.length ≤ rounds) :
    ∃ n, Climbs declared below least n lhs c
      (climbRounds declared below least rounds lhs c) := by
  have hpasses := passes_takeOperand declared (passes_of_advances hbelow)
  induction rounds generalizing lhs c with
  | zero =>
      refine ⟨0, .stop fun op hnext => ?_⟩
      obtain ⟨left, hleft⟩ := Cursor.exists_length_eq_of_operator? hnext
      omega
  | succ rounds ih =>
      obtain hstop | ⟨op, hnext, htight⟩ := looser_or_tight least c
      · rw [climbRounds_of_stop _ hstop]
        exact ⟨0, .stop hstop⟩
      · obtain ⟨m, hoperand⟩ := exists_takesOperand hbelow declared op c
        rw [climbRounds_succ hnext htight, bind_apply]
        rcases hread : takeOperand declared below op c with ⟨fault | rhs, c'⟩
        · exact ⟨m, .fault hnext htight (hread ▸ hoperand)⟩
        · rw [hread] at hoperand
          have hlength := (Cursor.length_lt_iff_position_lt
            (by rw [← (hpasses op).tokens c, hread])).2
            (Nat.lt_of_le_of_lt (Nat.le_add_right ..) (hoperand.position_add_lt hbelow))
          obtain ⟨n, hrest⟩ := ih (lhs.combine op rhs) c' (by omega)
          exact ⟨1 + m + n, .round hnext htight hoperand hrest⟩

end

/-- Two runs that complete an operand from one place are the same. -/
theorem Completes.unique {below : Option Level} {op : OperatorMark} {n n' : Nat}
    {rhs : Formula} {c : Cursor} {result result' : Except Fault Formula × Cursor}
    (h : Completes below op n rhs c result) (h' : Completes below op n' rhs c result') :
    n = n' ∧ result = result' := by
  induction h generalizing n' result' with
  | stop hstop => cases h' <;> simp_all
  | fault hnext htakes hread => cases h' <;> simp_all
  | round hnext htakes hread hrest ih =>
      cases h' with
      | stop hstop => simp_all
      | fault => simp_all
      | round hnext' htakes' hread' hrest' =>
          obtain rfl := Option.some.inj (hnext.symm.trans hnext')
          obtain ⟨hextended, rfl⟩ := Prod.mk.inj (hread.symm.trans hread')
          obtain rfl := Except.ok.inj hextended
          obtain ⟨rfl, rfl⟩ := ih hrest'
          exact ⟨rfl, rfl⟩

theorem TakesOperand.unique {declared : List String} {below : Option Level}
    {op : OperatorMark} {n n' : Nat} {c : Cursor}
    {result result' : Except Fault Formula × Cursor}
    (h : TakesOperand declared below op n c result)
    (h' : TakesOperand declared below op n' c result') : n = n' ∧ result = result' := by
  cases h with
  | fault hread => cases h' <;> simp_all
  | completed hread hcompletes =>
      cases h' with
      | fault hread' => simp_all
      | completed hread' hcompletes' =>
          obtain ⟨hrhs, rfl⟩ := Prod.mk.inj (hread.symm.trans hread')
          obtain rfl := Except.ok.inj hrhs
          exact hcompletes.unique hcompletes'

/-- Two climbs from one place are the same. -/
theorem Climbs.unique {declared : List String} {below : Option Level} {least : Precedence}
    {n n' : Nat} {lhs : Formula} {c : Cursor} {result result' : Except Fault Formula × Cursor}
    (h : Climbs declared below least n lhs c result)
    (h' : Climbs declared below least n' lhs c result') : n = n' ∧ result = result' := by
  induction h generalizing n' result' with
  | stop hstop => cases h' <;> simp_all
  | fault hnext htight hoperand =>
      cases h' with
      | stop hstop => simp_all
      | fault hnext' htight' hoperand' =>
          obtain rfl := Option.some.inj (hnext.symm.trans hnext')
          exact hoperand.unique hoperand'
      | round hnext' htight' hoperand' =>
          obtain rfl := Option.some.inj (hnext.symm.trans hnext')
          exact nomatch (hoperand.unique hoperand').2
  | round hnext htight hoperand hrest ih =>
      cases h' with
      | stop hstop => simp_all
      | fault hnext' htight' hoperand' =>
          obtain rfl := Option.some.inj (hnext.symm.trans hnext')
          exact nomatch (hoperand.unique hoperand').2
      | round hnext' htight' hoperand' hrest' =>
          obtain rfl := Option.some.inj (hnext.symm.trans hnext')
          obtain ⟨rfl, hsame⟩ := hoperand.unique hoperand'
          obtain ⟨hrhs, rfl⟩ := Prod.mk.inj hsame
          obtain rfl := Except.ok.inj hrhs
          obtain ⟨rfl, rfl⟩ := ih hrest'
          exact ⟨rfl, rfl⟩

/-- A climb that meets no fault ends where no operation binds tightly enough. -/
theorem Climbs.looser_of_operator? {declared : List String} {below : Option Level}
    {least : Precedence} {n : Nat} {lhs : Formula} {c : Cursor}
    {result : Except Fault Formula × Cursor}
    (h : Climbs declared below least n lhs c result) (e : Formula) (hok : result.1 = .ok e) :
    ∀ op, result.2.operator? = some op → op.precedence.looser least := by
  induction h with
  | stop hstop => exact hstop
  | fault => exact nomatch hok
  | round hnext htight hoperand hrest ih => exact ih hok

section

variable {below : Option Level} (hbelow : ∀ l ∈ below, l.Advances)

include hbelow

theorem completes_endsInRounds (op : OperatorMark) (rhs : Formula) (c : Cursor) :
    EndsInRounds (fun n result => Completes below op n rhs c result) c
      (completeRight below op c.after.length rhs c) := by
  obtain ⟨rounds, hrun⟩ := exists_completes hbelow op c.after.length rhs c (Nat.le_refl _)
  exact .of_unique hrun (fun n r h => h.unique hrun) (hrun.position_add_le hbelow)

theorem climbs_endsInRounds (declared : List String) (least : Precedence) (lhs : Formula)
    (c : Cursor) :
    EndsInRounds (fun n result => Climbs declared below least n lhs c result) c
      (readClimb declared below lhs least c) := by
  obtain ⟨rounds, hrun⟩ :=
    exists_climbs hbelow declared least c.after.length lhs c (Nat.le_refl _)
  exact .of_unique hrun (fun n r h => h.unique hrun) (hrun.position_add_le hbelow)

end

/-! ### What a climb yields -/

/-- Every round of a climb puts an operation on top of the left operand. -/
theorem leftSpine_climbRounds {declared : List String} {least : Precedence} {lhs : Formula}
    {start : Cursor} (n rounds : Nat) (e : Formula) (c : Cursor)
    (he : LeftSpine declared least lhs start e c) :
    Ends (LeftSpine declared least lhs start) (fun _ => True)
      (climbRounds declared (below? declared n) least rounds e c) := by
  have hbelow : ∀ m, n = m + 1 → Reads declared m (ofDescents declared m) :=
    fun m _ => reads_ofDescents declared m
  induction rounds generalizing e c with
  | zero => exact he
  | succ rounds ih =>
      obtain hstop | ⟨op, hnext, htight⟩ := looser_or_tight least c
      · rw [climbRounds_of_stop _ hstop]
        exact he
      · rw [climbRounds_succ hnext htight]
        refine ends_bind _ ((ends_takeOperand hbelow hnext).mono (fun _ _ => id)
          fun _ _ => trivial) ?_
        rintro rhs c' ⟨hrhs, hstops, -⟩
        exact ih _ c' (.combine he hnext (looser_eq_false_iff.1 htight)
          hrhs.within.derives (hrhs.tokens.trans (c.tokens_behindOperator op))
          fun _ => rank_le_of_stops hstops)

end Level

namespace Parser

open Level

/-- Climbing from any place and with any left operand. If it meets no fault, it ends where no
operation binds tightly enough. Without having passed a token it yields the left operand, and
else a formula that has the left operand at the end of its left spine. However it ends, the
climb and what completes right operands, at whatever place, are loops with no more rounds than
tokens they pass. -/
theorem climb_from_anywhere (p : Parser) (lhs : Formula) (least : Precedence) :
    (∀ e q, p.read (fun level => level.climb lhs least) = (.ok e, q) →
      (∀ op, q.cursor.operator? = some op → op.precedence.looser least) ∧
        (q.cursor = p.cursor → e = lhs) ∧
        (q.cursor ≠ p.cursor → p.cursor.position < q.cursor.position ∧
          LeftSpine p.declared least lhs p.cursor e q.cursor)) ∧
      EndsInRounds (fun n result => Climbs p.declared p.below? least n lhs p.cursor result)
        p.cursor (p.level.climb lhs least p.cursor) ∧
      ∀ op rhs,
        EndsInRounds (fun n result => Completes p.below? op n rhs p.cursor result) p.cursor
          (completeRight p.below? op p.cursor.after.length rhs p.cursor) := by
  have hbelow : ∀ l ∈ p.below?, l.Advances := advances_below p.declared _
  have hends := climbs_endsInRounds hbelow p.declared least lhs p.cursor
  refine ⟨fun e q hread => ?_, hends, fun op rhs =>
    completes_endsInRounds hbelow op rhs p.cursor⟩
  have hok : (p.level.climb lhs least p.cursor).1 = .ok e := congrArg Prod.fst hread
  have hplace : (p.level.climb lhs least p.cursor).2 = q.cursor :=
    congrArg (fun result => result.2.cursor) hread
  have hclimb : p.level.climb lhs least p.cursor = (.ok e, q.cursor) := Prod.ext hok hplace
  obtain ⟨rounds, hruns, -⟩ := hends
  have hstops := ((hruns _ _).2 ⟨rfl, hclimb.symm⟩).looser_of_operator? e rfl
  have hspine : Reading.Ends (LeftSpine p.declared least lhs p.cursor) (fun _ => True)
      (p.level.climb lhs least p.cursor) :=
    leftSpine_climbRounds (nestingLimit - p.depth) p.cursor.after.length lhs p.cursor .operand
  rw [hclimb] at hspine
  refine ⟨hstops, fun hsame => ?_, fun hmoved => ?_⟩
  · obtain ⟨-, he⟩ | hpassed := LeftSpine.eq_or_position_lt hspine
    · exact he
    · exact absurd hpassed (by simp [hsame])
  · obtain ⟨hsame, -⟩ | hpassed := LeftSpine.eq_or_position_lt hspine
    · exact absurd hsame hmoved
    · exact ⟨hpassed, hspine⟩

/-- Down to products, a climb takes in a power on the right of a product and stops in front of
a sum. -/
theorem climb_from_anywhere_product :
    ∃ e q, (ofText [] "*y^z+w").read
        (fun level => level.climb (.symbol ⟨"x", ⟨0, 0⟩⟩) .product) = (.ok e, q) ∧
      e = .binary (.symbol ⟨"x", ⟨0, 0⟩⟩) ⟨.multiply, false, ⟨0, 1⟩⟩
        (.binary (.symbol ⟨"y", ⟨1, 2⟩⟩) ⟨.power, false, ⟨2, 3⟩⟩ (.symbol ⟨"z", ⟨3, 4⟩⟩)
          ⟨1, 4⟩) ⟨0, 4⟩ ∧
      q.cursor.position = 4 ∧
      (∀ op, q.cursor.operator? = some op → op.precedence.looser .product) ∧
      LeftSpine [] .product (.symbol ⟨"x", ⟨0, 0⟩⟩) (ofText [] "*y^z+w").cursor e
        q.cursor := by
  have hproduct : ((ofText [] "*y^z+w").read
      (fun level => level.climb (.symbol ⟨"x", ⟨0, 0⟩⟩) .product)).1.toOption =
        some (.binary (.symbol ⟨"x", ⟨0, 0⟩⟩) ⟨.multiply, false, ⟨0, 1⟩⟩
          (.binary (.symbol ⟨"y", ⟨1, 2⟩⟩) ⟨.power, false, ⟨2, 3⟩⟩ (.symbol ⟨"z", ⟨3, 4⟩⟩)
            ⟨1, 4⟩) ⟨0, 4⟩) := by decide +kernel
  have hplace : ((ofText [] "*y^z+w").read
      (fun level => level.climb (.symbol ⟨"x", ⟨0, 0⟩⟩) .product)).2.cursor.position = 4 := by
    decide +kernel
  have hstart : (ofText [] "*y^z+w").cursor.position = 0 := by decide +kernel
  obtain ⟨hclimb, -⟩ :=
    climb_from_anywhere (ofText [] "*y^z+w") (.symbol ⟨"x", ⟨0, 0⟩⟩) .product
  rcases hread : (ofText [] "*y^z+w").read
    (fun level => level.climb (.symbol ⟨"x", ⟨0, 0⟩⟩) .product) with ⟨fault | e, q⟩
  · rw [hread] at hproduct
    exact nomatch hproduct
  · rw [hread] at hproduct hplace
    obtain ⟨hstops, -, hmoved⟩ := hclimb e q hread
    have hspine := (hmoved fun hsame => by simp [hsame, hstart] at hplace).2
    exact ⟨e, q, rfl, Option.some.inj hproduct, hplace, hstops, hspine⟩

end Parser

end FormulaGrading
