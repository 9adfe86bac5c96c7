import FormulaGrading.Parser.Step
import Mathlib.Logic.Basic

/-!
How far readings go. None of them changes the row of tokens or goes back behind the place
where it began, not even if it ends in a fault. If it yields a value, every part of a formula
has passed a token at least.
-/

namespace FormulaGrading

namespace Reading

variable {α β : Type} {m n : Nat}

/-- Whether a reading stays within the row of tokens and does not go back, and passes at least
some number of tokens if it yields a value. -/
structure Passes (n : Nat) (r : Reading α) : Prop where
  tokens : ∀ c, (r c).2.tokens = c.tokens
  forward : ∀ c, c.position ≤ (r c).2.position
  passed : ∀ c a, (r c).1 = .ok a → c.position + n ≤ (r c).2.position

theorem Passes.mono {r : Reading α} (h : Passes n r) (hle : m ≤ n) : Passes m r :=
  ⟨h.tokens, h.forward, fun c a ha => by have := h.passed c a ha; omega⟩

theorem Passes.pure (a : α) : Passes 0 (pure a : Reading α) :=
  ⟨fun _ => rfl, fun _ => Nat.le_refl _, fun _ _ _ => Nat.le_refl _⟩

theorem Passes.look (f : Cursor → α) : Passes 0 (look f) :=
  ⟨fun _ => rfl, fun _ => Nat.le_refl _, fun _ _ _ => Nat.le_refl _⟩

theorem Passes.fail (fault : Fault) : Passes n (fail fault : Reading α) :=
  ⟨fun _ => rfl, fun _ => Nat.le_refl _, fun _ _ h => nomatch h⟩

theorem Passes.failHere (cause : Cause) : Passes n (failHere cause : Reading α) :=
  ⟨fun _ => rfl, fun _ => Nat.le_refl _, fun _ _ h => nomatch h⟩

/-- What both parts of a sequence pass is passed by the whole. -/
theorem Passes.bind {r : Reading α} {f : α → Reading β} (h : Passes m r)
    (hf : ∀ a, Passes n (f a)) : Passes (m + n) (r >>= f) := by
  refine ⟨fun c => ?_, fun c => ?_, fun c b hb => ?_⟩
  · have htokens := h.tokens c
    rw [bind_apply]
    rcases hr : r c with ⟨fault | a, c'⟩
    · rwa [hr] at htokens
    · exact ((hf a).tokens c').trans (by rwa [hr] at htokens)
  · have hforward := h.forward c
    rw [bind_apply]
    rcases hr : r c with ⟨fault | a, c'⟩
    · rwa [hr] at hforward
    · exact Nat.le_trans (by rwa [hr] at hforward) ((hf a).forward c')
  · have hpassed := h.passed c
    rw [bind_apply] at hb ⊢
    rcases hr : r c with ⟨fault | a, c'⟩
    · rw [hr] at hb
      exact nomatch hb
    · rw [hr] at hb hpassed
      have hfirst : c.position + m ≤ c'.position := hpassed a rfl
      have hsecond := (hf a).passed c' b hb
      show c.position + (m + n) ≤ (f a c').2.position
      omega

theorem Passes.bindLeft {r : Reading α} {f : α → Reading β} (h : Passes n r)
    (hf : ∀ a, Passes 0 (f a)) : Passes n (r >>= f) :=
  h.bind hf

/-- Looking does not count. -/
theorem Passes.lookBind {f : Cursor → α} {k : α → Reading β} (hk : ∀ a, Passes n (k a)) :
    Passes n (Reading.look f >>= k) := by
  simpa only [Nat.zero_add] using (Passes.look f).bind hk

theorem Passes.map {r : Reading α} (h : Passes n r) (f : α → β) : Passes n (f <$> r) :=
  h.bindLeft fun a => .pure (f a)

theorem Passes.ite {b : Prop} [Decidable b] {r s : Reading α} (hr : Passes n r)
    (hs : Passes n s) : Passes n (if b then r else s) := by
  split
  · exact hr
  · exact hs

theorem Passes.attempt {r : Reading α} (h : Passes n r) : Passes n (attempt r) := by
  refine ⟨fun c => ?_, fun c => ?_, fun c a ha => ?_⟩
  · have htokens := h.tokens c
    rw [attempt_apply]
    rcases hr : r c with ⟨fault | a, c'⟩
    · rfl
    · rwa [hr] at htokens
  · have hforward := h.forward c
    rw [attempt_apply]
    rcases hr : r c with ⟨fault | a, c'⟩
    · exact Nat.le_refl _
    · rwa [hr] at hforward
  · have hpassed := h.passed c
    rw [attempt_apply] at ha ⊢
    rcases hr : r c with ⟨fault | a', c'⟩
    · rw [hr] at ha
      exact nomatch ha
    · rw [hr] at hpassed
      exact hpassed a' rfl

theorem attempt_fst (r : Reading α) (c : Cursor) : (Reading.attempt r c).1 = (r c).1 := by
  rw [attempt_apply]
  rcases r c with ⟨fault | a, c'⟩ <;> rfl

/-- An attempt that fails has gone nowhere. -/
theorem attempt_of_error {r : Reading α} {c : Cursor} {fault : Fault}
    (h : (Reading.attempt r c).1 = .error fault) : (Reading.attempt r c).2 = c := by
  rw [attempt_apply] at h ⊢
  rcases hr : r c with ⟨fault' | a, c'⟩
  · rfl
  · rw [hr] at h
    exact nomatch h

theorem Passes.orFault {r : Reading α} (h : Passes n r) (fault : Fault) :
    Passes n (orFault r fault) := by
  have hsame : ∀ c, (Reading.orFault r fault c).2 = (r c).2 := by
    intro c
    rw [Reading.orFault]
    rcases r c with ⟨fault' | a, c'⟩ <;> rfl
  refine ⟨fun c => hsame c ▸ h.tokens c, fun c => hsame c ▸ h.forward c, fun c a ha => ?_⟩
  rw [hsame]
  have hpassed := h.passed c
  rw [Reading.orFault] at ha
  rcases hr : r c with ⟨fault' | a', c'⟩
  · rw [hr] at ha
    exact nomatch ha
  · rw [hr] at hpassed
    exact hpassed a' rfl

theorem passes_next : Passes 1 next := by
  refine ⟨fun c => ?_, fun c => ?_, fun c t ht => ?_⟩
  · rw [next]
    cases hnext : c.next? with
    | none => rfl
    | some passed => exact Cursor.tokens_of_next? hnext
  · rw [next]
    cases hnext : c.next? with
    | none => exact Nat.le_refl _
    | some passed => exact Nat.le_of_lt (Nat.lt_of_lt_of_eq (Nat.lt_succ_self _)
        (Cursor.position_of_next? hnext).symm)
  · rw [next] at ht ⊢
    cases hnext : c.next? with
    | none =>
        rw [hnext] at ht
        exact nomatch ht
    | some passed => exact Nat.le_of_eq (Cursor.position_of_next? hnext).symm

theorem passes_expecting (kinds : List TokenClass) (f : Token → Option α) :
    Passes 1 (expecting kinds f) := by
  refine passes_next.bindLeft fun t => ?_
  cases f t with
  | none => exact .fail _
  | some a => exact .pure a

theorem passes_symbol : Passes 1 symbol :=
  (passes_expecting ..).attempt.bindLeft fun _ => .pure _

theorem passes_number : Passes 1 number := by
  refine (passes_expecting ..).attempt.bindLeft fun t => ?_
  cases Decimal.readUnsigned? t.lexeme.toList with
  | none => exact .fail _
  | some value => exact .pure _

end Reading

namespace Level

open Reading

/-- Whether the readings that a level offers go forward. An operand and a group pass a token at
least. -/
structure Passes (l : Level) : Prop where
  operand : Reading.Passes 1 l.operand
  climb : ∀ lhs least, Reading.Passes 0 (l.climb lhs least)
  group : Reading.Passes 1 l.group

theorem Passes.formula {l : Level} (h : l.Passes) : Reading.Passes 1 l.formula :=
  h.operand.bindLeft fun lhs => h.climb lhs .loosest

section

variable (declared : List String) {below : Option Level} (hbelow : ∀ l ∈ below, l.Passes)
include hbelow

theorem passes_descend {α : Type} {n : Nat} {k : Level → Reading α}
    (hk : ∀ l : Level, l.Passes → Reading.Passes n (k l)) :
    Reading.Passes n (descend below k) := by
  cases below with
  | none => exact .failHere _
  | some l => exact hk l (hbelow l rfl)

theorem passes_readGroup : Reading.Passes 1 (readGroup below) := by
  refine ((passes_expecting ..).attempt.bind (n := 0) fun opening => ?_).mono (by decide)
  refine ((passes_descend hbelow fun _ h => h.formula).bind (n := 0) fun _ => ?_).mono
    (by decide)
  exact ((passes_expecting ..).attempt.orFault _).bindLeft (fun _ => .pure _)
    |>.mono (by decide)

theorem passes_readCall : Reading.Passes 1 (readCall below) := by
  refine (passes_symbol.bind (n := 0) fun function => ?_).mono (by decide)
  refine .ite (.fail _) (.lookBind fun _ => .ite (.fail _) ?_)
  exact ((passes_descend hbelow fun _ h => h.group).bindLeft fun _ => .pure _).mono (by decide)

theorem passes_readNamed (name : Token) :
    Reading.Passes 1 (readNamed declared below name) :=
  .ite (passes_readCall hbelow).attempt
    (.lookBind fun _ => .ite (.failHere _) (passes_symbol.attempt.bindLeft fun _ => .pure _))

theorem passes_readAtom : Reading.Passes 1 (readAtom declared below) := by
  refine .lookBind fun here => ?_
  rcases here with _ | t
  · exact .failHere _
  · dsimp only
    cases t.kind with
    | number => exact passes_number.attempt.map _
    | name => exact (passes_readNamed declared hbelow t).map _
    | openBracket => exact (passes_readGroup hbelow).attempt
    | _ => exact .failHere _

theorem passes_readSigned : Reading.Passes 1 (readSigned below) := by
  refine ((passes_expecting ..).attempt.bind (n := 0) fun mark => ?_).mono (by decide)
  refine .lookBind fun _ => .ite (.fail _) ?_
  refine ((passes_descend (n := 1) hbelow fun _ h => ?_).bindLeft fun _ => .pure _).mono
    (by decide)
  exact h.operand.bindLeft fun lhs => h.climb lhs _

theorem passes_readOperand : Reading.Passes 1 (readOperand declared below) := by
  refine .lookBind fun here => ?_
  rcases here with _ | t
  · exact .failHere _
  · dsimp only
    cases t.kind with
    | add | subtract => exact passes_readSigned hbelow
    | number | name | openBracket => exact (passes_readAtom declared hbelow).attempt.map _
    | _ => exact .failHere _

theorem passes_readRightOperand (op : OperatorMark) :
    Reading.Passes 1 (readRightOperand declared below op) := by
  refine .ite ((passes_readAtom declared hbelow).attempt.map _) ?_
  refine ((passes_expecting ..).attempt.bind (n := 0) fun _ => .lookBind fun _ => ?_).mono
    (by decide)
  exact .ite ((passes_readOperand declared hbelow).mono (by decide)) (.fail _)

theorem passes_completeRight (op : OperatorMark) (rounds : Nat) (rhs : Formula) :
    Reading.Passes 0 (completeRight below op rounds rhs) := by
  induction rounds generalizing rhs with
  | zero => exact .pure _
  | succ rounds ih =>
      refine .lookBind fun following => ?_
      rcases following with _ | following
      · exact .pure _
      · refine .ite ?_ (.pure _)
        exact (passes_descend hbelow fun _ h => h.climb rhs following.precedence).bind
          fun _ => ih _

theorem passes_climbRounds (least : Precedence) (rounds : Nat) (lhs : Formula) :
    Reading.Passes 0 (climbRounds declared below least rounds lhs) := by
  induction rounds generalizing lhs with
  | zero => exact .pure _
  | succ rounds ih =>
      refine .lookBind fun op => ?_
      rcases op with _ | op
      · exact .pure _
      · refine .ite (.pure _) ?_
        refine ((passes_readRightOperand declared hbelow op).bind (n := 0) fun rhs => ?_).mono
          (by decide)
        exact .lookBind fun left =>
          (passes_completeRight hbelow op left rhs).bind fun _ => ih _

theorem passes_above : (above declared below).Passes where
  operand := passes_readOperand declared hbelow
  climb lhs least := .lookBind fun left => passes_climbRounds declared hbelow least left lhs
  group := passes_readGroup hbelow

end

theorem passes_below (declared : List String) (descents : Nat) :
    ∀ l ∈ below? declared descents, l.Passes := by
  induction descents with
  | zero => exact fun l hl => absurd hl (Option.not_mem_none l)
  | succ descents ih =>
      rintro l hl
      obtain rfl := Option.some.inj hl
      exact passes_above declared ih

/-- Whatever the descents, readings go forward. -/
theorem passes_ofDescents (declared : List String) (descents : Nat) :
    (ofDescents declared descents).Passes :=
  passes_above declared (passes_below declared descents)

end Level

end FormulaGrading
