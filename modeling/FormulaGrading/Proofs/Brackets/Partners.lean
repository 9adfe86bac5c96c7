import FormulaGrading.Proofs.Brackets
import FormulaGrading.Token.Scan
import Mathlib.Data.Nat.Find
import Mathlib.Order.Bounds.Basic

/-!
Partners of brackets, and the bracket that the check reports. What stands between an opening
bracket and its partner is balanced. So a bracket stays without a partner exactly when no
beginning of what stands behind it closes more than it opens, and the check goes by that: at
the bottom of its stack is a bracket that nothing behind it closes, while all brackets before
that one have their partners.
-/

namespace FormulaGrading

/-- The bracket at one position is closed by that at another one. -/
structure Partners (tokens : List Token) (i j : Nat) : Prop where
  opening : ∃ t, tokens[i]? = some t ∧ t.kind = .openBracket
  closing : ∃ t, tokens[j]? = some t ∧ t.kind = .closeBracket
  before : i < j
  between : Balanced ((tokens.take j).drop (i + 1))

/-- The opening bracket at a position has no partner. -/
structure StaysOpen (tokens : List Token) (i : Nat) : Prop where
  opening : ∃ t, tokens[i]? = some t ∧ t.kind = .openBracket
  unclosed : ∀ j, ¬Partners tokens i j

/-- With the closing bracket at a position, more brackets are closed than were opened. -/
structure ClosesTooMany (tokens : List Token) (i : Nat) : Prop where
  closing : ∃ t, tokens[i]? = some t ∧ t.kind = .closeBracket
  excess : openings (tokens.take (i + 1)) < closings (tokens.take (i + 1))

/-- Some beginning closes more brackets than it opens. -/
def Overcloses (tokens : List Token) : Prop :=
  ∃ n, openings (tokens.take n) < closings (tokens.take n)

section

variable {tokens before after rest : List Token} {t : Token} {i j n : Nat}

theorem not_overcloses : ¬Overcloses tokens ↔
    ∀ n, closings (tokens.take n) ≤ openings (tokens.take n) := by
  simp only [Overcloses, not_exists, not_lt]

theorem Overcloses.append (h : Overcloses tokens) (rest : List Token) :
    Overcloses (tokens ++ rest) := by
  obtain ⟨n, hn⟩ := h
  refine ⟨min n tokens.length, ?_⟩
  rwa [List.take_append_of_le_length (Nat.min_le_right ..), ← List.take_eq_take_min]

/-- The token up to which a beginning is not yet too much is the bracket that makes it so. -/
theorem exists_getElem?_of_excess (hle : closings (tokens.take n) ≤ openings (tokens.take n))
    (hexcess : openings (tokens.take (n + 1)) < closings (tokens.take (n + 1))) :
    closings (tokens.take n) = openings (tokens.take n) ∧
      ∃ t, tokens[n]? = some t ∧ t.kind = .closeBracket := by
  rw [List.take_add_one] at hexcess
  cases ht : tokens[n]? with
  | none => simp [ht] at hexcess; omega
  | some t =>
      simp only [ht, Option.toList_some, openings_append, closings_append, openings_cons,
        closings_cons, openings_nil, closings_nil, Nat.zero_add] at hexcess
      by_cases hclose : t.kind = .closeBracket
      · simp only [hclose, if_true, reduceCtorEq, if_false] at hexcess
        exact ⟨by omega, t, rfl, hclose⟩
      · simp only [hclose, if_false] at hexcess
        omega

/-- A beginning that closes too many brackets ends at a first bracket that does so, and what
stands before that one is balanced. -/
theorem overcloses_iff : Overcloses tokens ↔
    ∃ n t, tokens[n]? = some t ∧ t.kind = .closeBracket ∧ Balanced (tokens.take n) := by
  constructor
  · intro h
    classical
    -- the shortest beginning that does so has one token more than one that does not
    obtain ⟨n, hn⟩ : ∃ n, Nat.find h = n + 1 := by
      refine Nat.exists_eq_add_one_of_ne_zero fun hzero => ?_
      have hexcess := Nat.find_spec h
      simp [hzero] at hexcess
    have hle : ∀ m ≤ n, closings (tokens.take m) ≤ openings (tokens.take m) := fun m hm =>
      not_lt.1 (Nat.find_min h (hn ▸ Nat.lt_succ_of_le hm))
    obtain ⟨heq, t, ht, hclose⟩ :=
      exists_getElem?_of_excess (hle n le_rfl) (hn ▸ Nat.find_spec h)
    refine ⟨n, t, ht, hclose, fun m => ?_, heq⟩
    rw [List.take_take]
    exact hle _ (Nat.min_le_right m n)
  · rintro ⟨n, t, ht, hclose, -, heq⟩
    refine ⟨n + 1, ?_⟩
    rw [List.take_add_one, ht]
    simp [heq, hclose]

/-- An opening bracket has a partner if what stands behind it closes more than it opens. -/
theorem exists_partners_iff (ht : tokens[i]? = some t) (hopen : t.kind = .openBracket) :
    (∃ j, Partners tokens i j) ↔ Overcloses (tokens.drop (i + 1)) := by
  rw [overcloses_iff]
  constructor
  · rintro ⟨j, -, ⟨u, hu, hclose⟩, hlt, hbetween⟩
    refine ⟨j - (i + 1), u, ?_, hclose, ?_⟩
    · rw [List.getElem?_drop, Nat.add_sub_cancel' hlt, hu]
    · rwa [← List.drop_take]
  · rintro ⟨n, u, hu, hclose, hbalanced⟩
    rw [List.getElem?_drop] at hu
    refine ⟨i + 1 + n, ⟨t, ht, hopen⟩, ⟨u, hu, hclose⟩, by omega, ?_⟩
    rwa [List.drop_take, Nat.add_sub_cancel_left]

theorem staysOpen_iff (ht : tokens[i]? = some t) (hopen : t.kind = .openBracket) :
    StaysOpen tokens i ↔ ¬Overcloses (tokens.drop (i + 1)) := by
  rw [← exists_partners_iff ht hopen, not_exists]
  exact ⟨StaysOpen.unclosed, fun hnone => ⟨⟨t, ht, hopen⟩, hnone⟩⟩

/-- In a balanced row, all is closed again that is opened. -/
theorem Balanced.overcloses_drop (h : Balanced tokens) (ht : tokens[i]? = some t)
    (hopen : t.kind = .openBracket) : Overcloses (tokens.drop (i + 1)) := by
  obtain ⟨hi, rfl⟩ := List.getElem?_eq_some_iff.1 ht
  have hbegin := h.1 i
  have htotal := h.2
  rw [← List.take_append_drop i tokens, List.drop_eq_getElem_cons hi, openings_append,
    closings_append, openings_cons, closings_cons] at htotal
  simp only [hopen, if_true, reduceCtorEq, if_false] at htotal
  refine ⟨(tokens.drop (i + 1)).length, ?_⟩
  rw [List.take_length]
  omega

/-- Every opening bracket of a balanced row has its partner, whatever comes behind the row. -/
theorem Balanced.not_staysOpen (h : Balanced before) (rest : List Token)
    (hi : i < before.length) : ¬StaysOpen (before ++ rest) i := by
  rintro ⟨⟨t, ht, hopen⟩, hnone⟩
  have ht' : before[i]? = some t := by rwa [List.getElem?_append_left hi] at ht
  have hover := (h.overcloses_drop ht' hopen).append rest
  rw [← List.drop_append_of_le_length hi] at hover
  obtain ⟨j, hpartners⟩ := (exists_partners_iff ht hopen).2 hover
  exact hnone j hpartners

/-- Up to the end of a balanced row, not too many brackets are closed. -/
theorem Balanced.not_closesTooMany (h : Balanced before) (hi : i < before.length) :
    ¬ClosesTooMany (before ++ rest) i := by
  rintro ⟨-, hexcess⟩
  rw [List.take_append_of_le_length hi] at hexcess
  exact absurd (h.1 (i + 1)) (not_le.2 hexcess)

end

/-- What a check has against tokens behind brackets that are still open: a bracket that closes
none of them, the first one that is open from before, or else the first one that is opened and
stays open. -/
inductive BlamesBracket (unclosed : List Span) : List Token → Fault → Prop where
  | unopened {before after : List Token} {t : Token}
      (hbefore : BalancedAfter unclosed.length before) (hclose : t.kind = .closeBracket) :
      BlamesBracket unclosed (before ++ t :: after) ⟨[t.span], .unopenedBracket⟩
  | fromBefore {tokens : List Token} {span : Span}
      (hfirst : unclosed.getLast? = some span)
      (hkept : ∀ n, closings (tokens.take n) < unclosed.length + openings (tokens.take n)) :
      BlamesBracket unclosed tokens ⟨[span], .unclosedBracket⟩
  | unclosed {before after : List Token} {t : Token}
      (hbefore : BalancedAfter unclosed.length before) (hopen : t.kind = .openBracket)
      (hafter : ¬Overcloses after) :
      BlamesBracket unclosed (before ++ t :: after) ⟨[t.span], .unclosedBracket⟩

namespace BlamesBracket

variable {unclosed unclosed' : List Span} {t : Token} {rest : List Token} {fault : Fault}

/-- What is blamed one token further on is blamed for the whole row, if the token takes the
one stack of open brackets to the other. -/
theorem cons (h : BlamesBracket unclosed' rest fault)
    (hbalanced : ∀ before, BalancedAfter unclosed'.length before →
      BalancedAfter unclosed.length (t :: before))
    (hkept : ∀ span, unclosed'.getLast? = some span →
      (∀ n, closings (rest.take n) < unclosed'.length + openings (rest.take n)) →
      BlamesBracket unclosed (t :: rest) ⟨[span], .unclosedBracket⟩) :
    BlamesBracket unclosed (t :: rest) fault := by
  cases h with
  | unopened hbefore hclose => exact .unopened (hbalanced _ hbefore) hclose
  | fromBefore hfirst hothers => exact hkept _ hfirst hothers
  | unclosed hbefore hopen hafter => exact .unclosed (hbalanced _ hbefore) hopen hafter

/-- The bracket that is open from before is not closed in front of the first token either. -/
theorem fromBefore_cons {span : Span} (hfirst : unclosed.getLast? = some span)
    (hkept : ∀ n, closings (rest.take n) + (if t.kind = .closeBracket then 1 else 0) <
      unclosed.length + (openings (rest.take n) + if t.kind = .openBracket then 1 else 0)) :
    BlamesBracket unclosed (t :: rest) ⟨[span], .unclosedBracket⟩ := by
  refine .fromBefore hfirst fun n => ?_
  cases n with
  | zero => simpa using List.length_pos_of_mem (List.mem_of_getLast? hfirst)
  | succ n => simpa using hkept n

theorem cons_open (hopen : t.kind = .openBracket)
    (h : BlamesBracket (t.span :: unclosed) rest fault) :
    BlamesBracket unclosed (t :: rest) fault := by
  refine h.cons (fun before hbefore => (balancedAfter_cons_open hopen).2 hbefore)
    fun span hfirst hkept => ?_
  cases unclosed with
  | nil =>
      obtain rfl := Option.some.inj hfirst
      refine .unclosed (balancedAfter_nil.2 rfl) hopen (not_overcloses.2 fun n => ?_)
      have := hkept n
      simp only [List.length_singleton] at this
      omega
  | cons last outer =>
      refine fromBefore_cons hfirst fun n => ?_
      have := hkept n
      simp only [hopen, if_true, reduceCtorEq, if_false, List.length_cons] at this ⊢
      omega

theorem cons_close {span : Span} (hclose : t.kind = .closeBracket)
    (h : BlamesBracket unclosed rest fault) :
    BlamesBracket (span :: unclosed) (t :: rest) fault := by
  refine h.cons (fun before hbefore => (balancedAfter_cons_close hclose).2 ⟨_, rfl, hbefore⟩)
    fun first hfirst hkept => ?_
  refine fromBefore_cons (by rw [List.getLast?_cons, hfirst]; rfl) fun n => ?_
  have := hkept n
  simp only [hclose, if_true, reduceCtorEq, if_false, List.length_cons]
  omega

theorem cons_other (hopen : t.kind ≠ .openBracket) (hclose : t.kind ≠ .closeBracket)
    (h : BlamesBracket unclosed rest fault) : BlamesBracket unclosed (t :: rest) fault := by
  refine h.cons (fun before hbefore => (balancedAfter_cons_other hopen hclose).2 hbefore)
    fun span hfirst hkept => ?_
  exact fromBefore_cons hfirst fun n => by simpa [hopen, hclose] using hkept n

end BlamesBracket

/-- The check reports what is to blame, with whatever stack it begins. -/
theorem blamesBracket_of_bracketFaultFrom? {unclosed : List Span} {tokens : List Token}
    {fault : Fault} (h : bracketFaultFrom? unclosed tokens = some fault) :
    BlamesBracket unclosed tokens fault := by
  induction tokens generalizing unclosed with
  | nil =>
      obtain ⟨span, hfirst, rfl⟩ := Option.map_eq_some_iff.1 h
      exact .fromBefore hfirst fun n => by
        simpa using List.length_pos_of_mem (List.mem_of_getLast? hfirst)
  | cons t rest ih =>
      unfold bracketFaultFrom? at h
      split at h
      next hopen => exact (ih h).cons_open hopen
      next hclose =>
        cases unclosed with
        | nil =>
            obtain rfl := Option.some.inj h
            exact .unopened (balancedAfter_nil.2 rfl) hclose
        | cons span outer => exact (ih h).cons_close hclose
      next hopen hclose => exact (ih h).cons_other hopen hclose

/-- A fault at the first bracket with which too many are closed, or where that never happens, at
the first one that stays open. -/
def IsFirstMismatch (tokens : List Token) (fault : Fault) : Prop :=
  (∃ i t, IsLeast {i | ClosesTooMany tokens i} i ∧ tokens[i]? = some t ∧
      fault = ⟨[t.span], .unopenedBracket⟩) ∨
    (∀ i, ¬ClosesTooMany tokens i) ∧
      ∃ i t, IsLeast {i | StaysOpen tokens i} i ∧ tokens[i]? = some t ∧
        fault = ⟨[t.span], .unclosedBracket⟩

variable {tokens : List Token} {fault fault' : Fault}

/-- There is one such fault at most. -/
theorem IsFirstMismatch.eq (h : IsFirstMismatch tokens fault) (h' : IsFirstMismatch tokens fault') :
    fault = fault' := by
  obtain ⟨i, t, hi, ht, rfl⟩ | ⟨hnone, i, t, hi, ht, rfl⟩ := h
  · obtain ⟨j, u, hj, hu, rfl⟩ | ⟨hnone', -⟩ := h'
    · obtain rfl := hi.unique hj
      obtain rfl := Option.some.inj (ht.symm.trans hu)
      rfl
    · exact absurd hi.1 (hnone' i)
  · obtain ⟨j, u, hj, -⟩ | ⟨-, j, u, hj, hu, rfl⟩ := h'
    · exact absurd hj.1 (hnone j)
    · obtain rfl := hi.unique hj
      obtain rfl := Option.some.inj (ht.symm.trans hu)
      rfl

/-- Where all brackets have their partners, there is none. -/
theorem Balanced.not_isFirstMismatch (h : Balanced tokens) : ¬IsFirstMismatch tokens fault := by
  rintro (⟨i, t, hi, -⟩ | ⟨-, i, t, hi, ht, -⟩)
  · exact absurd (h.1 (i + 1)) (not_le.2 hi.1.excess)
  · have hlt := (List.getElem?_eq_some_iff.1 ht).1
    have hnot := h.not_staysOpen [] hlt
    rw [List.append_nil] at hnot
    exact hnot hi.1

theorem isFirstMismatch_of_blamesBracket (h : BlamesBracket [] tokens fault) :
    IsFirstMismatch tokens fault := by
  cases h with
  | @unopened before after t hbefore hclose =>
      have hbalanced := balancedAfter_zero.1 hbefore
      refine .inl ⟨before.length, t, ⟨⟨⟨t, by simp, hclose⟩, ?_⟩, fun i hi => ?_⟩,
        by simp, rfl⟩
      · rw [List.take_length_add_append]
        simp [hbalanced.2, hclose]
      · exact not_lt.1 fun hlt => hbalanced.not_closesTooMany hlt hi
  | fromBefore hfirst => exact nomatch hfirst
  | @unclosed before after t hbefore hopen hafter =>
      have hbalanced := balancedAfter_zero.1 hbefore
      refine .inr ⟨fun i hi => ?_, before.length, t, ⟨?_, fun i hi => ?_⟩,
        by simp, rfl⟩
      · -- the bracket stands in front of whatever is closed behind it
        have hle : before.length ≤ i := not_lt.1 fun hlt => hbalanced.not_closesTooMany hlt hi
        obtain ⟨n, rfl⟩ := Nat.exists_eq_add_of_le hle
        have hexcess := hi.excess
        have hbehind := not_overcloses.1 hafter n
        rw [Nat.add_assoc, List.take_length_add_append, List.take_succ_cons, openings_append,
          closings_append, hbalanced.2, openings_cons, closings_cons] at hexcess
        simp only [hopen, if_true, reduceCtorEq, if_false] at hexcess
        omega
      · refine (staysOpen_iff (by simp) hopen).2 ?_
        simpa using hafter
      · exact not_lt.1 fun hlt => hbalanced.not_staysOpen _ hlt hi

/-- Nothing is reported if no beginning closes more brackets than it opens and as many are
closed as opened. Otherwise it is the first closing bracket with which more are closed than
were opened, if there is one, and else the first opening bracket that no later one closes. -/
theorem bracketFault_reports (tokens : List Token) :
    (bracketFault? tokens = none ↔
      (∀ n, closings (tokens.take n) ≤ openings (tokens.take n)) ∧
        closings tokens = openings tokens) ∧
    ∀ fault, bracketFault? tokens = some fault ↔ IsFirstMismatch tokens fault := by
  have hreported : ∀ fault, bracketFault? tokens = some fault → IsFirstMismatch tokens fault :=
    fun fault h => isFirstMismatch_of_blamesBracket (blamesBracket_of_bracketFaultFrom? h)
  refine ⟨bracketFault?_eq_none_iff, fun fault => ⟨hreported fault, fun h => ?_⟩⟩
  cases hfault : bracketFault? tokens with
  | none => exact absurd h (bracketFault?_eq_none_iff.1 hfault).not_isFirstMismatch
  | some fault' => rw [(hreported fault' hfault).eq h]

/-- Two brackets stay open, the first and the last one. -/
example : (Token.scan "(()(").toOption.bind bracketFault? =
    some ⟨[⟨0, 1⟩], .unclosedBracket⟩ := by
  decide +kernel

end FormulaGrading
