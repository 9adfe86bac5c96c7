import FormulaGrading.Token.Brackets

/-!
Balanced brackets, said by counting, and the check of the brackets of a text. The check
finds nothing wrong exactly when the brackets are balanced.
-/

namespace FormulaGrading

/-- The number of opening brackets. -/
def openings (tokens : List Token) : Nat :=
  tokens.countP fun t => t.kind == .openBracket

/-- The number of closing brackets. -/
def closings (tokens : List Token) : Nat :=
  tokens.countP fun t => t.kind == .closeBracket

/-- Balanced behind a number of brackets that are still open: no beginning closes more
brackets than are open, and all together closes all of them. -/
def BalancedAfter (opened : Nat) (tokens : List Token) : Prop :=
  (∀ n, closings (tokens.take n) ≤ opened + openings (tokens.take n)) ∧
    closings tokens = opened + openings tokens

/-- No beginning has more closing than opening brackets, and there are as many of the one
kind as of the other. -/
def Balanced (tokens : List Token) : Prop :=
  (∀ n, closings (tokens.take n) ≤ openings (tokens.take n)) ∧
    closings tokens = openings tokens

theorem balancedAfter_zero {tokens : List Token} :
    BalancedAfter 0 tokens ↔ Balanced tokens := by
  simp [BalancedAfter, Balanced]

@[simp] theorem openings_cons (t : Token) (rest : List Token) :
    openings (t :: rest) = openings rest + if t.kind = .openBracket then 1 else 0 := by
  simp [openings, List.countP_cons]

@[simp] theorem closings_cons (t : Token) (rest : List Token) :
    closings (t :: rest) = closings rest + if t.kind = .closeBracket then 1 else 0 := by
  simp [closings, List.countP_cons]

@[simp] theorem openings_append (ts us : List Token) :
    openings (ts ++ us) = openings ts + openings us := by
  simp [openings]

@[simp] theorem closings_append (ts us : List Token) :
    closings (ts ++ us) = closings ts + closings us := by
  simp [closings]

@[simp] theorem openings_nil : openings [] = 0 := rfl

@[simp] theorem closings_nil : closings [] = 0 := rfl

@[simp] theorem balancedAfter_nil {opened : Nat} : BalancedAfter opened [] ↔ opened = 0 := by
  simp [BalancedAfter, eq_comm]

/-- What a beginning of a row may close, one token further on. -/
theorem balancedAfter_cons {opened : Nat} {t : Token} {rest : List Token} :
    BalancedAfter opened (t :: rest) ↔
      (∀ n, closings (rest.take n) + (if t.kind = .closeBracket then 1 else 0) ≤
          opened + (openings (rest.take n) + if t.kind = .openBracket then 1 else 0)) ∧
        closings rest + (if t.kind = .closeBracket then 1 else 0) =
          opened + (openings rest + if t.kind = .openBracket then 1 else 0) := by
  unfold BalancedAfter
  constructor
  · rintro ⟨hbegin, htotal⟩
    refine ⟨fun n => ?_, by simpa using htotal⟩
    simpa using hbegin (n + 1)
  · rintro ⟨hbegin, htotal⟩
    refine ⟨fun n => ?_, by simpa using htotal⟩
    cases n with
    | zero => simp
    | succ n => simpa using hbegin n

theorem balancedAfter_cons_open {opened : Nat} {t : Token} {rest : List Token}
    (h : t.kind = .openBracket) :
    BalancedAfter opened (t :: rest) ↔ BalancedAfter (opened + 1) rest := by
  rw [balancedAfter_cons]
  simp only [h, reduceCtorEq, if_false, if_true, Nat.add_zero, BalancedAfter,
    Nat.add_right_comm opened 1, Nat.add_assoc]

/-- Nothing more can be closed behind a closing bracket than was open before it. -/
theorem balancedAfter_cons_close {opened : Nat} {t : Token} {rest : List Token}
    (h : t.kind = .closeBracket) :
    BalancedAfter opened (t :: rest) ↔
      ∃ outer, opened = outer + 1 ∧ BalancedAfter outer rest := by
  rw [balancedAfter_cons]
  simp only [h, reduceCtorEq, if_false, if_true, Nat.add_zero, BalancedAfter]
  constructor
  · rintro ⟨hbegin, htotal⟩
    have hfirst : 1 ≤ opened := by simpa using hbegin 0
    refine ⟨opened - 1, by omega, fun n => ?_, by omega⟩
    have := hbegin n
    omega
  · rintro ⟨outer, rfl, hbegin, htotal⟩
    refine ⟨fun n => ?_, by omega⟩
    have := hbegin n
    omega

theorem balancedAfter_cons_other {opened : Nat} {t : Token} {rest : List Token}
    (hopen : t.kind ≠ .openBracket) (hclose : t.kind ≠ .closeBracket) :
    BalancedAfter opened (t :: rest) ↔ BalancedAfter opened rest := by
  rw [balancedAfter_cons]
  simp [hopen, hclose, BalancedAfter]

/-- Balanced tokens do not go on beyond a bracket that closes none of them. -/
theorem Balanced.length_le {ts us after rest : List Token} {closing : Token} (hts : Balanced ts)
    (hus : Balanced us) (hclose : closing.kind = .closeBracket)
    (h : ts ++ closing :: after = us ++ rest) : us.length ≤ ts.length := by
  refine Nat.le_of_not_lt fun hlonger => ?_
  have hprefix : ts ++ [closing] <+: us :=
    List.prefix_of_prefix_length_le ⟨after, by rw [← h, List.append_assoc]; rfl⟩
      (List.prefix_append us rest) (by rwa [List.length_append])
  obtain ⟨more, rfl⟩ := hprefix
  have hbegin := hus.1 (ts ++ [closing]).length
  rw [List.take_left, openings_append, closings_append, ← hts.2] at hbegin
  simp only [openings_cons, closings_cons, hclose, openings_nil, closings_nil] at hbegin
  exact absurd hbegin (by simp)

/-- A group ends where its opening bracket has its partner. -/
theorem Balanced.eq_of_append {ts us after rest : List Token} {closing closing' : Token}
    (hts : Balanced ts) (hus : Balanced us) (hclose : closing.kind = .closeBracket)
    (hclose' : closing'.kind = .closeBracket)
    (h : ts ++ closing :: after = us ++ closing' :: rest) :
    closing = closing' ∧ after = rest := by
  have hlength : ts.length = us.length :=
    Nat.le_antisymm (hus.length_le hts hclose' h.symm) (hts.length_le hus hclose h)
  exact List.cons.inj (List.append_inj h hlength).2

/-- The check goes by a stack of open brackets, of which only the height matters for
whether it finds a fault. -/
theorem bracketFaultFrom?_eq_none_iff {unclosed : List Span} {tokens : List Token} :
    bracketFaultFrom? unclosed tokens = none ↔ BalancedAfter unclosed.length tokens := by
  induction tokens generalizing unclosed with
  | nil => simp [bracketFaultFrom?]
  | cons t rest ih =>
      unfold bracketFaultFrom?
      split
      next h => rw [ih, balancedAfter_cons_open h, List.length_cons]
      next h =>
        rw [balancedAfter_cons_close h]
        cases unclosed with
        | nil => simp
        | cons span outer => simp [ih]
      next hopen hclose =>
        rw [ih, balancedAfter_cons_other hopen hclose]

theorem bracketFault?_eq_none_iff {tokens : List Token} :
    bracketFault? tokens = none ↔ Balanced tokens := by
  rw [bracketFault?, bracketFaultFrom?_eq_none_iff, List.length_nil, balancedAfter_zero]

/-- Whatever the check finds is a bracket without its partner: one of those that were open
before, or one of the tokens. -/
theorem bracketFaultFrom?_at {unclosed : List Span} {tokens : List Token} {fault : Fault}
    (h : bracketFaultFrom? unclosed tokens = some fault) :
    ∃ span, (span ∈ unclosed ∨ ∃ t ∈ tokens, span = t.span) ∧
      (fault = ⟨[span], .unclosedBracket⟩ ∨ fault = ⟨[span], .unopenedBracket⟩) := by
  induction tokens generalizing unclosed with
  | nil =>
      obtain ⟨span, hspan, rfl⟩ := Option.map_eq_some_iff.1 h
      exact ⟨span, .inl (List.mem_of_getLast? hspan), .inl rfl⟩
  | cons t rest ih =>
      -- what is open further on was open before, or it is this token
      have hrest : ∀ {unclosed'}, bracketFaultFrom? unclosed' rest = some fault →
          (∀ span ∈ unclosed', span = t.span ∨ span ∈ unclosed) →
          ∃ span, (span ∈ unclosed ∨ ∃ t' ∈ t :: rest, span = t'.span) ∧
            (fault = ⟨[span], .unclosedBracket⟩ ∨ fault = ⟨[span], .unopenedBracket⟩) := by
        intro unclosed' h' hunclosed
        obtain ⟨span, hmem | ⟨t', ht', rfl⟩, hfault⟩ := ih h'
        · obtain rfl | hold := hunclosed span hmem
          · exact ⟨_, .inr ⟨t, List.mem_cons_self, rfl⟩, hfault⟩
          · exact ⟨span, .inl hold, hfault⟩
        · exact ⟨_, .inr ⟨t', List.mem_cons_of_mem t ht', rfl⟩, hfault⟩
      unfold bracketFaultFrom? at h
      split at h
      next => exact hrest h fun span hspan => List.mem_cons.1 hspan
      next =>
        cases unclosed with
        | nil =>
            obtain rfl := Option.some.inj h
            exact ⟨t.span, .inr ⟨t, List.mem_cons_self, rfl⟩, .inr rfl⟩
        | cons last outer =>
            exact hrest h fun span hspan => .inr (List.mem_cons_of_mem _ hspan)
      next => exact hrest h fun span hspan => .inr hspan

theorem cause_of_bracketFaultFrom? {unclosed : List Span} {tokens : List Token}
    {fault : Fault} (h : bracketFaultFrom? unclosed tokens = some fault) :
    ∃ span, fault = ⟨[span], .unclosedBracket⟩ ∨ fault = ⟨[span], .unopenedBracket⟩ :=
  let ⟨span, _, hfault⟩ := bracketFaultFrom?_at h
  ⟨span, hfault⟩

end FormulaGrading
