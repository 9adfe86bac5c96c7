import FormulaGrading.Proofs.Grammar

/-!
What is wrong with a row of tokens, seen from one token with the kinds of its two
neighbours. The first fault of this sort is the one that reading a formula meets, as far
as brackets are balanced and nothing is nested too deeply.
-/

namespace FormulaGrading

/-- Whether a formula begins behind a token of this kind, or at the start of the text. -/
def opensFormula : Option TokenClass → Bool
  | none => true
  | some kind => kind == .openBracket

/-- The fault of an operation between operands, given what follows it. A sum before an
operation that can be no sign is taken for a sign out of place. -/
def operationFault? (op : Operation) (span : Span) (after : Option TokenClass) :
    Option Fault :=
  if after.any TokenClass.opensOperand then none
  else if (op == .add || op == .subtract) && after.any TokenClass.isStrictlyBinary then
    some ⟨[span], .straySign⟩
  else some ⟨[span], .missingOperand op⟩

/-- The fault of a name, given what follows it. A function needs its argument, and other
names in front of a bracket must be able to multiply it. -/
def nameFault? (declared : List String) (t : Token) (after : Option TokenClass) :
    Option Fault :=
  if isFunctionName t.lexeme then
    if after = some .openBracket then none
    else some ⟨[t.span], .missingArgument t.lexeme⟩
  else if after = some .openBracket && !multipliesGroup declared t.lexeme then
    some ⟨[t.span],
      .noSuchFunction t.lexeme (RealFunction.similarNames t.lexeme)⟩
  else none

/-- The fault of an operation or sign between a token before it and a token after it. A
sum or difference is an operation behind the end of an operand, and a sign elsewhere.
Nothing is said about a product or power behind another operation or a sign, since that
one is at fault already. -/
def operatorFault? (op : Operation) (before : Option TokenClass) (t : Token)
    (after : Option TokenClass) : Option Fault :=
  if before.any TokenClass.endsOperand then operationFault? op t.span after
  else if t.kind.mayBeSign then
    if after.any TokenClass.opensOperand then none else some ⟨[t.span], .straySign⟩
  else if opensFormula before then some ⟨[t.span], .missingOperand op⟩
  else none

/-- The fault of a token between a token before it and a token after it. -/
def localFault? (declared : List String) (before : Option TokenClass) (t : Token)
    (after : Option TokenClass) : Option Fault :=
  match t.kind with
  | .add => operatorFault? .add before t after
  | .subtract => operatorFault? .subtract before t after
  | .multiply => operatorFault? .multiply before t after
  | .divide => operatorFault? .divide before t after
  | .power => operatorFault? .power before t after
  | .name => nameFault? declared t after
  | .closeBracket =>
      if opensFormula before then some ⟨[t.span], .missingFormula⟩ else none
  | .number | .openBracket => none

/-- The first fault of a row of tokens behind a token. -/
def firstFault? (declared : List String) : Option TokenClass → List Token → Option Fault
  | _, [] => none
  | before, t :: rest =>
      (localFault? declared before t (firstKind? rest)).or
        (firstFault? declared (some t.kind) rest)

@[simp] theorem firstFault?_nil (declared : List String) (before : Option TokenClass) :
    firstFault? declared before [] = none := rfl

theorem firstFault?_cons (declared : List String) (before : Option TokenClass) (t : Token)
    (rest : List Token) :
    firstFault? declared before (t :: rest) =
      (localFault? declared before t (firstKind? rest)).or
        (firstFault? declared (some t.kind) rest) := rfl

theorem firstFault?_cons_of_none {declared : List String} {before : Option TokenClass}
    {t : Token} {rest : List Token}
    (h : localFault? declared before t (firstKind? rest) = none) :
    firstFault? declared before (t :: rest) = firstFault? declared (some t.kind) rest := by
  rw [firstFault?_cons, h, Option.none_or]

theorem firstFault?_cons_of_some {declared : List String} {before : Option TokenClass}
    {t : Token} {rest : List Token} {fault : Fault}
    (h : localFault? declared before t (firstKind? rest) = some fault) :
    firstFault? declared before (t :: rest) = some fault := by
  rw [firstFault?_cons, h, Option.some_or]

section

variable {declared : List String} {before after : Option TokenClass} {t : Token}

theorem localFault?_of_operation {op : Operation} (h : t.kind.operation? = some op) :
    localFault? declared before t after = operatorFault? op before t after := by
  cases hk : t.kind <;> simp_all [TokenClass.operation?, localFault?]

/-- A sign or operation in front of an operand is in order, if an operation has one behind
it as well. -/
theorem localFault?_eq_none_of_followed {op : Operation}
    (h : t.kind.operation? = some op) (hafter : after.any TokenClass.opensOperand)
    (hbefore : before.any TokenClass.endsOperand ∨ t.kind.mayBeSign) :
    localFault? declared before t after = none := by
  rw [localFault?_of_operation h, operatorFault?]
  split
  · simp [operationFault?, hafter]
  · simp_all

theorem localFault?_number (h : t.kind = .number) :
    localFault? declared before t after = none := by
  simp [localFault?, h]

theorem localFault?_openBracket (h : t.kind = .openBracket) :
    localFault? declared before t after = none := by
  simp [localFault?, h]

theorem localFault?_name (h : t.kind = .name) :
    localFault? declared before t after = nameFault? declared t after := by
  simp [localFault?, h]

theorem localFault?_closeBracket (h : t.kind = .closeBracket)
    (hbefore : before.any TokenClass.endsOperand) :
    localFault? declared before t after = none := by
  cases before with
  | none => simp at hbefore
  | some kind => cases kind <;> simp_all [localFault?, opensFormula, TokenClass.endsOperand]

end

/-- The causes that a token shows together with its neighbours. -/
def Cause.IsLocal : Cause → Prop
  | .missingOperand _ | .straySign | .noSuchFunction .. | .missingArgument _
  | .missingFormula => True
  | _ => False

theorem localFault?_at {declared : List String} {before after : Option TokenClass} {t : Token}
    {fault : Fault} (h : localFault? declared before t after = some fault) :
    fault.spans = [t.span] ∧ fault.cause.IsLocal := by
  have hoperator : ∀ op, operatorFault? op before t after = some fault →
      fault.spans = [t.span] ∧ fault.cause.IsLocal := by
    intro op hop
    grind [operatorFault?, operationFault?, Cause.IsLocal]
  unfold localFault? at h
  split at h
  iterate 5 exact hoperator _ h
  all_goals grind [nameFault?, Cause.IsLocal]

/-- The first fault of a row of tokens is at one of them. -/
theorem firstFault?_at {declared : List String} {before : Option TokenClass}
    {tokens : List Token} {fault : Fault} (h : firstFault? declared before tokens = some fault) :
    (∃ t ∈ tokens, fault.spans = [t.span]) ∧ fault.cause.IsLocal := by
  induction tokens generalizing before with
  | nil => exact nomatch h
  | cons t rest ih =>
      rw [firstFault?_cons, Option.or_eq_some_iff] at h
      obtain hlocal | ⟨-, hrest⟩ := h
      · obtain ⟨hspans, hcause⟩ := localFault?_at hlocal
        exact ⟨⟨t, List.mem_cons_self, hspans⟩, hcause⟩
      · obtain ⟨⟨t', ht', hspans⟩, hcause⟩ := ih hrest
        exact ⟨⟨t', List.mem_cons_of_mem t ht', hspans⟩, hcause⟩

/-- None of these faults is about the partners of brackets. -/
theorem cause_of_firstFault? {declared : List String} {before : Option TokenClass}
    {tokens : List Token} {fault : Fault} (h : firstFault? declared before tokens = some fault) :
    fault.cause ≠ .unclosedBracket ∧ fault.cause ≠ .unopenedBracket := by
  have hlocal := (firstFault?_at h).2
  constructor <;>
  · intro hcause
    rw [hcause] at hlocal
    exact hlocal

/-- A phrase holds no fault, so that the first fault is met behind it. A phrase that begins
with a sign must not stand behind an operand. -/
theorem Derives.firstFault?_eq {declared : List String} {p : Precedence}
    {ts rest : List Token} {e : Formula} (h : Derives declared p ts e rest) :
    ∃ ts' last, ts = ts' ++ last :: rest ∧ last.kind.endsOperand ∧
      ∀ before : Option TokenClass,
        (before.any TokenClass.endsOperand → (firstKind? ts).any TokenClass.opensAtom) →
        firstFault? declared before ts = firstFault? declared (some last.kind) rest := by
  induction h with
  | loosen _ _ ih => exact ih
  | @binary op _ _ _ t _ _ hop _ hr ihl ihr =>
      obtain ⟨tsl, lastl, hl, hends, hfaultl⟩ := ihl
      obtain ⟨tsr, lastr, hr', hendsr, hfaultr⟩ := ihr
      refine ⟨tsl ++ lastl :: t :: tsr, lastr, by simp [hl, hr'], hendsr, ?_⟩
      intro before hbefore
      -- the token between the operands sees the end of one and the beginning of the other
      rw [hfaultl before hbefore, firstFault?_cons_of_none, hfaultr]
      · simp [TokenClass.endsOperand_of_operation? hop]
      · exact localFault?_eq_none_of_followed hop hr.opensOperand (.inl (by simpa using hends))
  | adjacent _ _ hr ihl ihr =>
      obtain ⟨tsl, lastl, hl, hends, hfaultl⟩ := ihl
      obtain ⟨tsr, lastr, hr', hendsr, hfaultr⟩ := ihr
      refine ⟨tsl ++ lastl :: tsr, lastr, by simp [hl, hr'], hendsr, ?_⟩
      intro before hbefore
      rw [hfaultl before hbefore, hfaultr]
      exact fun _ => hr.opensAtom (by decide)
  | @signed sign _ _ t _ hsign he ih =>
      obtain ⟨ts', last, hts, hends, hfault⟩ := ih
      refine ⟨t :: ts', last, by simp [hts], hends, ?_⟩
      intro before hbefore
      obtain ⟨op, hop, hmay⟩ := TokenClass.operation?_of_sign? hsign
      rw [firstFault?_cons_of_none, hfault]
      · simp [TokenClass.endsOperand_of_operation? hop]
      · exact localFault?_eq_none_of_followed hop he.opensOperand (.inr hmay)
  | @number t _ _ hkind _ =>
      refine ⟨[], t, rfl, by simp [hkind, TokenClass.endsOperand], fun before _ => ?_⟩
      exact firstFault?_cons_of_none (localFault?_number hkind)
  | @symbol t _ hkind hname hgroup =>
      refine ⟨[], t, rfl, by simp [hkind, TokenClass.endsOperand], fun before _ => ?_⟩
      refine firstFault?_cons_of_none ?_
      rw [localFault?_name hkind, nameFault?]
      simp_all
  | @call f opening closing _ _ _ hf hname hopen hclose _ ih =>
      obtain ⟨ts', last, hts, hends, hfault⟩ := ih
      refine ⟨f :: opening :: (ts' ++ [last]), closing, by simp [hts],
        by simp [hclose, TokenClass.endsOperand], fun before _ => ?_⟩
      rw [firstFault?_cons_of_none, firstFault?_cons_of_none, hfault,
        firstFault?_cons_of_none]
      · exact localFault?_closeBracket hclose (by simpa using hends)
      · simp [hopen, TokenClass.endsOperand]
      · exact localFault?_openBracket hopen
      · rw [localFault?_name hf]
        simp [nameFault?, hname, hopen]
  | @group opening closing _ _ _ hopen hclose _ ih =>
      obtain ⟨ts', last, hts, hends, hfault⟩ := ih
      refine ⟨opening :: (ts' ++ [last]), closing, by simp [hts],
        by simp [hclose, TokenClass.endsOperand], fun before _ => ?_⟩
      rw [firstFault?_cons_of_none, hfault, firstFault?_cons_of_none]
      · exact localFault?_closeBracket hclose (by simpa using hends)
      · simp [hopen, TokenClass.endsOperand]
      · exact localFault?_openBracket hopen

end FormulaGrading
