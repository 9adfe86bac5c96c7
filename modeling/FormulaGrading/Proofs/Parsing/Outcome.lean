import FormulaGrading.Proofs.Diagnosis
import FormulaGrading.Proofs.Phrase

/-!
How readings end: with a value and a place that are as promised, or with a fault that is
as promised. The faults promised of the readings of a formula are nesting that is too deep
and the first fault of the tokens from a place on.
-/

namespace FormulaGrading

namespace Reading

variable {α β : Type} {good : α → Cursor → Prop} {bad : Fault → Prop}

/-- A result is a value that is good with the place reached, or a bad fault. -/
def Ends (good : α → Cursor → Prop) (bad : Fault → Prop)
    (result : Except Fault α × Cursor) : Prop :=
  match result with
  | (.ok a, c) => good a c
  | (.error fault, _) => bad fault

@[simp] theorem ends_ok {a : α} {c : Cursor} :
    Ends good bad ((Except.ok a : Except Fault α), c) ↔ good a c :=
  Iff.rfl

@[simp] theorem ends_error {fault : Fault} {c : Cursor} :
    Ends good bad ((Except.error fault : Except Fault α), c) ↔ bad fault :=
  Iff.rfl

theorem Ends.mono {good' : α → Cursor → Prop} {bad' : Fault → Prop}
    {result : Except Fault α × Cursor} (h : Ends good bad result)
    (hgood : ∀ a c, good a c → good' a c) (hbad : ∀ fault, bad fault → bad' fault) :
    Ends good' bad' result := by
  rcases result with ⟨fault | a, c⟩
  · exact hbad fault h
  · exact hgood a c h

/-- A sequence ends as promised if its second part does from wherever the first part may
end. -/
theorem ends_bind (mid : α → Cursor → Prop) {good : β → Cursor → Prop} {r : Reading α}
    {f : α → Reading β} {c : Cursor} (hr : Ends mid bad (r c))
    (hf : ∀ a c', mid a c' → Ends good bad (f a c')) : Ends good bad ((r >>= f) c) := by
  rw [bind_apply]
  revert hr
  rcases r c with ⟨fault | a, c'⟩
  · exact id
  · exact hf a c'

theorem ends_attempt {r : Reading α} {c : Cursor} :
    Ends good bad (attempt r c) ↔ Ends good bad (r c) := by
  rw [attempt_apply]
  rcases r c with ⟨fault | a, c'⟩ <;> rfl

theorem ends_map {good : β → Cursor → Prop} {f : α → β} {r : Reading α} {c : Cursor} :
    Ends good bad ((f <$> r) c) ↔ Ends (fun a c' => good (f a) c') bad (r c) := by
  rw [map_apply]
  rcases r c with ⟨fault | a, c'⟩ <;> rfl

@[simp] theorem look_bind (f : Cursor → α) (g : α → Reading β) (c : Cursor) :
    (look f >>= g) c = g (f c) c := rfl

@[simp] theorem next_cons (before rest : List Token) (t : Token) :
    next ⟨before, t :: rest⟩ = (.ok t, ⟨t :: before, rest⟩) := rfl

/-- Passing a token that is of the sort asked for. -/
theorem expecting_cons {kinds : List TokenClass} {f : Token → Option α}
    {before rest : List Token} {t : Token} {a : α} (h : f t = some a) :
    expecting kinds f ⟨before, t :: rest⟩ = (.ok a, ⟨t :: before, rest⟩) := by
  rw [expecting, bind_of_ok (next_cons before rest t), h]
  rfl

theorem attempt_expecting_cons {kinds : List TokenClass} {f : Token → Option α}
    {before rest : List Token} {t : Token} {a : α} (h : f t = some a) :
    attempt (expecting kinds f) ⟨before, t :: rest⟩ = (.ok a, ⟨t :: before, rest⟩) := by
  rw [attempt_apply, expecting_cons h]

theorem attempt_token_cons {kind : TokenClass} {before rest : List Token} {t : Token}
    (h : t.kind = kind) :
    attempt (token kind) ⟨before, t :: rest⟩ = (.ok t, ⟨t :: before, rest⟩) :=
  attempt_expecting_cons (by simp [h])

theorem symbol_cons {before rest : List Token} {t : Token} (h : t.kind = .name) :
    symbol ⟨before, t :: rest⟩ = (.ok ⟨t.lexeme, t.span⟩, ⟨t :: before, rest⟩) := by
  rw [symbol, bind_of_ok (attempt_token_cons h)]
  rfl

theorem attempt_of_ok {r : Reading α} {c c' : Cursor} {a : α} (h : r c = (.ok a, c')) :
    attempt r c = (.ok a, c') := by
  rw [attempt_apply, h]

end Reading

/-- The kind of the token passed last. -/
def Cursor.kindBehind? (c : Cursor) : Option TokenClass :=
  c.behind?.map Token.kind

@[simp] theorem Cursor.kindBehind?_cons (before rest : List Token) (t : Token) :
    Cursor.kindBehind? ⟨t :: before, rest⟩ = some t.kind := rfl

theorem Cursor.currentIs_eq (before rest : List Token) (f : TokenClass → Bool) :
    Cursor.currentIs ⟨before, rest⟩ f = (firstKind? rest).any f := by
  cases rest <;> rfl

@[simp] theorem Cursor.span_cons (before rest : List Token) (t : Token) :
    Cursor.span ⟨before, t :: rest⟩ = t.span := rfl

/-- Passing a token changes nothing about the row of tokens. -/
theorem Cursor.tokens_pass (before rest : List Token) (t : Token) :
    Cursor.tokens ⟨t :: before, rest⟩ = Cursor.tokens ⟨before, t :: rest⟩ := by
  simp [Cursor.tokens]

/-- The first fault from a place on. -/
def Cursor.fault? (declared : List String) (c : Cursor) : Option Fault :=
  firstFault? declared c.kindBehind? c.after

/-- Brackets are balanced behind some number of open ones, and every number can be read. -/
structure InOrder (tokens : List Token) : Prop where
  balanced : ∃ opened, BalancedAfter opened tokens
  readable : ∀ t ∈ tokens, t.kind = .number →
    (Decimal.readUnsigned? t.lexeme.toList).isSome

theorem InOrder.tail {t : Token} {rest : List Token} (h : InOrder (t :: rest)) :
    InOrder rest := by
  refine ⟨?_, fun t' ht' => h.readable t' (List.mem_cons_of_mem _ ht')⟩
  obtain ⟨opened, hbalanced⟩ := h.balanced
  by_cases hopen : t.kind = .openBracket
  · exact ⟨opened + 1, (balancedAfter_cons_open hopen).1 hbalanced⟩
  by_cases hclose : t.kind = .closeBracket
  · obtain ⟨outer, -, houter⟩ := (balancedAfter_cons_close hclose).1 hbalanced
    exact ⟨outer, houter⟩
  · exact ⟨opened, (balancedAfter_cons_other hopen hclose).1 hbalanced⟩

/-- Whether the fault of a reading is nesting that is too deep at a token, or the first fault
from the place where the reading began. -/
def Blames (declared : List String) (c : Cursor) (fault : Fault) : Prop :=
  InOrder c.after →
    (∃ t ∈ c.after, fault = ⟨[t.span], .tooDeep nestingLimit⟩) ∨
      c.fault? declared = some fault

/-- No fault is passed between two places. -/
def Faultless (declared : List String) (c c' : Cursor) : Prop :=
  InOrder c.after →
    InOrder c'.after ∧ c'.after <:+ c.after ∧ c.fault? declared = c'.fault? declared

section

variable {declared : List String} {c c' c'' : Cursor}

theorem Faultless.refl (c : Cursor) : Faultless declared c c :=
  fun h => ⟨h, List.suffix_rfl, rfl⟩

theorem Faultless.trans (h : Faultless declared c c') (h' : Faultless declared c' c'') :
    Faultless declared c c'' := by
  intro hc
  obtain ⟨hc', hsuffix, heq⟩ := h hc
  obtain ⟨hc'', hsuffix', heq'⟩ := h' hc'
  exact ⟨hc'', hsuffix'.trans hsuffix, heq.trans heq'⟩

/-- What is to blame behind a faultless part is to blame in front of it. -/
theorem Blames.of_faultless {fault : Fault} (hb : Blames declared c' fault)
    (h : Faultless declared c c') : Blames declared c fault := by
  intro hc
  obtain ⟨hc', hsuffix, heq⟩ := h hc
  obtain ⟨t, ht, rfl⟩ | hfault := hb hc'
  · exact .inl ⟨t, hsuffix.subset ht, rfl⟩
  · exact .inr (heq.trans hfault)

theorem faultless_cons {before rest : List Token} {t : Token}
    (h : localFault? declared (Cursor.kindBehind? ⟨before, t :: rest⟩) t
      (firstKind? rest) = none) :
    Faultless declared ⟨before, t :: rest⟩ ⟨t :: before, rest⟩ :=
  fun hc => ⟨hc.tail, List.suffix_cons .., firstFault?_cons_of_none h⟩

theorem blames_cons {before rest : List Token} {t : Token} {fault : Fault}
    (h : localFault? declared (Cursor.kindBehind? ⟨before, t :: rest⟩) t
      (firstKind? rest) = some fault) : Blames declared ⟨before, t :: rest⟩ fault :=
  fun _ => .inr (firstFault?_cons_of_some h)

theorem blames_tooDeep (hsome : c.after ≠ []) :
    Blames declared c ⟨[c.span], .tooDeep nestingLimit⟩ := by
  obtain ⟨before, after⟩ := c
  obtain ⟨t, rest, rfl⟩ := List.exists_cons_of_ne_nil hsome
  exact fun _ => .inl ⟨t, List.mem_cons_self, rfl⟩

end

/-- The tokens between two places of one row derive a formula within limits. -/
structure Derived (declared : List String) (first later : Nat) (p : Precedence)
    (c : Cursor) (e : Formula) (c' : Cursor) : Prop where
  within : DerivesWithin declared first later p c.after e c'.after
  tokens : c'.tokens = c.tokens

namespace Derived

variable {declared : List String} {first later : Nat} {p q : Precedence}
  {c c' : Cursor} {e : Formula}

theorem loosen (h : Derived declared first later q c e c') (hle : p.rank ≤ q.rank) :
    Derived declared first later p c e c' :=
  ⟨.loosen hle h.within, h.tokens⟩

/-- The tokens passed, the last of which ends an operand. -/
theorem passed (h : Derived declared first later p c e c') :
    ∃ ts last, c.after = ts ++ last :: c'.after ∧
      c'.before = last :: (ts.reverse ++ c.before) ∧ last.kind.endsOperand ∧
      ((c.kindBehind?.any TokenClass.endsOperand →
          (firstKind? c.after).any TokenClass.opensAtom) →
        c.fault? declared = c'.fault? declared) := by
  obtain ⟨ts, last, hafter, hends, hfault⟩ := h.within.derives.firstFault?_eq
  have hbefore : c'.before = last :: (ts.reverse ++ c.before) := by
    have htokens := h.tokens
    simp only [Cursor.tokens, hafter] at htokens
    have hsplit : c'.before.reverse ++ c'.after =
        (c.before.reverse ++ ts ++ [last]) ++ c'.after := by
      simpa using htokens
    have hreverse := congrArg List.reverse (List.append_cancel_right hsplit)
    simpa using hreverse
  refine ⟨ts, last, hafter, hbefore, hends, fun hstart => ?_⟩
  simpa [Cursor.fault?, Cursor.kindBehind?, Cursor.behind?, hbefore] using
    hfault c.kindBehind? hstart

theorem endsOperand (h : Derived declared first later p c e c') :
    c'.kindBehind?.any TokenClass.endsOperand := by
  obtain ⟨ts, last, -, hbefore, hends, -⟩ := h.passed
  simp [Cursor.kindBehind?, Cursor.behind?, hbefore, hends]

theorem faultless (h : Derived declared first later p c e c')
    (hstart : c.kindBehind?.any TokenClass.endsOperand →
      (firstKind? c.after).any TokenClass.opensAtom) : Faultless declared c c' := by
  intro hc
  obtain ⟨ts, last, hafter, -, -, hfault⟩ := h.passed
  refine ⟨⟨?_, fun t ht => hc.readable t ?_⟩, ?_, hfault hstart⟩
  · obtain ⟨opened, hbalanced⟩ := hc.balanced
    exact ⟨opened, h.within.derives.balancedAfter_iff.1 hbalanced⟩
  · rw [hafter]
    exact List.mem_append_right _ (List.mem_cons_of_mem _ ht)
  · exact ⟨ts ++ [last], by simp [hafter]⟩

theorem length_lt (h : Derived declared first later p c e c') :
    c'.after.length < c.after.length :=
  h.within.derives.length_lt

end Derived

end FormulaGrading
