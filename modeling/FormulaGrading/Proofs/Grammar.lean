import FormulaGrading.Parser.Level
import FormulaGrading.Proofs.Brackets

/-!
The grammar of formulas, in layers from the loosest to the tightest: sums, products,
signed operands, powers and atoms. A formula of a tighter layer is one of every looser
layer, and the loosest layer holds all formulas.

    sum     := product (('+' | '-') product)*
    product := signed (('*' | '/') signed | power)*
    signed  := ('+' | '-') signed | power
    power   := atom ('^' signed)?
    atom    := number | name | function '(' sum ')' | '(' sum ')'

There are two versions of it. `Derives` is the plain grammar. `DerivesWithin` also counts
how often reading descends: the first operand of a phrase has one number of descents, and
the operations after it have another. The two agree when the numbers are large enough.
-/

namespace FormulaGrading

/-- The kind of the first token. -/
def firstKind? (tokens : List Token) : Option TokenClass :=
  tokens.head?.map Token.kind

@[simp] theorem firstKind?_nil : firstKind? [] = none := rfl

@[simp] theorem firstKind?_cons (t : Token) (rest : List Token) :
    firstKind? (t :: rest) = some t.kind := rfl

/-- Whether an operand can end in a token of this kind. -/
def TokenClass.endsOperand : TokenClass → Bool
  | .number | .name | .closeBracket => true
  | _ => false

/-- Behind an operation an operand is still due. -/
theorem TokenClass.endsOperand_of_operation? {kind : TokenClass} {op : Operation}
    (h : kind.operation? = some op) : kind.endsOperand = false := by
  cases kind <;> first | rfl | exact nomatch h

/-- A sign is an operation as well, seen from the left. -/
theorem TokenClass.operation?_of_sign? {kind : TokenClass} {sign : Sign}
    (h : kind.sign? = some sign) : ∃ op, kind.operation? = some op ∧ kind.mayBeSign := by
  cases kind <;> first | exact ⟨_, rfl, rfl⟩ | exact nomatch h

namespace Operation

/-- The layer of left operands. Sums and products go on to the right of sums and
products; the base of a power is an atom. -/
def leftOperand : Operation → Precedence
  | .add | .subtract => .sum
  | .multiply | .divide => .product
  | .power => .atom

/-- The layer of right operands: products for sums, and operands that may carry signs
for products and powers. -/
def rightOperand : Operation → Precedence
  | .add | .subtract => .product
  | .multiply | .divide | .power => .sign

end Operation

/-- The tokens from the first list up to the second one derive a formula of a layer.
A name in front of a bracket must be able to multiply a group, and no function is a name
on its own. -/
inductive Derives (declared : List String) :
    Precedence → List Token → Formula → List Token → Prop where
  | loosen {p q : Precedence} {ts rest : List Token} {e : Formula}
      (hle : p.rank ≤ q.rank) (he : Derives declared q ts e rest) :
      Derives declared p ts e rest
  | binary {op : Operation} {ts ts' rest : List Token} {t : Token} {l r : Formula}
      (hop : t.kind.operation? = some op)
      (hl : Derives declared op.leftOperand ts l (t :: ts'))
      (hr : Derives declared op.rightOperand ts' r rest) :
      Derives declared op.precedence ts (l.combine ⟨op, false, t.span⟩ r) rest
  | adjacent {ts ts₁ ts₂ rest : List Token} {last first : Token} {l r : Formula}
      (hts : ts = ts₁ ++ last :: first :: ts₂)
      (hl : Derives declared .product ts l (first :: ts₂))
      (hr : Derives declared .power (first :: ts₂) r rest) :
      Derives declared .product ts
        (l.combine ⟨.multiply, true, last.span.gap first.span⟩ r) rest
  | signed {sign : Sign} {ts rest : List Token} {t : Token} {e : Formula}
      (hsign : t.kind.sign? = some sign) (he : Derives declared .sign ts e rest) :
      Derives declared .sign (t :: ts)
        (.signed ⟨sign, t.span⟩ e (t.span.join e.span)) rest
  | number {t : Token} {rest : List Token} {value : Float}
      (hkind : t.kind = .number)
      (hvalue : Decimal.readUnsigned? t.lexeme.toList = some value) :
      Derives declared .atom (t :: rest) (.number value t.span) rest
  | symbol {t : Token} {rest : List Token} (hkind : t.kind = .name)
      (hname : isFunctionName t.lexeme = false)
      (hgroup : firstKind? rest = some .openBracket → multipliesGroup declared t.lexeme) :
      Derives declared .atom (t :: rest) (.symbol ⟨t.lexeme, t.span⟩) rest
  | call {f opening closing : Token} {ts rest : List Token} {e : Formula}
      (hf : f.kind = .name) (hname : isFunctionName f.lexeme)
      (hopen : opening.kind = .openBracket) (hclose : closing.kind = .closeBracket)
      (he : Derives declared .loosest ts e (closing :: rest)) :
      Derives declared .atom (f :: opening :: ts)
        (.call ⟨f.lexeme, f.span⟩ e (opening.span.join closing.span)
          (f.span.join closing.span)) rest
  | group {opening closing : Token} {ts rest : List Token} {e : Formula}
      (hopen : opening.kind = .openBracket) (hclose : closing.kind = .closeBracket)
      (he : Derives declared .loosest ts e (closing :: rest)) :
      Derives declared .atom (opening :: ts) e rest

/-- The same within limits: `first` descents for the first operand, and as many rounds of
operations after it as `later` allows. Rounds are read one level below `later`, and their
right operands have that level for both. A call descends twice. -/
inductive DerivesWithin (declared : List String) :
    Nat → Nat → Precedence → List Token → Formula → List Token → Prop where
  | loosen {first later : Nat} {p q : Precedence} {ts rest : List Token} {e : Formula}
      (hle : p.rank ≤ q.rank) (he : DerivesWithin declared first later q ts e rest) :
      DerivesWithin declared first later p ts e rest
  | binary {first later : Nat} {op : Operation} {ts ts' rest : List Token} {t : Token}
      {l r : Formula} (hop : t.kind.operation? = some op)
      (hl : DerivesWithin declared first (later + 1) op.leftOperand ts l (t :: ts'))
      (hr : DerivesWithin declared later later op.rightOperand ts' r rest) :
      DerivesWithin declared first (later + 1) op.precedence ts
        (l.combine ⟨op, false, t.span⟩ r) rest
  | adjacent {first later : Nat} {ts ts₁ ts₂ rest : List Token} {last next : Token}
      {l r : Formula} (hts : ts = ts₁ ++ last :: next :: ts₂)
      (hl : DerivesWithin declared first (later + 1) .product ts l (next :: ts₂))
      (hr : DerivesWithin declared later later .power (next :: ts₂) r rest) :
      DerivesWithin declared first (later + 1) .product ts
        (l.combine ⟨.multiply, true, last.span.gap next.span⟩ r) rest
  | signed {first later : Nat} {sign : Sign} {ts rest : List Token} {t : Token}
      {e : Formula} (hsign : t.kind.sign? = some sign)
      (he : DerivesWithin declared first (first + 1) .sign ts e rest) :
      DerivesWithin declared (first + 1) later .sign (t :: ts)
        (.signed ⟨sign, t.span⟩ e (t.span.join e.span)) rest
  | number {first later : Nat} {t : Token} {rest : List Token} {value : Float}
      (hkind : t.kind = .number)
      (hvalue : Decimal.readUnsigned? t.lexeme.toList = some value) :
      DerivesWithin declared first later .atom (t :: rest) (.number value t.span) rest
  | symbol {first later : Nat} {t : Token} {rest : List Token} (hkind : t.kind = .name)
      (hname : isFunctionName t.lexeme = false)
      (hgroup : firstKind? rest = some .openBracket → multipliesGroup declared t.lexeme) :
      DerivesWithin declared first later .atom (t :: rest) (.symbol ⟨t.lexeme, t.span⟩)
        rest
  | call {first later : Nat} {f opening closing : Token} {ts rest : List Token}
      {e : Formula} (hf : f.kind = .name) (hname : isFunctionName f.lexeme)
      (hopen : opening.kind = .openBracket) (hclose : closing.kind = .closeBracket)
      (he : DerivesWithin declared first (first + 1) .loosest ts e (closing :: rest)) :
      DerivesWithin declared (first + 2) later .atom (f :: opening :: ts)
        (.call ⟨f.lexeme, f.span⟩ e (opening.span.join closing.span)
          (f.span.join closing.span)) rest
  | group {first later : Nat} {opening closing : Token} {ts rest : List Token}
      {e : Formula} (hopen : opening.kind = .openBracket)
      (hclose : closing.kind = .closeBracket)
      (he : DerivesWithin declared first (first + 1) .loosest ts e (closing :: rest)) :
      DerivesWithin declared (first + 1) later .atom (opening :: ts) e rest

variable {declared : List String} {p : Precedence} {ts rest : List Token} {e : Formula}

/-- More descents do no harm. -/
theorem DerivesWithin.mono {first later first' later' : Nat}
    (h : DerivesWithin declared first later p ts e rest) (hfirst : first ≤ first')
    (hlater : later ≤ later') : DerivesWithin declared first' later' p ts e rest := by
  induction h generalizing first' later' with
  | loosen hle _ ih => exact .loosen hle (ih hfirst hlater)
  | binary hop _ _ ihl ihr =>
      obtain ⟨k, rfl⟩ : ∃ k, later' = k + 1 := ⟨later' - 1, by omega⟩
      exact .binary hop (ihl hfirst hlater) (ihr (by omega) (by omega))
  | adjacent hts _ _ ihl ihr =>
      obtain ⟨k, rfl⟩ : ∃ k, later' = k + 1 := ⟨later' - 1, by omega⟩
      exact .adjacent hts (ihl hfirst hlater) (ihr (by omega) (by omega))
  | signed hsign _ ih =>
      obtain ⟨k, rfl⟩ : ∃ k, first' = k + 1 := ⟨first' - 1, by omega⟩
      exact .signed hsign (ih (by omega) (by omega))
  | number hkind hvalue => exact .number hkind hvalue
  | symbol hkind hname hgroup => exact .symbol hkind hname hgroup
  | call hf hname hopen hclose _ ih =>
      obtain ⟨k, rfl⟩ : ∃ k, first' = k + 2 := ⟨first' - 2, by omega⟩
      exact .call hf hname hopen hclose (ih (by omega) (by omega))
  | group hopen hclose _ ih =>
      obtain ⟨k, rfl⟩ : ∃ k, first' = k + 1 := ⟨first' - 1, by omega⟩
      exact .group hopen hclose (ih (by omega) (by omega))

theorem DerivesWithin.derives {first later : Nat}
    (h : DerivesWithin declared first later p ts e rest) :
    Derives declared p ts e rest := by
  induction h with
  | loosen hle _ ih => exact .loosen hle ih
  | binary hop _ _ ihl ihr => exact .binary hop ihl ihr
  | adjacent hts _ _ ihl ihr => exact .adjacent hts ihl ihr
  | signed hsign _ ih => exact .signed hsign ih
  | number hkind hvalue => exact .number hkind hvalue
  | symbol hkind hname hgroup => exact .symbol hkind hname hgroup
  | call hf hname hopen hclose _ ih => exact .call hf hname hopen hclose ih
  | group hopen hclose _ ih => exact .group hopen hclose ih

/-- A derivation is finite, so that some number of descents is enough for it. -/
theorem Derives.within (h : Derives declared p ts e rest) :
    ∃ n, ∀ m, n ≤ m → DerivesWithin declared m (m + 1) p ts e rest := by
  induction h with
  | loosen hle _ ih =>
      obtain ⟨n, hn⟩ := ih
      exact ⟨n, fun m hm => .loosen hle (hn m hm)⟩
  | binary hop _ _ ihl ihr =>
      obtain ⟨n, hn⟩ := ihl
      obtain ⟨k, hk⟩ := ihr
      refine ⟨n + k + 1, fun m hm => .binary hop (hn m (by omega)) ?_⟩
      exact (hk (m - 1) (by omega)).mono (by omega) (by omega)
  | adjacent hts _ _ ihl ihr =>
      obtain ⟨n, hn⟩ := ihl
      obtain ⟨k, hk⟩ := ihr
      refine ⟨n + k + 1, fun m hm => .adjacent hts (hn m (by omega)) ?_⟩
      exact (hk (m - 1) (by omega)).mono (by omega) (by omega)
  | signed hsign _ ih =>
      obtain ⟨n, hn⟩ := ih
      refine ⟨n + 1, fun m hm => ?_⟩
      obtain ⟨k, rfl⟩ : ∃ k, m = k + 1 := ⟨m - 1, by omega⟩
      exact .signed hsign (hn k (by omega))
  | number hkind hvalue => exact ⟨0, fun _ _ => .number hkind hvalue⟩
  | symbol hkind hname hgroup => exact ⟨0, fun _ _ => .symbol hkind hname hgroup⟩
  | call hf hname hopen hclose _ ih =>
      obtain ⟨n, hn⟩ := ih
      refine ⟨n + 2, fun m hm => ?_⟩
      obtain ⟨k, rfl⟩ : ∃ k, m = k + 2 := ⟨m - 2, by omega⟩
      exact .call hf hname hopen hclose (hn k (by omega))
  | group hopen hclose _ ih =>
      obtain ⟨n, hn⟩ := ih
      refine ⟨n + 1, fun m hm => ?_⟩
      obtain ⟨k, rfl⟩ : ∃ k, m = k + 1 := ⟨m - 1, by omega⟩
      exact .group hopen hclose (hn k (by omega))

/-- A phrase begins with an atom or with a sign, but not with a sign if its layer is
tighter than that of signs. -/
theorem Derives.eq_cons (h : Derives declared p ts e rest) :
    ∃ t ts', ts = t :: ts' ∧
      (t.kind.opensAtom ∨ t.kind.mayBeSign ∧ p.rank ≤ Precedence.sign.rank) := by
  induction h with
  | loosen hle _ ih =>
      obtain ⟨t, ts', hts, hatom | ⟨hsign, hq⟩⟩ := ih
      · exact ⟨t, ts', hts, .inl hatom⟩
      · exact ⟨t, ts', hts, .inr ⟨hsign, Nat.le_trans hle hq⟩⟩
  | @binary op _ _ _ _ _ _ _ _ _ ihl _ =>
      obtain ⟨t, ts', hts, hatom | ⟨hsign, hp⟩⟩ := ihl
      · exact ⟨t, ts', hts, .inl hatom⟩
      · refine ⟨t, ts', hts, .inr ⟨hsign, ?_⟩⟩
        cases op <;> simp_all [Operation.precedence, Operation.leftOperand, Precedence.rank]
  | adjacent _ _ _ ihl _ =>
      obtain ⟨t, ts', hts, hopens⟩ := ihl
      exact ⟨t, ts', hts, hopens⟩
  | @signed sign ts _ t _ hsign _ _ =>
      refine ⟨t, ts, rfl, .inr ⟨?_, Nat.le_refl _⟩⟩
      cases hk : t.kind <;> simp_all [TokenClass.sign?, TokenClass.mayBeSign]
  | number hkind _ => exact ⟨_, _, rfl, .inl (by simp [hkind, TokenClass.opensAtom])⟩
  | symbol hkind _ _ => exact ⟨_, _, rfl, .inl (by simp [hkind, TokenClass.opensAtom])⟩
  | call hf _ _ _ _ _ => exact ⟨_, _, rfl, .inl (by simp [hf, TokenClass.opensAtom])⟩
  | group hopen _ _ _ => exact ⟨_, _, rfl, .inl (by simp [hopen, TokenClass.opensAtom])⟩

theorem Derives.opensOperand (h : Derives declared p ts e rest) :
    (firstKind? ts).any TokenClass.opensOperand := by
  obtain ⟨t, ts', rfl, hatom | ⟨hsign, -⟩⟩ := h.eq_cons <;>
    simp [TokenClass.opensOperand, *]

theorem Derives.opensAtom (h : Derives declared p ts e rest)
    (hp : Precedence.sign.rank < p.rank) : (firstKind? ts).any TokenClass.opensAtom := by
  obtain ⟨t, ts', rfl, hatom | ⟨-, hle⟩⟩ := h.eq_cons
  · simpa using hatom
  · exact absurd hle (by omega)

/-- A phrase ends in a token that can end an operand. -/
theorem Derives.eq_append (h : Derives declared p ts e rest) :
    ∃ ts' last, ts = ts' ++ last :: rest ∧ last.kind.endsOperand := by
  induction h with
  | loosen _ _ ih => exact ih
  | @binary _ _ _ _ t _ _ _ _ _ ihl ihr =>
      obtain ⟨tsl, lastl, hl, -⟩ := ihl
      obtain ⟨tsr, lastr, hr, hends⟩ := ihr
      exact ⟨tsl ++ lastl :: t :: tsr, lastr, by simp [hl, hr], hends⟩
  | adjacent _ _ _ ihl ihr =>
      obtain ⟨tsl, lastl, hl, -⟩ := ihl
      obtain ⟨tsr, lastr, hr, hends⟩ := ihr
      exact ⟨tsl ++ lastl :: tsr, lastr, by simp [hl, hr], hends⟩
  | @signed _ _ _ t _ _ _ ih =>
      obtain ⟨ts', last, hts, hends⟩ := ih
      exact ⟨t :: ts', last, by simp [hts], hends⟩
  | number hkind _ => exact ⟨[], _, rfl, by simp [hkind, TokenClass.endsOperand]⟩
  | symbol hkind _ _ => exact ⟨[], _, rfl, by simp [hkind, TokenClass.endsOperand]⟩
  | @call f opening closing _ _ _ _ _ _ hclose _ ih =>
      obtain ⟨ts', last, hts, -⟩ := ih
      exact ⟨f :: opening :: (ts' ++ [last]), closing, by simp [hts],
        by simp [hclose, TokenClass.endsOperand]⟩
  | @group opening closing _ _ _ _ hclose _ ih =>
      obtain ⟨ts', last, hts, -⟩ := ih
      exact ⟨opening :: (ts' ++ [last]), closing, by simp [hts],
        by simp [hclose, TokenClass.endsOperand]⟩

theorem Derives.length_lt (h : Derives declared p ts e rest) :
    rest.length < ts.length := by
  obtain ⟨ts', last, rfl, -⟩ := h.eq_append
  simp only [List.length_append, List.length_cons]
  omega

/-- Of two phrases side by side, the first one ends in the token before the gap, and the
second one begins with the token behind it. -/
theorem Derives.eq_of_adjacent {ts₁ ts₂ ls rs : List Token} {last next : Token}
    (h : Derives declared p (next :: ts₂) e rest)
    (hls : ts₁ ++ last :: next :: ts₂ = ls ++ next :: ts₂) (hrs : next :: ts₂ = rs ++ rest) :
    ls = ts₁ ++ [last] ∧ ∃ rs', rs = next :: rs' := by
  rw [List.append_cons] at hls
  refine ⟨(List.append_cancel_right hls).symm, ?_⟩
  cases rs with
  | nil => exact absurd h.length_lt (by simp [hrs])
  | cons t rs' => exact ⟨rs', by rw [(List.cons.inj hrs).1]⟩

end FormulaGrading
