import FormulaGrading.Proofs.Parsing.Whole
import FormulaGrading.Proofs.Scanning.Places

/-!
The layout of a formula: what every node and every operator of it has to do with the tokens
of the text. Listed in the order of the text, the nodes show the tokens one by one, brackets
apart; spans of nodes are nested as the nodes are; and what has no token of its own, or
several of them, lies where the tokens around it say.
-/

namespace FormulaGrading

/-- What a formula is written with, brackets apart: numbers by their values, and all else
by its text. -/
inductive Item where
  | number (value : Float) (span : Span)
  | text (lexeme : String) (span : Span)

/-- The item of an operator, unless it is an implicit one. -/
def OperatorMark.items (op : OperatorMark) : List Item :=
  if op.implicit then [] else [.text op.operation.symbol op.span]

/-- The items of a formula, in the order of the text. -/
def Formula.items : Formula → List Item
  | .number value span => [.number value span]
  | .symbol s => [.text s.name s.span]
  | .signed mark operand _ => .text mark.sign.symbol mark.span :: operand.items
  | .binary lhs op rhs _ => lhs.items ++ (op.items ++ rhs.items)
  | .call function argument .. => .text function.name function.span :: argument.items

namespace Token

def isBracket (t : Token) : Bool :=
  t.kind == .openBracket || t.kind == .closeBracket

/-- The item that a token shows, unless it is a number that cannot be read. -/
def item? (t : Token) : Option Item :=
  if t.kind = .number then
    (Decimal.readUnsigned? t.lexeme.toList).map fun value => .number value t.span
  else some (.text t.lexeme t.span)

end Token

/-- What the tokens show that are no brackets. -/
def shownItems (tokens : List Token) : List (Option Item) :=
  (tokens.filter fun t => !t.isBracket).map Token.item?

/-- The tokens show a formula from its first item to its last one, and each bracket among
them has its partner there. -/
structure Spells (tokens : List Token) (e : Formula) : Prop where
  balanced : Balanced tokens
  items : shownItems tokens = e.items.map some

@[simp] theorem Span.start_join (s s' : Span) : (s.join s').start = s.start := rfl

@[simp] theorem Span.stop_join (s s' : Span) : (s.join s').stop = s'.stop := rfl

@[simp] theorem Formula.span_combine (lhs rhs : Formula) (op : OperatorMark) :
    (lhs.combine op rhs).span = lhs.span.join rhs.span := rfl

@[simp] theorem Formula.span_signed (mark : SignMark) (operand : Formula) (span : Span) :
    (Formula.signed mark operand span).span = span := rfl

@[simp] theorem Formula.span_call (function : Symbol) (argument : Formula)
    (brackets span : Span) : (Formula.call function argument brackets span).span = span := rfl

/-- Whether a span lies within another one. -/
structure Span.Within (s outer : Span) : Prop where
  start_le : outer.start ≤ s.start
  stop_le : s.stop ≤ outer.stop

/-- Whether a span ends before another one begins. -/
def Span.Before (s s' : Span) : Prop :=
  s.stop ≤ s'.start

/-- A node lies in a row of tokens as it should: its parts lie within it and in order. An
implicit operator is the gap between two neighbouring tokens, up to which the tokens spell
the left operand and from which on they spell the right one. The brackets of a call are two
brackets with nothing between them but what spells the argument. -/
inductive Formula.InPlace (tokens : List Token) : Formula → Prop where
  | number {value : Float} {span : Span} : InPlace tokens (.number value span)
  | symbol {s : Symbol} : InPlace tokens (.symbol s)
  | signed {mark : SignMark} {operand : Formula} {span : Span}
      (hmark : mark.span.Within span) (hoperand : operand.span.Within span)
      (horder : mark.span.Before operand.span) :
      InPlace tokens (.signed mark operand span)
  | binary {lhs rhs : Formula} {op : OperatorMark} {span : Span}
      (hlhs : lhs.span.Within span) (hrhs : rhs.span.Within span)
      (hbefore : lhs.span.Before op.span) (hop : op.span.start ≤ op.span.stop)
      (hafter : op.span.Before rhs.span)
      (himplicit : op.implicit → op.operation = .multiply ∧
        ∃ left last next right, (left ++ last :: next :: right) <:+: tokens ∧
          Spells (left ++ [last]) lhs ∧ Spells (next :: right) rhs ∧
          op.span = last.span.gap next.span) :
      InPlace tokens (.binary lhs op rhs span)
  | call {function : Symbol} {argument : Formula} {opening closing : Token}
      {inner : List Token} {span : Span} (hopen : opening.kind = .openBracket)
      (hclose : closing.kind = .closeBracket)
      (hwithin : (opening :: (inner ++ [closing])) <:+: tokens) (hinner : Spells inner argument)
      (hfunction : function.span.Within span)
      (hbrackets : (opening.span.join closing.span).Within span)
      (horder : function.span.Before opening.span)
      (hopening : opening.span.Before argument.span)
      (hclosing : argument.span.Before closing.span) :
      InPlace tokens (.call function argument (opening.span.join closing.span) span)

theorem Formula.InPlace.mono {ts us : List Token} {e : Formula} (h : e.InPlace ts)
    (hwithin : ts <:+: us) : e.InPlace us := by
  cases h with
  | number => exact .number
  | symbol => exact .symbol
  | signed hmark hoperand horder => exact .signed hmark hoperand horder
  | binary hlhs hrhs hbefore hop hafter himplicit =>
      refine .binary hlhs hrhs hbefore hop hafter fun h => ?_
      obtain ⟨hmultiply, left, last, next, right, hrow, hspells⟩ := himplicit h
      exact ⟨hmultiply, left, last, next, right, hrow.trans hwithin, hspells⟩
  | call hopen hclose hrow hinner hfunction hbrackets horder hopening hclosing =>
      exact .call hopen hclose (hrow.trans hwithin) hinner hfunction hbrackets horder hopening
        hclosing

namespace Token

theorem symbol_of_symbolKind? {c : Char} {kind : TokenClass} {op : Operation}
    (h : symbolKind? c = some kind) (hop : kind.operation? = some op) :
    op.symbol = String.ofList [c] := by
  unfold symbolKind? at h
  split at h
  iterate 7
    obtain rfl := Option.some.inj h
    first
      | obtain rfl := Option.some.inj hop
        rfl
      | exact nomatch hop
  exact nomatch h

/-- The text of an operation. -/
theorem IsLongest.lexeme_of_operation? {t : Token} {op : Operation} (h : t.IsLongest)
    (hop : t.kind.operation? = some op) : t.lexeme = op.symbol := by
  obtain ⟨cs, hlongest⟩ := h
  obtain ⟨c, -, hsymbol, hlexeme⟩ | ⟨hname, -⟩ | ⟨hnumber, -⟩ := longest?_eq_some hlongest
  · rw [symbol_of_symbolKind? hsymbol hop, ← hlexeme, String.ofList_toList]
  · simp [hname, TokenClass.operation?] at hop
  · simp [hnumber, TokenClass.operation?] at hop

theorem IsLongest.lexeme_of_sign? {t : Token} {sign : Sign} (h : t.IsLongest)
    (hsign : t.kind.sign? = some sign) : t.lexeme = sign.symbol := by
  obtain ⟨op, hop, -⟩ := TokenClass.operation?_of_sign? hsign
  rw [h.lexeme_of_operation? hop]
  cases hk : t.kind <;> simp_all [TokenClass.operation?, TokenClass.sign?] <;>
    (subst hop hsign; rfl)

end Token

section

variable {t : Token} {ts us : List Token}

@[simp] theorem shownItems_nil : shownItems [] = [] := rfl

@[simp] theorem shownItems_append :
    shownItems (ts ++ us) = shownItems ts ++ shownItems us := by
  simp [shownItems]

theorem shownItems_cons_bracket (h : t.isBracket) : shownItems (t :: ts) = shownItems ts := by
  simp [shownItems, h]

theorem shownItems_cons_text (hbracket : t.isBracket = false) (hnumber : t.kind ≠ .number) :
    shownItems (t :: ts) = some (.text t.lexeme t.span) :: shownItems ts := by
  simp [shownItems, hbracket, Token.item?, hnumber]

theorem shownItems_cons_number {value : Float} (hkind : t.kind = .number)
    (hvalue : Decimal.readUnsigned? t.lexeme.toList = some value) :
    shownItems (t :: ts) = some (.number value t.span) :: shownItems ts := by
  simp [shownItems, Token.isBracket, Token.item?, hkind, hvalue]

theorem Token.isBracket_of_operation? {op : Operation} (h : t.kind.operation? = some op) :
    t.isBracket = false ∧ t.kind ≠ .number := by
  cases hk : t.kind <;> simp_all [Token.isBracket, TokenClass.operation?]

end

namespace Phrase

variable {ts : List Token} {e : Formula}

/-- The tokens of a phrase show its items. -/
theorem shownItems_eq (h : Phrase ts e) (hlongest : ∀ t ∈ ts, t.IsLongest) :
    shownItems ts = e.items.map some := by
  induction h with
  | @binary op ls rs t l r hop _ _ ihl ihr =>
      simp only [List.forall_mem_append, List.forall_mem_cons] at hlongest
      obtain ⟨hbracket, hnumber⟩ := Token.isBracket_of_operation? hop
      rw [shownItems_append, shownItems_cons_text hbracket hnumber, ihl hlongest.1,
        ihr hlongest.2.2, hlongest.2.1.lexeme_of_operation? hop]
      simp [Formula.combine, Formula.items, OperatorMark.items]
  | @adjacent ls rs last next l r _ _ ihl ihr =>
      simp only [List.forall_mem_append, List.forall_mem_cons] at hlongest ihl ihr
      rw [List.append_cons, shownItems_append, ihl ⟨hlongest.1, hlongest.2.1, by simp⟩, ihr hlongest.2.2]
      simp [Formula.combine, Formula.items, OperatorMark.items]
  | @signed sign ts t e hsign _ ih =>
      obtain ⟨ht, hts⟩ := List.forall_mem_cons.1 hlongest
      obtain ⟨op, hop, -⟩ := TokenClass.operation?_of_sign? hsign
      obtain ⟨hbracket, hnumber⟩ := Token.isBracket_of_operation? hop
      rw [shownItems_cons_text hbracket hnumber, ih hts, ht.lexeme_of_sign? hsign]
      rfl
  | number hkind hvalue =>
      rw [shownItems_cons_number hkind hvalue]
      rfl
  | symbol hkind _ =>
      rw [shownItems_cons_text (by simp [Token.isBracket, hkind]) (by simp [hkind])]
      rfl
  | @call f opening closing ts e hf _ hopen hclose _ ih =>
      have hts : ∀ t ∈ ts, t.IsLongest := fun t ht => hlongest t (by simp [ht])
      rw [shownItems_cons_text (by simp [Token.isBracket, hf]) (by simp [hf]),
        shownItems_cons_bracket (by simp [Token.isBracket, hopen]), shownItems_append,
        shownItems_cons_bracket (by simp [Token.isBracket, hclose]), ih hts]
      simp [Formula.items]
  | @group opening closing ts e hopen hclose _ ih =>
      have hts : ∀ t ∈ ts, t.IsLongest := fun t ht => hlongest t (by simp [ht])
      rw [shownItems_cons_bracket (by simp [Token.isBracket, hopen]), shownItems_append,
        shownItems_cons_bracket (by simp [Token.isBracket, hclose]), ih hts]
      simp

theorem spells (h : Phrase ts e) (hlongest : ∀ t ∈ ts, t.IsLongest) : Spells ts e :=
  ⟨h.balanced, h.shownItems_eq hlongest⟩

/-- The span of a formula is not empty, and it lies among the tokens. -/
theorem span_bounds (h : Phrase ts e) {lo hi : Nat} (hlies : LiesBetween lo hi ts) :
    lo ≤ e.span.start ∧ e.span.start < e.span.stop ∧ e.span.stop ≤ hi := by
  induction h generalizing lo hi with
  | binary _ _ _ ihl ihr =>
      obtain ⟨mid, hls, hmid, hlt, hrs⟩ := liesBetween_append.1 hlies
      have hl := ihl hls
      have hr := ihr hrs
      simp only [Formula.span_combine, Span.start_join, Span.stop_join]
      omega
  | @adjacent ls rs last next l r _ _ ihl ihr =>
      rw [List.append_cons] at hlies
      obtain ⟨mid, hls, hrs⟩ := liesBetween_append.1 hlies
      have hl := ihl hls
      have hr := ihr hrs
      simp only [Formula.span_combine, Span.start_join, Span.stop_join]
      omega
  | signed _ _ ih =>
      obtain ⟨hlo, hlt, hts⟩ := hlies
      have he := ih hts
      simp only [Formula.span_signed, Span.start_join, Span.stop_join]
      omega
  | number => exact hlies
  | symbol => exact hlies
  | call _ _ _ _ _ ih =>
      obtain ⟨hlo, hlt, hmid, hlt', hrest⟩ := hlies
      obtain ⟨mid, hts, hclosing⟩ := liesBetween_append.1 hrest
      obtain ⟨hmid', hlt'', hhi⟩ := hclosing
      have he := ih hts
      simp only [liesBetween_nil] at hhi
      simp only [Formula.span_call, Span.start_join, Span.stop_join]
      omega
  | group _ _ _ ih =>
      obtain ⟨hlo, hlt, hrest⟩ := hlies
      obtain ⟨mid, hts, hclosing⟩ := liesBetween_append.1 hrest
      obtain ⟨hmid', hlt'', hhi⟩ := hclosing
      have he := ih hts
      simp only [liesBetween_nil] at hhi
      omega

/-- The root of a phrase lies in place. -/
theorem inPlace (h : Phrase ts e) {lo hi : Nat} (hlies : LiesBetween lo hi ts)
    (hlongest : ∀ t ∈ ts, t.IsLongest) : e.InPlace ts := by
  induction h generalizing lo hi with
  | binary _ hl hr _ _ =>
      obtain ⟨mid, hls, hmid, hlt, hrs⟩ := liesBetween_append.1 hlies
      have hlspan := hl.span_bounds hls
      have hrspan := hr.span_bounds hrs
      refine .binary ⟨Nat.le_refl _, ?_⟩ ⟨?_, Nat.le_refl _⟩ ?_ ?_ ?_ (fun h => nomatch h) <;>
        simp only [Span.start_join, Span.stop_join, Span.Before] <;> omega
  | @adjacent ls rs last next l r hl hr _ _ =>
      rw [List.append_cons] at hlies hlongest
      obtain ⟨hlongest, hlongest'⟩ := List.forall_mem_append.1 hlongest
      obtain ⟨mid, hls, hrs⟩ := liesBetween_append.1 hlies
      -- the left operand ends with the last token before the gap or earlier
      have hlspan : l.span.stop ≤ last.span.stop := by
        obtain ⟨mid', hls', hlast⟩ := liesBetween_append.1 hls
        exact (hl.span_bounds (liesBetween_append.2
          ⟨mid', hls', hlast.1, hlast.2.1, Nat.le_refl _⟩)).2.2
      have hrspan : next.span.start ≤ r.span.start :=
        (hr.span_bounds ⟨Nat.le_refl _, hrs.2⟩).1
      have hlast := hls.of_mem (t := last) (by simp)
      have hnext := hrs.of_mem (t := next) (by simp)
      have hlspan' := hl.span_bounds hls
      have hrspan' := hr.span_bounds hrs
      refine .binary ⟨Nat.le_refl _, ?_⟩ ⟨?_, Nat.le_refl _⟩ ?_ ?_ ?_ fun _ =>
        ⟨rfl, ls, last, next, rs, List.infix_rfl, hl.spells hlongest, hr.spells hlongest', rfl⟩
      all_goals
        simp only [Span.start_join, Span.stop_join, Span.Before, Span.gap]
        omega
  | signed _ he _ =>
      obtain ⟨hlo, hlt, hts⟩ := hlies
      have hspan := he.span_bounds hts
      refine .signed ⟨Nat.le_refl _, ?_⟩ ⟨?_, Nat.le_refl _⟩ ?_ <;>
        simp only [Span.start_join, Span.stop_join, Span.Before] <;> omega
  | number => exact .number
  | symbol => exact .symbol
  | @call f opening closing ts e hf hname hopen hclose he _ =>
      obtain ⟨hlo, hlt, hmid, hlt', hrest⟩ := hlies
      obtain ⟨mid, hts, hmid', hlt'', hhi⟩ := liesBetween_append.1 hrest
      have hspan := he.span_bounds hts
      refine .call hopen hclose (List.infix_cons List.infix_rfl)
        (he.spells fun t ht => hlongest t (by simp [ht])) ⟨Nat.le_refl _, ?_⟩
        ⟨?_, Nat.le_refl _⟩ ?_ ?_ ?_ <;>
        simp only [Span.start_join, Span.stop_join, Span.Before] <;> omega
  | @group opening closing ts e _ _ _ ih =>
      obtain ⟨hlo, hlt, hrest⟩ := hlies
      obtain ⟨mid, hts, -⟩ := liesBetween_append.1 hrest
      exact (ih hts fun t ht => hlongest t (by simp [ht])).mono
        ⟨[opening], [closing], by simp⟩

end Phrase

/-- Every node of a formula lies in the text, and in place among the tokens that spell it. -/
theorem Phrase.exists_of_mem_nodes {text : String} {tokens : List Token} {e node : Formula}
    (hscan : Token.scan text = .ok tokens) (h : Phrase tokens e) (hnode : node ∈ e.nodes) :
    ∃ us, us <:+: tokens ∧ Phrase us node ∧ Spells us node ∧ node.InPlace us ∧
      node.span.start < node.span.stop ∧ node.span.stop ≤ text.utf8ByteSize := by
  obtain ⟨us, hwithin, hphrase⟩ := h.of_mem_nodes hnode
  have hlongest : ∀ t ∈ us, t.IsLongest := fun t ht =>
    Token.longest?_of_mem_scan hscan (hwithin.subset ht)
  obtain ⟨lo, hi, hhi, hus⟩ := (Token.liesBetween_of_scan hscan).of_isInfix hwithin
  obtain ⟨-, hlt, hstop⟩ := hphrase.span_bounds hus
  exact ⟨us, hwithin, hphrase, hphrase.spells hlongest, hphrase.inPlace hus hlongest, hlt,
    Nat.le_trans hstop hhi⟩

/-- Every formula that is read is laid out like its text. The tokens show it item by item, and
every node lies in the text and in place. -/
theorem parse_laid_out (declared : List String) (text : String) (e : Formula)
    (h : Formula.parse declared text = .ok e) :
    ∃ tokens, Token.scan text = .ok tokens ∧ Spells tokens e ∧
      ∀ node ∈ e.nodes, node.span.start < node.span.stop ∧
        node.span.stop ≤ text.utf8ByteSize ∧ node.InPlace tokens := by
  obtain ⟨tokens, hscan, hphrase⟩ := exists_phrase_of_parse h
  refine ⟨tokens, hscan, hphrase.spells fun t => Token.longest?_of_mem_scan hscan, ?_⟩
  intro node hnode
  obtain ⟨us, hwithin, -, -, hplace, hlt, hle⟩ := hphrase.exists_of_mem_nodes hscan hnode
  exact ⟨hlt, hle, hplace.mono hwithin⟩

/-- The gap before a function is a product. -/
theorem laid_out_minus_x_sin_y :
    ∃ e tokens, Formula.parse [] "-x sin(y)" = .ok e ∧
      e = .binary (.signed ⟨.minus, ⟨0, 1⟩⟩ (.symbol ⟨"x", ⟨1, 2⟩⟩) ⟨0, 2⟩)
        ⟨.multiply, true, ⟨2, 3⟩⟩
        (.call ⟨"sin", ⟨3, 6⟩⟩ (.symbol ⟨"y", ⟨7, 8⟩⟩) ⟨6, 9⟩ ⟨3, 9⟩) ⟨0, 9⟩ ∧
      Token.scan "-x sin(y)" = .ok tokens ∧ Spells tokens e ∧
        ∀ node ∈ e.nodes, node.span.start < node.span.stop ∧
          node.span.stop ≤ "-x sin(y)".utf8ByteSize ∧ node.InPlace tokens := by
  have hparse : (Formula.parse [] "-x sin(y)").toOption = some (.binary
      (.signed ⟨.minus, ⟨0, 1⟩⟩ (.symbol ⟨"x", ⟨1, 2⟩⟩) ⟨0, 2⟩) ⟨.multiply, true, ⟨2, 3⟩⟩
      (.call ⟨"sin", ⟨3, 6⟩⟩ (.symbol ⟨"y", ⟨7, 8⟩⟩) ⟨6, 9⟩ ⟨3, 9⟩) ⟨0, 9⟩) := by
    decide +kernel
  cases hresult : Formula.parse [] "-x sin(y)" with
  | error fault => exact nomatch hresult ▸ hparse
  | ok e =>
      rw [hresult] at hparse
      obtain ⟨tokens, hlaid⟩ := parse_laid_out [] "-x sin(y)" e hresult
      exact ⟨e, tokens, rfl, Option.some.inj hparse, hlaid⟩

end FormulaGrading
