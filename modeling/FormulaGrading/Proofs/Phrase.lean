import FormulaGrading.Formula.Walk
import FormulaGrading.Proofs.Grammar

/-!
Phrases: how the tokens of a formula are put together, whatever the layers of the grammar.
Every node of a formula is itself a phrase, and its tokens stand side by side in the text.
-/

namespace FormulaGrading

/-- A row of tokens makes up a formula. Nothing is said of what may stand beside what. -/
inductive Phrase : List Token → Formula → Prop where
  | binary {op : Operation} {ls rs : List Token} {t : Token} {l r : Formula}
      (hop : t.kind.operation? = some op) (hl : Phrase ls l) (hr : Phrase rs r) :
      Phrase (ls ++ t :: rs) (l.combine ⟨op, false, t.span⟩ r)
  | adjacent {ls rs : List Token} {last next : Token} {l r : Formula}
      (hl : Phrase (ls ++ [last]) l) (hr : Phrase (next :: rs) r) :
      Phrase (ls ++ last :: next :: rs)
        (l.combine ⟨.multiply, true, last.span.gap next.span⟩ r)
  | signed {sign : Sign} {ts : List Token} {t : Token} {e : Formula}
      (hsign : t.kind.sign? = some sign) (he : Phrase ts e) :
      Phrase (t :: ts) (.signed ⟨sign, t.span⟩ e (t.span.join e.span))
  | number {t : Token} {value : Float} (hkind : t.kind = .number)
      (hvalue : Decimal.readUnsigned? t.lexeme.toList = some value) :
      Phrase [t] (.number value t.span)
  | symbol {t : Token} (hkind : t.kind = .name) (hname : isFunctionName t.lexeme = false) :
      Phrase [t] (.symbol ⟨t.lexeme, t.span⟩)
  | call {f opening closing : Token} {ts : List Token} {e : Formula} (hf : f.kind = .name)
      (hname : isFunctionName f.lexeme) (hopen : opening.kind = .openBracket)
      (hclose : closing.kind = .closeBracket) (he : Phrase ts e) :
      Phrase (f :: opening :: (ts ++ [closing]))
        (.call ⟨f.lexeme, f.span⟩ e (opening.span.join closing.span)
          (f.span.join closing.span))
  | group {opening closing : Token} {ts : List Token} {e : Formula}
      (hopen : opening.kind = .openBracket) (hclose : closing.kind = .closeBracket)
      (he : Phrase ts e) : Phrase (opening :: (ts ++ [closing])) e

/-- What the grammar derives is a phrase, which ends where the derivation does. -/
theorem Derives.phrase {declared : List String} {p : Precedence} {ts rest : List Token}
    {e : Formula} (h : Derives declared p ts e rest) :
    ∃ passed, ts = passed ++ rest ∧ Phrase passed e := by
  induction h with
  | loosen _ _ ih => exact ih
  | binary hop _ _ ihl ihr =>
      obtain ⟨ls, rfl, hl⟩ := ihl
      obtain ⟨rs, rfl, hr⟩ := ihr
      exact ⟨_, by simp, .binary hop hl hr⟩
  | @adjacent ts ts₁ ts₂ rest last first l r hts _ hr' ihl ihr =>
      obtain ⟨ls, hls, hl⟩ := ihl
      obtain ⟨rs, hrs, hr⟩ := ihr
      obtain ⟨rfl, rs', rfl⟩ := hr'.eq_of_adjacent (hts.symm.trans hls) hrs
      obtain ⟨-, rfl⟩ := List.cons.inj hrs
      exact ⟨_, by simp [hts], .adjacent hl hr⟩
  | signed hsign _ ih =>
      obtain ⟨passed, rfl, he⟩ := ih
      exact ⟨_, by simp, .signed hsign he⟩
  | number hkind hvalue => exact ⟨_, rfl, .number hkind hvalue⟩
  | symbol hkind hname _ => exact ⟨_, rfl, .symbol hkind hname⟩
  | call hf hname hopen hclose _ ih =>
      obtain ⟨passed, rfl, he⟩ := ih
      exact ⟨_, by simp, .call hf hname hopen hclose he⟩
  | group hopen hclose _ ih =>
      obtain ⟨passed, rfl, he⟩ := ih
      exact ⟨_, by simp, .group hopen hclose he⟩

namespace Phrase

variable {ts : List Token} {e node : Formula}

/-- Every node is a phrase of tokens that stand side by side. -/
theorem of_mem_nodes (h : Phrase ts e) (hnode : node ∈ e.nodes) :
    ∃ us, us <:+: ts ∧ Phrase us node := by
  induction h with
  | @binary op ls rs t l r hop hl hr ihl ihr =>
      simp only [Formula.combine, Formula.nodes, List.mem_append, List.mem_singleton] at hnode
      obtain (hnode | hnode) | rfl := hnode
      · obtain ⟨us, hus, hphrase⟩ := ihl hnode
        exact ⟨us, hus.trans List.infix_append_left, hphrase⟩
      · obtain ⟨us, hus, hphrase⟩ := ihr hnode
        exact ⟨us, (hus.trans (List.infix_cons List.infix_rfl)).trans
          List.infix_append_right, hphrase⟩
      · exact ⟨_, List.infix_rfl, .binary hop hl hr⟩
  | @adjacent ls rs last next l r hl hr ihl ihr =>
      simp only [Formula.combine, Formula.nodes, List.mem_append, List.mem_singleton] at hnode
      obtain (hnode | hnode) | rfl := hnode
      · obtain ⟨us, hus, hphrase⟩ := ihl hnode
        exact ⟨us, hus.trans ⟨[], next :: rs, by simp⟩, hphrase⟩
      · obtain ⟨us, hus, hphrase⟩ := ihr hnode
        exact ⟨us, hus.trans ⟨ls ++ [last], [], by simp⟩, hphrase⟩
      · exact ⟨_, List.infix_rfl, .adjacent hl hr⟩
  | @signed sign ts t e hsign he ih =>
      simp only [Formula.nodes, List.mem_append, List.mem_singleton] at hnode
      obtain hnode | rfl := hnode
      · obtain ⟨us, hus, hphrase⟩ := ih hnode
        exact ⟨us, List.infix_cons hus, hphrase⟩
      · exact ⟨_, List.infix_rfl, .signed hsign he⟩
  | number hkind hvalue =>
      obtain rfl := List.mem_singleton.1 hnode
      exact ⟨_, List.infix_rfl, .number hkind hvalue⟩
  | symbol hkind hname =>
      obtain rfl := List.mem_singleton.1 hnode
      exact ⟨_, List.infix_rfl, .symbol hkind hname⟩
  | @call f opening closing ts e hf hname hopen hclose he ih =>
      simp only [Formula.nodes, List.mem_append, List.mem_singleton] at hnode
      obtain hnode | rfl := hnode
      · obtain ⟨us, hus, hphrase⟩ := ih hnode
        exact ⟨us, hus.trans ⟨[f, opening], [closing], by simp⟩, hphrase⟩
      · exact ⟨_, List.infix_rfl, .call hf hname hopen hclose he⟩
  | @group opening closing ts e hopen hclose he ih =>
      obtain ⟨us, hus, hphrase⟩ := ih hnode
      exact ⟨us, hus.trans ⟨[opening], [closing], by simp⟩, hphrase⟩

/-- A phrase opens and closes its own brackets. -/
theorem balancedAfter_append (h : Phrase ts e) {opened : Nat} {rest : List Token} :
    BalancedAfter opened (ts ++ rest) ↔ BalancedAfter opened rest := by
  induction h generalizing opened rest with
  | @binary op _ _ t _ _ hop _ _ ihl ihr =>
      rw [List.append_assoc, List.cons_append, ihl, balancedAfter_cons_other, ihr] <;>
        rintro hk <;> simp [hk, TokenClass.operation?] at hop
  | @adjacent ls rs last next _ _ _ _ ihl ihr =>
      rw [List.append_cons, List.append_assoc, ihl, ihr]
  | @signed sign _ t _ hsign _ ih =>
      rw [List.cons_append, balancedAfter_cons_other, ih] <;>
        rintro hk <;> simp [hk, TokenClass.sign?] at hsign
  | number hkind _ => exact balancedAfter_cons_other (by simp [hkind]) (by simp [hkind])
  | symbol hkind _ => exact balancedAfter_cons_other (by simp [hkind]) (by simp [hkind])
  | call hf _ hopen hclose _ ih =>
      rw [List.cons_append, List.cons_append, List.append_assoc, List.singleton_append,
        balancedAfter_cons_other (by simp [hf]) (by simp [hf]),
        balancedAfter_cons_open hopen, ih, balancedAfter_cons_close hclose]
      simp
  | group hopen hclose _ ih =>
      rw [List.cons_append, List.append_assoc, List.singleton_append,
        balancedAfter_cons_open hopen, ih, balancedAfter_cons_close hclose]
      simp

theorem balanced (h : Phrase ts e) : Balanced ts := by
  rw [← balancedAfter_zero, ← List.append_nil ts, h.balancedAfter_append]
  simp

end Phrase

/-- What the grammar derives opens and closes its own brackets. -/
theorem Derives.balancedAfter_iff {declared : List String} {p : Precedence}
    {ts rest : List Token} {e : Formula} (h : Derives declared p ts e rest) {opened : Nat} :
    BalancedAfter opened ts ↔ BalancedAfter opened rest := by
  obtain ⟨passed, rfl, hphrase⟩ := h.phrase
  exact hphrase.balancedAfter_append

end FormulaGrading
