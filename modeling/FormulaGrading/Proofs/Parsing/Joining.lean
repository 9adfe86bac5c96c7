import FormulaGrading.Proofs.Parsing.Whole
import FormulaGrading.Proofs.Phrase
import FormulaGrading.Proofs.Scanning.Joining

/-!
Reading two texts in brackets with an operation between them. Both texts are read one level
further down than on their own, and apart from that in the same way. So the order of the two
makes no difference to whether they are read.
-/

namespace FormulaGrading

/-! ### Derivations in other places -/

section

variable {declared : List String} {first later : Nat} {p : Precedence} {ts rest : List Token}
  {e : Formula}

theorem DerivesWithin.moved (h : DerivesWithin declared first later p ts e rest)
    (move : Nat → Nat) :
    DerivesWithin declared first later p (ts.map (Token.moved move)) (e.moved move)
      (rest.map (Token.moved move)) := by
  induction h with
  | loosen hle _ ih => exact .loosen hle ih
  | binary hop _ _ ihl ihr =>
      rw [← Formula.combine_moved]
      exact .binary (t := Token.moved move _) hop ihl ihr
  | adjacent hts _ _ ihl ihr =>
      rw [← Formula.combine_moved]
      exact .adjacent (by rw [hts, List.map_append]; rfl) ihl ihr
  | @signed first later _ ts rest t _ hsign _ ih =>
      have hsigned : DerivesWithin declared (first + 1) later .sign
          (t.moved move :: ts.map (Token.moved move)) _ (rest.map (Token.moved move)) :=
        .signed hsign ih
      rwa [Formula.span_moved] at hsigned
  | number hkind hvalue => exact .number hkind hvalue
  | symbol hkind hname hgroup =>
      refine .symbol hkind hname fun hopen => hgroup ?_
      rwa [firstKind?, List.head?_map, Option.map_map] at hopen
  | call hf hname hopen hclose _ ih =>
      refine .call (f := Token.moved move _) hf hname ?_ ?_ ih
      · exact hopen
      · exact hclose
  | group hopen hclose _ ih =>
      refine .group ?_ ?_ ih
      · exact hopen
      · exact hclose

/-- What comes behind a phrase only matters if it begins with an opening bracket, which could
go on with a name. -/
theorem DerivesWithin.exists_passed (h : DerivesWithin declared first later p ts e rest) :
    ∃ passed, ts = passed ++ rest ∧ ∀ rest',
      (firstKind? rest' = some .openBracket → firstKind? rest = some .openBracket) →
        DerivesWithin declared first later p (passed ++ rest') e rest' := by
  induction h with
  | loosen hle _ ih =>
      obtain ⟨passed, hts, hkept⟩ := ih
      exact ⟨passed, hts, fun rest' hrest => .loosen hle (hkept rest' hrest)⟩
  | @binary _ _ _ _ _ _ t _ _ hop _ _ ihl ihr =>
      obtain ⟨ls, rfl, hl⟩ := ihl
      obtain ⟨rs, rfl, hr⟩ := ihr
      refine ⟨ls ++ t :: rs, by simp, fun rest' hrest => ?_⟩
      rw [List.append_assoc, List.cons_append]
      exact .binary hop (hl (t :: (rs ++ rest')) id) (hr rest' hrest)
  | @adjacent _ _ _ ts₁ ts₂ _ last next _ _ hts _ hr' ihl ihr =>
      obtain ⟨ls, hls, hl⟩ := ihl
      obtain ⟨rs, hrs, hr⟩ := ihr
      obtain ⟨rfl, rs, rfl⟩ := hr'.derives.eq_of_adjacent (hts.symm.trans hls) hrs
      refine ⟨ts₁ ++ last :: next :: rs, ?_, fun rest' hrest => ?_⟩
      · rw [hts, hrs]
        simp
      · have hleft := hl (next :: (rs ++ rest')) id
        have hrow : ts₁ ++ [last] ++ next :: (rs ++ rest') =
            ts₁ ++ last :: next :: (rs ++ rest') := by simp
        rw [hrow] at hleft
        rw [List.append_assoc, List.cons_append, List.cons_append]
        exact .adjacent rfl hleft (hr rest' hrest)
  | @signed _ _ _ _ _ t _ hsign _ ih =>
      obtain ⟨passed, rfl, hkept⟩ := ih
      exact ⟨t :: passed, rfl, fun rest' hrest => .signed hsign (hkept rest' hrest)⟩
  | @number _ _ t _ _ hkind hvalue =>
      exact ⟨[t], rfl, fun _ _ => .number hkind hvalue⟩
  | @symbol _ _ t _ hkind hname hgroup =>
      exact ⟨[t], rfl, fun _ hrest => .symbol hkind hname fun hopen => hgroup (hrest hopen)⟩
  | @call _ _ f opening closing _ _ _ hf hname hopen hclose _ ih =>
      obtain ⟨passed, rfl, hkept⟩ := ih
      refine ⟨f :: opening :: (passed ++ [closing]), by simp, fun rest' _ => ?_⟩
      simp only [List.cons_append, List.append_assoc, List.nil_append]
      exact .call hf hname hopen hclose (hkept (closing :: rest') id)
  | @group _ _ opening closing _ _ _ hopen hclose _ ih =>
      obtain ⟨passed, rfl, hkept⟩ := ih
      refine ⟨opening :: (passed ++ [closing]), by simp, fun rest' _ => ?_⟩
      simp only [List.cons_append, List.append_assoc, List.nil_append]
      exact .group hopen hclose (hkept (closing :: rest') id)

end

/-! ### Groups -/

section

variable {declared : List String} {first later : Nat} {p : Precedence}
  {opening closing : Token} {ts us after rest : List Token} {e : Formula}
  (hopen : opening.kind = .openBracket) (hclose : closing.kind = .closeBracket)
  (hbalanced : Balanced ts)

include hclose hbalanced in
theorem DerivesWithin.eq_of_group {t : Token}
    (h : DerivesWithin declared first later p (ts ++ closing :: after) e (t :: rest))
    (ht : t.kind = .closeBracket) : closing = t ∧ after = rest := by
  obtain ⟨passed, hpassed, hphrase⟩ := h.derives.phrase
  exact hbalanced.eq_of_append hphrase.balanced hclose ht hpassed

include hopen hclose hbalanced

/-- What begins with a bracket begins with a group, which is read one level down. If an
operation comes next, its right operand is read within the limit of later descents. -/
theorem DerivesWithin.exists_group (h : DerivesWithin declared first later p us e rest)
    (hus : us = opening :: (ts ++ closing :: after)) :
    ∃ n inner, first = n + 1 ∧
      DerivesWithin declared n (n + 1) .loosest (ts ++ closing :: after) inner
        (closing :: after) ∧
      ∀ t right, after = t :: right → t.kind.operation?.isSome → rest = after ∨
        ∃ k q r rest', k < later ∧ DerivesWithin declared k k q right r rest' := by
  induction h with
  | loosen _ _ ih => exact ih hus
  | @binary _ k op _ _ rest _ _ r hop _ hr ihl _ =>
      obtain ⟨n, inner, hfirst, hinner, hnext⟩ := ihl hus
      refine ⟨n, inner, hfirst, hinner, fun t right hafter ht => .inr ?_⟩
      obtain hleft | hright := hnext t right hafter ht
      · obtain ⟨-, rfl⟩ := List.cons.inj (hleft.trans hafter)
        exact ⟨k, _, r, rest, Nat.lt_succ_self k, hr⟩
      · exact hright
  | @adjacent _ _ _ _ _ _ _ next _ _ _ _ hr ihl _ =>
      obtain ⟨n, inner, hfirst, hinner, hnext⟩ := ihl hus
      refine ⟨n, inner, hfirst, hinner, fun t right hafter ht => .inr ?_⟩
      obtain hleft | hright := hnext t right hafter ht
      · -- an operation begins no factor
        obtain ⟨rfl, -⟩ := List.cons.inj (hleft.trans hafter)
        have hatom := hr.derives.opensAtom (by decide)
        rw [firstKind?_cons, Option.any_some] at hatom
        cases hkind : next.kind <;>
          simp [hkind, TokenClass.operation?, TokenClass.opensAtom] at ht hatom
      · exact hright
  | signed hsign _ _ =>
      obtain rfl := (List.cons.inj hus).1
      simp [hopen, TokenClass.sign?] at hsign
  | number hkind _ =>
      obtain rfl := (List.cons.inj hus).1
      simp [hopen] at hkind
  | symbol hkind _ _ =>
      obtain rfl := (List.cons.inj hus).1
      simp [hopen] at hkind
  | call hf _ _ _ _ _ =>
      obtain rfl := (List.cons.inj hus).1
      simp [hopen] at hf
  | @group n _ _ _ _ _ inner _ hclose' he _ =>
      obtain ⟨-, rfl⟩ := List.cons.inj hus
      obtain ⟨rfl, rfl⟩ := he.eq_of_group hclose hbalanced hclose'
      exact ⟨n, inner, rfl, he, fun _ _ _ _ => .inl rfl⟩

end

/-! ### Two groups with an operation between them -/

open Token (bracketed joined)

section

variable {declared : List String} {n offset length : Nat} {p : Precedence}
  {ts us rest : List Token} {e : Formula}

theorem Balanced.moved (h : Balanced ts) (move : Nat → Nat) :
    Balanced (ts.map (Token.moved move)) := by
  rw [← bracketFault?_eq_none_iff] at h ⊢
  have hmoved := bracketFaultFrom?_moved move [] ts
  rw [bracketFault?] at h
  rwa [h] at hmoved

theorem map_moved_back (d : Nat) (ts : List Token) :
    (ts.map (Token.moved (· + d))).map (Token.moved (· - d)) = ts := by
  rw [List.map_map]
  refine List.map_id'' (fun t => ?_) ts
  simp [Token.moved, Span.moved]

theorem DerivesWithin.bracket (h : DerivesWithin declared n (n + 1) .loosest ts e [])
    (offset length : Nat) (later : Nat) (rest : List Token) :
    DerivesWithin declared (n + 1) later .atom (bracketed offset length ts ++ rest)
      (e.moved (· + (offset + 1))) rest := by
  obtain ⟨passed, hpassed, hkept⟩ := (h.moved (· + (offset + 1))).exists_passed
  rw [List.map_nil, List.append_nil] at hpassed
  rw [bracketed, hpassed, List.cons_append, List.append_assoc, List.singleton_append]
  exact .group rfl rfl (hkept _ (by simp [Token.placed]))

/-- What stands between brackets is a formula of its own. -/
theorem DerivesWithin.of_bracketed {later : Nat} (hts : Balanced ts)
    (h : DerivesWithin declared n later p (bracketed offset length ts ++ rest) e us) :
    ∃ k inner, n = k + 1 ∧ DerivesWithin declared k (k + 1) .loosest ts inner [] ∧
      ∀ t right, rest = t :: right → t.kind.operation?.isSome → us = rest ∨
        ∃ k q r rest', k < later ∧ DerivesWithin declared k k q right r rest' := by
  rw [bracketed, List.cons_append, List.append_assoc, List.singleton_append] at h
  obtain ⟨k, inner, hn, hinner, hnext⟩ :=
    h.exists_group rfl rfl (hts.moved (· + (offset + 1))) rfl
  obtain ⟨passed, hpassed, hkept⟩ := hinner.exists_passed
  obtain rfl := List.append_cancel_right hpassed
  have halone := (hkept [] (by simp)).moved (· - (offset + 1))
  rw [List.append_nil, map_moved_back] at halone
  exact ⟨k, _, hn, halone, hnext⟩

section

variable {t : Token} {op : Operation} (hop : t.kind.operation? = some op)
include hop

theorem DerivesWithin.join {l r : Formula} (hl : DerivesWithin declared n (n + 1) .loosest ts l [])
    (hr : DerivesWithin declared n (n + 1) .loosest us r [])
    (offset length offset' length' : Nat) :
    DerivesWithin declared (n + 1) (n + 2) .loosest
      (bracketed offset length ts ++ t :: bracketed offset' length' us)
      ((l.moved (· + (offset + 1))).combine ⟨op, false, t.span⟩
        (r.moved (· + (offset' + 1)))) [] := by
  have hleft := hl.bracket offset length (n + 2) (t :: bracketed offset' length' us)
  have hright := hr.bracket offset' length' (n + 1) []
  rw [List.append_nil] at hright
  refine .loosen (Nat.zero_le _) (.binary hop (.loosen ?_ hleft) (.loosen ?_ hright))
  · cases op <;> decide
  · cases op <;> decide

/-- Two groups with an operation between them are read if both are read one level down. -/
theorem derivesWithin_joined_iff (n offset length offset' length' : Nat) (hts : Balanced ts)
    (hus : Balanced us) :
    DerivesWithin declared (n + 1) (n + 2) .loosest
        (bracketed offset length ts ++ t :: bracketed offset' length' us) e [] ↔
      ∃ l r, DerivesWithin declared n (n + 1) .loosest ts l [] ∧
        DerivesWithin declared n (n + 1) .loosest us r [] ∧
        e = (l.moved (· + (offset + 1))).combine ⟨op, false, t.span⟩
          (r.moved (· + (offset' + 1))) := by
  constructor
  · intro h
    obtain ⟨k, l, hk, hl, hnext⟩ := h.of_bracketed hts
    obtain rfl := Nat.succ.inj hk
    obtain hnil | ⟨k, q, e', rest', hlater, hright⟩ := hnext t _ rfl (by simp [hop])
    · exact nomatch hnil
    · rw [← List.append_nil (bracketed offset' length' us)] at hright
      obtain ⟨m, r, rfl, hr, -⟩ := hright.of_bracketed hus
      have hr := hr.mono (by omega : m ≤ n) (by omega : m + 1 ≤ n + 1)
      have hjoined := hl.join hop hr offset length offset' length'
      exact ⟨l, r, hl, hr, h.derives.unique hjoined.derives⟩
  · rintro ⟨l, r, hl, hr, rfl⟩
    exact hl.join hop hr ..

end

/-- Two texts in brackets with an operation between them are read if there are not too many
tokens and both texts are read one level down. -/
theorem parse_joined_iff {a b : String} (op : Operation) (ha : Token.scan a = .ok ts)
    (hb : Token.scan b = .ok us) (hts : Balanced ts) (hus : Balanced us) :
    Formula.parse declared (joined op a b) = .ok e ↔
      ts.length + us.length + 5 ≤ tokenLimit ∧
        ∃ l r, DerivesWithin declared (nestingLimit - 1) nestingLimit .loosest ts l [] ∧
          DerivesWithin declared (nestingLimit - 1) nestingLimit .loosest us r [] ∧
          e = (l.moved (· + 1)).combine ⟨op, false, ⟨a.length + 2, a.length + 3⟩⟩
            (r.moved (· + (a.length + 4))) := by
  obtain ⟨t, hop, hspan, hscan⟩ := Token.exists_scan_joined op ha hb
  have hderived : DerivesWithin declared _ _ _ _ e [] ↔ _ :=
    derivesWithin_joined_iff hop (nestingLimit - 1) 0 a.length (a.length + 3) b.length hts hus
  rw [hspan] at hderived
  have hlength : (bracketed 0 a.length ts ++ t :: bracketed (a.length + 3) b.length us).length =
      ts.length + us.length + 5 := by
    rw [List.length_append, List.length_cons, Token.length_bracketed, Token.length_bracketed]
    omega
  constructor
  · intro hparse
    obtain ⟨tokens, hscan', hle, -, hwithin⟩ := exists_within_of_parse hparse
    obtain rfl := Except.ok.inj (hscan.symm.trans hscan')
    exact ⟨hlength ▸ hle, hderived.1 hwithin⟩
  · rintro ⟨hle, hoperands⟩
    have hwithin := hderived.2 hoperands
    have hbalanced : Balanced _ := balancedAfter_zero.1
      (hwithin.derives.balancedAfter_iff.2 (balancedAfter_nil.2 rfl))
    exact (parse_eq_ok_iff hscan (hlength ▸ hle) hbalanced).2 hwithin

end

end FormulaGrading
