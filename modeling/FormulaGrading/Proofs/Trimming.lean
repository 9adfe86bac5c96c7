import FormulaGrading.Session.Arguments

/-!
Texts without the blanks at their ends, and texts split at the first character of a kind.
Both are told by how a text is put together again.
-/

namespace FormulaGrading

namespace Text

/-- Whether all characters are blank. -/
def Blanks (cs : List Char) : Prop :=
  ∀ c ∈ cs, isBlank c

/-- Whether characters neither begin nor end with a blank. -/
structure IsTrimmed (cs : List Char) : Prop where
  head : ∀ c, cs.head? = some c → isBlank c = false
  last : ∀ c, cs.getLast? = some c → isBlank c = false

theorem isTrimmed_of_forall {cs : List Char} (h : ∀ c ∈ cs, isBlank c = false) : IsTrimmed cs :=
  ⟨fun c hc => h c (List.mem_of_head? hc), fun c hc => h c (List.mem_of_getLast? hc)⟩

variable {cs lead mid trail : List Char}

theorem Blanks.reverse (h : Blanks cs) : Blanks cs.reverse :=
  fun c hc => h c (List.mem_reverse.1 hc)

/-- The blanks in front of what does not begin with one are dropped, and no more. -/
theorem dropWhile_of_append (hlead : Blanks lead)
    (hhead : ∀ c, cs.head? = some c → isBlank c = false) :
    (lead ++ cs).dropWhile isBlank = cs := by
  rw [List.dropWhile_append_of_pos hlead]
  cases cs with
  | nil => rfl
  | cons c rest => simp [hhead c rfl]

theorem exists_of_dropWhile (cs : List Char) : ∃ lead,
    cs = lead ++ cs.dropWhile isBlank ∧ Blanks lead ∧
      ∀ c, (cs.dropWhile isBlank).head? = some c → isBlank c = false := by
  refine ⟨cs.takeWhile isBlank, (List.takeWhile_append_dropWhile).symm,
    fun c hc => List.all_eq_true.1 List.all_takeWhile c hc, fun c hc => ?_⟩
  have hnot := List.head?_dropWhile_not isBlank cs
  rw [hc] at hnot
  simpa using hnot

theorem trimmed_of_append (hlead : Blanks lead) (htrail : Blanks trail) (hmid : IsTrimmed mid) :
    trimmed (lead ++ mid ++ trail) = mid := by
  unfold trimmed
  cases mid with
  | nil =>
      have hall : Blanks (lead ++ trail) := List.forall_mem_append.2 ⟨hlead, htrail⟩
      have hdropped : (lead ++ trail ++ []).dropWhile isBlank = [] :=
        dropWhile_of_append hall nofun
      rw [List.append_nil] at hdropped ⊢
      rw [hdropped]
      rfl
  | cons c rest =>
      have hfront : (lead ++ (c :: rest ++ trail)).dropWhile isBlank = c :: rest ++ trail :=
        dropWhile_of_append hlead fun d hd => hmid.head d hd
      rw [List.append_assoc, hfront, List.reverse_append, dropWhile_of_append htrail.reverse,
        List.reverse_reverse]
      rw [List.head?_reverse]
      exact hmid.last

/-- A text is what is left of it between blanks at its ends. -/
theorem trimmed_eq_iff : trimmed cs = mid ↔
    ∃ lead trail, cs = lead ++ mid ++ trail ∧ Blanks lead ∧ Blanks trail ∧ IsTrimmed mid := by
  constructor
  · rintro rfl
    obtain ⟨lead, hlead, hblanks, hhead⟩ := exists_of_dropWhile cs
    obtain ⟨trail, htrail, hblanks', hlast⟩ :=
      exists_of_dropWhile (cs.dropWhile isBlank).reverse
    have hrest : cs.dropWhile isBlank = trimmed cs ++ trail.reverse := by
      rw [trimmed, ← List.reverse_append, ← htrail, List.reverse_reverse]
    refine ⟨lead, trail.reverse, ?_, hblanks, hblanks'.reverse, ?_, ?_⟩
    · rw [List.append_assoc, ← hrest]
      exact hlead
    · intro c hc
      exact hhead c (by rw [hrest, List.head?_append, hc]; rfl)
    · intro c hc
      rw [trimmed, List.getLast?_reverse] at hc
      exact hlast c hc
  · rintro ⟨lead, trail, rfl, hlead, htrail, hmid⟩
    exact trimmed_of_append hlead htrail hmid

end Text

namespace Session

variable {p : Char → Bool} {cs before after : List Char}

theorem splitAtFirst?_eq_some_iff : splitAtFirst? p cs = some (before, after) ↔
    ∃ c, cs = before ++ c :: after ∧ p c ∧ ∀ d ∈ before, p d = false := by
  induction cs generalizing before with
  | nil => simp [splitAtFirst?]
  | cons d cs ih =>
      rw [splitAtFirst?]
      split
      next hd =>
        constructor
        · rintro ⟨rfl, rfl⟩
          exact ⟨d, rfl, hd, nofun⟩
        · rintro ⟨c, hcs, -, hbefore⟩
          obtain ⟨rfl, htail⟩ | ⟨front, rfl, -⟩ := List.cons_eq_append_iff.1 hcs
          · rw [(List.cons.inj htail).2]
          · simp [hd] at hbefore
      next hd =>
        rw [Option.map_eq_some_iff]
        constructor
        · rintro ⟨⟨front, back⟩, hsplit, heq⟩
          obtain ⟨rfl, rfl⟩ := Prod.mk.inj heq
          obtain ⟨c, rfl, hc, hfront⟩ := ih.1 hsplit
          exact ⟨c, rfl, hc, List.forall_mem_cons.2 ⟨by simpa using hd, hfront⟩⟩
        · rintro ⟨c, hcs, hc, hbefore⟩
          obtain ⟨rfl, htail⟩ | ⟨front, rfl, htail⟩ := List.cons_eq_append_iff.1 hcs
          · exact absurd ((List.cons.inj htail).1 ▸ hc) hd
          · exact ⟨(front, after), ih.2 ⟨c, htail, hc, (List.forall_mem_cons.1 hbefore).2⟩, rfl⟩

end Session

end FormulaGrading
