import FormulaGrading.Proofs.Words
import Mathlib.Data.List.Induction
import Mathlib.Data.List.TakeWhile
import Mathlib.Data.String.Basic

/-!
A formula with assignments behind it. The formula ends in front of the word that holds the
first `=`, which a formula has no use for. So the text is read as it was put together: up to
blanks around it, the formula comes back, and every name has the value that was assigned to it
last.
-/

namespace FormulaGrading

/-- A name with the text of a number, and the number that is read of it. -/
structure Assignment where
  name : String
  numeral : String
  value : Float

namespace Assignment

/-- The word `name=value`. -/
def word (a : Assignment) : List Char :=
  a.name.toList ++ '=' :: a.numeral.toList

/-- The name is not empty and tells where the number begins, which can be read. -/
structure IsReadable (a : Assignment) : Prop where
  name_ne : a.name ≠ ""
  noEquals : '=' ∉ a.name.toList
  read : Decimal.read? a.numeral = some a.value

end Assignment

namespace Bindings

/-- Binds names one after the other. -/
def assign (b : Bindings) (assignments : List Assignment) : Bindings :=
  assignments.foldl (fun b a => b.insert a.name a.value) b

/-- Bindings of the names that are assigned to, in order, each of them once, to the values that
are assigned last. -/
structure Holds (b : Bindings) (assignments : List Assignment) : Prop where
  sorted : b.names.Pairwise (· < ·)
  assigned : ∀ name ∈ b.names, ∃ a ∈ assignments, a.name = name
  last : ∀ earlier a later, assignments = earlier ++ a :: later →
    (∀ other ∈ later, other.name ≠ a.name) → b.get? a.name = some a.value

theorem pairwise_insertEntry {name : String} {value : Float} {entries : List (String × Float)}
    (h : (entries.map Prod.fst).Pairwise (· < ·)) :
    ((insertEntry name value entries).map Prod.fst).Pairwise (· < ·) := by
  induction entries with
  | nil => exact List.pairwise_singleton ..
  | cons entry rest ih =>
      obtain ⟨hfirst, hrest⟩ := List.pairwise_cons.1 h
      unfold insertEntry
      split
      next hlt =>
        refine List.pairwise_cons.2 ⟨fun other hother => ?_, h⟩
        obtain rfl | hother := List.mem_cons.1 hother
        · exact hlt
        · exact lt_trans hlt (hfirst other hother)
      next hge =>
        split
        next heq =>
          subst heq
          exact h
        next hne =>
          refine List.pairwise_cons.2 ⟨fun other hother => ?_, ih hrest⟩
          obtain rfl | hother := (mem_map_fst_insertEntry ..).1 hother
          · exact lt_of_le_of_ne (not_lt.1 hge) (Ne.symm hne)
          · exact hfirst other hother

/-- One more assignment comes last. -/
theorem Holds.insert {b : Bindings} {assignments : List Assignment} (h : b.Holds assignments)
    (a : Assignment) : (b.insert a.name a.value).Holds (assignments ++ [a]) where
  sorted := pairwise_insertEntry h.sorted
  assigned name hname := by
    obtain rfl | hname := (mem_names_insert ..).1 hname
    · exact ⟨a, by simp, rfl⟩
    · obtain ⟨other, hother, rfl⟩ := h.assigned name hname
      exact ⟨other, List.mem_append_left _ hother, rfl⟩
  last earlier other later heq hlater := by
    rw [get?_insert]
    obtain rfl | ⟨later, final, rfl⟩ := List.eq_nil_or_concat later
    · obtain ⟨-, hsame⟩ := List.append_inj' heq rfl
      obtain rfl := List.head_eq_of_cons_eq hsame
      exact if_pos rfl
    · rw [List.concat_eq_append, ← List.cons_append, ← List.append_assoc] at heq
      obtain ⟨hbefore, hsame⟩ := List.append_inj' heq rfl
      obtain rfl := List.head_eq_of_cons_eq hsame
      simp only [List.concat_eq_append, List.forall_mem_append, List.forall_mem_singleton]
        at hlater
      rw [if_neg hlater.2.symm]
      exact h.last earlier other later hbefore hlater.1

theorem holds_assign (assignments : List Assignment) :
    ((∅ : Bindings).assign assignments).Holds assignments := by
  induction assignments using List.reverseRecOn with
  | nil => exact ⟨.nil, nofun, fun earlier a later heq => by simp at heq⟩
  | append_singleton assignments a ih =>
      rw [assign, List.foldl_append]
      exact ih.insert a

end Bindings

namespace Session

open Text

/-- Whether characters end with a blank, if there are any. -/
def EndsApart (cs : List Char) : Prop :=
  ∀ c, cs.getLast? = some c → isBlank c

variable {cs front name rest expression tail word : List Char} {assignments : List Assignment}
  {text formula : String} {b b' : Bindings} {words : List (List Char)}

/-! ### Where the formula ends -/

theorem splitBindings_of_notMem (h : '=' ∉ cs) : splitBindings cs = (cs, []) := by
  have hall : cs.takeWhile (· != '=') = cs :=
    List.takeWhile_eq_self_iff.2 fun c hc => by simpa using ne_of_mem_of_not_mem hc h
  simp [splitBindings, hall]

theorem takeWhile_notBlank_reverse (hname : ∀ c ∈ name, isBlank c = false)
    (hfront : EndsApart front) :
    (front ++ name).reverse.takeWhile (fun c => !isBlank c) = name.reverse := by
  rw [List.reverse_append, List.takeWhile_append_of_pos (by simpa using hname)]
  have hnone : front.reverse.takeWhile (fun c => !isBlank c) = [] := by
    cases hlast : front.reverse with
    | nil => rfl
    | cons c others =>
        have hc : isBlank c := hfront c (by rw [List.getLast?_eq_head?_reverse, hlast]; rfl)
        simp [hc]
  rw [hnone, List.append_nil]

/-- The formula ends where the word begins that holds the first `=`. -/
theorem splitBindings_of_append (hfront : '=' ∉ front) (hname : '=' ∉ name)
    (hword : ∀ c ∈ name, isBlank c = false) (hapart : EndsApart front) :
    splitBindings (front ++ (name ++ '=' :: rest)) = (front, name ++ '=' :: rest) := by
  have hbefore : (front ++ (name ++ '=' :: rest)).takeWhile (· != '=') = front ++ name := by
    rw [← List.append_assoc, List.takeWhile_append_of_pos]
    · simp
    · intro c hc
      have hnone : '=' ∉ front ++ name := fun hmem => (List.mem_append.1 hmem).elim hfront hname
      simpa using ne_of_mem_of_not_mem hc hnone
  unfold splitBindings
  simp only [hbefore]
  rw [if_neg (by simp), takeWhile_notBlank_reverse hword hapart]
  simp

/-- Characters end with a row without blanks. -/
theorem exists_endsApart (cs : List Char) : ∃ front name, cs = front ++ name ∧
    (∀ c ∈ name, isBlank c = false) ∧ EndsApart front := by
  induction cs using List.reverseRecOn with
  | nil => exact ⟨[], [], rfl, nofun, nofun⟩
  | append_singleton cs c ih =>
      by_cases hc : isBlank c
      · refine ⟨cs ++ [c], [], by simp, nofun, fun d hd => ?_⟩
        rw [List.getLast?_concat] at hd
        exact Option.some.inj hd ▸ hc
      · obtain ⟨front, name, rfl, hname, hfront⟩ := ih
        refine ⟨front, name ++ [c], by simp, ?_, hfront⟩
        exact List.forall_mem_append.2 ⟨hname, List.forall_mem_singleton.2 (by simpa using hc)⟩

/-- Either there is nothing but the formula, or it is followed by a word with the first `=`. -/
theorem splitBindings_cases (cs : List Char) : ('=' ∉ cs ∧ splitBindings cs = (cs, [])) ∨
    ∃ front rest, cs = front ++ rest ∧ '=' ∉ front ∧ EndsApart front ∧
      splitBindings cs = (front, rest) := by
  by_cases h : '=' ∈ cs
  · obtain ⟨before, rest, rfl, hbefore⟩ := List.eq_append_cons_of_mem h
    obtain ⟨front, name, rfl, hname, hfront⟩ := exists_endsApart before
    rw [List.mem_append, not_or] at hbefore
    refine .inr ⟨front, name ++ '=' :: rest, by simp, hbefore.1, hfront, ?_⟩
    rw [List.append_assoc]
    exact splitBindings_of_append hbefore.1 hbefore.2 hname hfront
  · exact .inl ⟨h, splitBindings_of_notMem h⟩

/-! ### What the words say -/

theorem readBinding?_word {a : Assignment} (h : a.IsReadable) :
    readBinding? a.word = some (a.name, a.value) := by
  have hsplit : splitAtFirst? (· == '=') a.word = some (a.name.toList, a.numeral.toList) :=
    splitAtFirst?_eq_some_iff.2 ⟨'=', rfl, rfl, fun c hc => by
      simpa using ne_of_mem_of_not_mem hc h.noEquals⟩
  simp [readBinding?, hsplit, h.name_ne, h.read]

theorem exists_of_readBinding? {name : String} {value : Float}
    (h : readBinding? word = some (name, value)) :
    ∃ a : Assignment, a.word = word ∧ a.IsReadable ∧ a.name = name ∧ a.value = value := by
  unfold readBinding? at h
  split at h
  next => exact nomatch h
  next front numeral hsplit =>
    obtain ⟨c, rfl, hc, hfront⟩ := splitAtFirst?_eq_some_iff.1 hsplit
    obtain rfl : c = '=' := by simpa using hc
    split at h
    next => exact nomatch h
    next hsome =>
      obtain ⟨x, hread, heq⟩ := Option.map_eq_some_iff.1 h
      obtain ⟨rfl, rfl⟩ := Prod.mk.inj heq
      refine ⟨⟨String.ofList front, String.ofList numeral, x⟩, by simp [Assignment.word],
        ⟨by simpa [← String.toList_inj] using hsome, ?_, hread⟩, rfl, rfl⟩
      rw [String.toList_ofList]
      exact fun hmem => by simpa using hfront '=' hmem

/-- Words are read as assignments, or not at all. -/
theorem readBindings_eq_ok_iff : readBindings b words = .ok b' ↔
    ∃ assignments : List Assignment, assignments.map Assignment.word = words ∧
      (∀ a ∈ assignments, a.IsReadable) ∧ b' = b.assign assignments := by
  induction words generalizing b with
  | nil =>
      simp only [readBindings, Except.ok.injEq, List.map_eq_nil_iff]
      constructor
      · rintro rfl
        exact ⟨[], rfl, nofun, rfl⟩
      · rintro ⟨_, rfl, -, rfl⟩
        rfl
  | cons word words ih =>
      rw [readBindings]
      constructor
      · intro h
        split at h
        next name value hword =>
          obtain ⟨a, rfl, hreadable, rfl, rfl⟩ := exists_of_readBinding? hword
          obtain ⟨assignments, rfl, hall, rfl⟩ := ih.1 h
          exact ⟨a :: assignments, rfl, List.forall_mem_cons.2 ⟨hreadable, hall⟩, rfl⟩
        next => exact nomatch h
      · rintro ⟨assignments, hwords, hall, rfl⟩
        obtain ⟨a, assignments, rfl, rfl, rfl⟩ := List.map_eq_cons_iff.1 hwords
        obtain ⟨hreadable, hall⟩ := List.forall_mem_cons.1 hall
        rw [readBinding?_word hreadable]
        exact ih.2 ⟨assignments, rfl, hall, rfl⟩

/-! ### The whole text -/

/-- A text that is put together from a formula and assignments behind it. No word is partly in
the one and partly in the other. -/
structure Composes (cs expression tail : List Char) (assignments : List Assignment) : Prop where
  whole : cs = expression ++ tail
  noEquals : '=' ∉ expression
  apart : EndsApart expression ∨ ∀ c, tail.head? = some c → isBlank c
  words : Spaced (assignments.map Assignment.word) tail
  readable : ∀ a ∈ assignments, a.IsReadable

theorem EndsApart.append_blanks (h : EndsApart front) {lead : List Char} (hlead : Blanks lead) :
    EndsApart (front ++ lead) := by
  intro c hc
  rw [List.getLast?_append] at hc
  cases hlast : lead.getLast? with
  | none => exact h c (by simpa [hlast] using hc)
  | some d =>
      obtain rfl : d = c := by simpa [hlast] using hc
      exact hlead d (List.mem_of_getLast? hlast)

/-- The blanks in front of the first word belong to the formula as well as to what follows. -/
theorem endsApart_append {lead : List Char} (hlead : Blanks lead) (hword : IsWord word)
    (h : EndsApart front ∨ ∀ c, (lead ++ word ++ rest).head? = some c → isBlank c) :
    EndsApart (front ++ lead) := by
  obtain h | h := h
  · exact h.append_blanks hlead
  · cases lead with
    | nil =>
        obtain ⟨c, word, rfl⟩ := List.exists_cons_of_ne_nil hword.ne_nil
        have hc : isBlank c := h c rfl
        simp [hword.noBlank c (by simp)] at hc
    | cons d lead =>
        intro c hc
        rw [List.getLast?_append_of_ne_nil _ (List.cons_ne_nil _ _)] at hc
        exact hlead c (List.mem_of_getLast? hc)

theorem notMem_of_blanks (h : Blanks cs) : '=' ∉ cs := fun hmem =>
  absurd (h '=' hmem) (by decide)

/-- A text that is put together in this way is read as such. -/
theorem Composes.readEvaluation_eq (h : Composes text.toList expression tail assignments) :
    readEvaluation text =
      .ok (String.ofList (trimmed expression), (∅ : Bindings).assign assignments) := by
  obtain ⟨hwhole, hnoEquals, hapart, hwords, hreadable⟩ := h
  rw [readEvaluation, hwhole]
  cases assignments with
  | nil =>
      obtain ⟨hblanks⟩ := hwords
      have hnone : '=' ∉ expression ++ tail :=
        fun hmem => (List.mem_append.1 hmem).elim hnoEquals (notMem_of_blanks hblanks)
      simp only [splitBindings_of_notMem hnone, trimmed_append_blanks hblanks, wordLists]
      rfl
  | cons a assignments =>
      rw [List.map_cons] at hwords
      cases hwords with
      | @cons lead _ rest _ hlead hword hgap hrest =>
        have hreadable_a := hreadable a List.mem_cons_self
        have hfront : '=' ∉ expression ++ lead :=
          fun hmem => (List.mem_append.1 hmem).elim hnoEquals (notMem_of_blanks hlead)
        have hname : ∀ c ∈ a.name.toList, isBlank c = false := fun c hc =>
          hword.noBlank c (List.mem_append_left _ hc)
        have htext : expression ++ (lead ++ a.word ++ rest) =
            expression ++ lead ++ (a.name.toList ++ '=' :: (a.numeral.toList ++ rest)) := by
          simp [Assignment.word]
        have hwords : wordLists (a.name.toList ++ '=' :: (a.numeral.toList ++ rest)) =
            (a :: assignments).map Assignment.word := by
          rw [List.map_cons, ← hrest.wordLists_eq, ← wordLists_word_append hword hgap]
          simp [Assignment.word]
        have hread : readBindings ∅ ((a :: assignments).map Assignment.word) =
            .ok ((∅ : Bindings).assign (a :: assignments)) :=
          readBindings_eq_ok_iff.2 ⟨_, rfl, hreadable, rfl⟩
        rw [htext, splitBindings_of_append hfront hreadable_a.noEquals hname
          (endsApart_append hlead hword hapart)]
        simp only [hwords, hread, trimmed_append_blanks hlead]

/-- Whatever is read was put together in this way. -/
theorem exists_composes_of_readEvaluation (h : readEvaluation text = .ok (formula, b)) :
    ∃ expression tail assignments, Composes text.toList expression tail assignments ∧
      formula = String.ofList (trimmed expression) ∧ b = (∅ : Bindings).assign assignments := by
  have hparts : ∃ expression tail, splitBindings text.toList = (expression, tail) ∧
      text.toList = expression ++ tail ∧ '=' ∉ expression ∧
        (EndsApart expression ∨ ∀ c, tail.head? = some c → isBlank c) := by
    obtain ⟨hnone, hsplit⟩ | ⟨front, rest, hwhole, hfront, hapart, hsplit⟩ :=
      splitBindings_cases text.toList
    · exact ⟨_, _, hsplit, by simp, hnone, .inr nofun⟩
    · exact ⟨front, rest, hsplit, hwhole, hfront, .inl hapart⟩
  obtain ⟨expression, tail, hsplit, hwhole, hnoEquals, hapart⟩ := hparts
  rw [readEvaluation, hsplit] at h
  simp only at h
  split at h
  next b' hread =>
    obtain ⟨rfl, rfl⟩ := Prod.mk.inj (Except.ok.inj h)
    obtain ⟨assignments, hwords, hreadable, rfl⟩ := readBindings_eq_ok_iff.1 hread
    exact ⟨expression, tail, assignments,
      ⟨hwhole, hnoEquals, hapart, wordLists_eq_iff.1 hwords.symm, hreadable⟩, rfl, rfl⟩
  next => exact nomatch h

/-- What is written behind `:eval` is decoded: the formula without blanks at its ends, and
bindings of every name to the value assigned to it last. And whatever is decoded was written in
this way: there is no `=` in the formula, and each word behind it is an assignment that is in
force or followed by another one to the same name. -/
theorem evaluation_decodes (text : String) :
    (∀ expression tail assignments, Composes text.toList expression tail assignments →
      ∃ b, readEvaluation text = .ok (String.ofList (trimmed expression), b) ∧
        b.Holds assignments) ∧
    ∀ formula b, readEvaluation text = .ok (formula, b) →
      '=' ∉ formula.toList ∧ ∃ expression tail assignments,
        Composes text.toList expression tail assignments ∧
        formula = String.ofList (trimmed expression) ∧ b.Holds assignments ∧
        ∀ earlier a later, assignments = earlier ++ a :: later →
          b.get? a.name = some a.value ∨ ∃ other ∈ later, other.name = a.name := by
  refine ⟨fun expression tail assignments h =>
    ⟨_, h.readEvaluation_eq, Bindings.holds_assign assignments⟩, fun formula b h => ?_⟩
  obtain ⟨expression, tail, assignments, hcomposes, rfl, rfl⟩ :=
    exists_composes_of_readEvaluation h
  have hholds := Bindings.holds_assign assignments
  refine ⟨?_, expression, tail, assignments, hcomposes, rfl, hholds, fun earlier a later heq => ?_⟩
  · obtain ⟨lead, trail, hexpression, -⟩ :=
      trimmed_eq_iff.1 (rfl : trimmed expression = trimmed expression)
    rw [String.toList_ofList]
    refine fun hmem => hcomposes.noEquals ?_
    rw [hexpression]
    simp [hmem]
  · by_contra hneither
    rw [not_or, not_exists] at hneither
    exact hneither.1 (hholds.last earlier a later heq fun other hother hname =>
      hneither.2 other ⟨hother, hname⟩)

/-- Of two values for one name, the later one counts. -/
theorem evaluation_decodes_last_value :
    ∃ b, readEvaluation " 2 x\u2003 x=1 y=-inf\tx=3" = .ok ("2 x", b) ∧
      b.Holds [⟨"x", "1", 1.0⟩, ⟨"y", "-inf", -Decimal.infinity⟩, ⟨"x", "3", 3.0⟩] := by
  have hcomposes : Composes " 2 x\u2003 x=1 y=-inf\tx=3".toList " 2 x\u2003".toList
      " x=1 y=-inf\tx=3".toList
      [⟨"x", "1", 1.0⟩, ⟨"y", "-inf", -Decimal.infinity⟩, ⟨"x", "3", 3.0⟩] := by
    refine ⟨by decide, by decide, .inr ?_, wordLists_eq_iff.1 (by decide), ?_⟩
    · rintro c ⟨⟩
      rfl
    · rintro a (_ | ⟨_, _ | ⟨_, _ | ⟨_, ⟨⟩⟩⟩⟩) <;>
        exact ⟨by decide, by decide, by decide +kernel⟩
  exact (evaluation_decodes _).1 _ _ _ hcomposes

end Session

end FormulaGrading
