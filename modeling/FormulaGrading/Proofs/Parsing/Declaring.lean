import FormulaGrading.Proofs.Parsing.Whole

/-!
Declaring further names. Two readings that differ in the declared names only go in step,
until a name stands before a group that only one of them takes for a variable. The other
one ends there, since no function has that name.
-/

namespace FormulaGrading

/-- Whether a fault is that of a name before a group which only the second list declares. -/
def IsMissingFrom (known more : List String) (fault : Fault) : Prop :=
  ∃ span name similar, fault = ⟨[span], .noSuchFunction name similar⟩ ∧
    name ∈ more ∧ name ∉ known ∧ isFunctionName name = false

namespace Reading

variable {α β : Type} {known more : List String}

/-- Whether two readings are the same from every place on, unless the first one ends at a
name that only the second list declares. -/
def InStep (known more : List String) (r r' : Reading α) : Prop :=
  ∀ c, r' c = r c ∨ ∃ fault c', r c = (.error fault, c') ∧ IsMissingFrom known more fault

theorem InStep.refl (r : Reading α) : InStep known more r r :=
  fun _ => .inl rfl

theorem InStep.bind {r r' : Reading α} {f f' : α → Reading β} (h : InStep known more r r')
    (hf : ∀ a, InStep known more (f a) (f' a)) : InStep known more (r >>= f) (r' >>= f') := by
  intro c
  obtain heq | ⟨fault, c', hfault, hmissing⟩ := h c
  · rw [bind_apply, bind_apply, heq]
    rcases r c with ⟨fault | a, c'⟩
    · exact .inl rfl
    · exact hf a c'
  · exact .inr ⟨fault, c', bind_of_error hfault f, hmissing⟩

theorem InStep.map {r r' : Reading α} (f : α → β) (h : InStep known more r r') :
    InStep known more (f <$> r) (f <$> r') := by
  intro c
  rw [map_apply, map_apply]
  obtain heq | ⟨fault, c', hfault, hmissing⟩ := h c
  · exact .inl (by rw [heq])
  · exact .inr ⟨fault, c', by rw [hfault]; rfl, hmissing⟩

theorem InStep.attempt {r r' : Reading α} (h : InStep known more r r') :
    InStep known more (attempt r) (attempt r') := by
  intro c
  rw [attempt_apply, attempt_apply]
  obtain heq | ⟨fault, c', hfault, hmissing⟩ := h c
  · exact .inl (by rw [heq])
  · exact .inr ⟨fault, c, by rw [hfault], hmissing⟩

end Reading

namespace Level

open Reading

/-- Whether the readings that two levels offer are in step. -/
structure InStep (known more : List String) (l l' : Level) : Prop where
  operand : Reading.InStep known more l.operand l'.operand
  climb : ∀ lhs least, Reading.InStep known more (l.climb lhs least) (l'.climb lhs least)
  group : Reading.InStep known more l.group l'.group

theorem InStep.formula {known more : List String} {l l' : Level} (h : InStep known more l l') :
    Reading.InStep known more l.formula l'.formula :=
  h.operand.bind fun lhs => h.climb lhs .loosest

section

variable {known more : List String} {below below' : Option Level}

/-- Whether there are levels below that are in step, or none. -/
def BelowInStep (known more : List String) : Option Level → Option Level → Prop
  | none, none => True
  | some l, some l' => InStep known more l l'
  | _, _ => False

variable (hbelow : BelowInStep known more below below')
include hbelow

theorem inStep_descend {α : Type} {f f' : Level → Reading α}
    (hf : ∀ l l', InStep known more l l' →
      Reading.InStep known more (f l) (f' l')) :
    Reading.InStep known more (descend below f) (descend below' f') := by
  match below, below', hbelow with
  | none, none, _ => exact .refl _
  | some l, some l', h => exact hf l l' h

theorem inStep_readGroup :
    Reading.InStep known more (readGroup below) (readGroup below') :=
  (Reading.InStep.refl _).bind fun _ =>
    (inStep_descend hbelow fun _ _ h => h.formula).bind fun _ => .refl _

theorem inStep_readCall :
    Reading.InStep known more (readCall below) (readCall below') := by
  refine (Reading.InStep.refl _).bind fun function => ?_
  split
  · exact .refl _
  · refine (Reading.InStep.refl _).bind fun opens => ?_
    split
    · exact .refl _
    · exact (inStep_descend hbelow fun _ _ h => h.group).bind fun _ => .refl _

/-- A name is where the two readings may part. -/
theorem inStep_readNamed (hmore : ∀ name ∈ known, name ∈ more) (name : Token) :
    Reading.InStep known more (readNamed known below name)
      (readNamed more below' name) := by
  unfold readNamed
  split
  · exact (inStep_readCall hbelow).attempt
  next hfunction =>
    refine (Reading.InStep.refl _).bind fun beforeGroup => ?_
    by_cases hknown : multipliesGroup known name.lexeme
    · have hsame : multipliesGroup more name.lexeme := by
        simp only [multipliesGroup, Bool.or_eq_true, List.contains_iff_mem] at hknown ⊢
        exact hknown.imp_right (hmore _)
      rw [hknown, hsame]
      exact .refl _
    · by_cases hmore' : multipliesGroup more name.lexeme
      · have hdiffer : name.lexeme ∈ more ∧ name.lexeme ∉ known := by
          simp only [multipliesGroup, Bool.or_eq_true, List.contains_iff_mem, not_or]
            at hknown hmore'
          exact ⟨hmore'.resolve_left hknown.1, hknown.2⟩
        cases beforeGroup with
        | false => exact .refl _
        | true =>
            rw [Bool.eq_false_iff.2 hknown]
            exact fun c => .inr ⟨_, c, rfl, c.span, name.lexeme, _, rfl, hdiffer.1, hdiffer.2,
              Bool.eq_false_iff.2 hfunction⟩
      · rw [Bool.eq_false_iff.2 hknown, Bool.eq_false_iff.2 hmore']
        exact .refl _

theorem inStep_readAtom (hmore : ∀ name ∈ known, name ∈ more) :
    Reading.InStep known more (readAtom known below) (readAtom more below') := by
  refine (Reading.InStep.refl _).bind fun here => ?_
  split
  · exact .refl _
  · split
    · exact .refl _
    · exact (inStep_readNamed hbelow hmore _).map _
    · exact (inStep_readGroup hbelow).attempt
    · exact .refl _

theorem inStep_readSigned :
    Reading.InStep known more (readSigned below) (readSigned below') := by
  refine (Reading.InStep.refl _).bind fun mark => (Reading.InStep.refl _).bind fun opens => ?_
  split
  · exact .refl _
  · refine (inStep_descend hbelow fun _ _ h => ?_).bind fun _ => .refl _
    exact h.operand.bind fun lhs => h.climb lhs _

theorem inStep_readOperand (hmore : ∀ name ∈ known, name ∈ more) :
    Reading.InStep known more (readOperand known below)
      (readOperand more below') := by
  refine (Reading.InStep.refl _).bind fun here => ?_
  split
  · exact .refl _
  · split
    · exact inStep_readSigned hbelow
    · exact inStep_readSigned hbelow
    · exact .refl _
    · exact .refl _
    · exact .refl _
    · exact .refl _
    · exact (inStep_readAtom hbelow hmore).attempt.map _
    · exact (inStep_readAtom hbelow hmore).attempt.map _
    · exact (inStep_readAtom hbelow hmore).attempt.map _

theorem inStep_readRightOperand (hmore : ∀ name ∈ known, name ∈ more) (op : OperatorMark) :
    Reading.InStep known more (readRightOperand known below op)
      (readRightOperand more below' op) := by
  unfold readRightOperand
  split
  · exact (inStep_readAtom hbelow hmore).attempt.map _
  · refine (Reading.InStep.refl _).bind fun _ => (Reading.InStep.refl _).bind fun _ => ?_
    split
    · exact inStep_readOperand hbelow hmore
    · exact .refl _

theorem inStep_completeRight (op : OperatorMark) (rounds : Nat) (rhs : Formula) :
    Reading.InStep known more (completeRight below op rounds rhs)
      (completeRight below' op rounds rhs) := by
  induction rounds generalizing rhs with
  | zero => exact .refl _
  | succ rounds ih =>
      refine (Reading.InStep.refl _).bind fun following => ?_
      split
      · exact .refl _
      · split
        · exact (inStep_descend hbelow fun _ _ h => h.climb rhs _).bind fun _ => ih _
        · exact .refl _

theorem inStep_climbRounds (hmore : ∀ name ∈ known, name ∈ more) (least : Precedence)
    (rounds : Nat) (lhs : Formula) :
    Reading.InStep known more (climbRounds known below least rounds lhs)
      (climbRounds more below' least rounds lhs) := by
  induction rounds generalizing lhs with
  | zero => exact .refl _
  | succ rounds ih =>
      refine (Reading.InStep.refl _).bind fun next => ?_
      split
      · exact .refl _
      · split
        · exact .refl _
        · refine (inStep_readRightOperand hbelow hmore _).bind fun rhs => ?_
          refine (Reading.InStep.refl _).bind fun left => ?_
          exact (inStep_completeRight hbelow _ left rhs).bind fun _ => ih _

theorem inStep_above (hmore : ∀ name ∈ known, name ∈ more) :
    InStep known more (above known below) (above more below') where
  operand := inStep_readOperand hbelow hmore
  climb lhs least :=
    (Reading.InStep.refl _).bind fun left => inStep_climbRounds hbelow hmore least left lhs
  group := inStep_readGroup hbelow

end

/-- Levels from which reading can descend equally far are in step. -/
theorem inStep_ofDescents {known more : List String} (hmore : ∀ name ∈ known, name ∈ more)
    (descents : Nat) :
    InStep known more (ofDescents known descents) (ofDescents more descents) := by
  have hbelow : BelowInStep known more (below? known descents) (below? more descents) := by
    induction descents with
    | zero => trivial
    | succ descents ih => exact inStep_above ih hmore
  exact inStep_above hbelow hmore

end Level

/-- A text is read in the same way when further names are declared, unless it was one of
them that kept it from being read. -/
theorem parse_of_more {known more : List String} (hmore : ∀ name ∈ known, name ∈ more)
    (text : String) :
    Formula.parse more text = Formula.parse known text ∨
      ∃ fault, Formula.parse known text = .error fault ∧ IsMissingFrom known more fault := by
  cases htokens : Parser.tokensOf text with
  | error fault => simp [Formula.parse, Parser.readWhole, Parser.ofText, htokens]
  | ok tokens =>
      rw [parse_of_tokensOf htokens, parse_of_tokensOf htokens]
      cases bracketFault? tokens with
      | some fault => exact .inl rfl
      | none =>
          obtain heq | ⟨fault, c, hfault, hmissing⟩ :=
            (Level.inStep_ofDescents hmore nestingLimit).formula (.start tokens)
          · exact .inl (by rw [heq])
          · exact .inr ⟨fault, by rw [hfault], hmissing⟩

/-- A text is read in the same way when further names are declared, unless it had one of
them before a group. The name of a function makes no difference. -/
theorem parse_declaring_more (known more : List String) (text : String)
    (hmore : ∀ name ∈ known, name ∈ more) :
    (Formula.parse more text = Formula.parse known text ∨
      ∃ span name similar,
        Formula.parse known text = .error ⟨[span], .noSuchFunction name similar⟩ ∧
          name ∈ more ∧ name ∉ known) ∧
    ((∀ name ∈ more, name ∈ known ∨ isFunctionName name) →
      Formula.parse more text = Formula.parse known text) := by
  obtain heq | ⟨fault, hparse, span, name, similar, rfl, hname, hunknown, hfunction⟩ :=
    parse_of_more hmore text
  · exact ⟨.inl heq, fun _ => heq⟩
  · refine ⟨.inr ⟨span, name, similar, hparse, hname, hunknown⟩, fun hfunctions => ?_⟩
    obtain hknown | hisFunction := hfunctions name hname
    · exact absurd hknown hunknown
    · exact nomatch hfunction.symm.trans hisFunction

/-- A name of several letters can stand before a group once it is declared, and the name of
a function stands for the function all the same. -/
theorem parse_declaring_speed :
    Formula.parse ["speed", "rate"] "2speed(3)" ≠ Formula.parse ["rate"] "2speed(3)" ∧
      (∃ span name similar, Formula.parse ["rate"] "2speed(3)" =
          .error ⟨[span], .noSuchFunction name similar⟩ ∧
        name ∈ ["speed", "rate"] ∧ name ∉ ["rate"]) ∧
      Formula.parse ["sin", "rate"] "rate(2)sin(3)" =
        Formula.parse ["rate"] "rate(2)sin(3)" := by
  have hread : (Formula.parse ["speed", "rate"] "2speed(3)").toOption.isSome := by
    decide +kernel
  have hunread : (Formula.parse ["rate"] "2speed(3)").toOption.isSome = false := by
    decide +kernel
  have hdiffer : Formula.parse ["speed", "rate"] "2speed(3)" ≠
      Formula.parse ["rate"] "2speed(3)" := by
    intro heq
    rw [heq, hunread] at hread
    exact nomatch hread
  exact ⟨hdiffer,
    (parse_declaring_more ["rate"] ["speed", "rate"] "2speed(3)" (by decide)).1.resolve_left
      hdiffer,
    (parse_declaring_more ["rate"] ["sin", "rate"] "rate(2)sin(3)" (by decide)).2 (by decide)⟩

end FormulaGrading
