import FormulaGrading.Proofs.Grading.Results
import FormulaGrading.Proofs.Parsing.Whole
import FormulaGrading.Proofs.Session.Commands

/-!
Sessions and their seeds. After a line that sets the seed a session goes on in the same way
whatever came before it. It goes on unless it has broken off, and it breaks off exactly where
the value of an empty formula is asked for.
-/

namespace FormulaGrading.Session

open Grading Text

variable {line text : String} {number : UInt64} {x : Exercise}

namespace Transcript

variable {s t u : Transcript}

theorem append_def : s ++ t = if s.brokenOff then s else ⟨s.output ++ t.output, t.brokenOff⟩ :=
  rfl

@[simp] theorem empty_append : ∅ ++ t = t :=
  rfl

@[simp] theorem brokenOff_empty : (∅ : Transcript).brokenOff = false :=
  rfl

@[simp] theorem brokenOff_result (line : String) : (result line).brokenOff = false :=
  rfl

@[simp] theorem brokenOff_usageError (e : UsageError) : (usageError e).brokenOff = false :=
  rfl

theorem append_assoc : s ++ t ++ u = s ++ (t ++ u) := by
  simp only [append_def]
  grind

@[simp] theorem brokenOff_append : (s ++ t).brokenOff = (s.brokenOff || t.brokenOff) := by
  rw [append_def]
  split <;> simp_all

theorem output_append (h : s.brokenOff = false) : (s ++ t).output = s.output ++ t.output := by
  simp [append_def, h]

@[simp] theorem brokenOff_concat (parts : List Transcript) :
    (concat parts).brokenOff = parts.any brokenOff := by
  induction parts with
  | nil => rfl
  | cons part parts ih => rw [concat, List.foldr_cons, brokenOff_append, List.any_cons, ← ih]; rfl

/-- A report cannot be drawn if it has places in an empty text. -/
theorem brokenOff_report {f : Fault} {name source : String} :
    (report (f.lines? name source)).brokenOff = true ↔ f.spans ≠ [] ∧ source = "" := by
  unfold Fault.lines?
  simp only
  split
  next h => simp_all [report]
  next h =>
    split
    next h' => simp_all [report]
    next h' => simp_all [report]

end Transcript

/-- Whether a line asks for the value of an empty formula. -/
def AsksForNothing (line : String) : Prop :=
  ∃ text b, Command.ofLine line = .evaluate text ∧ readEvaluation text = .ok ("", b)

theorem evaluation_empty (b : Bindings) :
    evaluation "" b = .error ⟨[⟨0, 0⟩], .missingFormula⟩ := by
  rw [evaluation, parse_of_no_tokens b.names rfl]

/-- The fault of an empty formula has a place, and there is no text for it. -/
theorem brokenOff_evaluate : (evaluate text).brokenOff = true ↔
    ∃ b, readEvaluation text = .ok ("", b) := by
  unfold evaluate
  split
  next heq => simp [heq]
  next formula b heq =>
    have hempty : (∃ b, readEvaluation text = .ok ("", b)) ↔ formula = "" := by
      simp [heq]
    rw [hempty]
    split
    next hvalue =>
      refine iff_of_false nofun fun hformula => ?_
      rw [hformula, evaluation_empty] at hvalue
      exact nomatch hvalue
    next fault hfault =>
      rw [Transcript.brokenOff_report, and_iff_right_iff_imp]
      rintro rfl
      rw [evaluation_empty] at hfault
      simp [← Except.error.inj hfault]

/-- A response that is no blank line is answered if there are trials to draw. -/
theorem brokenOff_respond {response : String} (hsome : response ≠ "")
    (hdrawable : ∀ v ∈ x.policy.declared, v.interval.IsDrawable) :
    (respond x response).brokenOff = false := by
  unfold respond
  split
  next hverdict =>
    obtain ⟨-, -, -, v, hv, hnot⟩ := Policy.verdict?_eq_none_iff.1 hverdict
    exact absurd (hdrawable v hv) hnot
  next v =>
    have hreport : ∀ fault : Fault,
        (Transcript.report (fault.lines? inputName response)).brokenOff = false :=
      fun fault => Bool.eq_false_iff.2 fun h => hsome (Transcript.brokenOff_report.1 h).2
    simp only [Transcript.brokenOff_append, Bool.or_eq_false_iff]
    refine ⟨⟨Transcript.brokenOff_result _, ?_⟩, ?_⟩
    · split <;> simp
    · split
      next => exact Transcript.brokenOff_result _
      next => exact hreport _

/-- A line breaks the session off exactly if it asks for the value of an empty formula. -/
theorem brokenOff_answerLine (hdrawable : ∀ v ∈ x.policy.declared, v.interval.IsDrawable) :
    (answerLine x line).1.brokenOff = true ↔ AsksForNothing line := by
  unfold answerLine AsksForNothing
  split
  next hwords =>
    cases hcommand : Command.ofLine line with
    | evaluate text => simpa [Command.run] using brokenOff_evaluate
    | seed text =>
        refine iff_of_false ?_ (by simp)
        rw [Command.run]
        split <;> simp
    | answers => simp [Command.run, listAnswers]
    | respond response =>
        have hsome : response ≠ "" := by
          rintro rfl
          simp [holdsWords, ← eq_trim_of_ofLine hcommand] at hwords
        simp [Command.run, brokenOff_respond hsome hdrawable]
  next hblank =>
    have htrimmed := holdsWords_eq_false_iff.1 (by simpa using hblank)
    have hrespond : Command.ofLine line = .respond (trim line) := by
      simp [Command.ofLine, commandWord, htrimmed, splitAtFirst?]
    simp [hrespond]

/-- The exercise after some lines. -/
def afterLines (x : Exercise) (lines : List String) : Exercise :=
  lines.foldl (fun x line => (answerLine x line).2) x

/-- Whether a seed is in force after some lines: it is the last one that was set, or the
initial one if none was. -/
inductive InForce (initial : UInt64) : List String → UInt64 → Prop where
  | initial {lines : List String} (h : ∀ line ∈ lines, ∀ number, ¬SetsSeed line number) :
      InForce initial lines initial
  | set {before after : List String} {line : String} {number : UInt64}
      (hset : SetsSeed line number) (h : ∀ line ∈ after, ∀ number, ¬SetsSeed line number) :
      InForce initial (before ++ line :: after) number

/-- Lines in front of those that set the seed make no difference. -/
theorem InForce.cons {initial other : UInt64} {lines : List String}
    (h : InForce other lines number) (hline : SetsSeed line other ∨
      initial = other ∧ ∀ number, ¬SetsSeed line number) :
    InForce initial (line :: lines) number := by
  cases h with
  | initial hlines =>
      obtain hline | ⟨rfl, hline⟩ := hline
      · exact @InForce.set initial [] lines line _ hline hlines
      · exact .initial (List.forall_mem_cons.2 ⟨hline, hlines⟩)
  | @set before after line' _ hset hafter =>
      exact @InForce.set initial (line :: before) after line' _ hset hafter

theorem afterLines_cons (x : Exercise) (line : String) (rest : List String) :
    afterLines x (line :: rest) = afterLines (answerLine x line).2 rest := by
  rw [afterLines, List.foldl_cons, afterLines]

theorem answerLines_cons (x : Exercise) (line : String) (rest : List String) :
    answerLines x (line :: rest) =
      (answerLine x line).1 ++ answerLines (answerLine x line).2 rest := by
  rw [answerLines]

/-- Whether lines have turned an exercise into another one: all but the seed is as it was, and
the seed is the one in force. -/
structure TurnInto (lines : List String) (x y : Exercise) : Prop where
  answers_eq : y.answers = x.answers
  policy_eq : y.policy = x.policy
  inForce : InForce x.seed lines y.seed

/-- Lines change nothing but the seed, which is the last one that they set. -/
theorem turnInto_afterLines (x : Exercise) (lines : List String) :
    TurnInto lines x (afterLines x lines) := by
  induction lines generalizing x with
  | nil => exact ⟨rfl, rfl, .initial nofun⟩
  | cons line rest ih =>
      obtain ⟨next, hnext, hline⟩ := exists_answerLine_eq x line
      obtain ⟨hanswers, hpolicy, hforce⟩ := ih (x.reseed next)
      rw [afterLines_cons, hnext]
      exact ⟨hanswers, hpolicy, hforce.cons hline⟩

/-- Once the seed is set again, no lines have made a difference. -/
theorem reseed_afterLines (x : Exercise) (lines : List String) (number : UInt64) :
    (afterLines x lines).reseed number = x.reseed number := by
  obtain ⟨hanswers, hpolicy, -⟩ := turnInto_afterLines x lines
  rw [Exercise.reseed, Exercise.reseed, hanswers, hpolicy]

/-- What came before a line that sets the seed leaves no trace. -/
theorem afterLines_concat (h : SetsSeed line number) (history : List String) :
    afterLines x (history ++ [line]) = x.reseed number := by
  rw [afterLines, List.foldl_append, List.foldl_cons, List.foldl_nil, ← afterLines,
    answerLine_of_setsSeed h, reseed_afterLines]

/-- A session goes on from where it has come to. -/
theorem answerLines_append (x : Exercise) (before lines : List String) :
    answerLines x (before ++ lines) =
      answerLines x before ++ answerLines (afterLines x before) lines := by
  induction before generalizing x with
  | nil => rfl
  | cons line before ih =>
      rw [List.cons_append, answerLines_cons, ih, ← Transcript.append_assoc, ← answerLines_cons,
        afterLines_cons]

/-- A session breaks off exactly if a line asks for the value of an empty formula. -/
theorem brokenOff_answerLines (hdrawable : ∀ v ∈ x.policy.declared, v.interval.IsDrawable)
    (lines : List String) :
    (answerLines x lines).brokenOff = true ↔ ∃ line ∈ lines, AsksForNothing line := by
  induction lines generalizing x with
  | nil => exact iff_of_false nofun (by simp)
  | cons line rest ih =>
      obtain ⟨number, hnext, -⟩ := exists_answerLine_eq x line
      have hrest := ih (x := x.reseed number) hdrawable
      rw [answerLines_cons, Transcript.brokenOff_append, Bool.or_eq_true,
        brokenOff_answerLine hdrawable, hnext, hrest, List.exists_mem_cons_iff]

/-- An exercise is set with the usual policy, and in the same way whatever the seed. -/
theorem of_setExercise {seed : UInt64} {args : List String} {start : Transcript}
    (h : setExercise seed args = (start, some x)) :
    start.brokenOff = false ∧ x.policy = {} ∧
      ∀ seed', setExercise seed' args = (start, some (x.reseed seed')) := by
  unfold setExercise at h
  split at h
  next => simp at h
  next => simp at h
  next answers hsome hread =>
    obtain ⟨a, rest, rfl⟩ := List.exists_cons_of_ne_nil hsome
    simp only at h
    split at h
    next => simp at h
    next problems hreview =>
      obtain ⟨rfl, hset⟩ := Prod.mk.inj h
      split at hset
      next hcond =>
        obtain rfl := Option.some.inj hset
        refine ⟨by simpa using (Bool.and_eq_true_iff.1 hcond).2, rfl, fun seed' => ?_⟩
        simp only [setExercise, hread, hreview]
        rw [if_pos hcond]
        rfl
      next => exact nomatch hset

/-- Behind a line that sets the seed a session puts out the same whatever the initial seed and
the lines before it. No line changes the answers or the policy, and the seed in force is the
last one that was set. A session comes to an end early only where a line asks for the value of
an empty formula. -/
theorem same_answers_after_seed {initial : UInt64} {args : List String} {start : Transcript}
    {x : Exercise} (hset : setExercise initial args = (start, some x)) {line : String}
    {number : UInt64} (hline : SetsSeed line number) (rest : List String) :
    ∃ common : Transcript, ∀ (seed : UInt64) (history : List String),
      setExercise seed args = (start, some (x.reseed seed)) ∧
      TurnInto history (x.reseed seed) (afterLines (x.reseed seed) history) ∧
      answerLines (afterLines (x.reseed seed) (history ++ [line])) rest = common ∧
      answerLines (x.reseed seed) (history ++ line :: rest) =
        answerLines (x.reseed seed) history ++ common ∧
      ((∀ earlier ∈ history, ¬AsksForNothing earlier) →
        (run seed args (history ++ line :: rest)).1 =
          start.output ++ (answerLines (x.reseed seed) history).output ++ common.output) := by
  obtain ⟨hstart, hpolicy, hreset⟩ := of_setExercise hset
  refine ⟨answerLines (x.reseed number) rest, fun seed history => ?_⟩
  have hnext : afterLines (x.reseed seed) (history ++ [line]) = x.reseed number :=
    afterLines_concat hline history
  have hwhole : answerLines (x.reseed seed) (history ++ line :: rest) =
      answerLines (x.reseed seed) history ++ answerLines (x.reseed number) rest := by
    rw [answerLines_append, answerLines_cons, answerLine_of_setsSeed hline, reseed_afterLines,
      Transcript.empty_append]
    rfl
  refine ⟨hreset seed, turnInto_afterLines _ history, by rw [hnext], hwhole, fun hnone => ?_⟩
  have hdrawable : ∀ v ∈ (x.reseed seed).policy.declared, v.interval.IsDrawable := by
    rw [show (x.reseed seed).policy = {} from hpolicy]
    exact nofun
  have hgoes : (answerLines (x.reseed seed) history).brokenOff = false := by
    rw [← Bool.not_eq_true, brokenOff_answerLines hdrawable]
    rintro ⟨earlier, hmem, hasks⟩
    exact hnone earlier hmem hasks
  simp only [run, hreset seed, hwhole]
  rw [Transcript.output_append hstart, Transcript.output_append hgoes, List.append_assoc]

/-- An answer that is put out in the same way behind another response and at the beginning. -/
theorem same_answers_after_seed_forty_two :
    ∃ (x : Exercise) (common : Transcript),
      setExercise 7 ["2x"] = (∅, some x) ∧ SetsSeed ":seed 42" 42 ∧
      answerLines (x.reseed 2) [":seed 42", "x + x"] = common ∧
      (run 1 ["2x"] ["x", ":seed 42", "x + x"]).1 =
        (answerLines (x.reseed 1) ["x"]).output ++ common.output := by
  have hset : setExercise 7 ["2x"] = (∅, some ⟨[⟨1, "2x", 1.0, ""⟩], {}, 7⟩) := by
    decide +kernel
  have hline : SetsSeed ":seed 42" 42 :=
    ⟨[], [' '], ['4', '2'], [], rfl, nofun, nofun, List.forall_mem_singleton.2 rfl, nofun,
      [], ['4', '2'], rfl, .inl rfl, nofun, List.all_eq_true.1 rfl, by decide⟩
  have hresponse : ¬AsksForNothing "x" := by
    rintro ⟨text, b, hcommand, -⟩
    rw [show Command.ofLine "x" = .respond "x" by decide +kernel] at hcommand
    exact nomatch hcommand
  obtain ⟨common, h⟩ := same_answers_after_seed hset hline ["x + x"]
  obtain ⟨-, -, -, hbegins, -⟩ := h 2 []
  obtain ⟨-, -, -, -, hgoes⟩ := h 1 ["x"]
  exact ⟨_, common, hset, hline, hbegins, hgoes (by simpa using hresponse)⟩

end FormulaGrading.Session
