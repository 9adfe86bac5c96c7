import FormulaGrading.Proofs.Sampling.Drawing
import FormulaGrading.Proofs.Sampling.Trials
import Mathlib.Data.List.Forall2

/-!
Variables with one value only. Drawing it uses up none of the stream, so that all other draws
are made at the same places as without such a variable, wherever it is listed. What remains to
be said is that what is bound later neither needs nor changes what is bound already.
-/

namespace FormulaGrading.Sampling

/-- The one number of an interval is drawn without moving on in the stream. -/
theorem Interval.draw?_of_single {i : Interval} (h : i.lower == i.upper) (s : Stream) :
    i.draw? s = some (i.lower, s) :=
  if_pos h

/-- Whether a trial binds a name to a value, and every other name as the first trial does. -/
structure BindsAlso (name : String) (x : Float) (b b' : Bindings) : Prop where
  bound : b'.get? name = some x
  others : ∀ other, other ≠ name → b'.get? other = b.get? other

variable {name other : String} {x y : Float} {b b' c : Bindings} {before after vs : List Variable}
  {v : Variable} {s s' : Stream} {count : Nat} {trials : List Bindings}

theorem bindsAlso_insert (name : String) (x : Float) (b : Bindings) :
    BindsAlso name x b (b.insert name x) where
  bound := by rw [Bindings.get?_insert, if_pos rfl]
  others other hother := by rw [Bindings.get?_insert, if_neg hother]

/-- Binding another name in both trials makes no difference. -/
theorem BindsAlso.insert (h : BindsAlso name x b b') (hother : other ≠ name) (y : Float) :
    BindsAlso name x (b.insert other y) (b'.insert other y) where
  bound := by rw [Bindings.get?_insert, if_neg hother.symm, h.bound]
  others next hnext := by rw [Bindings.get?_insert, Bindings.get?_insert, h.others next hnext]

theorem bindAll?_append (before after : List Variable) (b : Bindings) (s : Stream) :
    bindAll? (before ++ after) b s =
      (bindAll? before b s).bind fun bound => bindAll? after bound.1 bound.2 := by
  induction before generalizing b s with
  | nil => rfl
  | cons v before ih =>
      rw [List.cons_append, bindAll?, bindAll?]
      cases v.interval.draw? s with
      | none => rfl
      | some drawn => exact ih ..

/-- What is bound already has no influence on what is drawn. -/
theorem BindsAlso.bindAll? (hbinds : BindsAlso name x b b')
    (hnew : name ∉ vs.map Variable.name) (h : bindAll? vs b s = some (c, s')) :
    ∃ c', Sampling.bindAll? vs b' s = some (c', s') ∧ BindsAlso name x c c' := by
  induction vs generalizing b b' s with
  | nil =>
      obtain ⟨rfl, rfl⟩ := Prod.mk.inj (Option.some.inj h)
      exact ⟨b', rfl, hbinds⟩
  | cons v vs ih =>
      rw [List.map_cons, List.mem_cons, not_or] at hnew
      rw [Sampling.bindAll?] at h ⊢
      split at h
      next => cases h
      next value s'' hdraw =>
        exact ih (hbinds.insert (Ne.symm hnew.1) value) hnew.2 h

/-- A trial with the variable ends at the same place of the stream as the one without it. -/
theorem exists_bindAll?_of_single (hsingle : v.interval.lower == v.interval.upper)
    (hnew : v.name ∉ after.map Variable.name)
    (h : bindAll? (before ++ after) ∅ s = some (b, s')) :
    ∃ b', bindAll? (before ++ v :: after) ∅ s = some (b', s') ∧
      BindsAlso v.name v.interval.lower b b' := by
  rw [bindAll?_append] at h ⊢
  obtain ⟨⟨c, t⟩, hbefore, hafter⟩ := Option.bind_eq_some_iff.1 h
  have hstep : bindAll? (v :: after) c t =
      bindAll? after (c.insert v.name v.interval.lower) t := by
    rw [bindAll?, Interval.draw?_of_single hsingle]
  rw [hbefore, Option.bind_some, hstep]
  exact (bindsAlso_insert v.name v.interval.lower c).bindAll? hnew hafter

/-- So all trials with it are drawn from where the trials without it are drawn. -/
theorem exists_trialsFrom?_of_single (hsingle : v.interval.lower == v.interval.upper)
    (hnew : v.name ∉ after.map Variable.name)
    (h : trialsFrom? (before ++ after) count s = some trials) :
    ∃ trials', trialsFrom? (before ++ v :: after) count s = some trials' ∧
      List.Forall₂ (BindsAlso v.name v.interval.lower) trials trials' := by
  induction count generalizing s trials with
  | zero =>
      obtain rfl : [] = trials := Option.some.inj h
      exact ⟨[], rfl, .nil⟩
  | succ count ih =>
      rw [trialsFrom?] at h
      split at h
      next => cases h
      next b s' hbind =>
        obtain ⟨rest, hrest, rfl⟩ := Option.map_eq_some_iff.1 h
        obtain ⟨b', hbind', hbinds⟩ := exists_bindAll?_of_single hsingle hnew hbind
        obtain ⟨rest', hrest', hrests⟩ := ih hrest
        refine ⟨b' :: rest', ?_, .cons hbinds hrests⟩
        rw [trialsFrom?, hbind']
        simp only [hrest', Option.map_some]

/-- A variable with one value and a new name can be listed anywhere. It is bound to its value
in every trial, and all other variables are bound to the values that they have without it. -/
theorem trials_with_constant (before after : List Variable) (v : Variable) (count : Nat)
    (seed : UInt64) (hdrawable : ∀ w ∈ before ++ after, w.interval.IsDrawable)
    (hnew : v.name ∉ (before ++ after).map Variable.name)
    (hsingle : v.interval.lower == v.interval.upper) :
    ∃ trials trials', trials? (before ++ after) count seed = some trials ∧
      trials? (before ++ v :: after) count seed = some trials' ∧ trials.length = count ∧
      List.Forall₂ (BindsAlso v.name v.interval.lower) trials trials' := by
  have hsome : (trials? (before ++ after) count seed).isSome :=
    isSome_trials?_iff.2 (.inr hdrawable)
  obtain ⟨trials, htrials⟩ := Option.isSome_iff_exists.1 hsome
  rw [List.map_append, List.mem_append, not_or] at hnew
  obtain ⟨trials', htrials', hbinds⟩ := exists_trialsFrom?_of_single hsingle hnew.2 htrials
  exact ⟨trials, trials', htrials, htrials', length_trials? htrials, hbinds⟩

/-- Between two variables, one that is zero whatever the sign. Its value is the lower bound. -/
theorem trials_with_zero :
    ∃ trials trials', trials? [⟨"x", .usual⟩, ⟨"t", ⟨1.0, 2.0⟩⟩] 3 7 = some trials ∧
      trials? [⟨"x", .usual⟩, ⟨"k", ⟨-0.0, 0.0⟩⟩, ⟨"t", ⟨1.0, 2.0⟩⟩] 3 7 = some trials' ∧
      trials.length = 3 ∧ List.Forall₂ (BindsAlso "k" (-0.0)) trials trials' :=
  trials_with_constant [⟨"x", .usual⟩] [⟨"t", ⟨1.0, 2.0⟩⟩] ⟨"k", ⟨-0.0, 0.0⟩⟩ 3 7
    (by decide +kernel) (by decide +kernel) (by decide +kernel)

end FormulaGrading.Sampling
