import FormulaGrading.Sampling.Trial
import Mathlib.Logic.Basic

/-!
What is in the trials. Each binds the sampled variables and nothing else, to values that were
drawn for them from one stream, and fewer trials are the first ones of more.
-/

namespace FormulaGrading.Sampling

/-! ### Places in a stream -/

namespace Stream

/-- What is left of a stream behind some numbers. -/
def after (s : Stream) : Nat → Stream
  | 0 => s
  | passed + 1 => (s.after passed).next.2

theorem after_add (s : Stream) (m n : Nat) : s.after (m + n) = (s.after m).after n := by
  induction n with
  | zero => rfl
  | succ n ih => rw [← Nat.add_assoc, after, ih, after]

/-- Whether the second stream is what is left of the first one behind some numbers. -/
def LeadsTo (s t : Stream) : Prop :=
  ∃ passed, t = s.after passed

theorem LeadsTo.refl (s : Stream) : s.LeadsTo s :=
  ⟨0, rfl⟩

theorem LeadsTo.trans {s t u : Stream} (h : s.LeadsTo t) (h' : t.LeadsTo u) : s.LeadsTo u := by
  obtain ⟨m, rfl⟩ := h
  obtain ⟨n, rfl⟩ := h'
  exact ⟨m + n, (after_add s m n).symm⟩

end Stream

namespace Interval

variable {i : Interval} {scale : Float}

theorem leadsTo_drawScaled (s : Stream) : s.LeadsTo (i.drawScaled scale s).2 :=
  ⟨1, rfl⟩

theorem leadsTo_redraw (times : Nat) (drawn : Float × Stream) :
    drawn.2.LeadsTo (i.redraw scale times drawn).2 := by
  induction times generalizing drawn with
  | zero => exact .refl _
  | succ times ih =>
      rw [redraw]
      split
      · exact .refl _
      · exact (leadsTo_drawScaled drawn.2).trans (ih _)

/-- Drawing goes forward in the stream. -/
theorem leadsTo_of_draw? {s s' : Stream} {x : Float} (h : i.draw? s = some (x, s')) :
    s.LeadsTo s' := by
  rw [draw?] at h
  split at h
  next =>
    obtain ⟨-, rfl⟩ := Prod.mk.inj (Option.some.inj h)
    exact .refl _
  next =>
    obtain ⟨scale, -, hdrawn⟩ := Option.map_eq_some_iff.1 h
    have hleft : (i.redraw scale (drawLimit - 1) (i.drawScaled scale s)).2 = s' :=
      congrArg Prod.snd hdrawn
    rw [← hleft]
    exact (leadsTo_drawScaled s).trans (leadsTo_redraw _ _)

end Interval

/-! ### Trials -/

variable {vs : List Variable} {s : Stream} {count : Nat} {trials : List Bindings}

theorem leadsTo_of_bindAll? {b b' : Bindings} {s' : Stream}
    (h : bindAll? vs b s = some (b', s')) : s.LeadsTo s' := by
  induction vs generalizing b s with
  | nil =>
      obtain ⟨-, rfl⟩ := Prod.mk.inj (Option.some.inj h)
      exact .refl _
  | cons v rest ih =>
      rw [bindAll?] at h
      split at h
      next => exact nomatch h
      next hdraw => exact (Interval.leadsTo_of_draw? hdraw).trans (ih h)

theorem length_trialsFrom? (h : trialsFrom? vs count s = some trials) :
    trials.length = count := by
  induction count generalizing s trials with
  | zero =>
      obtain rfl : [] = trials := Option.some.inj h
      rfl
  | succ count ih =>
      rw [trialsFrom?] at h
      split at h
      next => exact nomatch h
      next b s' _ =>
        obtain ⟨rest, hrest, rfl⟩ := Option.map_eq_some_iff.1 h
        rw [List.length_cons, ih hrest]

/-- There are as many trials as were asked for. -/
theorem length_trials? {seed : UInt64} (h : trials? vs count seed = some trials) :
    trials.length = count :=
  length_trialsFrom? h

/-- Drawing values adds the variables to what is bound already. -/
theorem isSome_get?_of_bindAll? {b b' : Bindings} {s' : Stream}
    (h : bindAll? vs b s = some (b', s')) (name : String) :
    (b'.get? name).isSome ↔ (b.get? name).isSome ∨ name ∈ vs.map Variable.name := by
  induction vs generalizing b s with
  | nil =>
      obtain ⟨rfl, -⟩ := Prod.mk.inj (Option.some.inj h)
      simp
  | cons v rest ih =>
      rw [bindAll?] at h
      split at h
      next => exact nomatch h
      next value s'' _ =>
        rw [ih h, Bindings.get?_insert, List.map_cons, List.mem_cons]
        by_cases hname : name = v.name
        · simp [hname]
        · simp [hname]

/-- Every trial was bound on its own, further on in the stream. -/
theorem exists_bindAll?_of_trialsFrom? (h : trialsFrom? vs count s = some trials) :
    ∀ b ∈ trials, ∃ t t', s.LeadsTo t ∧ bindAll? vs ∅ t = some (b, t') := by
  induction count generalizing s trials with
  | zero =>
      obtain rfl : [] = trials := Option.some.inj h
      exact nofun
  | succ count ih =>
      rw [trialsFrom?] at h
      split at h
      next => exact nomatch h
      next b s' hbind =>
        obtain ⟨rest, hrest, rfl⟩ := Option.map_eq_some_iff.1 h
        refine List.forall_mem_cons.2 ⟨⟨s, s', .refl s, hbind⟩, fun b' hb' => ?_⟩
        obtain ⟨t, t', hreached, hbind'⟩ := ih hrest b' hb'
        exact ⟨t, t', (leadsTo_of_bindAll? hbind).trans hreached, hbind'⟩

/-- Every trial binds just the sampled variables. -/
theorem isSome_get?_of_trials? {seed : UInt64} (h : trials? vs count seed = some trials)
    {b : Bindings} (hb : b ∈ trials) (name : String) :
    (b.get? name).isSome ↔ name ∈ vs.map Variable.name := by
  obtain ⟨t, t', -, hbind⟩ := exists_bindAll?_of_trialsFrom? h b hb
  simp [isSome_get?_of_bindAll? hbind name]

/-- The variable listed last under a name. -/
def lastNamed? (vs : List Variable) (name : String) : Option Variable :=
  vs.reverse.find? fun v => v.name = name

theorem lastNamed?_cons (v : Variable) (vs : List Variable) (name : String) :
    lastNamed? (v :: vs) name =
      (lastNamed? vs name).or (if v.name = name then some v else none) := by
  rw [lastNamed?, List.reverse_cons, List.find?_append, lastNamed?, List.find?_singleton]
  simp only [decide_eq_true_eq]

theorem lastNamed?_eq_some {name : String} {v : Variable} (h : lastNamed? vs name = some v) :
    v ∈ vs ∧ v.name = name :=
  ⟨List.mem_reverse.1 (List.mem_of_find?_eq_some h), by simpa using List.find?_some h⟩

/-- A value that is bound was drawn for the variable listed last under that name, or it was
bound before and there is no such variable. -/
theorem exists_draw_of_bindAll? {b b' : Bindings} {s' : Stream}
    (h : bindAll? vs b s = some (b', s')) {name : String} {x : Float}
    (hx : b'.get? name = some x) :
    (∃ v, lastNamed? vs name = some v ∧
        ∃ t t', s.LeadsTo t ∧ v.interval.draw? t = some (x, t')) ∨
      (lastNamed? vs name = none ∧ b.get? name = some x) := by
  induction vs generalizing b s with
  | nil =>
      obtain ⟨rfl, -⟩ := Prod.mk.inj (Option.some.inj h)
      exact .inr ⟨rfl, hx⟩
  | cons v rest ih =>
      rw [bindAll?] at h
      split at h
      next => exact nomatch h
      next value s'' hdraw =>
        rw [lastNamed?_cons]
        obtain ⟨w, hw, t, t', hreached, hdrawn⟩ | ⟨hrest, hbefore⟩ := ih h
        · rw [hw, Option.some_or]
          exact .inl ⟨w, rfl, t, t', (Interval.leadsTo_of_draw? hdraw).trans hreached, hdrawn⟩
        · rw [hrest, Option.none_or]
          rw [Bindings.get?_insert] at hbefore
          split at hbefore
          next hname =>
            obtain rfl := Option.some.inj hbefore
            exact .inl ⟨v, if_pos hname.symm, s, s'', .refl s, hdraw⟩
          next hname => exact .inr ⟨if_neg (Ne.symm hname), hbefore⟩

/-- Every value in a trial was drawn from the stream of the seed, for the variable listed last
under its name. -/
theorem exists_draw_of_trials? {seed : UInt64} (h : trials? vs count seed = some trials)
    {b : Bindings} (hb : b ∈ trials) {name : String} {x : Float} (hx : b.get? name = some x) :
    ∃ v, lastNamed? vs name = some v ∧
      ∃ t t', (Stream.ofSeed seed).LeadsTo t ∧ v.interval.draw? t = some (x, t') := by
  obtain ⟨s, s', hreached, hbind⟩ := exists_bindAll?_of_trialsFrom? h b hb
  obtain ⟨v, hv, t, t', hreached', hdrawn⟩ :=
    (exists_draw_of_bindAll? hbind hx).resolve_right (by simp)
  exact ⟨v, hv, t, t', hreached.trans hreached', hdrawn⟩

theorem trialsFrom?_take {fewer : Nat} (h : trialsFrom? vs count s = some trials)
    (hfewer : fewer ≤ count) : trialsFrom? vs fewer s = some (trials.take fewer) := by
  induction count generalizing s trials fewer with
  | zero =>
      obtain rfl := Nat.le_zero.1 hfewer
      rfl
  | succ count ih =>
      cases fewer with
      | zero => rfl
      | succ fewer =>
          rw [trialsFrom?] at h ⊢
          split at h
          next => exact nomatch h
          next b s' hbind =>
            obtain ⟨rest, hrest, rfl⟩ := Option.map_eq_some_iff.1 h
            simp [ih hrest (Nat.le_of_succ_le_succ hfewer)]

/-- However many random numbers a trial uses up, those before it do not depend on how many
come after it. -/
theorem trials?_take {fewer : Nat} {seed : UInt64} (h : trials? vs count seed = some trials)
    (hfewer : fewer ≤ count) : trials? vs fewer seed = some (trials.take fewer) :=
  trialsFrom?_take h hfewer

end FormulaGrading.Sampling
