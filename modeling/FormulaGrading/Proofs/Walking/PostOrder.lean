import FormulaGrading.Formula.Walk
import Mathlib.Data.List.Basic
import Mathlib.Logic.Function.Iterate

/-!
The walk place by place. Equal subtrees lie at different places, so what the machine yields
is followed by address. It stops, and by then it has yielded every place of the formula
once: each after all that lies below it, left operands before right ones, the root last.
-/

namespace FormulaGrading

namespace Formula

/-- The operand at a branch. The only operand of a sign or a call is its last one. -/
def operand? : Formula → Branch → Option Formula
  | .signed _ operand _, .right => some operand
  | .binary lhs .., .left => some lhs
  | .binary _ _ rhs _, .right => some rhs
  | .call _ argument .., .right => some argument
  | _, _ => none

/-- The node at an address below a formula. -/
def at? (e : Formula) : List Branch → Option Formula
  | [] => some e
  | branch :: address => (e.at? address).bind (operand? · branch)

/-- The places of a formula that lies at an address, in the order of the recursion. -/
def places (address : List Branch) : Formula → List Place
  | e@(.number ..) => [⟨address, e⟩]
  | e@(.symbol _) => [⟨address, e⟩]
  | e@(.signed _ operand _) => operand.places (.right :: address) ++ [⟨address, e⟩]
  | e@(.binary lhs _ rhs _) =>
      lhs.places (.left :: address) ++ rhs.places (.right :: address) ++ [⟨address, e⟩]
  | e@(.call _ argument ..) => argument.places (.right :: address) ++ [⟨address, e⟩]

@[simp] theorem map_node_places (address : List Branch) (e : Formula) :
    (e.places address).map Place.node = e.nodes := by
  induction e generalizing address <;> simp_all [places, nodes]

theorem getLast?_places (address : List Branch) (e : Formula) :
    (e.places address).getLast? = some ⟨address, e⟩ := by
  cases e <;> simp [places]

/-- What lies below a formula lies below one of its operands. -/
theorem at?_concat (e : Formula) (path : List Branch) (branch : Branch) :
    e.at? (path ++ [branch]) = (e.operand? branch).bind (·.at? path) := by
  induction path with
  | nil => simp [at?]
  | cons last path ih =>
      rw [List.cons_append, at?, ih]
      cases e.operand? branch <;> rfl

theorem exists_at?_iff {e node : Formula} {address below : List Branch} :
    (∃ path, below = path ++ address ∧ e.at? path = some node) ↔
      (below = address ∧ node = e) ∨
        ∃ branch operand, e.operand? branch = some operand ∧
          ∃ path, below = path ++ branch :: address ∧ operand.at? path = some node := by
  constructor
  · rintro ⟨path, rfl, hnode⟩
    obtain rfl | ⟨path, branch, rfl⟩ := List.eq_nil_or_concat' path
    · exact .inl ⟨rfl, (Option.some.inj hnode).symm⟩
    · rw [at?_concat] at hnode
      obtain ⟨operand, hoperand, hnode⟩ := Option.bind_eq_some_iff.1 hnode
      exact .inr ⟨branch, operand, hoperand, path, by simp, hnode⟩
  · rintro (⟨rfl, rfl⟩ | ⟨branch, operand, hoperand, path, rfl, hnode⟩)
    · exact ⟨[], rfl, rfl⟩
    · exact ⟨path ++ [branch], by simp, by rw [at?_concat, hoperand]; exact hnode⟩

theorem mem_places_iff {e : Formula} {address : List Branch} {p : Place} :
    p ∈ e.places address ↔ (p.address = address ∧ p.node = e) ∨
      ∃ branch operand, e.operand? branch = some operand ∧
        p ∈ operand.places (branch :: address) := by
  obtain ⟨below, node⟩ := p
  constructor
  · cases e <;> simp only [places, List.mem_append, List.mem_singleton, Place.mk.injEq] <;>
      grind [operand?]
  · rintro (⟨rfl, rfl⟩ | ⟨branch, operand, hoperand, hmem⟩)
    · cases node <;> simp [places]
    · cases e <;> cases branch <;> simp_all [places, operand?]

theorem size_lt_of_operand? {e operand : Formula} {branch : Branch}
    (h : e.operand? branch = some operand) : operand.size < e.size := by
  cases e <;> cases branch <;> simp only [operand?, Option.some.injEq, reduceCtorEq] at h <;>
    subst h <;> simp only [size] <;> omega

/-- The places of a formula are the nodes at its addresses. -/
theorem mem_places {e : Formula} {address : List Branch} {p : Place} :
    p ∈ e.places address ↔
      ∃ path, p.address = path ++ address ∧ e.at? path = some p.node := by
  induction hsize : e.size using Nat.strongRecOn generalizing e address with
  | ind size ih =>
      rw [exists_at?_iff, mem_places_iff]
      refine or_congr .rfl (exists₂_congr fun branch operand => and_congr_right fun h => ?_)
      exact ih operand.size (hsize ▸ size_lt_of_operand? h) rfl

end Formula

/-- Whether an address comes before another in post-order: it lies below it, or the two part
to the left and to the right. -/
inductive Before (first second : List Branch) : Prop where
  | below (hsuffix : second <:+ first) (hne : second ≠ first)
  | apart (common : List Branch) (hleft : .left :: common <:+ first)
      (hright : .right :: common <:+ second)

/-- No address goes both ways from the same place. -/
theorem not_right_suffix {address common : List Branch} (hleft : .left :: common <:+ address) :
    ¬.right :: common <:+ address := by
  intro hright
  have heq := (List.suffix_of_suffix_length_le hleft hright (Nat.le_refl _)).eq_of_length rfl
  simp at heq

/-- An address that goes both ways goes the one way below the other. -/
theorem suffix_of_both {address common common' : List Branch}
    (hleft : .left :: common <:+ address) (hright : .right :: common' <:+ address) :
    .left :: common <:+ common' ∨ .right :: common' <:+ common := by
  obtain h | h := List.suffix_or_suffix_of_suffix hleft hright
  · exact .inl ((List.suffix_cons_iff.1 h).resolve_left (by simp))
  · exact .inr ((List.suffix_cons_iff.1 h).resolve_left (by simp))

theorem Before.asymm {first second : List Branch} (h : Before first second) :
    ¬Before second first := by
  intro h'
  cases h with
  | below hsuffix hne =>
      cases h' with
      | below hsuffix' => exact hne (hsuffix.eq_of_length_le hsuffix'.length_le)
      | apart common hleft hright => exact not_right_suffix (hleft.trans hsuffix) hright
  | apart common hleft hright =>
      cases h' with
      | below hsuffix => exact not_right_suffix (hleft.trans hsuffix) hright
      | apart common' hleft' hright' =>
          -- If both addresses part twice, then they part where they already did.
          obtain h | h := suffix_of_both hleft hright' <;>
            obtain h' | h' := suffix_of_both hleft' hright
          · exact Nat.lt_asymm h.length_le h'.length_le
          · exact not_right_suffix h h'
          · exact not_right_suffix h' h
          · exact Nat.lt_asymm h.length_le h'.length_le

theorem Before.ne {first second : List Branch} (h : Before first second) : first ≠ second := by
  rintro rfl
  exact h.asymm h

namespace Formula

theorem suffix_of_mem_places {e : Formula} {address : List Branch} {p : Place}
    (h : p ∈ e.places address) : address <:+ p.address := by
  obtain ⟨path, hpath, -⟩ := mem_places.1 h
  exact ⟨path, hpath.symm⟩

theorem before_of_mem_places {e : Formula} {branch : Branch} {address : List Branch} {p : Place}
    (h : p ∈ e.places (branch :: address)) : Before p.address address := by
  have hsuffix := suffix_of_mem_places h
  refine .below ((List.suffix_cons _ _).trans hsuffix) fun heq => ?_
  have hlength := hsuffix.length_le
  rw [← heq, List.length_cons] at hlength
  omega

/-- The recursion lists places in post-order. -/
theorem pairwise_before_places (e : Formula) (address : List Branch) :
    (e.places address).Pairwise fun p q => Before p.address q.address := by
  induction e generalizing address with
  | number | symbol => exact List.pairwise_singleton ..
  | signed mark operand span ih =>
      refine List.pairwise_append.2 ⟨ih _, List.pairwise_singleton .., fun p hp q hq => ?_⟩
      obtain rfl := List.mem_singleton.1 hq
      exact before_of_mem_places hp
  | binary lhs op rhs span ihl ihr =>
      refine List.pairwise_append.2 ⟨List.pairwise_append.2 ⟨ihl _, ihr _, fun p hp q hq => ?_⟩,
        List.pairwise_singleton .., fun p hp q hq => ?_⟩
      · exact .apart address (suffix_of_mem_places hp) (suffix_of_mem_places hq)
      · obtain rfl := List.mem_singleton.1 hq
        exact (List.mem_append.1 hp).elim before_of_mem_places before_of_mem_places
  | call function argument brackets span ih =>
      refine List.pairwise_append.2 ⟨ih _, List.pairwise_singleton .., fun p hp q hq => ?_⟩
      obtain rfl := List.mem_singleton.1 hq
      exact before_of_mem_places hp

end Formula

/-- Whether places are those of a formula in post-order. -/
structure IsPostOrder (e : Formula) (places : List Place) : Prop where
  nodup : (places.map Place.address).Nodup
  mem_iff (p : Place) : p ∈ places ↔ e.at? p.address = some p.node
  before_iff (i j : Nat) (hi : i < places.length) (hj : j < places.length) :
    Before places[i].address places[j].address ↔ i < j
  getLast?_eq : places.getLast? = some ⟨[], e⟩

/-- The places are in the order of a list exactly if every one comes before the later ones. -/
theorem before_iff_of_pairwise {places : List Place}
    (h : places.Pairwise fun p q => Before p.address q.address) (i j : Nat)
    (hi : i < places.length) (hj : j < places.length) :
    Before places[i].address places[j].address ↔ i < j := by
  have hget := List.pairwise_iff_getElem.1 h
  refine ⟨fun hbefore => ?_, hget i j hi hj⟩
  obtain hlt | rfl | hgt := Nat.lt_trichotomy i j
  · exact hlt
  · exact absurd rfl hbefore.ne
  · exact absurd hbefore (hget j i hj hi hgt).asymm

theorem Formula.isPostOrder_places (e : Formula) : IsPostOrder e (e.places []) where
  nodup := List.pairwise_map.2 ((e.pairwise_before_places []).imp Before.ne)
  mem_iff p := by simp [mem_places]
  before_iff := before_iff_of_pairwise (e.pairwise_before_places [])
  getLast?_eq := e.getLast?_places []

namespace Walk

/-- The walk after a step. One that is over stays as it is. -/
def next (w : Walk) : Walk :=
  match w.step with
  | none => w
  | some (_, after) => after

/-- The place that a step yields, if it yields one. -/
def yield? (w : Walk) : Option Place :=
  match w.step with
  | some (some _, _) => w.pending.head?
  | _ => none

/-- The places yielded within a number of steps. -/
def visits : Nat → Walk → List Place
  | 0, _ => []
  | steps + 1, w => w.yield?.toList ++ visits steps w.next

/-- What a number of steps yields, and where it leads. -/
structure Runs (steps : Nat) (w : Walk) (yielded : List Place) (after : Walk) : Prop where
  visits_eq : visits steps w = yielded
  iterate_eq : next^[steps] w = after

variable {steps steps' : Nat} {w w' w'' : Walk} {yielded yielded' : List Place}
  {operand : Place} {last? : Option (List Branch)} {address : List Branch}

theorem Runs.trans (h : Runs steps w yielded w') (h' : Runs steps' w' yielded' w'') :
    Runs (steps + steps') w (yielded ++ yielded') w'' := by
  obtain ⟨rfl, rfl⟩ := h
  obtain ⟨rfl, rfl⟩ := h'
  refine ⟨?_, by rw [Nat.add_comm, Function.iterate_add_apply]⟩
  induction steps generalizing w with
  | zero => simp [visits]
  | succ steps ih => rw [Nat.succ_add_eq_add_succ, Nat.add_succ, visits, ih]; simp [visits]

/-- A walk that is over yields nothing more. -/
theorem runs_done (steps : Nat) (last? : Option (List Branch)) :
    Runs steps ⟨[], last?⟩ [] ⟨[], last?⟩ := by
  induction steps with
  | zero => exact ⟨rfl, rfl⟩
  | succ steps ih =>
      have hone : Runs 1 ⟨[], last?⟩ [] ⟨[], last?⟩ := ⟨rfl, rfl⟩
      rw [Nat.add_comm]
      exact hone.trans ih

/-- A node goes off the stack once its last operand has been yielded. -/
theorem runs_up (top : Place) (rest : List Place) (last? : Option (List Branch))
    (h : ∀ operand, top.lastOperand? = some operand → last? = some operand.address) :
    Runs 1 ⟨top :: rest, last?⟩ [top] ⟨rest, some top.address⟩ := by
  have hstep : step ⟨top :: rest, last?⟩ =
      some (some top.node, ⟨rest, some top.address⟩) := by
    cases hoperand : top.lastOperand? with
    | none => simp [step, hoperand]
    | some operand => simp [step, hoperand, h operand hoperand]
  constructor <;> simp [visits, yield?, next, hstep]

/-- Before that its operands come on top of it. -/
theorem runs_down (top : Place) (rest : List Place) (h : top.lastOperand? = some operand)
    (hlast : last? ≠ some operand.address) :
    Runs 1 ⟨top :: rest, last?⟩ [] ⟨top.operands ++ top :: rest, last?⟩ := by
  have hstep : step ⟨top :: rest, last?⟩ =
      some (none, ⟨top.operands ++ top :: rest, last?⟩) := by
    simp [step, h, hlast]
  constructor <;> simp [visits, yield?, next, hstep]

/-- The number of steps that the machine spends on a formula. Nodes with operands are
looked at twice. -/
def cost : Formula → Nat
  | .number .. | .symbol _ => 1
  | .signed _ operand _ => 1 + cost operand + 1
  | .binary lhs _ rhs _ => 1 + cost lhs + cost rhs + 1
  | .call _ argument .. => 1 + cost argument + 1

theorem cost_le (e : Formula) : cost e ≤ 2 * e.size := by
  induction e <;> simp only [cost, Formula.size] <;> omega

/-- Whether no place below an address was yielded last, so that the machine still has to
go down from there. -/
def Unentered (last? : Option (List Branch)) (address : List Branch) : Prop :=
  ∀ path, path ≠ [] → last? ≠ some (path ++ address)

theorem unentered_none (address : List Branch) : Unentered none address :=
  fun _ _ => nofun

theorem Unentered.below (h : Unentered last? address) (b : Branch) :
    Unentered last? (b :: address) := by
  intro path _
  have hne := h (path ++ [b]) (by simp)
  simpa using hne

theorem Unentered.ne_cons (h : Unentered last? address) (b : Branch) :
    last? ≠ some (b :: address) :=
  h [b] (by simp)

/-- What was yielded at one operand lies below no other one. -/
theorem unentered_right : Unentered (some (.left :: address)) (.right :: address) := by
  intro path hpath heq
  have hlength := congrArg List.length (Option.some.inj heq)
  have := List.length_pos_iff.2 hpath
  simp only [List.length_cons, List.length_append] at hlength
  omega

/-- The machine yields the places of the formula on top, and goes on below it. -/
theorem runs_enter (e : Formula) (rest : List Place) (h : Unentered last? address) :
    Runs (cost e) ⟨⟨address, e⟩ :: rest, last?⟩ (e.places address) ⟨rest, some address⟩ := by
  induction e generalizing last? address rest with
  | number | symbol => exact runs_up _ _ _ nofun
  | signed mark operand span ih =>
      have hdown := runs_down ⟨address, .signed mark operand span⟩ rest rfl (h.ne_cons .right)
      have hup := runs_up ⟨address, .signed mark operand span⟩ rest (some (.right :: address))
        (by rintro _ ⟨rfl⟩; rfl)
      exact (hdown.trans (ih _ (h.below .right))).trans hup
  | binary lhs op rhs span ihl ihr =>
      have hdown := runs_down ⟨address, .binary lhs op rhs span⟩ rest rfl (h.ne_cons .right)
      have hup := runs_up ⟨address, .binary lhs op rhs span⟩ rest (some (.right :: address))
        (by rintro _ ⟨rfl⟩; rfl)
      exact ((hdown.trans (ihl _ (h.below .left))).trans (ihr _ unentered_right)).trans hup
  | call function argument brackets span ih =>
      have hdown := runs_down ⟨address, .call function argument brackets span⟩ rest rfl
        (h.ne_cons .right)
      have hup := runs_up ⟨address, .call function argument brackets span⟩ rest
        (some (.right :: address)) (by rintro _ ⟨rfl⟩; rfl)
      exact (hdown.trans (ih _ (h.below .right))).trans hup

/-- Within enough steps the machine yields all places and is done. -/
theorem runs_whole (e : Formula) {steps : Nat} (hsteps : 2 * e.size ≤ steps) :
    Runs steps (enter e) (e.places []) ⟨[], some []⟩ := by
  have hwhole := (runs_enter e [] (unentered_none [])).trans (runs_done (steps - cost e) _)
  rwa [List.append_nil, Nat.add_sub_of_le (Nat.le_trans (cost_le e) hsteps)] at hwhole

/-- What is yielded is the node on top of the stack. -/
theorem head?_of_step {node : Formula} {after : Walk} (h : w.step = some (some node, after)) :
    w.pending.head?.map Place.node = some node := by
  unfold step at h
  split at h
  next => exact nomatch h
  next top rest hpending =>
    rw [hpending]
    split at h
    · simp_all
    · split at h <;> simp_all

/-- The nodes yielded are those at the places yielded. -/
theorem map_node_visits (steps : Nat) (w : Walk) :
    (visits steps w).map Place.node = run steps w := by
  induction steps generalizing w with
  | zero => rfl
  | succ steps ih =>
      rw [visits, List.map_append, ih, run]
      match hstep : w.step with
      | none =>
          have hnext : w.next = w := by simp [next, hstep]
          cases steps <;> simp [yield?, hnext, run, hstep]
      | some (none, after) => simp [yield?, next, hstep]
      | some (some node, after) =>
          obtain ⟨top, htop, rfl⟩ := Option.map_eq_some_iff.1 (head?_of_step hstep)
          simp [yield?, next, hstep, htop]

end Walk

/-- The machine yields the nodes in the order of the recursion. -/
theorem Formula.walk_eq_nodes (e : Formula) : e.walk = e.nodes := by
  rw [walk, ← Walk.map_node_visits, (Walk.runs_whole e (Nat.le_refl _)).visits_eq,
    map_node_places]

/-- The walk ends, and by then it has yielded every place of the formula once, in
post-order. -/
theorem walk_isPostOrder (e : Formula) :
    ∃ places, IsPostOrder e places ∧ places.map Place.node = e.walk ∧
      ∀ more, Walk.visits (2 * e.size + more) (.enter e) = places ∧
        (Walk.next^[2 * e.size + more] (.enter e)).pending = [] := by
  refine ⟨e.places [], e.isPostOrder_places, by simp [Formula.walk_eq_nodes], fun more => ?_⟩
  obtain ⟨hvisits, hafter⟩ := Walk.runs_whole e (Nat.le_add_right _ more)
  exact ⟨hvisits, by rw [hafter]⟩

end FormulaGrading
