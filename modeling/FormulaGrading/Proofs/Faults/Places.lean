import FormulaGrading.Proofs.Faults
import FormulaGrading.Proofs.Parsing.Layout

/-!
The places of faults. A fault of reading is at one token, or at the character that begins
none; a fault of evaluation is at a node, an operator or the name of a function, and at two
of them where something is divided by zero. A report can point at each of these places.
-/

namespace FormulaGrading

/-- Whether a report can point at a span of a text: it has some bytes of the text, and the
characters before it are ASCII, so that it begins with the character of the same index. -/
structure Span.PointsInto (text : String) (s : Span) : Prop where
  nonempty : s.start < s.stop
  stop_le : s.stop ≤ text.utf8ByteSize
  ascii : ∀ c ∈ text.toList.take s.start, Token.IsAscii c
  byteLength_take : Token.byteLength (text.toList.take s.start) = s.start

section

variable {text : String} {tokens : List Token}

/-- Scanning leaves ASCII characters behind. -/
theorem Token.Scans.pointsInto {s : Span} {rest : List Char}
    (h : Scans 0 text.toList tokens s.start rest) (hlt : s.start < s.stop)
    (hle : s.stop ≤ text.utf8ByteSize) : s.PointsInto text := by
  obtain ⟨passed, hpassed, hascii, hstart⟩ := h.passed
  have htake : text.toList.take s.start = passed := by
    rw [hpassed, hstart, Nat.zero_add, List.take_left]
  refine ⟨hlt, hle, by rwa [htake], ?_⟩
  rw [htake, byteLength_of_isAscii hascii, hstart, Nat.zero_add]

/-- What begins where a token does is a place to point at. -/
theorem pointsInto_of_start_eq (hscan : Token.scan text = .ok tokens) {t : Token}
    (ht : t ∈ tokens) {s : Span} (hstart : s.start = t.span.start) (hlt : s.start < s.stop)
    (hle : s.stop ≤ text.utf8ByteSize) : s.PointsInto text := by
  obtain ⟨stop, hscans⟩ := Token.scans_of_scan hscan
  obtain ⟨before, rest, hbefore⟩ := hscans.to_start ht
  exact (hstart ▸ hbefore).pointsInto hlt hle

theorem pointsInto_of_mem_scan (hscan : Token.scan text = .ok tokens) {t : Token}
    (ht : t ∈ tokens) : t.span.PointsInto text := by
  obtain ⟨-, hlt, hle⟩ := (Token.liesBetween_of_scan hscan).of_mem ht
  exact pointsInto_of_start_eq hscan ht rfl hlt hle

/-- A character that begins no token is a place to point at. -/
theorem exists_of_scan_error {fault : Fault} (h : Token.scan text = .error fault) :
    ∃ c span, fault = ⟨[span], .unknownText (String.singleton c)⟩ ∧ span.PointsInto text ∧
      text.toList[span.start]? = some c ∧ span.stop = span.start + c.utf8Size := by
  obtain ⟨tokens, stop, c, rest, hscans, -, -, rfl⟩ := Token.scans_of_scan_error h
  obtain ⟨passed, hpassed, hascii, hstop⟩ := hscans.passed
  have hsize : stop + c.utf8Size ≤ text.utf8ByteSize := by
    rw [← Token.byteLength_toList, hpassed, Token.byteLength_append,
      Token.byteLength_of_isAscii hascii, Token.byteLength_cons]
    omega
  refine ⟨c, _, rfl, ?_, ?_, rfl⟩
  · exact Token.Scans.pointsInto (s := ⟨stop, stop + c.utf8Size⟩) hscans
      (Nat.lt_add_of_pos_right c.utf8Size_pos) hsize
  · rw [hpassed, hstop]
    simp

end

namespace Formula

/-- The spans of a node: that of the whole, and that of its operator or function. -/
def ownSpans : Formula → List Span
  | .binary _ op _ span => [span, op.span]
  | .call function _ _ span => [span, function.span]
  | e => [e.span]

theorem span_mem_ownSpans (e : Formula) : e.span ∈ e.ownSpans := by
  cases e <;> simp [ownSpans, span]

theorem self_mem_nodes (e : Formula) : e ∈ e.nodes := by
  cases e <;> simp [nodes]

theorem nodes_subset_of_mem {e node : Formula} (h : node ∈ e.nodes) : node.nodes ⊆ e.nodes := by
  induction e with
  | number | symbol =>
      obtain rfl := List.mem_singleton.1 h
      exact List.Subset.refl _
  | signed _ operand _ ih =>
      simp only [nodes, List.mem_append, List.mem_singleton] at h
      obtain h | rfl := h
      · exact List.subset_append_of_subset_left _ (ih h)
      · exact List.Subset.refl _
  | binary lhs _ rhs _ ihl ihr =>
      simp only [nodes, List.mem_append, List.mem_singleton] at h
      obtain (h | h) | rfl := h
      · exact List.subset_append_of_subset_left _ (List.subset_append_of_subset_left _ (ihl h))
      · exact List.subset_append_of_subset_left _ (List.subset_append_of_subset_right _ (ihr h))
      · exact List.Subset.refl _
  | call _ argument _ _ ih =>
      simp only [nodes, List.mem_append, List.mem_singleton] at h
      obtain h | rfl := h
      · exact List.subset_append_of_subset_left _ (ih h)
      · exact List.Subset.refl _

/-- The faults that the root of a formula can have when its value is found. Only a quotient
and a power can have a zero to be blamed on their right operand. -/
inductive Meets : Formula → Fault → Prop where
  | whole {e : Formula} {cause : Cause} (hcause : cause ≠ .divisionByZero) :
      Meets e ⟨[e.span], cause⟩
  | divisor {lhs rhs : Formula} {op : OperatorMark} {span : Span}
      (hop : op.operation ≠ .multiply) :
      Meets (.binary lhs op rhs span) ⟨[op.span, rhs.span], .divisionByZero⟩
  | argument {function : Symbol} {argument : Formula} {brackets span : Span} :
      Meets (.call function argument brackets span)
        ⟨[function.span, argument.span], .divisionByZero⟩
  | function {function : Symbol} {argument : Formula} {brackets span : Span} {cause : Cause}
      (hcause : cause ≠ .divisionByZero) :
      Meets (.call function argument brackets span) ⟨[function.span], cause⟩

theorem meets_of_finiteAt {e : Formula} {span : Span} {x : Float} {fault : Fault}
    (hspan : e.span = span) (h : finiteAt span x = .error fault) : e.Meets fault := by
  unfold finiteAt at h
  split at h
  next => exact nomatch h
  next =>
    obtain rfl := Except.error.inj h
    exact hspan ▸ .whole (by decide)

theorem meets_of_apply {lhs rhs : Formula} {op : OperatorMark} {span : Span} {x y : Float}
    {fault : Fault} (h : op.apply span rhs.span x y = .error fault) :
    (Formula.binary lhs op rhs span).Meets fault := by
  have hfinite : ∀ {v}, finiteAt span v = .error fault →
      (Formula.binary lhs op rhs span).Meets fault := meets_of_finiteAt rfl
  cases hop : op.operation with
  | add | subtract | multiply =>
      simp only [OperatorMark.apply, hop] at h
      exact hfinite h
  | divide =>
      simp only [OperatorMark.apply, hop] at h
      split at h
      next =>
        obtain rfl := Except.error.inj h
        exact .divisor (by simp [hop])
      next => exact hfinite h
  | power =>
      simp only [OperatorMark.apply, hop] at h
      split at h
      next =>
        obtain rfl := Except.error.inj h
        exact .divisor (by simp [hop])
      next =>
        split at h
        next =>
          obtain rfl := Except.error.inj h
          exact .whole (e := .binary lhs op rhs span) (by simp)
        next => exact hfinite h

theorem meets_of_callAt {f : RealFunction} {function : Symbol} {argument : Formula}
    {brackets span : Span} {x : Float} {fault : Fault}
    (h : f.callAt function span argument.span x = .error fault) :
    (Formula.call function argument brackets span).Meets fault := by
  unfold RealFunction.callAt at h
  split at h
  next => exact meets_of_finiteAt rfl h
  next =>
    obtain rfl := Except.error.inj h
    exact .whole (e := .call function argument brackets span) (by simp)
  next =>
    obtain rfl := Except.error.inj h
    exact .argument

/-- A fault of evaluation is met at the root of some node. -/
theorem exists_meets_of_value {b : Bindings} {e : Formula} {fault : Fault}
    (h : e.value b = .error fault) : ∃ node ∈ e.nodes, node.Meets fault := by
  induction e with
  | number x span => exact ⟨_, self_mem_nodes _, meets_of_finiteAt rfl h⟩
  | symbol s =>
      refine ⟨_, self_mem_nodes _, ?_⟩
      simp only [value, Bindings.valueOf] at h
      split at h
      next => simp at h
      next =>
        split at h
        next => simp at h
        next =>
          obtain rfl := Except.error.inj h
          exact .whole (e := .symbol s) (by simp)
  | signed mark operand span ih =>
      simp only [value] at h
      split at h
      next => simp at h
      next hoperand =>
        obtain rfl := Except.error.inj h
        obtain ⟨node, hnode, hmeets⟩ := ih hoperand
        exact ⟨node, List.mem_append_left _ hnode, hmeets⟩
  | binary lhs op rhs span ihl ihr =>
      simp only [value] at h
      split at h
      next =>
        split at h
        next => exact ⟨_, self_mem_nodes _, meets_of_apply h⟩
        next hrhs =>
          obtain rfl := Except.error.inj h
          obtain ⟨node, hnode, hmeets⟩ := ihr hrhs
          exact ⟨node, by simp [nodes, hnode], hmeets⟩
      next hlhs =>
        obtain rfl := Except.error.inj h
        obtain ⟨node, hnode, hmeets⟩ := ihl hlhs
        exact ⟨node, by simp [nodes, hnode], hmeets⟩
  | call function argument brackets span ih =>
      simp only [value] at h
      split at h
      next =>
        obtain rfl := Except.error.inj h
        exact ⟨_, self_mem_nodes _, .function (by simp)⟩
      next =>
        split at h
        next => exact ⟨_, self_mem_nodes _, meets_of_callAt h⟩
        next hargument =>
          obtain rfl := Except.error.inj h
          obtain ⟨node, hnode, hmeets⟩ := ih hargument
          exact ⟨node, List.mem_append_left _ hnode, hmeets⟩

end Formula

/-- Every item that is spelt is shown by some token. -/
theorem Spells.exists_token {tokens : List Token} {e : Formula} (h : Spells tokens e)
    {item : Item} (hitem : item ∈ e.items) : ∃ t ∈ tokens, t.item? = some item := by
  have hshown : some item ∈ shownItems tokens := by
    rw [h.items]
    exact List.mem_map_of_mem hitem
  obtain ⟨t, ht, hshows⟩ := List.mem_map.1 hshown
  exact ⟨t, (List.mem_filter.1 ht).1, hshows⟩

theorem Symbol.item_mem_items_call (function : Symbol) (argument : Formula)
    (brackets span : Span) : Item.text function.name function.span ∈
      (Formula.call function argument brackets span).items :=
  List.mem_cons_self

theorem Token.span_of_item? {t : Token} {lexeme : String} {span : Span}
    (h : t.item? = some (.text lexeme span)) : t.span = span := by
  unfold item? at h
  split at h
  · simp at h
  · exact (Item.text.inj (Option.some.inj h)).2

/-- A formula begins where one of its tokens does. -/
theorem Phrase.exists_start_eq {ts : List Token} {e : Formula} (h : Phrase ts e) :
    ∃ t ∈ ts, e.span.start = t.span.start := by
  induction h with
  | binary _ _ _ ihl _ =>
      obtain ⟨t, ht, hstart⟩ := ihl
      exact ⟨t, List.mem_append_left _ ht, hstart⟩
  | adjacent _ _ ihl _ =>
      obtain ⟨t, ht, hstart⟩ := ihl
      rw [List.append_cons]
      exact ⟨t, List.mem_append_left _ ht, hstart⟩
  | signed => exact ⟨_, List.mem_cons_self, rfl⟩
  | number => exact ⟨_, List.mem_cons_self, rfl⟩
  | symbol => exact ⟨_, List.mem_cons_self, rfl⟩
  | call => exact ⟨_, List.mem_cons_self, rfl⟩
  | group _ _ _ ih =>
      obtain ⟨t, ht, hstart⟩ := ih
      exact ⟨t, by simp [ht], hstart⟩

section

variable {text : String} {tokens : List Token} {e : Formula}

/-- A report can point at every node, at every operator that is written out, and at the name
of every function. -/
theorem Phrase.pointsInto_of_mem_nodes (hscan : Token.scan text = .ok tokens)
    (h : Phrase tokens e) {node : Formula} (hnode : node ∈ e.nodes) :
    node.span.PointsInto text := by
  obtain ⟨us, hwithin, hphrase, -, -, hlt, hle⟩ := h.exists_of_mem_nodes hscan hnode
  obtain ⟨t, ht, hstart⟩ := hphrase.exists_start_eq
  exact pointsInto_of_start_eq hscan (hwithin.subset ht) hstart hlt hle

theorem Phrase.pointsInto_of_item (hscan : Token.scan text = .ok tokens)
    (h : Phrase tokens e) {node : Formula} (hnode : node ∈ e.nodes) {lexeme : String}
    {span : Span} (hitem : .text lexeme span ∈ node.items) : span.PointsInto text := by
  obtain ⟨us, hwithin, -, hspells, -⟩ := h.exists_of_mem_nodes hscan hnode
  obtain ⟨t, ht, hshows⟩ := hspells.exists_token hitem
  rw [← Token.span_of_item? hshows]
  exact pointsInto_of_mem_scan hscan (hwithin.subset ht)

/-- Where a fault of evaluation is, and how many places it has. -/
theorem Formula.Meets.spans {node : Formula} {fault : Fault} (hscan : Token.scan text = .ok tokens)
    (h : Phrase tokens e) (hnode : node ∈ e.nodes) (hmeets : node.Meets fault) :
    fault.spans.length = (if fault.cause = .divisionByZero then 2 else 1) ∧
      ∀ span ∈ fault.spans,
        span.PointsInto text ∧ ∃ node' ∈ e.nodes, span ∈ node'.ownSpans := by
  -- the operands of a node are nodes as well
  have hnodes : ∀ {node' : Formula}, node' ∈ node.nodes → node'.span.PointsInto text ∧
      ∃ node ∈ e.nodes, node'.span ∈ node.ownSpans := fun {node'} hnode' =>
    have hmem := Formula.nodes_subset_of_mem hnode hnode'
    ⟨h.pointsInto_of_mem_nodes hscan hmem, node', hmem, node'.span_mem_ownSpans⟩
  cases hmeets with
  | whole hcause =>
      refine ⟨by simp [hcause], List.forall_mem_singleton.2 (hnodes node.self_mem_nodes)⟩
  | @divisor lhs rhs op span hop =>
      refine ⟨by simp, List.forall_mem_cons.2 ⟨⟨?_, _, hnode, by simp [ownSpans]⟩, ?_⟩⟩
      · have hexplicit : op.implicit = false := by
          obtain ⟨us, -, -, -, hplace, -⟩ := h.exists_of_mem_nodes hscan hnode
          cases hplace with
          | binary _ _ _ _ _ himplicit =>
              exact Bool.eq_false_iff.2 fun h => hop (himplicit h).1
        have hitem : Item.text op.operation.symbol op.span ∈
            (Formula.binary lhs op rhs span).items := by
          simp [Formula.items, OperatorMark.items, hexplicit]
        exact h.pointsInto_of_item hscan hnode hitem
      · exact List.forall_mem_singleton.2
          (hnodes (by simp [Formula.nodes, Formula.self_mem_nodes]))
  | @argument function argument brackets span =>
      refine ⟨by simp, List.forall_mem_cons.2 ⟨⟨?_, _, hnode, by simp [ownSpans]⟩, ?_⟩⟩
      · exact h.pointsInto_of_item hscan hnode (function.item_mem_items_call ..)
      · exact List.forall_mem_singleton.2
          (hnodes (by simp [Formula.nodes, Formula.self_mem_nodes]))
  | @function function argument brackets span cause hcause =>
      refine ⟨by simp [hcause], List.forall_mem_singleton.2 ⟨?_, _, hnode, by simp [ownSpans]⟩⟩
      exact h.pointsInto_of_item hscan hnode (function.item_mem_items_call ..)

end

/-- Every fault points into the text. A fault of reading has one place, which is a token or
the character that begins none; only a text without tokens has its fault at no character. A
fault of evaluation has two places if it is a division by zero and else one, and they are
nodes, operators and names of functions. -/
theorem faults_point_into_text (declared : List String) (text : String) :
    (∀ fault, Formula.parse declared text = .error fault →
      fault.cause ≠ .divisionByZero ∧ ∃ span, fault.spans = [span] ∧
        ((Token.scan text = .ok [] ∧ fault.cause = .missingFormula ∧ span = ⟨0, 0⟩) ∨
          span.PointsInto text ∧
            ((∃ tokens, Token.scan text = .ok tokens ∧ ∃ t ∈ tokens, span = t.span) ∨
              ∃ c, fault.cause = .unknownText (String.singleton c) ∧
                text.toList[span.start]? = some c ∧
                span.stop = span.start + c.utf8Size))) ∧
    ∀ e b fault, Formula.parse declared text = .ok e → e.value b = .error fault →
      fault.spans.length = (if fault.cause = .divisionByZero then 2 else 1) ∧
        ∀ span ∈ fault.spans,
          span.PointsInto text ∧ ∃ node ∈ e.nodes, span ∈ node.ownSpans := by
  refine ⟨fun fault hparse => ⟨?_, ?_⟩, fun e b fault hparse hvalue => ?_⟩
  · intro hcause
    have hstage := stage_of_parse hparse
    rw [hcause] at hstage
    exact nomatch hstage
  · cases hscan : Token.scan text with
    | error found =>
        obtain rfl := Except.error.inj ((parse_of_scan_error hscan).symm.trans hparse)
        obtain ⟨c, span, rfl, hpoints, hget, hstop⟩ := exists_of_scan_error hscan
        exact ⟨span, rfl, .inr ⟨hpoints, .inr ⟨c, rfl, hget, hstop⟩⟩⟩
    | ok tokens =>
        obtain ⟨rfl, rfl⟩ | ⟨t, ht, hspans⟩ := (fault_of_parse hscan hparse).2
        · exact ⟨_, rfl, .inl ⟨rfl, rfl, rfl⟩⟩
        · exact ⟨t.span, hspans, .inr ⟨pointsInto_of_mem_scan hscan ht,
            .inl ⟨tokens, rfl, t, ht, rfl⟩⟩⟩
  · obtain ⟨tokens, hscan, hphrase⟩ := exists_phrase_of_parse hparse
    obtain ⟨node, hnode, hmeets⟩ := Formula.exists_meets_of_value hvalue
    exact hmeets.spans hscan hphrase hnode

end FormulaGrading
