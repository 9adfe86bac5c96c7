import FormulaGrading.Formula.Value
import FormulaGrading.Proofs.Binary64.Order
import FormulaGrading.Proofs.Parsing.Whole
import FormulaGrading.Proofs.Writing.Numbers

/-!
What is read is well formed. The texts of numbers are those that can be read as numbers, the
names in front of arguments are those of functions that can be evaluated, and other names are
no names of functions. Neither reading nor evaluation therefore ever meets a number that it
cannot read or a function that it does not know.
-/

namespace FormulaGrading

/-- Whether a node is one that can be read from a text. -/
inductive Formula.IsWellFormed : Formula → Prop where
  | number {value : Float} {span : Span} (hnumber : value.isNaN = false)
      (hsign : Decimal.isNegative value = false) (hle : 0.0 ≤ value) :
      IsWellFormed (.number value span)
  | symbol {s : Symbol} (hname : Token.IsName s.name.toList)
      (hfunction : isFunctionName s.name = false) : IsWellFormed (.symbol s)
  | signed {mark : SignMark} {operand : Formula} {span : Span} :
      IsWellFormed (.signed mark operand span)
  | binary {lhs rhs : Formula} {op : OperatorMark} {span : Span} :
      IsWellFormed (.binary lhs op rhs span)
  | call {function : Symbol} {argument : Formula} {brackets span : Span} {f : RealFunction}
      (hname : Token.IsName function.name.toList) (hfunction : isFunctionName function.name)
      (himplemented : RealFunction.ofName? function.name = some f) :
      IsWellFormed (.call function argument brackets span)

namespace Token

/-- A number begins with a digit or a point. -/
theorem head?_numberRun {cs : List Char} (h : numberRun cs ≠ []) :
    ∃ c rest, numberRun cs = c :: rest ∧ (c.isDigit ∨ c = '.') := by
  obtain ⟨whole, fraction, exponent, hparts, hwhole, hfraction, -, hsome⟩ := numberRun_eq h
  cases whole with
  | cons d whole => exact ⟨d, _, hparts, .inl (hwhole d List.mem_cons_self)⟩
  | nil =>
      cases hfraction with
      | none => simp at hsome
      | some _ => exact ⟨'.', _, hparts, .inr rfl⟩

theorem toLower_of_isDigit {c : Char} (h : c.isDigit) : c.toLower = c := by
  rw [Char.isDigit_iff_toNat] at h
  have hupper : 'A'.val.toNat = 65 := rfl
  have hnine : '9'.val.toNat = 57 := rfl
  rw [Char.toLower, dif_neg]
  simp only [ge_iff_le, UInt32.le_iff_toNat_le]
  simp only [Char.toNat] at h
  omega

end Token

namespace Decimal

/-- Where a digit or a point comes first, there is neither a sign nor one of the words for
infinity and for no number. -/
theorem read?_eq_readUnsigned? {text : String} {c : Char} {rest : List Char}
    (htext : text.toList = c :: rest) (hc : c.isDigit ∨ c = '.') :
    read? text = readUnsigned? text.toList := by
  have hlower : c.toLower ≠ 'i' ∧ c.toLower ≠ 'n' := by
    rcases hc with hdigit | rfl
    · rw [Token.toLower_of_isDigit hdigit]
      constructor <;>
      · rintro rfl
        exact absurd hdigit (by decide)
    · decide
  have hword : ∀ {d} ds, d = 'i' ∨ d = 'n' →
      String.ofList ((c :: rest).map Char.toLower) ≠ String.ofList (d :: ds) := by
    intro d ds hd heq
    have hhead : c.toLower = d := (List.cons.inj (String.ofList_injective heq)).1
    rcases hd with rfl | rfl
    · exact hlower.1 hhead
    · exact hlower.2 hhead
  have hmagnitude : readMagnitude? (c :: rest) = readUnsigned? (c :: rest) := by
    rw [readMagnitude?, if_neg, if_neg]
    · exact hword ['a', 'n'] (.inr rfl)
    · rw [Bool.or_eq_true, decide_eq_true_eq, decide_eq_true_eq]
      rintro (heq | heq)
      · exact hword ['n', 'f'] (.inl rfl) heq
      · exact hword ['n', 'f', 'i', 'n', 'i', 't', 'y'] (.inl rfl) heq
  rw [read?, htext]
  split
  next heq =>
    obtain rfl : c = '-' := (List.cons.inj heq).1
    exact absurd hc (by decide)
  next heq =>
    obtain rfl : c = '+' := (List.cons.inj heq).1
    exact absurd hc (by decide)
  next => exact hmagnitude

/-- What is read without a sign is a number from zero up. -/
theorem zero_le_of_readUnsigned? {cs : List Char} {x : Float} (h : readUnsigned? cs = some x) :
    x.isNaN = false ∧ 0.0 ≤ x := by
  obtain ⟨n, place, rfl⟩ := exists_rounded_of_readUnsigned? h
  exact zero_le_of_toBits_le (toBits_rounded_le n place)

end Decimal

/-- Every token of the sort of numbers is one that the reader of floats takes. -/
theorem Token.exists_read?_of_mem_scan {text : String} {tokens : List Token}
    (h : scan text = .ok tokens) {t : Token} (ht : t ∈ tokens) (hkind : t.kind = .number) :
    ∃ value, Decimal.read? t.lexeme = some value ∧
      Decimal.readUnsigned? t.lexeme.toList = some value := by
  obtain ⟨value, hvalue⟩ := Option.isSome_iff_exists.1 (readable_of_mem_scan h ht hkind)
  refine ⟨value, ?_, hvalue⟩
  obtain ⟨cs, hlongest⟩ := longest?_of_mem_scan h ht
  obtain ⟨c, -, hsymbol, -⟩ | ⟨hname, -⟩ | ⟨-, hlexeme, hsome⟩ := longest?_eq_some hlongest
  · exact absurd hkind (symbolKind?_ne hsymbol).2
  · exact absurd (hname.symm.trans hkind) (by decide)
  · obtain ⟨c, rest, hrun, hc⟩ := head?_numberRun hsome
    rw [Decimal.read?_eq_readUnsigned? (hlexeme.trans hrun) hc, hvalue]

/-- The root of a phrase is well formed. -/
theorem Phrase.isWellFormed {ts : List Token} {e : Formula} (h : Phrase ts e)
    (hnames : ∀ t ∈ ts, t.kind = .name → Token.IsName t.lexeme.toList) : e.IsWellFormed := by
  induction h with
  | binary | adjacent => exact .binary
  | signed => exact .signed
  | number _ hvalue =>
      obtain ⟨hnumber, hle⟩ := Decimal.zero_le_of_readUnsigned? hvalue
      exact .number hnumber (Decimal.isNegative_of_readUnsigned? hvalue) hle
  | symbol hkind hname => exact .symbol (hnames _ List.mem_cons_self hkind) hname
  | call hf hname =>
      obtain ⟨f, himplemented⟩ := RealFunction.exists_ofName? hname
      exact .call (hnames _ List.mem_cons_self hf) hname himplemented
  | group _ _ _ ih => exact ih fun t ht => hnames t (by simp [ht])

section

variable {b : Bindings} {span divisor : Span} {x y : Float} {fault : Fault}

theorem finiteAt_ne_withoutValue (h : finiteAt span x = .error fault) (name : String) :
    fault.cause ≠ .outsideDomain (.withoutValue name) := by
  grind [finiteAt]

theorem OperatorMark.apply_ne_withoutValue {op : OperatorMark}
    (h : op.apply span divisor x y = .error fault) (name : String) :
    fault.cause ≠ .outsideDomain (.withoutValue name) := by
  grind [OperatorMark.apply, finiteAt_ne_withoutValue]

theorem RealFunction.apply_ne_withoutValue (f : RealFunction) (name : String) :
    f.apply x ≠ .error (.outsideDomain (.withoutValue name)) := by
  cases f <;> grind [RealFunction.apply, reciprocal]

theorem RealFunction.callAt_ne_withoutValue {f : RealFunction} {function : Symbol}
    (h : f.callAt function span divisor x = .error fault) (name : String) :
    fault.cause ≠ .outsideDomain (.withoutValue name) := by
  grind [RealFunction.callAt, finiteAt_ne_withoutValue, RealFunction.apply_ne_withoutValue]

/-- No function without a value is met in a formula whose nodes are well formed. -/
theorem Formula.value_ne_withoutValue {e : Formula}
    (hnodes : ∀ node ∈ e.nodes, node.IsWellFormed) (h : e.value b = .error fault)
    (name : String) : fault.cause ≠ .outsideDomain (.withoutValue name) := by
  induction e with
  | number => exact finiteAt_ne_withoutValue h name
  | symbol => grind [value, Bindings.valueOf]
  | signed mark operand span ih =>
      have hoperand := ih fun node hnode => hnodes node (List.mem_append_left _ hnode)
      grind [value]
  | binary lhs op rhs span ihl ihr =>
      have hlhs := ihl fun node hnode => hnodes node (by simp [nodes, hnode])
      have hrhs := ihr fun node hnode => hnodes node (by simp [nodes, hnode])
      grind [value, OperatorMark.apply_ne_withoutValue]
  | call function argument brackets span ih =>
      have hargument := ih fun node hnode => hnodes node (List.mem_append_left _ hnode)
      have himplemented : ∃ f, RealFunction.ofName? function.name = some f := by
        cases hnodes _ (List.mem_append_right _ (List.mem_singleton.2 rfl)) with
        | call _ _ himplemented => exact ⟨_, himplemented⟩
      obtain ⟨f, himplemented⟩ := himplemented
      simp only [value, himplemented] at h
      grind [RealFunction.callAt_ne_withoutValue]

end

/-- Every node of what is read is well formed. -/
theorem isWellFormed_of_parse {declared : List String} {text : String} {e node : Formula}
    (hparse : Formula.parse declared text = .ok e) (hnode : node ∈ e.nodes) :
    node.IsWellFormed := by
  obtain ⟨tokens, hscan, hphrase⟩ := exists_phrase_of_parse hparse
  obtain ⟨us, hwithin, hus⟩ := hphrase.of_mem_nodes hnode
  exact hus.isWellFormed fun t ht => Token.isName_of_mem_scan hscan (hwithin.subset ht)

/-- What is read is well formed, and reading and evaluation never take the branches that
guard against anything else. No number of a text is one that cannot be read, so that unknown
text is only ever reported by scanning. Every node of a formula is well formed, so that no
function is ever found to have no value. -/
theorem parse_well_formed (declared : List String) (text : String) :
    (∀ tokens, Token.scan text = .ok tokens →
      (∀ t ∈ tokens, t.kind = .number →
        ∃ value, Decimal.read? t.lexeme = some value ∧
          Decimal.readUnsigned? t.lexeme.toList = some value) ∧
      ∀ fault lexeme, Formula.parse declared text = .error fault →
        fault.cause ≠ .unknownText lexeme) ∧
    ∀ e, Formula.parse declared text = .ok e →
      (∀ node ∈ e.nodes, node.IsWellFormed) ∧
        ∀ b fault name, e.value b = .error fault →
          fault.cause ≠ .outsideDomain (.withoutValue name) := by
  refine ⟨fun tokens hscan => ⟨fun t => Token.exists_read?_of_mem_scan hscan, ?_⟩,
    fun e hparse => ?_⟩
  · intro fault lexeme hparse hcause
    have hoftokens := (fault_of_parse hscan hparse).1
    rw [hcause] at hoftokens
    exact hoftokens
  · have hnodes : ∀ node ∈ e.nodes, node.IsWellFormed :=
      fun node hnode => isWellFormed_of_parse hparse hnode
    exact ⟨hnodes, fun b fault name hvalue => Formula.value_ne_withoutValue hnodes hvalue name⟩

end FormulaGrading
