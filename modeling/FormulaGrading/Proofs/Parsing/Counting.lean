import FormulaGrading.Parser.Step
import Mathlib.Logic.Function.Iterate

/-!
Reading with a count. A level is built from the levels below it, so that none can descend more
often than its building allows. Here the same rules work on one parser that all of them change:
it counts up before a descent and down after it, and a descent is a fault where the count has
reached the limit. The rules are given one another and themselves for what is nested, which
only the count brings to an end.

Both ways of reading agree. The count is back where it was after every rule, whatever fault
ended it, and never exceeds the limit in between.
-/

namespace FormulaGrading

/-- A parser that counts. -/
structure CountingParser where
  cursor : Cursor
  heldBack : Option Fault
  /-- How many descents are under way. -/
  depth : Nat
  /-- How many descents have been under way at most. -/
  deepest : Nat
  declared : List String

/-- From a parser that counts to a result and that parser afterwards. -/
def Counting (α : Type) : Type :=
  CountingParser → Except Fault α × CountingParser

namespace Counting

section

variable {α : Type}

/-- Yields a value and changes nothing. -/
def yield (a : α) : Counting α :=
  fun p => (.ok a, p)

/-- Goes on with the parser as the first reading left it, unless that ended in a fault. -/
def andThen {β : Type} (r : Counting α) (f : α → Counting β) : Counting β :=
  fun p =>
    match r p with
    | (.ok a, q) => f a q
    | (.error fault, q) => (.error fault, q)

instance : Monad Counting where
  pure := yield
  bind := andThen

/-- A reading without descents. -/
def plain (r : Reading α) : Counting α :=
  fun p => ((r p.cursor).1, { p with cursor := (r p.cursor).2 })

/-- The names that are declared. -/
def declaredNames : Counting (List String) :=
  fun p => (.ok p.declared, p)

/-- Declares further variables. -/
def declare (names : List String) : Counting Unit :=
  fun p => (.ok (), { p with declared := p.declared ++ names })

/-- Puts the cursor back to where the reading began if it ends in a fault, and nothing else. -/
def attempt (r : Counting α) : Counting α :=
  fun p =>
    match r p with
    | (.ok a, q) => (.ok a, q)
    | (.error fault, q) => (.error fault, { q with cursor := p.cursor })

/-- Replaces the fault. -/
def orFault (r : Counting α) (fault : Fault) : Counting α :=
  fun p =>
    match r p with
    | (.ok a, q) => (.ok a, q)
    | (.error _, q) => (.error fault, q)

/-- Counts up, reads, and counts down again. -/
def deeper (r : Counting α) : Counting α :=
  fun p =>
    if p.depth < nestingLimit then
      let (result, q) :=
        r { p with depth := p.depth + 1, deepest := max p.deepest (p.depth + 1) }
      (result, { q with depth := q.depth - 1 })
    else (.error ⟨[p.cursor.span], .tooDeep nestingLimit⟩, p)

/-- Reads, and requires that no token is left. A fault held back is reported first, and
then a bracket without its partner. -/
def readWhole (r : Counting α) : Counting α :=
  fun p =>
    match p.heldBack with
    | some fault => (.error fault, { p with heldBack := none })
    | none =>
        match bracketFault? p.cursor.tokens with
        | some fault => (.error fault, p)
        | none =>
            let (result, q) := r p
            match result, q.cursor.here? with
            | .ok _, some token => (.error (Parser.leftoverFault token), q)
            | result, _ => (result, q)

end

/-- The rules for what is nested. -/
structure Rules where
  operand : Counting Formula
  climb : Formula → Precedence → Counting Formula
  group : Counting Enclosed

/-- A whole formula: an operand and all operations after it. -/
def Rules.formula (rules : Rules) : Counting Formula := do
  let lhs ← rules.operand
  rules.climb lhs .loosest

section

variable (nested : Rules)

def readGroup : Counting Enclosed := do
  let opening ← attempt (plain (.token .openBracket))
  let inner ← deeper nested.formula
  let closing ← orFault (attempt (plain (.token .closeBracket)))
    ⟨[opening.span], .unclosedBracket⟩
  pure ⟨inner, opening.span.join closing.span⟩

def readCall : Counting Formula := do
  let function ← plain .symbol
  if !isFunctionName function.name then
    plain (.fail ⟨[function.span], .noSuchFunction function.name
      (RealFunction.similarNames function.name)⟩)
  else if !(← plain (.look fun c => c.currentIs (· == .openBracket))) then
    plain (.fail ⟨[function.span], .missingArgument function.name⟩)
  else
    let argument ← deeper nested.group
    pure (.call function argument.inner argument.outer
      (function.span.join argument.outer))

def readNamed (name : Token) : Counting Formula := do
  if isFunctionName name.lexeme then attempt (readCall nested)
  else
    let declared ← declaredNames
    let beforeGroup ← plain <| .look fun c =>
      match c.ahead? with
      | some t => t.kind == .openBracket
      | none => false
    if beforeGroup && !multipliesGroup declared name.lexeme then
      plain (.failHere
        (.noSuchFunction name.lexeme (RealFunction.similarNames name.lexeme)))
    else
      let symbol ← attempt (plain .symbol)
      pure (.symbol symbol)

def readAtom : Counting Enclosed := do
  match ← plain (.look Cursor.here?) with
  | none => plain (.failHere .missingFormula)
  | some t =>
      match t.kind with
      | .number => Level.unenclosed <$> attempt (plain .number)
      | .name => Level.unenclosed <$> readNamed nested t
      | .openBracket => attempt (readGroup nested)
      | _ => plain (.failHere .missingFormula)

def readSigned : Counting Formula := do
  let mark ← attempt (plain .signMark)
  if !(← plain (.look fun c => c.currentIs TokenClass.opensOperand)) then
    plain (.fail ⟨[mark.span], .straySign⟩)
  else
    let operand ← deeper do
      let lhs ← nested.operand
      nested.climb lhs mark.sign.precedence
    pure (.signed mark operand (mark.span.join operand.span))

def readOperand : Counting Formula := do
  match ← plain (.look Cursor.here?) with
  | none => plain (.failHere .missingFormula)
  | some t =>
      match t.kind with
      | .add | .subtract => readSigned nested
      | .multiply => plain (.failHere (.missingOperand .multiply))
      | .divide => plain (.failHere (.missingOperand .divide))
      | .power => plain (.failHere (.missingOperand .power))
      | .closeBracket => plain (.failHere .missingFormula)
      | .number | .name | .openBracket => Enclosed.inner <$> attempt (readAtom nested)

def readRightOperand (op : OperatorMark) : Counting Formula := do
  if op.implicit then Enclosed.inner <$> attempt (readAtom nested)
  else
    let _ ← attempt (plain .operatorMark)
    let following ← plain (.look fun c => c.here?.map Token.kind)
    if (following.map TokenClass.opensOperand).getD false then readOperand nested
    else plain (.fail (Level.danglingFault op following))

def completeRight (op : OperatorMark) : Nat → Formula → Counting Formula
  | 0, rhs => pure rhs
  | rounds + 1, rhs => do
      match ← plain (.look Cursor.operator?) with
      | none => pure rhs
      | some following =>
          if following.takesFrom op then
            let extended ← deeper (nested.climb rhs following.precedence)
            completeRight op rounds extended
          else pure rhs

def climbRounds (least : Precedence) : Nat → Formula → Counting Formula
  | 0, lhs => pure lhs
  | rounds + 1, lhs => do
      match ← plain (.look Cursor.operator?) with
      | none => pure lhs
      | some op =>
          if op.precedence.looser least then pure lhs
          else
            let rhs ← readRightOperand nested op
            let rhs ← completeRight nested op (← plain Level.remaining) rhs
            climbRounds least rounds (lhs.combine op rhs)

def readClimb (lhs : Formula) (least : Precedence) : Counting Formula := do
  climbRounds nested least (← plain Level.remaining) lhs

/-- The rules, with the given ones for what is nested. -/
def Rules.around : Rules where
  operand := readOperand nested
  climb := readClimb nested
  group := readGroup nested

def readPart : Parser.Part → Counting Parser.Piece
  | .formula => .formula <$> (Rules.around nested).formula
  | .call => .formula <$> readCall nested
  | .number => .formula <$> plain .number
  | .symbol => do return .formula (.symbol (← plain .symbol))
  | .atom => .enclosed <$> readAtom nested
  | .group => .enclosed <$> readGroup nested
  | .sign => .sign <$> plain .signMark
  | .operator => .operator <$> plain .operatorMark

/-- Takes a step. -/
def take : Parser.Step → Counting Parser.Reply
  | .next => .token <$> plain .next
  | .part part .attempt => .piece <$> attempt (readPart nested part)
  | .part part .direct => .piece <$> readPart nested part
  | .part part .whole => .piece <$> readWhole (readPart nested part)
  | .operand => (.piece ∘ .formula) <$> readOperand nested
  | .signed => (.piece ∘ .formula) <$> readSigned nested
  | .climb lhs least => (.piece ∘ .formula) <$> readClimb nested lhs least
  | .declare names => (fun _ => .nothing) <$> declare names
  | .deeper times step => deeper^[times] (take step)

end

/-- The rules, given themselves some number of times for what is nested, and at the bottom
whatever there may be. -/
def Rules.unrolled (bottom : Rules) : Nat → Rules
  | 0 => bottom
  | times + 1 => .around (.unrolled bottom times)

/-! ### Agreement -/

section

variable {α β : Type} {declared : List String} {depth : Nat}

/-- Whether counting from a depth does what a reading does, and comes back to that depth
without having exceeded the limit. -/
def Tracks (declared : List String) (depth : Nat) (s : Counting α) (r : Reading α) : Prop :=
  ∀ cursor heldBack deepest, deepest ≤ nestingLimit → ∃ deepest' ≤ nestingLimit,
    s ⟨cursor, heldBack, depth, deepest, declared⟩ =
      ((r cursor).1, ⟨(r cursor).2, heldBack, depth, deepest', declared⟩)

theorem Tracks.pure (a : α) : Tracks declared depth (pure a) (pure a) :=
  fun _ _ deepest hle => ⟨deepest, hle, rfl⟩

theorem Tracks.plain (r : Reading α) : Tracks declared depth (plain r) r :=
  fun _ _ deepest hle => ⟨deepest, hle, rfl⟩

theorem Tracks.bind {s : Counting α} {r : Reading α} {t : α → Counting β}
    {k : α → Reading β} (h : Tracks declared depth s r)
    (hk : ∀ a, Tracks declared depth (t a) (k a)) :
    Tracks declared depth (s >>= t) (r >>= k) := by
  intro cursor heldBack deepest hle
  obtain ⟨deepest', hle', hs⟩ := h cursor heldBack deepest hle
  rw [Reading.bind_apply]
  change ∃ deepest' ≤ nestingLimit, andThen s t _ = _
  rw [andThen, hs]
  rcases r cursor with ⟨fault | a, cursor'⟩
  · exact ⟨deepest', hle', rfl⟩
  · exact hk a cursor' heldBack deepest' hle'

theorem Tracks.map {s : Counting α} {r : Reading α} (h : Tracks declared depth s r)
    (f : α → β) : Tracks declared depth (f <$> s) (f <$> r) :=
  h.bind fun a => .pure (f a)

theorem Tracks.ite {b : Prop} [Decidable b] {s s' : Counting α} {r r' : Reading α}
    (h : Tracks declared depth s r) (h' : Tracks declared depth s' r') :
    Tracks declared depth (if b then s else s') (if b then r else r') := by
  split
  · exact h
  · exact h'

/-- Looking up the names that are declared reads nothing. -/
theorem Tracks.declaredBind {t : List String → Counting α} {r : Reading α}
    (h : Tracks declared depth (t declared) r) :
    Tracks declared depth (declaredNames >>= t) r :=
  h

theorem Tracks.attempt {s : Counting α} {r : Reading α} (h : Tracks declared depth s r) :
    Tracks declared depth (attempt s) r.attempt := by
  intro cursor heldBack deepest hle
  obtain ⟨deepest', hle', hs⟩ := h cursor heldBack deepest hle
  rw [Reading.attempt_apply, Counting.attempt, hs]
  rcases r cursor with ⟨fault | a, cursor'⟩ <;> exact ⟨deepest', hle', rfl⟩

theorem Tracks.orFault {s : Counting α} {r : Reading α} (h : Tracks declared depth s r)
    (fault : Fault) : Tracks declared depth (orFault s fault) (r.orFault fault) := by
  intro cursor heldBack deepest hle
  obtain ⟨deepest', hle', hs⟩ := h cursor heldBack deepest hle
  rw [Reading.orFault, Counting.orFault, hs]
  rcases r cursor with ⟨fault | a, cursor'⟩ <;> exact ⟨deepest', hle', rfl⟩

/-- Whether the rules track what a level offers. -/
structure Rules.Track (declared : List String) (depth : Nat) (rules : Rules) (l : Level) :
    Prop where
  operand : Tracks declared depth rules.operand l.operand
  climb : ∀ lhs least, Tracks declared depth (rules.climb lhs least) (l.climb lhs least)
  group : Tracks declared depth rules.group l.group

theorem Rules.Track.formula {rules : Rules} {l : Level} (h : rules.Track declared depth l) :
    Tracks declared depth rules.formula l.formula :=
  h.operand.bind fun lhs => h.climb lhs .loosest

/-- Whether the rules for what is nested track the level below, which is missing exactly where
the count has reached the limit. -/
def Rules.TrackBelow (declared : List String) (depth : Nat) (nested : Rules) :
    Option Level → Prop
  | none => nestingLimit ≤ depth
  | some l => depth < nestingLimit ∧ nested.Track declared (depth + 1) l

variable {nested : Rules} {below : Option Level}

/-- A descent counts up, and down again however what is read there ends. -/
theorem tracks_descend (hbelow : nested.TrackBelow declared depth below)
    {s : Counting α} {k : Level → Reading α}
    (hk : ∀ l, nested.Track declared (depth + 1) l → Tracks declared (depth + 1) s (k l)) :
    Tracks declared depth (deeper s) (Level.descend below k) := by
  intro cursor heldBack deepest hle
  cases below with
  | none =>
      have hlimit : ¬depth < nestingLimit := Nat.not_lt.2 hbelow
      exact ⟨deepest, hle, if_neg hlimit⟩
  | some l =>
      obtain ⟨hlt, htrack⟩ := hbelow
      obtain ⟨deepest', hle', hs⟩ :=
        hk l htrack cursor heldBack (max deepest (depth + 1)) (Nat.max_le.2 ⟨hle, hlt⟩)
      refine ⟨deepest', hle', ?_⟩
      rw [deeper, if_pos hlt]
      simp only [hs, Nat.add_sub_cancel]
      rfl

section

variable (hbelow : nested.TrackBelow declared depth below)
include hbelow

theorem tracks_readGroup : Tracks declared depth (readGroup nested) (Level.readGroup below) :=
  (Tracks.plain _).attempt.bind fun opening =>
    (tracks_descend hbelow fun _ h => h.formula).bind fun _ =>
      ((Tracks.plain _).attempt.orFault ⟨[opening.span], .unclosedBracket⟩).bind fun _ =>
        .pure _

theorem tracks_readCall : Tracks declared depth (readCall nested) (Level.readCall below) := by
  refine (Tracks.plain _).bind fun function => .ite (.plain _) ?_
  refine (Tracks.plain _).bind fun opens => .ite (.plain _) ?_
  exact (tracks_descend hbelow fun _ h => h.group).bind fun _ => .pure _

theorem tracks_readNamed (name : Token) :
    Tracks declared depth (readNamed nested name) (Level.readNamed declared below name) :=
  .ite (tracks_readCall hbelow).attempt <| .declaredBind <|
    (Tracks.plain _).bind fun _ =>
      .ite (.plain _) ((Tracks.plain _).attempt.bind fun _ => .pure _)

theorem tracks_readAtom :
    Tracks declared depth (readAtom nested) (Level.readAtom declared below) := by
  refine (Tracks.plain _).bind fun here => ?_
  rcases here with _ | t
  · exact .plain _
  · dsimp only
    cases t.kind with
    | number => exact (Tracks.plain _).attempt.map _
    | name => exact (tracks_readNamed hbelow t).map _
    | openBracket => exact (tracks_readGroup hbelow).attempt
    | _ => exact .plain _

theorem tracks_readSigned :
    Tracks declared depth (readSigned nested) (Level.readSigned below) := by
  refine (Tracks.plain _).attempt.bind fun mark => ?_
  refine (Tracks.plain _).bind fun opens => .ite (.plain _) ?_
  refine (tracks_descend hbelow fun _ h => ?_).bind fun _ => .pure _
  exact h.operand.bind fun lhs => h.climb lhs mark.sign.precedence

theorem tracks_readOperand :
    Tracks declared depth (readOperand nested) (Level.readOperand declared below) := by
  refine (Tracks.plain _).bind fun here => ?_
  rcases here with _ | t
  · exact .plain _
  · dsimp only
    cases t.kind with
    | add | subtract => exact tracks_readSigned hbelow
    | number | name | openBracket => exact (tracks_readAtom hbelow).attempt.map _
    | _ => exact .plain _

theorem tracks_readRightOperand (op : OperatorMark) :
    Tracks declared depth (readRightOperand nested op)
      (Level.readRightOperand declared below op) := by
  refine .ite ((tracks_readAtom hbelow).attempt.map _) ?_
  refine (Tracks.plain _).attempt.bind fun _ => (Tracks.plain _).bind fun following => ?_
  exact .ite (tracks_readOperand hbelow) (.plain _)

theorem tracks_completeRight (op : OperatorMark) (rounds : Nat) (rhs : Formula) :
    Tracks declared depth (completeRight nested op rounds rhs)
      (Level.completeRight below op rounds rhs) := by
  induction rounds generalizing rhs with
  | zero => exact .pure _
  | succ rounds ih =>
      refine (Tracks.plain _).bind fun following => ?_
      rcases following with _ | following
      · exact .pure _
      · refine .ite ?_ (.pure _)
        exact (tracks_descend hbelow fun _ h => h.climb rhs following.precedence).bind
          fun _ => ih _

theorem tracks_climbRounds (least : Precedence) (rounds : Nat) (lhs : Formula) :
    Tracks declared depth (climbRounds nested least rounds lhs)
      (Level.climbRounds declared below least rounds lhs) := by
  induction rounds generalizing lhs with
  | zero => exact .pure _
  | succ rounds ih =>
      refine (Tracks.plain _).bind fun op => ?_
      rcases op with _ | op
      · exact .pure _
      · refine .ite (.pure _) ?_
        refine (tracks_readRightOperand hbelow op).bind fun rhs => ?_
        refine (Tracks.plain _).bind fun left => ?_
        exact (tracks_completeRight hbelow op left rhs).bind fun _ => ih _

theorem tracks_readClimb (lhs : Formula) (least : Precedence) :
    Tracks declared depth (readClimb nested lhs least)
      (Level.readClimb declared below lhs least) :=
  (Tracks.plain _).bind fun left => tracks_climbRounds hbelow least left lhs

theorem track_around : (Rules.around nested).Track declared depth (.above declared below) where
  operand := tracks_readOperand hbelow
  climb := tracks_readClimb hbelow
  group := tracks_readGroup hbelow

theorem tracks_readPart (part : Parser.Part) :
    Tracks declared depth (readPart nested part)
      (part.reading declared below (.above declared below)) := by
  cases part with
  | formula => exact (track_around hbelow).formula.map _
  | call => exact (tracks_readCall hbelow).map _
  | atom => exact (tracks_readAtom hbelow).map _
  | group => exact (tracks_readGroup hbelow).map _
  | number | sign | operator => exact (Tracks.plain _).map _
  | symbol => exact (Tracks.plain _).bind fun _ => .pure _

end

/-- The rules need themselves no more often than there are descents left. -/
theorem trackBelow_unrolled (declared : List String) (bottom : Rules) {descents times : Nat}
    (hdepth : depth + descents = nestingLimit) (htimes : descents ≤ times) :
    (bottom.unrolled times).TrackBelow declared depth (Level.below? declared descents) := by
  induction descents generalizing depth times with
  | zero => exact Nat.le_of_eq hdepth.symm
  | succ descents ih =>
      obtain ⟨times, rfl⟩ := Nat.exists_eq_add_of_le' (Nat.le_trans (Nat.le_add_left 1 _) htimes)
      refine ⟨by omega, track_around (ih ?_ ?_)⟩ <;> omega

end

end Counting

namespace Parser

open Counting

section

variable {α : Type} {f : Parser → Except Fault α × Parser}

/-- Reading a whole text reports the fault held back, or one of the brackets, or one of a token
left over, and else does what reading does. -/
theorem readWhole_cases (p : Parser) (r : Level → Reading α) :
    (∃ fault, p.heldBack = some fault ∧
      p.readWhole r = (.error fault, { p with heldBack := none })) ∨
    p.heldBack = none ∧ ((∃ fault, p.readWhole r = (.error fault, p)) ∨
      (∃ fault, p.readWhole r = (.error fault, (p.read r).2)) ∨
      p.readWhole r = p.read r) := by
  cases hheld : p.heldBack with
  | some fault => exact .inl ⟨fault, rfl, by simp only [readWhole, hheld]⟩
  | none =>
      refine .inr ⟨rfl, ?_⟩
      cases hbrackets : bracketFault? p.cursor.tokens with
      | some fault => exact .inl ⟨fault, by simp only [readWhole, hheld, hbrackets]⟩
      | none =>
          right
          simp only [readWhole, hheld, hbrackets]
          split
          next token _ _ => exact .inl ⟨leftoverFault token, rfl⟩
          next => exact .inr rfl

theorem depth_readWhole (p : Parser) (r : Level → Reading α) :
    (p.readWhole r).2.depth = p.depth := by
  obtain ⟨_, -, h⟩ | ⟨-, ⟨_, h⟩ | ⟨_, h⟩ | h⟩ := p.readWhole_cases r <;>
    exact congrArg (·.2.depth) h

theorem depth_deeperTimes (hf : ∀ p, (f p).2.depth = p.depth) (times : Nat) (p : Parser) :
    (deeperTimes f times p).2.depth = p.depth := by
  cases times with
  | zero => exact hf p
  | succ times =>
      rw [deeperTimes, deeper]
      split <;> rfl

/-- Every step comes back to the depth where it began. -/
theorem depth_take (step : Step) (p : Parser) : (take step p).2.depth = p.depth := by
  induction step generalizing p with
  | next | operand | signed | climb | declare => rfl
  | part part manner =>
      cases manner with
      | attempt | direct => rfl
      | whole => exact depth_readWhole p _
  | deeper times step ih => exact depth_deeperTimes ih times p

/-- The parser with a count, and the largest one so far. -/
def counting (p : Parser) (deepest : Nat) : CountingParser :=
  ⟨p.cursor, p.heldBack, p.depth, deepest, p.declared⟩

/-- Whether counting does what a parser does, without exceeding the limit. -/
def Follows (s : Counting α) (f : Parser → Except Fault α × Parser) : Prop :=
  ∀ (p : Parser) (deepest : Nat), deepest ≤ nestingLimit → ∃ deepest' ≤ nestingLimit,
    s (p.counting deepest) = ((f p).1, (f p).2.counting deepest')

variable {s : Counting α}

theorem follows_read {r : Parser → Level → Reading α}
    (h : ∀ p : Parser, Tracks p.declared p.depth s (r p p.level)) :
    Follows s fun p => p.read (r p) :=
  fun p => h p p.cursor p.heldBack

theorem Follows.mapReply (h : Follows s f) (g : α → Reply) :
    Follows (g <$> s) fun p => mapReply g (f p) := by
  intro p deepest hle
  obtain ⟨deepest', hle', hs⟩ := h p deepest hle
  refine ⟨deepest', hle', ?_⟩
  change andThen s (fun a => yield (g a)) _ = _
  rw [andThen, hs]
  dsimp only [Parser.mapReply]
  rcases f p with ⟨fault | a, q⟩ <;> rfl

/-- Counting down again gives the depth that the parser remembers. -/
theorem Follows.deeper (h : Follows s f) (hf : ∀ p, (f p).2.depth = p.depth) :
    Follows (Counting.deeper s) fun p => p.deeper f := by
  intro p deepest hle
  by_cases hlt : p.depth < nestingLimit
  · obtain ⟨deepest', hle', hs⟩ := h { p with depth := p.depth + 1, depth_le := hlt }
      (max deepest (p.depth + 1)) (Nat.max_le.2 ⟨hle, hlt⟩)
    refine ⟨deepest', hle', ?_⟩
    simp only [counting] at hs
    simp only [Parser.deeper, Counting.deeper, counting, dif_pos hlt, if_pos hlt, hs, hf,
      Nat.add_sub_cancel]
  · refine ⟨deepest, hle, ?_⟩
    simp only [Parser.deeper, dif_neg hlt]
    exact if_neg hlt

theorem Follows.deeperTimes (h : Follows s f) (hf : ∀ p, (f p).2.depth = p.depth)
    (times : Nat) : Follows (Counting.deeper^[times] s) (Parser.deeperTimes f times) := by
  induction times with
  | zero => exact h
  | succ times ih =>
      rw [Function.iterate_succ_apply']
      exact ih.deeper (depth_deeperTimes hf times)

theorem Follows.readWhole {r : Parser → Level → Reading α}
    (h : Follows s fun p => p.read (r p)) :
    Follows (Counting.readWhole s) fun p => p.readWhole (r p) := by
  intro p deepest hle
  obtain ⟨deepest', hle', hs⟩ := h p deepest hle
  simp only [Counting.readWhole, Parser.readWhole, hs]
  simp only [counting]
  cases hheld : p.heldBack with
  | some fault => exact ⟨deepest, hle, rfl⟩
  | none =>
      cases hbrackets : bracketFault? p.cursor.tokens with
      | some fault => exact ⟨deepest, hle, by rw [hheld]⟩
      | none =>
          refine ⟨deepest', hle', ?_⟩
          rcases p.read (r p) with ⟨fault | a, q⟩
          · rfl
          · dsimp only
            cases q.cursor.here? <;> rfl

end

variable {times : Nat}

/-- With the limit in place, the rules at the bottom are out of reach of every parser. -/
theorem trackBelow (bottom : Rules) (htimes : nestingLimit ≤ times) (p : Parser) :
    (bottom.unrolled times).TrackBelow p.declared p.depth p.below? :=
  trackBelow_unrolled p.declared bottom (Nat.add_sub_of_le p.depth_le)
    (Nat.le_trans (Nat.sub_le ..) htimes)

/-- Every step is taken in the same way with a count. -/
theorem follows_take (bottom : Rules) (htimes : nestingLimit ≤ times) (step : Step) :
    Follows (Counting.take (bottom.unrolled times) step) (take step) := by
  have hbelow := trackBelow bottom htimes
  induction step with
  | next => exact (follows_read fun _ => .plain _).mapReply _
  | part part manner =>
      have hpart (p : Parser) := tracks_readPart (hbelow p) part
      cases manner with
      | attempt => exact (follows_read fun p => (hpart p).attempt).mapReply _
      | direct => exact (follows_read hpart).mapReply _
      | whole => exact (follows_read hpart).readWhole.mapReply _
  | operand => exact (follows_read fun p => tracks_readOperand (hbelow p)).mapReply _
  | signed => exact (follows_read fun p => tracks_readSigned (hbelow p)).mapReply _
  | climb lhs least =>
      exact (follows_read fun p => tracks_readClimb (hbelow p) lhs least).mapReply _
  | declare names => exact fun _ deepest hle => ⟨deepest, hle, rfl⟩
  | deeper times step ih => exact ih.deeperTimes (depth_take step) times

end Parser

end FormulaGrading
