import FormulaGrading.Fault
import FormulaGrading.Parser.Cursor

/-!
Readings: actions that pass over tokens and yield a value or a fault. A fault does
not undo what was passed over, unless the reading was only an attempt.
-/

namespace FormulaGrading

/-- From a place to a result and the place afterwards. -/
def Reading (α : Type) : Type :=
  Cursor → Except Fault α × Cursor

namespace Reading

/-- Yields a value without passing over anything. -/
def yield {α : Type} (a : α) : Reading α :=
  fun c => (.ok a, c)

/-- Goes on from where the first reading ended, unless it ended in a fault. -/
def andThen {α β : Type} (r : Reading α) (f : α → Reading β) : Reading β :=
  fun c =>
    match r c with
    | (.ok a, c') => f a c'
    | (.error fault, c') => (.error fault, c')

instance : Monad Reading where
  pure := yield
  bind := andThen

@[simp] theorem pure_apply {α : Type} (a : α) (c : Cursor) :
    (pure a : Reading α) c = (.ok a, c) :=
  rfl

theorem bind_apply {α β : Type} (r : Reading α) (f : α → Reading β) (c : Cursor) :
    (r >>= f) c =
      match r c with
      | (.ok a, c') => f a c'
      | (.error fault, c') => (.error fault, c') :=
  rfl

theorem bind_of_ok {α β : Type} {r : Reading α} {c c' : Cursor} {a : α}
    (h : r c = (.ok a, c')) (f : α → Reading β) : (r >>= f) c = f a c' := by
  rw [bind_apply, h]

theorem bind_of_error {α β : Type} {r : Reading α} {c c' : Cursor} {fault : Fault}
    (h : r c = (.error fault, c')) (f : α → Reading β) :
    (r >>= f) c = (.error fault, c') := by
  rw [bind_apply, h]

theorem map_apply {α β : Type} (f : α → β) (r : Reading α) (c : Cursor) :
    (f <$> r) c = ((r c).1.map f, (r c).2) := by
  change andThen r (fun a => yield (f a)) c = _
  unfold andThen
  rcases r c with ⟨fault | a, c'⟩ <;> rfl

/-- Ends in a fault. -/
def fail {α : Type} (fault : Fault) : Reading α :=
  fun c => (.error fault, c)

/-- Ends in a fault at the token that comes next. -/
def failHere {α : Type} (cause : Cause) : Reading α :=
  fun c => (.error ⟨[c.span], cause⟩, c)

/-- Looks at the place without moving it. -/
def look {α : Type} (f : Cursor → α) : Reading α :=
  fun c => (.ok (f c), c)

/-- Goes back to where the reading began if it ends in a fault. -/
def attempt {α : Type} (r : Reading α) : Reading α :=
  fun c =>
    match r c with
    | (.ok a, c') => (.ok a, c')
    | (.error fault, _) => (.error fault, c)

/-- Replaces the fault. -/
def orFault {α : Type} (r : Reading α) (fault : Fault) : Reading α :=
  fun c =>
    match r c with
    | (.ok a, c') => (.ok a, c')
    | (.error _, c') => (.error fault, c')

/-- Passes the next token. -/
def next : Reading Token :=
  fun c =>
    match c.next? with
    | some (token, c') => (.ok token, c')
    | none => (.error ⟨[c.span], .missingFormula⟩, c)

/-- Passes the next token, which must be of a certain sort. -/
def expecting {α : Type} (kinds : List TokenClass) (f : Token → Option α) :
    Reading α := do
  let token ← next
  match f token with
  | some a => pure a
  | none => fail ⟨[token.span], .strayToken kinds token.kind⟩

theorem attempt_apply {α : Type} (r : Reading α) (c : Cursor) :
    attempt r c =
      match r c with
      | (.ok a, c') => (.ok a, c')
      | (.error fault, _) => (.error fault, c) :=
  rfl

@[simp] theorem fail_apply {α : Type} (fault : Fault) (c : Cursor) :
    (fail fault : Reading α) c = (.error fault, c) :=
  rfl

@[simp] theorem failHere_apply {α : Type} (cause : Cause) (c : Cursor) :
    (failHere cause : Reading α) c = (.error ⟨[c.span], cause⟩, c) :=
  rfl

@[simp] theorem look_apply {α : Type} (f : Cursor → α) (c : Cursor) :
    look f c = (.ok (f c), c) :=
  rfl

/-- Passes a token of the given kind. -/
def token (kind : TokenClass) : Reading Token :=
  expecting [kind] fun t => if t.kind = kind then some t else none

end Reading

end FormulaGrading
