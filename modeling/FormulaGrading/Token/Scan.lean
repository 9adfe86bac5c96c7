import FormulaGrading.Fault

/-!
Scanning: from the characters of a formula to its tokens.

At each place the longest token is taken, and a character that begins no token and
is not skipped is a fault. The kind of a token is settled by its first character,
with one character more for numbers that begin with a point.
-/

namespace FormulaGrading.Token

/-- The characters between tokens that are passed over. -/
def isSkipped (c : Char) : Bool :=
  c = ' ' || c = '\t' || c = '\r' || c = '\n' || c = '\x0c'

/-- The kinds of tokens that are always one and the same character. -/
def symbolKind? : Char → Option TokenClass
  | '+' => some .add
  | '-' => some .subtract
  | '*' => some .multiply
  | '/' => some .divide
  | '^' => some .power
  | '(' => some .openBracket
  | ')' => some .closeBracket
  | _ => none

/-- The longest run of digits at the front. -/
def digitRun (cs : List Char) : List Char :=
  cs.takeWhile Char.isDigit

/-- The longest name at the front: letters, then digits. -/
def nameRun (cs : List Char) : List Char :=
  cs.takeWhile Char.isAlpha ++ digitRun (cs.dropWhile Char.isAlpha)

/-- The marker of an exponent with its digits, if there are any. -/
def withDigits (marker rest : List Char) : List Char :=
  let digits := digitRun rest
  if digits.isEmpty then [] else marker ++ digits

/-- The longest exponent at the front; empty unless it has a digit. -/
def exponentRun : List Char → List Char
  | c :: rest =>
      if c = 'e' || c = 'E' then
        match rest with
        | '+' :: more => withDigits [c, '+'] more
        | '-' :: more => withDigits [c, '-'] more
        | more => withDigits [c] more
      else []
  | [] => []

/-- The point and digits at the front, if it begins with a point. -/
def fractionRun : List Char → List Char
  | '.' :: rest => '.' :: digitRun rest
  | _ => []

/-- The longest number at the front; empty if there is none. The digits before or
those after the point may be missing, but not both. -/
def numberRun (cs : List Char) : List Char :=
  let whole := digitRun cs
  let fraction := fractionRun (cs.drop whole.length)
  if whole.isEmpty && fraction.length < 2 then []
  else
    let mantissa := whole ++ fraction
    mantissa ++ exponentRun (cs.drop mantissa.length)

/-- The longest token at the front, with its kind. -/
def longest? (cs : List Char) : Option (TokenClass × List Char) :=
  match cs with
  | [] => none
  | c :: _ =>
      match symbolKind? c with
      | some kind => some (kind, [c])
      | none =>
          if c.isAlpha then some (.name, nameRun cs)
          else
            match numberRun cs with
            | [] => none
            | lexeme => some (.number, lexeme)

/-- The number of bytes that characters take up. -/
def byteLength : List Char → Nat
  | [] => 0
  | c :: cs => c.utf8Size + byteLength cs

/-- The tokens of the characters from an offset on, after as many characters as still
belong to the token before them. -/
def scanFrom : Nat → Nat → List Char → Except Fault (List Token)
  | _, _, [] => .ok []
  | pending + 1, offset, c :: cs => scanFrom pending (offset + c.utf8Size) cs
  | 0, offset, c :: cs =>
      if isSkipped c then scanFrom 0 (offset + c.utf8Size) cs
      else
        match longest? (c :: cs) with
        | none =>
            .error ⟨[⟨offset, offset + c.utf8Size⟩], .unknownText (String.singleton c)⟩
        | some (kind, lexeme) =>
            let token : Token :=
              ⟨kind, String.ofList lexeme, ⟨offset, offset + byteLength lexeme⟩⟩
            match scanFrom (lexeme.length - 1) (offset + c.utf8Size) cs with
            | .ok tokens => .ok (token :: tokens)
            | .error fault => .error fault

/-- The tokens of a text, or the fault at the first place where there is none. -/
def scan (text : String) : Except Fault (List Token) :=
  scanFrom 0 0 text.toList

end FormulaGrading.Token
