/-!
Blank characters, and the three ways in which a text is cleared of them: at both
ends, between words, and everywhere.
-/

namespace FormulaGrading.Text

/-- Membership in the Unicode property `White_Space`. -/
def isBlank (c : Char) : Bool :=
  let n := c.toNat
  (9 ≤ n && n ≤ 13) || n = 32 || n = 0x85 || n = 0xA0 || n = 0x1680 ||
    (0x2000 ≤ n && n ≤ 0x200A) || n = 0x2028 || n = 0x2029 || n = 0x202F ||
    n = 0x205F || n = 0x3000

/-- The characters without the blanks at either end. -/
def trimmed (cs : List Char) : List Char :=
  ((cs.dropWhile isBlank).reverse.dropWhile isBlank).reverse

/-- The text without the blanks at either end. -/
def trim (text : String) : String :=
  String.ofList (trimmed text.toList)

/-- Whether the characters begin in the middle of a word. -/
def beginsInWord : List Char → Bool
  | [] => false
  | c :: _ => !isBlank c

/-- Puts a character in front of the first word. -/
def consToHead (c : Char) : List (List Char) → List (List Char)
  | [] => [[c]]
  | word :: rest => (c :: word) :: rest

/-- The maximal runs of characters that are not blank. -/
def wordLists : List Char → List (List Char)
  | [] => []
  | c :: cs =>
      if isBlank c then wordLists cs
      else if beginsInWord cs then consToHead c (wordLists cs)
      else [c] :: wordLists cs

/-- The words of a text, in order. -/
def words (text : String) : List String :=
  (wordLists text.toList).map String.ofList

/-- Every character that is not blank. -/
def compact (cs : List Char) : List Char :=
  cs.filter fun c => !isBlank c

end FormulaGrading.Text
