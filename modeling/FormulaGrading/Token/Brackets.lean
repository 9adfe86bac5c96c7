import FormulaGrading.Fault

/-!
Whether every bracket has its partner.
-/

namespace FormulaGrading

/-- The fault in the brackets of tokens that come after some brackets which are still
open, the one opened last first. A closing bracket without a partner is at fault at
once; an opening one is only at the end, and then the earliest of them. -/
def bracketFaultFrom? : List Span → List Token → Option Fault
  | unclosed, [] => unclosed.getLast?.map fun span => ⟨[span], .unclosedBracket⟩
  | unclosed, token :: rest =>
      match token.kind with
      | .openBracket => bracketFaultFrom? (token.span :: unclosed) rest
      | .closeBracket =>
          match unclosed with
          | [] => some ⟨[token.span], .unopenedBracket⟩
          | _ :: outer => bracketFaultFrom? outer rest
      | _ => bracketFaultFrom? unclosed rest

/-- The fault in the brackets of tokens, unless every bracket has its partner. -/
def bracketFault? (tokens : List Token) : Option Fault :=
  bracketFaultFrom? [] tokens

end FormulaGrading
