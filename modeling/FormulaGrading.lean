import FormulaGrading.Grading.OldRecord
import FormulaGrading.Main
import FormulaGrading.Proofs.Faults.Places
import FormulaGrading.Proofs.Grading.Loosening
import FormulaGrading.Proofs.Grading.OwnFormula
import FormulaGrading.Proofs.Grading.Spacing
import FormulaGrading.Proofs.Grading.Undeclared
import FormulaGrading.Proofs.Parsing.Declaring
import FormulaGrading.Proofs.Parsing.WellFormed
import FormulaGrading.Proofs.Grading.FullCredit
import FormulaGrading.Proofs.Binary64.Sum
import FormulaGrading.Proofs.Sampling.Bounds
import FormulaGrading.Proofs.Grading.Reviewed
import FormulaGrading.Proofs.Parsing.Joining
import FormulaGrading.Proofs.Grading.Commuting
import FormulaGrading.Proofs.Grading.Reordering
import FormulaGrading.Proofs.Grading.SingleSpaced
import FormulaGrading.Proofs.Grading.Finiteness
import FormulaGrading.Proofs.Parsing.Steps
import FormulaGrading.Proofs.Evaluation.OnePass
import FormulaGrading.Proofs.Evaluation.Relevance
import FormulaGrading.Proofs.Session.Seeding
import FormulaGrading.Proofs.Sampling.Redrawing
import FormulaGrading.Proofs.Writing.Fewest
import FormulaGrading.Proofs.Parsing.Shallow
import FormulaGrading.Proofs.Scanning.Rules
import FormulaGrading.Proofs.Scanning.Covering
import FormulaGrading.Proofs.Brackets.Partners
import FormulaGrading.Proofs.Grading.BlankResponses
import FormulaGrading.Proofs.Grading.Unusable
import FormulaGrading.Proofs.Session.Assignments
import FormulaGrading.Proofs.Grading.CanonicalText
import FormulaGrading.Proofs.Sampling.Constants
import FormulaGrading.Proofs.Parsing.Climbing
