import InspectionFormula.Expression.Agreement
import InspectionFormula.Interchange.Forms
import InspectionFormula.Proofs.Dependencies.SourceOrder
import InspectionFormula.Proofs.Dependencies.Stack
import InspectionFormula.Proofs.Evaluation.Faults
import InspectionFormula.Proofs.Evaluation.FiniteValues
import InspectionFormula.Proofs.Evaluation.Grades
import InspectionFormula.Proofs.Evaluation.Reentry
import InspectionFormula.Proofs.Evaluation.ReportedCycles
import InspectionFormula.Proofs.Expression.Written
import InspectionFormula.Proofs.Operation.Averages
import InspectionFormula.Proofs.Parsing.Extension
import InspectionFormula.Proofs.Parsing.Faults
import InspectionFormula.Proofs.Parsing.Incomplete
import InspectionFormula.Proofs.Parsing.Spacing
