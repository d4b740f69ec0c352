import FormRules.Main
import FormRules.Proofs.Evaluator.Selection
import FormRules.Proofs.Extraction.Completeness
import FormRules.Proofs.Extraction.Firing
import FormRules.Proofs.Extraction.FirstMissing
import FormRules.Proofs.Form.Hiding
import FormRules.Proofs.Form.Independence
import FormRules.Proofs.Form.Mirror
import FormRules.Proofs.Form.Offers
import FormRules.Proofs.Form.Restatement
import FormRules.Proofs.Form.Start
import FormRules.Proofs.Form.Targets
import FormRules.Proofs.Rule.Saving
import FormRules.Proofs.Command.AllOrNothing
import FormRules.Proofs.Command.Report
import FormRules.Proofs.Extraction.Depth
import FormRules.Proofs.Command.SavedRules
import FormRules.Proofs.Condition.Conjunction
import FormRules.Proofs.Json.Replacing
import FormRules.Proofs.Rule.ConditionList
import FormRules.Proofs.Layout.Validation
import FormRules.Proofs.Condition.Reason
import FormRules.Proofs.Layout.Rewriting
import FormRules.Proofs.Layout.TextAgreement
import FormRules.Proofs.Form.Missing
import FormRules.Proofs.Rule.Compilation
import FormRules.Proofs.Condition.Renaming
import FormRules.Proofs.Condition.Touch
import FormRules.Proofs.Evaluator.Restriction
import FormRules.Proofs.Evaluator.RequiredFields
import FormRules.Proofs.Evaluator.ShortCircuit
import FormRules.Proofs.Condition.Display
import FormRules.Proofs.Form.Grouping
import FormRules.Proofs.Extraction.Policy
import FormRules.Proofs.Extraction.Agreement
import FormRules.Proofs.Extraction.Warnings
import FormRules.Proofs.Form.Warnings
