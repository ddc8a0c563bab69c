import WafRules.Block
import WafRules.Setting
import WafRules.Proofs.Outcomes
import WafRules.Proofs.Lines
import WafRules.Proofs.Language
import WafRules.Proofs.Reading
import WafRules.Proofs.Form
import WafRules.Proofs.FormReading
import WafRules.Proofs.FormDescription
import WafRules.Proofs.Acceptance
import WafRules.Proofs.FormValue
import WafRules.Proofs.FormSplitting
import WafRules.Proofs.WellFormed
import WafRules.Proofs.Canonical
import WafRules.Proofs.QuoteParity
import WafRules.Proofs.Rendering
import WafRules.Proofs.RoundTrip
import WafRules.Proofs.ReadableRules
import WafRules.Proofs.Unambiguous
import WafRules.Proofs.ReadErrors
import WafRules.Proofs.RuleParts
import WafRules.Proofs.Elements
import WafRules.Proofs.TreeShape
import WafRules.Proofs.ViablePrefix
import WafRules.Proofs.HandmadeTrees
import WafRules.Proofs.AlikeTrees
import WafRules.Proofs.CursorRuns
import WafRules.Proofs.Directives
import WafRules.Proofs.Segmentation
import WafRules.Proofs.Diagnostics
import WafRules.Proofs.BlockComposition
import WafRules.Proofs.BlockRoundTrip
import WafRules.Proofs.LineLayout
import WafRules.Proofs.Wrapping
import WafRules.Proofs.LogRecords
