import Hygiene.Settings.Loading
import Hygiene.Proofs.Evaluation.Refusal
import Hygiene.Proofs.Evaluation.ScopeSafety
import Hygiene.Proofs.Layout.Lines
import Hygiene.Proofs.Layout.Reading
import Hygiene.Proofs.Layout.Widening
import Hygiene.Proofs.Sequence.CollectingRuns
import Hygiene.Proofs.Sequence.Walk
import Hygiene.Proofs.Template.Expansion
import Hygiene.Proofs.Template.Reproducible
import Hygiene.Proofs.Template.Sessions
import Hygiene.Proofs.Evaluation.Machine
import Hygiene.Proofs.Template.Staging
import Hygiene.Proofs.Evaluation.Slicing
import Hygiene.Proofs.Settings.Labelling
import Hygiene.Proofs.Evaluation.Adding
