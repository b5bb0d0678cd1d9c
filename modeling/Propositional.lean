import Propositional.Main
import Propositional.Proofs.Formula.FirstImpossible
import Propositional.Proofs.Formula.Session
import Propositional.Proofs.Table.Composition
import Propositional.Proofs.Table.Outcome
import Propositional.Proofs.Table.RoundTrip
import Propositional.Proofs.Table.Spelling
import Propositional.Proofs.Table.Strictness
import Propositional.Proofs.Table.Verdicts
import Propositional.Proofs.Formula.Agenda
import Propositional.Proofs.Formula.Evaluation
import Propositional.Proofs.CommandLine.Blocks
import Propositional.Proofs.CommandLine.Response
import Propositional.Proofs.CommandLine.Flags
import Propositional.Proofs.Token.Locality
import Propositional.Proofs.Token.Resuming
import Propositional.Proofs.Formula.ColumnOrder
import Propositional.Proofs.Formula.FreshStart
import Propositional.Proofs.Table.Enumeration
import Propositional.Proofs.Table.Views
import Propositional.Proofs.CommandLine.Digits
import Propositional.Proofs.Formula.Nesting
import Propositional.Proofs.CommandLine.Nesting
import Propositional.Proofs.Formula.Renaming
import Propositional.Proofs.Table.Columns
import Propositional.Proofs.Table.Renaming
import Propositional.Proofs.FormulaLines
import Propositional.Proofs.Table.Heading
import Propositional.Proofs.Formula.Labelling
import Propositional.Proofs.Formula.Chains
