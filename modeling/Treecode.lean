import Treecode.Main
import Treecode.Proofs.Growth
import Treecode.Proofs.Change
import Treecode.Proofs.Child
import Treecode.Proofs.Enclosed
import Treecode.Proofs.Steps
import Treecode.Proofs.Translation
import Treecode.Proofs.Effects
import Treecode.Proofs.Grammar
import Treecode.Proofs.StatementGrammar
import Treecode.Proofs.Derivation
import Treecode.Proofs.Frame
import Treecode.Proofs.GainedNames
import Treecode.Proofs.Included
import Treecode.Proofs.Soundness
import Treecode.Proofs.Reserved
import Treecode.Proofs.Scoping
import Treecode.Proofs.Arrival
import Treecode.Proofs.Siblings
import Treecode.Proofs.Constants
import Treecode.Proofs.Numerals
import Treecode.Proofs.Writable
import Treecode.Proofs.Printed
import Treecode.Proofs.TakenWords
import Treecode.Proofs.ExpressionWords
import Treecode.Proofs.PrintedStatements
import Treecode.Proofs.StatementWords
import Treecode.Proofs.RoundTrip
import Treecode.Proofs.Tiling
import Treecode.Proofs.Callees
import Treecode.Proofs.Cycles
import Treecode.Proofs.Demands
import Treecode.Proofs.GivenNames
import Treecode.Proofs.ConstantFlags
import Treecode.Proofs.TwoScopes
import Treecode.Proofs.Inclusions
import Treecode.Proofs.Interpolations
import Treecode.Proofs.ReadBack
import Treecode.Proofs.Moved
import Treecode.Proofs.Movement
import Treecode.Proofs.StatementMovement
import Treecode.Proofs.Formatting
import Treecode.Proofs.Concatenation
import Treecode.Proofs.Changes
import Treecode.Proofs.Linked
import Treecode.Proofs.Listed
import Treecode.Proofs.Places
import Treecode.Proofs.ScopeTurns
import Treecode.Proofs.Outcomes
import Treecode.Proofs.WellFormed
import Treecode.Proofs.Successive
import Treecode.Proofs.ErrorPlaces
import Treecode.Proofs.Bracketing
import Treecode.Proofs.DistinctTexts
import Treecode.Proofs.Nested
import Treecode.Proofs.SelfEqual
import Treecode.Proofs.Unambiguous
import Treecode.Proofs.Listing
import Treecode.Proofs.FollowedPrograms
import Treecode.Proofs.Precedence
import Treecode.Proofs.Interpolated
import Treecode.Proofs.Compound
import Treecode.Proofs.OperatorTrees
import Treecode.Proofs.Merged
import Treecode.Proofs.CaseLabels
import Treecode.Proofs.Spacing
import Treecode.Proofs.Delimited
import Treecode.Proofs.DefinitionForms
import Treecode.Proofs.RecordedValues
import Treecode.Proofs.AtWork
import Treecode.Proofs.Refusals
import Treecode.Proofs.Edits
import Treecode.Proofs.Dictionary
