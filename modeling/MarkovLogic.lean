import MarkovLogic.Main
import MarkovLogic.Proofs.Table
import MarkovLogic.Proofs.Distinct
import MarkovLogic.Proofs.Tuples
import MarkovLogic.Proofs.Domain.Ascending
import MarkovLogic.Proofs.Runs
import MarkovLogic.Proofs.ExactWeight
import MarkovLogic.Proofs.AtomSpace.Layout
import MarkovLogic.Proofs.AtomSpace.Places
import MarkovLogic.Proofs.AtomSpace.Existence
import MarkovLogic.Proofs.AtomSpace.Bounds
import MarkovLogic.Proofs.AtomSpace.Codec
import MarkovLogic.Proofs.AtomSpace.Numbering
import MarkovLogic.Proofs.AtomSpace.Repeats
import MarkovLogic.Proofs.AtomSpace.Relisting
import MarkovLogic.Proofs.Grounding.Instances
import MarkovLogic.Proofs.Grounding.Merging
import MarkovLogic.Proofs.Grounding.Simplification
import MarkovLogic.Proofs.Grounding.Worlds
import MarkovLogic.Proofs.Network.Assembly
import MarkovLogic.Proofs.Network.Reweighting
import MarkovLogic.Proofs.Network.Occurrences
import MarkovLogic.Proofs.Network.Flips
import MarkovLogic.Proofs.Network.Dependencies
import MarkovLogic.Proofs.Network.Validation
import MarkovLogic.Proofs.Network.History
import MarkovLogic.Proofs.Network.RealWeights
import MarkovLogic.Proofs.Network.Interruption
import MarkovLogic.Proofs.Network.Operations
import MarkovLogic.Proofs.Network.Persistence
import MarkovLogic.Proofs.Network.Score
import MarkovLogic.Proofs.Grounding.KeptLiterals
import MarkovLogic.Proofs.Grounding.Enumeration
import MarkovLogic.Proofs.Grounding.Contributions
import MarkovLogic.Proofs.Grounding.Acceptance
import MarkovLogic.Proofs.Grounding.NormalForm
import MarkovLogic.Proofs.Grounding.Coverage
import MarkovLogic.Proofs.Grounding.Composition
import MarkovLogic.Proofs.Grounding.Outcome
import MarkovLogic.Proofs.Grounding.Rearrangement
import MarkovLogic.Proofs.Grounding.Outline
import MarkovLogic.Proofs.Grounding.Regrounding
import MarkovLogic.Proofs.Grounding.Valuations
import MarkovLogic.Proofs.Grounding.TrueGroundings
import MarkovLogic.Proofs.Grounding.HardWeight
import MarkovLogic.Proofs.Grounding.NegativeWeights
import MarkovLogic.Proofs.Grounding.Permutation
import MarkovLogic.Proofs.Reading.Tokens
import MarkovLogic.Proofs.Reading.Lexing
import MarkovLogic.Proofs.Reading.Grammar
import MarkovLogic.Proofs.Reading.Derivations
import MarkovLogic.Proofs.Reading.Positions
import MarkovLogic.Proofs.Reading.Acceptance
import MarkovLogic.Proofs.Reading.Phrases
import MarkovLogic.Proofs.Reading.Conformity
import MarkovLogic.Proofs.Reading.Literals
import MarkovLogic.Proofs.Reading.NumeralGrammar
import MarkovLogic.Proofs.Reading.Numerals
import MarkovLogic.Proofs.Reading.RoundTrip
import MarkovLogic.Proofs.Reading.Clauses
import MarkovLogic.Proofs.Reading.Faults
import MarkovLogic.Proofs.Reading.Construction
import MarkovLogic.Proofs.Reading.Locations
import MarkovLogic.Proofs.Reading.Rereading
import MarkovLogic.Proofs.Grounding.WellFormed
import MarkovLogic.Proofs.Network.PrescribedWeights
import MarkovLogic.Proofs.AtomSpace.Description
import MarkovLogic.Proofs.Domain.Lookup
import MarkovLogic.Proofs.Domain.Insertion
import MarkovLogic.Proofs.Domain.Snapshots
import MarkovLogic.Proofs.Domain.Sessions
import MarkovLogic.Proofs.Domain.FilledNames
import MarkovLogic.Proofs.Domain.Batches
import MarkovLogic.Proofs.Network.Refusals
import MarkovLogic.Proofs.Reading.Arguments
import MarkovLogic.Proofs.Term.Construction
import MarkovLogic.Proofs.Term.Equality
import MarkovLogic.Proofs.Term.Variables
import MarkovLogic.Proofs.Term.Chains
import MarkovLogic.Proofs.Term.Resolution
import MarkovLogic.Proofs.Term.Staging
import MarkovLogic.Proofs.Domain.Seeding
import MarkovLogic.Proofs.Network.ReverseLookup
import MarkovLogic.Proofs.Term.Interchange
import MarkovLogic.Proofs.NumberValue
import MarkovLogic.Proofs.Report.Changes
