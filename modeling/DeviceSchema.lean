import DeviceSchema.Main
import DeviceSchema.Journal.Log
import DeviceSchema.Tree.Outline
import DeviceSchema.Proofs.Text.Numeral
import DeviceSchema.Proofs.Text.Regular
import DeviceSchema.Proofs.Arithmetic.Grammar
import DeviceSchema.Proofs.Arithmetic.Evaluation
import DeviceSchema.Proofs.Arithmetic.Depth
import DeviceSchema.Proofs.Token.Layout
import DeviceSchema.Proofs.Token.Holds
import DeviceSchema.Proofs.Token.Reads
import DeviceSchema.Proofs.Token.Reached
import DeviceSchema.Proofs.Token.Rank
import DeviceSchema.Proofs.Reading.Quiet
import DeviceSchema.Proofs.Reading.Orderly
import DeviceSchema.Proofs.Reading.Discipline
import DeviceSchema.Proofs.Reading.Values
import DeviceSchema.Proofs.Reading.Yields
import DeviceSchema.Proofs.Tree.Changes
import DeviceSchema.Proofs.Tree.Defects
import DeviceSchema.Proofs.Tree.Nodes
import DeviceSchema.Proofs.Tree.WellFormed
import DeviceSchema.Proofs.Tree.Recount
import DeviceSchema.Proofs.Tree.Mapping
import DeviceSchema.Proofs.Tree.Lookup
import DeviceSchema.Proofs.Tree.Reference
import DeviceSchema.Proofs.Tree.Retracing
import DeviceSchema.Proofs.Tree.Contents
import DeviceSchema.Proofs.Tree.Bounds
import DeviceSchema.Proofs.Tree.Conformity
import DeviceSchema.Proofs.Tree.Building
import DeviceSchema.Proofs.Construction.Element
import DeviceSchema.Proofs.Construction.Collection
import DeviceSchema.Proofs.Construction.Session
import DeviceSchema.Proofs.Construction.Discipline
import DeviceSchema.Proofs.Construction.Registries
import DeviceSchema.Proofs.Construction.ListEnd
import DeviceSchema.Proofs.Construction.WellFormed
import DeviceSchema.Proofs.Construction.Recount
import DeviceSchema.Proofs.CrossReference.Ranges
import DeviceSchema.Proofs.CrossReference.Resolving
import DeviceSchema.Proofs.CrossReference.Check
import DeviceSchema.Proofs.CrossReference.Internal
import DeviceSchema.Proofs.CrossReference.Repetition
import DeviceSchema.Proofs.CrossReference.Attachment
import DeviceSchema.Proofs.Lockstep.Steps
import DeviceSchema.Proofs.Lockstep.Element
import DeviceSchema.Proofs.Lockstep.Source
import DeviceSchema.Proofs.Writing.Pieces
import DeviceSchema.Proofs.Writing.Words
import DeviceSchema.Proofs.Writing.Values
import DeviceSchema.Proofs.Writing.Element
import DeviceSchema.Proofs.Writing.Collection
import DeviceSchema.Proofs.Writing.Source
import DeviceSchema.Proofs.Reading.Compositional
import DeviceSchema.Proofs.Journal.Reports
import DeviceSchema.Proofs.CrossReference.Leniency
import DeviceSchema.Proofs.CrossReference.Reordering
import DeviceSchema.Proofs.Construction.Loop
import DeviceSchema.Proofs.Token.Gathering
import DeviceSchema.Proofs.Construction.Termination
import DeviceSchema.Proofs.Token.Lines
import DeviceSchema.Proofs.Token.Runs
import DeviceSchema.Proofs.Reading.Failing
import DeviceSchema.Proofs.Construction.Calls
import DeviceSchema.Proofs.Construction.Attribution
import DeviceSchema.Proofs.Construction.LineCount
import DeviceSchema.Proofs.Tree.ReferencePrefix
import DeviceSchema.Proofs.Text.Literal
import DeviceSchema.Proofs.Tree.Initializer
import DeviceSchema.Proofs.Construction.AccessClauses
import DeviceSchema.Proofs.Construction.AccessScope
import DeviceSchema.Proofs.Token.Left
import DeviceSchema.Proofs.Token.Tied
import DeviceSchema.Proofs.Token.SourceText
import DeviceSchema.Proofs.Token.Expressions
import DeviceSchema.Proofs.Lockstep.Tracks
import DeviceSchema.Proofs.Lockstep.Statements
import DeviceSchema.Proofs.Lockstep.Calls
import DeviceSchema.Proofs.Construction.Deeds
import DeviceSchema.Proofs.Lockstep.Outcomes
import DeviceSchema.Proofs.Lockstep.ClauseTexts
import DeviceSchema.Proofs.Lockstep.ClauseRuns
import DeviceSchema.Proofs.Lockstep.ClauseOrder
import DeviceSchema.Proofs.Tree.Declaring
import DeviceSchema.Proofs.Tree.Settling
import DeviceSchema.Proofs.Token.Joining
import DeviceSchema.Proofs.Tree.Rendering
import DeviceSchema.Proofs.Tree.Publishing
import DeviceSchema.Proofs.Tree.Numbering
import DeviceSchema.Proofs.Construction.Identifiers
import DeviceSchema.Proofs.CrossReference.Unused
import DeviceSchema.Proofs.Json.Sameness
import DeviceSchema.Proofs.Tree.Address
import DeviceSchema.Proofs.Journal.Retention
import DeviceSchema.Proofs.Journal.Bounding
import DeviceSchema.Proofs.Tree.Document
