import Overload.Annotation
import Overload.Binary64.Basic
import Overload.Binary64.Shortest
import Overload.Catalog
import Overload.CommandLine.Command
import Overload.CommandLine.Error
import Overload.CommandLine.Outcome
import Overload.Document.Decoder
import Overload.Document.Error
import Overload.Document.Hierarchy
import Overload.Document.Options
import Overload.Document.Record
import Overload.Document.Resolver
import Overload.Document.Schema
import Overload.Document.Type
import Overload.Event
import Overload.Grouping
import Overload.Hierarchy.Basic
import Overload.Hierarchy.Builtin
import Overload.Hierarchy.Join
import Overload.Hierarchy.Lineage
import Overload.Hierarchy.Validity
import Overload.Json.Basic
import Overload.Json.Printer
import Overload.Json.Reader
import Overload.Main
import Overload.Name
import Overload.Operation.Basic
import Overload.Operation.Build
import Overload.Proofs.Acyclic
import Overload.Proofs.AgreeingSearch
import Overload.Proofs.Annotation
import Overload.Proofs.ArgumentMerge
import Overload.Proofs.Blank
import Overload.Proofs.BreadthFirst
import Overload.Proofs.BuildOrder
import Overload.Proofs.BuildOutcome
import Overload.Proofs.Built
import Overload.Proofs.Canonical
import Overload.Proofs.Catalog
import Overload.Proofs.Checked
import Overload.Proofs.CheckedJoin
import Overload.Proofs.CheckedOperation
import Overload.Proofs.Conservation
import Overload.Proofs.CycleSearch
import Overload.Proofs.Decoder
import Overload.Proofs.Dispatch
import Overload.Proofs.Extension
import Overload.Proofs.FirstTypes
import Overload.Proofs.FlatUnion
import Overload.Proofs.Grouping
import Overload.Proofs.Instantiation
import Overload.Proofs.Join
import Overload.Proofs.JoinAbsorption
import Overload.Proofs.JoinAncestor
import Overload.Proofs.JoinBound
import Overload.Proofs.JoinChoice
import Overload.Proofs.JoinDepth
import Overload.Proofs.JoinPermutation
import Overload.Proofs.JoinRepetition
import Overload.Proofs.Json
import Overload.Proofs.JsonPrinting
import Overload.Proofs.JsonReading
import Overload.Proofs.JsonText
import Overload.Proofs.Lineage
import Overload.Proofs.Lists
import Overload.Proofs.Lossless
import Overload.Proofs.NameOrder
import Overload.Proofs.NormalUnions
import Overload.Proofs.NumberPrinting
import Overload.Proofs.Outcome
import Overload.Proofs.Plain
import Overload.Proofs.ReaderBounds
import Overload.Proofs.ReaderStops
import Overload.Proofs.Rebuilding
import Overload.Proofs.Receivers
import Overload.Proofs.Record
import Overload.Proofs.Rejection
import Overload.Proofs.ResolverDocument
import Overload.Proofs.ResultType
import Overload.Proofs.Resumption
import Overload.Proofs.Rounding
import Overload.Proofs.SameType
import Overload.Proofs.Shortest
import Overload.Proofs.Stored
import Overload.Proofs.Subtype
import Overload.Proofs.SyntaxErrors
import Overload.Proofs.TypeDocument
import Overload.Proofs.TypeExpr
import Overload.Proofs.TypePrinting
import Overload.Proofs.TypeReading
import Overload.Proofs.TypeSet
import Overload.Proofs.TypeTokens
import Overload.Proofs.Validity
import Overload.Proofs.ValueCut
import Overload.Resolver
import Overload.Sorted
import Overload.Text.Alphabetic
import Overload.Text.Blank
import Overload.Text.Invisible
import Overload.TypeExpr.Basic
import Overload.TypeExpr.Printer
import Overload.TypeExpr.Reader
