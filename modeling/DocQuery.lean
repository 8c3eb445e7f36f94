import DocQuery.Chain
import DocQuery.Driver.Faulty
import DocQuery.Driver.Recording
import DocQuery.Main
import DocQuery.Proofs.Connections
import DocQuery.Proofs.Clauses
import DocQuery.Proofs.Composition
import DocQuery.Proofs.EngineStates
import DocQuery.Proofs.QueryMeaning
import DocQuery.Proofs.Digits
import DocQuery.Proofs.JsonText
import DocQuery.Proofs.ScalarTexts
import DocQuery.Proofs.NumberText
import DocQuery.Proofs.ValueText
import DocQuery.Proofs.CollectionLines
import DocQuery.Proofs.CollectionDirectory
import DocQuery.Proofs.Reloading
import DocQuery.Proofs.Rounding
import DocQuery.Proofs.Scaling
import DocQuery.Proofs.ShortestDigits
import DocQuery.Proofs.ReadableValues
import DocQuery.Proofs.Reopening
import DocQuery.Proofs.Requests
import DocQuery.Proofs.Actions
import DocQuery.Proofs.Identifiers
import DocQuery.Proofs.Widening
import DocQuery.Proofs.ReopenedQueries
import DocQuery.Proofs.Endings
import DocQuery.Proofs.Preconditions
import DocQuery.Proofs.ChainSoundness
import DocQuery.Proofs.FilterLanguage
import DocQuery.Proofs.WriteThrough
import DocQuery.Proofs.ValueEquality
import DocQuery.Proofs.Places
import DocQuery.Proofs.Histories
import DocQuery.Proofs.SharedDatabases
import DocQuery.Proofs.DirectoryDatabases
import DocQuery.Proofs.InsertedDocuments
import DocQuery.Proofs.FailingInvocations
import DocQuery.Proofs.EqualityFilters
import DocQuery.Proofs.Agreement
import DocQuery.Proofs.Bookkeeping
import DocQuery.Proofs.AssignedValues
import DocQuery.Proofs.ParserDepth
import DocQuery.Proofs.Fragments
import DocQuery.Proofs.FieldOrder
import DocQuery.Proofs.ReorderedFilters
import DocQuery.Proofs.ComparisonOrder
import DocQuery.Proofs.PathUpdates
import DocQuery.Proofs.Edits
import DocQuery.Proofs.IndependentUpdates
import DocQuery.Proofs.BatchedAssignments
import DocQuery.Proofs.ReportedChanges
import DocQuery.Proofs.ParsedTrees
import DocQuery.Proofs.Phases
import DocQuery.Proofs.TreeUpdates
import DocQuery.Proofs.Simulations
import DocQuery.Proofs.FreshServers
