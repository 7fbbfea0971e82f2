import ContentTables.Cache.Caches
import ContentTables.Cache.Grouped
import ContentTables.Cache.Key
import ContentTables.Condition.Basic
import ContentTables.Condition.Canonical
import ContentTables.Condition.Parse
import ContentTables.Config.File
import ContentTables.Config.File.Moment
import ContentTables.Config.File.Table
import ContentTables.Config.File.Text
import ContentTables.Config.File.Value
import ContentTables.Config.File.Word
import ContentTables.Config.Layers
import ContentTables.Config.Quoted
import ContentTables.Config.Settings
import ContentTables.Config.Variable
import ContentTables.ContentType.Compose
import ContentTables.ContentType.Descriptor
import ContentTables.ContentType.Lifecycle
import ContentTables.ContentType.Tables
import ContentTables.Error
import ContentTables.Hook.Describe
import ContentTables.Hook.Pipeline
import ContentTables.Json.Basic
import ContentTables.Json.Document
import ContentTables.Json.Parser
import ContentTables.Json.Printer
import ContentTables.Json.Record
import ContentTables.Json.Scanner
import ContentTables.Json.Sorted
import ContentTables.Number.Basic
import ContentTables.Number.Binary64
import ContentTables.Number.Literal
import ContentTables.Number.Shortest
import ContentTables.OrderedMap
import ContentTables.Query.Join
import ContentTables.Query.Select
import ContentTables.Query.Stored
import ContentTables.Query.Write
import ContentTables.Schema.Column
import ContentTables.Schema.Diff
import ContentTables.Schema.Table
import ContentTables.Script.Backend
import ContentTables.Script.Hold
import ContentTables.Script.Session
import ContentTables.Sql.Clause
import ContentTables.Sql.Definition
import ContentTables.Sql.Naming
import ContentTables.Sql.Quoted
import ContentTables.Sql.Statement
import ContentTables.Store.CoreTables
import ContentTables.Store.Event
import ContentTables.Store.Migration
import ContentTables.Store.Program
import ContentTables.Store.Records
import ContentTables.Store.Rows
import ContentTables.Store.Run
import ContentTables.Text.Basic
import ContentTables.Text.Unseen
import ContentTables.Proofs.Condition.Meaning
import ContentTables.Proofs.Sql.Reading
import ContentTables.Proofs.Sql.ClauseMeaning
import ContentTables.Proofs.Json.QuotedText
import ContentTables.Proofs.Json.TextInjective
import ContentTables.Proofs.Cache.KeyText
import ContentTables.Proofs.Condition.Reordered
import ContentTables.Proofs.Query.CacheKey
import ContentTables.Proofs.Store.Concurrent
import ContentTables.Proofs.Store.RowReads
import ContentTables.Proofs.Store.Forgetting
import ContentTables.Proofs.Store.FreshRows
import ContentTables.Proofs.Schema.Merging
import ContentTables.Proofs.Store.Refusals
import ContentTables.Proofs.Store.Accepting
import ContentTables.Proofs.ContentType.Composed
import ContentTables.Proofs.ContentType.Refusals
import ContentTables.Proofs.Schema.Altering
import ContentTables.Proofs.Entries
import ContentTables.Proofs.Json.NumberText
import ContentTables.Proofs.Json.ReadBack
import ContentTables.Proofs.Schema.ReadBack
import ContentTables.Proofs.Store.RecordText
import ContentTables.Proofs.Store.FreshSchemas
import ContentTables.Proofs.Store.SchemaReads
import ContentTables.Proofs.Store.RecordTable
import ContentTables.Proofs.Store.Scripted
import ContentTables.Proofs.Store.Migrating
import ContentTables.Proofs.Store.Reconciling
import ContentTables.Proofs.Store.Paths
import ContentTables.Proofs.Store.RowsForgotten
import ContentTables.Proofs.Sql.Pieces
import ContentTables.Proofs.Sql.QuotedTokens
import ContentTables.Proofs.Sql.Expanding
import ContentTables.Proofs.Query.Pieces
import ContentTables.Proofs.Query.NamesOnly
import ContentTables.Proofs.Condition.Parsed
import ContentTables.Proofs.Query.Placeholders
import ContentTables.Proofs.Number.Rounding
import ContentTables.Proofs.Number.PrintedDigits
import ContentTables.Proofs.Number.Reading
import ContentTables.Proofs.Json.Depth
import ContentTables.Proofs.Schema.Recordable
import ContentTables.Proofs.ContentType.Moving
import ContentTables.Proofs.ContentType.Lifecycle
import ContentTables.Proofs.Condition.Grammar
import ContentTables.Proofs.Condition.Rearranged
import ContentTables.Proofs.Store.RecordKept
import ContentTables.Proofs.Sql.Splitting
import ContentTables.Proofs.Sql.DefinitionText
import ContentTables.Proofs.Schema.Differences
import ContentTables.Proofs.ContentType.Planned
import ContentTables.Proofs.Store.Views
import ContentTables.Proofs.Store.ValidRecords
import ContentTables.Proofs.Store.Reinstalling
import ContentTables.Proofs.Store.Announcing
import ContentTables.Proofs.ContentType.Announced
import ContentTables.Proofs.Sql.Spans
import ContentTables.Proofs.Query.Restricted
import ContentTables.Proofs.Query.WrittenValues
import ContentTables.Proofs.Query.RestoredValues
import ContentTables.Proofs.Query.InsertedRows
import ContentTables.Proofs.Query.RequiredValues
import ContentTables.Proofs.Number.PrintedZero
import ContentTables.Proofs.Query.DefaultFlags
import ContentTables.Proofs.Sql.StatementWords
import ContentTables.Proofs.Query.JoinText
import ContentTables.Proofs.Query.JoinMeaning
import ContentTables.Proofs.Hook.PriorityOrder
import ContentTables.Proofs.Cache.History
import ContentTables.Proofs.Cache.Canonical
import ContentTables.Proofs.ContentType.CallerFields
