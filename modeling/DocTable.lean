import DocTable.Attribute.Basic
import DocTable.Attribute.Compare
import DocTable.Attribute.Decode
import DocTable.Attribute.Encode
import DocTable.Client.Basic
import DocTable.Client.Identifier
import DocTable.Client.Read
import DocTable.Client.Write
import DocTable.Command.Config
import DocTable.Command.Execute
import DocTable.Command.Flags
import DocTable.Command.Host
import DocTable.Command.Invocation
import DocTable.Command.Location
import DocTable.Command.Sandbox
import DocTable.Command.Source
import DocTable.Command.Suggestion
import DocTable.Command.Task
import DocTable.Document.Basic
import DocTable.Document.Embedded
import DocTable.Document.Parse
import DocTable.Document.Update
import DocTable.Expression.Apply
import DocTable.Expression.Condition
import DocTable.Expression.Context
import DocTable.Expression.Placeholders
import DocTable.Expression.Projection
import DocTable.Expression.Update
import DocTable.Fields
import DocTable.Json.Basic
import DocTable.Json.Reader
import DocTable.Log.Record
import DocTable.Log.Template
import DocTable.Main
import DocTable.Number.Binary
import DocTable.Number.Extended
import DocTable.Number.Integer
import DocTable.Number.Numeral
import DocTable.Number.Printed
import DocTable.Number.Rounding
import DocTable.Number.Shortest
import DocTable.Path
import DocTable.Proofs.Attribute.ConsistentOrder
import DocTable.Proofs.Attribute.EncodedDocuments
import DocTable.Proofs.Attribute.Equality
import DocTable.Proofs.Attribute.KeptNumerals
import DocTable.Proofs.Attribute.KnownValues
import DocTable.Proofs.Attribute.Order
import DocTable.Proofs.Attribute.Readable
import DocTable.Proofs.Attribute.RoundTrip
import DocTable.Proofs.Attribute.UsableValues
import DocTable.Proofs.Attribute.Wire
import DocTable.Proofs.Client.AccessPath
import DocTable.Proofs.Client.Calls
import DocTable.Proofs.Client.DirectiveUpdates
import DocTable.Proofs.Client.FailedWrites
import DocTable.Proofs.Client.GuardedWrites
import DocTable.Proofs.Client.InsertedDocuments
import DocTable.Proofs.Client.Locking
import DocTable.Proofs.Client.Prepared
import DocTable.Proofs.Client.UsableNumbers
import DocTable.Proofs.Command.LoadedSchemas
import DocTable.Proofs.Command.SameRequest
import DocTable.Proofs.Document.Directives
import DocTable.Proofs.Document.EncodedTrees
import DocTable.Proofs.Document.FieldsInMemory
import DocTable.Proofs.Document.KeptIntegers
import DocTable.Proofs.Expression.AddedAttribute
import DocTable.Proofs.Expression.ConditionGrammar
import DocTable.Proofs.Expression.DirectiveMeaning
import DocTable.Proofs.Expression.EditedMaps
import DocTable.Proofs.Expression.ExactProjections
import DocTable.Proofs.Expression.KeptAttribute
import DocTable.Proofs.Expression.NestedPaths
import DocTable.Proofs.Expression.PathEdits
import DocTable.Proofs.Expression.PathLaws
import DocTable.Proofs.Expression.Placeholders
import DocTable.Proofs.Expression.Selecting
import DocTable.Proofs.Expression.SetAttributes
import DocTable.Proofs.Expression.SharedMaps
import DocTable.Proofs.Expression.SharedPlaceholders
import DocTable.Proofs.Expression.TopLevelUpdate
import DocTable.Proofs.Expression.UnfoldedDrafts
import DocTable.Proofs.Expression.UnlinkedDrafts
import DocTable.Proofs.Expression.UntouchedPaths
import DocTable.Proofs.Expression.UpdateGrammar
import DocTable.Proofs.Expression.WrittenCondition
import DocTable.Proofs.Expression.WrittenUpdate
import DocTable.Proofs.Json.LaidNumbers
import DocTable.Proofs.Json.Layout
import DocTable.Proofs.Keyed
import DocTable.Proofs.Number.DecimalOrder
import DocTable.Proofs.Number.DoubleOrder
import DocTable.Proofs.Number.ExponentNumerals
import DocTable.Proofs.Number.IntegerNumerals
import DocTable.Proofs.Number.Integers
import DocTable.Proofs.Number.Magnitudes
import DocTable.Proofs.Number.MonotoneRounding
import DocTable.Proofs.Number.NearestMagnitudes
import DocTable.Proofs.Number.PlainDecimals
import DocTable.Proofs.Number.ShortestDecimals
import DocTable.Proofs.Number.ShortestDoubles
import DocTable.Proofs.Number.WrittenNumbers
import DocTable.Proofs.Outcome
import DocTable.Proofs.Request.GivenParams
import DocTable.Proofs.Request.Layers
import DocTable.Proofs.Request.Plain
import DocTable.Proofs.Request.Precedence
import DocTable.Proofs.Request.ReadBack
import DocTable.Proofs.Request.Shape
import DocTable.Proofs.Request.Shown
import DocTable.Proofs.Sorting
import DocTable.Proofs.StableSorting
import DocTable.Proofs.Store.Calls
import DocTable.Proofs.Store.Collected
import DocTable.Proofs.Store.Counters
import DocTable.Proofs.Store.Journal
import DocTable.Proofs.Store.KeyEmbedding
import DocTable.Proofs.Store.KeyIdentity
import DocTable.Proofs.Store.KeyOrder
import DocTable.Proofs.Store.KnownItems
import DocTable.Proofs.Store.OwnKeys
import DocTable.Proofs.Store.Paging
import DocTable.Proofs.Store.RangeOrder
import DocTable.Proofs.Store.Slot
import DocTable.Proofs.Store.Sound
import DocTable.Proofs.Store.Stored
import DocTable.Proofs.Store.WholeReading
import DocTable.Proofs.Table.Description
import DocTable.Proofs.Table.DescriptionInverse
import DocTable.Proofs.Table.File
import DocTable.Proofs.Table.Key
import DocTable.Proofs.Table.PlainParams
import DocTable.Proofs.Text.Parts
import DocTable.Proofs.Yaml.IntegerScalars
import DocTable.Request.Compile
import DocTable.Request.Operation
import DocTable.Request.Params
import DocTable.Request.Typed
import DocTable.Sorting
import DocTable.Store.Archive
import DocTable.Store.Basic
import DocTable.Store.Key
import DocTable.Store.Read
import DocTable.Store.Stored
import DocTable.Store.Write
import DocTable.Table.Description
import DocTable.Table.File
import DocTable.Table.Schema
import DocTable.Text.Base64
import DocTable.Text.Blank
import DocTable.Text.Bytes
import DocTable.Text.Case
import DocTable.Text.Layout
import DocTable.Text.Printable
import DocTable.Text.Quoted
import DocTable.Value.Basic
import DocTable.Value.Display
import DocTable.Value.Instant
import DocTable.Value.Interchange
import DocTable.Yaml.Content
import DocTable.Yaml.Cursor
import DocTable.Yaml.Document
import DocTable.Yaml.Fault
import DocTable.Yaml.Label
import DocTable.Yaml.Node
import DocTable.Yaml.Scalar
import DocTable.Yaml.Scanner
import DocTable.Yaml.Shape
import DocTable.Yaml.Timestamp
import DocTable.Yaml.Token
