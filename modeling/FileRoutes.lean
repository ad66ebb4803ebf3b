import FileRoutes.Diagnostics
import FileRoutes.Event
import FileRoutes.FilePath
import FileRoutes.Json.Bag
import FileRoutes.Json.Basic
import FileRoutes.Json.Object
import FileRoutes.Json.Render
import FileRoutes.Number.Binary64
import FileRoutes.Number.Decimal
import FileRoutes.Options
import FileRoutes.Page.Cache
import FileRoutes.Page.Disk
import FileRoutes.Page.Error
import FileRoutes.Page.Extract
import FileRoutes.Page.Extractor
import FileRoutes.Page.Literal
import FileRoutes.Page.Meta
import FileRoutes.Page.MetaJson
import FileRoutes.Page.MetaKey
import FileRoutes.Page.Source
import FileRoutes.Proofs.Json.Documents
import FileRoutes.Proofs.Page.Batch
import FileRoutes.Proofs.Page.Change
import FileRoutes.Proofs.Page.Component
import FileRoutes.Proofs.Page.Faithful
import FileRoutes.Proofs.Page.History
import FileRoutes.Proofs.Page.LastLiteral
import FileRoutes.Proofs.Page.LastWritten
import FileRoutes.Proofs.Page.Object
import FileRoutes.Proofs.Page.Pool
import FileRoutes.Proofs.Page.Reading
import FileRoutes.Proofs.Page.Request
import FileRoutes.Proofs.Page.Restated
import FileRoutes.Proofs.Page.Runtime
import FileRoutes.Proofs.Page.Search
import FileRoutes.Proofs.Page.Static
import FileRoutes.Proofs.Page.Suspension
import FileRoutes.Proofs.Page.Verdict
import FileRoutes.Proofs.Page.Worker
import FileRoutes.Proofs.Record.Augment
import FileRoutes.Proofs.Record.Plan
import FileRoutes.Proofs.Record.Policies
import FileRoutes.Proofs.Record.Precedence
import FileRoutes.Proofs.Record.Resolve
import FileRoutes.Proofs.Record.Walk
import FileRoutes.Proofs.Route.Catchalls
import FileRoutes.Proofs.Route.Duplicates
import FileRoutes.Proofs.Route.FileNames
import FileRoutes.Proofs.Route.Forest
import FileRoutes.Proofs.Route.FullPath
import FileRoutes.Proofs.Route.Growth
import FileRoutes.Proofs.Route.Layout
import FileRoutes.Proofs.Route.Malformed
import FileRoutes.Proofs.Route.Nesting
import FileRoutes.Proofs.Route.Nodes
import FileRoutes.Proofs.Route.Order
import FileRoutes.Proofs.Route.Params
import FileRoutes.Proofs.Route.Parts
import FileRoutes.Proofs.Route.Placing
import FileRoutes.Proofs.Route.Planted
import FileRoutes.Proofs.Route.Ranks
import FileRoutes.Proofs.Route.SameRoute
import FileRoutes.Proofs.Route.Spine
import FileRoutes.Proofs.Route.Visits
import FileRoutes.Proofs.Route.Warnings
import FileRoutes.Proofs.Segment.Enclosed
import FileRoutes.Proofs.Segment.Literal
import FileRoutes.Proofs.Segment.Markers
import FileRoutes.Proofs.Segment.Orderly
import FileRoutes.Proofs.Segment.Percent
import FileRoutes.Proofs.Segment.Piece
import FileRoutes.Proofs.Segment.ReadBack
import FileRoutes.Proofs.Segment.Spelling
import FileRoutes.Proofs.Segment.Tokens
import FileRoutes.Proofs.Segment.Unclosed
import FileRoutes.Proofs.Service.Duplicates
import FileRoutes.Proofs.Service.Interleaving
import FileRoutes.Proofs.Service.Isolation
import FileRoutes.Proofs.Service.Loading
import FileRoutes.Proofs.Service.Rebuild
import FileRoutes.Proofs.Service.Use
import FileRoutes.Record.Field
import FileRoutes.Record.Json
import FileRoutes.Record.Module
import FileRoutes.Record.Normalize
import FileRoutes.Record.Plan
import FileRoutes.Route.Basic
import FileRoutes.Route.Build
import FileRoutes.Route.FileName
import FileRoutes.Route.Json
import FileRoutes.Route.Mode
import FileRoutes.Route.Tree
import FileRoutes.Route.Url
import FileRoutes.Script.Alphabet
import FileRoutes.Script.Dialect
import FileRoutes.Script.Grammar.Basic
import FileRoutes.Script.Grammar.Class
import FileRoutes.Script.Grammar.Expression
import FileRoutes.Script.Grammar.Function
import FileRoutes.Script.Grammar.Literal
import FileRoutes.Script.Grammar.Markup
import FileRoutes.Script.Grammar.Module
import FileRoutes.Script.Grammar.Operand
import FileRoutes.Script.Grammar.Statement
import FileRoutes.Script.Grammar.Type
import FileRoutes.Script.Lexeme
import FileRoutes.Script.Parse
import FileRoutes.Script.Suspension
import FileRoutes.Script.Tree
import FileRoutes.Segment.Compile
import FileRoutes.Segment.Percent
import FileRoutes.Segment.Token
import FileRoutes.Segment.Tokenize
import FileRoutes.Service
import FileRoutes.Text.Split
import FileRoutes.Text.Unicode
