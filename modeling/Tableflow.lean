import Tableflow.OrderedMap
import Tableflow.Names
import Tableflow.StableSort
import Tableflow.Log
import Tableflow.Text.Blank
import Tableflow.Text.Utf8
import Tableflow.Text.Unprintable
import Tableflow.Text.Quoted
import Tableflow.Text.Controls
import Tableflow.Number.Binary
import Tableflow.Number.Shortest
import Tableflow.Number.Text
import Tableflow.Number.Decimal
import Tableflow.Calendar.Date
import Tableflow.Calendar.Datetime
import Tableflow.Calendar.Reading
import Tableflow.Json.Basic
import Tableflow.Json.Printer
import Tableflow.Json.Reader
import Tableflow.Cell.Basic
import Tableflow.Cell.Convert
import Tableflow.Cell.Order
import Tableflow.Cell.Check
import Tableflow.Expr.Basic
import Tableflow.Expr.Eval
import Tableflow.Summary
import Tableflow.Csv.Reader
import Tableflow.Csv.Writer
import Tableflow.Table.Row
import Tableflow.Table.Basic
import Tableflow.Table.Csv
import Tableflow.Context
import Tableflow.Stage.Basic
import Tableflow.Stage.Apply
import Tableflow.Pipeline
import Tableflow.Program.Basic
import Tableflow.Program.Schedule
import Tableflow.Program.Run
import Tableflow.Document.Basic
import Tableflow.Document.Cell
import Tableflow.Document.Node
import Tableflow.Document.Expr
import Tableflow.Document.Program
import Tableflow.Document.Located
import Tableflow.Command.Error
import Tableflow.Command.Path
import Tableflow.Command.FileTree
import Tableflow.Command.Source
import Tableflow.Command.Palette
import Tableflow.Command.Run
import Tableflow.Command.Options
import Tableflow.Command.Execute
import Tableflow.Main
import Tableflow.Proofs.Dependencies
import Tableflow.Proofs.Reading
import Tableflow.Proofs.Orders
import Tableflow.Proofs.Circle
import Tableflow.Proofs.RunOrder
import Tableflow.Proofs.Turns
import Tableflow.Proofs.Settlement
import Tableflow.Proofs.AllOrNothing
import Tableflow.Proofs.Replay
import Tableflow.Proofs.Ancestry
import Tableflow.Proofs.Course
import Tableflow.Proofs.Blocking
import Tableflow.Proofs.Externals
import Tableflow.Proofs.Partition
import Tableflow.Proofs.Stages
import Tableflow.Proofs.Steps
import Tableflow.Proofs.Reachable
import Tableflow.Proofs.Freshness
import Tableflow.Proofs.Shape
import Tableflow.Proofs.Export
import Tableflow.Proofs.Exact
import Tableflow.Proofs.Rounding
import Tableflow.Proofs.Decimals
import Tableflow.Proofs.NumberOrder
import Tableflow.Proofs.DatetimeText
import Tableflow.Proofs.NumberText
import Tableflow.Proofs.Records
import Tableflow.Proofs.Documents
import Tableflow.Proofs.Numbers
import Tableflow.Proofs.DelimitedTables
import Tableflow.Proofs.Finiteness
import Tableflow.Proofs.TableDocuments
import Tableflow.Proofs.Comparison
import Tableflow.Proofs.Sorting
import Tableflow.Proofs.Joining
import Tableflow.Proofs.Lookups
import Tableflow.Proofs.RoundTrip
import Tableflow.Proofs.Reloading
import Tableflow.Proofs.Reshaping
import Tableflow.Proofs.Sessions
import Tableflow.Proofs.Composition
import Tableflow.Proofs.Footprint
import Tableflow.Proofs.FirstRows
import Tableflow.Proofs.Integers
import Tableflow.Proofs.Summaries
import Tableflow.Proofs.Agreement
import Tableflow.Proofs.Coherence
import Tableflow.Proofs.Fusion
import Tableflow.Proofs.Projection
import Tableflow.Proofs.Independence
import Tableflow.Proofs.DayNumbers
import Tableflow.Proofs.Conversions
import Tableflow.Proofs.ErrorPaths
import Tableflow.Proofs.Locations
import Tableflow.Proofs.CorrectRounding
import Tableflow.Proofs.Literals
import Tableflow.Proofs.OrderStatistics
import Tableflow.Proofs.DecimalSums
import Tableflow.Proofs.SingleValues
import Tableflow.Proofs.UniformRows
