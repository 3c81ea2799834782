import DocCompiler.Main
import DocCompiler.Proofs.Build.Step
import DocCompiler.Proofs.Data.Registry
import DocCompiler.Proofs.Data.Result
import DocCompiler.Proofs.Annotation.Leaves
import DocCompiler.Proofs.Document.Form
import DocCompiler.Proofs.Build.View
import DocCompiler.Proofs.Build.Fragment
import DocCompiler.Proofs.Build.Reading
import DocCompiler.Proofs.Document.Change
import DocCompiler.Proofs.Build.Declaration
import DocCompiler.Proofs.Build.Document
import DocCompiler.Proofs.Document.Walk
import DocCompiler.Proofs.Document.Replace
import DocCompiler.Proofs.Document.Cycle
import DocCompiler.Proofs.Document.Alias
import DocCompiler.Proofs.Document.Resolution
import DocCompiler.Proofs.Document.Layout
import DocCompiler.Proofs.Document.Follow
import DocCompiler.Proofs.Document.Accept
import DocCompiler.Proofs.Document.Consistency
import DocCompiler.Proofs.Document.Nesting
import DocCompiler.Proofs.Document.Emission
import DocCompiler.Proofs.Text.Line
import DocCompiler.Proofs.Source.Place
import DocCompiler.Proofs.Annotation.Word
import DocCompiler.Proofs.Annotation.Run
import DocCompiler.Proofs.Annotation.Print
import DocCompiler.Proofs.Annotation.Reading
import DocCompiler.Proofs.Annotation.Level
import DocCompiler.Proofs.Annotation.Roundtrip
import DocCompiler.Proofs.Annotation.Recast
import DocCompiler.Proofs.Annotation.Substitution
import DocCompiler.Proofs.Annotation.Mark
import DocCompiler.Proofs.Annotation.Position
import DocCompiler.Proofs.Annotation.Located
import DocCompiler.Proofs.Number.Decimal
import DocCompiler.Proofs.Number.Shortest
import DocCompiler.Proofs.Number.Canonical
import DocCompiler.Proofs.Data.Sorted
import DocCompiler.Proofs.Json.Escape
import DocCompiler.Proofs.Json.Line
import DocCompiler.Proofs.Annotation.Sorted
import DocCompiler.Proofs.Cache.Signature
import DocCompiler.Proofs.Build.Fault
import DocCompiler.Proofs.Document.Count
import DocCompiler.Proofs.Build.Gain
import DocCompiler.Proofs.Build.Account
import DocCompiler.Proofs.Annotation.Lines
import DocCompiler.Proofs.Annotation.Shift
import DocCompiler.Proofs.Annotation.Restart
import DocCompiler.Proofs.Document.SchemaGraph
import DocCompiler.Proofs.Document.Search
import DocCompiler.Proofs.Document.Recursion
import DocCompiler.Proofs.Annotation.Spelling
import DocCompiler.Proofs.Build.Spelling
import DocCompiler.Proofs.Build.Respelling
import DocCompiler.Proofs.Number.Rounding
import DocCompiler.Proofs.Json.Numeral
import DocCompiler.Proofs.Json.Roundtrip
import DocCompiler.Proofs.Annotation.Record
import DocCompiler.Proofs.Annotation.Nested
import DocCompiler.Proofs.Document.Shown
import DocCompiler.Proofs.Build.Heed
import DocCompiler.Proofs.Build.Shown
import DocCompiler.Proofs.Build.Silent
import DocCompiler.Proofs.File.Contest
import DocCompiler.Proofs.Cache.Damage
import DocCompiler.Proofs.Compile.Lock
import DocCompiler.Proofs.Compile.AllOrNothing
import DocCompiler.Proofs.Compile.Schedule
import DocCompiler.Proofs.Json.Grammar
import DocCompiler.Proofs.Document.Standard
import DocCompiler.Proofs.Document.Numbers
import DocCompiler.Proofs.Document.NumberChange
import DocCompiler.Proofs.Build.Enclosing
import DocCompiler.Proofs.Document.Frozen
import DocCompiler.Proofs.Document.Report
import DocCompiler.Proofs.Annotation.Written
import DocCompiler.Proofs.Annotation.Taking
import DocCompiler.Proofs.Annotation.Productions
import DocCompiler.Proofs.Annotation.Shape
import DocCompiler.Proofs.Annotation.Totality
import DocCompiler.Proofs.Document.Route
import DocCompiler.Proofs.Document.Canonical
import DocCompiler.Proofs.Document.RouteSpelling
import DocCompiler.Proofs.Build.Duplicate
import DocCompiler.Proofs.Source.Split
import DocCompiler.Proofs.Annotation.Decoration
import DocCompiler.Proofs.Document.Constraint
import DocCompiler.Proofs.Document.Status
import DocCompiler.Proofs.Project.Prune
import DocCompiler.Proofs.Project.Locate
import DocCompiler.Proofs.Document.Example
import DocCompiler.Proofs.Document.Inline
import DocCompiler.Proofs.Document.Conform
import DocCompiler.Proofs.Document.Paths
import DocCompiler.Proofs.Document.Attach
import DocCompiler.Proofs.Cache.Map
import DocCompiler.Proofs.Annotation.Constant
