import IconConstraints.AttributeTable
import IconConstraints.BoundingBox
import IconConstraints.BuiltIn
import IconConstraints.Codepoint
import IconConstraints.CommandLine
import IconConstraints.CommandLine.Arguments
import IconConstraints.CommandLine.Help
import IconConstraints.Compilation
import IconConstraints.Constraint
import IconConstraints.Crosswalk
import IconConstraints.Decimal.Binary64
import IconConstraints.Decimal.NumberStyle
import IconConstraints.Decimal.Reading
import IconConstraints.Decimal.Shortest
import IconConstraints.Diagnostics
import IconConstraints.Error
import IconConstraints.Evaluation
import IconConstraints.Evaluation.Arithmetic
import IconConstraints.Evaluation.Comparison
import IconConstraints.Evaluation.EvalFault
import IconConstraints.Evaluation.Literal
import IconConstraints.Evaluation.Switches
import IconConstraints.Event
import IconConstraints.Expression
import IconConstraints.Expression.Parsing
import IconConstraints.Expression.SyntaxFault
import IconConstraints.Expression.Words
import IconConstraints.Extraction
import IconConstraints.Face
import IconConstraints.FileTree
import IconConstraints.Font
import IconConstraints.FontCache
import IconConstraints.FontLibrary
import IconConstraints.Json.Fault
import IconConstraints.Json.Grammar
import IconConstraints.Json.Input
import IconConstraints.Json.NumberLiteral
import IconConstraints.Json.Reading
import IconConstraints.Json.Shapes
import IconConstraints.Json.Skipping
import IconConstraints.Json.StringLiteral
import IconConstraints.Json.Writing
import IconConstraints.JsonLibrary
import IconConstraints.Libraries
import IconConstraints.LruLibrary
import IconConstraints.Main
import IconConstraints.Mapping
import IconConstraints.Mirror
import IconConstraints.OriginCache
import IconConstraints.Outline
import IconConstraints.OverlapPolicy
import IconConstraints.PatchSet
import IconConstraints.PatchSet.Reading
import IconConstraints.Path
import IconConstraints.Project
import IconConstraints.Report
import IconConstraints.RuleTable
import IconConstraints.RuleTable.ZigSwitch
import IconConstraints.Scalar
import IconConstraints.ScaleGroup.Geometry
import IconConstraints.ScaleGroup.Scaling
import IconConstraints.Snapshot
import IconConstraints.Snapshot.FileStore
import IconConstraints.Source.LexFault
import IconConstraints.Source.Lexeme
import IconConstraints.Source.Lines
import IconConstraints.Source.NumberLiteral
import IconConstraints.Source.Operator
import IconConstraints.Source.StringLiteral
import IconConstraints.Source.Token
import IconConstraints.Statement
import IconConstraints.Text.Alphabetic
import IconConstraints.Text.CharTable
import IconConstraints.Text.GraphemeExtend
import IconConstraints.Text.Hexadecimal
import IconConstraints.Text.Numeric
import IconConstraints.Text.Quoted
import IconConstraints.Text.Search
import IconConstraints.Text.Unprintable
import IconConstraints.Text.Utf8
import IconConstraints.Text.WhiteSpace
import IconConstraints.TrueType.Block
import IconConstraints.TrueType.Collection
import IconConstraints.TrueType.FontFile
import IconConstraints.TrueType.Glyph
import IconConstraints.TrueType.Parsing
import IconConstraints.Value
import IconConstraints.Proofs.Agreement
import IconConstraints.Proofs.Boundaries
import IconConstraints.Proofs.Claims
import IconConstraints.Proofs.Coalescing
import IconConstraints.Proofs.Crosswalk
import IconConstraints.Proofs.ExpressionReading
import IconConstraints.Proofs.Grammar
import IconConstraints.Proofs.Lexemes
import IconConstraints.Proofs.LineBoundaries
import IconConstraints.Proofs.LineCounts
import IconConstraints.Proofs.LineEndings
import IconConstraints.Proofs.LineRuns
import IconConstraints.Proofs.Lines
import IconConstraints.Proofs.LiteralEvaluation
import IconConstraints.Proofs.Lookahead
import IconConstraints.Proofs.Mapping
import IconConstraints.Proofs.MemoryStore
import IconConstraints.Proofs.Outcomes
import IconConstraints.Proofs.Overlap
import IconConstraints.Proofs.OverlapFree
import IconConstraints.Proofs.Ownership
import IconConstraints.Proofs.ParsingComplete
import IconConstraints.Proofs.ParsingSound
import IconConstraints.Proofs.Rerun
import IconConstraints.Proofs.Reuse
import IconConstraints.Proofs.RuleClasses
import IconConstraints.Proofs.RuleTable
import IconConstraints.Proofs.Scalar
import IconConstraints.Proofs.Scaling
import IconConstraints.Proofs.Session
import IconConstraints.Proofs.SnapshotReuse
import IconConstraints.Proofs.Stages
import IconConstraints.Proofs.WellFormed
import IconConstraints.Proofs.WithinLines
import IconConstraints.Proofs.ZigNumbers
import IconConstraints.Proofs.ZigReading
import IconConstraints.Proofs.ZigSwitch
import IconConstraints.Proofs.ZigTokens
import IconConstraints.Proofs.PathNormalForm
import IconConstraints.Proofs.Scripts
import IconConstraints.Proofs.FileTree
import IconConstraints.Proofs.CacheContainment
import IconConstraints.Proofs.FailedRuns
import IconConstraints.Proofs.MachineIntegers
import IconConstraints.Proofs.MachineRanges
import IconConstraints.Proofs.EvaluatedValues
import IconConstraints.Proofs.PatchSetBounds
import IconConstraints.Proofs.ExtractionBounds
import IconConstraints.Proofs.FloatUnits
import IconConstraints.Proofs.FloatRounding
import IconConstraints.Proofs.GroupExtents
import IconConstraints.Proofs.FiniteConstraints
import IconConstraints.Proofs.FiniteTables
import IconConstraints.Proofs.SwitchedNames
import IconConstraints.Proofs.SwitchDependence
import IconConstraints.Proofs.AppendedCode
import IconConstraints.Proofs.TableCounts
import IconConstraints.Proofs.Balance
import IconConstraints.Proofs.FilePlaces
import IconConstraints.Proofs.OriginStore
import IconConstraints.Proofs.CachedOrigins
import IconConstraints.Proofs.GroupMeasures
import IconConstraints.Proofs.Landing
import IconConstraints.Proofs.NumericEquality
import IconConstraints.Proofs.ScaledEntries
import IconConstraints.Proofs.GroupOrder
import IconConstraints.Proofs.JsonScalars
import IconConstraints.Proofs.JsonStructures
import IconConstraints.Proofs.JsonWriting
import IconConstraints.Proofs.SnapshotFile
import IconConstraints.Proofs.Independence
import IconConstraints.Proofs.Workbench
import IconConstraints.Proofs.FailedAdditions
import IconConstraints.Proofs.ExactIntegers
import IconConstraints.Proofs.NearestEven
import IconConstraints.Proofs.IntegerFloats
import IconConstraints.Proofs.NumberComparison
import IconConstraints.Proofs.Ranges
import IconConstraints.Proofs.ValueEquality
import IconConstraints.Proofs.Bindings
import IconConstraints.Proofs.ValueOrder
import IconConstraints.Proofs.FieldOrder
import IconConstraints.Proofs.SpelledGroups
import IconConstraints.Proofs.PlainAssignments
import IconConstraints.Proofs.StringSpellings
import IconConstraints.Proofs.LexemeEnds
import IconConstraints.Proofs.ReaderPlaces
import IconConstraints.Proofs.HexEscapes
import IconConstraints.Proofs.MirrorLocations
import IconConstraints.Proofs.FewestRanges
import IconConstraints.Proofs.LeastDestinations
import IconConstraints.Proofs.RecentFaces
import IconConstraints.Proofs.StopPlaces
import IconConstraints.Proofs.TokenPlaces
