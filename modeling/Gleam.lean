import Gleam.FileSort.Basic
import Gleam.FileSort.Sort
import Gleam.FileSort.Heap
import Gleam.FileSort.RunFile
import Gleam.FileSort.FileSorter
import Gleam.FileSort.Spill
import Gleam.FileSort.RoundTrip
import Gleam.FileSort.Phases
import Gleam.FileSort.Atomic
import Gleam.FileSort.HeapOrder
import Gleam.FileSort.KeyOrder
import Gleam.FileSort.Merge
import Gleam.FileSort.Correctness
import Gleam.FileSort.HeapInvariant
import Gleam.Plan.Sql
import Gleam.Plan.RowCompare
import Gleam.Plan.Quantifier
import Gleam.Plan.RangePoint
import Gleam.Plan.RangeMerge
import Gleam.Plan.Like
import Gleam.Plan.Range
import Gleam.Plan.RangeSound
import Gleam.Plan.TableRange
import Gleam.Plan.IndexRange
import Gleam.Plan.MultiIndexRange
import Gleam.Plan.IndexScan
import Gleam.Executor.Model
import Gleam.Executor.Invariant
import Gleam.Executor.Report
import Gleam.Executor.Wiring
import Gleam.Expression.ValidPrefix
import Gleam.Expression.Basic
import Gleam.Expression.Fold
import Gleam.Expression.Substitute
import Gleam.Plan.ColumnPruning
import Gleam.Plan.Rewriter
import Gleam.Plan.Rewriter.Walk
import Gleam.Plan.Rewriter.Closure
import Gleam.Plan.Rewriter.Columns
import Gleam.Plan.Rewriter.Pushdown
