import DbFuzz.Core.Content
import DbFuzz.Core.Number
import DbFuzz.Grammar.Keys
import DbFuzz.Grammar.Statements
import DbFuzz.TxCheck.Usage
import DbFuzz.TxCheck.Instrumentor
import DbFuzz.Lib.Loop
import DbFuzz.Lib.Worklist
import DbFuzz.Lib.Bag
import DbFuzz.Lib.Cycle
import DbFuzz.Lib.Truth
import DbFuzz.Lib.VersionStore
import DbFuzz.Lib.Split
import DbFuzz.TxCheck.Exec
import DbFuzz.TxCheck.ExecRecord
import DbFuzz.TxCheck.ExecRun
import DbFuzz.TxCheck.StmtId
import DbFuzz.TxCheck.Analyzer
import DbFuzz.TxCheck.RowHistory
import DbFuzz.TxCheck.InitContent
import DbFuzz.TxCheck.Edges
import DbFuzz.TxCheck.Labels
import DbFuzz.TxCheck.RowEdges
import DbFuzz.TxCheck.Group
import DbFuzz.TxCheck.TopoSort
import DbFuzz.TxCheck.SortRound
import DbFuzz.TxCheck.SortOrder
import DbFuzz.TxCheck.SortPath
import DbFuzz.TxCheck.SortFlag
import DbFuzz.TxCheck.Leader
import DbFuzz.TxCheck.Blocks
import DbFuzz.TxCheck.Serial
import DbFuzz.Expr.Sql
import DbFuzz.Expr.Syntax
import DbFuzz.Expr.Print
import DbFuzz.Expr.Transform
import DbFuzz.Expr.Restore
import DbFuzz.Expr.RoundTrip
import DbFuzz.Expr.Tester
import DbFuzz.Expr.Meaning
import DbFuzz.Expr.Wrappers
import DbFuzz.Expr.Splice
import DbFuzz.Expr.Preserve
import DbFuzz.Expr.Membership
import DbFuzz.Expr.Compound
import DbFuzz.TxCheck.Reproduce
import DbFuzz.TxCheck.TableNames
import DbFuzz.TxCheck.GraphReduction
import DbFuzz.TxCheck.Reload
import DbFuzz.TxCheck.RefineGroup
import DbFuzz.TxCheck.Mysql
import DbFuzz.TxCheck.PlainRounds
import DbFuzz.TxCheck.PlainRun
import DbFuzz.TxCheck.ReadText
import DbFuzz.TxCheck.Visibility
import DbFuzz.TxCheck.ReadAnomalies
import DbFuzz.TxCheck.RoundTest
import DbFuzz.TxCheck.Rounds
import DbFuzz.TxCheck.RoundLoop
import DbFuzz.TxCheck.RoundRun
import DbFuzz.TxCheck.RoundCheck
import DbFuzz.TxCheck.RoundEnd
import DbFuzz.TxCheck.Reschedule
import DbFuzz.Grammar.WriteStmts
import DbFuzz.TxCheck.VersionKeys
import DbFuzz.Core.RecordText
import DbFuzz.Core.GenerateDatabase
import DbFuzz.Cross.Candidates
import DbFuzz.TxCheck.MinimizeRight
import DbFuzz.TxCheck.CycleChecks
import DbFuzz.TxCheck.TxnSort
import DbFuzz.TxCheck.AllPaths
import DbFuzz.TxCheck.ExecEnd
import DbFuzz.TxCheck.RealQueue
import DbFuzz.TxCheck.Scheduling
import DbFuzz.TxCheck.Decycle
import DbFuzz.TxCheck.RefineMeasure
import DbFuzz.Expr.Steady
import DbFuzz.Cross.Removals
import DbFuzz.Cross.Verdict
import DbFuzz.Lib.ProcPartial
import DbFuzz.Eet.QcnTester
import DbFuzz.Eet.ChangedResults
import DbFuzz.Eet.MinimizeDatabase
import DbFuzz.Expr.Components
import DbFuzz.Lib.IdTree
import DbFuzz.Expr.ComponentTree
import DbFuzz.Expr.ComponentIds
import DbFuzz.Expr.ComponentSet
import DbFuzz.Expr.Reduction
import DbFuzz.Grammar.Exclusion
import DbFuzz.Lib.Draws
import DbFuzz.Grammar.Partition
import DbFuzz.Grammar.PartitionForm
import DbFuzz.Grammar.PartitionOptions
import DbFuzz.Grammar.TableRefs
import DbFuzz.Lib.Bracketed
import DbFuzz.TxCheck.TxnEnds
import DbFuzz.TxCheck.ConsistentRun
import DbFuzz.TxCheck.RowHash
import DbFuzz.TxCheck.TxnFactory
import DbFuzz.Lib.FirstUnused
import DbFuzz.Grammar.Names
import DbFuzz.Core.ExpectedErrors
import DbFuzz.Core.FileRandom
import DbFuzz.Core.RandomString
import DbFuzz.Core.NumberText
import DbFuzz.TxCheck.AssignTxnId
import DbFuzz.TxCheck.Directions
import DbFuzz.TxCheck.InstrumentBounds
import DbFuzz.Lib.LongestWalk
import DbFuzz.TxCheck.LongestPath
import DbFuzz.Lib.Related
import DbFuzz.TxCheck.GroupFrame
import DbFuzz.TxCheck.Words
import DbFuzz.Lib.Productions
import DbFuzz.Grammar.Generator
import DbFuzz.Grammar.GeneratorTypes
import DbFuzz.Grammar.GeneratorScope
import DbFuzz.Grammar.GeneratorLevels
import DbFuzz.Expr.QueryMeaning
import DbFuzz.TxCheck.ReadTags
import DbFuzz.Core.Impedance
import DbFuzz.Grammar.StatementFactory
import DbFuzz.Smoke.SmokeRun
import DbFuzz.Grammar.GeneratorPlaces
import DbFuzz.Eet.NoAlarm
import DbFuzz.Cross.NoAlarm
