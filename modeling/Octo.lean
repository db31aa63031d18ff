import Octo.Constraint.TextDefinition
import Octo.DateTime.Arithmetic
import Octo.DateTime.DateFormat
import Octo.DateTime.TimeZone
import Octo.Dml.ColumnPieces
import Octo.Dml.InsertForms
import Octo.Logical.CrossJoinCorrect
import Octo.Logical.DerivedTables
import Octo.Logical.DnfSplitCorrect
import Octo.Logical.KeyOrder
import Octo.Logical.KeySplice
import Octo.Parser.Asterisk
import Octo.Parser.CopyStatement
import Octo.Parser.TypeCheck
import Octo.Parser.UniqueCleanup
import Octo.Physical.BooleanIn
import Octo.Physical.BooleanIs
import Octo.Physical.OrderByRemovalCorrect
import Octo.PlanHelpers.EscapeString
import Octo.PlanHelpers.NestedSetOperations
import Octo.Rocto.BoundValues
import Octo.Rocto.DataRowCorrect
import Octo.Rocto.MainLoopProtocol
import Octo.Rocto.PasswordMessageCorrect
import Octo.Rocto.ReadMessage
import Octo.Rocto.RowLimitCorrect
import Octo.Rocto.SendResultRows
import Octo.Schema.DiscardTable
import Octo.Schema.GeneratedName
import Octo.Schema.UniqueGlobalName
import Octo.Schema.ViewDependency
