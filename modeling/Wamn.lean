import Wamn.RunPlane.Budget
import Wamn.RunPlane.Fencing
import Wamn.Workflow.Callers
import Wamn.Admission.Idempotency
import Wamn.Workflow.Router.Alarms
import Wamn.Cdc.Order
import Wamn.Cdc.Confirm
import Wamn.Workflow.Lowering
import Wamn.Intents.RowIds
import Wamn.Runtime.WriteLogClaims
import Wamn.History.Replay
import Wamn.Contract.ReadQuery
import Wamn.DataAccess.Cursor
import Wamn.Events.Codec
import Wamn.Numbering.Parse
import Wamn.Admission.Isolation
import Wamn.HostMemory.Withdrawal
import Wamn.HostMemory.Revocation
import Wamn.ResourceLease.Calls
import Wamn.ResourceLease.Accounting
import Wamn.GuestSql.PlatformWrite
import Wamn.Workflow.Router.RetryDelay
import Wamn.Workflow.Router.Attempts
import Wamn.Workflow.RoutedAction
import Wamn.RunState.ClaimPlan
import Wamn.Events.Names
import Wamn.Cdc.ReopenLadder
import Wamn.Provision.Names
import Wamn.Workflow.Schedule
import Wamn.Numbering.Render
import Wamn.Edge.Forward
import Wamn.SqlLex.FilterPredicate
import Wamn.HttpRoute.MapInput
import Wamn.PgCore.Names
