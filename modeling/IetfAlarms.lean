import IetfAlarms.Lib.Assoc
import IetfAlarms.Lib.DataTree
import IetfAlarms.Lib.KeyPredicate
import IetfAlarms.Schema
import IetfAlarms.Key
import IetfAlarms.AlarmEntry
import IetfAlarms.ShelfMatch
import IetfAlarms.Filters
import IetfAlarms.Lib.Program
import IetfAlarms.Lib.Trace
import IetfAlarms.Lib.Noninterference
import IetfAlarms.Session
import IetfAlarms.Control
import IetfAlarms.Daemon
import IetfAlarms.AlarmNode
import IetfAlarms.Slots
import IetfAlarms.Statistics
import IetfAlarms.Rounds
import IetfAlarms.Inv
import IetfAlarms.CallSpec
import IetfAlarms.SubmitSpec
import IetfAlarms.Runs
import IetfAlarms.Identities
import IetfAlarms.Shelving
import IetfAlarms.History
import IetfAlarms.Mirror
import IetfAlarms.StatusChanges
import IetfAlarms.Notifications
import IetfAlarms.Purging
import IetfAlarms.Compressing
import IetfAlarms.Counts
import IetfAlarms.Agreement
import IetfAlarms.Severities
import IetfAlarms.Submissions
import IetfAlarms.LastChanged
import IetfAlarms.ListTimes
import IetfAlarms.Settings
import IetfAlarms.Surroundings
import IetfAlarms.InventoryCache
import IetfAlarms.Validation
import IetfAlarms.InventoryThreads
import IetfAlarms.Interleaving
import IetfAlarms.FailedWrites
import IetfAlarms.TimeCreated
import IetfAlarms.IterationOrder
import IetfAlarms.Subscriber
import IetfAlarms.Startup
import IetfAlarms.Isolation
import IetfAlarms.Resubmission
import IetfAlarms.Exceptions
import IetfAlarms.Board
import IetfAlarms.Refinement
