import NetRollout.Evidence.Soundness
import NetRollout.Evidence.Blocks
import NetRollout.Evidence.Replies
import NetRollout.Evidence.Defaults
import NetRollout.Evidence.Addresses
import NetRollout.Evidence.Verbatim
import NetRollout.Session.Live
import NetRollout.Jobs.Exclusive
import NetRollout.Jobs.Recording
import NetRollout.Jobs.Slots
import NetRollout.Jobs.Launch
import NetRollout.Evidence.EditPath
import NetRollout.Logs.Noninterference
import NetRollout.Logs.LiveLog
import NetRollout.HostKeys.FirstUse
import NetRollout.Accounts.Administrators
import NetRollout.Sessions.SecondFactor
import NetRollout.Sessions.SignOut
import NetRollout.SignIn.OneAccount
import NetRollout.SignIn.Alike
import NetRollout.Maintenance.Locked
import NetRollout.Maintenance.Pause
import NetRollout.Maintenance.Move
import NetRollout.Maintenance.Counters
import NetRollout.Backup.Restore
import NetRollout.Backup.Lock
import NetRollout.Backup.Schedule
import NetRollout.Settings.Store
import NetRollout.Access.Updates
import NetRollout.Discovery.Record
import NetRollout.Services.Switch
import NetRollout.Rollout.Simultaneous
import NetRollout.Rollout.Results
import NetRollout.Inventory.Private
import NetRollout.Access.PortContract
import NetRollout.Evidence.Compare
import NetRollout.Evidence.Tree
import NetRollout.Evidence.Churn
import NetRollout.Session.Saved
import NetRollout.Rollout.DiffTags
import NetRollout.Results.Retention
import NetRollout.Results.Reviews
import NetRollout.Discovery.Entries
import NetRollout.Access.Certificates
import NetRollout.Access.Verdicts
import NetRollout.Results.Paging
import NetRollout.Services.RuntimeEnv
import NetRollout.Services.Restart
import NetRollout.Setup.Env
import NetRollout.HostKeys.Retries
import NetRollout.SignIn.Lockout
import NetRollout.Access.Names
import NetRollout.Discovery.Detect
import NetRollout.Evidence.Matching
import NetRollout.Results.Export
import NetRollout.Results.Query
import NetRollout.Rollout.Inputs
import NetRollout.Inventory.ImportValues
import NetRollout.Setup.Upgrade
import NetRollout.Setup.Release
import NetRollout.Maintenance.Prepare
import NetRollout.Sessions.Lifetime
import NetRollout.Services.WriteAtomic
import NetRollout.Services.EncryptionKey
