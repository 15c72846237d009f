import Termoso.Lib.Result
import Termoso.Lib.Table
import Termoso.Lib.Transition
import Termoso.Lib.Script
import Termoso.Lib.Paging
import Termoso.Lib.Stamped
import Termoso.Lib.Journal
import Termoso.Proto
import Termoso.Crypto
import Termoso.Core.Store
import Termoso.Core.Entities
import Termoso.Core.History
import Termoso.Core.HistorySync
import Termoso.Core.Logs
import Termoso.Core.Account
import Termoso.Core.Mirror
import Termoso.Core.PersonalKey
import Termoso.Core.Labels
import Termoso.Core.Rotation
import Termoso.Server.Db
import Termoso.Server.Sync
import Termoso.Server.History
import Termoso.Server.Logs
import Termoso.Server.Writes
import Termoso.Server.Feeds
import Termoso.Server.Members
import Termoso.Server.MemberKeys
import Termoso.HistoryClear
import Termoso.HistoryJournal
import Termoso.Lib.Path
import Termoso.Core.Remote
import Termoso.Desktop.Download
import Termoso.Lib.Threads
import Termoso.Server.Rotation
import Termoso.Client.Keychain
import Termoso.Desktop.Rotation
import Termoso.Desktop.Lockout
import Termoso.RotationJobs
import Termoso.Server.Webhooks
import Termoso.Server.Deliveries
import Termoso.Lib.Trace
import Termoso.Core.AgentServer
import Termoso.Core.AgentSignatures
import Termoso.Lib.Faults
import Termoso.Core.Secrets
import Termoso.Core.MasterKey
import Termoso.Core.LogSync
import Termoso.Server.Uploads
import Termoso.LogPasses
import Termoso.Lib.Ends
import Termoso.UploadedLogs
import Termoso.RetriedLogs
import Termoso.Core.Sync
import Termoso.CredentialOptOut
import Termoso.InFlightEdits
import Termoso.Server.Teams
import Termoso.Server.Sso
import Termoso.Server.Roles
import Termoso.Server.RoleCalls
import Termoso.Server.Escalation
import Termoso.Server.Codes
import Termoso.Server.Sessions
import Termoso.Lib.Wire
import Termoso.Core.Mosh.Proto
import Termoso.Core.Mosh.Sender
import Termoso.Core.Mosh.Client
import Termoso.Server.Ownership
import Termoso.Lib.Locks
import Termoso.Server.Access
import Termoso.Server.SignIn
import Termoso.Lib.Listing
import Termoso.Core.RotationLists
import Termoso.Lib.Pinning
import Termoso.Core.HostKeys
import Termoso.Core.HostKeyPins
import Termoso.Core.HostKeyFiles
import Termoso.Lib.Sealing
import Termoso.Core.Rekey
import Termoso.Core.RekeyStops
import Termoso.Server.Scim
import Termoso.Server.GroupSync
import Termoso.Server.GroupGrants
import Termoso.Server.LastManager
import Termoso.Server.PushRotate
import Termoso.Server.Fencing
import Termoso.Server.StartOver
import Termoso.Server.Announced
import Termoso.LiveRelay
import Termoso.RemoteControl
import Termoso.LiveOutput
import Termoso.Server.Saml.Xml
import Termoso.Server.Saml.C14n
import Termoso.Server.Saml.Dsig
import Termoso.Server.Saml.Xmlenc
import Termoso.Server.Saml.Response
import Termoso.Server.Saml.Issued
import Termoso.Core.Mosh.Run
import Termoso.Core.Moves
import Termoso.Core.ViewerEdits
import Termoso.Server.GroupMappings
import Termoso.Server.GroupWrites
import Termoso.Core.Mosh.Instructions
import Termoso.Core.Mosh.Fragment
import Termoso.Lib.Best
import Termoso.Server.Acl
import Termoso.CredentialRestore
import Termoso.Lib.Inherit
import Termoso.Core.Hosts
import Termoso.Client.Hosts
import Termoso.Core.CtapHid
import Termoso.Lib.Needle
import Termoso.Desktop.Zmodem
import Termoso.Lib.Split
import Termoso.Server.ScimFilter
import Termoso.Lib.Digits
import Termoso.Lib.IpAddr
import Termoso.Server.Trust
import Termoso.Core.SshImport
import Termoso.Lib.Wired
import Termoso.Core.Telnet
import Termoso.Desktop.KeyTargets
import Termoso.Core.Challenges
import Termoso.Core.WebDavAuth
import Termoso.Lib.Positional
import Termoso.Core.OpenFiles
import Termoso.Lib.FileTree
import Termoso.Lib.Disk
import Termoso.Lib.DiskGrowth
import Termoso.Core.LocalFs
import Termoso.Core.LocalConfinement
import Termoso.Core.LocalOperations
import Termoso.Lib.TreeCopy
import Termoso.Core.LocalCopy
import Termoso.Lib.Duplex
import Termoso.Core.X11
import Termoso.Lib.Word
import Termoso.Lib.Utf8
import Termoso.Lib.Base64
import Termoso.Lib.HttpHead
import Termoso.Core.Proxy
import Termoso.Core.ProxyRequests
import Termoso.Core.ProxyReplies
import Termoso.Lib.Percent
import Termoso.Lib.UrlHost
import Termoso.Lib.WebUrl
import Termoso.Core.ShareUrl
import Termoso.Core.ShareHrefs
import Termoso.Server.Answers
import Termoso.Mirroring
import Termoso.Replica
import Termoso.Server.Versions
import Termoso.Core.Forward
