import Sarca.Lib.Run
import Sarca.Lib.Log
import Sarca.Lib.Percent
import Sarca.Lib.Text
import Sarca.Lib.Saturating
import Sarca.Lib.Aead
import Sarca.Lib.Script
import Sarca.Lib.FileTree
import Sarca.Lib.PosIndex
import Sarca.Lib.Batches
import Sarca.Lib.Lines
import Sarca.Lib.Double
import Sarca.Server.Rows
import Sarca.Server.Triggers
import Sarca.Server.Files
import Sarca.Server.Changelog
import Sarca.Server.Operations
import Sarca.Server.Snapshot
import Sarca.Server.Paths
import Sarca.Server.Chunks
import Sarca.Server.Upload
import Sarca.Server.Intact
import Sarca.Server.Replace
import Sarca.Server.Resume
import Sarca.Server.Relay
import Sarca.Server.Stored
import Sarca.Server.Retry
import Sarca.Server.Compose
import Sarca.Server.Download
import Sarca.Server.Spool
import Sarca.Server.Admission
import Sarca.Server.Backup
import Sarca.Server.Services
import Sarca.Server.Names
import Sarca.Server.Replication
import Sarca.Server.Uplink
import Sarca.Server.Throttle
import Sarca.Client.UploadPath
import Sarca.Client.Index
import Sarca.Client.Engine
import Sarca.Client.FileDownload
import Sarca.Client.Bound
import Sarca.Client.Transfer
import Sarca.Client.BindingEdits
import Sarca.Client.NativeSession
import Sarca.Client.AppLock
import Sarca.Client.Leftovers
import Sarca.Client.PushAccounts
import Sarca.Client.Scheduler
import Sarca.Server.StoragePurge
import Sarca.Server.Hub
import Sarca.Server.Carries
import Sarca.Server.HubSound
import Sarca.Server.LastCopy
import Sarca.Server.CatchUp
import Sarca.Server.Ledger
import Sarca.Server.Truthful
import Sarca.Lib.Calendar
import Sarca.Server.PurgeQueue
import Sarca.Server.RateBucket
import Sarca.Server.MediaCache
import Sarca.Lib.Family
import Sarca.Lib.Semaphore
import Sarca.Server.FloodGate
import Sarca.Server.SingleFlight
import Sarca.Server.Sessions
import Sarca.Server.Access
import Sarca.Server.Members
import Sarca.Server.UserDeletion
import Sarca.Server.Versions
import Sarca.Server.BotReplacement
import Sarca.Server.Restore
import Sarca.Server.Rewind
import Sarca.Server.CanonicalPaths
import Sarca.Server.TrashRestore
import Sarca.Server.Renewal
import Sarca.Server.Awakened
import Sarca.Lib.Utf8
import Sarca.Lib.Like
import Sarca.Server.SqlPrefix
import Sarca.Server.Duplicates
import Sarca.Server.Retention
import Sarca.Server.Listing
import Sarca.Server.Ancestors
import Sarca.Lib.Shed
import Sarca.Server.Eviction
import Sarca.Server.NextAvailable
import Sarca.Server.ShareLinks
import Sarca.Ui.ThumbQueue
import Sarca.Ui.UploadQueue
import Sarca.Lib.Padded
import Sarca.Server.ReleaseVersions
import Sarca.Server.SelfUpdate
import Sarca.Client.Poll
import Sarca.Client.LocalFolder
import Sarca.Ui.Tokens
import Sarca.Lib.Worklist
import Sarca.Server.ImportScan
import Sarca.Server.FolderArchive
import Sarca.Server.StoredPictures
import Sarca.Lib.History
import Sarca.Server.Collector
import Sarca.Lib.Xml
import Sarca.Server.Multistatus
import Sarca.Server.Requests
import Sarca.Client.Meters
import Sarca.Client.RemotePaths
import Sarca.Client.Recorded
import Sarca.Client.BrowserDownload
import Sarca.Client.BgService
import Sarca.Client.Candidates
import Sarca.Client.MediaStore
import Sarca.Server.Search
import Sarca.Server.Discovery
import Sarca.Server.SetupRetry
import Sarca.Client.OnlyCopies
import Sarca.Server.ImportCancel
import Sarca.Server.ImportOnce
import Sarca.Server.FilesKept
import Sarca.Client.Pinning
import Sarca.Client.UploadVerdict
