import Vidsilo.Api.MediaRemoval
import Vidsilo.Api.MediaAcl
import Vidsilo.Queue.Exclusion
import Vidsilo.Queue.Ownership
import Vidsilo.Queue.Attempts
import Vidsilo.Worker.Heartbeat
import Vidsilo.Worker.RunJob
import Vidsilo.Jobs.Unfinished
import Vidsilo.Jobs.LateStatus
import Vidsilo.Cache.Mutex
import Vidsilo.Cache.Freshness
import Vidsilo.Cache.Races
import Vidsilo.Storage.Promotion
import Vidsilo.Storage.Retirement
import Vidsilo.Storage.MigrationRuns
import Vidsilo.Api.Replay
import Vidsilo.Api.Logouts
import Vidsilo.Categories.Ancestors
import Vidsilo.Storage.RangedReader
import Vidsilo.Queue.Retry
import Vidsilo.Fetch.SafeUrl
import Vidsilo.Api.ClientIp
import Vidsilo.Api.LoginRuns
import Vidsilo.Api.Admins
import Vidsilo.Api.PasswordChanges
import Vidsilo.Jobs.Deletion
import Vidsilo.Jobs.FlavorFiles
import Vidsilo.Jobs.Playable
import Vidsilo.Storage.Listings
import Vidsilo.Jobs.Layout
import Vidsilo.Web.BatchLoop
import Vidsilo.Web.Blobs
import Vidsilo.Db.MigrateRuns
import Vidsilo.Jobs.Spool
import Vidsilo.Settings.Service
import Vidsilo.Upload.WriteChunk
import Vidsilo.Worker.Cleanup
import Vidsilo.Cache.DiskFailures
import Vidsilo.Jobs.TranscodeSlots
import Vidsilo.Logging.Rotate
import Vidsilo.Queue.Claimed
import Vidsilo.Worker.PoolPlaces
import Vidsilo.Api.EmbedDomains
import Vidsilo.Categories.Catalog
import Vidsilo.Fetch.FileTypes
import Vidsilo.Jobs.MasterText
import Vidsilo.Jobs.OutputDirs
import Vidsilo.Settings.Patch
import Vidsilo.Upload.Finish
import Vidsilo.Web.AddFiles
import Vidsilo.Web.DownloadPolling
import Vidsilo.Web.DownloadResume
import Vidsilo.Web.SilentRefresh
import Vidsilo.Storage.LocalPuts
import Vidsilo.Api.Pages
import Vidsilo.Media.Sprites
import Vidsilo.Queue.Backoff
import Vidsilo.Jobs.SubtitleGroups
import Vidsilo.Api.RateLimit
import Vidsilo.Analytics.Totals
import Vidsilo.Password.Encoded
import Vidsilo.Api.PatchBodies
import Vidsilo.Api.ResponseCache
import Vidsilo.Analytics.Summary
import Vidsilo.Storage.Accounting
import Vidsilo.Api.Watching
import Vidsilo.Library.Layers
import Vidsilo.Api.Compression
import Vidsilo.Api.PlayerDesigns
import Vidsilo.Analytics.Beacons
import Vidsilo.Queue.Recovery
import Vidsilo.Settings.SiteConfig
