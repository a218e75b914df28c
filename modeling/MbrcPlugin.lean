import MbrcPlugin.Lib.Transition
import MbrcPlugin.Lib.OrderedTable
import MbrcPlugin.Lib.ChangeFeed
import MbrcPlugin.Library.ChangeLog
import MbrcPlugin.Library.ChangeLogFeed
import MbrcPlugin.Library.ChangeLogCounts
import MbrcPlugin.Library.ChangeLogSync
import MbrcPlugin.Server.SessionV6
import MbrcPlugin.Server.Connection
import MbrcPlugin.Server.Teardown
import MbrcPlugin.Server.FirstFrame
import MbrcPlugin.Server.Delivery
import MbrcPlugin.Server.WebSocket
import MbrcPlugin.Server.WebSocketFrames
import MbrcPlugin.Server.Handshake
import MbrcPlugin.Server.Networking
import MbrcPlugin.Server.NetworkingStop
import MbrcPlugin.Lib.Interference
import MbrcPlugin.Host.MusicBee
import MbrcPlugin.Host.HostCalls
import MbrcPlugin.Host.Walks
import MbrcPlugin.Host.OneState
import MbrcPlugin.Settings.Config
import MbrcPlugin.Settings.Panel
import MbrcPlugin.Settings.Saved
import MbrcPlugin.Lib.Readings
import MbrcPlugin.Server.PlayerState
import MbrcPlugin.Server.PlayerStateTold
import MbrcPlugin.NowPlaying.HostQueue
import MbrcPlugin.NowPlaying.Rows
import MbrcPlugin.NowPlaying.ListVersion
import MbrcPlugin.NowPlaying.ListGuard
import MbrcPlugin.NowPlaying.ListGuardRuns
import MbrcPlugin.Lib.Text
import MbrcPlugin.Lib.Comparator
import MbrcPlugin.Library.MetadataCache
import MbrcPlugin.Library.Derived
import MbrcPlugin.Lib.Interaction
import MbrcPlugin.Protocol.Json
import MbrcPlugin.Host.Providers
import MbrcPlugin.Permissions.Gate
import MbrcPlugin.Commands.V4
import MbrcPlugin.Commands.FieldsV6
import MbrcPlugin.Commands.PlaylistV6
import MbrcPlugin.Commands.V6
import MbrcPlugin.Permissions.Requests
import MbrcPlugin.Permissions.SoundV4
import MbrcPlugin.Permissions.SoundV6
import MbrcPlugin.Permissions.Watchers
import MbrcPlugin.Permissions.Sound
import MbrcPlugin.Lifetime.Jobs
import MbrcPlugin.Lifetime.LateCalls
import MbrcPlugin.Lib.Interrupted
import MbrcPlugin.Library.Reconcile
import MbrcPlugin.Library.ReconcileStopped
import MbrcPlugin.Library.Scanner
import MbrcPlugin.Library.Watermark
import MbrcPlugin.Library.WatermarkRuns
import MbrcPlugin.Library.Readers
import MbrcPlugin.Library.LateAnswers
import MbrcPlugin.Library.LateAnswersRuns
import MbrcPlugin.Lib.FileWrites
import MbrcPlugin.Web.Pairing
import MbrcPlugin.Web.Revocation
import MbrcPlugin.Web.RevocationRuns
import MbrcPlugin.Permissions.RoleWrites
import MbrcPlugin.Server.Clients
import MbrcPlugin.Server.Installations
import MbrcPlugin.Server.RoleOwners
import MbrcPlugin.Server.FirstContacts
import MbrcPlugin.Server.Registry
import MbrcPlugin.Server.Connections
import MbrcPlugin.Server.IpSlots
import MbrcPlugin.Server.LeftBehind
import MbrcPlugin.Server.LeftBehindRuns
import MbrcPlugin.Server.Admission
import MbrcPlugin.Library.NavLists
import MbrcPlugin.Diagnostics.Redaction
import MbrcPlugin.Diagnostics.SessionLog
import MbrcPlugin.Updates.Manifest
import MbrcPlugin.Updates.Check
import MbrcPlugin.Updates.Service
import MbrcPlugin.Updates.Sessions
import MbrcPlugin.Updates.Jobs
import MbrcPlugin.Updates.Staging
import MbrcPlugin.Updates.StagingRuns
import MbrcPlugin.Covers.Prune
import MbrcPlugin.Covers.Builds
import MbrcPlugin.Library.MultiValue
import MbrcPlugin.Library.TrackFilter
import MbrcPlugin.Commands.LibraryV6
import MbrcPlugin.Library.ArtistList
import MbrcPlugin.Library.IndexedRows
import MbrcPlugin.Library.LibraryEvents
import MbrcPlugin.Library.TagRows
import MbrcPlugin.Library.SwitchRuns
import MbrcPlugin.Web.CodeGuesses
import MbrcPlugin.Protocol.FrameAccumulator
import MbrcPlugin.Protocol.WireV6
import MbrcPlugin.Server.SessionLines
import MbrcPlugin.WebApp.ClientCalls
import MbrcPlugin.WebApp.ClientNotice
import MbrcPlugin.WebApp.Locations
import MbrcPlugin.WebApp.PlaylistEdits
import MbrcPlugin.WebApp.TagsEdits
import MbrcPlugin.WebApp.QueueReads
import MbrcPlugin.Lifetime.MarkerRuns
import MbrcPlugin.Server.Sockets
import MbrcPlugin.WebApp.BrowseLists
import MbrcPlugin.Lib.Addresses
import MbrcPlugin.Settings.AddressFilter
import MbrcPlugin.Settings.Legacy
import MbrcPlugin.Server.KeepAlive
import MbrcPlugin.Commands.LyricsV6
import MbrcPlugin.WebApp.ActiveLyric
import MbrcPlugin.Lib.TextLines
import MbrcPlugin.Protocol.LyricsV4
import MbrcPlugin.Commands.LyricsAlike
import MbrcPlugin.Settings.Migration
import MbrcPlugin.Settings.Writes
import MbrcPlugin.Capture.Scrubber
import MbrcPlugin.Capture.Trim
import MbrcPlugin.Lib.StateLogic
import MbrcPlugin.Capture.Renaming
import MbrcPlugin.Capture.Rebuilt
import MbrcPlugin.Capture.ScrubbedTo
import MbrcPlugin.Capture.Altered
import MbrcPlugin.Capture.Frames
import MbrcPlugin.Capture.Fixture
import MbrcPlugin.Commands.PlaylistVersion
import MbrcPlugin.Lib.Rounding
import MbrcPlugin.Commands.TrackV6
import MbrcPlugin.Commands.TracksAlike
import MbrcPlugin.Lib.Search
import MbrcPlugin.Diagnostics.BundlePolicy
import MbrcPlugin.Updates.TestingChannel
import MbrcPlugin.Commands.MediaV6
import MbrcPlugin.Commands.SortedLists
import MbrcPlugin.Diagnostics.RollingLog
import MbrcPlugin.Diagnostics.LogWindow
import MbrcPlugin.Lib.WorkList
import MbrcPlugin.Library.Backfill
import MbrcPlugin.Library.CreditsCodec
import MbrcPlugin.Commands.ArtistNames
import MbrcPlugin.Lib.Slots
import MbrcPlugin.Commands.Orders
import MbrcPlugin.Commands.PlaylistMoves
import MbrcPlugin.NowPlaying.Removal
import MbrcPlugin.Library.SortedPages
import MbrcPlugin.Library.ChangeLogPages
import MbrcPlugin.Library.AnnouncedGenerations
import MbrcPlugin.Commands.NumbersV4
import MbrcPlugin.Lib.Memo
import MbrcPlugin.Library.GenreRows
import MbrcPlugin.Library.MediaLibrary
import MbrcPlugin.Library.MediaSplit
import MbrcPlugin.Library.MediaRuns
import MbrcPlugin.Diagnostics.CaptureSession
import MbrcPlugin.Library.Fingerprint
import MbrcPlugin.Covers.Budget
import MbrcPlugin.Library.GenreCounts
import MbrcPlugin.Library.SortPreorder
import MbrcPlugin.Lib.PercentEncoding
import MbrcPlugin.Server.ConnectLink
import MbrcPlugin.Protocol.LenientJson
import MbrcPlugin.Web.NowPlayingCover
import MbrcPlugin.NowPlaying.Refreshes
import MbrcPlugin.NowPlaying.Announcements
import MbrcPlugin.Library.AlbumStamps
import MbrcPlugin.Lib.Environment
import MbrcPlugin.Lib.Windows
import MbrcPlugin.Helper.Update
import MbrcPlugin.Helper.SignedWrites
import MbrcPlugin.Helper.Outcomes
import MbrcPlugin.Helper.Arguments
import MbrcPlugin.Web.Router
import MbrcPlugin.Web.Admitted
import MbrcPlugin.Server.SessionV4
import MbrcPlugin.Helper.Firewall
import MbrcPlugin.Server.Discovery
import MbrcPlugin.Updates.Schedule
