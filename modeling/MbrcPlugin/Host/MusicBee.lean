import Mathlib.Data.Finset.Basic
import MbrcPlugin.Lib.Interference

/-!
# MusicBee, as the plugin calls it

The functions of MusicBee's API that the plugin's providers call, and the parts of its state each
of them reads and writes.  Four parts are cursors global to the process: a query sets one and the
calls after it read on from there.  What MusicBee does is a parameter; what is known of it is
which parts a function can see and change.
-/

namespace Mbrc.Host

open Interference

/-- A part of MusicBee's state, or of what the plugin keeps of it. -/
inductive Part where
  /-- The cursor `Library_QueryFiles` sets. -/
  | libraryCursor
  /-- The table `Library_QueryLookupTable` sets. -/
  | lookupTable
  /-- The cursor `Playlist_QueryPlaylists` sets. -/
  | playlistCursor
  /-- The cursor `NowPlayingList_QueryFiles` sets. -/
  | nowPlayingCursor
  /-- The files of the now playing list, in storage order. -/
  | nowPlayingList
  /-- Which of them is playing. -/
  | playPosition
  /-- The order they play in. -/
  | playOrder
  /-- Play state, volume, modes, output. -/
  | player
  /-- The files of the library, and their tags and properties. -/
  | library
  | playlists
  | podcasts
  | settings
  /-- The excluded paths the plugin keeps. -/
  | excludedPaths
  /-- Panels and the status bar. -/
  | display
  deriving DecidableEq

/-- The functions of the API that the providers call, and the two accesses to the kept excluded
paths. -/
inductive ApiFunction where
  | playerGetPlayState | playerGetVolume | playerGetMute | playerGetShuffle
  | playerGetAutoDjEnabled | playerGetRepeat | playerGetPosition | playerGetScrobbleEnabled
  | playerGetStopAfterCurrentEnabled | playerGetOutputDevices | playerGetShowRatingTrack
  | playerPlayPause | playerStop | playerPlayNextTrack | playerPlayPreviousTrack
  | playerSetShuffle | playerSetRepeat | playerStartAutoDj | playerEndAutoDj
  | playerSetVolume | playerSetMute | playerSetPosition | playerSetScrobbleEnabled
  | playerStopAfterCurrent | playerSetOutputDevice
  | nowPlayingGetFileUrl | nowPlayingGetFileTag | nowPlayingGetFileTags
  | nowPlayingGetFileProperty | nowPlayingGetDuration | nowPlayingGetArtwork
  | nowPlayingGetDownloadedArtwork | nowPlayingGetLyrics | nowPlayingGetDownloadedLyrics
  | nowPlayingListQueryFiles | nowPlayingListQueryGetNextFile | nowPlayingListQueryFilesEx
  | nowPlayingListGetCurrentIndex | nowPlayingListGetNextIndex | nowPlayingListGetListFileUrl
  | nowPlayingListGetFileTags
  | nowPlayingListMoveFiles | nowPlayingListRemoveAt | nowPlayingListClear
  | nowPlayingListPlayNow | nowPlayingListQueueFilesNext | nowPlayingListQueueFilesLast
  | nowPlayingListPlayLibraryShuffled
  | libraryQueryFiles | libraryQueryGetNextFile | libraryQueryFilesEx
  | libraryQueryLookupTable | libraryQueryGetLookupTableValue
  | libraryGetFileTag | libraryGetFileTags | libraryGetFileProperty | libraryGetArtworkEx
  | libraryGetLyrics | libraryGetSyncDelta | librarySetFileTag | libraryCommitTagsToFile
  | playlistQueryPlaylists | playlistQueryGetNextPlaylist | playlistQueryFilesEx
  | playlistGetName | playlistGetType | playlistCreatePlaylist | playlistDeletePlaylist
  | playlistAppendFiles | playlistSetFiles | playlistPlayNow
  | podcastsQuerySubscriptions | podcastsGetSubscription | podcastsGetSubscriptionEpisodes
  | podcastsGetSubscriptionEpisode | podcastsGetSubscriptionArtwork
  | settingGetFieldName | settingGetLastFmUserId | mbRefreshPanels | mbSetBackgroundTaskMessage
  | keptExcludedPaths | keepExcludedPaths
  deriving DecidableEq

namespace ApiFunction

/-- The functions that move the play position or change the order or the list that plays. -/
def moves : ApiFunction → Bool
  | playerPlayPause | playerStop | playerPlayNextTrack | playerPlayPreviousTrack
  | playerSetShuffle | playerSetRepeat | playerStartAutoDj | playerEndAutoDj => true
  | _ => false

/-- The functions that change the player and nothing a list is read from. -/
def adjusts : ApiFunction → Bool
  | playerSetVolume | playerSetMute | playerSetPosition | playerSetScrobbleEnabled
  | playerStopAfterCurrent | playerSetOutputDevice | playerGetShowRatingTrack => true
  | _ => false

/-- The functions that change the now playing list. -/
def changesList : ApiFunction → Bool
  | nowPlayingListMoveFiles | nowPlayingListRemoveAt | nowPlayingListClear
  | nowPlayingListPlayNow | nowPlayingListQueueFilesNext | nowPlayingListQueueFilesLast
  | nowPlayingListPlayLibraryShuffled | playlistPlayNow => true
  | _ => false

/-- What a function can change. -/
def writes (f : ApiFunction) : List Part :=
  if f.moves || f.changesList then [.nowPlayingList, .playPosition, .playOrder, .player]
  else if f.adjusts then [.player, .display]
  else match f with
    | nowPlayingListQueryFiles | nowPlayingListQueryGetNextFile | nowPlayingListQueryFilesEx =>
      [.nowPlayingCursor]
    | libraryQueryFiles | libraryQueryGetNextFile | libraryQueryFilesEx => [.libraryCursor]
    | libraryQueryLookupTable | libraryQueryGetLookupTableValue => [.lookupTable]
    | playlistQueryPlaylists | playlistQueryGetNextPlaylist | playlistQueryFilesEx =>
      [.playlistCursor]
    | librarySetFileTag | libraryCommitTagsToFile => [.library]
    | playlistCreatePlaylist | playlistDeletePlaylist | playlistAppendFiles | playlistSetFiles =>
      [.playlists]
    | keepExcludedPaths => [.excludedPaths]
    | mbRefreshPanels | mbSetBackgroundTaskMessage => [.display]
    | _ => []

/-- What its answer and its changes depend on. -/
def reads (f : ApiFunction) : List Part :=
  if f.moves || f.changesList then
    [.nowPlayingList, .playPosition, .playOrder, .player, .library, .playlists]
  else if f.adjusts then [.player, .display]
  else match f with
    | playerGetPlayState | playerGetVolume | playerGetMute | playerGetShuffle
    | playerGetAutoDjEnabled | playerGetRepeat | playerGetPosition | playerGetScrobbleEnabled
    | playerGetStopAfterCurrentEnabled | playerGetOutputDevices => [.player]
    | nowPlayingGetFileUrl | nowPlayingGetFileTag | nowPlayingGetFileTags
    | nowPlayingGetFileProperty | nowPlayingGetDuration | nowPlayingGetArtwork
    | nowPlayingGetDownloadedArtwork | nowPlayingGetLyrics | nowPlayingGetDownloadedLyrics =>
      [.nowPlayingList, .playPosition, .player, .library]
    | nowPlayingListQueryFiles | nowPlayingListQueryGetNextFile | nowPlayingListQueryFilesEx =>
      [.nowPlayingCursor, .nowPlayingList]
    | nowPlayingListGetCurrentIndex => [.nowPlayingList, .playPosition]
    | nowPlayingListGetNextIndex => [.nowPlayingList, .playPosition, .playOrder]
    | nowPlayingListGetListFileUrl => [.nowPlayingList]
    | nowPlayingListGetFileTags => [.nowPlayingList, .library]
    | libraryQueryFiles | libraryQueryGetNextFile | libraryQueryFilesEx =>
      [.libraryCursor, .library]
    | libraryQueryLookupTable | libraryQueryGetLookupTableValue => [.lookupTable, .library]
    | libraryGetFileTag | libraryGetFileTags | libraryGetFileProperty | libraryGetArtworkEx
    | libraryGetLyrics | libraryGetSyncDelta | librarySetFileTag | libraryCommitTagsToFile =>
      [.library]
    | playlistQueryPlaylists | playlistQueryGetNextPlaylist | playlistQueryFilesEx =>
      [.playlistCursor, .playlists]
    | playlistGetName | playlistGetType | playlistCreatePlaylist | playlistDeletePlaylist
    | playlistAppendFiles | playlistSetFiles => [.playlists]
    | podcastsQuerySubscriptions | podcastsGetSubscription | podcastsGetSubscriptionEpisodes
    | podcastsGetSubscriptionEpisode | podcastsGetSubscriptionArtwork => [.podcasts]
    | settingGetFieldName | settingGetLastFmUserId => [.settings]
    | mbRefreshPanels | mbSetBackgroundTaskMessage => [.display]
    | keptExcludedPaths | keepExcludedPaths => [.excludedPaths]
    | _ => []

end ApiFunction

/-- An argument of a call. -/
inductive Argument where
  | text (s : String)
  | number (n : Int)
  deriving DecidableEq

/-- One call of the API. -/
structure ApiCall where
  function : ApiFunction
  args : List Argument
  deriving DecidableEq

/-- What a call answers. -/
inductive Answer where
  | nothing
  | flag (b : Bool)
  | number (n : Int)
  | text (s : String)
  | texts (success : Bool) (values : List String)
  deriving DecidableEq

/-- A MusicBee whose parts have values in `V`. -/
abbrev MusicBee (V : Type) : Type :=
  Store Part V ApiCall Answer (fun c => c.function.reads) (fun c => c.function.writes)

end Mbrc.Host

/-!
# The calls that are run one at a time

Every kind of FFI call, with the functions of the API its handler can call, and the kinds that
run behind the serial lock.
-/

namespace Mbrc.Host

/-- The queries the host answers. -/
inductive QueryType where
  | playerState | trackInfo | coverData | lyrics | nowPlayingLyricsSynced | hasLastFmAccount
  | nowPlayingDetails | playbackPosition | outputDevices | nowPlayingRating | nowPlayingLfmRating
  | pluginVersion | playlistList | playlistTracks | playlistCatalog | playlistCreate
  | nowPlayingList | nowPlayingListOrdered | nowPlayingListPaths | nowPlayingListOrder
  | podcastSubscriptions | podcastSubscription | podcastEpisodes | podcastEpisode | podcastArtwork
  | radioStations | libraryBrowseGenres | libraryBrowseArtists | libraryBrowseAlbums
  | libraryBrowseTracks | libraryGenreArtists | libraryArtistAlbums | libraryAlbumTracks
  | libraryGenreTracks | albumIdentifiers | artworkRawForPath | artworkLocationForPath
  | batchMetadata | libraryTrackPaths | libraryExcludedPaths | mediaPaths | libraryTracksForPaths
  | libraryTrackTags | tagFieldNames | tagsForPaths | nowPlayingTags | nowPlayingTagWrite
  | librarySyncDelta
  deriving DecidableEq

/-- The commands the host applies. -/
inductive CommandType where
  | play | pause | playPause | stop | next | previous | setVolume | setPosition | setMute
  | setShuffle | setScrobble | setStopAfterCurrent | setAutoDj | setRepeat | setRating
  | setLfmRating | outputSwitch | playlistPlay | libraryPlayAll | nowPlayingListPlay
  | nowPlayingListRemove | nowPlayingListClear | nowPlayingListMove | nowPlayingListSearch
  | nowPlayingQueue | nowPlayingTagChange | setBackgroundTaskMessage | playlistDelete
  | playlistAppend | playlistSetFiles
  deriving DecidableEq

open ApiFunction

/-- What `ReadPlayingTags` can call, after the playing file was asked for. -/
def readPlayingTags : List ApiFunction :=
  [nowPlayingGetFileUrl, libraryGetFileTags, nowPlayingGetFileTags]

/-- What a lookup table is read with. -/
def lookup : List ApiFunction := [libraryQueryLookupTable, libraryQueryGetLookupTableValue]

/-- What `ExcludedWhere` can call. -/
def excludedWhere : List ApiFunction :=
  [keptExcludedPaths, libraryQueryFilesEx, keepExcludedPaths, libraryGetFileTags]

/-- What `WalkFilter` calls. -/
def walkFilter : List ApiFunction := [libraryQueryFiles, libraryQueryGetNextFile]

/-- What the handler of a query can call. -/
def QueryType.functions : QueryType → List ApiFunction
  | .playerState =>
    [playerGetPlayState, playerGetVolume, playerGetMute, playerGetAutoDjEnabled, playerGetShuffle,
      playerGetRepeat, playerGetPosition, playerGetScrobbleEnabled,
      playerGetStopAfterCurrentEnabled]
  | .trackInfo => readPlayingTags
  | .coverData => [nowPlayingGetArtwork, nowPlayingGetDownloadedArtwork]
  | .lyrics => [nowPlayingGetLyrics, nowPlayingGetDownloadedLyrics]
  | .nowPlayingLyricsSynced =>
    [nowPlayingGetFileUrl, libraryGetLyrics, nowPlayingGetLyrics, nowPlayingGetDownloadedLyrics]
  | .hasLastFmAccount => [settingGetLastFmUserId]
  | .nowPlayingDetails => readPlayingTags ++ [nowPlayingGetFileProperty]
  | .playbackPosition => [playerGetPosition, nowPlayingGetDuration]
  | .outputDevices => [playerGetOutputDevices]
  | .nowPlayingRating => [nowPlayingGetFileUrl, libraryGetFileTag]
  | .nowPlayingLfmRating => [nowPlayingGetFileTag]
  | .pluginVersion => []
  | .playlistList => [playlistQueryPlaylists, playlistQueryGetNextPlaylist, playlistGetName]
  | .playlistTracks => [playlistQueryFilesEx, playlistGetName, playlistGetType]
  | .playlistCatalog =>
    [playlistQueryPlaylists, playlistQueryGetNextPlaylist, playlistGetName, playlistGetType]
  | .playlistCreate => [playlistCreatePlaylist]
  | .nowPlayingList =>
    [nowPlayingListQueryFiles, nowPlayingListGetListFileUrl, nowPlayingListGetFileTags,
      nowPlayingListQueryFilesEx]
  | .nowPlayingListOrdered =>
    [nowPlayingListQueryFiles, nowPlayingListGetCurrentIndex, nowPlayingListGetListFileUrl,
      nowPlayingListGetFileTags, nowPlayingListGetNextIndex]
  | .nowPlayingListPaths => [nowPlayingListQueryFilesEx]
  | .nowPlayingListOrder =>
    [nowPlayingListQueryFiles, nowPlayingListGetCurrentIndex, nowPlayingListGetListFileUrl,
      nowPlayingListGetNextIndex]
  | .podcastSubscriptions =>
    [podcastsQuerySubscriptions, podcastsGetSubscription, podcastsGetSubscriptionEpisodes]
  | .podcastSubscription => [podcastsGetSubscription, podcastsGetSubscriptionEpisodes]
  | .podcastEpisodes | .podcastEpisode =>
    [podcastsGetSubscriptionEpisodes, podcastsGetSubscriptionEpisode, libraryGetFileTag]
  | .podcastArtwork => [podcastsGetSubscriptionArtwork]
  | .radioStations => [libraryQueryFilesEx, libraryGetFileTag]
  | .libraryBrowseGenres | .libraryBrowseArtists | .libraryBrowseAlbums => lookup
  | .libraryBrowseTracks => walkFilter ++ [libraryGetFileTags]
  | .libraryGenreArtists => excludedWhere ++ lookup
  | .libraryArtistAlbums | .libraryAlbumTracks | .libraryGenreTracks =>
    excludedWhere ++ walkFilter
  | .albumIdentifiers => walkFilter ++ [libraryGetFileTags, libraryGetFileProperty]
  | .artworkRawForPath | .artworkLocationForPath => [libraryGetArtworkEx]
  | .batchMetadata | .libraryTracksForPaths | .tagsForPaths => [libraryGetFileTags]
  | .libraryTrackPaths | .mediaPaths => [libraryQueryFilesEx]
  | .libraryExcludedPaths => [keptExcludedPaths, libraryQueryFilesEx, keepExcludedPaths]
  | .libraryTrackTags => [libraryGetFileTags, libraryGetFileProperty]
  | .tagFieldNames => [settingGetFieldName]
  | .nowPlayingTags => readPlayingTags
  | .nowPlayingTagWrite =>
    [nowPlayingGetFileUrl, libraryGetFileTag, librarySetFileTag, libraryCommitTagsToFile,
      mbRefreshPanels]
  | .librarySyncDelta => [libraryGetSyncDelta]

/-- What the handler of a command can call. -/
def CommandType.functions : CommandType → List ApiFunction
  | .play | .pause => [playerGetPlayState, playerPlayPause]
  | .playPause => [playerPlayPause]
  | .stop => [playerStop]
  | .next => [playerPlayNextTrack]
  | .previous => [playerPlayPreviousTrack]
  | .setVolume => [playerSetVolume, playerGetMute, playerSetMute]
  | .setPosition => [playerSetPosition]
  | .setMute => [playerSetMute]
  | .setShuffle => [playerSetShuffle]
  | .setScrobble => [settingGetLastFmUserId, playerSetScrobbleEnabled]
  | .setStopAfterCurrent => [playerGetStopAfterCurrentEnabled, playerStopAfterCurrent]
  | .setAutoDj => [playerStartAutoDj, playerEndAutoDj]
  | .setRepeat => [playerSetRepeat]
  | .setRating =>
    [nowPlayingGetFileUrl, librarySetFileTag, libraryCommitTagsToFile, playerGetShowRatingTrack,
      mbRefreshPanels]
  | .setLfmRating => [nowPlayingGetFileUrl, librarySetFileTag]
  | .outputSwitch => [playerSetOutputDevice]
  | .playlistPlay => [playlistPlayNow]
  | .libraryPlayAll =>
    [nowPlayingListPlayLibraryShuffled, playerGetAutoDjEnabled, playerEndAutoDj, playerSetShuffle,
      libraryQueryFilesEx, ApiFunction.nowPlayingListClear, nowPlayingListQueueFilesNext,
      playerPlayNextTrack]
  | .nowPlayingListPlay =>
    [nowPlayingListQueryFiles, nowPlayingListGetListFileUrl, nowPlayingListPlayNow]
  | .nowPlayingListRemove => [nowPlayingListRemoveAt]
  | .nowPlayingListClear => [ApiFunction.nowPlayingListClear]
  | .nowPlayingListMove => [nowPlayingListMoveFiles]
  | .nowPlayingListSearch =>
    [nowPlayingListQueryFiles, nowPlayingListQueryGetNextFile, libraryGetFileTags,
      nowPlayingListPlayNow]
  | .nowPlayingQueue =>
    [nowPlayingListQueueFilesNext, nowPlayingListQueueFilesLast, ApiFunction.nowPlayingListClear,
      nowPlayingListPlayNow]
  | .nowPlayingTagChange => [nowPlayingGetFileUrl, librarySetFileTag, libraryCommitTagsToFile]
  | .setBackgroundTaskMessage => [mbSetBackgroundTaskMessage]
  | .playlistDelete => [playlistDeletePlaylist]
  | .playlistAppend => [playlistAppendFiles]
  | .playlistSetFiles => [ApiFunction.playlistSetFiles]

/-! ## The serial kinds -/

/-- The queries of `SerialHostCalls`. -/
def serialQueries : List QueryType :=
  [.playlistList, .playlistCatalog, .playlistTracks, .playlistCreate, .nowPlayingList,
    .nowPlayingListOrdered, .nowPlayingListOrder, .nowPlayingListPaths, .radioStations,
    .libraryBrowseGenres, .libraryBrowseArtists, .libraryBrowseAlbums, .libraryBrowseTracks,
    .libraryGenreArtists, .libraryGenreTracks, .libraryArtistAlbums, .libraryAlbumTracks,
    .libraryTrackPaths, .libraryExcludedPaths, .mediaPaths, .albumIdentifiers,
    .podcastSubscriptions, .nowPlayingTagWrite]

/-- The commands of `SerialHostCalls`. -/
def serialCommands : List CommandType :=
  [.setRating, .setLfmRating, .playlistPlay, .playlistDelete, .playlistAppend, .playlistSetFiles,
    .libraryPlayAll, .nowPlayingListPlay, .nowPlayingListMove, .nowPlayingListRemove,
    .nowPlayingListClear, .nowPlayingListSearch, .nowPlayingQueue, .nowPlayingTagChange]

/-- A kind of FFI call. -/
inductive HostCallKind where
  | query (q : QueryType)
  | command (c : CommandType)
  deriving DecidableEq

namespace HostCallKind

/-- What a call of this kind can call. -/
def functions : HostCallKind → List ApiFunction
  | query q => q.functions
  | command c => c.functions

/-- `SerialHostCalls.Includes`. -/
def serial : HostCallKind → Bool
  | query q => q ∈ serialQueries
  | command c => c ∈ serialCommands

end HostCallKind

namespace ApiFunction

/-- The functions a walk reads on with: from a cursor, or by an index into the list or its
order. -/
def walks : ApiFunction → Bool
  | libraryQueryGetNextFile | libraryQueryGetLookupTableValue | playlistQueryGetNextPlaylist
  | nowPlayingListQueryGetNextFile | nowPlayingListGetListFileUrl | nowPlayingListGetFileTags
  | nowPlayingListGetNextIndex => true
  | _ => false

/-- The functions that set a query global to the process, or change what a walk reads. -/
def queriesOrChanges (f : ApiFunction) : Bool :=
  f.changesList || match f with
    | libraryQueryFiles | libraryQueryGetNextFile | libraryQueryFilesEx | libraryQueryLookupTable
    | libraryQueryGetLookupTableValue | playlistQueryPlaylists | playlistQueryGetNextPlaylist
    | playlistQueryFilesEx | nowPlayingListQueryFiles | nowPlayingListQueryGetNextFile
    | nowPlayingListQueryFilesEx | podcastsQuerySubscriptions
    | librarySetFileTag | libraryCommitTagsToFile | playlistCreatePlaylist | playlistDeletePlaylist
    | playlistAppendFiles | playlistSetFiles => true
    | _ => false

end ApiFunction

/-- The query walks a cursor, or reads the list or its order index by index. -/
def QueryType.walks (q : QueryType) : Bool := q.functions.any ApiFunction.walks

/-- The parts a query depends on or changes. -/
def QueryType.sees (q : QueryType) : List Part :=
  q.functions.flatMap fun f => f.reads ++ f.writes

/-- A kind is serial exactly when it sets a process-wide query or changes the list, a playlist
or a file's tags. -/
theorem serial_iff (k : HostCallKind) :
    k.serial = true ↔ ∃ f ∈ k.functions, f.queriesOrChanges = true := by
  cases k with
  | query q => cases q <;> decide
  | command c => cases c <;> decide

/-- Every walk is serial. -/
theorem walks_serial {q : QueryType} (h : q.walks = true) :
    (HostCallKind.query q).serial = true := by
  revert h
  cases q <;> decide

/-- What a kind that is not serial can change is the list, the play position, the play order, the
player and the display. -/
theorem writes_of_not_serial {k : HostCallKind} (hk : k.serial = false) {f : ApiFunction}
    (hf : f ∈ k.functions) {p : Part} (hp : p ∈ f.writes) :
    p ∈ ([.nowPlayingList, .playPosition, .playOrder, .player, .display] : List Part) := by
  have hall : ∀ f ∈ k.functions, ∀ p ∈ f.writes,
      p ∈ ([.nowPlayingList, .playPosition, .playOrder, .player, .display] : List Part) := by
    revert hk
    cases k with
    | query q => cases q <;> decide
    | command c => cases c <;> decide
  exact hall f hf p hp

/-- A walk sees neither the player nor the display. -/
theorem walks_sees {q : QueryType} (h : q.walks = true) {p : Part} (hp : p ∈ q.sees) :
    p ≠ .player ∧ p ≠ .display := by
  have hall : ∀ p ∈ q.sees, p ≠ .player ∧ p ≠ .display := by
    revert h
    cases q <;> decide
  exact hall p hp

end Mbrc.Host
