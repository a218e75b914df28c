import MbrcPlugin.Commands.PlaylistV6
import MbrcPlugin.Commands.V4

/-!
# The V6 ops

The handlers of the player, the playing track, the queue, the library, the other media, podcasts
and tags, and the dispatch that finds an op's handler domain by domain.
-/

namespace Mbrc.CommandsV6

open Providers
open Interaction.Fallible (check attempt)
open Server.Player (ShuffleMode RepeatMode)

/-! ## Player -/

/-- A fire-and-forget command. -/
def transport (c : Command) : HandlerV6 Value := do
  perform internal c
  return .object []

def setVolume (data : Value) : HandlerV6 Value := do
  let volume ← check (reqI64 data "volume")
  if volume < 0 ∨ 100 < volume then
    throw { code := .invalidField, message := "volume must be between 0 and 100" }
  perform internal (.setVolume volume)
  let state ← ask internal .playerState
  return .object [("volume", .int state.volume)]

def setMute (data : Value) : HandlerV6 Value := do
  let muted ← check (reqBool data "muted")
  perform internal (.setMute muted)
  let state ← ask internal .playerState
  return .object [("muted", .bool state.mute)]

/-- Answers with the mode asked for: the host applies AutoDJ later. -/
def setShuffle (data : Value) : HandlerV6 Value := do
  let mode ← check (reqStr data "mode")
  match mode with
  | "off" =>
    perform internal (.setShuffle false)
    perform internal (.setAutoDj false)
  | "shuffle" =>
    perform internal (.setAutoDj false)
    perform internal (.setShuffle true)
  | "autodj" =>
    perform internal (.setShuffle true)
    perform internal (.setAutoDj true)
  | other => throw { code := .invalidField, message := "unknown shuffle mode: " ++ other }
  return .object [("mode", .string mode)]

def parseRepeat (mode : String) : Except V6Error RepeatMode :=
  match mode with
  | "none" => .ok .none
  | "all" => .ok .all
  | "one" => .ok .one
  | other => .error { code := .invalidField, message := "unknown repeat mode: " ++ other }

def setRepeat (data : Value) : HandlerV6 Value := do
  let mode ← check (reqStr data "mode")
  let repeatMode ← check (parseRepeat mode)
  perform internal (.setRepeat repeatMode)
  return .object [("mode", .string mode)]

def setScrobbling (data : Value) : HandlerV6 Value := do
  let enabled ← check (reqBool data "enabled")
  if enabled then
    if !(← ask internal .hasLastfmAccount) then
      throw
        { code := .unavailable, message := "scrobbling requires a configured last.fm account" }
  perform internal (.setScrobble enabled)
  let state ← ask internal .playerState
  return .object [("enabled", .bool state.scrobble)]

def setStopAfterCurrent (data : Value) : HandlerV6 Value := do
  let enabled ← check (reqBool data "enabled")
  perform internal (.setStopAfterCurrent enabled)
  let state ← ask internal .playerState
  return .object [("enabled", .bool state.stopAfterCurrent)]

def outputJson (devices : OutputDevices) : Value :=
  .object
    [("active", .string devices.active), ("devices", .array (devices.devices.map .string))]

def output : HandlerV6 Value := do
  let devices ← ask internal .outputDevices
  return outputJson devices

def setOutput (data : Value) : HandlerV6 Value := do
  let device ← check (reqStr data "device")
  let devices ← Commands.switchOutputTo internal device
  return outputJson devices

/-- The `player_*` ops. -/
def dispatchPlayer (op : String) (data : Value) : Option (HandlerV6 Value) :=
  match op with
  | "player_play" => some (transport .play)
  | "player_pause" => some (transport .pause)
  | "player_play_pause" => some (transport .playPause)
  | "player_stop" => some (transport .stop)
  | "player_next" => some (transport .next)
  | "player_previous" => some (transport .previous)
  | "player_set_volume" => some (setVolume data)
  | "player_set_mute" => some (setMute data)
  | "player_set_shuffle" => some (setShuffle data)
  | "player_set_repeat" => some (setRepeat data)
  | "player_set_scrobbling" => some (setScrobbling data)
  | "player_set_stop_after_current" => some (setStopAfterCurrent data)
  | "player_status" => some (readsV6 [.playerState])
  | "player_output" => some output
  | "player_set_output" => some (setOutput data)
  | _ => none

/-! ## The playing track -/

def positionJson (position : PlaybackPosition) : Value :=
  .object [("position_ms", .int position.current), ("duration_ms", .int position.total)]

def position : HandlerV6 Value := do
  let position ← ask internal .playbackPosition
  return positionJson position

def seek (data : Value) : HandlerV6 Value := do
  let ms ← check (reqI64 data "position_ms")
  if ms < 0 then
    throw { code := .invalidField, message := "position_ms must be >= 0" }
  perform internal (.setPosition (i32Saturating ms))
  position

/-- `format_rating`: a whole number without its fraction. -/
def formatRating : Number → String
  | .posInt n => toString n.toNat
  | .negInt n => toString n.toInt
  | .float x => if x.value.den = 1 then toString x.value.num else x.display

/-- The text a rating is set to; null clears it. -/
def ratingText (data : Value) : Except V6Error String :=
  match data.get "rating" with
  | none => .error { code := .missingField, message := "missing required field: rating" }
  | some .null => .ok ""
  | some (.number n) =>
    if n.asF64 < 0 ∨ 5 < n.asF64 then
      .error { code := .invalidField, message := "rating must be 0-5" }
    else .ok (formatRating n)
  | some _ => .error { code := .invalidField, message := "rating must be a number" }

def setRating (data : Value) : HandlerV6 Value := do
  let value ← check (ratingText data)
  perform internal (.setRating value)
  let back ← ask internal .rating
  return .object [("rating", ← reading (.parsedRating back))]

def parseLfm (status : String) : Except V6Error LastfmStatus :=
  match status with
  | "normal" => .ok .normal
  | "love" => .ok .love
  | "ban" => .ok .ban
  | other => .error { code := .invalidField, message := "unknown lfm status: " ++ other }

def lfmStr : LastfmStatus → String
  | .normal => "normal"
  | .love => "love"
  | .ban => "ban"

def setLfm (data : Value) : HandlerV6 Value := do
  let status ← check (reqStr data "status")
  let status ← check (parseLfm status)
  perform internal (.setLfmRating status)
  let status ← ask internal .lfmRating
  return .object [("lfm_status", .string (lfmStr status))]

/-- The `now_playing_*` ops of the playing track. -/
def dispatchNowPlaying (op : String) (data : Value) : Option (HandlerV6 Value) :=
  match op with
  | "now_playing_state" =>
    some (readsV6 [.trackInfo, .lfmRating, .tracksDetailedForPaths, .playbackPosition,
      .nowPlayingListOrdered, .artworkRaw, .artworkLocation])
  | "now_playing_details" => some (readsV6 [.trackDetails])
  | "now_playing_position" => some position
  | "now_playing_lyrics" => some (readsV6 [.nowPlayingSyncedLyrics])
  | "now_playing_seek" => some (seek data)
  | "now_playing_set_rating" => some (setRating data)
  | "now_playing_set_lfm" => some (setLfm data)
  | _ => none

/-! ## The queue -/

/-- Refuses a `version` the queue has moved past. -/
def checkVersion (data : Value) (listVersion : Nat) : Except V6Error Unit := do
  match ← optI64 data "version" with
  | some expected =>
    if expected ≠ (listVersion : Int).bmod (2 ^ 64) then
      throw
        { code := .staleList
          message := "the now-playing list changed; re-read it and retry" }
  | none => pure ()

/-- Checks the version, then runs the mutation. -/
def guarded (data : Value) (listVersion : Nat) (c : Command) : HandlerV6 Value := do
  check (checkVersion data listVersion)
  perform internal c
  return .object []

def playItem (data : Value) (listVersion : Nat) : HandlerV6 Value := do
  let order ← check (reqI64 data "order")
  guarded data listVersion (.playListItem (i32Saturating order))

/-- Stops at the first failure. -/
def removeEach : List Int → HandlerV6 Unit
  | [] => pure ()
  | order :: orders => do
    perform internal (.removeListItem order)
    removeEach orders

/-- The whole batch is checked before anything is removed, from the highest slot down. -/
def removeItems (data : Value) (listVersion : Nat) : HandlerV6 Value := do
  let orders ← check (ordersHighestFirst data "orders")
  check (checkVersion data listVersion)
  let paths ← ask internal .nowPlayingListPaths
  let highest := orders.headD 0
  if paths.length ≤ highest.toNat then
    throw (invalid "orders"
      ("order " ++ toString highest ++ " is past the end of a " ++ toString paths.length ++
        "-track queue"))
  removeEach orders
  return .object []

def moveItem (data : Value) (listVersion : Nat) : HandlerV6 Value := do
  let source ← check (reqI64 data "from")
  let target ← check (reqI64 data "to")
  guarded data listVersion (.moveListItem (i32Saturating source) (i32Saturating target))

def search (data : Value) : HandlerV6 Value := do
  let query ← check (reqStr data "query")
  transport (.searchList query)

def queue (data : Value) : HandlerV6 Value := do
  let paths ← check (reqStrArray data "paths")
  let mode := ((data.get "mode").bind Value.asStr).getD "next"
  let play := ((data.get "play").bind Value.asStr).getD ""
  let queueType ← check (parseQueueType mode)
  transport (.queue queueType paths play)

/-- The ops of the now-playing list. -/
def dispatchNowPlayingList (listVersion : Nat) (op : String) (data : Value) :
    Option (HandlerV6 Value) :=
  match op with
  | "now_playing_list" =>
    some (readsV6 [.nowPlayingListOrdered, .nowPlayingList, .nowPlayingListOrder,
      .tracksDetailedForPaths, .nowPlayingListPaths, .artworkRaw, .artworkLocation])
  | "now_playing_list_play" => some (playItem data listVersion)
  | "now_playing_list_remove" => some (removeItems data listVersion)
  | "now_playing_list_move" => some (moveItem data listVersion)
  | "now_playing_list_clear" => some (guarded data listVersion .clearList)
  | "now_playing_list_search" => some (search data)
  | "now_playing_queue" => some (queue data)
  | _ => none

/-! ## Scopes of the library -/

/-- How a scope op asks for its tracks to be queued. -/
structure QueueRequest where
  mode : QueueType
  play : String
  shuffle : Bool

/-- `QueueRequest::parse`. -/
def parseQueueRequest (data : Value) : Except V6Error QueueRequest := do
  let mode ← parseQueueType ((← optStr data "mode").getD "last")
  let play ← optStr data "play"
  let shuffle ← optBool data "shuffle"
  return { mode, play := play.getD "", shuffle := shuffle.getD false }

def swapAt (paths : List String) (i j : Nat) : List String :=
  (paths.set i (paths.getD j "")).set j (paths.getD i "")

/-- Fisher-Yates, from the place `i` down. -/
def shuffleFrom (picks : List Nat) : Nat → List String → List String
  | 0, paths => paths
  | i + 1, paths => shuffleFrom picks i (swapAt paths (i + 1) (picks.getD (i + 1) 0 % (i + 2)))

/-- A random order; without a random source, or for less than two paths, the given one. -/
def shuffled (paths : List String) : HandlerV6 (List String) := do
  if paths.length < 2 then
    return paths
  match ← reading (.randomPicks paths.length) with
  | some picks => return shuffleFrom picks (paths.length - 1) paths
  | none => return paths

/-- `QueueRequest::queue`: replies the number queued. -/
def QueueRequest.queue (request : QueueRequest) (paths : List String) : HandlerV6 Value := do
  let paths ← if request.shuffle then shuffled paths else pure paths
  if paths ≠ [] then
    perform internal (.queue request.mode paths request.play)
  return .object [("count", .int paths.length)]

/-- The banned tracks; none where the host cannot tell. -/
def excludedPaths : HandlerV6 (List String) :=
  attempt (.query .excludedPaths) fun answer => .ok (answer.toOption.getD [])

/-- `library_queue`: a scope's tracks without the banned ones. -/
def queueScope (data : Value) : HandlerV6 Value := do
  let request ← check (parseQueueRequest data)
  let paths ← attempt (.reading (.scopePaths data)) id
  if paths = [] then
    request.queue paths
  else
    let excluded ← excludedPaths
    request.queue (paths.filter (· ∉ excluded))

def playAll (data : Value) : HandlerV6 Value := do
  let shuffle ← check (optBool data "shuffle")
  transport (.playAll (shuffle.getD false))

/-- The `library_*` ops. -/
def dispatchLibrary (op : String) (data : Value) : Option (HandlerV6 Value) :=
  match op with
  | "library_genres" => some (readsV6 [.browseGenres])
  | "library_artists" => some (readsV6 [.genreArtists, .browseArtists])
  | "library_albums" => some (readsV6 [.artistAlbums, .browseAlbums])
  | "library_tracks" =>
    some (readsV6 [.albumTracks, .trackPaths, .tracksDetailedForPaths, .artworkRaw,
      .artworkLocation])
  | "library_radio" => some (readsV6 [.radioStations])
  | "library_play_all" => some (playAll data)
  | "library_queue" => some (queueScope data)
  | "library_changes" => some (readsV6 [.tracksDetailedForPaths, .artworkRaw, .artworkLocation])
  | _ => none

/-! ## Podcasts and other media -/

def notFound (message : String) : V6Error := { code := .notFound, message }

/-- `one_episode`: the URL of the episode a request names. -/
def oneEpisode (data : Value) : HandlerV6 String := do
  let id ← check (reqStr data "id")
  let index ← check (reqI64 data "index")
  match ← ask internal (.podcastEpisode id (i32Saturating index)) with
  | url :: _ => return url
  | [] => throw (notFound ("no episode " ++ toString index ++ " in subscription: " ++ id))

/-- Plays an episode, or queues it, through the ordinary queue. -/
def episodePlay (data : Value) : HandlerV6 Value := do
  let url ← oneEpisode data
  let mode := ((data.get "mode").bind Value.asStr).getD "now"
  let queueType ← check (parseQueueType mode)
  if url = "" then
    throw (notFound "that episode has no url to play")
  let play := if queueType = .addAndPlay then url else ""
  transport (.queue queueType [url] play)

/-- The `podcast_*` ops. -/
def dispatchPodcast (op : String) (data : Value) : Option (HandlerV6 Value) :=
  match op with
  | "podcast_subscriptions" => some (readsV6 [.podcastSubscriptions, .podcastArtwork])
  | "podcast_subscription" => some (readsV6 [.podcastSubscription, .podcastArtwork])
  | "podcast_episodes" => some (readsV6 [.podcastEpisodes])
  | "podcast_episode" => some (readsV6 [.podcastEpisode])
  | "podcast_episode_play" => some (episodePlay data)
  | _ => none

/-- The names of the categories. -/
def mediaSources : List String := ["audiobooks", "videos", "inbox"]

def mediaSource (data : Value) : Except V6Error String := do
  let name ← reqStr data "source"
  if name ∈ mediaSources then return name
  else throw (invalid "source" ("unknown media source: " ++ name))

/-- `media_queue`. -/
def queueMedia (data : Value) : HandlerV6 Value := do
  let _ ← check (mediaSource data)
  let request ← check (parseQueueRequest data)
  let paths ← attempt (.reading (.mediaPaths data)) id
  request.queue paths

/-- The `media_*` ops. -/
def dispatchMedia (op : String) (data : Value) : Option (HandlerV6 Value) :=
  match op with
  | "media_sources" => some (readsV6 [.mediaPaths])
  | "media_albums" =>
    some (readsV6 [.mediaPaths, .tracksDetailedForPaths, .artworkRaw, .artworkLocation])
  | "media_tracks" =>
    some (readsV6 [.mediaPaths, .tracksDetailedForPaths, .artworkRaw, .artworkLocation])
  | "media_queue" => some (queueMedia data)
  | _ => none

/-! ## Tags -/

/-- Sets one field of the playing file, unless another file plays by then. -/
def setTag (data : Value) : HandlerV6 Value := do
  let path ← check (reqStr data "path")
  let tag ← attempt (.reading (.storedTag data)) id
  let result ← commandFor internal (.writeNowPlayingTag path tag.field tag.read tag.stored)
  match result.outcome with
  | "written" => pure ()
  | "stale_track" =>
    throw
      { code := .staleTrack
        message := path ++ " is no longer the playing track; nothing was written" }
  | _ => throw { code := .unavailable, message := result.reason }
  reading (.refreshRows path)
  match ← reading (.refusedWrite tag.key tag.stored result.value result.previous) with
  | some message => throw { code := .unavailable, message }
  | none => pure ()
  let value ← reading (.shapedField tag.key result.value)
  return .object [("path", .string path), ("key", .string tag.key), ("value", value)]

/-- The tag ops. -/
def dispatchTags (op : String) (data : Value) : Option (HandlerV6 Value) :=
  match op with
  | "tag_fields" => some (readsV6 [.fieldNames, .trackPaths, .tagsForPaths])
  | "tag_values" => some (readsV6 [.trackPaths, .tagsForPaths])
  | "now_playing_tags" => some (readsV6 [.nowPlayingTags, .trackPaths, .tagsForPaths])
  | "now_playing_set_tag" => some (setTag data)
  | _ => none

/-! ## Dispatch -/

/-- The ops of the server and of single tracks. -/
def dispatchTrack (op : String) : Option (HandlerV6 Value) :=
  match op with
  | "system_info" => some (readsV6 [.pluginVersion])
  | "track_get" => some (readsV6 [.tracksDetailedForPaths, .artworkRaw, .artworkLocation])
  | "cover_get" => some (readsV6 [])
  | _ => none

/-- The handler of an op, if it has one: the first domain that knows it. -/
def dispatch (listVersion : Nat) (op : String) (data : Value) : Option (HandlerV6 Value) :=
  dispatchPlayer op data <|> dispatchTrack op <|> dispatchLibrary op data <|>
    dispatchPlaylist op data <|> dispatchNowPlaying op data <|> dispatchPodcast op data <|>
    dispatchMedia op data <|> dispatchTags op data <|> dispatchNowPlayingList listVersion op data

end Mbrc.CommandsV6
