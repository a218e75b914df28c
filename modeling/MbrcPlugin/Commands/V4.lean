import MbrcPlugin.Host.Providers

/-!
# The V4 wire codec

The spellings of the V4 and V5 wire, written and read.
-/

namespace Mbrc.WireV4

open Providers
open Server.Player (PlayState ShuffleMode RepeatMode)

/-! ## Written -/

def shuffle : ShuffleMode → Value
  | .off => .string "off"
  | .shuffle => .string "shuffle"
  | .autoDj => .string "autodj"

def repeatMode : RepeatMode → Value
  | .undefined => .string "Undefined"
  | .none => .string "None"
  | .all => .string "All"
  | .one => .string "One"

def lfmStatus : LastfmStatus → Value
  | .normal => .string "Normal"
  | .love => .string "Love"
  | .ban => .string "Ban"

def outputDevices (devices : OutputDevices) : Value :=
  .object
    [("active", .string devices.active), ("devices", .array (devices.devices.map .string))]

/-! ## Read -/

def parseRepeat : String → Option RepeatMode
  | "None" => some .none
  | "All" => some .all
  | "One" => some .one
  | _ => none

def parseLfm (value : String) : Option LastfmStatus :=
  match asciiLower value with
  | "love" => some .love
  | "ban" => some .ban
  | _ => none

/-- A placement the wire does not know is `next`. -/
def parseQueueType : String → QueueType
  | "last" => .last
  | "now" => .playNow
  | "add-all" => .addAndPlay
  | _ => .next

end Mbrc.WireV4

/-!
# The V4 command handlers

A context's handler reads the data in its own way and calls the host.  Most setters double as
getters: they set when the data holds a value and reply the current one either way.
-/

namespace Mbrc.Commands

open Providers
open Server.Player (ShuffleMode RepeatMode)

inductive Platform where
  | android | ios | unknown
  deriving DecidableEq

inductive ProtocolVersion where
  | v4 | v5
  deriving DecidableEq

/-- What a dispatch knows of its client. -/
structure Ctx where
  version : ProtocolVersion
  platform : Platform

/-! ## Player -/

/-- A fire-and-forget command and its reply. -/
def ack (c : Command) (context : String) : Handler (List Reply) := do
  perform id c
  return [(context, .bool true)]

def play : Handler (List Reply) := ack .play "playerplay"
def pause : Handler (List Reply) := ack .pause "playerpause"
def playPause : Handler (List Reply) := ack .playPause "playerplaypause"
def stop : Handler (List Reply) := ack .stop "playerstop"
def next : Handler (List Reply) := ack .next "playernext"
def previous : Handler (List Reply) := ack .previous "playerprevious"

/-- Sets or queries; a value past the range of `i32` wraps. -/
def volume (data : Value) : Handler (List Reply) := do
  if let some v := asIntLenient data then
    perform id (.setVolume (toI32 v))
  let state ← ask id .playerState
  return [("playervolume", .int state.volume)]

/-- Sets, toggles or queries a switch of the player. -/
def setSwitch (current : PlayerState → Bool) (set : Bool → Command) (context : String)
    (data : Value) : Handler (List Reply) := do
  if data.asStr = some "toggle" then
    let state ← ask id .playerState
    perform id (set !current state)
  else if let some b := asBoolLenient data then
    perform id (set b)
  let state ← ask id .playerState
  return [(context, .bool (current state))]

def mute : Value → Handler (List Reply) := setSwitch PlayerState.mute .setMute "playermute"

def scrobble : Value → Handler (List Reply) :=
  setSwitch PlayerState.scrobble .setScrobble "scrobbler"

/-- Sets, toggles (off, shuffle, AutoDJ and off again) or queries. -/
def shuffle (data : Value) : Handler (List Reply) := do
  match data.asStr with
  | some "toggle" =>
    let state ← ask id .playerState
    match state.shuffle with
    | .off => perform id (.setShuffle true)
    | .shuffle => perform id (.setAutoDj true)
    | .autoDj => perform id (.setAutoDj false)
  | some "autodj" =>
    perform id (.setShuffle true)
    perform id (.setAutoDj true)
  | some "shuffle" =>
    perform id (.setAutoDj false)
    perform id (.setShuffle true)
  | some "off" =>
    perform id (.setShuffle false)
    perform id (.setAutoDj false)
  | _ => pure ()
  let state ← ask id .playerState
  return [("playershuffle", WireV4.shuffle state.shuffle)]

/-- An unrecognized value is a query. -/
def repeatMode (data : Value) : Handler (List Reply) := do
  match data.asStr with
  | some "toggle" =>
    let state ← ask id .playerState
    perform id (.setRepeat (match state.repeatMode with
      | .none => .all
      | .all => .one
      | _ => .none))
  | some mode =>
    if let some mode := WireV4.parseRepeat mode then
      perform id (.setRepeat mode)
  | none => pure ()
  let state ← ask id .playerState
  return [("playerrepeat", WireV4.repeatMode state.repeatMode)]

def status : Handler (List Reply) := reads [.playerState]

/-- `playeroutput`: a pure query, whatever the data is. -/
def output : Handler (List Reply) := do
  let devices ← ask id .outputDevices
  return [("playeroutput", WireV4.outputDevices devices)]

/-- `switch_output_to`: a device that is active already is not opened again. -/
def switchOutputTo {ε : Type} (err : String → ε) (device : String) :
    Interaction.Fallible Answer ε OutputDevices := do
  let devices ← ask err .outputDevices
  if device = "" ∨ device = devices.active then
    return devices
  perform err (.switchOutput device)
  ask err .outputDevices

def outputSwitch (data : Value) : Handler (List Reply) := do
  let devices ← switchOutputTo id (data.asStr.getD "")
  return [("playeroutput", WireV4.outputDevices devices)]

/-! ## Track -/

def trackInfo : Handler (List Reply) := reads [.trackInfo]
def details : Handler (List Reply) := reads [.trackDetails]
def cover : Handler (List Reply) := reads [.cover]
def lyrics : Handler (List Reply) := reads [.lyrics]

/-- V5's alias of `position`, which never seeks. -/
def currentPosition : Handler (List Reply) := do
  let position ← ask id .playbackPosition
  return [("nowplayingposition",
    .object [("current", .int position.current), ("total", .int position.total)])]

/-- Seeks or queries. -/
def position (data : Value) : Handler (List Reply) := do
  if let some ms := asIntLenient data then
    perform id (.setPosition (toI32 ms))
  currentPosition

def rating (data : Value) : Handler (List Reply) := do
  match asSetString data with
  | some r =>
    perform id (.setRating r)
    let value ← ask id .rating
    return [("nowplayingrating", .string value)]
  | none =>
    let value ← Interaction.Fallible.attempt (.reading .nowRating) id
    return [("nowplayingrating", .string value)]

/-- Toggles (to normal from either rating, else to love), sets or queries. -/
def lfmRating (data : Value) : Handler (List Reply) := do
  match data.asStr with
  | some action =>
    if asciiLower action = "toggle" then
      let status ← ask id .lfmRating
      perform id (.setLfmRating (match status with
        | .love | .ban => .normal
        | .normal => .love))
    else if let some status := WireV4.parseLfm action then
      perform id (.setLfmRating status)
    let status ← ask id .lfmRating
    return [("nowplayinglfmrating", WireV4.lfmStatus status)]
  | none =>
    let status ← Interaction.Fallible.attempt (.reading .nowLfm) id
    return [("nowplayinglfmrating", WireV4.lfmStatus status)]

def tagChange (data : Value) : Handler (List Reply) := do
  let tag := ((data.get "tag").bind Value.asStr).getD ""
  let value := ((data.get "value").bind Value.asStr).getD ""
  if tag = "" then
    throw "tagchange missing 'tag'"
  perform id (.setTag tag value)
  let details ← ask id .trackDetails
  return [("nowplayingdetails", details)]

/-! ## The now playing list -/

/-- A bare index, or the field `index` of an object. -/
def indexOf (data : Value) : Int :=
  toI32 (((asIntLenient data).or ((data.get "index").bind asIntLenient)).getD 0)

def list : Handler (List Reply) := reads [.nowPlayingListOrdered, .nowPlayingList]

/-- Android counts the rows from one. -/
def playItem (data : Value) (ctx : Ctx) : Handler (List Reply) :=
  let index := if ctx.platform = .android then toI32 (indexOf data - 1) else indexOf data
  ack (.playListItem index) "nowplayinglistplay"

def removeItem (data : Value) : Handler (List Reply) := do
  perform id (.removeListItem (indexOf data))
  return [("nowplayinglistremove",
    .object [("success", .bool true), ("index", .int (indexOf data))])]

def moveTrack (data : Value) : Handler (List Reply) := do
  let source := toI32 (((data.get "from").bind asIntLenient).getD 0)
  let target := toI32 (((data.get "to").bind asIntLenient).getD 0)
  perform id (.moveListItem source target)
  return [("nowplayinglistmove",
    .object [("success", .bool true), ("from", .int source), ("to", .int target)])]

def search (data : Value) : Handler (List Reply) :=
  ack (.searchList ((asSetString data).getD "")) "nowplayinglistsearch"

def queue (data : Value) : Handler (List Reply) := do
  let queueType := WireV4.parseQueueType (((data.get "queue").bind Value.asStr).getD "next")
  let play := ((data.get "play").bind Value.asStr).getD ""
  let files := (((data.get "data").bind Value.asArray).map fun items =>
    items.filterMap Value.asStr).getD []
  perform id (.queue queueType files play)
  return [("nowplayingqueue", .object [("code", .int 200)])]

/-! ## The library, playlists and the system -/

def playAll (data : Value) : Handler (List Reply) :=
  ack (.playAll ((asBoolLenient data).getD false)) "libraryplayall"

def playPlaylist (data : Value) : Handler (List Reply) :=
  ack (.playPlaylist (data.asStr.getD "")) "playlistplay"

/-- The initial state, from the cache. -/
def init : Handler (List Reply) :=
  reads [.playerState, .trackInfo, .rating, .lfmRating, .cover, .lyrics]

/-! ## Dispatch -/

/-- The handler of a context, if it has one. -/
def dispatch (ctx : Ctx) (context : String) (data : Value) : Option (Handler (List Reply)) :=
  match context with
  | "playerplay" => some play
  | "playerpause" => some pause
  | "playerplaypause" => some playPause
  | "playerstop" => some stop
  | "playernext" => some next
  | "playerprevious" => some previous
  | "playervolume" => some (volume data)
  | "playermute" => some (mute data)
  | "playershuffle" => some (shuffle data)
  | "playerrepeat" => some (repeatMode data)
  | "scrobbler" => some (scrobble data)
  | "playerstatus" => some status
  | "playeroutput" => some output
  | "playeroutputswitch" => some (outputSwitch data)
  | "nowplayingtrack" => some trackInfo
  | "nowplayingdetails" => some details
  | "nowplayingposition" => some (position data)
  | "nowplayingcover" => some cover
  | "nowplayinglyrics" => some lyrics
  | "nowplayingrating" => some (rating data)
  | "nowplayinglfmrating" => some (lfmRating data)
  | "nowplayingtagchange" => some (tagChange data)
  | "nowplayingcurrentposition" => if ctx.version = .v5 then some currentPosition else none
  | "nowplayinglist" => some list
  | "nowplayinglistplay" => some (playItem data ctx)
  | "nowplayinglistremove" => some (removeItem data)
  | "nowplayinglistmove" => some (moveTrack data)
  | "nowplayinglistsearch" => some (search data)
  | "nowplayingqueue" => some (queue data)
  | "browsegenres" => some (reads [.browseGenres])
  | "browseartists" => some (reads [.browseArtists])
  | "browsealbums" => some (reads [.browseAlbums])
  | "browsetracks" => some (reads [.browseTracks, .tracksDetailedForPaths])
  | "librarygenreartists" => some (reads [.genreArtists])
  | "libraryartistalbums" => some (reads [.artistAlbums])
  | "libraryalbumtracks" => some (reads [.albumTracks])
  | "libraryalbumcover" =>
    some (reads [.albumCover, .albumCoverPage, .artworkRaw, .batchMetadata])
  | "librarycovercachebuildstatus" => some (reads [.coverCacheStatus])
  | "radiostations" => some (reads [.radioStations])
  | "libraryplayall" => some (playAll data)
  | "playlistlist" => some (reads [.playlists])
  | "playlistplay" => some (playPlaylist data)
  | "pluginversion" => some (reads [])
  | "init" => some init
  | _ => none

end Mbrc.Commands
