import MbrcPlugin.Lib.Interaction
import MbrcPlugin.Protocol.Json
import MbrcPlugin.Server.PlayerState

/-!
# The provider boundary

The methods through which a handler reaches MusicBee: the commands, which change something there,
and the queries.  What a handler takes from queries next to the caches and the clock, with no
command among them, is a `Reading`: it is answered from outside, and names the queries it makes.
-/

namespace Mbrc.Providers

open Interaction
open Server.Player (PlayState ShuffleMode RepeatMode)

/-! ## Records -/

inductive QueueType where
  | next | last | playNow | addAndPlay
  deriving DecidableEq

inductive LastfmStatus where
  | normal | love | ban
  deriving DecidableEq

structure PlayerState where
  playState : PlayState := .undefined
  volume : Int := 0
  mute : Bool := false
  shuffle : ShuffleMode := .off
  repeatMode : RepeatMode := .undefined
  position : Int := 0
  scrobble : Bool := false
  stopAfterCurrent : Bool := false

structure OutputDevices where
  devices : List String
  active : String

structure PlaybackPosition where
  current : Int
  total : Int

/-- A playlist's tracks; `kind` is the host's name of its format. -/
structure PlaylistFiles where
  name : String
  paths : List String
  kind : String

structure TagWriteResult where
  outcome : String
  value : String
  previous : String
  reason : String

/-! ## Calls -/

/-- A method that changes something. -/
inductive Command where
  | play | pause | playPause | stop | next | previous
  | setVolume (volume : Int)
  | setPosition (positionMs : Int)
  | setMute (value : Bool)
  | setShuffle (value : Bool)
  | setAutoDj (value : Bool)
  | setRepeat (mode : RepeatMode)
  | setScrobble (value : Bool)
  | setStopAfterCurrent (value : Bool)
  | switchOutput (device : String)
  | setRating (value : String)
  | setLfmRating (status : LastfmStatus)
  | setTag (tag value : String)
  | writeNowPlayingTag (path : String) (field readField : Int) (value : String)
  | playListItem (index : Int)
  | removeListItem (index : Int)
  | moveListItem (source target : Int)
  | searchList (query : String)
  | clearList
  | queue (queueType : QueueType) (files : List String) (play : String)
  | playAll (shuffle : Bool)
  | playPlaylist (url : String)
  | createPlaylist (folder name : String) (paths : List String)
  | deletePlaylist (url : String)
  | appendToPlaylist (url : String) (paths : List String)
  | setPlaylistFiles (url : String) (paths : List String)

def Command.Result : Command → Type
  | writeNowPlayingTag .. => TagWriteResult
  | createPlaylist .. => String
  | _ => Unit

/-- A method that only reads, where its answer decides what a handler does or replies. -/
inductive Query where
  | playerState | outputDevices | hasLastfmAccount | playbackPosition | lfmRating | rating
  | trackDetails | nowPlayingListPaths | excludedPaths
  | playlistFiles (url : String)
  | podcastEpisode (id : String) (index : Int)

/-- Details are answered as the record is written out, an episode as its URL. -/
def Query.Result : Query → Type
  | playerState => PlayerState
  | outputDevices => OutputDevices
  | hasLastfmAccount => Bool
  | playbackPosition => PlaybackPosition
  | lfmRating => LastfmStatus
  | rating => String
  | trackDetails => Value
  | nowPlayingListPaths => List String
  | excludedPaths => List String
  | playlistFiles _ => PlaylistFiles
  | podcastEpisode _ _ => List String

/-- The methods that only read. -/
inductive Method where
  | playerState | outputDevices | playbackPosition | trackInfo | trackDetails | cover | lyrics
  | rating | lfmRating | nowPlayingSyncedLyrics | nowPlayingList | nowPlayingListOrdered
  | nowPlayingListPaths | nowPlayingListOrder | podcastSubscriptions | podcastSubscription
  | podcastEpisodes | podcastEpisode | podcastArtwork | browseGenres | browseArtists
  | browseAlbums | browseTracks | genreArtists | artistAlbums | albumTracks | genreTracks
  | albumCover | albumCoverPage | coverCacheStatus | artworkRaw | artworkLocation
  | batchMetadata | trackPaths | mediaPaths | tracksDetailedForPaths | fieldNames
  | tagsForPaths | nowPlayingTags | radioStations | playlists | playlistFiles | playlistCatalog
  | pluginVersion
  deriving DecidableEq

inductive ErrorCode where
  | unknownOp | missingField | invalidField | forbidden | staleList | staleTrack | internal
  | notFound | unavailable
  deriving DecidableEq

/-- A failure of a V6 op, about one field of the data or none. -/
structure V6Error where
  code : ErrorCode
  message : String
  field : Option String := none
  deriving DecidableEq

/-- A tag write as it is stored: the field, the field read back, the value. -/
structure StoredTag where
  key : String
  field : Int
  read : Int
  stored : String

/-- A frame of a V4 reply: context and data. -/
abbrev Reply := String × Value

/-- What is answered without a command, from the queries it names and the caches. -/
inductive Reading where
  /-- The replies of a V4 handler. -/
  | replies (asks : List Method)
  /-- The answer of a V6 handler. -/
  | answer (asks : List Method)
  /-- The rating and the last.fm status of the cache, or of the host where there is none. -/
  | nowRating
  | nowLfm
  /-- `scope_paths`: the tracks a scope of the library names. -/
  | scopePaths (data : Value)
  /-- The files of a category that a scope selects, in reading order. -/
  | mediaPaths (data : Value)
  /-- What `set_tag` stores for the value of a request. -/
  | storedTag (data : Value)
  /-- `refresh_rows`: the kept row of an edited track is read again. -/
  | refreshRows (path : String)
  /-- What is said where the host kept a value although another was sent. -/
  | refusedWrite (key sent readBack previous : String)
  /-- The value of a tag, and a rating, as the wire carries it. -/
  | shapedField (key value : String)
  | parsedRating (raw : String)
  /-- A number from the random source for each place of a list, if it has any. -/
  | randomPicks (length : Nat)

def Reading.Result : Reading → Type
  | replies _ => Except String (List Reply)
  | answer _ => Except V6Error Value
  | nowRating => Except String String
  | nowLfm => Except String LastfmStatus
  | scopePaths _ => Except V6Error (List String)
  | mediaPaths _ => Except V6Error (List String)
  | storedTag _ => Except V6Error StoredTag
  | refreshRows _ => Unit
  | refusedWrite _ _ _ _ => Option String
  | shapedField _ _ => Value
  | parsedRating _ => Value
  | randomPicks _ => Option (List Nat)

inductive Call where
  | command (c : Command)
  | query (q : Query)
  | reading (r : Reading)

def Call.command? : Call → Option Command
  | command c => some c
  | _ => none

/-- A host call can fail with a text. -/
def Answer : Call → Type
  | .command c => Except String c.Result
  | .query q => Except String q.Result
  | .reading r => r.Result

/-! ## Handlers -/

/-- A V4 handler; its error is logged. -/
abbrev Handler (α : Type) := Fallible Answer String α

/-- A V6 handler. -/
abbrev HandlerV6 (α : Type) := Fallible Answer V6Error α

/-- `internal`. -/
def internal (message : String) : V6Error := { code := .internal, message }

section

variable {ε : Type} (err : String → ε)

/-- A host command, its failure as the handler reports it. -/
def commandFor (c : Command) : Fallible Answer ε c.Result :=
  Fallible.attempt (.command c) (Except.mapError err)

/-- A host command whose result is nothing but its success. -/
def perform (c : Command) : Fallible Answer ε Unit :=
  Fallible.attempt (.command c) fun r => (r.mapError err).map fun _ => ()

def ask (q : Query) : Fallible Answer ε q.Result :=
  Fallible.attempt (.query q) (Except.mapError err)

end

/-- A host that fails every call. -/
def silent : (c : Call) → Answer c
  | .command _ => .error ""
  | .query _ => .error ""
  | .reading (.replies _) => .error ""
  | .reading (.answer _) => .error (internal "")
  | .reading .nowRating => .error ""
  | .reading .nowLfm => .error ""
  | .reading (.scopePaths _) => .error (internal "")
  | .reading (.mediaPaths _) => .error (internal "")
  | .reading (.storedTag _) => .error (internal "")
  | .reading (.refreshRows _) => ()
  | .reading (.refusedWrite ..) => none
  | .reading (.shapedField ..) => Value.null
  | .reading (.parsedRating _) => Value.null
  | .reading (.randomPicks _) => none

/-- A V4 handler that only reads. -/
def reads (asks : List Method) : Handler (List Reply) :=
  Fallible.attempt (.reading (.replies asks)) id

/-- A V6 handler that only reads. -/
def readsV6 (asks : List Method) : HandlerV6 Value :=
  Fallible.attempt (.reading (.answer asks)) id

/-- What is answered without an error of its own. -/
def reading (r : Reading) : HandlerV6 r.Result := Fallible.attempt (.reading r) .ok

/-! ## The commands of a run -/

section

variable {σ ε α β : Type}

/-- The commands among the calls of a handler's run. -/
def commands (host : σ → (c : Call) → Answer c × σ) (h : Fallible Answer ε α) (s : σ) :
    List Command :=
  (h.run.calls host s).filterMap Call.command?

theorem commands_check_bind (host : σ → (c : Call) → Answer c × σ) (a : α)
    (f : α → Fallible Answer ε β) (s : σ) :
    commands host (Fallible.check (.ok a) >>= f) s = commands host (f a) s := rfl

theorem commands_attempt_bind (host : σ → (c : Call) → Answer c × σ) (call : Call)
    (read : Answer call → Except ε α) (f : α → Fallible Answer ε β) (s : σ) :
    commands host (Fallible.attempt call read >>= f) s =
      call.command?.toList ++
        match read (host s call).1 with
        | .ok a => commands host (f a) (host s call).2
        | .error _ => [] := by
  have hcalls : (Fallible.attempt call read >>= f).run.calls host s =
      call :: (match read (host s call).1 with
        | .ok a => (f a).run.calls host (host s call).2
        | .error _ => []) := by
    show call :: _ = call :: _
    congr 1
    show (Program.run host (ExceptT.bindCont f (read (host s call).1)) (host s call).2).1 = _
    cases read (host s call).1 <;> rfl
  rw [commands, hcalls, List.filterMap_cons]
  cases call.command? <;> cases read (host s call).1 <;> rfl

/-- A condition on the commands among the calls. -/
def OnCommands (P : Command → Prop) : Call → Prop
  | .command c => P c
  | _ => True

variable {P : Command → Prop} {err : String → ε}

@[simp] theorem onCommands_query (q : Query) : OnCommands P (.query q) ↔ True := Iff.rfl

@[simp] theorem onCommands_reading (r : Reading) : OnCommands P (.reading r) ↔ True := Iff.rfl

theorem within_commands {h : Fallible Answer ε α} (hP : h.Within (OnCommands P))
    (host : σ → (c : Call) → Answer c × σ) (s : σ) : ∀ c ∈ commands host h s, P c := by
  intro c hc
  obtain ⟨call, hcall, hsome⟩ := List.mem_filterMap.mp hc
  have hcallP := Program.Within.calls hP host s call hcall
  cases call with
  | command c' =>
    obtain rfl := Option.some.inj hsome
    exact hcallP
  | query q => simp [Call.command?] at hsome
  | reading r => simp [Call.command?] at hsome

/-- What makes no command. -/
theorem commands_eq_nil {h : Fallible Answer ε α} (hP : h.Within (OnCommands fun _ => False))
    (host : σ → (c : Call) → Answer c × σ) (s : σ) : commands host h s = [] :=
  List.eq_nil_iff_forall_not_mem.mpr (within_commands hP host s)

@[simp] theorem within_perform (c : Command) :
    Fallible.Within (OnCommands P) (perform err c) ↔ P c := Fallible.within_attempt _ _

@[simp] theorem within_perform_bind (c : Command) (f : Unit → Fallible Answer ε β) :
    Fallible.Within (OnCommands P) (perform err c >>= f) ↔
      P c ∧ Fallible.Within (OnCommands P) (f ()) := by
  refine (Fallible.within_attempt_bind _ _ _).trans (and_congr_right fun _ => ?_)
  constructor
  · intro h
    cases c with
    | writeNowPlayingTag path field readField value => exact h (.ok ⟨"", "", "", ""⟩) () rfl
    | createPlaylist folder name paths => exact h (.ok "") () rfl
    | _ => exact h (.ok ()) () rfl
  · intro h _ _ _
    exact h

@[simp] theorem within_commandFor_bind (c : Command) (f : c.Result → Fallible Answer ε β) :
    Fallible.Within (OnCommands P) (commandFor err c >>= f) ↔
      P c ∧ ∀ a, Fallible.Within (OnCommands P) (f a) := by
  refine (Fallible.within_attempt_bind _ _ _).trans (and_congr_right fun _ => ?_)
  exact ⟨fun h a => h (.ok a) a rfl, fun h _ a _ => h a⟩

@[simp] theorem within_ask (q : Query) :
    Fallible.Within (OnCommands P) (ask err q) ↔ True := Fallible.within_attempt _ _

@[simp] theorem within_ask_bind (q : Query) (f : q.Result → Fallible Answer ε β) :
    Fallible.Within (OnCommands P) (ask err q >>= f) ↔
      ∀ a, Fallible.Within (OnCommands P) (f a) := by
  refine (Fallible.within_attempt_bind _ _ _).trans ⟨fun h a => h.2 (.ok a) a rfl, fun h => ?_⟩
  exact ⟨trivial, fun _ a _ => h a⟩

@[simp] theorem within_reads (asks : List Method) :
    Fallible.Within (OnCommands P) (reads asks) ↔ True := Fallible.within_attempt _ _

@[simp] theorem within_readsV6 (asks : List Method) :
    Fallible.Within (OnCommands P) (readsV6 asks) ↔ True := Fallible.within_attempt _ _

@[simp] theorem within_reading_bind (r : Reading) (f : r.Result → HandlerV6 β) :
    Fallible.Within (OnCommands P) (reading r >>= f) ↔
      ∀ a, Fallible.Within (OnCommands P) (f a) := by
  refine (Fallible.within_attempt_bind _ _ _).trans ⟨fun h a => h.2 a a rfl, fun h => ?_⟩
  exact ⟨trivial, fun _ a _ => h a⟩

end

end Mbrc.Providers
