import Mathlib.Logic.Function.Basic
import MbrcPlugin.Lib.Interaction
import MbrcPlugin.Lib.Transition

/-!
# The work that outlives its call

The jobs a core starts on threads of their own and the calls the host makes into it, as programs:
host calls in the order of the code, and between them the places where the code asks whether it
may go on.  What a job takes from the caches or the network comes from outside.
-/

namespace Mbrc.Lifetime

open Interaction

/-! ## Calls -/

inductive HostEventType where
  | cacheStatusChanged | updateStatusChanged | captureStatusChanged
  deriving DecidableEq

/-- A call through the provider boundary. -/
inductive HostCall where
  | emitEvent (event : HostEventType)
  | setBackgroundTaskMessage
  | albumIdentifiers | trackPaths | syncDelta
  | browseGenres | browseArtists (albumArtists : Bool) | browseAlbums
  | artworkLocation (path : String) | artworkRaw (path : String)
  | playerState | trackInfo | trackDetails | rating | lfmRating | cover | lyrics
  | playbackPosition
  | pluginVersion
  deriving DecidableEq

/-- What a job learns from elsewhere in the core. -/
inductive Lookup where
  /-- The browse lists have to be read again. -/
  | needsRebuild
  /-- The index was synced before: the host is asked what was edited since. -/
  | synced
  /-- The now-playing cache was filled. -/
  | seeded
  /-- A fetch is compared with what the core reads itself, for the first of a build. -/
  | parityLeft
  /-- A verified update is known; an update is on offer. -/
  | available | offered
  /-- The network client could be built. -/
  | client
  deriving DecidableEq

inductive Call where
  | host (c : HostCall)
  | lookup (l : Lookup)
  /-- The albums without a cover, and those whose artwork the workers could not read. -/
  | missingCovers
  | fallback
  | isStopping
  | isInitialized
  /-- The single-flight right of the reconcile, and of the update jobs. -/
  | beginReconcile | endReconcile
  | claimJob | releaseJob

/-- A host call is answered or fails; `artworkLocation` is answered where it names a source. -/
def Answer : Call → Type
  | .host _ => Bool
  | .lookup _ => Bool
  | .missingCovers => List String
  | .fallback => List String
  | .isStopping => Bool
  | .isInitialized => Bool
  | .beginReconcile => Bool
  | .endReconcile => Unit
  | .claimJob => Bool
  | .releaseJob => Unit

abbrev Job := Program Answer

def host (c : HostCall) : Job Bool := .call (.host c) .done

/-- A host call whose answer changes nothing of what follows. -/
def tell (c : HostCall) : Job Unit := .call (.host c) fun _ => .done ()

def lookup (l : Lookup) : Job Bool := .call (.lookup l) .done

def isStopping : Job Bool := .call .isStopping .done

def isInitialized : Job Bool := .call .isInitialized .done

def beginReconcile : Job Bool := .call .beginReconcile .done

def endReconcile : Job Unit := .call .endReconcile .done

def claimJob : Job Bool := .call .claimJob .done

def releaseJob : Job Unit := .call .releaseJob .done

/-! ## Reconciles -/

/-- What a reconcile pass refreshes. -/
inductive RebuildScope where
  | metadata | covers | both
  deriving DecidableEq

namespace RebuildScope

def doesMetadata (scope : RebuildScope) : Bool := scope = metadata || scope = both

def doesCovers (scope : RebuildScope) : Bool := scope = covers || scope = both

end RebuildScope

def notifyReconcile : Job Unit := tell (.emitEvent .cacheStatusChanged)

def prewarmBrowseLists : Job Unit := do
  tell .browseGenres
  tell (.browseArtists false)
  tell (.browseArtists true)
  tell .browseAlbums

def buildTrackIndex : Job Unit := do
  if ← host .trackPaths then
    if ← lookup .synced then
      tell .syncDelta

def reconcileMetadata : Job Unit := do
  if ← lookup .needsRebuild then
    prewarmBrowseLists
  buildTrackIndex

/-- The producer of a cover build: it asks between two albums whether to stop. -/
def locateEach : List String → Job Unit
  | [] => pure ()
  | path :: paths => do
    if ← isStopping then
      return
    if ← host (.artworkLocation path) then
      if ← lookup .parityLeft then
        tell (.artworkRaw path)
    else tell (.artworkRaw path)
    locateEach paths

/-- Fetches through the host what the workers could not read. -/
def fallBack : List String → Job Unit
  | [] => pure ()
  | path :: paths => do
    if ← isStopping then
      return
    tell (.artworkRaw path)
    fallBack paths

def fetchMissingCovers : Job Unit := do
  locateEach (← .call .missingCovers .done)
  fallBack (← .call .fallback .done)

/-- `run_reconcile`: nothing without a storage path, or while another pass runs. -/
def runReconcile (storagePath : String) (scope : RebuildScope) : Job Unit := do
  if storagePath = "" then
    return
  if !(← beginReconcile) then
    return
  notifyReconcile
  tell .setBackgroundTaskMessage
  if ← host .albumIdentifiers then
    if scope.doesMetadata then
      reconcileMetadata
    if ← isStopping then
      endReconcile
      return
    if scope.doesCovers then
      fetchMissingCovers
  tell .setBackgroundTaskMessage
  endReconcile
  notifyReconcile

/-! ## Updates -/

/-- Tells the host of a new status, unless the core was shut down. -/
def publish : Job Unit := do
  if ← isInitialized then
    tell (.emitEvent .updateStatusChanged)

/-- `spawn_publishing`: what the thread does, up to the end of its claim. -/
def spawnPublishing (work : Job Unit) : Job Unit := do
  if ← isInitialized then
    work
    publish
  releaseJob

/-- Without a client the check fails before it asks the host. -/
def runCheck : Job Unit := do
  if ← lookup .client then
    tell .pluginVersion

def startCheck (force : Bool) : Job Unit := do
  if ← claimJob then
    if force then
      publish
    spawnPublishing runCheck

def startDownload : Job Unit := do
  if ← lookup .available then
    if ← claimJob then
      publish
      spawnPublishing (pure ())

def skipAvailable : Job Unit := do
  if ← lookup .offered then
    publish

/-! ## Notifications -/

inductive NotificationType where
  | trackChanged | playStateChanged | volumeLevelChanged | volumeMuteChanged
  | nowPlayingLyricsReady | nowPlayingArtworkReady | nowPlayingListChanged
  | fileAddedToLibrary | fileDeleted | tagsChanged | ratingChanged | inboxChanged
  | librarySwitched | shuffleChanged | repeatChanged | stopAfterCurrentChanged
  deriving DecidableEq

def refreshTrackBundle : Job Unit := do
  tell .trackInfo
  tell .trackDetails
  tell .rating
  tell .lfmRating
  tell .cover
  tell .lyrics

/-- A reader of the cache fills it first. -/
def snapshot : Job Unit := do
  if !(← lookup .seeded) then
    tell .playerState
    refreshTrackBundle

/-- `dispatch_notification`, with the thread a library switch starts. -/
def dispatchNotification (storagePath : String) : NotificationType → Job Unit
  | .librarySwitched => runReconcile storagePath .both
  | .fileAddedToLibrary | .fileDeleted | .tagsChanged | .ratingChanged | .inboxChanged
  | .nowPlayingListChanged => pure ()
  | .trackChanged => do
    refreshTrackBundle
    tell .playbackPosition
    snapshot
  | .playStateChanged | .volumeLevelChanged | .volumeMuteChanged | .stopAfterCurrentChanged
  | .shuffleChanged | .repeatChanged => do
    tell .playerState
    snapshot
  | .nowPlayingLyricsReady => do
    tell .lyrics
    snapshot
  | .nowPlayingArtworkReady => do
    tell .cover
    snapshot

/-! ## Calls of the host -/

def emitCapture : Job Unit := tell (.emitEvent .captureStatusChanged)

/-- The thread that writes a bundle, once the capture has ended. -/
def stopCapture : Job Unit := do
  emitCapture
  if ← isInitialized then
    if ← isInitialized then
      emitCapture

/-- A call into the core that takes the core and may reach the host: the queries and the other
commands are answered from what the core has. -/
inductive FfiCall where
  | notification (type : NotificationType)
  | rebuild (scope : RebuildScope)
  | checkForUpdate | downloadUpdate | skipUpdate | applyStagedUpdate
  | startCapture | stopCapture | cancelCapture
  /-- The watchdog of a capture, from when it takes the core. -/
  | expireCapture
  deriving DecidableEq

/-- What the call does, and then the thread it starts. -/
def FfiCall.job (storagePath : String) : FfiCall → Job Unit
  | notification type => dispatchNotification storagePath type
  | rebuild scope => runReconcile storagePath scope
  | checkForUpdate => startCheck true
  | downloadUpdate => startDownload
  | skipUpdate => skipAvailable
  | applyStagedUpdate => tell .pluginVersion
  | startCapture => emitCapture
  | stopCapture => Lifetime.stopCapture
  | cancelCapture => emitCapture
  | expireCapture => emitCapture

end Mbrc.Lifetime

/-!
# Cores and their end

The global state behind its lock: the initialized core and whether it serves the network.
`shutdown` takes the core out, waits for the networking thread if there is one, and returns; the
threads of the core's jobs go on with the reference they hold.
-/

namespace Mbrc.Lifetime

open Interaction Transition

/-! ## The state -/

/-- A thread at work for a core; those of the networking are waited for. -/
structure Thread where
  core : Nat
  joined : Bool
  rest : Job Unit

/-- The call that holds the lock of the state for as long as it runs. -/
inductive Holder where
  | stopNetworking (core : Nat)
  /-- `joins` where there is a networking thread to wait for. -/
  | shutdown (core : Nat) (joins : Bool)
  deriving DecidableEq

def Holder.core : Holder → Nat
  | stopNetworking core => core
  | shutdown core _ => core

structure State where
  /-- The initialized core; cores are numbered as they are made. -/
  current : Option Nat
  created : Nat
  net : Bool
  holder : Option Holder
  stopping : Nat → Bool
  reconciling : Nat → Bool
  busy : Bool
  threads : List Thread
  /-- The host calls made for a core whose shutdown had returned. -/
  late : List HostCall

namespace State

def init : State where
  current := none
  created := 0
  net := false
  holder := none
  stopping := fun _ => false
  reconciling := fun _ => false
  busy := false
  threads := []
  late := []

/-- The core is not the initialized one and its shutdown has returned. -/
def Gone (s : State) (core : Nat) : Prop :=
  s.current ≠ some core ∧ ∀ joins, s.holder ≠ some (.shutdown core joins)

instance (s : State) (core : Nat) : Decidable (s.Gone core) :=
  inferInstanceAs (Decidable (_ ∧ _))

/-- The core whose networking has tasks: until they are waited for. -/
def netCore (s : State) : Option Nat :=
  if s.net then s.current
  else match s.holder with
    | some (.stopNetworking core) => some core
    | some (.shutdown core true) => some core
    | _ => none

/-- A thread of its own for a job of the core. -/
def spawn (s : State) (core : Nat) (job : Job Unit) : State :=
  { s with threads := ⟨core, false, job⟩ :: s.threads }

/-- The thread has come to what follows. -/
def moved (s : State) (i : Nat) (t : Thread) (rest : Job Unit) : State :=
  { s with threads := s.threads.set i { t with rest } }

end State

/-! ## Steps -/

/-- What a lookup or a host call comes back with. -/
structure Reply where
  ok : Bool
  paths : List String

inductive Event where
  | init
  | startNetworking
  | beginStopping
  | stopNetworking
  | shutdown
  /-- The call that holds the lock returns. -/
  | returns
  /-- A call into the core that takes the core. -/
  | ffi (storagePath : String) (call : FfiCall)
  /-- The networking starts a task: a client's request, the monitor, the scanner. -/
  | task (job : Job Unit)
  /-- The networking starts the update check of the session. -/
  | startupCheck
  /-- A thread takes its next step. -/
  | step (thread : Nat) (reply : Reply)
  /-- The runtime drops a task of the networking. -/
  | drop (thread : Nat)

/-- One step of a thread: the flags answer from the state, the rest from outside. -/
def stepThread (s : State) (i : Nat) (t : Thread) (reply : Reply) : Option State :=
  match t.rest with
  | .done _ => none
  | .call (.host c) next =>
    some { s.moved i t (next reply.ok) with
      late := if s.Gone t.core then c :: s.late else s.late }
  | .call (.lookup _) next => some (s.moved i t (next reply.ok))
  | .call .missingCovers next => some (s.moved i t (next reply.paths))
  | .call .fallback next => some (s.moved i t (next reply.paths))
  | .call .isStopping next => some (s.moved i t (next (s.stopping t.core)))
  | .call .isInitialized next =>
    if s.holder = none then some (s.moved i t (next s.current.isSome)) else none
  | .call .beginReconcile next =>
    some { s.moved i t (next !s.reconciling t.core) with
      reconciling := Function.update s.reconciling t.core true }
  | .call .endReconcile next =>
    some { s.moved i t (next ()) with
      reconciling := Function.update s.reconciling t.core false }
  | .call .claimJob next => some { s.moved i t (next !s.busy) with busy := true }
  | .call .releaseJob next => some { s.moved i t (next ()) with busy := false }

def next (s : State) : Event → Option State
  | .init =>
    if s.holder = none ∧ s.current = none then
      some { s with
        current := some s.created, created := s.created + 1
        stopping := Function.update s.stopping s.created false }
    else none
  | .startNetworking =>
    match s.holder, s.current with
    | none, some c =>
      if s.net then none
      else some { s with net := true, stopping := Function.update s.stopping c false }
    | _, _ => none
  | .beginStopping =>
    match s.holder, s.current with
    | none, some c => some { s with stopping := Function.update s.stopping c true }
    | _, _ => none
  | .stopNetworking =>
    match s.holder, s.current with
    | none, some c =>
      if s.net then
        some { s with
          net := false, holder := some (.stopNetworking c)
          stopping := Function.update s.stopping c true }
      else none
    | _, _ => none
  | .shutdown =>
    match s.holder, s.current with
    | none, some c =>
      some { s with
        current := none, net := false, holder := some (.shutdown c s.net)
        stopping := Function.update s.stopping c true }
    | _, _ => none
  | .returns =>
    match s.holder with
    | some h =>
      -- the networking thread is joined: none of its tasks is left
      if s.threads.all fun t => !(t.joined && t.core = h.core) then some { s with holder := none }
      else none
    | none => none
  | .ffi storagePath call =>
    match s.holder, s.current with
    | none, some c => some (s.spawn c (call.job storagePath))
    | _, _ => none
  | .task job => s.netCore.map fun c => { s with threads := ⟨c, true, job⟩ :: s.threads }
  | .startupCheck => s.netCore.map fun c => s.spawn c (startCheck false)
  | .step i reply =>
    match s.threads[i]? with
    | some t => stepThread s i t reply
    | none => none
  | .drop i =>
    match s.threads[i]? with
    | some t => if t.joined then some { s with threads := s.threads.eraseIdx i } else none
    | none => none

/-- The core's state over a run of the host. -/
def system : System State Event where
  start s := s = State.init
  next := next

end Mbrc.Lifetime
