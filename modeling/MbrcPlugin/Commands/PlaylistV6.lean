import MbrcPlugin.Commands.FieldsV6

/-!
# The V6 playlist edits

An edit reads the playlist it names, refuses one the host does not know or that is no list of
tracks, checks the `version` the request carries against its contents, and writes it.
-/

namespace Mbrc.CommandsV6

open Providers
open Interaction.Fallible (check attempt)

/-! ## The version of a list of paths -/

/-- FNV-1a over the bytes. -/
def fnv1a64 (bytes : List UInt8) : UInt64 :=
  bytes.foldl (fun hash b => (hash ^^^ b.toUInt64) * 0x100000001b3) 0xcbf29ce484222325

def rotateLeft7 (x : UInt64) : UInt64 := (x <<< 7) ||| (x >>> 57)

def orderedFingerprint (paths : List String) : UInt64 :=
  paths.foldl (fun acc path => fnv1a64 path.toUTF8.data.toList ^^^ rotateLeft7 acc) 0 ^^^
    UInt64.ofNat paths.length * 0x9E3779B97F4A7C15

/-- `version_of`: sixteen hexadecimal digits. -/
def versionOf (paths : List String) : String :=
  let digits := Nat.toDigits 16 (orderedFingerprint paths).toNat
  String.ofList (List.replicate (16 - digits.length) '0' ++ digits)

/-! ## Playlists that can be edited -/

def known (kind : String) : Bool := kind ≠ "Unknown" && kind ≠ ""

def editable (kind : String) : Bool := kind ≠ "Auto" && kind ≠ "Radio" && known kind

/-- `known_files`: nothing reaches a write with a URL the host has not listed. -/
def knownFiles (url : String) : HandlerV6 PlaylistFiles := do
  let files ← ask internal (.playlistFiles url)
  if !known files.kind then
    throw { code := .notFound, message := "no playlist at this url", field := some "url" }
  return files

/-- The request carries no version, or that of the contents. -/
def checkVersionOf (data : Value) (files : PlaylistFiles) : Except V6Error Unit := do
  match ← optStr data "version" with
  | some expected =>
    if expected ≠ versionOf files.paths then
      throw
        { code := .staleList, message := "the playlist changed; re-read it and retry" }
  | none => pure ()

def editableFiles (data : Value) (url : String) : HandlerV6 PlaylistFiles := do
  let files ← knownFiles url
  if !editable files.kind then
    throw
      { code := .unavailable
        message := "this playlist is not a list of tracks that can be edited" }
  check (checkVersionOf data files)
  return files

theorem within_knownFiles {P : Command → Prop} (url : String) :
    (knownFiles url).Within (OnCommands P) := by
  simp only [knownFiles, within_ask_bind]
  intro files
  apply Interaction.Fallible.Within.ite <;> intro _ <;> trivial

theorem within_editableFiles {P : Command → Prop} (data : Value) (url : String) :
    (editableFiles data url).Within (OnCommands P) := by
  apply (within_knownFiles url).bind
  intro files
  split <;> simp

/-- The version after a write, read back. -/
def writtenVersion (url : String) : HandlerV6 String := do
  let files ← ask internal (.playlistFiles url)
  return versionOf files.paths

/-! ## The tracks a request names -/

/-- By paths, by a scope of the library, or by the whole queue. -/
def namedTracks (data : Value) : HandlerV6 (Option (List String)) := do
  let byPaths := (data.get "paths").isSome
  -- the query is looked at only where no other field names a scope
  let byScope ← check (do
    if ["genre", "artist", "album"].any fun field => (data.get field).isSome then return true
    return (← optStr data "query").any fun q => Text.trim q ≠ "")
  let byQueue ← check (optBool data "now_playing")
  match byPaths, byScope, byQueue.getD false with
  | false, false, false => return none
  | true, false, false => return some (← check (reqStrArray data "paths"))
  | false, true, false =>
    let paths ← attempt (.reading (.scopePaths data)) id
    return some paths
  | false, false, true => return some (← ask internal .nowPlayingListPaths)
  | _, _, _ =>
    throw
      { code := .invalidField
        message := "name the tracks one way: paths, a library scope, or now_playing" }

def requiredTracks (data : Value) : HandlerV6 (List String) := do
  match ← namedTracks data with
  | some paths => return paths
  | none =>
    throw
      { code := .missingField
        message := "name the tracks: paths, a library scope, or now_playing"
        field := some "paths" }

/-! ## Names and folders -/

/-- Characters Windows refuses in a file name. -/
def reservedInName : List Char := ['<', '>', ':', '"', '/', '\\', '|', '?', '*']

def hasReserved (name : List Char) : Bool := name.any (· ∈ reservedInName)

def isSeparator (c : Char) : Bool := c = '/' || c = '\\'

/-- `is_folder_under_root`: a place inside the playlists root. -/
def isFolderUnderRoot (folder : String) : Bool :=
  let chars := folder.toList
  chars = [] ||
    (!(chars.head?.any isSeparator) &&
      (chars.splitOnP isSeparator).all fun segment =>
        (Text.trim (String.ofList segment)) ≠ "" && segment ≠ ['.'] && segment ≠ ['.', '.'] &&
          !hasReserved segment)

/-! ## Edits -/

def versionReply (url : String) (counted : List (String × Value)) : HandlerV6 Value := do
  let version ← writtenVersion url
  return .object (("version", .string version) :: counted)

theorem within_versionReply {P : Command → Prop} (url : String) (counted : List (String × Value)) :
    (versionReply url counted).Within (OnCommands P) := by
  have hversion : (writtenVersion url).Within (OnCommands P) :=
    (within_ask_bind (.playlistFiles url) _).mpr fun _ => trivial
  exact hversion.bind fun _ => trivial

def playPlaylist (data : Value) : HandlerV6 Value := do
  let url ← check (reqStr data "url")
  perform internal (.playPlaylist url)
  return .object []

def createPlaylist (data : Value) : HandlerV6 Value := do
  let name ← check (reqStr data "name")
  let name := Text.trim name
  if name = "" ∨ hasReserved name.toList then
    throw (invalid "name" "name must not be blank or contain < > : \" / \\ | ? *")
  let folder ← check (optStr data "folder")
  let folder := folder.getD ""
  if !isFolderUnderRoot folder then
    throw (invalid "folder" "folder must be a relative path under the playlists root")
  let paths ← namedTracks data
  let url ← commandFor internal (.createPlaylist folder name (paths.getD []))
  let files ← ask internal (.playlistFiles url)
  return .object
    [("url", .string url), ("name", .string files.name),
      ("version", .string (versionOf files.paths))]

/-- Any playlist the host knows can be deleted. -/
def deletePlaylist (data : Value) : HandlerV6 Value := do
  let url ← check (reqStr data "url")
  let _ ← knownFiles url
  perform internal (.deletePlaylist url)
  return .object []

def addTracks (data : Value) : HandlerV6 Value := do
  let url ← check (reqStr data "url")
  let _ ← editableFiles data url
  let paths ← requiredTracks data
  if paths ≠ [] then
    perform internal (.appendToPlaylist url paths)
  versionReply url [("added", .int paths.length)]

/-- Refuses an order past the end. -/
def checkInRange (highest : Int) (len : Nat) (field : String) : Except V6Error Unit :=
  if len ≤ highest.toNat then
    .error (invalid field
      ("order " ++ toString highest ++ " is past the end of a " ++ toString len ++
        "-track playlist"))
  else .ok ()

/-- The paths whose place is, or is not, among the orders. -/
def partitionAt (paths : List String) (orders : List Int) : List String × List String :=
  let (lifted, rest) := paths.zipIdx.partition fun row => (row.2 : Int) ∈ orders
  (lifted.map (·.1), rest.map (·.1))

def removeTracks (data : Value) : HandlerV6 Value := do
  let url ← check (reqStr data "url")
  let orders ← check (ordersHighestFirst data "orders")
  let files ← editableFiles data url
  check (checkInRange (orders.headD 0) files.paths.length "orders")
  perform internal (.setPlaylistFiles url (partitionAt files.paths orders).2)
  versionReply url [("removed", .int orders.length)]

/-- `moved_to`: the slots are lifted out and the first of them lands at `target`. -/
def movedTo (paths : List String) (orders : List Int) (target : Nat) : List String :=
  let (moved, rest) := partitionAt paths orders
  rest.take target ++ moved ++ rest.drop target

def moveTracks (data : Value) : HandlerV6 Value := do
  let url ← check (reqStr data "url")
  let orders ← check (ordersHighestFirst data "from_orders")
  let target ← check (reqI64 data "to_order")
  let files ← editableFiles data url
  let len := files.paths.length
  check (checkInRange (orders.headD 0) len "from_orders")
  let room := len - orders.length
  if target < 0 ∨ room < target then
    throw (invalid "to_order"
      ("to_order must be 0..=" ++ toString room ++ " when moving " ++ toString orders.length ++
        " tracks"))
  perform internal (.setPlaylistFiles url (movedTo files.paths orders target.toNat))
  versionReply url []

def setTracks (data : Value) : HandlerV6 Value := do
  let url ← check (reqStr data "url")
  let _ ← editableFiles data url
  let paths ← requiredTracks data
  perform internal (.setPlaylistFiles url paths)
  versionReply url []

/-- The `playlist_*` ops. -/
def dispatchPlaylist (op : String) (data : Value) : Option (HandlerV6 Value) :=
  match op with
  | "playlist_list" => some (readsV6 [.playlistCatalog])
  | "playlist_play" => some (playPlaylist data)
  | "playlist_tracks" =>
    some (readsV6 [.playlistFiles, .tracksDetailedForPaths, .artworkRaw, .artworkLocation])
  | "playlist_create" => some (createPlaylist data)
  | "playlist_delete" => some (deletePlaylist data)
  | "playlist_add_tracks" => some (addTracks data)
  | "playlist_remove_tracks" => some (removeTracks data)
  | "playlist_move_tracks" => some (moveTracks data)
  | "playlist_set_tracks" => some (setTracks data)
  | _ => none

end Mbrc.CommandsV6
