import MbrcPlugin.Host.HostCalls

/-!
# The walks of the providers

The handlers of the queries that walk, call by call.  A row is kept as the answers it is made
of.  `GetNowPlayingListOrdered` and `GetNowPlayingListOrder` step through the play order from the
current track and differ in the window and in whether tags are read.
-/

namespace Mbrc.Host

open Interference

/-- What a query replies: its rows and the total it reports. -/
structure Reply where
  rows : List (List Answer)
  total : Nat
  deriving DecidableEq

/-- The end of a window of the queue, when it has one. -/
def windowEnd (offset limit : Int) : Option Int := if limit > 0 then some (offset + limit) else none

/-- The position is in front of the end of the window or at it. -/
def inFront (position : Int) : Option Int → Bool
  | some last => position ≤ last
  | none => true

/-! ## Through the play order -/

/-- Where a walk of the play order stands. -/
inductive OrderAt where
  | opening
  | current
  | url (position itemIndex : Int)
  | tags (position itemIndex : Int) (path : String)
  | next (position : Int)
  | over
  deriving DecidableEq

/-- A walk of the play order, with the rows it has. -/
structure OrderWalk where
  at_ : OrderAt
  rows : List (List Answer)

/-- The call a walk of the play order makes next. -/
def OrderWalk.ask (last : Option Int) (w : OrderWalk) : ApiCall ⊕ Reply :=
  match w.at_ with
  | .opening => .inl ⟨.nowPlayingListQueryFiles, []⟩
  | .current => .inl ⟨.nowPlayingListGetCurrentIndex, []⟩
  | .url position itemIndex =>
    if inFront position last then .inl ⟨.nowPlayingListGetListFileUrl, [.number itemIndex]⟩
    else .inr ⟨w.rows, w.rows.length⟩
  | .tags _ itemIndex _ => .inl ⟨.nowPlayingListGetFileTags, [.number itemIndex]⟩
  | .next position => .inl ⟨.nowPlayingListGetNextIndex, [.number position]⟩
  | .over => .inr ⟨w.rows, w.rows.length⟩

/-- Where an answer takes it.  A path that is empty ends the walk; the tags of a track are read in
the window only, by its index in the list. -/
def OrderWalk.resume (offset : Int) (tagged : Bool) (w : OrderWalk) (answer : Answer) :
    OrderWalk :=
  match w.at_, answer with
  | .opening, .flag true => { w with at_ := .current }
  | .current, .number itemIndex => { w with at_ := .url 1 itemIndex }
  | .url position itemIndex, .text path =>
    if path = "" then { w with at_ := .over }
    else if position ≤ offset then { w with at_ := .next position }
    else if tagged then { w with at_ := .tags position itemIndex path }
    else { at_ := .next position, rows := w.rows ++ [[.number itemIndex, .text path]] }
  | .tags position itemIndex path, tags =>
    { at_ := .next position, rows := w.rows ++ [[.number itemIndex, .text path, tags]] }
  | .next position, .number itemIndex => { w with at_ := .url (position + 1) itemIndex }
  | _, _ => { w with at_ := .over }

/-- A walk of the play order. -/
def orderWalk (offset limit : Int) (tagged : Bool) : Machine OrderWalk ApiCall Answer Reply where
  start := ⟨.opening, []⟩
  ask := OrderWalk.ask (windowEnd offset limit)
  resume := OrderWalk.resume offset tagged

theorem orderWalk_conforms (offset limit : Int) (tagged : Bool) (as : List Answer) (c : ApiCall)
    (h : (orderWalk offset limit tagged).program as = .inl c) :
    c.function ∈ QueryType.functions .nowPlayingListOrdered := by
  simp only [Machine.program, orderWalk, OrderWalk.ask] at h
  split at h
  case h_3 =>
    split at h
    · obtain rfl := Sum.inl.inj h
      simp [QueryType.functions]
    · simp at h
  case h_6 => simp at h
  all_goals
    obtain rfl := Sum.inl.inj h
    simp [QueryType.functions]

/-- `GetNowPlayingListOrdered`, as `BuildNowPlayingList` answers it. -/
def nowPlayingListOrdered (offset limit : Int) : HostCall Reply where
  kind := .query .nowPlayingListOrdered
  prog := (orderWalk offset limit true).program
  conforms := orderWalk_conforms offset limit true

/-- A walk that reads no tags stands at none. -/
theorem orderWalk_untagged (as : List Answer) (position itemIndex : Int) (path : String) :
    (as.foldl (OrderWalk.resume 0 false) ⟨.opening, []⟩).at_ ≠ .tags position itemIndex path := by
  have hstep : ∀ (w : OrderWalk) (a : Answer), (w.resume 0 false a).at_ ≠
      .tags position itemIndex path := by
    intro w a
    unfold OrderWalk.resume
    split
    case h_3 => split <;> [simp; (split <;> simp)]
    all_goals simp
  induction as using List.reverseRecOn with
  | nil => simp
  | append_singleton as a ih =>
    rw [List.foldl_append]
    exact hstep _ a

/-- `GetNowPlayingListOrder`. -/
def nowPlayingListOrder : HostCall Reply where
  kind := .query .nowPlayingListOrder
  prog := (orderWalk 0 0 false).program
  conforms := by
    intro as c h
    have hno := orderWalk_untagged as
    simp only [Machine.program, orderWalk, OrderWalk.ask] at h
    split at h
    case h_3 =>
      split at h
      · obtain rfl := Sum.inl.inj h
        simp [HostCallKind.functions, QueryType.functions]
      · simp at h
    case h_4 hat => exact absurd hat (hno _ _ _)
    case h_6 => simp at h
    all_goals
      obtain rfl := Sum.inl.inj h
      simp [HostCallKind.functions, QueryType.functions]

/-! ## Through the list in storage order -/

/-- Where a walk of the list stands. -/
inductive PageAt where
  | opening
  | url (index : Int)
  | tags (index : Int) (path : String)
  /-- The rows are read; `GetNowPlayingListCount` is next. -/
  | counting
  | over (total : Nat)
  deriving DecidableEq

/-- A walk of the list, with the rows it has. -/
structure PageWalk where
  at_ : PageAt
  rows : List (List Answer)

/-- The call a walk of the list makes next.  An index is at position `index + 1`. -/
def PageWalk.ask (last : Option Int) (w : PageWalk) : ApiCall ⊕ Reply :=
  match w.at_ with
  | .opening => .inl ⟨.nowPlayingListQueryFiles, []⟩
  | .url index =>
    if inFront (index + 1) last then .inl ⟨.nowPlayingListGetListFileUrl, [.number index]⟩
    else .inl ⟨.nowPlayingListQueryFilesEx, []⟩
  | .tags index _ => .inl ⟨.nowPlayingListGetFileTags, [.number index]⟩
  | .counting => .inl ⟨.nowPlayingListQueryFilesEx, []⟩
  | .over total => .inr ⟨w.rows, total⟩

/-- Where an answer takes it. -/
def PageWalk.resume (offset : Int) (last : Option Int) (w : PageWalk) (answer : Answer) :
    PageWalk :=
  match w.at_, answer with
  | .opening, .flag true => { w with at_ := .url (max offset 0) }
  | .opening, _ => { w with at_ := .counting }
  | .url index, answer =>
    if inFront (index + 1) last then
      match answer with
      | .text path => { w with at_ := if path = "" then .counting else .tags index path }
      | _ => { w with at_ := .counting }
    else
      match answer with
      | .texts true files => { w with at_ := .over files.length }
      | _ => { w with at_ := .over 0 }
  | .tags index path, tags =>
    { at_ := .url (index + 1), rows := w.rows ++ [[.number (index + 1), .text path, tags]] }
  | .counting, .texts true files => { w with at_ := .over files.length }
  | _, _ => { w with at_ := .over 0 }

/-- `GetNowPlayingListPage`, as `BuildNowPlayingList` answers it. -/
def nowPlayingList (offset limit : Int) : HostCall Reply where
  kind := .query .nowPlayingList
  prog := (⟨⟨.opening, []⟩, PageWalk.ask (windowEnd offset limit),
    PageWalk.resume offset (windowEnd offset limit)⟩ :
      Machine PageWalk ApiCall Answer Reply).program
  conforms := by
    intro as c h
    simp only [Machine.program, PageWalk.ask] at h
    split at h
    case h_2 =>
      split at h <;> obtain rfl := Sum.inl.inj h <;>
        simp [HostCallKind.functions, QueryType.functions]
    case h_5 => simp at h
    all_goals
      obtain rfl := Sum.inl.inj h
      simp [HostCallKind.functions, QueryType.functions]

/-! ## Through a cursor -/

/-- Where a walk of a cursor stands. -/
inductive CursorAt where
  | opening
  | next
  /-- Reading what a row needs of the item. -/
  | reading (left : List ApiCall) (row : List Answer)
  | over
  deriving DecidableEq

/-- A walk of a cursor, with the rows it has. -/
structure CursorWalk where
  at_ : CursorAt
  rows : List (List Answer)

/-- The call a walk of a cursor makes next. -/
def CursorWalk.ask (opens next : ApiCall) (w : CursorWalk) : ApiCall ⊕ Reply :=
  match w.at_ with
  | .opening => .inl opens
  | .next => .inl next
  | .reading (c :: _) _ => .inl c
  | .reading [] _ | .over => .inr ⟨w.rows, w.rows.length⟩

/-- The item is read: its row is kept and the cursor goes on. -/
def CursorWalk.read (w : CursorWalk) (left : List ApiCall) (row : List Answer) : CursorWalk :=
  match left with
  | [] => { at_ := .next, rows := w.rows ++ [row] }
  | left => { w with at_ := .reading left row }

/-- Where an answer takes it, `checked` saying whether the walk looks at the answer of the query
and `reads` what it reads of an item. -/
def CursorWalk.resume (checked : Bool) (reads : String → List ApiCall) (w : CursorWalk)
    (answer : Answer) : CursorWalk :=
  match w.at_ with
  | .opening => { w with at_ := if checked && answer ≠ .flag true then .over else .next }
  | .next =>
    match answer with
    | .text item => if item = "" then { w with at_ := .over } else w.read (reads item) [answer]
    | _ => { w with at_ := .over }
  | .reading left row => w.read left.tail (row ++ [answer])
  | .over => w

/-- A walk of a cursor. -/
def cursorWalk (opens next : ApiCall) (checked : Bool) (reads : String → List ApiCall) :
    Machine CursorWalk ApiCall Answer Reply where
  start := ⟨.opening, []⟩
  ask := CursorWalk.ask opens next
  resume := CursorWalk.resume checked reads

/-- A walk of a cursor calls what it opens the cursor with, what it goes on with and what it reads
of its items. -/
theorem cursorWalk_conforms {opens next : ApiCall} {checked : Bool}
    {reads : String → List ApiCall} {functions : List ApiFunction}
    (hopens : opens.function ∈ functions) (hnext : next.function ∈ functions)
    (hreads : ∀ item, ∀ c ∈ reads item, c.function ∈ functions) (as : List Answer) (c : ApiCall)
    (h : (cursorWalk opens next checked reads).program as = .inl c) :
    c.function ∈ functions := by
  have hread : ∀ (w : CursorWalk) (left : List ApiCall) (row : List Answer),
      (∀ c ∈ left, c.function ∈ functions) → ∀ left' row', (w.read left row).at_ =
        .reading left' row' → ∀ c ∈ left', c.function ∈ functions := by
    intro w left row hleft left' row' hat
    cases left with
    | nil => simp [CursorWalk.read] at hat
    | cons d left =>
      obtain ⟨rfl, rfl⟩ : d :: left = left' ∧ row = row' := by
        simpa [CursorWalk.read] using hat
      exact hleft
  -- what is left to read of an item comes from `reads`
  have hleft : ∀ left row, (as.foldl (CursorWalk.resume checked reads) ⟨.opening, []⟩).at_ =
      .reading left row → ∀ c ∈ left, c.function ∈ functions := by
    clear h
    induction as using List.reverseRecOn with
    | nil => simp
    | append_singleton as a ih =>
      intro left row hat
      rw [List.foldl_append, List.foldl_cons, List.foldl_nil] at hat
      generalize hw : as.foldl (CursorWalk.resume checked reads) ⟨.opening, []⟩ = w at hat ih
      unfold CursorWalk.resume at hat
      split at hat
      · split at hat <;> simp at hat
      · split at hat
        · split at hat
          · simp at hat
          · exact hread w _ _ (hreads _) left row hat
        · simp at hat
      · rename_i left₀ row₀ hat₀
        have htail : ∀ c ∈ left₀.tail, c.function ∈ functions :=
          fun c hc => ih left₀ row₀ hat₀ c (List.mem_of_mem_tail hc)
        exact hread w _ _ htail left row hat
      · rename_i hover
        simp [hover] at hat
  simp only [Machine.program, cursorWalk, CursorWalk.ask] at h
  split at h
  · exact Sum.inl.inj h ▸ hopens
  · exact Sum.inl.inj h ▸ hnext
  · rename_i hat
    exact Sum.inl.inj h ▸ hleft _ _ hat _ List.mem_cons_self
  · simp at h
  · simp at h

/-- A query that walks a cursor. -/
def cursorQuery (kind : QueryType) (opens next : ApiCall) (checked : Bool)
    (reads : String → List ApiCall) (hopens : opens.function ∈ kind.functions)
    (hnext : next.function ∈ kind.functions)
    (hreads : ∀ item, ∀ c ∈ reads item, c.function ∈ kind.functions) : HostCall Reply where
  kind := .query kind
  prog := (cursorWalk opens next checked reads).program
  conforms := cursorWalk_conforms hopens hnext hreads

/-- `BrowseTracks`: one bulk read of the tags of each track. -/
def browseTracks : HostCall Reply :=
  cursorQuery .libraryBrowseTracks ⟨.libraryQueryFiles, []⟩ ⟨.libraryQueryGetNextFile, []⟩ true
    (fun path => [⟨.libraryGetFileTags, [.text path]⟩])
    (by decide) (by decide) (by simp [QueryType.functions])

/-- `GetAlbumIdentities`: two tags and the date of modification of each track. -/
def albumIdentifiers : HostCall Reply :=
  cursorQuery .albumIdentifiers ⟨.libraryQueryFiles, []⟩ ⟨.libraryQueryGetNextFile, []⟩ true
    (fun path => [⟨.libraryGetFileTags, [.text path]⟩, ⟨.libraryGetFileProperty, [.text path]⟩])
    (by decide) (by decide) (by simp [QueryType.functions])

/-- `GetPlaylists`. -/
def playlistList : HostCall Reply :=
  cursorQuery .playlistList ⟨.playlistQueryPlaylists, []⟩ ⟨.playlistQueryGetNextPlaylist, []⟩
    false (fun url => [⟨.playlistGetName, [.text url]⟩])
    (by decide) (by decide) (by simp [QueryType.functions])

/-- `GetPlaylistCatalog`. -/
def playlistCatalog : HostCall Reply :=
  cursorQuery .playlistCatalog ⟨.playlistQueryPlaylists, []⟩ ⟨.playlistQueryGetNextPlaylist, []⟩
    false (fun url => [⟨.playlistGetName, [.text url]⟩, ⟨.playlistGetType, [.text url]⟩])
    (by decide) (by decide) (by simp [QueryType.functions])

/-! ## Through a lookup table -/

/-- Where a reading of a lookup table stands. -/
inductive LookupAt where
  | opening
  | value
  /-- The table is dropped next, whatever it gave. -/
  | dropping (rows : List (List Answer))
  | over (rows : List (List Answer))
  deriving DecidableEq

/-- The reading of one lookup table; its value is one string of every entry. -/
def lookupTable (args : List Argument) : Machine LookupAt ApiCall Answer Reply where
  start := .opening
  ask
    | .opening => .inl ⟨.libraryQueryLookupTable, args⟩
    | .value => .inl ⟨.libraryQueryGetLookupTableValue, []⟩
    | .dropping _ => .inl ⟨.libraryQueryLookupTable, []⟩
    | .over rows => .inr ⟨rows, rows.length⟩
  resume
    | .opening, answer => if answer = .flag true then .value else .dropping []
    | .value, answer => .dropping [[answer]]
    | .dropping rows, _ => .over rows
    | .over rows, _ => .over rows

/-- A query that reads a lookup table. -/
def lookupQuery (kind : QueryType) (args : List Argument)
    (hkind : ∀ f ∈ lookup, f ∈ kind.functions) : HostCall Reply where
  kind := .query kind
  prog := (lookupTable args).program
  conforms := by
    intro as c h
    have hf : c.function ∈ lookup := by
      simp only [Machine.program, lookupTable] at h
      split at h
      case h_4 => simp at h
      all_goals
        obtain rfl := Sum.inl.inj h
        simp [lookup]
    exact hkind c.function hf

/-- `BrowseGenres`. -/
def browseGenres : HostCall Reply :=
  lookupQuery .libraryBrowseGenres [.text "genre", .text "count"] (by decide)

/-- `BrowseArtists`. -/
def browseArtists (albumArtists : Bool) : HostCall Reply :=
  lookupQuery .libraryBrowseArtists
    [.text (if albumArtists then "albumartist" else "artist"), .text "count"] (by decide)

/-- `BrowseAlbums`. -/
def browseAlbums : HostCall Reply :=
  lookupQuery .libraryBrowseAlbums [.text "album", .text "albumartist\u0000album"] (by decide)

/-! ## The commands that move the play position -/

/-- A command made of one call. -/
def oneCall (kind : CommandType) (call : ApiCall) (h : call.function ∈ kind.functions) :
    HostCall Reply where
  kind := .command kind
  prog
    | [] => .inl call
    | _ :: _ => .inr ⟨[], 0⟩
  conforms := by
    intro as c hc
    cases as with
    | nil => exact Sum.inl.inj hc ▸ h
    | cons a as => simp at hc

/-- `PlayNext`. -/
def next : HostCall Reply := oneCall .next ⟨.playerPlayNextTrack, []⟩ (by decide)

/-- `PlayPrevious`. -/
def previous : HostCall Reply := oneCall .previous ⟨.playerPlayPreviousTrack, []⟩ (by decide)

/-- `SetShuffle`. -/
def setShuffle (enabled : Bool) : HostCall Reply :=
  oneCall .setShuffle ⟨.playerSetShuffle, [.number (if enabled then 1 else 0)]⟩
    (by simp [CommandType.functions])

end Mbrc.Host
