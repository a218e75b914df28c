import Mathlib.Data.List.Basic
import Mathlib.Data.List.Nodup
import Mathlib.Data.List.Range
import Mathlib.Data.List.Zip

/-!
# The now playing list of the host

The list MusicBee keeps, what its calls answer about it while it does not change, and the three
walks of `TrackDataProvider`: a page of the play order, the whole play order, and a page of the
list in storage order.  A walk is a loop over calls, given fuel; `orderedLoop_eq`, `orderLoop_eq`
and `pageLoop_eq` say what it finds with any fuel beyond the length of the list, so that it ends.
-/

namespace Mbrc.NowPlaying

/-- One slot of the list, with the tags MusicBee has for it. -/
structure Slot where
  url : String
  artist : String
  album : String
  albumArtist : String
  title : String
  url_ne : url ≠ ""

/-- The list, and the storage indexes of the current track and those that play after it. -/
structure Queue where
  slots : List Slot
  playOrder : List Nat
  nodup : playOrder.Nodup
  inRange : ∀ i ∈ playOrder, i < slots.length
  small : slots.length < 2147483648

namespace Queue

variable (q : Queue)

/-! ## The calls -/

def slotAt (i : Int) : Option Slot := if 0 ≤ i then q.slots[i.toNat]? else none

/-- `NowPlayingList_GetListFileUrl`. -/
def getListFileUrl (i : Int) : String := ((q.slotAt i).map (·.url)).getD ""

/-- `NowPlayingList_GetFileTags` of artist, album, album artist and title. -/
def getFileTags (i : Int) : Option (String × String × String × String) :=
  (q.slotAt i).map fun slot => (slot.artist, slot.album, slot.albumArtist, slot.title)

/-- The storage index at a rank of the play order, -1 past its end. -/
def indexAt (rank : Nat) : Int := (q.playOrder[rank]?.map Int.ofNat).getD (-1)

/-- `NowPlayingList_GetCurrentIndex`. -/
def getCurrentIndex : Int := q.indexAt 0

/-- `NowPlayingList_GetNextIndex`. -/
def getNextIndex (offset : Nat) : Int := q.indexAt offset

/-- `NowPlayingList_QueryFilesEx`. -/
def queryFilesEx : List String := q.slots.map (·.url)

theorem slotAt_nat (i : Nat) : q.slotAt i = q.slots[i]? := by
  simp [slotAt]

theorem slotAt_of_mem {i : Nat} (h : i ∈ q.playOrder) :
    ∃ slot, q.slotAt i = some slot ∧ q.slots[i]? = some slot := by
  have hi := q.inRange i h
  exact ⟨q.slots[i], by rw [slotAt_nat, List.getElem?_eq_getElem hi], List.getElem?_eq_getElem hi⟩

theorem getListFileUrl_some {i : Int} {slot : Slot} (h : q.slotAt i = some slot) :
    q.getListFileUrl i = slot.url := by
  simp [getListFileUrl, h]

theorem getListFileUrl_none {i : Int} (h : q.slotAt i = none) : q.getListFileUrl i = "" := by
  simp [getListFileUrl, h]

end Queue

/-! ## The walks -/

/-- `NowPlayingListTrack`, a row of a page. -/
structure NowPlayingListTrack where
  artist : String
  album : String
  albumArtist : String
  title : String
  position : Int
  path : String
  deriving DecidableEq

/-- A row with the tags of the index it was read at; a failed read gives empty ones. -/
def Queue.track (q : Queue) (index position : Int) (path : String) : NowPlayingListTrack :=
  let (artist, album, albumArtist, title) := (q.getFileTags index).getD ("", "", "", "")
  { artist, album, albumArtist, title, position, path }

/-- The end of a window, when it has one. -/
def windowEnd (offset limit : Nat) : Option Nat := if limit > 0 then some (offset + limit) else none

/-- The position is inside the window's end. -/
def inFront (position : Nat) (last : Option Nat) : Bool := last.all (position ≤ ·)

namespace Queue

variable (q : Queue)

/-- The loop of `GetNowPlayingListOrdered`. -/
def orderedLoop (offset : Nat) (last : Option Nat) :
    Nat → Nat → Int → List NowPlayingListTrack
  | 0, _, _ => []
  | fuel + 1, position, itemIndex =>
    if inFront position last then
      let trackPath := q.getListFileUrl itemIndex
      if trackPath = "" then []
      else
        let rest := orderedLoop offset last fuel (position + 1) (q.getNextIndex position)
        if position > offset then q.track itemIndex itemIndex trackPath :: rest else rest
    else []

/-- `GetNowPlayingListOrdered`. -/
def getNowPlayingListOrdered (offset limit : Nat) : List NowPlayingListTrack :=
  q.orderedLoop offset (windowEnd offset limit) (q.playOrder.length + 1) 1 q.getCurrentIndex

/-- The loop of `GetNowPlayingListOrder`. -/
def orderLoop : Nat → Nat → Int → List (Int × String)
  | 0, _, _ => []
  | fuel + 1, position, itemIndex =>
    let trackPath := q.getListFileUrl itemIndex
    if trackPath = "" then []
    else (itemIndex, trackPath) :: orderLoop fuel (position + 1) (q.getNextIndex position)

/-- `GetNowPlayingListOrder`: storage indexes and paths in play order. -/
def getNowPlayingListOrder : List (Int × String) :=
  q.orderLoop (q.playOrder.length + 1) 1 q.getCurrentIndex

/-- The loop of `GetNowPlayingListPage`. -/
def pageLoop (last : Option Nat) : Nat → Nat → List NowPlayingListTrack
  | 0, _ => []
  | fuel + 1, index =>
    if inFront (index + 1) last then
      let trackPath := q.getListFileUrl index
      if trackPath = "" then []
      else q.track index (index + 1 : Nat) trackPath :: pageLoop last fuel (index + 1)
    else []

/-- `GetNowPlayingListPage`. -/
def getNowPlayingListPage (offset limit : Nat) : List NowPlayingListTrack :=
  q.pageLoop (windowEnd offset limit) (q.slots.length + 1) offset

/-- `GetNowPlayingListCount`. -/
def getNowPlayingListCount : Nat := q.queryFilesEx.length

/-! ## What they find -/

/-- The row a walk makes of a slot. -/
def trackAt (i : Nat) (position : Int) : NowPlayingListTrack :=
  q.track i position (q.getListFileUrl i)

theorem getListFileUrl_ne {i : Nat} (h : i < q.slots.length) : q.getListFileUrl i ≠ "" := by
  have hs : q.slotAt i = some q.slots[i] := by rw [slotAt_nat, List.getElem?_eq_getElem h]
  rw [getListFileUrl_some q hs]
  exact q.slots[i].url_ne

theorem getListFileUrl_out {i : Nat} (h : q.slots.length ≤ i) : q.getListFileUrl i = "" := by
  apply getListFileUrl_none
  rw [slotAt_nat, List.getElem?_eq_none h]

theorem getListFileUrl_minus : q.getListFileUrl (-1) = "" := q.getListFileUrl_none rfl

theorem inFront_windowEnd {position offset limit : Nat} (h : 1 ≤ limit) :
    inFront position (windowEnd offset limit) = decide (position ≤ offset + limit) := by
  have : limit > 0 := h
  simp [windowEnd, inFront, this]

/-- The walk of a page of the play order, from any rank on. -/
theorem orderedLoop_eq {offset limit : Nat} (hl : 1 ≤ limit) (fuel rank : Nat)
    (hf : q.playOrder.length < fuel + rank) :
    q.orderedLoop offset (windowEnd offset limit) fuel (rank + 1) (q.indexAt rank) =
      (((q.playOrder.drop rank).take (offset + limit - rank)).drop (offset - rank)).map
        fun (i : Nat) => q.trackAt i i := by
  induction fuel generalizing rank with
  | zero =>
    have hdrop : q.playOrder.drop rank = [] := List.drop_eq_nil_of_le (by omega)
    simp [orderedLoop, hdrop]
  | succ fuel ih =>
    simp only [orderedLoop, inFront_windowEnd hl, decide_eq_true_eq]
    by_cases hw : rank + 1 ≤ offset + limit
    · rw [if_pos hw]
      rcases Nat.lt_or_ge rank q.playOrder.length with hr | hr
      · have hidx : q.indexAt rank = (q.playOrder[rank] : Nat) := by
          simp [indexAt, List.getElem?_eq_getElem hr]
        have hne := q.getListFileUrl_ne (q.inRange _ (List.getElem_mem hr))
        have hrest := ih (rank + 1) (by omega)
        rw [hidx, if_neg hne]
        show (if rank + 1 > offset then _ :: q.orderedLoop offset _ fuel (rank + 1 + 1)
          (q.indexAt (rank + 1)) else q.orderedLoop offset _ fuel (rank + 1 + 1)
          (q.indexAt (rank + 1))) = _
        rw [hrest, List.drop_eq_getElem_cons hr,
          show offset + limit - rank = offset + limit - (rank + 1) + 1 by omega,
          List.take_succ_cons]
        split
        · rw [show offset - rank = 0 by omega, show offset - (rank + 1) = 0 by omega]
          rfl
        · rw [show offset - rank = offset - (rank + 1) + 1 by omega]
          rfl
      · have hidx : q.indexAt rank = -1 := by
          simp [indexAt, List.getElem?_eq_none hr]
        rw [hidx, getListFileUrl_minus, List.drop_eq_nil_of_le hr]
        simp
    · rw [if_neg hw, show offset + limit - rank = 0 by omega]
      simp

theorem orderLoop_eq (fuel rank : Nat) (hf : q.playOrder.length < fuel + rank) :
    q.orderLoop fuel (rank + 1) (q.indexAt rank) =
      (q.playOrder.drop rank).map fun (i : Nat) => ((i : Int), q.getListFileUrl i) := by
  induction fuel generalizing rank with
  | zero =>
    have hdrop : q.playOrder.drop rank = [] := List.drop_eq_nil_of_le (by omega)
    simp [orderLoop, hdrop]
  | succ fuel ih =>
    simp only [orderLoop]
    rcases Nat.lt_or_ge rank q.playOrder.length with hr | hr
    · have hidx : q.indexAt rank = (q.playOrder[rank] : Nat) := by
        simp [indexAt, List.getElem?_eq_getElem hr]
      have hne := q.getListFileUrl_ne (q.inRange _ (List.getElem_mem hr))
      have hrest := ih (rank + 1) (by omega)
      rw [hidx, if_neg hne, List.drop_eq_getElem_cons hr, List.map_cons, ← hrest]
      rfl
    · have hidx : q.indexAt rank = -1 := by
        simp [indexAt, List.getElem?_eq_none hr]
      rw [hidx, getListFileUrl_minus, List.drop_eq_nil_of_le hr]
      simp

/-- The walk of a page in storage order, from any index on. -/
theorem pageLoop_eq {offset limit : Nat} (hl : 1 ≤ limit) (fuel index : Nat)
    (hf : q.slots.length < fuel + index) :
    q.pageLoop (windowEnd offset limit) fuel index =
      (((List.range q.slots.length).drop index).take (offset + limit - index)).map
        fun (i : Nat) => q.trackAt i (i + 1 : Nat) := by
  induction fuel generalizing index with
  | zero =>
    have hdrop : (List.range q.slots.length).drop index = [] :=
      List.drop_eq_nil_of_le (by rw [List.length_range]; omega)
    simp [pageLoop, hdrop]
  | succ fuel ih =>
    simp only [pageLoop, inFront_windowEnd hl, decide_eq_true_eq]
    by_cases hw : index + 1 ≤ offset + limit
    · rw [if_pos hw]
      rcases Nat.lt_or_ge index q.slots.length with hi | hi
      · have hr : index < (List.range q.slots.length).length := by rwa [List.length_range]
        rw [if_neg (q.getListFileUrl_ne hi), ih (index + 1) (by omega),
          List.drop_eq_getElem_cons hr,
          show offset + limit - index = offset + limit - (index + 1) + 1 by omega,
          List.take_succ_cons, List.map_cons, List.getElem_range]
        rfl
      · rw [if_pos (q.getListFileUrl_out hi),
          List.drop_eq_nil_of_le (by rwa [List.length_range])]
        simp
    · rw [if_neg hw, show offset + limit - index = 0 by omega]
      simp

theorem getNowPlayingListOrdered_eq {offset limit : Nat} (hl : 1 ≤ limit) :
    q.getNowPlayingListOrdered offset limit =
      ((q.playOrder.drop offset).take limit).map fun (i : Nat) => q.trackAt i i := by
  rw [getNowPlayingListOrdered, getCurrentIndex]
  refine (q.orderedLoop_eq hl (q.playOrder.length + 1) 0 (by omega)).trans ?_
  rw [List.drop_zero, Nat.sub_zero, Nat.sub_zero, List.drop_take, Nat.add_sub_cancel_left]

theorem getNowPlayingListOrder_eq :
    q.getNowPlayingListOrder = q.playOrder.map fun (i : Nat) => ((i : Int), q.getListFileUrl i) :=
  q.orderLoop_eq (q.playOrder.length + 1) 0 (by omega)

theorem getNowPlayingListPage_eq {offset limit : Nat} (hl : 1 ≤ limit) :
    q.getNowPlayingListPage offset limit =
      (((List.range q.slots.length).drop offset).take limit).map
        fun (i : Nat) => q.trackAt i (i + 1 : Nat) := by
  rw [getNowPlayingListPage, q.pageLoop_eq hl _ _ (by omega), Nat.add_sub_cancel_left]

theorem getNowPlayingListCount_eq : q.getNowPlayingListCount = q.slots.length := by
  simp [getNowPlayingListCount, queryFilesEx]

end Queue

end Mbrc.NowPlaying

/-!
# The ops on the now playing list

`now_playing_list` answers a window of one of two views of the list, joined with the library's
tags, and `now_playing_list_play` plays a slot by its storage index.
-/

namespace Mbrc.NowPlaying

/-- `TrackTags`, a record of the library. -/
structure TrackTags where
  src : String
  artist : String
  title : String
  album : String
  albumArtist : String
  genre : String := ""
  trackNo : Int := 0
  discNo : Int := 0
  year : String := ""
  rating : String := ""
  multiArtist : String := ""
  multiComposer : String := ""
  originalYear : String := ""
  duration : String := ""
  dateAdded : String := ""
  deriving DecidableEq

/-- The record the library has for a path, an empty one for a path it does not know. -/
abbrev Library := String → TrackTags

def Library.record (library : Library) (path : String) : TrackTags :=
  { library path with src := path }

/-- `GetTrackTags`: a record for every path that is not empty. -/
def getTrackTags (library : Library) (paths : List String) : List TrackTags :=
  (paths.filter (· ≠ "")).map library.record

/-- What a row is made of: a record of the library (`track_json`) or the fields of the now playing
item (`basic_track_json`). -/
inductive Shown where
  | record (tags : TrackTags)
  | basic (npt : NowPlayingListTrack)
  deriving DecidableEq

namespace Shown

def src : Shown → String
  | record tags => tags.src
  | basic npt => npt.path

def artistDisplay : Shown → String
  | record tags => tags.artist
  | basic npt => npt.artist

def title : Shown → String
  | record tags => tags.title
  | basic npt => npt.title

end Shown

/-- A row of the answer. -/
structure Row where
  shown : Shown
  order : Int
  position : Int
  playPosition : Int
  deriving DecidableEq

structure Page where
  total : Nat
  offset : Nat
  items : List Row
  version : Nat
  deriving DecidableEq

/-- `DEFAULT_PAGE_LIMIT`. -/
def defaultPageLimit : Int := 1000

/-- Clamped to the range of a non-negative `i32`. -/
def clampPage (v : Int) : Nat := (min (max v 0) 2147483647).toNat

/-- `page_args`. -/
def pageArgs (offset limit : Option Int) : Nat × Nat :=
  (clampPage (offset.getD 0), clampPage (limit.getD defaultPageLimit))

/-- The record of a path, the last one where there are several. -/
def byPath (tags : List TrackTags) (path : String) : Option TrackTags :=
  tags.reverse.find? (·.src = path)

/-- `play_ranks`: the rank of a storage index in the play order. -/
def playRanks (positions : List Int) (order : Int) : Option Nat :=
  (positions.zipIdx.reverse.find? (·.1 = order)).map (·.2)

/-- `list`. -/
def list (q : Queue) (library : Library) (version : Nat) (offset limit : Option Int)
    (upNext : Option Bool) : Page :=
  let (offset, limit) := pageArgs offset limit
  let upNext := upNext.getD false
  let data :=
    if upNext then q.getNowPlayingListOrdered offset limit
    else q.getNowPlayingListPage offset limit
  let positions := q.getNowPlayingListOrder.map (·.1)
  let total := if upNext then positions.length else q.getNowPlayingListCount
  let tags := getTrackTags library ((data.map (·.path)).filter (· ≠ ""))
  let items := data.mapIdx fun i npt =>
    let rank : Int := (offset + i : Nat)
    -- the walk of the play order has the storage index in `position`
    let order := if upNext then npt.position else rank
    { shown := (byPath tags npt.path).elim (.basic npt) .record
      order
      position := rank
      playPosition :=
        if upNext then rank else ((playRanks positions order).map Int.ofNat).getD (-1) }
  { total, offset, items, version }

inductive V6Error where
  | staleList
  | internal
  deriving DecidableEq

/-- `i32_saturating`. -/
def i32Saturating (v : Int) : Int := max (-2147483648) (min v 2147483647)

/-- `check_version`. -/
def checkVersion (version : Option Int) (current : Nat) : Except V6Error Unit :=
  match version with
  | some expected => if expected ≠ current then .error .staleList else .ok ()
  | none => .ok ()

/-- `PlayNowPlayingByIndex`; `playNow` is the slot `NowPlayingList_PlayNow` starts for a url. -/
def playNowPlayingByIndex (q : Queue) (playNow : String → Option Nat) (index : Int) : Option Nat :=
  let trackToPlay := q.getListFileUrl index
  if trackToPlay ≠ "" then playNow trackToPlay else none

/-- `play`: the slot that is started. -/
def play (q : Queue) (playNow : String → Option Nat) (current : Nat) (version : Option Int)
    (order : Int) : Except V6Error Nat := do
  checkVersion version current
  match playNowPlayingByIndex q playNow (i32Saturating order) with
  | some slot => .ok slot
  | none => .error .internal

/-! ## What the answer is made of -/

theorem byPath_getTrackTags (library : Library) {paths : List String} {path : String}
    (hmem : path ∈ paths) (hne : path ≠ "") :
    byPath (getTrackTags library paths) path = some (library.record path) := by
  have hfound : library.record path ∈ (getTrackTags library paths).reverse := by
    rw [List.mem_reverse, getTrackTags, List.mem_map]
    exact ⟨path, List.mem_filter.mpr ⟨hmem, by simpa using hne⟩, rfl⟩
  unfold byPath
  cases h : (getTrackTags library paths).reverse.find? (·.src = path) with
  | none =>
    have := List.find?_eq_none.mp h _ hfound
    simp [Library.record] at this
  | some tags =>
    -- every record of the path is the one the library has
    have hsrc := List.find?_some h
    have hm := List.mem_of_find?_eq_some h
    rw [List.mem_reverse, getTrackTags, List.mem_map] at hm
    obtain ⟨p, -, rfl⟩ := hm
    obtain rfl : p = path := of_decide_eq_true hsrc
    rfl

theorem playRanks_eq {positions : List Int} (hn : positions.Nodup) (order : Int) :
    playRanks positions order =
      if order ∈ positions then some (positions.idxOf order) else none := by
  unfold playRanks
  cases h : positions.zipIdx.reverse.find? (·.1 = order) with
  | none =>
    have hno : order ∉ positions := by
      intro hmem
      obtain ⟨i, hi, rfl⟩ := List.getElem_of_mem hmem
      have := List.find?_eq_none.mp h (positions[i], i)
        (List.mem_reverse.mpr (List.mem_zipIdx_iff_getElem?.mpr (List.getElem?_eq_getElem hi)))
      simp at this
    rw [if_neg hno]
    rfl
  | some p =>
    have hp := List.find?_some h
    simp only [decide_eq_true_eq] at hp
    have hm := List.mem_of_find?_eq_some h
    rw [List.mem_reverse, List.mem_zipIdx_iff_getElem?] at hm
    obtain ⟨hi, hget⟩ := List.getElem?_eq_some_iff.mp hm
    have hmem : order ∈ positions := hp ▸ hget ▸ List.getElem_mem hi
    rw [if_pos hmem, Option.map_some, ← hp, ← hget, hn.idxOf_getElem]

/-- A window is read in full: clamping cuts nothing off a list the host can hold. -/
theorem window_clamp {α : Type} {l : List α} (h : l.length < 2147483648) (offset limit : Nat) :
    (l.drop (clampPage offset)).take (clampPage limit) = (l.drop offset).take limit := by
  have ho : l.drop (clampPage offset) = l.drop offset := by
    rcases Nat.le_total offset 2147483647 with hle | hle
    · rw [show clampPage offset = offset by unfold clampPage; omega]
    · rw [List.drop_eq_nil_of_le, List.drop_eq_nil_of_le]
      · omega
      · unfold clampPage
        omega
  rw [ho]
  have hlen : (l.drop offset).length < 2147483648 := by
    rw [List.length_drop]
    omega
  rcases Nat.le_total limit 2147483647 with hle | hle
  · rw [show clampPage limit = limit by unfold clampPage; omega]
  · rw [List.take_of_length_le, List.take_of_length_le]
    · omega
    · unfold clampPage
      omega

theorem clampPage_pos {limit : Nat} (h : 1 ≤ limit) : 1 ≤ clampPage limit := by
  unfold clampPage
  omega

end Mbrc.NowPlaying
