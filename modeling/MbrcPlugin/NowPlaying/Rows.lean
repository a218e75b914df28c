import MbrcPlugin.NowPlaying.HostQueue
import Mathlib.Data.List.Perm.Subperm

/-!
# Every row is its own slot

A view is a list of storage indexes, and the answer is a window of its rows (`list_eq`): windows,
totals, indexes and ranks are right for every list.  A row shows the record the library has for
the slot's url, and is played by that url; `each_row_its_slot_iff` says for which lists that is
the slot itself.
-/

namespace Mbrc.NowPlaying

/-! ## The views -/

/-- The storage indexes a view presents. -/
def view (q : Queue) (upNext : Bool) : List Nat :=
  if upNext then q.playOrder else List.range q.slots.length

/-- The rank of a slot in the walk from the current track, -1 when the walk does not reach it. -/
def rankOf (q : Queue) (i : Nat) : Int :=
  if i ∈ q.playOrder then q.playOrder.idxOf i else -1

/-- The row of a slot at a rank of a view. -/
def rowAt (q : Queue) (library : Library) (i rank : Nat) : Row :=
  { shown := .record (library.record (q.getListFileUrl i))
    order := i
    position := rank
    playPosition := rankOf q i }

/-- All rows of a view. -/
def rows (q : Queue) (library : Library) (upNext : Bool) : List Row :=
  (view q upNext).mapIdx fun rank i => rowAt q library i rank

theorem view_lt {q : Queue} {upNext : Bool} {i : Nat} (h : i ∈ view q upNext) :
    i < q.slots.length := by
  unfold view at h
  split at h
  · exact q.inRange i h
  · exact List.mem_range.mp h

theorem view_length_lt (q : Queue) (upNext : Bool) : (view q upNext).length < 2147483648 := by
  have hle : (view q upNext).length ≤ q.slots.length := by
    unfold view
    split
    · have hsub : q.playOrder ⊆ List.range q.slots.length :=
        fun i hi => List.mem_range.mpr (q.inRange i hi)
      simpa using (List.subperm_of_subset q.nodup hsub).length_le
    · simp
  exact Nat.lt_of_le_of_lt hle q.small

theorem rankOf_getElem {q : Queue} {rank : Nat} (h : rank < q.playOrder.length) :
    rankOf q q.playOrder[rank] = rank := by
  rw [rankOf, if_pos (List.getElem_mem h), q.nodup.idxOf_getElem]

theorem playRanks_rank (q : Queue) (i : Nat) :
    ((playRanks (q.getNowPlayingListOrder.map (·.1)) i).map Int.ofNat).getD (-1) = rankOf q i := by
  have hpos : q.getNowPlayingListOrder.map (·.1) = q.playOrder.map Int.ofNat := by
    rw [q.getNowPlayingListOrder_eq, List.map_map]
    rfl
  have hinj : Function.Injective Int.ofNat := fun _ _ h => Int.ofNat.inj h
  rw [hpos, playRanks_eq (q.nodup.map hinj), rankOf]
  by_cases hi : i ∈ q.playOrder
  · have hmem : (i : Int) ∈ q.playOrder.map Int.ofNat := List.mem_map_of_mem hi
    rw [if_pos hi, if_pos hmem]
    obtain ⟨rank, hr, rfl⟩ := List.getElem_of_mem hi
    have hidx : (q.playOrder.map Int.ofNat).idxOf (q.playOrder[rank] : Int) = rank := by
      have := (q.nodup.map hinj).idxOf_getElem rank (by simpa using hr)
      simpa using this
    rw [hidx, q.nodup.idxOf_getElem]
    rfl
  · have hno : (i : Int) ∉ q.playOrder.map Int.ofNat := by
      intro hmem
      obtain ⟨j, hj, hji⟩ := List.mem_map.mp hmem
      exact hi (Int.ofNat.inj hji ▸ hj)
    rw [if_neg hi, if_neg hno]
    rfl

/-! ## The answer -/

/-- The data of a page and its total. -/
theorem list_data (q : Queue) {upNext : Bool} {offset limit : Nat} (hl : 1 ≤ limit) :
    ∃ position : Nat → Int, (upNext = true → ∀ i, position i = i) ∧
      (if upNext then q.getNowPlayingListOrdered offset limit
        else q.getNowPlayingListPage offset limit) =
      (((view q upNext).drop offset).take limit).map fun i => q.trackAt i (position i) := by
  cases upNext with
  | true =>
    refine ⟨fun i => i, fun _ _ => rfl, ?_⟩
    rw [if_pos rfl, q.getNowPlayingListOrdered_eq hl]
    rfl
  | false =>
    refine ⟨fun i => (i + 1 : Nat), fun h => absurd h (by decide), ?_⟩
    rw [if_neg (by decide), q.getNowPlayingListPage_eq hl]
    rfl

theorem list_total (q : Queue) (upNext : Bool) :
    (if upNext then (q.getNowPlayingListOrder.map (·.1)).length else q.getNowPlayingListCount) =
      (view q upNext).length := by
  cases upNext with
  | true => simp [view, q.getNowPlayingListOrder_eq]
  | false => simp [view, q.getNowPlayingListCount_eq]

theorem view_storage {q : Queue} {rank i : Nat} (h : (view q false)[rank]? = some i) :
    i = rank := by
  simp only [view, Bool.false_eq_true, if_false] at h
  obtain ⟨hr, hget⟩ := List.getElem?_eq_some_iff.mp h
  rw [← hget, List.getElem_range]

/-- The row the op makes of the item at a rank of the view. -/
theorem row_eq (q : Queue) (library : Library) {upNext : Bool} {rank i : Nat}
    (hi : (view q upNext)[rank]? = some i) {position : Nat → Int}
    (hpos : upNext = true → ∀ i, position i = i) {paths : List String}
    (hmem : q.getListFileUrl i ∈ paths) :
    let npt := q.trackAt i (position i)
    let order : Int := if upNext then npt.position else rank
    ({ shown := (byPath (getTrackTags library paths) npt.path).elim (.basic npt) .record
       order
       position := rank
       playPosition :=
        if upNext then rank
        else ((playRanks (q.getNowPlayingListOrder.map (·.1)) order).map Int.ofNat).getD (-1) } :
      Row) = rowAt q library i rank := by
  have hlt := view_lt (List.mem_of_getElem? hi)
  have hshown := byPath_getTrackTags library hmem (q.getListFileUrl_ne hlt)
  have hpath : (q.trackAt i (position i)).path = q.getListFileUrl i := rfl
  simp only [hpath, hshown, Option.elim_some]
  cases upNext with
  | true =>
    have hrank : rankOf q i = rank := by
      obtain ⟨hr, hget⟩ := List.getElem?_eq_some_iff.mp hi
      rw [← hget]
      exact rankOf_getElem hr
    have horder : (q.trackAt i (position i)).position = i := hpos rfl i
    simp only [if_true, rowAt, hrank, horder]
  | false =>
    obtain rfl := view_storage hi
    simp only [Bool.false_eq_true, if_false, rowAt, playRanks_rank]

/-- **The answer is a window of the rows of the view**, and its total is the length of the view. -/
theorem list_eq (q : Queue) (library : Library) (version : Nat) (upNext : Bool)
    (offset : Nat) {limit : Nat} (hl : 1 ≤ limit) :
    (list q library version (some offset) (some limit) (some upNext)).total =
      (view q upNext).length ∧
    (list q library version (some offset) (some limit) (some upNext)).items =
      ((rows q library upNext).drop offset).take limit := by
  refine ⟨list_total q upNext, ?_⟩
  have hlen : (rows q library upNext).length < 2147483648 := by
    rw [rows, List.length_mapIdx]
    exact view_length_lt q upNext
  rw [← window_clamp hlen offset limit]
  obtain ⟨position, hpos, hdata⟩ := @list_data q upNext (clampPage offset) _
    (clampPage_pos hl)
  simp only [list, pageArgs, Option.getD_some, hdata]
  apply List.ext_getElem?
  intro k
  rw [List.getElem?_mapIdx, List.getElem?_map, rows, List.getElem?_take, List.getElem?_take,
    List.getElem?_drop, List.getElem?_drop, List.getElem?_mapIdx]
  by_cases hk : k < clampPage limit
  · rw [if_pos hk, if_pos hk]
    cases hi : (view q upNext)[clampPage offset + k]? with
    | none => rfl
    | some i =>
      refine congrArg some (row_eq q library hi hpos ?_)
      have hin : i ∈ ((view q upNext).drop (clampPage offset)).take (clampPage limit) := by
        apply List.mem_of_getElem? (i := k)
        rw [List.getElem?_take, if_pos hk, List.getElem?_drop, hi]
      rw [List.mem_filter]
      refine ⟨List.mem_map.mpr ⟨_, List.mem_map_of_mem hin, rfl⟩, ?_⟩
      simpa using q.getListFileUrl_ne (view_lt (List.mem_of_getElem? hi))
  · rw [if_neg hk, if_neg hk]
    rfl

/-! ## What a row promises -/

/-- What is shown is the slot's url with its artist and title, or with a record of its own
track. -/
def Shows (own : Slot → TrackTags → Prop) (slot : Slot) (shown : Shown) : Prop :=
  shown.src = slot.url ∧
    ((shown.artistDisplay = slot.artist ∧ shown.title = slot.title) ∨
      ∃ tags, shown = .record tags ∧ own slot tags)

/-- What `now_playing_list` and `now_playing_list_play` promise about a list.  `own` says which
records describe a slot's own track, `playNow` which slot MusicBee starts for a url. -/
structure EachRowItsSlot (q : Queue) (library : Library) (own : Slot → TrackTags → Prop)
    (playNow : String → Option Nat) (version : Nat) : Prop where
  /-- The answer is the window of the view. -/
  window : ∀ (upNext : Bool) (offset limit : Nat), 1 ≤ limit →
    (list q library version (some offset) (some limit) (some upNext)).items.map (·.order) =
      (((view q upNext).drop offset).take limit).map Int.ofNat
  /-- Windows that follow each other make one window, and report one total. -/
  tiles : ∀ (upNext : Bool) (offset first second : Nat), 1 ≤ first → 1 ≤ second →
    (list q library version (some offset) (some first) (some upNext)).items ++
        (list q library version (some (offset + first : Nat)) (some second) (some upNext)).items =
      (list q library version (some offset) (some (first + second : Nat)) (some upNext)).items
  total : ∀ (upNext : Bool) (offset limit : Nat), 1 ≤ limit →
    (list q library version (some offset) (some limit) (some upNext)).total =
      (view q upNext).length
  shows : ∀ (upNext : Bool) (offset limit : Nat), 1 ≤ limit →
    ∀ row ∈ (list q library version (some offset) (some limit) (some upNext)).items,
      ∃ slot, q.slotAt row.order = some slot ∧ Shows own slot row.shown
  playPosition : ∀ (upNext : Bool) (offset limit : Nat), 1 ≤ limit →
    ∀ row ∈ (list q library version (some offset) (some limit) (some upNext)).items,
      row.playPosition = rankOf q row.order.toNat
  /-- A row of one view and a row of the other with one `order` have one rank. -/
  agree : ∀ (offset limit offset' limit' : Nat), 1 ≤ limit → 1 ≤ limit' →
    ∀ row ∈ (list q library version (some offset) (some limit) (some false)).items,
    ∀ row' ∈ (list q library version (some offset') (some limit') (some true)).items,
      row.order = row'.order → row.playPosition = row'.playPosition
  plays : ∀ (upNext : Bool) (offset limit : Nat), 1 ≤ limit →
    ∀ row ∈ (list q library version (some offset) (some limit) (some upNext)).items,
      play q playNow version none row.order = .ok row.order.toNat

/-- MusicBee starts a slot that has the url. -/
def PlaysUrl (q : Queue) (playNow : String → Option Nat) : Prop :=
  ∀ slot ∈ q.slots, ∃ i, playNow slot.url = some i ∧ (q.slots[i]?).map (·.url) = some slot.url

/-- The record the library has for the slot's url describes the slot's own track, or says what the
slot says. -/
def OwnRecord (own : Slot → TrackTags → Prop) (library : Library) (slot : Slot) : Prop :=
  own slot (library.record slot.url) ∨
    ((library.record slot.url).artist = slot.artist ∧ (library.record slot.url).title = slot.title)

theorem mem_items {q : Queue} {library : Library} {version : Nat} {upNext : Bool}
    {offset limit : Nat} (hl : 1 ≤ limit) {row : Row}
    (h : row ∈ (list q library version (some offset) (some limit) (some upNext)).items) :
    ∃ i rank, i < q.slots.length ∧ row = rowAt q library i rank := by
  rw [(list_eq q library version upNext offset hl).2] at h
  have hm := List.mem_of_mem_drop (List.mem_of_mem_take h)
  obtain ⟨rank, hr, hget⟩ := List.getElem_of_mem hm
  have hv : rank < (view q upNext).length := by simpa [rows] using hr
  refine ⟨(view q upNext)[rank], rank, view_lt (List.getElem_mem hv), ?_⟩
  rw [← hget]
  simp [rows]

theorem mem_storage {q : Queue} (library : Library) (version : Nat) {i : Nat}
    (hi : i < q.slots.length) : rowAt q library i i ∈
      (list q library version (some (0 : Nat)) (some (q.slots.length : Nat))
        (some false)).items := by
  have hl : 1 ≤ q.slots.length := Nat.lt_of_le_of_lt (Nat.zero_le i) hi
  rw [(list_eq q library version false 0 hl).2, List.drop_zero]
  apply List.mem_of_getElem? (i := i)
  rw [List.getElem?_take, if_pos hi, rows, List.getElem?_mapIdx]
  simp [view, hi]

theorem slotAt_rowAt {q : Queue} (library : Library) {i : Nat} (rank : Nat)
    (hi : i < q.slots.length) : q.slotAt (rowAt q library i rank).order = some q.slots[i] := by
  show q.slotAt (i : Int) = _
  rw [Queue.slotAt_nat, List.getElem?_eq_getElem hi]

theorem getListFileUrl_eq {q : Queue} {i : Nat} (hi : i < q.slots.length) :
    q.getListFileUrl i = q.slots[i].url := by
  apply Queue.getListFileUrl_some
  rw [Queue.slotAt_nat, List.getElem?_eq_getElem hi]

/-- A row shows its slot exactly when the library's record is the slot's own. -/
theorem shows_iff {q : Queue} {library : Library} {own : Slot → TrackTags → Prop} {i : Nat}
    (rank : Nat) (hi : i < q.slots.length) :
    Shows own q.slots[i] (rowAt q library i rank).shown ↔ OwnRecord own library q.slots[i] := by
  simp only [Shows, rowAt, getListFileUrl_eq hi, Shown.src, Shown.artistDisplay, Shown.title,
    OwnRecord]
  constructor
  · rintro ⟨-, h | ⟨tags, htags, hown⟩⟩
    · exact Or.inr h
    · rw [Shown.record.inj htags]
      exact Or.inl hown
  · rintro (h | h)
    · exact ⟨rfl, Or.inr ⟨_, rfl, h⟩⟩
    · exact ⟨rfl, Or.inl h⟩

theorem play_eq {q : Queue} {playNow : String → Option Nat} (version : Nat) {i : Nat}
    (hi : i < q.slots.length) :
    play q playNow version none i =
      ((playNow q.slots[i].url).elim (.error .internal) .ok : Except V6Error Nat) := by
  have hsat : i32Saturating (i : Int) = i := by
    have := q.small
    unfold i32Saturating
    omega
  have hne : q.slots[i].url ≠ "" := q.slots[i].url_ne
  simp only [play, checkVersion, playNowPlayingByIndex, hsat, getListFileUrl_eq hi, if_pos hne]
  cases playNow q.slots[i].url <;> rfl

/-- A slot is started by its url, so that slots with one url are started as one. -/
theorem plays_iff {q : Queue} {playNow : String → Option Nat} (hplay : PlaysUrl q playNow)
    (version : Nat) :
    (∀ i, i < q.slots.length → play q playNow version none i = .ok i) ↔
      (q.slots.map (·.url)).Nodup := by
  constructor
  · intro h
    rw [List.nodup_iff_injective_getElem]
    rintro ⟨i, hi⟩ ⟨j, hj⟩ hij
    simp only [List.length_map] at hi hj
    simp only [List.getElem_map] at hij
    have h1 := h i hi
    have h2 := h j hj
    rw [play_eq version hi] at h1
    rw [play_eq version hj, ← hij, h1] at h2
    exact Fin.ext (Except.ok.inj h2)
  · intro hn i hi
    obtain ⟨j, hj, hurl⟩ := hplay _ (List.getElem_mem hi)
    rw [play_eq version hi, hj]
    have hjlt : j < q.slots.length := by
      by_contra hout
      rw [List.getElem?_eq_none (Nat.le_of_not_lt hout)] at hurl
      simp at hurl
    rw [List.getElem?_eq_getElem hjlt] at hurl
    have hidx : j = i := by
      refine (@List.Nodup.getElem_inj_iff _ _ hn _ (by simpa using hjlt) _
        (by simpa using hi)).mp ?_
      simpa using hurl
    rw [hidx]
    rfl

/-- **Every row is its own slot** exactly when the library's records are those of the slots and no
two slots share a url. -/
theorem each_row_its_slot_iff {q : Queue} {library : Library} {own : Slot → TrackTags → Prop}
    {playNow : String → Option Nat} (hplay : PlaysUrl q playNow) (version : Nat) :
    EachRowItsSlot q library own playNow version ↔
      (∀ slot ∈ q.slots, OwnRecord own library slot) ∧ (q.slots.map (·.url)).Nodup := by
  constructor
  · intro h
    constructor
    · intro slot hslot
      obtain ⟨i, hi, rfl⟩ := List.getElem_of_mem hslot
      have hl : 1 ≤ q.slots.length := Nat.lt_of_le_of_lt (Nat.zero_le i) hi
      obtain ⟨slot, hat, hshows⟩ :=
        h.shows false 0 q.slots.length hl _ (mem_storage library version hi)
      rw [slotAt_rowAt library i hi] at hat
      obtain rfl := Option.some.inj hat
      exact (shows_iff i hi).mp hshows
    · refine (plays_iff hplay version).mp fun i hi => ?_
      have hl : 1 ≤ q.slots.length := Nat.lt_of_le_of_lt (Nat.zero_le i) hi
      have hp := h.plays false 0 q.slots.length hl _ (mem_storage library version hi)
      simpa only [rowAt, Int.toNat_natCast] using hp
  · rintro ⟨hown, hurls⟩
    have hplays := (plays_iff hplay version).mpr hurls
    refine ⟨?_, ?_, ?_, ?_, ?_, ?_, ?_⟩
    · intro upNext offset limit hl
      rw [(list_eq q library version upNext offset hl).2, List.map_take, List.map_drop,
        List.map_take, List.map_drop]
      congr 2
      apply List.ext_getElem?
      intro k
      simp only [rows, List.getElem?_map, List.getElem?_mapIdx, Option.map_map]
      rfl
    · intro upNext offset first second h1 h2
      rw [(list_eq q library version upNext offset h1).2,
        (list_eq q library version upNext (offset + first) h2).2,
        (list_eq q library version upNext offset (Nat.le_add_right_of_le h1)).2,
        ← List.drop_drop, List.take_add]
    · intro upNext offset limit hl
      exact (list_eq q library version upNext offset hl).1
    · intro upNext offset limit hl row hrow
      obtain ⟨i, rank, hi, rfl⟩ := mem_items hl hrow
      exact ⟨_, slotAt_rowAt library rank hi,
        (shows_iff rank hi).mpr (hown _ (List.getElem_mem hi))⟩
    · intro upNext offset limit hl row hrow
      obtain ⟨i, rank, hi, rfl⟩ := mem_items hl hrow
      simp only [rowAt, Int.toNat_natCast]
    · intro offset limit offset' limit' hl hl' row hrow row' hrow' horder
      obtain ⟨i, rank, hi, rfl⟩ := mem_items hl hrow
      obtain ⟨j, rank', hj, rfl⟩ := mem_items hl' hrow'
      obtain rfl : i = j := Int.ofNat.inj horder
      rfl
    · intro upNext offset limit hl row hrow
      obtain ⟨i, rank, hi, rfl⟩ := mem_items hl hrow
      have hp := hplays i hi
      simpa only [rowAt, Int.toNat_natCast] using hp

/-- An album in one file: two tracks of a container. -/
def cueAlbum : Queue where
  slots := [⟨"album.flac", "Artist", "Album", "Artist", "First", by decide⟩,
    ⟨"album.flac", "Artist", "Album", "Artist", "Second", by decide⟩]
  playOrder := [0, 1]
  nodup := by decide
  inRange := by decide
  small := by decide

/-- The container has no tags of its own, and neither have the rows of its tracks. -/
theorem cue_tracks_are_one :
    ¬ ∀ (q : Queue) (library : Library) (playNow : String → Option Nat) (version : Nat),
      PlaysUrl q playNow → EachRowItsSlot q library
        (fun slot tags => tags.artist = slot.artist ∧ tags.title = slot.title) playNow version := by
  intro h
  have hall := h cueAlbum (fun path => ⟨path, "", "", "", "", "", 0, 0, "", "", "", "", "", "", ""⟩)
    (fun _ => some 0) 0 (by
      intro slot hslot
      refine ⟨0, rfl, ?_⟩
      rcases List.mem_cons.mp hslot with rfl | hslot
      · rfl
      · rw [List.mem_singleton.mp hslot]
        rfl)
  obtain ⟨slot, hat, -, hshown⟩ := hall.shows false 0 2 (by decide) _
    (mem_storage _ _ (by decide : 0 < cueAlbum.slots.length))
  rw [slotAt_rowAt _ _ (by decide)] at hat
  obtain rfl := Option.some.inj hat
  rcases hshown with ⟨-, htitle⟩ | ⟨tags, htags, -, htitle⟩
  · exact absurd htitle (by decide)
  · rw [← Shown.record.inj htags] at htitle
    exact absurd htitle (by decide)

/-- Two files of the library. -/
def twoFiles : Queue where
  slots := [⟨"a.mp3", "Artist", "Album", "Artist", "First", by decide⟩,
    ⟨"b.mp3", "Artist", "Album", "Artist", "Second", by decide⟩]
  playOrder := [1, 0]
  nodup := by decide
  inRange := by decide
  small := by decide

/-- Two files that the library knows are two slots. -/
theorem each_row_its_slot_iff_twoFiles :
    EachRowItsSlot twoFiles
      (fun path => ⟨path, "Artist", if path = "a.mp3" then "First" else "Second", "Album",
        "Artist", "", 1, 1, "", "", "", "", "", "", ""⟩)
      (fun slot tags => tags.artist = slot.artist ∧ tags.title = slot.title)
      (fun url => if url = "a.mp3" then some 0 else if url = "b.mp3" then some 1 else none) 0 := by
  refine (each_row_its_slot_iff ?_ 0).mpr ⟨?_, by decide⟩
  · intro slot hslot
    rcases List.mem_cons.mp hslot with rfl | hslot
    · exact ⟨0, by decide, by decide⟩
    · rw [List.mem_singleton.mp hslot]
      exact ⟨1, by decide, by decide⟩
  · intro slot hslot
    rcases List.mem_cons.mp hslot with rfl | hslot
    · exact Or.inl (by decide)
    · rw [List.mem_singleton.mp hslot]
      exact Or.inl (by decide)

end Mbrc.NowPlaying
