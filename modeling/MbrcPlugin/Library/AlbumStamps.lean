import MbrcPlugin.Library.Reconcile

/-!
# Which tag rows a reconcile forgets

The stamps that a reconcile compares are filed under the albums the host lists, named by their album
artist; the rows it drops are named by their own tags, where the artist stands in for an empty album
artist.  The host's list has one time for each album, the newest of its files.

A stored row goes if the fingerprints of the two lists differ and the last time under the row's own
name is not the one it was (`get?_reconcile`).  So every changed file is forgotten, and no row of an
album that did not move, exactly where this tells them apart (`forgets_iff`).
-/

namespace Mbrc.AlbumStamps

open Cache Reconcile

/-! ## The library of the host -/

structure File where
  path : Path
  tags : CachedTags
  modified : Int

/-- A state of the library: what the host reports of its files. -/
structure HostLibrary where
  files : List File
  nodup : (files.map File.path).Nodup

section

variable (hostLower : String → String)

/-- The name `GetAlbumIdentities` folds the files of an album under. -/
def dedupeKey (artist album : String) : String := hostLower artist ++ "\x00" ++ hostLower album

/-- One file of `GetAlbumIdentities`: the first path of its album stays, with the newest time. -/
def foldFile (albums : List AlbumIdentifier) (f : File) : List AlbumIdentifier :=
  let key := dedupeKey hostLower f.tags.albumArtist f.tags.album
  match albums.find? fun a => dedupeKey hostLower a.artist a.album = key with
  | some existing =>
    if f.modified > existing.modified then
      albums.map fun a =>
        if dedupeKey hostLower a.artist a.album = key then { a with modified := f.modified } else a
    else albums
  | none =>
    albums ++ [{
      artist := f.tags.albumArtist, album := f.tags.album, path := f.path
      modified := f.modified }]

def getAlbumIdentities (files : List File) : List AlbumIdentifier :=
  files.foldl (foldFile hostLower) []

variable (lower : String → String)

/-- The albums of `reconcile_metadata`. -/
def albumsOf (library : HostLibrary) : List (String × Int) :=
  stampsOf lower (getAlbumIdentities hostLower library.files)

/-- The cache once `reconcile_metadata` has compared it with the library. -/
def reconciled (c : MetadataCache) (library : HostLibrary) : MetadataCache :=
  let albums := albumsOf hostLower lower library
  c.reconcile lower albums (fingerprint albums).toNat

/-! ## What is promised -/

/-- The time the host reports for the album of these tags. -/
def albumTime (library : HostLibrary) (tags : CachedTags) : Option Int :=
  ((getAlbumIdentities hostLower library.files).find? fun a =>
    dedupeKey hostLower a.artist a.album = dedupeKey hostLower tags.albumArtist tags.album).map
      (·.modified)

/-- The stamps of the library are stored, and rows of its files. -/
structure Stored (c : MetadataCache) (library : HostLibrary) : Prop where
  schema : c.schema = some tagsSchemaVersion
  fingerprint : c.fingerprint = some (fingerprint (albumsOf hostLower lower library)).toNat
  stamps : c.stamps = (c.storeAlbumStamps (albumsOf hostLower lower library)).stamps
  rows : ∀ path row, c.tags.get? path = some row →
    ∃ f ∈ library.files, f.path = path ∧ f.tags = row

/-- **What is promised**: no row differs from its file's tags, and no row is gone whose album has
the time it had. -/
structure Forgets (c : MetadataCache) (before after : HostLibrary) : Prop where
  fresh : ∀ path row, (reconciled hostLower lower c after).tags.get? path = some row →
    ∀ f ∈ after.files, f.path = path → f.tags = row
  kept : ∀ path row, c.tags.get? path = some row →
    albumTime hostLower before row = albumTime hostLower after row →
    (reconciled hostLower lower c after).tags.get? path = some row

/-! ## When it holds -/

/-- The name a row is dropped under. -/
def rowKey (row : CachedTags) : String := albumKey lower row.albumArtist row.artist row.album

end

/-- The last time listed under a name. -/
def lastTime (albums : List (String × Int)) (key : String) : Option Int :=
  (albums.reverse.find? (·.1 = key)).map (·.2)

/-- The fingerprint and the times under the name tell that something changed. -/
def Noticed (albums albums' : List (String × Int)) (key : String) : Prop :=
  fingerprint albums ≠ fingerprint albums' ∧ lastTime albums key ≠ lastTime albums' key

/-- What changed is noticed under the names of the rows of changed files, and not under the names of
the rows whose album has the time it had. -/
def ToldApart (hostLower lower : String → String) (c : MetadataCache)
    (before after : HostLibrary) : Prop :=
  ∀ path row, c.tags.get? path = some row →
    ((∃ f ∈ after.files, f.path = path ∧ f.tags ≠ row) →
      Noticed (albumsOf hostLower lower before) (albumsOf hostLower lower after)
        (rowKey lower row)) ∧
    (albumTime hostLower before row = albumTime hostLower after row →
      ¬ Noticed (albumsOf hostLower lower before) (albumsOf hostLower lower after)
        (rowKey lower row))

/-! ## What the stored stamps say -/

/-- Of times written one after the other the last one under a name stays. -/
theorem get?_storeAlbumStamps (c : MetadataCache) (albums : List (String × Int)) (key : String) :
    (c.storeAlbumStamps albums).stamps.get? key = lastTime albums key := by
  show (albums.foldl (fun table album => table.insert album.1 album.2) Table.empty).get? key = _
  unfold lastTime
  induction albums using List.reverseRecOn with
  | nil => simp
  | append_singleton init album ih =>
    rw [List.foldl_append, List.foldl_cons, List.foldl_nil, Table.get?_insert,
      List.reverse_append, List.reverse_singleton, List.singleton_append, List.find?_cons]
    by_cases hkey : album.1 = key
    · simp [hkey]
    · simpa [hkey] using ih

theorem lastTime_eq_none_iff {albums : List (String × Int)} {key : String} :
    lastTime albums key = none ↔ ∀ album ∈ albums, album.1 ≠ key := by
  unfold lastTime
  rw [Option.map_eq_none_iff, List.find?_eq_none]
  simp

theorem exists_of_lastTime_ne_none {albums : List (String × Int)} {key : String}
    (h : lastTime albums key ≠ none) : ∃ album ∈ albums, album.1 = key := by
  by_contra hnone
  exact h (lastTime_eq_none_iff.mpr fun album halbum hkey => hnone ⟨album, halbum, hkey⟩)

theorem rows_storeAlbumStamps_ne_nil (c : MetadataCache) {albums : List (String × Int)}
    (halbums : albums ≠ []) : (c.storeAlbumStamps albums).stamps.rows ≠ [] := by
  obtain ⟨album, rest, rfl⟩ := List.exists_cons_of_ne_nil halbums
  intro hrows
  cases hlast : lastTime (album :: rest) album.1 with
  | none => exact lastTime_eq_none_iff.mp hlast album List.mem_cons_self rfl
  | some time =>
    have hget := (get?_storeAlbumStamps c (album :: rest) album.1).trans hlast
    have hmem := Table.mem_rows.mpr hget
    rw [hrows] at hmem
    cases hmem

/-! ## What a reconcile drops -/

section

variable {lower : String → String} {c : MetadataCache} {path : Path} {row : CachedTags}

theorem get?_dropTagsOf (hrow : c.tags.get? path = some row) (albums : List String) :
    (c.dropTagsOf lower albums).tags.get? path =
      if rowKey lower row ∈ albums then none else some row := by
  have hdoomed : path ∈ (c.tags.rows.filter fun row =>
      albumKey lower row.2.albumArtist row.2.artist row.2.album ∈ albums).map (·.1) ↔
      rowKey lower row ∈ albums := by
    rw [List.mem_map]
    constructor
    · rintro ⟨⟨p, t⟩, ht, rfl⟩
      obtain ⟨hmem, hkey⟩ := List.mem_filter.mp ht
      rw [Table.mem_rows, hrow] at hmem
      obtain rfl := Option.some.inj hmem
      exact of_decide_eq_true hkey
    · intro hkey
      exact ⟨(path, row), List.mem_filter.mpr ⟨Table.mem_rows.mpr hrow, decide_eq_true hkey⟩, rfl⟩
  unfold MetadataCache.dropTagsOf
  dsimp only
  split
  · rename_i hnone
    rw [hnone] at hdoomed
    rw [if_neg fun hkey => List.not_mem_nil (hdoomed.mpr hkey), hrow]
  · show (c.tags.eraseAll _).get? path = _
    rw [Table.get?_eraseAll, hrow]
    simp only [hdoomed]

/-- A name is stale exactly if its stored time is not the last one listed. -/
theorem get?_dropMovedAlbums (hrow : c.tags.get? path = some row) (hstamps : c.stamps.rows ≠ [])
    (albums : List (String × Int)) :
    (c.dropMovedAlbums lower albums).tags.get? path =
      if c.stamps.get? (rowKey lower row) = lastTime albums (rowKey lower row) then some row
      else none := by
  unfold MetadataCache.dropMovedAlbums
  rw [if_neg hstamps]
  dsimp only
  generalize hstale : ((c.stamps.rows.filter fun row =>
      (albums.reverse.find? (·.1 = row.1)).map (·.2) ≠ some row.2).map (·.1) ++
    (albums.filter fun album => (c.stamps.get? album.1).isNone).map (·.1)) = stale
  have hmem : rowKey lower row ∈ stale ↔
      c.stamps.get? (rowKey lower row) ≠ lastTime albums (rowKey lower row) := by
    rw [← hstale, List.mem_append, List.mem_map, List.mem_map]
    generalize rowKey lower row = key
    constructor
    · rintro (⟨⟨k, was⟩, hwas, rfl⟩ | ⟨⟨k, time⟩, halbum, rfl⟩)
      · obtain ⟨hmem, hmoved⟩ := List.mem_filter.mp hwas
        rw [Table.mem_rows.mp hmem]
        exact Ne.symm (of_decide_eq_true hmoved)
      · obtain ⟨hmem, hnew⟩ := List.mem_filter.mp halbum
        rw [Option.isNone_iff_eq_none.mp hnew]
        exact fun h => lastTime_eq_none_iff.mp h.symm _ hmem rfl
    · intro hne
      cases hget : c.stamps.get? key with
      | some was =>
        rw [hget] at hne
        exact .inl ⟨(key, was), List.mem_filter.mpr
          ⟨Table.mem_rows.mpr hget, decide_eq_true hne.symm⟩, rfl⟩
      | none =>
        rw [hget] at hne
        obtain ⟨album, halbum, rfl⟩ := exists_of_lastTime_ne_none hne.symm
        exact .inr ⟨album, List.mem_filter.mpr ⟨halbum, Option.isNone_iff_eq_none.mpr hget⟩, rfl⟩
  split
  · rename_i hnone
    have hsame : c.stamps.get? (rowKey lower row) = lastTime albums (rowKey lower row) := by
      by_contra h
      have := hmem.mpr h
      rw [hnone] at this
      cases this
    rw [if_pos hsame, hrow]
  · rw [get?_dropTagsOf hrow]
    by_cases hsame : c.stamps.get? (rowKey lower row) = lastTime albums (rowKey lower row)
    · rw [if_neg fun h => hmem.mp h hsame, if_pos hsame]
    · rw [if_pos (hmem.mpr hsame), if_neg hsame]

/-- With the records' form as it was, only the moved albums lose rows. -/
theorem tags_reconcile (hschema : c.schema = some tagsSchemaVersion)
    (albums : List (String × Int)) (fingerprint : Nat) :
    (c.reconcile lower albums fingerprint).tags =
      if c.fingerprint = some fingerprint then c.tags
      else (c.dropMovedAlbums lower albums).tags := by
  have hstored (d : MetadataCache) (p : Prop) [Decidable p] :
      (if p then d.storeAlbumStamps albums else d).tags = d.tags := by split <;> rfl
  unfold MetadataCache.reconcile
  simp only [hschema, ne_eq, not_true_eq_false, decide_false, Bool.false_or, hstored]
  by_cases hsame : c.fingerprint = some fingerprint
  · simp [hsame]
  · simp [hsame]

variable (lower) in
/-- **One row**: it goes if the fingerprint is another one and its name is stale. -/
theorem get?_reconcile (hschema : c.schema = some tagsSchemaVersion)
    (hstamps : c.stamps.rows ≠ []) (hrow : c.tags.get? path = some row)
    (albums : List (String × Int)) (fingerprint : Nat) :
    (c.reconcile lower albums fingerprint).tags.get? path =
      if c.fingerprint = some fingerprint ∨
        c.stamps.get? (rowKey lower row) = lastTime albums (rowKey lower row) then some row
      else none := by
  rw [tags_reconcile hschema]
  by_cases hsame : c.fingerprint = some fingerprint
  · rw [if_pos hsame, if_pos (.inl hsame), hrow]
  · rw [if_neg hsame, get?_dropMovedAlbums hrow hstamps]
    simp only [hsame, false_or]

end

/-! ## The albums of the host -/

section

variable {hostLower : String → String}

/-- The artist and the album the host lists. -/
def listed (a : AlbumIdentifier) : String × String := (a.artist, a.album)

def File.names (f : File) : String × String := (f.tags.albumArtist, f.tags.album)

variable (hostLower) in
def keyOf (names : String × String) : String := dedupeKey hostLower names.1 names.2

/-- One more file lists its album, unless it is listed. -/
theorem listed_foldFile (albums : List AlbumIdentifier) (f : File) :
    (foldFile hostLower albums f).map listed =
      if ∃ names ∈ albums.map listed, keyOf hostLower names = keyOf hostLower f.names then
        albums.map listed
      else albums.map listed ++ [f.names] := by
  unfold foldFile
  dsimp only
  split
  · rename_i existing hfind
    have hkey : keyOf hostLower (listed existing) = keyOf hostLower f.names :=
      of_decide_eq_true (List.find?_some hfind :)
    have hold : ∃ names ∈ albums.map listed, keyOf hostLower names = keyOf hostLower f.names :=
      ⟨_, List.mem_map_of_mem (List.mem_of_find?_eq_some hfind), hkey⟩
    rw [if_pos hold]
    split
    · rw [List.map_map]
      refine List.map_congr_left fun a _ => ?_
      simp only [Function.comp_apply]
      split <;> rfl
    · rfl
  · rename_i hfind
    rw [List.find?_eq_none] at hfind
    rw [if_neg, List.map_append]
    · rfl
    · rintro ⟨names, hnames, hkey⟩
      obtain ⟨a, ha, rfl⟩ := List.mem_map.mp hnames
      exact hfind a ha (decide_eq_true hkey)

theorem getAlbumIdentities_append (files : List File) (f : File) :
    getAlbumIdentities hostLower (files ++ [f]) =
      foldFile hostLower (getAlbumIdentities hostLower files) f := by
  rw [getAlbumIdentities, List.foldl_append]
  rfl

/-- An album that is listed is one of a file. -/
theorem exists_file_of_listed {files : List File} {names : String × String}
    (h : names ∈ (getAlbumIdentities hostLower files).map listed) :
    ∃ f ∈ files, f.names = names := by
  induction files using List.reverseRecOn with
  | nil => cases h
  | append_singleton files f ih =>
    rw [getAlbumIdentities_append, listed_foldFile] at h
    have hsplit : names ∈ (getAlbumIdentities hostLower files).map listed ∨ names = f.names := by
      split at h
      · exact .inl h
      · simpa using h
    rcases hsplit with hold | rfl
    · obtain ⟨g, hg, hnames⟩ := ih hold
      exact ⟨g, List.mem_append_left _ hg, hnames⟩
    · exact ⟨f, by simp, rfl⟩

variable (hostLower) in
/-- No album is listed twice. -/
theorem nodup_keys (files : List File) :
    (((getAlbumIdentities hostLower files).map listed).map (keyOf hostLower)).Nodup := by
  induction files using List.reverseRecOn with
  | nil => exact List.nodup_nil
  | append_singleton files f ih =>
    rw [getAlbumIdentities_append, listed_foldFile]
    split
    · exact ih
    · rename_i hnew
      rw [List.map_append, List.map_singleton]
      refine List.nodup_append.mpr ⟨ih, List.nodup_singleton _, fun key hkey other hother => ?_⟩
      obtain ⟨names, hnames, rfl⟩ := List.mem_map.mp hkey
      rw [List.mem_singleton.mp hother]
      exact fun heq => hnew ⟨names, hnames, heq⟩

theorem getAlbumIdentities_ne_nil {files : List File} (h : files ≠ []) :
    getAlbumIdentities hostLower files ≠ [] := by
  induction files using List.reverseRecOn with
  | nil => exact absurd rfl h
  | append_singleton files f _ =>
    rw [getAlbumIdentities_append]
    intro hnil
    have hlisted : (foldFile hostLower (getAlbumIdentities hostLower files) f).map listed = _ :=
      listed_foldFile _ f
    rw [hnil, List.map_nil] at hlisted
    split at hlisted
    · rename_i hold
      rw [← hlisted] at hold
      obtain ⟨names, hnames, -⟩ := hold
      cases hnames
    · exact absurd hlisted.symm (by simp)

end

/-! ## What is forgotten -/

section

variable {hostLower lower : String → String} {c : MetadataCache} {before after : HostLibrary}

variable (after) in
/-- A stored row stays exactly if nothing is noticed under its name. -/
theorem get?_reconciled (hstored : Stored hostLower lower c before) {path : Path}
    {row : CachedTags} (hrow : c.tags.get? path = some row) :
    (reconciled hostLower lower c after).tags.get? path = some row ∧
        ¬ Noticed (albumsOf hostLower lower before) (albumsOf hostLower lower after)
          (rowKey lower row) ∨
      (reconciled hostLower lower c after).tags.get? path = none ∧
        Noticed (albumsOf hostLower lower before) (albumsOf hostLower lower after)
          (rowKey lower row) := by
  obtain ⟨f, hf, -⟩ := hstored.rows path row hrow
  have halbums : albumsOf hostLower lower before ≠ [] :=
    fun h => getAlbumIdentities_ne_nil (List.ne_nil_of_mem hf) (List.map_eq_nil_iff.mp h)
  have hstamps : c.stamps.rows ≠ [] := by
    rw [hstored.stamps]
    exact rows_storeAlbumStamps_ne_nil c halbums
  have hget := get?_reconcile lower hstored.schema hstamps hrow
    (albumsOf hostLower lower after) (fingerprint (albumsOf hostLower lower after)).toNat
  rw [hstored.fingerprint, hstored.stamps, get?_storeAlbumStamps] at hget
  unfold Noticed reconciled
  by_cases hfingerprint : fingerprint (albumsOf hostLower lower before) =
      fingerprint (albumsOf hostLower lower after)
  · refine .inl ⟨hget.trans (if_pos (.inl ?_)), fun h => h.1 hfingerprint⟩
    rw [hfingerprint]
  · have hdiffer : ¬ some (fingerprint (albumsOf hostLower lower before)).toNat =
        some (fingerprint (albumsOf hostLower lower after)).toNat :=
      fun h => hfingerprint (UInt64.toNat_inj.mp (Option.some.inj h))
    by_cases htime : lastTime (albumsOf hostLower lower before) (rowKey lower row) =
        lastTime (albumsOf hostLower lower after) (rowKey lower row)
    · exact .inl ⟨hget.trans (if_pos (.inr htime)), fun h => h.2 htime⟩
    · refine .inr ⟨hget.trans (if_neg ?_), hfingerprint, htime⟩
      rintro (h | h)
      · exact hdiffer h
      · exact htime h

theorem toldApart_of_forgets (hstored : Stored hostLower lower c before)
    (hforgets : Forgets hostLower lower c before after) :
    ToldApart hostLower lower c before after := by
  intro path row hrow
  constructor
  · rintro ⟨f, hf, hpath, hchanged⟩
    rcases get?_reconciled after hstored hrow with ⟨hkept, -⟩ | ⟨-, hnoticed⟩
    · exact absurd (hforgets.fresh path row hkept f hf hpath) hchanged
    · exact hnoticed
  · intro htime hnoticed
    rcases get?_reconciled after hstored hrow with ⟨-, h⟩ | ⟨hgone, -⟩
    · exact h hnoticed
    · exact absurd (hgone.symm.trans (hforgets.kept path row hrow htime)) (by simp)

/-- A reconcile adds no row. -/
theorem get?_of_reconciled (hschema : c.schema = some tagsSchemaVersion) {path : Path}
    {row : CachedTags} (h : (reconciled hostLower lower c after).tags.get? path = some row) :
    ∃ row, c.tags.get? path = some row := by
  unfold reconciled at h
  rw [tags_reconcile hschema] at h
  split at h
  · exact ⟨row, h⟩
  · have htrims : Trims c (c.dropMovedAlbums lower (albumsOf hostLower lower after)) :=
      trims_dropMovedAlbums c _
    refine Option.ne_none_iff_exists'.mp (htrims.tags path ?_)
    rw [h]
    exact Option.some_ne_none row

theorem forgets_of_toldApart (hstored : Stored hostLower lower c before)
    (htold : ToldApart hostLower lower c before after) :
    Forgets hostLower lower c before after where
  fresh path row hget f hf hpath := by
    obtain ⟨row', hrow⟩ := get?_of_reconciled hstored.schema hget
    rcases get?_reconciled after hstored hrow with ⟨hkept, hnot⟩ | ⟨hgone, -⟩
    · obtain rfl : row = row' := Option.some.inj (hget.symm.trans hkept)
      by_contra hchanged
      exact hnot ((htold path row hrow).1 ⟨f, hf, hpath, hchanged⟩)
    · rw [hget] at hgone
      cases hgone
  kept path row hrow htime := by
    rcases get?_reconciled after hstored hrow with ⟨hkept, -⟩ | ⟨-, hnoticed⟩
    · exact hkept
    · exact absurd hnoticed ((htold path row hrow).2 htime)

/-- **An incremental reconcile forgets every changed file, and no row of an album that did not
move**, exactly where the names tell the changes apart. -/
theorem forgets_iff (hstored : Stored hostLower lower c before) :
    Forgets hostLower lower c before after ↔ ToldApart hostLower lower c before after :=
  ⟨toldApart_of_forgets hstored, forgets_of_toldApart hstored⟩

end

/-! ## Albums that the names keep apart -/

section

variable (hostLower lower : String → String)

/-- An album's time moves whenever one of its files changes, comes or goes. -/
def TimesMove (before after : HostLibrary) : Prop :=
  (∀ f ∈ before.files, (∀ g ∈ after.files, g.path = f.path → g.tags ≠ f.tags) →
    albumTime hostLower before f.tags ≠ albumTime hostLower after f.tags) ∧
  ∀ f ∈ after.files, (∀ g ∈ before.files, g.path = f.path → g.tags ≠ f.tags) →
    albumTime hostLower before f.tags ≠ albumTime hostLower after f.tags

/-- The name an album's stamp is filed under. -/
def stampKey (names : String × String) : String := albumKey lower names.1 names.1 names.2

/-- Every album has an album artist and a stamp of its own, and the fingerprint sees a change of the
stamps. -/
structure KeptApart (c : MetadataCache) (before after : HostLibrary) : Prop where
  artists : ∀ path row, c.tags.get? path = some row → row.albumArtist ≠ ""
  keys : ∀ f ∈ before.files ++ after.files, ∀ g ∈ before.files ++ after.files,
    keyOf hostLower f.names = keyOf hostLower g.names ↔
      stampKey lower f.names = stampKey lower g.names
  times : TimesMove hostLower before after
  seen : fingerprint (albumsOf hostLower lower before) =
    fingerprint (albumsOf hostLower lower after) →
      albumsOf hostLower lower before = albumsOf hostLower lower after

end

/-- Where one element at most is meant, the search may start at either end. -/
theorem find?_reverse_eq {α : Type} {l : List α} {p q : α → Bool} (hpq : ∀ a ∈ l, p a = q a)
    (hunique : l.Pairwise fun a b => ¬ (p a = true ∧ p b = true)) :
    l.reverse.find? q = l.find? p := by
  induction l with
  | nil => rfl
  | cons a rest ih =>
    obtain ⟨ha, hrest⟩ := List.pairwise_cons.mp hunique
    rw [List.reverse_cons, List.find?_append, List.find?_cons,
      ih (fun b hb => hpq b (List.mem_cons_of_mem _ hb)) hrest]
    cases hp : p a with
    | false => simp [← hpq a List.mem_cons_self, hp]
    | true =>
      have hnone : rest.find? p = none :=
        List.find?_eq_none.mpr fun b hb h => ha b hb ⟨hp, h⟩
      simp [hnone, ← hpq a List.mem_cons_self, hp]

section

variable {hostLower lower : String → String} {c : MetadataCache} {before after : HostLibrary}

/-- With a stamp for each album the last time under its name is the album's. -/
theorem lastTime_eq_albumTime {library : HostLibrary} {tags : CachedTags}
    (hkeys : ∀ f ∈ library.files, keyOf hostLower f.names =
      keyOf hostLower (tags.albumArtist, tags.album) ↔
        stampKey lower f.names = stampKey lower (tags.albumArtist, tags.album)) :
    lastTime (albumsOf hostLower lower library) (stampKey lower (tags.albumArtist, tags.album)) =
      albumTime hostLower library tags := by
  unfold lastTime albumsOf stampsOf albumTime
  rw [← List.map_reverse, List.find?_map, Option.map_map]
  congr 1
  refine find?_reverse_eq (fun a ha => ?_) ?_
  · obtain ⟨f, hf, hnames⟩ := exists_file_of_listed (List.mem_map_of_mem ha)
    have hkey := hkeys f hf
    rw [hnames] at hkey
    exact decide_eq_decide.mpr hkey
  · have hnodup := nodup_keys hostLower library.files
    rw [List.map_map] at hnodup
    refine (List.pairwise_map.mp hnodup).imp fun {a b} hne h => hne ?_
    exact (of_decide_eq_true h.1).trans (of_decide_eq_true h.2).symm

/-- Where the album artist is given the row has the name of its album's stamp. -/
theorem rowKey_eq_stampKey {row : CachedTags} (h : row.albumArtist ≠ "") :
    rowKey lower row = stampKey lower (row.albumArtist, row.album) := by
  simp only [rowKey, stampKey, albumKey, if_neg h]

/-- **Albums kept apart are told apart.** -/
theorem toldApart_of_keptApart (hstored : Stored hostLower lower c before)
    (hapart : KeptApart hostLower lower c before after) :
    ToldApart hostLower lower c before after := by
  intro path row hrow
  obtain ⟨b, hb, hpath, rfl⟩ := hstored.rows path row hrow
  have hbefore := List.mem_append_left after.files hb
  have htime : lastTime (albumsOf hostLower lower before) (rowKey lower b.tags) =
      albumTime hostLower before b.tags := by
    rw [rowKey_eq_stampKey (hapart.artists path _ hrow)]
    exact lastTime_eq_albumTime fun f hf => hapart.keys f (List.mem_append_left _ hf) b hbefore
  have htime' : lastTime (albumsOf hostLower lower after) (rowKey lower b.tags) =
      albumTime hostLower after b.tags := by
    rw [rowKey_eq_stampKey (hapart.artists path _ hrow)]
    exact lastTime_eq_albumTime fun f hf => hapart.keys f (List.mem_append_right _ hf) b hbefore
  constructor
  · rintro ⟨f, hf, hfpath, hchanged⟩
    have hmoved : albumTime hostLower before b.tags ≠ albumTime hostLower after b.tags := by
      refine hapart.times.1 b hb fun g hg hgpath => ?_
      obtain rfl : g = f :=
        List.inj_on_of_nodup_map after.nodup hg hf (hgpath.trans (hpath.trans hfpath.symm))
      exact hchanged
    have hlast : lastTime (albumsOf hostLower lower before) (rowKey lower b.tags) ≠
        lastTime (albumsOf hostLower lower after) (rowKey lower b.tags) := by
      rw [htime, htime']
      exact hmoved
    exact ⟨fun h => hlast (by rw [hapart.seen h]), hlast⟩
  · intro hsame hnoticed
    exact hnoticed.2 (by rw [htime, htime', hsame])

end

/-! ## Three edits -/

/-- The cache that has stored the stamps of a library and read all its files. -/
def cached (library : HostLibrary) : MetadataCache :=
  let albums := albumsOf String.toLower String.toLower library
  { MetadataCache.initial.storeAlbumStamps albums with
    validated := true
    schema := some tagsSchemaVersion
    fingerprint := some (fingerprint albums).toNat
    tags := library.files.foldl (fun table f => table.insert f.path f.tags) .empty }

theorem stored_cached (library : HostLibrary) :
    Stored String.toLower String.toLower (cached library) library where
  schema := rfl
  fingerprint := rfl
  stamps := rfl
  rows path row hrow := by
    change (library.files.foldl (fun table f => table.insert f.path f.tags)
      Table.empty).get? path = some row at hrow
    by_cases hpath : path ∈ library.files.map File.path
    · obtain ⟨f, hf, hfpath, hget⟩ :=
        Table.get?_foldl_insert_of_key File.path File.tags hpath Table.empty
      exact ⟨f, hf, hfpath, Option.some.inj (hget.symm.trans hrow)⟩
    · rw [Table.get?_foldl_insert File.path File.tags hpath, Table.get?_empty] at hrow
      cases hrow

theorem get?_cached {library : HostLibrary} {f : File} (hf : f ∈ library.files) :
    (cached library).tags.get? f.path = some f.tags :=
  Table.get?_foldl_insert_of_mem File.path File.tags library.nodup hf Table.empty

/-- A file that changed and is not noticed. -/
theorem not_forgets_cached {before after : HostLibrary} {f g : File} (hf : f ∈ before.files)
    (hg : g ∈ after.files) (hpath : g.path = f.path) (hchanged : g.tags ≠ f.tags)
    (hnot : ¬ Noticed (albumsOf String.toLower String.toLower before)
      (albumsOf String.toLower String.toLower after) (rowKey String.toLower f.tags)) :
    ¬ Forgets String.toLower String.toLower (cached before) before after := by
  intro hforgets
  have htold := toldApart_of_forgets (stored_cached before) hforgets
  exact hnot ((htold f.path f.tags (get?_cached hf)).1 ⟨g, hg, hpath, hchanged⟩)

/-- A file of an album, by its title. -/
def file (path artist albumArtist album title : String) (modified : Int) : File :=
  { path, modified, tags := { src := path, artist, albumArtist, album, title } }

/-- One file without an album artist. -/
def single (title : String) (modified : Int) : HostLibrary :=
  { files := [file "a" "x" "" "one" title modified], nodup := by simp [file] }

/-- Two files of an album, the first of which may be in another. -/
def pair (album : String) (modified : Int) : HostLibrary :=
  { files := [file "a" "x" "x" album "a" modified, file "b" "x" "x" "one" "b" 2]
    nodup := by simp [file] }

/-- Two albums of one file. -/
def shelf (title : String) (modified : Int) : HostLibrary :=
  { files := [file "a" "x" "x" "a" title modified, file "b" "y" "y" "a" title modified]
    nodup := by simp [file] }

instance (albums albums' : List (String × Int)) (key : String) :
    Decidable (Noticed albums albums' key) := by
  unfold Noticed
  infer_instance

instance (before after : HostLibrary) : Decidable (TimesMove String.toLower before after) := by
  unfold TimesMove
  infer_instance

/-- With all files read it is enough to look at the files. -/
theorem toldApart_cached {before after : HostLibrary}
    (h : ∀ f ∈ before.files,
      ((∃ g ∈ after.files, g.path = f.path ∧ g.tags ≠ f.tags) →
        Noticed (albumsOf String.toLower String.toLower before)
          (albumsOf String.toLower String.toLower after) (rowKey String.toLower f.tags)) ∧
      (albumTime String.toLower before f.tags = albumTime String.toLower after f.tags →
        ¬ Noticed (albumsOf String.toLower String.toLower before)
          (albumsOf String.toLower String.toLower after) (rowKey String.toLower f.tags))) :
    ToldApart String.toLower String.toLower (cached before) before after := by
  intro path row hrow
  obtain ⟨f, hf, rfl, rfl⟩ := (stored_cached before).rows path row hrow
  exact h f hf

/-- The newest file of an album is moved to another. -/
theorem forgets_iff_pair :
    Forgets String.toLower String.toLower (cached (pair "one" 5)) (pair "one" 5) (pair "two" 6) :=
  (forgets_iff (stored_cached (pair "one" 5))).mpr (toldApart_cached (by decide +kernel))

/-- **Rows left behind**: of a file without an album artist that is edited, of a file that is moved
to another album by its edit, and of two albums whose files are edited at the same time. -/
theorem rows_left_behind :
    (TimesMove String.toLower (single "old" 1) (single "new" 2) ∧
      ¬ Forgets String.toLower String.toLower (cached (single "old" 1)) (single "old" 1)
        (single "new" 2)) ∧
    ¬ Forgets String.toLower String.toLower (cached (pair "one" 1)) (pair "one" 1)
      (pair "two" 3) ∧
    TimesMove String.toLower (shelf "old" 1) (shelf "new" 2) ∧
      ¬ Forgets String.toLower String.toLower (cached (shelf "old" 1)) (shelf "old" 1)
        (shelf "new" 2) := by
  refine ⟨⟨by decide +kernel, ?_⟩, ?_, by decide +kernel, ?_⟩
  · exact not_forgets_cached (.head _) (.head _) rfl (by decide) (by decide +kernel)
  · exact not_forgets_cached (.head _) (.head _) rfl (by decide) (by decide +kernel)
  · exact not_forgets_cached (.head _) (.head _) rfl (by decide) (by decide +kernel)

end Mbrc.AlbumStamps
