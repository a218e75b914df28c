import MbrcPlugin.Lib.Transition
import MbrcPlugin.WebApp.PlaylistStore

/-!
# A playlist edit hits the slots that were shown

Reads of any playlists, page turns, searches, picks and edits come in any order, and so do the
answers and the changes of the playlists by other hands.  A page that is read from the start brings
its playlist and its version with it; a page that is appended brings them to rows that were read
before.  `edits_hit` says when the rows, the picks and the accepted edits are still of one content.
-/

namespace Mbrc.WebApp.Playlist

open Providers Flight

namespace Editing

def system : Transition.System Editing Event where
  start w := ∃ playlists, w = { playlists }
  next := step

/-! ## What an edit hits -/

end Editing

/-- The places an edit names. -/
def Op.orders : Op → List Nat
  | .remove orders => orders
  | .move order _ => [order]

namespace Editing

/-- The rows are the rows at their places in the playlist, in one content of that version. -/
def Shows (w : Editing) (url version : String) (rows : List Row) : Prop :=
  ∃ paths, (url, paths) ∈ w.served ∧ CommandsV6.versionOf paths = version ∧
    ∀ row ∈ rows, paths[row.order]? = some row.path

def Held (w : Editing) (url version : String) (rows : List Row) : Prop :=
  rows ≠ [] → w.Shows url version rows

/-- The rows on screen are of one content, and an accepted edit was made to what was picked. -/
structure Hits (w : Editing) : Prop where
  rows : w.Held w.store.url w.store.version w.store.tracks
  picks : ∀ a ∈ w.accepted, ∀ p ∈ a.edit.picks,
    p.url = a.edit.url ∧ a.before[p.row.order]? = some p.row.path
  orders : ∀ a ∈ w.accepted, a.edit.op.orders = a.edit.picks.map (·.row.order)

/-- No other content that was served has the version of this one. -/
def Distinct (w : Editing) (paths : List String) : Prop :=
  ∀ s ∈ w.served, CommandsV6.versionOf s.2 = CommandsV6.versionOf paths → s.2 = paths

instance (w : Editing) (paths : List String) : Decidable (w.Distinct paths) := by
  unfold Distinct
  infer_instance

/-- A page is appended to rows of its own version, and a page of another playlist does not come
with the version of the rows that are picked. -/
def Agrees (w : Editing) (r : Read) (page : Page) : Prop :=
  (r.append → w.store.tracks = [] ∨ page.version = w.store.version) ∧
    (w.selection.picked = [] ∨ r.url = w.store.url ∨ page.version ≠ w.store.version)

instance (w : Editing) (r : Read) (page : Page) : Decidable (w.Agrees r page) := by
  unfold Agrees
  infer_instance

/-- The pages that land agree with what is held, and versions tell contents apart. -/
def OneContent (w : Editing) : Event → Prop
  | .answerRead i _ => ∀ r ∈ w.reads[i]?, w.Distinct (w.playlists r.asked.url).paths
  | .answerEdit i => ∀ r ∈ w.edits[i]?, w.Distinct (w.playlists r.asked.url).paths
  | .landRead i => ∀ r ∈ w.reads[i]?, ∀ page ∈ r.answer, w.Agrees r.asked page
  | _ => True

instance (w : Editing) (e : Event) : Decidable (w.OneContent e) := by
  unfold OneContent
  split <;> infer_instance

/-! ## Rows of one content -/

variable {w : Editing}

theorem mem_rowsOf {paths : List String} {row : Row} (h : row ∈ rowsOf paths) :
    paths[row.order]? = some row.path := by
  obtain ⟨⟨path, order⟩, hp, rfl⟩ := List.mem_map.mp h
  exact List.mem_zipIdx_iff_getElem?.mp hp

/-- A window holds rows of the playlist, each with its place. -/
theorem mem_tracks {paths : List String} {r : Read} {matching : List Nat} {row : Row}
    (h : row ∈ (tracks paths r matching).rows) : paths[row.order]? = some row.path := by
  have hrow := List.mem_of_mem_drop (List.mem_of_mem_take h)
  split at hrow
  · exact mem_rowsOf hrow
  · exact mem_rowsOf (List.mem_filter.mp hrow).1

theorem versionOf_ne_empty (paths : List String) : CommandsV6.versionOf paths ≠ "" := by
  intro h
  have hchars := congrArg String.toList h
  simp only [CommandsV6.versionOf, String.toList_ofList, String.toList_empty,
    List.append_eq_nil_iff, List.replicate_eq_nil_iff] at hchars
  rw [hchars.2, List.length_nil] at hchars
  omega

theorem Held.nil (w : Editing) (url version : String) : w.Held url version [] :=
  fun h => absurd rfl h

theorem Held.subset {url version : String} {rows rows' : List Row} (h : w.Held url version rows)
    (hsub : ∀ row ∈ rows', row ∈ rows) : w.Held url version rows' := by
  intro hne
  obtain ⟨row, hrow⟩ := List.exists_mem_of_ne_nil _ hne
  obtain ⟨paths, hserved, hversion, hall⟩ := h (List.ne_nil_of_mem (hsub row hrow))
  exact ⟨paths, hserved, hversion, fun row hrow => hall row (hsub row hrow)⟩

/-- Rows of one version are of one content. -/
theorem Held.append {url url' version : String} {rows rows' : List Row}
    (hdistinct : ∀ s ∈ w.served, ∀ t ∈ w.served,
      CommandsV6.versionOf s.2 = CommandsV6.versionOf t.2 → s.2 = t.2)
    (h : w.Held url version rows) (h' : w.Shows url' version rows') :
    w.Shows url' version (rows ++ rows') := by
  obtain ⟨paths', hserved', hversion', hall'⟩ := h'
  refine ⟨paths', hserved', hversion', fun row hrow => ?_⟩
  rcases List.mem_append.mp hrow with hrow | hrow
  · obtain ⟨paths, hserved, hversion, hall⟩ := h (List.ne_nil_of_mem hrow)
    have hpaths : paths = paths' :=
      hdistinct _ hserved _ hserved' (hversion.trans hversion'.symm)
    exact hpaths ▸ hall row hrow
  · exact hall' row hrow

/-! ## Picks -/

theorem mem_add {s : Selection} {url : String} {row : Row} {p : Pick}
    (h : p ∈ (s.add url row).picked) : p ∈ s.picked ∨ p = { url, row } := by
  unfold Selection.add at h
  split at h
  · exact .inl h
  · simpa using h

theorem mem_addAll {s : Selection} {url : String} {rows : List Row} {p : Pick}
    (h : p ∈ (s.addAll url rows).picked) : p ∈ s.picked ∨ p.url = url ∧ p.row ∈ rows := by
  unfold Selection.addAll at h
  induction rows generalizing s with
  | nil => exact .inl h
  | cons row rows ih =>
    rcases ih h with h | ⟨hurl, hrow⟩
    · rcases mem_add h with h | rfl
      · exact .inl h
      · exact .inr ⟨rfl, List.mem_cons_self⟩
    · exact .inr ⟨hurl, List.mem_cons_of_mem _ hrow⟩

/-- What is picked by a click was picked before, or is a row on screen. -/
theorem mem_toggle {s : Selection} {store : Store} {row : Row} {extend : Bool} {p : Pick}
    (hrow : row ∈ store.tracks) (h : p ∈ (s.toggle store row extend).picked) :
    p ∈ s.picked ∨ p.url = store.url ∧ p.row ∈ store.tracks := by
  unfold Selection.toggle at h
  dsimp only at h
  split at h
  · rcases mem_addAll h with h | ⟨hurl, hin⟩
    · exact .inl h
    · exact .inr ⟨hurl, List.mem_of_mem_take (List.mem_of_mem_drop hin)⟩
  · split at h
    · exact .inl (List.mem_filter.mp h).1
    · rcases mem_add h with h | rfl
      · exact .inl h
      · exact .inr ⟨rfl, hrow⟩

theorem mem_selectAll {s : Selection} {store : Store} {p : Pick}
    (h : p ∈ (s.selectAll store).picked) : p.url = store.url ∧ p.row ∈ store.tracks :=
  (mem_addAll h).resolve_left (fun h => nomatch h)

/-! ## Whole runs -/

/-- Picks of a playlist at a version. -/
def Picked (w : Editing) (url version : String) (picks : List Pick) : Prop :=
  (∀ p ∈ picks, p.url = url) ∧ w.Held url version (picks.map (·.row))

structure Inv (w : Editing) : Prop where
  distinct : ∀ s ∈ w.served, ∀ t ∈ w.served,
    CommandsV6.versionOf s.2 = CommandsV6.versionOf t.2 → s.2 = t.2
  rows : w.Held w.store.url w.store.version w.store.tracks
  pages : ∀ r ∈ w.reads, ∀ page, r.answer = some page → w.Shows r.asked.url page.version page.rows
  picked : w.Picked w.store.url w.store.version w.selection.picked
  edits : ∀ r ∈ w.edits, w.Picked r.asked.url r.asked.version r.asked.picks ∧
    r.asked.op.orders = r.asked.picks.map (·.row.order)
  accepted : ∀ a ∈ w.accepted, a.edit.op.orders = a.edit.picks.map (·.row.order) ∧
    ∀ p ∈ a.edit.picks, p.url = a.edit.url ∧ a.before[p.row.order]? = some p.row.path

namespace Inv

theorem start (h : system.start w) : Inv w := by
  obtain ⟨playlists, rfl⟩ := h
  constructor <;> simp [Picked, Held.nil]

/-- A read is sent. -/
theorem ask (h : Inv w) (r : Read) : Inv (w.ask r) :=
  { h with pages := forall_send h.pages nofun }

theorem loadAll (h : Inv w) : Inv w.loadAll := by
  unfold Editing.loadAll
  split
  · exact h
  · exact h.ask _

theorem reload (h : Inv w) : Inv w.reload := by
  unfold Editing.reload
  split
  · exact h
  · exact h.ask _

/-- The rows or the search change; the picks are kept only with the version and the search. -/
theorem watch (h : Inv w) {store : Store} (hrows : w.Held store.url store.version store.tracks)
    (hpicked : store.version = w.store.version → w.selection.picked = [] ∨
      store.url = w.store.url) : Inv (w.watch store) := by
  refine { h with rows := hrows, picked := ?_ }
  show w.Picked store.url store.version (ite _ w.selection {}).picked
  split
  case isFalse => exact ⟨nofun, Held.nil w _ _⟩
  case isTrue hsame =>
    rw [hsame.1]
    rcases hpicked hsame.1 with hnil | hurl
    · rw [hnil]
      exact ⟨nofun, Held.nil w _ _⟩
    · rw [hurl]
      exact h.picked

/-- A page lands that agrees with what is held. -/
theorem landRead (h : Inv w) {r : Read} {page : Page}
    (hpage : w.Shows r.url page.version page.rows) (hagrees : w.Agrees r page) :
    Inv (w.landRead r page) := by
  have hland : Inv (w.watch (w.store.landed r page)) := by
    refine h.watch ?_ fun hsame => ?_
    · unfold Store.landed
      dsimp only
      split
      case isFalse => exact fun _ => hpage
      case isTrue happend =>
        intro _
        rcases hagrees.1 happend with hnil | hversion
        · rw [hnil]
          exact hpage
        · rw [hversion] at hpage ⊢
          exact Held.append h.distinct h.rows hpage
    · rcases hagrees.2 with hnil | hurl | hne
      · exact .inl hnil
      · exact .inr hurl
      · exact absurd hsame hne
  unfold Editing.landRead
  dsimp only
  split
  · exact hland
  · split
    · exact hland
    · exact hland.loadAll

/-- A read is answered from the playlist as it is. -/
theorem serve (h : Inv w) {i : Nat} {r : Request Read Page} (hr : w.reads[i]? = some r)
    (hdistinct : w.Distinct (w.playlists r.asked.url).paths) (matching : List Nat) :
    Inv { w with
      reads := answerAt w.reads i
        (tracks (w.playlists r.asked.url).paths r.asked matching)
      served := (r.asked.url, (w.playlists r.asked.url).paths) :: w.served } := by
  have hmono {url version : String} {rows : List Row} (hshows : w.Shows url version rows) :
      ∃ paths, (url, paths) ∈ (r.asked.url, (w.playlists r.asked.url).paths) :: w.served ∧
        CommandsV6.versionOf paths = version ∧ ∀ row ∈ rows, paths[row.order]? = some row.path := by
    obtain ⟨paths, hserved, hrest⟩ := hshows
    exact ⟨paths, List.mem_cons_of_mem _ hserved, hrest⟩
  refine {
    distinct := fun s hs t ht hversion => ?_
    rows := fun hne => hmono (h.rows hne)
    pages := forall_answerAt (fun q hq page hpage => hmono (h.pages q hq page hpage))
      fun q hq page hpage => ?_
    picked := ⟨h.picked.1, fun hne => hmono (h.picked.2 hne)⟩
    edits := fun q hq => ⟨⟨(h.edits q hq).1.1, fun hne => hmono ((h.edits q hq).1.2 hne)⟩,
      (h.edits q hq).2⟩
    accepted := h.accepted }
  · rcases List.mem_cons.mp hs with rfl | hs <;> rcases List.mem_cons.mp ht with rfl | ht
    · rfl
    · exact (hdistinct t ht hversion.symm).symm
    · exact hdistinct s hs hversion
    · exact h.distinct s hs t ht hversion
  · obtain rfl : r = q := Option.some.inj (hr.symm.trans hq)
    obtain rfl := Option.some.inj hpage
    exact ⟨_, List.mem_cons_self, rfl, fun row hrow => mem_tracks hrow⟩

theorem sendEdit (h : Inv w) {op : Op} {picks : List Pick}
    (hpicks : w.Picked w.store.url w.store.version picks)
    (horders : op.orders = picks.map (·.row.order)) : Inv (w.sendEdit op picks) :=
  { h with edits := forall_send h.edits ⟨hpicks, horders⟩ }

theorem write (h : Inv w) (url : String) (paths : List String) : Inv (w.write url paths) :=
  { h with }

/-- The playlists are not part of what is held. -/
theorem answerEdit (h : Inv w) {i : Nat} {r : Request Edit Bool} (hr : w.edits[i]? = some r)
    (hdistinct : w.Distinct (w.playlists r.asked.url).paths) : Inv (w.answerEdit i r.asked) := by
  obtain ⟨hpicks, horders⟩ := h.edits r (List.mem_of_getElem? hr)
  have hanswered (a : Bool) : ∀ q ∈ answerAt w.edits i a,
      w.Picked q.asked.url q.asked.version q.asked.picks ∧
        q.asked.op.orders = q.asked.picks.map (·.row.order) :=
    forall_answerAt h.edits fun q hq => h.edits q (List.mem_of_getElem? hq)
  unfold Editing.answerEdit
  split
  case h_2 => exact { h with edits := hanswered false }
  case h_1 paths hedited =>
    refine { h.write r.asked.url paths with edits := hanswered true, accepted := fun a ha => ?_ }
    rcases List.mem_cons.mp ha with rfl | ha
    · refine ⟨horders, fun p hp => ⟨hpicks.1 p hp, ?_⟩⟩
      unfold edited at hedited
      split at hedited
      case isFalse => cases hedited
      case isTrue hcheck =>
        -- the content the edit was checked against is the one the picks were read from
        have hrow : p.row ∈ r.asked.picks.map (·.row) := List.mem_map_of_mem hp
        obtain ⟨shown, hserved, hversion, hall⟩ := hpicks.2 (List.ne_nil_of_mem hrow)
        have hsame : shown = (w.playlists r.asked.url).paths :=
          hdistinct _ hserved (hversion.trans hcheck.2)
        exact hsame ▸ hall p.row hrow
    · exact h.accepted a ha

/-- **One event.** -/
theorem step {w' : Editing} {e : Event} (h : Inv w) (hone : w.OneContent e)
    (hs : w.step e = some w') : Inv w' := by
  cases e with
  | load url append =>
    obtain rfl := Option.some.inj hs
    exact h.ask _
  | loadAll =>
    obtain rfl := Option.some.inj hs
    exact h.loadAll
  | search url term =>
    obtain rfl := Option.some.inj hs
    have hsearch : Inv (w.watch { w.store with query := term }) :=
      h.watch h.rows fun _ => .inr rfl
    exact hsearch.ask _
  | close =>
    obtain rfl := Option.some.inj hs
    refine h.watch (Held.nil w _ _) fun hsame => .inl ?_
    -- a version that was read is not the empty one
    by_contra hne
    obtain ⟨paths, -, hversion, -⟩ := h.picked.2 (by simpa using hne)
    exact versionOf_ne_empty paths (hversion.trans hsame.symm)
  | toggle i extend =>
    obtain ⟨row, hrow, rfl⟩ := Option.map_eq_some_iff.mp hs
    refine { h with picked := ⟨fun p hp => ?_, ?_⟩ }
    · rcases mem_toggle (List.mem_of_getElem? hrow) hp with hp | hp
      · exact h.picked.1 p hp
      · exact hp.1
    · have hboth : w.Held w.store.url w.store.version
          (w.selection.picked.map (·.row) ++ w.store.tracks) := fun _ =>
        Held.append h.distinct h.picked.2
          (h.rows (List.ne_nil_of_mem (List.mem_of_getElem? hrow)))
      refine hboth.subset fun r hr => ?_
      obtain ⟨p, hp, rfl⟩ := List.mem_map.mp hr
      rcases mem_toggle (List.mem_of_getElem? hrow) hp with hp | hp
      · exact List.mem_append_left _ (List.mem_map_of_mem hp)
      · exact List.mem_append_right _ hp.2
  | selectAll =>
    obtain rfl := Option.some.inj hs
    refine { h with picked := ⟨fun p hp => (mem_selectAll hp).1, h.rows.subset fun r hr => ?_⟩ }
    obtain ⟨p, hp, rfl⟩ := List.mem_map.mp hr
    exact (mem_selectAll hp).2
  | stopSelection =>
    obtain rfl := Option.some.inj hs
    exact { h with picked := ⟨nofun, Held.nil w _ _⟩ }
  | remove =>
    obtain rfl := Option.some.inj hs
    have hsent : Inv (w.sendEdit (.remove w.selection.orders) w.selection.picked) :=
      h.sendEdit h.picked rfl
    exact { hsent with picked := ⟨nofun, Held.nil w _ _⟩ }
  | move i j =>
    simp only [Editing.step] at hs
    split at hs
    case h_2 => cases hs
    case h_1 moved target hmoved htarget =>
      obtain rfl := Option.some.inj hs
      refine h.sendEdit ⟨by simp, h.rows.subset fun row hrow => ?_⟩ rfl
      obtain rfl : row = moved := by simpa using hrow
      exact List.mem_of_getElem? hmoved
  | addTo url paths =>
    obtain rfl := Option.some.inj hs
    exact { h with }
  | change url files =>
    obtain rfl := Option.some.inj hs
    exact { h with }
  | answerRead i matching =>
    simp only [Editing.step] at hs
    split at hs
    case h_2 => cases hs
    case h_1 asked hr =>
      obtain rfl := Option.some.inj hs
      exact h.serve hr (hone _ hr) matching
  | answerEdit i =>
    simp only [Editing.step] at hs
    split at hs
    case h_2 => cases hs
    case h_1 asked hr =>
      obtain rfl := Option.some.inj hs
      exact h.answerEdit hr (hone _ hr)
  | answerAdd i =>
    simp only [Editing.step] at hs
    split at hs
    case h_2 => cases hs
    case h_1 asked hr =>
      obtain rfl := Option.some.inj hs
      unfold Editing.answerAdd
      split <;> exact { h with }
  | landRead i =>
    simp only [Editing.step] at hs
    split at hs
    case h_2 => cases hs
    case h_1 asked page hr =>
      obtain rfl := Option.some.inj hs
      have hrest : Inv { w with reads := w.reads.eraseIdx i } :=
        { h with pages := forall_eraseIdx i h.pages }
      exact hrest.landRead (h.pages _ (List.mem_of_getElem? hr) page rfl) (hone _ hr page rfl)
  | failRead i =>
    simp only [Editing.step] at hs
    split at hs
    case isFalse => cases hs
    case isTrue =>
      obtain rfl := Option.some.inj hs
      exact { h with pages := forall_eraseIdx i h.pages }
  | landEdit i =>
    simp only [Editing.step] at hs
    split at hs
    case isFalse => cases hs
    case isTrue =>
      obtain rfl := Option.some.inj hs
      have hrest : Inv { w with edits := w.edits.eraseIdx i } :=
        { h with edits := forall_eraseIdx i h.edits }
      exact hrest.reload
  | landAdd i =>
    obtain ⟨a, -, rfl⟩ := Option.map_eq_some_iff.mp hs
    have hrest : Inv { w with adds := w.adds.eraseIdx i } := { h with }
    dsimp only
    split
    · exact hrest.reload
    · exact hrest

theorem hits (h : Inv w) : Hits w where
  rows := h.rows
  picks a ha := (h.accepted a ha).2
  orders a ha := (h.accepted a ha).1

end Inv

end Editing

/-- **A playlist edit hits the slots that were shown.** -/
theorem edits_hit {w₀ w : Editing} {events : List Editing.Event}
    (hstart : Editing.system.start w₀) (hone : Editing.system.Along Editing.OneContent w₀ events)
    (hrun : Editing.system.exec w₀ events = some w) : w.Hits :=
  (Editing.system.exec_induction (fun _ _ _ h hone hs => h.step hone hs)
    (Editing.Inv.start hstart) hone hrun).hits

/-- Two playlists, the first with these paths. -/
def Editing.opened (paths : List String) : Editing :=
  { playlists := fun url =>
      { name := url, paths := if url = "A" then paths else ["x.mp3"], kind := "M3u" } }

/-- A page is read and another appended, the first row is picked and removed, and the rest read. -/
def Editing.removedRun : List Editing.Event :=
  [.load "A" false, .answerRead 0 [], .landRead 0, .load "A" true, .answerRead 0 [], .landRead 0,
    .toggle 0 false, .remove, .answerEdit 0, .landEdit 0, .answerRead 0 [], .landRead 0]

theorem edits_hit_removed :
    ∃ w, Editing.system.exec (Editing.opened ["a.mp3", "b.mp3"]) Editing.removedRun = some w ∧
      w.Hits ∧ w.store.tracks = [⟨0, "b.mp3"⟩] ∧
      w.accepted.map (·.edit.picks) = [[⟨"A", ⟨0, "a.mp3"⟩⟩]] := by
  have hrun : (Editing.system.exec (Editing.opened ["a.mp3", "b.mp3"]) Editing.removedRun).any
      (fun w => w.store.tracks = [⟨0, "b.mp3"⟩] ∧
        w.accepted.map (·.edit.picks) = [[⟨"A", ⟨0, "a.mp3"⟩⟩]]) = true := by decide +kernel
  have hone : Editing.system.checked (fun w e => decide (w.OneContent e))
      (Editing.opened ["a.mp3", "b.mp3"]) Editing.removedRun = true := by decide +kernel
  obtain ⟨w, hexec, hfacts⟩ := (Option.any_eq_true _ _).mp hrun
  have halong := Editing.system.along_of_checked (fun _ _ h => of_decide_eq_true h) hone
  exact ⟨w, hexec, edits_hit ⟨_, rfl⟩ halong hexec, of_decide_eq_true hfacts⟩

/-- The playlist loses its first track by another hand between its first page and its second; the
first row on screen is picked and removed. -/
def Editing.turnedRun : List Editing.Event :=
  [.load "A" false, .answerRead 0 [], .landRead 0,
    .change "A" { name := "A", paths := List.replicate 200 "a.mp3", kind := "M3u" },
    .load "A" true, .answerRead 0 [], .landRead 0, .toggle 0 false, .remove, .answerEdit 0]

theorem page_turn_removes_other :
    ∃ w, Editing.system.exec (Editing.opened ("b.mp3" :: List.replicate 200 "a.mp3"))
        Editing.turnedRun = some w ∧ ¬ w.Hits ∧
      w.accepted.map (·.edit.picks) = [[⟨"A", ⟨0, "b.mp3"⟩⟩]] ∧
      w.accepted.map (·.before[0]?) = [some "a.mp3"] := by
  have hrun : (Editing.system.exec (Editing.opened ("b.mp3" :: List.replicate 200 "a.mp3"))
      Editing.turnedRun).any (fun w =>
        w.accepted.map (fun a => (a.edit.picks, a.before[0]?)) =
          [([⟨"A", ⟨0, "b.mp3"⟩⟩], some "a.mp3")]) = true := by decide +kernel
  obtain ⟨w, hexec, hfacts⟩ := (Option.any_eq_true _ _).mp hrun
  have hfacts := of_decide_eq_true hfacts
  obtain ⟨a, haccepted, ha⟩ := List.map_eq_singleton_iff.mp hfacts
  obtain ⟨hpicks, hbefore⟩ := Prod.mk.inj ha
  refine ⟨w, hexec, fun h => ?_, by simp [haccepted, hpicks], by simp [haccepted, hbefore]⟩
  have hp := (h.picks a (by simp [haccepted]) ⟨"A", ⟨0, "b.mp3"⟩⟩ (by simp [hpicks])).2
  rw [hbefore] at hp
  exact absurd hp (by decide)

end Mbrc.WebApp.Playlist
