import MbrcPlugin.Lib.Transition
import MbrcPlugin.WebApp.TagsStore

/-!
# The tag editor shows the tags of its own file

Reads, saves, track changes and edits by other hands come in any order, and so do the answers.  A
read brings its path with it, and only the latest lands; the answer of a write is taken among the
values that are held, whatever file they are of.  `shows_own` says when every value, every draft
and every saved list is still of the file it stands under.
-/

namespace Mbrc.WebApp.Tags

open Flight Text

/-- The file has had the value in its tags. -/
def Player.Held (s : Player) (path : Path) (key : Key) (value : TagValue) : Prop :=
  ∃ tags ∈ s.versions path, tags key = some value

/-- The texts of a value. -/
def TagValue.parts : TagValue → List String
  | .text t => [t]
  | .items list => list

namespace World

def system : Transition.System World Event where
  start w := ∃ player, w = { player }
  next := step

/-- Nothing, something typed into the field, or a part of a value that the file has had there. -/
def Own (w : World) (path : Path) (key : Key) (part : String) : Prop :=
  part = "" ∨ (∃ raw, (key, raw) ∈ w.typed ∧ (part = raw ∨ part = trim raw)) ∨
    ∃ value, w.player.Held path key value ∧ part ∈ value.parts

/-- Values, drafts and saves are of the file they stand under. -/
structure ShowsOwn (w : World) : Prop where
  values : ∀ path, w.store.path = some path → ∀ key value, w.store.values key = some value →
    w.player.Held path key value
  drafts : ∀ path, w.store.path = some path → ∀ key text, w.editor.drafts key = some text →
    w.Own path key text
  saves : ∀ s ∈ w.saves, ∀ part ∈ s.value.parts, w.Own s.path s.key part

/-- A write is answered while its own file is held. -/
def InPlace (w : World) : Event → Prop
  | .land i =>
    match w.flight[i]? with
    | some { asked := .write path _ _ _, answer := some (.written _) } =>
      w.store.path = none ∨ w.store.path = some path
    | _ => True
  | _ => True

instance (w : World) (e : Event) : Decidable (w.InPlace e) := by
  unfold InPlace
  split
  · split <;> infer_instance
  · infer_instance

end World

/-! ## What the player tells -/

/-- An answer that tells what the file has had. -/
def Player.Honest (s : Player) (r : Request Ask Reply) : Prop :=
  match r with
  | { answer := some (.tags (some path) tags), .. } =>
    ∀ key value, tags key = some value → s.Held path key value
  | { asked := .write path key _ _, answer := some (.written value) } => s.Held path key value
  | _ => True

/-- What every file has had, it still has had. -/
def Player.Extends (s' s : Player) : Prop :=
  ∀ path, ∀ tags ∈ s.versions path, tags ∈ s'.versions path

namespace Player

variable {s s' : Player} {path : Path} {key : Key} {value : TagValue}

theorem Extends.refl (s : Player) : s.Extends s := fun _ _ h => h

theorem Held.mono (h : s.Held path key value) (hs : s'.Extends s) : s'.Held path key value := by
  obtain ⟨tags, hmem, hvalue⟩ := h
  exact ⟨tags, hs path tags hmem, hvalue⟩

theorem edit_extends (s : Player) (path : Path) (tags : Values) : (s.edit path tags).Extends s := by
  intro path' tags' h
  by_cases hp : path' = path
  · subst hp
    simpa [edit] using .inr h
  · simpa [edit, hp] using h

/-- The present tags are among those the file has had. -/
theorem held_tags (h : s.tags path key = some value) : s.Held path key value := by
  unfold tags at h
  cases hv : s.versions path with
  | nil =>
    rw [hv] at h
    cases h
  | cons tags rest =>
    rw [hv] at h
    refine ⟨tags, ?_, h⟩
    rw [hv]
    exact List.mem_cons_self

theorem held_edit {tags : Values} (h : tags key = some value) :
    (s.edit path tags).Held path key value :=
  ⟨tags, by simp [edit], h⟩

theorem Honest.mono {r : Request Ask Reply} (h : s.Honest r) (hs : s'.Extends s) :
    s'.Honest r := by
  unfold Honest at h ⊢
  split
  · exact fun key value hv => (h key value hv).mono hs
  · exact h.mono hs
  · trivial

/-- An answer is honest, and nothing is forgotten with it. -/
theorem honest_answer {ask : Ask} {deed : Deed} {reply : Reply}
    (h : s.answer ask deed = some (s', reply)) :
    s'.Extends s ∧ s'.Honest { asked := ask, answer := some reply } := by
  unfold answer at h
  split at h
  · obtain ⟨rfl, rfl⟩ := Prod.mk.inj (Option.some.inj h)
    exact ⟨.refl _, trivial⟩
  · obtain ⟨rfl, rfl⟩ := Prod.mk.inj (Option.some.inj h)
    refine ⟨.refl _, ?_⟩
    unfold read
    split
    · trivial
    · exact fun key value hv => held_tags hv
  · split at h
    · obtain ⟨rfl, rfl⟩ := Prod.mk.inj (Option.some.inj h)
      exact ⟨.refl _, trivial⟩
    · obtain ⟨rfl, rfl⟩ := Prod.mk.inj (Option.some.inj h)
      exact ⟨edit_extends _ _ _, held_edit (by simp)⟩
  · obtain ⟨rfl, rfl⟩ := Prod.mk.inj (Option.some.inj h)
    exact ⟨.refl _, trivial⟩
  · cases h

end Player

/-! ## Texts of values -/

theorem text_mem_parts (value : TagValue) :
    text (some value) = "" ∨ text (some value) ∈ value.parts := by
  cases value with
  | text t => exact .inr (List.mem_singleton.mpr rfl)
  | items list => exact .inl rfl

theorem mem_items {value : Option TagValue} {item : String} (h : item ∈ items value) :
    ∃ v, value = some v ∧ item ∈ v.parts := by
  unfold items at h
  split at h
  · exact ⟨_, rfl, h⟩
  · cases h

/-- A draft is kept, or follows a value. -/
theorem followStoredValues_eq {drafts : Key → Option String} {values before : Values} {key : Key}
    {t : String} (h : followStoredValues drafts values before key = some t) :
    drafts key = some t ∨ ∃ value, values key = some value ∧ t = text (some value) := by
  unfold followStoredValues at h
  split at h
  · exact .inl h
  · rename_i value hvalue
    split at h
    · exact .inr ⟨value, hvalue, (Option.some.inj h).symm⟩
    · exact .inl h

theorem draftsOf_eq {values : Values} {key : Key} {t : String} (h : draftsOf values key = some t) :
    ∃ value, values key = some value ∧ t = text (some value) := by
  obtain ⟨value, hvalue, rfl⟩ := Option.map_eq_some_iff.mp h
  exact ⟨value, hvalue, rfl⟩

/-! ## Whole runs -/

namespace World

structure Inv (w : World) : Prop where
  own : w.ShowsOwn
  honest : ∀ r ∈ w.flight, w.player.Honest r
  adding : ∀ key raw, w.editor.adding key = some raw → raw = "" ∨ (key, raw) ∈ w.typed

variable {w w' : World} {path : Path} {key : Key} {part : String}

theorem Own.mono (h : w.Own path key part) (hplayer : w'.player.Extends w.player)
    (htyped : ∀ t ∈ w.typed, t ∈ w'.typed) : w'.Own path key part := by
  rcases h with h | ⟨raw, hraw, hpart⟩ | ⟨value, hvalue, hpart⟩
  · exact .inl h
  · exact .inr (.inl ⟨raw, htyped _ hraw, hpart⟩)
  · exact .inr (.inr ⟨value, hvalue.mono hplayer, hpart⟩)

/-- The text of a value that the file has had. -/
theorem own_text {value : TagValue} (h : w.player.Held path key value) :
    w.Own path key (text (some value)) := by
  rcases text_mem_parts value with hempty | hmem
  · exact .inl hempty
  · exact .inr (.inr ⟨value, h, hmem⟩)

namespace Inv

theorem start (h : system.start w) : Inv w := by
  obtain ⟨player, rfl⟩ := h
  exact ⟨⟨by simp, by simp, by simp⟩, by simp, by simp⟩

/-- The player goes on. -/
theorem extend (h : Inv w) (player : Player) (hp : player.Extends w.player) :
    Inv { w with player } where
  own :=
    { values := fun path hpath key value hv => (h.own.values path hpath key value hv).mono hp
      drafts := fun path hpath key t ht =>
        (h.own.drafts path hpath key t ht).mono hp fun _ hmem => hmem
      saves := fun s hs part hpart => (h.own.saves s hs part hpart).mono hp fun _ hmem => hmem }
  honest := fun r hr => (h.honest r hr).mono hp
  adding := h.adding

/-- A request that has no answer yet. -/
theorem send (h : Inv w) (ask : Ask) : Inv { w with flight := Flight.send w.flight ask } := by
  refine ⟨⟨h.own.values, h.own.drafts, h.own.saves⟩, forall_send h.honest ?_, h.adding⟩
  cases ask with
  | fields | tags | write => trivial

/-- A store that holds the same values for the same file. -/
theorem store (h : Inv w) (store : Store) (hpath : store.path = w.store.path)
    (hvalues : store.values = w.store.values) : Inv { w with store } := by
  refine ⟨⟨fun path hp key value hv => ?_, fun path hp key t ht => ?_, h.own.saves⟩, h.honest,
    h.adding⟩
  · exact h.own.values path (hpath ▸ hp) key value (hvalues ▸ hv)
  · exact h.own.drafts path (hpath ▸ hp) key t ht

theorem load (h : Inv w) (saving : Bool) : Inv (w.load saving) :=
  (h.store { w.store with latestLoad := w.store.latestLoad + 1 } rfl rfl).send _

theorem reload (h : Inv w) : Inv w.reload :=
  (h.store { w.store with loaded := false } rfl rfl).load false

/-- A save of parts that are the file's own. -/
theorem save (h : Inv w) {value : TagValue} (adding : Bool)
    (hown : ∀ path, w.store.path = some path → ∀ part ∈ value.parts, w.Own path key part) :
    Inv (w.save key value adding) := by
  unfold World.save
  split
  case h_1 => exact h
  case h_2 path hpath =>
    have hsent := (h.store { w.store with saving := some key, refusal := none } rfl
      rfl).send (.write path key value adding)
    refine ⟨⟨hsent.own.values, hsent.own.drafts, ?_⟩, hsent.honest, h.adding⟩
    intro s hs
    rcases List.mem_cons.mp hs with rfl | hs
    · exact hown path hpath
    · exact h.own.saves s hs

/-- Values that the file has had, and drafts that follow them. -/
theorem taken (h : Inv w) (store : Store) {adding : Key → Option String}
    (hheld : ∀ path, store.path = some path → ∀ key value, store.values key = some value →
      w.player.Held path key value)
    (hadding : ∀ key raw, adding key = some raw → raw = "" ∨ (key, raw) ∈ w.typed) :
    Inv { w with
      store, editor := { drafts := (w.editor.watch w.store store).drafts, adding } } where
  own :=
    { values := hheld
      drafts := by
        intro path hpath key t ht
        unfold Editor.watch at ht
        split at ht
        case isTrue hsame =>
          rcases followStoredValues_eq ht with hkept | ⟨value, hvalue, rfl⟩
          · exact h.own.drafts path (hsame ▸ hpath) key t hkept
          · exact own_text (hheld path hpath key value hvalue)
        case isFalse =>
          obtain ⟨value, hvalue, rfl⟩ := draftsOf_eq ht
          exact own_text (hheld path hpath key value hvalue)
      saves := h.own.saves }
  honest := h.honest
  adding := hadding

theorem watch_adding (h : Inv w) (store : Store) (key : Key) (raw : String)
    (hraw : (w.editor.watch w.store store).adding key = some raw) :
    raw = "" ∨ (key, raw) ∈ w.typed := by
  unfold Editor.watch at hraw
  split at hraw
  · exact h.adding key raw hraw
  · cases hraw

theorem unread (h : Inv w) (mine : Nat) (saving : Bool) (fault : Fault) :
    Inv (w.unread mine saving fault) := by
  unfold World.unread
  split
  · exact h.store _ rfl rfl
  · exact h.store _ rfl rfl

/-- An honest answer lands; a written value lands in place. -/
theorem land (h : Inv w) {ask : Ask} {reply : Reply}
    (hhonest : w.player.Honest { asked := ask, answer := some reply })
    (hplace : ∀ path key value adding kept, ask = .write path key value adding →
      reply = .written kept → w.store.path = none ∨ w.store.path = some path)
    (hs : w.land ask reply = some w') : Inv w' := by
  unfold World.land at hs
  split at hs
  case h_1 mine saving listed =>
    split at hs
    · obtain rfl := Option.some.inj hs
      exact (h.store { w.store with fields := listed } rfl rfl).send _
    · obtain rfl := Option.some.inj hs
      exact h.store _ rfl rfl
  case h_2 mine saving path tags =>
    split at hs
    · obtain rfl := Option.some.inj hs
      have hheld (p : Path) (hp : path = some p) (key : Key) (value : TagValue)
          (hv : tags key = some value) : w.player.Held p key value := by
        subst hp
        exact hhonest key value hv
      have htaken := h.taken (w.store.read path tags) hheld
        (h.watch_adding (w.store.read path tags))
      exact htaken.store _ rfl rfl
    · obtain rfl := Option.some.inj hs
      exact h.store _ rfl rfl
  case h_3 path key value adding kept =>
    obtain rfl := Option.some.inj hs
    have hheld (p : Path) (hp : w.store.path = some p) (key' : Key) (v : TagValue)
        (hv : (w.store.keep key kept).values key' = some v) : w.player.Held p key' v := by
      by_cases hkey : key' = key
      · subst hkey
        obtain rfl : kept = v := by simpa [Store.keep] using hv
        rcases hplace path key' value adding kept rfl rfl with hnone | hsame
        · rw [hnone] at hp
          cases hp
        · obtain rfl : path = p := Option.some.inj (hsame.symm.trans hp)
          exact hhonest
      · exact h.own.values p hp key' v (by simpa [Store.keep, hkey] using hv)
    cases adding with
    | false => exact h.taken (w.store.keep key kept) hheld (h.watch_adding _)
    | true =>
      refine h.taken (w.store.keep key kept) hheld fun key' raw hraw => ?_
      by_cases hkey : key' = key
      · subst hkey
        exact .inl (by simpa using hraw.symm)
      · exact h.watch_adding _ key' raw (by simpa [hkey] using hraw)
  case h_4 | h_5 =>
    obtain rfl := Option.some.inj hs
    exact h.unread _ _ _
  case h_6 path key value adding fault =>
    obtain rfl := Option.some.inj hs
    exact (h.store ({ w.store with refusal := some { key, fault } }) rfl rfl).load true
  case h_7 => cases hs

/-- A value that is shown, taken apart. -/
theorem own_item (h : Inv w) (hpath : w.store.path = some path) {item : String}
    (hitem : item ∈ items (w.store.values key)) : w.Own path key item := by
  obtain ⟨value, hvalue, hpart⟩ := mem_items hitem
  exact .inr (.inr ⟨value, h.own.values path hpath key value hvalue, hpart⟩)

theorem own_draft (h : Inv w) (hpath : w.store.path = some path) (key : Key) :
    w.Own path key ((w.editor.drafts key).getD "") := by
  cases hdraft : w.editor.drafts key with
  | none => exact .inl rfl
  | some t => exact h.own.drafts path hpath key t hdraft

theorem own_adding (h : Inv w) (path : Path) (key : Key) :
    w.Own path key (trim ((w.editor.adding key).getD "")) := by
  cases hadding : w.editor.adding key with
  | none => exact .inl (by decide)
  | some raw =>
    rcases h.adding key raw hadding with rfl | hraw
    · exact .inl (by decide)
    · exact .inr (.inl ⟨raw, hraw, .inr rfl⟩)

theorem commitText (h : Inv w) (key : Key) : Inv (w.commitText key) := by
  unfold World.commitText
  extract_lets t
  split
  · exact h
  · refine h.save false fun path hpath part hpart => ?_
    obtain rfl := List.mem_singleton.mp hpart
    exact h.own_draft hpath key

theorem addItem (h : Inv w) (key : Key) : Inv (w.addItem key) := by
  unfold World.addItem
  extract_lets t
  split
  · exact h
  · refine h.save true fun path hpath part hpart => ?_
    rcases List.mem_append.mp hpart with hitem | hnew
    · exact h.own_item hpath hitem
    · obtain rfl := List.mem_singleton.mp hnew
      exact h.own_adding path key

theorem removeItem (h : Inv w) (key : Key) (item : String) : Inv (w.removeItem key item) := by
  refine h.save false fun path hpath part hpart => ?_
  exact h.own_item hpath (List.mem_of_mem_filter hpart)

/-- Something is typed. -/
theorem type (h : Inv w) {editor : Editor} (key : Key) (t : String)
    (hdrafts : ∀ key' t', editor.drafts key' = some t' →
      w.editor.drafts key' = some t' ∨ (key', t') = (key, t))
    (hadding : ∀ key' t', editor.adding key' = some t' →
      w.editor.adding key' = some t' ∨ (key', t') = (key, t)) :
    Inv { w with editor, typed := (key, t) :: w.typed } where
  own :=
    { values := h.own.values
      drafts := by
        intro path hpath key' t' ht
        rcases hdrafts key' t' ht with hkept | hnew
        · exact (h.own.drafts path hpath key' t' hkept).mono (.refl _) fun _ hmem => .tail _ hmem
        · obtain ⟨rfl, rfl⟩ := Prod.mk.inj hnew
          exact .inr (.inl ⟨t', .head _, .inl rfl⟩)
      saves := fun s hs part hpart =>
        (h.own.saves s hs part hpart).mono (.refl _) fun _ hmem => .tail _ hmem }
  honest := h.honest
  adding := by
    intro key' raw hraw
    rcases hadding key' raw hraw with hkept | hnew
    · exact (h.adding key' raw hkept).imp_right (.tail _)
    · exact .inr (hnew ▸ .head _)

theorem updated {f : Key → Option String} {key key' : Key} {t t' : String}
    (h : Function.update f key (some t) key' = some t') :
    f key' = some t' ∨ (key', t') = (key, t) := by
  by_cases hkey : key' = key
  · subst hkey
    simp only [Function.update_self, Option.some.injEq] at h
    exact .inr (by rw [h])
  · exact .inl (by simpa [hkey] using h)

theorem step {e : Event} (h : Inv w) (hin : w.InPlace e) (hs : w.step e = some w') :
    Inv w' := by
  unfold World.step at hs
  cases e with
  | play path =>
    obtain rfl := Option.some.inj hs
    exact h.extend { w.player with playing := path } (.refl _)
  | edit path tags =>
    obtain rfl := Option.some.inj hs
    exact h.extend _ (Player.edit_extends _ _ _)
  | serve i deed =>
    simp only at hs
    split at hs
    case h_1 asked hr =>
      obtain ⟨⟨player, reply⟩, hanswer, rfl⟩ := Option.map_eq_some_iff.mp hs
      obtain ⟨hextends, hhonest⟩ := Player.honest_answer hanswer
      have hext := h.extend player hextends
      refine ⟨⟨hext.own.values, hext.own.drafts, hext.own.saves⟩, ?_, h.adding⟩
      refine forall_answerAt hext.honest fun q hq => ?_
      obtain rfl := Option.some.inj (hr.symm.trans hq)
      exact hhonest
    case h_2 => cases hs
  | land i =>
    simp only at hs
    split at hs
    case h_1 asked reply hr =>
      have hrest : Inv { w with flight := w.flight.eraseIdx i } :=
        ⟨⟨h.own.values, h.own.drafts, h.own.saves⟩, forall_eraseIdx i h.honest, h.adding⟩
      refine hrest.land (h.honest _ (List.mem_of_getElem? hr)) ?_ hs
      rintro path key value adding kept rfl rfl
      simpa only [InPlace, hr] using hin
    case h_2 => cases hs
  | fail i message =>
    simp only at hs
    split at hs
    case h_1 asked answer hr =>
      have hrest : Inv { w with flight := w.flight.eraseIdx i } :=
        ⟨⟨h.own.values, h.own.drafts, h.own.saves⟩, forall_eraseIdx i h.honest, h.adding⟩
      refine hrest.land ?_ (fun path key value adding kept _ hreply => by cases hreply) hs
      cases asked with
      | fields | tags | write => trivial
    case h_2 => cases hs
  | «show» =>
    obtain rfl := Option.some.inj hs
    exact (h.store { w.store with «open» := true, refusal := none } rfl rfl).reload
  | hide =>
    obtain rfl := Option.some.inj hs
    exact h.store _ rfl rfl
  | reload =>
    obtain rfl := Option.some.inj hs
    exact h.reload
  | tagsChanged =>
    obtain rfl := Option.some.inj hs
    split
    · exact h.load false
    · exact h
  | trackChanged =>
    obtain rfl := Option.some.inj hs
    split
    · exact h.reload
    · exact h
  | type key t =>
    simp only at hs
    split at hs
    · obtain rfl := Option.some.inj hs
      exact h.type key t (fun _ _ ht => updated ht) fun _ _ ht => .inl ht
    · cases hs
  | typeItem key t =>
    simp only at hs
    split at hs
    · obtain rfl := Option.some.inj hs
      exact h.type key t (fun _ _ ht => .inl ht) fun _ _ ht => updated ht
    · cases hs
  | commitText key =>
    simp only at hs
    split at hs
    · obtain rfl := Option.some.inj hs
      exact h.commitText key
    · cases hs
  | addItem key =>
    simp only at hs
    split at hs
    · obtain rfl := Option.some.inj hs
      exact h.addItem key
    · cases hs
  | removeItem key item =>
    simp only at hs
    split at hs
    · obtain rfl := Option.some.inj hs
      exact h.removeItem key item
    · cases hs

end Inv

/-- **The editor shows its own file**, in every run whose writes are answered in place. -/
theorem shows_own {w₀ w : World} {events : List Event} (hstart : system.start w₀)
    (hin : system.Along InPlace w₀ events) (hrun : system.exec w₀ events = some w) :
    w.ShowsOwn :=
  (system.exec_induction (fun _ _ _ h hin hs => Inv.step h hin hs) (Inv.start hstart) hin hrun).own

/-! ## Two files -/

def genreOf (genres : List String) : Values := fun key =>
  if key = "genre" then some (.items genres) else none

/-- Two files, each with genres. -/
def twoFiles : World where
  player :=
    { playing := "a.flac"
      versions := fun path =>
        if path = "a.flac" then [genreOf ["Rock", "Live"]]
        else if path = "b.flac" then [genreOf ["Jazz"]] else [] }

def genreField : TagField := { key := "genre", name := "Genre", multiValue := true }

/-- A genre is added, and the track changes. -/
def addRun : List Event :=
  [.show, .serve 0 (.list [genreField]), .land 0, .serve 0 .read, .land 0,
    .typeItem "genre" " Loud ", .addItem "genre",
    .serve 0 (.store (.items ["Rock", "Live", "Loud"])), .land 0, .play "b.flac", .trackChanged,
    .serve 0 .read, .land 0, .removeItem "genre" "Jazz"]

theorem shows_own_added :
    ∃ w, system.exec twoFiles addRun = some w ∧ w.ShowsOwn ∧
      w.store.values "genre" = some (.items ["Jazz"]) ∧
      w.saves = [{ path := "b.flac", key := "genre", value := .items [] },
        { path := "a.flac", key := "genre", value := .items ["Rock", "Live", "Loud"] }] := by
  have hrun : (system.exec twoFiles addRun).any (fun w =>
      w.store.values "genre" = some (.items ["Jazz"]) ∧
      w.saves = [{ path := "b.flac", key := "genre", value := .items [] },
        { path := "a.flac", key := "genre", value := .items ["Rock", "Live", "Loud"] }]) := by
    decide +kernel
  have hin : system.checked (fun w e => decide (w.InPlace e)) twoFiles addRun = true := by
    decide +kernel
  obtain ⟨w, hexec, hend⟩ := (Option.any_eq_true _ _).mp hrun
  have halong := system.along_of_checked (fun _ _ h => of_decide_eq_true h) hin
  exact ⟨w, hexec, shows_own ⟨_, rfl⟩ halong hexec, of_decide_eq_true hend⟩

/-- A read is served while the other file plays, and a save before and after it lands. -/
def lateRun : List Event :=
  [.show, .serve 0 (.list [genreField]), .land 0, .serve 0 .read, .land 0, .tagsChanged,
    .play "b.flac", .serve 0 .read, .play "a.flac", .typeItem "genre" "Loud", .addItem "genre",
    .serve 1 (.store (.items ["Rock", "Live", "Loud"])), .land 0, .land 0, .play "b.flac",
    .removeItem "genre" "Loud"]

/-- The genres of one file are shown for the other, and saved into it. -/
theorem late_write_shows_other :
    ∃ w, system.exec twoFiles lateRun = some w ∧ ¬ w.ShowsOwn ∧
      w.store.path = some "b.flac" ∧
      w.store.values "genre" = some (.items ["Rock", "Live", "Loud"]) ∧
      w.saves.head? = some { path := "b.flac", key := "genre", value := .items ["Rock", "Live"] } ∧
      ∀ tags ∈ w.player.versions "b.flac", tags "genre" = some (.items ["Jazz"]) := by
  have hrun : (system.exec twoFiles lateRun).any (fun w => w.store.path = some "b.flac" ∧
      w.store.values "genre" = some (.items ["Rock", "Live", "Loud"]) ∧
      w.saves.head? = some { path := "b.flac", key := "genre", value := .items ["Rock", "Live"] } ∧
      ∀ tags ∈ w.player.versions "b.flac", tags "genre" = some (.items ["Jazz"])) = true := by
    decide +kernel
  obtain ⟨w, hexec, hend⟩ := (Option.any_eq_true _ _).mp hrun
  obtain ⟨hpath, hvalues, hsave, hfile⟩ := of_decide_eq_true hend
  refine ⟨w, hexec, fun hown => ?_, hpath, hvalues, hsave, hfile⟩
  obtain ⟨tags, hmem, hheld⟩ := hown.values _ hpath _ _ hvalues
  rw [hfile tags hmem] at hheld
  exact absurd (Option.some.inj hheld) (by decide)

end World

end Mbrc.WebApp.Tags
