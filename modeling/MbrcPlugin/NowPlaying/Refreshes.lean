import MbrcPlugin.Lib.Transition
import Mathlib.Logic.Function.Basic

/-!
# Refreshes of the now-playing cache

A refresh asks the host for one field after the other and stores all answers under one lock; a call
that fails leaves what is cached.  Refreshes overlap, and nothing compares an answer with the track
that plays when it is stored.  In a run in which no answer is stored that missed a track change
whose refresh is already through, and no call fails that is the last one due for its field, the
cache ends with the track the host plays (`cache_settles`).

The dates of the answers are there for the statements: no step of the code reads them.
-/

namespace Mbrc.Refreshes

open Transition

/-! ## The cache -/

/-- What changes with the track, in the order it is asked for. -/
inductive Slot where
  | trackInfo | trackDetails | rating | lfm | cover | lyrics
  deriving DecidableEq

def Slot.all : List Slot := [trackInfo, trackDetails, rating, lfm, cover, lyrics]

theorem Slot.mem_all (slot : Slot) : slot ∈ Slot.all := by cases slot <;> decide

/-- An answer of the host: the track it is of, and how many changes there were. -/
structure Reading (Track : Type) where
  track : Track
  date : Nat
  deriving DecidableEq

/-- A call of `refresh_track_bundle`, `refresh_cover` or `refresh_lyrics`. -/
structure Refresh (Track : Type) where
  todo : List Slot
  answers : Slot → Option (Reading Track) := fun _ => none

structure World (Track : Type) where
  playing : Track
  changes : Nat := 0
  /-- Notifications, and the seed of the start, whose refresh is still to begin. -/
  due : Nat := 1
  refreshes : List (Refresh Track) := []
  cache : Slot → Option (Reading Track) := fun _ => none

inductive Event (Track : Type) where
  /-- The host plays another track; its notification follows. -/
  | change (t : Track)
  /-- A refresh that is due begins. -/
  | begin
  /-- A refresh that nobody owes: of the scanner, or for a cold read. -/
  | extra
  /-- `refresh_cover` or `refresh_lyrics`. -/
  | ready (slot : Slot)
  /-- A refresh asks for its next field. -/
  | fetch (i : Nat) (ok : Bool)
  /-- A refresh that has asked for all of them stores its answers. -/
  | store (i : Nat)

section

variable {Track : Type}

namespace World

variable (w : World Track)

/-- What the host answers now. -/
def current : Reading Track := { track := w.playing, date := w.changes }

end World

/-- The answer of the next call. -/
def Refresh.fetch (r : Refresh Track) (slot : Slot) (answer : Option (Reading Track)) :
    Refresh Track :=
  { todo := r.todo.tail, answers := Function.update r.answers slot answer }

def next (w : World Track) : Event Track → Option (World Track)
  | .change t => some { w with playing := t, changes := w.changes + 1, due := w.due + 1 }
  | .begin =>
    if w.due = 0 then none
    else some { w with due := w.due - 1, refreshes := w.refreshes ++ [{ todo := Slot.all }] }
  | .extra => some { w with refreshes := w.refreshes ++ [{ todo := Slot.all }] }
  | .ready slot => some { w with refreshes := w.refreshes ++ [{ todo := [slot] }] }
  | .fetch i ok =>
    match w.refreshes[i]? with
    | none => none
    | some r =>
      match r.todo with
      | [] => none
      | slot :: _ =>
        let answer := if ok then some w.current else none
        some { w with refreshes := w.refreshes.set i (r.fetch slot answer) }
  | .store i =>
    match w.refreshes[i]? with
    | none => none
    | some r =>
      if r.todo = [] then
        some { w with
          refreshes := w.refreshes.eraseIdx i
          cache := fun slot => (r.answers slot).or (w.cache slot) }
      else none

/-- The cache of a host that plays something, nothing cached yet. -/
def system (Track : Type) : System (World Track) (Event Track) where
  start w := ∃ t, w = { playing := t }
  next := next

/-! ## What is promised -/

/-- Nothing is under way. -/
def Quiet (w : World Track) : Prop := w.due = 0 ∧ w.refreshes = []

/-- **What is promised**: with nothing under way, all that is cached is of the track that plays. -/
def Settled (w : World Track) : Prop := Quiet w → ∀ slot, w.cache slot = some w.current

/-! ## When it holds -/

/-- The refresh is still to ask for the field, or has what the host answers now. -/
def Refresh.Brings (r : Refresh Track) (w : World Track) (slot : Slot) : Prop :=
  slot ∈ r.todo ∨ r.answers slot = some w.current

/-- A refresh of the field is due, or another one under way brings it. -/
def Covered (w : World Track) (i : Nat) (slot : Slot) : Prop :=
  w.due ≠ 0 ∨ ∃ r ∈ w.refreshes.eraseIdx i, r.Brings w slot

/-- An answer that missed a change is stored only if a refresh since then is still to store that
field; a call fails only if its field is cached already or another refresh brings it. -/
def Guard (w : World Track) : Event Track → Prop
  | .store i => ∀ r ∈ w.refreshes[i]?, ∀ slot, ∀ answer ∈ r.answers slot,
      answer ≠ w.current → Covered w i slot
  | .fetch i ok => ok = true ∨ ∀ r ∈ w.refreshes[i]?, ∀ slot ∈ r.todo.head?,
      w.cache slot = some w.current ∨ Covered w i slot
  | _ => True

/-! ## Every run -/

/-- The field is cached, or will be. -/
def Kept (w : World Track) (slot : Slot) : Prop :=
  w.cache slot = some w.current ∨ w.due ≠ 0 ∨ ∃ r ∈ w.refreshes, r.Brings w slot

theorem mem_or_eq_of_mem {α : Type} {l : List α} {i : Nat} {a b : α} (hget : l[i]? = some a)
    (hb : b ∈ l) : b = a ∨ b ∈ l.eraseIdx i := by
  obtain ⟨j, hj⟩ := List.mem_iff_getElem?.mp hb
  by_cases hij : j = i
  · subst hij
    exact .inl (Option.some.inj (hj.symm.trans hget))
  · exact .inr (List.mem_eraseIdx_iff_getElem?.mpr ⟨j, hij, hj⟩)

theorem mem_set_of_mem_eraseIdx {α : Type} {l : List α} {i : Nat} {a b : α}
    (hb : b ∈ l.eraseIdx i) : b ∈ l.set i a := by
  obtain ⟨j, hij, hj⟩ := List.mem_eraseIdx_iff_getElem?.mp hb
  exact List.mem_iff_getElem?.mpr ⟨j, by rw [List.getElem?_set_ne (Ne.symm hij), hj]⟩

/-- Where one refresh goes on, the others bring what they brought. -/
theorem kept_of_covered {w w' : World Track} {i : Nat} {slot : Slot}
    (hcovered : Covered w i slot) (hcurrent : w'.current = w.current) (hdue : w'.due = w.due)
    (hothers : ∀ r ∈ w.refreshes.eraseIdx i, r ∈ w'.refreshes) : Kept w' slot := by
  rcases hcovered with hcovered | ⟨r, hr, hbrings⟩
  · exact .inr (.inl (hdue ▸ hcovered))
  · refine .inr (.inr ⟨r, hothers r hr, ?_⟩)
    unfold Refresh.Brings
    rw [hcurrent]
    exact hbrings

/-- One more field of a refresh. -/
theorem kept_fetch {w : World Track} (hkept : ∀ slot, Kept w slot) {i : Nat} {r : Refresh Track}
    (hget : w.refreshes[i]? = some r) {asked : Slot} {rest : List Slot}
    (htodo : r.todo = asked :: rest) {answer : Option (Reading Track)}
    (hanswer : answer = some w.current ∨ w.cache asked = some w.current ∨ Covered w i asked)
    (slot : Slot) : Kept { w with refreshes := w.refreshes.set i (r.fetch asked answer) } slot := by
  have hlt : i < w.refreshes.length := (List.getElem?_eq_some_iff.mp hget).1
  have hmem : r.fetch asked answer ∈ w.refreshes.set i (r.fetch asked answer) :=
    List.mem_set hlt _
  have hcovered {slot : Slot} (h : Covered w i slot) :
      Kept { w with refreshes := w.refreshes.set i (r.fetch asked answer) } slot :=
    kept_of_covered h rfl rfl fun r' => mem_set_of_mem_eraseIdx
  rcases hkept slot with hcache | hdue | ⟨r', hr', hbrings⟩
  · exact .inl hcache
  · exact .inr (.inl hdue)
  · rcases mem_or_eq_of_mem hget hr' with rfl | hother
    · by_cases hslot : slot = asked
      · subst hslot
        rcases hanswer with hanswer | hcache | h
        · exact .inr (.inr ⟨_, hmem, .inr (by simp [Refresh.fetch, hanswer]; rfl)⟩)
        · exact .inl hcache
        · exact hcovered h
      · refine .inr (.inr ⟨_, hmem, hbrings.imp (fun h => ?_) fun h => ?_⟩)
        · rw [htodo] at h
          simpa [Refresh.fetch, htodo] using (List.mem_cons.mp h).resolve_left hslot
        · simp only [Refresh.fetch, Function.update_of_ne hslot]
          exact h
    · exact hcovered (.inr ⟨r', hother, hbrings⟩)

/-- The answers of a refresh are stored. -/
theorem kept_store {w : World Track} (hkept : ∀ slot, Kept w slot) {i : Nat} {r : Refresh Track}
    (hget : w.refreshes[i]? = some r) (htodo : r.todo = [])
    (hguard : ∀ slot, ∀ answer ∈ r.answers slot, answer ≠ w.current → Covered w i slot)
    (slot : Slot) :
    Kept { w with
      refreshes := w.refreshes.eraseIdx i
      cache := fun slot => (r.answers slot).or (w.cache slot) } slot := by
  have hcovered (h : Covered w i slot) :
      Kept { w with
        refreshes := w.refreshes.eraseIdx i
        cache := fun slot => (r.answers slot).or (w.cache slot) } slot :=
    kept_of_covered h rfl rfl fun _ => id
  cases hanswer : r.answers slot with
  | some answer =>
    by_cases hcurrent : answer = w.current
    · exact .inl (by simp only [hanswer, Option.some_or, hcurrent]; rfl)
    · exact hcovered (hguard slot answer hanswer hcurrent)
  | none =>
    rcases hkept slot with hcache | hdue | ⟨r', hr', hbrings⟩
    · exact .inl (by simp only [hanswer, Option.none_or, hcache]; rfl)
    · exact .inr (.inl hdue)
    · rcases mem_or_eq_of_mem hget hr' with rfl | hother
      · rcases hbrings with h | h
        · rw [htodo] at h
          cases h
        · rw [hanswer] at h
          cases h
      · exact hcovered (.inr ⟨r', hother, hbrings⟩)

/-- **One step** keeps every field cached or on its way. -/
theorem kept_step {w w' : World Track} {event : Event Track} (hkept : ∀ slot, Kept w slot)
    (hguard : Guard w event) (hnext : (system Track).next w event = some w') (slot : Slot) :
    Kept w' slot := by
  change next w event = some w' at hnext
  cases event with
  | change t =>
    cases hnext
    exact .inr (.inl (by simp))
  | begin =>
    simp only [next] at hnext
    split at hnext <;> cases hnext
    exact .inr (.inr ⟨_, List.mem_append_right _ List.mem_cons_self, .inl slot.mem_all⟩)
  | extra =>
    cases hnext
    exact .inr (.inr ⟨_, List.mem_append_right _ List.mem_cons_self, .inl slot.mem_all⟩)
  | ready other =>
    cases hnext
    refine (hkept slot).imp_right (Or.imp_right fun hbrings => ?_)
    obtain ⟨r, hr, hbrings⟩ := hbrings
    exact ⟨r, List.mem_append_left _ hr, hbrings⟩
  | fetch i ok =>
    simp only [next] at hnext
    split at hnext
    · cases hnext
    · rename_i r hget
      split at hnext <;> cases hnext
      rename_i asked rest htodo
      refine kept_fetch hkept hget htodo ?_ slot
      rcases hguard with rfl | hfail
      · exact .inl (if_pos rfl)
      · exact .inr (hfail r hget asked (by rw [htodo]; rfl))
  | store i =>
    simp only [next] at hnext
    split at hnext
    · cases hnext
    · rename_i r hget
      split at hnext <;> cases hnext
      rename_i htodo
      exact kept_store hkept hget htodo (hguard r hget) slot

/-- **The now-playing cache settles on the playing track**, in the runs whose steps meet the
guard. -/
theorem cache_settles {t : Track} {events : List (Event Track)} {w : World Track}
    (hrun : (system Track).exec { playing := t } events = some w)
    (hguard : (system Track).Along Guard { playing := t } events) : Settled w := by
  have hkept := (system Track).exec_induction (fun _ _ _ hkept hguard hnext => kept_step hkept
    hguard hnext) (fun _ => .inr (.inl Nat.one_ne_zero)) hguard hrun
  rintro ⟨hdue, hnone⟩ slot
  rcases hkept slot with hcache | h | ⟨r, hr, -⟩
  · exact hcache
  · exact absurd hdue h
  · rw [hnone] at hr
    cases hr

end

/-! ## Two refreshes -/

instance (P : Slot → Prop) [DecidablePred P] : Decidable (∀ slot, P slot) :=
  decidable_of_iff (∀ slot ∈ Slot.all, P slot) ⟨fun h slot => h slot slot.mem_all, fun h _ _ => h _⟩

instance (w : World String) (i : Nat) (slot : Slot) : Decidable (Covered w i slot) := by
  unfold Covered Refresh.Brings
  infer_instance

instance (w : World String) (event : Event String) : Decidable (Guard w event) := by
  unfold Guard
  split <;> infer_instance

def fetches (i n : Nat) : List (Event String) := List.replicate n (.fetch i true)

/-- The seed of the start, then a track change and its refresh; the lyrics cannot be read at first
and come later. -/
def inTurn : List (Event String) :=
  [.begin] ++ fetches 0 6 ++ [.store 0, .change "A", .begin] ++ fetches 0 5 ++
    [.ready .lyrics, .fetch 0 false] ++ fetches 1 1 ++ [.store 0, .store 0]

/-- Two tracks in a row: the first track's refresh waits for its lyrics and stores last. -/
def overtaken : List (Event String) :=
  [.begin] ++ fetches 0 6 ++ [.store 0, .change "A", .begin] ++ fetches 0 5 ++
    [.change "B", .begin] ++ fetches 1 6 ++ [.store 1] ++ fetches 0 1 ++ [.store 0]

theorem cache_settles_inTurn :
    ∃ w, (system String).exec { playing := "" } inTurn = some w ∧
      w.cache .lyrics = some { track := "A", date := 1 } := by
  have hrun : ((system String).exec { playing := "" } inTurn).any (fun w =>
      w.refreshes.isEmpty && decide (w.due = 0 ∧ w.playing = "A" ∧ w.changes = 1)) = true := by
    decide +kernel
  have hguard : (system String).checked (fun w event => decide (Guard w event)) { playing := "" }
      inTurn = true := by decide +kernel
  obtain ⟨w, hrun, hw⟩ := (Option.any_eq_true _ _).mp hrun
  obtain ⟨hnone, hw⟩ := Bool.and_eq_true_iff.mp hw
  obtain ⟨hdue, hplaying, hchanges⟩ := of_decide_eq_true hw
  refine ⟨w, hrun, ?_⟩
  have halong := (system String).along_of_checked (fun _ _ h => of_decide_eq_true h) hguard
  rw [cache_settles hrun halong ⟨hdue, List.isEmpty_iff.mp hnone⟩ .lyrics, World.current,
    hplaying, hchanges]

/-- **An earlier track's title over the playing track's lyrics**, and nothing under way. -/
theorem cache_left_behind :
    ∃ w, (system String).exec { playing := "" } overtaken = some w ∧ Quiet w ∧ ¬ Settled w ∧
      w.playing = "B" ∧ (w.cache .trackInfo).map (·.track) = some "A" ∧
      (w.cache .lyrics).map (·.track) = some "B" := by
  have hrun : ((system String).exec { playing := "" } overtaken).any (fun w =>
      w.refreshes.isEmpty && decide (w.due = 0 ∧ w.playing = "B" ∧
        (w.cache .trackInfo).map (·.track) = some "A" ∧
        (w.cache .lyrics).map (·.track) = some "B")) = true := by decide +kernel
  obtain ⟨w, hrun, hw⟩ := (Option.any_eq_true _ _).mp hrun
  obtain ⟨hnone, hw⟩ := Bool.and_eq_true_iff.mp hw
  obtain ⟨hdue, hplaying, htitle, hlyrics⟩ := of_decide_eq_true hw
  have hquiet : Quiet w := ⟨hdue, List.isEmpty_iff.mp hnone⟩
  refine ⟨w, hrun, hquiet, fun hsettled => ?_, hplaying, htitle, hlyrics⟩
  rw [hsettled hquiet .trackInfo, Option.map_some, World.current, hplaying] at htitle
  have hsame : "B" = "A" := Option.some.inj htitle
  exact absurd hsame (by decide)

end Mbrc.Refreshes
