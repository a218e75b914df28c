import MbrcPlugin.NowPlaying.ListGuard

/-!
# Announcements of list changes

The version of the now playing list moves with every notification of the host and once more after
an op's host calls.  Only the notification is announced: it marks the change, and one task turns the
marks of a burst into one broadcast, on which the subscribers read the list again.

Every mark is followed by a broadcast, and there are no more broadcasts than marks.  The version an
op leaves is read by the subscribers only if one of these is still to come when the op moves it
(`list_settles`).

`marks`, `begun` and `served` are there for the statements: no step of the code reads them.
-/

namespace Mbrc.ListAnnouncements

open Transition ListVersion Providers CommandsV6

/-! ## The world -/

/-- Where the read of a subscriber is. -/
inductive Look where
  | idle
  /-- The page is being made; its version is still to be read. -/
  | asking
  | answered (version : Nat)
  deriving DecidableEq

structure Subscriber where
  /-- The version of its last page. -/
  held : Nat
  /-- `now_playing_list_changed` events it has still to act on. -/
  inbox : Nat := 0
  look : Look := .idle
  deriving DecidableEq

/-- A mutating op that passed its check. -/
structure Op where
  edit : Edit
  todo : List Command

/-- Where `list_changes::run` is. -/
inductive Task where
  | waiting
  /-- Woken; lets the burst settle. -/
  | settling
  /-- `take` found a change. -/
  | building
  deriving DecidableEq

structure World where
  version : Nat
  ops : List Op := []
  /-- Notifications the host has still to send. -/
  owed : Nat := 0
  /-- Notifications that moved the version and have not marked yet. -/
  bumped : Nat := 0
  /-- Marks that set the flag and have not nudged yet. -/
  flagged : Nat := 0
  pending : Bool := false
  /-- The stored permit of `nudge`. -/
  permit : Bool := false
  task : Task := .waiting
  subscribers : List Subscriber
  marks : Nat := 0
  /-- Broadcasts that have begun. -/
  begun : Nat := 0
  /-- The marks there were when the last of them began. -/
  served : Nat := 0

/-- Subscribers that have read the list, before anything changes. -/
def World.initial (version count : Nat) : World :=
  { version, subscribers := List.replicate count { held := version } }

/-! ## Steps -/

inductive Act where
  /-- A read of its own accord. -/
  | look
  | ask
  /-- The server reads the version. -/
  | serve
  | receive
  deriving DecidableEq

def Subscriber.act (s : Subscriber) (version : Nat) : Act → Option Subscriber
  | .look => some { s with inbox := s.inbox + 1 }
  | .ask =>
    if s.inbox ≠ 0 ∧ s.look = .idle then some { s with inbox := s.inbox - 1, look := .asking }
    else none
  | .serve => if s.look = .asking then some { s with look := .answered version } else none
  | .receive =>
    match s.look with
    | .answered version => some { s with held := version, look := .idle }
    | _ => none

inductive Event where
  /-- The queue is changed by another way; so many notifications follow. -/
  | change (notifications : Nat)
  /-- An op passes its check. -/
  | op (edit : Edit)
  /-- Its next host call; so many notifications follow. -/
  | call (i : Nat) (ok : Bool) (notifications : Nat)
  | bump (i : Nat)
  /-- `dispatch_notification`: the version moves. -/
  | notify
  /-- `mark`: the flag is set. -/
  | flag
  | nudge
  | wake
  | take
  | broadcast
  | subscriber (i : Nat) (act : Act)
  deriving DecidableEq

/-- `bump_list_version`. -/
def World.bump (w : World) : World := { w with version := (w.version + 1) % 2 ^ 64 }

def next (w : World) : Event → Option World
  | .change notifications => some { w with owed := w.owed + notifications }
  | .op edit => some { w with ops := w.ops ++ [{ edit, todo := edit.calls }] }
  | .call i ok notifications =>
    match w.ops[i]? with
    | none => none
    | some op =>
      match op.todo with
      | [] => none
      | _ :: rest =>
        let w := { w with owed := w.owed + notifications }
        if ok then some { w with ops := w.ops.set i { op with todo := rest } }
        -- a removal moves the version all the same
        else if op.edit.isRemove then some { w with ops := w.ops.set i { op with todo := [] } }
        else some { w with ops := w.ops.eraseIdx i }
  | .bump i =>
    match w.ops[i]? with
    | none => none
    | some op =>
      if op.todo = [] then some { w.bump with ops := w.ops.eraseIdx i } else none
  | .notify =>
    if w.owed = 0 then none
    else some { w.bump with owed := w.owed - 1, bumped := w.bumped + 1 }
  | .flag =>
    if w.bumped = 0 then none
    else some { w with
      bumped := w.bumped - 1, flagged := w.flagged + 1, pending := true, marks := w.marks + 1 }
  | .nudge =>
    if w.flagged = 0 then none
    else some { w with flagged := w.flagged - 1, permit := true }
  | .wake =>
    if w.task = .waiting ∧ w.permit = true then some { w with task := .settling, permit := false }
    else none
  | .take =>
    if w.task = .settling then
      if w.pending then
        some { w with
          task := .building, pending := false, begun := w.begun + 1, served := w.marks }
      else some { w with task := .waiting }
    else none
  | .broadcast =>
    if w.task = .building then
      some { w with
        task := .waiting
        subscribers := w.subscribers.map fun s => { s with inbox := s.inbox + 1 } }
    else none
  | .subscriber i act =>
    match w.subscribers[i]? with
    | none => none
    | some s =>
      match s.act w.version act with
      | none => none
      | some s => some { w with subscribers := w.subscribers.set i s }

def system : System World Event where
  start w := ∃ version count, w = World.initial version count
  next := next

/-- What one step does, the ops apart. -/
inductive Moves (w : World) : Event → World → Prop
  | change (n : Nat) : Moves w (.change n) { w with owed := w.owed + n }
  | op (edit : Edit) (ops : List Op) : Moves w (.op edit) { w with ops }
  | call (i : Nat) (ok : Bool) (n : Nat) (ops : List Op) :
    Moves w (.call i ok n) { w with owed := w.owed + n, ops }
  | bump (i : Nat) (ops : List Op) : Moves w (.bump i) { w.bump with ops }
  | notify (howed : w.owed ≠ 0) :
    Moves w .notify { w.bump with owed := w.owed - 1, bumped := w.bumped + 1 }
  | flag (hbumped : w.bumped ≠ 0) :
    Moves w .flag { w with
      bumped := w.bumped - 1, flagged := w.flagged + 1, pending := true, marks := w.marks + 1 }
  | nudge (hflagged : w.flagged ≠ 0) :
    Moves w .nudge { w with flagged := w.flagged - 1, permit := true }
  | wake (htask : w.task = .waiting) (hpermit : w.permit = true) :
    Moves w .wake { w with task := .settling, permit := false }
  | found (htask : w.task = .settling) (hpending : w.pending = true) :
    Moves w .take { w with
      task := .building, pending := false, begun := w.begun + 1, served := w.marks }
  | missed (htask : w.task = .settling) (hpending : w.pending = false) :
    Moves w .take { w with task := .waiting }
  | broadcast (htask : w.task = .building) :
    Moves w .broadcast { w with
      task := .waiting
      subscribers := w.subscribers.map fun s => { s with inbox := s.inbox + 1 } }
  | subscriber {i : Nat} {act : Act} {s s' : Subscriber} (hget : w.subscribers[i]? = some s)
    (hact : s.act w.version act = some s') :
    Moves w (.subscriber i act) { w with subscribers := w.subscribers.set i s' }

theorem moves_of_next {w w' : World} {event : Event} (hnext : system.next w event = some w') :
    Moves w event w' := by
  change next w event = some w' at hnext
  cases event <;> simp only [next] at hnext
  case change => cases hnext; exact .change _
  case op => cases hnext; exact .op _ _
  case call =>
    split at hnext
    · cases hnext
    · split at hnext
      · cases hnext
      · split at hnext
        · cases hnext; exact .call _ _ _ _
        · split at hnext <;> cases hnext <;> exact .call _ _ _ _
  case bump =>
    split at hnext
    · cases hnext
    · split at hnext <;> cases hnext
      exact .bump _ _
  case notify => split at hnext <;> cases hnext; exact .notify ‹_›
  case flag => split at hnext <;> cases hnext; exact .flag ‹_›
  case nudge => split at hnext <;> cases hnext; exact .nudge ‹_›
  case wake =>
    split at hnext <;> cases hnext
    rename_i h
    exact .wake h.1 h.2
  case take =>
    split at hnext
    · split at hnext <;> cases hnext
      · exact .found ‹_› ‹_›
      · exact .missed ‹_› (Bool.eq_false_iff.mpr ‹_›)
    · cases hnext
  case broadcast => split at hnext <;> cases hnext; exact .broadcast ‹_›
  case subscriber =>
    split at hnext
    · cases hnext
    · split at hnext <;> cases hnext
      exact .subscriber ‹_› ‹_›

/-! ## What is promised -/

/-- The task waits, and nothing is about to wake it. -/
def AtRest (w : World) : Prop := w.task = .waiting ∧ w.permit = false ∧ w.flagged = 0

/-- The steps that are left once a mark is made. -/
def Event.OfTask : Event → Prop
  | .nudge | .wake | .take | .broadcast => True
  | _ => False

/-- Every mark is followed by a broadcast that begins after it: whenever the task is at rest there
has been one, and its own steps bring it there. -/
def Announced (w : World) : Prop :=
  (AtRest w → w.served = w.marks) ∧
    ∃ steps w', (∀ e ∈ steps, e.OfTask) ∧ system.exec w steps = some w' ∧ AtRest w' ∧
      w'.served = w.marks

/-- From here on there are no more broadcasts than marks. -/
def Coalesced (w : World) : Prop :=
  ∀ events w', system.exec w events = some w' → w.pending = false →
    w'.begun - w.begun ≤ w'.marks - w.marks

/-- No op, no notification and no read is under way, and the task is at rest. -/
structure Quiet (w : World) : Prop where
  ops : w.ops = []
  owed : w.owed = 0
  bumped : w.bumped = 0
  rest : AtRest w
  subscribers : ∀ s ∈ w.subscribers, s.inbox = 0 ∧ s.look = .idle

/-- With nothing under way every subscriber has a page of the current version, and an edit that
carries this version passes the check. -/
def Settled (w : World) : Prop :=
  Quiet w → ∀ s ∈ w.subscribers, s.held = w.version ∧
    ∀ data, optI64 data "version" = .ok (some ((s.held : Int).bmod (2 ^ 64))) →
      checkVersion data w.version = .ok ()

/-! ## When it holds -/

/-- A broadcast is still to come. -/
def Coming (w : World) : Prop :=
  w.owed ≠ 0 ∨ w.bumped ≠ 0 ∨ w.pending = true ∨ w.task = .building

/-- The subscriber is still to read the version. -/
def Subscriber.Unread (s : Subscriber) : Prop := s.inbox ≠ 0 ∨ s.look = .asking

/-- An op moves the version only while every subscriber is still to read it, or to be told. -/
def Guard (w : World) : Event → Prop
  | .bump _ => Coming w ∨ ∀ s ∈ w.subscribers, s.Unread
  | _ => True

/-! ## The task -/

/-- A stored permit, a mark under way or the task itself finds the flag. -/
structure Inv (w : World) : Prop where
  found : w.pending = true → w.permit = true ∨ w.flagged ≠ 0 ∨ w.task = .settling
  served : w.pending = false → w.served = w.marks

/-- **One step** keeps the flag findable. -/
theorem inv_step {w w' : World} {event : Event} (hinv : Inv w)
    (hnext : system.next w event = some w') : Inv w' := by
  obtain ⟨hfound, hserved⟩ := hinv
  cases moves_of_next hnext with
  | change | op | call | bump | notify | subscriber => exact ⟨hfound, hserved⟩
  | flag => exact ⟨fun _ => .inr (.inl (Nat.succ_ne_zero _)), fun h => (by cases h)⟩
  | nudge => exact ⟨fun _ => .inl rfl, hserved⟩
  | wake => exact ⟨fun _ => .inr (.inr rfl), hserved⟩
  | found => exact ⟨fun h => (by cases h), fun _ => rfl⟩
  | missed _ hpending => exact ⟨fun h => absurd (h.symm.trans hpending) (by decide), hserved⟩
  | broadcast htask =>
    refine ⟨fun h => ?_, hserved⟩
    rcases hfound h with hpermit | hflagged | hsettling
    · exact .inl hpermit
    · exact .inr (.inl hflagged)
    · rw [htask] at hsettling
      cases hsettling

theorem inv_initial (version count : Nat) : Inv (.initial version count) where
  found h := by cases h
  served _ := rfl

/-- A task at rest has announced every mark. -/
theorem served_of_atRest {w : World} (hinv : Inv w) (hrest : AtRest w) : w.served = w.marks := by
  obtain ⟨htask, hpermit, hflagged⟩ := hrest
  apply hinv.served
  by_contra hpending
  rcases hinv.found (Bool.eq_true_of_not_eq_false hpending) with h | h | h
  · rw [hpermit] at h
    cases h
  · exact h hflagged
  · rw [htask] at h
    cases h

def Task.left : Task → Nat
  | .waiting => 0
  | .building => 1
  | .settling => 2

/-- How many steps the task and the marks under way may still take. -/
def work (w : World) : Nat := 4 * w.flagged + 3 * w.permit.toNat + w.task.left

/-- A task that is not at rest can go on, and has less left to do. -/
theorem exists_task_step {w : World} (hrest : ¬ AtRest w) :
    ∃ event w', event.OfTask ∧ system.next w event = some w' ∧ w'.marks = w.marks ∧
      work w' < work w := by
  by_cases hflagged : w.flagged = 0
  · cases htask : w.task with
    | waiting =>
      have hpermit : w.permit = true := by
        by_contra h
        exact hrest ⟨htask, Bool.eq_false_iff.mpr h, hflagged⟩
      refine ⟨.wake, _, trivial, if_pos ⟨htask, hpermit⟩, rfl, ?_⟩
      simp [work, Task.left, htask, hpermit]
    | settling =>
      cases hpending : w.pending with
      | true =>
        refine ⟨.take, _, trivial, (if_pos htask).trans (if_pos hpending), rfl, ?_⟩
        simp [work, Task.left, htask]
      | false =>
        refine ⟨.take, _, trivial, (if_pos htask).trans (if_neg (by simp [hpending])), rfl, ?_⟩
        simp [work, Task.left, htask]
    | building =>
      refine ⟨.broadcast, _, trivial, if_pos htask, rfl, ?_⟩
      simp [work, Task.left, htask]
  · refine ⟨.nudge, _, trivial, if_neg hflagged, rfl, ?_⟩
    have hle : w.permit.toNat ≤ 1 := Bool.toNat_le _
    simp only [work, Bool.toNat_true]
    omega

/-- **Every mark is announced.** -/
theorem announced_of_inv {w : World} (hinv : Inv w) : Announced w := by
  refine ⟨served_of_atRest hinv, ?_⟩
  have hstep : ∀ t, Inv t ∧ t.marks = w.marks → ¬ AtRest t → ∃ event t', event.OfTask ∧
      system.next t event = some t' ∧ (Inv t' ∧ t'.marks = w.marks) ∧ work t' < work t := by
    intro t ht hgoal
    obtain ⟨event, t', hown, hnext, hmarks, hlt⟩ := exists_task_step hgoal
    exact ⟨event, t', hown, hnext, ⟨inv_step ht.1 hnext, hmarks.trans ht.2⟩, hlt⟩
  obtain ⟨steps, w', hsteps, hexec, ⟨hinv', hmarks⟩, hrest⟩ :=
    system.progress work hstep ⟨hinv, rfl⟩
  exact ⟨steps, w', hsteps, hexec, hrest, (served_of_atRest hinv' hrest).trans hmarks⟩

/-- Between two states no more broadcasts begin than there are marks, but for a flag that is set. -/
structure Between (w w' : World) : Prop where
  begun : w'.begun + w'.pending.toNat + w.marks ≤ w.begun + w.pending.toNat + w'.marks
  marks : w.marks ≤ w'.marks

theorem Between.refl (w : World) : Between w w := ⟨Nat.le_refl _, Nat.le_refl _⟩

theorem Between.trans {u v w : World} (huv : Between u v) (hvw : Between v w) : Between u w := by
  obtain ⟨hbegun, hmarks⟩ := huv
  obtain ⟨hbegun', hmarks'⟩ := hvw
  exact ⟨by omega, by omega⟩

theorem between_of_next {w w' : World} {event : Event} (hnext : system.next w event = some w') :
    Between w w' := by
  cases moves_of_next hnext with
  | flag =>
    refine ⟨?_, Nat.le_succ _⟩
    show w.begun + 1 + w.marks ≤ w.begun + w.pending.toNat + (w.marks + 1)
    omega
  | found _ hpending =>
    refine ⟨?_, Nat.le_refl _⟩
    rw [hpending]
    exact Nat.le_refl _
  | _ => exact ⟨Nat.le_refl _, Nat.le_refl _⟩

/-- **No more broadcasts than marks**, from any state on. -/
theorem coalesced (w : World) : Coalesced w := by
  intro events w' hexec hpending
  have hstep : ∀ t event t', Between w t → True → system.next t event = some t' →
      Between w t' := fun _ _ _ ht _ hnext => ht.trans (between_of_next hnext)
  have hrun := system.exec_induction hstep (Between.refl w) (system.along_true w events) hexec
  have hbegun := hrun.begun
  have hmarks := hrun.marks
  rw [hpending] at hbegun
  simp only [Bool.toNat_false] at hbegun
  omega

/-! ## The subscribers -/

namespace Subscriber

/-- The version that its last page, or the answer on its way, carries. -/
def last (s : Subscriber) : Nat :=
  match s.look with
  | .answered version => version
  | _ => s.held

/-- It has read this version, or is still to read. -/
def Reads (s : Subscriber) (version : Nat) : Prop := s.Unread ∨ s.last = version

theorem reads_act {s s' : Subscriber} {version : Nat} {act : Act} (hreads : s.Reads version)
    (hact : s.act version act = some s') : s'.Reads version := by
  cases act with
  | look =>
    cases hact
    exact .inl (.inl (Nat.succ_ne_zero _))
  | ask =>
    simp only [Subscriber.act] at hact
    split at hact <;> cases hact
    exact .inl (.inr rfl)
  | serve =>
    simp only [Subscriber.act] at hact
    split at hact <;> cases hact
    exact .inr rfl
  | receive =>
    simp only [Subscriber.act] at hact
    split at hact <;> cases hact
    rename_i v hlook
    rcases hreads with (hinbox | hasking) | hlast
    · exact .inl (.inl hinbox)
    · rw [hlook] at hasking
      cases hasking
    · refine .inr (Eq.trans ?_ hlast)
      simp only [last, hlook]

end Subscriber

/-- A broadcast is still to come, or every subscriber has read the version or will. -/
def Kept (w : World) : Prop := Coming w ∨ ∀ s ∈ w.subscribers, s.Reads w.version

/-- **One step** that meets the guard keeps the subscribers' versions. -/
theorem kept_step {w w' : World} {event : Event} (hkept : Kept w) (hguard : Guard w event)
    (hnext : system.next w event = some w') : Kept w' := by
  cases moves_of_next hnext with
  | change n | call i ok n =>
    refine hkept.imp_left fun h => ?_
    rcases h with howed | h
    · exact .inl (by show w.owed + n ≠ 0; omega)
    · exact .inr h
  | op => exact hkept
  | bump =>
    rcases hguard with hcoming | hunread
    · exact .inl hcoming
    · exact .inr fun s hs => .inl (hunread s hs)
  | notify => exact .inl (.inr (.inl (Nat.succ_ne_zero _)))
  | flag => exact .inl (.inr (.inr (.inl rfl)))
  | nudge => exact hkept
  | wake htask =>
    refine hkept.imp_left (Or.imp_right (Or.imp_right (Or.imp_right fun hbuilding => ?_)))
    rw [htask] at hbuilding
    cases hbuilding
  | found => exact .inl (.inr (.inr (.inr rfl)))
  | missed htask =>
    refine hkept.imp_left (Or.imp_right (Or.imp_right (Or.imp_right fun hbuilding => ?_)))
    rw [htask] at hbuilding
    cases hbuilding
  | broadcast =>
    refine .inr fun s hs => ?_
    obtain ⟨s, -, rfl⟩ := List.mem_map.mp hs
    exact .inl (.inl (Nat.succ_ne_zero _))
  | subscriber hget hact =>
    refine hkept.imp_right fun hreads s hs => ?_
    rcases List.mem_or_eq_of_mem_set hs with hs | rfl
    · exact hreads s hs
    · exact Subscriber.reads_act (hreads _ (List.mem_of_getElem? hget)) hact

theorem kept_initial (version count : Nat) : Kept (.initial version count) := by
  refine .inr fun s hs => ?_
  rw [List.eq_of_mem_replicate hs]
  exact .inr rfl

/-- Once all is quiet the pages carry the current version. -/
theorem settled_of_kept {w : World} (hinv : Inv w) (hkept : Kept w) : Settled w := by
  intro hquiet s hs
  have hheld : s.held = w.version := by
    obtain ⟨hinbox, hidle⟩ := hquiet.subscribers s hs
    rcases hkept with (howed | hbumped | hpending | hbuilding) | hreads
    · exact absurd hquiet.owed howed
    · exact absurd hquiet.bumped hbumped
    · obtain ⟨htask, hpermit, hflagged⟩ := hquiet.rest
      rcases hinv.found hpending with h | h | h
      · rw [hpermit] at h
        cases h
      · exact absurd hflagged h
      · rw [htask] at h
        cases h
    · rw [hquiet.rest.1] at hbuilding
      cases hbuilding
    · rcases hreads s hs with (h | h) | h
      · exact absurd hinbox h
      · rw [hidle] at h
        cases h
      · simpa only [Subscriber.last, hidle] using h
  refine ⟨hheld, fun data hdata => ?_⟩
  have hfresh := (not_stale_iff rfl).mpr (congrArg (fun n : Nat => (n : Int).bmod (2 ^ 64)) hheld)
  exact (checkVersion_eq w.version hdata).trans (if_neg (Bool.eq_false_iff.mp hfresh))

/-- **A settled queue has a settled version**, in the runs whose steps meet the guard; the marks are
announced in every run. -/
theorem list_settles {version count : Nat} {events : List Event} {w : World}
    (hrun : system.exec (.initial version count) events = some w)
    (hguard : system.Along Guard (.initial version count) events) :
    Announced w ∧ Coalesced w ∧ Settled w := by
  have hstep : ∀ t event t', Inv t ∧ Kept t → Guard t event → system.next t event = some t' →
      Inv t' ∧ Kept t' := fun _ _ _ ht hguard hnext =>
    ⟨inv_step ht.1 hnext, kept_step ht.2 hguard hnext⟩
  obtain ⟨hinv, hkept⟩ := system.exec_induction hstep
    ⟨inv_initial version count, kept_initial version count⟩ hguard hrun
  exact ⟨announced_of_inv hinv, coalesced w, settled_of_kept hinv hkept⟩

/-! ## A removal of two slots -/

instance (w : World) : Decidable (Coming w) := by
  unfold Coming
  infer_instance

instance (s : Subscriber) : Decidable s.Unread := by
  unfold Subscriber.Unread
  infer_instance

instance (w : World) (event : Event) : Decidable (Guard w event) := by
  unfold Guard
  split <;> infer_instance

/-- A notification is handled from its first step to the subscriber's next page. -/
def toldAndRead : List Event :=
  [.notify, .flag, .nudge, .wake, .take, .broadcast, .subscriber 0 .ask, .subscriber 0 .serve,
    .subscriber 0 .receive]

/-- The op moves the version, then the second slot's notification arrives. -/
def toldLast : List Event :=
  [.op (.remove [1, 0]), .call 0 true 1] ++ toldAndRead ++ [.call 0 true 1, .bump 0] ++ toldAndRead

/-- The second slot's notification falls into the burst of the first, and the subscriber reads
before the op moves the version. -/
def bumpedLast : List Event :=
  [.op (.remove [1, 0]), .call 0 true 1, .notify, .flag, .nudge, .wake, .call 0 true 1, .notify,
    .flag, .nudge, .take, .broadcast, .subscriber 0 .ask, .subscriber 0 .serve,
    .subscriber 0 .receive, .bump 0, .wake, .take]

theorem list_settles_toldLast :
    ∃ w, system.exec (.initial 0 1) toldLast = some w ∧ Announced w ∧ Coalesced w ∧ Settled w ∧
      w.version = 3 := by
  have hrun : (system.exec (.initial 0 1) toldLast).any (fun w => decide (w.version = 3)) =
      true := by decide +kernel
  have hguard : system.checked (fun w event => decide (Guard w event)) (.initial 0 1) toldLast =
      true := by decide +kernel
  obtain ⟨w, hrun, hw⟩ := (Option.any_eq_true _ _).mp hrun
  have halong := system.along_of_checked (fun _ _ h => of_decide_eq_true h) hguard
  obtain ⟨hannounced, hcoalesced, hsettled⟩ := list_settles hrun halong
  exact ⟨w, hrun, hannounced, hcoalesced, hsettled, of_decide_eq_true hw⟩

/-- **All is quiet, and the subscriber's page is one version behind.** -/
theorem page_left_behind :
    ∃ w, system.exec (.initial 0 1) bumpedLast = some w ∧ Quiet w ∧ ¬ Settled w ∧
      w.version = 3 ∧ w.subscribers = [{ held := 2 }] := by
  have hrun : (system.exec (.initial 0 1) bumpedLast).any (fun w =>
      w.ops.isEmpty && decide (w.owed = 0 ∧ w.bumped = 0 ∧ w.task = .waiting ∧ w.permit = false ∧
        w.flagged = 0 ∧ w.version = 3 ∧ w.subscribers = [{ held := 2 }])) = true := by
    decide +kernel
  obtain ⟨w, hrun, hw⟩ := (Option.any_eq_true _ _).mp hrun
  obtain ⟨hops, hw⟩ := Bool.and_eq_true_iff.mp hw
  obtain ⟨howed, hbumped, htask, hpermit, hflagged, hversion, hsubscribers⟩ := of_decide_eq_true hw
  have hidle : ∀ s ∈ w.subscribers, s.inbox = 0 ∧ s.look = .idle := by
    rw [hsubscribers]
    decide
  have hquiet : Quiet w :=
    ⟨List.isEmpty_iff.mp hops, howed, hbumped, ⟨htask, hpermit, hflagged⟩, hidle⟩
  refine ⟨w, hrun, hquiet, fun hsettled => ?_, hversion, hsubscribers⟩
  have hheld := (hsettled hquiet { held := 2 } (by rw [hsubscribers]; exact .head _)).1
  rw [hversion] at hheld
  exact absurd hheld (by decide)

end Mbrc.ListAnnouncements
