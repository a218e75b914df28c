import MbrcPlugin.Lib.Transition
import MbrcPlugin.Library.ChangeLogFeed

/-!
# A client in sync with the change log

One client keeps its own copy of the library and follows the log: it reads everything, then
what moved since the head it stored, page by page, while index passes and resets go on between
any two of its pages.  The invariant `Tracks` says what the copy is known to show: for a client
in the middle of a read, the window up to the last row served, and for a client between two
reads, every change up to its stored head, in both cases only while the log's epoch is the
client's and the floor has not passed what the client could still be told.
-/

namespace Mbrc.ChangeLogSync

open ChangeFeed ChangeLog

/-- Where the client stands. -/
inductive Stand where
  /-- Its next read is of everything, into an empty copy. -/
  | start
  /-- In the middle of a read: the `next` of the last page. -/
  | reading (next : Continuation)
  /-- Between two reads: the `head` it stored. -/
  | synced (head : Cursor)
  deriving DecidableEq

/-- A client with its own copy of the library. -/
structure Client where
  stand : Stand
  copy : Finset Path

namespace Client

/-- What the client asks for next. -/
def source (c : Client) : ReadFrom :=
  match c.stand with
  | .start => .start
  | .reading k => .resume k
  | .synced head => .since head

/-- The client takes an answer: a page into its copy, or the order to start again. -/
def answered (c : Client) : ChangePage → Client
  | .resync _ => { stand := .start, copy := ∅ }
  | .changes head _ changes next =>
    { stand := match next with
        | some k => .reading k
        | none => .synced head
      copy := takeAll c.copy changes }

end Client

/-- The log and its client.  `used` and `quiet` are only watched: the epochs drawn so far, and
whether nothing was recorded or reset since the client's latest read began. -/
structure World where
  log : ChangeLog
  client : Client
  used : Finset Epoch
  quiet : Bool

/-- An empty store and a client that has read nothing. -/
def World.initial : World where
  log := ChangeLog.empty
  client := { stand := .start, copy := ∅ }
  used := ∅
  quiet := false

/-- What happens next: an index pass (with the epoch it would draw), a reset, or a page read by
the client. -/
inductive Event where
  | record (newEpoch : Epoch) (paths : Option (List Path)) (updated : List Path)
  | reset
  | page (limit : Nat)

/-- A page of a new read begins it; only then is nothing recorded or reset since. -/
def beginsRead : ReadFrom → ChangePage → Bool
  | .resume _, _ => false
  | _, .resync _ => false
  | _, .changes .. => true

/-- One event.  A drawn epoch is distinct from every earlier one, and a page has a limit of at
least one.  Before the log's first pass a read has no answer and the client stays as it is. -/
def step (w : World) : Event → Option World
  | .record newEpoch paths updated =>
    if w.log.epoch = none ∧ newEpoch ∈ w.used then none
    else
      let log := (w.log.record newEpoch paths updated).1
      some { w with log, used := log.epoch.elim w.used (insert · w.used), quiet := false }
  | .reset => some { w with log := w.log.reset, quiet := false }
  | .page limit =>
    if limit = 0 then none
    else match w.log.read w.client.source limit with
      | none => some w
      | some page =>
        some { w with
          client := w.client.answered page
          quiet := beginsRead w.client.source page || w.quiet }

/-- The log and its client, from an empty store. -/
def system : Transition.System World Event where
  start w := w = World.initial
  next := step

/-! ## What the copy is known to show -/

/-- The copy shows the window, unless the floor has passed what the window can stand. -/
def ShowsWindow (log : ChangeLog) (copy : Finset Path) (since : Option Nat) (untilGen : Nat)
    (reached : LogKey → Prop) : Prop :=
  log.floor ≤ bound since untilGen → Shows log.feed copy (within since untilGen reached)

/-- What is known of a client's copy, the log's epoch being the client's. -/
def Tracks (log : ChangeLog) (client : Client) : Prop :=
  match client.stand with
  | .start => client.copy = ∅
  | .reading k => k.untilGen ≤ log.generation ∧
      ShowsWindow log client.copy k.since k.untilGen (Reached (some (toLex (k.generation, k.src))))
  | .synced head => head.generation ≤ log.generation ∧
      (log.floor ≤ head.generation → Shows log.feed client.copy (upTo head.generation))

/-- The epoch a client's cursor names. -/
def Client.epoch (c : Client) : Option Epoch :=
  match c.stand with
  | .start => none
  | .reading k => some k.epoch
  | .synced head => some head.epoch

/-- The generation a client's read goes up to, or went up to. -/
def Client.untilGen (c : Client) : Option Nat :=
  match c.stand with
  | .start => none
  | .reading k => some k.untilGen
  | .synced head => some head.generation

/-- **The invariant.** -/
structure Invariant (w : World) : Prop where
  wellFormed : w.log.WellFormed
  used : ∀ e ∈ w.log.epoch, e ∈ w.used
  clientUsed : ∀ e ∈ w.client.epoch, e ∈ w.used
  continues : ∀ k, w.client.stand = .reading k → k.InWindow
  startCopy : w.client.stand = .start → w.client.copy = ∅
  tracks : ∀ e ∈ w.client.epoch, w.log.epoch = some e → Tracks w.log w.client
  quiet : w.quiet = true → ∀ e ∈ w.client.epoch, w.log.epoch = some e ∧
    w.client.untilGen = some w.log.generation

theorem initial_invariant : Invariant World.initial where
  wellFormed := empty_wellFormed
  used := by simp [World.initial, ChangeLog.empty]
  clientUsed := by simp [World.initial, Client.epoch]
  continues := by simp [World.initial]
  startCopy := by simp [World.initial]
  tracks := by simp [World.initial, Client.epoch]
  quiet := by simp [World.initial]

/-! ## The log moves on -/

/-- What is known of the copy outlives a move of the feed. -/
theorem Tracks.advance {log log' : ChangeLog} {client : Client} (h : Tracks log client)
    (hk : ∀ k, client.stand = .reading k → k.InWindow)
    (ha : Advances log.feed log'.feed) : Tracks log' client := by
  unfold Tracks at h ⊢
  cases hs : client.stand with
  | start => simpa [hs] using h
  | reading k =>
    simp only [hs] at h ⊢
    obtain ⟨hle, hshows⟩ := h
    have hsince : ∀ s ∈ k.since, s ≤ k.untilGen := fun s hmem =>
      ((hk k hs).1 s hmem).le.trans (hk k hs).2
    have hbound : bound k.since k.untilGen ≤ k.untilGen := by
      cases hse : k.since with
      | none => exact Nat.le_refl _
      | some s => exact hsince s hse
    refine ⟨hle.trans ha.generation_le, fun hfl => ?_⟩
    exact (hshows (ha.floor_le.trans hfl)).advance ha (within_settles _ hsince) hle hfl hbound
  | synced head =>
    simp only [hs] at h ⊢
    obtain ⟨hle, hshows⟩ := h
    refine ⟨hle.trans ha.generation_le, fun hfl => ?_⟩
    exact (hshows (ha.floor_le.trans hfl)).advance ha (upTo_settles _) hle hfl (Nat.le_refl _)

theorem record_invariant {w : World} (h : Invariant w) {newEpoch : Epoch}
    (hfresh : w.log.epoch = none → newEpoch ∉ w.used) (paths : Option (List Path))
    (updated : List Path) :
    Invariant { w with
      log := (w.log.record newEpoch paths updated).1
      used := (w.log.record newEpoch paths updated).1.epoch.elim w.used (insert · w.used)
      quiet := false } := by
  obtain ⟨hwf, hadv, hepoch⟩ := record_advances h.wellFormed newEpoch paths updated
  set log := (w.log.record newEpoch paths updated).1
  have hsub : w.used ⊆ log.epoch.elim w.used (insert · w.used) := by
    cases log.epoch with
    | none => exact Finset.Subset.refl _
    | some e => exact Finset.subset_insert _ _
  refine ⟨hwf, ?_, fun e he => hsub (h.clientUsed e he), h.continues, h.startCopy, ?_, by simp⟩
  · intro e he
    have hlog : log.epoch = some e := he
    simp [hlog]
  · intro e he hlog
    rcases hepoch with hsame | ⟨hnone, hnew⟩
    · exact (h.tracks e he (hsame ▸ hlog)).advance h.continues hadv
    · obtain rfl : newEpoch = e := by
        rw [hnew] at hlog
        exact Option.some.inj hlog
      exact absurd (h.clientUsed _ he) (hfresh hnone)

theorem reset_invariant {w : World} (h : Invariant w) :
    Invariant { w with log := w.log.reset, quiet := false } where
  wellFormed := empty_wellFormed
  used := by simp [reset, ChangeLog.empty]
  clientUsed := h.clientUsed
  continues := h.continues
  startCopy := h.startCopy
  tracks := by simp [reset, ChangeLog.empty]
  quiet := by simp

/-! ## The client reads -/

theorem reached_none : Reached none = fun _ => False := by
  funext key
  simp [Reached]

/-- What the copy shows as a page is asked for, the log having found the cursor its own. -/
theorem showsWindow_of_answers {w : World} (h : Invariant w) {head : Cursor}
    {changes : List Change} {next : Option Continuation}
    (ha : w.log.Answers w.client.source head changes next) :
    ShowsWindow w.log w.client.copy (w.log.window w.client.source).1
      (w.log.window w.client.source).2.1 (Reached (w.log.window w.client.source).2.2) ∧
    head.generation ≤ w.log.generation := by
  have hown := ha.own
  have hanswerable := ha.answerable
  have hgen := ha.head_generation
  cases hs : w.client.stand with
  | start =>
    simp only [Client.source, hs, window] at hgen ⊢
    rw [h.startCopy hs, reached_none]
    exact ⟨fun _ => shows_start _ _, hgen.le⟩
  | reading k =>
    simp only [Client.source, hs, window, foreign, Bool.or_eq_false_iff, decide_eq_false_iff_not,
      not_not, not_lt] at hown hgen ⊢
    have htracks := h.tracks k.epoch (by simp [Client.epoch, hs]) (hown.1 ▸ ha.epoch)
    simp only [Tracks, hs] at htracks
    exact ⟨htracks.2, hgen.le.trans hown.2⟩
  | synced cursor =>
    simp only [Client.source, hs, window, foreign, decide_eq_false_iff_not, not_not,
      Option.mem_def, Option.some.injEq, forall_eq'] at hown hgen hanswerable ⊢
    have htracks := h.tracks cursor.epoch (by simp [Client.epoch, hs]) (hown ▸ ha.epoch)
    simp only [Tracks, hs] at htracks
    rw [reached_none]
    exact ⟨fun hfl => (htracks.2 hfl).since _, hgen.le⟩

/-- A page of the client's read, taken in. -/
theorem page_invariant {w : World} (h : Invariant w) {limit : Nat} (hlimit : 0 < limit)
    {page : ChangePage} (hread : w.log.read w.client.source limit = some page) :
    Invariant { w with
      client := w.client.answered page
      quiet := beginsRead w.client.source page || w.quiet } := by
  cases page with
  | resync head =>
    refine ⟨h.wellFormed, h.used, ?_, ?_, ?_, ?_, ?_⟩ <;> simp [Client.answered, Client.epoch]
  | changes head total changes next =>
    have hsource : ∀ k, w.client.source = .resume k → k.InWindow := by
      intro k hk
      refine h.continues k ?_
      cases hs : w.client.stand <;> simp_all [Client.source]
    have ha := read_changes h.wellFormed hsource hlimit hread
    obtain ⟨hwindow, hle⟩ := showsWindow_of_answers h ha
    have hpage : ShowsWindow w.log (takeAll w.client.copy changes)
        (w.log.window w.client.source).1 (w.log.window w.client.source).2.1 (ReachedWith next) :=
      fun hfl => (hwindow hfl).page ha.page
    -- a read that began with this page runs to the end of the log, one that goes on to its own
    have huntil :
        (beginsRead w.client.source (.changes head total changes next) || w.quiet) = true →
          head.generation = w.log.generation := by
      intro hq
      rw [ha.head_generation]
      cases hs : w.client.stand with
      | start => simp [Client.source, hs, window]
      | synced cursor => simp [Client.source, hs, window]
      | reading k =>
        have hq' : w.quiet = true := by simpa [Client.source, hs, beginsRead] using hq
        have := (h.quiet hq' k.epoch (by simp [Client.epoch, hs])).2
        simpa [Client.source, Client.untilGen, hs, window] using this
    cases next with
    | none =>
      refine ⟨h.wellFormed, h.used, ?_, by simp [Client.answered], by simp [Client.answered],
        fun e he hlog => ?_, fun hq e he => ?_⟩
      · intro e he
        obtain rfl : head.epoch = e := by simpa [Client.answered, Client.epoch] using he
        exact h.used _ ha.epoch
      · refine ⟨hle, fun hfl => ?_⟩
        have hb : w.log.floor ≤ bound (w.log.window w.client.source).1
            (w.log.window w.client.source).2.1 := by
          have hansw := ha.answerable
          revert hansw
          cases (w.log.window w.client.source).1 with
          | none => exact fun _ => ha.head_generation ▸ hfl
          | some s => exact fun hansw => (hansw s rfl).1
        have hfull : ReachedWith none = fun _ => True := by
          funext key
          simp [ReachedWith]
        rw [ha.head_generation]
        exact Shows.finish (hfull ▸ hpage hb)
      · obtain rfl : head.epoch = e := by simpa [Client.answered, Client.epoch] using he
        exact ⟨ha.epoch, by simpa [Client.answered, Client.untilGen] using huntil hq⟩
    | some k =>
      obtain ⟨hke, hks, hku, hkw⟩ := ha.follows k rfl
      have hreached : ReachedWith (some k) = Reached (some (toLex (k.generation, k.src))) := by
        funext key
        simp [ReachedWith, Reached]
      refine ⟨h.wellFormed, h.used, ?_, ?_, by simp [Client.answered],
        fun e he hlog => ?_, fun hq e he => ?_⟩
      · intro e he
        obtain rfl : k.epoch = e := by simpa [Client.answered, Client.epoch] using he
        exact h.used _ (hke ▸ ha.epoch)
      · intro k' hk'
        obtain rfl : k = k' := by simpa [Client.answered] using hk'
        exact hkw
      · refine ⟨?_, ?_⟩
        · rw [hku, ← ha.head_generation]
          exact hle
        · rw [hks, hku, ← hreached]
          exact hpage
      · obtain rfl : k.epoch = e := by simpa [Client.answered, Client.epoch] using he
        refine ⟨hke ▸ ha.epoch, ?_⟩
        have hgen := huntil hq
        rw [ha.head_generation] at hgen
        simp [Client.answered, Client.untilGen, hku, hgen]

/-- Every event keeps the invariant. -/
theorem step_invariant (w : World) (event : Event) (w' : World) (h : Invariant w)
    (hs : step w event = some w') : Invariant w' := by
  cases event with
  | record newEpoch paths updated =>
    simp only [step] at hs
    split at hs
    · simp at hs
    · rename_i hfresh
      obtain rfl := Option.some.inj hs
      exact record_invariant h (fun hnone hmem => hfresh ⟨hnone, hmem⟩) paths updated
  | reset =>
    obtain rfl := Option.some.inj hs
    exact reset_invariant h
  | page limit =>
    simp only [step] at hs
    split at hs
    · simp at hs
    · rename_i hlimit
      cases hread : w.log.read w.client.source limit with
      | none =>
        rw [hread] at hs
        obtain rfl := Option.some.inj hs
        exact h
      | some page =>
        rw [hread] at hs
        obtain rfl := Option.some.inj hs
        exact page_invariant h (Nat.pos_of_ne_zero hlimit) hread

theorem reachable_invariant {w : World} (hr : system.Reachable w) : Invariant w :=
  system.reachable_induction (fun _ h0 => h0 ▸ initial_invariant) step_invariant hr

/-! ## Convergence -/

/-- **Library sync converges.** A client that ended a complete read, with nothing recorded or
reset since that read began, holds exactly the paths the log holds as live. -/
theorem copy_eq_live {w : World} (hr : system.Reachable w) {head : Cursor}
    (hs : w.client.stand = .synced head) (hq : w.quiet = true) (p : Path) :
    p ∈ w.client.copy ↔ w.log.IsLive p := by
  have h := reachable_invariant hr
  have he : head.epoch ∈ w.client.epoch := by simp [Client.epoch, hs]
  obtain ⟨hepoch, hgen⟩ := h.quiet hq head.epoch he
  have hhead : head.generation = w.log.generation := by
    simpa [Client.untilGen, hs] using hgen
  have htracks := h.tracks head.epoch he hepoch
  simp only [Tracks, hs, hhead] at htracks
  exact (htracks.2 h.wellFormed.sound.floor_le).live_iff h.wellFormed.sound p

/-- A library of three tracks is read in pages of two; a pass lands between the two pages, and
the client reads on to the end and then what moved since. -/
def pagedRun : List Event :=
  [.record "e1" (some ["/a", "/b", "/c"]) [], .page 2,
    .record "e2" (some ["/b", "/c", "/d"]) ["/c"], .page 2, .page 2, .page 2]

theorem copy_eq_live_pagedRun : ∃ w, system.exec World.initial pagedRun = some w ∧
    ∀ p, p ∈ w.client.copy ↔ w.log.IsLive p := by
  have hrun : (system.exec World.initial pagedRun).map (fun w => (w.client.stand, w.quiet)) =
      some (.synced ⟨"e1", 2⟩, true) := by decide
  obtain ⟨w, hw, heq⟩ := Option.map_eq_some_iff.mp hrun
  obtain ⟨hs, hq⟩ := Prod.mk.inj heq
  exact ⟨w, hw, copy_eq_live ⟨World.initial, pagedRun, rfl, hw⟩ hs hq⟩

end Mbrc.ChangeLogSync
