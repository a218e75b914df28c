import MbrcPlugin.Host.Walks

/-!
# A walk sees one state

The queries that walk answer what they answer alone at one moment of their call.  Those that read
the library, a lookup table or the playlists do in every run; those that read the now playing list
do where no command outside the lock moves what they read.
-/

namespace Mbrc.Host

open Interference Transition

namespace HostCalls

variable {V Out : Type} {M : MusicBee V}

/-- The query reads nothing of the list, the play position and the play order. -/
def ReadsNoList (q : QueryType) : Prop := ∀ p ∈ q.sees, p ∉ playing

/-- Every walk but those of the now playing list is such a query. -/
theorem readsNoList_of_walks {q : QueryType} (hwalk : q.walks = true)
    (hq : q ∉ ([.nowPlayingList, .nowPlayingListOrdered, .nowPlayingListOrder] : List QueryType)) :
    ReadsNoList q := by
  revert hwalk hq
  unfold ReadsNoList
  cases q <;> decide

/-- A walk that reads nothing of them is never disturbed. -/
theorem undisturbed_readsNoList (s : HostCalls V Out) (event : Event Out) :
    Undisturbed M ReadsNoList s event := by
  cases event with
  | perform t =>
    intro r c _ _ _ u walk q _ _ _ _ hQ p hp hplaying
    exact absurd hplaying (hQ p hp)
  | _ => trivial

/-- **A walk sees one state.** In a run whose calls outside the lock leave alone what a walk under
way reads of the list, the play position and the play order, every query that walks answered what
it answers when it is run alone at some moment between its start and its end; and a query that
reads nothing of these three did so in every run. -/
theorem walk_sees_one_state (M : MusicBee V) (state : Part → V) (events : List (Event Out))
    (s : HostCalls V Out) (hexec : (system M Out).exec (idle state) events = some s)
    (r : Running V Out) (out : Out) (hans : (r, out) ∈ s.answered) :
    ((system M Out).Along (Undisturbed M fun _ => True) (idle state) events →
      OneState M (fun _ => True) r out) ∧
    OneState M ReadsNoList r out := by
  constructor
  · intro hquiet
    have h : Walks M (fun _ => True) s :=
      (system M Out).exec_induction step_walks (idle_walks M _ state) hquiet hexec
    exact h.answered r out hans
  · have hstep : ∀ (s : HostCalls V Out) event s', Walks M ReadsNoList s → True →
        (system M Out).next s event = some s' → Walks M ReadsNoList s' :=
      fun s event s' h _ hs => step_walks s event s' h (undisturbed_readsNoList s event) hs
    have h : Walks M ReadsNoList s :=
      (system M Out).exec_induction hstep (idle_walks M _ state)
        ((system M Out).along_true _ _) hexec
    exact h.answered r out hans

end HostCalls

/-! ## A command that lands in a walk -/

/-- What a MusicBee with the tracks `a`, `b` and `c` queued in order answers when the one of the
index `playing` plays. -/
def threeTracksAnswer (c : ApiCall) (playing : Nat) : Answer :=
  match c.function, c.args with
  | .nowPlayingListQueryFiles, _ => .flag true
  | .nowPlayingListGetCurrentIndex, _ => .number playing
  | .nowPlayingListGetListFileUrl, [.number i] =>
    .text (if i = 0 then "a" else if i = 1 then "b" else if i = 2 then "c" else "")
  | .nowPlayingListGetNextIndex, [.number k] =>
    .number (if playing + k < 3 then playing + k else -1)
  | .playerPlayNextTrack, _ => .flag true
  | _, _ => .nothing

theorem threeTracksAnswer_eq {c : ApiCall} (h : .playPosition ∉ c.function.reads) (m n : Nat) :
    threeTracksAnswer c m = threeTracksAnswer c n := by
  unfold threeTracksAnswer
  split
  case h_2 hf => exact absurd (by rw [hf]; decide) h
  case h_4 hf _ => exact absurd (by rw [hf]; decide) h
  all_goals rfl

theorem writes_reads (f : ApiFunction) : ∀ p ∈ f.writes, p ∈ f.reads := by
  cases f <;> decide

/-- That MusicBee; the next track moves the play position. -/
def threeTracks : MusicBee Nat where
  perform c w :=
    (threeTracksAnswer c (w .playPosition),
      if c.function = .playerPlayNextTrack then
        Function.update w .playPosition (min (w .playPosition + 1) 2)
      else w)
  frame := by
    intro c w p hp
    show (if c.function = .playerPlayNextTrack then _ else w) p = w p
    split
    · rename_i hf
      apply Function.update_of_ne
      rintro rfl
      rw [hf] at hp
      exact hp (by decide)
    · rfl
  answer_local := by
    intro c w w' h
    show threeTracksAnswer c (w .playPosition) = threeTracksAnswer c (w' .playPosition)
    by_cases hreads : .playPosition ∈ c.function.reads
    · rw [h _ hreads]
    · exact threeTracksAnswer_eq hreads _ _
  write_local := by
    intro c w w' p h hp
    have hsame := h p (writes_reads c.function p hp)
    show (if c.function = .playerPlayNextTrack then _ else w) p =
      (if c.function = .playerPlayNextTrack then _ else w') p
    split
    · rename_i hf
      have hpos : w .playPosition = w' .playPosition := h _ (by rw [hf]; decide)
      by_cases hp' : p = .playPosition
      · subst hp'
        rw [Function.update_self, Function.update_self, hpos]
      · rw [Function.update_of_ne hp', Function.update_of_ne hp', hsame]
    · exact hsame

/-- A walk of the play order, and the next track in the middle of it. -/
def nextInAWalk : List (HostCalls.Event Reply) :=
  [.begin 0 nowPlayingListOrder, .begin 1 next, .acquire 0, .perform 0, .perform 0, .perform 0,
    .perform 1, .perform 0, .perform 0, .perform 0, .perform 0, .finish 0]

/-- The first track plays. -/
def firstPlays : Part → Nat := fun _ => 0

/-- The second one does. -/
def secondPlays : Part → Nat := Function.update firstPlays .playPosition 1

/-- `PlayNext` runs outside the lock, and the order it lands in is read as one the queue never
had. -/
theorem next_lands_in_a_walk : ¬ ∀ s, (HostCalls.system threeTracks Reply).Reachable s →
    ∀ r out, (r, out) ∈ s.answered → HostCalls.OneState threeTracks (fun _ => True) r out := by
  intro hall
  obtain ⟨s, r, hs, hans, hcall, hduring⟩ : ∃ s r,
      (HostCalls.system threeTracks Reply).exec (HostCalls.idle firstPlays) nextInAWalk = some s ∧
      (r, ⟨[[.number 0, .text "a"], [.number 2, .text "c"]], 2⟩) ∈ s.answered ∧
      r.call = nowPlayingListOrder ∧ ∀ w ∈ r.during, w = firstPlays ∨ w = secondPlays := by
    refine ⟨_, _, rfl, List.mem_cons_self, rfl, ?_⟩
    iterate 5 refine List.forall_mem_cons.mpr ⟨Or.inr rfl, ?_⟩
    iterate 4 refine List.forall_mem_cons.mpr ⟨Or.inl rfl, ?_⟩
    simp
  obtain ⟨w, hw, halone⟩ := hall s ⟨_, _, ⟨firstPlays, rfl⟩, hs⟩ r _ hans .nowPlayingListOrder
    (by rw [hcall]; rfl) rfl trivial
  rw [hcall] at halone
  rcases hduring w hw with rfl | rfl
  · have hfirst : threeTracks.Alone nowPlayingListOrder.prog firstPlays
        ⟨[[.number 0, .text "a"], [.number 1, .text "b"], [.number 2, .text "c"]], 3⟩ :=
      ⟨20, rfl⟩
    have := threeTracks.alone_unique _ halone hfirst
    revert this
    decide
  · have hsecond : threeTracks.Alone nowPlayingListOrder.prog secondPlays
        ⟨[[.number 1, .text "b"], [.number 2, .text "c"]], 2⟩ := ⟨20, rfl⟩
    have := threeTracks.alone_unique _ halone hsecond
    revert this
    decide

/-- The rows of a walk from the first track on. -/
def wholeWalk : Reply :=
  ⟨[[.number 0, .text "a"], [.number 1, .text "b"], [.number 2, .text "c"]], 3⟩

/-- A walk with nothing in the middle of it, and the next track asked for meanwhile. -/
def nextAfterAWalk : List (HostCalls.Event Reply) :=
  [.begin 0 nowPlayingListOrder, .begin 1 next, .acquire 0, .perform 0, .perform 0, .perform 0,
    .perform 0, .perform 0, .perform 0, .perform 0, .perform 0, .perform 0, .finish 0, .perform 1]

/-- A walk with the next track after it sees the state before it. -/
theorem walk_sees_one_state_nextAfter : ∃ s r,
    (HostCalls.system threeTracks Reply).exec (HostCalls.idle firstPlays) nextAfterAWalk =
      some s ∧ HostCalls.OneState threeTracks (fun _ => True) r wholeWalk := by
  obtain ⟨s, r, hs, hans⟩ : ∃ s r,
      (HostCalls.system threeTracks Reply).exec (HostCalls.idle firstPlays) nextAfterAWalk =
        some s ∧ (r, wholeWalk) ∈ s.answered := ⟨_, _, rfl, List.mem_cons_self⟩
  refine ⟨s, r, hs, (HostCalls.walk_sees_one_state threeTracks _ _ s hs r _ hans).1 ?_⟩
  have hserial : ∀ {o : Option (Running Nat Reply)} {r : Running Nat Reply}, o = some r →
      o.map (·.call.kind.serial) = some true → r.call.kind.serial ≠ false := by
    rintro _ r rfl h
    simpa using h
  iterate 3 refine System.along_cons _ trivial rfl ?_
  iterate 9
    refine System.along_cons _ (fun r c hr hs _ => absurd hs (hserial hr rfl)) rfl ?_
  refine System.along_cons _ trivial rfl (System.along_cons _ ?_ rfl trivial)
  intro r c _ _ _ u walk q hu
  have hfree : (none : Option Nat) = some u := hu
  simp at hfree

end Mbrc.Host
