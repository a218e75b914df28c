import MbrcPlugin.NowPlaying.ListVersion

/-!
# The version guard

A guarded mutation is meant for the queue its page was read from.  A step is `Orderly` when a page
takes its version only after every change has moved it, when a mutation passes its check only then,
and when the queue does not change between a mutation's check and its calls: the handlers see to
none of the three.  The invariant (`Inv`): while its version stands and no change is unmarked, a
page shows the queue.
-/

namespace Mbrc.ListVersion

open Providers

variable {Q : Type} [DecidableEq Q]

/-! ## What is promised -/

/-- The calls find the queue, and then what the call before left. -/
def Chain (q : Q) : List (Q × Q) → Prop
  | [] => True
  | call :: rest => call.1 = q ∧ Chain call.2 rest

/-- What the calls leave of the queue. -/
def endOf (q : Q) (calls : List (Q × Q)) : Q := calls.foldl (fun _ call => call.2) q

structure GuardHolds (w : World Q) : Prop where
  /-- A mutation meets the queue every page of its version was read from. -/
  onQueue : ∀ m ∈ w.mutations, ∀ page ∈ m.held, m.mutation.version = some (page.version : Int) →
    ∀ q ∈ page.reads, Chain q m.calls
  /-- Of two mutations of one version only one changes the queue. -/
  once : ∀ (i j : Nat) (m m' : Handling Q), w.mutations[i]? = some m →
    w.mutations[j]? = some m' → i ≠ j → m.mutation.version ≠ none →
      m'.mutation.version = m.mutation.version → m.changed = true → m'.changed = false
  /-- One checked after that is refused. -/
  late : ∀ m ∈ w.mutations, m.late = true → m.stage = .done .staleList
  /-- A refused mutation makes no call. -/
  refused : ∀ m ∈ w.mutations, m.stage = .done .staleList → m.calls = []

/-! ## When it holds -/

/-- The condition on a step of a mutation: a guarded one passes its check when the version has
moved since the last change, and its calls find the queue unchanged since; the version does not
come round. -/
def StepOrderly (w : World Q) (m : Handling Q) : Prop :=
  match m.stage with
  | .received =>
    m.mutation.version ≠ none → stale m.mutation.version w.version = false → w.unsettled = false
  | .calling (_ :: _) => m.mutation.version ≠ none → w.rev = m.rev
  | .bumping _ => w.version + 1 < 2 ^ 64
  | _ => True

/-- A page takes its version when that has moved since the last change, and the queue is still the
one it has read. -/
def Orderly (w : World Q) : Event → Prop
  | .read n _ => ∀ r rest, w.readings[n]? = some r → r.todo = .version :: rest →
      w.unsettled = false ∧ ∀ q ∈ r.reads, q = w.queue
  | .run n _ => ∀ m, w.mutations[n]? = some m → StepOrderly w m
  | .notify => w.version + 1 < 2 ^ 64
  | _ => True

/-! ## Calls and versions -/

omit [DecidableEq Q] in
theorem chain_append {q : Q} {calls : List (Q × Q)} {call : Q × Q} (h : Chain q calls)
    (hcall : call.1 = endOf q calls) : Chain q (calls ++ [call]) := by
  induction calls generalizing q with
  | nil => exact ⟨hcall, trivial⟩
  | cons c calls ih => exact ⟨h.1, ih h.2 hcall⟩

omit [DecidableEq Q] in
@[simp] theorem endOf_append (q : Q) (calls : List (Q × Q)) (call : Q × Q) :
    endOf q (calls ++ [call]) = call.2 := by
  simp [endOf]

/-- A version below the bound is the one a client read. -/
theorem eq_of_bmod {v v' : Nat} (hv : v < 2 ^ 64) (h : (v' : Int) = (v : Int).bmod (2 ^ 64)) :
    v' = v := by
  rw [Int.bmod_def] at h
  split at h <;> omega

theorem bmod_inj {v v' : Nat} (hv : v < 2 ^ 64) (hv' : v' < 2 ^ 64)
    (h : (v : Int).bmod (2 ^ 64) = (v' : Int).bmod (2 ^ 64)) : v = v' := by
  rw [Int.bmod_def, Int.bmod_def] at h
  split at h <;> split at h <;> omega

theorem not_stale_iff {version : Option Int} {e : Int} {current : Nat} (he : version = some e) :
    stale version current = false ↔ e = (current : Int).bmod (2 ^ 64) := by
  subst he
  simp only [stale, Option.any_some, decide_eq_false_iff_not, ne_eq, not_not]

section Put

variable {w : World Q} {q : Q}

theorem put_rev_le : w.rev ≤ (w.put q).rev := by
  unfold World.put
  split
  · exact le_rfl
  · exact Nat.le_succ _

/-- The queue is the one it was where the count of changes is. -/
theorem put_of_rev (h : (w.put q).rev = w.rev) : (w.put q) = w := by
  unfold World.put at h ⊢
  split
  · rfl
  · rename_i hne
    rw [if_neg hne] at h
    exact absurd h (by simp)

@[simp] theorem put_version : (w.put q).version = w.version := by
  unfold World.put
  split <;> rfl

@[simp] theorem put_mutations : (w.put q).mutations = w.mutations := by
  unfold World.put
  split <;> rfl

@[simp] theorem put_pages : (w.put q).pages = w.pages := by
  unfold World.put
  split <;> rfl

@[simp] theorem put_readings : (w.put q).readings = w.readings := by
  unfold World.put
  split <;> rfl

@[simp] theorem put_queue : (w.put q).queue = q := by
  unfold World.put
  split
  · rename_i h
    exact h.symm
  · rfl

theorem put_unsettled (h : q ≠ w.queue) :
    (w.put q).unsettled = true ∧ (w.put q).rev = w.rev + 1 := by
  unfold World.put
  rw [if_neg h]
  exact ⟨rfl, rfl⟩

end Put

/-! ## The invariant -/

/-- While the version of the reads stands and no change is left unmarked, they show the queue. -/
def Current (w : World Q) (version : Nat) (reads : List Q) : Prop :=
  version ≤ w.version ∧ (version = w.version → w.unsettled = true ∨ ∀ q ∈ reads, q = w.queue)

structure Sound (w : World Q) (m : Handling Q) : Prop where
  held : ∀ page ∈ m.held, page ∈ w.pages
  received : m.stage = .received → m.calls = [] ∧ m.late = false
  refused : m.stage = .done .staleList → m.calls = []
  late : m.late = true → m.stage = .done .staleList
  rev : m.rev ≤ w.rev
  seen : m.seen ≤ w.version
  /-- It carries the version it was checked against. -/
  passed : ∀ e, m.mutation.version = some e → m.calls ≠ [] ∨ m.stage.isLive = true →
    e = (m.seen : Int).bmod (2 ^ 64)
  /-- What it changed is marked by the version, or will be. -/
  marked : m.mutation.version ≠ none → m.changed = true → m.seen = w.version → w.unsettled = true
  meets : ∀ page ∈ m.held, m.mutation.version = some (page.version : Int) → ∀ q ∈ page.reads,
    Chain q m.calls ∧ (m.stage.isLive = true → w.rev = m.rev → endOf q m.calls = w.queue)

structure Inv (w : World Q) : Prop where
  bound : w.version < 2 ^ 64
  pages : ∀ page ∈ w.pages, Current w page.version page.reads
  readings : ∀ r ∈ w.readings, ∀ version, r.version = some version → Current w version r.reads
  mutations : ∀ m ∈ w.mutations, Sound w m
  /-- After a mutation has changed the queue, no other of its version calls. -/
  pairs : ∀ (i j : Nat) (m m' : Handling Q), w.mutations[i]? = some m →
    w.mutations[j]? = some m' → i ≠ j → m.mutation.version ≠ none →
      m'.mutation.version = m.mutation.version → m.changed = true →
        m'.changed = false ∧ (m'.stage.isLive = true → m'.rev < w.rev)

theorem Inv.guardHolds {w : World Q} (h : Inv w) : GuardHolds w where
  onQueue m hm page hpage hversion q hq := ((h.mutations m hm).meets page hpage hversion q hq).1
  once i j m m' hi hj hij hversion hsame hchanged :=
    (h.pairs i j m m' hi hj hij hversion hsame hchanged).1
  late m hm := (h.mutations m hm).late
  refused m hm := (h.mutations m hm).refused

/-! ## How the queue and its version move -/

/-- A change leaves the version unsettled until it moves. -/
structure Moves (w w' : World Q) : Prop where
  version : w.version ≤ w'.version
  rev : w.rev ≤ w'.rev
  queue : w'.rev = w.rev → w'.queue = w.queue
  unsettled : w'.version = w.version → w.unsettled = true → w'.unsettled = true
  changed : w'.version = w.version → w'.unsettled = true ∨ w'.queue = w.queue

section Moves

variable {w w' : World Q}

omit [DecidableEq Q] in
theorem Moves.refl : Moves w w := ⟨le_rfl, le_rfl, fun _ => rfl, fun _ h => h, fun _ => Or.inr rfl⟩

theorem moves_put (q : Q) : Moves w (w.put q) := by
  refine ⟨by simp, put_rev_le, fun h => by rw [put_of_rev h], fun _ h => ?_, fun _ => ?_⟩
  · unfold World.put
    split
    · exact h
    · rfl
  · by_cases hq : q = w.queue
    · exact Or.inr (by rw [put_queue, hq])
    · exact Or.inl (put_unsettled hq).1

omit [DecidableEq Q] in
theorem moves_bump (h : w.version + 1 < 2 ^ 64) : Moves w w.bump := by
  have hv : w.bump.version = w.version + 1 := Nat.mod_eq_of_lt h
  refine ⟨by omega, le_rfl, fun _ => rfl, fun heq => ?_, fun heq => ?_⟩ <;> omega

omit [DecidableEq Q] in
theorem Current.moves {version : Nat} {reads : List Q} (h : Current w version reads)
    (hm : Moves w w') : Current w' version reads := by
  refine ⟨h.1.trans hm.version, fun heq => ?_⟩
  have hle := h.1
  have hle' := hm.version
  have hsame : w'.version = w.version := by omega
  rcases h.2 (by omega) with hu | hreads
  · exact Or.inl (hm.unsettled hsame hu)
  · exact (hm.changed hsame).imp_right fun hq q hmem => (hreads q hmem).trans hq.symm

theorem Sound.moves {m : Handling Q} (h : Sound w m) (hm : Moves w w')
    (hpages : ∀ page ∈ w.pages, page ∈ w'.pages) : Sound w' m := by
  refine ⟨fun page hp => hpages page (h.held page hp), h.received, h.refused, h.late,
    h.rev.trans hm.rev, h.seen.trans hm.version, h.passed, fun hv hc heq => ?_,
    fun page hp hversion q hq => ?_⟩
  · have hle := h.seen
    have hle' := hm.version
    exact hm.unsettled (by omega) (h.marked hv hc (by omega))
  · obtain ⟨hchain, hend⟩ := h.meets page hp hversion q hq
    refine ⟨hchain, fun hlive hrev => ?_⟩
    have hle := h.rev
    have hle' := hm.rev
    exact (hend hlive (by omega)).trans (hm.queue (by omega)).symm

/-- What keeps the readings, the pages and the mutations. -/
theorem Inv.moves (h : Inv w) (hm : Moves w w') (hbound : w'.version < 2 ^ 64)
    (hreadings : w'.readings = w.readings) (hpages : w'.pages = w.pages)
    (hmutations : w'.mutations = w.mutations) : Inv w' := by
  refine ⟨hbound, ?_, ?_, ?_, ?_⟩
  · rw [hpages]
    exact fun page hp => (h.pages page hp).moves hm
  · rw [hreadings]
    exact fun r hr version hv => (h.readings r hr version hv).moves hm
  · rw [hmutations]
    exact fun m hmem => (h.mutations m hmem).moves hm fun page hp => hpages ▸ hp
  · rw [hmutations]
    intro i j m m' hi hj hij hversion hsame hchanged
    obtain ⟨hno, hlive⟩ := h.pairs i j m m' hi hj hij hversion hsame hchanged
    exact ⟨hno, fun hl => Nat.lt_of_lt_of_le (hlive hl) hm.rev⟩

end Moves

/-! ## Pages -/

section Pages

variable {w : World Q} {r r' : Reading Q} {n : Nat}

/-- A page takes the version of the queue it has read. -/
theorem Inv.read {fails : Bool} (h : Inv w) (hr : w.readings[n]? = some r)
    (ho : ∀ rest, r.todo = .version :: rest → w.unsettled = false ∧ ∀ q ∈ r.reads, q = w.queue)
    (hstep : r.step w fails = some r') : Inv { w with readings := w.readings.set n r' } := by
  refine ⟨h.bound, h.pages, fun s hs version hv => ?_, fun m hm =>
    (h.mutations m hm).moves ⟨le_rfl, le_rfl, fun _ => rfl, fun _ hu => hu, fun _ => Or.inr rfl⟩
      fun _ hp => hp, h.pairs⟩
  rcases List.mem_or_eq_of_mem_set hs with hs | rfl
  · exact h.readings s hs version hv
  · have hold := h.readings r (List.mem_of_getElem? hr)
    unfold Reading.step at hstep
    split at hstep
    · split at hstep
      · simp at hstep
      · obtain rfl := Option.some.inj hstep
        obtain ⟨hle, hcur⟩ := hold version hv
        refine ⟨hle, fun heq => (hcur heq).imp_right fun hreads q hq => ?_⟩
        rcases List.mem_append.mp hq with hq | hq
        · exact hreads q hq
        · exact List.mem_singleton.mp hq
    · rename_i rest htodo
      obtain rfl := Option.some.inj hstep
      obtain rfl : w.version = version := Option.some.inj hv
      exact ⟨le_rfl, fun _ => Or.inr (ho rest htodo).2⟩
    · simp at hstep

theorem Inv.drop (h : Inv w) : Inv { w with readings := w.readings.eraseIdx n } :=
  ⟨h.bound, h.pages, fun r hr => h.readings r (List.mem_of_mem_eraseIdx hr), fun m hm =>
    (h.mutations m hm).moves ⟨le_rfl, le_rfl, fun _ => rfl, fun _ hu => hu, fun _ => Or.inr rfl⟩
      fun _ hp => hp, h.pairs⟩

theorem Inv.list (h : Inv w) (todo : List PageStep) :
    Inv { w with readings := w.readings ++ [{ todo }] } := by
  refine ⟨h.bound, h.pages, fun r hr version hv => ?_, fun m hm =>
    (h.mutations m hm).moves ⟨le_rfl, le_rfl, fun _ => rfl, fun _ hu => hu, fun _ => Or.inr rfl⟩
      fun _ hp => hp, h.pairs⟩
  rcases List.mem_append.mp hr with hr | hr
  · exact h.readings r hr version hv
  · obtain rfl := List.mem_singleton.mp hr
    simp at hv

theorem Inv.answer {version : Nat} (h : Inv w) (hr : w.readings[n]? = some r)
    (hv : r.version = some version) :
    Inv { w with
      readings := w.readings.eraseIdx n, pages := w.pages ++ [{ version, reads := r.reads }] } := by
  refine ⟨h.bound, fun page hp => ?_, fun r hr => h.readings r (List.mem_of_mem_eraseIdx hr),
    fun m hm => (h.mutations m hm).moves
      ⟨le_rfl, le_rfl, fun _ => rfl, fun _ hu => hu, fun _ => Or.inr rfl⟩
      fun _ hp => List.mem_append_left _ hp, h.pairs⟩
  rcases List.mem_append.mp hp with hp | hp
  · exact h.pages page hp
  · obtain rfl := List.mem_singleton.mp hp
    exact h.readings r (List.mem_of_getElem? hr) version hv

end Pages

end Mbrc.ListVersion
