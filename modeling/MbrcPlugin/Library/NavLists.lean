import MbrcPlugin.Lib.OrderedTable
import MbrcPlugin.Lib.Transition
import Mathlib.Data.String.Basic

/-!
# The cached drill-downs

The artists of a genre, the albums of an artist and the tracks of an album are cached on first
request, each under the name it was asked for, and are dropped all at once when the library moves.
A fetch that is under way across a drop must not be kept: a request takes the count of the drops
before it looks into the cache, a drop raises the count before it deletes, and the list is written
only in a transaction that finds the count as it was taken.

Requests and the tasks that write to the cache take turns step by step, and one write transaction
is open at a time.  `Row.began`, `World.dropped` and `World.served` are there for the statements: no
step of the code reads them.
-/

namespace Mbrc.NavLists

/-! ## Keys -/

inductive Drill where
  | genreArtists | artistAlbums | albumTracks
  deriving DecidableEq

namespace Drill

def keyPrefix : Drill → String
  | genreArtists => "genre_artists:"
  | artistAlbums => "artist_albums:"
  | albumTracks => "album_tracks:"

def key (d : Drill) (name : String) : String := d.keyPrefix ++ name

def all : List Drill := [genreArtists, artistAlbums, albumTracks]

end Drill

/-- A list that is cached whole. -/
inductive Browse where
  | genres
  | artists (albumArtists : Bool)
  | albums
  deriving DecidableEq

def Browse.key : Browse → String
  | genres => "browse_genres"
  | artists true => "browse_artists:aa=true"
  | artists false => "browse_artists:aa=false"
  | albums => "browse_albums"

/-- The key is one of `NAV_LIST_PREFIXES`. -/
def isNavList (key : String) : Bool :=
  Drill.all.any fun d => d.keyPrefix.toList.isPrefixOf key.toList

theorem isNavList_key (d : Drill) (name : String) : isNavList (d.key name) = true := by
  rw [isNavList, List.any_eq_true]
  refine ⟨d, by cases d <;> simp [Drill.all], ?_⟩
  rw [Drill.key, String.toList_append, List.isPrefixOf_iff_prefix]
  exact List.prefix_append _ _

theorem isNavList_browse (b : Browse) : isNavList b.key = false := by
  cases b with
  | artists albumArtists => cases albumArtists <;> decide
  | _ => decide

/-! ## The store -/

/-- A cached list. -/
structure Row (β : Type) where
  list : β
  /-- How many drops had begun when its fetch began. -/
  began : Nat

def navListsVersion : Nat := 1

/-- `METADATA_CACHE` without the drill-downs. -/
def retainOthers {β : Type} (t : Table String (Row β)) : Table String (Row β) :=
  t.eraseAll ((t.rows.map Prod.fst).filter isNavList)

theorem get?_retainOthers {β : Type} (t : Table String (Row β)) (key : String) :
    (retainOthers t).get? key = if isNavList key then none else t.get? key := by
  rw [retainOthers, Table.get?_eraseAll]
  by_cases hkey : isNavList key = true
  · rw [if_pos hkey]
    split
    · rfl
    · rename_i hnot
      cases hget : t.get? key with
      | none => rfl
      | some row =>
        refine absurd (List.mem_filter.mpr ⟨?_, hkey⟩) hnot
        exact List.mem_map.mpr ⟨(key, row), Table.mem_rows.mpr hget, rfl⟩
  · rw [if_neg hkey, if_neg]
    intro hmem
    exact hkey (List.mem_filter.mp hmem).2

/-! ## Requests and tasks -/

/-- Where a call of `nav_cached` stands. -/
inductive Phase (β : Type) where
  | asked
  /-- The count is taken. -/
  | counted (generation : Nat)
  /-- The cache is live. -/
  | admitted (generation : Nat)
  | missed (generation : Nat)
  /-- The host is asked. -/
  | fetching (generation began : Nat)
  | fetched (generation : Nat) (row : Row β)
  | permitted (generation : Nat) (row : Row β)
  /-- In its write transaction, with the count as it was taken. -/
  | storing (generation : Nat) (row : Row β)
  | answered (list : Option β)

structure Request (β : Type) where
  drill : Drill
  name : String
  phase : Phase β := .asked

def Request.key {β : Type} (r : Request β) : String := r.drill.key r.name

/-- What a task still has to do. -/
inductive Op (β : Type) where
  /-- Nothing more is done unless the cache is live. -/
  | gate
  /-- `drop_nav_lists`. -/
  | drop
  /-- The transaction of a drop, which was the one of this number. -/
  | dropLists (n : Nat)
  /-- The drop of `reconcile`. -/
  | dropIfMoved (moved : Bool)
  | clear
  | setValidated (value : Bool)
  | put (b : Browse) (list : β)
  | insert (b : Browse) (list : β)

/-- A call that writes to the cache. -/
inductive Call (β : Type) where
  | dropNavLists
  /-- The browse lists it fetches again. -/
  | relistLibrary (lists : List (Browse × β))
  | invalidate
  /-- The record changed its shape, the fingerprint moved, there are no stamps. -/
  | reconcile (restaled moved unstamped : Bool)

def Call.ops {β : Type} : Call β → List (Op β)
  | dropNavLists => [.drop]
  | relistLibrary lists => [.gate, .drop] ++ lists.map fun page => .put page.1 page.2
  | invalidate => [.setValidated false, .clear]
  | reconcile restaled moved unstamped =>
    (if restaled || (moved && unstamped) then [.clear] else []) ++
      [.dropIfMoved (restaled || moved), .setValidated true]

/-- An answer out of the cache. -/
structure Served (β : Type) where
  row : Row β
  /-- The drops that had completed. -/
  dropped : List Nat

structure World (β : Type) where
  validated : Bool
  /-- `nav_generation`: how many drops have begun. -/
  generation : Nat
  lists : Table String (Row β)
  /-- `NAV_LISTS_SCHEMA`. -/
  listsVersion : Option Nat
  /-- The request that has the write transaction. -/
  writer : Option Nat
  requests : List (Request β)
  tasks : List (List (Op β))
  dropped : List Nat
  served : List (Served β)

namespace World

variable {β : Type}

def setPhase (w : World β) (n : Nat) (r : Request β) (phase : Phase β) : World β :=
  { w with requests := w.requests.set n { r with phase } }

/-- The next step of a request: whether a read succeeds, and what the host answers. -/
def advance (w : World β) (n : Nat) (r : Request β) (reads : Bool) (list : Option β) :
    Option (World β) :=
  match r.phase with
  | .asked => some (w.setPhase n r (.counted w.generation))
  | .counted generation =>
    some (w.setPhase n r (if w.validated then .admitted generation else .missed generation))
  | .admitted generation =>
    match if reads then w.lists.get? r.key else none with
    | some row =>
      some { (w.setPhase n r (.answered (some row.list))) with
        served := w.served ++ [{ row, dropped := w.dropped }] }
    | none => some (w.setPhase n r (.missed generation))
  | .missed generation => some (w.setPhase n r (.fetching generation w.generation))
  | .fetching generation began =>
    match list with
    | some list => some (w.setPhase n r (.fetched generation { list, began }))
    | none => some (w.setPhase n r (.answered none))
  | .fetched generation row =>
    some (w.setPhase n r
      (if w.validated then .permitted generation row else .answered (some row.list)))
  | .permitted generation row => do
    guard (w.writer = none)
    if w.generation = generation then
      return { (w.setPhase n r (.storing generation row)) with writer := some n }
    else return w.setPhase n r (.answered (some row.list))
  | .storing _ row =>
    some { (w.setPhase n r (.answered (some row.list))) with
      writer := none, lists := w.lists.insert r.key row }
  | .answered _ => none

/-- The next step of a task, and what is left of it. -/
def perform (w : World β) (reads : Bool) : List (Op β) → Option (World β × List (Op β))
  | [] => none
  | .gate :: rest => some (w, if w.validated then rest else [])
  | .drop :: rest =>
    some ({ w with generation := w.generation + 1 }, .dropLists w.generation :: rest)
  | .dropLists n :: rest => do
    guard (w.writer = none)
    return ({ w with
      lists := retainOthers w.lists
      listsVersion := some navListsVersion
      dropped := n :: w.dropped }, rest)
  | .dropIfMoved moved :: rest =>
    let version := if reads then w.listsVersion else none
    some (w, if moved || version ≠ some navListsVersion then .drop :: rest else rest)
  | .clear :: rest => do
    guard (w.writer = none)
    return ({ w with lists := Table.empty }, rest)
  | .setValidated value :: rest => some ({ w with validated := value }, rest)
  | .put b list :: rest => some (w, if w.validated then .insert b list :: rest else rest)
  | .insert b list :: rest => do
    guard (w.writer = none)
    return ({ w with lists := w.lists.insert b.key { list, began := w.generation } }, rest)

end World

/-! ## Steps -/

inductive Event (β : Type) where
  | request (drill : Drill) (name : String)
  | advance (n : Nat) (reads : Bool) (list : Option β)
  | call (c : Call β)
  | perform (t : Nat) (reads : Bool)

section

variable {β : Type}

def step (w : World β) : Event β → Option (World β)
  | .request drill name => some { w with requests := w.requests ++ [{ drill, name }] }
  | .advance n reads list => do
    let r ← w.requests[n]?
    w.advance n r reads list
  | .call c => some { w with tasks := w.tasks ++ [c.ops] }
  | .perform t reads => do
    let ops ← w.tasks[t]?
    let (w', rest) ← w.perform reads ops
    return { w' with tasks := w.tasks.set t rest }

/-- The cache of a server that starts, over what an earlier one has stored. -/
def World.new (lists : Table String (Row β)) (listsVersion : Option Nat) : World β :=
  { validated := false, generation := 0, lists, listsVersion, writer := none, requests := []
    tasks := [], dropped := [], served := [] }

def system : Transition.System (World β) (Event β) where
  start w := ∃ lists listsVersion,
    (∀ key row, lists.get? key = some row → row.began = 0) ∧ w = World.new lists listsVersion
  next := step

end

/-! ## What is promised -/

/-- A list out of the cache was fetched after the start of every drop that had completed. -/
def Fresh {β : Type} (w : World β) : Prop := ∀ s ∈ w.served, ∀ n ∈ s.dropped, n < s.row.began

/-! ## The invariant -/

section

variable {β : Type}

/-- A count that a request goes by is not above the count at its fetch; the request that writes has
the transaction, and every drop that has completed was counted. -/
def Phase.Sound (generation : Nat) (dropped : List Nat) (writer : Option Nat) (n : Nat) :
    Phase β → Prop
  | .counted g | .admitted g | .missed g => g ≤ generation
  | .fetching g began => g ≤ began
  | .fetched g row | .permitted g row => g ≤ row.began
  | .storing g row => g ≤ row.began ∧ (∀ d ∈ dropped, d < g) ∧ writer = some n
  | _ => True

/-- What a task is about to finish has begun. -/
def Begun (generation : Nat) (ops : List (Op β)) : Prop :=
  ∀ n, Op.dropLists n ∈ ops → n < generation

structure Inv (w : World β) : Prop where
  rows : ∀ key row, isNavList key = true → w.lists.get? key = some row →
    ∀ n ∈ w.dropped, n < row.began
  begun : ∀ n ∈ w.dropped, n < w.generation
  tasks : ∀ ops ∈ w.tasks, Begun w.generation ops
  requests : ∀ n (r : Request β), w.requests[n]? = some r →
    r.phase.Sound w.generation w.dropped w.writer n
  served : Fresh w

variable {w w' : World β} {n : Nat} {r : Request β} {phase : Phase β}

theorem Inv.initial {lists : Table String (Row β)} {listsVersion : Option Nat} :
    Inv (World.new lists listsVersion) where
  rows _ _ _ _ d hd := absurd hd (by simp [World.new])
  begun d hd := absurd hd (by simp [World.new])
  tasks ops hops := absurd hops (by simp [World.new])
  requests n r hr := absurd hr (by simp [World.new])
  served s hs := absurd hs (by simp [World.new])

/-! ## Requests -/

/-- A request that moves on, when it is the only one whose transaction starts or ends. -/
theorem Inv.setPhase {writer : Option Nat} (h : Inv w)
    (hphase : phase.Sound w.generation w.dropped writer n)
    (hwriter : writer = w.writer ∨ w.writer = none ∨ w.writer = some n) :
    Inv { (w.setPhase n r phase) with writer } where
  rows := h.rows
  begun := h.begun
  tasks := h.tasks
  requests m q hq := by
    dsimp only [World.setPhase] at hq ⊢
    rw [List.getElem?_set] at hq
    split at hq
    · rename_i hnm
      subst hnm
      split at hq
      · obtain rfl := Option.some.inj hq
        exact hphase
      · simp at hq
    · rename_i hnm
      have hold := h.requests m q hq
      cases hqp : q.phase with
      | storing g row =>
        rw [hqp] at hold
        obtain ⟨hg, hd, hm⟩ := hold
        rcases hwriter with rfl | hnone | hsome
        · exact ⟨hg, hd, hm⟩
        · rw [hm] at hnone
          simp at hnone
        · rw [hm] at hsome
          exact absurd (Option.some.inj hsome).symm hnm
      | _ => rw [hqp] at hold; exact hold
  served := h.served

theorem Inv.setPhase_same (h : Inv w)
    (hphase : phase.Sound w.generation w.dropped w.writer n) : Inv (w.setPhase n r phase) :=
  h.setPhase hphase (Or.inl rfl)

theorem advance_inv {reads : Bool} {list : Option β} (h : Inv w) (hr : w.requests[n]? = some r)
    (hstep : w.advance n r reads list = some w') : Inv w' := by
  have hold := h.requests n r hr
  unfold World.advance at hstep
  cases hphase : r.phase with
  | asked =>
    rw [hphase] at hstep
    obtain rfl := Option.some.inj hstep
    exact h.setPhase_same (Nat.le_refl _)
  | counted g =>
    rw [hphase] at hstep hold
    obtain rfl := Option.some.inj hstep
    refine h.setPhase_same ?_
    split <;> exact hold
  | admitted g =>
    rw [hphase] at hstep hold
    dsimp only at hstep
    cases hget : (if reads then w.lists.get? r.key else none) with
    | none =>
      rw [hget] at hstep
      obtain rfl := Option.some.inj hstep
      exact h.setPhase_same hold
    | some row =>
      rw [hget] at hstep
      obtain rfl := Option.some.inj hstep
      have hrow : w.lists.get? r.key = some row := by
        split at hget
        · exact hget
        · simp at hget
      have hset : Inv (w.setPhase n r (.answered (some row.list))) :=
        h.setPhase_same trivial
      refine ⟨hset.rows, hset.begun, hset.tasks, hset.requests, fun s hs d hd => ?_⟩
      rcases List.mem_append.mp hs with hs | hs
      · exact h.served s hs d hd
      · obtain rfl := List.mem_singleton.mp hs
        exact h.rows r.key row (isNavList_key _ _) hrow d hd
  | missed g =>
    rw [hphase] at hstep hold
    obtain rfl := Option.some.inj hstep
    exact h.setPhase_same hold
  | fetching g began =>
    rw [hphase] at hstep hold
    cases list with
    | none =>
      obtain rfl := Option.some.inj hstep
      exact h.setPhase_same trivial
    | some list =>
      obtain rfl := Option.some.inj hstep
      exact h.setPhase_same hold
  | fetched g row =>
    rw [hphase] at hstep hold
    obtain rfl := Option.some.inj hstep
    refine h.setPhase_same ?_
    split
    · exact hold
    · trivial
  | permitted g row =>
    rw [hphase] at hstep hold
    simp only [Option.bind_eq_bind, Option.bind_eq_some_iff, Option.guard_eq_some'] at hstep
    obtain ⟨_, hnone, hstep⟩ := hstep
    split at hstep
    · rename_i hcount
      obtain rfl := Option.some.inj hstep
      refine h.setPhase ⟨hold, fun d hd => ?_, rfl⟩ (Or.inr (Or.inl hnone))
      -- the count is as it was taken, so it has all the drops there were
      rw [← hcount]
      exact h.begun d hd
    · obtain rfl := Option.some.inj hstep
      exact h.setPhase_same trivial
  | storing g row =>
    rw [hphase] at hstep hold
    obtain rfl := Option.some.inj hstep
    obtain ⟨hg, hd, hwriter⟩ := hold
    have hset : Inv { (w.setPhase n r (.answered (some row.list))) with writer := none } :=
      h.setPhase trivial (Or.inr (Or.inr hwriter))
    refine ⟨fun key row' hkey hget d hdrop => ?_, hset.begun, hset.tasks, hset.requests,
      hset.served⟩
    dsimp only at hget
    rw [Table.get?_insert] at hget
    split at hget
    · obtain rfl := Option.some.inj hget
      have := hd d hdrop
      omega
    · exact h.rows key row' hkey hget d hdrop
  | answered list =>
    rw [hphase] at hstep
    simp at hstep

/-! ## Tasks -/

/-- What a step of a task may do to the rest of the world. -/
structure Kept (w w' : World β) : Prop where
  generation : w.generation ≤ w'.generation
  writer : w'.writer = w.writer
  requests : w'.requests = w.requests
  tasks : w'.tasks = w.tasks
  served : w'.served = w.served
  /-- A drop completes, or none does. -/
  dropped : w'.dropped = w.dropped ∨ w.writer = none

theorem Phase.Sound.later {generation generation' : Nat} {dropped dropped' : List Nat}
    {writer : Option Nat} (h : phase.Sound generation dropped writer n)
    (hgen : generation ≤ generation') (hdropped : dropped' = dropped ∨ writer = none) :
    phase.Sound generation' dropped' writer n := by
  cases phase with
  | counted g => exact le_trans h hgen
  | admitted g => exact le_trans h hgen
  | missed g => exact le_trans h hgen
  | storing g row =>
    obtain ⟨hg, hd, hw⟩ := h
    rcases hdropped with rfl | hnone
    · exact ⟨hg, hd, hw⟩
    · rw [hw] at hnone
      simp at hnone
  | asked => trivial
  | fetching g began => exact h
  | fetched g row => exact h
  | permitted g row => exact h
  | answered list => trivial

theorem Inv.kept (h : Inv w) (hkept : Kept w w')
    (hrows : ∀ key row, isNavList key = true → w'.lists.get? key = some row →
      ∀ n ∈ w'.dropped, n < row.began)
    (hbegun : ∀ n ∈ w'.dropped, n < w'.generation) : Inv w' where
  rows := hrows
  begun := hbegun
  tasks ops hops n hn := by
    rw [hkept.tasks] at hops
    exact lt_of_lt_of_le (h.tasks ops hops n hn) hkept.generation
  requests n r hr := by
    rw [hkept.requests] at hr
    rw [hkept.writer]
    exact (h.requests n r hr).later hkept.generation hkept.dropped
  served s hs := by
    rw [hkept.served] at hs
    exact h.served s hs

theorem Begun.cons {generation : Nat} {op : Op β} {ops : List (Op β)}
    (hop : ∀ n, op ≠ .dropLists n) (h : Begun generation ops) : Begun generation (op :: ops) := by
  intro n hn
  rcases List.mem_cons.mp hn with heq | hn
  · exact absurd heq.symm (hop n)
  · exact h n hn

theorem Begun.ite {generation : Nat} {c : Prop} [Decidable c] {ops ops' : List (Op β)}
    (h : Begun generation ops) (h' : Begun generation ops') :
    Begun generation (if c then ops else ops') := by
  split
  · exact h
  · exact h'

/-- A step of a task keeps what was so, and what is left of the task has begun. -/
theorem perform_inv {reads : Bool} {ops rest : List (Op β)} (h : Inv w)
    (hops : Begun w.generation ops) (hstep : w.perform reads ops = some (w', rest)) :
    Inv w' ∧ w'.tasks = w.tasks ∧ Begun w'.generation rest := by
  cases ops with
  | nil => simp [World.perform] at hstep
  | cons op tail =>
    have htl : Begun w.generation tail := fun n hn => hops n (List.mem_cons_of_mem _ hn)
    cases op with
    | gate =>
      obtain ⟨rfl, rfl⟩ := Prod.mk.inj (Option.some.inj hstep)
      exact ⟨h, rfl, htl.ite fun n hn => by simp at hn⟩
    | drop =>
      obtain ⟨rfl, rfl⟩ := Prod.mk.inj (Option.some.inj hstep)
      refine ⟨h.kept ⟨Nat.le_succ _, rfl, rfl, rfl, rfl, Or.inl rfl⟩ h.rows
        fun d hd => Nat.lt_succ_of_lt (h.begun d hd), rfl, fun n hn => ?_⟩
      rcases List.mem_cons.mp hn with heq | hn
      · obtain rfl := Op.dropLists.inj heq
        exact Nat.lt_succ_self _
      · exact Nat.lt_succ_of_lt (htl n hn)
    | dropLists d =>
      simp only [World.perform, Option.bind_eq_bind, Option.bind_eq_some_iff,
        Option.guard_eq_some'] at hstep
      obtain ⟨_, hnone, hstep⟩ := hstep
      obtain ⟨rfl, rfl⟩ := Prod.mk.inj (Option.some.inj hstep)
      refine ⟨h.kept ⟨Nat.le_refl _, rfl, rfl, rfl, rfl, Or.inr hnone⟩ ?_ ?_, rfl, htl⟩
      · intro key row hkey hget
        dsimp only at hget
        rw [get?_retainOthers, if_pos hkey] at hget
        simp at hget
      · intro n hn
        rcases List.mem_cons.mp hn with rfl | hn
        · exact hops n (List.mem_cons_self ..)
        · exact h.begun n hn
    | dropIfMoved moved =>
      obtain ⟨rfl, rfl⟩ := Prod.mk.inj (Option.some.inj hstep)
      exact ⟨h, rfl, (htl.cons (by simp)).ite htl⟩
    | clear =>
      simp only [World.perform, Option.bind_eq_bind, Option.bind_eq_some_iff,
        Option.guard_eq_some'] at hstep
      obtain ⟨_, hnone, hstep⟩ := hstep
      obtain ⟨rfl, rfl⟩ := Prod.mk.inj (Option.some.inj hstep)
      refine ⟨h.kept ⟨Nat.le_refl _, rfl, rfl, rfl, rfl, Or.inl rfl⟩ ?_ h.begun, rfl, htl⟩
      intro key row hkey hget
      simp at hget
    | setValidated value =>
      obtain ⟨rfl, rfl⟩ := Prod.mk.inj (Option.some.inj hstep)
      exact ⟨h.kept ⟨Nat.le_refl _, rfl, rfl, rfl, rfl, Or.inl rfl⟩ h.rows h.begun, rfl, htl⟩
    | put b list =>
      obtain ⟨rfl, rfl⟩ := Prod.mk.inj (Option.some.inj hstep)
      exact ⟨h, rfl, (htl.cons (by simp)).ite htl⟩
    | insert b list =>
      simp only [World.perform, Option.bind_eq_bind, Option.bind_eq_some_iff,
        Option.guard_eq_some'] at hstep
      obtain ⟨_, hnone, hstep⟩ := hstep
      obtain ⟨rfl, rfl⟩ := Prod.mk.inj (Option.some.inj hstep)
      refine ⟨h.kept ⟨Nat.le_refl _, rfl, rfl, rfl, rfl, Or.inl rfl⟩ ?_ h.begun, rfl, htl⟩
      intro key row hkey hget
      dsimp only at hget
      rw [Table.get?_insert] at hget
      split at hget
      · rename_i heq
        rw [← heq, isNavList_browse] at hkey
        simp at hkey
      · exact h.rows key row hkey hget

/-! ## Whole runs -/

/-- A call has no drop under way. -/
theorem Call.begun (c : Call β) (generation : Nat) : Begun generation c.ops := by
  intro n hn
  cases c with
  | dropNavLists => simp [Call.ops] at hn
  | relistLibrary lists => simp [Call.ops] at hn
  | invalidate => simp [Call.ops] at hn
  | reconcile restaled moved unstamped =>
    simp only [Call.ops, List.mem_append] at hn
    split at hn <;> simp at hn

theorem step_inv {event : Event β} (h : Inv w) (hstep : step w event = some w') : Inv w' := by
  cases event with
  | request drill name =>
    obtain rfl := Option.some.inj hstep
    refine ⟨h.rows, h.begun, h.tasks, fun n r hr => ?_, h.served⟩
    dsimp only at hr
    rw [List.getElem?_append] at hr
    split at hr
    · exact h.requests n r hr
    · obtain rfl := List.mem_singleton.mp (List.mem_of_getElem? hr)
      trivial
  | advance n reads list =>
    simp only [step, Option.bind_eq_bind, Option.bind_eq_some_iff] at hstep
    obtain ⟨r, hr, hstep⟩ := hstep
    exact advance_inv h hr hstep
  | call c =>
    obtain rfl := Option.some.inj hstep
    refine ⟨h.rows, h.begun, fun ops hops => ?_, h.requests, h.served⟩
    rcases List.mem_append.mp hops with hops | hops
    · exact h.tasks ops hops
    · rw [List.mem_singleton.mp hops]
      exact c.begun w.generation
  | perform t reads =>
    simp only [step, Option.bind_eq_bind, Option.bind_eq_some_iff] at hstep
    obtain ⟨ops, hops, ⟨w₁, rest⟩, hperform, hstep⟩ := hstep
    obtain rfl := Option.some.inj hstep
    obtain ⟨hinv, htasks, hbegun⟩ :=
      perform_inv h (h.tasks ops (List.mem_of_getElem? hops)) hperform
    refine ⟨hinv.rows, hinv.begun, fun ops' hmem => ?_, hinv.requests, hinv.served⟩
    rcases List.mem_or_eq_of_mem_set hmem with hold | rfl
    · rw [← htasks] at hold
      exact hinv.tasks ops' hold
    · exact hbegun

/-- **Cached drill-downs are never stale.** -/
theorem drill_downs_fresh (h : (system (β := β)).Reachable w) : Fresh w := by
  have hinv : Inv w := by
    refine (system (β := β)).reachable_induction ?_ ?_ h
    · rintro w ⟨lists, listsVersion, -, rfl⟩
      exact Inv.initial
    · intro w event w' hw hstep
      exact step_inv hw hstep
  exact hinv.served

end

/-! ## A run -/

/-- The steps of a request whose list the host answers. -/
def asks (n : Nat) (list : List String) (steps : Nat) : List (Event (List String)) :=
  List.replicate steps (.advance n true (some list))

/-- The albums of an artist are fetched across a drop and not kept, fetched again and kept, and
answered out of the cache. -/
def droppedMeanwhile : List (Event (List String)) :=
  [.call (.reconcile true true true)] ++ List.replicate 5 (.perform 0 true) ++
    [.request .artistAlbums "Boards of Canada"] ++ asks 0 ["Geogaddi"] 4 ++
    [.call .dropNavLists, .perform 1 true] ++ asks 0 ["Geogaddi"] 3 ++ [.perform 1 true] ++
    [.request .artistAlbums "Boards of Canada"] ++ asks 1 ["Geogaddi", "Inferno"] 8 ++
    [.request .artistAlbums "Boards of Canada"] ++ asks 2 [] 3

theorem drill_downs_fresh_droppedMeanwhile :
    ∃ w, system.exec (World.new Table.empty none) droppedMeanwhile = some w ∧
      w.served.map (fun s => (s.row.list, s.dropped)) =
        [(["Geogaddi", "Inferno"], [1, 0])] ∧ Fresh w := by
  have hrun : (system.exec (World.new Table.empty none) droppedMeanwhile).any (fun w =>
      w.served.map (fun s => (s.row.list, s.dropped)) =
        [(["Geogaddi", "Inferno"], [1, 0])]) = true := by decide +kernel
  obtain ⟨w, hexec, hserved⟩ := (Option.any_eq_true _ _).mp hrun
  refine ⟨w, hexec, of_decide_eq_true hserved,
    drill_downs_fresh ⟨World.new Table.empty none, droppedMeanwhile, ⟨_, _, ?_, rfl⟩, hexec⟩⟩
  intro key row hrow
  simp at hrow

end Mbrc.NavLists
