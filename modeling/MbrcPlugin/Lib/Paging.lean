import Mathlib.Data.List.Basic
import Mathlib.Logic.Function.Basic
import Mathlib.Order.Nat
import MbrcPlugin.Lib.Flight

/-!
# Lists that are read in pages

A pane shows one of many lists and reads it a page at a time: from the start, or on from the rows it
has.  Requests overlap and their answers land in any order, so that what is on the pane may come
from several lists, or from one with a gap in it.  `Shows` says that it does not, and `Inv` that it
does not as soon as no read from the start of the list shown is in flight any more; the rules keep
`Inv` through requests, answers, landings and failures, where what lands is in turn (`InTurn`).

The rows of a list lie in a slot, which lists may share; the total is shared by all.  The party that
answers changes the lists as it likes: they have a version, and so has every page.
-/

namespace Paging

open Flight

variable {V S α : Type}

/-! ## Pages -/

/-- The lists at each version. -/
abbrev History (V α : Type) := Nat → V → List α

structure Ask (V : Type) where
  list : V
  append : Bool
  offset : Nat
  deriving DecidableEq

structure Page (α : Type) where
  items : List α
  total : Nat
  version : Nat
  deriving DecidableEq

/-- The page that answers a request. -/
def Ask.page (a : Ask V) (size : Nat) (history : History V α) (version : Nat) : Page α :=
  { items := ((history version a.list).drop a.offset).take size
    total := (history version a.list).length
    version }

/-- Where a page comes from. -/
structure Origin (V : Type) where
  list : V
  version : Nat
  deriving DecidableEq

/-- A page that goes on where a beginning of its list ends. -/
theorem append_window_prefix {list rows : List α} (h : rows <+: list) (size : Nat) :
    rows ++ (list.drop rows.length).take size <+: list := by
  obtain ⟨rest, rfl⟩ := h
  rw [List.drop_left]
  exact (List.prefix_append_right_inj _).mpr (List.take_prefix _ _)

/-! ## Panes -/

/-- `pages` and `counted` are for the statements: the pages that the rows of each slot are made of,
and the one that the total is of. -/
structure Pane (V S α : Type) where
  rows : S → List α := fun _ => []
  total : Nat := 0
  reads : List (Request (Ask V) (Page α)) := []
  pages : S → List (Origin V) := fun _ => []
  counted : Option (Origin V) := none
  /-- What it shows was asked for. -/
  read : Bool := false
  failed : Bool := false

namespace Pane

def ask (p : Pane V S α) (slot : V → S) (list : V) (append : Bool) : Pane V S α :=
  { p with
    reads := send p.reads
      { list, append, offset := if append then (p.rows (slot list)).length else 0 } }

/-- The list shown is asked for from the start. -/
def start (p : Pane V S α) (slot : V → S) (list : V) : Pane V S α :=
  { p.ask slot list false with read := true }

/-- A page is taken. -/
def take [DecidableEq S] (p : Pane V S α) (slot : V → S) (a : Ask V) (page : Page α) : Pane V S α :=
  let s := slot a.list
  let origin : Origin V := { list := a.list, version := page.version }
  { p with
    rows := Function.update p.rows s
      (if a.append then p.rows s ++ page.items else page.items)
    total := page.total
    pages := Function.update p.pages s (if a.append then p.pages s ++ [origin] else [origin])
    counted := some origin }

/-- A request is answered. -/
def answer (p : Pane V S α) (i : Nat) (page : Page α) : Pane V S α :=
  { p with reads := answerAt p.reads i page }

/-- A request has landed, or it fails. -/
def off (p : Pane V S α) (i : Nat) : Pane V S α := { p with reads := p.reads.eraseIdx i }

def fail (p : Pane V S α) (i : Nat) : Pane V S α := { p.off i with failed := true }

/-- The rows of a slot are dropped, and the total with them. -/
def clear [DecidableEq S] (p : Pane V S α) (s : S) : Pane V S α :=
  { p with
    rows := Function.update p.rows s []
    total := 0
    pages := Function.update p.pages s []
    counted := none }

/-! ## What a pane shows -/

/-- The pane shows the list: its rows come from it, and so does its total, and the rows are a
beginning of it where all were read at one version. -/
structure Shows (p : Pane V S α) (slot : V → S) (history : History V α) (list : V) : Prop where
  rows : ∀ o ∈ p.pages (slot list), o.list = list
  total : ∀ o ∈ p.counted, o.list = list ∧ p.total = (history o.version list).length
  counted : p.read → p.counted.isSome
  gapless : ∀ n, (∀ o ∈ p.pages (slot list), o.version = n) →
    p.rows (slot list) <+: history n list

/-- A read from the start of the list is in flight. -/
def coming [DecidableEq V] (p : Pane V S α) (list : V) : Bool :=
  (asked p.reads).any fun a => a.list = list && !a.append

/-- A landing is in turn: a read from the start of the list shown is to land after it, or it is of
that list and goes on where the rows end. -/
def InTurn [DecidableEq V] (p : Pane V S α) (slot : V → S) (list : V) (i : Nat) : Prop :=
  ∀ r ∈ p.reads[i]?, (p.off i).coming list ∨
    r.asked.list = list ∧ (r.asked.append → r.asked.offset = (p.rows (slot list)).length)

instance [DecidableEq V] (p : Pane V S α) (slot : V → S) (list : V) (i : Nat) :
    Decidable (p.InTurn slot list i) := by
  unfold InTurn
  infer_instance

/-- The requests in flight are answered as they were asked. -/
structure Sound (p : Pane V S α) (size : Nat) (history : History V α) (now : Nat) : Prop where
  offsets : ∀ a ∈ asked p.reads, a.append = false → a.offset = 0
  answers : ∀ r ∈ p.reads, ∀ page, r.answer = some page →
    page.version ≤ now ∧ page = r.asked.page size history page.version
  bare : ∀ s, p.pages s = [] → p.rows s = []
  old : ∀ s, ∀ o ∈ p.pages s, o.version ≤ now
  oldCount : ∀ o ∈ p.counted, o.version ≤ now

structure Inv [DecidableEq V] (p : Pane V S α) (slot : V → S) (size : Nat) (history : History V α)
    (now : Nat) (list : V) : Prop where
  sound : p.Sound size history now
  shows : p.failed ∨ p.coming list ∨ p.Shows slot history list

/-! ## The rules -/

variable {p : Pane V S α} {slot : V → S} {size now : Nat} {history : History V α} {list : V}
  {i : Nat} {r : Request (Ask V) (Page α)} {page : Page α}

namespace Sound

theorem ask (h : p.Sound size history now) (other : V) (append : Bool) :
    (p.ask slot other append).Sound size history now := by
  refine { h with
    offsets := fun a ha happend => ?_
    answers := forall_send h.answers nofun }
  rw [Pane.ask, asked_send, List.mem_append, List.mem_singleton] at ha
  rcases ha with ha | rfl
  · exact h.offsets a ha happend
  · have happend : append = false := happend
    simp [happend]

theorem off (h : p.Sound size history now) (i : Nat) : (p.off i).Sound size history now :=
  { h with
    offsets := fun a ha => h.offsets a (List.mem_of_mem_eraseIdx (by
      rwa [Pane.off, asked, ← List.eraseIdx_map] at ha))
    answers := forall_eraseIdx i h.answers }

theorem clear [DecidableEq S] (h : p.Sound size history now) (s : S) :
    (p.clear s).Sound size history now := by
  refine { h with
    bare := fun t ht => ?_
    old := fun t => ?_
    oldCount := nofun }
  · show Function.update p.rows s [] t = []
    by_cases hts : t = s
    · simp [hts]
    · have ht : Function.update p.pages s [] t = [] := ht
      rw [Function.update_of_ne hts] at ht ⊢
      exact h.bare t ht
  · show ∀ o ∈ Function.update p.pages s [] t, o.version ≤ now
    by_cases hts : t = s
    · simp [hts]
    · rw [Function.update_of_ne hts]
      exact h.old t

theorem take [DecidableEq S] (h : p.Sound size history now) (a : Ask V)
    (hversion : page.version ≤ now) : (p.take slot a page).Sound size history now := by
  refine { h with
    bare := fun t ht => ?_
    old := fun t => ?_
    oldCount := fun o ho => ?_ }
  · have ht : Function.update p.pages (slot a.list) _ t = [] := ht
    show Function.update p.rows (slot a.list) _ t = []
    by_cases hts : t = slot a.list
    · rw [hts, Function.update_self] at ht
      split at ht <;> simp at ht
    · rw [Function.update_of_ne hts] at ht ⊢
      exact h.bare t ht
  · show ∀ o ∈ Function.update p.pages (slot a.list) _ t, o.version ≤ now
    by_cases hts : t = slot a.list
    · intro o ho
      rw [hts, Function.update_self] at ho
      split at ho
      case isTrue =>
        rcases List.mem_append.mp ho with ho | ho
        · exact h.old _ o ho
        · rw [List.mem_singleton.mp ho]
          exact hversion
      case isFalse =>
        rw [List.mem_singleton.mp ho]
        exact hversion
    · rw [Function.update_of_ne hts]
      exact h.old t
  · obtain rfl := Option.mem_some.mp ho
    exact hversion

/-- A request is answered with its page. -/
theorem answer (h : p.Sound size history now) (hr : p.reads[i]? = some r) :
    (p.answer i (r.asked.page size history now)).Sound size history now := by
  refine { h with
    offsets := by simpa [Pane.answer] using h.offsets
    answers := forall_answerAt h.answers fun q hq page hpage => ?_ }
  obtain rfl : r = q := Option.some.inj (hr.symm.trans hq)
  obtain rfl := Option.some.inj hpage
  exact ⟨Nat.le_refl _, rfl⟩

theorem fail (h : p.Sound size history now) (i : Nat) :
    (p.fail i).Sound size history now := { h.off i with }

/-- The lists become others. -/
theorem change (h : p.Sound size history now) (lists : V → List α) :
    p.Sound size (Function.update history (now + 1) lists) (now + 1) := by
  refine { h with
    answers := fun q hq page hpage => ?_
    old := fun s o ho => Nat.le_succ_of_le (h.old s o ho)
    oldCount := fun o ho => Nat.le_succ_of_le (h.oldCount o ho) }
  obtain ⟨hle, hanswer⟩ := h.answers q hq page hpage
  refine ⟨Nat.le_succ_of_le hle, ?_⟩
  have hne : page.version ≠ now + 1 := by omega
  rw [hanswer]
  simp [Ask.page, Function.update_of_ne hne]

end Sound

/-! ## What a pane shows -/

/-- The lists become others: what was read of them at a version before stays. -/
theorem Shows.change (h : p.Shows slot history list) (hsound : p.Sound size history now)
    (lists : V → List α) :
    p.Shows slot (Function.update history (now + 1) lists) list := by
  refine { h with
    total := fun o ho => ?_
    gapless := fun n hn => ?_ }
  · obtain ⟨hlist, htotal⟩ := h.total o ho
    have hle := hsound.oldCount o ho
    have hne : o.version ≠ now + 1 := by omega
    rw [Function.update_of_ne hne]
    exact ⟨hlist, htotal⟩
  · cases hpages : p.pages (slot list) with
    | nil =>
      rw [hsound.bare _ hpages]
      exact List.nil_prefix
    | cons o rest =>
      have ho : o ∈ p.pages (slot list) := hpages ▸ List.mem_cons_self
      have hle := hsound.old _ o ho
      have hne : n ≠ now + 1 := by
        rw [← hn o ho]
        omega
      rw [Function.update_of_ne hne]
      exact h.gapless n hn

/-- A page from the start is taken. -/
theorem shows_take_start [DecidableEq S] {a : Ask V} (happend : a.append = false)
    (hoffset : a.offset = 0) (hpage : page = a.page size history page.version) :
    (p.take slot a page).Shows slot history a.list := by
  have hpages : (p.take slot a page).pages (slot a.list) =
      [{ list := a.list, version := page.version }] := by simp [Pane.take, happend]
  have hrows : (p.take slot a page).rows (slot a.list) = page.items := by
    simp [Pane.take, happend]
  refine ⟨by simp [hpages], ?_, fun _ => rfl, fun n hn => ?_⟩
  · intro o ho
    obtain rfl := Option.mem_some.mp ho
    exact ⟨rfl, congrArg Page.total hpage⟩
  · rw [hpages] at hn
    obtain rfl : page.version = n := hn _ (List.mem_singleton_self _)
    rw [hrows, hpage, Ask.page, hoffset, List.drop_zero]
    exact List.take_prefix _ _

/-- A page is taken that goes on where the rows end. -/
theorem Shows.take [DecidableEq S] {a : Ask V} (h : p.Shows slot history a.list)
    (happend : a.append = true) (hoffset : a.offset = (p.rows (slot a.list)).length)
    (hpage : page = a.page size history page.version) :
    (p.take slot a page).Shows slot history a.list := by
  have hpages : (p.take slot a page).pages (slot a.list) =
      p.pages (slot a.list) ++ [{ list := a.list, version := page.version }] := by
    simp [Pane.take, happend]
  have hrows : (p.take slot a page).rows (slot a.list) = p.rows (slot a.list) ++ page.items := by
    simp [Pane.take, happend]
  refine ⟨fun o ho => ?_, ?_, fun _ => rfl, fun n hn => ?_⟩
  · rw [hpages, List.mem_append, List.mem_singleton] at ho
    rcases ho with ho | rfl
    · exact h.rows o ho
    · rfl
  · intro o ho
    obtain rfl := Option.mem_some.mp ho
    exact ⟨rfl, congrArg Page.total hpage⟩
  · rw [hpages] at hn
    obtain rfl : page.version = n :=
      hn _ (List.mem_append_right _ (List.mem_singleton_self _))
    have hbefore := h.gapless page.version fun o ho => hn o (List.mem_append_left _ ho)
    rw [hrows, hpage, Ask.page, hoffset]
    exact append_window_prefix hbefore size

variable [DecidableEq V]

theorem coming_iff : p.coming list ↔ ∃ a ∈ asked p.reads, a.list = list ∧ a.append = false := by
  simp [coming]

theorem coming_send {a : Ask V} (h : p.coming list) :
    Pane.coming { p with reads := send p.reads a } list := by
  rw [coming_iff] at h ⊢
  obtain ⟨q, hq, hfacts⟩ := h
  exact ⟨q, by simp [hq], hfacts⟩

theorem coming_start (list : V) : (p.start slot list).coming list := by
  simp [coming, Pane.start, Pane.ask]

/-- The read from the start is the one that was taken off, or is in flight still. -/
theorem coming_off (hr : p.reads[i]? = some r) (h : p.coming list) :
    r.asked.list = list ∧ r.asked.append = false ∨ (p.off i).coming list := by
  rw [coming_iff] at h ⊢
  obtain ⟨q, hq, hlist, happend⟩ := h
  rcases List.mem_cons.mp ((asked_perm hr).mem_iff.mp hq) with rfl | hq
  · exact .inl ⟨hlist, happend⟩
  · exact .inr ⟨q, hq, hlist, happend⟩

namespace Inv

/-- A request more, of any list. -/
theorem ask (h : p.Inv slot size history now list) (other : V) (append : Bool) :
    (p.ask slot other append).Inv slot size history now list where
  sound := h.sound.ask other append
  shows := h.shows.imp_right fun hrest =>
    hrest.imp coming_send fun hshows => { hshows with }

/-- A list is asked for from the start, whatever the pane shows. -/
theorem start (h : p.Sound size history now) (list : V) :
    (p.start slot list).Inv slot size history now list where
  sound := { h.ask list false with }
  shows := .inr (.inl (coming_start list))

/-- A page lands in turn. -/
theorem take [DecidableEq S] (h : p.Inv slot size history now list)
    (hr : p.reads[i]? = some r) (hanswer : r.answer = some page) (hturn : p.InTurn slot list i) :
    ((p.off i).take slot r.asked page).Inv slot size history now list := by
  obtain ⟨hversion, hpage⟩ := h.sound.answers r (List.mem_of_getElem? hr) page hanswer
  have hmem := mem_asked (List.mem_of_getElem? hr)
  refine ⟨(h.sound.off i).take r.asked hversion, ?_⟩
  rcases hturn r hr with hcoming | ⟨rfl, hplace⟩
  · exact .inr (.inl hcoming)
  · cases happend : r.asked.append with
    | false =>
      exact .inr (.inr (shows_take_start happend (h.sound.offsets _ hmem happend) hpage))
    | true =>
      refine h.shows.imp_right fun hrest => ?_
      rcases hrest with hcoming | hshows
      · refine .inl ((coming_off hr hcoming).resolve_left fun hstart => ?_)
        rw [happend] at hstart
        exact Bool.noConfusion hstart.2
      · have hoff : (p.off i).Shows slot history r.asked.list := { hshows with }
        exact .inr (hoff.take happend (hplace happend) hpage)

/-- A page of another list lands and is not taken. -/
theorem drop (h : p.Inv slot size history now list) (hr : p.reads[i]? = some r)
    (hother : r.asked.list ≠ list) : (p.off i).Inv slot size history now list where
  sound := h.sound.off i
  shows := by
    refine h.shows.imp_right fun hrest => ?_
    rcases hrest with hcoming | hshows
    · exact .inl ((coming_off hr hcoming).resolve_left fun hstart => hother hstart.1)
    · exact .inr { hshows with }

theorem fail (h : p.Inv slot size history now list) (i : Nat) :
    (p.fail i).Inv slot size history now list where
  sound := h.sound.fail i
  shows := .inl rfl

theorem answer (h : p.Inv slot size history now list) (hr : p.reads[i]? = some r) :
    (p.answer i (r.asked.page size history now)).Inv slot size history now list where
  sound := h.sound.answer hr
  shows := by
    refine h.shows.imp_right fun hrest => hrest.imp (fun hcoming => ?_) fun hshows =>
      { hshows with }
    rw [coming_iff] at hcoming ⊢
    simpa [Pane.answer] using hcoming

theorem change (h : p.Inv slot size history now list) (lists : V → List α) :
    p.Inv slot size (Function.update history (now + 1) lists) (now + 1) list where
  sound := h.sound.change lists
  shows := h.shows.imp_right fun hrest =>
    hrest.imp_right fun hshows => hshows.change h.sound lists

/-- With every request answered and none failed, the pane shows its list. -/
theorem settled (h : p.Inv slot size history now list) (hreads : p.reads = [])
    (hfailed : p.failed = false) : p.Shows slot history list := by
  rcases h.shows with hfail | hcoming | hshows
  · rw [hfail] at hfailed
    cases hfailed
  · simp [coming, hreads] at hcoming
  · exact hshows

end Inv

end Pane

end Paging
