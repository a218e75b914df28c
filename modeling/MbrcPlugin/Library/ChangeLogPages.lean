import MbrcPlugin.Library.ChangeLogFeed

/-!
# Reading the change log in pages

A page says where the next one goes on, in the window that its read began with.  The rows behind the
last one served are the rows the page left out (`servable_resume`), so that the pages of a read are
what one read without a limit holds, however each of them is limited (`pages_add_up`).
-/

namespace Mbrc

namespace ChangeLog

/-! ## Following a read -/

/-- One answered page. -/
structure Page where
  head : Cursor
  total : Nat
  changes : List Change
  next : Option Continuation
  deriving DecidableEq

/-- The pages of a read, from its first to the one that has no next, where it ends within so many
reads; each read has a limit of its own. -/
def follow (c : ChangeLog) : Nat → ReadFrom → (Nat → Nat) → Option (List Page)
  | 0, _, _ => none
  | reads + 1, source, limits =>
    match c.read source (limits 0) with
    | some (.changes head total changes next) =>
      let page : Page := { head, total, changes, next }
      match next with
      | none => some [page]
      | some k => (c.follow reads (.resume k) fun i => limits (i + 1)).map (page :: ·)
    | _ => none

/-- The rows that a read is to be answered with. -/
def servableTo (c : ChangeLog) (source : ReadFrom) : List (LogKey × Bool) :=
  c.servable (c.window source).1 (c.window source).2.1 (c.window source).2.2

/-- What the log counts for a read. -/
def counted (c : ChangeLog) (source : ReadFrom) : Nat :=
  match c.changeLog with
  | none => 0
  | some _ =>
    match source with
    | .start => c.live
    | .since _ => (c.log.range (inRange (c.window source).1 (c.window source).2.1
        (c.window source).2.2)).length
    | .resume k => k.total

/-- The read is answered, and not told to start again. -/
structure Accepts (c : ChangeLog) (epoch : Epoch) (source : ReadFrom) : Prop where
  named : c.epoch = some epoch
  own : c.foreign epoch source = false
  answerable : c.unanswerable (c.window source).1 = false

/-- Where a read goes on behind a page. -/
def resumeAt (c : ChangeLog) (epoch : Epoch) (source : ReadFrom) (last : LogKey × Bool) :
    Continuation :=
  { epoch, since := (c.window source).1, untilGen := (c.window source).2.1
    total := c.counted source, generation := (ofLex last.1).1, src := (ofLex last.1).2 }

/-- What a read that is accepted is answered. -/
def pageOf (c : ChangeLog) (epoch : Epoch) (source : ReadFrom) (limit : Nat) : Page :=
  let rows := c.servableTo source
  { head := { epoch, generation := (c.window source).2.1 }
    total := c.counted source
    changes := (rows.take limit).map toChange
    next :=
      if limit < rows.length then (rows.take limit).getLast?.map (c.resumeAt epoch source)
      else none }

theorem read_of_accepts {c : ChangeLog} {epoch : Epoch} {source : ReadFrom}
    (h : c.Accepts epoch source) (limit : Nat) :
    c.read source limit = some (.changes (c.pageOf epoch source limit).head
      (c.pageOf epoch source limit).total (c.pageOf epoch source limit).changes
      (c.pageOf epoch source limit).next) := by
  have hgood : (c.foreign epoch source || c.unanswerable (c.window source).1) = false := by
    rw [h.own, h.answerable]
    rfl
  unfold read
  rw [h.named, Option.map_some]
  simp only [hgood, Bool.false_eq_true, if_false]
  cases hlog : c.changeLog with
  | none =>
    have hrows : c.servableTo source = [] := by
      simp [servableTo, servable, log, hlog, Table.range, Table.rows_empty]
    simp [pageOf, counted, hlog, hrows]
  | some log =>
    have hown : c.log = log := by rw [ChangeLog.log, hlog]; rfl
    have hrows : ((log.range (inRange (c.window source).1 (c.window source).2.1
        (c.window source).2.2)).filter fun row => row.2 || !(c.window source).1.isNone) =
        c.servableTo source := by
      rw [servableTo, servable, hown]
    have hresume : c.resumeAt epoch source = fun last =>
        { epoch, since := (c.window source).1, untilGen := (c.window source).2.1
          total := c.counted source, generation := (toChange last).generation
          src := (toChange last).src } := rfl
    simp only [serve_eq, hrows, pageOf, counted, hlog, hown, decide_eq_true_eq, hresume,
      List.getLast?_map, Option.map_map]
    cases source <;> rfl

/-! ## The rows behind a page -/

/-- In a list that is sorted, what is behind an entry is what comes after it. -/
theorem filter_behind {κ α : Type} [LinearOrder κ] {key : α → κ} {l : List α} {n : Nat} {last : α}
    (hsorted : l.Pairwise fun a b => key a < key b) (hlast : (l.take n).getLast? = some last) :
    l.filter (fun a => decide (key last < key a)) = l.drop n := by
  have hsplit := Table.take_split hsorted hlast
  have hnodup : l.Nodup := hsorted.imp fun hab h => (h ▸ hab).false
  have hdisjoint : ∀ a ∈ l.drop n, a ∉ l.take n := by
    intro a ha hnot
    rw [← List.take_append_drop n l] at hnodup
    exact (List.nodup_append.mp hnodup).2.2 a hnot a ha rfl
  conv_lhs => rw [← List.take_append_drop n l]
  rw [List.filter_append, List.filter_eq_nil_iff.mpr, List.filter_eq_self.mpr, List.nil_append]
  · intro a ha
    exact decide_eq_true (hsplit.2 a (List.mem_of_mem_drop ha) (hdisjoint a ha))
  · intro a ha
    simpa using hsplit.1 a ha

/-- Behind a key of a range, the range goes on to its end. -/
theorem inRange_behind {since : Option Nat} {untilGen : Nat} {after : Option LogKey}
    {last key : LogKey} (hlast : inRange since untilGen after last = true) :
    inRange since untilGen (some last) key =
      (decide (last < key) && inRange since untilGen after key) := by
  have hbehind (q : Prop) [Decidable q] (r : Bool) (h : last < key → q) :
      (decide (last < key) && r) = (decide (last < key) && (decide q && r)) := by
    by_cases hlt : last < key
    · rw [decide_eq_true (h hlt), Bool.true_and]
    · rw [decide_eq_false hlt]
      rfl
  unfold inRange at hlast ⊢
  rw [Bool.and_eq_true] at hlast
  cases after with
  | none => exact hbehind _ _ fun hlt => (of_decide_eq_true hlast.1).trans hlt.le
  | some first => exact hbehind _ _ fun hlt => (of_decide_eq_true hlast.1).trans hlt

/-- **What is left of a read** behind a page of it. -/
theorem servable_resume (c : ChangeLog) (epoch : Epoch) (source : ReadFrom) {limit : Nat}
    {last : LogKey × Bool}
    (hlast : ((c.servableTo source).take limit).getLast? = some last) :
    c.servableTo (.resume (c.resumeAt epoch source last)) = (c.servableTo source).drop limit := by
  refine Eq.trans ?_ (filter_behind (c.servable_pairwise _ _ _) hlast)
  have hmem : last ∈ c.servableTo source := List.mem_of_mem_take (List.mem_of_getLast? hlast)
  have hin : inRange (c.window source).1 (c.window source).2.1 (c.window source).2.2 last.1 =
      true := (List.mem_filter.mp (List.mem_filter.mp hmem).1).2
  unfold servableTo servable Table.range
  rw [List.filter_filter, List.filter_filter, List.filter_filter]
  refine List.filter_congr fun row _ => ?_
  have hkey : (c.window (.resume (c.resumeAt epoch source last))) =
      ((c.window source).1, (c.window source).2.1, some last.1) := rfl
  rw [hkey]
  dsimp only
  rw [inRange_behind hin]
  cases decide (last.1 < row.1) <;> cases (row.2 || !(c.window source).1.isNone) <;> simp

/-! ## Whole reads -/

theorem accepts_resume {c : ChangeLog} {epoch : Epoch} {source : ReadFrom}
    (h : c.Accepts epoch source) (last : LogKey × Bool) :
    c.Accepts epoch (.resume (c.resumeAt epoch source last)) where
  named := h.named
  answerable := h.answerable
  own := by
    have hown := h.own
    have huntil : (c.window source).2.1 ≤ c.generation := by
      cases source with
      | start => exact Nat.le_refl _
      | since cursor => exact Nat.le_refl _
      | resume k =>
        simp only [foreign, Bool.or_eq_false_iff, decide_eq_false_iff_not] at hown
        exact Nat.le_of_not_lt hown.2
    simp [foreign, resumeAt, huntil]

/-- A page of a read counts what its first page did. -/
theorem counted_resume (c : ChangeLog) (epoch : Epoch) (source : ReadFrom) (last : LogKey × Bool) :
    c.counted (.resume (c.resumeAt epoch source last)) = c.counted source := by
  show (match c.changeLog with | none => 0 | some _ => c.counted source) = c.counted source
  cases hlog : c.changeLog with
  | none => simp [counted, hlog]
  | some log => rfl

/-- The pages of a read hold what it is to be answered with, under one head and one total. -/
theorem follow_pages {c : ChangeLog} {epoch : Epoch} {source : ReadFrom}
    (h : c.Accepts epoch source) {limits : Nat → Nat} (hlimits : ∀ i, 1 ≤ limits i) :
    ∃ reads pages, c.follow reads source limits = some pages ∧
      (pages.map (·.changes)).flatten = (c.servableTo source).map toChange ∧
      (∀ page ∈ pages, page.head = { epoch, generation := (c.window source).2.1 } ∧
        page.total = c.counted source) := by
  generalize hn : (c.servableTo source).length = n
  induction n using Nat.strong_induction_on generalizing source limits with
  | _ n ih =>
    have hread := read_of_accepts h (limits 0)
    by_cases hmore : limits 0 < (c.servableTo source).length
    · have hpos := hlimits 0
      have hne : (c.servableTo source).take (limits 0) ≠ [] := by
        intro hnil
        have hlength := congrArg List.length hnil
        rw [List.length_take, List.length_nil] at hlength
        omega
      obtain ⟨last, hlast⟩ : ∃ last, ((c.servableTo source).take (limits 0)).getLast? =
          some last := ⟨_, List.getLast?_eq_some_getLast hne⟩
      have hnext : (c.pageOf epoch source (limits 0)).next =
          some (c.resumeAt epoch source last) := by
        simp only [pageOf, if_pos hmore, hlast, Option.map_some]
      have hrest := c.servable_resume epoch source hlast
      obtain ⟨reads, pages, hfollow, hchanges, hheads⟩ :=
        ih ((c.servableTo (.resume (c.resumeAt epoch source last))).length)
          (by rw [hrest, List.length_drop]; omega) (accepts_resume h last)
          (fun i => hlimits (i + 1)) rfl
      refine ⟨reads + 1, c.pageOf epoch source (limits 0) :: pages, ?_, ?_, ?_⟩
      · rw [follow, hread]
        simp only [hnext, hfollow, Option.map_some]
        rw [← hnext]
      · rw [List.map_cons, List.flatten_cons, hchanges, hrest]
        show ((c.servableTo source).take (limits 0)).map toChange ++ _ = _
        rw [← List.map_append, List.take_append_drop]
      · intro page hpage
        rcases List.mem_cons.mp hpage with rfl | hpage
        · exact ⟨rfl, rfl⟩
        · obtain ⟨hhead, htotal⟩ := hheads page hpage
          exact ⟨hhead, htotal.trans (c.counted_resume epoch source last)⟩
    · have hnext : (c.pageOf epoch source (limits 0)).next = none := by
        simp only [pageOf, if_neg hmore]
      refine ⟨1, [c.pageOf epoch source (limits 0)], ?_, ?_, ?_⟩
      · rw [follow, hread]
        simp only [hnext]
        rw [← hnext]
      · have hall : (c.servableTo source).take (limits 0) = c.servableTo source :=
          List.take_of_length_le (Nat.le_of_not_lt hmore)
        simp only [List.map_cons, List.map_nil, List.flatten_cons, List.flatten_nil,
          List.append_nil, pageOf, hall]
      · intro page hpage
        obtain rfl := List.mem_singleton.mp hpage
        exact ⟨rfl, rfl⟩

theorem accepts_of_read {c : ChangeLog} {source : ReadFrom} {limit : Nat} {head : Cursor}
    {total : Nat} {changes : List Change} {next : Option Continuation}
    (h : c.read source limit = some (.changes head total changes next)) :
    ∃ epoch, c.Accepts epoch source := by
  obtain ⟨epoch, hepoch, hpage⟩ := Option.map_eq_some_iff.mp h
  refine ⟨epoch, ?_⟩
  by_cases hbad : (c.foreign epoch source || c.unanswerable (c.window source).1) = true
  · simp [hbad] at hpage
  · obtain ⟨hown, hans⟩ := Bool.or_eq_false_iff.mp (Bool.not_eq_true _ ▸ hbad)
    exact ⟨hepoch, hown, hans⟩

/-- Only the page that ends a read has no next. -/
theorem follow_ends {c : ChangeLog} {reads : Nat} {source : ReadFrom} {limits : Nat → Nat}
    {pages : List Page} (h : c.follow reads source limits = some pages) :
    ∃ before last, pages = before ++ [last] ∧ last.next = none ∧
      ∀ page ∈ before, page.next.isSome := by
  induction reads generalizing source limits pages with
  | zero => cases h
  | succ reads ih =>
    rw [follow] at h
    split at h
    · rename_i head total changes next hread
      cases next with
      | none =>
        obtain rfl := Option.some.inj h
        exact ⟨[], _, rfl, rfl, fun page hpage => absurd hpage List.not_mem_nil⟩
      | some k =>
        obtain ⟨rest, hrest, rfl⟩ := Option.map_eq_some_iff.mp h
        obtain ⟨before, last, rfl, hlast, hbefore⟩ := ih hrest
        exact ⟨_ :: before, last, rfl, hlast, List.forall_mem_cons.mpr ⟨rfl, hbefore⟩⟩
    · cases h

/-- **Paged reads add up.**  Whatever a read is accepted from and however its pages are limited,
they come to an end, hold what one read without a limit holds, each change once and in its order,
under one head and one total, and only the last has no next. -/
theorem pages_add_up (c : ChangeLog) (source : ReadFrom) (limits : Nat → Nat)
    (hlimits : ∀ i, 1 ≤ limits i) {unlimited : Nat} (hall : c.log.rows.length ≤ unlimited)
    {head : Cursor} {total : Nat} {items : List Change} {next : Option Continuation}
    (hread : c.read source unlimited = some (.changes head total items next)) :
    next = none ∧ items.Nodup ∧
      ∃ reads before last, c.follow reads source limits = some (before ++ [last]) ∧
        ((before ++ [last]).map (·.changes)).flatten = items ∧
        (∀ page ∈ before ++ [last], page.head = head ∧ page.total = total) ∧
        last.next = none ∧ ∀ page ∈ before, page.next.isSome := by
  obtain ⟨epoch, haccepts⟩ := accepts_of_read hread
  have hpage := (read_of_accepts haccepts unlimited).symm.trans hread
  have hlength : (c.servableTo source).length ≤ unlimited :=
    ((List.length_filter_le _ _).trans (List.length_filter_le _ _)).trans hall
  simp only [pageOf, List.take_of_length_le hlength, if_neg (Nat.not_lt.mpr hlength),
    Option.some.injEq, ChangePage.changes.injEq] at hpage
  obtain ⟨rfl, rfl, rfl, rfl⟩ := hpage
  obtain ⟨reads, pages, hfollow, hchanges, hheads⟩ := follow_pages haccepts hlimits
  obtain ⟨before, last, rfl, hlast, hbefore⟩ := follow_ends hfollow
  refine ⟨rfl, ?_, reads, before, last, hfollow, hchanges, hheads, hlast, hbefore⟩
  have hsorted : ((c.servableTo source).map toChange).Pairwise fun a b => a.key < b.key :=
    List.pairwise_map.mpr (c.servable_pairwise _ _ _)
  exact hsorted.imp fun hab h => (h ▸ hab).false

/-- A library of three, of which one is gone by its second listing. -/
def twoPasses : ChangeLog :=
  ((empty.record "e" (some ["a", "b", "c"]) []).1.record "" (some ["a", "c"]) []).1

theorem pages_add_up_twoPasses :
    ∃ reads before last,
      twoPasses.follow reads (.since { epoch := "e", generation := 0 }) (fun _ => 2) =
        some (before ++ [last]) ∧
      ((before ++ [last]).map (·.changes)).flatten =
        [⟨1, "a", true⟩, ⟨1, "c", true⟩, ⟨2, "b", false⟩] := by
  obtain ⟨-, -, reads, before, last, hfollow, hitems, -⟩ :=
    @pages_add_up twoPasses (.since { epoch := "e", generation := 0 }) (fun _ => 2)
      (fun _ => by decide) 3 (by decide +kernel) { epoch := "e", generation := 2 } 3
      [⟨1, "a", true⟩, ⟨1, "c", true⟩, ⟨2, "b", false⟩] none (by decide +kernel)
  exact ⟨reads, before, last, hfollow, hitems⟩

end ChangeLog

end Mbrc
