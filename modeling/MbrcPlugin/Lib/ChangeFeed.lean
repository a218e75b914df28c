import Mathlib.Data.Finset.Basic
import Mathlib.Data.Prod.Lex

/-!
# Change feeds with a floor

A feed files every change of a set of keys under a growing generation and keeps, for each key,
only its latest change: the generation and whether the key is in the set.  It may forget the
oldest removals, and then raises its floor.  A follower keeps a copy of the set and reads the
feed by windows of generations, page by page, while the feed goes on.

What a copy is known to show of the feed is an `Expectation`: for which changes the follower
has settled the key, and when it then holds it.  Two rules carry every argument about a
follower.  `Shows.advance`: an expectation about changes already filed survives the feed's next
change, as long as the floor stays at or below its bound.  `Shows.page`: taking in one page of
a window moves the expectation from the keys reached before to the keys reached now.
-/

namespace ChangeFeed

variable {π : Type*}

/-! ## Feeds and how they move -/

/-- The latest change of every key: the generation it was filed under, and whether the key is
in the set since. -/
structure Feed (π : Type*) where
  /-- The newest generation filed. -/
  generation : Nat
  /-- Removals up to here may have been forgotten. -/
  floor : Nat
  /-- A key's latest change. -/
  row : π → Option (Nat × Bool)

/-- The key is in the set. -/
def Feed.Live (f : Feed π) (p : π) : Prop := ∃ g, f.row p = some (g, true)

/-- No change lies ahead of the feed's generation, and neither does the floor. -/
structure Feed.Sound (f : Feed π) : Prop where
  row_le : ∀ {p g l}, f.row p = some (g, l) → g ≤ f.generation
  floor_le : f.floor ≤ f.generation

/-- What a feed may do to a key: leave it, file a newer change, or forget its removal at or
below the new floor (one filed before, or one filed by this very move). -/
structure Advances (f f' : Feed π) : Prop where
  generation_le : f.generation ≤ f'.generation
  floor_le : f.floor ≤ f'.floor
  row : ∀ p, f'.row p = f.row p ∨
    (∃ g l, f'.row p = some (g, l) ∧ f.generation < g) ∨
    (f'.row p = none ∧ ((∃ g, f.row p = some (g, false) ∧ g ≤ f'.floor) ∨
      f.generation < f'.floor))

/-! ## What a copy shows of a feed -/

/-- What a follower's copy is known to show: of which changes, and when it holds their key. -/
structure Expectation (π : Type*) where
  /-- The changes the copy has settled. -/
  known : π → Nat → Prop
  /-- When the copy holds the key of a settled change. -/
  held : π → Nat → Bool → Prop

/-- The copy meets the expectation, and holds no key the feed has no change of. -/
def Shows (f : Feed π) (copy : Finset π) (E : Expectation π) : Prop :=
  ∀ p, (f.row p = none → p ∉ copy) ∧
    ∀ g l, f.row p = some (g, l) → E.known p g → (p ∈ copy ↔ E.held p g l)

/-- A copy that has settled every change up to `s`. -/
def upTo (s : Nat) : Expectation π where
  known _ g := g ≤ s
  held _ _ l := l = true

/-- A copy in the middle of the window from `since` (all that is live, if there is none) to
`til`, once the changes of the keys `reached` were served. -/
def within (since : Option Nat) (til : Nat) (reached : Nat ×ₗ π → Prop) : Expectation π where
  known p g := match since with
    | none => g ≤ til
    | some s => g ≤ s ∨ (g ≤ til ∧ reached (toLex (g, p)))
  held p g l := match since with
    | none => l = true ∧ reached (toLex (g, p))
    | some _ => l = true

/-- The floor a window can stand: at its start, or at its end when it starts from nothing. -/
def bound (since : Option Nat) (til : Nat) : Nat := since.getD til

/-- An expectation about changes up to `b` only, under which a removal up to `b` is not held. -/
structure Expectation.Settles (E : Expectation π) (b top : Nat) : Prop where
  known_le : ∀ {p g}, E.known p g → g ≤ top
  known_of_le : ∀ {p g}, g ≤ b → E.known p g
  not_held : ∀ {p g}, ¬ E.held p g false

theorem upTo_settles (s : Nat) : (upTo s : Expectation π).Settles s s where
  known_le h := h
  known_of_le h := h
  not_held := by simp [upTo]

theorem within_settles {since : Option Nat} {til : Nat} (reached : Nat ×ₗ π → Prop)
    (hs : ∀ s ∈ since, s ≤ til) :
    (within since til reached).Settles (bound since til) til := by
  cases since with
  | none => exact ⟨fun h => h, fun h => h, by simp [within]⟩
  | some s =>
    have hs' : s ≤ til := hs s rfl
    refine ⟨fun h => ?_, fun h => Or.inl h, by simp [within]⟩
    rcases h with h | h
    · exact h.trans hs'
    · exact h.1

/-- **The feed moves on.** An expectation about changes already filed survives the next move,
while the floor stays within its bound. -/
theorem Shows.advance {f f' : Feed π} {copy : Finset π} {E : Expectation π} {b top : Nat}
    (h : Shows f copy E) (ha : Advances f f') (hE : E.Settles b top)
    (htop : top ≤ f.generation) (hb : f'.floor ≤ b) (hbt : b ≤ top) : Shows f' copy E := by
  intro p
  rcases ha.row p with heq | ⟨g, l, hrow, hlt⟩ | ⟨hrow, hgone⟩
  · rw [heq]
    exact h p
  · refine ⟨fun hnone => by simp [hrow] at hnone, fun g' l' hrow' hk => ?_⟩
    obtain ⟨rfl, rfl⟩ : g = g' ∧ l = l' := by simpa [hrow] using hrow'
    have := hE.known_le hk
    omega
  · refine ⟨fun _ hmem => ?_, fun g' l' hrow' => by simp [hrow] at hrow'⟩
    rcases hgone with ⟨g, hold, hfl⟩ | hlt
    · exact hE.not_held (((h p).2 g false hold (hE.known_of_le (hfl.trans hb))).mp hmem)
    · omega

/-! ## The two ends of a window -/

/-- A copy of nothing shows a window that starts from nothing, before its first page. -/
theorem shows_start (f : Feed π) (til : Nat) :
    Shows f ∅ (within none til fun _ => False) := by
  intro p
  simp [within]

/-- A copy that has settled everything up to `s` shows the window from `s`, before its first
page. -/
theorem Shows.since {f : Feed π} {copy : Finset π} {s : Nat} (til : Nat)
    (h : Shows f copy (upTo s)) : Shows f copy (within (some s) til fun _ => False) := by
  intro p
  refine ⟨(h p).1, fun g l hrow hk => (h p).2 g l hrow ?_⟩
  simpa [within, upTo] using hk

/-- A window read to its end settles everything up to its end. -/
theorem Shows.finish {f : Feed π} {copy : Finset π} {since : Option Nat} {til : Nat}
    (h : Shows f copy (within since til fun _ => True)) : Shows f copy (upTo til) := by
  intro p
  refine ⟨(h p).1, fun g l hrow hk => ?_⟩
  have hk' : g ≤ til := hk
  cases since with
  | none => simpa [within, upTo] using (h p).2 g l hrow hk'
  | some s => exact (h p).2 g l hrow (Or.inr ⟨hk', trivial⟩)

/-- **A copy of everything.** A copy that has settled every change of the feed is the set the
feed holds. -/
theorem Shows.live_iff {f : Feed π} {copy : Finset π} (hf : f.Sound)
    (h : Shows f copy (upTo f.generation)) (p : π) : p ∈ copy ↔ f.Live p := by
  cases hrow : f.row p with
  | none => simp [Feed.Live, hrow, (h p).1 hrow]
  | some r =>
    obtain ⟨g, l⟩ := r
    rw [(h p).2 g l hrow (hf.row_le hrow)]
    simp [Feed.Live, hrow, upTo]

/-! ## Pages -/

/-- One change as a reader is told it. -/
structure Change (π : Type*) where
  /-- The generation it was filed under. -/
  generation : Nat
  /-- The key that changed. -/
  src : π
  /-- Whether the key is in the set since. -/
  live : Bool
  deriving DecidableEq

/-- The place of a change in the feed's order. -/
def Change.key (c : Change π) : Nat ×ₗ π := toLex (c.generation, c.src)

variable [DecidableEq π]

/-- A follower takes one change in: an upsert adds the key, a removal drops it. -/
def take (copy : Finset π) (c : Change π) : Finset π :=
  if c.live then insert c.src copy else copy.erase c.src

/-- A follower takes a page in, change by change. -/
def takeAll (copy : Finset π) (cs : List (Change π)) : Finset π := cs.foldl take copy

theorem mem_take {copy : Finset π} {c : Change π} {p : π} :
    p ∈ take copy c ↔ if c.src = p then c.live = true else p ∈ copy := by
  unfold take
  by_cases hl : c.live = true
  · by_cases hp : c.src = p
    · simp [hl, hp]
    · have hp' : p ≠ c.src := Ne.symm hp
      simp [hl, hp, hp']
  · by_cases hp : c.src = p
    · simp [hl, hp]
    · have hp' : p ≠ c.src := Ne.symm hp
      simp [hl, hp, hp']

/-- A key no change names keeps its place; a key whose changes all say the same gets it. -/
theorem mem_takeAll {cs : List (Change π)} {copy : Finset π} {p : π} :
    ((∀ c ∈ cs, c.src ≠ p) → (p ∈ takeAll copy cs ↔ p ∈ copy)) ∧
    (∀ l, (∀ c ∈ cs, c.src = p → c.live = l) → (∃ c ∈ cs, c.src = p) →
      (p ∈ takeAll copy cs ↔ l = true)) := by
  induction cs generalizing copy with
  | nil => exact ⟨fun _ => Iff.rfl, fun l _ ⟨c, hc, _⟩ => absurd hc List.not_mem_nil⟩
  | cons c cs ih =>
    obtain ⟨ihNone, ihSome⟩ := @ih (take copy c)
    refine ⟨fun hne => ?_, fun l hall hex => ?_⟩
    · refine (ihNone fun d hd => hne d (List.mem_cons_of_mem _ hd)).trans ?_
      rw [mem_take, if_neg (hne c List.mem_cons_self)]
    · by_cases hrest : ∃ d ∈ cs, d.src = p
      · exact ihSome l (fun d hd => hall d (List.mem_cons_of_mem _ hd)) hrest
      · obtain ⟨d, hd, hdp⟩ := hex
        have hcp : c.src = p := by
          rcases List.mem_cons.mp hd with rfl | hd
          · exact hdp
          · exact absurd ⟨d, hd, hdp⟩ hrest
        refine (ihNone fun d hd hdp => hrest ⟨d, hd, hdp⟩).trans ?_
        rw [mem_take, if_pos hcp, hall c List.mem_cons_self hcp]

/-- The changes are the page of the window between the keys reached before and the keys
reached with it. -/
structure IsPage (f : Feed π) (since : Option Nat) (til : Nat)
    (reached reached' : Nat ×ₗ π → Prop) (cs : List (Change π)) : Prop where
  mono : ∀ k, reached k → reached' k
  row : ∀ c ∈ cs, f.row c.src = some (c.generation, c.live)
  fresh : ∀ c ∈ cs, ¬ reached c.key ∧ reached' c.key
  inWindow : ∀ c ∈ cs, c.generation ≤ til ∧ (∀ s ∈ since, s < c.generation) ∧
    (since = none → c.live = true)
  all : ∀ p g l, f.row p = some (g, l) → g ≤ til → (∀ s ∈ since, s < g) →
    (since = none → l = true) → ¬ reached (toLex (g, p)) → reached' (toLex (g, p)) →
    ∃ c ∈ cs, c.src = p

/-- **A page is taken in.** The copy then shows the window up to the keys the page reached. -/
theorem Shows.page {f : Feed π} {copy : Finset π} {since : Option Nat} {til : Nat}
    {reached reached' : Nat ×ₗ π → Prop} {cs : List (Change π)}
    (h : Shows f copy (within since til reached))
    (hp : IsPage f since til reached reached' cs) :
    Shows f (takeAll copy cs) (within since til reached') := by
  intro p
  obtain ⟨hnone, hsome⟩ := h p
  refine ⟨fun hrow => ?_, fun g l hrow hk => ?_⟩
  · rw [mem_takeAll.1 fun c hc heq => by simpa [heq, hrow] using hp.row c hc]
    exact hnone hrow
  · by_cases hex : ∃ c ∈ cs, c.src = p
    · have hlive : ∀ c ∈ cs, c.src = p → c.generation = g ∧ c.live = l := by
        intro c hc heq
        have := hp.row c hc
        rw [heq, hrow] at this
        simpa [eq_comm] using this
      rw [mem_takeAll.2 l (fun c hc heq => (hlive c hc heq).2) hex]
      obtain ⟨c, hc, heq⟩ := hex
      have hkey : c.key = toLex (g, p) := by rw [Change.key, (hlive c hc heq).1, heq]
      cases since with
      | none => simp [within, hkey ▸ (hp.fresh c hc).2]
      | some s => simp [within]
    · rw [mem_takeAll.1 fun c hc heq => hex ⟨c, hc, heq⟩]
      cases since with
      | none =>
        rw [hsome g l hrow hk]
        refine and_congr_right fun hl => ⟨hp.mono _, fun hr' => ?_⟩
        by_contra hr
        exact hex (hp.all p g l hrow hk (by simp) (fun _ => hl) hr hr')
      | some s =>
        refine hsome g l hrow ?_
        rcases Nat.lt_or_ge s g with hlt | hge
        · rcases hk with hle | ⟨hle, hr'⟩
          · exact Or.inl hle
          · by_contra hno
            have hr : ¬ reached (toLex (g, p)) := fun hr => hno (Or.inr ⟨hle, hr⟩)
            exact hex (hp.all p g l hrow hle (by simpa using hlt) (by simp) hr hr')
        · exact Or.inl hge

end ChangeFeed
