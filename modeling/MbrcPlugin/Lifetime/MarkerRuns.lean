import Mathlib.Data.List.Basic
import MbrcPlugin.Lifetime.SessionMarker

/-!
# What a start learns from the marker

`marker_tells_crashes`: a session that opens finds a marker exactly when one before it died, in the
runs where sessions of one directory do not overlap, no process dies where its session has no
marker yet or no more, and no thread that a shutdown does not wait for notes after the removal.
What the networking thread's runtime does is waited for (`Waited`), so that the last of these is
asked of library switches and panel rebuilds alone.
-/

namespace Mbrc.Lifetime.Marker

open Transition

namespace World

/-! ## The condition -/

/-- A session opens with no other of its directory open; a thread of its own that notes after its
session's shutdown has removed the marker finds the marker there, or a session just opening; and a
process that dies between the two halves of an open, or between the removal and the return of a
shutdown, leaves a marker. -/
def InTime (w : World) : Event → Prop
  | .initCore _ storage =>
    storage = "" ∨ ∀ k < w.made, (w.cores k).storage = storage → (w.cores k).live = false
  | .move i move => ∀ work ∈ w.works[i]?, move.notes → work.source.joined = false →
    (w.cores work.core).phase = .closed ∨ (w.cores work.core).phase = .over →
      (w.cores work.core).storage = "" ∨ (w.marker (w.cores work.core).storage).isSome ∨
        ∃ k < w.made, (w.cores k).storage = (w.cores work.core).storage ∧
          (w.cores k).phase = .opening
  | .die process => ∀ k < w.made, (w.cores k).process = process →
    (w.cores k).phase = .opening ∨ (w.cores k).phase = .closed →
      (w.cores k).storage = "" ∨ (w.marker (w.cores k).storage).isSome
  | .call .. => True

instance (w : World) (e : Event) : Decidable (w.InTime e) := by
  unfold InTime
  split <;> infer_instance

/-! ## Crashes -/

theorem not_crashed_nil (storage : String) : ¬ Crashed storage [] := by
  rintro ⟨later, e, earlier, h, -⟩
  exact absurd h (by simp)

theorem crashed_cons {storage : String} {e : Ending} {ended : List Ending} :
    Crashed storage (e :: ended) ↔ e.storage = storage ∧ e.clean = false ∨
      Crashed storage ended ∧ (e.storage = storage → e.clean = false) := by
  constructor
  · rintro ⟨later, d, earlier, h, hd, hclean, hlater⟩
    cases later with
    | nil =>
      obtain ⟨rfl, rfl⟩ := List.cons.inj h
      exact .inl ⟨hd, hclean⟩
    | cons l later =>
      obtain ⟨rfl, rfl⟩ := List.cons.inj h
      exact .inr ⟨⟨later, d, earlier, rfl, hd, hclean, fun c hc =>
        hlater c (List.mem_cons_of_mem _ hc)⟩, hlater e List.mem_cons_self⟩
  · rintro (⟨hd, hclean⟩ | ⟨⟨later, d, earlier, rfl, hd, hclean, hlater⟩, he⟩)
    · exact ⟨[], e, ended, rfl, hd, hclean, by simp⟩
    · refine ⟨e :: later, d, earlier, rfl, hd, hclean, fun c hc => ?_⟩
      rcases List.mem_cons.mp hc with rfl | hc
      · exact he
      · exact hlater c hc

/-- The sessions that die with a process. -/
theorem crashed_append {storage : String} {died ended : List Ending}
    (hdied : ∀ e ∈ died, e.clean = false) :
    Crashed storage (died ++ ended) ↔
      (∃ e ∈ died, e.storage = storage) ∨ Crashed storage ended := by
  induction died with
  | nil => simp
  | cons e died ih =>
    have he := hdied e List.mem_cons_self
    rw [List.cons_append, crashed_cons, ih fun d hd => hdied d (List.mem_cons_of_mem _ hd)]
    simp only [he, and_true, implies_true, List.mem_cons, exists_eq_or_imp, or_assoc]

/-! ## The invariant -/

/-- What the marker of its directory is to a session. -/
def Fits (w : World) (c : Core) : Prop :=
  (c.phase = .running ∨ c.phase = .stopping → (w.marker c.storage).isSome) ∧
    (c.phase = .closed → w.marker c.storage = none) ∧
    (c.phase = .over → ((w.marker c.storage).isSome ↔ Crashed c.storage w.endings))

/-- The sessions of a directory: none is open, or one is. -/
inductive Standing (w : World) (s : String) : Prop where
  | free (hfree : ∀ k, (w.cores k).storage = s → (w.cores k).live = false)
    (hmarker : (w.marker s).isSome ↔ Crashed s w.endings) : Standing w s
  | held (k : Nat) (hstorage : (w.cores k).storage = s) (hlive : (w.cores k).live)
    (honly : ∀ l, (w.cores l).storage = s → (w.cores l).live → l = k)
    (hfits : Fits w (w.cores k)) : Standing w s

/-- The marker beside the sessions of its directory. -/
structure Marked (w : World) : Prop where
  fresh : ∀ k, w.made ≤ k → (w.cores k).live = false
  standing : ∀ s, s ≠ "" → Standing w s
  told : ∀ o ∈ w.openings, o.storage ≠ "" → (o.found.isSome ↔ Crashed o.storage o.ended)

/-- What runs on the networking thread's runtime, runs while there is networking. -/
structure Waited (w : World) : Prop where
  joined : ∀ work ∈ w.works, work.source.joined → (w.cores work.core).net ≠ .down
  up : ∀ k, (w.cores k).net ≠ .down →
    (w.cores k).phase = .running ∨ (w.cores k).phase = .stopping

structure Inv (w : World) : Prop where
  marked : Marked w
  waited : Waited w

variable {w w' : World} {k : Nat} {s : String}

theorem inv_start (h : system.start w) : Inv w := by
  obtain rfl : w = {} := h
  refine ⟨⟨fun _ _ => rfl, fun s _ => .free (fun _ _ => rfl) ?_, by simp⟩, by simp, ?_⟩
  · simp [not_crashed_nil]
  · intro k hk
    exact absurd rfl hk

theorem set_cores (w : World) (k l : Nat) (c : Core) :
    (w.set k c).cores l = if l = k then c else w.cores l := by
  simp [set, Function.update_apply]

theorem live_iff {c : Core} : c.live = true ↔ c.phase ≠ .over := by
  simp [Core.live]

theorem not_live_iff {c : Core} : c.live = false ↔ c.phase = .over := by
  simp [Core.live]

theorem note_eq (w : World) (storage activity : String) :
    w.note storage activity = { w with marker := (w.note storage activity).marker } := by
  unfold note
  split <;> rfl

theorem note_marker {storage : String} (activity : String) (hs : s ≠ storage) :
    (w.note storage activity).marker s = w.marker s := by
  unfold note
  split
  · rfl
  · exact Function.update_of_ne hs _ _

theorem close_eq (w : World) (storage : String) :
    w.close storage = { w with marker := (w.close storage).marker } := by
  unfold close
  split <;> rfl

theorem close_marker {storage : String} (hs : s ≠ storage) :
    (w.close storage).marker s = w.marker s := by
  unfold close
  split
  · rfl
  · exact Function.update_of_ne hs _ _

/-! ## One directory -/

namespace Standing

/-- A directory with the same marker, the same endings and the same open sessions. -/
theorem same (h : Standing w s) (hmarker : w'.marker s = w.marker s)
    (hcrashed : Crashed s w'.endings ↔ Crashed s w.endings)
    (hcores : ∀ k, (w.cores k).storage = s ∧ (w.cores k).live ∨
        (w'.cores k).storage = s ∧ (w'.cores k).live →
      (w'.cores k).storage = (w.cores k).storage ∧ (w'.cores k).phase = (w.cores k).phase) :
    Standing w' s := by
  have hback {l : Nat} (hl : (w'.cores l).storage = s) (hlive : (w'.cores l).live) :
      (w.cores l).storage = s ∧ (w.cores l).live := by
    obtain ⟨hstorage, hphase⟩ := hcores l (.inr ⟨hl, hlive⟩)
    rw [live_iff, hphase] at hlive
    exact ⟨hstorage ▸ hl, live_iff.mpr hlive⟩
  cases h with
  | free hfree hthere =>
    refine .free (fun k hk => ?_) (by rw [hmarker, hcrashed, hthere])
    by_contra hlive
    obtain ⟨hstorage, hlive⟩ := hback hk (by simpa using hlive)
    rw [hfree k hstorage] at hlive
    cases hlive
  | held k hstorage hlive honly hfits =>
    obtain ⟨hsame, hphase⟩ := hcores k (.inl ⟨hstorage, hlive⟩)
    subst hstorage
    refine .held k hsame (live_iff.mpr (hphase ▸ live_iff.mp hlive)) (fun l hl hlive => ?_) ?_
    · obtain ⟨hstorage, hlive⟩ := hback hl hlive
      exact honly l hstorage hlive
    · unfold Fits
      rw [hsame, hphase, hmarker, hcrashed]
      exact hfits

/-- The one open session of its directory. -/
theorem of_live (h : Standing w s) (hstorage : (w.cores k).storage = s) (hlive : (w.cores k).live) :
    (∀ l, (w.cores l).storage = s → (w.cores l).live → l = k) ∧ Fits w (w.cores k) := by
  cases h with
  | free hfree =>
    rw [hfree k hstorage] at hlive
    cases hlive
  | held l hl _ honly hfits =>
    obtain rfl := honly k hstorage hlive
    exact ⟨honly, hfits⟩

end Standing

/-! ## What changes a directory -/

namespace Marked

/-- The marker and the endings are as they were, and so is where each session stands. -/
theorem same (h : Marked w) (hmarker : w'.marker = w.marker) (hmade : w'.made = w.made)
    (hopenings : w'.openings = w.openings) (hendings : w'.endings = w.endings)
    (hcores : ∀ k, (w'.cores k).storage = (w.cores k).storage ∧
      (w'.cores k).phase = (w.cores k).phase) : Marked w' := by
  refine ⟨fun k hk => ?_, fun s hs => ?_, hopenings ▸ h.told⟩
  · rw [not_live_iff, (hcores k).2, ← not_live_iff]
    exact h.fresh k (hmade ▸ hk)
  · exact (h.standing s hs).same (congrFun hmarker s) (by rw [hendings]) fun k _ => hcores k

/-- An open session moves on, with what that means for the marker of its directory. -/
theorem move {c : Core} {marker : String → Option String} {endings : List Ending} (h : Marked w)
    (hlive : (w.cores k).live) (hstorage : c.storage = (w.cores k).storage)
    (hmarker : ∀ s, s ≠ c.storage → marker s = w.marker s)
    (hcrashed : ∀ s, s ≠ c.storage → (Crashed s endings ↔ Crashed s w.endings))
    (hfits : Fits w (w.cores k) → c.storage ≠ "" →
      Fits { w.set k c with marker, endings } c) :
    Marked { w.set k c with marker, endings } := by
  have hself : (w.set k c).cores k = c := by rw [set_cores, if_pos rfl]
  have hother {l : Nat} (hl : l ≠ k) : (w.set k c).cores l = w.cores l := by
    rw [set_cores, if_neg hl]
  refine ⟨fun l hl => ?_, fun s hs => ?_, h.told⟩
  · have hover := h.fresh l hl
    have hne : l ≠ k := by
      rintro rfl
      rw [hover] at hlive
      cases hlive
    show ((w.set k c).cores l).live = false
    rwa [hother hne]
  · by_cases heq : s = c.storage
    · subst heq
      obtain ⟨honly, hwas⟩ := (h.standing _ hs).of_live hstorage.symm hlive
      have hfits := hfits hwas hs
      by_cases hnow : c.live
      · refine .held k (by rw [hself]) (by rwa [hself]) (fun l hl hlive => ?_) (by rwa [hself])
        by_contra hne
        rw [hother hne] at hl hlive
        exact hne (honly l hl hlive)
      · refine .free (fun l hl => ?_) (hfits.2.2 (not_live_iff.mp (by simpa using hnow)))
        by_cases hlk : l = k
        · rw [hlk, hself]
          simpa using hnow
        · rw [hother hlk] at hl ⊢
          by_contra hlive
          exact hlk (honly l hl (by simpa using hlive))
    · refine (h.standing s hs).same (hmarker s heq) (hcrashed s heq) fun l hl => ?_
      have hne : l ≠ k := by
        rintro rfl
        rw [hself] at hl
        rcases hl with ⟨hl, -⟩ | ⟨hl, -⟩
        · exact heq (hl.symm.trans hstorage.symm)
        · exact heq hl.symm
      rw [hother hne]
      exact ⟨rfl, rfl⟩

/-- A note where there is a marker, or an open session that has not removed it. -/
theorem note (h : Marked w) {storage activity : String}
    (hthere : storage ≠ "" → (w.marker storage).isSome ∨ ∃ k, (w.cores k).storage = storage ∧
      (w.cores k).live ∧ (w.cores k).phase ≠ .closed) : Marked (w.note storage activity) := by
  unfold World.note
  split
  case isTrue => exact h
  case isFalse hs =>
    refine { h with standing := fun s hs => ?_ }
    by_cases heq : s = storage
    · subst heq
      have hself : Function.update w.marker s (some activity) s = some activity := by simp
      rcases hthere hs with hsome | ⟨k, hk, hlive, hnot⟩
      · cases h.standing s hs with
        | free hfree hmarker => exact .free hfree (by simpa [hsome] using hmarker)
        | held k hk hlive honly hfits =>
          subst hk
          refine .held k rfl hlive honly ⟨fun _ => by simp, fun hclosed => ?_, fun hover => ?_⟩
          · rw [hfits.2.1 hclosed] at hsome
            cases hsome
          · exact absurd hover (live_iff.mp hlive)
      · obtain ⟨honly, -⟩ := (h.standing s hs).of_live hk hlive
        subst hk
        exact .held k rfl hlive honly ⟨fun _ => by simp, fun hclosed => absurd hclosed hnot,
          fun hover => absurd hover (live_iff.mp hlive)⟩
    · exact (h.standing s hs).same (Function.update_of_ne heq _ _) Iff.rfl fun _ _ => ⟨rfl, rfl⟩

/-- A session opens where no other of its directory is open. -/
theorem initCore (h : Marked w) (process : Nat) (storage : String)
    (halone : storage = "" ∨
      ∀ k < w.made, (w.cores k).storage = storage → (w.cores k).live = false) :
    Marked { w with
      cores := Function.update w.cores w.made { process, storage, phase := .opening }
      made := w.made + 1
      openings := w.openings ++ [{ storage, found := w.find storage, ended := w.endings }] } := by
  have hfree (hs : storage ≠ "") (k : Nat) (hk : (w.cores k).storage = storage) :
      (w.cores k).live = false := by
    rcases Nat.lt_or_ge k w.made with hlt | hge
    · exact halone.resolve_left hs k hlt hk
    · exact h.fresh k hge
  have hother {k : Nat} (hk : k ≠ w.made) :
      Function.update w.cores w.made { process, storage, phase := .opening } k = w.cores k :=
    Function.update_of_ne hk _ _
  refine ⟨fun k hk => ?_, fun s hs => ?_, fun o ho hne => ?_⟩
  · have hk : w.made + 1 ≤ k := hk
    show (Function.update w.cores w.made { process, storage, phase := .opening } k).live = false
    rw [hother (by omega)]
    exact h.fresh k (by omega)
  · by_cases heq : s = storage
    · subst heq
      refine .held w.made (by simp) (by simp [Core.live]) (fun l hl hlive => ?_) (by simp [Fits])
      by_contra hne
      simp only [hother hne] at hl hlive
      rw [hfree hs l hl] at hlive
      cases hlive
    · refine (h.standing s hs).same rfl Iff.rfl fun k hk => ?_
      have hne : k ≠ w.made := by
        rintro rfl
        rcases hk with ⟨-, hlive⟩ | ⟨hstorage, -⟩
        · rw [h.fresh _ (Nat.le_refl _)] at hlive
          cases hlive
        · exact heq (by simpa using hstorage.symm)
      simp only [hother hne, and_self]
  · rcases List.mem_append.mp ho with ho | ho
    · exact h.told o ho hne
    · obtain rfl := List.mem_singleton.mp ho
      have hne : storage ≠ "" := hne
      cases h.standing storage hne with
      | free _ hmarker => simpa [find, hne] using hmarker
      | held k hk hlive =>
        rw [hfree hne k hk] at hlive
        cases hlive

/-- The first note of a session. -/
theorem starting (h : Marked w) (hopening : (w.cores k).phase = .opening) :
    Marked ((w.set k { w.cores k with phase := .running }).note (w.cores k).storage
      "starting") := by
  rw [note_eq]
  refine h.move (by simp [Core.live, hopening]) rfl (fun s hs => note_marker _ hs)
    (fun _ _ => Iff.rfl) fun _ hne => ⟨fun _ => ?_, nofun, nofun⟩
  have hne : (w.cores k).storage ≠ "" := hne
  simp [World.note, hne]

theorem shutdown (h : Marked w) (hrunning : (w.cores k).phase = .running) (net : Net) :
    Marked (w.set k { w.cores k with phase := .stopping, stopping := true, net }) :=
  h.move (c := { w.cores k with phase := .stopping, stopping := true, net })
    (by simp [Core.live, hrunning]) rfl (fun _ _ => rfl) (fun _ _ => Iff.rfl)
    fun hfits _ => ⟨fun _ => hfits.1 (.inl hrunning), nofun, nofun⟩

theorem close (h : Marked w) (hstopping : (w.cores k).phase = .stopping) :
    Marked ((w.set k { w.cores k with phase := .closed }).close (w.cores k).storage) := by
  rw [close_eq]
  refine h.move (by simp [Core.live, hstopping]) rfl (fun s hs => close_marker hs)
    (fun _ _ => Iff.rfl) fun _ hne => ⟨nofun, fun _ => ?_, nofun⟩
  have hne : (w.cores k).storage ≠ "" := hne
  simp [World.close, hne]

/-- A shutdown that returns has ended its session cleanly. -/
theorem returned (h : Marked w) (hclosed : (w.cores k).phase = .closed) :
    Marked { w.set k { w.cores k with phase := .over } with
      endings := { storage := (w.cores k).storage, clean := true } :: w.endings } := by
  refine h.move (c := { w.cores k with phase := .over }) (by simp [Core.live, hclosed]) rfl
    (fun _ _ => rfl) (fun s hs => ?_) fun hfits _ => ⟨nofun, nofun, fun _ => ?_⟩
  · have hs : (w.cores k).storage ≠ s := fun heq => hs heq.symm
    simp [crashed_cons, hs]
  · have hnone : w.marker (w.cores k).storage = none := hfits.2.1 hclosed
    simp [crashed_cons, set, hnone]

/-- The sessions of a process die where they have a marker. -/
theorem die (h : Marked w) (process : Nat)
    (hthere : ∀ k < w.made, (w.cores k).process = process →
      (w.cores k).phase = .opening ∨ (w.cores k).phase = .closed →
        (w.cores k).storage = "" ∨ (w.marker (w.cores k).storage).isSome) :
    Marked (w.die process) := by
  have hcore (k : Nat) : (w.die process).cores k = w.cores k ∧ (w.cores k).process ≠ process ∨
      ((w.die process).cores k).live = false ∧ (w.cores k).process = process := by
    by_cases heq : (w.cores k).process = process
    · exact .inr ⟨by simp [World.die, heq, Core.live], heq⟩
    · exact .inl ⟨by simp [World.die, heq], heq⟩
  have hcrashed (s : String) : Crashed s (w.die process).endings ↔
      (∃ k < w.made, ((w.cores k).process = process ∧ (w.cores k).live) ∧
        (w.cores k).storage = s) ∨ Crashed s w.endings := by
    unfold World.die
    rw [crashed_append fun e he => ?_]
    · simp [and_assoc]
    · obtain ⟨k, -, rfl⟩ := List.mem_map.mp he
      rfl
  refine ⟨fun k hk => ?_, fun s hs => ?_, h.told⟩
  · rcases hcore k with ⟨heq, -⟩ | ⟨hover, -⟩
    · rw [heq]
      exact h.fresh k hk
    · exact hover
  · have hfree {k : Nat} (hk : ((w.die process).cores k).live) :
        (w.die process).cores k = w.cores k ∧ (w.cores k).process ≠ process := by
      refine (hcore k).resolve_right fun hover => ?_
      rw [hover.1] at hk
      cases hk
    have hstorage (k : Nat) : ((w.die process).cores k).storage = (w.cores k).storage := by
      unfold World.die
      dsimp only
      split <;> rfl
    cases h.standing s hs with
    | free hnone hmarker =>
      refine .free (fun k hk => ?_) ?_
      · by_contra hlive
        have hlive : ((w.die process).cores k).live = true := by simpa using hlive
        rw [(hfree hlive).1, hnone k ((hstorage k).symm.trans hk)] at hlive
        cases hlive
      · rw [hcrashed, or_iff_right]
        · exact hmarker
        · rintro ⟨k, -, ⟨-, hlive⟩, hk⟩
          rw [hnone k hk] at hlive
          cases hlive
    | held k hk hlive honly hfits =>
      subst hk
      have hlt : k < w.made := by
        by_contra hge
        rw [h.fresh k (Nat.not_lt.mp hge)] at hlive
        cases hlive
      rcases hcore k with ⟨heq, hne⟩ | ⟨hover, hprocess⟩
      · refine .held k (hstorage k) (by rwa [heq]) (fun l hl hlive => ?_) ?_
        · rw [(hfree hlive).1] at hlive
          exact honly l ((hstorage l).symm.trans hl) hlive
        · rw [heq]
          exact ⟨hfits.1, hfits.2.1, fun hover => absurd hover (live_iff.mp hlive)⟩
      · have hsome : (w.marker (w.cores k).storage).isSome := by
          cases hphase : (w.cores k).phase with
          | opening => exact (hthere k hlt hprocess (.inl hphase)).resolve_left hs
          | running => exact hfits.1 (.inl hphase)
          | stopping => exact hfits.1 (.inr hphase)
          | closed => exact (hthere k hlt hprocess (.inr hphase)).resolve_left hs
          | «over» => exact absurd hphase (live_iff.mp hlive)
        refine .free (fun l hl => ?_) ?_
        · by_contra hnow
          have hnow : ((w.die process).cores l).live = true := by simpa using hnow
          obtain ⟨heq, hne⟩ := hfree hnow
          rw [heq] at hnow
          obtain rfl := honly l ((hstorage l).symm.trans hl) hnow
          exact hne hprocess
        · rw [hcrashed]
          exact iff_of_true hsome (.inl ⟨k, hlt, ⟨hprocess, hlive⟩, rfl⟩)

end Marked
/-! ## What is waited for -/

namespace Waited

/-- A core is set, and work may be started for it. -/
theorem set (h : Waited w) {c : Core} (hcores : w'.cores = (w.set k c).cores)
    (hworks : ∀ work ∈ w'.works, work ∈ w.works ∨
      work.core = k ∧ (work.source.joined → c.net ≠ .down))
    (hnet : c.net = .down → (w.cores k).net = .down ∨
      ∀ work ∈ w'.works, work.core = k → work.source.joined = false)
    (hup : c.net ≠ .down → c.phase = .running ∨ c.phase = .stopping) : Waited w' := by
  refine ⟨fun work hwork hjoined => ?_, fun l => ?_⟩
  · rw [hcores, set_cores]
    split
    case isFalse hne =>
      rcases hworks work hwork with hold | ⟨hk, -⟩
      · exact h.joined work hold hjoined
      · exact absurd hk hne
    case isTrue hk =>
      rcases hworks work hwork with hold | ⟨-, hnew⟩
      · intro hdown
        rcases hnet hdown with hwas | hnone
        · exact h.joined work hold hjoined (hk ▸ hwas)
        · rw [hnone work hwork hk] at hjoined
          cases hjoined
      · exact hnew hjoined
  · rw [hcores, set_cores]
    split
    case isTrue => exact hup
    case isFalse => exact h.up l

/-- The networking is as it was, and no work was started. -/
theorem same (h : Waited w) (hnet : ∀ k, (w'.cores k).net = (w.cores k).net)
    (hphase : ∀ k, (w'.cores k).phase = (w.cores k).phase)
    (hworks : ∀ work ∈ w'.works, ∃ old ∈ w.works, old.core = work.core ∧
      old.source = work.source) : Waited w' := by
  refine ⟨fun work hwork hjoined => ?_, fun k => ?_⟩
  · obtain ⟨old, hold, hcore, hsource⟩ := hworks work hwork
    rw [hnet, ← hcore]
    exact h.joined old hold (hsource ▸ hjoined)
  · rw [hnet, hphase]
    exact h.up k

end Waited

/-! ## One event -/

namespace Inv

theorem spawn (h : Inv w) (source : Source) (hnet : source.joined → (w.cores k).net ≠ .down) :
    Inv (w.spawn k source) where
  marked := h.marked.same rfl rfl rfl rfl fun _ => ⟨rfl, rfl⟩
  waited := by
    refine h.waited.set (k := k) (c := w.cores k) (Function.update_eq_self k w.cores).symm
      (fun work hwork => ?_) (fun hdown => .inl hdown) (h.waited.up k)
    rcases List.mem_append.mp hwork with hwork | hwork
    · exact .inl hwork
    · obtain rfl := List.mem_singleton.mp hwork
      exact .inr ⟨rfl, hnet⟩

/-- A core is set that stands where it stood. -/
theorem set (h : Inv w) {c : Core} (hstorage : c.storage = (w.cores k).storage)
    (hphase : c.phase = (w.cores k).phase)
    (hnet : c.net = .down → (w.cores k).net = .down ∨
      ∀ work ∈ w.works, work.core = k → work.source.joined = false)
    (hup : c.net ≠ .down → c.phase = .running ∨ c.phase = .stopping) : Inv (w.set k c) where
  marked := by
    refine h.marked.same rfl rfl rfl rfl fun l => ?_
    rw [set_cores]
    split
    case isTrue heq => exact heq ▸ ⟨hstorage, hphase⟩
    case isFalse => exact ⟨rfl, rfl⟩
  waited := h.waited.set rfl (fun work hwork => .inl hwork) hnet hup

theorem free_iff {c : Core} : c.free = true ↔ c.phase = .running ∧ c.net ≠ .joining := by
  simp [Core.free]

/-- A call, or where it has got to. -/
theorem enter (h : Inv w) {call : Call} (hs : w.enter k (w.cores k) call = some w') : Inv w' := by
  cases call with
  | starting =>
    simp only [World.enter] at hs
    split at hs
    case isFalse => cases hs
    case isTrue hopening =>
      obtain rfl := Option.some.inj hs
      refine ⟨h.marked.starting hopening, ?_⟩
      rw [note_eq]
      exact h.waited.set rfl (fun work hwork => .inl hwork) .inl fun _ => .inl rfl
  | startNetworking bound =>
    simp only [World.enter] at hs
    split at hs
    case isFalse => cases hs
    case isTrue hfree =>
      obtain ⟨hfree, hdown⟩ := hfree
      have hrunning := (free_iff.mp hfree).1
      cases bound with
      | true =>
        obtain rfl := Option.some.inj hs
        have hset : Inv (w.set k { w.cores k with stopping := false, net := .up }) :=
          h.set rfl rfl nofun fun _ => .inl hrunning
        refine hset.spawn .networking fun _ => ?_
        rw [set_cores, if_pos rfl]
        exact nofun
      | false =>
        obtain rfl := Option.some.inj hs
        exact h.set rfl rfl .inl fun _ => .inl hrunning
  | stopNetworking =>
    simp only [World.enter] at hs
    split at hs
    case isFalse => cases hs
    case isTrue hfree =>
      obtain rfl := Option.some.inj hs
      exact h.set rfl rfl nofun fun _ => .inl (free_iff.mp hfree.1).1
  | beginStopping =>
    simp only [World.enter] at hs
    split at hs
    case isFalse => cases hs
    case isTrue hfree =>
      obtain rfl := Option.some.inj hs
      exact h.set rfl rfl .inl fun _ => .inl (free_iff.mp hfree).1
  | joined =>
    simp only [World.enter] at hs
    split at hs
    case isFalse => cases hs
    case isTrue hnone =>
      obtain rfl := Option.some.inj hs
      exact h.set rfl rfl (fun _ => .inr hnone.2) fun hup => absurd rfl hup
  | shutdown =>
    simp only [World.enter] at hs
    split at hs
    case isFalse => cases hs
    case isTrue hfree =>
      obtain rfl := Option.some.inj hs
      obtain ⟨hrunning, hlock⟩ := free_iff.mp hfree
      refine ⟨h.marked.shutdown hrunning _, h.waited.set rfl (fun work hwork => .inl hwork)
        (fun hdown => .inl ?_) fun _ => .inr rfl⟩
      -- networking that is up is waited for
      cases hnet : (w.cores k).net with
      | down => rfl
      | up => simp [hnet] at hdown
      | joining => exact absurd hnet hlock
  | close =>
    simp only [World.enter] at hs
    split at hs
    case isFalse => cases hs
    case isTrue hstopping =>
      obtain rfl := Option.some.inj hs
      refine ⟨h.marked.close hstopping.1, ?_⟩
      rw [close_eq]
      exact h.waited.set rfl (fun work hwork => .inl hwork) .inl
        fun hup => absurd hstopping.2 hup
  | returned =>
    simp only [World.enter] at hs
    split at hs
    case isFalse => cases hs
    case isTrue hclosed =>
      obtain rfl := Option.some.inj hs
      refine ⟨h.marked.returned hclosed, h.waited.set rfl (fun work hwork => .inl hwork) .inl ?_⟩
      intro hup
      rcases h.waited.up k hup with hrunning | hstopping
      · rw [hrunning] at hclosed
        cases hclosed
      · rw [hstopping] at hclosed
        cases hclosed
  | librarySwitched =>
    simp only [World.enter] at hs
    split at hs
    case isFalse => cases hs
    case isTrue =>
      obtain rfl := Option.some.inj hs
      exact h.spawn .librarySwitch nofun
  | rebuild scope =>
    simp only [World.enter] at hs
    split at hs
    case isFalse => cases hs
    case isTrue =>
      obtain rfl := Option.some.inj hs
      exact h.spawn (.panel scope) nofun
  | reported =>
    simp only [World.enter] at hs
    split at hs
    case isTrue => cases hs
    case isFalse hup =>
      obtain rfl := Option.some.inj hs
      exact h.spawn .scanner fun _ => hup

/-- Work goes on or ends, without a note. -/
theorem works (h : Inv w) {work : Work} {works : List Work} {reconciling : Bool}
    (hworks : ∀ work ∈ works, ∃ old ∈ w.works, old.core = work.core ∧
      old.source = work.source) :
    Inv { w.set work.core { w.cores work.core with reconciling } with works } := by
  have hcores (k : Nat) : ((w.set work.core { w.cores work.core with reconciling }).cores k).net =
      (w.cores k).net ∧
      ((w.set work.core { w.cores work.core with reconciling }).cores k).storage =
        (w.cores k).storage ∧
      ((w.set work.core { w.cores work.core with reconciling }).cores k).phase =
        (w.cores k).phase := by
    rw [set_cores]
    split
    case isTrue heq => exact heq ▸ ⟨rfl, rfl, rfl⟩
    case isFalse => exact ⟨rfl, rfl, rfl⟩
  exact ⟨h.marked.same rfl rfl rfl rfl fun k => (hcores k).2,
    h.waited.same (fun k => (hcores k).1) (fun k => (hcores k).2.2) hworks⟩

theorem finish (h : Inv w) (i : Nat) (work : Work) :
    Inv (w.finish i work (w.cores work.core)) :=
  h.works fun work hwork => ⟨work, List.mem_of_mem_eraseIdx hwork, rfl, rfl⟩

/-- Every work of the new list is one that there was. -/
theorem mem_goOn {i : Nat} {work : Work} (hwork : w.works[i]? = some work) {stage : Stage} :
    ∀ q ∈ w.works.set i { work with stage }, ∃ old ∈ w.works, old.core = q.core ∧
      old.source = q.source := by
  intro q hq
  rcases List.mem_or_eq_of_mem_set hq with hq | rfl
  · exact ⟨q, hq, rfl, rfl⟩
  · exact ⟨work, List.mem_of_getElem? hwork, rfl, rfl⟩

theorem goOn (h : Inv w) {i : Nat} {work : Work} (hwork : w.works[i]? = some work)
    (stage : Stage) : Inv (w.goOn i work stage) where
  marked := h.marked.same rfl rfl rfl rfl fun _ => ⟨rfl, rfl⟩
  waited := h.waited.same (fun _ => rfl) (fun _ => rfl) (mem_goOn hwork)

/-- A note of work that goes on. -/
theorem note (h : Inv w) {i : Nat} {work : Work} {stage : Stage} {activity : String}
    (hwork : w.works[i]? = some work)
    (hin : work.source.joined = false → (w.cores work.core).phase = .closed ∨
      (w.cores work.core).phase = .over →
        (w.cores work.core).storage = "" ∨ (w.marker (w.cores work.core).storage).isSome ∨
          ∃ k < w.made, (w.cores k).storage = (w.cores work.core).storage ∧
            (w.cores k).phase = .opening) :
    Inv ((w.goOn i work stage).note (w.cores work.core).storage activity) := by
  have hon := h.goOn hwork stage
  refine ⟨hon.marked.note fun hs => ?_, ?_⟩
  · show (w.marker (w.cores work.core).storage).isSome ∨ ∃ k,
      (w.cores k).storage = (w.cores work.core).storage ∧ (w.cores k).live ∧
        (w.cores k).phase ≠ .closed
    by_cases hgone : (w.cores work.core).phase = .closed ∨ (w.cores work.core).phase = .over
    · -- a session that is over has no work that is waited for
      have hjoined : work.source.joined = false := by
        by_contra hjoined
        have hup := h.waited.joined work (List.mem_of_getElem? hwork) (by simpa using hjoined)
        rcases h.waited.up _ hup with hphase | hphase <;> simp [hphase] at hgone
      refine ((hin hjoined hgone).resolve_left hs).imp_right ?_
      rintro ⟨k, -, hk, hopening⟩
      exact ⟨k, hk, by simp [Core.live, hopening], by simp [hopening]⟩
    · rw [not_or] at hgone
      exact .inr ⟨work.core, rfl, live_iff.mpr hgone.2, hgone.1⟩
  · rw [note_eq]
    exact hon.waited.same (fun _ => rfl) (fun _ => rfl) fun q hq => ⟨q, hq, rfl, rfl⟩

/-- One step of a reconcile. -/
theorem advance (h : Inv w) {i : Nat} {work : Work} {move : Move}
    (hwork : w.works[i]? = some work) (hin : w.InTime (.move i move))
    (hs : w.advance i work (w.cores work.core) move = some w') : Inv w' := by
  have hin := hin work hwork
  cases move with
  | begin =>
    simp only [World.advance] at hs
    split at hs
    case isTrue => cases hs
    case isFalse =>
      split at hs
      case isTrue =>
        obtain rfl := Option.some.inj hs
        exact h.finish i work
      case isFalse =>
        obtain rfl := Option.some.inj hs
        exact h.works (mem_goOn hwork)
  | listed =>
    simp only [World.advance] at hs
    split at hs
    case isTrue => cases hs
    case isFalse =>
      split at hs
      case isTrue =>
        obtain rfl := Option.some.inj hs
        exact h.finish i work
      case isFalse =>
        obtain rfl := Option.some.inj hs
        exact h.goOn hwork .building
  | take =>
    simp only [World.advance] at hs
    split at hs
    case isTrue => cases hs
    case isFalse =>
      obtain rfl := Option.some.inj hs
      exact h.goOn hwork _
  | report done total path =>
    simp only [World.advance] at hs
    split at hs
    case isTrue => cases hs
    case isFalse =>
      obtain rfl := Option.some.inj hs
      exact h.note hwork (hin rfl)
  | skip =>
    simp only [World.advance] at hs
    split at hs
    case isTrue => cases hs
    case isFalse =>
      obtain rfl := Option.some.inj hs
      exact h.goOn hwork .building
  | finish =>
    simp only [World.advance] at hs
    split at hs
    case isTrue => cases hs
    case isFalse =>
      obtain rfl := Option.some.inj hs
      exact h.goOn hwork .built
  | running =>
    simp only [World.advance] at hs
    split at hs
    case isTrue => cases hs
    case isFalse =>
      obtain rfl := Option.some.inj hs
      exact h.note hwork (hin rfl)
  | leave =>
    obtain rfl := Option.some.inj hs
    exact h.finish i work

theorem initCore (h : Inv w) (process : Nat) (storage : String)
    (halone : w.InTime (.initCore process storage)) :
    Inv { w with
      cores := Function.update w.cores w.made { process, storage, phase := .opening }
      made := w.made + 1
      openings := w.openings ++ [{ storage, found := w.find storage, ended := w.endings }] } where
  marked := h.marked.initCore process storage halone
  waited := by
    refine h.waited.set (k := w.made) (c := { process, storage, phase := .opening }) rfl
      (fun work hwork => .inl hwork) (fun _ => .inl ?_) fun hup => absurd rfl hup
    -- the number is new: no networking was ever started for it
    by_contra hup
    have hlive := h.marked.fresh w.made (Nat.le_refl _)
    rw [not_live_iff] at hlive
    rcases h.waited.up w.made hup with hphase | hphase <;> simp [hphase] at hlive

theorem die (h : Inv w) (process : Nat) (hin : w.InTime (.die process)) :
    Inv (w.die process) where
  marked := h.marked.die process hin
  waited := by
    refine ⟨fun work hwork hjoined => ?_, fun k => ?_⟩
    · obtain ⟨hwork, hne⟩ := List.mem_filter.mp hwork
      have hne : (w.cores work.core).process ≠ process := by simpa using hne
      simp only [World.die, hne, if_false]
      exact h.waited.joined work hwork hjoined
    · unfold World.die
      dsimp only
      split
      case isTrue => exact fun hup => absurd rfl hup
      case isFalse => exact h.waited.up k

/-- **One event.** -/
theorem step {e : Event} (h : Inv w) (hin : w.InTime e) (hs : w.step e = some w') : Inv w' := by
  cases e with
  | initCore process storage =>
    simp only [World.step] at hs
    split at hs
    case isFalse => cases hs
    case isTrue =>
      obtain rfl := Option.some.inj hs
      exact h.initCore process storage hin
  | call k call => exact h.enter hs
  | move i move =>
    obtain ⟨work, hwork, hs⟩ := Option.bind_eq_some_iff.mp hs
    exact h.advance hwork hin hs
  | die process =>
    obtain rfl := Option.some.inj hs
    exact h.die process hin

end Inv

end World

/-- **A start finds a marker exactly when a session before it died.** -/
theorem marker_tells_crashes {w₀ w : World} {events : List World.Event}
    (hstart : World.system.start w₀) (hin : World.system.Along World.InTime w₀ events)
    (hrun : World.system.exec w₀ events = some w) :
    ∀ o ∈ w.openings, o.storage ≠ "" → (o.found.isSome ↔ Crashed o.storage o.ended) :=
  (World.system.exec_induction (fun _ _ _ h hin hs => World.Inv.step h hin hs)
    (World.inv_start hstart) hin hrun).marked.told

/-- A session that reloads, one that dies while it builds covers, and two after it. -/
def World.crashRun : List World.Event :=
  [.initCore 1 "mb_remote", .call 0 .starting, .call 0 (.startNetworking true), .move 0 .begin,
    .move 0 .listed, .move 0 .take, .call 0 .stopNetworking, .move 0 (.report 250 900 "a.mp3"),
    .move 0 .take, .move 0 .running, .move 0 .leave, .call 0 .joined, .call 0 .shutdown,
    .call 0 .close, .call 0 .returned,
    .initCore 1 "mb_remote", .call 1 .starting, .call 1 .librarySwitched, .move 0 .begin,
    .move 0 .listed, .move 0 .take, .move 0 (.report 250 900 "b.mp3"), .die 1,
    .initCore 2 "mb_remote", .call 2 .starting, .call 2 .shutdown, .call 2 .close,
    .call 2 .returned, .initCore 2 "mb_remote"]

theorem marker_tells_crashes_reload :
    ∃ w, World.system.exec {} World.crashRun = some w ∧
      (∀ o ∈ w.openings, o.storage ≠ "" → (o.found.isSome ↔ Crashed o.storage o.ended)) ∧
      w.openings.map Opening.found =
        [none, none, some (World.progress 250 900 "b.mp3"), none] := by
  have hrun : (World.system.exec {} World.crashRun).any (fun w => w.openings.map Opening.found =
      [none, none, some (World.progress 250 900 "b.mp3"), none]) = true := by decide +kernel
  have hin : World.system.checked (fun w e => decide (w.InTime e)) {} World.crashRun = true := by
    decide +kernel
  obtain ⟨w, hexec, hfound⟩ := (Option.any_eq_true _ _).mp hrun
  have halong := World.system.along_of_checked (fun _ _ h => of_decide_eq_true h) hin
  exact ⟨w, hexec, marker_tells_crashes rfl halong hexec, of_decide_eq_true hfound⟩

/-- A library switch starts a build, and the plugin is shut down and started again around it. -/
def World.lateRun : List World.Event :=
  [.initCore 1 "mb_remote", .call 0 .starting, .call 0 .librarySwitched, .move 0 .begin,
    .move 0 .listed, .call 0 .shutdown, .call 0 .close, .call 0 .returned, .move 0 .take,
    .move 0 .running, .initCore 1 "mb_remote"]

/-- The marker of a session that ended cleanly is written again, and taken for a crash. -/
theorem late_note_reads_as_crash :
    ∃ w, World.system.exec {} World.lateRun = some w ∧ ∃ o ∈ w.openings, o.storage ≠ "" ∧
      ¬ (o.found.isSome ↔ Crashed o.storage o.ended) ∧ o.found = some "running" ∧
      ∀ e ∈ o.ended, e.clean := by
  have hrun : (World.system.exec {} World.lateRun).any (fun w => w.openings[1]? =
      some { storage := "mb_remote", found := some "running"
             ended := [{ storage := "mb_remote", clean := true }] }) = true := by decide +kernel
  obtain ⟨w, hexec, hfound⟩ := (Option.any_eq_true _ _).mp hrun
  refine ⟨w, hexec, _, List.mem_of_getElem? (of_decide_eq_true hfound), by decide, ?_, rfl,
    by simp⟩
  simp [World.crashed_cons, World.not_crashed_nil]

end Mbrc.Lifetime.Marker
