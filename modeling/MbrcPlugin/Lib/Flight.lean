import Mathlib.Data.List.Perm.Basic

/-!
# Requests in flight

A party sends requests, another answers them one at a time and in any order, and the answers land
in any order again.  The flight is the list of the requests that have not landed; a request is
answered where it stands and taken off where it stands.  What holds of every request in flight is
kept by an event of the flight as soon as it holds of the one request the event is about
(`forall_send`, `forall_answerAt`, `forall_eraseIdx`).  An answer changes nothing of what was asked
(`asked_answerAt`), and what lands is one of it (`asked_perm`).
-/

namespace Flight

variable {ρ α : Type*}

structure Request (ρ α : Type*) where
  asked : ρ
  /-- What the other party said, once it has. -/
  answer : Option α := none
  deriving DecidableEq

/-- One request more. -/
def send (f : List (Request ρ α)) (asked : ρ) : List (Request ρ α) := f ++ [Request.mk asked none]

/-- The request at a place is answered. -/
def answerAt (f : List (Request ρ α)) (i : Nat) (a : α) : List (Request ρ α) :=
  f.modify i fun r => { r with answer := some a }

variable {f : List (Request ρ α)}

theorem mem_send {r : Request ρ α} {asked : ρ} :
    r ∈ send f asked ↔ r ∈ f ∨ r = { asked } := by
  simp [send]

/-- A request of the flight after an answer is one from before it, or the one answered. -/
theorem mem_answerAt {r : Request ρ α} {i : Nat} {a : α} (h : r ∈ answerAt f i a) :
    r ∈ f ∨ ∃ q, f[i]? = some q ∧ r = { q with answer := some a } := by
  obtain ⟨j, hj⟩ := List.mem_iff_getElem?.mp h
  by_cases hij : i = j
  · subst hij
    rw [answerAt, List.getElem?_modify_eq] at hj
    obtain ⟨q, hq, rfl⟩ := Option.map_eq_some_iff.mp hj
    exact .inr ⟨q, hq, rfl⟩
  · rw [answerAt, List.getElem?_modify_ne _ _ hij] at hj
    exact .inl (List.mem_of_getElem? hj)

theorem forall_send {P : Request ρ α → Prop} {asked : ρ} (h : ∀ r ∈ f, P r) (hnew : P { asked }) :
    ∀ r ∈ send f asked, P r := by
  intro r hr
  rcases mem_send.mp hr with hr | rfl
  · exact h r hr
  · exact hnew

theorem forall_answerAt {P : Request ρ α → Prop} {i : Nat} {a : α} (h : ∀ r ∈ f, P r)
    (hnew : ∀ q, f[i]? = some q → P { q with answer := some a }) :
    ∀ r ∈ answerAt f i a, P r := by
  intro r hr
  rcases mem_answerAt hr with hr | ⟨q, hq, rfl⟩
  · exact h r hr
  · exact hnew q hq

theorem forall_eraseIdx {P : Request ρ α → Prop} (i : Nat) (h : ∀ r ∈ f, P r) :
    ∀ r ∈ f.eraseIdx i, P r :=
  fun r hr => h r (List.mem_of_mem_eraseIdx hr)

/-! ## What was asked -/

/-- The requests without their answers. -/
def asked (f : List (Request ρ α)) : List ρ := f.map (·.asked)

@[simp] theorem asked_send (r : ρ) : asked (send f r) = asked f ++ [r] := by simp [asked, send]

@[simp] theorem asked_answerAt (i : Nat) (a : α) : asked (answerAt f i a) = asked f := by
  refine List.ext_getElem? fun j => ?_
  by_cases hij : i = j
  · subst hij
    simp [asked, answerAt, Function.comp_def]
  · simp [asked, answerAt, hij]

@[simp] theorem asked_nil : asked ([] : List (Request ρ α)) = [] := rfl

theorem asked_perm {i : Nat} {r : Request ρ α} (h : f[i]? = some r) :
    (asked f).Perm (r.asked :: asked (f.eraseIdx i)) := by
  obtain ⟨hlt, rfl⟩ := List.getElem?_eq_some_iff.mp h
  exact (List.getElem_cons_eraseIdx_perm hlt).symm.map _

theorem mem_asked {r : Request ρ α} (h : r ∈ f) : r.asked ∈ asked f := List.mem_map_of_mem h

end Flight
