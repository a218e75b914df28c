import MbrcPlugin.Lib.Interaction
import MbrcPlugin.Lib.Transition

/-!
# A value kept beside a store

A reader keeps what it worked out from a store; writers commit to the store and drop what is kept.
Every commit, every look at the store and every drop is a step of its own.  A reader holds a lock
from its look at the kept value to its end; a drop takes that lock, a commit does not.  Where every
writer drops the value after its last commit, a value that is kept while no writer is under way is
the one that the store gives (`fresh`).
-/

namespace Memo

open Interaction Transition

/-! ## Writers and readers -/

/-- A step of a writer. -/
inductive Call (σ : Type) where
  | load
  | commit (f : σ → σ)
  | drop

/-- A load answers with the store. -/
def Answer {σ : Type} : Call σ → Type
  | .load => σ
  | .commit _ | .drop => Unit

abbrev Writing (σ α : Type) := Program (Answer (σ := σ)) α

/-- A reader only looks at the store. -/
abbrev Reading (σ α : Type) := Program (fun _ : Unit => σ) α

variable {σ ρ ω α β : Type}

namespace Writing

def load : Writing σ σ := .call .load .done

def commit (f : σ → σ) : Writing σ Unit := .call (.commit f) .done

def drop : Writing σ Unit := .call .drop .done

/-- The result and the store, where no other writer comes in between. -/
def alone : Writing σ α → σ → α × σ
  | .done a, s => (a, s)
  | .call .load next, s => alone (next s) s
  | .call (.commit f) next, s => alone (next ()) (f s)
  | .call .drop next, s => alone (next ()) s

/-- A load after a commit finds what was committed. -/
example : alone (.call (.commit (· + 1)) fun _ => .call .load .done : Writing Nat Nat) 3 = (4, 4) := by
  simp only [alone]

/-- A drop is among the steps to come, whatever is loaded. -/
def Owes : Writing σ α → Prop
  | .done _ => False
  | .call .load next => ∀ s, Owes (next s)
  | .call (.commit _) next => Owes (next ())
  | .call .drop _ => True

/-- Every commit to come has a drop after it. -/
def Settles : Writing σ α → Prop
  | .done _ => True
  | .call .load next => ∀ s, Settles (next s)
  | .call (.commit _) next => Owes (next ()) ∧ Settles (next ())
  | .call .drop next => Settles (next ())

end Writing

namespace Reading

def look : Reading σ σ := .call () .done

/-- The result, where no writer comes in between. -/
def now : Reading σ α → σ → α
  | .done a, _ => a
  | .call _ next, s => now (next s) s

end Reading

/-! ## Rules -/

namespace Writing

@[simp] theorem alone_pure (a : α) (s : σ) : alone (pure a : Writing σ α) s = (a, s) := by
  simp only [pure, alone]

@[simp] theorem alone_load (s : σ) : alone load s = (s, s) := by simp only [load, alone]

@[simp] theorem alone_commit (f : σ → σ) (s : σ) : alone (commit f) s = ((), f s) := by
  simp only [commit, alone]

@[simp] theorem alone_drop (s : σ) : alone drop s = ((), s) := by simp only [drop, alone]

@[simp] theorem alone_bind (p : Writing σ α) (f : α → Writing σ β) (s : σ) :
    alone (p >>= f) s = alone (f (alone p s).1) (alone p s).2 := by
  induction p generalizing s with
  | done a => rfl
  | call i next ih =>
    cases i with
    | load => exact ih s s
    | commit g => exact ih () (g s)
    | drop => exact ih () s

@[simp] theorem alone_ite (c : Prop) [Decidable c] (p q : Writing σ α) (s : σ) :
    alone (if c then p else q) s = if c then alone p s else alone q s :=
  apply_ite (alone · s) c p q

theorem Owes.bind_left {p : Writing σ α} (h : Owes p) (f : α → Writing σ β) : Owes (p >>= f) := by
  induction p with
  | done a => exact h.elim
  | call i next ih =>
    cases i with
    | load => exact fun s => ih s (h s)
    | commit g => exact ih () h
    | drop => trivial

theorem Owes.bind_right (p : Writing σ α) {f : α → Writing σ β} (h : ∀ a, Owes (f a)) :
    Owes (p >>= f) := by
  induction p with
  | done a => exact h a
  | call i next ih =>
    cases i with
    | load => exact fun s => ih s
    | commit g => exact ih ()
    | drop => trivial

theorem Settles.bind {p : Writing σ α} (hp : Settles p) {f : α → Writing σ β}
    (hf : ∀ a, Settles (f a)) : Settles (p >>= f) := by
  induction p with
  | done a => exact hf a
  | call i next ih =>
    cases i with
    | load => exact fun s => ih s (hp s)
    | commit g => exact ⟨hp.1.bind_left f, ih () hp.2⟩
    | drop => exact ih () hp

/-- What is dropped at the end need not be dropped before. -/
theorem Settles.of_owes (p : Writing σ α) {f : α → Writing σ β} (howes : ∀ a, Owes (f a))
    (hf : ∀ a, Settles (f a)) : Settles (p >>= f) := by
  induction p with
  | done a => exact hf a
  | call i next ih =>
    cases i with
    | load => exact fun s => ih s
    | commit g => exact ⟨Owes.bind_right (next ()) howes, ih ()⟩
    | drop => exact ih ()

end Writing

namespace Reading

@[simp] theorem now_pure (a : α) (s : σ) : now (pure a : Reading σ α) s = a := by
  simp only [pure, now]

@[simp] theorem now_look (s : σ) : now look s = s := by simp only [look, now]

@[simp] theorem now_bind (p : Reading σ α) (f : α → Reading σ β) (s : σ) :
    now (p >>= f) s = now (f (now p s)) s := by
  induction p with
  | done a => rfl
  | call i next ih => exact ih s

@[simp] theorem now_ite (c : Prop) [Decidable c] (p q : Reading σ α) (s : σ) :
    now (if c then p else q) s = if c then now p s else now q s :=
  apply_ite (now · s) c p q

end Reading

/-! ## Readers and writers together -/

structure State (σ ρ : Type) where
  store : σ
  kept : Option ρ
  writers : List (Writing σ Unit)
  /-- The reader that holds the lock. -/
  reading : Option (Reading σ (Option ρ))

inductive Event (ω : Type) where
  | write (o : ω)
  /-- The next step of a writer, or its end. -/
  | step (writer : Nat)
  /-- A commit that fails. -/
  | fail (writer : Nat)
  /-- A reader takes the lock and finds nothing kept. -/
  | read
  | look
  | keep
  deriving DecidableEq

variable (op : ω → Writing σ Unit) (reader : Reading σ (Option ρ))

namespace State

variable (s : State σ ρ)

def stepOf (i : Nat) : Writing σ Unit → Option (State σ ρ)
  | .done _ => some { s with writers := s.writers.eraseIdx i }
  | .call .load next => some { s with writers := s.writers.set i (next s.store) }
  | .call (.commit f) next =>
    some { s with store := f s.store, writers := s.writers.set i (next ()) }
  | .call .drop next =>
    if s.reading.isNone then some { s with kept := none, writers := s.writers.set i (next ()) }
    else none

def failOf (i : Nat) : Writing σ Unit → Option (State σ ρ)
  | .call (.commit _) next => some { s with writers := s.writers.set i (next ()) }
  | _ => none

end State

def next (s : State σ ρ) : Event ω → Option (State σ ρ)
  | .write o => some { s with writers := s.writers ++ [op o] }
  | .step i => s.writers[i]?.bind (s.stepOf i)
  | .fail i => s.writers[i]?.bind (s.failOf i)
  | .read =>
    if s.reading.isNone ∧ s.kept.isNone then some { s with reading := some reader } else none
  | .look =>
    match s.reading with
    | some (.call _ next) => some { s with reading := some (next s.store) }
    | _ => none
  | .keep =>
    match s.reading with
    | some (.done result) => some { s with kept := result.or s.kept, reading := none }
    | _ => none

def system : System (State σ ρ) (Event ω) where
  start s := s.kept = none ∧ s.writers = [] ∧ s.reading = none
  next := next op reader

/-! ## The law -/

/-- What is kept and what is being read agree with the store. -/
structure Agrees (s : State σ ρ) : Prop where
  kept : ∀ value, s.kept = some value → Reading.now reader s.store = some value
  reading : ∀ p, s.reading = some p → Reading.now p s.store = Reading.now reader s.store

structure Inv (s : State σ ρ) : Prop where
  settles : ∀ w ∈ s.writers, Writing.Settles w
  agrees : (∃ w ∈ s.writers, Writing.Owes w) ∨ Agrees reader s

variable {reader} {s s' : State σ ρ}

theorem Inv.start (h : (system op reader).start s) : Inv reader s where
  settles w hw := by rw [h.2.1] at hw; cases hw
  agrees := Or.inr
    { kept := fun value hvalue => by rw [h.1] at hvalue; cases hvalue
      reading := fun p hp => by rw [h.2.2] at hp; cases hp }

/-- Another program in a writer's place. -/
theorem settles_set {writers : List (Writing σ Unit)} (h : ∀ w ∈ writers, Writing.Settles w)
    (i : Nat) {w : Writing σ Unit} (hw : Writing.Settles w) :
    ∀ v ∈ writers.set i w, Writing.Settles v := by
  intro v hv
  rcases List.mem_or_eq_of_mem_set hv with hold | rfl
  · exact h v hold
  · exact hw

/-- A writer that steps still owes what it owed. -/
theorem owes_set {writers : List (Writing σ Unit)} {i : Nat} {w w' : Writing σ Unit}
    (hi : writers[i]? = some w) (hstep : Writing.Owes w → Writing.Owes w')
    (h : ∃ v ∈ writers, Writing.Owes v) : ∃ v ∈ writers.set i w', Writing.Owes v := by
  obtain ⟨v, hv, howes⟩ := h
  obtain ⟨j, hj, rfl⟩ := List.getElem_of_mem hv
  obtain ⟨hlt, rfl⟩ := List.getElem?_eq_some_iff.mp hi
  by_cases hij : i = j
  · subst hij
    exact ⟨w', List.mem_set hlt w', hstep howes⟩
  · refine ⟨writers[j], ?_, howes⟩
    exact List.mem_of_getElem? ((List.getElem?_set_ne hij).trans (List.getElem?_eq_getElem hj))

theorem owes_set_self {writers : List (Writing σ Unit)} {i : Nat} {w w' : Writing σ Unit}
    (hi : writers[i]? = some w) (h : Writing.Owes w') : ∃ v ∈ writers.set i w', Writing.Owes v :=
  ⟨w', List.mem_set (List.getElem?_eq_some_iff.mp hi).1 w', h⟩

theorem owes_erase {writers : List (Writing σ Unit)} {i : Nat} {u : Unit}
    (hi : writers[i]? = some (.done u)) (h : ∃ v ∈ writers, Writing.Owes v) :
    ∃ v ∈ writers.eraseIdx i, Writing.Owes v := by
  obtain ⟨v, hv, howes⟩ := h
  obtain ⟨j, hj, rfl⟩ := List.getElem_of_mem hv
  refine ⟨writers[j], List.mem_eraseIdx_iff_getElem.mpr ⟨j, hj, ?_, rfl⟩, howes⟩
  rintro rfl
  rw [(List.getElem?_eq_some_iff.mp hi).2] at howes
  exact howes

theorem Inv.stepOf (hs : Inv reader s) {i : Nat} {w : Writing σ Unit} (hi : s.writers[i]? = some w)
    (h : s.stepOf i w = some s') : Inv reader s' := by
  have hw := hs.settles w (List.mem_of_getElem? hi)
  match w with
  | .done _ =>
    obtain rfl := Option.some.inj h
    refine ⟨fun v hv => hs.settles v (List.mem_of_mem_eraseIdx hv), ?_⟩
    exact hs.agrees.imp (owes_erase hi) fun ha => ⟨ha.kept, ha.reading⟩
  | .call .load next =>
    obtain rfl := Option.some.inj h
    refine ⟨settles_set hs.settles i (hw s.store), ?_⟩
    exact hs.agrees.imp (owes_set hi fun ho => ho s.store) fun ha => ⟨ha.kept, ha.reading⟩
  | .call (.commit f) next =>
    obtain rfl := Option.some.inj h
    exact ⟨settles_set hs.settles i hw.2, Or.inl (owes_set_self hi hw.1)⟩
  | .call .drop next =>
    simp only [State.stepOf, Option.ite_none_right_eq_some, Option.isNone_iff_eq_none] at h
    obtain ⟨hfree, h⟩ := h
    obtain rfl := Option.some.inj h
    refine ⟨settles_set hs.settles i hw, Or.inr ⟨fun value hvalue => (by cases hvalue), ?_⟩⟩
    intro p hp
    rw [show s.reading = some p from hp] at hfree
    cases hfree

theorem Inv.failOf (hs : Inv reader s) {i : Nat} {w : Writing σ Unit} (hi : s.writers[i]? = some w)
    (h : s.failOf i w = some s') : Inv reader s' := by
  have hw := hs.settles w (List.mem_of_getElem? hi)
  match w with
  | .call (.commit f) next =>
    obtain rfl := Option.some.inj h
    exact ⟨settles_set hs.settles i hw.2, Or.inl (owes_set_self hi hw.1)⟩
  | .done _ => cases h
  | .call .load next => cases h
  | .call .drop next => cases h

theorem Inv.next (hop : ∀ o, Writing.Settles (op o)) {e : Event ω} (hs : Inv reader s)
    (h : (system op reader).next s e = some s') : Inv reader s' := by
  cases e with
  | write o =>
    obtain rfl := Option.some.inj h
    refine ⟨fun w hw => ?_, ?_⟩
    · rcases List.mem_append.mp hw with hold | hnew
      · exact hs.settles w hold
      · rw [List.mem_singleton.mp hnew]
        exact hop o
    · refine hs.agrees.imp ?_ fun ha => ⟨ha.kept, ha.reading⟩
      rintro ⟨w, hw, howes⟩
      exact ⟨w, List.mem_append_left _ hw, howes⟩
  | step i =>
    obtain ⟨w, hi, h⟩ := Option.bind_eq_some_iff.mp h
    exact hs.stepOf hi h
  | fail i =>
    obtain ⟨w, hi, h⟩ := Option.bind_eq_some_iff.mp h
    exact hs.failOf hi h
  | read =>
    simp only [system, Memo.next, Option.ite_none_right_eq_some] at h
    obtain ⟨-, h⟩ := h
    obtain rfl := Option.some.inj h
    refine ⟨hs.settles, hs.agrees.imp id fun ha => ⟨ha.kept, ?_⟩⟩
    rintro p hp
    obtain rfl := Option.some.inj hp
    rfl
  | look =>
    simp only [system, Memo.next] at h
    split at h
    · rename_i next hreading
      obtain rfl := Option.some.inj h
      refine ⟨hs.settles, hs.agrees.imp id fun ha => ⟨ha.kept, ?_⟩⟩
      rintro p hp
      obtain rfl := Option.some.inj hp
      have hnow := ha.reading _ hreading
      exact hnow
    · cases h
  | keep =>
    simp only [system, Memo.next] at h
    split at h
    · rename_i result hreading
      obtain rfl := Option.some.inj h
      refine ⟨hs.settles, hs.agrees.imp id fun ha => ⟨?_, fun p hp => by cases hp⟩⟩
      intro value hvalue
      have hnow : result = Reading.now reader s.store := ha.reading _ hreading
      rcases Option.or_eq_some_iff.mp hvalue with hresult | ⟨-, hkept⟩
      · exact hnow ▸ hresult
      · exact ha.kept value hkept
    · cases h

/-- **What is kept is fresh**: where every commit has a drop after it, a value that is kept while no
writer is under way is the one that the store gives. -/
theorem fresh (hop : ∀ o, Writing.Settles (op o)) (h : (system op reader).Reachable s)
    (hidle : s.writers = []) {value : ρ} (hkept : s.kept = some value) :
    Reading.now reader s.store = some value := by
  have hinv : Inv reader s := (system op reader).reachable_induction
    (fun _ => Inv.start op) (fun _ _ _ hs hnext => hs.next op hop hnext) h
  rcases hinv.agrees with ⟨w, hw, -⟩ | ha
  · rw [hidle] at hw
    cases hw
  · exact ha.kept value hkept

end Memo
