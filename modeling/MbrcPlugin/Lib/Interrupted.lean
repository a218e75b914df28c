import Mathlib.Logic.Relation
import MbrcPlugin.Lib.Interaction
import MbrcPlugin.Lib.Transition

/-!
# Runs that stop

A run can be stopped between two calls.  `p.Meets answer I Q made s` says that `I` holds of the
calls made and of the state wherever the run of `p` from `s` may be stopped, and `Q` of the
result, the calls and the state where it ends; `made` are the calls made before it.  Its rules
follow the steps of a program.
-/

namespace Interaction.Program

variable {ι : Type} {A : ι → Type} {α β σ : Type}

/-- One call, its answer the result. -/
def ask (i : ι) : Program A (A i) := .call i .done

/-- A program that is run if a condition holds. -/
def when (c : Bool) (p : Program A Unit) : Program A Unit := if c then p else .done ()

/-- The calls made and the state where a run is stopped after at most `k` calls. -/
def upTo (answer : σ → (i : ι) → A i × σ) : Program A α → Nat → σ → List ι × σ
  | done _, _, s => ([], s)
  | call _ _, 0, s => ([], s)
  | call i next, k + 1, s =>
    let rest := (next (answer s i).1).upTo answer k (answer s i).2
    (i :: rest.1, rest.2)

/-- `I` holds wherever the run may be stopped, and `Q` where it ends. -/
def Meets (answer : σ → (i : ι) → A i × σ) (I : List ι → σ → Prop) (Q : α → List ι → σ → Prop) :
    Program A α → List ι → σ → Prop
  | done a, made, s => Q a made s
  | call i next, made, s =>
    I made s ∧ (next (answer s i).1).Meets answer I Q (made ++ [i]) (answer s i).2

variable {answer : σ → (i : ι) → A i × σ} {I I' : List ι → σ → Prop}
  {Q Q' : α → List ι → σ → Prop} {made : List ι} {s : σ}

/-! ## What it says of a run -/

/-- **Wherever it stops**, the invariant holds. -/
theorem Meets.upTo {p : Program A α} (h : p.Meets answer I Q made s)
    (hQ : ∀ a made s, Q a made s → I made s) (k : Nat) :
    I (made ++ (p.upTo answer k s).1) (p.upTo answer k s).2 := by
  induction p generalizing made s k with
  | done a =>
    show I (made ++ []) s
    rw [List.append_nil]
    exact hQ a made s h
  | call i next ih =>
    cases k with
    | zero =>
      show I (made ++ []) s
      rw [List.append_nil]
      exact h.1
    | succ k =>
      have hrest := ih _ h.2 k
      rw [List.append_assoc] at hrest
      exact hrest

/-- **Where it ends**, the postcondition holds. -/
theorem Meets.run {p : Program A α} (h : p.Meets answer I Q made s) :
    Q (p.run answer s).2.1 (made ++ (p.run answer s).1) (p.run answer s).2.2 := by
  induction p generalizing made s with
  | done a =>
    show Q a (made ++ []) s
    rw [List.append_nil]
    exact h
  | call i next ih =>
    have hrest := ih _ h.2
    rw [List.append_assoc] at hrest
    exact hrest

/-! ## Rules -/

theorem Meets.mono {p : Program A α} (h : p.Meets answer I Q made s)
    (hI : ∀ made s, I made s → I' made s) (hQ : ∀ a made s, Q a made s → Q' a made s) :
    p.Meets answer I' Q' made s := by
  induction p generalizing made s with
  | done a => exact hQ a made s h
  | call i next ih => exact ⟨hI made s h.1, ih _ h.2⟩

/-- What follows a program starts where it ends. -/
theorem Meets.post {p : Program A α} (h : p.Meets answer I Q made s)
    (hQ : ∀ a made s, Q a made s → Q' a made s) : p.Meets answer I Q' made s :=
  h.mono (fun _ _ hI => hI) hQ

theorem meets_pure (a : α) :
    (pure a : Program A α).Meets answer I Q made s ↔ Q a made s := Iff.rfl

theorem meets_bind {p : Program A α} {f : α → Program A β} {Q : β → List ι → σ → Prop} :
    (p >>= f).Meets answer I Q made s ↔
      p.Meets answer I (fun a => (f a).Meets answer I Q) made s := by
  induction p generalizing made s with
  | done a => exact Iff.rfl
  | call i next ih => exact and_congr_right fun _ => ih _

theorem meets_when {c : Bool} {p : Program A Unit} {Q : Unit → List ι → σ → Prop} :
    (when c p).Meets answer I Q made s ↔
      (c = true → p.Meets answer I Q made s) ∧ (c = false → Q () made s) := by
  cases c <;> simp [when, Meets]

end Interaction.Program

/-!
# Operations that may stop anywhere

An operation is a program whose calls act on a state.  While a call is under way it may do parts of
its work, one after the other, and then it answers; which part and which answer is a label.  Any
operation may begin at any moment: what was under way is given up where it stands.

`p.Holds M G I Q s` says that `I` holds at every moment of a run of `p` from `s` whose steps all
meet the guard `G`, and `Q` of the result and the state where it ends.  Its rules follow the steps
of a program, and `kept` turns it into an invariant of all runs of all operations.
-/

namespace Interaction

open Transition

variable {ι : Type} {A : ι → Type} {α β ε σ δ ρ ω : Type}

/-- The parts of a call's work, and its answers. -/
structure Machine {ι : Type} (A : ι → Type) (σ δ ρ : Type) where
  during : ι → δ → σ → Option σ
  answer : (i : ι) → ρ → σ → Option (A i × σ)

/-- A condition on the steps of operations. -/
structure Guard (ω ι σ δ ρ : Type) where
  start : ω → σ → Prop := fun _ _ => True
  during : ι → δ → σ → Prop := fun _ _ _ => True
  answer : ι → ρ → σ → Prop := fun _ _ _ => True

/-- An operation begins, or the call under way does a part of its work or answers. -/
inductive Move (ω δ ρ : Type) where
  | start (o : ω)
  | during (d : δ)
  | answer (r : ρ)

namespace Machine

variable (M : Machine A σ δ ρ) (op : ω → Program A Unit)

/-- The state, and what is still to be done. -/
def next (w : σ × Program A Unit) : Move ω δ ρ → Option (σ × Program A Unit)
  | .start o => some (w.1, op o)
  | .during d =>
    match w.2 with
    | .done _ => none
    | .call i _ => (M.during i d w.1).map fun s => (s, w.2)
  | .answer r =>
    match w.2 with
    | .done _ => none
    | .call i rest => (M.answer i r w.1).map fun a => (a.2, rest a.1)

/-- Operations one after the other, from a start state and with nothing under way. -/
def system (start : σ → Prop) : System (σ × Program A Unit) (Move ω δ ρ) where
  start w := start w.1 ∧ w.2 = .done ()
  next := M.next op

end Machine

/-- The guard at a step. -/
def Guard.Meets (G : Guard ω ι σ δ ρ) (w : σ × Program A Unit) : Move ω δ ρ → Prop
  | .start o => G.start o w.1
  | .during d =>
    match w.2 with
    | .done _ => True
    | .call i _ => G.during i d w.1
  | .answer r =>
    match w.2 with
    | .done _ => True
    | .call i _ => G.answer i r w.1

/-- Parts of a call's work, one after the other. -/
def Machine.Parts (M : Machine A σ δ ρ) (G : Guard ω ι σ δ ρ) (i : ι) : σ → σ → Prop :=
  Relation.ReflTransGen fun s s' => ∃ d, G.during i d s ∧ M.during i d s = some s'

namespace Program

/-- `I` holds at every moment and `Q` at the end. -/
def Holds (M : Machine A σ δ ρ) (G : Guard ω ι σ δ ρ) (I : σ → Prop) (Q : α → σ → Prop) :
    Program A α → σ → Prop
  | done a, s => Q a s
  | call i next, s => ∀ s', M.Parts G i s s' →
      I s' ∧ ∀ r a t, G.answer i r s' → M.answer i r s' = some (a, t) → (next a).Holds M G I Q t

variable {M : Machine A σ δ ρ} {G : Guard ω ι σ δ ρ} {I : σ → Prop} {Q Q' : α → σ → Prop} {s : σ}

theorem Holds.now {p : Program A α} (h : p.Holds M G I Q s) (hQ : ∀ a s, Q a s → I s) : I s := by
  cases p with
  | done a => exact hQ a s h
  | call i next => exact (h s .refl).1

theorem Holds.post {p : Program A α} (h : p.Holds M G I Q s) (hQ : ∀ a s, Q a s → Q' a s) :
    p.Holds M G I Q' s := by
  induction p generalizing s with
  | done a => exact hQ a s h
  | call i next ih =>
    intro s' hs
    obtain ⟨hI, hnext⟩ := h s' hs
    exact ⟨hI, fun r a t hr ha => ih a (hnext r a t hr ha)⟩

theorem Holds.bind {p : Program A α} {f : α → Program A β} {Q : β → σ → Prop}
    (h : p.Holds M G I (fun a s => (f a).Holds M G I Q s) s) : (p.bind f).Holds M G I Q s := by
  induction p generalizing s with
  | done a => exact h
  | call i next ih =>
    intro s' hs
    obtain ⟨hI, hnext⟩ := h s' hs
    exact ⟨hI, fun r a t hr ha => ih a (hnext r a t hr ha)⟩

end Program

/-! ## Sharing the state with others

What others do while a call is under way are the parts of its work.  A fact they keep is still
there when the call answers. -/

/-- The parts of the work of `i` keep `P`. -/
def Machine.Stable (M : Machine A σ δ ρ) (G : Guard ω ι σ δ ρ) (i : ι) (P : σ → Prop) : Prop :=
  ∀ d s s', P s → G.during i d s → M.during i d s = some s' → P s'

theorem Machine.Stable.parts {M : Machine A σ δ ρ} {G : Guard ω ι σ δ ρ} {i : ι} {P : σ → Prop}
    (h : M.Stable G i P) {s s' : σ} (hP : P s) (hs : M.Parts G i s s') : P s' := by
  induction hs with
  | refl => exact hP
  | tail _ hstep ih =>
    obtain ⟨d, hd, hs⟩ := hstep
    exact h d _ _ ih hd hs

namespace Program

/-- From `I` and `P`, a run keeps `I` all along and ends with `Q`. -/
def Spec (M : Machine A σ δ ρ) (G : Guard ω ι σ δ ρ) (I P : σ → Prop) (p : Program A α)
    (Q : α → σ → Prop) : Prop :=
  ∀ s, I s → P s → p.Holds M G I (fun a s => I s ∧ Q a s) s

variable {M : Machine A σ δ ρ} {G : Guard ω ι σ δ ρ} {I P P' : σ → Prop} {Q Q' : α → σ → Prop}

theorem spec_pure {a : α} (h : ∀ s, I s → P s → Q a s) : Spec M G I P (pure a : Program A α) Q :=
  fun s hI hP => ⟨hI, h s hI hP⟩

theorem Spec.bind {p : Program A α} {f : α → Program A β} {R : β → σ → Prop}
    (hp : Spec M G I P p Q) (hf : ∀ a, Spec M G I (Q a) (f a) R) : Spec M G I P (p >>= f) R :=
  fun s hI hP => Holds.bind ((hp s hI hP).post fun a t ht => hf a t ht.1 ht.2)

theorem Spec.pre {p : Program A α} (hp : Spec M G I P p Q) (h : ∀ s, I s → P' s → P s) :
    Spec M G I P' p Q :=
  fun s hI hP => hp s hI (h s hI hP)

theorem Spec.post {p : Program A α} (hp : Spec M G I P p Q) (h : ∀ a s, I s → Q a s → Q' a s) :
    Spec M G I P p Q' :=
  fun s hI hP => (hp s hI hP).post fun a t ht => ⟨ht.1, h a t ht.1 ht.2⟩

theorem spec_when {c : Bool} {p : Program A Unit} {Q : Unit → σ → Prop}
    (hp : c = true → Spec M G I P p Q) (hskip : c = false → ∀ s, I s → P s → Q () s) :
    Spec M G I P (when c p) Q := by
  cases c with
  | true => exact hp rfl
  | false => exact spec_pure (hskip rfl)

/-- **A call**: what the others keep is there when it answers. -/
theorem spec_ask {i : ι} {Q : A i → σ → Prop} (hP : M.Stable G i fun s => I s ∧ P s)
    (ha : ∀ r s a t, I s → P s → G.answer i r s → M.answer i r s = some (a, t) → I t ∧ Q a t) :
    Spec M G I P (ask i : Program A (A i)) Q := by
  intro s hI hPs s' hparts
  obtain ⟨hI', hP'⟩ := hP.parts ⟨hI, hPs⟩ hparts
  exact ⟨hI', fun r a t hr hans => ha r s' a t hI' hP' hr hans⟩

end Program

/-! ## Every run -/

variable {M : Machine A σ δ ρ} {G : Guard ω ι σ δ ρ} {I : σ → Prop} {op : ω → Program A Unit}

/-- A step of an operation under way, or the beginning of one. -/
theorem holds_next {w w' : σ × Program A Unit} {m : Move ω δ ρ}
    (hop : ∀ o s, G.start o s → I s → (op o).Holds M G I (fun _ => I) s)
    (h : w.2.Holds M G I (fun _ => I) w.1) (hm : G.Meets w m) (hn : M.next op w m = some w') :
    w'.2.Holds M G I (fun _ => I) w'.1 := by
  obtain ⟨s, p⟩ := w
  cases m with
  | start o =>
    obtain rfl := Option.some.inj hn
    exact hop o s hm (h.now fun _ _ => id)
  | during d =>
    cases p with
    | done a => cases hn
    | call i next =>
      simp only [Machine.next, Option.map_eq_some_iff] at hn
      obtain ⟨t, ht, rfl⟩ := hn
      intro s' hs
      exact h s' (.head ⟨d, hm, ht⟩ hs)
  | answer r =>
    cases p with
    | done a => cases hn
    | call i next =>
      simp only [Machine.next, Option.map_eq_some_iff] at hn
      obtain ⟨⟨a, t⟩, ht, rfl⟩ := hn
      exact (h s .refl).2 r a t hm ht

/-- **Every moment of every run.**  What holds at the start and through every operation that begins
where it holds, holds in every state of a run whose steps meet the guard. -/
theorem kept {start : σ → Prop} {w₀ w : σ × Program A Unit} {ms : List (Move ω δ ρ)}
    (hop : ∀ o s, G.start o s → I s → (op o).Holds M G I (fun _ => I) s)
    (hstart : ∀ s, start s → I s) (h₀ : (M.system op start).start w₀)
    (hG : (M.system op start).Along G.Meets w₀ ms)
    (he : (M.system op start).exec w₀ ms = some w) : I w.1 := by
  have hholds : w.2.Holds M G I (fun _ => I) w.1 := by
    have hnext : ∀ w m w', w.2.Holds M G I (fun _ => I) w.1 → G.Meets w m →
        (M.system op start).next w m = some w' → w'.2.Holds M G I (fun _ => I) w'.1 :=
      fun w m w' h hm hn => holds_next hop h hm hn
    have hfirst : w₀.2.Holds M G I (fun _ => I) w₀.1 := by
      obtain ⟨hs, hdone⟩ := h₀
      rw [hdone]
      exact hstart _ hs
    exact (M.system op start).exec_induction hnext hfirst hG he
  exact hholds.now fun _ _ => id

/-! ## Calls that may fail -/

namespace Fallible

/-- `I` holds at every moment and `Q` of the result or the error at the end. -/
def Holds (M : Machine A σ δ ρ) (G : Guard ω ι σ δ ρ) (I : σ → Prop)
    (Q : Except ε α → σ → Prop) (x : Fallible A ε α) (s : σ) : Prop :=
  Program.Holds M G I Q x.run s

variable {s : σ}

@[simp] theorem holds_pure {Q : Except ε α → σ → Prop} {a : α} :
    Holds M G I Q (pure a : Fallible A ε α) s ↔ Q (.ok a) s := Iff.rfl

theorem holds_check {Q : Except ε α → σ → Prop} {e : Except ε α} :
    Holds M G I Q (check e : Fallible A ε α) s ↔ Q e s := Iff.rfl

/-- What follows a result; an error ends it. -/
theorem Holds.bind {x : Fallible A ε α} {f : α → Fallible A ε β} {Q : Except ε β → σ → Prop}
    (h : Holds M G I (fun r s => match r with
      | .ok a => Holds M G I Q (f a) s
      | .error e => Q (.error e) s) x s) : Holds M G I Q (x >>= f) s := by
  apply Program.Holds.bind
  refine Program.Holds.post h fun r t ht => ?_
  cases r with
  | ok a => exact ht
  | error e => exact ht

/-- One call: its answer is read as a result or an error. -/
theorem holds_attempt {i : ι} {read : A i → Except ε α} {Q : Except ε α → σ → Prop}
    (h : ∀ s', M.Parts G i s s' →
      I s' ∧ ∀ r a t, G.answer i r s' → M.answer i r s' = some (a, t) → Q (read a) t) :
    Holds M G I Q (attempt i read) s := h

end Fallible

end Interaction
