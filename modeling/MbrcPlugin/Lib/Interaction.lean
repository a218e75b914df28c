import Mathlib.Algebra.GroupWithZero.Nat
import Mathlib.Algebra.Order.BigOperators.Group.List
import Mathlib.Algebra.BigOperators.Group.List.Basic

/-!
# Programs that call out

A program ends or makes a call and goes on with the answer; what answers the calls is a state
machine of any kind (`run`).  `Within P` says that every call satisfies `P` whatever the answers
are, `Spends cost n` that the calls of a run cost at most `n`.  A call that may fail stands in an
`ExceptT` over the programs; the rules of both judgements follow the steps of its `do` blocks.
-/

namespace Interaction

variable {ι : Type} {A : ι → Type} {α β ε σ : Type}

/-- A program whose calls `i` are answered by an `A i`. -/
inductive Program {ι : Type} (A : ι → Type) (α : Type) where
  | done (a : α)
  | call (i : ι) (next : A i → Program A α)

namespace Program

def bind : Program A α → (α → Program A β) → Program A β
  | done a, f => f a
  | call i next, f => call i fun r => (next r).bind f

instance : Monad (Program A) where
  pure := done
  bind := bind

/-- The calls, the result and the last state, where a state machine answers the calls. -/
def run (answer : σ → (i : ι) → A i × σ) : Program A α → σ → List ι × α × σ
  | done a, s => ([], a, s)
  | call i next, s =>
    let r := answer s i
    let rest := (next r.1).run answer r.2
    (i :: rest.1, rest.2)

/-- The calls of a run. -/
def calls (answer : σ → (i : ι) → A i × σ) (p : Program A α) (s : σ) : List ι :=
  (p.run answer s).1

/-! ## Which calls are made -/

/-- Every call satisfies `P`, whatever the answers are. -/
def Within (P : ι → Prop) : Program A α → Prop
  | done _ => True
  | call i next => P i ∧ ∀ r, (next r).Within P

variable {P Q : ι → Prop}

theorem Within.mono (h : ∀ i, P i → Q i) {p : Program A α} (hp : p.Within P) : p.Within Q := by
  induction p with
  | done a => trivial
  | call i next ih => exact ⟨h i hp.1, fun r => ih r (hp.2 r)⟩

theorem Within.bind {p : Program A α} {f : α → Program A β} (hp : p.Within P)
    (hf : ∀ a, (f a).Within P) : (p.bind f).Within P := by
  induction p with
  | done a => exact hf a
  | call i next ih => exact ⟨hp.1, fun r => ih r (hp.2 r)⟩

/-- **The calls of a run** satisfy what the program is within. -/
theorem Within.calls {p : Program A α} (hp : p.Within P) (answer : σ → (i : ι) → A i × σ) (s : σ) :
    ∀ i ∈ p.calls answer s, P i := by
  induction p generalizing s with
  | done a => simp [Program.calls, run]
  | call i next ih =>
    intro j hj
    rcases List.mem_cons.mp hj with rfl | hj
    · exact hp.1
    · exact ih _ (hp.2 _) _ j hj

/-! ## Which calls are made where the answers are known -/

/-- Every call satisfies `P`, as long as the answers before it satisfy `R`. -/
def WithinIf (R : (i : ι) → A i → Prop) (P : ι → Prop) : Program A α → Prop
  | done _ => True
  | call i next => P i ∧ ∀ r, R i r → (next r).WithinIf R P

variable {R R' : (i : ι) → A i → Prop}

/-- The less is known of the answers, the more is said of the calls. -/
theorem WithinIf.anti (h : ∀ i r, R' i r → R i r) {p : Program A α} (hp : p.WithinIf R P) :
    p.WithinIf R' P := by
  induction p with
  | done a => trivial
  | call i next ih => exact ⟨hp.1, fun r hr => ih r (hp.2 r (h i r hr))⟩

/-! ## What they cost -/

/-- The calls cost at most `n`, whatever the answers are. -/
def Spends (cost : ι → Nat) : Nat → Program A α → Prop
  | _, done _ => True
  | n, call i next => cost i ≤ n ∧ ∀ r, Spends cost (n - cost i) (next r)

variable {cost : ι → Nat}

theorem Spends.mono {m n : Nat} (h : m ≤ n) {p : Program A α} (hp : Spends cost m p) :
    Spends cost n p := by
  induction p generalizing m n with
  | done a => trivial
  | call i next ih =>
    exact ⟨hp.1.trans h, fun r => ih r (Nat.sub_le_sub_right h _) (hp.2 r)⟩

/-- Calls that are free cost nothing. -/
theorem Within.spends {p : Program A α} (hp : p.Within fun i => cost i = 0) (n : Nat) :
    Spends cost n p := by
  induction p generalizing n with
  | done a => trivial
  | call i next ih => exact ⟨by rw [hp.1]; exact Nat.zero_le n, fun r => ih r (hp.2 r) _⟩

/-- What is free before a program leaves it all it may spend. -/
theorem Within.spends_bind {n : Nat} {p : Program A α} {f : α → Program A β}
    (hp : p.Within fun i => cost i = 0) (hf : ∀ a, Spends cost n (f a)) :
    Spends cost n (p.bind f) := by
  induction p with
  | done a => exact hf a
  | call i next ih =>
    refine ⟨by rw [hp.1]; exact Nat.zero_le n, fun r => ?_⟩
    rw [hp.1]
    exact ih r (hp.2 r)

/-- **The calls of a run** cost at most what the program spends. -/
theorem Spends.calls {n : Nat} {p : Program A α} (hp : Spends cost n p)
    (answer : σ → (i : ι) → A i × σ) (s : σ) : ((p.calls answer s).map cost).sum ≤ n := by
  induction p generalizing n s with
  | done a => simp [Program.calls, run]
  | call i next ih =>
    have hi : cost i ≤ n := hp.1
    have hrest := ih _ (hp.2 (answer s i).1) (answer s i).2
    have hcalls : ((call i next).calls answer s).map cost =
        cost i :: (((next (answer s i).1).calls answer (answer s i).2).map cost) := rfl
    rw [hcalls, List.sum_cons]
    omega

end Program

/-! ## Calls that may fail -/

/-- A program that may stop with an error. -/
abbrev Fallible {ι : Type} (A : ι → Type) (ε α : Type) := ExceptT ε (Program A) α

namespace Fallible

/-- One call, its answer read as a result or an error. -/
def attempt (i : ι) (read : A i → Except ε α) : Fallible A ε α :=
  ExceptT.mk (.call i fun r => .done (read r))

/-- A check that no call is needed for. -/
def check (e : Except ε α) : Fallible A ε α := ExceptT.mk (.done e)

/-- Every call satisfies `P`, whatever the answers are. -/
def Within (P : ι → Prop) (x : Fallible A ε α) : Prop := Program.Within P x.run

/-- The calls cost at most `n`, whatever the answers are. -/
def Spends (cost : ι → Nat) (n : Nat) (x : Fallible A ε α) : Prop := Program.Spends cost n x.run

variable {P Q : ι → Prop}

/-! ### Rules of `Within` -/

theorem Within.mono (h : ∀ i, P i → Q i) {x : Fallible A ε α} (hx : x.Within P) : x.Within Q :=
  Program.Within.mono h hx

@[simp] theorem within_pure (a : α) : Within P (pure a : Fallible A ε α) ↔ True := Iff.rfl

@[simp] theorem within_throw (e : ε) : Within P (throw e : Fallible A ε α) ↔ True := Iff.rfl

@[simp] theorem within_pure_bind (a : α) (f : α → Fallible A ε β) :
    Within P ((pure a : Fallible A ε α) >>= f) ↔ Within P (f a) := Iff.rfl

@[simp] theorem within_throw_bind (e : ε) (f : α → Fallible A ε β) :
    Within P ((throw e : Fallible A ε α) >>= f) ↔ True := Iff.rfl

@[simp] theorem within_attempt (i : ι) (read : A i → Except ε α) :
    Within P (attempt i read) ↔ P i :=
  ⟨fun h => h.1, fun h => ⟨h, fun _ => trivial⟩⟩

/-- What follows a result or an error. -/
theorem within_bindCont (e : Except ε α) (f : α → Fallible A ε β) :
    Program.Within P (ExceptT.bindCont f e) ↔ ∀ a, e = .ok a → Within P (f a) := by
  cases e with
  | error e => exact ⟨fun _ _ ha => by simp at ha, fun _ => trivial⟩
  | ok a =>
    constructor
    · intro h b hb
      rwa [← Except.ok.inj hb]
    · intro h
      exact h a rfl

/-- A call and what follows its result. -/
@[simp] theorem within_attempt_bind (i : ι) (read : A i → Except ε α) (f : α → Fallible A ε β) :
    Within P (attempt i read >>= f) ↔ P i ∧ ∀ r a, read r = .ok a → Within P (f a) :=
  and_congr_right fun _ => forall_congr' fun r => within_bindCont (read r) f

@[simp] theorem within_check (e : Except ε α) : Within P (check e : Fallible A ε α) ↔ True :=
  Iff.rfl

/-- A check and what follows it. -/
@[simp] theorem within_check_bind (e : Except ε α) (f : α → Fallible A ε β) :
    Within P ((check e : Fallible A ε α) >>= f) ↔ ∀ a, e = .ok a → Within P (f a) :=
  within_bindCont e f

/-- One program after another. -/
theorem Within.bind {x : Fallible A ε α} {f : α → Fallible A ε β} (hx : x.Within P)
    (hf : ∀ a, (f a).Within P) : Within P (x >>= f) := by
  apply Program.Within.bind hx
  intro e
  cases e with
  | error e => trivial
  | ok a => exact hf a

theorem Within.ite {c : Prop} [Decidable c] {x y : Fallible A ε α} (hx : c → x.Within P)
    (hy : ¬c → y.Within P) : Within P (if c then x else y) := by
  split
  · exact hx ‹_›
  · exact hy ‹_›

theorem Within.tryCatch {x : Fallible A ε α} {f : ε → Fallible A ε α} (hx : x.Within P)
    (hf : ∀ e, (f e).Within P) : Within P (tryCatch x f) := by
  apply Program.Within.bind hx
  intro e
  cases e with
  | error e => exact hf e
  | ok a => trivial

/-! ### Rules of `Spends` -/

variable {cost : ι → Nat} {n : Nat}

/-- A call and what follows its result. -/
theorem spends_attempt_bind {i : ι} {read : A i → Except ε α} {f : α → Fallible A ε β}
    (hi : cost i ≤ n) (hf : ∀ r a, read r = .ok a → Spends cost (n - cost i) (f a)) :
    Spends cost n (attempt i read >>= f) := by
  refine ⟨hi, fun r => ?_⟩
  show Program.Spends cost (n - cost i) (ExceptT.bindCont f (read r))
  cases hr : read r with
  | error e => trivial
  | ok a => exact hf r a hr

/-- A check and what follows it. -/
theorem spends_check_bind {e : Except ε α} {f : α → Fallible A ε β}
    (hf : ∀ a, e = .ok a → Spends cost n (f a)) :
    Spends cost n ((check e : Fallible A ε α) >>= f) := by
  show Program.Spends cost n (ExceptT.bindCont f e)
  cases e with
  | error e => trivial
  | ok a => exact hf a rfl

/-- What is free before a program leaves it all it may spend. -/
theorem Within.spends_bind {x : Fallible A ε α} {f : α → Fallible A ε β}
    (hx : x.Within fun i => cost i = 0) (hf : ∀ a, Spends cost n (f a)) :
    Spends cost n (x >>= f) := by
  apply Program.Within.spends_bind hx
  intro e
  cases e with
  | error e => trivial
  | ok a => exact hf a

/-! ### Outcomes -/

section Outcome

variable {answer : σ → (i : ι) → A i × σ} {s : σ}

/-- The result of a run. -/
def outcome (answer : σ → (i : ι) → A i × σ) (x : Fallible A ε α) (s : σ) : Except ε α :=
  (x.run.run answer s).2.1

@[simp] theorem outcome_throw (e : ε) :
    outcome answer (throw e : Fallible A ε α) s = .error e := rfl

theorem outcome_check_bind (a : α) (f : α → Fallible A ε β) :
    outcome answer (check (.ok a) >>= f) s = outcome answer (f a) s := rfl

theorem outcome_attempt_bind {i : ι} {read : A i → Except ε α} {a : α}
    (h : read (answer s i).1 = .ok a) (f : α → Fallible A ε β) :
    outcome answer (attempt i read >>= f) s = outcome answer (f a) (answer s i).2 := by
  show (Program.run answer (ExceptT.bindCont f (read (answer s i).1)) (answer s i).2).2.1 = _
  rw [h]
  rfl

/-! ### One program after another -/

theorem run_check_bind (a : α) (f : α → Fallible A ε β) (s : σ) :
    (check (.ok a) >>= f).run.run answer s = (f a).run.run answer s := rfl

theorem run_bind_ok {x : Fallible A ε α} {a : α} {calls : List ι} {s' : σ}
    (h : x.run.run answer s = (calls, .ok a, s')) (f : α → Fallible A ε β) :
    (x >>= f).run.run answer s =
      (calls ++ ((f a).run.run answer s').1, ((f a).run.run answer s').2) := by
  have hbind (p : Program A (Except ε α)) (s : σ) (calls : List ι)
      (hp : p.run answer s = (calls, .ok a, s')) :
      (p.bind (ExceptT.bindCont f)).run answer s =
        (calls ++ ((f a).run.run answer s').1, ((f a).run.run answer s').2) := by
    induction p generalizing s calls with
    | done r =>
      obtain ⟨rfl, rfl, rfl⟩ : [] = calls ∧ r = .ok a ∧ s = s' := by simpa [Program.run] using hp
      rfl
    | call i next ih =>
      obtain ⟨hcalls, hrest⟩ := Prod.mk.inj hp
      subst hcalls
      have hnext := ih (answer s i).1 (answer s i).2 _ (Prod.ext rfl hrest)
      show (i :: _, _) = (i :: _, _)
      rw [hnext]
      rfl
  exact hbind x.run s calls h

/-- After an error nothing is run. -/
theorem run_bind_error {x : Fallible A ε α} {e : ε} {calls : List ι} {s' : σ}
    (h : x.run.run answer s = (calls, .error e, s')) (f : α → Fallible A ε β) :
    (x >>= f).run.run answer s = (calls, .error e, s') := by
  have hbind (p : Program A (Except ε α)) (s : σ) (calls : List ι)
      (hp : p.run answer s = (calls, .error e, s')) :
      (p.bind (ExceptT.bindCont f)).run answer s = (calls, .error e, s') := by
    induction p generalizing s calls with
    | done r =>
      obtain ⟨rfl, rfl, rfl⟩ : [] = calls ∧ r = .error e ∧ s = s' := by
        simpa [Program.run] using hp
      rfl
    | call i next ih =>
      obtain ⟨hcalls, hrest⟩ := Prod.mk.inj hp
      subst hcalls
      have hnext := ih (answer s i).1 (answer s i).2 _ (Prod.ext rfl hrest)
      show (i :: _, _) = (i :: _, _)
      rw [hnext]
  exact hbind x.run s calls h

theorem outcome_bind_error {x : Fallible A ε α} {e : ε} (h : outcome answer x s = .error e)
    (f : α → Fallible A ε β) : outcome answer (x >>= f) s = .error e := by
  have hrun : x.run.run answer s = ((x.run.run answer s).1, .error e, (x.run.run answer s).2.2) :=
    Prod.ext rfl (Prod.ext h rfl)
  exact congrArg (fun r => r.2.1) (run_bind_error hrun f)

/-- What follows a program that ends well. -/
theorem outcome_bind_ok {x : Fallible A ε α} {a : α} (h : outcome answer x s = .ok a)
    (f : α → Fallible A ε β) :
    ∃ s', outcome answer (x >>= f) s = outcome answer (f a) s' := by
  have hrun : x.run.run answer s = ((x.run.run answer s).1, .ok a, (x.run.run answer s).2.2) :=
    Prod.ext rfl (Prod.ext h rfl)
  exact ⟨_, congrArg (fun r => r.2.1) (run_bind_ok hrun f)⟩

end Outcome

end Fallible

/-- A result of two steps is one of the first and then of the second. -/
theorem bind_eq_ok {x : Except ε α} {f : α → Except ε β} {b : β} :
    x >>= f = .ok b ↔ ∃ a, x = .ok a ∧ f a = .ok b := by
  cases x with
  | error e =>
    constructor
    · intro h
      cases h
    · rintro ⟨a, ha, -⟩
      cases ha
  | ok a =>
    constructor
    · intro h
      exact ⟨a, rfl, h⟩
    · rintro ⟨a', ha, h⟩
      rwa [Except.ok.inj ha]

end Interaction
