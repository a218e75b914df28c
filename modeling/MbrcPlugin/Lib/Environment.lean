import MbrcPlugin.Lib.Interaction

/-!
# Programs in an environment that answers as it likes

What may be answered to a call, and the state the environment goes on from, is a relation.  A run
lists each call beside the state it is made in (`Runs`).  `Obeys env Ok Q` says that every call is
one that `Ok` allows where it is made, and that `Q` holds of the result and the state at the end;
its rules follow the steps of a program.  In `recorded` every answer is possible and the state is
the transcript so far; in `watched` it is what a monitor keeps of that.
-/

namespace Interaction

variable {ι : Type} {A : ι → Type} {α β ε σ : Type}

theorem ok_of_mapError {ε ε' α : Type} {f : ε → ε'} {e : Except ε α} {a : α}
    (h : e.mapError f = .ok a) : e = .ok a := by
  cases e with
  | ok b => rw [← Except.ok.inj h]
  | error e => cases h

/-- What may be answered to a call in a state, and the states it may leave. -/
abbrev Environment {ι : Type} (A : ι → Type) (σ : Type) := σ → (i : ι) → A i → σ → Prop

/-- Every answer is possible; the state is the calls and the answers so far. -/
def recorded : Environment A (List (Sigma A)) := fun s i r t => t = s ++ [⟨i, r⟩]

namespace Program

/-- A run: its calls, each beside the state it is made in, the result and the last state. -/
inductive Runs (env : Environment A σ) : Program A α → σ → List (σ × ι) → α → σ → Prop where
  | done (a : α) (s : σ) : Runs env (.done a) s [] a s
  | call {i : ι} {next : A i → Program A α} {s s' t : σ} {r : A i} {calls : List (σ × ι)} {a : α}
      (hr : env s i r s') (hrest : Runs env (next r) s' calls a t) :
      Runs env (.call i next) s ((s, i) :: calls) a t

/-- The calls of a run that a function answers, each beside the state it is made in. -/
def trace (answer : σ → (i : ι) → A i × σ) : Program A α → σ → List (σ × ι)
  | done _, _ => []
  | call i next, s => (s, i) :: (next (answer s i).1).trace answer (answer s i).2

/-- What a function answers is a run, where each of its answers is possible in the states it comes
to. -/
theorem runs_trace_of {env : Environment A σ} {answer : σ → (i : ι) → A i × σ} {Inv : σ → Prop}
    (h : ∀ s i, Inv s → env s i (answer s i).1 (answer s i).2 ∧ Inv (answer s i).2)
    (p : Program A α) {s : σ} (hs : Inv s) :
    p.Runs env s (p.trace answer s) (p.run answer s).2.1 (p.run answer s).2.2 ∧
      Inv (p.run answer s).2.2 := by
  induction p generalizing s with
  | done a => exact ⟨Runs.done a s, hs⟩
  | call i next ih =>
    obtain ⟨henv, hnext⟩ := h s i hs
    obtain ⟨hrun, hend⟩ := ih _ hnext
    exact ⟨Runs.call henv hrun, hend⟩

theorem runs_trace {env : Environment A σ} {answer : σ → (i : ι) → A i × σ}
    (h : ∀ s i, env s i (answer s i).1 (answer s i).2) (p : Program A α) (s : σ) :
    p.Runs env s (p.trace answer s) (p.run answer s).2.1 (p.run answer s).2.2 := by
  have hall : ∀ s i, True → env s i (answer s i).1 (answer s i).2 ∧ True :=
    fun s i _ => ⟨h s i, trivial⟩
  exact (runs_trace_of hall p trivial).1

/-- Every call is allowed where it is made, and the end is as it should be. -/
def Obeys (env : Environment A σ) (Ok : σ → ι → Prop) (Q : α → σ → Prop) : Program A α → σ → Prop
  | done a, s => Q a s
  | call i next, s => Ok s i ∧ ∀ r t, env s i r t → (next r).Obeys env Ok Q t

variable {env : Environment A σ} {Ok : σ → ι → Prop} {Q Q' : α → σ → Prop} {s : σ}

theorem obeys_done {a : α} : Obeys env Ok Q (.done a) s ↔ Q a s := Iff.rfl

theorem obeys_call {i : ι} {next : A i → Program A α} :
    Obeys env Ok Q (.call i next) s ↔
      Ok s i ∧ ∀ r t, env s i r t → (next r).Obeys env Ok Q t := Iff.rfl

/-- **What a program obeys** holds of each of its runs. -/
theorem Obeys.run {p : Program A α} (h : p.Obeys env Ok Q s) {calls : List (σ × ι)} {a : α} {t : σ}
    (hrun : p.Runs env s calls a t) : (∀ c ∈ calls, Ok c.1 c.2) ∧ Q a t := by
  induction hrun with
  | done a s => exact ⟨fun c hc => absurd hc List.not_mem_nil, h⟩
  | call hr _ ih =>
    obtain ⟨hcalls, hend⟩ := ih (h.2 _ _ hr)
    refine ⟨fun c hc => ?_, hend⟩
    rcases List.mem_cons.mp hc with rfl | hc
    · exact h.1
    · exact hcalls c hc

theorem Obeys.mono {p : Program A α} (h : p.Obeys env Ok Q s) (hQ : ∀ a t, Q a t → Q' a t) :
    p.Obeys env Ok Q' s := by
  induction p generalizing s with
  | done a => exact hQ a s h
  | call i next ih => exact ⟨h.1, fun r t ht => ih r (h.2 r t ht)⟩

theorem Obeys.bind {p : Program A α} {f : α → Program A β} {Q : β → σ → Prop}
    (h : p.Obeys env Ok (fun a t => (f a).Obeys env Ok Q t) s) : (p.bind f).Obeys env Ok Q s := by
  induction p generalizing s with
  | done a => exact h
  | call i next ih => exact ⟨h.1, fun r t ht => ih r (h.2 r t ht)⟩

/-- Every answer is possible; the state is what a monitor keeps of the calls and the answers. -/
def watched (f : σ → Sigma A → σ) : Environment A σ := fun s i r t => t = f s ⟨i, r⟩

/-- A monitor reads a transcript. -/
theorem Runs.watched {f : σ → Sigma A → σ} {p : Program A α} {h t : List (Sigma A)}
    {calls : List (List (Sigma A) × ι)} {a : α} (hrun : p.Runs recorded h calls a t) (s : σ) :
    p.Runs (watched f) (h.foldl f s) (calls.map fun c => (c.1.foldl f s, c.2)) a (t.foldl f s) := by
  induction hrun with
  | done a h => exact Runs.done a _
  | @call i next h h' t r calls a hr _ ih =>
    obtain rfl := hr
    refine Runs.call (r := r) ?_ ih
    simp [Program.watched, List.foldl_append]

/-- What a program obeys under a monitor holds of what the monitor makes of each transcript. -/
theorem Obeys.watched {f : σ → Sigma A → σ} {p : Program A α} {h t : List (Sigma A)}
    {calls : List (List (Sigma A) × ι)} {a : α}
    (hp : p.Obeys (watched f) Ok Q (h.foldl f s)) (hrun : p.Runs recorded h calls a t) :
    (∀ c ∈ calls, Ok (c.1.foldl f s) c.2) ∧ Q a (t.foldl f s) := by
  obtain ⟨hcalls, hend⟩ := hp.run (hrun.watched s)
  refine ⟨fun c hc => ?_, hend⟩
  exact hcalls _ (List.mem_map_of_mem hc)

end Program

namespace Fallible

/-- Every call is allowed where it is made, and the end, good or bad, is as it should be. -/
def Obeys (env : Environment A σ) (Ok : σ → ι → Prop) (Q : Except ε α → σ → Prop)
    (x : Fallible A ε α) (s : σ) : Prop :=
  Program.Obeys env Ok Q x.run s

variable {env : Environment A σ} {Ok : σ → ι → Prop} {s : σ}

theorem obeys_run {Q : Except ε α → σ → Prop} {x : Fallible A ε α} :
    Program.Obeys env Ok Q x.run s ↔ Obeys env Ok Q x s := Iff.rfl

theorem obeys_pure {Q : Except ε α → σ → Prop} {a : α} :
    Obeys env Ok Q (pure a : Fallible A ε α) s ↔ Q (.ok a) s := Iff.rfl

theorem obeys_attempt {Q : Except ε α → σ → Prop} {i : ι} {read : A i → Except ε α} :
    Obeys env Ok Q (attempt i read : Fallible A ε α) s ↔
      Ok s i ∧ ∀ r t, env s i r t → Q (read r) t := Iff.rfl

theorem Obeys.mono {x : Fallible A ε α} {Q Q' : Except ε α → σ → Prop}
    (h : Obeys env Ok Q x s) (hQ : ∀ r t, Q r t → Q' r t) : Obeys env Ok Q' x s :=
  Program.Obeys.mono h hQ

/-- One program after another: an error ends both. -/
theorem Obeys.bind {x : Fallible A ε α} {f : α → Fallible A ε β} {Q : Except ε β → σ → Prop}
    (h : Obeys env Ok (fun r t => match r with
      | .ok a => Obeys env Ok Q (f a) t
      | .error e => Q (.error e) t) x s) : Obeys env Ok Q (x >>= f) s := by
  apply Program.Obeys.bind
  refine Program.Obeys.mono h fun r t ht => ?_
  cases r with
  | ok a => exact ht
  | error e => exact ht

end Fallible

/-! ## Programs that leave the state as it is -/

section Leaves

variable {env : Environment A σ} {s : σ}

/-- The state is left as it is, and `Q` holds of the result. -/
def Program.Leaves (env : Environment A σ) (Q : α → Prop) (p : Program A α) (s : σ) : Prop :=
  p.Obeys env (fun _ _ => True) (fun a t => t = s ∧ Q a) s

namespace Program

theorem leaves_done {Q : α → Prop} {a : α} (ha : Q a) : Leaves env Q (.done a) s := ⟨rfl, ha⟩

theorem leaves_call {Q : α → Prop} {i : ι} {next : A i → Program A α}
    (h : ∀ r t, env s i r t → t = s ∧ Leaves env Q (next r) s) : Leaves env Q (.call i next) s := by
  refine ⟨trivial, fun r t ht => ?_⟩
  obtain ⟨rfl, hnext⟩ := h r t ht
  exact hnext

theorem Leaves.bind {P : α → Prop} {Q : β → Prop} {p : Program A α} {f : α → Program A β}
    (hp : p.Leaves env P s) (hf : ∀ a, P a → (f a).Leaves env Q s) : (p.bind f).Leaves env Q s := by
  refine Obeys.bind (Obeys.mono hp fun a t ht => ?_)
  obtain ⟨rfl, ha⟩ := ht
  exact hf a ha

/-- What follows a program that leaves the state. -/
theorem Leaves.obeys {P : α → Prop} {Q : β → σ → Prop} {p : Program A α} {f : α → Program A β}
    (hp : p.Leaves env P s) (hf : ∀ a, P a → (f a).Obeys env (fun _ _ => True) Q s) :
    (p.bind f).Obeys env (fun _ _ => True) Q s := by
  refine Obeys.bind (Obeys.mono hp fun a t ht => ?_)
  obtain ⟨rfl, ha⟩ := ht
  exact hf a ha

end Program

/-- The same of a program that may stop with an error: `Q` holds where it ends well. -/
def Fallible.Leaves (env : Environment A σ) (Q : α → Prop) (x : Fallible A ε α) (s : σ) : Prop :=
  x.run.Leaves env (fun r => ∀ a, r = .ok a → Q a) s

namespace Fallible

theorem leaves_pure {Q : α → Prop} {a : α} (ha : Q a) :
    Leaves env Q (pure a : Fallible A ε α) s :=
  Program.leaves_done fun b hb => by rwa [← Except.ok.inj hb]

theorem leaves_check {Q : α → Prop} {e : Except ε α} (h : ∀ a, e = .ok a → Q a) :
    Leaves env Q (check e : Fallible A ε α) s := Program.leaves_done h

theorem leaves_attempt {Q : α → Prop} {i : ι} {read : A i → Except ε α}
    (h : ∀ r t, env s i r t → t = s ∧ ∀ a, read r = .ok a → Q a) :
    Leaves env Q (attempt i read : Fallible A ε α) s :=
  Program.leaves_call fun r t ht => ⟨(h r t ht).1, Program.leaves_done (h r t ht).2⟩

theorem Leaves.bind {P : α → Prop} {Q : β → Prop} {x : Fallible A ε α} {f : α → Fallible A ε β}
    (hx : Leaves env P x s) (hf : ∀ a, P a → Leaves env Q (f a) s) :
    Leaves env Q (x >>= f) s := by
  refine Program.Leaves.bind hx fun r hr => ?_
  cases r with
  | ok a => exact hf a (hr a rfl)
  | error e =>
    refine Program.leaves_done fun b hb => ?_
    cases hb

theorem Leaves.mono {P Q : α → Prop} {x : Fallible A ε α} (hx : Leaves env P x s)
    (h : ∀ a, P a → Q a) : Leaves env Q x s :=
  Program.Obeys.mono hx fun _ _ hr => ⟨hr.1, fun a ha => h a (hr.2 a ha)⟩

/-- What follows a program that leaves the state; an error leaves it too. -/
theorem Leaves.obeys {P : α → Prop} {x : Fallible A ε α} {f : α → Fallible A ε β}
    {Q : Except ε β → σ → Prop} (hx : Leaves env P x s)
    (hf : ∀ a, P a → Obeys env (fun _ _ => True) Q (f a) s) (he : ∀ e, Q (.error e) s) :
    Obeys env (fun _ _ => True) Q (x >>= f) s := by
  refine Obeys.bind (Obeys.mono hx fun r t ht => ?_)
  obtain ⟨rfl, hr⟩ := ht
  cases r with
  | ok a => exact hf a (hr a rfl)
  | error e => exact he e

/-- A program that leaves the state, with its error as a result. -/
theorem Leaves.run {Q : α → Prop} {x : Fallible A ε α} (hx : Leaves env Q x s) :
    x.run.Leaves env (fun r => ∀ a, r = .ok a → Q a) s := hx

end Fallible

/-! ## Programs that only read -/

/-- The result, where it is good, or that an error may be. -/
def Got (E : Prop) (Q : α → Prop) : Except ε α → Prop
  | .ok a => Q a
  | .error _ => E

/-- The state is left as it is, and it ends well, or with an error where `E` holds. -/
def Fallible.Reads (env : Environment A σ) (E : Prop) (Q : α → Prop) (x : Fallible A ε α) (s : σ) :
    Prop := x.run.Leaves env (Got E Q) s

/-- The result as an option: an error is none. -/
def Fallible.toOption (x : Fallible A ε α) : Fallible A ε (Option α) :=
  ExceptT.mk (x.run.bind fun r => .done (.ok r.toOption))

namespace Fallible

variable {E E' : Prop}

theorem reads_pure {Q : α → Prop} {a : α} (ha : Q a) :
    Reads env E Q (pure a : Fallible A ε α) s := Program.leaves_done ha

theorem reads_attempt {Q : α → Prop} {i : ι} {read : A i → Except ε α}
    (h : ∀ r t, env s i r t → t = s ∧ Got E Q (read r)) :
    Reads env E Q (attempt i read : Fallible A ε α) s :=
  Program.leaves_call fun r t ht => ⟨(h r t ht).1, Program.leaves_done (h r t ht).2⟩

theorem Reads.bind {P : α → Prop} {Q : β → Prop} {x : Fallible A ε α} {f : α → Fallible A ε β}
    (hx : Reads env E P x s) (hf : ∀ a, P a → Reads env E Q (f a) s) :
    Reads env E Q (x >>= f) s := by
  refine Program.Leaves.bind hx fun r hr => ?_
  cases r with
  | ok a => exact hf a hr
  | error e => exact Program.leaves_done hr

theorem Reads.mono {P Q : α → Prop} {x : Fallible A ε α} (hx : Reads env E P x s)
    (h : ∀ a, P a → Q a) (hE : E → E') : Reads env E' Q x s := by
  refine Program.Obeys.mono hx fun r _ hr => ⟨hr.1, ?_⟩
  cases r with
  | ok a => exact h a hr.2
  | error e => exact hE hr.2

/-- As an option it ends well, with none where it may fail. -/
theorem Reads.toOption {Q : α → Prop} {x : Fallible A ε α} (hx : Reads env E Q x s) :
    Reads env E' (fun o => o.elim E Q) x.toOption s := by
  refine Program.Leaves.bind hx fun r hr => Program.leaves_done ?_
  cases r with
  | ok a => exact hr
  | error e => exact hr

/-- What follows a program that only reads. -/
theorem Reads.obeys {P : α → Prop} {x : Fallible A ε α} {f : α → Fallible A ε β}
    {Q : Except ε β → σ → Prop} (hx : Reads env E P x s)
    (hf : ∀ a, P a → Obeys env (fun _ _ => True) Q (f a) s) (he : E → ∀ e, Q (.error e) s) :
    Obeys env (fun _ _ => True) Q (x >>= f) s := by
  refine Obeys.bind (Obeys.mono hx fun r t ht => ?_)
  obtain ⟨rfl, hr⟩ := ht
  cases r with
  | ok a => exact hf a hr
  | error e => exact he hr e

/-- A run of a program that only reads. -/
theorem Reads.run {Q : α → Prop} {x : Fallible A ε α} (hx : Reads env E Q x s)
    {calls : List (σ × ι)} {r : Except ε α} {t : σ} (hrun : x.run.Runs env s calls r t) :
    t = s ∧ Got E Q r := (Program.Obeys.run hx hrun).2

end Fallible

end Leaves

/-! ## Programs of a smaller interface -/

/-- A program whose calls are some of those of a larger interface. -/
def Program.through {κ : Type} {B : κ → Type} (f : ι → κ) :
    Program (fun i => B (f i)) α → Program B α
  | .done a => .done a
  | .call i next => .call (f i) fun r => (next r).through f

/-! ## Transcripts -/

section Records

variable {Ok : List (Sigma A) → ι → Prop} {h : List (Sigma A)}

/-- Every call is allowed after the transcript it is made at; `P` holds of the result and of the
transcript at the end, which goes on from `h`. -/
def Program.Records (Ok : List (Sigma A) → ι → Prop) (P : α → List (Sigma A) → Prop)
    (p : Program A α) (h : List (Sigma A)) : Prop :=
  p.Obeys recorded Ok (fun a t => h ⊆ t ∧ P a t) h

namespace Program

theorem records_done {P : α → List (Sigma A) → Prop} {a : α} (hP : P a h) :
    Records Ok P (.done a) h := ⟨List.Subset.refl h, hP⟩

theorem records_call {P : α → List (Sigma A) → Prop} {i : ι} {next : A i → Program A α}
    (hi : Ok h i) (hnext : ∀ r, Records Ok P (next r) (h ++ [⟨i, r⟩])) :
    Records Ok P (.call i next) h := by
  refine ⟨hi, fun r t ht => ?_⟩
  obtain rfl := ht
  exact (hnext r).mono fun a t ht => ⟨List.Subset.trans (List.subset_append_left h _) ht.1, ht.2⟩

theorem Records.bind {P : α → List (Sigma A) → Prop} {Q : β → List (Sigma A) → Prop}
    {p : Program A α} {f : α → Program A β} (hp : p.Records Ok P h)
    (hf : ∀ a t, h ⊆ t → P a t → (f a).Records Ok Q t) : (p.bind f).Records Ok Q h := by
  refine Obeys.bind (Obeys.mono hp fun a t ht => ?_)
  exact (hf a t ht.1 ht.2).mono fun b u hu => ⟨List.Subset.trans ht.1 hu.1, hu.2⟩

theorem Records.mono {P Q : α → List (Sigma A) → Prop} {p : Program A α} (hp : p.Records Ok P h)
    (hPQ : ∀ a t, P a t → Q a t) : p.Records Ok Q h :=
  Obeys.mono hp fun a t ht => ⟨ht.1, hPQ a t ht.2⟩

/-- The transcript at the end goes on from the one at the start. -/
theorem Records.extends {P : α → List (Sigma A) → Prop} {p : Program A α}
    (hp : p.Records Ok P h) : p.Records Ok (fun a t => h ⊆ t ∧ P a t) h :=
  Obeys.mono hp fun _ _ ht => ⟨ht.1, ht⟩

/-- The calls of a smaller interface, where each is allowed from here on. -/
theorem records_through {κ : Type} {f : κ → ι} {P : κ → Prop}
    {x : Program (fun k => A (f k)) α} (hx : x.Within P)
    (hOk : ∀ k t, h ⊆ t → P k → Ok t (f k)) :
    (x.through f).Records Ok (fun _ _ => True) h := by
  induction x generalizing h with
  | done a => exact records_done trivial
  | call k next ih =>
    refine records_call (hOk k h (List.Subset.refl h) hx.1) fun r => ?_
    refine ih r (hx.2 r) fun k t hsub hk => hOk k t ?_ hk
    exact List.Subset.trans (List.subset_append_left h _) hsub

/-- **The calls of a run** are allowed after the transcripts they are made at. -/
theorem Records.run {P : α → List (Sigma A) → Prop} {p : Program A α} (hp : p.Records Ok P h)
    {calls : List (List (Sigma A) × ι)} {a : α} {t : List (Sigma A)}
    (hrun : p.Runs recorded h calls a t) : (∀ c ∈ calls, Ok c.1 c.2) ∧ P a t :=
  ⟨(Obeys.run hp hrun).1, (Obeys.run hp hrun).2.2⟩

end Program

/-- The same of a program that may stop with an error: `P` holds where it ends well. -/
def Fallible.Records (Ok : List (Sigma A) → ι → Prop) (P : α → List (Sigma A) → Prop)
    (x : Fallible A ε α) (h : List (Sigma A)) : Prop :=
  x.run.Records Ok (fun r t => ∀ a, r = .ok a → P a t) h

namespace Fallible

theorem records_run {P : α → List (Sigma A) → Prop} {x : Fallible A ε α} :
    x.run.Records Ok (fun r t => ∀ a, r = .ok a → P a t) h ↔ Records Ok P x h := Iff.rfl

theorem records_pure {P : α → List (Sigma A) → Prop} {a : α} (hP : P a h) :
    Records Ok P (pure a : Fallible A ε α) h :=
  Program.records_done fun b hb => by rwa [← Except.ok.inj hb]

theorem records_check {P : α → List (Sigma A) → Prop} {e : Except ε α}
    (hP : ∀ a, e = .ok a → P a h) : Records Ok P (check e : Fallible A ε α) h :=
  Program.records_done hP

theorem records_attempt {P : α → List (Sigma A) → Prop} {i : ι} {read : A i → Except ε α}
    (hi : Ok h i) (hP : ∀ r a, read r = .ok a → P a (h ++ [⟨i, r⟩])) :
    Records Ok P (attempt i read : Fallible A ε α) h :=
  Program.records_call hi fun r => Program.records_done (hP r)

/-- One program after another. -/
theorem Records.bind {P : α → List (Sigma A) → Prop} {Q : β → List (Sigma A) → Prop}
    {x : Fallible A ε α} {f : α → Fallible A ε β} (hx : Records Ok P x h)
    (hf : ∀ a t, h ⊆ t → P a t → Records Ok Q (f a) t) : Records Ok Q (x >>= f) h := by
  refine Program.Records.bind hx fun r t ht hr => ?_
  cases r with
  | ok a => exact hf a t ht (hr a rfl)
  | error e =>
    refine Program.records_done fun b hb => ?_
    cases hb

end Fallible

end Records

-- From here on the rules stand for the judgements, and no proof looks into a program through one.
attribute [irreducible] Program.Obeys Fallible.Obeys Program.Leaves Fallible.Leaves Fallible.Reads
  Program.Records Fallible.Records

end Interaction
