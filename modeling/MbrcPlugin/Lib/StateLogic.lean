import Mathlib.Order.Defs.PartialOrder

/-!
# Computations on a state

`Agree S R m n`: from states that `S` relates, the computations `m` and `n` give results that `R`
relates and end in states that `S` relates.  `Grows I P m Q`: from a state with the invariant `I`
where `P` holds, `m` ends in a greater state with the invariant, where `Q` holds of the result.  The
rules follow the steps of a computation.
-/

namespace StateLogic

variable {σ τ α β γ δ : Type}

/-! ## Two computations -/

section Agree

variable {S : σ → τ → Prop} {R R' : α → β → Prop} {Q : γ → δ → Prop}

def Agree (S : σ → τ → Prop) (R : α → β → Prop) (m : StateM σ α) (n : StateM τ β) : Prop :=
  ∀ s t, S s t → R (m s).1 (n t).1 ∧ S (m s).2 (n t).2

theorem Agree.pure {a : α} {b : β} (h : R a b) :
    Agree S R (Pure.pure a : StateM σ α) (Pure.pure b : StateM τ β) :=
  fun _ _ hS => ⟨h, hS⟩

theorem Agree.bind {m : StateM σ α} {n : StateM τ β} {k : α → StateM σ γ} {l : β → StateM τ δ}
    (h : Agree S R m n) (hk : ∀ a b, R a b → Agree S Q (k a) (l b)) :
    Agree S Q (m >>= k) (n >>= l) := by
  intro s t hS
  obtain ⟨hR, hS⟩ := h s t hS
  exact hk _ _ hR _ _ hS

theorem Agree.map {m : StateM σ α} {n : StateM τ β} {f : α → γ} {g : β → δ}
    (h : Agree S R m n) (hfg : ∀ a b, R a b → Q (f a) (g b)) : Agree S Q (f <$> m) (g <$> n) :=
  h.bind fun a b hab => Agree.pure (hfg a b hab)

theorem Agree.mono {m : StateM σ α} {n : StateM τ β} (h : Agree S R m n)
    (hR : ∀ a b, R a b → R' a b) : Agree S R' m n := by
  intro s t hS
  obtain ⟨hab, hS⟩ := h s t hS
  exact ⟨hR _ _ hab, hS⟩

end Agree

/-! ## One computation on a state that grows -/

section Grows

variable [Preorder σ] {I P P' F : σ → Prop} {Q Q' : α → σ → Prop} {R : γ → σ → Prop}

def Grows (I P : σ → Prop) (m : StateM σ α) (Q : α → σ → Prop) : Prop :=
  ∀ s, I s → P s → I (m s).2 ∧ s ≤ (m s).2 ∧ Q (m s).1 (m s).2

theorem Grows.pure {a : α} (h : ∀ s, I s → P s → Q a s) :
    Grows I P (Pure.pure a : StateM σ α) Q :=
  fun s hI hP => ⟨hI, le_refl s, h s hI hP⟩

theorem Grows.bind {m : StateM σ α} {k : α → StateM σ γ} (h : Grows I P m Q)
    (hk : ∀ a, Grows I (Q a) (k a) R) : Grows I P (m >>= k) R := by
  intro s hI hP
  obtain ⟨hI, hle, hQ⟩ := h s hI hP
  obtain ⟨hI, hle', hR⟩ := hk _ _ hI hQ
  exact ⟨hI, le_trans hle hle', hR⟩

theorem Grows.map {m : StateM σ α} {f : α → γ} (h : Grows I P m Q)
    (hf : ∀ a s, I s → Q a s → R (f a) s) : Grows I P (f <$> m) R :=
  h.bind fun a => Grows.pure (hf a)

theorem Grows.mono {m : StateM σ α} (h : Grows I P m Q) (hP : ∀ s, P' s → P s)
    (hQ : ∀ a s, I s → Q a s → Q' a s) : Grows I P' m Q' := by
  intro s hI hs
  obtain ⟨hI, hle, hQs⟩ := h s hI (hP s hs)
  exact ⟨hI, hle, hQ _ _ hI hQs⟩

/-- What outlasts the growth of the state holds afterwards. -/
theorem Grows.frame {m : StateM σ α} (h : Grows I P m Q)
    (hF : ∀ s t, s ≤ t → F s → F t) :
    Grows I (fun s => P s ∧ F s) m fun a s => Q a s ∧ F s := by
  intro s hI hs
  obtain ⟨hI, hle, hQ⟩ := h s hI hs.1
  exact ⟨hI, hle, hQ, hF _ _ hle hs.2⟩

end Grows

end StateLogic
