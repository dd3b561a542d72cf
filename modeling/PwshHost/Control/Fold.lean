import Mathlib.Init

/-! Folds whose steps may fail: where a fold fails, and what holds of two folds
side by side. -/
namespace FailingFold

variable {ε α β γ δ σ τ ι : Type}

/-- A fold fails in its first step that fails. -/
theorem foldlM_eq_error {f : σ → ι → Except ε σ} {items : List ι} {s : σ} {e : ε} :
    items.foldlM f s = .error e ↔
      ∃ before item after s', items = before ++ item :: after ∧ before.foldlM f s = .ok s' ∧
        f s' item = .error e := by
  constructor
  · intro h
    induction items generalizing s with
    | nil => cases h
    | cons item items ih =>
        rw [List.foldlM_cons] at h
        cases hItem : f s item with
        | error e' =>
            rw [hItem] at h
            obtain rfl : e' = e := Except.error.inj h
            exact ⟨[], item, items, s, rfl, rfl, hItem⟩
        | ok s₁ =>
            rw [hItem] at h
            obtain ⟨before, later, after, s', rfl, hBefore, hLater⟩ := ih h
            refine ⟨item :: before, later, after, s', rfl, ?_, hLater⟩
            rw [List.foldlM_cons, hItem]
            exact hBefore
  · intro h
    obtain ⟨before, item, after, s', rfl, hBefore, hItem⟩ := h
    rw [List.foldlM_append, hBefore]
    change (item :: after).foldlM f s' = .error e
    rw [List.foldlM_cons, hItem]
    rfl

/-- Both fail with the same error, or both return and the results are related. -/
def Paired (R : α → β → Prop) : Except ε α → Except ε β → Prop
  | .ok a, .ok b => R a b
  | .error e, .error e' => e = e'
  | _, _ => False

theorem Paired.ok {R : α → β → Prop} {a : α} {b : β} (h : R a b) :
    Paired R (Except.ok a : Except ε α) (Except.ok b) := h

theorem Paired.error {R : α → β → Prop} (e : ε) :
    Paired R (Except.error e : Except ε α) (Except.error e : Except ε β) := rfl

/-- Two computations stay paired if what follows keeps each pair of values paired. A
failure of the first part is the failure of both. -/
theorem Paired.bind {R : α → β → Prop} {S : γ → δ → Prop}
    {f : α → Except ε γ} {g : β → Except ε δ} {x : Except ε α} {y : Except ε β}
    (h : Paired R x y) (hBind : ∀ a b, R a b → Paired S (f a) (g b)) :
    Paired S (x >>= f) (y >>= g) := by
  cases x with
  | error e => cases y with
    | error e' => exact h
    | ok b => exact h.elim
  | ok a => cases y with
    | error e' => exact h.elim
    | ok b => exact hBind a b h

/-- Pure functions that respect the relation keep two computations paired. -/
theorem Paired.map {R : α → β → Prop} {S : γ → δ → Prop} {f : α → γ} {g : β → δ}
    {x : Except ε α} {y : Except ε β} (h : Paired R x y) (hMap : ∀ a b, R a b → S (f a) (g b)) :
    Paired S (x.map f) (y.map g) :=
  h.bind fun a b hab => Paired.ok (hMap a b hab)

/-- Paired values may be related more loosely. -/
theorem Paired.mono {R S : α → β → Prop} {x : Except ε α} {y : Except ε β} (h : Paired R x y)
    (hMono : ∀ a b, R a b → S a b) : Paired S x y := by
  cases x with
  | error e => cases y with
    | error e' => exact h
    | ok b => exact h.elim
  | ok a => cases y with
    | error e' => exact h.elim
    | ok b => exact hMono a b h

section Cases

variable {R : α → β → Prop} {x : Except ε α} {y : Except ε β} (h : Paired R x y)

include h

/-- If one of two paired computations returns, so does the other, with a related
value. -/
theorem Paired.exists_of_ok {a : α} (hOk : x = .ok a) : ∃ b, y = .ok b ∧ R a b := by
  subst hOk
  cases y with
  | error e => exact h.elim
  | ok b => exact ⟨b, rfl, h⟩

theorem Paired.exists_of_ok_right {b : β} (hOk : y = .ok b) : ∃ a, x = .ok a ∧ R a b := by
  subst hOk
  cases x with
  | error e => exact h.elim
  | ok a => exact ⟨a, rfl, h⟩

end Cases

/-- The rule for folds: a relation that every step keeps relates the ends. -/
theorem foldlM_paired {R : σ → τ → Prop} {f : σ → ι → Except ε σ} {g : τ → ι → Except ε τ}
    (hStep : ∀ s t i, R s t → Paired R (f s i) (g t i)) (items : List ι) {s : σ} {t : τ}
    (h : R s t) : Paired R (items.foldlM f s) (items.foldlM g t) := by
  induction items generalizing s t with
  | nil => exact h
  | cons i items ih =>
      simp only [List.foldlM_cons]
      exact (hStep s t i h).bind fun s t h => ih h

/-- The rule for a fold that returns: what each of its steps keeps, in relation to a
fold that cannot fail, relates the ends. -/
theorem foldlM_follows {R : σ → τ → Prop} {f : σ → ι → Except ε σ} {g : τ → ι → τ}
    (hStep : ∀ s t i s', R s t → f s i = .ok s' → R s' (g t i)) {items : List ι} {s s' : σ} {t : τ}
    (h : R s t) (hFold : items.foldlM f s = .ok s') : R s' (items.foldl g t) := by
  induction items generalizing s t with
  | nil =>
      obtain rfl := Except.ok.inj hFold
      exact h
  | cons i items ih =>
      rw [List.foldlM_cons] at hFold
      cases hItem : f s i with
      | error e =>
          rw [hItem] at hFold
          cases hFold
      | ok s₁ =>
          rw [hItem] at hFold
          exact ih (hStep s t i s₁ h hItem) hFold

end FailingFold
