import Mathlib.Tactic.Common

/-! An unbounded loop as a function from states to passes. A pass either hands
the next pass a new state or leaves the loop with a result. Fuel is analysis
data: `Yields` does not mention it. -/
namespace UnboundedLoop

universe u v
variable {σ : Type u} {ρ : Type v} {body : σ → Sum σ ρ}

/-- At most `fuel` passes through the body. `Sum.inl` continues and `Sum.inr`
breaks. -/
def run (body : σ → Sum σ ρ) : Nat → σ → Option ρ
  | 0, _ => none
  | fuel + 1, state => match body state with
    | .inl next => run body fuel next
    | .inr result => some result

/-- The loop entered at `start` is left with `result` after finitely many passes. -/
def Yields (body : σ → Sum σ ρ) (start : σ) (result : ρ) : Prop :=
  ∃ fuel, run body fuel start = some result

/-- More fuel never changes a result that has been reached. -/
theorem run_mono {fuel : Nat} {start : σ} {result : ρ} (h : run body fuel start = some result)
    (extra : Nat) : run body (fuel + extra) start = some result := by
  induction fuel generalizing start with
  | zero => simp [run] at h
  | succ fuel ih =>
      rw [Nat.succ_add]
      cases hPass : body start with
      | inl next =>
          simp only [run, hPass] at h ⊢
          exact ih h
      | inr done => simpa only [run, hPass] using h

/-- A loop is left with at most one result. -/
theorem Yields.unique {start : σ} {first second : ρ}
    (h₁ : Yields body start first) (h₂ : Yields body start second) : first = second := by
  obtain ⟨m, hm⟩ := h₁
  obtain ⟨n, hn⟩ := h₂
  have hFirst := run_mono hm n
  have hSecond := run_mono hn m
  rw [Nat.add_comm] at hSecond
  exact Option.some.inj (hFirst.symm.trans hSecond)

/-- A body that breaks at once needs a single pass. -/
theorem Yields.of_done {start : σ} {result : ρ} (h : body start = .inr result) :
    Yields body start result :=
  ⟨1, by simp [run, h]⟩

/-- A loop whose passes use something up is left before it runs out. -/
theorem run_of_measure (left : σ → Nat)
    (hNext : ∀ state next, body state = .inl next → left next < left state)
    {fuel : Nat} {start : σ} (hFuel : left start < fuel) :
    ∃ result, run body fuel start = some result := by
  induction fuel generalizing start with
  | zero => exact absurd hFuel (Nat.not_lt_zero _)
  | succ fuel ih =>
      cases hPass : body start with
      | inr done => exact ⟨done, by simp [run, hPass]⟩
      | inl next =>
          have hLess : left next < left start := hNext start next hPass
          obtain ⟨result, hRun⟩ := ih (Nat.lt_of_lt_of_le hLess (Nat.le_of_lt_succ hFuel))
          exact ⟨result, by simpa [run, hPass] using hRun⟩

/-- Whatever the loop yields from `later`, it also yields from `start`. -/
def LeadsTo (body : σ → Sum σ ρ) (start later : σ) : Prop :=
  ∀ result, Yields body later result → Yields body start result

theorem LeadsTo.refl (start : σ) : LeadsTo body start start := fun _ h => h

/-- Two stretches of passes, one after the other. -/
theorem LeadsTo.trans {start middle later : σ} (h₁ : LeadsTo body start middle)
    (h₂ : LeadsTo body middle later) : LeadsTo body start later :=
  fun result h => h₁ result (h₂ result h)

/-- One pass that continues, after which the loop goes on as from the next state. -/
theorem LeadsTo.of_next {start next : σ} (h : body start = .inl next) :
    LeadsTo body start next := by
  rintro result ⟨fuel, hRun⟩
  exact ⟨fuel + 1, by simpa [run, h] using hRun⟩

/-- Two states that the body treats alike are interchangeable as entry points. -/
theorem LeadsTo.of_eq {start other : σ} (h : body start = body other) :
    LeadsTo body start other := by
  rintro result ⟨fuel, hRun⟩
  cases fuel with
  | zero => simp [run] at hRun
  | succ fuel => exact ⟨fuel + 1, by simpa only [run, h] using hRun⟩

section Driven

variable {ε : Type u} {δ α ι : Type u} {body : σ → Sum σ (Except ε ρ)}
  {join : α → δ → σ} {step : α → ι → α} {done : α → ρ} {R : δ → ι → δ → Prop} {End : δ → Prop}

/-- A pass reads one item in one half of the state, and the item is taken into
the other half, whatever that half holds. The loop is left where the reading ends. -/
inductive Driven (body : σ → Sum σ (Except ε ρ)) (join : α → δ → σ) (step : α → ι → α)
    (done : α → ρ) (R : δ → ι → δ → Prop) (End : δ → Prop) (d : δ) : Prop where
  | fails (e : ε) (h : ∀ a, body (join a d) = .inr (.error e))
  | ends (hEnd : End d) (h : ∀ a, body (join a d) = .inr (.ok (done a)))
  | reads (item : ι) (d' : δ) (hReads : R d item d')
    (h : ∀ a, body (join a d) = .inl (join (step a item) d'))

/-- The items that are read from `d` on, one after another, up to the end. -/
inductive Trace (R : δ → ι → δ → Prop) (End : δ → Prop) : δ → List ι → Prop where
  | ends {d : δ} (hEnd : End d) : Trace R End d []
  | reads {d d' : δ} {item : ι} {rest : List ι} (hReads : R d item d')
    (hRest : Trace R End d' rest) : Trace R End d (item :: rest)

/-- What holds of every item that is read holds of all items of a trace. -/
theorem Trace.forall {P : ι → Prop} {d : δ} {items : List ι}
    (hReads : ∀ d item d', R d item d' → P item) (h : Trace R End d items) :
    ∀ i ∈ items, P i := by
  induction h with
  | ends hEnd => simp
  | reads hPass hRest ih => exact List.forall_mem_cons.mpr ⟨hReads _ _ _ hPass, ih⟩

/-- Reads that are looked at more coarsely are the same trace, item by item. -/
theorem Trace.imp {R' : δ → ι → δ → Prop} {d : δ} {items : List ι}
    (hReads : ∀ d item d', R d item d' → R' d item d') (h : Trace R End d items) :
    Trace R' End d items := by
  induction h with
  | ends hEnd => exact .ends hEnd
  | reads hPass hRest ih => exact .reads (hReads _ _ _ hPass) ih

/-- The driving half decides how the loop is left and what is taken into the
other half. -/
theorem Yields.driven (hDriven : ∀ d, Driven body join step done R End d) {a : α} {d : δ} {r : ρ}
    (h : Yields body (join a d) (.ok r)) :
    ∃ items, Trace R End d items ∧ r = done (items.foldl step a) := by
  obtain ⟨fuel, hRun⟩ := h
  induction fuel generalizing a d with
  | zero => cases hRun
  | succ fuel ih =>
      cases hDriven d with
      | fails e hPass => simp [run, hPass a] at hRun
      | ends hEnd hPass =>
          simp only [run, hPass a, Option.some.injEq, Except.ok.injEq] at hRun
          exact ⟨[], .ends hEnd, hRun.symm⟩
      | reads item d' hReads hPass =>
          simp only [run, hPass a] at hRun
          obtain ⟨rest, hTrace, hResult⟩ := ih hRun
          exact ⟨item :: rest, .reads hReads hTrace, hResult⟩

end Driven

end UnboundedLoop
