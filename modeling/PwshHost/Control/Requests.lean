import Mathlib.Init

/-! Requests that are made one after another. Each answer changes a state, and
the first request that is refused ends the sequence. -/
namespace Requests

variable {ε σ ι α β : Type}

abbrev Request (ε σ α : Type) := ExceptT ε (StateM σ) α

def Request.on (request : Request ε σ α) (state : σ) : Except ε α × σ := request.run.run state

/-- The second request is made in the state that the first one left, and only if it
was answered. -/
theorem on_bind (request : Request ε σ α) (f : α → Request ε σ β) (state : σ) :
    (request >>= f).on state = match request.on state with
      | (.ok a, after) => (f a).on after
      | (.error e, after) => (.error e, after) := by
  change (ExceptT.bindCont f (request.on state).1).run (request.on state).2 = _
  rcases request.on state with ⟨_ | a, after⟩ <;> rfl

/-- A request whose refusal is an answer. -/
def attempt {δ : Type} (request : Request ε σ α) : Request δ σ (Except ε α) :=
  ExceptT.mk fun state => (.ok (request.on state).1, (request.on state).2)

/-- The answers to the items, in their order. -/
inductive Answered (ask : ι → Request ε σ α) : σ → List (ι × α) → σ → Prop where
  | nil (state : σ) : Answered ask state [] state
  | cons {state next after : σ} {item : ι} {answer : α} {answers : List (ι × α)}
      (hFirst : (ask item).on state = (.ok answer, next))
      (hRest : Answered ask next answers after) :
      Answered ask state ((item, answer) :: answers) after

variable {ask : ι → Request ε σ α} {items : List ι} {state after : σ}

/-- Each of the answers was given in some state. -/
theorem Answered.of_mem {answers : List (ι × α)} (hAnswered : Answered ask state answers after)
    {item : ι} {answer : α} (hMem : (item, answer) ∈ answers) :
    ∃ before next, (ask item).on before = (.ok answer, next) := by
  induction hAnswered with
  | nil => cases hMem
  | cons hFirst _ ih =>
      rcases List.mem_cons.mp hMem with hSame | hLater
      · obtain ⟨rfl, rfl⟩ := Prod.mk.inj hSame
        exact ⟨_, _, hFirst⟩
      · exact ih hLater

/-- Of several requests the first is made first, and after a failure none is made. -/
theorem mapM_cons_on (item : ι) (items : List ι) (state : σ) :
    ((item :: items).mapM ask).on state = match (ask item).on state with
      | (.error e, next) => (.error e, next)
      | (.ok answer, next) => match (items.mapM ask).on next with
        | (.error e, after) => (.error e, after)
        | (.ok answers, after) => (.ok (answer :: answers), after) := by
  rw [List.mapM_cons, on_bind]
  rcases (ask item).on state with ⟨_ | answer, next⟩
  · rfl
  · dsimp only
    rw [on_bind]
    rcases (items.mapM ask).on next with ⟨_ | answers, after⟩ <;> rfl

/-- All are answered. -/
theorem mapM_eq_ok {answers : List α} :
    (items.mapM ask).on state = (.ok answers, after) ↔
      ∃ given : List (ι × α), given.map Prod.fst = items ∧ given.map Prod.snd = answers ∧
        Answered ask state given after := by
  induction items generalizing state answers with
  | nil =>
      constructor
      · intro h
        obtain ⟨hAnswers, rfl⟩ := Prod.mk.inj h
        obtain rfl := Except.ok.inj hAnswers
        exact ⟨[], rfl, rfl, .nil state⟩
      · rintro ⟨given, hItems, rfl, hAnswered⟩
        obtain rfl := List.map_eq_nil_iff.mp hItems
        cases hAnswered
        rfl
  | cons item items ih =>
      rw [mapM_cons_on]
      constructor
      · intro h
        rcases hFirst : (ask item).on state with ⟨_ | answer, next⟩
        · rw [hFirst] at h
          cases (Prod.mk.inj h).1
        · rw [hFirst] at h
          rcases hRest : (items.mapM ask).on next with ⟨_ | rest, last⟩
          · simp only [hRest] at h
            cases (Prod.mk.inj h).1
          · simp only [hRest] at h
            obtain ⟨hAnswers, rfl⟩ := Prod.mk.inj h
            obtain rfl := Except.ok.inj hAnswers
            obtain ⟨given, rfl, rfl, hAnswered⟩ := ih.mp hRest
            exact ⟨(item, answer) :: given, rfl, rfl, .cons hFirst hAnswered⟩
      · rintro ⟨given, hItems, rfl, hAnswered⟩
        cases hAnswered with
        | nil => cases hItems
        | cons hFirst hRest =>
            obtain ⟨rfl, rfl⟩ := List.cons.inj hItems
            simp only [hFirst, ih.mpr ⟨_, rfl, rfl, hRest⟩]
            rfl

/-- The first that is refused is the last that is made. -/
theorem mapM_eq_error {e : ε} :
    (items.mapM ask).on state = (.error e, after) ↔
      ∃ (given : List (ι × α)) (item : ι) (rest : List ι) (next : σ),
        items = given.map Prod.fst ++ item :: rest ∧ Answered ask state given next ∧
          (ask item).on next = (.error e, after) := by
  induction items generalizing state with
  | nil =>
      constructor
      · intro h
        cases (Prod.mk.inj h).1
      · rintro ⟨given, item, rest, next, hItems, -⟩
        simp at hItems
  | cons item items ih =>
      rw [mapM_cons_on]
      constructor
      · intro h
        rcases hFirst : (ask item).on state with ⟨e' | answer, next⟩
        · rw [hFirst] at h
          obtain ⟨hError, rfl⟩ := Prod.mk.inj h
          obtain rfl := Except.error.inj hError
          exact ⟨[], item, items, state, rfl, .nil state, hFirst⟩
        · rw [hFirst] at h
          rcases hRest : (items.mapM ask).on next with ⟨e' | rest, last⟩
          · simp only [hRest] at h
            obtain ⟨given, other, rest, mid, rfl, hAnswered, hError⟩ := ih.mp (hRest.trans h)
            exact ⟨(item, answer) :: given, other, rest, mid, rfl, .cons hFirst hAnswered, hError⟩
          · simp only [hRest] at h
            cases (Prod.mk.inj h).1
      · rintro ⟨given, other, rest, mid, hItems, hAnswered, hError⟩
        cases hAnswered with
        | nil =>
            obtain ⟨rfl, rfl⟩ := List.cons.inj hItems
            rw [hError]
        | cons hFirst hRest =>
            obtain ⟨rfl, rfl⟩ := List.cons.inj hItems
            simp only [hFirst, ih.mpr ⟨_, _, _, _, rfl, hRest, hError⟩]

end Requests
