import Mathlib.Logic.Basic

/-! Computations that may stop early. Sequencing in `Except` is taken apart
once here, so that proofs about sequences of calls never unfold the monad.
`Yields` states what a computation returns, and when it cannot stop early;
`Ends` states what it returns and how it may stop. -/
namespace Outcome

universe u
variable {Stop : Type*} {α β : Type u}

theorem bind_ok_iff (x : Except Stop α) (next : α → Except Stop β) (result : β) :
    (x >>= next) = .ok result ↔ ∃ value, x = .ok value ∧ next value = .ok result := by
  cases x <;> simp [bind, Except.bind]

variable {x : Except Stop α} {next : α → Except Stop β} {value : α} {total : Prop} {post : α → Prop}
  {stop : Stop} {σ : Type u} {stops : Stop → Prop}

theorem bind_ok {result : β} (h : (x >>= next) = .ok result) :
    ∃ value, x = .ok value ∧ next value = .ok result :=
  (bind_ok_iff x next result).mp h

theorem map_ok_iff (x : Except Stop α) (f : α → β) (result : β) :
    (f <$> x) = .ok result ↔ ∃ value, x = .ok value ∧ f value = result := by
  cases x <;> simp [Functor.map, Except.map]

theorem map_error_iff (x : Except Stop α) (f : α → β) :
    (∃ stop, (f <$> x) = .error stop) ↔ ∃ stop, x = .error stop := by
  cases x <;> simp [Functor.map, Except.map]

@[simp] theorem pure_ok_iff (value result : α) :
    (pure value : Except Stop α) = .ok result ↔ value = result := by
  simp [pure, Except.pure]

theorem pure_ok {result : α} (h : (pure value : Except Stop α) = .ok result) :
    value = result := (pure_ok_iff value result).mp h

@[simp] theorem bind_of_ok (value : α) (next : α → Except Stop β) :
    (Except.ok value >>= next) = next value := rfl

@[simp] theorem bind_of_error (stop : Stop) (next : α → Except Stop β) :
    (Except.error stop >>= next) = .error stop := rfl

@[simp] theorem map_of_ok (f : α → β) (value : α) :
    f <$> (Except.ok value : Except Stop α) = .ok (f value) := rfl

/-- A check that has been passed. -/
theorem ite_ok {c : Prop} [Decidable c] (h : (if c then x else .error stop) = .ok value) :
    c ∧ x = .ok value := by
  split at h
  case isTrue hTrue => exact ⟨hTrue, h⟩
  case isFalse => cases h

theorem ite_error_ok {c : Prop} [Decidable c] (h : (if c then .error stop else x) = .ok value) :
    ¬ c ∧ x = .ok value := by
  split at h
  case isTrue => cases h
  case isFalse hFalse => exact ⟨hFalse, h⟩

/-- An evaluated part of the result tells that there is one. -/
theorem exists_ok_of_toOption {f : α → β} {result : β} (h : (x.map f).toOption = some result) :
    ∃ value, x = .ok value ∧ f value = result := by
  cases x with
  | error stop => cases h
  | ok value => exact ⟨value, rfl, Option.some.inj h⟩

/-- The computation does not stop early. -/
def Returns (x : Except Stop α) : Prop := ∃ value, x = .ok value

@[simp] theorem returns_ok (value : α) : Returns (.ok value : Except Stop α) := ⟨value, rfl⟩

@[simp] theorem returns_pure (value : α) : Returns (pure value : Except Stop α) := ⟨value, rfl⟩

@[simp] theorem not_returns_error (stop : Stop) : ¬ Returns (.error stop : Except Stop α) := nofun

theorem returns_bind_iff (x : Except Stop α) (next : α → Except Stop β) :
    Returns (x >>= next) ↔ ∃ value, x = .ok value ∧ Returns (next value) := by
  cases x <;> simp [Returns, bind, Except.bind]

theorem returns_map_iff (x : Except Stop α) (f : α → β) : Returns (f <$> x) ↔ Returns x := by
  cases x <;> simp [Returns, Functor.map, Except.map]

/-- Sequencing with a computation that always goes on. -/
theorem returns_bind_of_forall (h : ∀ value, Returns (next value)) :
    Returns (x >>= next) ↔ Returns x := by
  rw [returns_bind_iff]
  exact ⟨fun ⟨value, hOk, _⟩ => ⟨value, hOk⟩, fun ⟨value, hOk⟩ => ⟨value, hOk, h value⟩⟩

/-- Every result satisfies `post`, and an early stop satisfies `stops`. -/
def Ends (x : Except Stop α) (post : α → Prop) (stops : Stop → Prop) : Prop :=
  match x with
  | .ok value => post value
  | .error stop => stops stop

theorem Ends.of_ok (h : Ends x post stops) (hOk : x = .ok value) : post value := by
  subst hOk
  exact h

theorem Ends.of_error (h : Ends x post stops) (hError : x = .error stop) : stops stop := by
  subst hError
  exact h

theorem Ends.ok (h : post value) : Ends (.ok value) post stops := h

theorem Ends.error (h : stops stop) : Ends (.error stop : Except Stop α) post stops := h

theorem Ends.mono {post' : α → Prop} (h : Ends x post stops)
    (hPost : ∀ value, post value → post' value) : Ends x post' stops := by
  cases x with
  | ok value => exact hPost value h
  | error stop => exact h

theorem Ends.bind {mid : α → Prop} {post : β → Prop} (h : Ends x mid stops)
    (hNext : ∀ value, mid value → Ends (next value) post stops) :
    Ends (x >>= next) post stops := by
  cases x with
  | ok value => exact hNext value h
  | error stop => exact h

/-- A loop over consecutive indices that may leave early. The invariant is
indexed by the next position. -/
theorem Ends.forIn_range' {first count : Nat} {init : σ}
    {body : Nat → σ → Except Stop (ForInStep σ)} (inv : Nat → σ → Prop) (post : σ → Prop)
    (hInit : inv first init) (hStep : ∀ i s, first ≤ i → i < first + count → inv i s →
      Ends (body i s) (fun
        | .yield s' => inv (i + 1) s'
        | .done s' => post s') stops) (hEnd : ∀ s, inv (first + count) s → post s) :
    Ends (forIn (List.range' first count) init body) post stops := by
  induction count generalizing first init with
  | zero => exact hEnd init hInit
  | succ count ih =>
    rw [List.range'_succ, List.forIn_cons]
    refine (hStep first init (Nat.le_refl first) (by omega) hInit).bind ?_
    intro step hMid
    cases step with
    | done s' => exact hMid
    | yield s' => grind

/-- Every result satisfies `post`; where `total` holds, there is a result. -/
def Yields (total : Prop) (x : Except Stop α) (post : α → Prop) : Prop :=
  match x with
  | .ok value => post value
  | .error _ => ¬ total

section

variable (h : Yields total x post)

include h

theorem Yields.ends : Ends x post fun _ => ¬ total := h

theorem Yields.of_ok (hOk : x = .ok value) : post value :=
  h.ends.of_ok hOk

theorem Yields.exists_ok (hTotal : total) : ∃ value, x = .ok value ∧ post value := by
  cases x with
  | ok value => exact ⟨value, rfl, h⟩
  | error stop => exact absurd hTotal h

theorem Yields.mono {post' : α → Prop} (hPost : ∀ value, post value → post' value)
    : Yields total x post' :=
  h.ends.mono hPost

theorem Yields.weaken {total' : Prop} (hTotal : total' → total) : Yields total' x post := by
  cases x with
  | ok value => exact h
  | error stop => exact fun h' => h (hTotal h')

end

theorem Yields.pure (h : post value) : Yields total (Pure.pure value : Except Stop α) post := h

theorem Yields.ok (h : post value) : Yields total (.ok value : Except Stop α) post := h

theorem Yields.error (h : ¬ total) : Yields total (.error stop : Except Stop α) post := h

theorem Yields.bind {mid : α → Prop} {post : β → Prop} (h : Yields total x mid)
    (hNext : ∀ value, mid value → Yields total (next value) post) :
    Yields total (x >>= next) post :=
  h.ends.bind hNext

/-- What is known of a result that is known is known of the computation. -/
theorem Yields.of_forall (h : ∀ value, x = .ok value → post value) : Yields False x post := by
  cases x with
  | ok value => exact h value rfl
  | error stop => exact not_false

theorem Yields.any (x : Except Stop α) : Yields False x fun _ => True :=
  .of_forall fun _ _ => trivial

theorem Yields.forIn_range' {first count : Nat} {init : σ}
    {body : Nat → σ → Except Stop (ForInStep σ)} (inv : Nat → σ → Prop) (post : σ → Prop)
    (hInit : inv first init) (hStep : ∀ i s, first ≤ i → i < first + count → inv i s →
      Yields total (body i s) fun
        | .yield s' => inv (i + 1) s'
        | .done s' => post s') (hEnd : ∀ s, inv (first + count) s → post s) :
    Yields total (forIn (List.range' first count) init body) post :=
  Ends.forIn_range' inv post hInit hStep hEnd

-- The rules above are all that is used; unfolding would run the computation.
attribute [irreducible] Yields Ends

end Outcome
