import Mathlib.Logic.Basic

/-! Computations that record what they do. The record is kept when the
computation stops early, so that it tells what has been done up to then. -/

/-- The events of a computation, and its result. -/
def Recorded (Event Stop : Type) (α : Type) : Type := List Event × Except Stop α

namespace Recorded

variable {Event Stop α β : Type}

def events (x : Recorded Event Stop α) : List Event := x.1

def result (x : Recorded Event Stop α) : Except Stop α := x.2

instance : Monad (Recorded Event Stop) where
  pure value := ([], .ok value)
  bind x next :=
    match x.2 with
    | .ok value => (x.1 ++ (next value).1, (next value).2)
    | .error stop => (x.1, .error stop)

/-- One event. -/
def record (event : Event) : Recorded Event Stop Unit := ([event], .ok ())

/-- A computation without events. -/
def silently (x : Except Stop α) : Recorded Event Stop α := ([], x)

@[simp] theorem events_pure (value : α) : (pure value : Recorded Event Stop α).events = [] := rfl

@[simp] theorem result_pure (value : α) :
    (pure value : Recorded Event Stop α).result = .ok value := rfl

@[simp] theorem events_silently (x : Except Stop α) :
    (silently x : Recorded Event Stop α).events = [] := rfl

@[simp] theorem result_silently (x : Except Stop α) :
    (silently x : Recorded Event Stop α).result = x := rfl

@[simp] theorem result_record (event : Event) :
    (record event : Recorded Event Stop Unit).result = .ok () := rfl

variable {x : Recorded Event Stop α} {next : α → Recorded Event Stop β}

/-- A computation that has stopped does nothing more. -/
theorem bind_of_error {stop : Stop} (h : x.result = .error stop)
    (next : α → Recorded Event Stop β) :
    (x >>= next).events = x.events ∧ (x >>= next).result = .error stop := by
  obtain ⟨events, result⟩ := x
  obtain rfl : result = .error stop := h
  exact ⟨rfl, rfl⟩

theorem bind_of_ok {value : α} (h : x.result = .ok value) (next : α → Recorded Event Stop β) :
    (x >>= next).events = x.events ++ (next value).events ∧
      (x >>= next).result = (next value).result := by
  obtain ⟨events, result⟩ := x
  obtain rfl : result = .ok value := h
  exact ⟨rfl, rfl⟩

theorem record_bind_events (event : Event) (next : Unit → Recorded Event Stop β) :
    (record event >>= next).events = event :: (next ()).events := rfl

theorem record_bind_result (event : Event) (next : Unit → Recorded Event Stop β) :
    (record event >>= next).result = (next ()).result := rfl

theorem bind_result (x : Recorded Event Stop α) (next : α → Recorded Event Stop β) :
    (x >>= next).result = x.result >>= fun value => (next value).result := by
  cases h : x.result with
  | ok value => exact (bind_of_ok h next).2
  | error stop => exact (bind_of_error h next).2

/-- Sequencing with a computation without events. -/
theorem bind_events_of_silent (x : Recorded Event Stop α) (h : ∀ value, (next value).events = []) :
    (x >>= next).events = x.events := by
  cases hResult : x.result with
  | ok value => rw [(bind_of_ok hResult next).1, h value, List.append_nil]
  | error stop => exact (bind_of_error hResult next).1

/-- Every event satisfies `every`, and a result `post`, together with the
events that have led to it. -/
structure Holds (x : Recorded Event Stop α) (every : Event → Prop)
    (post : List Event → α → Prop) : Prop where
  every : ∀ event ∈ x.events, every event
  post : ∀ value, x.result = .ok value → post x.events value

section

variable {every : Event → Prop}

variable {post : List Event → α → Prop}

theorem Holds.pure {value : α} (h : post [] value) :
    Holds (Pure.pure value : Recorded Event Stop α) every post where
  every _ hMem := absurd hMem List.not_mem_nil
  post _ hOk := Except.ok.inj hOk ▸ h

theorem Holds.record {post : List Event → Unit → Prop} {event : Event} (hEvery : every event)
    (h : post [event] ()) : Holds (Recorded.record event : Recorded Event Stop Unit) every post where
  every _ hMem := List.mem_singleton.mp hMem ▸ hEvery
  post _ _ := h

theorem Holds.silently {x : Except Stop α} (h : ∀ value, x = .ok value → post [] value) :
    Holds (Recorded.silently x : Recorded Event Stop α) every post where
  every _ hMem := absurd hMem List.not_mem_nil
  post value hOk := h value hOk

theorem Holds.bind {mid : List Event → α → Prop} {post : List Event → β → Prop}
    (h : Holds x every mid) (hNext : ∀ events value, mid events value →
      Holds (next value) every fun later result => post (events ++ later) result) :
    Holds (x >>= next) every post := by
  cases hResult : x.result with
  | error stop =>
    obtain ⟨hEvents, hStop⟩ := bind_of_error hResult next
    refine ⟨hEvents ▸ h.every, fun value hOk => ?_⟩
    rw [hStop] at hOk
    cases hOk
  | ok value =>
    obtain ⟨hEvents, hRest⟩ := bind_of_ok hResult next
    have hHolds := hNext x.events value (h.post value hResult)
    refine ⟨fun event hMem => ?_, fun result hOk => ?_⟩
    · rw [hEvents] at hMem
      exact (List.mem_append.mp hMem).elim (h.every event) (hHolds.every event)
    · rw [hEvents]
      exact hHolds.post result (hRest ▸ hOk)

theorem Holds.silently_bind {x : Except Stop α} {post : List Event → β → Prop}
    (h : ∀ value, x = .ok value → Holds (next value) every post) :
    Holds (Recorded.silently x >>= next) every post := by
  have hFirst : Holds (Recorded.silently x : Recorded Event Stop α) every
      fun events value => events = [] ∧ x = .ok value := .silently fun _ hOk => ⟨rfl, hOk⟩
  refine hFirst.bind ?_
  rintro _ value ⟨rfl, hOk⟩
  exact h value hOk

theorem Holds.record_bind {event : Event} {next : Unit → Recorded Event Stop β}
    {post : List Event → β → Prop} (hEvery : every event)
    (h : Holds (next ()) every fun later result => post (event :: later) result) :
    Holds (Recorded.record event >>= next) every post := by
  have hFirst : Holds (Recorded.record event : Recorded Event Stop Unit) every
      fun events _ => events = [event] := .record hEvery rfl
  refine hFirst.bind ?_
  rintro _ _ rfl
  exact h

end

end Recorded
