import Mathlib.Data.List.Basic

/-! Queues that are entered at the front and left at the back, over any type.
The front stands first in the list, so the elements that leave before another
one are those after it. -/
namespace Fifo

variable {α : Type*} {before after : List α} {taken : Option α}

/-- Elements enter, at most one leaves, and more elements enter. -/
def Step (before : List α) (taken : Option α) (after : List α) : Prop :=
  ∃ entered rest arrived, entered ++ before = rest ++ taken.toList ∧ after = arrived ++ rest

theorem Step.enter (arrived before : List α) : Step before none (arrived ++ before) :=
  ⟨[], before, arrived, (List.append_nil before).symm, rfl⟩

theorem Step.take {entered rest : List α} {element : α}
    (h : entered ++ before = rest ++ [element]) (arrived : List α) :
    Step before (some element) (arrived ++ rest) :=
  ⟨entered, rest, arrived, h, rfl⟩

theorem Step.of_entered {entered : List α} (h : Step (entered ++ before) taken after) :
    Step before taken after := by
  obtain ⟨more, rest, arrived, hTaken, hAfter⟩ := h
  exact ⟨more ++ entered, rest, arrived, (List.append_assoc ..).trans hTaken, hAfter⟩

/-- The element is in the queue with that many elements ahead of it. -/
def Waits (queue : List α) (element : α) (ahead : Nat) : Prop :=
  ∃ behind front, queue = behind ++ element :: front ∧ front.length = ahead

theorem Waits.mem {queue : List α} {element : α} {ahead : Nat} (h : Waits queue element ahead) :
    element ∈ queue := by
  obtain ⟨behind, front, hQueue, _⟩ := h
  rw [hQueue]
  exact List.mem_append_right behind (List.mem_cons_self ..)

theorem Waits.append {queue : List α} {element : α} {ahead : Nat} (h : Waits queue element ahead)
    (arrived : List α) : Waits (arrived ++ queue) element ahead := by
  obtain ⟨behind, front, hQueue, hAhead⟩ := h
  exact ⟨arrived ++ behind, front, by rw [hQueue, List.append_assoc], hAhead⟩

/-- Whoever enters, every element that leaves brings a waiting one a place forward. -/
theorem Waits.step {element : α} {ahead : Nat} (h : Waits before element ahead)
    (hStep : Step before taken after) :
    (taken = none ∧ Waits after element ahead) ∨
    (∃ other left, taken = some other ∧ ahead = left + 1 ∧ Waits after element left) ∨
    (taken = some element ∧ ahead = 0) := by
  obtain ⟨entered, rest, arrived, hTaken, hAfter⟩ := hStep
  obtain ⟨behind, front, hQueue, hAhead⟩ := h.append entered
  rw [hQueue] at hTaken
  rw [hAfter]
  cases taken with
  | none =>
    have hRest : Waits rest element ahead := by
      refine ⟨behind, front, ?_, hAhead⟩
      rw [hTaken]
      exact (List.append_nil rest).symm
    exact Or.inl ⟨rfl, hRest.append arrived⟩
  | some other =>
    -- The element that leaves is the waiting one, or the last of those ahead of it.
    rcases front.eq_nil_or_concat with hFront | ⟨left, last, hFront⟩
    · rw [hFront] at hTaken hAhead
      have hLast := List.append_inj_right' hTaken rfl
      exact Or.inr (Or.inr ⟨congrArg some (List.singleton_inj.mp hLast).symm, hAhead.symm⟩)
    · rw [List.concat_eq_append] at hFront
      rw [hFront, ← List.cons_append, ← List.append_assoc] at hTaken
      have hRest : Waits rest element left.length :=
        ⟨behind, left, (List.append_inj_left' hTaken rfl).symm, rfl⟩
      have hLength : ahead = left.length + 1 := by
        rw [← hAhead, hFront, List.length_append, List.length_singleton]
      exact Or.inr (Or.inl ⟨other, left.length, rfl, hLength, hRest.append arrived⟩)

end Fifo
