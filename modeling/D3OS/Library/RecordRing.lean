import Mathlib

/-! Records in a ring buffer. A record starts within the ring and may run over
its end, into the cells behind it. The next record starts a stride further on,
at a place that is reduced modulo the size of the ring. A record is added behind
the others and leaves them alone as long as all strides fit into the ring. -/
namespace RecordRing

variable {α : Type*}

variable (memory : Nat → α)

/-- The cells from `start` on. -/
def load (start count : Nat) : List α :=
  (List.range count).map fun i => memory (start + i)

/-- Put cells into memory from `start` on. -/
def store (start : Nat) (cells : List α) : Nat → α := fun place =>
  if start ≤ place then (cells[place - start]?).getD (memory place) else memory place

@[simp] theorem length_load (start count : Nat) : (load memory start count).length = count := by
  simp [load]

theorem store_of_outside {memory : Nat → α} {start place : Nat} {cells : List α}
    (h : place < start ∨ start + cells.length ≤ place) : store memory start cells place = memory place := by
  unfold store
  split
  · rw [List.getElem?_eq_none (by omega)]
    rfl
  · rfl

theorem load_append (start first second : Nat) :
    load memory start (first + second) =
      load memory start first ++ load memory (start + first) second := by
  simp [load, List.range_add, Function.comp_def, Nat.add_assoc]

/-- What has been stored is there. -/
theorem load_store (start : Nat) (cells : List α) :
    load (store memory start cells) start cells.length = cells := by
  apply List.ext_getElem (length_load _ _ _)
  intro i hLeft hRight
  simp [load, store, hRight]

/-- Cells elsewhere stay as they are. -/
theorem load_store_of_disjoint {memory : Nat → α} {start count other : Nat} {cells : List α}
    (h : start + count ≤ other ∨ other + cells.length ≤ start) :
    load (store memory other cells) start count = load memory start count := by
  apply List.map_congr_left
  intro i hMem
  rw [List.mem_range] at hMem
  exact store_of_outside (by omega)

/-- The cells of a record, and the distance from its start to the next one. -/
structure Record (α : Type*) where
  cells : List α
  stride : Nat
  fits : cells.length ≤ stride

/-- The part of the ring that records take up. -/
def used (records : List (Record α)) : Nat := (records.map Record.stride).sum

@[simp] theorem used_nil : used ([] : List (Record α)) = 0 := rfl

@[simp] theorem used_cons (record : Record α) (records : List (Record α)) :
    used (record :: records) = record.stride + used records := by
  simp [used]

@[simp] theorem used_append (first second : List (Record α)) :
    used (first ++ second) = used first + used second := by
  simp [used]

/-- The records from `index` on, one after the other. -/
def Holds (size : Nat) (memory : Nat → α) : Nat → List (Record α) → Prop
  | _, [] => True
  | index, record :: records => load memory index record.cells.length = record.cells ∧
      Holds size memory ((index + record.stride) % size) records

/-- Adding a record behind the others. -/
theorem Holds.add {size index : Nat} {memory : Nat → α} {records : List (Record α)}
    (record : Record α) (hIndex : index < size) (h : Holds size memory index records)
    (hRoom : used records + record.stride ≤ size) :
    Holds size (store memory ((index + used records) % size) record.cells) index
      (records ++ [record]) := by
  have hFits := record.fits
  induction records generalizing index with
  | nil =>
    rw [used_nil, Nat.add_zero, Nat.mod_eq_of_lt hIndex]
    exact ⟨load_store memory index record.cells, trivial⟩
  | cons first rest ih =>
    obtain ⟨hFirst, hRest⟩ := h
    have hFirstFits := first.fits
    rw [used_cons] at hRoom
    have hEnd : (index + used (first :: rest)) % size =
        ((index + first.stride) % size + used rest) % size := by
      rw [used_cons, Nat.mod_add_mod, Nat.add_assoc]
    refine ⟨?_, ?_⟩
    · -- The new record lies behind the first one, or in the next lap before it.
      rw [load_store_of_disjoint, hFirst]
      rw [used_cons]
      by_cases hLap : index + (first.stride + used rest) < size
      · rw [Nat.mod_eq_of_lt hLap]
        omega
      · rw [Nat.mod_eq_sub_mod (by omega), Nat.mod_eq_of_lt (by omega)]
        omega
    · rw [hEnd]
      exact ih (Nat.mod_lt _ (by omega)) hRest (by omega)

end RecordRing
