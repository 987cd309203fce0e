import Mathlib.Data.List.Perm.Subperm

/-! Association lists searched from the front, and the removal of an entry by
swapping it with the last one. -/
namespace AssocList

variable {κ α : Type*} [BEq κ] [LawfulBEq κ]

theorem find?_eq_some_iff {entries : List (κ × α)} (hKeys : (entries.map Prod.fst).Nodup)
    {key : κ} {entry : κ × α} :
    entries.find? (fun e => e.1 == key) = some entry ↔ entry ∈ entries ∧ entry.1 = key := by
  constructor
  · intro hFind
    exact ⟨List.mem_of_find?_eq_some hFind, by simpa using List.find?_some hFind⟩
  · rintro ⟨hMem, rfl⟩
    obtain ⟨before, after, rfl⟩ := List.append_of_mem hMem
    rw [List.find?_append, List.find?_eq_none.mpr]
    · simp
    · grind

theorem find?_eq_none_iff {entries : List (κ × α)} {key : κ} :
    entries.find? (fun e => e.1 == key) = none ↔ key ∉ entries.map Prod.fst := by
  simp only [List.find?_eq_none, beq_iff_eq, List.mem_map, not_exists, not_and]

theorem map_fst_eraseP (entries : List (κ × α)) (key : κ) :
    (entries.eraseP fun e => e.1 == key).map Prod.fst = (entries.map Prod.fst).erase key := by
  induction entries with
  | nil => rfl
  | cons entry rest ih =>
    by_cases hKey : entry.1 = key
    · simp [hKey]
    · simp [hKey, ih]

section Modify

variable {entries : List (κ × α)} {change : κ × α → κ × α}
  (hChange : ∀ entry, (change entry).1 = entry.1)

include hChange

/-- Changing the first entry of a key changes what is found by the key. -/
theorem find?_modify_self (key : κ) :
    (entries.modify (entries.findIdx fun e => e.1 == key) change).find? (fun e => e.1 == key) =
      (entries.find? fun e => e.1 == key).map change := by
  induction entries with
  | nil => simp
  | cons entry rest ih => grind

theorem find?_modify_of_ne {key other : κ} (hOther : other ≠ key) :
    (entries.modify (entries.findIdx fun e => e.1 == key) change).find? (fun e => e.1 == other) =
      entries.find? fun e => e.1 == other := by
  induction entries with
  | nil => simp
  | cons entry rest ih => grind

end Modify

/-- `Vec::swap_remove`: the last entry takes the place of the removed one. -/
def swapRemove (entries : List α) (index : Nat) : List α :=
  match entries.getLast? with
  | none => entries
  | some last => (entries.set index last).dropLast

theorem swapRemove_perm {entries : List α} {index : Nat} (hIndex : index < entries.length) :
    (swapRemove entries index).Perm (entries.eraseIdx index) := by
  obtain ⟨front, last, rfl⟩ : ∃ front last, entries = front ++ [last] :=
    ⟨_, _, (List.dropLast_concat_getLast (List.ne_nil_of_length_pos (by omega))).symm⟩
  simp only [swapRemove, List.getLast?_concat]
  rw [List.length_append, List.length_singleton] at hIndex
  by_cases hLast : index = front.length
  · subst hLast
    simp [List.eraseIdx_append_of_length_le]
  · have hFront : index < front.length := by omega
    rw [List.set_append_left _ _ hFront, List.dropLast_concat,
      List.eraseIdx_append_of_lt_length hFront, List.set_eq_take_append_cons_drop, if_pos hFront,
      List.eraseIdx_eq_take_drop_succ, List.append_assoc]
    exact (List.perm_append_singleton _ _).symm.append_left _

end AssocList
