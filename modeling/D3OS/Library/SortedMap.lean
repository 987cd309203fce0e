import Mathlib.Order.Lattice
import Mathlib.Data.List.Pairwise
import Mathlib.Tactic.Tauto

/-! Ordered maps as strictly ascending association lists, with the queries of
a search tree: point lookup, the last entry at or below a key, and the entries
of a half-open key range in ascending order. -/

/-- A finite map whose entries are kept in strictly ascending key order. -/
structure SortedMap (K V : Type*) [LinearOrder K] where
  entries : List (K × V)
  sorted : entries.Pairwise (fun a b => a.1 < b.1)
  deriving DecidableEq

namespace SortedMap

variable {K V : Type*} [LinearOrder K]

def empty : SortedMap K V := ⟨[], List.Pairwise.nil⟩

/-- Insertion into the entry list. An entry with the same key is replaced. -/
def insertEntry (key : K) (value : V) : List (K × V) → List (K × V)
  | [] => [(key, value)]
  | entry :: rest =>
    if key < entry.1 then (key, value) :: entry :: rest
    else if key = entry.1 then (key, value) :: rest
    else entry :: insertEntry key value rest

variable {key other : K} {value : V} {entries : List (K × V)} {entry : K × V} {map : SortedMap K V}

theorem mem_insertEntry_key (h : entry ∈ insertEntry key value entries) :
    entry = (key, value) ∨ entry ∈ entries := by
  induction entries with
  | nil => simpa [insertEntry] using h
  | cons head rest ih =>
    unfold insertEntry at h
    split at h
    · simpa using h
    · grind

theorem insertEntry_sorted (h : entries.Pairwise (fun a b => a.1 < b.1)) :
    (insertEntry key value entries).Pairwise (fun a b => a.1 < b.1) := by
  induction entries with
  | nil => exact List.pairwise_singleton _ _
  | cons head rest ih =>
    obtain ⟨hHead, hRest⟩ := List.pairwise_cons.mp h
    unfold insertEntry
    split
    · grind
    · rename_i hNotBelow
      split
      · rename_i hSame
        exact List.pairwise_cons.mpr ⟨fun entry hEntry => hSame ▸ hHead entry hEntry, hRest⟩
      · rename_i hOther
        refine List.pairwise_cons.mpr ⟨?_, ih hRest⟩
        intro entry hEntry
        rcases mem_insertEntry_key hEntry with rfl | hEntry
        · exact lt_of_le_of_ne (not_lt.mp hNotBelow) (Ne.symm hOther)
        · exact hHead entry hEntry

def insert (map : SortedMap K V) (key : K) (value : V) : SortedMap K V :=
  ⟨insertEntry key value map.entries, insertEntry_sorted map.sorted⟩

def erase (map : SortedMap K V) (key : K) : SortedMap K V :=
  ⟨map.entries.filter (fun entry => entry.1 ≠ key), map.sorted.filter _⟩

def keys (map : SortedMap K V) : List K := map.entries.map Prod.fst

/-- The value stored under exactly this key. -/
def get? (map : SortedMap K V) (key : K) : Option V :=
  (map.entries.find? (fun entry => entry.1 = key)).map Prod.snd

/-- The entry with the greatest key that is at most `key`. -/
def lastAtMost (map : SortedMap K V) (key : K) : Option (K × V) :=
  (map.entries.filter (fun entry => entry.1 ≤ key)).getLast?

/-- The entries with `first ≤ key < stop`, in ascending order. -/
def range (map : SortedMap K V) (first stop : K) : List (K × V) :=
  map.entries.filter (fun entry => first ≤ entry.1 ∧ entry.1 < stop)

/-- A key stands in the map at most once. -/
theorem eq_of_key_eq (map : SortedMap K V) {a b : K × V} (ha : a ∈ map.entries)
    (hb : b ∈ map.entries) (h : a.1 = b.1) : a = b := by
  by_contra hNe
  have hDistinct : map.entries.Pairwise (fun a b => a.1 ≠ b.1) := map.sorted.imp ne_of_lt
  have : Std.Symm (fun a b : K × V => a.1 ≠ b.1) := ⟨fun _ _ => Ne.symm⟩
  exact hDistinct.forall ha hb hNe h

theorem mem_insertEntry (h : entries.Pairwise (fun a b => a.1 < b.1)) :
    entry ∈ insertEntry key value entries ↔
      entry = (key, value) ∨ (entry ∈ entries ∧ entry.1 ≠ key) := by
  induction entries with
  | nil => simp [insertEntry]
  | cons head rest ih =>
    obtain ⟨hHead, hRest⟩ := List.pairwise_cons.mp h
    unfold insertEntry
    split
    · grind
    · grind

/-- After an insertion the map holds the new entry and every old entry with
a different key. -/
theorem mem_insert :
    entry ∈ (map.insert key value).entries ↔
      entry = (key, value) ∨ (entry ∈ map.entries ∧ entry.1 ≠ key) :=
  mem_insertEntry map.sorted

theorem lastAtMost_some (h : map.lastAtMost key = some entry) :
    entry ∈ map.entries ∧ entry.1 ≤ key ∧
      ∀ other ∈ map.entries, other.1 ≤ key → other.1 ≤ entry.1 := by
  obtain ⟨before, hSplit⟩ := List.getLast?_eq_some_iff.mp h
  have hMem : entry ∈ map.entries.filter (fun entry => entry.1 ≤ key) := by simp [hSplit]
  rw [List.mem_filter] at hMem
  refine ⟨hMem.1, by simpa using hMem.2, ?_⟩
  intro other hOther hKey
  have hOtherMem : other ∈ map.entries.filter (fun entry => entry.1 ≤ key) := by
    simp [hOther, hKey]
  have hSorted := map.sorted.filter (fun entry => decide (entry.1 ≤ key))
  rw [hSplit] at hOtherMem hSorted
  rcases List.mem_append.mp hOtherMem with hBefore | hLast
  · exact ((List.pairwise_append.mp hSorted).2.2 other hBefore entry (by simp)).le
  · exact le_of_eq (congrArg Prod.fst (List.mem_singleton.mp hLast))

theorem lastAtMost_none (h : map.lastAtMost key = none) : ∀ entry ∈ map.entries, key < entry.1 := by
  intro entry hEntry
  have hEmpty := List.filter_eq_nil_iff.mp (List.getLast?_eq_none_iff.mp h) entry hEntry
  simpa using hEmpty

theorem lastAtMost_eq_some (hEntry : entry ∈ map.entries) (hKey : entry.1 ≤ key)
    (hLast : ∀ other ∈ map.entries, other.1 ≤ key → other.1 ≤ entry.1) :
    map.lastAtMost key = some entry := by
  cases hFound : map.lastAtMost key with
  | none => exact absurd (lastAtMost_none hFound entry hEntry) (not_lt_of_ge hKey)
  | some found =>
    obtain ⟨hMem, hBelow, hGreatest⟩ := lastAtMost_some hFound
    have hEq := le_antisymm (hLast found hMem hBelow) (hGreatest entry hEntry hKey)
    rw [map.eq_of_key_eq hMem hEntry hEq]

/-- A new entry is found from its own key up to the next one. -/
theorem lastAtMost_insert {map : SortedMap K V} {key other : K} {value : V} (h : key ≤ other) :
    (map.insert key value).lastAtMost other =
      match map.lastAtMost other with
      | some entry => if key < entry.1 then some entry else some (key, value)
      | none => some (key, value) := by
  have hNew : (key, value) ∈ (map.insert key value).entries := mem_insert.mpr (Or.inl rfl)
  cases hFound : map.lastAtMost other with
  | none =>
    refine lastAtMost_eq_some hNew h fun entry hEntry hBelow => ?_
    rcases mem_insert.mp hEntry with rfl | ⟨hOld, -⟩
    · exact le_rfl
    · exact absurd hBelow (not_le_of_gt (lastAtMost_none hFound entry hOld))
  | some last =>
    obtain ⟨hMem, hBelow, hGreatest⟩ := lastAtMost_some hFound
    simp only
    split
    case isTrue hAbove =>
      refine lastAtMost_eq_some (mem_insert.mpr (Or.inr ⟨hMem, hAbove.ne'⟩)) hBelow
        fun entry hEntry hEntryBelow => ?_
      rcases mem_insert.mp hEntry with rfl | ⟨hOld, -⟩
      · exact hAbove.le
      · exact hGreatest entry hOld hEntryBelow
    case isFalse hNotAbove =>
      refine lastAtMost_eq_some hNew h fun entry hEntry hEntryBelow => ?_
      rcases mem_insert.mp hEntry with rfl | ⟨hOld, -⟩
      · exact le_rfl
      · exact (hGreatest entry hOld hEntryBelow).trans (not_lt.mp hNotAbove)

theorem mem_range {map : SortedMap K V} {first stop : K} {entry : K × V} :
    entry ∈ map.range first stop ↔ entry ∈ map.entries ∧ first ≤ entry.1 ∧ entry.1 < stop := by
  simp [range]

theorem range_sorted (map : SortedMap K V) (first stop : K) :
    (map.range first stop).Pairwise (fun a b => a.1 < b.1) :=
  map.sorted.filter _

theorem get?_eq_some : map.get? key = some value ↔ (key, value) ∈ map.entries := by
  constructor
  · intro h
    obtain ⟨entry, hFind, hValue⟩ := Option.map_eq_some_iff.mp h
    have hKey : entry.1 = key := by simpa using List.find?_some hFind
    have hEntry := List.mem_of_find?_eq_some hFind
    rwa [← hKey, ← hValue]
  · intro h
    cases hFind : map.entries.find? (fun entry => entry.1 = key) with
    | none => exact absurd (List.find?_eq_none.mp hFind _ h) (by simp)
    | some entry =>
      have hKey : entry.1 = key := by simpa using List.find?_some hFind
      have hEq := map.eq_of_key_eq (List.mem_of_find?_eq_some hFind) h hKey
      simp [get?, hFind, hEq]

theorem mem_keys : key ∈ map.keys ↔ ∃ value, map.get? key = some value := by
  simp [keys, get?_eq_some]

theorem mem_erase : entry ∈ (map.erase key).entries ↔ entry ∈ map.entries ∧ entry.1 ≠ key := by
  simp [erase]

@[simp] theorem mem_keys_erase : other ∈ (map.erase key).keys ↔ other ∈ map.keys ∧ other ≠ key := by
  simp only [keys, List.mem_map, mem_erase]
  constructor
  · rintro ⟨entry, ⟨hEntry, hNe⟩, rfl⟩
    exact ⟨⟨entry, hEntry, rfl⟩, hNe⟩
  · rintro ⟨⟨entry, hEntry, rfl⟩, hNe⟩
    exact ⟨entry, ⟨hEntry, hNe⟩, rfl⟩

theorem get?_erase_of_ne (h : other ≠ key) : (map.erase key).get? other = map.get? other := by
  ext value
  rw [get?_eq_some, get?_eq_some, mem_erase]
  exact and_iff_left h

theorem get?_erase_self (map : SortedMap K V) (key : K) : (map.erase key).get? key = none := by
  by_contra h
  obtain ⟨value, hValue⟩ := Option.ne_none_iff_exists'.mp h
  exact (mem_erase.mp (get?_eq_some.mp hValue)).2 rfl

theorem entries_nodup (map : SortedMap K V) : map.entries.Nodup :=
  map.sorted.imp fun hLt hEq => absurd (congrArg Prod.fst hEq) hLt.ne

theorem cons_erase_nodup (map : SortedMap K V) (key : K) (value : V) :
    ((key, value) :: (map.erase key).entries).Nodup := by
  refine List.nodup_cons.mpr ⟨fun h => ?_, (map.erase key).entries_nodup⟩
  exact (mem_erase.mp h).2 rfl

theorem insert_perm (map : SortedMap K V) (key : K) (value : V) :
    (map.insert key value).entries.Perm ((key, value) :: (map.erase key).entries) := by
  rw [List.perm_ext_iff_of_nodup (entries_nodup _) (map.cons_erase_nodup key value)]
  intro entry
  rw [mem_insert, List.mem_cons, mem_erase]

theorem perm_erase (h : map.get? key = some value) :
    map.entries.Perm ((key, value) :: (map.erase key).entries) := by
  rw [List.perm_ext_iff_of_nodup map.entries_nodup (map.cons_erase_nodup key value)]
  intro entry
  have hMem := get?_eq_some.mp h
  rw [List.mem_cons, mem_erase]
  constructor
  · intro hEntry
    by_cases hKey : entry.1 = key
    · exact Or.inl (map.eq_of_key_eq hEntry hMem hKey)
    · exact Or.inr ⟨hEntry, hKey⟩
  · rintro (rfl | hEntry)
    · exact hMem
    · exact hEntry.1

theorem erase_of_not_mem (h : key ∉ map.keys) : (map.erase key).entries = map.entries := by
  refine List.filter_eq_self.mpr fun entry hEntry => ?_
  have hNe : entry.1 ≠ key := fun hEq => h (hEq ▸ List.mem_map_of_mem hEntry)
  simpa using hNe

@[simp] theorem mem_keys_insert :
    other ∈ (map.insert key value).keys ↔ other = key ∨ other ∈ map.keys := by
  rw [keys, ((map.insert_perm key value).map Prod.fst).mem_iff, List.map_cons, List.mem_cons]
  change _ ∨ other ∈ (map.erase key).keys ↔ _
  rw [mem_keys_erase]
  tauto

end SortedMap
