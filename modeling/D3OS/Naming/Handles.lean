import D3OS.Library.Outcome
import D3OS.Naming.OpenObjects

/-! Handles of the table of open objects over runs of opens and closes. The
mark of a handle is set at its number and cleared at the position of its
entry, so the two views of the table stay in step exactly as long as every
closed handle stands at the position of its own number. -/
namespace D3OS.Naming

open Outcome

/-- The table with what the calls so far have left open: each handle that an
`open` returned with its object, without those that were closed since. -/
structure History where
  table : OpenObjectTable
  opened : List (Nat × OpenedObject)
  deriving DecidableEq, Repr

inductive TableCall where
  | allocate (openedObject : OpenedObject)
  | free (handle : Nat)
  deriving DecidableEq, Repr

namespace History

def init : History := ⟨OpenObjectTable.new, []⟩

def handles (s : History) : List Nat := s.opened.map Prod.fst

def call (s : History) : TableCall → Except Panic (SyscallResult × History)
  | .allocate openedObject =>
    match s.table.allocateHandle openedObject with
    | (.ok handle, table) => .ok (.ok handle, ⟨table, s.opened ++ [(handle, openedObject)]⟩)
    | (.error e, table) => .ok (.error e, ⟨table, s.opened⟩)
  | .free handle => do
    match ← s.table.freeHandle handle with
    | (.ok value, table) =>
      return (.ok value, ⟨table, s.opened.eraseP fun entry => entry.1 == handle⟩)
    | (.error e, table) => return (.error e, ⟨table, s.opened⟩)

/-- The states that calls lead to when each of them meets a condition on the
state before it. -/
inductive Reaches (meets : History → TableCall → Prop) : History → Prop where
  | init : Reaches meets init
  | call {s s' : History} {c : TableCall} {result : SyscallResult} (hReach : Reaches meets s)
      (hMeets : meets s c) (hCall : s.call c = .ok (result, s')) : Reaches meets s'

/-- A handle that is closed stands at the position of its own number. -/
def ClosesInPlace (s : History) : TableCall → Prop
  | .allocate _ => True
  | .free handle =>
    ∀ index, s.table.openHandles.findIdx? (fun entry => entry.1 == handle) = some index →
      index = handle

/-- What an application may rely on: handles are distinct, a handle leads to
the object whose `open` returned it, closing returns and keeps the other
handles, and only a full table refuses an object. -/
structure Stable (s : History) : Prop where
  distinct : s.handles.Nodup
  lookup : ∀ handle openedObject, s.table.lookupOpenedObject handle = .ok openedObject ↔
    (handle, openedObject) ∈ s.opened
  close : ∀ handle, ∃ result table, s.table.freeHandle handle = .ok (result, table) ∧
    (result = .ok 0 ↔ handle ∈ s.handles) ∧
    ∀ other, other ≠ handle →
      table.lookupOpenedObject other = s.table.lookupOpenedObject other
  full : ∀ openedObject, (s.table.allocateHandle openedObject).1 = .error .ENOHANDLES ↔
    s.opened.length = MAX_OPEN_OBJECTS

/-- The vector holds what the history says is open. -/
structure Lists (s : History) : Prop where
  distinct : s.handles.Nodup
  entries : s.table.openHandles.Perm (s.opened.map fun entry => (entry.1, some entry.2))

/-- The two views of the table agree with each other and with the history. -/
structure InStep (s : History) : Prop extends Lists s where
  size : s.table.freeHandles.length = MAX_OPEN_OBJECTS
  bounded : ∀ handle ∈ s.handles, handle < MAX_OPEN_OBJECTS
  marks : ∀ handle, s.table.freeHandles[handle]? = some 0 ↔
    handle < MAX_OPEN_OBJECTS ∧ handle ∉ s.handles

theorem init_inStep : init.InStep where
  distinct := List.nodup_nil
  entries := List.Perm.refl _
  size := List.length_replicate
  bounded := by simp [handles, init]
  marks := by
    intro handle
    simp [handles, init, OpenObjectTable.new, List.getElem?_replicate]

variable {s : History} {handle : Nat}

theorem Lists.keys (h : s.Lists) : (s.table.openHandles.map Prod.fst).Perm s.handles := by
  have hKeys := h.entries.map Prod.fst
  rwa [List.map_map] at hKeys

theorem Lists.keys_nodup (h : s.Lists) : (s.table.openHandles.map Prod.fst).Nodup :=
  h.keys.nodup_iff.mpr h.distinct

theorem Lists.lookup_iff (h : s.Lists) (handle : Nat) (openedObject : OpenedObject) :
    s.table.lookupOpenedObject handle = .ok openedObject ↔ (handle, openedObject) ∈ s.opened := by
  have hEntry : s.table.openHandles.find? (fun entry => entry.1 == handle) =
      some (handle, some openedObject) ↔ (handle, openedObject) ∈ s.opened := by
    rw [AssocList.find?_eq_some_iff h.keys_nodup, h.entries.mem_iff]
    simp
  rw [← hEntry, OpenObjectTable.lookupOpenedObject]
  cases hFind : s.table.openHandles.find? (fun entry => entry.1 == handle) with
  | none => simp
  | some entry =>
    obtain ⟨key, value⟩ := entry
    have hKey : key = handle := by simpa using List.find?_some hFind
    cases value <;> simp [hKey]

/-- A lookup fails in one way only. -/
theorem lookupOpenedObject_congr {table table' : OpenObjectTable} {handle' : Nat}
    (h : ∀ openedObject, table.lookupOpenedObject handle = .ok openedObject ↔
      table'.lookupOpenedObject handle' = .ok openedObject) :
    table.lookupOpenedObject handle = table'.lookupOpenedObject handle' := by
  have hError : ∀ (t : OpenObjectTable) (k : Nat),
      t.lookupOpenedObject k = .error .EINVALH ∨ ∃ o, t.lookupOpenedObject k = .ok o := by
    intro t k
    unfold OpenObjectTable.lookupOpenedObject
    split <;> simp
  rcases hError table handle with hLeft | ⟨o, hLeft⟩
  · rcases hError table' handle' with hRight | ⟨o, hRight⟩
    · rw [hLeft, hRight]
    · rw [(h o).mpr hRight, hRight]
  · rw [hLeft, (h o).mp hLeft]

/-- An entry is found by a handle exactly where the handle is open. -/
theorem Lists.findIdx?_isSome (h : s.Lists) (handle : Nat) :
    (s.table.openHandles.findIdx? fun entry => entry.1 == handle).isSome ↔
      handle ∈ s.handles := by
  rw [← h.keys.mem_iff, List.findIdx?_isSome]
  simp [List.any_eq_true]

/-- Removing the entry of a handle removes the handle, and nothing else. -/
theorem Lists.remove (h : s.Lists) {index : Nat} {table : OpenObjectTable}
    (hIndex : s.table.openHandles.findIdx? (fun entry => entry.1 == handle) = some index)
    (hTable : table.openHandles = AssocList.swapRemove s.table.openHandles index) :
    Lists ⟨table, s.opened.eraseP fun entry => entry.1 == handle⟩ := by
  obtain ⟨hLt, -⟩ := List.findIdx?_eq_some_iff_getElem.mp hIndex
  constructor
  · change ((s.opened.eraseP fun entry => entry.1 == handle).map Prod.fst).Nodup
    rw [AssocList.map_fst_eraseP]
    exact h.distinct.erase handle
  · have hErase : s.table.openHandles.eraseIdx index =
        s.table.openHandles.eraseP fun entry => entry.1 == handle := by
      rw [List.eraseP_eq_eraseIdx, hIndex]
    have hOnce : s.table.openHandles.Pairwise fun a b =>
        (a.1 == handle) = true → (b.1 == handle) = true → False := by
      refine (List.pairwise_map.mp h.keys_nodup).imp ?_
      intro a b hNe hA hB
      exact hNe ((beq_iff_eq.mp hA).trans (beq_iff_eq.mp hB).symm)
    calc table.openHandles
      _ = AssocList.swapRemove s.table.openHandles index := hTable
      _ |>.Perm (s.table.openHandles.eraseIdx index) := AssocList.swapRemove_perm hLt
      _ |>.Perm ((s.opened.map fun entry => (entry.1, some entry.2)).eraseP
            fun entry => entry.1 == handle) := by
          rw [hErase]
          exact h.entries.eraseP _ hOnce
      _ = _ := List.eraseP_map

/-- Distinct handles below the maximum are no more than the maximum. -/
theorem length_le_of_bounded {handles : List Nat} (hDistinct : handles.Nodup)
    (hBounded : ∀ handle ∈ handles, handle < MAX_OPEN_OBJECTS) :
    handles.length ≤ MAX_OPEN_OBJECTS := by
  have hRange : handles.Subperm (List.range MAX_OPEN_OBJECTS) :=
    hDistinct.subperm fun handle hMem => List.mem_range.mpr (hBounded handle hMem)
  simpa using hRange.length_le

theorem InStep.index_lt (h : s.InStep) {index : Nat}
    (hIndex : s.table.openHandles.findIdx? (fun entry => entry.1 == handle) = some index) :
    index < s.table.freeHandles.length := by
  obtain ⟨hLt, -⟩ := List.findIdx?_eq_some_iff_getElem.mp hIndex
  have hLength := length_le_of_bounded h.distinct h.bounded
  rw [← h.keys.length_eq, List.length_map] at hLength
  rw [h.size]
  omega

/-- Closing returns; an open handle loses its entry and the mark at the
position of the entry. -/
theorem InStep.freeHandle_cases (h : s.InStep) (handle : Nat) :
    (handle ∉ s.handles ∧ s.table.freeHandle handle = .ok (.error .EINVALH, s.table)) ∨
      (handle ∈ s.handles ∧ ∃ index,
        s.table.openHandles.findIdx? (fun entry => entry.1 == handle) = some index ∧
        s.table.freeHandle handle = .ok (.ok 0,
          ⟨AssocList.swapRemove s.table.openHandles index, s.table.freeHandles.set index 0⟩)) := by
  cases hIndex : s.table.openHandles.findIdx? (fun entry => entry.1 == handle) with
  | none =>
    refine .inl ⟨?_, by simp [OpenObjectTable.freeHandle, hIndex]⟩
    rw [← h.findIdx?_isSome, hIndex]
    simp
  | some index =>
    refine .inr ⟨?_, index, rfl, ?_⟩
    · rw [← h.findIdx?_isSome, hIndex]
      rfl
    · simp [OpenObjectTable.freeHandle, hIndex, h.index_lt hIndex]

/-- An object is refused when the table is full, and gets a handle that is
not open otherwise. -/
theorem InStep.allocateHandle_cases (h : s.InStep) (openedObject : OpenedObject) :
    (s.opened.length = MAX_OPEN_OBJECTS ∧
        s.table.allocateHandle openedObject = (.error .ENOHANDLES, s.table)) ∨
      (s.opened.length < MAX_OPEN_OBJECTS ∧ ∃ handle,
        handle < MAX_OPEN_OBJECTS ∧ handle ∉ s.handles ∧
        s.table.allocateHandle openedObject = (.ok handle,
          ⟨s.table.openHandles ++ [(handle, some openedObject)],
            s.table.freeHandles.set handle 1⟩)) := by
  have hOpened : s.handles.length = s.opened.length := List.length_map _
  have hAtMost := length_le_of_bounded h.distinct h.bounded
  cases hFree : s.table.freeHandles.findIdx? (fun value => value == 0) with
  | none =>
    refine .inl ⟨?_, by
      simp [OpenObjectTable.allocateHandle, OpenObjectTable.findFreeHandle, hFree]⟩
    have hAll : List.range MAX_OPEN_OBJECTS ⊆ s.handles := by
      intro handle hRange
      by_contra hClosed
      have hZero := (h.marks handle).mpr ⟨List.mem_range.mp hRange, hClosed⟩
      have hMem := List.mem_of_getElem? hZero
      simpa using List.findIdx?_eq_none_iff.mp hFree 0 hMem
    have hAtLeast := (List.nodup_range.subperm hAll).length_le
    rw [List.length_range] at hAtLeast
    omega
  | some handle =>
    obtain ⟨hLt, hZero, -⟩ := List.findIdx?_eq_some_iff_getElem.mp hFree
    obtain ⟨hBound, hClosed⟩ := (h.marks handle).mp
      (List.getElem?_eq_some_iff.mpr ⟨hLt, by simpa using hZero⟩)
    refine .inr ⟨?_, handle, hBound, hClosed, by
      simp [OpenObjectTable.allocateHandle, OpenObjectTable.findFreeHandle, hFree]⟩
    have hMore : (handle :: s.handles).length ≤ MAX_OPEN_OBJECTS :=
      length_le_of_bounded (List.nodup_cons.mpr ⟨hClosed, h.distinct⟩) fun other hMem =>
        (List.mem_cons.mp hMem).elim (fun hEq => hEq ▸ hBound) (h.bounded other)
    rw [List.length_cons] at hMore
    omega

theorem InStep.allocate (h : s.InStep) {openedObject : OpenedObject}
    (hBound : handle < MAX_OPEN_OBJECTS) (hClosed : handle ∉ s.handles) :
    InStep ⟨⟨s.table.openHandles ++ [(handle, some openedObject)],
      s.table.freeHandles.set handle 1⟩, s.opened ++ [(handle, openedObject)]⟩ := by
  have hHandles : ∀ other,
      other ∈ (s.opened ++ [(handle, openedObject)]).map Prod.fst ↔
        other ∈ s.handles ∨ other = handle := by
    simp [handles]
  constructor
  · constructor
    · change ((s.opened ++ [(handle, openedObject)]).map Prod.fst).Nodup
      rw [List.map_append]
      refine List.nodup_append.mpr ⟨h.distinct, by simp, ?_⟩
      intro other hOther key hKey hEq
      rw [show key = handle by simpa using hKey] at hEq
      exact hClosed (hEq ▸ hOther)
    · simpa using h.entries.append_right [(handle, some openedObject)]
  · simpa using h.size
  · intro other hOther
    rcases (hHandles other).mp hOther with hOld | rfl
    · exact h.bounded other hOld
    · exact hBound
  · intro other
    change (s.table.freeHandles.set handle 1)[other]? = some 0 ↔
      other < MAX_OPEN_OBJECTS ∧ other ∉ (s.opened ++ [(handle, openedObject)]).map Prod.fst
    rw [hHandles, List.getElem?_set]
    have hSize := h.size
    by_cases hEq : handle = other
    · subst hEq
      simp [hSize, hBound]
    · have hNe : other ≠ handle := fun hEq' => hEq hEq'.symm
      simp [hEq, hNe, h.marks other]

/-- The entry of a handle that stands in its place is removed with the mark
of that handle. -/
theorem InStep.free {s : History} (h : s.InStep) {handle : Nat}
    (hIndex : s.table.openHandles.findIdx? (fun entry => entry.1 == handle) = some handle) :
    InStep ⟨⟨AssocList.swapRemove s.table.openHandles handle, s.table.freeHandles.set handle 0⟩,
      s.opened.eraseP fun entry => entry.1 == handle⟩ := by
  have hOpen : handle ∈ s.handles := by
    rw [← h.findIdx?_isSome, hIndex]
    rfl
  have hHandles : ∀ other, other ∈ (s.opened.eraseP fun entry => entry.1 == handle).map Prod.fst ↔
      other ≠ handle ∧ other ∈ s.handles := by
    intro other
    rw [AssocList.map_fst_eraseP]
    exact h.distinct.mem_erase_iff
  constructor
  · exact h.remove hIndex rfl
  · simpa using h.size
  · intro other hOther
    exact h.bounded other ((hHandles other).mp hOther).2
  · intro other
    change (s.table.freeHandles.set handle 0)[other]? = some 0 ↔ other < MAX_OPEN_OBJECTS ∧
      other ∉ (s.opened.eraseP fun entry => entry.1 == handle).map Prod.fst
    rw [hHandles, List.getElem?_set]
    have hSize := h.size
    have hBound := h.bounded handle hOpen
    by_cases hEq : handle = other
    · subst hEq
      simp [hSize, hBound]
    · have hNe : other ≠ handle := fun hEq' => hEq hEq'.symm
      simp [hEq, hNe, h.marks other]

theorem InStep.stable (h : s.InStep) : s.Stable where
  distinct := h.distinct
  lookup := h.lookup_iff
  close := by
    intro handle
    rcases h.freeHandle_cases handle with ⟨hClosed, hFree⟩ | ⟨hOpen, index, hIndex, hFree⟩
    · exact ⟨_, _, hFree, by simp [hClosed], fun _ _ => rfl⟩
    · refine ⟨_, _, hFree, by simp [hOpen], ?_⟩
      intro other hOther
      refine lookupOpenedObject_congr fun openedObject => ?_
      have hLists : Lists ⟨⟨AssocList.swapRemove s.table.openHandles index,
          s.table.freeHandles.set index 0⟩, _⟩ := h.remove hIndex rfl
      rw [hLists.lookup_iff, h.lookup_iff]
      exact List.mem_eraseP_of_neg (by simpa using hOther)
  full := by
    intro openedObject
    rcases h.allocateHandle_cases openedObject with ⟨hFull, hRun⟩ | ⟨hRoom, handle, -, -, hRun⟩
    · simp [hFull, hRun]
    · simp [hRun]
      omega

theorem InStep.call {s' : History} {c : TableCall} {result : SyscallResult} (h : s.InStep)
    (hPlace : s.ClosesInPlace c) (hCall : s.call c = .ok (result, s')) : s'.InStep := by
  cases c with
  | allocate openedObject =>
    rcases h.allocateHandle_cases openedObject with ⟨-, hRun⟩ | ⟨-, handle, hBound, hClosed, hRun⟩
    · simp only [History.call, hRun, Except.ok.injEq, Prod.mk.injEq] at hCall
      obtain ⟨-, rfl⟩ := hCall
      exact h
    · simp only [History.call, hRun, Except.ok.injEq, Prod.mk.injEq] at hCall
      obtain ⟨-, rfl⟩ := hCall
      exact h.allocate hBound hClosed
  | free handle =>
    rcases h.freeHandle_cases handle with ⟨-, hRun⟩ | ⟨-, index, hIndex, hRun⟩
    · simp only [History.call, hRun, bind_of_ok, pure_ok_iff,
        Prod.mk.injEq] at hCall
      obtain ⟨-, rfl⟩ := hCall
      exact h
    · simp only [History.call, hRun, bind_of_ok, pure_ok_iff,
        Prod.mk.injEq] at hCall
      obtain ⟨-, rfl⟩ := hCall
      obtain rfl := hPlace index hIndex
      exact h.free hIndex

theorem Reaches.inStep (h : Reaches ClosesInPlace s) : s.InStep := by
  induction h with
  | init => exact init_inStep
  | call hReach hMeets hCall ih => exact ih.call hMeets hCall

/-- Handles are unique and stable in every run in which each closed handle
stands at the position of its own number. -/
theorem stable_of_closesInPlace {s : History} (h : Reaches ClosesInPlace s) : s.Stable :=
  h.inStep.stable

/-- The results of a sequence of calls and the state after it. -/
def run (s : History) : List TableCall → Except Panic (List SyscallResult × History)
  | [] => .ok ([], s)
  | c :: rest => do
    let (result, s) ← s.call c
    let (results, s) ← s.run rest
    return (result :: results, s)

theorem Reaches.run {meets : History → TableCall → Prop} (hMeets : ∀ s c, meets s c)
    {calls : List TableCall} : ∀ {s s' : History} {results : List SyscallResult},
      Reaches meets s → s.run calls = .ok (results, s') → Reaches meets s' := by
  induction calls with
  | nil =>
    intro s s' results hReach hRun
    obtain ⟨-, rfl⟩ : _ ∧ s = s' := by simpa [History.run] using hRun
    exact hReach
  | cons c rest ih =>
    intro s s' results hReach hRun
    obtain ⟨⟨result, s₁⟩, hCall, hRun⟩ := bind_ok hRun
    obtain ⟨⟨results', s₂⟩, hRest, hEnd⟩ := bind_ok hRun
    obtain ⟨-, rfl⟩ : _ ∧ s₂ = s' := by simpa using hEnd
    exact ih (.call hReach (hMeets s c) hCall) hRest

def rootObject : OpenedObject := ⟨.directoryObject 0, 0, .READONLY⟩

/-- Handle `1` moves to the front when handle `0` is closed. Closing it later
clears the mark of handle `0`, which is open again and is then given out a
second time. -/
theorem handle_given_out_twice : ∃ s results,
    init.run [.allocate rootObject, .allocate rootObject, .free 0, .allocate rootObject, .free 1,
      .allocate rootObject] = .ok (results, s) ∧
    Reaches (fun _ _ => True) s ∧ s.handles = [0, 0] ∧ ¬ s.Stable := by
  have hRun : (fun r => (r.1, r.2.handles)) <$> init.run [.allocate rootObject,
      .allocate rootObject, .free 0, .allocate rootObject, .free 1, .allocate rootObject] =
      .ok ([.ok 0, .ok 1, .ok 0, .ok 0, .ok 0, .ok 0], [0, 0]) := by decide +kernel
  obtain ⟨⟨results, s⟩, hRun, hEq⟩ := (map_ok_iff _ _ _).mp hRun
  obtain ⟨-, hHandles⟩ := Prod.mk.inj hEq
  refine ⟨s, results, hRun, Reaches.run (fun _ _ => trivial) .init hRun, hHandles, ?_⟩
  intro hStable
  have hDistinct := hStable.distinct
  rw [show s.handles = [0, 0] from hHandles] at hDistinct
  simp at hDistinct

/-- Two objects are opened and the later one is closed. -/
theorem stable_of_closesInPlace_lastOpened : ∃ s, Reaches ClosesInPlace s ∧ s.handles = [0] ∧
    s.table.lookupOpenedObject 0 = .ok rootObject ∧ s.Stable := by
  let marks := OpenObjectTable.new.freeHandles
  let one : History := ⟨⟨[(0, some rootObject)], marks.set 0 1⟩, [(0, rootObject)]⟩
  let two : History := ⟨⟨[(0, some rootObject), (1, some rootObject)], (marks.set 0 1).set 1 1⟩,
    [(0, rootObject), (1, rootObject)]⟩
  let last : History := ⟨⟨[(0, some rootObject)], ((marks.set 0 1).set 1 1).set 1 0⟩,
    [(0, rootObject)]⟩
  have hOne : init.call (.allocate rootObject) = .ok (.ok 0, one) := rfl
  have hTwo : one.call (.allocate rootObject) = .ok (.ok 1, two) := rfl
  have hOpened : Reaches ClosesInPlace two :=
    .call (c := .allocate rootObject)
      (.call (c := .allocate rootObject) .init trivial hOne) trivial hTwo
  have hPlace : two.ClosesInPlace (.free 1) := fun index hIndex =>
    (Option.some.inj hIndex).symm
  have hLast : two.call (.free 1) = .ok (.ok 0, last) := by
    rcases hOpened.inStep.freeHandle_cases 1 with ⟨hClosed, -⟩ | ⟨-, index, hIndex, hFree⟩
    · exact absurd (show 1 ∈ [0, 1] by decide) hClosed
    · obtain rfl := hPlace index hIndex
      rw [History.call, hFree]
      rfl
  have hReach : Reaches ClosesInPlace last := .call hOpened hPlace hLast
  exact ⟨last, hReach, rfl, rfl, stable_of_closesInPlace hReach⟩

end History

end D3OS.Naming
