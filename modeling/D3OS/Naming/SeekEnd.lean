import D3OS.Naming.Contents

/-! Seeking relative to the end of a file. `seek` takes the length from the
stat record, which `File::new` sets to zero and no call changes. -/
namespace D3OS.Naming

open Outcome

inductive ServiceCall where
  | touch (path : Text)
  | mkdir (path : Text)
  | openNamed (path : Text) (flags : OpenOptions)
  | write (room fh : Nat) (buf : List UInt8)
  | read (fh : Nat) (buf : List UInt8)
  | seek (fh offset : Nat) (origin : SeekOrigin)
  | close (handle : Nat)
  | cd (path : Text)

variable {s : NamingService} {fh room offset : Nat} {openedObject : OpenedObject}
  {profile : BuildProfile} {buf : List UInt8}

namespace NamingService

def serve (profile : BuildProfile) (s : NamingService) : ServiceCall → Except Panic NamingService
  | .touch path => .ok (s.touch path).2
  | .mkdir path => .ok (s.mkdir path).2
  | .openNamed path flags => .ok (s.openOrCreate path flags).2
  | .write room fh buf => (s.write profile room fh buf).map Prod.snd
  | .read fh buf => (s.read profile fh buf).map fun answer => answer.2.2
  | .seek fh offset origin => (s.seek profile fh offset origin).map Prod.snd
  | .close handle => (s.close handle).map Prod.snd
  | .cd path => .ok (s.cd path).2

/-- The states to which calls lead that do not panic. -/
inductive Served (profile : BuildProfile) : NamingService → Prop where
  | init : Served profile init
  | call {s s' : NamingService} {c : ServiceCall} (hServed : Served profile s)
      (hCall : s.serve profile c = .ok s') : Served profile s'

/-- Open files exist, and every stat record is the one of a new file. -/
structure Plain (s : NamingService) : Prop where
  sound : s.root.Sound
  opened : ∀ handle openedObject file, (handle, some openedObject) ∈ s.openObjects.openHandles →
    openedObject.namedObject = .fileObject file → file < s.root.files.length
  sizes : ∀ file, (s.root.file file).stat.size = 0

theorem init_plain : init.Plain where
  sound := TmpFs.new_sound
  opened := by
    intro handle openedObject file hMem
    cases hMem
  sizes := fun _ => rfl

theorem Plain.table (h : s.Plain) {table : OpenObjectTable}
    (hOpened : ∀ handle openedObject file, (handle, some openedObject) ∈ table.openHandles →
      openedObject.namedObject = .fileObject file → file < s.root.files.length) :
    Plain { s with openObjects := table } :=
  ⟨h.sound, hOpened, h.sizes⟩

theorem Plain.root (h : s.Plain) {fs : TmpFs} (hSound : fs.Sound)
    (hLength : s.root.files.length ≤ fs.files.length)
    (hSizes : ∀ file, (fs.file file).stat.size = 0) : Plain { s with root := fs } :=
  ⟨hSound, fun handle openedObject file hMem hFile =>
    Nat.lt_of_lt_of_le (h.opened handle openedObject file hMem hFile) hLength, hSizes⟩

theorem Plain.create (h : s.Plain) (kind : ObjectKind) (path : Text) :
    Plain { s with root := (createNamedObject (TmpFs.create kind) s.root path).2 } := by
  obtain ⟨hLength, hFiles⟩ := createNamedObject_files kind s.root path
  refine h.root (createNamedObject_sound h.sound kind path).1 hLength fun file => ?_
  rw [hFiles]
  exact h.sizes file

theorem Plain.openOrCreate (h : s.Plain) (path : Text) (flags : OpenOptions) :
    (s.openOrCreate path flags).2.Plain := by
  obtain ⟨fs, hFs, hRun⟩ := s.openOrCreate_cases path flags
  have hTree : Plain { s with root := fs } := by
    rcases hFs with rfl | rfl
    · exact h
    · exact h.create .file path
  rcases hRun with ⟨e, hRun⟩ | ⟨found, handle, table, hFound, hAllocate, hRun⟩
  · rw [hRun]
    exact hTree
  · rw [hRun]
    obtain ⟨-, rfl⟩ := OpenObjectTable.allocateHandle_ok hAllocate
    refine hTree.table fun other openedObject file hMem hFile => ?_
    rcases List.mem_append.mp hMem with hOld | hNew
    · exact hTree.opened other openedObject file hOld hFile
    · obtain ⟨-, hObject⟩ := Prod.mk.inj (List.mem_singleton.mp hNew)
      obtain rfl := Option.some.inj hObject
      obtain rfl : found = .fileObject file := hFile
      exact lookupNamedObject_file_lt hTree.sound hFound

end NamingService

/-- Moving a position leaves the objects of all handles as they are. -/
theorem OpenObjectTable.mem_setPos {table : OpenObjectTable} {pos handle : Nat}
    (h : (handle, some openedObject) ∈ (table.setPos fh pos).openHandles) :
    ∃ before, (handle, some before) ∈ table.openHandles ∧
      before.namedObject = openedObject.namedObject := by
  obtain ⟨index, hIndex⟩ := List.mem_iff_getElem?.mp h
  rw [setPos, List.getElem?_modify] at hIndex
  cases hEntry : table.openHandles[index]? with
  | none => simp [hEntry] at hIndex
  | some entry =>
    obtain ⟨key, object⟩ := entry
    have hMem := List.mem_of_getElem? hEntry
    simp only [hEntry, Option.map_eq_map, Option.map_some, Option.some.injEq] at hIndex
    split at hIndex
    · obtain ⟨rfl, hObject⟩ := Prod.mk.inj hIndex
      obtain ⟨before, rfl, rfl⟩ := Option.map_eq_some_iff.mp hObject
      exact ⟨before, hMem, rfl⟩
    · obtain ⟨rfl, rfl⟩ := Prod.mk.inj hIndex
      exact ⟨openedObject, hMem, rfl⟩

theorem File.write_stat {file content : File} {count : Nat}
    (h : file.write profile room buf offset = .ok (count, content)) : content.stat = file.stat := by
  obtain ⟨stop, -, h⟩ := bind_ok h
  have hSplice : ∀ data : List UInt8, (if offset ≤ stop ∧ stop ≤ data.length then
      pure (buf.length, { file with data := data.take offset ++ buf ++ data.drop stop })
      else throw .sliceIndex : Except Panic (Nat × File)) = .ok (count, content) →
        content.stat = file.stat := by
    intro data h
    obtain ⟨-, h⟩ := ite_ok h
    obtain ⟨-, rfl⟩ := Prod.mk.inj (pure_ok h)
    rfl
  dsimp only at h
  split at h
  · obtain ⟨data, -, h⟩ := bind_ok h
    exact hSplice data h
  · exact hSplice file.data h

namespace NamingService

theorem Plain.setPos (h : s.Plain) (fh pos : Nat) :
    Plain { s with openObjects := s.openObjects.setPos fh pos } := by
  refine h.table fun handle openedObject file hMem hFile => ?_
  obtain ⟨before, hBefore, hObject⟩ := OpenObjectTable.mem_setPos hMem
  exact h.opened handle before file hBefore (hObject.trans hFile)

variable {file : Nat}

theorem Plain.setFile (h : s.Plain) {content : File} (hSize : content.stat.size = 0) :
    Plain { s with root := s.root.setFile file content } := by
  refine h.root (h.sound.setFile file content) (by simp [TmpFs.setFile]) fun other => ?_
  simp only [TmpFs.setFile, TmpFs.file, List.getD_eq_getElem?_getD, List.getElem?_set]
  have hOther := h.sizes other
  rw [TmpFs.file, List.getD_eq_getElem?_getD] at hOther
  split
  case isTrue hEq =>
    subst hEq
    split
    case isTrue => exact hSize
    case isFalse => rfl
  case isFalse => exact hOther

theorem Plain.openedFile (h : s.Plain) (hOpened : s.openedFile fh = .ok (openedObject, file)) :
    file < s.root.files.length := by
  obtain ⟨hLookup, hFile⟩ := openedFile_ok.mp hOpened
  unfold OpenObjectTable.lookupOpenedObject at hLookup
  split at hLookup
  case h_1 key found hFind =>
    obtain rfl := Except.ok.inj hLookup
    exact h.opened key found file (List.mem_of_find?_eq_some hFind) hFile
  case h_2 => cases hLookup

section

variable {s : NamingService} {profile : BuildProfile} {fh : Nat}

theorem Plain.cd (h : s.Plain) (path : Text) : (s.cd path).2.Plain := by
  unfold NamingService.cd
  split
  · exact ⟨h.sound, h.opened, h.sizes⟩
  · exact h

variable {answer : SyscallResult × NamingService}

theorem Plain.close (h : s.Plain) (hClose : s.close fh = .ok answer) : answer.2.Plain := by
  obtain ⟨⟨result, table⟩, hFree, hClose⟩ := bind_ok hClose
  obtain rfl := pure_ok hClose
  unfold OpenObjectTable.freeHandle at hFree
  split at hFree
  case h_1 =>
    obtain ⟨-, rfl⟩ := Prod.mk.inj (Except.ok.inj hFree)
    exact h
  case h_2 index hIndex =>
    obtain ⟨-, hFree⟩ := ite_ok hFree
    obtain ⟨-, rfl⟩ := Prod.mk.inj (Except.ok.inj hFree)
    obtain ⟨hLt, -⟩ := List.findIdx?_eq_some_iff_getElem.mp hIndex
    refine h.table fun other openedObject file hMem hFile => ?_
    have hOld := (AssocList.swapRemove_perm hLt).mem_iff.mp hMem
    exact h.opened other openedObject file (List.mem_of_mem_eraseIdx hOld) hFile

theorem Plain.read (h : s.Plain) {answer : SyscallResult × List UInt8 × NamingService}
    (hRead : s.read profile fh buf = .ok answer) : answer.2.2.Plain := by
  unfold NamingService.read at hRead
  split at hRead
  case h_1 =>
    obtain rfl := Except.ok.inj hRead
    exact h
  case h_2 =>
    obtain ⟨pos, -, hRead⟩ := bind_ok hRead
    obtain rfl := pure_ok hRead
    exact h.setPos fh pos

theorem Plain.seek (h : s.Plain) {origin : SeekOrigin}
    (hSeek : s.seek profile fh offset origin = .ok answer) :
    answer.2.Plain := by
  unfold NamingService.seek at hSeek
  split at hSeek
  case h_1 =>
    obtain rfl := Except.ok.inj hSeek
    exact h
  case h_2 =>
    dsimp only at hSeek
    split at hSeek <;> obtain ⟨pos, -, hSeek⟩ := bind_ok hSeek
    all_goals
      obtain rfl := pure_ok hSeek
      exact h.setPos fh pos

theorem Plain.write (h : s.Plain) (hWrite : s.write profile room fh buf = .ok answer) :
    answer.2.Plain := by
  unfold NamingService.write at hWrite
  split at hWrite
  case h_1 =>
    obtain rfl := Except.ok.inj hWrite
    exact h
  case h_2 openedObject file hOpened =>
    obtain ⟨⟨count, content⟩, hContent, hWrite⟩ := bind_ok hWrite
    obtain ⟨pos, -, hWrite⟩ := bind_ok hWrite
    obtain rfl := pure_ok hWrite
    have hSize : content.stat.size = 0 := File.write_stat hContent ▸ h.sizes file
    exact (h.setFile hSize).setPos fh pos

end

theorem Plain.serve {s' : NamingService} (h : s.Plain) {c : ServiceCall}
    (hCall : s.serve profile c = .ok s') : s'.Plain := by
  cases c with
  | touch path =>
    obtain rfl := Except.ok.inj hCall
    exact h.create .file path
  | mkdir path =>
    obtain rfl := Except.ok.inj hCall
    exact h.create .directory path
  | openNamed path flags =>
    obtain rfl := Except.ok.inj hCall
    exact h.openOrCreate path flags
  | cd path =>
    obtain rfl := Except.ok.inj hCall
    exact h.cd path
  | close handle =>
    obtain ⟨answer, hClose, rfl⟩ := (map_ok_iff _ _ _).mp hCall
    exact h.close hClose
  | read fh buf =>
    obtain ⟨answer, hRead, rfl⟩ := (map_ok_iff _ _ _).mp hCall
    exact h.read hRead
  | seek fh offset origin =>
    obtain ⟨answer, hSeek, rfl⟩ := (map_ok_iff _ _ _).mp hCall
    exact h.seek hSeek
  | write room fh buf =>
    obtain ⟨answer, hWrite, rfl⟩ := (map_ok_iff _ _ _).mp hCall
    exact h.write hWrite

theorem Served.plain (h : Served profile s) : s.Plain := by
  induction h with
  | init => exact init_plain
  | call _ hCall ih => exact ih.serve hCall

/-- `seek` to the end puts the position behind the data, by the offset. -/
def SeeksToEnd (profile : BuildProfile) (s : NamingService) (fh file : Nat) : Prop :=
  ∀ offset, offset < 2 ^ 64 →
    ∃ s', s.seek profile fh offset .end = .ok (.ok 0, s') ∧
      s'.cursor fh = some (file, (s.root.file file).data.length + offset)

/-- What is written after a `seek` to the end comes behind the data. -/
def AppendsAtEnd (profile : BuildProfile) (s : NamingService) (fh file : Nat) : Prop :=
  ∀ room buf, (s.root.file file).data.length + buf.length < 2 ^ 63 →
    (s.root.file file).data.length + buf.length ≤ room →
    ∃ s' s'', s.seek profile fh 0 .end = .ok (.ok 0, s') ∧
      s'.write profile room fh buf = .ok (.ok buf.length, s'') ∧
      (s''.root.file file).data = (s.root.file file).data ++ buf

theorem Plain.seek_end (h : s.Plain) (profile : BuildProfile)
    (hOpened : s.openedFile fh = .ok (openedObject, file)) (hOffset : offset < 2 ^ 64) :
    s.seek profile fh offset .end =
      .ok (.ok 0, { s with openObjects := s.openObjects.setPos fh offset }) := by
  unfold NamingService.seek
  simp only [hOpened, h.sizes, Nat.zero_add, profile.word_of_lt hOffset]
  rfl

theorem overlay_nil (buf : List UInt8) : overlay [] 0 buf = buf := by
  refine List.ext_getElem (by simp) fun i hLeft hRight => ?_
  simp [overlay, hRight]

/-- A write at the start of an empty file. -/
theorem Plain.write_empty (h : s.Plain) (profile : BuildProfile)
    (hOpened : s.openedFile fh = .ok (openedObject, file)) (hStart : openedObject.pos = 0)
    (hEmpty : (s.root.file file).data = []) (hSize : buf.length < 2 ^ 63)
    (hRoom : buf.length ≤ room) :
    ∃ s', s.write profile room fh buf = .ok (.ok buf.length, s') ∧
      (s'.root.file file).data = buf := by
  have hRange : openedObject.pos + buf.length < 2 ^ 64 := by omega
  obtain ⟨⟨count, content⟩, hContent, rfl, hData, -⟩ :=
    (File.write_spec profile room (s.root.file file) hRange).exists_ok fun _ => by
      rw [hStart]
      omega
  have hFile := h.openedFile hOpened
  refine ⟨{ s with root := s.root.setFile file content
                   openObjects := s.openObjects.setPos fh (openedObject.pos + buf.length) }, ?_, ?_⟩
  · unfold NamingService.write
    simp only [hOpened, hContent, bind_of_ok, profile.word_of_lt hRange]
    rfl
  · rw [TmpFs.file_setFile _ hFile, if_pos rfl, hData, hEmpty, hStart]
    exact overlay_nil buf

/-- After every sequence of calls, `seek` to the end of a file finds it, and
writing there appends, exactly if the file is empty. -/
theorem seek_end_iff {profile : BuildProfile} {s : NamingService} {fh file : Nat}
    {openedObject : OpenedObject} (hServed : Served profile s)
    (hOpened : s.openedFile fh = .ok (openedObject, file)) :
    s.SeeksToEnd profile fh file ∧ s.AppendsAtEnd profile fh file ↔
      (s.root.file file).data = [] := by
  have hPlain := hServed.plain
  have hSeek : ∀ {offset : Nat}, offset < 2 ^ 64 → s.seek profile fh offset .end =
      .ok (.ok 0, { s with openObjects := s.openObjects.setPos fh offset }) :=
    hPlain.seek_end profile hOpened
  have hMoved : ∀ offset, cursor { s with openObjects := s.openObjects.setPos fh offset } fh =
      some (file, offset) := by
    intro offset
    rw [cursor_setPos hOpened rfl, Function.update_self]
  constructor
  · rintro ⟨hEnd, -⟩
    -- The position that is set is the offset alone.
    obtain ⟨s', hRun, hCursor⟩ := hEnd 0 (by decide)
    rw [hSeek (by decide)] at hRun
    obtain ⟨-, rfl⟩ := Prod.mk.inj (Except.ok.inj hRun)
    rw [hMoved] at hCursor
    have hZero := (Prod.mk.inj (Option.some.inj hCursor)).2
    exact List.length_eq_zero_iff.mp hZero.symm
  · intro hEmpty
    have hLength : (s.root.file file).data.length = 0 := by rw [hEmpty, List.length_nil]
    refine ⟨?_, ?_⟩
    · intro offset hOffset
      refine ⟨_, hSeek hOffset, ?_⟩
      rw [hMoved, hLength, Nat.zero_add]
    · intro room buf hSize hRoom
      rw [hLength, Nat.zero_add] at hSize hRoom
      have hAtStart := (openedFile_ok.mp hOpened).imp_left fun hLookup =>
        OpenObjectTable.lookupOpenedObject_setPos_self hLookup 0
      obtain ⟨s', hWrite, hData⟩ := (hPlain.setPos fh 0).write_empty profile
        (openedFile_ok.mpr hAtStart) rfl hEmpty hSize hRoom
      exact ⟨_, s', hSeek (by decide), hWrite, by rw [hData, hEmpty, List.nil_append]⟩

/-- One file, open under the first handle. -/
def oneFile (data : List UInt8) (pos : Nat) : NamingService where
  root := ⟨[⟨[(['f'], .fileObject 0)]⟩], [⟨data, Stat.zeroed⟩]⟩
  openObjects := ⟨[(0, some ⟨.fileObject 0, pos, .CREATE⟩)],
    OpenObjectTable.new.freeHandles.set 0 1⟩
  cwd := ['/']

theorem oneFile_served (profile : BuildProfile) : Served profile (oneFile [] 0) :=
  .call .init (show init.serve profile (.openNamed ['/', 'f'] .CREATE) = _ from rfl)

theorem seek_end_of_new_file :
    (oneFile [] 0).SeeksToEnd .production 0 0 ∧ (oneFile [] 0).AppendsAtEnd .production 0 0 := by
  have hOpened : (oneFile [] 0).openedFile 0 = .ok (⟨.fileObject 0, 0, .CREATE⟩, 0) := rfl
  exact (seek_end_iff (oneFile_served .production) hOpened).mpr rfl

/-- With two bytes in the file, the end is taken to be at its start, and the
first of them is overwritten. -/
theorem seek_end_overwrites :
    Served .production (oneFile [1, 2] 2) ∧
      (oneFile [1, 2] 2).seek .production 0 0 .end = .ok (.ok 0, oneFile [1, 2] 0) ∧
      (oneFile [1, 2] 0).write .production 4096 0 [9] = .ok (.ok 1, oneFile [9, 2] 1) ∧
      ¬ (oneFile [1, 2] 2).SeeksToEnd .production 0 0 ∧
      ¬ (oneFile [1, 2] 2).AppendsAtEnd .production 0 0 := by
  have hServed : Served .production (oneFile [1, 2] 2) :=
    .call (oneFile_served .production)
      (show (oneFile [] 0).serve .production (.write 4096 0 [1, 2]) = _ from rfl)
  have hSeek : (oneFile [1, 2] 2).seek .production 0 0 .end =
      .ok (.ok 0, oneFile [1, 2] 0) := rfl
  have hWrite : (oneFile [1, 2] 0).write .production 4096 0 [9] =
      .ok (.ok 1, oneFile [9, 2] 1) := rfl
  refine ⟨hServed, hSeek, hWrite, ?_, ?_⟩
  · intro hEnd
    obtain ⟨s', hRun, hCursor⟩ := hEnd 0 (by decide)
    obtain ⟨-, rfl⟩ := Prod.mk.inj (Except.ok.inj (hSeek.symm.trans hRun))
    exact absurd hCursor (by decide)
  · intro hAppend
    obtain ⟨s', s'', hRun, hRun', hData⟩ := hAppend 4096 [9] (by decide) (by decide)
    obtain ⟨-, rfl⟩ := Prod.mk.inj (Except.ok.inj (hSeek.symm.trans hRun))
    obtain ⟨-, rfl⟩ := Prod.mk.inj (Except.ok.inj (hWrite.symm.trans hRun'))
    exact absurd hData (by decide)

end NamingService

end D3OS.Naming
