import D3OS.Naming.Stability
import Mathlib.Logic.Function.Basic

/-! The contents of files against a model of byte arrays. The position of a
handle is kept in the table of open objects, the data in the file that all
its handles share; the model has one byte array for each file and one cursor
for each handle. -/
namespace D3OS.Naming

open Outcome

/-- The bytes after a write of `buf` at `pos`; a gap before it is filled with
zeros. -/
def overlay (data : List UInt8) (pos : Nat) (buf : List UInt8) : List UInt8 :=
  (List.range (max data.length (pos + buf.length))).map fun i =>
    if pos ≤ i ∧ i < pos + buf.length then buf.getD (i - pos) 0 else data.getD i 0

/-- A byte array for each file; for each handle of a file, that file and a
position in it. -/
structure Reference where
  contents : Nat → List UInt8
  cursors : Nat → Option (Nat × Nat)

/-- A call on files with what it returned. -/
inductive FileEvent where
  /-- A call that opens no file. -/
  | quiet
  | opened (handle file : Nat)
  | written (handle : Nat) (buf : List UInt8) (result : SyscallResult)
  | received (handle : Nat) (buf : List UInt8) (result : SyscallResult) (after : List UInt8)
  | soughtStart (handle offset : Nat) (result : SyscallResult)
  | soughtCurrent (handle offset : Nat) (result : SyscallResult)

namespace Reference

def empty : Reference := ⟨fun _ => [], fun _ => none⟩

def moveCursor (r : Reference) (handle file pos : Nat) : Reference :=
  { r with cursors := Function.update r.cursors handle (some (file, pos)) }

/-- Only files have cursors. -/
def opens (r : Reference) (handle : Nat) : NamedObject → Reference
  | .fileObject file => r.moveCursor handle file 0
  | .directoryObject _ => r

def store (r : Reference) (file : Nat) (data : List UInt8) : Reference :=
  { r with contents := Function.update r.contents file data }

/-- What the model gives for a call through a handle: an error without a
cursor, and otherwise `answer` with the model after it. -/
def through (r : Reference) (handle : Nat) (result : SyscallResult)
    (answer : Nat → Nat → Option Reference) : Option Reference :=
  match r.cursors handle with
  | none => if result matches .error _ then some r else none
  | some (file, pos) => answer file pos

/-- The model after an event, if the event returned what the model gives. -/
def follow (r : Reference) : FileEvent → Option Reference
  | .quiet => some r
  | .opened handle file =>
    if r.cursors handle = none then some (r.moveCursor handle file 0) else none
  | .written handle buf result => r.through handle result fun file pos =>
    if result = .ok buf.length then
      some ((r.store file (overlay (r.contents file) pos buf)).moveCursor handle file
        (pos + buf.length))
    else none
  | .received handle buf result after => r.through handle result fun file pos =>
    let bytes := ((r.contents file).drop pos).take buf.length
    if result = .ok bytes.length ∧ after = bytes ++ buf.drop bytes.length then
      some (r.moveCursor handle file (pos + bytes.length))
    else none
  | .soughtStart handle offset result => r.through handle result fun file _ =>
    if result = .ok 0 then some (r.moveCursor handle file offset) else none
  | .soughtCurrent handle offset result => r.through handle result fun file pos =>
    if result = .ok 0 then some (r.moveCursor handle file (pos + offset)) else none

def followAll (r : Reference) : List FileEvent → Option Reference
  | [] => some r
  | event :: rest => (r.follow event).bind fun r => r.followAll rest

end Reference

namespace NamingService

/-- The file and the position of a handle. -/
def cursor (s : NamingService) (handle : Nat) : Option (Nat × Nat) :=
  match s.openedFile handle with
  | .ok (openedObject, file) => some (file, openedObject.pos)
  | .error _ => none

/-- Calls on files that keep positions, and the ends of what they write, below
`2^64`. The tree may grow in between; nothing is closed. -/
inductive FileStep (profile : BuildProfile) : NamingService → FileEvent → NamingService → Prop where
  | touch (s : NamingService) (path : Text) : FileStep profile s .quiet (s.touch path).2
  | mkdir (s : NamingService) (path : Text) : FileStep profile s .quiet (s.mkdir path).2
  | openFile {s s' : NamingService} {path : Text} {flags : OpenOptions} {handle file : Nat}
      (hOpen : s.openOrCreate path flags = (.ok handle, s'))
      (hFile : lookupNamedObject s'.root path = .ok (.fileObject file)) :
      FileStep profile s (.opened handle file) s'
  | openOther {s s' : NamingService} {path : Text} {flags : OpenOptions} {result : SyscallResult}
      (hOpen : s.openOrCreate path flags = (result, s'))
      (hOther : ∀ handle file, result = .ok handle →
        lookupNamedObject s'.root path ≠ .ok (.fileObject file)) :
      FileStep profile s .quiet s'
  | write {s s' : NamingService} {room handle : Nat} {buf : List UInt8} {result : SyscallResult}
      (hRange : ∀ file pos, s.cursor handle = some (file, pos) → pos + buf.length < 2 ^ 64)
      (hWrite : s.write profile room handle buf = .ok (result, s')) :
      FileStep profile s (.written handle buf result) s'
  | read {s s' : NamingService} {handle : Nat} {buf after : List UInt8} {result : SyscallResult}
      (hRead : s.read profile handle buf = .ok (result, after, s')) :
      FileStep profile s (.received handle buf result after) s'
  | seekStart {s s' : NamingService} {handle offset : Nat} {result : SyscallResult}
      (hRange : offset < 2 ^ 64)
      (hSeek : s.seek profile handle offset .start = .ok (result, s')) :
      FileStep profile s (.soughtStart handle offset result) s'
  | seekCurrent {s s' : NamingService} {handle offset : Nat} {result : SyscallResult}
      (hRange : ∀ file pos, s.cursor handle = some (file, pos) → pos + offset < 2 ^ 64)
      (hSeek : s.seek profile handle offset .current = .ok (result, s')) :
      FileStep profile s (.soughtCurrent handle offset result) s'

inductive FileRun (profile : BuildProfile) :
    NamingService → List FileEvent → NamingService → Prop where
  | nil (s : NamingService) : FileRun profile s [] s
  | cons {s s₁ s₂ : NamingService} {event : FileEvent} {rest : List FileEvent}
      (hStep : FileStep profile s event s₁) (hRest : FileRun profile s₁ rest s₂) :
      FileRun profile s (event :: rest) s₂

end NamingService

section Bytes

variable {data resized : List UInt8} {pos : Nat} {buf : List UInt8}

@[simp] theorem overlay_length (data : List UInt8) (pos : Nat) (buf : List UInt8) :
    (overlay data pos buf).length = max data.length (pos + buf.length) := by
  simp [overlay]

/-- Writing into a slice of a vector that was made long enough. -/
theorem overlay_eq_splice
    (hResized : resized = data ++ List.replicate (pos + buf.length - data.length) 0) :
    resized.take pos ++ buf ++ resized.drop (pos + buf.length) = overlay data pos buf := by
  have hLength : resized.length = max data.length (pos + buf.length) := by grind
  have hByte : ∀ i, i < max data.length (pos + buf.length) →
      resized[i]? = some (data.getD i 0) := by grind
  have hTake : (resized.take pos).length = pos := by
    rw [List.length_take, hLength]
    omega
  refine List.ext_getElem? fun i => ?_
  by_cases hMax : i < max data.length (pos + buf.length)
  · rw [overlay, List.getElem?_map, List.getElem?_range hMax, List.append_assoc]
    by_cases hBefore : i < pos
    · rw [List.getElem?_append_left (by omega), List.getElem?_take_of_lt hBefore, hByte i hMax]
      simp [Nat.not_le_of_lt hBefore]
    · grind
  · rw [List.getElem?_eq_none, List.getElem?_eq_none]
    · simpa using Nat.le_of_not_lt hMax
    · simp only [List.length_append, hTake, List.length_drop, hLength]
      omega

/-- A write returns where the new end of the file is in range and the heap
has room for it. -/
theorem File.write_spec (profile : BuildProfile) (room : Nat) (file : File)
    (hRange : pos + buf.length < 2 ^ 64) :
    Yields
      (file.data.length < pos + buf.length → pos + buf.length < 2 ^ 63 ∧ pos + buf.length ≤ room)
      (file.write profile room buf pos) fun answer =>
        answer.1 = buf.length ∧ answer.2.data = overlay file.data pos buf ∧
          (file.data.length < pos + buf.length →
            pos + buf.length < 2 ^ 63 ∧ pos + buf.length ≤ room) := by
  have hGrown : pos + buf.length ≤
      (file.data ++ List.replicate (pos + buf.length - file.data.length) 0).length := by grind
  unfold File.write
  rw [profile.word_of_lt hRange, bind_of_ok]
  by_cases hGrows : pos + buf.length > file.data.length
  · rw [if_pos hGrows]
    unfold resize
    split
    case isTrue hCapacity => exact .error fun hTotal => by have := (hTotal hGrows).1; omega
    case isFalse hCapacity =>
      split
      case isTrue hRoom => exact .error fun hTotal => by have := (hTotal hGrows).2; omega
      case isFalse hRoom =>
        rw [bind_of_ok]
        dsimp only
        rw [if_pos ⟨Nat.le_add_right _ _, hGrown⟩]
        exact .pure ⟨rfl, overlay_eq_splice rfl, fun _ => ⟨by omega, by omega⟩⟩
  · have hSame : file.data = file.data ++ List.replicate (pos + buf.length - file.data.length) 0 := by
      rw [show pos + buf.length - file.data.length = 0 by omega]
      simp
    rw [if_neg hGrows]
    rw [pure_bind]
    dsimp only
    rw [if_pos ⟨Nat.le_add_right _ _, by omega⟩]
    exact .pure ⟨rfl, overlay_eq_splice hSame, fun h => absurd h hGrows⟩

theorem File.read_eq (file : File) (buf : List UInt8) (pos : Nat) :
    file.read buf pos =
      let bytes := (file.data.drop pos).take buf.length
      (bytes.length, bytes ++ buf.drop bytes.length) := by
  unfold File.read
  simp only [List.length_take, List.length_drop]
  split
  case isTrue h =>
    rw [List.drop_eq_nil_of_le (by omega), show file.data.length - pos = 0 by omega]
    simp
  case isFalse h =>
    split
    case isTrue hShort =>
      rw [Nat.min_eq_right (by omega), List.take_of_length_le (by simp),
        List.take_of_length_le (by simp; omega)]
    case isFalse hLong => rw [Nat.min_eq_left (by omega)]

end Bytes

variable {table : OpenObjectTable} {handle file : Nat} {openedObject : OpenedObject} {fs : TmpFs}
  {path : Text}

namespace OpenObjectTable

theorem lookupOpenedObject_setPos_self (h : table.lookupOpenedObject handle = .ok openedObject)
    (pos : Nat) : (table.setPos handle pos).lookupOpenedObject handle =
      .ok { openedObject with pos := pos } := by
  unfold lookupOpenedObject setPos at *
  dsimp only
  rw [AssocList.find?_modify_self]
  · grind
  · exact fun _ => rfl

theorem lookupOpenedObject_setPos_of_ne (table : OpenObjectTable) {other : Nat} (pos : Nat)
    (hOther : other ≠ handle) :
    (table.setPos handle pos).lookupOpenedObject other = table.lookupOpenedObject other := by
  unfold lookupOpenedObject setPos
  dsimp only
  rw [AssocList.find?_modify_of_ne _ hOther]
  exact fun _ => rfl

/-- Every handle of the vector is marked. -/
def Marked (table : OpenObjectTable) : Prop :=
  ∀ handle ∈ table.openHandles.map Prod.fst, table.freeHandles[handle]? ≠ some 0

theorem Marked.setPos (h : table.Marked) (handle pos : Nat) : (table.setPos handle pos).Marked := by
  have hKeys : (table.setPos handle pos).openHandles.map Prod.fst =
      table.openHandles.map Prod.fst := by
    refine List.ext_getElem? fun i => ?_
    simp only [OpenObjectTable.setPos, List.getElem?_map, List.getElem?_modify]
    cases table.openHandles[i]? with
    | none => rfl
    | some entry =>
      simp only [Option.map_eq_map, Option.map_some]
      split <;> rfl
  intro key hKey
  rw [hKeys] at hKey
  exact h key hKey

/-- A handle that is not marked is given out, and marked. -/
theorem allocateHandle_ok {table' : OpenObjectTable}
    (h : table.allocateHandle openedObject = (.ok handle, table')) :
    table.freeHandles[handle]? = some 0 ∧
      table' = ⟨table.openHandles ++ [(handle, some openedObject)],
        table.freeHandles.set handle 1⟩ := by
  unfold allocateHandle findFreeHandle at h
  cases hFree : table.freeHandles.findIdx? (fun value => value == 0) with
  | none => simp [hFree] at h
  | some index =>
    simp only [hFree, Prod.mk.injEq, Except.ok.injEq] at h
    obtain ⟨rfl, rfl⟩ := h
    obtain ⟨hLt, hZero, -⟩ := List.findIdx?_eq_some_iff_getElem.mp hFree
    exact ⟨List.getElem?_eq_some_iff.mpr ⟨hLt, by simpa using hZero⟩, rfl⟩

theorem Marked.allocateHandle {table' : OpenObjectTable} (h : table.Marked)
    (hAllocate : table.allocateHandle openedObject = (.ok handle, table')) :
    table'.Marked ∧ table.lookupOpenedObject handle = .error .EINVALH ∧
      table'.lookupOpenedObject handle = .ok openedObject ∧
      ∀ other, other ≠ handle →
        table'.lookupOpenedObject other = table.lookupOpenedObject other := by
  obtain ⟨hZero, rfl⟩ := allocateHandle_ok hAllocate
  have hNew : handle ∉ table.openHandles.map Prod.fst := fun hMem => h handle hMem hZero
  have hNone := AssocList.find?_eq_none_iff.mpr hNew
  refine ⟨?_, ?_, ?_, ?_⟩
  · intro key hKey
    have hLt : handle < table.freeHandles.length := (List.getElem?_eq_some_iff.mp hZero).1
    rw [List.getElem?_set]
    by_cases hEq : handle = key
    · simp [hEq, hEq ▸ hLt]
    · rw [if_neg hEq]
      refine h key ?_
      simpa [Ne.symm hEq] using hKey
  · simp [lookupOpenedObject, hNone]
  · simp [lookupOpenedObject, List.find?_append, hNone]
  · intro other hOther
    have hNe : handle ≠ other := Ne.symm hOther
    simp [lookupOpenedObject, List.find?_append, hNe]

end OpenObjectTable

namespace TmpFs

theorem file_setFile (fs : TmpFs) (hFile : file < fs.files.length) (content : File) (other : Nat) :
    (fs.setFile file content).file other =
      if other = file then content else fs.file other := by
  simp only [setFile, TmpFs.file, List.getD_eq_getElem?_getD, List.getElem?_set]
  by_cases hOther : other = file
  · simp [hOther, hFile]
  · simp [hOther, Ne.symm hOther]

theorem Sound.setFile (h : fs.Sound) (file : Nat) (content : File) :
    (fs.setFile file content).Sound := by
  refine ⟨h.root, h.distinct, ?_⟩
  intro dir entry hEntry
  have hKnown := h.known dir entry hEntry
  rcases entry with ⟨name, object⟩
  cases object <;> simpa [TmpFs.Known, TmpFs.setFile] using hKnown

/-- Creating an object leaves the contents of all files as they are. -/
theorem create_files {fs' : TmpFs} {kind : ObjectKind} {dir : Nat} {name : Text}
    {object : NamedObject} (hCreate : fs.create kind dir name = .ok (object, fs')) :
    fs.files.length ≤ fs'.files.length ∧ ∀ file, fs'.file file = fs.file file := by
  unfold TmpFs.create at hCreate
  obtain ⟨-, hCreate⟩ := ite_error_ok hCreate
  obtain ⟨-, rfl⟩ := Prod.mk.inj (Except.ok.inj hCreate)
  cases kind with
  | directory => exact ⟨Nat.le_refl _, fun _ => rfl⟩
  | file =>
    refine ⟨by simp [TmpFs.push, TmpFs.add], fun file => ?_⟩
    simp only [TmpFs.push, TmpFs.add, TmpFs.file, List.getD_eq_getElem?_getD,
      List.getElem?_append]
    split
    · rfl
    · grind

end TmpFs

theorem createNamedObject_files (kind : ObjectKind) (fs : TmpFs) (path : Text) :
    fs.files.length ≤ (createNamedObject (TmpFs.create kind) fs path).2.files.length ∧
      ∀ file, (createNamedObject (TmpFs.create kind) fs path).2.file file = fs.file file := by
  unfold createNamedObject
  dsimp only
  split
  case h_1 object fs' hResult =>
    obtain ⟨dir, -, hResult⟩ := bind_ok hResult
    split at hResult
    · cases hResult
    · exact TmpFs.create_files hResult
  case h_2 => exact ⟨Nat.le_refl _, fun _ => rfl⟩

theorem lookupNamedObject_file_lt (h : fs.Sound)
    (hLookup : lookupNamedObject fs path = .ok (.fileObject file)) : file < fs.files.length := by
  unfold lookupNamedObject at hLookup
  obtain ⟨-, hLookup⟩ := ite_ok hLookup
  split at hLookup
  case isTrue => cases hLookup
  case isFalse => exact lookupComponents_known h hLookup

namespace NamingService

/-- What the state means in the model. -/
def reference (s : NamingService) : Reference :=
  ⟨fun file => (s.root.file file).data, s.cursor⟩

structure FilesSound (s : NamingService) : Prop where
  sound : s.root.Sound
  marked : s.openObjects.Marked
  cursors : ∀ handle file pos, s.cursor handle = some (file, pos) →
    file < s.root.files.length ∧ pos < 2 ^ 64
  sizes : ∀ file, (s.root.file file).data.length < 2 ^ 63

variable {s s' : NamingService} {pos : Nat} {profile : BuildProfile} {buf : List UInt8}
  {result : SyscallResult}

theorem openedFile_ok :
    s.openedFile handle = .ok (openedObject, file) ↔
      s.openObjects.lookupOpenedObject handle = .ok openedObject ∧
        openedObject.namedObject = .fileObject file := by
  unfold openedFile
  cases s.openObjects.lookupOpenedObject handle with
  | error e => simp
  | ok found =>
    rcases found with ⟨object, pos, options⟩
    cases object with
    | fileObject other =>
      simp only [bind_of_ok, NamedObject.asFile, pure_ok_iff, Prod.mk.injEq,
        Except.ok.injEq]
      constructor
      · rintro ⟨rfl, rfl⟩
        exact ⟨rfl, rfl⟩
      · rintro ⟨rfl, hFile⟩
        exact ⟨rfl, NamedObject.fileObject.inj hFile⟩
    | directoryObject dir =>
      simp only [bind_of_ok, NamedObject.asFile, bind_of_error, reduceCtorEq,
        Except.ok.injEq, false_iff, not_and]
      rintro rfl
      simp

theorem cursor_eq_some_iff :
    s.cursor handle = some (file, pos) ↔ ∃ openedObject,
      s.openedFile handle = .ok (openedObject, file) ∧ openedObject.pos = pos := by
  unfold cursor
  cases s.openedFile handle with
  | error e => simp
  | ok found => grind

theorem cursor_congr
    (h : s'.openObjects.lookupOpenedObject handle = s.openObjects.lookupOpenedObject handle) :
    s'.cursor handle = s.cursor handle := by
  unfold cursor openedFile
  rw [h]

theorem cursor_setPos (hOpened : s.openedFile handle = .ok (openedObject, file))
    (hTable : s'.openObjects = s.openObjects.setPos handle pos) :
    s'.cursor = Function.update s.cursor handle (some (file, pos)) := by
  obtain ⟨hLookup, hObject⟩ := openedFile_ok.mp hOpened
  funext other
  by_cases hOther : other = handle
  · subst hOther
    rw [Function.update_self]
    refine cursor_eq_some_iff.mpr ⟨{ openedObject with pos := pos }, openedFile_ok.mpr ⟨?_, hObject⟩, rfl⟩
    rw [hTable]
    exact OpenObjectTable.lookupOpenedObject_setPos_self hLookup pos
  · rw [Function.update_of_ne hOther]
    refine cursor_congr ?_
    rw [hTable]
    exact OpenObjectTable.lookupOpenedObject_setPos_of_ne _ pos hOther

theorem cursor_of_ok (hOpened : s.openedFile handle = .ok (openedObject, file)) :
    s.cursor handle = some (file, openedObject.pos) :=
  cursor_eq_some_iff.mpr ⟨openedObject, hOpened, rfl⟩

/-- Without a cursor a call fails and changes nothing, as in the model. -/
theorem through_error {e : Errno} (hOpened : s.openedFile handle = .error e)
    (answer : Nat → Nat → Option Reference) :
    s.reference.through handle (.error e) answer = some s.reference := by
  have hCursor : s.reference.cursors handle = none := by
    change s.cursor handle = none
    rw [cursor, hOpened]
  rw [Reference.through, hCursor]
  rfl

theorem through_ok (hOpened : s.openedFile handle = .ok (openedObject, file))
    (result : SyscallResult) (answer : Nat → Nat → Option Reference) :
    s.reference.through handle result answer = answer file openedObject.pos := by
  have hCursor : s.reference.cursors handle = some (file, openedObject.pos) :=
    cursor_of_ok hOpened
  unfold Reference.through
  simp only [hCursor]

section

variable (h : s.FilesSound)

include h

/-- Moving the cursor of one handle. -/
theorem FilesSound.move (hOpened : s.openedFile handle = .ok (openedObject, file))
    (hPos : pos < 2 ^ 64) :
    FilesSound { s with openObjects := s.openObjects.setPos handle pos } ∧
      reference { s with openObjects := s.openObjects.setPos handle pos } =
        s.reference.moveCursor handle file pos := by
  have hCursor : cursor { s with openObjects := s.openObjects.setPos handle pos } =
      Function.update s.cursor handle (some (file, pos)) := cursor_setPos hOpened rfl
  refine ⟨⟨h.sound, h.marked.setPos handle pos, ?_, h.sizes⟩, ?_⟩
  · intro other file' pos' hOther
    rw [hCursor] at hOther
    by_cases hEq : other = handle
    · subst hEq
      rw [Function.update_self] at hOther
      obtain ⟨rfl, rfl⟩ := Prod.mk.inj (Option.some.inj hOther)
      exact ⟨(h.cursors _ _ _ (cursor_of_ok hOpened)).1, hPos⟩
    · rw [Function.update_of_ne hEq] at hOther
      exact h.cursors other file' pos' hOther
  · simp only [reference, Reference.moveCursor, hCursor]

/-- Replacing the contents of a file that has a handle. -/
theorem FilesSound.store {content : File} (hFile : file < s.root.files.length)
    (hSize : content.data.length < 2 ^ 63) :
    FilesSound { s with root := s.root.setFile file content } ∧
      reference { s with root := s.root.setFile file content } =
        s.reference.store file content.data := by
  refine ⟨⟨h.sound.setFile file content, h.marked, ?_, ?_⟩, ?_⟩
  · intro handle other pos hCursor
    obtain ⟨hLt, hPos⟩ := h.cursors handle other pos hCursor
    exact ⟨by simpa [TmpFs.setFile] using hLt, hPos⟩
  · intro other
    rw [s.root.file_setFile hFile]
    split
    · exact hSize
    · exact h.sizes other
  · simp only [reference, Reference.store]
    congr 1
    funext other
    rw [s.root.file_setFile hFile]
    by_cases hOther : other = file
    · subst hOther
      simp
    · simp [hOther]

theorem FilesSound.write {room : Nat}
    (hRange : ∀ file pos, s.cursor handle = some (file, pos) → pos + buf.length < 2 ^ 64)
    (hWrite : s.write profile room handle buf = .ok (result, s')) :
    s.reference.follow (.written handle buf result) = some s'.reference ∧ s'.FilesSound := by
  unfold NamingService.write at hWrite
  cases hOpened : s.openedFile handle with
  | error e =>
    simp only [hOpened, Except.ok.injEq, Prod.mk.injEq] at hWrite
    obtain ⟨rfl, rfl⟩ := hWrite
    exact ⟨through_error hOpened _, h⟩
  | ok found =>
    rcases found with ⟨openedObject, file⟩
    simp only [hOpened] at hWrite
    obtain ⟨⟨count, content⟩, hContent, hWrite⟩ := bind_ok hWrite
    obtain ⟨pos, hPos, hWrite⟩ := bind_ok hWrite
    obtain ⟨rfl, rfl⟩ := Prod.mk.inj (pure_ok hWrite)
    have hEnd := hRange file openedObject.pos (cursor_of_ok hOpened)
    have hFile := (h.cursors _ _ _ (cursor_of_ok hOpened)).1
    obtain ⟨rfl, hData, hGrown⟩ := (File.write_spec profile room _ hEnd).of_ok hContent
    dsimp only at hPos hData hGrown
    rw [profile.word_of_lt hEnd] at hPos
    obtain rfl := Except.ok.inj hPos
    have hSize : content.data.length < 2 ^ 63 := by
      rw [hData, overlay_length]
      have hOld := h.sizes file
      omega
    obtain ⟨hStored, hStore⟩ := h.store hFile hSize
    obtain ⟨hMoved, hMove⟩ := hStored.move hOpened hEnd
    refine ⟨?_, hMoved⟩
    rw [Reference.follow, through_ok hOpened, if_pos rfl, hMove, hStore, hData]
    rfl

/-- A read ends within the file, or stays where it was. -/
theorem FilesSound.read_end (hOpened : s.openedFile handle = .ok (openedObject, file))
    (buf : List UInt8) :
    openedObject.pos +
      (((s.root.file file).data.drop openedObject.pos).take buf.length).length < 2 ^ 64 := by
  have hPos := (h.cursors _ _ _ (cursor_of_ok hOpened)).2
  have hSize := h.sizes file
  rw [List.length_take, List.length_drop]
  omega

theorem FilesSound.read {after : List UInt8}
    (hRead : s.read profile handle buf = .ok (result, after, s')) :
    s.reference.follow (.received handle buf result after) = some s'.reference ∧
      s'.FilesSound := by
  unfold NamingService.read at hRead
  cases hOpened : s.openedFile handle with
  | error e =>
    simp only [hOpened, Except.ok.injEq, Prod.mk.injEq] at hRead
    obtain ⟨rfl, rfl, rfl⟩ := hRead
    exact ⟨through_error hOpened _, h⟩
  | ok found =>
    rcases found with ⟨openedObject, file⟩
    have hEnd := h.read_end hOpened buf
    simp only [hOpened, File.read_eq, profile.word_of_lt hEnd, bind_of_ok,
      pure_ok_iff, Prod.mk.injEq] at hRead
    obtain ⟨rfl, rfl, rfl⟩ := hRead
    obtain ⟨hMoved, hMove⟩ := h.move hOpened hEnd
    refine ⟨?_, hMoved⟩
    rw [Reference.follow, through_ok hOpened, hMove]
    exact if_pos ⟨rfl, rfl⟩

/-- A seek through a handle of a file stores the new position. -/
theorem FilesSound.seek {offset : Nat} {origin : SeekOrigin}
    (hSeek : s.seek profile handle offset origin = .ok (result, s'))
    (hOrigin : origin = .start ∧ offset < 2 ^ 64 ∨ origin = .current ∧
      ∀ file pos, s.cursor handle = some (file, pos) → pos + offset < 2 ^ 64) :
    s'.FilesSound ∧ ((∃ e, s.openedFile handle = .error e ∧ result = .error e ∧ s' = s) ∨
      ∃ openedObject file, s.openedFile handle = .ok (openedObject, file) ∧ result = .ok 0 ∧
        s'.reference = s.reference.moveCursor handle file
          (if origin = .start then offset else openedObject.pos + offset)) := by
  unfold NamingService.seek at hSeek
  cases hOpened : s.openedFile handle with
  | error e => grind
  | ok found =>
    rcases found with ⟨openedObject, file⟩
    simp only [hOpened] at hSeek
    rcases hOrigin with ⟨rfl, hOffset⟩ | ⟨rfl, hOffset⟩
    · simp only [pure_bind, pure_ok_iff, Prod.mk.injEq] at hSeek
      obtain ⟨rfl, rfl⟩ := hSeek
      obtain ⟨hMoved, hMove⟩ := h.move hOpened hOffset
      exact ⟨hMoved, .inr ⟨openedObject, file, rfl, rfl, hMove⟩⟩
    · have hEnd := hOffset file openedObject.pos (cursor_of_ok hOpened)
      simp only [profile.word_of_lt hEnd, bind_of_ok, pure_ok_iff,
        Prod.mk.injEq] at hSeek
      obtain ⟨rfl, rfl⟩ := hSeek
      obtain ⟨hMoved, hMove⟩ := h.move hOpened hEnd
      exact ⟨hMoved, .inr ⟨openedObject, file, rfl, rfl, hMove⟩⟩

/-- A tree that grew: no file and no cursor changes. -/
theorem FilesSound.grow (hSound : fs.Sound) (hLength : s.root.files.length ≤ fs.files.length)
    (hFiles : ∀ file, fs.file file = s.root.file file) :
    FilesSound { s with root := fs } ∧ reference { s with root := fs } = s.reference := by
  refine ⟨⟨hSound, h.marked, ?_, ?_⟩, ?_⟩
  · intro handle file pos hCursor
    obtain ⟨hLt, hPos⟩ := h.cursors handle file pos hCursor
    exact ⟨Nat.lt_of_lt_of_le hLt hLength, hPos⟩
  · intro file
    rw [hFiles]
    exact h.sizes file
  · simp only [reference, hFiles]
    rfl

theorem FilesSound.create (kind : ObjectKind) (path : Text) :
    let fs := (createNamedObject (TmpFs.create kind) s.root path).2
    FilesSound { s with root := fs } ∧ reference { s with root := fs } = s.reference :=
  h.grow (createNamedObject_sound h.sound kind path).1 (createNamedObject_files kind _ path).1
    (createNamedObject_files kind _ path).2

/-- A new handle: the object is known by it, and a file is read from its start. -/
theorem FilesSound.allocate {found : NamedObject} {flags : OpenOptions}
    (hFound : lookupNamedObject s.root path = .ok found)
    (hAllocate : s.openObjects.allocateHandle ⟨found, 0, flags⟩ = (.ok handle, table)) :
    FilesSound { s with openObjects := table } ∧ s.reference.cursors handle = none ∧
      reference { s with openObjects := table } = s.reference.opens handle found := by
  obtain ⟨hMarked, hClosed, hOpened, hOthers⟩ := h.marked.allocateHandle hAllocate
  have hNone : s.cursor handle = none := by
    unfold cursor openedFile
    rw [hClosed]
    rfl
  have hOther : ∀ other, other ≠ handle →
      cursor { s with openObjects := table } other = s.cursor other :=
    fun other hNe => cursor_congr (hOthers other hNe)
  cases found with
  | fileObject file =>
    have hCursor : cursor { s with openObjects := table } =
        Function.update s.cursor handle (some (file, 0)) := by
      funext other
      by_cases hEq : other = handle
      · subst hEq
        rw [Function.update_self]
        exact cursor_eq_some_iff.mpr ⟨_, openedFile_ok.mpr ⟨hOpened, rfl⟩, rfl⟩
      · rw [Function.update_of_ne hEq, hOther other hEq]
    refine ⟨⟨h.sound, hMarked, ?_, h.sizes⟩, hNone, ?_⟩
    · intro other file' pos hSome
      rw [hCursor] at hSome
      by_cases hEq : other = handle
      · subst hEq
        rw [Function.update_self] at hSome
        obtain ⟨rfl, rfl⟩ := Prod.mk.inj (Option.some.inj hSome)
        exact ⟨lookupNamedObject_file_lt h.sound hFound, by decide⟩
      · rw [Function.update_of_ne hEq] at hSome
        exact h.cursors other file' pos hSome
    · simp only [reference, Reference.opens, Reference.moveCursor, hCursor]
  | directoryObject dir =>
    have hCursor : cursor { s with openObjects := table } = s.cursor := by
      funext other
      by_cases hEq : other = handle
      · subst hEq
        rw [hNone]
        unfold cursor openedFile
        rw [hOpened]
        rfl
      · exact hOther other hEq
    refine ⟨⟨h.sound, hMarked, ?_, h.sizes⟩, hNone, ?_⟩
    · rw [hCursor]
      exact h.cursors
    · simp only [reference, Reference.opens, hCursor]

/-- Opening through `api::open`, with the file created or not. -/
theorem FilesSound.openOrCreate {flags : OpenOptions}
    (hOpen : s.openOrCreate path flags = (result, s')) :
    s'.FilesSound ∧ ((∃ e, result = .error e ∧ s'.reference = s.reference) ∨
      ∃ found handle, result = .ok handle ∧ lookupNamedObject s'.root path = .ok found ∧
        s.reference.cursors handle = none ∧
        s'.reference = s.reference.opens handle found) := by
  obtain ⟨fs, hFs, hRun⟩ := s.openOrCreate_cases path flags
  obtain ⟨hSound, hSame⟩ : FilesSound { s with root := fs } ∧
      reference { s with root := fs } = s.reference := by
    rcases hFs with rfl | rfl
    · exact ⟨h, rfl⟩
    · exact h.create .file path
  rcases hRun with ⟨e, hRun⟩ | ⟨found, handle, table, hFound, hAllocate, hRun⟩
  · obtain ⟨rfl, rfl⟩ := Prod.mk.inj (hRun.symm.trans hOpen)
    exact ⟨hSound, .inl ⟨e, rfl, hSame⟩⟩
  · obtain ⟨rfl, rfl⟩ := Prod.mk.inj (hRun.symm.trans hOpen)
    obtain ⟨hSound', hNone, hReference⟩ := hSound.allocate hFound hAllocate
    rw [hSame] at hNone hReference
    exact ⟨hSound', .inr ⟨found, handle, rfl, hFound, hNone, hReference⟩⟩

end

/-- Each call is a step of the model, with the same results. -/
theorem FilesSound.step {s s' : NamingService} {profile : BuildProfile} {event : FileEvent}
    (h : s.FilesSound) (hStep : FileStep profile s event s') :
    s.reference.follow event = some s'.reference ∧ s'.FilesSound := by
  cases hStep with
  | touch path =>
    obtain ⟨hSound, hSame⟩ := h.create .file path
    exact ⟨congrArg some hSame.symm, hSound⟩
  | mkdir path =>
    obtain ⟨hSound, hSame⟩ := h.create .directory path
    exact ⟨congrArg some hSame.symm, hSound⟩
  | openFile hOpen hFile =>
    obtain ⟨hSound, ⟨e, hError, -⟩ | ⟨found, handle, hOk, hFound, hNone, hReference⟩⟩ :=
      h.openOrCreate hOpen
    · cases hError
    · obtain rfl := Except.ok.inj hOk
      obtain rfl := Except.ok.inj (hFound.symm.trans hFile)
      exact ⟨by rw [Reference.follow, if_pos hNone, hReference, Reference.opens], hSound⟩
  | openOther hOpen hOther =>
    obtain ⟨hSound, ⟨e, -, hSame⟩ | ⟨found, handle, hOk, hFound, -, hReference⟩⟩ :=
      h.openOrCreate hOpen
    · exact ⟨congrArg some hSame.symm, hSound⟩
    · cases found with
      | fileObject file => exact absurd hFound (hOther handle file hOk)
      | directoryObject dir => exact ⟨congrArg some hReference.symm, hSound⟩
  | write hRange hWrite => exact h.write hRange hWrite
  | read hRead => exact h.read hRead
  | seekStart hRange hSeek =>
    obtain ⟨hSound, ⟨e, hOpened, rfl, rfl⟩ | ⟨openedObject, file, hOpened, rfl, hMove⟩⟩ :=
      h.seek hSeek (.inl ⟨rfl, hRange⟩)
    · exact ⟨through_error hOpened _, hSound⟩
    · exact ⟨by rw [Reference.follow, through_ok hOpened, hMove]; rfl, hSound⟩
  | seekCurrent hRange hSeek =>
    obtain ⟨hSound, ⟨e, hOpened, rfl, rfl⟩ | ⟨openedObject, file, hOpened, rfl, hMove⟩⟩ :=
      h.seek hSeek (.inr ⟨rfl, hRange⟩)
    · exact ⟨through_error hOpened _, hSound⟩
    · exact ⟨by rw [Reference.follow, through_ok hOpened, hMove]; rfl, hSound⟩

theorem FilesSound.run {s s' : NamingService} {profile : BuildProfile} {events : List FileEvent}
    (h : s.FilesSound) (hRun : FileRun profile s events s') :
    s.reference.followAll events = some s'.reference ∧ s'.FilesSound := by
  induction hRun with
  | nil s => exact ⟨rfl, h⟩
  | cons hStep _ ih =>
    obtain ⟨hFollow, hNext⟩ := h.step hStep
    obtain ⟨hRest, hLast⟩ := ih hNext
    refine ⟨?_, hLast⟩
    rw [Reference.followAll, hFollow]
    exact hRest

theorem init_filesSound : init.FilesSound where
  sound := TmpFs.new_sound
  marked := by simp [OpenObjectTable.Marked, init, OpenObjectTable.new]
  cursors := by simp [cursor, openedFile, init, OpenObjectTable.new, OpenObjectTable.lookupOpenedObject]
  sizes := by simp [init, TmpFs.new, TmpFs.file, File.new]

theorem FilesSound.read_returns (h : s.FilesSound) (profile : BuildProfile) (handle : Nat)
    (buf : List UInt8) : ∃ answer, s.read profile handle buf = .ok answer := by
  unfold NamingService.read
  cases hOpened : s.openedFile handle with
  | error e => exact ⟨_, rfl⟩
  | ok found =>
    rcases found with ⟨openedObject, file⟩
    simp only [File.read_eq, profile.word_of_lt (h.read_end hOpened buf), bind_of_ok]
    exact ⟨_, rfl⟩

/-- A write returns where the file stays below the greatest length of a
vector and the heap has room for it. -/
theorem write_returns (s : NamingService) (profile : BuildProfile) {room : Nat}
    (hRoom : ∀ file pos, s.cursor handle = some (file, pos) →
      pos + buf.length < 2 ^ 63 ∧ pos + buf.length ≤ room) :
    ∃ answer, s.write profile room handle buf = .ok answer := by
  unfold NamingService.write
  cases hOpened : s.openedFile handle with
  | error e => exact ⟨_, rfl⟩
  | ok found =>
    rcases found with ⟨openedObject, file⟩
    obtain ⟨hCapacity, hHeap⟩ := hRoom file openedObject.pos (cursor_of_ok hOpened)
    have hEnd : openedObject.pos + buf.length < 2 ^ 64 := by omega
    obtain ⟨⟨count, content⟩, hContent, rfl, -⟩ :=
      (File.write_spec profile room (s.root.file file) hEnd).exists_ok fun _ => ⟨hCapacity, hHeap⟩
    simp only [hContent, bind_of_ok, profile.word_of_lt hEnd]
    exact ⟨_, rfl⟩

/-- In every run, each call returns what the model of byte arrays gives, and
the state is that of the model. Reads return, and so do writes for which
there is memory. -/
theorem contents_follow_reference {profile : BuildProfile} {events : List FileEvent}
    {s : NamingService} (hRun : FileRun profile init events s) :
    Reference.empty.followAll events = some s.reference ∧
      (∀ handle buf, ∃ answer, s.read profile handle buf = .ok answer) ∧
      ∀ room handle buf, (∀ file pos, s.cursor handle = some (file, pos) →
          pos + buf.length < 2 ^ 63 ∧ pos + buf.length ≤ room) →
        ∃ answer, s.write profile room handle buf = .ok answer := by
  have hInit : init.reference = Reference.empty := by
    simp only [reference, Reference.empty]
    congr 1
  obtain ⟨hFollow, hSound⟩ := init_filesSound.run hRun
  rw [hInit] at hFollow
  exact ⟨hFollow, hSound.read_returns profile, fun _ _ _ hRoom => s.write_returns profile hRoom⟩

/-- Two handles of one file: what is written through the first is read
through the second. -/
theorem contents_follow_reference_shared : ∃ events s, FileRun .production init events s ∧
    events.getLast? = some (.received 1 [9, 9, 9] (.ok 2) [7, 8, 9]) ∧
    Reference.empty.followAll events = some s.reference := by
  let path : Text := ['/', 'f']
  let marks := OpenObjectTable.new.freeHandles
  let fs (data : List UInt8) : TmpFs := ⟨[⟨[(['f'], .fileObject 0)]⟩], [⟨data, Stat.zeroed⟩]⟩
  let one : NamingService :=
    ⟨fs [], ⟨[(0, some ⟨.fileObject 0, 0, .CREATE⟩)], marks.set 0 1⟩, ['/']⟩
  let two (data : List UInt8) (first second : Nat) : NamingService :=
    ⟨fs data, ⟨[(0, some ⟨.fileObject 0, first, .CREATE⟩),
      (1, some ⟨.fileObject 0, second, .CREATE⟩)], (marks.set 0 1).set 1 1⟩, ['/']⟩
  have hOne : init.openOrCreate path .CREATE = (.ok 0, one) := rfl
  have hTwo : one.openOrCreate path .CREATE = (.ok 1, two [] 0 0) := rfl
  have hWrite : (two [] 0 0).write .production 4096 0 [7, 8] = .ok (.ok 2, two [7, 8] 2 0) := rfl
  have hRead : (two [7, 8] 2 0).read .production 1 [9, 9, 9] =
      .ok (.ok 2, [7, 8, 9], two [7, 8] 2 2) := rfl
  have hRange : ∀ file pos, (two [] 0 0).cursor 0 = some (file, pos) → pos + 2 < 2 ^ 64 := by
    intro file pos hCursor
    obtain ⟨-, rfl⟩ : 0 = file ∧ 0 = pos := Prod.mk.inj (Option.some.inj hCursor)
    decide
  have hOpenOne : FileStep .production init (.opened 0 0) one := .openFile hOne rfl
  have hOpenTwo : FileStep .production one (.opened 1 0) (two [] 0 0) := .openFile hTwo rfl
  have hRun := FileRun.cons hOpenOne (.cons hOpenTwo (.cons (.write hRange hWrite)
    (.cons (.read hRead) (.nil _))))
  exact ⟨_, _, hRun, rfl, (contents_follow_reference hRun).1⟩

end NamingService

end D3OS.Naming
