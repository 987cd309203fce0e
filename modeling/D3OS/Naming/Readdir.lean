import D3OS.Library.Utf8
import D3OS.Naming.Contents

/-! Reading a directory entry by entry. The position of the next entry is kept
with the handle and moves on with every call; an entry reaches the user
through a record with a name of 256 bytes. -/
namespace D3OS.Naming

open Outcome

inductive FileType where
  | directory
  | regular
  | link
  deriving DecidableEq, Repr

/-- `file_type as usize`. -/
def FileType.code : FileType → Nat
  | .directory => 4
  | .regular => 8
  | .link => 10

/-- Other numbers are not supported. -/
def FileType.fromCode : Nat → Option FileType
  | 4 => some .directory
  | 8 => some .regular
  | 10 => some .link
  | _ => none

structure DirEntry where
  fileType : FileType
  name : Text
  deriving DecidableEq, Repr

def NamedObject.fileType : NamedObject → FileType
  | .fileObject _ => .regular
  | .directoryObject _ => .directory

/-- The entries in the order in which they were created. -/
def Dir.entries (self : Dir) : List DirEntry :=
  self.files.map fun entry => ⟨entry.2.fileType, entry.1⟩

def Dir.readdir (self : Dir) (index : Nat) : Option DirEntry :=
  match self.files[index]? with
  | some (name, inode) => some ⟨inode.fileType, name⟩
  | none => none

structure RawDirent where
  dType : Nat
  dName : List UInt8
  size_eq : dName.length = 256
  deriving DecidableEq, Repr

def RawDirent.new : RawDirent := ⟨0, List.replicate 256 0, List.length_replicate⟩

/-- The record that `api::readdir` fills. -/
def RawDirent.ofEntry (entry : DirEntry) : RawDirent where
  dType := entry.fileType.code
  dName :=
    let nameBytes := Utf8.encode entry.name
    let len := min nameBytes.length 255
    nameBytes.take len ++ List.replicate (256 - len) 0
  size_eq := by
    simp only [List.length_append, List.length_take, List.length_replicate]
    omega

def DirEntry.fromDirent (dirent : RawDirent) : Option DirEntry := do
  let fileType ← FileType.fromCode dirent.dType
  let name := Utf8.latin1 (dirent.dName.takeWhile fun c => c != 0)
  if name.isEmpty then none else some ⟨fileType, name⟩

namespace NamingService

/-- `lookup_opened_object` and then `as_dir`. -/
def openedDir (self : NamingService) (fh : Nat) : Except Errno (OpenedObject × Nat) := do
  let openedObject ← self.openObjects.lookupOpenedObject fh
  let dir ← openedObject.namedObject.asDir
  return (openedObject, dir)

/-- `open_objects::readdir`. -/
def readdirObject (profile : BuildProfile) (self : NamingService) (fh : Nat) :
    Except Panic (Except Errno (Option DirEntry) × NamingService) :=
  match self.openedDir fh with
  | .error e => .ok (.error e, self)
  | .ok (openedObject, dir) => do
    let pos := openedObject.pos
    let dirEntry := (self.root.dir dir).readdir pos
    let pos ← profile.word (pos + 1)
    return (.ok dirEntry, { self with openObjects := self.openObjects.setPos fh pos })

/-- `api::readdir`. The record behind the pointer is returned with the result. -/
def readdir (profile : BuildProfile) (self : NamingService) (dirHandle : Nat)
    (dentry : Option RawDirent) :
    Except Panic (SyscallResult × Option RawDirent × NamingService) := do
  let (res, self) ← self.readdirObject profile dirHandle
  match res, dentry with
  | .error e, _ => return (.error e, dentry, self)
  | .ok none, _ => return (.ok 0, dentry, self)
  | .ok (some entry), some _ => return (.ok 1, some (.ofEntry entry), self)
  | .ok (some _), none => return (.error .EUNKN, none, self)

/-- `naming::readdir` of the user library. -/
def userReaddir (profile : BuildProfile) (self : NamingService) (fh : Nat) :
    Except Panic (Except Errno (Option DirEntry) × NamingService) := do
  let (ret, rawDirent, self) ← self.readdir profile fh (some .new)
  match ret with
  | .error e => return (.error e, self)
  | .ok 0 => return (.ok none, self)
  | .ok _ => return (.ok (rawDirent.bind DirEntry.fromDirent), self)

end NamingService

theorem Dir.readdir_eq (dir : Dir) (index : Nat) : dir.readdir index = dir.entries[index]? := by
  rw [Dir.readdir, Dir.entries, List.getElem?_map]
  cases dir.files[index]? <;> rfl

theorem Dir.entries_push (dir : Dir) (name : Text) (inode : NamedObject) :
    (dir.push name inode).entries = dir.entries ++ [⟨inode.fileType, name⟩] := by
  rw [Dir.entries, Dir.push, List.map_append]
  rfl

/-- What is read up to the end of the name. -/
theorem takeWhile_padded {bytes : List UInt8} (h : ∀ byte ∈ bytes, byte ≠ 0) (n : Nat) :
    (bytes ++ List.replicate n 0).takeWhile (fun c => c != 0) = bytes := by
  rw [List.takeWhile_append_of_pos (by simpa using h)]
  cases n <;> simp [List.replicate_succ]

theorem FileType.fromCode_code (fileType : FileType) : fromCode fileType.code = some fileType := by
  cases fileType <;> rfl

theorem ofEntry_name {entry : DirEntry} (hNul : ∀ c ∈ entry.name, c.toNat ≠ 0) :
    (RawDirent.ofEntry entry).dName.takeWhile (fun c => c != 0) =
      (Utf8.encode entry.name).take 255 := by
  have hBytes : ∀ byte ∈ (Utf8.encode entry.name).take (min (Utf8.encode entry.name).length 255),
      byte ≠ 0 := by
    intro byte hMem
    obtain ⟨c, hChar, hByte⟩ := List.mem_flatMap.mp (List.mem_of_mem_take hMem)
    exact Utf8.encodeChar_ne_zero (hNul c hChar) byte hByte
  have hTake : (Utf8.encode entry.name).take (min (Utf8.encode entry.name).length 255) =
      (Utf8.encode entry.name).take 255 := by
    rw [Nat.min_comm, ← List.take_eq_take_min]
  rw [RawDirent.ofEntry]
  dsimp only
  rw [takeWhile_padded hBytes, hTake]

/-- An entry comes back from its record exactly if it has a name, and the name
is ASCII of at most 255 characters or, up to that length, ASCII and then the
start of the word that is its own encoding. -/
theorem dirent_round_trip_iff {entry : DirEntry} (hNul : ∀ c ∈ entry.name, c.toNat ≠ 0) :
    DirEntry.fromDirent (.ofEntry entry) = some entry ↔
      entry.name ≠ [] ∧ Utf8.Echoes 255 entry.name := by
  have hDecoded : DirEntry.fromDirent (.ofEntry entry) =
      if (Utf8.latin1 ((Utf8.encode entry.name).take 255)).isEmpty then none
      else some ⟨entry.fileType, Utf8.latin1 ((Utf8.encode entry.name).take 255)⟩ := by
    rw [← ofEntry_name hNul, DirEntry.fromDirent, show (RawDirent.ofEntry entry).dType =
      entry.fileType.code from rfl, FileType.fromCode_code]
    rfl
  rw [hDecoded, ← Utf8.latin1_take_eq_self_iff]
  constructor
  · grind
  · rintro ⟨hSome, hName⟩
    rw [hName, if_neg (by simpa using hSome)]

/-- A directory with a name of two characters. -/
theorem dirent_round_trip_short :
    DirEntry.fromDirent (.ofEntry ⟨.directory, ['a', 'b']⟩) = some ⟨.directory, ['a', 'b']⟩ := by
  have hNul : ∀ c ∈ (DirEntry.mk .directory ['a', 'b']).name, c.toNat ≠ 0 := by simp
  have hAscii : Utf8.Ascii ['a', 'b'] := by simp [Utf8.Ascii]
  exact (dirent_round_trip_iff hNul).mpr ⟨by simp, ['a', 'b'], hAscii, by decide, .inl rfl⟩

/-- An umlaut comes back as the two characters of its bytes, a name of 256
letters without its last one, and an entry without a name not at all. -/
theorem dirent_changes_name :
    DirEntry.fromDirent (.ofEntry ⟨.regular, [Char.ofNat 0xFC]⟩) =
        some ⟨.regular, [Char.ofNat 0xC3, Char.ofNat 0xBC]⟩ ∧
      DirEntry.fromDirent (.ofEntry ⟨.regular, List.replicate 256 'a'⟩) =
        some ⟨.regular, List.replicate 255 'a'⟩ ∧
      DirEntry.fromDirent (.ofEntry ⟨.regular, []⟩) = none := by
  decide +kernel

variable {fh dir : Nat}

namespace NamingService

variable {s : NamingService} {openedObject : OpenedObject}

theorem openedDir_ok :
    s.openedDir fh = .ok (openedObject, dir) ↔
      s.openObjects.lookupOpenedObject fh = .ok openedObject ∧
        openedObject.namedObject = .directoryObject dir := by
  unfold openedDir
  cases s.openObjects.lookupOpenedObject fh with
  | error e => simp
  | ok found =>
    rcases found with ⟨object, pos, options⟩
    cases object with
    | directoryObject other =>
      simp only [bind_of_ok, NamedObject.asDir, pure_ok_iff, Prod.mk.injEq,
        Except.ok.injEq]
      constructor
      · rintro ⟨rfl, rfl⟩
        exact ⟨rfl, rfl⟩
      · rintro ⟨rfl, hDir⟩
        exact ⟨rfl, NamedObject.directoryObject.inj hDir⟩
    | fileObject file =>
      simp only [bind_of_ok, NamedObject.asDir, bind_of_error, reduceCtorEq,
        Except.ok.injEq, false_iff, not_and]
      rintro rfl
      simp

theorem readdirObject_eq (profile : BuildProfile)
    (hOpened : s.openedDir fh = .ok (openedObject, dir)) (hPos : openedObject.pos + 1 < 2 ^ 64) :
    s.readdirObject profile fh = .ok (.ok (s.root.dir dir).entries[openedObject.pos]?,
      { s with openObjects := s.openObjects.setPos fh (openedObject.pos + 1) }) := by
  unfold readdirObject
  simp only [hOpened, profile.word_of_lt hPos, Dir.readdir_eq]
  rfl

end NamingService

/-- The naming service, and the entries that one handle has returned so far. -/
structure Scan where
  service : NamingService
  returned : List DirEntry

inductive ScanCall where
  | touch (path : Text)
  | mkdir (path : Text)
  | readdir

namespace Scan

/-- One call. The entries are those that the handle `fh` returns. -/
inductive Step (profile : BuildProfile) (fh : Nat) : Scan → ScanCall → Scan → Prop where
  | touch (scan : Scan) (path : Text) :
      Step profile fh scan (.touch path) { scan with service := (scan.service.touch path).2 }
  | mkdir (scan : Scan) (path : Text) :
      Step profile fh scan (.mkdir path) { scan with service := (scan.service.mkdir path).2 }
  | readdir {scan : Scan} {answer : Option DirEntry} {service : NamingService}
      (hCall : scan.service.readdirObject profile fh = .ok (.ok answer, service)) :
      Step profile fh scan .readdir ⟨service, scan.returned ++ answer.toList⟩

/-- What has been returned is the start of the directory, and its end is
reported only after all of it. -/
def Complete (profile : BuildProfile) (fh dir : Nat) (scan : Scan) : Prop :=
  (∃ m, m ≤ (scan.service.root.dir dir).entries.length ∧
    scan.returned = (scan.service.root.dir dir).entries.take m) ∧
  ∀ service, scan.service.readdirObject profile fh = .ok (.ok none, service) →
    scan.returned = (scan.service.root.dir dir).entries

/-- The state before a call that does not lead past entries: no entry is added
to the directory once its end was reported, and the position does not wrap
around. -/
def Timely (fh dir : Nat) (scan : Scan) : ScanCall → Prop
  | .touch path | .mkdir path => lookupDir scan.service.root (parentDir path) = .ok dir →
      ∀ openedObject, scan.service.openedDir fh = .ok (openedObject, dir) →
        openedObject.pos ≤ (scan.service.root.dir dir).entries.length
  | .readdir => ∀ openedObject, scan.service.openedDir fh = .ok (openedObject, dir) →
      openedObject.pos + 1 < 2 ^ 64

/-- Timely calls, one after the other. -/
inductive Run (profile : BuildProfile) (fh dir : Nat) : Scan → Scan → Prop where
  | refl (scan : Scan) : Run profile fh dir scan scan
  | step {scan scan₁ scan₂ : Scan} {call : ScanCall} (hRun : Run profile fh dir scan scan₁)
      (hTimely : Timely fh dir scan₁ call) (hStep : Step profile fh scan₁ call scan₂) :
      Run profile fh dir scan scan₂

/-- The handle has returned the entries before its position. -/
structure InStep (fh dir : Nat) (scan : Scan) : Prop where
  sound : scan.service.root.Sound
  opened : ∃ openedObject, scan.service.openedDir fh = .ok (openedObject, dir) ∧
    scan.returned = (scan.service.root.dir dir).entries.take openedObject.pos

theorem InStep.create {scan : Scan} (h : InStep fh dir scan) (kind : ObjectKind) (path : Text)
    (hTimely : lookupDir scan.service.root (parentDir path) = .ok dir →
      ∀ openedObject, scan.service.openedDir fh = .ok (openedObject, dir) →
        openedObject.pos ≤ (scan.service.root.dir dir).entries.length) :
    InStep fh dir { scan with service := { scan.service with
      root := (createNamedObject (TmpFs.create kind) scan.service.root path).2 } } := by
  obtain ⟨openedObject, hOpened, hReturned⟩ := h.opened
  rcases createNamedObject_cases h.sound kind path with
    hRun | ⟨parent, name, fs, -, hParent, hCreates, hRun⟩
  · rw [hRun]
    exact h
  · rw [hRun]
    refine ⟨hCreates.sound h.sound, openedObject, hOpened, ?_⟩
    dsimp only
    rw [hCreates.entries]
    split
    case isTrue hDir =>
      subst hDir
      have hPos := hTimely hParent openedObject hOpened
      rw [Dir.entries_push, List.take_append_of_le_length hPos]
      exact hReturned
    case isFalse => exact hReturned

theorem InStep.step {profile : BuildProfile} {fh dir : Nat} {scan scan' : Scan} {call : ScanCall}
    (h : InStep fh dir scan) (hTimely : Timely fh dir scan call)
    (hStep : Step profile fh scan call scan') : InStep fh dir scan' := by
  cases hStep with
  | touch path => exact h.create .file path hTimely
  | mkdir path => exact h.create .directory path hTimely
  | readdir hCall =>
    obtain ⟨openedObject, hOpened, hReturned⟩ := h.opened
    rw [NamingService.readdirObject_eq profile hOpened (hTimely openedObject hOpened)] at hCall
    obtain ⟨hAnswer, rfl⟩ := Prod.mk.inj (Except.ok.inj hCall)
    obtain rfl := Except.ok.inj hAnswer
    obtain ⟨hLookup, hObject⟩ := NamingService.openedDir_ok.mp hOpened
    refine ⟨h.sound, _, NamingService.openedDir_ok.mpr
      ⟨OpenObjectTable.lookupOpenedObject_setPos_self hLookup _, hObject⟩, ?_⟩
    dsimp only
    rw [hReturned, List.take_add_one]

theorem InStep.run {profile : BuildProfile} {fh dir : Nat} {scan scan' : Scan}
    (h : InStep fh dir scan) (hRun : Run profile fh dir scan scan') : InStep fh dir scan' := by
  induction hRun with
  | refl => exact h
  | step _ hTimely hStep ih => exact ih.step hTimely hStep

theorem InStep.complete {profile : BuildProfile} {scan : Scan} (h : InStep fh dir scan) :
    Complete profile fh dir scan := by
  obtain ⟨openedObject, hOpened, hReturned⟩ := h.opened
  refine ⟨⟨min openedObject.pos (scan.service.root.dir dir).entries.length, Nat.min_le_right _ _,
    ?_⟩, ?_⟩
  · rw [hReturned, ← List.take_eq_take_min]
  · intro service hCall
    unfold NamingService.readdirObject at hCall
    simp only [hOpened] at hCall
    obtain ⟨pos, -, hCall⟩ := bind_ok hCall
    have hEnd := Except.ok.inj (Prod.mk.inj (pure_ok hCall)).1
    rw [Dir.readdir_eq, List.getElem?_eq_none_iff] at hEnd
    rw [hReturned, List.take_of_length_le hEnd]

/-- In every interleaving of `readdir` on a new handle with timely calls of
`touch` and `mkdir`, the entries returned are the first ones of the directory,
and its end is reported only after all of them. -/
theorem readdir_complete {profile : BuildProfile} {service : NamingService} {fh dir : Nat}
    {flags : OpenOptions} {scan : Scan} (hSound : service.root.Sound)
    (hOpened : service.openedDir fh = .ok (⟨.directoryObject dir, 0, flags⟩, dir))
    (hRun : Run profile fh dir ⟨service, []⟩ scan) : Complete profile fh dir scan := by
  have hStart : InStep fh dir ⟨service, []⟩ := ⟨hSound, _, hOpened, rfl⟩
  exact (hStart.run hRun).complete

/-- The root directory with the given entries, open under the first handle. -/
def openRoot (files : List (Text × NamedObject)) (pos : Nat) : NamingService where
  root := ⟨[⟨files⟩], files.map fun _ => File.new⟩
  openObjects := ⟨[(0, some ⟨.directoryObject 0, pos, .READONLY⟩)],
    OpenObjectTable.new.freeHandles.set 0 1⟩
  cwd := ['/']

/-- A file that is created before the first call is returned by it. -/
theorem readdir_complete_one_file : ∃ scan, Run .development 0 0 ⟨openRoot [] 0, []⟩ scan ∧
    scan.returned = [⟨.regular, ['a']⟩] ∧ Complete .development 0 0 scan := by
  have hOpened : ∀ files pos, (openRoot files pos).openedDir 0 =
      .ok (⟨.directoryObject 0, pos, .READONLY⟩, 0) := fun _ _ => rfl
  have hTouch : Run .development 0 0 ⟨openRoot [] 0, []⟩
      ⟨openRoot [(['a'], .fileObject 0)] 0, []⟩ := by
    refine .step (.refl _) ?_ (.touch _ ['/', 'a'])
    intro _ openedObject hObject
    obtain ⟨rfl, -⟩ := Prod.mk.inj (Except.ok.inj ((hOpened _ _).symm.trans hObject))
    exact Nat.zero_le _
  have hRun : Run .development 0 0 ⟨openRoot [] 0, []⟩
      ⟨openRoot [(['a'], .fileObject 0)] 1, [⟨.regular, ['a']⟩]⟩ := by
    refine .step hTouch ?_ (@Step.readdir _ _ _ (some ⟨.regular, ['a']⟩) _ rfl)
    intro openedObject hObject
    obtain ⟨rfl, -⟩ := Prod.mk.inj (Except.ok.inj ((hOpened _ _).symm.trans hObject))
    decide
  exact ⟨_, hRun, rfl, readdir_complete TmpFs.new_sound (hOpened [] 0) hRun⟩

/-- The end of the empty directory is reported, a file is created, and the end
is reported again. -/
theorem readdir_skips_entry :
    NamingService.init.openOrCreate ['/'] .READONLY = (.ok 0, openRoot [] 0) ∧ ∃ scan₁ scan₂,
    Step .development 0 ⟨openRoot [] 0, []⟩ .readdir scan₁ ∧
      Step .development 0 scan₁ (.touch ['/', 'a']) scan₂ ∧ scan₂.returned = [] ∧
      (scan₂.service.root.dir 0).entries = [⟨.regular, ['a']⟩] ∧
      ¬ Complete .development 0 0 scan₂ := by
  refine ⟨rfl, ⟨openRoot [] 1, []⟩, ⟨openRoot [(['a'], .fileObject 0)] 1, []⟩,
    @Step.readdir _ _ _ none _ rfl, .touch _ ['/', 'a'], rfl, rfl, ?_⟩
  rintro ⟨-, hEnd⟩
  exact absurd (hEnd (openRoot [(['a'], .fileObject 0)] 2) rfl) (by decide)

end Scan

end D3OS.Naming
