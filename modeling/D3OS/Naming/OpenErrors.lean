import D3OS.Naming.Creation
import D3OS.Naming.Stability

/-! What an `open` that fails leaves behind. With `CREATE`, the file is created
before it is opened, and stays where it cannot be opened afterwards. -/
namespace D3OS.Naming

/-- `touch` can create its file: the parent is a directory in which the name
is not used. -/
def Creatable (fs : TmpFs) (path : Text) : Prop :=
  ∃ dir name, (path.splitOn '/').getLast? = some name ∧ lookupDir fs (parentDir path) = .ok dir ∧
    name ∉ (fs.dir dir).files.map Prod.fst

namespace NamingService

/-- The path leads to an object that can be opened with these flags. -/
def Opens (s : NamingService) (path : Text) (flags : OpenOptions) : Prop :=
  ∃ found, lookupNamedObject s.root path = .ok found ∧
    (flags.contains .DIRECTORY = true → found.isDir = true) ∧ 0 ∈ s.openObjects.freeHandles

/-- The directories, the contents of the files and the table of open objects
are the same. -/
structure Untouched (s s' : NamingService) : Prop where
  entries : ∀ dir, s'.root.dir dir = s.root.dir dir
  contents : ∀ file, s'.root.file file = s.root.file file
  handles : s'.openObjects = s.openObjects

theorem Untouched.refl (s : NamingService) : s.Untouched s :=
  ⟨fun _ => rfl, fun _ => rfl, rfl⟩

end NamingService

variable {fs : TmpFs} {path : Text}

theorem createNamedObject_ok_iff (h : fs.Sound) (kind : ObjectKind) (path : Text) :
    (∃ value fs', createNamedObject (TmpFs.create kind) fs path = (.ok value, fs')) ↔
      Creatable fs path := by
  constructor
  · rintro ⟨value, fs', hRun⟩
    rcases createNamedObject_cases h kind path with hError | ⟨dir, name, _, hLast, hDir, hCreates, -⟩
    · rw [hError] at hRun
      cases hRun
    · exact ⟨dir, name, hLast, hDir, hCreates.absent⟩
  · rintro ⟨dir, name, hLast, hDir, hAbsent⟩
    have hNone : ¬ ((fs.dir dir).files.any fun entry => entry.1 == name) = true := by grind
    refine ⟨0, (fs.add kind).push dir name (fs.fresh kind), ?_⟩
    unfold createNamedObject
    simp only [hLast, hDir]
    rw [Outcome.bind_of_ok, TmpFs.create, if_neg hNone]

/-- What a path leads to after a file was created, it led to before, unless it
is the new file. -/
theorem TmpFs.Creates.lookupComponents_file {fs' : TmpFs} {parent : Nat} {name : Text}
    (h : fs.Creates .file parent name fs') {object : NamedObject} {components : List Text} :
    ∀ {dir : Nat}, lookupComponents fs' dir components = .ok object →
      lookupComponents fs dir components = .ok object ∨ object = fs.fresh .file := by
  have hLookup : ∀ {dir : Nat} {component : Text} {found : NamedObject},
      (fs'.dir dir).lookup component = .ok found →
        (fs.dir dir).lookup component = .ok found ∨ found = fs.fresh .file := by
    intro dir component found hFound
    rw [h.entries] at hFound
    split at hFound
    case isTrue hDir =>
      subst hDir
      rw [Dir.lookup_eq_ok_iff] at hFound ⊢
      obtain ⟨entry, hFind, rfl⟩ := hFound
      rw [Dir.push, List.find?_append] at hFind
      cases hOld : (fs.dir dir).files.find? (fun e => e.1 == component) with
      | some old =>
        rw [hOld] at hFind
        exact .inl ⟨entry, hFind, rfl⟩
      | none => grind
    case isFalse => exact .inl hFound
  induction components with
  | nil =>
    intro dir hFound
    cases hFound
  | cons component rest ih =>
    intro dir hFound
    by_cases hRest : rest = []
    · subst hRest
      rw [lookupComponents_singleton] at hFound ⊢
      exact hLookup hFound
    · rw [lookupComponents_cons hRest] at hFound ⊢
      obtain ⟨next, hNext, hFound⟩ := hFound
      -- A file is no directory, so the walk does not pass through the new one.
      have hOld := (hLookup hNext).resolve_right (by simp [TmpFs.fresh])
      exact (ih hFound).imp_left fun hBefore => ⟨next, hOld, hBefore⟩

theorem TmpFs.Creates.lookupNamedObject_file {fs' : TmpFs} {parent : Nat} {name : Text}
    (h : fs.Creates .file parent name fs') {object : NamedObject}
    (hFound : lookupNamedObject fs' path = .ok object) :
    lookupNamedObject fs path = .ok object ∨ object = fs.fresh .file := by
  unfold lookupNamedObject at hFound ⊢
  obtain ⟨hAbsolute, hFound⟩ := Outcome.ite_ok hFound
  rw [if_pos hAbsolute]
  split at hFound
  case isTrue hRoot =>
    rw [if_pos hRoot]
    exact .inl hFound
  case isFalse hRoot =>
    rw [if_neg hRoot]
    exact h.lookupComponents_file hFound

theorem OpenObjectTable.allocateHandle_ok_iff (table : OpenObjectTable)
    (openedObject : OpenedObject) :
    (∃ handle table', table.allocateHandle openedObject = (.ok handle, table')) ↔
      0 ∈ table.freeHandles := by
  have hFind : (table.freeHandles.findIdx? fun value => value == 0).isSome ↔
      0 ∈ table.freeHandles := by
    simp [List.findIdx?_isSome]
  rw [← hFind, OpenObjectTable.allocateHandle, OpenObjectTable.findFreeHandle]
  cases table.freeHandles.findIdx? fun value => value == 0 <;> simp

namespace NamingService

theorem openObject_ok_iff (s : NamingService) (path : Text) (flags : OpenOptions) :
    (∃ handle s', s.openObject path flags = (.ok handle, s')) ↔ s.Opens path flags := by
  unfold openObject Opens
  cases hLookup : lookupNamedObject s.root path with
  | error e => simp
  | ok found =>
    have hTable := s.openObjects.allocateHandle_ok_iff ⟨found, 0, flags⟩
    rcases hAllocate : s.openObjects.allocateHandle ⟨found, 0, flags⟩ with ⟨result, table⟩
    rw [hAllocate] at hTable
    cases hDirectory : flags.contains .DIRECTORY <;> cases hDir : found.isDir <;>
      simp_all

variable {s : NamingService}

/-- An `open` that cannot find a handle for its object has changed nothing. -/
theorem openObject_error {flags : OpenOptions} (h : ¬ s.Opens path flags) :
    ∃ e, s.openObject path flags = (.error e, s) := by
  rcases s.openObject_cases path flags with hError | ⟨_, handle, table, -, -, hOk⟩
  · exact hError
  · exact absurd ((s.openObject_ok_iff path flags).mp ⟨_, _, hOk⟩) h

/-- After its creation, a file is opened if the path leads to it, no directory
is asked for and a handle is free. -/
theorem opens_after_touch_iff (h : s.root.Sound) {flags : OpenOptions} {value : Nat}
    (hClosed : ¬ s.Opens path flags) (hTouch : Naming.touch s.root path = (.ok value, fs)) :
    Opens { s with root := fs } path flags ↔
      FoundAgain path ∧ flags.contains .DIRECTORY = false ∧ 0 ∈ s.openObjects.freeHandles := by
  have hAgain := createNamedObject_found_iff h hTouch
  rcases createNamedObject_cases h .file path with hError | ⟨dir, name, fs₁, -, -, hCreates, hRun⟩
  · cases hTouch.symm.trans hError
  obtain rfl : fs = fs₁ := (Prod.mk.inj (hTouch.symm.trans hRun)).2
  constructor
  · rintro ⟨found, hFound, hDirectory, hFree⟩
    rcases hCreates.lookupNamedObject_file hFound with hBefore | rfl
    · exact absurd ⟨found, hBefore, hDirectory, hFree⟩ hClosed
    · refine ⟨hAgain.mp hFound, ?_, hFree⟩
      simpa [TmpFs.fresh, NamedObject.isDir] using hDirectory
  · rintro ⟨hShape, hFile, hFree⟩
    exact ⟨_, hAgain.mpr hShape, by simp [hFile], hFree⟩

/-- A created file is an entry more in its directory. -/
theorem not_untouched_of_touch {s' : NamingService} (h : s.root.Sound) {value : Nat}
    (hTouch : Naming.touch s.root path = (.ok value, s'.root)) : ¬ s.Untouched s' := by
  intro hSame
  rcases createNamedObject_cases h .file path with hError | ⟨dir, name, fs, -, -, hCreates, hRun⟩
  · cases hTouch.symm.trans hError
  have hRoot : s'.root = fs := (Prod.mk.inj (hTouch.symm.trans hRun)).2
  have hEntries := hSame.entries dir
  rw [hRoot, hCreates.entries, if_pos rfl] at hEntries
  have hLength := congrArg (fun d : Dir => d.files.length) hEntries
  simp [Dir.push] at hLength

/-- An `open` that fails leaves everything as it was, unless it asks for a
file that can be created but then not be opened: because the path does not
lead to what is created under it, a directory is asked for, or no handle is
free. -/
theorem failed_open_untouched_iff {s : NamingService} (h : s.root.Sound) (path : Text)
    (flags : OpenOptions) :
    (∀ e s', s.openOrCreate path flags = (.error e, s') → s.Untouched s') ↔
      (flags.contains .CREATE = true → Creatable s.root path → s.Opens path flags ∨
        (FoundAgain path ∧ flags.contains .DIRECTORY = false ∧
          0 ∈ s.openObjects.freeHandles)) := by
  by_cases hOpens : s.Opens path flags
  · obtain ⟨handle, s₁, hOpen⟩ := (s.openObject_ok_iff path flags).mpr hOpens
    have hOk : s.openOrCreate path flags = (.ok handle, s₁) := by rw [openOrCreate, hOpen]
    simp [hOk, hOpens]
  obtain ⟨e, hOpen⟩ := openObject_error hOpens
  by_cases hCreate : flags.contains .CREATE = true
  · rcases hTouch : Naming.touch s.root path with ⟨result, fs⟩
    cases result with
    | error e' =>
      -- Nothing was created.
      have hNone : ¬ Creatable s.root path := by
        rw [← createNamedObject_ok_iff h .file path]
        rintro ⟨value, fs', hOk⟩
        cases hTouch.symm.trans hOk
      have hSame : fs = s.root := by
        rcases createNamedObject_cases h .file path with hError | ⟨_, _, _, -, -, -, hRun⟩
        · exact (Prod.mk.inj (hTouch.symm.trans hError)).2
        · cases hTouch.symm.trans hRun
      have hRun : s.openOrCreate path flags = (.error e', s) := by
        rw [openOrCreate, hOpen]
        simp [hCreate, touch, hTouch, hSame]
      simp [hRun, hNone, Untouched.refl]
    | ok value =>
      have hSome : Creatable s.root path :=
        (createNamedObject_ok_iff h .file path).mp ⟨value, fs, hTouch⟩
      have hRun : s.openOrCreate path flags = openObject { s with root := fs } path flags := by
        rw [openOrCreate, hOpen]
        simp [hCreate, touch, hTouch]
      have hAfter := opens_after_touch_iff h hOpens hTouch
      simp only [hRun, hCreate, hSome, hOpens, ← hAfter, false_or, true_implies]
      by_cases hNew : Opens { s with root := fs } path flags
      · obtain ⟨handle, s₁, hOk⟩ := (openObject_ok_iff _ path flags).mpr hNew
        simp [hOk, hNew]
      · obtain ⟨e', hError⟩ := openObject_error hNew
        simp only [hNew, iff_false]
        intro hAll
        exact not_untouched_of_touch h hTouch (hAll e' _ hError)
  · have hRun : s.openOrCreate path flags = (.error e, s) := by
      rw [openOrCreate, hOpen]
      simp [hCreate]
    simp [hRun, hCreate, Untouched.refl]

/-- The directory of the file does not exist. -/
theorem failed_open_untouched_nested :
    (init.openOrCreate ['/', 'a', '/', 'b'] .CREATE).1 = .error .ENOTDIR ∧
      init.Untouched (init.openOrCreate ['/', 'a', '/', 'b'] .CREATE).2 := by
  have hError : (init.openOrCreate ['/', 'a', '/', 'b'] .CREATE).1 = .error .ENOTDIR := by
    decide +kernel
  have hNone : ¬ Creatable init.root ['/', 'a', '/', 'b'] := by
    rintro ⟨dir, name, -, hDir, -⟩
    have hNotFound : lookupDir init.root (parentDir ['/', 'a', '/', 'b']) = .error .ENOENT := by
      decide
    cases hNotFound.symm.trans hDir
  exact ⟨hError, (failed_open_untouched_iff TmpFs.new_sound _ _).mpr
    (fun _ hSome => absurd hSome hNone) _ _ (Prod.ext hError rfl)⟩

/-- A new file that is asked for as a directory, and one under a relative
path, are created and then not opened. -/
theorem failed_open_leaves_file :
    (init.openOrCreate ['/', 'a'] ⟨7⟩).1 = .error .ENOTDIR ∧
      ((init.openOrCreate ['/', 'a'] ⟨7⟩).2.root.dir 0).files = [(['a'], .fileObject 0)] ∧
      (init.openOrCreate ['a', '/', 'b'] .CREATE).1 = .error .ENOENT ∧
      ((init.openOrCreate ['a', '/', 'b'] .CREATE).2.root.dir 0).files =
        [(['b'], .fileObject 0)] ∧
      (init.root.dir 0).files = [] := by
  decide +kernel

end NamingService

end D3OS.Naming
