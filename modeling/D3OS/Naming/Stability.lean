import D3OS.Naming.Namespace
import D3OS.Naming.OpenObjects

/-! Runs of the calls that change the tree of names, the table of open objects
or the working directory. -/
namespace D3OS.Naming

inductive NamespaceCall where
  | touch (path : Text)
  | mkdir (path : Text)
  | openNamed (path : Text) (flags : OpenOptions)
  | cd (path : Text)

/-- A table without a free handle is left as it is. -/
theorem OpenObjectTable.allocateHandle_error {table table' : OpenObjectTable}
    {openedObject : OpenedObject} {e : Errno}
    (h : table.allocateHandle openedObject = (.error e, table')) : table = table' := by
  unfold OpenObjectTable.allocateHandle at h
  split at h
  · exact (Prod.mk.inj h).2
  · cases h

namespace NamingService

def call (s : NamingService) : NamespaceCall → SyscallResult × NamingService
  | .touch path => s.touch path
  | .mkdir path => s.mkdir path
  | .openNamed path flags => s.openOrCreate path flags
  | .cd path => s.cd path

def afterCalls (s : NamingService) (calls : List NamespaceCall) : NamingService :=
  calls.foldl (fun s c => (s.call c).2) s

/-- The tree is sound, and the working directory leads to a directory. -/
structure Settled (s : NamingService) : Prop where
  sound : s.root.Sound
  cwd : ∃ dir, lookupDir s.root s.cwd = .ok dir

theorem init_settled : init.Settled := ⟨TmpFs.new_sound, 0, rfl⟩

variable {s : NamingService}

theorem Settled.extend {s' : NamingService} (h : s.Settled) (hSound : s'.root.Sound)
    (hExtends : s.root.Extends s'.root) (hCwd : s'.cwd = s.cwd) : s'.Settled := by
  obtain ⟨dir, hDir⟩ := h.cwd
  refine ⟨hSound, dir, ?_⟩
  rw [lookupDir_ok] at hDir ⊢
  rw [hCwd]
  exact lookupNamedObject_extends hExtends hDir

/-- A call keeps what holds of the tree, and only adds to it. -/
theorem Settled.create (h : s.Settled) (kind : ObjectKind) (path : Text) :
    let fs := (createNamedObject (TmpFs.create kind) s.root path).2
    Settled { s with root := fs } ∧ s.root.Extends fs := by
  obtain ⟨hSound, hExtends⟩ := createNamedObject_sound h.sound kind path
  exact ⟨h.extend hSound hExtends rfl, hExtends⟩

/-- `open_objects::open` fails and changes nothing, or gives the object a
handle. -/
theorem openObject_cases (s : NamingService) (path : Text) (flags : OpenOptions) :
    (∃ e, s.openObject path flags = (.error e, s)) ∨
      ∃ found handle table, lookupNamedObject s.root path = .ok found ∧
        s.openObjects.allocateHandle ⟨found, 0, flags⟩ = (.ok handle, table) ∧
        s.openObject path flags = (.ok handle, { s with openObjects := table }) := by
  unfold openObject
  cases hLookup : lookupNamedObject s.root path with
  | error e => exact .inl ⟨_, rfl⟩
  | ok found =>
    simp only
    split
    case isTrue => exact .inl ⟨_, rfl⟩
    case isFalse =>
      rcases hAllocate : s.openObjects.allocateHandle ⟨found, 0, flags⟩ with ⟨result, table⟩
      cases result with
      | error e =>
        obtain rfl := OpenObjectTable.allocateHandle_error hAllocate
        exact .inl ⟨e, rfl⟩
      | ok handle => exact .inr ⟨found, handle, table, rfl, hAllocate, rfl⟩

/-- `api::open` may create the file before it opens it, and creates it even
where it then finds no free handle. -/
theorem openOrCreate_cases (s : NamingService) (path : Text) (flags : OpenOptions) :
    ∃ fs, (fs = s.root ∨ fs = (Naming.touch s.root path).2) ∧
      ((∃ e, s.openOrCreate path flags = (.error e, { s with root := fs })) ∨
        ∃ found handle table, lookupNamedObject fs path = .ok found ∧
          s.openObjects.allocateHandle ⟨found, 0, flags⟩ = (.ok handle, table) ∧
          s.openOrCreate path flags = (.ok handle, { s with root := fs, openObjects := table })) := by
  unfold openOrCreate
  rcases s.openObject_cases path flags with ⟨e, hOpen⟩ | ⟨found, handle, table, hLookup, hTable, hOpen⟩
  · simp only [hOpen]
    split
    case isTrue =>
      refine ⟨_, .inr rfl, ?_⟩
      rcases hTouch : s.touch path with ⟨result, s₁⟩
      have hState : s₁ = { s with root := (Naming.touch s.root path).2 } :=
        (congrArg Prod.snd hTouch).symm
      cases result with
      | error e => exact .inl ⟨e, by rw [← hState]⟩
      | ok value =>
        subst hState
        exact openObject_cases _ path flags
    case isFalse => exact ⟨_, .inl rfl, .inl ⟨e, rfl⟩⟩
  · exact ⟨_, .inl rfl, .inr ⟨found, handle, table, hLookup, hTable, by rw [hOpen]⟩⟩

theorem Settled.openOrCreate (h : s.Settled) (path : Text) (flags : OpenOptions) :
    (s.openOrCreate path flags).2.Settled ∧
      s.root.Extends (s.openOrCreate path flags).2.root := by
  obtain ⟨fs, hFs, hRun⟩ := s.openOrCreate_cases path flags
  obtain ⟨hSound, hExtends⟩ : fs.Sound ∧ s.root.Extends fs := by
    rcases hFs with rfl | rfl
    · exact ⟨h.sound, .refl _⟩
    · exact createNamedObject_sound h.sound .file path
  rcases hRun with ⟨e, hRun⟩ | ⟨found, handle, table, -, -, hRun⟩
  · rw [hRun]
    exact ⟨h.extend hSound hExtends rfl, hExtends⟩
  · rw [hRun]
    exact ⟨h.extend hSound hExtends rfl, hExtends⟩

theorem Settled.cd (h : s.Settled) (path : Text) :
    (s.cd path).2.Settled ∧ s.root.Extends (s.cd path).2.root := by
  unfold NamingService.cd
  split
  case h_1 dir hDir => exact ⟨⟨h.sound, dir, hDir⟩, .refl _⟩
  case h_2 => exact ⟨h, .refl _⟩

theorem Settled.call (h : s.Settled) (c : NamespaceCall) :
    (s.call c).2.Settled ∧ s.root.Extends (s.call c).2.root := by
  cases c with
  | touch path => exact h.create .file path
  | mkdir path => exact h.create .directory path
  | openNamed path flags => exact h.openOrCreate path flags
  | cd path => exact h.cd path

theorem Settled.afterCalls (h : s.Settled) (calls : List NamespaceCall) :
    (s.afterCalls calls).Settled ∧ s.root.Extends (s.afterCalls calls).root := by
  induction calls generalizing s with
  | nil => exact ⟨h, .refl _⟩
  | cons c rest ih =>
    obtain ⟨hCall, hExtends⟩ := h.call c
    obtain ⟨hRest, hExtends'⟩ := ih hCall
    exact ⟨hRest, hExtends.trans hExtends'⟩

/-- In every run from `init`, the names in a directory are distinct, a path
that leads to an object leads to it after every further run, and the working
directory leads to a directory. -/
theorem namespace_stable (before after : List NamespaceCall) :
    (∀ dir ∈ (init.afterCalls before).root.dirs, (dir.files.map Prod.fst).Nodup) ∧
      (∀ path object, lookupNamedObject (init.afterCalls before).root path = .ok object →
        lookupNamedObject ((init.afterCalls before).afterCalls after).root path = .ok object) ∧
      ∃ dir, lookupDir (init.afterCalls before).root (init.afterCalls before).cwd = .ok dir := by
  obtain ⟨hSettled, -⟩ := init_settled.afterCalls before
  obtain ⟨-, hExtends⟩ := hSettled.afterCalls after
  refine ⟨?_, fun path object hLookup => lookupNamedObject_extends hExtends hLookup, hSettled.cwd⟩
  intro dir hDir
  obtain ⟨index, hIndex⟩ := List.mem_iff_getElem?.mp hDir
  have hDistinct := hSettled.sound.distinct index
  rwa [TmpFs.dir, List.getD_eq_getElem?_getD, hIndex] at hDistinct

end NamingService

end D3OS.Naming
