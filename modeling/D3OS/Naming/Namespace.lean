import D3OS.Library.AssocList
import D3OS.Library.Outcome
import D3OS.Naming.Tmpfs

/-! The tree of names. Directories only grow at the end, so a path that leads
to an object leads to it for good. -/
namespace D3OS.Naming

/-- The object exists, and is not the root. -/
def TmpFs.Known (fs : TmpFs) : NamedObject → Prop
  | .fileObject file => file < fs.files.length
  | .directoryObject dir => 0 < dir ∧ dir < fs.dirs.length

/-- Every entry leads to an object of its own directory tree, under a name
that no other entry of the directory has. -/
structure TmpFs.Sound (fs : TmpFs) : Prop where
  root : 0 < fs.dirs.length
  distinct : ∀ dir, ((fs.dir dir).files.map Prod.fst).Nodup
  known : ∀ dir, ∀ entry ∈ (fs.dir dir).files, fs.Known entry.2

/-- Entries are only added, and only at the end of a directory. -/
def TmpFs.Extends (fs fs' : TmpFs) : Prop :=
  ∀ dir, (fs.dir dir).files <+: (fs'.dir dir).files

theorem TmpFs.Extends.refl (fs : TmpFs) : fs.Extends fs := fun _ => List.prefix_rfl

variable {fs fs' : TmpFs} {dir : Nat} {kind : ObjectKind} {name path : Text} {object : NamedObject}
  {components : List Text}

theorem TmpFs.Extends.trans {fs'' : TmpFs} (h : fs.Extends fs') (h' : fs'.Extends fs'') :
    fs.Extends fs'' := fun dir => (h dir).trans (h' dir)

theorem TmpFs.new_sound : TmpFs.new.Sound := by
  have hEmpty : ∀ dir, (TmpFs.new.dir dir).files = [] := by
    intro dir
    cases dir <;> rfl
  refine ⟨by decide, ?_, ?_⟩
  · intro dir
    rw [hEmpty]
    exact List.nodup_nil
  · intro dir entry hEntry
    rw [hEmpty] at hEntry
    cases hEntry

@[simp] theorem TmpFs.dir_add (fs : TmpFs) (kind : ObjectKind) (dir : Nat) :
    (fs.add kind).dir dir = fs.dir dir := by
  cases kind with
  | file => rfl
  | directory =>
    simp only [TmpFs.add, TmpFs.dir, List.getD_eq_getElem?_getD, List.getElem?_append]
    split
    · rfl
    · grind

theorem TmpFs.dir_push (fs : TmpFs) (hDir : dir < fs.dirs.length) (name : Text)
    (inode : NamedObject) (other : Nat) : (fs.push dir name inode).dir other =
      if other = dir then (fs.dir dir).push name inode else fs.dir other := by
  simp only [TmpFs.push, TmpFs.dir, List.getD_eq_getElem?_getD, List.getElem?_modify]
  by_cases hOther : other = dir
  · subst hOther
    simp [hDir]
  · have hNe : dir ≠ other := Ne.symm hOther
    simp [hOther, hNe]

theorem TmpFs.dirs_length_add (fs : TmpFs) (kind : ObjectKind) :
    fs.dirs.length ≤ (fs.add kind).dirs.length := by
  cases kind <;> simp [TmpFs.add]

/-- What a successful `create` has done. -/
structure TmpFs.Creates (fs : TmpFs) (kind : ObjectKind) (dir : Nat) (name : Text) (fs' : TmpFs) :
    Prop where
  absent : name ∉ (fs.dir dir).files.map Prod.fst
  entries : ∀ other, fs'.dir other =
    if other = dir then (fs.dir dir).push name (fs.fresh kind) else fs.dir other
  objects : ∀ object, fs'.Known object ↔ fs.Known object ∨ object = fs.fresh kind
  grows : fs.dirs.length ≤ fs'.dirs.length

theorem TmpFs.create_ok (h : fs.Sound) (hDir : dir < fs.dirs.length)
    (hCreate : fs.create kind dir name = .ok (object, fs')) :
    object = fs.fresh kind ∧ fs.Creates kind dir name fs' := by
  unfold TmpFs.create at hCreate
  obtain ⟨hAny, hCreate⟩ := Outcome.ite_error_ok hCreate
  obtain ⟨rfl, rfl⟩ := Prod.mk.inj (Except.ok.inj hCreate)
  refine ⟨rfl, ?_, ?_, ?_, ?_⟩
  · simpa using hAny
  · intro other
    rw [TmpFs.dir_push _ (Nat.lt_of_lt_of_le hDir (fs.dirs_length_add kind))]
    simp
  · intro object
    have hRoot := h.root
    cases kind <;> cases object <;>
      simp [TmpFs.Known, TmpFs.push, TmpFs.add, TmpFs.fresh] <;> omega
  · simpa [TmpFs.push] using fs.dirs_length_add kind

theorem TmpFs.Creates.extends (h : fs.Creates kind dir name fs') : fs.Extends fs' := by
  intro other
  rw [h.entries]
  split
  case isTrue hOther =>
    subst hOther
    exact List.prefix_append _ _
  case isFalse => exact List.prefix_rfl

theorem TmpFs.Creates.sound (hCreates : fs.Creates kind dir name fs') (h : fs.Sound) :
    fs'.Sound := by
  refine ⟨Nat.lt_of_lt_of_le h.root hCreates.grows, ?_, ?_⟩
  · intro other
    rw [hCreates.entries]
    split
    case isTrue =>
      change (((fs.dir dir).files ++ [(name, fs.fresh kind)]).map Prod.fst).Nodup
      rw [List.map_append]
      refine List.nodup_append.mpr ⟨h.distinct dir, by simp, ?_⟩
      intro key hKey new hNew hEq
      rw [show new = name by simpa using hNew] at hEq
      exact hCreates.absent (hEq ▸ hKey)
    case isFalse => exact h.distinct other
  · intro other entry hEntry
    rw [hCreates.entries] at hEntry
    rw [hCreates.objects]
    split at hEntry
    case isTrue =>
      rcases List.mem_append.mp hEntry with hOld | hNew
      · exact .inl (h.known dir entry hOld)
      · exact .inr (by rw [List.mem_singleton.mp hNew])
    case isFalse => exact .inl (h.known other entry hEntry)

theorem Dir.lookup_eq_ok_iff (dir : Dir) (name : Text) (object : NamedObject) :
    dir.lookup name = .ok object ↔
      ∃ entry, dir.files.find? (fun e => e.1 == name) = some entry ∧ entry.2 = object := by
  unfold Dir.lookup
  cases dir.files.find? (fun e => e.1 == name) <;> simp

theorem Dir.lookup_extends {dir dir' : Dir} (h : dir.files <+: dir'.files)
    (hLookup : dir.lookup name = .ok object) :
    dir'.lookup name = .ok object := by
  obtain ⟨entry, hFind, hObject⟩ := (dir.lookup_eq_ok_iff name object).mp hLookup
  obtain ⟨added, hAdded⟩ := h
  refine (dir'.lookup_eq_ok_iff name object).mpr ⟨entry, ?_, hObject⟩
  rw [← hAdded, List.find?_append, hFind]
  rfl

theorem Dir.lookup_mem {dir : Dir} (hLookup : dir.lookup name = .ok object) :
    (name, object) ∈ dir.files := by
  obtain ⟨entry, hFind, hObject⟩ := (dir.lookup_eq_ok_iff name object).mp hLookup
  have hName : entry.1 = name := by simpa using List.find?_some hFind
  rw [← hName, ← hObject]
  exact List.mem_of_find?_eq_some hFind

theorem Dir.lookup_push {dir : Dir} (hAbsent : name ∉ dir.files.map Prod.fst)
    (object : NamedObject) :
    (dir.push name object).lookup name = .ok object := by
  refine (Dir.lookup_eq_ok_iff _ name object).mpr ⟨(name, object), ?_, rfl⟩
  change (dir.files ++ [(name, object)]).find? (fun e => e.1 == name) = _
  rw [List.find?_append, AssocList.find?_eq_none_iff.mpr hAbsent]
  simp

/-- One component of a path that is not the last one. -/
theorem lookupComponents_cons {component : Text} {rest : List Text} (hRest : rest ≠ []) :
    lookupComponents fs dir (component :: rest) = .ok object ↔
      ∃ next, (fs.dir dir).lookup component = .ok (.directoryObject next) ∧
        lookupComponents fs next rest = .ok object := by
  have hMore : rest.isEmpty = false := by simpa using hRest
  rw [lookupComponents]
  cases (fs.dir dir).lookup component with
  | error e => simp
  | ok found => cases found <;> simp [hMore]

@[simp] theorem lookupComponents_singleton (fs : TmpFs) (dir : Nat) (component : Text)
    (object : NamedObject) : lookupComponents fs dir [component] = .ok object ↔
      (fs.dir dir).lookup component = .ok object := by
  rw [lookupComponents]
  cases (fs.dir dir).lookup component <;> simp

/-- The last component is looked up in the directory to which the others lead. -/
theorem lookupComponents_concat (hSome : components ≠ []) :
    ∀ {dir : Nat}, lookupComponents fs dir (components ++ [name]) = .ok object ↔
      ∃ parent, lookupComponents fs dir components = .ok (.directoryObject parent) ∧
        (fs.dir parent).lookup name = .ok object := by
  induction components with
  | nil => exact absurd rfl hSome
  | cons component rest ih =>
    intro dir
    rw [List.cons_append, lookupComponents_cons (by simp)]
    by_cases hRest : rest = []
    · subst hRest
      simp
    · simp only [lookupComponents_cons hRest, ih hRest]
      constructor
      · rintro ⟨next, hNext, parent, hParent, hName⟩
        exact ⟨parent, ⟨next, hNext, hParent⟩, hName⟩
      · rintro ⟨parent, ⟨next, hNext, hParent⟩, hName⟩
        exact ⟨next, hNext, parent, hParent, hName⟩

theorem lookupComponents_extends (h : fs.Extends fs') : ∀ {dir : Nat},
      lookupComponents fs dir components = .ok object →
        lookupComponents fs' dir components = .ok object := by
  induction components with
  | nil =>
    intro dir hLookup
    cases hLookup
  | cons component rest ih =>
    intro dir hLookup
    by_cases hRest : rest = []
    · subst hRest
      rw [lookupComponents_singleton] at hLookup ⊢
      exact Dir.lookup_extends (h dir) hLookup
    · rw [lookupComponents_cons hRest] at hLookup ⊢
      obtain ⟨next, hNext, hLookup⟩ := hLookup
      exact ⟨next, Dir.lookup_extends (h dir) hNext, ih hLookup⟩

/-- A path that leads to an object leads to it in every later tree. -/
theorem lookupNamedObject_extends (h : fs.Extends fs')
    (hLookup : lookupNamedObject fs path = .ok object) :
    lookupNamedObject fs' path = .ok object := by
  unfold lookupNamedObject at hLookup ⊢
  obtain ⟨hAbsolute, hLookup⟩ := Outcome.ite_ok hLookup
  rw [if_pos hAbsolute]
  split at hLookup
  case isTrue hRoot =>
    rw [if_pos hRoot]
    exact hLookup
  case isFalse hRoot =>
    rw [if_neg hRoot]
    exact lookupComponents_extends h hLookup

theorem lookupComponents_known (h : fs.Sound) : ∀ {dir : Nat},
      lookupComponents fs dir components = .ok object → fs.Known object := by
  induction components with
  | nil =>
    intro dir hLookup
    cases hLookup
  | cons component rest ih =>
    intro dir hLookup
    by_cases hRest : rest = []
    · subst hRest
      rw [lookupComponents_singleton] at hLookup
      exact h.known dir _ (Dir.lookup_mem hLookup)
    · rw [lookupComponents_cons hRest] at hLookup
      obtain ⟨next, -, hLookup⟩ := hLookup
      exact ih hLookup

theorem lookupDir_ok :
    lookupDir fs path = .ok dir ↔ lookupNamedObject fs path = .ok (.directoryObject dir) := by
  unfold lookupDir
  cases lookupNamedObject fs path with
  | error e => simp
  | ok object => cases object <;> simp

theorem lookupDir_lt (h : fs.Sound) (hLookup : lookupDir fs path = .ok dir) :
    dir < fs.dirs.length := by
  rw [lookupDir_ok] at hLookup
  unfold lookupNamedObject at hLookup
  obtain ⟨-, hLookup⟩ := Outcome.ite_ok hLookup
  split at hLookup
  case isTrue =>
    obtain rfl : 0 = dir := by simpa [TmpFs.rootDir] using hLookup
    exact h.root
  case isFalse => exact (lookupComponents_known h hLookup).2

/-- `mkdir` and `touch` either change nothing or add one object to the parent
directory, under the last component of the path. -/
theorem createNamedObject_cases (h : fs.Sound) (kind : ObjectKind) (path : Text) :
    createNamedObject (TmpFs.create kind) fs path = (.error .ENOTDIR, fs) ∨
      ∃ dir name fs', (path.splitOn '/').getLast? = some name ∧
        lookupDir fs (parentDir path) = .ok dir ∧ fs.Creates kind dir name fs' ∧
        createNamedObject (TmpFs.create kind) fs path = (.ok 0, fs') := by
  obtain ⟨name, hLast⟩ : ∃ name, (path.splitOn '/').getLast? = some name :=
    ⟨_, List.getLast?_eq_getLast_of_ne_nil (List.splitOn_ne_nil _ _)⟩
  unfold createNamedObject
  simp only [hLast]
  cases hDir : lookupDir fs (parentDir path) with
  | error e => exact .inl rfl
  | ok dir =>
    rw [Outcome.bind_of_ok]
    cases hCreate : fs.create kind dir name with
    | error e => exact .inl rfl
    | ok result =>
      obtain ⟨-, hCreates⟩ := TmpFs.create_ok h (lookupDir_lt h hDir) hCreate
      exact .inr ⟨dir, name, result.2, rfl, rfl, hCreates, rfl⟩

theorem createNamedObject_sound (h : fs.Sound) (kind : ObjectKind) (path : Text) :
    (createNamedObject (TmpFs.create kind) fs path).2.Sound ∧
      fs.Extends (createNamedObject (TmpFs.create kind) fs path).2 := by
  rcases createNamedObject_cases h kind path with hRun | ⟨dir, name, fs', -, -, hCreates, hRun⟩
  · rw [hRun]
    exact ⟨h, .refl fs⟩
  · rw [hRun]
    exact ⟨hCreates.sound h, hCreates.extends⟩

end D3OS.Naming
