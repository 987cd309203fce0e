import D3OS.Naming.Namespace

/-! Creating an object under a path and looking the path up afterwards.
`mkdir` and `touch` take the last component off and join the others again,
`lookup_named_object` takes the first one off and walks. The two agree on all
paths except a few shapes. -/
namespace D3OS.Naming

/-- The components of a path hold no slash. -/
theorem slash_not_mem_component (path : Text) :
    ∀ component ∈ path.splitOn '/', '/' ∉ component := by
  induction path with
  | nil => simp
  | cons c rest ih =>
    rw [List.splitOn_cons_eq_if_modifyHead]
    split
    case isTrue => grind
    case isFalse hSlash =>
      cases hSplit : rest.splitOn '/' with
      | nil => exact absurd hSplit (List.splitOn_ne_nil _ _)
      | cons first others =>
        intro component hMem
        rw [hSplit] at ih
        rcases List.mem_cons.mp hMem with rfl | hOther
        · grind
        · exact ih component (List.mem_cons_of_mem _ hOther)

theorem checkAbsolutePath_iff (path : Text) :
    checkAbsolutePath path = true ↔ ∃ rest, path = '/' :: rest := by
  cases path with
  | nil => simp [checkAbsolutePath]
  | cons c rest =>
    by_cases hSlash : c = '/'
    · simp [checkAbsolutePath, List.findIdx?_cons, hSlash]
    · simp only [checkAbsolutePath, List.findIdx?_cons, beq_iff_eq, hSlash, if_false]
      cases rest.findIdx? (fun c => c == '/') <;> simp [hSlash]

/-- The path made of the given components. -/
def absolutePath (components : List Text) : Text := '/' :: ['/'].intercalate components

variable {components : List Text} {fs fs' : TmpFs} {name : Text} {kind : ObjectKind}

section

variable (hSome : components ≠ []) (hSlash : ∀ component ∈ components, '/' ∉ component)

include hSome hSlash

theorem splitOn_absolutePath : (absolutePath components).splitOn '/' = [] :: components := by
  rw [absolutePath, List.splitOn_cons_eq_if_modifyHead, if_pos (by simp),
    List.splitOn_intercalate _ hSlash hSome]

theorem absolutePath_eq_root_iff : absolutePath components = ['/'] ↔ components = [[]] := by
  constructor
  · intro hRoot
    have hSplit := splitOn_absolutePath hSome hSlash
    rw [hRoot] at hSplit
    exact (List.cons.inj hSplit).2.symm
  · rintro rfl
    rfl

theorem lookupNamedObject_absolutePath :
    lookupNamedObject fs (absolutePath components) =
      if components = [[]] then .ok (.directoryObject 0)
      else lookupComponents fs 0 components := by
  have hAbsolute : checkAbsolutePath (absolutePath components) = true :=
    (checkAbsolutePath_iff _).mpr ⟨_, rfl⟩
  unfold lookupNamedObject
  rw [if_pos hAbsolute, splitOn_absolutePath hSome hSlash]
  simp only [absolutePath_eq_root_iff hSome hSlash, TmpFs.rootDir, List.tail_cons]

end

/-- The parent of an absolute path is the path of the other components,
unless there are none or only an empty one. -/
theorem parentDir_absolutePath (hSlash : ∀ component ∈ components ++ [name], '/' ∉ component) :
    parentDir (absolutePath (components ++ [name])) =
      if components = [] then ['/'] else absolutePath components := by
  have hDrop : ((absolutePath (components ++ [name])).splitOn '/').dropLast = [] :: components := by
    rw [splitOn_absolutePath (by simp) hSlash, ← List.cons_append, List.dropLast_concat]
  unfold parentDir
  simp only [hDrop]
  cases components with
  | nil => rfl
  | cons first others => simp [absolutePath]

/-- The paths under which a new object is found again: absolute, not the root
itself, and not two slashes with a single name. -/
def FoundAgain (path : Text) : Prop :=
  ∃ rest, path = '/' :: rest ∧ rest ≠ [] ∧ ∀ name, '/' ∉ name → rest ≠ '/' :: name

theorem foundAgain_absolutePath (hSlash : ∀ component ∈ components ++ [name], '/' ∉ component) :
    FoundAgain (absolutePath (components ++ [name])) ↔
      components ++ [name] ≠ [[]] ∧ components ≠ [[]] := by
  have hSplit : (['/'].intercalate (components ++ [name])).splitOn '/' = components ++ [name] :=
    List.splitOn_intercalate _ hSlash (by simp)
  constructor
  · rintro ⟨rest, hPath, hRest, hName⟩
    obtain rfl := (List.cons.inj hPath).2
    refine ⟨?_, ?_⟩
    · intro hRoot
      rw [hRoot] at hRest
      exact hRest rfl
    · rintro rfl
      exact hName name (hSlash name (by simp)) (by simp [List.intercalate_cons_cons])
  · rintro ⟨hRoot, hParent⟩
    refine ⟨_, rfl, ?_, ?_⟩
    · intro hRest
      rw [hRest] at hSplit
      exact hRoot hSplit.symm
    · intro other hOther hRest
      rw [hRest, List.splitOn_cons_eq_if_modifyHead, if_pos (by simp),
        List.splitOn_eq_singleton hOther] at hSplit
      have hInit := congrArg List.dropLast hSplit
      rw [List.dropLast_concat] at hInit
      exact hParent hInit.symm

theorem TmpFs.fresh_not_known (fs : TmpFs) (kind : ObjectKind) : ¬ fs.Known (fs.fresh kind) := by
  cases kind <;> simp [TmpFs.Known, TmpFs.fresh]

theorem TmpFs.fresh_ne_root (fs : TmpFs) (h : fs.Sound) (kind : ObjectKind) :
    .directoryObject 0 ≠ fs.fresh kind := by
  have hRoot := h.root
  cases kind with
  | file => simp [TmpFs.fresh]
  | directory =>
    simp only [TmpFs.fresh, ne_eq, NamedObject.directoryObject.injEq]
    omega

theorem TmpFs.Creates.lookup_self {dir : Nat} (h : fs.Creates kind dir name fs') :
    (fs'.dir dir).lookup name = .ok (fs.fresh kind) := by
  rw [h.entries, if_pos rfl]
  exact Dir.lookup_push h.absent _

/-- The new object is in the root, and no other directory leads to it. -/
theorem TmpFs.Creates.not_found_below_root {component : Text} (h : fs.Sound)
    (hCreates : fs.Creates kind 0 name fs') :
    lookupComponents fs' 0 [component, name] ≠ .ok (fs.fresh kind) := by
  intro hLookup
  rw [lookupComponents_cons (by simp)] at hLookup
  obtain ⟨next, hNext, hLookup⟩ := hLookup
  rw [lookupComponents_singleton] at hLookup
  have hKnown := (hCreates.sound h).known 0 _ (Dir.lookup_mem hNext)
  have hOther : next ≠ 0 := Nat.pos_iff_ne_zero.mp hKnown.1
  rw [hCreates.entries, if_neg hOther] at hLookup
  exact fs.fresh_not_known kind (h.known next _ (Dir.lookup_mem hLookup))

/-- After a creation that succeeds, the path leads to the new object exactly
if it has one of the shapes above. -/
theorem createNamedObject_found_iff (h : fs.Sound) {path : Text} {value : Nat}
    (hCreate : createNamedObject (TmpFs.create kind) fs path = (.ok value, fs')) :
    lookupNamedObject fs' path = .ok (fs.fresh kind) ↔ FoundAgain path := by
  rcases createNamedObject_cases h kind path with hRun | ⟨dir, name, fs₁, hLast, hDir, hCreates, hRun⟩
  · rw [hRun] at hCreate
    cases hCreate
  rw [hRun] at hCreate
  obtain rfl := (Prod.mk.inj hCreate).2
  by_cases hAbsolute : ∃ rest, path = '/' :: rest
  · obtain ⟨rest, rfl⟩ := hAbsolute
    obtain ⟨components, last, hComponents⟩ : ∃ components last,
        rest.splitOn '/' = components ++ [last] :=
      ⟨_, _, (List.dropLast_concat_getLast (List.splitOn_ne_nil _ _)).symm⟩
    have hSlash := slash_not_mem_component rest
    have hPath : '/' :: rest = absolutePath (components ++ [last]) := by
      rw [← hComponents, absolutePath, List.intercalate_splitOn]
    rw [hComponents] at hSlash
    rw [hPath] at hLast hDir ⊢
    rw [splitOn_absolutePath (by simp) hSlash, ← List.cons_append, List.getLast?_concat] at hLast
    obtain rfl := Option.some.inj hLast
    rw [parentDir_absolutePath hSlash, lookupDir_ok] at hDir
    rw [lookupNamedObject_absolutePath (by simp) hSlash, foundAgain_absolutePath hSlash]
    have hPrefix : ∀ component ∈ components, '/' ∉ component := fun component hMem =>
      hSlash component (List.mem_append_left _ hMem)
    by_cases hEmpty : components = []
    · subst hEmpty
      obtain rfl : 0 = dir := by cases hDir; rfl
      by_cases hName : last = []
      · subst hName
        simp [fs.fresh_ne_root h kind]
      · simp [hName, hCreates.lookup_self]
    · have hNotRoot : components ++ [last] ≠ [[]] := fun hEq =>
        hEmpty (by simpa using congrArg List.dropLast hEq)
      rw [if_neg hEmpty, lookupNamedObject_absolutePath hEmpty hPrefix] at hDir
      rw [if_neg hNotRoot]
      by_cases hParent : components = [[]]
      · subst hParent
        obtain rfl : 0 = dir := by cases hDir; rfl
        simpa using hCreates.not_found_below_root h
      · rw [if_neg hParent] at hDir
        simp only [ne_eq, hNotRoot, hParent, not_false_eq_true, and_self, iff_true]
        exact (lookupComponents_concat hEmpty).mpr
          ⟨dir, lookupComponents_extends hCreates.extends hDir, hCreates.lookup_self⟩
  · have hLookup : lookupNamedObject fs₁ path = .error .ENOENT := by
      rw [lookupNamedObject, if_neg (mt (checkAbsolutePath_iff path).mp hAbsolute)]
    rw [hLookup]
    simp only [reduceCtorEq, false_iff]
    rintro ⟨rest, hRest, -⟩
    exact hAbsolute ⟨rest, hRest⟩

/-- The trees that `mkdir` and `touch` build. -/
inductive Created : TmpFs → Prop where
  | new : Created TmpFs.new
  | mkdir {fs : TmpFs} (path : Text) (hCreated : Created fs) : Created (mkdir fs path).2
  | touch {fs : TmpFs} (path : Text) (hCreated : Created fs) : Created (touch fs path).2

theorem Created.sound (h : Created fs) : fs.Sound := by
  induction h with
  | new => exact TmpFs.new_sound
  | mkdir path _ ih => exact (createNamedObject_sound ih .directory path).1
  | touch path _ ih => exact (createNamedObject_sound ih .file path).1

/-- What `mkdir` and `touch` create is found under the path of the call
exactly if the path has one of the shapes of `FoundAgain`. -/
theorem created_name_found_iff {fs : TmpFs} (hCreated : Created fs) (path : Text) (value : Nat) :
    ((mkdir fs path).1 = .ok value →
        (lookupNamedObject (mkdir fs path).2 path = .ok (fs.fresh .directory) ↔
          FoundAgain path)) ∧
      ((touch fs path).1 = .ok value →
        (lookupNamedObject (touch fs path).2 path = .ok (fs.fresh .file) ↔ FoundAgain path)) :=
  ⟨fun hOk => createNamedObject_found_iff hCreated.sound (Prod.ext hOk rfl),
    fun hOk => createNamedObject_found_iff hCreated.sound (Prod.ext hOk rfl)⟩

/-- A directory and a file in it. -/
theorem created_name_found_iff_nested :
    (touch (mkdir TmpFs.new ['/', 'a']).2 ['/', 'a', '/', 'b']).1 = .ok 0 ∧
      lookupNamedObject (touch (mkdir TmpFs.new ['/', 'a']).2 ['/', 'a', '/', 'b']).2
        ['/', 'a', '/', 'b'] = .ok (.fileObject 0) := by
  have hOk : (touch (mkdir TmpFs.new ['/', 'a']).2 ['/', 'a', '/', 'b']).1 = .ok 0 := by decide
  have hShape : FoundAgain ['/', 'a', '/', 'b'] := ⟨_, rfl, by simp, by simp⟩
  exact ⟨hOk, ((created_name_found_iff (.mkdir _ .new) _ 0).2 hOk).mpr hShape⟩

/-- A relative path of two components creates the second one in the root. The
root itself is created as an entry with an empty name, and two slashes before
a name count as one. -/
theorem created_name_not_found :
    (mkdir TmpFs.new ['a', '/', 'b']).1 = .ok 0 ∧
      lookupNamedObject (mkdir TmpFs.new ['a', '/', 'b']).2 ['a', '/', 'b'] = .error .ENOENT ∧
      lookupNamedObject (mkdir TmpFs.new ['a', '/', 'b']).2 ['/', 'b'] =
        .ok (TmpFs.new.fresh .directory) ∧
      (touch TmpFs.new ['/']).1 = .ok 0 ∧
      lookupNamedObject (touch TmpFs.new ['/']).2 ['/'] = .ok (.directoryObject 0) ∧
      (touch TmpFs.new ['/', '/', 'b']).1 = .ok 0 ∧
      lookupNamedObject (touch TmpFs.new ['/', '/', 'b']).2 ['/', '/', 'b'] = .error .ENOENT := by
  decide

end D3OS.Naming
