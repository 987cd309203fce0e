import D3OS.Storage.Block
import Mathlib

/-! The registered block devices with their partitions, and the names they are
found by. -/
namespace D3OS.Storage

open Outcome

variable {State : Type}

/-- `BLOCK_DEVICES` and `DEVICE_TYPES`. The counters have no bound, as one would
overflow with the `2 ^ 64`th drive of a type only. -/
structure Registry (State : Type) where
  blockDevices : String → Option (BlockDevice State)
  deviceTypes : String → Option Nat

def driveName (typ : String) (index : Nat) : String := typ ++ toString index

def partitionName (name : String) (index : Nat) : String := name ++ "p" ++ toString index

def DigitFree (typ : String) : Prop := ∀ c ∈ typ.toList, c.isDigit = false

/-- The type and the index of the drive can be read off the name. -/
def Under (typ : String) (index : Nat) (name : String) : Prop :=
  DigitFree typ ∧ ∃ rest, (∀ c ∈ rest.head?, c.isDigit = false) ∧
    name.toList = typ.toList ++ (Nat.toDigits 10 index ++ rest)

theorem takeWhile_append_eq {p : Char → Bool} {left right : List Char} (hLeft : ∀ c ∈ left, p c)
    (hRight : ∀ c ∈ right.head?, p c = false) : (left ++ right).takeWhile p = left := by
  rw [List.takeWhile_append_of_pos hLeft]
  cases right <;> simp_all

namespace Under

variable {typ typ' name : String} {index index' : Nat}

theorem takeWhile_eq (h : Under typ index name) :
    name.toList.takeWhile (!·.isDigit) = typ.toList ∧
      (name.toList.drop typ.toList.length).takeWhile Char.isDigit = Nat.toDigits 10 index := by
  obtain ⟨hType, rest, hRest, hName⟩ := h
  have hDigits : ∀ c ∈ Nat.toDigits 10 index, c.isDigit := fun c =>
    Nat.isDigit_of_mem_toDigits (b := 10) (by decide) (by decide)
  rw [hName, List.drop_left, takeWhile_append_eq hDigits hRest]
  refine ⟨takeWhile_append_eq (by simpa [DigitFree] using hType) ?_, rfl⟩
  intro c hHead
  rw [List.head?_append_of_ne_nil _ Nat.toDigits_ne_nil] at hHead
  simpa using hDigits c (List.mem_of_mem_head? hHead)

theorem unique (h : Under typ index name) (h' : Under typ' index' name) :
    typ = typ' ∧ index = index' := by
  obtain rfl : typ = typ' := String.toList_injective (h.takeWhile_eq.1.symm.trans h'.takeWhile_eq.1)
  refine ⟨rfl, ?_⟩
  rw [← Nat.ofDigitChars_ten_toDigits (n := index), ← h.takeWhile_eq.2, h'.takeWhile_eq.2,
    Nat.ofDigitChars_ten_toDigits]

end Under

namespace Registry

def empty : Registry State := ⟨fun _ => none, fun _ => none⟩

def blockDevice (self : Registry State) (name : String) : Option (BlockDevice State) :=
  self.blockDevices name

variable (profile : BuildProfile) (parse : List UInt8 → Option (List (Option PartitionEntry)))

/-- The loop of `add_block_device` over the partitions with their indices. -/
def insertPartitions (name : String) (partitions : List (Partition State × Nat))
    (drives : String → Option (BlockDevice State)) : String → Option (BlockDevice State) :=
  partitions.foldl (fun drives entry => Function.update drives (partitionName name entry.2)
    (some (entry.1.toBlockDevice profile))) drives

def addBlockDevice (self : Registry State) (typ : String) (drive : BlockDevice State)
    (state : State) : Except Panic (Registry State × State) := do
  let index := (self.deviceTypes typ).getD 0
  let name := driveName typ index
  let deviceTypes := Function.update self.deviceTypes typ (some (index + 1))
  let (partitions, state) ← scanPartitions parse drive state
  let drives := Function.update self.blockDevices name (some drive)
  return (⟨insertPartitions profile name partitions.zipIdx drives, deviceTypes⟩, state)

/-- The drivers register one drive after the other. -/
def addAll : List (String × BlockDevice State) → Registry State → State →
    Except Panic (Registry State × State)
  | [], self, state => .ok (self, state)
  | (typ, drive) :: rest, self, state => do
    let (self, state) ← self.addBlockDevice profile parse typ drive state
    addAll rest self state

variable {profile parse} {self later : Registry State} {typ : String} {drive : BlockDevice State}
  {state state' : State} {history : List String}

theorem insertPartitions_of_ne {name other : String} {partitions : List (Partition State × Nat)}
    (h : ∀ index, other ≠ partitionName name index) (drives : String → Option (BlockDevice State)) :
    insertPartitions profile name partitions drives other = drives other := by
  induction partitions generalizing drives with
  | nil => rfl
  | cons entry rest ih => exact (ih _).trans (Function.update_of_ne (h _) _ _)

/-- The counters count the drives, and all names in use are names of drives that
were counted. -/
structure Counted (history : List String) (registry : Registry State) : Prop where
  counters : ∀ typ, (registry.deviceTypes typ).getD 0 = history.count typ
  named : ∀ {name device}, registry.blockDevice name = some device →
    ∃ typ index, Under typ index name ∧ index < history.count typ

/-- A new drive is found, and everything that was found before. -/
theorem Counted.add (h : Counted history self) (hType : DigitFree typ)
    (hAdd : self.addBlockDevice profile parse typ drive state = .ok (later, state')) :
    Counted (history ++ [typ]) later ∧
      later.blockDevice (driveName typ (history.count typ)) = some drive ∧
      ∀ {name device}, self.blockDevice name = some device →
        later.blockDevice name = some device := by
  obtain ⟨⟨partitions, _⟩, -, hAdd⟩ := bind_ok hAdd
  obtain ⟨rfl, -⟩ := Prod.mk.inj (pure_ok hAdd)
  simp only [h.counters, blockDevice]
  have hOthers : ∀ {name}, ¬Under typ (history.count typ) name →
      insertPartitions profile (driveName typ (history.count typ)) partitions.zipIdx
        (Function.update self.blockDevices (driveName typ (history.count typ)) (some drive)) name =
        self.blockDevices name := by
    intro name hNot
    rw [insertPartitions_of_ne, Function.update_of_ne]
    · rintro rfl
      exact hNot ⟨hType, [], by simp, by simp [driveName]⟩
    · rintro index rfl
      exact hNot ⟨hType, 'p' :: Nat.toDigits 10 index, by simp, by simp [partitionName, driveName]⟩
  refine ⟨⟨fun other => ?_, fun {name device} hFound => ?_⟩, ?_, fun {name device} hFound => ?_⟩
  · by_cases hEq : other = typ
    · simp [hEq]
    · simp [hEq, h.counters, Ne.symm hEq]
  · by_cases hUnder : Under typ (history.count typ) name
    · exact ⟨typ, _, hUnder, by simp⟩
    · obtain ⟨typ', index, hUnder', hLt⟩ := h.named ((hOthers hUnder).symm.trans hFound)
      exact ⟨typ', index, hUnder', by simp only [List.count_append]; omega⟩
  · rw [insertPartitions_of_ne, Function.update_self]
    intro index hEq
    simpa [partitionName] using congrArg (List.length ∘ String.toList) hEq
  · refine (hOthers fun hUnder => ?_).trans hFound
    obtain ⟨typ', index, hUnder', hLt⟩ := h.named hFound
    obtain ⟨rfl, rfl⟩ := hUnder.unique hUnder'
    exact Nat.lt_irrefl _ hLt

theorem Counted.empty : Counted [] (Registry.empty : Registry State) :=
  ⟨fun _ => rfl, by simp [Registry.empty, blockDevice]⟩

theorem Counted.addAll {entries : List (String × BlockDevice State)} (h : Counted history self)
    (hTypes : ∀ entry ∈ entries, DigitFree entry.1)
    (hRun : addAll profile parse entries self state = .ok (later, state')) :
    Counted (history ++ entries.map Prod.fst) later ∧ ∀ {name device},
      self.blockDevice name = some device → later.blockDevice name = some device := by
  induction entries generalizing history self state with
  | nil =>
    obtain ⟨rfl, -⟩ := Prod.mk.inj (Except.ok.inj hRun)
    exact ⟨by simpa using h, id⟩
  | cons entry rest ih =>
    obtain ⟨⟨middle, state₁⟩, hAdd, hRest⟩ := bind_ok hRun
    obtain ⟨hEntry, hTypes⟩ := List.forall_mem_cons.mp hTypes
    obtain ⟨hMiddle, -, hKept⟩ := h.add hEntry hAdd
    obtain ⟨hLater, hKept'⟩ := ih hMiddle hTypes hRest
    exact ⟨by simpa using hLater, fun hFound => hKept' (hKept hFound)⟩

/-- If no type has a digit in it, a drive is found for good by its type and the
number of earlier drives of that type, and all names keep their device or
partition. -/
theorem drive_found {before after : List (String × BlockDevice State)} {earlier : Registry State}
    {state₁ state₂ : State} (hTypes : ∀ entry ∈ before ++ (typ, drive) :: after, DigitFree entry.1)
    (hBefore : Registry.empty.addAll profile parse before state = .ok (earlier, state₁))
    (hAfter : earlier.addAll profile parse ((typ, drive) :: after) state₁ = .ok (later, state₂)) :
    later.blockDevice (driveName typ ((before.map Prod.fst).count typ)) = some drive ∧
      ∀ {name device}, earlier.blockDevice name = some device →
        later.blockDevice name = some device := by
  obtain ⟨hBeforeTypes, hTypes⟩ := List.forall_mem_append.mp hTypes
  obtain ⟨hType, hAfterTypes⟩ := List.forall_mem_cons.mp hTypes
  have hEarlier := (Counted.empty.addAll hBeforeTypes hBefore).1
  refine ⟨?_, (hEarlier.addAll hTypes hAfter).2⟩
  obtain ⟨⟨middle, _⟩, hAdd, hAfter⟩ := bind_ok hAfter
  obtain ⟨hMiddle, hFound, -⟩ := hEarlier.add hType hAdd
  exact (hMiddle.addAll hAfterTypes hAfter).2 hFound

theorem drive_found_ata : ∃ r, addAll .development (fun _ => none)
    (List.replicate 3 ("ata", recorder)) empty [] = .ok r ∧
      r.1.blockDevice "ata1" = some recorder := by
  have hTypes : ∀ entry ∈ List.replicate 3 ("ata", recorder), DigitFree entry.1 := by
    simp [DigitFree]
  have hBefore : addAll .development (fun _ => none) [("ata", recorder)] empty [] = .ok (_, _) :=
    rfl
  exact ⟨_, rfl, (drive_found hTypes hBefore rfl).1⟩

end Registry

end D3OS.Storage
