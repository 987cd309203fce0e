import D3OS.Kernel.Panic
import D3OS.Library.Outcome
import D3OS.Library.TreeWalk

/-! The enumeration of PCI functions, `device/pci.rs`. The scan follows bridges
to other buses by recursion, so its depth is bounded by the stack, and the loops
over function numbers end at the first number without a function. The buses that
it visits are the ones that can be reached over bridges without a gap before their
function numbers. -/
namespace D3OS.Device.PciBus

open Outcome
open Relation (ReflTransGen)
open TreeWalk (Child)

/-- What is written to the address port. The segment is not, and is 0x8000
throughout. -/
structure PciAddress where
  bus : Fin 256
  device : Fin 32
  function : Fin 8
  deriving DecidableEq, Repr

inductive HeaderType where
  | endpoint
  | pciPciBridge
  | cardBusBridge
  | unknown (code : Nat)
  deriving DecidableEq, Repr

def INVALID : Nat := 0xffff

/-- What the scan reads of the header of a function. -/
structure Header where
  vendorId : Nat
  headerType : HeaderType
  multipleFunctions : Bool
  secondaryBusNumber : Fin 256
  valid : vendorId ≠ INVALID

/-- The headers of the functions that answer. -/
structure ConfigurationSpace where
  header : PciAddress → Option Header

namespace ConfigurationSpace

variable (self : ConfigurationSpace) (address : PciAddress)

/-- Without a function all bits read as ones. -/
def vendorId : Nat := (self.header address).elim INVALID Header.vendorId

def hasMultipleFunctions : Bool := (self.header address).elim true Header.multipleFunctions

def headerType : HeaderType := (self.header address).elim (.unknown 0x7f) Header.headerType

def secondaryBusNumber : Fin 256 := (self.header address).elim 0xff Header.secondaryBusNumber

theorem vendorId_eq_invalid_iff : self.vendorId address = INVALID ↔ self.header address = none := by
  unfold vendorId
  cases self.header address with
  | none => exact iff_of_true rfl rfl
  | some header => exact iff_of_false header.valid nofun

end ConfigurationSpace

/-- Why a scan does not come to its end. -/
inductive Stop where
  | panic (panic : Panic)
  /-- More calls of `scan_bus` than the stack has room for. -/
  | tooDeep
  deriving DecidableEq, Repr

abbrev Devices := List PciAddress

/-- `check_function`, with the recursive call. -/
def checkFunction (scanBus : PciAddress → Devices → Except Stop Devices) (cs : ConfigurationSpace)
    (address : PciAddress) (devices : Devices) : Except Stop Devices :=
  if cs.headerType address = .pciPciBridge then
    scanBus ⟨cs.secondaryBusNumber address, 0, 0⟩ devices
  -- `EndpointHeader::from_header`
  else if cs.headerType address = .endpoint then .ok (devices ++ [address])
  else .error (.panic .unwrapFailed)

/-- The loops over function numbers. -/
def whilePresent (cs : ConfigurationSpace) (body : PciAddress → Devices → Except Stop Devices) :
    List PciAddress → Devices → Except Stop Devices
  | [], devices => .ok devices
  | address :: rest, devices =>
    if cs.vendorId address = INVALID then .ok devices
    else do
      let devices ← body address devices
      whilePresent cs body rest devices

/-- The function numbers from 1 on. -/
def furtherFunctions (address : PciAddress) : List PciAddress :=
  (List.finRange 8).tail.map fun i => { address with function := i }

def checkDevice (scanBus : PciAddress → Devices → Except Stop Devices) (cs : ConfigurationSpace)
    (address : PciAddress) (devices : Devices) : Except Stop Devices := do
  if address.function ≠ 0 then .error (.panic .assertionFailed)
  else if cs.vendorId address = INVALID then return devices
  else
    let devices ← checkFunction scanBus cs address devices
    if cs.hasMultipleFunctions address then
      whilePresent cs (checkFunction scanBus cs) (furtherFunctions address) devices
    else return devices

/-- `scan_bus`, with the number of nested calls that the stack has room for. -/
def scanBus (cs : ConfigurationSpace) : Nat → PciAddress → Devices → Except Stop Devices
  | 0, _, _ => .error .tooDeep
  | depth + 1, address, devices =>
    if address.device ≠ 0 then .error (.panic .assertionFailed)
    else if address.function ≠ 0 then .error (.panic .assertionFailed)
    else (List.finRange 32).foldlM
      (fun devices i => checkDevice (scanBus cs depth) cs ⟨address.bus, i, 0⟩ devices) devices

def scan (cs : ConfigurationSpace) (depth : Nat) : Except Stop Devices :=
  if cs.hasMultipleFunctions ⟨0, 0, 0⟩ then
    whilePresent cs (scanBus cs depth) ((List.finRange 8).map fun i => ⟨0, 0, i⟩) []
  else scanBus cs depth ⟨0, 0, 0⟩ []

/-! ### The functions of a configuration space -/

section Space

variable (cs : ConfigurationSpace)

/-- There is a function: the first one of its device, or another one of a
device with several functions. -/
def Present (address : PciAddress) : Prop :=
  (cs.header { address with function := 0 }).isSome ∧
    (address.function = 0 ∨
      cs.hasMultipleFunctions { address with function := 0 } = true ∧ (cs.header address).isSome)

instance (address : PciAddress) : Decidable (Present cs address) :=
  inferInstanceAs (Decidable (_ ∧ _))

def IsBridge (address : PciAddress) : Prop := cs.headerType address = .pciPciBridge

instance (address : PciAddress) : Decidable (IsBridge cs address) :=
  inferInstanceAs (Decidable (_ = _))

/-- Bus 0, and the buses that the functions of the host bridge stand for. -/
def IsRoot (bus : Fin 256) : Prop := bus = 0 ∨ ∃ i : Fin 8, Present cs ⟨0, 0, i⟩ ∧ bus.val = i.val

/-- The buses that can be reached over bridges. -/
inductive Reachable : Fin 256 → Prop where
  | root {bus : Fin 256} (hRoot : IsRoot cs bus) : Reachable bus
  | bridge {address : PciAddress} (hBus : Reachable address.bus) (hPresent : Present cs address)
      (hBridge : IsBridge cs address) : Reachable (cs.secondaryBusNumber address)

/-- The bridges form a tree, and lead to distinct buses. -/
structure Treelike : Prop where
  distinct : ∀ address other, Reachable cs address.bus → Present cs address → IsBridge cs address →
    Reachable cs other.bus → Present cs other → IsBridge cs other →
    cs.secondaryBusNumber address = cs.secondaryBusNumber other → address = other
  not_root : ∀ address, Reachable cs address.bus → Present cs address → IsBridge cs address →
    ¬ IsRoot cs (cs.secondaryBusNumber address)

/-- A function that is no bridge, on a bus that can be reached. -/
def Expected (address : PciAddress) : Prop :=
  Reachable cs address.bus ∧ Present cs address ∧ ¬ IsBridge cs address

/-- The scan ends, and finds every function that is no bridge once. -/
def Complete : Prop :=
  ∃ enough devices, (∀ depth ≥ enough, scan cs depth = .ok devices) ∧ devices.Nodup ∧
    ∀ address, address ∈ devices ↔ Expected cs address

/-- No function number up to this one is left out. -/
def Gapless (address : PciAddress) : Prop :=
  ∀ i ≤ address.function, Present cs { address with function := i }

instance (address : PciAddress) : Decidable (Gapless cs address) :=
  inferInstanceAs (Decidable (∀ _, _))

/-- The buses that can be reached from bus 0 over bridges without a gap before
them. -/
inductive GaplessReachable : Fin 256 → Prop where
  | root (hHost : (cs.header ⟨0, 0, 0⟩).isSome) : GaplessReachable 0
  | bridge {address : PciAddress} (hBus : GaplessReachable address.bus)
      (hGapless : Gapless cs address) (hBridge : IsBridge cs address) :
      GaplessReachable (cs.secondaryBusNumber address)

end Space

/-! ### The scan as a walk over the buses -/

section Walk

variable (cs : ConfigurationSpace)

/-- The functions of a device that the scan visits. -/
def functionsOf (bus : Fin 256) (device : Fin 32) : List PciAddress :=
  if (cs.header ⟨bus, device, 0⟩).isSome then
    ⟨bus, device, 0⟩ ::
      if cs.hasMultipleFunctions ⟨bus, device, 0⟩ then
        (furtherFunctions ⟨bus, device, 0⟩).takeWhile fun address => (cs.header address).isSome
      else []
  else []

def functions (bus : Fin 256) : List PciAddress := (List.finRange 32).flatMap (functionsOf cs bus)

/-- A bridge leads to its secondary bus. -/
def item (address : PciAddress) : PciAddress ⊕ Fin 256 :=
  if cs.headerType address = .pciPciBridge then .inr (cs.secondaryBusNumber address)
  else .inl address

def items (bus : Fin 256) : List (PciAddress ⊕ Fin 256) := (functions cs bus).map (item cs)

/-- `check_function`, for an item. -/
def visit (scanBus : PciAddress → Devices → Except Stop Devices) (devices : Devices) :
    PciAddress ⊕ Fin 256 → Except Stop Devices
  | .inl address =>
    if cs.headerType address = .endpoint then .ok (devices ++ [address])
    else .error (.panic .unwrapFailed)
  | .inr bus => scanBus ⟨bus, 0, 0⟩ devices

variable {cs} {scanBus' : PciAddress → Devices → Except Stop Devices}

theorem checkFunction_eq (address : PciAddress) (devices : Devices) :
    checkFunction scanBus' cs address devices = visit cs scanBus' devices (item cs address) := by
  unfold checkFunction item
  split <;> rfl

section Loop

variable {body : PciAddress → Devices → Except Stop Devices} {address : PciAddress}
  {rest : List PciAddress} {devices : Devices}

theorem whilePresent_of_none (h : cs.header address = none) :
    whilePresent cs body (address :: rest) devices = .ok devices :=
  if_pos ((cs.vendorId_eq_invalid_iff address).mpr h)

theorem whilePresent_of_isSome (h : (cs.header address).isSome) :
    whilePresent cs body (address :: rest) devices =
      body address devices >>= whilePresent cs body rest := by
  refine if_neg fun hInvalid => ?_
  rw [(cs.vendorId_eq_invalid_iff address).mp hInvalid] at h
  cases h

/-- A loop over function numbers visits the numbers before the first gap. -/
theorem whilePresent_eq (body : PciAddress → Devices → Except Stop Devices)
    (addresses : List PciAddress) (devices : Devices) :
    whilePresent cs body addresses devices =
      (addresses.takeWhile fun address => (cs.header address).isSome).foldlM
        (fun devices address => body address devices) devices := by
  induction addresses generalizing devices with
  | nil => rfl
  | cons address rest ih =>
    rw [List.takeWhile_cons]
    by_cases hSome : (cs.header address).isSome
    · rw [whilePresent_of_isSome hSome, if_pos hSome, List.foldlM_cons]
      exact congrArg (body address devices >>= ·) (funext ih)
    · rw [whilePresent_of_none (Option.not_isSome_iff_eq_none.mp hSome), if_neg hSome]
      rfl

end Loop

theorem checkDevice_eq (bus : Fin 256) (device : Fin 32) (devices : Devices) :
    checkDevice scanBus' cs ⟨bus, device, 0⟩ devices =
      ((functionsOf cs bus device).map (item cs)).foldlM (visit cs scanBus') devices := by
  have hVisit : (fun devices address => checkFunction scanBus' cs address devices) =
      fun devices address => visit cs scanBus' devices (item cs address) :=
    funext fun devices => funext fun address => checkFunction_eq address devices
  unfold checkDevice functionsOf
  rw [if_neg (not_not.mpr rfl), List.foldlM_map]
  by_cases hSome : (cs.header ⟨bus, device, 0⟩).isSome
  · rw [if_neg fun hInvalid => ?_, if_pos hSome, List.foldlM_cons, checkFunction_eq]
    · refine congrArg (visit cs scanBus' devices (item cs ⟨bus, device, 0⟩) >>= ·) (funext ?_)
      intro devices
      split
      · rw [whilePresent_eq, hVisit]
      · rfl
    · rw [(cs.vendorId_eq_invalid_iff _).mp hInvalid] at hSome
      cases hSome
  · rw [if_neg hSome]
    exact if_pos ((cs.vendorId_eq_invalid_iff _).mpr (Option.not_isSome_iff_eq_none.mp hSome))

/-- One call of `scan_bus` visits the items of the bus. -/
theorem scanBus_succ (depth : Nat) (bus : Fin 256) (devices : Devices) :
    scanBus cs (depth + 1) ⟨bus, 0, 0⟩ devices =
      (items cs bus).foldlM (visit cs (scanBus cs depth)) devices := by
  rw [scanBus, if_neg (not_not.mpr rfl), if_neg (not_not.mpr rfl), items, functions]
  generalize List.finRange 32 = numbers
  induction numbers generalizing devices with
  | nil => rfl
  | cons device rest ih =>
    rw [List.foldlM_cons, List.flatMap_cons, List.map_append, List.foldlM_append, checkDevice_eq]
    exact congrArg (_ >>= ·) (funext ih)

/-- The items are visited without a panic, if and only if all leaves below them
are endpoints and the depth suffices. -/
theorem foldlM_visit_ok_iff {below : Fin 256 → Option (List PciAddress)}
    (hBelow : ∀ bus devices devices', scanBus' ⟨bus, 0, 0⟩ devices = .ok devices' ↔
      ∃ found, below bus = some found ∧ (∀ address ∈ found, cs.headerType address = .endpoint) ∧
        devices' = devices ++ found)
    (list : List (PciAddress ⊕ Fin 256)) (devices devices' : Devices) :
    list.foldlM (visit cs scanBus') devices = .ok devices' ↔
      ∃ found, TreeWalk.collect below list = some found ∧
        (∀ address ∈ found, cs.headerType address = .endpoint) ∧ devices' = devices ++ found := by
  induction list generalizing devices with
  | nil =>
    rw [List.foldlM_nil, pure_ok_iff]
    constructor
    · rintro rfl
      exact ⟨[], rfl, nofun, (List.append_nil _).symm⟩
    · rintro ⟨found, hFound, -, rfl⟩
      obtain rfl := Option.some.inj hFound
      exact (List.append_nil _).symm
  | cons item rest ih =>
    rw [List.foldlM_cons, bind_ok_iff]
    simp only [ih]
    cases item with
    | inl address =>
      constructor
      · rintro ⟨later, hVisit, others, hOthers, hEndpoints, rfl⟩
        rw [visit] at hVisit
        obtain ⟨hEndpoint, hVisit⟩ := ite_ok hVisit
        obtain rfl := Except.ok.inj hVisit
        refine ⟨address :: others, ?_, List.forall_mem_cons.mpr ⟨hEndpoint, hEndpoints⟩,
          List.append_assoc ..⟩
        rw [TreeWalk.collect, hOthers]
        rfl
      · rintro ⟨found, hFound, hEndpoints, rfl⟩
        obtain ⟨others, hOthers, rfl⟩ := TreeWalk.collect_inl hFound
        obtain ⟨hEndpoint, hEndpoints⟩ := List.forall_mem_cons.mp hEndpoints
        exact ⟨devices ++ [address], if_pos hEndpoint, others, hOthers, hEndpoints,
          (List.append_assoc devices [address] others).symm⟩
    | inr bus =>
      constructor
      · rintro ⟨later, hVisit, others, hOthers, hEndpoints, rfl⟩
        obtain ⟨first, hFirst, hFirstEndpoints, rfl⟩ := (hBelow bus devices later).mp hVisit
        refine ⟨first ++ others, ?_, List.forall_mem_append.mpr ⟨hFirstEndpoints, hEndpoints⟩,
          List.append_assoc ..⟩
        rw [TreeWalk.collect, hFirst, hOthers]
        rfl
      · rintro ⟨found, hFound, hEndpoints, rfl⟩
        obtain ⟨first, others, hFirst, hOthers, rfl⟩ := TreeWalk.collect_inr hFound
        obtain ⟨hFirstEndpoints, hEndpoints⟩ := List.forall_mem_append.mp hEndpoints
        exact ⟨devices ++ first, (hBelow bus devices _).mpr ⟨first, hFirst, hFirstEndpoints, rfl⟩,
          others, hOthers, hEndpoints, (List.append_assoc ..).symm⟩

/-- `scan_bus` finds the leaves below its bus. -/
theorem scanBus_ok_iff (depth : Nat) (bus : Fin 256) (devices devices' : Devices) :
    scanBus cs depth ⟨bus, 0, 0⟩ devices = .ok devices' ↔
      ∃ found, TreeWalk.leaves (items cs) depth bus = some found ∧
        (∀ address ∈ found, cs.headerType address = .endpoint) ∧ devices' = devices ++ found := by
  induction depth generalizing bus devices devices' with
  | zero => exact iff_of_false nofun fun ⟨_, hNone, _⟩ => nomatch hNone
  | succ depth ih =>
    rw [scanBus_succ]
    exact foldlM_visit_ok_iff ih (items cs bus) devices devices'

end Walk

/-! The functions that are found. -/

variable {cs : ConfigurationSpace} {address : PciAddress} {bus : Fin 256}

/-- In an ascending list the elements before the first one without a property
are those up to which all have it. -/
theorem mem_takeWhile_iff {α : Type*} [LinearOrder α] {list : List α} {p : α → Bool}
    (hSorted : list.Pairwise (· < ·)) {element : α} :
    element ∈ list.takeWhile p ↔ element ∈ list ∧ ∀ other ∈ list, other ≤ element → p other := by
  induction list with
  | nil => simp
  | cons first rest ih =>
    obtain ⟨hFirst, hRest⟩ := List.pairwise_cons.mp hSorted
    rw [List.takeWhile_cons]
    cases hP : p first with
    | false => grind
    | true => grind

theorem mem_furtherFunctions_takeWhile {device : Fin 32} :
    address ∈ (furtherFunctions ⟨bus, device, 0⟩).takeWhile (fun other => (cs.header other).isSome) ↔
      address.bus = bus ∧ address.device = device ∧ address.function ≠ 0 ∧
        ∀ i ≤ address.function, i ≠ 0 → (cs.header { address with function := i }).isSome := by
  have hSorted : (List.finRange 8).tail.Pairwise (· < ·) := by decide
  have hNumbers : ∀ i : Fin 8, i ∈ (List.finRange 8).tail ↔ i ≠ 0 := by decide
  rw [furtherFunctions, List.takeWhile_map, List.mem_map]
  simp only [mem_takeWhile_iff hSorted, hNumbers, Function.comp]
  constructor
  · rintro ⟨i, ⟨hNe, hAll⟩, rfl⟩
    exact ⟨rfl, rfl, hNe, fun j hLe hNonzero => hAll j hNonzero hLe⟩
  · rintro ⟨rfl, rfl, hNe, hAll⟩
    exact ⟨address.function, ⟨hNe, fun j hNonzero hLe => hAll j hLe hNonzero⟩, rfl⟩

theorem mem_functionsOf_iff {device : Fin 32} :
    address ∈ functionsOf cs bus device ↔
      address.bus = bus ∧ address.device = device ∧ Gapless cs address := by
  unfold functionsOf
  constructor
  · intro hMem
    by_cases hFirst : (cs.header ⟨bus, device, 0⟩).isSome
    · rw [if_pos hFirst] at hMem
      rcases List.mem_cons.mp hMem with rfl | hMem
      · refine ⟨rfl, rfl, fun i hLe => ?_⟩
        obtain rfl : i = 0 := Fin.le_zero_iff.mp hLe
        exact ⟨hFirst, .inl rfl⟩
      · by_cases hMany : cs.hasMultipleFunctions ⟨bus, device, 0⟩ = true
        · rw [if_pos hMany] at hMem
          obtain ⟨rfl, rfl, -, hAll⟩ := mem_furtherFunctions_takeWhile.mp hMem
          refine ⟨rfl, rfl, fun i hLe => ⟨hFirst, ?_⟩⟩
          by_cases hZero : i = 0
          · exact .inl hZero
          · exact .inr ⟨hMany, hAll i hLe hZero⟩
        · rw [if_neg hMany] at hMem
          cases hMem
    · rw [if_neg hFirst] at hMem
      cases hMem
  · rintro ⟨rfl, rfl, hGapless⟩
    obtain ⟨hFirst, -⟩ := hGapless 0 (Fin.zero_le _)
    rw [if_pos hFirst, List.mem_cons]
    by_cases hZero : address.function = 0
    · exact .inl (by rw [← hZero])
    · obtain ⟨hMany, -⟩ := (hGapless address.function le_rfl).2.resolve_left hZero
      rw [if_pos hMany]
      refine .inr (mem_furtherFunctions_takeWhile.mpr ⟨rfl, rfl, hZero, fun i hLe hNe => ?_⟩)
      exact ((hGapless i hLe).2.resolve_left hNe).2

theorem mem_functions_iff :
    address ∈ functions cs bus ↔ address.bus = bus ∧ Gapless cs address := by
  simp only [functions, List.mem_flatMap, List.mem_finRange, true_and, mem_functionsOf_iff]
  exact ⟨fun ⟨_, hBus, _, hGapless⟩ => ⟨hBus, hGapless⟩,
    fun ⟨hBus, hGapless⟩ => ⟨_, hBus, rfl, hGapless⟩⟩

theorem inl_mem_items_iff :
    .inl address ∈ items cs bus ↔
      address.bus = bus ∧ Gapless cs address ∧ ¬ IsBridge cs address := by
  simp only [items, List.mem_map, mem_functions_iff, item]
  constructor
  · rintro ⟨other, ⟨hBus, hGapless⟩, hItem⟩
    split at hItem
    · cases hItem
    case isFalse hBridge =>
      obtain rfl := Sum.inl.inj hItem
      exact ⟨hBus, hGapless, hBridge⟩
  · rintro ⟨hBus, hGapless, hBridge⟩
    exact ⟨address, ⟨hBus, hGapless⟩, if_neg hBridge⟩

theorem child_iff {child : Fin 256} :
    Child (items cs) bus child ↔ ∃ address, address.bus = bus ∧ Gapless cs address ∧
      IsBridge cs address ∧ cs.secondaryBusNumber address = child := by
  simp only [Child, items, List.mem_map, mem_functions_iff, item]
  constructor
  · rintro ⟨address, ⟨hBus, hGapless⟩, hItem⟩
    split at hItem
    case isTrue hBridge => exact ⟨address, hBus, hGapless, hBridge, Sum.inr.inj hItem⟩
    · cases hItem
  · rintro ⟨address, hBus, hGapless, hBridge, hChild⟩
    exact ⟨address, ⟨hBus, hGapless⟩, (if_pos hBridge).trans (congrArg Sum.inr hChild)⟩

theorem Gapless.present (h : Gapless cs address) : Present cs address := h address.function le_rfl

/-- The buses that the scan visits can be reached. -/
theorem reachable_of_walk (h : ReflTransGen (Child (items cs)) 0 bus) : Reachable cs bus := by
  induction h with
  | refl => exact .root (.inl rfl)
  | tail _ hChild ih =>
    obtain ⟨address, rfl, hGapless, hBridge, rfl⟩ := child_iff.mp hChild
    exact .bridge ih hGapless.present hBridge

theorem gaplessReachable_iff :
    GaplessReachable cs bus ↔
      (cs.header ⟨0, 0, 0⟩).isSome ∧ ReflTransGen (Child (items cs)) 0 bus := by
  constructor
  · intro h
    induction h with
    | root hHost => exact ⟨hHost, .refl⟩
    | bridge _ hGapless hBridge ih =>
      exact ⟨ih.1, ih.2.tail (child_iff.mpr ⟨_, rfl, hGapless, hBridge, rfl⟩)⟩
  · rintro ⟨hHost, hReach⟩
    induction hReach with
    | refl => exact .root hHost
    | tail _ hChild ih =>
      obtain ⟨address, rfl, hGapless, hBridge, rfl⟩ := child_iff.mp hChild
      exact .bridge ih hGapless hBridge

theorem nodup_functions (bus : Fin 256) : (functions cs bus).Nodup := by
  refine List.nodup_flatMap.mpr ⟨fun device _ => ?_, ?_⟩
  · unfold functionsOf
    split
    · refine List.nodup_cons.mpr ⟨fun hMem => ?_, ?_⟩
      · split at hMem
        · exact (mem_furtherFunctions_takeWhile.mp hMem).2.2.1 rfl
        · cases hMem
      · split
        · refine List.Nodup.sublist (List.takeWhile_sublist _) (List.Nodup.map ?_ (by decide))
          exact fun i j hEq => congrArg PciAddress.function hEq
        · exact List.nodup_nil
    · exact List.nodup_nil
  · refine (List.nodup_finRange 32).imp fun {device other} hNe address hMem hMem' => ?_
    exact hNe ((mem_functionsOf_iff.mp hMem).2.1.symm.trans (mem_functionsOf_iff.mp hMem').2.1)

/-- The buses that the scan visits form a tree. -/
theorem Treelike.tree (h : Treelike cs) : TreeWalk.Tree (items cs) 0 := by
  have hSame : ∀ {address other}, ReflTransGen (Child (items cs)) 0 address.bus →
      ReflTransGen (Child (items cs)) 0 other.bus → Gapless cs address → Gapless cs other →
      item cs address = item cs other → address = other := by
    intro address other hBus hBus' hGapless hGapless' hItem
    unfold item at hItem
    split at hItem
    case isTrue hBridge =>
      split at hItem
      case isTrue hBridge' =>
        exact h.distinct address other (reachable_of_walk hBus) hGapless.present hBridge
          (reachable_of_walk hBus') hGapless'.present hBridge' (Sum.inr.inj hItem)
      · cases hItem
    · split at hItem
      · cases hItem
      · exact Sum.inl.inj hItem
  refine ⟨fun {bus} hBus => ?_, fun {bus other item} hBus hBus' hMem hMem' => ?_,
    fun {bus} hBus hChild => ?_, Set.toFinite _⟩
  · refine List.Nodup.map_on (fun address hMem other hMem' hItem => ?_) (nodup_functions bus)
    obtain ⟨rfl, hGapless⟩ := mem_functions_iff.mp hMem
    obtain ⟨hBus', hGapless'⟩ := mem_functions_iff.mp hMem'
    exact hSame hBus (hBus' ▸ hBus) hGapless hGapless' hItem
  · obtain ⟨address, hAddress, rfl⟩ := List.mem_map.mp hMem
    obtain ⟨address', hAddress', hItem⟩ := List.mem_map.mp hMem'
    obtain ⟨rfl, hGapless⟩ := mem_functions_iff.mp hAddress
    obtain ⟨rfl, hGapless'⟩ := mem_functions_iff.mp hAddress'
    rw [hSame hBus hBus' hGapless hGapless' hItem.symm]
  · obtain ⟨address, rfl, hGapless, hBridge, hRoot⟩ := child_iff.mp hChild
    exact h.not_root address (reachable_of_walk hBus) hGapless.present hBridge (.inl hRoot)

/-! ### The three cases of `PciBus::scan` -/

section Scan

variable {depth : Nat}

theorem scan_of_many (hMany : cs.hasMultipleFunctions ⟨0, 0, 0⟩ = true) :
    ∃ rest, scan cs depth = whilePresent cs (scanBus cs depth) (⟨0, 0, 0⟩ :: ⟨0, 0, 1⟩ :: rest) [] :=
  ⟨_, if_pos hMany⟩

/-- Without a host bridge nothing is found. -/
theorem scan_of_none (h : cs.header ⟨0, 0, 0⟩ = none) : scan cs depth = .ok [] := by
  have hMany : cs.hasMultipleFunctions ⟨0, 0, 0⟩ = true := by
    rw [ConfigurationSpace.hasMultipleFunctions, h]
    rfl
  obtain ⟨rest, hScan⟩ := scan_of_many hMany
  rw [hScan, whilePresent_of_none h]

/-- With a second host bridge the assertion of `scan_bus` fails. -/
theorem scan_of_second (h : Present cs ⟨0, 0, 1⟩) (devices : Devices) :
    scan cs depth ≠ .ok devices := by
  obtain ⟨hHost, hOther⟩ := h
  obtain ⟨hMany, hSecond⟩ := hOther.resolve_left (by decide)
  obtain ⟨rest, hScan⟩ := scan_of_many hMany
  rw [hScan, whilePresent_of_isSome hHost]
  intro hOk
  obtain ⟨first, -, hOk⟩ := bind_ok hOk
  rw [whilePresent_of_isSome hSecond] at hOk
  obtain ⟨second, hStops, -⟩ := bind_ok hOk
  cases depth with
  | zero => cases hStops
  | succ depth => cases hStops

/-- Otherwise bus 0 is scanned. -/
theorem scan_of_single (hHost : (cs.header ⟨0, 0, 0⟩).isSome) (hSecond : ¬ Present cs ⟨0, 0, 1⟩) :
    scan cs depth = scanBus cs depth ⟨0, 0, 0⟩ [] := by
  by_cases hMany : cs.hasMultipleFunctions ⟨0, 0, 0⟩ = true
  · have hNone : cs.header ⟨0, 0, 1⟩ = none :=
      Option.not_isSome_iff_eq_none.mp fun hSome => hSecond ⟨hHost, .inr ⟨hMany, hSome⟩⟩
    obtain ⟨rest, hScan⟩ := @scan_of_many cs depth hMany
    rw [hScan, whilePresent_of_isSome hHost]
    cases scanBus cs depth ⟨0, 0, 0⟩ [] with
    | error stop => rfl
    | ok devices => exact whilePresent_of_none hNone
  · exact if_neg hMany

end Scan

/-- The scan finds the leaves of the walk from bus 0. -/
theorem expected_of_walk {found : Devices} {depth : Nat}
    (hLeaves : TreeWalk.leaves (items cs) depth 0 = some found) (hMem : address ∈ found) :
    Expected cs address ∧ Gapless cs address ∧
      ReflTransGen (Child (items cs)) 0 address.bus := by
  obtain ⟨bus, hReach, hItem⟩ := (TreeWalk.mem_leaves hLeaves).mp hMem
  obtain ⟨rfl, hGapless, hBridge⟩ := inl_mem_items_iff.mp hItem
  exact ⟨⟨reachable_of_walk hReach, hGapless.present, hBridge⟩, hGapless, hReach⟩

/-- The scan is complete, if and only if there is no second host bridge, and
every function that it should find is an endpoint with no gap before its number,
on a bus that can be reached over bridges with no gap before theirs. -/
theorem scan_complete_iff (hTree : Treelike cs) :
    Complete cs ↔ ¬ Present cs ⟨0, 0, 1⟩ ∧
      ∀ address, Expected cs address → cs.headerType address = .endpoint ∧
        Gapless cs address ∧ GaplessReachable cs address.bus := by
  constructor
  · rintro ⟨enough, devices, hScan, -, hDevices⟩
    have hEnds := hScan enough le_rfl
    have hSecond : ¬ Present cs ⟨0, 0, 1⟩ := fun hPresent => scan_of_second hPresent devices hEnds
    refine ⟨hSecond, fun address hExpected => ?_⟩
    have hMem := (hDevices address).mpr hExpected
    by_cases hHost : (cs.header ⟨0, 0, 0⟩).isSome
    · rw [scan_of_single hHost hSecond] at hEnds
      obtain ⟨found, hLeaves, hEndpoints, rfl⟩ := (scanBus_ok_iff enough 0 [] devices).mp hEnds
      obtain ⟨-, hGapless, hReach⟩ := expected_of_walk hLeaves hMem
      exact ⟨hEndpoints address hMem, hGapless, gaplessReachable_iff.mpr ⟨hHost, hReach⟩⟩
    · rw [scan_of_none (Option.not_isSome_iff_eq_none.mp hHost)] at hEnds
      obtain rfl := Except.ok.inj hEnds
      cases hMem
  · rintro ⟨hSecond, hFound⟩
    by_cases hHost : (cs.header ⟨0, 0, 0⟩).isSome
    · obtain ⟨enough, found, hLeaves⟩ := hTree.tree.exists_leaves
      refine ⟨enough, found, fun depth hDepth => ?_, hTree.tree.nodup_leaves .refl hLeaves,
        fun address => ⟨fun hMem => (expected_of_walk hLeaves hMem).1, fun hExpected => ?_⟩⟩
      · rw [scan_of_single hHost hSecond]
        exact (scanBus_ok_iff depth 0 [] found).mpr ⟨found, TreeWalk.leaves_mono hDepth hLeaves,
          fun address hMem => (hFound address (expected_of_walk hLeaves hMem).1).1, rfl⟩
      · obtain ⟨-, hGapless, hReach⟩ := hFound address hExpected
        exact (TreeWalk.mem_leaves hLeaves).mpr ⟨address.bus, (gaplessReachable_iff.mp hReach).2,
          inl_mem_items_iff.mpr ⟨rfl, hGapless, hExpected.2.2⟩⟩
    · refine ⟨0, [], fun depth _ => scan_of_none (Option.not_isSome_iff_eq_none.mp hHost),
        List.nodup_nil, fun address => iff_of_false List.not_mem_nil fun hExpected => ?_⟩
      exact hHost (gaplessReachable_iff.mp (hFound address hExpected).2.2).1

def endpointHeader (multipleFunctions : Bool) : Header :=
  ⟨0x8086, .endpoint, multipleFunctions, 0, by decide⟩

def ofList (functions : List (PciAddress × Header)) : ConfigurationSpace :=
  ⟨fun address => (functions.find? fun function => function.1 = address).map Prod.snd⟩

theorem mem_of_header {functions : List (PciAddress × Header)} {header : Header}
    (h : (ofList functions).header address = some header) : (address, header) ∈ functions := by
  obtain ⟨function, hFind, rfl⟩ := Option.map_eq_some_iff.mp h
  obtain rfl : function.1 = address := by simpa using List.find?_some hFind
  exact List.mem_of_find?_eq_some hFind

theorem Present.exists_header (h : Present cs address) : ∃ header, cs.header address = some header := by
  obtain ⟨hFirst, hZero | ⟨-, hSome⟩⟩ := h
  · rw [← hZero] at hFirst
    exact Option.isSome_iff_exists.mp hFirst
  · exact Option.isSome_iff_exists.mp hSome

theorem headerType_of_header {header : Header} (h : cs.header address = some header) :
    cs.headerType address = header.headerType := by
  rw [ConfigurationSpace.headerType, h]
  rfl

/-- A host bridge, and a device with the functions 0, 2 and 3. -/
def gapSpace : ConfigurationSpace :=
  ofList [(⟨0, 0, 0⟩, endpointHeader false), (⟨0, 31, 0⟩, endpointHeader true),
    (⟨0, 31, 2⟩, endpointHeader false), (⟨0, 31, 3⟩, endpointHeader false)]

/-- The functions after the gap are not found. -/
theorem gap_ends_scan : Treelike gapSpace ∧
    (∀ depth, scan gapSpace (depth + 1) = .ok [⟨0, 0, 0⟩, ⟨0, 31, 0⟩]) ∧
    Expected gapSpace ⟨0, 31, 2⟩ ∧ ¬ Complete gapSpace := by
  have hNoBridge : ∀ address, Present gapSpace address → ¬ IsBridge gapSpace address := by
    intro address hPresent hBridge
    obtain ⟨header, hHeader⟩ := hPresent.exists_header
    rw [IsBridge, headerType_of_header hHeader] at hBridge
    have hMem := mem_of_header hHeader
    simp only [List.mem_cons, Prod.mk.injEq, List.not_mem_nil, or_false] at hMem
    rcases hMem with ⟨-, rfl⟩ | ⟨-, rfl⟩ | ⟨-, rfl⟩ | ⟨-, rfl⟩ <;> cases hBridge
  have hScan : ∀ depth, scan gapSpace (depth + 1) = .ok [⟨0, 0, 0⟩, ⟨0, 31, 0⟩] := by
    intro depth
    have hItems : items gapSpace 0 = [.inl ⟨0, 0, 0⟩, .inl ⟨0, 31, 0⟩] := by decide +kernel
    rw [scan_of_single (by decide) (by decide), scanBus_succ, hItems]
    rfl
  have hExpected : Expected gapSpace ⟨0, 31, 2⟩ :=
    ⟨.root (.inl rfl), by decide, hNoBridge _ (by decide)⟩
  refine ⟨⟨fun address _ _ hPresent hBridge => absurd hBridge (hNoBridge address hPresent),
    fun address _ hPresent hBridge => absurd hBridge (hNoBridge address hPresent)⟩, hScan,
    hExpected, ?_⟩
  rintro ⟨enough, devices, hEnds, -, hDevices⟩
  obtain rfl := Except.ok.inj ((hScan enough).symm.trans (hEnds (enough + 1) (Nat.le_succ _)))
  exact absurd ((hDevices _).mpr hExpected) (by decide)

/-- A host bridge, a bridge to bus 1, and a device with two functions there. -/
def bridgeSpace : ConfigurationSpace :=
  ofList [(⟨0, 0, 0⟩, endpointHeader false), (⟨0, 1, 0⟩, ⟨0x1b36, .pciPciBridge, false, 1, by decide⟩),
    (⟨1, 0, 0⟩, endpointHeader true), (⟨1, 0, 1⟩, endpointHeader false)]

theorem bridge_space_complete : Complete bridgeSpace := by
  have hMem : ∀ address, Present bridgeSpace address → address = ⟨0, 0, 0⟩ ∨ address = ⟨0, 1, 0⟩ ∨
      address = ⟨1, 0, 0⟩ ∨ address = ⟨1, 0, 1⟩ := by
    intro address hPresent
    obtain ⟨header, hHeader⟩ := hPresent.exists_header
    have hMem := List.mem_map_of_mem (f := Prod.fst) (mem_of_header hHeader)
    simpa using hMem
  have hBridge : ∀ address, Present bridgeSpace address → IsBridge bridgeSpace address →
      address = ⟨0, 1, 0⟩ := by
    intro address hPresent hBridge
    obtain rfl | rfl | rfl | rfl := hMem address hPresent
    · exact absurd hBridge (by decide)
    · rfl
    · exact absurd hBridge (by decide)
    · exact absurd hBridge (by decide)
  have hTree : Treelike bridgeSpace := by
    refine ⟨fun address other _ hPresent hFirst _ hPresent' hSecond _ => ?_,
      fun address _ hPresent hFirst hIsRoot => ?_⟩
    · exact (hBridge address hPresent hFirst).trans (hBridge other hPresent' hSecond).symm
    · obtain rfl := hBridge address hPresent hFirst
      obtain hZero | ⟨i, hHost, hBus⟩ := hIsRoot
      · exact absurd hZero (by decide)
      · have hOnly : ∀ i : Fin 8, Present bridgeSpace ⟨0, 0, i⟩ → i = 0 := by decide
        obtain rfl := hOnly i hHost
        exact absurd hBus (by decide)
  have hBus : GaplessReachable bridgeSpace 1 :=
    @GaplessReachable.bridge bridgeSpace ⟨0, 1, 0⟩ (.root rfl) (by decide) rfl
  refine (scan_complete_iff hTree).mpr ⟨by decide, fun address ⟨_, hPresent, hNot⟩ => ?_⟩
  obtain rfl | rfl | rfl | rfl := hMem address hPresent
  · exact ⟨rfl, by decide, .root rfl⟩
  · exact absurd rfl hNot
  · exact ⟨rfl, by decide, hBus⟩
  · exact ⟨rfl, by decide, hBus⟩

end D3OS.Device.PciBus
