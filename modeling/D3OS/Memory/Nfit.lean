import D3OS.Kernel.Arithmetic
import D3OS.Library.LittleEndian

/-! The walk through the NVDIMM firmware interface table. Every structure of
the table states its own length, and the walk follows these lengths without
looking at the end of the table. -/
namespace D3OS.Memory

open Outcome

/-- The memory from the first byte of the table on. What lies behind the table
can be anything. -/
structure Nfit where
  memory : Nat → UInt8

namespace Nfit

/-- `size_of::<Nfit>()`: the header of 36 bytes and a reserved word. -/
def size : Nat := 40

/-- `size_of::<NfitStructureHeader>()` -/
def headerSize : Nat := 4

/-- `size_of::<SystemPhysicalAddressRange>()` -/
def rangeSize : Nat := 52

/-- `NfitStructureType::SystemPhysicalAddressRange` -/
def systemPhysicalAddressRange : Nat := 0

variable (profile : BuildProfile) (self : Nfit)

def read (ptr count : Nat) : Nat :=
  LittleEndian.ofBytes ((List.range count).map fun i => self.memory (ptr + i))

/-- `header.length` -/
def length : Nat := self.read 4 4

def typ (ptr : Nat) : Nat := self.read ptr 2

def structureLength (ptr : Nat) : Nat := self.read (ptr + 2) 2

/-- The loop of `get_structures`. There is no list if it does not end within
the given number of rounds. -/
def getStructuresFrom (profile : BuildProfile) (self : Nfit) :
    Nat → Nat → Nat → Except Panic (Option (List Nat))
  | 0, _, _ => .ok none
  | rounds + 1, structurePtr, remaining =>
    if 0 < remaining then do
      let structureLength := self.structureLength structurePtr
      let remaining ← profile.unsignedSub 64 remaining structureLength
      let rest ← getStructuresFrom profile self rounds (structurePtr + structureLength) remaining
      return rest.map (structurePtr :: ·)
    else .ok (some [])

/-- The structures are given by their offsets in the table. -/
def getStructures (rounds : Nat) :
    Except Panic (Option (List Nat)) := do
  let remaining ← profile.unsignedSub 64 self.length size
  self.getStructuresFrom profile rounds size remaining

def getPhysAddrRanges (rounds : Nat) :
    Except Panic (Option (List Nat)) := do
  let structures ← self.getStructures profile rounds
  return structures.map (·.filter fun ptr => self.typ ptr == systemPhysicalAddressRange)

/-- The walk ends, and what it reads and returns lies inside of the table. -/
def StaysInside : Prop :=
  ∃ rounds structures ranges, self.getStructures profile rounds = .ok (some structures) ∧
    self.getPhysAddrRanges profile rounds = .ok (some ranges) ∧
    (∀ ptr ∈ structures, ptr + headerSize ≤ self.length ∧
      ptr + self.structureLength ptr ≤ self.length) ∧
    ∀ ptr ∈ ranges, ptr + rangeSize ≤ self.length

/-- The stated lengths are positive and lead from an offset to the end of the
table. -/
inductive Tiles (self : Nfit) : Nat → List Nat → Prop where
  | stop : Tiles self self.length []
  | next {ptr : Nat} {rest : List Nat} (hPos : 0 < self.structureLength ptr)
      (hFits : ptr + self.structureLength ptr ≤ self.length)
      (hRest : Tiles self (ptr + self.structureLength ptr) rest) : Tiles self ptr (ptr :: rest)

/-- The structures fill the table, and each of them has the bytes that are read
of it. -/
def WellFormed : Prop :=
  ∃ structures, self.Tiles size structures ∧ ∀ ptr ∈ structures,
    ptr + headerSize ≤ self.length ∧
      (self.typ ptr = systemPhysicalAddressRange → ptr + rangeSize ≤ self.length)

variable {nfit : Nfit} {ptr remaining rounds : Nat} {structures : List Nat}

theorem Tiles.pos (h : nfit.Tiles ptr structures) (hLt : ptr < nfit.length) :
    0 < nfit.structureLength ptr := by
  cases h with
  | stop => exact absurd hLt (Nat.lt_irrefl _)
  | next hPos => exact hPos

theorem Tiles.fits (h : nfit.Tiles ptr structures) :
    ∀ other ∈ structures, other + nfit.structureLength other ≤ nfit.length := by
  induction h with
  | stop => exact fun other hMem => absurd hMem List.not_mem_nil
  | next hPos hFits hRest ih =>
    intro other hMem
    rcases List.mem_cons.mp hMem with rfl | hMem
    · exact hFits
    · exact ih other hMem

/-- A tiled table is walked to its end. -/
theorem getStructuresFrom_of_tiles (h : nfit.Tiles ptr structures) :
    nfit.getStructuresFrom profile (structures.length + 1) ptr (nfit.length - ptr) =
      .ok (some structures) := by
  induction h with
  | stop => simp [getStructuresFrom]
  | @next ptr rest hPos hFits hRest ih =>
    have hStep : profile.unsignedSub 64 (nfit.length - ptr) (nfit.structureLength ptr) =
        .ok (nfit.length - (ptr + nfit.structureLength ptr)) := by
      rw [profile.unsignedSub_of_le 64 (by omega), Nat.sub_sub]
    rw [List.length_cons, getStructuresFrom, if_pos (by omega)]
    simp only [hStep, bind_of_ok, ih]
    rfl

/-- A walk that ends and stays inside of the table has followed a tiling. -/
theorem tiles_of_getStructuresFrom {profile : BuildProfile}
    (hWalk : nfit.getStructuresFrom profile rounds ptr remaining = .ok (some structures))
    (hEnd : ptr + remaining = nfit.length)
    (hFits : ∀ other ∈ structures, other + nfit.structureLength other ≤ nfit.length) :
    nfit.Tiles ptr structures := by
  induction rounds generalizing ptr remaining structures with
  | zero => cases hWalk
  | succ rounds ih =>
    rw [getStructuresFrom] at hWalk
    by_cases hRemaining : 0 < remaining
    · rw [if_pos hRemaining] at hWalk
      obtain ⟨after, hAfter, hWalk⟩ := bind_ok hWalk
      obtain ⟨rest, hRest, hWalk⟩ := bind_ok hWalk
      cases rest with
      | none => cases hWalk
      | some rest =>
        obtain rfl := Option.some.inj (pure_ok hWalk)
        have hHere := hFits ptr List.mem_cons_self
        rw [profile.unsignedSub_of_le 64 (by omega)] at hAfter
        obtain rfl := Except.ok.inj hAfter
        have hTiles := ih hRest (by omega) fun other hMem =>
          hFits other (List.mem_cons_of_mem ptr hMem)
        refine .next (Nat.pos_of_ne_zero fun hZero => ?_) hHere hTiles
        -- A structure of length 0 would be its own successor.
        have hPos := hTiles.pos (by omega)
        rw [hZero, Nat.add_zero, hZero] at hPos
        omega
    · rw [if_neg hRemaining] at hWalk
      obtain rfl := Option.some.inj (Except.ok.inj hWalk)
      obtain rfl : ptr = nfit.length := by omega
      exact .stop

theorem getPhysAddrRanges_of_ok {profile : BuildProfile}
    (h : nfit.getStructures profile rounds = .ok (some structures)) :
    nfit.getPhysAddrRanges profile rounds =
      .ok (some (structures.filter fun ptr => nfit.typ ptr == systemPhysicalAddressRange)) := by
  rw [getPhysAddrRanges, h]
  rfl

/-- The walk ends and stays inside of the table exactly if the structures fill
the table and are long enough. -/
theorem staysInside_iff (hLength : size ≤ nfit.length) :
    nfit.StaysInside profile ↔ nfit.WellFormed := by
  have hStart : ∀ rounds, nfit.getStructures profile rounds =
      nfit.getStructuresFrom profile rounds size (nfit.length - size) := by
    intro rounds
    rw [getStructures, profile.unsignedSub_of_le 64 hLength, bind_of_ok]
  constructor
  · rintro ⟨rounds, structures, ranges, hWalk, hRanges, hInside, hRead⟩
    rw [getPhysAddrRanges_of_ok hWalk] at hRanges
    obtain rfl := Option.some.inj (Except.ok.inj hRanges)
    rw [hStart] at hWalk
    refine ⟨structures, tiles_of_getStructuresFrom hWalk (by omega)
      fun ptr hMem => (hInside ptr hMem).2, fun ptr hMem => ⟨(hInside ptr hMem).1, fun hTyp => ?_⟩⟩
    exact hRead ptr (List.mem_filter.mpr ⟨hMem, by simp [hTyp]⟩)
  · rintro ⟨structures, hTiles, hEach⟩
    have hWalk : nfit.getStructures profile (structures.length + 1) = .ok (some structures) := by
      rw [hStart]
      exact getStructuresFrom_of_tiles profile hTiles
    refine ⟨_, structures, _, hWalk, getPhysAddrRanges_of_ok hWalk,
      fun ptr hMem => ⟨(hEach ptr hMem).1, hTiles.fits ptr hMem⟩, fun ptr hMem => ?_⟩
    obtain ⟨hMem, hTyp⟩ := List.mem_filter.mp hMem
    exact (hEach ptr hMem).2 (by simpa using hTyp)

/-- A table of the given length, with one structure of the given length at its
beginning. -/
def oneStructure (length structureLength : UInt8) : Nfit :=
  ⟨fun i => if i = 4 then length else if i = 42 then structureLength else 0⟩

theorem staysInside_one_range : (oneStructure 96 56).StaysInside .development := by
  refine (staysInside_iff .development (by decide)).mpr ⟨[40], ?_, by decide⟩
  exact .next (by decide) (by decide) .stop

/-- A walk that comes to a structure of length 0 does not end. -/
theorem getStructuresFrom_of_zero (hZero : nfit.structureLength ptr = 0)
    (hRemaining : 0 < remaining) (rounds : Nat) :
    nfit.getStructuresFrom profile rounds ptr remaining = .ok none := by
  induction rounds with
  | zero => rfl
  | succ rounds ih =>
    rw [getStructuresFrom, if_pos hRemaining]
    simp only [hZero, profile.unsignedSub_of_le 64 (Nat.zero_le remaining), bind_of_ok,
      Nat.add_zero, Nat.sub_zero, ih]
    rfl

/-- A structure of length 0 keeps the walk from ending. A structure that is one
byte longer than the table stops a development build; in a production build the
walk goes on behind the table, where it does not end either. -/
theorem walk_leaves_table :
    (∀ profile rounds, (oneStructure 96 0).getStructures profile rounds = .ok none) ∧
      (oneStructure 96 57).getStructures .development 1 = .error .arithmeticOverflow ∧
      ∀ rounds, (oneStructure 96 57).getStructures .production rounds = .ok none := by
  refine ⟨fun profile rounds => ?_, rfl, fun rounds => ?_⟩
  · rw [getStructures, profile.unsignedSub_of_le 64 (by decide), bind_of_ok]
    exact getStructuresFrom_of_zero profile (by decide) (by decide) rounds
  · cases rounds with
    | zero => rfl
    | succ rounds =>
      have hBehind := getStructuresFrom_of_zero .production
        (show (oneStructure 96 57).structureLength 97 = 0 by decide)
        (show 0 < 2 ^ 64 - 1 by decide) rounds
      exact congrArg (Option.map (40 :: ·) <$> ·) hBehind

end Nfit

end D3OS.Memory
