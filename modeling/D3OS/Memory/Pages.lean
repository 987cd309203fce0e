import D3OS.Memory.Physical

/-! Page tables. A table is the frame it lies in; its 512 entries are the
words of that frame. Tables are reached through the identity mapping of the
kernel, so following an entry means going to the frame it holds. -/
namespace D3OS.Memory

/-- `pages.end - pages.start`, which panics on a reversed range. -/
def PageRange.count (pages : PageRange) : Except Panic Nat :=
  if pages.stop < pages.start then .error .addressUnderflow else .ok (pages.stop - pages.start)

namespace Paging

/-- `page_table_index`, on the number of the page that holds the address. -/
def pageTableIndex (page level : Nat) : Nat := page / 512 ^ (level - 1) % 512

variable (m : Machine) (table : Nat) (profile : BuildProfile) (self : Paging)
  (frames : Frames.PhysFrameRange) (pages : PageRange)

/-- The number of pages of the range that lie in the same level 1 table as
its first page. -/
def countInTable : Except Panic Nat := do
  let count ← pages.count
  return min count (512 - pageTableIndex pages.start 1)

def new (depth : Nat) : Except Panic (Paging × Machine) := do
  let (range, m) ← m.alloc 1
  return (⟨range.start, depth⟩, m.zero range.start)

/-- `copy_table`. On the levels above 1 every table is allocated anew; a
level 1 table is copied entry by entry. -/
def copyTable : Nat → Machine → Nat → Nat → Except Panic Machine
  | level + 2, m, source, target =>
    forIn (List.range' 0 512) m fun index m => do
      let sourceEntry := m.read source index
      if sourceEntry.isUnused then
        return .yield (m.write target index PageTableEntry.unused)
      else
        let (range, m) ← m.alloc 1
        let targetEntry ← PageTableEntry.setFrame range.start sourceEntry.flags
        let m := m.write target index targetEntry
        let m ← copyTable (level + 1) m sourceEntry.frame targetEntry.frame
        return .yield m
  | _, m, source, target =>
    forIn (List.range' 0 512) m fun index m =>
      return .yield (m.write target index (m.read source index))

def fromOther (other : Paging) : Except Panic (Paging × Machine) := do
  let (addressSpace, m) ← new m other.depth
  let m ← copyTable other.depth m other.rootTable addressSpace.rootTable
  return (addressSpace, m)

/-- The table behind an entry, allocated and cleared if the entry is unused. -/
def nextLevelTable (index : Nat) (flags : PageTableFlags) : Except Panic (Nat × Machine) :=
  let entry := m.read table index
  if entry.isUnused then do
    let (range, m) ← m.alloc 1
    let entry ← PageTableEntry.setFrame range.start flags
    let m := m.write table index entry
    return (entry.frame, m.zero entry.frame)
  else return (entry.frame, m)

def identityMapKernel (flags : PageTableFlags) :
    Except Panic (Machine × Nat) := do
  let startIndex := pageTableIndex pages.start 1
  let allocCount ← countInTable pages
  if pages.start < 2 ^ 40 then
    let m ← forIn (List.range' 0 allocCount) m fun count m =>
      return .yield (m.write table (startIndex + count) ⟨pages.start + count, flags⟩)
    return (m, allocCount)
  else .error .invalidPhysAddr

/-- `map_user`: every entry gets a freshly allocated frame. -/
def mapUser (flags : PageTableFlags) :
    Except Panic (Machine × Nat) := do
  let startIndex := pageTableIndex pages.start 1
  let allocCount ← countInTable pages
  let m ← forIn (List.range' 0 allocCount) m fun count m => do
    let (range, m) ← m.alloc 1
    let entry ← PageTableEntry.setFrame range.start flags
    return .yield (m.write table (startIndex + count) entry)
  return (m, allocCount)

/-- `map_user_physical`: the entries get the given frames one after the other. -/
def mapUserPhysical (flags : PageTableFlags) : Except Panic (Machine × Nat) := do
  let startIndex := pageTableIndex pages.start 1
  let allocCount ← countInTable pages
  let m ← forIn (List.range' 0 allocCount) m fun count m =>
    if frames.start + count < frames.stop then do
      let entry ← PageTableEntry.setFrame (frames.start + count) flags
      return .yield (m.write table (startIndex + count) entry)
    else .error .unwrapFailed
  return (m, allocCount)

/-- The part of `map_in_table` for a level 1 table. -/
def mapLeaves (space : MemorySpace) (flags : PageTableFlags) : Except Panic (Machine × Nat) :=
  match space with
  | .kernel => identityMapKernel m table pages flags
  | .user =>
    if frames.start = frames.stop then mapUser m table pages flags
    else mapUserPhysical m table frames pages flags

/-- The frames left over for the next table; an empty range stays as it is. -/
def advance (count : Nat) : Frames.PhysFrameRange :=
  if frames.stop > frames.start then ⟨frames.start + count, frames.stop⟩ else frames

/-- `map_in_table`. The result counts the mapped pages. -/
def mapInTable (profile : BuildProfile) : Nat → Machine → Nat → Frames.PhysFrameRange →
    PageRange → MemorySpace → PageTableFlags → Except Panic (Machine × Nat)
  | level + 2, m, table, frames, pages, space, flags => do
    let startIndex := pageTableIndex pages.start (level + 2)
    let (m, _, _, total) ←
      forIn (List.range' startIndex (512 - startIndex)) (m, frames, pages.start, 0)
        fun index (m, frames, start, total) => do
          let (nextTable, m) ← nextLevelTable m table index flags
          let (m, allocated) ←
            mapInTable profile (level + 1) m nextTable frames ⟨start, pages.stop⟩ space flags
          let start ← Page.add profile start allocated
          let frames := advance frames allocated
          if start ≥ pages.stop then return .done (m, frames, start, total + allocated)
          else return .yield (m, frames, start, total + allocated)
    return (m, total)
  | _, m, table, frames, pages, space, flags => mapLeaves m table frames pages space flags

def isTableEmpty : Bool :=
  (List.range 512).all fun index => (m.read table index).isUnused

/-- Free the table behind an entry if it has become empty. -/
def freeIfEmpty (index nextTable : Nat) : Except Panic Machine :=
  if isTableEmpty m nextTable then do
    let m ← m.free ⟨nextTable, nextTable + 1⟩
    return m.write table index PageTableEntry.unused
  else return m

/-- The part of `unmap_in_table` for one entry of a level 1 table. -/
def unmapEntry (index : Nat) (freePhysical : Bool) : Except Panic Machine :=
  let entry := m.read table index
  if entry.isUnused then return m
  else do
    let m ← if freePhysical then m.free ⟨entry.frame, entry.frame + 1⟩ else pure m
    return m.write table index PageTableEntry.unused

/-- `unmap_in_table`. An unused entry is passed over with `pages.start` left
as it is. The result counts the freed pages. -/
def unmapInTable (profile : BuildProfile) (freePhysical : Bool) :
    Nat → Machine → Nat → PageRange → Except Panic (Machine × Nat)
  | level + 2, m, table, pages => do
    let startIndex := pageTableIndex pages.start (level + 2)
    let (m, _, total) ←
      forIn (List.range' startIndex (512 - startIndex)) (m, pages.start, 0)
        fun index (m, start, total) => do
          let entry := m.read table index
          if entry.isUnused then return .yield (m, start, total)
          else
            let (m, freed) ←
              unmapInTable profile freePhysical (level + 1) m entry.frame ⟨start, pages.stop⟩
            let start ← Page.add profile start freed
            let m ← freeIfEmpty m table index entry.frame
            if start ≥ pages.stop then return .done (m, start, total + freed)
            else return .yield (m, start, total + freed)
    return (m, total)
  | _, m, table, pages => do
    let startIndex := pageTableIndex pages.start 1
    let freeCount ← countInTable pages
    let m ← forIn (List.range' 0 freeCount) m fun count m => do
      let m ← unmapEntry m table (startIndex + count) freePhysical
      return .yield m
    return (m, freeCount)

/-- `drop_table`. The entries that hold a frame are followed, then the table
itself is cleared and freed. -/
def dropTable : Nat → Machine → Nat → Except Panic Machine
  | level + 2, m, table => do
    let m ← forIn (List.range' 0 512) m fun index m => do
      let entry := m.read table index
      if entry.frame = 0 then return .yield m
      else
        let m ← dropTable (level + 1) m entry.frame
        return .yield m
    (m.zero table).free ⟨table, table + 1⟩
  | _, m, table => (m.zero table).free ⟨table, table + 1⟩

/-- `set_flags_in_table`. The result counts the edited pages. -/
def setFlagsInTable (profile : BuildProfile) (flags : PageTableFlags) :
    Nat → Machine → Nat → PageRange → Except Panic (Machine × Nat)
  | level + 2, m, table, pages => do
    let startIndex := pageTableIndex pages.start (level + 2)
    let (m, _, total) ←
      forIn (List.range' startIndex (512 - startIndex)) (m, pages.start, 0)
        fun index (m, start, total) => do
          let entry := m.read table index
          if entry.isUnused then return .yield (m, start, total)
          else
            let (m, edited) ←
              setFlagsInTable profile flags (level + 1) m entry.frame ⟨start, pages.stop⟩
            let start ← Page.add profile start edited
            if start ≥ pages.stop then return .done (m, start, total + edited)
            else return .yield (m, start, total + edited)
    return (m, total)
  | _, m, table, pages => do
    let startIndex := pageTableIndex pages.start 1
    let editCount ← countInTable pages
    let m ← forIn (List.range' 0 editCount) m fun count m =>
      return .yield (m.write table (startIndex + count)
        ⟨(m.read table (startIndex + count)).frame, flags⟩)
    return (m, editCount)

def translateInTable (m : Machine) : Nat → Nat → Nat → Option Nat
  | level + 2, table, addr =>
    let entry := m.read table (pageTableIndex (addr / PAGE_SIZE) (level + 2))
    if entry.isUnused then none else translateInTable m (level + 1) entry.frame addr
  | _, table, addr =>
    let entry := m.read table (pageTableIndex (addr / PAGE_SIZE) 1)
    if entry.isUnused then none else some (PAGE_SIZE * entry.frame + addr % PAGE_SIZE)

/-- `map`: the pages are identity mapped in kernel space and get new frames
in user space. -/
def map (m : Machine) (pages : PageRange) (space : MemorySpace) (flags : PageTableFlags)
    : Except Panic Machine := do
  let (m, _) ← mapInTable profile self.depth m self.rootTable ⟨0, 0⟩ pages space flags
  return m

def mapPhysical (m : Machine) (frames : Frames.PhysFrameRange) (pages : PageRange)
    (space : MemorySpace) (flags : PageTableFlags) : Except Panic Machine := do
  let frameCount ← frames.len
  let pageCount ← pages.count
  if frameCount = pageCount then
    let (m, _) ← mapInTable profile self.depth m self.rootTable frames pages space flags
    return m
  else .error .assertionFailed

def translate (m : Machine) (addr : Nat) : Option Nat :=
  translateInTable m self.depth self.rootTable addr

def unmap (m : Machine) (pages : PageRange) (freePhysical : Bool) : Except Panic Machine := do
  let (m, _) ← unmapInTable profile freePhysical self.depth m self.rootTable pages
  return m

def setFlags (m : Machine) (pages : PageRange) (flags : PageTableFlags) : Except Panic Machine := do
  let (m, _) ← setFlagsInTable profile flags self.depth m self.rootTable pages
  return m

def drop (m : Machine) : Except Panic Machine :=
  dropTable self.depth m self.rootTable

end Paging

end D3OS.Memory
