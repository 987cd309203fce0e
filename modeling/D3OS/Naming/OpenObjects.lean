import D3OS.Library.AssocList
import D3OS.Naming.Tmpfs

/-! The table of open objects and the calls of the naming service. The table
keeps a vector of handles with their objects, from which `swap_remove` takes
entries, and an array that marks the handles in use. -/
namespace D3OS.Naming

def MAX_OPEN_OBJECTS : Nat := 0x1000

structure OpenOptions where
  bits : Nat
  deriving DecidableEq, Repr

namespace OpenOptions

def READONLY : OpenOptions := ⟨1⟩
def READWRITE : OpenOptions := ⟨2⟩
def CREATE : OpenOptions := ⟨3⟩
def EXCLUSIVE : OpenOptions := ⟨4⟩
def DIRECTORY : OpenOptions := ⟨5⟩

def all : OpenOptions :=
  ⟨READONLY.bits ||| READWRITE.bits ||| CREATE.bits ||| EXCLUSIVE.bits ||| DIRECTORY.bits⟩

/-- No bit is set that no flag has. -/
def fromBits (bits : Nat) : Option OpenOptions :=
  if bits &&& all.bits = bits then some ⟨bits⟩ else none

def contains (self other : OpenOptions) : Bool :=
  self.bits &&& other.bits == other.bits

end OpenOptions

inductive SeekOrigin where
  | start
  | «end»
  | current
  deriving DecidableEq, Repr

/-- Every other number stands for the default. -/
def SeekOrigin.fromPrimitive (origin : Nat) : SeekOrigin :=
  if origin = 2 then .end else if origin = 3 then .current else .start

structure OpenedObject where
  namedObject : NamedObject
  pos : Nat
  options : OpenOptions
  deriving DecidableEq, Repr

structure OpenObjectTable where
  openHandles : List (Nat × Option OpenedObject)
  /-- `0` marks a free handle. -/
  freeHandles : List Nat
  deriving DecidableEq, Repr

namespace OpenObjectTable

def new : OpenObjectTable := ⟨[], List.replicate MAX_OPEN_OBJECTS 0⟩

variable (self : OpenObjectTable)

def lookupOpenedObject (openedObjectHandle : Nat) : Except Errno OpenedObject :=
  match self.openHandles.find? fun entry => entry.1 == openedObjectHandle with
  | some (_, some openedObject) => .ok openedObject
  | _ => .error .EINVALH

/-- Storing a position through the reference that `lookup_opened_object`
returns. -/
def setPos (openedObjectHandle pos : Nat) : OpenObjectTable :=
  let index := self.openHandles.findIdx fun entry => entry.1 == openedObjectHandle
  { self with
    openHandles := self.openHandles.modify index fun entry =>
      (entry.1, entry.2.map fun openedObject => { openedObject with pos := pos }) }

def findFreeHandle : Option (Nat × OpenObjectTable) :=
  match self.freeHandles.findIdx? fun value => value == 0 with
  | some index => some (index, { self with freeHandles := self.freeHandles.set index 1 })
  | none => none

def allocateHandle (openedObject : OpenedObject) : SyscallResult × OpenObjectTable :=
  match self.findFreeHandle with
  | none => (.error .ENOHANDLES, self)
  | some (newHandle, self) =>
    (.ok newHandle, { self with openHandles := self.openHandles ++ [(newHandle, some openedObject)] })

/-- The mark that is cleared is the one at the position of the entry. -/
def freeHandle (openedObjectHandle : Nat) : Except Panic (SyscallResult × OpenObjectTable) :=
  match self.openHandles.findIdx? fun entry => entry.1 == openedObjectHandle with
  | none => .ok (.error .EINVALH, self)
  | some index =>
    if index < self.freeHandles.length then
      .ok (.ok 0, ⟨AssocList.swapRemove self.openHandles index, self.freeHandles.set index 0⟩)
    else .error .sliceIndex

end OpenObjectTable

/-- The state of the naming service: `ROOT`, `OPEN_OBJECTS` and `CWD`. -/
structure NamingService where
  root : TmpFs
  openObjects : OpenObjectTable
  cwd : Text
  deriving DecidableEq, Repr

namespace NamingService

def init : NamingService := ⟨TmpFs.new, OpenObjectTable.new, ['/']⟩

variable (self : NamingService)

/-- `open_objects::open`. -/
def openObject (path : Text) (flags : OpenOptions) : SyscallResult × NamingService :=
  match lookupNamedObject self.root path with
  | .error _ => (.error .ENOENT, self)
  | .ok found =>
    if flags.contains .DIRECTORY && !found.isDir then (.error .ENOTDIR, self)
    else
      let (result, openObjects) := self.openObjects.allocateHandle ⟨found, 0, flags⟩
      (result, { self with openObjects := openObjects })

def mkdir (path : Text) : SyscallResult × NamingService :=
  let (result, root) := Naming.mkdir self.root path
  (result, { self with root := root })

def touch (path : Text) : SyscallResult × NamingService :=
  let (result, root) := Naming.touch self.root path
  (result, { self with root := root })

/-- `api::open`. -/
def openOrCreate (path : Text) (flags : OpenOptions) : SyscallResult × NamingService :=
  match self.openObject path flags with
  | (.ok handle, self) => (.ok handle, self)
  | (.error e, self) =>
    if flags.contains .CREATE then
      match self.touch path with
      | (.ok _, self) => self.openObject path flags
      | (.error e, self) => (.error e, self)
    else (.error e, self)

/-- `lookup_opened_object` and then `as_file`. -/
def openedFile (fh : Nat) : Except Errno (OpenedObject × Nat) := do
  let openedObject ← self.openObjects.lookupOpenedObject fh
  let file ← openedObject.namedObject.asFile
  return (openedObject, file)

def write (profile : BuildProfile) (room : Nat) (self : NamingService) (fh : Nat)
    (buf : List UInt8) : Except Panic (SyscallResult × NamingService) :=
  match self.openedFile fh with
  | .error e => .ok (.error e, self)
  | .ok (openedObject, file) => do
    let pos := openedObject.pos
    let (bytesWritten, content) ← (self.root.file file).write profile room buf pos
    let pos ← profile.word (pos + bytesWritten)
    return (.ok bytesWritten,
      { self with root := self.root.setFile file content
                  openObjects := self.openObjects.setPos fh pos })

/-- The buffer after the call is returned with the result. -/
def read (profile : BuildProfile) (self : NamingService) (fh : Nat) (buf : List UInt8) :
    Except Panic (SyscallResult × List UInt8 × NamingService) :=
  match self.openedFile fh with
  | .error e => .ok (.error e, buf, self)
  | .ok (openedObject, file) => do
    let pos := openedObject.pos
    let (bytesRead, buf) := (self.root.file file).read buf pos
    let pos ← profile.word (pos + bytesRead)
    return (.ok bytesRead, buf, { self with openObjects := self.openObjects.setPos fh pos })

def seek (profile : BuildProfile) (self : NamingService) (fh offset : Nat) (origin : SeekOrigin) :
    Except Panic (SyscallResult × NamingService) :=
  match self.openedFile fh with
  | .error e => .ok (.error e, self)
  | .ok (openedObject, file) => do
    let newPos ← match origin with
      | .start => pure offset
      | .end => profile.word ((self.root.file file).stat.size + offset)
      | .current => profile.word (openedObject.pos + offset)
    return (.ok 0, { self with openObjects := self.openObjects.setPos fh newPos })

def close (handle : Nat) :
    Except Panic (SyscallResult × NamingService) := do
  let (result, openObjects) ← self.openObjects.freeHandle handle
  return (result, { self with openObjects := openObjects })

def cd (path : Text) : SyscallResult × NamingService :=
  match lookupDir self.root path with
  | .ok _ => (.ok 0, { self with cwd := path })
  | .error _ => (.error .ENOTDIR, self)

end NamingService

end D3OS.Naming
