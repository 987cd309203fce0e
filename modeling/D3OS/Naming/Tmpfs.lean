import D3OS.Kernel.Arithmetic
import D3OS.Kernel.Errno

/-! The temporary file system of the naming service: directories and files in
main memory, the lookup of a path and the creation of a named object.
Directories and files are shared through `Arc`, so an object is known by its
number here: its place in the list of all directories or of all files, in the
order in which they were created. -/
namespace D3OS.Naming

/-- A Rust `str`: the sequence of its characters. -/
abbrev Text := List Char

inductive ObjectKind where
  | file
  | directory
  deriving DecidableEq, Repr

/-- `TmpFsINode` in a directory, `NamedObject` outside of it. -/
inductive NamedObject where
  | fileObject (file : Nat)
  | directoryObject (dir : Nat)
  deriving DecidableEq, Repr

def NamedObject.kind : NamedObject → ObjectKind
  | .fileObject _ => .file
  | .directoryObject _ => .directory

def NamedObject.asFile : NamedObject → Except Errno Nat
  | .fileObject file => .ok file
  | .directoryObject _ => .error .EBADF

def NamedObject.asDir : NamedObject → Except Errno Nat
  | .fileObject _ => .error .EBADF
  | .directoryObject dir => .ok dir

def NamedObject.isDir : NamedObject → Bool
  | .fileObject _ => false
  | .directoryObject _ => true

structure Stat where
  size : Nat
  deriving DecidableEq, Repr

def Stat.zeroed : Stat := ⟨0⟩

structure Dir where
  files : List (Text × NamedObject)
  deriving DecidableEq, Repr

def Dir.new : Dir := ⟨[]⟩

def Dir.lookup (self : Dir) (name : Text) : Except Errno NamedObject :=
  match self.files.find? fun entry => entry.1 == name with
  | some entry => .ok entry.2
  | none => .error .ENOENT

def Dir.push (self : Dir) (name : Text) (inode : NamedObject) : Dir :=
  ⟨self.files ++ [(name, inode)]⟩

structure File where
  data : List UInt8
  stat : Stat
  deriving DecidableEq, Repr

def File.new : File := ⟨[], Stat.zeroed⟩

/-- The count and the buffer after the call. -/
def File.read (self : File) (buf : List UInt8) (offset : Nat) : Nat × List UInt8 :=
  if offset > self.data.length then (0, buf)
  else
    let len :=
      if self.data.length - offset < buf.length then self.data.length - offset else buf.length
    (len, (self.data.drop offset).take len ++ buf.drop len)

/-- `Vec::resize` with zeros to a greater length. A vector has at most
`isize::MAX` bytes, and the kernel heap must have `room` for it. -/
def resize (room : Nat) (data : List UInt8) (len : Nat) : Except Panic (List UInt8) :=
  if 2 ^ 63 ≤ len then .error .capacityOverflow
  else if room < len then .error .allocationFailed
  else .ok (data ++ List.replicate (len - data.length) 0)

/-- Where the sum wraps around in a production build, the slice would end
before it starts. -/
def File.write (profile : BuildProfile) (room : Nat) (self : File) (buf : List UInt8)
    (offset : Nat) : Except Panic (Nat × File) := do
  let stop ← profile.word (offset + buf.length)
  let data ← if stop > self.data.length then resize room self.data stop else pure self.data
  if offset ≤ stop ∧ stop ≤ data.length then
    return (buf.length, { self with data := data.take offset ++ buf ++ data.drop stop })
  else
    throw .sliceIndex

structure TmpFs where
  dirs : List Dir
  files : List File
  deriving DecidableEq, Repr

def TmpFs.new : TmpFs := ⟨[Dir.new], []⟩

/-- The root is the first directory. -/
def TmpFs.rootDir (_ : TmpFs) : Nat := 0

def TmpFs.dir (self : TmpFs) (dir : Nat) : Dir := self.dirs.getD dir Dir.new

def TmpFs.file (self : TmpFs) (file : Nat) : File := self.files.getD file File.new

def TmpFs.setFile (self : TmpFs) (file : Nat) (content : File) : TmpFs :=
  { self with files := self.files.set file content }

/-- The object that is created next. -/
def TmpFs.fresh (self : TmpFs) : ObjectKind → NamedObject
  | .file => .fileObject self.files.length
  | .directory => .directoryObject self.dirs.length

def TmpFs.push (self : TmpFs) (dir : Nat) (name : Text) (inode : NamedObject) : TmpFs :=
  { self with dirs := self.dirs.modify dir fun entries => entries.push name inode }

/-- `Arc::new(File::new())` or `Arc::new(Dir::new())`. -/
def TmpFs.add (self : TmpFs) : ObjectKind → TmpFs
  | .file => { self with files := self.files ++ [File.new] }
  | .directory => { self with dirs := self.dirs ++ [Dir.new] }

/-- `create_file` and `create_dir` differ only in the object that they add. -/
def TmpFs.create (kind : ObjectKind) (self : TmpFs) (dir : Nat) (name : Text) :
    Except Errno (NamedObject × TmpFs) :=
  if (self.dir dir).files.any fun entry => entry.1 == name then .error .EEXIST
  else .ok (self.fresh kind, (self.add kind).push dir name (self.fresh kind))

def TmpFs.createFile : TmpFs → Nat → Text → Except Errno (NamedObject × TmpFs) :=
  TmpFs.create .file

def TmpFs.createDir : TmpFs → Nat → Text → Except Errno (NamedObject × TmpFs) :=
  TmpFs.create .directory

def checkAbsolutePath (path : Text) : Bool :=
  match path.findIdx? fun c => c == '/' with
  | some pos => pos == 0
  | none => false

/-- The loop of `lookup_named_object` over the components of the path. -/
def lookupComponents (fs : TmpFs) : Nat → List Text → Except Errno NamedObject
  | _, [] => .error .ENOENT
  | currentDir, component :: rest =>
    match (fs.dir currentDir).lookup component with
    | .error _ => .error .ENOENT
    | .ok found =>
      if rest.isEmpty then .ok found
      else
        match found with
        | .fileObject _ => .error .ENOENT
        | .directoryObject dir => lookupComponents fs dir rest

def lookupNamedObject (fs : TmpFs) (path : Text) : Except Errno NamedObject :=
  if checkAbsolutePath path then
    if path = ['/'] then .ok (.directoryObject fs.rootDir)
    else lookupComponents fs fs.rootDir (path.splitOn '/').tail
  else .error .ENOENT

def lookupDir (fs : TmpFs) (path : Text) : Except Errno Nat := do
  match ← lookupNamedObject fs path with
  | .directoryObject dir => .ok dir
  | .fileObject _ => .error .ENOTDIR

/-- The directory in which `mkdir` and `touch` create the last component. -/
def parentDir (path : Text) : Text :=
  let components := (path.splitOn '/').dropLast
  if components.length = 1 then ['/'] else ['/'].intercalate components

/-- `mkdir` and `touch` differ only in the call that creates the object. -/
def createNamedObject (create : TmpFs → Nat → Text → Except Errno (NamedObject × TmpFs))
    (fs : TmpFs) (path : Text) : SyscallResult × TmpFs :=
  let result : Except Errno (NamedObject × TmpFs) := do
    let dir ← lookupDir fs (parentDir path)
    match (path.splitOn '/').getLast? with
    | none => .error .EINVAL
    | some name => create fs dir name
  match result with
  | .ok (_, fs) => (.ok 0, fs)
  | .error _ => (.error .ENOTDIR, fs)

def mkdir : TmpFs → Text → SyscallResult × TmpFs := createNamedObject TmpFs.createDir

def touch : TmpFs → Text → SyscallResult × TmpFs := createNamedObject TmpFs.createFile

end D3OS.Naming
