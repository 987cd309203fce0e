import Mathlib.Algebra.Group.Nat.Defs

/-! Error codes and results of system calls. -/
namespace D3OS

inductive Errno where
  | EUNKN
  | ENOENT
  | ENOHANDLES
  | EBADF
  | EACCES
  | EEXIST
  | ENOTDIR
  | EINVAL
  | EINVALH
  | ENOTEMPTY
  | EBADSTR
  deriving DecidableEq, Repr

/-- The discriminants of the enumeration, which an application sees. -/
def Errno.code : Errno → Int
  | .EUNKN => -1
  | .ENOENT => -2
  | .ENOHANDLES => -3
  | .EBADF => -4
  | .EACCES => -5
  | .EEXIST => -6
  | .ENOTDIR => -7
  | .EINVAL => -8
  | .EINVALH => -9
  | .ENOTEMPTY => -10
  | .EBADSTR => -11

abbrev SyscallResult := Except Errno Nat

/-- `convert_syscall_result_to_ret_code`; `as isize` reads the word in two's
complement. -/
def convertSyscallResultToRetCode : SyscallResult → Int
  | .ok t => (Int.ofNat t).bmod (2 ^ 64)
  | .error e => e.code

/-- `Errno::from`: every code without a name of its own is unknown. -/
def Errno.ofCode (code : Int) : Errno :=
  ([.ENOENT, .ENOHANDLES, .EBADF, .EACCES, .EEXIST, .ENOTDIR, .EINVAL, .EINVALH, .ENOTEMPTY,
    .EBADSTR].find? fun errno : Errno => errno.code == code).getD .EUNKN

def convertRetCodeToSyscallResult (retCode : Int) : SyscallResult :=
  if retCode < 0 then .error (.ofCode retCode) else .ok retCode.toNat

end D3OS
