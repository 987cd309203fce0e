import D3OS.Naming.Readdir
import D3OS.Syscall.Arguments

/-! The working directory as an application sees it. The path enters the kernel
as a C string; it comes back through a buffer of 512 bytes, of which every byte
is read as one character. -/
namespace D3OS.Syscall

open D3OS.Naming
open Outcome

/-- `CString::new`, which fails on an interior null byte. -/
def CString.new (text : Text) : Option CString :=
  if 0 ∈ Utf8.encode text then none else some ⟨Utf8.encode text ++ [0], by simp⟩

/-- `naming::cd` of the user library. -/
def userCd (service : NamingService) (path : Text) :
    Except Panic (SyscallResult × NamingService) :=
  match CString.new path with
  | some cPath => do
    let (code, service) ← sysCd service (some cPath)
    return (convertRetCodeToSyscallResult code, service)
  | none => .ok (.error .EBADSTR, service)

/-- `api::cwd`, with the buffer that it fills. -/
def readCwd (service : NamingService) (buffer : List UInt8) : SyscallResult × List UInt8 :=
  let cwdBytes := Utf8.encode service.cwd
  let lenToCopy := min (buffer.length - 1) cwdBytes.length
  let buffer := cwdBytes.take lenToCopy ++ buffer.drop lenToCopy
  let buffer := if lenToCopy < buffer.length then buffer.set lenToCopy 0 else buffer
  (.ok (lenToCopy + 1), buffer)

def sysCwd (service : NamingService) (buffer : Option (List UInt8)) : Int × List UInt8 :=
  match buffer with
  | none => (Errno.EINVAL.code, [])
  | some buffer =>
    if buffer.length = 0 then (Errno.EINVAL.code, buffer)
    else
      let (result, buffer) := readCwd service buffer
      (convertSyscallResultToRetCode result, buffer)

/-- What `naming::cwd` makes of the answer: every byte in front of the null
terminator is a character. -/
def cwdText (result : Int × List UInt8) : Except Errno Text :=
  match convertRetCodeToSyscallResult result.1 with
  | .ok _ => .ok (Utf8.latin1 (result.2.takeWhile fun c => c != 0))
  | .error e => .error e

/-- `naming::cwd` of the user library. -/
def userCwd (service : NamingService) : Except Errno Text :=
  cwdText (sysCwd service (some (List.replicate 512 0)))

variable {service service' : NamingService} {path : Text} {code : Nat}

theorem fromUtf8_encode (text : Text) : fromUtf8 (Utf8.encode text) = some text := by
  have hBytes : (⟨(Utf8.encode text).toArray⟩ : ByteArray) = text.utf8Encode :=
    ByteArray.ext (List.data_toByteArray ..).symm
  rw [fromUtf8, hBytes, List.utf8Decode?_utf8Encode]
  simp

theorem encode_ne_zero (h : CString.new path ≠ none) : ∀ byte ∈ Utf8.encode path, byte ≠ 0 := by
  rintro byte hMem rfl
  exact h (if_pos hMem)

/-- A path that can be handed over arrives in the kernel. -/
theorem sysCd_new {cPath : CString} (h : CString.new path = some cPath) :
    sysCd service (some cPath) =
      .ok (convertSyscallResultToRetCode (service.cd path).1, (service.cd path).2) := by
  have hBytes : ∀ byte ∈ Utf8.encode path, byte ≠ 0 := encode_ne_zero (by simp [h])
  have hString : cPath.bytes = Utf8.encode path := by
    rw [CString.new, if_neg fun hMem => hBytes 0 hMem rfl] at h
    obtain rfl := Option.some.inj h
    simpa [CString.bytes, bne, beq_eq_decide] using takeWhile_padded hBytes 1
  rw [sysCd, withPath, ptrToString]
  simp only [hString, fromUtf8_encode]
  rfl

/-- After a successful call the path is the working directory. -/
theorem userCd_ok (h : userCd service path = .ok (.ok code, service')) :
    (∀ byte ∈ Utf8.encode path, byte ≠ 0) ∧ service'.cwd = path := by
  unfold userCd at h
  cases hPath : CString.new path with
  | none =>
    rw [hPath] at h
    cases h
  | some cPath =>
    simp only [hPath, sysCd_new hPath, bind_of_ok, pure_ok_iff, Prod.mk.injEq] at h
    refine ⟨encode_ne_zero (by simp [hPath]), ?_⟩
    obtain ⟨hCode, rfl⟩ := h
    unfold NamingService.cd at hCode ⊢
    cases hDir : lookupDir service.root path with
    | ok dir => rfl
    | error e =>
      rw [hDir] at hCode
      cases hCode

/-- A small result passes through its code. -/
theorem convertRetCode_convertSyscallResult {value : Nat} (h : value < 2 ^ 63) :
    convertRetCodeToSyscallResult (convertSyscallResultToRetCode (.ok value)) = .ok value := by
  have hSmall : (value : Int).bmod (2 ^ 64) = value := by
    refine Int.bmod_eq_of_le ?_ ?_ <;> omega
  have hCode : convertSyscallResultToRetCode (.ok value) = (value : Int).bmod (2 ^ 64) := rfl
  rw [hCode, hSmall]
  exact if_neg (by omega)

theorem sysCwd_some {buffer : List UInt8} (h : buffer.length ≠ 0) :
    sysCwd service (some buffer) =
      (convertSyscallResultToRetCode (readCwd service buffer).1, (readCwd service buffer).2) :=
  if_neg h

theorem cwdText_of_ok {code : Int} {value : Nat} {buf : List UInt8}
    (h : convertRetCodeToSyscallResult code = .ok value) :
    cwdText (code, buf) = .ok (Utf8.latin1 (buf.takeWhile fun c => c != 0)) := by
  rw [cwdText, h]

theorem readCwd_replicate (service : NamingService) (n : Nat) :
    readCwd service (List.replicate (n + 1) 0) =
      (.ok (min n (Utf8.encode service.cwd).length + 1), (Utf8.encode service.cwd).take n ++
        List.replicate (n + 1 - min n (Utf8.encode service.cwd).length) 0) := by
  simp only [readCwd, List.length_replicate, List.drop_replicate, Nat.add_one_sub_one]
  rw [← List.take_eq_take_min]
  congr 1
  split
  case isTrue =>
    rw [List.set_append_right _ _ (by simp)]
    simp
  case isFalse => rfl

/-- What the user library makes of a buffer for `n` bytes and the terminator. -/
theorem cwdText_replicate {n : Nat} (hSize : n + 1 < 2 ^ 63)
    (hBytes : ∀ byte ∈ Utf8.encode service.cwd, byte ≠ 0) :
    cwdText (sysCwd service (some (List.replicate (n + 1) 0))) =
      .ok (Utf8.latin1 ((Utf8.encode service.cwd).take n)) := by
  have hTake : ∀ byte ∈ (Utf8.encode service.cwd).take n, byte ≠ 0 :=
    fun byte hMem => hBytes byte (List.mem_of_mem_take hMem)
  have hCode : min n (Utf8.encode service.cwd).length + 1 < 2 ^ 63 := by omega
  rw [sysCwd_some (by simp), readCwd_replicate,
    cwdText_of_ok (convertRetCode_convertSyscallResult hCode), takeWhile_padded hTake]

/-- After a successful `cd`, `cwd` returns the path exactly if it is ASCII of
at most 511 characters or, up to that length, ASCII and then the start of the
word that is its own encoding. -/
theorem cwd_after_cd_iff (hCd : userCd service path = .ok (.ok code, service')) :
    userCwd service' = .ok path ↔ Utf8.Echoes 511 path := by
  obtain ⟨hBytes, rfl⟩ := userCd_ok hCd
  have hCwd : userCwd service' = _ := cwdText_replicate (n := 511) (by decide) hBytes
  rw [hCwd, Except.ok.injEq, Utf8.latin1_take_eq_self_iff]

/-- `cd` with a path that can be handed over and names a directory. -/
theorem userCd_of_lookupDir {dir : Nat} (hNul : 0 ∉ Utf8.encode path)
    (hDir : lookupDir service.root path = .ok dir) :
    userCd service path = .ok (.ok 0, { service with cwd := path }) := by
  have hNew : CString.new path = some ⟨Utf8.encode path ++ [0], by simp⟩ := if_neg hNul
  unfold userCd
  simp only [hNew, sysCd_new hNew, NamingService.cd, hDir]
  rfl

/-- The root directory is returned. -/
theorem cwd_after_cd_root :
    userCd .init ['/'] = .ok (.ok 0, .init) ∧ userCwd .init = .ok ['/'] := by
  have hCd : userCd .init ['/'] = .ok (.ok 0, .init) := userCd_of_lookupDir (by decide) rfl
  exact ⟨hCd, (cwd_after_cd_iff hCd).mpr ⟨['/'], by simp [Utf8.Ascii], by decide, .inl rfl⟩⟩

/-- A directory whose name is an umlaut is created and entered; the name comes
back as two characters. -/
theorem cwd_changes_umlaut :
    ∃ created entered : NamingService, NamingService.init.mkdir ['/', Char.ofNat 0xFC] =
        (.ok 0, created) ∧
      userCd created ['/', Char.ofNat 0xFC] = .ok (.ok 0, entered) ∧
      userCwd entered = .ok ['/', Char.ofNat 0xC3, Char.ofNat 0xBC] := by
  refine ⟨_, _, rfl, userCd_of_lookupDir (by decide) rfl, ?_⟩
  decide +kernel

end D3OS.Syscall
