import D3OS.Library.LittleEndian

/-! The command stream of the GPU driver's 3D mode, `device/gpu.rs`. Every
command is a header word followed by its payload; the encoders state the length
of the payload by hand, and a reader finds the next header by that length alone.
Floating-point numbers are their bits, and the one computation on them,
`(x as f32) * 0.5`, is a parameter. -/
namespace D3OS.VirtIO.VirGL

open LittleEndian

def VIRGL_OBJECT_SURFACE : UInt32 := 8

def VIRGL_CCMD_CREATE_OBJECT : UInt32 := 1

def VIRGL_CCMD_SET_VIEWPORT_STATE : UInt32 := 4

def VIRGL_CCMD_SET_FRAMEBUFFER_STATE : UInt32 := 5

def VIRGL_CCMD_CLEAR : UInt32 := 7

/-- `1 << 2`, Gallium's flag for the first color buffer. -/
def PIPE_CLEAR_COLOR0 : UInt32 := (1 : UInt32) <<< 2

/-- The bits of `0.0f32`. -/
def ZERO_F32 : UInt32 := 0

/-- The bits of `1.0f32`. -/
def ONE_F32 : UInt32 := 0x3f800000

/-- The bits of `1.0f64`. -/
def ONE_F64 : UInt64 := 0x3ff0000000000000

def virglCmd0 (cmd obj lenU32 : UInt32) : UInt32 :=
  cmd ||| (obj <<< 8) ||| (lenU32 <<< 16)

variable (half : UInt32 → UInt32) (buf : List UInt8)

def pushU32 (v : UInt32) : List UInt8 := buf ++ wordBytes v

def pushF32 (f : UInt32) : List UInt8 := pushU32 buf f

/-- The low half goes first. -/
def pushF64 (bits : UInt64) : List UInt8 :=
  let buf := buf ++ wordBytes bits.toUInt32
  buf ++ wordBytes (bits >>> 32).toUInt32

def decodeHdr (h : UInt32) : UInt32 × UInt32 × UInt32 :=
  let cmd := h &&& 0xff
  let obj := (h >>> 8) &&& 0xff
  let len := h >>> 16
  (cmd, obj, len)

/-- A line that `dump_cmds` logs: where the header was found, and its fields. -/
structure Header where
  offset : Nat
  cmd : UInt32
  obj : UInt32
  len : UInt32
  deriving DecidableEq, Repr

/-- The loop of `dump_cmds` from byte `i` on: the headers it logs, and the
position at which it stops. -/
def dumpCmds (cmds : List UInt8) (i : Nat) : List Header × Nat :=
  if i + 4 ≤ cmds.length then
    let h := ofWordBytes ((cmds.drop i).take 4)
    let (cmd, obj, len) := decodeHdr h
    let payloadBytes := len.toNat * 4
    let (headers, stop) := dumpCmds cmds (i + 4 + payloadBytes)
    (⟨i, cmd, obj, len⟩ :: headers, stop)
  else ([], i)
termination_by cmds.length - i

/-! ### The encoders -/

def encodeCreateSurface (surfHandle resHandle format : UInt32) : List UInt8 :=
  let buf := pushU32 buf (virglCmd0 VIRGL_CCMD_CREATE_OBJECT VIRGL_OBJECT_SURFACE 5)
  let buf := pushU32 buf surfHandle
  let buf := pushU32 buf resHandle
  let buf := pushU32 buf format
  let buf := pushU32 buf 0
  pushU32 buf 0

def encodeSetFramebufferState (colorSurf depthSurf : UInt32) : List UInt8 :=
  let buf := pushU32 buf (virglCmd0 VIRGL_CCMD_SET_FRAMEBUFFER_STATE 0 3)
  let buf := pushU32 buf 1
  let buf := pushU32 buf depthSurf
  pushU32 buf colorSurf

/-- `half x` are the bits of `(x as f32) * 0.5`. -/
def encodeSetViewportFull (w h : UInt32) : List UInt8 :=
  let buf := pushU32 buf (virglCmd0 VIRGL_CCMD_SET_VIEWPORT_STATE 0 7)
  let buf := pushU32 buf 0
  let buf := pushF32 buf (half w)
  let buf := pushF32 buf (half h)
  let buf := pushF32 buf ONE_F32
  let buf := pushF32 buf (half w)
  let buf := pushF32 buf (half h)
  pushF32 buf ZERO_F32

def encodeClearColor (r g b a : UInt32) : List UInt8 :=
  let buf := pushU32 buf (virglCmd0 VIRGL_CCMD_CLEAR 0 8)
  let buf := pushU32 buf PIPE_CLEAR_COLOR0
  let buf := pushF32 buf r
  let buf := pushF32 buf g
  let buf := pushF32 buf b
  let buf := pushF32 buf a
  let buf := pushF64 buf ONE_F64
  pushU32 buf 0

/-- A call of one of the encoders. -/
inductive Call where
  | createSurface (surfHandle resHandle format : UInt32)
  | setFramebufferState (colorSurf depthSurf : UInt32)
  | setViewportFull (w h : UInt32)
  | clearColor (r g b a : UInt32)
  deriving DecidableEq, Repr

def Call.encode : Call → List UInt8
  | .createSurface surfHandle resHandle format =>
    encodeCreateSurface buf surfHandle resHandle format
  | .setFramebufferState colorSurf depthSurf => encodeSetFramebufferState buf colorSurf depthSurf
  | .setViewportFull w h => encodeSetViewportFull half buf w h
  | .clearColor r g b a => encodeClearColor buf r g b a

variable (calls : List Call)

/-- The buffer that a list of calls fills. -/
def encodeCalls : List UInt8 :=
  calls.foldl (Call.encode half) []

/-! ### What a reader of the stream sees -/

/-- A command of the stream with its payload words. -/
structure Command where
  cmd : UInt32
  obj : UInt32
  payload : List UInt32
  deriving DecidableEq, Repr

/-- The words that a header found in the buffer announces. -/
def Header.payload (cmds : List UInt8) (header : Header) : List UInt32 :=
  words ((cmds.drop (header.offset + 4)).take (header.len.toNat * 4))

def Header.command (cmds : List UInt8) (header : Header) : Command :=
  ⟨header.cmd, header.obj, header.payload cmds⟩

/-- The command that a call is to produce, from the parameters it is given. -/
def Call.command : Call → Command
  | .createSurface surfHandle resHandle format =>
    ⟨VIRGL_CCMD_CREATE_OBJECT, VIRGL_OBJECT_SURFACE, [surfHandle, resHandle, format, 0, 0]⟩
  | .setFramebufferState colorSurf depthSurf =>
    ⟨VIRGL_CCMD_SET_FRAMEBUFFER_STATE, 0, [1, depthSurf, colorSurf]⟩
  | .setViewportFull w h =>
    ⟨VIRGL_CCMD_SET_VIEWPORT_STATE, 0,
      [0, half w, half h, ONE_F32, half w, half h, ZERO_F32]⟩
  | .clearColor r g b a =>
    ⟨VIRGL_CCMD_CLEAR, 0,
      [PIPE_CLEAR_COLOR0, r, g, b, a, ONE_F64.toUInt32, (ONE_F64 >>> 32).toUInt32, 0]⟩

/-! ### Round trip -/

theorem toNat_shiftLeft_of_lt {word bits : UInt32} (hBits : bits.toNat < 32)
    (hFits : word.toNat <<< bits.toNat < 2 ^ 32) :
    (word <<< bits).toNat = word.toNat <<< bits.toNat := by
  rw [UInt32.toNat_shiftLeft, Nat.mod_eq_of_lt hBits]
  exact Nat.mod_eq_of_lt hFits

/-- The fields of a header fill disjoint bits. -/
theorem toNat_virglCmd0 {cmd obj len : UInt32} (hCmd : cmd.toNat < 2 ^ 8)
    (hObj : obj.toNat < 2 ^ 8) (hLen : len.toNat < 2 ^ 16) :
    (virglCmd0 cmd obj len).toNat = cmd.toNat + 256 * obj.toNat + 65536 * len.toNat := by
  have hObjShift : (obj <<< 8).toNat = obj.toNat <<< 8 :=
    toNat_shiftLeft_of_lt (by decide) (by
      change obj.toNat <<< 8 < _
      rw [Nat.shiftLeft_eq]
      omega)
  have hLenShift : (len <<< 16).toNat = len.toNat <<< 16 :=
    toNat_shiftLeft_of_lt (by decide) (by
      change len.toNat <<< 16 < _
      rw [Nat.shiftLeft_eq]
      omega)
  have hLow : cmd.toNat ||| obj.toNat <<< 8 = obj.toNat <<< 8 + cmd.toNat := by
    rw [Nat.shiftLeft_add_eq_or_of_lt hCmd, Nat.or_comm]
  have hLowLt : obj.toNat <<< 8 + cmd.toNat < 2 ^ 16 := by
    rw [Nat.shiftLeft_eq]
    omega
  rw [virglCmd0, UInt32.toNat_or, UInt32.toNat_or, hObjShift, hLenShift, hLow, Nat.or_comm,
    ← Nat.shiftLeft_add_eq_or_of_lt hLowLt, Nat.shiftLeft_eq, Nat.shiftLeft_eq]
  omega

theorem toNat_and_byte (word : UInt32) : (word &&& 0xff).toNat = word.toNat % 256 := by
  rw [UInt32.toNat_and]
  exact Nat.and_two_pow_sub_one_eq_mod word.toNat 8

theorem decodeHdr_virglCmd0 {cmd obj len : UInt32} (hCmd : cmd.toNat < 2 ^ 8)
    (hObj : obj.toNat < 2 ^ 8) (hLen : len.toNat < 2 ^ 16) :
    decodeHdr (virglCmd0 cmd obj len) = (cmd, obj, len) := by
  have hValue := toNat_virglCmd0 hCmd hObj hLen
  have hCmdField : virglCmd0 cmd obj len &&& 0xff = cmd := by
    rw [← UInt32.toNat_inj, toNat_and_byte, hValue]
    omega
  have hObjField : virglCmd0 cmd obj len >>> 8 &&& 0xff = obj := by
    rw [← UInt32.toNat_inj, toNat_and_byte, UInt32.toNat_shiftRight,
      Nat.shiftRight_eq_div_pow, hValue]
    change _ / 256 % 256 = _
    omega
  have hLenField : virglCmd0 cmd obj len >>> 16 = len := by
    rw [← UInt32.toNat_inj, UInt32.toNat_shiftRight, Nat.shiftRight_eq_div_pow, hValue]
    change _ / 65536 = _
    omega
  rw [decodeHdr, hCmdField, hObjField, hLenField]

/-- The bytes of a command whose header states its number of payload words. -/
def Command.bytes (command : Command) : List UInt8 :=
  wordBytes (virglCmd0 command.cmd command.obj (UInt32.ofNat command.payload.length)) ++
    command.payload.flatMap wordBytes

/-- Every encoder states the length of the payload that it pushes. -/
theorem Call.encode_eq (call : Call) : call.encode half buf = buf ++ (call.command half).bytes := by
  cases call <;>
    simp [Call.encode, Call.command, Command.bytes, encodeCreateSurface,
      encodeSetFramebufferState, encodeSetViewportFull, encodeClearColor, pushU32, pushF32,
      pushF64]

theorem encodeCalls_eq :
    encodeCalls half calls = calls.flatMap fun call => (call.command half).bytes := by
  have hFrom : ∀ buf, calls.foldl (Call.encode half) buf =
      buf ++ calls.flatMap fun call => (call.command half).bytes := by
    induction calls with
    | nil => simp
    | cons call calls ih =>
      intro buf
      rw [List.foldl_cons, ih, Call.encode_eq, List.flatMap_cons, List.append_assoc]
  exact hFrom []

/-- The numbers fit the fields of the header. -/
structure Command.Fits (command : Command) : Prop where
  cmd : command.cmd.toNat < 2 ^ 8
  obj : command.obj.toNat < 2 ^ 8
  payload : command.payload.length < 2 ^ 16

theorem Call.command_fits (call : Call) : (call.command half).Fits := by
  cases call <;> constructor <;> simp only [Call.command, List.length_cons, List.length_nil] <;>
    decide

/-- The header that `dump_cmds` logs for a command at a given position. -/
def Command.header (command : Command) (offset : Nat) : Header :=
  ⟨offset, command.cmd, command.obj, UInt32.ofNat command.payload.length⟩

theorem Command.length_bytes (command : Command) :
    command.bytes.length = 4 + command.payload.length * 4 := by
  rw [Command.bytes, List.length_append, length_wordBytes, length_flatMap_wordBytes]
  omega

theorem Command.Fits.len_toNat {command : Command} (h : command.Fits) :
    (UInt32.ofNat command.payload.length).toNat = command.payload.length :=
  UInt32.toNat_ofNat_of_lt' (Nat.lt_trans h.payload (by decide))

/-- One round of the loop reads one command and stops right behind it. -/
theorem dumpCmds_command {command : Command} (hFits : command.Fits) (pre rest : List UInt8) :
    dumpCmds (pre ++ command.bytes ++ rest) pre.length =
      (command.header pre.length ::
        (dumpCmds (pre ++ command.bytes ++ rest) (pre ++ command.bytes).length).1,
       (dumpCmds (pre ++ command.bytes ++ rest) (pre ++ command.bytes).length).2) := by
  have hRoom : pre.length + 4 ≤ (pre ++ command.bytes ++ rest).length := by
    rw [List.length_append, List.length_append, Command.length_bytes]
    omega
  have hWord : ((pre ++ command.bytes ++ rest).drop pre.length).take 4 =
      wordBytes (virglCmd0 command.cmd command.obj (UInt32.ofNat command.payload.length)) := by
    rw [List.append_assoc, List.drop_left, Command.bytes, List.append_assoc]
    exact List.take_left' (length_wordBytes _)
  have hNext : (pre ++ command.bytes).length =
      pre.length + 4 + (UInt32.ofNat command.payload.length).toNat * 4 := by
    rw [List.length_append, Command.length_bytes, hFits.len_toNat]
    omega
  have hHdr := decodeHdr_virglCmd0 hFits.cmd hFits.obj
    (by rw [hFits.len_toNat]; exact hFits.payload)
  rw [hNext]
  generalize hBuf : pre ++ command.bytes ++ rest = cmds at *
  rw [dumpCmds, if_pos hRoom, hWord, ofWordBytes_wordBytes]
  dsimp only
  rw [hHdr]
  rfl

/-- The words behind a header are the payload of its command. -/
theorem Command.header_command {command : Command} (hFits : command.Fits)
    (pre rest : List UInt8) :
    (command.header pre.length).command (pre ++ command.bytes ++ rest) = command := by
  have hDrop : (pre ++ command.bytes ++ rest).drop (pre.length + 4) =
      command.payload.flatMap wordBytes ++ rest := by
    rw [← List.drop_drop, List.append_assoc, List.drop_left, Command.bytes, List.append_assoc]
    exact List.drop_left' (length_wordBytes _)
  have hTake : (command.payload.flatMap wordBytes ++ rest).take (command.payload.length * 4) =
      command.payload.flatMap wordBytes :=
    List.take_left' (by rw [length_flatMap_wordBytes, Nat.mul_comm])
  unfold Header.command Header.payload Command.header
  rw [hDrop, hFits.len_toNat, hTake, words_flatMap_wordBytes]

/-- From any position at which the rest of the calls begins, the walk reads one
command per call and ends with the buffer. -/
theorem dumpCmds_calls (pre : List UInt8) :
    ∃ headers, dumpCmds (pre ++ encodeCalls half calls) pre.length =
        (headers, (pre ++ encodeCalls half calls).length) ∧
      headers.map (Header.command (pre ++ encodeCalls half calls)) =
        calls.map (Call.command half) ∧
      headers.map (fun header => header.len.toNat) =
        calls.map fun call => (call.command half).payload.length := by
  induction calls generalizing pre with
  | nil =>
    refine ⟨[], ?_, rfl, rfl⟩
    rw [dumpCmds, if_neg (by simp [encodeCalls])]
    simp [encodeCalls]
  | cons call calls ih =>
    have hFits := call.command_fits half
    have hBuf : pre ++ encodeCalls half (call :: calls) =
        pre ++ (call.command half).bytes ++ encodeCalls half calls := by
      rw [encodeCalls_eq, encodeCalls_eq, List.flatMap_cons, List.append_assoc]
    obtain ⟨headers, hWalk, hCommands, hLens⟩ := ih (pre ++ (call.command half).bytes)
    rw [hBuf]
    refine ⟨(call.command half).header pre.length :: headers, ?_, ?_, ?_⟩
    · rw [dumpCmds_command hFits, hWalk]
    · rw [List.map_cons, List.map_cons, hCommands, Command.header_command hFits]
    · rw [List.map_cons, List.map_cons, hLens]
      exact congrArg (· :: _) hFits.len_toNat

/-- A stream decodes to what was encoded. Walking it as `dump_cmds` does ends
exactly at its end and finds one command for each call, in order, with the
numbers and the payload of that call and its number of payload words. -/
theorem dumpCmds_encodeCalls :
    (dumpCmds (encodeCalls half calls) 0).2 = (encodeCalls half calls).length ∧
    (dumpCmds (encodeCalls half calls) 0).1.map (Header.command (encodeCalls half calls)) =
      calls.map (Call.command half) ∧
    ∀ header ∈ (dumpCmds (encodeCalls half calls) 0).1,
      header.len.toNat = (header.payload (encodeCalls half calls)).length := by
  obtain ⟨headers, hWalk, hCommands, hLens⟩ := dumpCmds_calls half calls []
  simp only [List.nil_append, List.length_nil] at hWalk hCommands
  rw [hWalk]
  refine ⟨rfl, hCommands, fun header hHeader => ?_⟩
  have hPayloads := congrArg (List.map fun command => command.payload.length) hCommands
  rw [List.map_map, List.map_map] at hPayloads
  exact List.map_inj_left.mp (hLens.trans hPayloads.symm) header hHeader

example : dumpCmds (encodeCalls id [.setFramebufferState 3 0, .clearColor 1 2 3 4]) 0 =
    ([⟨0, 5, 0, 3⟩, ⟨16, 7, 0, 8⟩], 52) := by decide +kernel

end D3OS.VirtIO.VirGL
