import D3OS.Device.IdeAddressing
import D3OS.Library.LittleEndian

/-! Where `perform_ata_pio` puts the sectors of a request. The places are
computed in 16 bits, as the number of sectors and their size are, so that only
the first 64 KiB of a buffer can be reached. -/
namespace D3OS.Device.Ide

open Outcome

/-- The words that have passed the data port from one state of a channel to a
later one. -/
def IdeChannel.Passed (bus : Bus) (mode : TransferMode) (channel later : IdeChannel)
    (words : List Nat) : Prop :=
  match mode with
  | .read => later.taken = channel.taken + words.length ∧
      words = (List.range' channel.taken words.length).map bus.words
  | .write => later.sent = channel.sent ++ words

/-- Part number `i` of a list, when all parts have this size. -/
def sectorAt {α : Type*} (size i : Nat) (list : List α) : List α := (list.drop (i * size)).take size

/-- After a transfer of this many sectors, the words of each sector are at its
place in the buffer, and nothing else in the buffer has changed. -/
structure InPlace (bus : Bus) (mode : TransferMode) (size : Nat) (buffer : List UInt8)
    (channel : IdeChannel) (sectors : Nat) (later : Transferred) (words : List Nat) : Prop where
  passed : channel.Passed bus mode later.2 words
  count : words.length = sectors * (size / 2)
  sector : ∀ i < sectors,
    sectorAt size i later.1 = (sectorAt (size / 2) i words).flatMap (LittleEndian.toBytes 2)
  length : later.1.length = buffer.length
  rest : later.1.drop (sectors * size) = buffer.drop (sectors * size)
  unchanged : mode = .write → later.1 = buffer

variable {channel : IdeChannel} {mode : TransferMode} {later state : Transferred}
  {count half left done length : Nat} {buffer : List UInt8}

theorem IdeChannel.Passed.none (bus : Bus) (mode : TransferMode) {later : IdeChannel}
    (hTaken : later.taken = channel.taken) (hSent : later.sent = channel.sent) :
    channel.Passed bus mode later [] := by
  cases mode with
  | read => exact ⟨hTaken, rfl⟩
  | write => exact hSent.trans (List.append_nil _).symm

/-- Without a sector, the buffer stays as it is. -/
theorem InPlace.none {bus : Bus} {later : IdeChannel} (size : Nat) (buffer : List UInt8)
    (h : channel.Passed bus mode later []) :
    InPlace bus mode size buffer channel 0 (buffer, later) [] where
  passed := h
  count := (Nat.zero_mul _).symm
  sector _ hSector := absurd hSector (Nat.not_lt_zero _)
  length := rfl
  rest := rfl
  unchanged _ := rfl

/-- `perform_ata_pio` keeps sectors in place. It panics on a CHS drive without
heads or sectors only, and never on an index. -/
def KeepsSectors (profile : BuildProfile) (bus : Bus) (info : DriveInfo) (mode : TransferMode)
    (sector count : Nat) (buffer : List UInt8) (channel : IdeChannel) : Prop :=
  Ends (performAtaPio profile bus info mode sector count buffer channel)
    (fun (sectors, later) => sectors ≤ count ∧
      ∃ words, InPlace bus mode info.sectorSize buffer channel sectors later words)
    (· = .divisionByZero)

theorem startCommand_ends (bus : Bus) (info : DriveInfo) (command : Command) (sector count : Nat)
    (channel : IdeChannel) :
    Ends (startCommand bus info command sector count channel)
      (fun started => started.taken = channel.taken ∧ started.sent = channel.sent)
      (· = .divisionByZero) := by
  cases hStart : startCommand bus info command sector count channel with
  | ok started =>
    apply Ends.ok
    obtain ⟨prepared, hPrepare, hCommand⟩ := bind_ok hStart
    obtain ⟨selected, hSelects, rfl⟩ := IdeChannel.prepareAtaIo_ok hPrepare
    obtain rfl := pure_ok hCommand
    cases hSelects <;> exact ⟨rfl, rfl⟩
  | error stop =>
    apply Ends.error
    unfold startCommand IdeChannel.prepareAtaIo Storage.lbaToChs at hStart
    split at hStart
    · split at hStart
      · exact (Except.error.inj hStart).symm
      · cases hStart
    · cases hStart
    · cases hStart

section

variable {profile : BuildProfile} {bus : Bus} {mode : TransferMode} {size done : Nat}
  {buffer : List UInt8} {channel : IdeChannel} {words : List Nat}

theorem wordIndex_of_lt {j : Nat} (h : done * size + j * 2 < 2 ^ 16) :
    wordIndex profile size done j = .ok (done * size + j * 2) := by
  unfold wordIndex
  rw [profile.unsigned_of_lt (by omega), bind_of_ok, profile.unsigned_of_lt (by omega), bind_of_ok,
    profile.unsigned_of_lt h]

theorem highIndex_of_lt {j : Nat} (h : done * size + j * 2 + 1 < 2 ^ 16) :
    highIndex profile size done j = .ok (done * size + j * 2 + 1) := by
  unfold highIndex
  rw [wordIndex_of_lt (by omega), bind_of_ok, profile.unsigned_of_lt h]

theorem toBytes_word (word : Nat) :
    LittleEndian.toBytes 2 word = [UInt8.ofNat word, UInt8.ofNat (word >>> 8)] := by
  rw [Nat.shiftRight_eq_div_pow]
  rfl

theorem toBytes_join (low high : UInt8) :
    LittleEndian.toBytes 2 (low.toNat ||| high.toNat <<< 8) = [low, high] := by
  have hJoin : low.toNat ||| high.toNat <<< 8 = LittleEndian.ofBytes [low, high] := by
    rw [Nat.or_comm, ← Nat.shiftLeft_add_eq_or_of_lt low.toNat_lt, Nat.shiftLeft_eq]
    simp only [LittleEndian.ofBytes]
    omega
  rw [hJoin]
  exact LittleEndian.toBytes_ofBytes rfl

/-- Two bytes written behind the front of a buffer. -/
theorem set_pair {front rest : List UInt8} {n : Nat} (low high : UInt8) (hFront : front.length = n)
    (hRoom : n + 1 < rest.length) :
    ((front ++ rest.drop n).set n low).set (n + 1) high =
      front ++ [low, high] ++ rest.drop (n + 2) := by
  subst hFront
  rw [List.drop_eq_getElem_cons (by omega), List.drop_eq_getElem_cons hRoom,
    List.set_append_right _ _ (Nat.le_refl _), List.set_append_right _ _ (Nat.le_add_right _ 1),
    Nat.sub_self, Nat.add_sub_cancel_left, List.append_assoc]
  rfl

/-- While a request is transferred, the words that have passed are at the
front of the buffer. -/
structure Moved (bus : Bus) (mode : TransferMode) (buffer : List UInt8) (channel : IdeChannel)
    (words : List Nat) (later : Transferred) : Prop where
  passed : channel.Passed bus mode later.2 words
  front : later.1 = words.flatMap (LittleEndian.toBytes 2) ++ buffer.drop (2 * words.length)
  unchanged : mode = .write → later.1 = buffer

/-- The next word from the drive. -/
theorem Moved.read (h : Moved bus .read buffer channel words later)
    (hRoom : 2 * words.length + 1 < buffer.length) :
    Moved bus .read buffer channel (words ++ [bus.words later.2.taken])
      ((later.1.set (2 * words.length) (UInt8.ofNat (bus.words later.2.taken))).set
          (2 * words.length + 1) (UInt8.ofNat (bus.words later.2.taken >>> 8)),
        { later.2 with taken := later.2.taken + 1 }) := by
  obtain ⟨⟨hTaken, hWords⟩, hFront, -⟩ := h
  refine ⟨⟨?_, ?_⟩, ?_, nofun⟩
  · rw [List.length_append, hTaken]
    rfl
  · rw [List.length_append, List.length_singleton, List.range'_1_concat, List.map_append, ← hWords,
      ← hTaken]
    rfl
  · rw [hFront, set_pair _ _ (LittleEndian.length_flatMap_toBytes 2 words) hRoom, List.flatMap_append,
      List.flatMap_singleton, toBytes_word, List.length_append]
    rfl

/-- The next word to the drive. -/
theorem Moved.write (h : Moved bus .write buffer channel words later) {low high : UInt8}
    (hLow : buffer[2 * words.length]? = some low)
    (hHigh : buffer[2 * words.length + 1]? = some high) :
    Moved bus .write buffer channel (words ++ [low.toNat ||| high.toNat <<< 8])
      (later.1, { later.2 with sent := later.2.sent ++ [low.toNat ||| high.toNat <<< 8] }) := by
  obtain ⟨hSent, hFront, hUnchanged⟩ := h
  have hSent : later.2.sent = channel.sent ++ words := hSent
  refine ⟨?_, ?_, hUnchanged⟩
  · show later.2.sent ++ _ = _
    rw [hSent, List.append_assoc]
  · obtain ⟨hLowRoom, rfl⟩ := List.getElem?_eq_some_iff.mp hLow
    obtain ⟨hRoom, rfl⟩ := List.getElem?_eq_some_iff.mp hHigh
    rw [hFront, List.drop_eq_getElem_cons hLowRoom, List.drop_eq_getElem_cons hRoom,
      List.flatMap_append, List.flatMap_singleton, toBytes_join, List.length_append,
      List.append_assoc]
    rfl

variable {stops : Panic → Prop}

variable {total : Nat}

/-- The words of a sector are read one after the other. The induction is on
the number of words that are left. -/
theorem readWords_moved {first : Nat} (h : Moved bus .read buffer channel words later)
    (hIndex : done * size + first * 2 = 2 * words.length) (hTotal : words.length + count = total)
    (hRoom : 2 * total ≤ buffer.length) (hReach : 2 * total ≤ 2 ^ 16) :
    Ends (readWords profile bus size done (List.range' first count) later)
      (fun after => ∃ moved, moved.length = total ∧ Moved bus .read buffer channel moved after)
      stops := by
  induction count generalizing first words later with
  | zero => exact Ends.ok ⟨words, hTotal, h⟩
  | succ count ih =>
    have hLength : later.1.length = buffer.length := by
      rw [h.front, List.length_append, LittleEndian.length_flatMap_toBytes, List.length_drop]
      omega
    have hWords : (words ++ [bus.words later.2.taken]).length = words.length + 1 :=
      List.length_append
    have hNext : done * size + (first + 1) * 2 =
        2 * (words ++ [bus.words later.2.taken]).length := by omega
    rw [List.range'_succ, readWords.eq_def]
    dsimp only
    rw [wordIndex_of_lt (by omega), bind_of_ok, setByte, if_pos (by omega), bind_of_ok,
      highIndex_of_lt (by omega), bind_of_ok, setByte, if_pos (by rw [List.length_set]; omega),
      bind_of_ok, hIndex]
    exact ih (h.read (by omega)) hNext (by omega)

/-- The words of a sector are written one after the other. -/
theorem writeWords_moved {first : Nat} (h : Moved bus .write buffer channel words later)
    (hIndex : done * size + first * 2 = 2 * words.length) (hTotal : words.length + count = total)
    (hRoom : 2 * total ≤ buffer.length) (hReach : 2 * total ≤ 2 ^ 16) :
    Ends (writeWords profile size done later.1 (List.range' first count) later.2)
      (fun after => ∃ moved, moved.length = total ∧
        Moved bus .write buffer channel moved (later.1, after)) stops := by
  induction count generalizing first words later with
  | zero => exact Ends.ok ⟨words, hTotal, h⟩
  | succ count ih =>
    obtain ⟨low, hLow⟩ : ∃ low, buffer[2 * words.length]? = some low :=
      ⟨_, List.getElem?_eq_getElem (by omega)⟩
    obtain ⟨high, hHigh⟩ : ∃ high, buffer[2 * words.length + 1]? = some high :=
      ⟨_, List.getElem?_eq_getElem (by omega)⟩
    have hWords : (words ++ [low.toNat ||| high.toNat <<< 8]).length = words.length + 1 :=
      List.length_append
    have hNext : done * size + (first + 1) * 2 =
        2 * (words ++ [low.toNat ||| high.toNat <<< 8]).length := by omega
    have hRest := ih (h.write hLow hHigh) hNext (by omega)
    rw [List.range'_succ, writeWords.eq_def]
    dsimp only
    rw [wordIndex_of_lt (by omega), bind_of_ok, hIndex, h.unchanged rfl, getByte, hLow]
    dsimp only
    rw [bind_of_ok, highIndex_of_lt (by omega), bind_of_ok, hIndex, getByte, hHigh]
    dsimp only
    rw [h.unchanged rfl] at hRest
    exact hRest

/-- One sector, when as many words have passed as the sectors before it have. -/
theorem transferSector_moved (h : Moved bus mode buffer channel words later)
    (hIndex : done * size = 2 * words.length) (hTotal : words.length + size / 2 = total)
    (hRoom : 2 * total ≤ buffer.length) (hReach : 2 * total ≤ 2 ^ 16) :
    Ends (transferSector profile bus size mode done later)
      (fun after => ∃ moved, moved.length = total ∧ Moved bus mode buffer channel moved after)
      stops := by
  have hFirst : done * size + 0 * 2 = 2 * words.length := by omega
  unfold transferSector
  rw [List.range_eq_range']
  cases mode with
  | read => exact readWords_moved h hFirst hTotal hRoom hReach
  | write =>
    refine (writeWords_moved h hFirst hTotal hRoom hReach).bind ?_
    intro after hAfter
    exact Ends.ok hAfter

/-- Waiting for the drive moves nothing. -/
theorem Moved.wait {part : List UInt8} {next : IdeChannel} (h : Moved bus mode buffer channel words (part, next)) :
    ∃ ready waited, (if done = 0 then (true, next) else next.wait bus Status.driveReady) =
      (ready, waited) ∧ Moved bus mode buffer channel words (part, waited) := by
  split
  · exact ⟨true, next, rfl, h⟩
  · refine ⟨_, _, rfl, ?_, h.front, h.unchanged⟩
    cases mode with
    | read => exact h.passed
    | write => exact h.passed

/-- The sectors that are left, until the drive is not ready. -/
theorem transferSectors_moved (h : Moved bus mode buffer channel words later)
    (hWords : words.length = done * half) (hLeft : done + left = count)
    (hRoom : 2 * (count * half) ≤ buffer.length) (hReach : 2 * (count * half) ≤ 2 ^ 16) :
    Ends (transferSectors bus (transferSector profile bus (2 * half) mode) left done later)
      (fun (sectors, after) => sectors ≤ count ∧ ∃ moved, moved.length = sectors * half ∧
        Moved bus mode buffer channel moved after) stops := by
  induction left generalizing done words later with
  | zero => exact Ends.ok ⟨by omega, words, hWords, h⟩
  | succ left ih =>
    obtain ⟨part, next⟩ := later
    obtain ⟨ready, waited, hWait, hMoved⟩ := h.wait
    rw [transferSectors, hWait]
    cases ready with
    | false => exact Ends.ok ⟨by omega, words, hWords, hMoved⟩
    | true =>
      have hTotal : words.length + 2 * half / 2 = (done + 1) * half := by
        rw [hWords, Nat.mul_div_cancel_left half Nat.two_pos, Nat.succ_mul]
      have hLast : (done + 1) * half ≤ count * half := Nat.mul_le_mul_right half (by omega)
      have hIndex : done * (2 * half) = 2 * words.length := by rw [hWords, Nat.mul_left_comm]
      refine (transferSector_moved hMoved hIndex hTotal (by omega) (by omega)).bind ?_
      rintro after ⟨moved, hLength, hAfter⟩
      exact ih hAfter hLength (by omega)

/-- Words at the front of the buffer are in place, as sectors consist of words. -/
theorem Moved.inPlace {sectors : Nat} (h : Moved bus mode buffer channel words later)
    (hWords : words.length = sectors * half) (hRoom : 2 * words.length ≤ buffer.length) :
    InPlace bus mode (2 * half) buffer channel sectors later words := by
  have hFront := LittleEndian.length_flatMap_toBytes 2 words
  have hEnd : sectors * (2 * half) = 2 * words.length := by rw [hWords, Nat.mul_left_comm]
  have hHalf : 2 * half / 2 = half := Nat.mul_div_cancel_left half Nat.two_pos
  refine ⟨h.passed, by rw [hHalf, hWords], ?_, ?_, ?_, h.unchanged⟩
  · intro i hSector
    have hInside : i * (2 * half) + 2 * half ≤ 2 * words.length := by
      rw [← hEnd, ← Nat.succ_mul]
      exact Nat.mul_le_mul_right _ hSector
    unfold sectorAt
    rw [hHalf, h.front, List.drop_append_of_le_length (by omega),
      List.take_append_of_le_length (by rw [List.length_drop]; omega), Nat.mul_left_comm,
      LittleEndian.drop_flatMap_toBytes, LittleEndian.take_flatMap_toBytes]
  · rw [h.front, List.length_append, hFront, List.length_drop]
    omega
  · rw [hEnd, h.front, List.drop_left' hFront]

end

/-- Sectors are kept if they are after the command has been accepted. -/
theorem keepsSectors_of_accepted {profile : BuildProfile} {bus : Bus} {info : DriveInfo}
    (sector : Nat) (hRun : ∀ accepted, channel.Passed bus mode accepted [] →
      Ends (transferSectors bus (transferSector profile bus info.sectorSize mode) count 0
          (buffer, accepted))
        (fun (sectors, later) => sectors ≤ count ∧
          ∃ words, InPlace bus mode info.sectorSize buffer channel sectors later words)
        (· = .divisionByZero)) :
    KeepsSectors profile bus info mode sector count buffer channel := by
  refine (startCommand_ends bus info _ sector count channel).bind ?_
  rintro started ⟨hTaken, hSent⟩
  have hPassed : channel.Passed bus mode (started.wait bus Status.dataRequest).2 [] :=
    .none bus mode hTaken hSent
  cases hReady : (started.wait bus Status.dataRequest).1 with
  | false =>
    simp only [hReady]
    exact Ends.ok ⟨Nat.zero_le count, [], .none _ buffer hPassed⟩
  | true =>
    simp only [hReady]
    exact hRun _ hPassed

/-- A request of whole words within the first 64 KiB keeps its sectors. -/
theorem keepsSectors_of_small (profile : BuildProfile) (bus : Bus) {info : DriveInfo}
    (mode : TransferMode) (sector : Nat) (channel : IdeChannel) (hSize : info.sectorSize = 2 * half)
    (hBuffer : buffer.length = count * info.sectorSize)
    (hReach : count * info.sectorSize ≤ 2 ^ 16) :
    KeepsSectors profile bus info mode sector count buffer channel := by
  apply keepsSectors_of_accepted
  intro accepted hPassed
  rw [hSize, Nat.mul_left_comm] at hBuffer hReach
  have hMoved : Moved bus mode buffer channel [] (buffer, accepted) := ⟨hPassed, rfl, fun _ => rfl⟩
  rw [hSize]
  refine (transferSectors_moved hMoved (Nat.zero_mul half).symm (Nat.zero_add count) (by omega)
    hReach).mono ?_
  rintro ⟨sectors, later⟩ ⟨hSectors, moved, hLength, hAfter⟩
  have hHalf : sectors * half ≤ count * half := Nat.mul_le_mul_right half hSectors
  exact ⟨hSectors, moved, hAfter.inPlace hLength (by omega)⟩

section

variable {profile : BuildProfile} {bus : Bus} {mode : TransferMode} {buffer : List UInt8}

/-- How an access to a buffer of this length panics, if its index has 16 bits. -/
def IndexStop (profile : BuildProfile) (length : Nat) (stop : Panic) : Prop :=
  (stop = .arithmeticOverflow ∧ profile = .development) ∨
  (stop = .indexOutOfBounds ∧ length < 2 ^ 16)

theorem unsigned_ends (profile : BuildProfile) (value length : Nat) :
    Ends (profile.unsigned 16 value) (· < 2 ^ 16) (IndexStop profile length) := by
  unfold BuildProfile.unsigned
  split
  · rename_i hLt
    exact Ends.ok hLt
  · cases profile with
    | development => exact Ends.error (Or.inl ⟨rfl, rfl⟩)
    | production => exact Ends.ok (Nat.mod_lt value (by decide))

theorem wordIndex_ends (profile : BuildProfile) (size done j length : Nat) :
    Ends (wordIndex profile size done j) (· < 2 ^ 16) (IndexStop profile length) := by
  refine (unsigned_ends profile _ length).bind fun base _ => ?_
  refine (unsigned_ends profile _ length).bind fun offset _ => ?_
  exact unsigned_ends profile _ length

theorem highIndex_ends (profile : BuildProfile) (size done j length : Nat) :
    Ends (highIndex profile size done j) (· < 2 ^ 16) (IndexStop profile length) :=
  (wordIndex_ends profile size done j length).bind fun _ _ => unsigned_ends profile _ length

/-- Nothing beyond the first 64 KiB has been reached. -/
def Reached (buffer later : List UInt8) : Prop :=
  later.length = buffer.length ∧ later.drop (2 ^ 16) = buffer.drop (2 ^ 16)

theorem setByte_ends {part : List UInt8} {index : Nat} (value : UInt8) (h : Reached buffer part)
    (hIndex : index < 2 ^ 16) :
    Ends (setByte part index value) (Reached buffer) (IndexStop profile buffer.length) := by
  unfold setByte
  split
  · apply Ends.ok
    refine ⟨by rw [List.length_set, h.1], ?_⟩
    rw [List.drop_set_of_lt hIndex, h.2]
  · rename_i hOutside
    exact Ends.error (Or.inr ⟨rfl, by have := h.1; omega⟩)

theorem readWords_ends (size done : Nat) {js : List Nat} (h : Reached buffer state.1) :
    Ends (readWords profile bus size done js state) (fun later => Reached buffer later.1)
      (IndexStop profile buffer.length) := by
  induction js generalizing state with
  | nil => exact Ends.ok h
  | cons j rest ih =>
    refine (wordIndex_ends profile size done j buffer.length).bind fun low hLow => ?_
    refine (setByte_ends _ h hLow).bind fun part hPart => ?_
    refine (highIndex_ends profile size done j buffer.length).bind fun high hHigh => ?_
    refine (setByte_ends _ hPart hHigh).bind fun part hPart => ?_
    exact ih hPart

/-- The first 64 KiB of the buffer are zero. -/
def ZeroBelow (buffer : List UInt8) : Prop := ∀ i < 2 ^ 16, ∀ value, buffer[i]? = some value → value = 0

theorem getByte_ends {index : Nat} (h : ZeroBelow buffer) (hIndex : index < 2 ^ 16) :
    Ends (getByte buffer index) (· = 0) (IndexStop profile buffer.length) := by
  unfold getByte
  split
  · rename_i value hValue
    exact Ends.ok (h index hIndex value hValue)
  · rename_i hNone
    have hLength := List.getElem?_eq_none_iff.mp hNone
    exact Ends.error (Or.inr ⟨rfl, by omega⟩)

theorem writeWords_ends (size done : Nat) {js : List Nat} (hZero : ZeroBelow buffer)
    (h : ∀ word ∈ channel.sent, word = 0) :
    Ends (writeWords profile size done buffer js channel) (fun later => ∀ word ∈ later.sent, word = 0)
      (IndexStop profile buffer.length) := by
  induction js generalizing channel with
  | nil => exact Ends.ok h
  | cons j rest ih =>
    refine (wordIndex_ends profile size done j buffer.length).bind fun low hLow => ?_
    refine (getByte_ends hZero hLow).bind fun lowByte hLowByte => ?_
    refine (highIndex_ends profile size done j buffer.length).bind fun high hHigh => ?_
    refine (getByte_ends hZero hHigh).bind fun highByte hHighByte => ?_
    subst hLowByte hHighByte
    apply ih
    intro word hWord
    obtain hOld | hNew := List.mem_append.mp hWord
    · exact h word hOld
    · exact List.mem_singleton.mp hNew

/-- What is left of a run in which only the first 64 KiB are reached. -/
def Blind (mode : TransferMode) (buffer : List UInt8) (state : Transferred) : Prop :=
  Reached buffer state.1 ∧
  (mode = .write → state.1 = buffer ∧ ∀ word ∈ state.2.sent, word = 0)

theorem transferSector_ends (size done : Nat) (hZero : ZeroBelow buffer)
    (h : Blind mode buffer state) :
    Ends (transferSector profile bus size mode done state) (Blind mode buffer)
      (IndexStop profile buffer.length) := by
  unfold transferSector
  cases mode with
  | read => exact (readWords_ends size done h.1).mono fun later hLater => ⟨hLater, nofun⟩
  | write =>
    obtain ⟨hSame, hSent⟩ := h.2 rfl
    rw [hSame]
    refine (writeWords_ends size done hZero hSent).bind ?_
    intro later hLater
    exact Ends.ok ⟨⟨rfl, rfl⟩, fun _ => ⟨rfl, hLater⟩⟩

/-- A drive that is always ready ends the wait before a sector. -/
theorem ready_wait (words : Nat → Nat) (done : Nat) (next : IdeChannel) :
    ∃ waited, (if done = 0 then (true, next)
      else next.wait (.readyBut [] words) Status.driveReady) = (true, waited) ∧
      waited.sent = next.sent := by
  split
  · exact ⟨next, rfl, rfl⟩
  · exact ⟨_, rfl, rfl⟩

/-- A drive that is always ready gets through all sectors. -/
theorem transferSectors_ends (words : Nat → Nat) (size : Nat) (hZero : ZeroBelow buffer)
    (h : Blind mode buffer state) (hCount : done + left = count) :
    Ends (transferSectors (.readyBut [] words)
        (transferSector profile (.readyBut [] words) size mode) left done state)
      (fun (sectors, later) => sectors = count ∧ Blind mode buffer later)
      (IndexStop profile buffer.length) := by
  induction left generalizing done state with
  | zero => exact Ends.ok ⟨hCount, h⟩
  | succ left ih =>
    obtain ⟨part, next⟩ := state
    obtain ⟨waited, hWait, hSent⟩ := ready_wait words done next
    have hBlind : Blind mode buffer (part, waited) :=
      ⟨h.1, fun hWrite => ⟨(h.2 hWrite).1, hSent ▸ (h.2 hWrite).2⟩⟩
    rw [transferSectors, hWait]
    refine (transferSector_ends size done hZero hBlind).bind ?_
    intro later hLater
    exact ih hLater (by omega)

end

/-- Zeros below a limit, and other bytes from there on. -/
def probe (limit length : Nat) : List UInt8 :=
  List.replicate (min length limit) 0 ++ List.replicate (length - limit) 0xff

theorem length_probe (limit length : Nat) : (probe limit length).length = length := by
  rw [probe, List.length_append, List.length_replicate, List.length_replicate]
  omega

theorem probe_below {limit i : Nat} (h : i < limit) {value : UInt8}
    (hValue : (probe limit length)[i]? = some value) : value = 0 := by
  have hLength := (List.getElem?_eq_some_iff.mp hValue).1
  rw [length_probe] at hLength
  rw [probe, List.getElem?_append_left (by rw [List.length_replicate]; omega),
    List.getElem?_replicate_of_lt (by omega)] at hValue
  exact (Option.some.inj hValue).symm

theorem probe_limit {limit : Nat} (h : limit < length) :
    (probe limit length)[limit]? = some 0xff := by
  rw [probe, Nat.min_eq_right (Nat.le_of_lt h),
    List.getElem?_append_right (Nat.le_of_eq List.length_replicate), List.length_replicate, Nat.sub_self,
    List.getElem?_replicate_of_lt (by omega)]

/-- A drive that is always ready accepts the command. -/
theorem performAtaPio_ready (profile : BuildProfile) (mode : TransferMode) (size count : Nat)
    (buffer : List UInt8) :
    ∃ accepted : IdeChannel, accepted.sent = [] ∧
      performAtaPio profile (.readyBut [] fun _ => 0) (.large size) mode 0 count buffer .fresh =
        transferSectors (.readyBut [] fun _ => 0)
          (transferSector profile (.readyBut [] fun _ => 0) size mode) count 0 (buffer, accepted) := by
  obtain ⟨started, hStart⟩ : ∃ started, startCommand (.readyBut [] fun _ => 0) (.large size)
      (pioCommand (DriveInfo.large size).addressing mode) 0 count .fresh = .ok started := ⟨_, rfl⟩
  have hSent : started.sent = [] := ((startCommand_ends _ _ _ _ _ _).of_ok hStart).2
  refine ⟨(started.wait (.readyBut [] fun _ => 0) Status.dataRequest).2, hSent, ?_⟩
  unfold performAtaPio
  rw [hStart]
  rfl

theorem performAtaPio_probe (profile : BuildProfile) (mode : TransferMode) (size count : Nat) :
    Ends (performAtaPio profile (.readyBut [] fun _ => 0) (.large size) mode 0 count
        (probe (2 ^ 16) (count * size)) .fresh)
      (fun (sectors, later) => sectors = count ∧ Blind mode (probe (2 ^ 16) (count * size)) later)
      (IndexStop profile (count * size)) := by
  obtain ⟨accepted, hSent, hRun⟩ :=
    performAtaPio_ready profile mode size count (probe (2 ^ 16) (count * size))
  have hBlind : Blind mode (probe (2 ^ 16) (count * size))
      (probe (2 ^ 16) (count * size), accepted) := by
    refine ⟨⟨rfl, rfl⟩, fun _ => ⟨rfl, ?_⟩⟩
    rw [hSent]
    exact nofun
  have hZero : ZeroBelow (probe (2 ^ 16) (count * size)) := fun i hBelow _ => probe_below hBelow
  have hLength := length_probe (2 ^ 16) (count * size)
  rw [hRun, ← congrArg (IndexStop profile) hLength]
  exact transferSectors_ends (fun _ => 0) size hZero hBlind (Nat.zero_add count)

section

variable {bus : Bus} {mode : TransferMode} {size sectors : Nat} {buffer : List UInt8}
  {channel : IdeChannel} {later : Transferred} {words : List Nat}

/-- Sectors in place consist of words. -/
theorem InPlace.even (h : InPlace bus mode size buffer channel sectors later words)
    (hSectors : 0 < sectors) (hRoom : size ≤ buffer.length) : size % 2 = 0 := by
  have hFirst := congrArg List.length (h.sector 0 hSectors)
  rw [LittleEndian.length_flatMap_toBytes] at hFirst
  unfold sectorAt at hFirst
  rw [Nat.zero_mul, List.drop_zero, List.length_take, h.length, Nat.min_eq_left hRoom] at hFirst
  omega

/-- If only zeros have passed, the sectors in place are zero. -/
theorem InPlace.zero (h : InPlace bus mode size buffer channel sectors later words)
    (hWords : ∀ word ∈ words, word = 0) {position : Nat} (hPosition : position < sectors * size)
    {value : UInt8} (hValue : later.1[position]? = some value) : value = 0 := by
  have hSize : 0 < size := Nat.pos_of_lt_mul_left hPosition
  have hSector := h.sector (position / size) (Nat.div_lt_of_lt_mul (Nat.mul_comm sectors size ▸ hPosition))
  have hPlace : (sectorAt size (position / size) later.1)[position % size]? = some value := by
    unfold sectorAt
    rw [List.getElem?_take_of_lt (Nat.mod_lt position hSize), List.getElem?_drop, Nat.mul_comm,
      Nat.div_add_mod]
    exact hValue
  rw [hSector] at hPlace
  obtain ⟨word, hWord, hByte⟩ := List.mem_flatMap.mp (List.mem_of_getElem? hPlace)
  have hMem : word ∈ words := List.mem_of_mem_drop (List.mem_of_mem_take hWord)
  rw [hWords word hMem] at hByte
  have hZero : value ∈ [0, 0] := hByte
  simpa using hZero

end

/-- A drive that sends zeros passes zeros only, and so does a buffer of which
only the zeros are reached. -/
theorem Blind.zero {words : List Nat} (h : Blind mode buffer later)
    (hPassed : IdeChannel.fresh.Passed (.readyBut [] fun _ => 0) mode later.2 words) :
    ∀ word ∈ words, word = 0 := by
  intro word hWord
  cases mode with
  | read =>
    rw [hPassed.2] at hWord
    obtain ⟨_, _, hZero⟩ := List.mem_map.mp hWord
    exact hZero.symm
  | write =>
    apply (h.2 rfl).2
    rw [show later.2.sent = [] ++ words from hPassed]
    exact hWord

/-- The byte behind the first 64 KiB is never reached. -/
theorem Blind.limit (h : Blind mode (probe (2 ^ 16) length) later) (hLarge : 2 ^ 16 < length) :
    later.1[2 ^ 16]? = some 0xff := by
  have hBehind := congrArg (fun list => list[0]?) h.1.2
  simp only [List.getElem?_drop, Nat.add_zero] at hBehind
  exact hBehind.trans (probe_limit hLarge)

/-- Sectors of a request are kept by all drives only if they consist of words
and lie within the first 64 KiB. -/
theorem small_of_keepsSectors {profile : BuildProfile} {size : Nat}
    (h : KeepsSectors profile (.readyBut [] fun _ => 0) (.large size) mode 0 count
      (probe (2 ^ 16) (count * size)) .fresh) (hCount : 0 < count) :
    size % 2 = 0 ∧ count * size ≤ 2 ^ 16 := by
  have hRun := performAtaPio_probe profile mode size count
  have hLength := length_probe (2 ^ 16) (count * size)
  cases hResult : performAtaPio profile (.readyBut [] fun _ => 0) (.large size) mode 0 count
      (probe (2 ^ 16) (count * size)) .fresh with
  | error stop =>
    obtain rfl := h.of_error hResult
    obtain ⟨hStop, -⟩ | ⟨hStop, -⟩ := hRun.of_error hResult <;> cases hStop
  | ok result =>
    obtain ⟨sectors, later⟩ := result
    obtain ⟨-, words, hPlace⟩ := h.of_ok hResult
    obtain ⟨rfl, hBlind⟩ := hRun.of_ok hResult
    refine ⟨hPlace.even hCount (by rw [hLength]; exact Nat.le_mul_of_pos_left size hCount), ?_⟩
    apply Nat.le_of_not_lt
    intro hLarge
    have hZero := hPlace.zero (hBlind.zero hPlace.passed) hLarge (hBlind.limit hLarge)
    exact absurd hZero (by decide)

/-- PIO transfers of `count` sectors keep every sector in place if and only if
there is no sector, or the sectors consist of words of two bytes and lie within
the first 64 KiB. The indices have 16 bits: a larger request makes a
development build panic, and a production build goes back to the start of the
buffer. -/
theorem pio_keeps_sectors_iff (profile : BuildProfile) (mode : TransferMode) (size count : Nat) :
    (∀ bus info sector buffer channel, info.sectorSize = size → buffer.length = count * size →
      KeepsSectors profile bus info mode sector count buffer channel) ↔
    count = 0 ∨ (size % 2 = 0 ∧ count * size ≤ 2 ^ 16) := by
  constructor
  · intro h
    obtain hZero | hCount := Nat.eq_zero_or_pos count
    · exact Or.inl hZero
    · exact Or.inr (small_of_keepsSectors (h _ (.large size) _ _ _ rfl (length_probe _ _)) hCount)
  · intro h bus info sector buffer channel hSize hBuffer
    subst hSize
    obtain rfl | ⟨hEven, hSmall⟩ := h
    · apply keepsSectors_of_accepted
      intro accepted hPassed
      exact Ends.ok ⟨Nat.le_refl 0, [], .none _ buffer hPassed⟩
    · obtain ⟨half, hHalf⟩ := Nat.dvd_of_mod_eq_zero hEven
      exact keepsSectors_of_small profile bus mode sector channel hHalf hBuffer hSmall

/-- On a drive that is always ready, a run that returns has transferred each
sector. -/
theorem transferSectors_each {words : Nat → Nat}
    {transfer : (done : Nat) → Transferred → Except Panic Transferred} {number : Nat}
    {result : Nat × Transferred}
    (h : transferSectors (.readyBut [] words) transfer left done state = .ok result)
    (hFrom : done ≤ number) (hTo : number < done + left) :
    ∃ before after, transfer number before = .ok after := by
  induction left generalizing done state with
  | zero => omega
  | succ left ih =>
    obtain ⟨part, next⟩ := state
    obtain ⟨waited, hWait, -⟩ := ready_wait words done next
    rw [transferSectors, hWait] at h
    obtain ⟨after, hTransfer, hRest⟩ := bind_ok h
    obtain rfl | hLater := Nat.eq_or_lt_of_le hFrom
    · exact ⟨_, after, hTransfer⟩
    · exact ih hRest hLater (by omega)

/-- A development build panics at the first word of a sector that starts
beyond the first 64 KiB. -/
theorem transferSector_overflows {size : Nat} (hSize : 2 ≤ size) (hLarge : ¬ done * size < 2 ^ 16)
    (bus : Bus) (mode : TransferMode) (state : Transferred) :
    transferSector .development bus size mode done state = .error .arithmeticOverflow := by
  obtain ⟨buffer, channel⟩ := state
  obtain ⟨rest, hWords⟩ : ∃ rest, size / 2 = rest + 1 := ⟨size / 2 - 1, by omega⟩
  have hIndex : wordIndex .development size done 0 = .error .arithmeticOverflow := by
    rw [wordIndex, BuildProfile.unsigned_development_of_not_lt hLarge, bind_of_error]
  unfold transferSector
  rw [hWords, List.range_eq_range', List.range'_succ]
  cases mode with
  | read =>
    dsimp only
    rw [readWords, hIndex, bind_of_error]
  | write =>
    dsimp only
    rw [writeWords, hIndex, bind_of_error, bind_of_error]

/-- A request of 129 sectors, to a drive that is ready and sends zeros. A
development build panics; a production build says that all sectors have been
read, but the last one is not in the buffer. -/
theorem pio_misplaces_large_request :
    (∀ profile mode, ¬ KeepsSectors profile (.readyBut [] fun _ => 0) (.large 512) mode 0 129
      (probe (2 ^ 16) (129 * 512)) .fresh) ∧
    performAtaPio .development (.readyBut [] fun _ => 0) (.large 512) .read 0 129
      (probe (2 ^ 16) (129 * 512)) .fresh = .error .arithmeticOverflow ∧
    ∃ later, performAtaPio .production (.readyBut [] fun _ => 0) (.large 512) .read 0 129
      (probe (2 ^ 16) (129 * 512)) .fresh = .ok (129, later) ∧ later.1[128 * 512]? = some 0xff := by
  refine ⟨?_, ?_, ?_⟩
  · intro profile mode hKeeps
    have hSmall := (small_of_keepsSectors hKeeps (by decide)).2
    exact absurd hSmall (by decide)
  · have hRun := performAtaPio_probe .development .read 512 129
    cases hResult : performAtaPio .development (.readyBut [] fun _ => 0) (.large 512) .read 0 129
        (probe (2 ^ 16) (129 * 512)) .fresh with
    | error stop =>
      obtain ⟨rfl, -⟩ | ⟨-, hSmall⟩ := hRun.of_error hResult
      · rfl
      · exact absurd hSmall (by decide)
    | ok result =>
      obtain ⟨accepted, -, hAccepted⟩ :=
        performAtaPio_ready .development .read 512 129 (probe (2 ^ 16) (129 * 512))
      obtain ⟨before, after, hLast⟩ :=
        transferSectors_each (hAccepted.symm.trans hResult) (Nat.zero_le 128) (by decide)
      rw [transferSector_overflows (by decide) (by decide)] at hLast
      cases hLast
  · have hRun := performAtaPio_probe .production .read 512 129
    cases hResult : performAtaPio .production (.readyBut [] fun _ => 0) (.large 512) .read 0 129
        (probe (2 ^ 16) (129 * 512)) .fresh with
    | error stop =>
      obtain ⟨-, hDevelopment⟩ | ⟨-, hSmall⟩ := hRun.of_error hResult
      · cases hDevelopment
      · exact absurd hSmall (by decide)
    | ok result =>
      obtain ⟨sectors, later⟩ := result
      obtain ⟨rfl, hBlind⟩ := hRun.of_ok hResult
      exact ⟨later, rfl, hBlind.limit (by decide)⟩

end D3OS.Device.Ide
