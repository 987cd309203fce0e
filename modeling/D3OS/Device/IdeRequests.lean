import D3OS.Device.Ide

/-! How `perform_ata_io` splits a request into chunks. The transfer of a chunk
may acknowledge any part of it; the next chunk then starts where the last one
has ended. -/
namespace D3OS.Device.Ide

open Outcome

/-- The sectors that a chunk has transferred, each with the place of its bytes
in the buffer. -/
def Chunk.acknowledged (chunk : Chunk) (sectorSize : Nat) : List (Nat × Nat) :=
  (List.range chunk.sectors).map fun i => (chunk.start + i, chunk.bufferIndex + i * sectorSize)

def acknowledged (chunks : List Chunk) (sectorSize : Nat) : List (Nat × Nat) :=
  chunks.flatMap fun chunk => chunk.acknowledged sectorSize

/-- The sectors from `first` up to `stop` of a request, in order. -/
def requested (sector sectorSize first stop : Nat) : List (Nat × Nat) :=
  (List.range' first (stop - first)).map fun k => (sector + k, k * sectorSize)

/-- A transfer that acknowledges any number of the sectors of its chunk. -/
def Acknowledging (info : DriveInfo) (transfer : ChunkTransfer) : Prop :=
  ∀ start count part channel, part.length = count * info.sectorSize →
    ∃ sectors later after, transfer start count part channel = .ok (sectors, later, after) ∧
      sectors ≤ count ∧ later.length = part.length

/-- A chunk lies inside of the buffer and is not too long. -/
structure Chunk.Fits (chunk : Chunk) (info : DriveInfo) (length : Nat) : Prop where
  short : chunk.count ≤ maxSectors info.addressing
  inside : chunk.bufferEnd ≤ length
  whole : chunk.bufferEnd = chunk.bufferIndex + chunk.count * info.sectorSize
  answer : chunk.sectors ≤ chunk.count

theorem requested_append (sector sectorSize : Nat) {first middle stop : Nat} (hFirst : first ≤ middle)
    (hStop : middle ≤ stop) :
    requested sector sectorSize first stop =
      requested sector sectorSize first middle ++ requested sector sectorSize middle stop := by
  have hLength : stop - first = (middle - first) + (stop - middle) := by omega
  have hMiddle : first + (middle - first) = middle := by omega
  unfold requested
  rw [hLength, ← List.range'_append_1, List.map_append, hMiddle]

/-- A chunk that starts where `processed` sectors are done acknowledges the
sectors that come next. -/
theorem Chunk.acknowledged_eq {chunk : Chunk} {sector sectorSize processed : Nat}
    (hStart : chunk.start = sector + processed)
    (hIndex : chunk.bufferIndex = processed * sectorSize) :
    chunk.acknowledged sectorSize =
      requested sector sectorSize processed (processed + chunk.sectors) := by
  unfold Chunk.acknowledged requested
  rw [Nat.add_sub_cancel_left, List.range'_eq_map_range, List.map_map]
  apply List.map_congr_left
  intro i _
  simp only [Function.comp_apply, hStart, hIndex, Nat.add_mul, Prod.mk.injEq, and_true]
  omega

/-- The chunk that comes after `processed` sectors, when this many of its
sectors are acknowledged. -/
def nextChunk (info : DriveInfo) (sector count processed sectors : Nat) : Chunk where
  start := sector + processed
  count := min (count - processed) (maxSectors info.addressing)
  bufferIndex := processed * info.sectorSize
  bufferEnd := processed * info.sectorSize +
    min (count - processed) (maxSectors info.addressing) * info.sectorSize
  sectors

/-- The part of the buffer that belongs to a chunk. -/
def Chunk.part (chunk : Chunk) (buffer : List UInt8) : List UInt8 :=
  (buffer.drop chunk.bufferIndex).take (chunk.bufferEnd - chunk.bufferIndex)

/-- The buffer after the part of a chunk has been transferred. -/
def Chunk.replace (chunk : Chunk) (buffer part : List UInt8) : List UInt8 :=
  buffer.take chunk.bufferIndex ++ part ++ buffer.drop chunk.bufferEnd

section

variable {profile : BuildProfile} {info : DriveInfo} {transfer : ChunkTransfer}
  {sector count processed sectors : Nat} {buffer part : List UInt8}

theorem nextChunk_fits (hProcessed : processed ≤ count)
    (hSectors : sectors ≤ (nextChunk info sector count processed sectors).count) :
    (nextChunk info sector count processed sectors).Fits info (count * info.sectorSize) where
  short := Nat.min_le_right _ _
  inside := by
    have hChunk : min (count - processed) (maxSectors info.addressing) ≤ count - processed :=
      Nat.min_le_left _ _
    show processed * info.sectorSize + _ * info.sectorSize ≤ _
    rw [← Nat.add_mul]
    exact Nat.mul_le_mul_right _ (by omega)
  whole := rfl
  answer := hSectors

theorem Chunk.Fits.length_part {chunk : Chunk} (h : chunk.Fits info buffer.length) :
    (chunk.part buffer).length = chunk.count * info.sectorSize := by
  have hInside := h.inside
  have hWhole := h.whole
  rw [Chunk.part, List.length_take, List.length_drop]
  omega

theorem Chunk.Fits.length_replace {chunk : Chunk} (h : chunk.Fits info buffer.length)
    (hPart : part.length = (chunk.part buffer).length) :
    (chunk.replace buffer part).length = buffer.length := by
  have hInside := h.inside
  have hWhole := h.whole
  rw [h.length_part] at hPart
  rw [Chunk.replace, List.length_append, List.length_append, List.length_take, List.length_drop]
  omega

/-- One step of the loop, when the numbers of its sectors have 64 bits and its
chunk lies inside of the buffer. -/
theorem transferChunks_step {channel after : IdeChannel} (hMore : processed < count)
    (hSector : sector + count ≤ 2 ^ 64) (hLength : buffer.length < 2 ^ 64)
    (hFits : (nextChunk info sector count processed sectors).Fits info buffer.length)
    (hAnswer : transfer (sector + processed) (nextChunk info sector count processed sectors).count
      ((nextChunk info sector count processed sectors).part buffer) channel =
        .ok (sectors, part, after)) :
    transferChunks profile info transfer sector count processed buffer channel =
      if sectors = 0 then
        .ok (processed, ((nextChunk info sector count processed sectors).replace buffer part, after),
          [nextChunk info sector count processed sectors])
      else do
        let (total, state, chunks) ← transferChunks profile info transfer sector count
          (processed + sectors)
          ((nextChunk info sector count processed sectors).replace buffer part) after
        return (total, state, nextChunk info sector count processed sectors :: chunks) := by
  have hEnd : processed * info.sectorSize +
      min (count - processed) (maxSectors info.addressing) * info.sectorSize ≤ buffer.length :=
    hFits.inside
  rw [transferChunks, dif_pos hMore, profile.word_of_lt (by omega), bind_of_ok]
  dsimp only
  rw [profile.word_of_lt (by omega), bind_of_ok, profile.word_of_lt (by omega),
    bind_of_ok, if_pos ⟨by omega, hEnd⟩]
  unfold Chunk.part nextChunk at hAnswer
  rw [hAnswer, bind_of_ok]
  rfl

/-- The loop returns, and from `processed` sectors on it acknowledges the
sectors that follow. The induction is on the number of sectors that are left. -/
theorem transferChunks_acknowledged (hTransfer : Acknowledging info transfer)
    (hSector : sector + count ≤ 2 ^ 64) (channel : IdeChannel) (hProcessed : processed ≤ count)
    (hBuffer : buffer.length = count * info.sectorSize) (hLength : buffer.length < 2 ^ 64) :
    ∃ total later chunks,
      transferChunks profile info transfer sector count processed buffer channel =
        .ok (total, later, chunks) ∧
      processed ≤ total ∧ total ≤ count ∧
      (∀ chunk ∈ chunks, chunk.Fits info (count * info.sectorSize)) ∧
      acknowledged chunks info.sectorSize = requested sector info.sectorSize processed total := by
  induction hLeft : count - processed using Nat.strongRecOn
    generalizing processed buffer channel with
  | _ left ih =>
    by_cases hMore : processed < count
    · have hRoom : (nextChunk info sector count processed 0).Fits info buffer.length :=
        hBuffer ▸ nextChunk_fits hProcessed (Nat.zero_le _)
      obtain ⟨sectors, part, after, hAnswer, hSectors, hSame⟩ :=
        hTransfer (sector + processed) _ _ channel hRoom.length_part
      have hFits : (nextChunk info sector count processed sectors).Fits info
          (count * info.sectorSize) := nextChunk_fits hProcessed hSectors
      have hInside : (nextChunk info sector count processed sectors).Fits info buffer.length :=
        hBuffer ▸ hFits
      have hMade : (nextChunk info sector count processed sectors).acknowledged info.sectorSize =
          requested sector info.sectorSize processed (processed + sectors) :=
        Chunk.acknowledged_eq rfl rfl
      have hLater := hInside.length_replace hSame
      rw [transferChunks_step hMore hSector hLength hInside hAnswer]
      split
      · rename_i hNone
        refine ⟨processed, _, [_], rfl, Nat.le_refl _, hProcessed, by simpa using hFits, ?_⟩
        rw [acknowledged, List.flatMap_singleton, hMade, hNone, Nat.add_zero]
      · rename_i hSome
        have hCount : sectors ≤ count - processed := Nat.le_trans hSectors (Nat.min_le_left _ _)
        obtain ⟨total, later, chunks, hRest, hFrom, hTo, hAll, hOrder⟩ :=
          ih (count - (processed + sectors)) (by omega) after (by omega) (hLater.trans hBuffer)
            (hLater ▸ hLength) rfl
        rw [hRest]
        refine ⟨total, later, _ :: chunks, rfl, by omega, hTo,
          List.forall_mem_cons.mpr ⟨hFits, hAll⟩, ?_⟩
        rw [acknowledged, List.flatMap_cons, hMade,
          requested_append sector info.sectorSize (Nat.le_add_right processed sectors) hFrom]
        exact congrArg _ hOrder
    · rw [transferChunks, dif_neg hMore]
      refine ⟨processed, _, [], rfl, Nat.le_refl _, hProcessed, by simp, ?_⟩
      simp [acknowledged, requested]

end

/-- A request whose sectors have numbers of 64 bits is split without gaps. For
every transfer that acknowledges any part of each chunk, `perform_ata_io`
returns, its chunks are short and lie inside of the buffer, and the sectors it
has acknowledged are the first ones of the request, in order and each with its
own place in the buffer. -/
theorem requests_split_without_gaps (profile : BuildProfile) (bus : Bus) {info : DriveInfo}
    {transfer : ChunkTransfer} (hTransfer : Acknowledging info transfer) {sector count : Nat}
    {buffer : List UInt8} (channel : IdeChannel) (hSector : sector + count ≤ 2 ^ 64)
    (hBuffer : buffer.length = count * info.sectorSize) (hLength : buffer.length < 2 ^ 64) :
    ∃ total later chunks,
      performAtaIoBy profile bus info transfer sector count buffer channel =
        .ok (total, later, chunks) ∧
      total ≤ count ∧ (∀ chunk ∈ chunks, chunk.Fits info buffer.length) ∧
      acknowledged chunks info.sectorSize =
        (List.range total).map fun k => (sector + k, k * info.sectorSize) := by
  have hRange : ∀ total, requested sector info.sectorSize 0 total =
      (List.range total).map fun k => (sector + k, k * info.sectorSize) := by
    intro total
    rw [requested, Nat.sub_zero, ← List.range_eq_range']
  unfold performAtaIoBy
  dsimp only
  split
  · exact ⟨0, _, [], rfl, Nat.zero_le _, by simp, rfl⟩
  · split
    · exact ⟨0, _, [], rfl, Nat.zero_le _, by simp, rfl⟩
    · obtain ⟨total, later, chunks, hLoop, -, hTo, hFits, hOrder⟩ :=
        transferChunks_acknowledged hTransfer hSector _ (Nat.zero_le count) hBuffer hLength
      exact ⟨total, later, chunks, hLoop, hTo, hBuffer ▸ hFits, hOrder.trans (hRange total)⟩

/-- A transfer that acknowledges one sector of each chunk. -/
def oneSector : ChunkTransfer := fun _ count part channel => .ok (min 1 count, part, channel)

theorem oneSector_acknowledging (info : DriveInfo) : Acknowledging info oneSector :=
  fun _ count part channel _ => ⟨min 1 count, part, channel, rfl, Nat.min_le_right _ _, rfl⟩

theorem requests_split_without_gaps_two : ∃ total later chunks,
    performAtaIoBy .development (.readyBut [] fun _ => 0) (.large 1) oneSector 5 2 [0, 0]
      .fresh = .ok (total, later, chunks) ∧
    total ≤ 2 ∧ (∀ chunk ∈ chunks, chunk.Fits (.large 1) 2) ∧
    acknowledged chunks 1 = (List.range total).map fun k => (5 + k, k * 1) :=
  requests_split_without_gaps .development (.readyBut [] fun _ => 0)
    (oneSector_acknowledging (.large 1)) .fresh (by decide) rfl (by decide)

/-- One step of a loop that acknowledges one sector of each chunk. -/
theorem transferChunks_oneSector (profile : BuildProfile) {sector processed start : Nat}
    (channel : IdeChannel) (hStart : profile.word (sector + processed) = .ok start)
    (hProcessed : processed < 2) :
    transferChunks profile (.large 1) oneSector sector 2 processed [0, 0] channel = (do
      let (total, state, chunks) ←
        transferChunks profile (.large 1) oneSector sector 2 (processed + 1) [0, 0] channel
      return (total, state, ⟨start, 2 - processed, processed, 2, 1⟩ :: chunks)) := by
  rw [transferChunks, dif_pos hProcessed, hStart]
  obtain rfl | rfl : processed = 0 ∨ processed = 1 := by omega
  · rfl
  · rfl

/-- Two sectors from the last 64-bit number on. A development build panics,
and a production build goes on with sector 0. -/
theorem request_wraps_to_first_sector :
    Acknowledging (.large 1) oneSector ∧
    performAtaIoBy .development (.readyBut [] fun _ => 0) (.large 1) oneSector (2 ^ 64 - 1) 2 [0, 0]
      .fresh = .error .arithmeticOverflow ∧
    ∃ later chunks, performAtaIoBy .production (.readyBut [] fun _ => 0) (.large 1) oneSector
      (2 ^ 64 - 1) 2 [0, 0] .fresh = .ok (2, later, chunks) ∧
      acknowledged chunks 1 = [(2 ^ 64 - 1, 0), (0, 1)] := by
  have hSelected : ∃ channel, ∀ profile,
      performAtaIoBy profile (.readyBut [] fun _ => 0) (.large 1) oneSector (2 ^ 64 - 1) 2 [0, 0]
        .fresh =
      transferChunks profile (.large 1) oneSector (2 ^ 64 - 1) 2 0 [0, 0] channel :=
    ⟨_, fun _ => rfl⟩
  obtain ⟨channel, hLoop⟩ := hSelected
  refine ⟨oneSector_acknowledging (.large 1), ?_, ?_⟩
  · rw [hLoop, transferChunks_oneSector _ channel (BuildProfile.word_of_lt _ (by decide)) (by decide),
      transferChunks]
    rfl
  · rw [hLoop, transferChunks_oneSector _ channel (BuildProfile.word_of_lt _ (by decide)) (by decide),
      transferChunks_oneSector _ channel (BuildProfile.word_production _) (by decide),
      transferChunks]
    exact ⟨_, _, rfl, rfl⟩

end D3OS.Device.Ide
