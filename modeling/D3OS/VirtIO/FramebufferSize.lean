import D3OS.VirtIO.Gpu

/-! The size of the framebuffer. `setup_framebuffer` computes it once, in 32
bits, and uses it for the number of pages and for the length that the device is
told. The slice it returns is the whole region. -/
namespace D3OS.VirtIO

open Outcome
open D3OS.Memory (PAGE_SIZE)

/-- The bytes of the pixels of a display. -/
def Rect.byteSize (self : Rect) : Nat := 4 * self.width * self.height

/-- Where a pixel of the scanout rectangle begins in a resource that is as wide
as the display. -/
def Rect.pixelOffset (self : Rect) (column row : Nat) : Nat :=
  4 * ((self.y + row) * self.width + (self.x + column))

/-- The length of `raw_slice`. -/
def Dma.rawSliceLen (self : Dma) : Nat := self.pages * PAGE_SIZE

/-- The framebuffer is as large as the device was told. -/
structure Gpu.AsAnnounced (gpu : Gpu) (rect : Rect) (dma : Dma) : Prop where
  owned : gpu.frameBufferDma = some dma ∧ dma ∈ gpu.allocated
  announced : gpu.resource =
    some ⟨rect.width, rect.height, some ⟨dma.paddr, rect.byteSize⟩⟩
  region : rect.byteSize ≤ dma.pages * PAGE_SIZE
  pixels : ∀ column < rect.width, ∀ row < rect.height,
    rect.pixelOffset column row + 4 ≤ dma.rawSliceLen

namespace Gpu

variable {profile : BuildProfile} {self gpu : Gpu} {replies : SetupReplies} {rect : Rect}

theorem attachFramebuffer_ok {dma dma' : Dma} {size : Nat} {resource : Resource}
    (hResource : self.resource = some resource)
    (h : self.attachFramebuffer replies rect dma size = .ok (.ok dma', gpu)) :
    dma' = dma ∧ 0 < dma.pages * PAGE_SIZE ∧
      gpu.frameBufferDma = some dma ∧ gpu.allocated = self.allocated ∧
      gpu.resource = some { resource with backing := some ⟨dma.paddr, size⟩ } := by
  rw [attachFramebuffer, request_resourceAttachBacking _ _ hResource] at h
  cases hAttach : replies.attachBacking with
  | false => simp [hAttach] at h
  | true =>
    rw [hAttach, if_pos rfl] at h
    dsimp only at h
    rw [request_setScanout_framebuffer rect (by simp)] at h
    cases hScanout : replies.setScanout with
    | false => simp [hScanout] at h
    | true =>
      rw [hScanout, if_pos rfl] at h
      dsimp only at h
      by_cases hPages : 0 < dma.pages * PAGE_SIZE
      · rw [if_pos hPages] at h
        obtain ⟨hDma, rfl⟩ := Prod.mk.inj (Except.ok.inj h)
        exact ⟨(Except.ok.inj hDma).symm, hPages, rfl, rfl, resource_withResource self _⟩
      · rw [if_neg hPages] at h
        cases h

/-- The size is the number of bytes, up to a multiple of 2^32. -/
theorem createFramebuffer_ok {dma : Dma}
    (h : createFramebuffer profile self replies rect = .ok (.ok dma, gpu)) :
    dma.pages = pages (rect.byteSize % 2 ^ 32) ∧ 0 < rect.byteSize % 2 ^ 32 ∧
      gpu.frameBufferDma = some dma ∧ dma ∈ gpu.allocated ∧
      gpu.resource =
        some ⟨rect.width, rect.height, some ⟨dma.paddr, rect.byteSize % 2 ^ 32⟩⟩ := by
  by_cases hRefused : self.resource.isSome ∨ replies.create2d = false
  · rw [createFramebuffer_refused profile replies rect hRefused] at h
    cases h
  obtain ⟨hResource, hCreate⟩ : self.resource = none ∧ replies.create2d = true := by
    simpa using hRefused
  rw [createFramebuffer, request_resourceCreate2d _ _ hResource, if_pos hCreate] at h
  obtain ⟨pixels, hPixels, h⟩ := bind_ok h
  obtain ⟨size, hSize, h⟩ := bind_ok h
  obtain rfl : size = rect.byteSize % 2 ^ 32 := by
    rw [BuildProfile.word32_ok hSize, BuildProfile.word32_ok hPixels, Nat.mod_mul_mod, Rect.byteSize, Nat.mul_comm _ 4,
      Nat.mul_assoc]
  by_cases hPaddr : replies.paddr = 0
  · simp only [dmaNew, if_pos hPaddr] at h
    cases h
  · simp only [dmaNew, if_neg hPaddr] at h
    have hCreated := resource_withResource self (some ⟨rect.width, rect.height, none⟩)
    obtain ⟨rfl, hPos, hOwned, hAllocated, hShown⟩ := attachFramebuffer_ok (by exact hCreated) h
    refine ⟨rfl, Nat.pos_of_ne_zero fun hZero => ?_, hOwned, hAllocated ▸ List.mem_cons_self, hShown⟩
    have hPages : 0 < pages (rect.byteSize % 2 ^ 32) * PAGE_SIZE := hPos
    rw [hZero] at hPages
    exact absurd hPages (by decide)

theorem setupFramebuffer_eq_create (hInfo : replies.displayInfo = some rect) :
    ∃ cleared : Gpu, self.setupFramebuffer profile replies =
      createFramebuffer profile cleared replies rect := by
  simp only [setupFramebuffer, hInfo]
  exact ⟨_, rfl⟩

/-- The end of the last pixel of the scanout rectangle. -/
theorem pixelOffset_le (rect : Rect) {column row : Nat} (hColumn : column < rect.width)
    (hRow : row < rect.height) :
    rect.pixelOffset column row + 4 ≤ 4 * ((rect.y + rect.height) * rect.width + rect.x) := by
  have hRows : (rect.y + row + 1) * rect.width ≤ (rect.y + rect.height) * rect.width :=
    Nat.mul_le_mul_right _ (by omega)
  rw [Nat.succ_mul] at hRows
  unfold Rect.pixelOffset
  omega

/-- A framebuffer that is set up is as large as the device was told, if and only
if 32 bits suffice for its size, and its pages for the scanout rectangle. -/
theorem framebuffer_asAnnounced_iff {dma : Dma} (hInfo : replies.displayInfo = some rect)
    (hCall : self.setupFramebuffer profile replies = .ok (.ok dma, gpu)) :
    gpu.AsAnnounced rect dma ↔
      rect.byteSize < 2 ^ 32 ∧
      4 * ((rect.y + rect.height) * rect.width + rect.x) ≤ pages rect.byteSize * PAGE_SIZE := by
  obtain ⟨cleared, hEq⟩ := @setupFramebuffer_eq_create profile self replies rect hInfo
  obtain ⟨hPages, hPos, hOwned, hAllocated, hResource⟩ := createFramebuffer_ok (hEq ▸ hCall)
  constructor
  · intro h
    have hSize : rect.byteSize % 2 ^ 32 = rect.byteSize := by
      simpa [hResource] using h.announced
    have hWidth : 0 < rect.width := Nat.pos_of_ne_zero fun hZero => by
      simp [Rect.byteSize, hZero] at hPos
    have hHeight : 0 < rect.height := Nat.pos_of_ne_zero fun hZero => by
      simp [Rect.byteSize, hZero] at hPos
    refine ⟨hSize ▸ Nat.mod_lt _ (by decide), ?_⟩
    have hLast := h.pixels (rect.width - 1) (by omega) (rect.height - 1) (by omega)
    rw [Dma.rawSliceLen, hPages, hSize] at hLast
    refine Nat.le_trans ?_ hLast
    have hRows : (rect.y + (rect.height - 1)) * rect.width + rect.width =
        (rect.y + rect.height) * rect.width := by
      rw [← Nat.succ_mul]
      congr 1
      omega
    unfold Rect.pixelOffset
    omega
  · rintro ⟨hLt, hFits⟩
    rw [Nat.mod_eq_of_lt hLt] at hPages hResource
    rw [← hPages] at hFits
    exact ⟨⟨hOwned, hAllocated⟩, hResource, hPages ▸ le_pages _,
      fun column hColumn row hRow => Nat.le_trans (pixelOffset_le rect hColumn hRow) hFits⟩

/-- The pages suffice for a rectangle that begins at the origin. -/
theorem fits_of_origin {rect : Rect} (hX : rect.x = 0) (hY : rect.y = 0) :
    4 * ((rect.y + rect.height) * rect.width + rect.x) ≤ pages rect.byteSize * PAGE_SIZE := by
  refine Nat.le_trans (Nat.le_of_eq ?_) (le_pages rect.byteSize)
  rw [hX, hY, Nat.zero_add, Nat.add_zero, Rect.byteSize, Nat.mul_assoc, Nat.mul_comm rect.height]

/-- A display of 1920 x 1080. -/
theorem full_hd_asAnnounced : ∃ gpu, (Gpu.new.setupFramebuffer .production
      (allOk ⟨0, 0, 1920, 1080⟩ 0x100000)) = .ok (.ok ⟨0x100000, 2025⟩, gpu) ∧
    gpu.AsAnnounced ⟨0, 0, 1920, 1080⟩ ⟨0x100000, 2025⟩ := by
  obtain ⟨gpu, hCall⟩ : ∃ gpu, Gpu.new.setupFramebuffer .production
      (allOk ⟨0, 0, 1920, 1080⟩ 0x100000) = .ok (.ok ⟨0x100000, 2025⟩, gpu) := ⟨_, rfl⟩
  exact ⟨gpu, hCall, (framebuffer_asAnnounced_iff rfl hCall).mpr ⟨by decide, fits_of_origin rfl rfl⟩⟩

/-- For 65536 x 16385 pixels the device is told of 64 pages. -/
theorem large_display_wraps : ∃ gpu, (Gpu.new.setupFramebuffer .production
      (allOk ⟨0, 0, 65536, 16385⟩ 0x100000)) = .ok (.ok ⟨0x100000, 64⟩, gpu) ∧
    gpu.resource = some ⟨65536, 16385, some ⟨0x100000, 0x40000⟩⟩ ∧
    ¬ gpu.AsAnnounced ⟨0, 0, 65536, 16385⟩ ⟨0x100000, 64⟩ := by
  obtain ⟨gpu, hCall, hResource⟩ : ∃ gpu, Gpu.new.setupFramebuffer .production
      (allOk ⟨0, 0, 65536, 16385⟩ 0x100000) = .ok (.ok ⟨0x100000, 64⟩, gpu) ∧
      gpu.resource = some ⟨65536, 16385, some ⟨0x100000, 0x40000⟩⟩ := ⟨_, rfl, rfl⟩
  refine ⟨gpu, hCall, hResource, fun h => ?_⟩
  exact absurd h.region (by decide)

end Gpu

end D3OS.VirtIO
