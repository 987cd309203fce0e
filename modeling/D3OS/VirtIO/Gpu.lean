import D3OS.Kernel.Arithmetic
import D3OS.Library.Outcome
import D3OS.Memory.Basic

/-! The framebuffer of the VirtIO GPU driver, `device/gpu.rs`, beside the
resource table of the device it drives. The driver and the device agree as long
as every call meets `Call.Completes`; the first call that does not leaves the
device with a resource that the driver no longer knows. The cursor and the 3D
commands are left out. A request that the virtqueue refuses counts as one that
the device answers with an error. -/
namespace D3OS.VirtIO

open Outcome
open D3OS.Memory (PAGE_SIZE)

structure Rect where
  x : Nat
  y : Nat
  width : Nat
  height : Nat
  deriving DecidableEq, Repr

inductive Error where
  | notReady
  | ioError
  | dmaError
  deriving DecidableEq, Repr

/-- A region of contiguous physical memory used for DMA, `hal.rs`. -/
structure Dma where
  paddr : Nat
  pages : Nat
  deriving DecidableEq, Repr

def pages (size : Nat) : Nat :=
  (size + PAGE_SIZE - 1) / PAGE_SIZE

theorem le_pages (size : Nat) : size ≤ pages size * PAGE_SIZE := by
  unfold pages PAGE_SIZE
  omega

theorem pages_pos {size : Nat} (h : 0 < size) : 0 < pages size := by
  unfold pages PAGE_SIZE
  omega

def SCANOUT_ID : Nat := 0

def RESOURCE_ID_FB : Nat := 0xbabe

/-! ### The device -/

/-- The control commands of the framebuffer, with the fields they are sent with. -/
inductive Command where
  | resourceCreate2d (resourceId width height : Nat)
  | resourceUnref (resourceId : Nat)
  | setScanout (rect : Rect) (scanoutId resourceId : Nat)
  | resourceFlush (rect : Rect) (resourceId : Nat)
  | transferToHost2d (rect : Rect) (offset resourceId : Nat)
  | resourceAttachBacking (resourceId paddr length : Nat)
  | resourceDetachBacking (resourceId : Nat)

/-- Guest memory attached to a resource. -/
structure Backing where
  addr : Nat
  length : Nat
  deriving DecidableEq, Repr

structure Resource where
  width : Nat
  height : Nat
  backing : Option Backing
  deriving DecidableEq, Repr

/-- The device's resource table. -/
structure Device where
  resources : Nat → Option Resource

namespace Device

def update (self : Device) (resourceId : Nat) (resource : Option Resource) : Device :=
  ⟨fun other => if other = resourceId then resource else self.resources other⟩

@[simp] theorem resources_update (self : Device) (resourceId : Nat) (resource : Option Resource) :
    (self.update resourceId resource).resources resourceId = resource := if_pos rfl

/-- The effect of a command, where the resource table allows it: no resource is
created twice, and every other command needs the resource it names. Resource 0
stands for none in `setScanout`. -/
def execute (self : Device) : Command → Option Device
  | .resourceCreate2d resourceId width height =>
    match self.resources resourceId with
    | none => some (self.update resourceId (some ⟨width, height, none⟩))
    | some _ => none
  | .resourceUnref resourceId =>
    (self.resources resourceId).map fun _ => self.update resourceId none
  | .setScanout _ _ resourceId =>
    if resourceId = 0 ∨ (self.resources resourceId).isSome then some self else none
  | .resourceFlush _ resourceId => (self.resources resourceId).map fun _ => self
  | .transferToHost2d _ _ resourceId => (self.resources resourceId).map fun _ => self
  | .resourceAttachBacking resourceId paddr length =>
    (self.resources resourceId).map fun resource =>
      self.update resourceId (some { resource with backing := some ⟨paddr, length⟩ })
  | .resourceDetachBacking resourceId =>
    (self.resources resourceId).map fun resource =>
      self.update resourceId (some { resource with backing := none })

end Device

/-! ### The driver -/

/-- `VirtIOGpu`, the device behind its transport, and the regions that the
hardware abstraction layer has handed out and not got back. -/
structure Gpu where
  rect : Option Rect
  frameBufferDma : Option Dma
  device : Device
  allocated : List Dma

/-- How the device and the hardware abstraction layer answer the requests of one
`setup_framebuffer`: `true` for an OK answer; the display's rectangle for
`get_display_info`; the physical address, 0 on failure, for `dma_alloc`. -/
structure SetupReplies where
  displayInfo : Option Rect
  clearScanout : Bool
  detachBacking : Bool
  unref : Bool
  create2d : Bool
  paddr : Nat
  attachBacking : Bool
  setScanout : Bool

namespace Gpu

/-- The driver after `new`. -/
def new : Gpu := ⟨none, none, ⟨fun _ => none⟩, []⟩

/-- Sends a command. It takes effect exactly when the device answers OK, which
it never does where the resource table does not allow the command. -/
def request (self : Gpu) (command : Command) (answersOk : Bool) : Except Error Unit × Gpu :=
  match self.device.execute command with
  | some device =>
    if answersOk then (.ok (), { self with device := device }) else (.error .ioError, self)
  | none => (.error .ioError, self)

/-- `Dma::new`, with the address that `dma_alloc` returns. -/
def dmaNew (self : Gpu) (pages paddr : Nat) : Except Error Dma × Gpu :=
  if paddr = 0 then (.error .dmaError, self)
  else (.ok ⟨paddr, pages⟩, { self with allocated := ⟨paddr, pages⟩ :: self.allocated })

/-- `Dma::drop`. -/
def dmaDrop (self : Gpu) (dma : Dma) : Gpu :=
  { self with allocated := self.allocated.erase dma }

/-- The errors of the three commands are ignored. -/
def destroyFramebuffer (self : Gpu) (replies : SetupReplies) (rectForScanout : Rect) : Gpu :=
  let self := (self.request (.setScanout rectForScanout SCANOUT_ID 0) replies.clearScanout).2
  let self := (self.request (.resourceDetachBacking RESOURCE_ID_FB) replies.detachBacking).2
  let self := (self.request (.resourceUnref RESOURCE_ID_FB) replies.unref).2
  let self := self.frameBufferDma.elim self self.dmaDrop
  { self with
    frameBufferDma := none
    rect := none }

/-- `setup_framebuffer` from `resource_attach_backing` on. An early return drops
the region. -/
def attachFramebuffer (self : Gpu) (replies : SetupReplies) (rect : Rect) (dma : Dma)
    (size : Nat) : Except Panic (Except Error Dma × Gpu) :=
  match self.request (.resourceAttachBacking RESOURCE_ID_FB dma.paddr size)
    replies.attachBacking with
  | (.error error, self) => .ok (.error error, self.dmaDrop dma)
  | (.ok (), self) =>
    match self.request (.setScanout rect SCANOUT_ID RESOURCE_ID_FB) replies.setScanout with
    | (.error error, self) => .ok (.error error, self.dmaDrop dma)
    | (.ok (), self) =>
      -- `raw_slice` takes the address of the region's first byte.
      if 0 < dma.pages * PAGE_SIZE then
        .ok (.ok dma, { self with frameBufferDma := some dma })
      else .error .assertionFailed

/-- `setup_framebuffer` from `resource_create_2d` on. -/
def createFramebuffer (profile : BuildProfile) (self : Gpu) (replies : SetupReplies)
    (rect : Rect) : Except Panic (Except Error Dma × Gpu) :=
  match self.request (.resourceCreate2d RESOURCE_ID_FB rect.width rect.height)
    replies.create2d with
  | (.error error, self) => .ok (.error error, self)
  | (.ok (), self) => do
    let pixels ← profile.word32 (rect.width * rect.height)
    let size ← profile.word32 (pixels * 4)
    match self.dmaNew (pages size) replies.paddr with
    | (.error error, self) => .ok (.error error, self)
    | (.ok dma, self) => self.attachFramebuffer replies rect dma size

def setupFramebuffer (profile : BuildProfile) (self : Gpu) (replies : SetupReplies) :
    Except Panic (Except Error Dma × Gpu) :=
  match replies.displayInfo with
  | none => .ok (.error .ioError, self)
  | some rect =>
    let self :=
      if self.frameBufferDma.isSome then
        self.destroyFramebuffer replies (self.rect.getD rect)
      else self
    createFramebuffer profile { self with rect := some rect } replies rect

def flush (self : Gpu) (transferOk flushOk : Bool) : Except Error Unit × Gpu :=
  match self.rect with
  | none => (.error .notReady, self)
  | some rect =>
    match self.request (.transferToHost2d rect 0 RESOURCE_ID_FB) transferOk with
    | (.error error, self) => (.error error, self)
    | (.ok (), self) => self.request (.resourceFlush rect RESOURCE_ID_FB) flushOk

end Gpu

/-! ### What a request does -/

variable {profile : BuildProfile}

namespace Gpu

/-- The framebuffer's entry in the device's resource table. -/
def resource (self : Gpu) : Option Resource := self.device.resources RESOURCE_ID_FB

variable {self : Gpu} {command : Command} {answersOk : Bool}

theorem request_of_some {device : Device} (h : self.device.execute command = some device) :
    self.request command answersOk =
      if answersOk then (.ok (), { self with device := device }) else (.error .ioError, self) := by
  rw [request, h]

theorem request_of_none (h : self.device.execute command = none) :
    self.request command answersOk = (.error .ioError, self) := by
  rw [request, h]

/-- A command that only uses a resource changes no entry of the table. -/
theorem request_of_unchanged (h : ∀ device, self.device.execute command = some device →
    device = self.device) : (self.request command answersOk).2 = self := by
  fun_cases request self command answersOk with
  | case1 device hExecute hOk => rw [h device hExecute]
  | case2 | case3 => rfl

theorem request_setScanout (rect : Rect) (scanoutId resourceId : Nat) :
    (self.request (.setScanout rect scanoutId resourceId) answersOk).2 = self := by
  apply request_of_unchanged
  intro device h
  simp only [Device.execute] at h
  split at h <;> simp_all

theorem request_resourceFlush (rect : Rect) (resourceId : Nat) :
    (self.request (.resourceFlush rect resourceId) answersOk).2 = self := by
  apply request_of_unchanged
  intro device h
  obtain ⟨_, _, rfl⟩ := Option.map_eq_some_iff.mp h
  rfl

theorem request_transferToHost2d (rect : Rect) (offset resourceId : Nat) :
    (self.request (.transferToHost2d rect offset resourceId) answersOk).2 = self := by
  apply request_of_unchanged
  intro device h
  obtain ⟨_, _, rfl⟩ := Option.map_eq_some_iff.mp h
  rfl

/-- The device after a command that writes the framebuffer's entry. -/
def withResource (self : Gpu) (resource : Option Resource) : Gpu :=
  { self with device := self.device.update RESOURCE_ID_FB resource }

@[simp] theorem resource_withResource (self : Gpu) (resource : Option Resource) :
    (self.withResource resource).resource = resource := self.device.resources_update _ _

theorem request_resourceCreate2d (width height : Nat) (h : self.resource = none) :
    self.request (.resourceCreate2d RESOURCE_ID_FB width height) answersOk =
      if answersOk then (.ok (), self.withResource (some ⟨width, height, none⟩))
      else (.error .ioError, self) := by
  refine request_of_some ?_
  rw [Gpu.resource] at h
  simp [Device.execute, h]

theorem request_resourceAttachBacking {resource : Resource} (paddr length : Nat)
    (h : self.resource = some resource) :
    self.request (.resourceAttachBacking RESOURCE_ID_FB paddr length) answersOk =
      if answersOk then
        (.ok (), self.withResource (some { resource with backing := some ⟨paddr, length⟩ }))
      else (.error .ioError, self) := by
  refine request_of_some ?_
  rw [Gpu.resource] at h
  simp [Device.execute, h]

theorem request_setScanout_framebuffer (rect : Rect) (h : self.resource.isSome) :
    self.request (.setScanout rect SCANOUT_ID RESOURCE_ID_FB) answersOk =
      if answersOk then (.ok (), self) else (.error .ioError, self) := by
  refine request_of_some ?_
  rw [Gpu.resource] at h
  simp [Device.execute, h]

theorem resource_isSome_detachBacking :
    (self.request (.resourceDetachBacking RESOURCE_ID_FB) answersOk).2.resource.isSome =
      self.resource.isSome := by
  cases hResource : self.device.resources RESOURCE_ID_FB with
  | none => rw [request_of_none (by simp [Device.execute, hResource])]
  | some resource =>
    rw [request_of_some (by simp [Device.execute, hResource]; rfl)]
    cases answersOk <;> simp [Gpu.resource, hResource]

theorem resource_unref :
    (self.request (.resourceUnref RESOURCE_ID_FB) answersOk).2.resource =
      if answersOk then none else self.resource := by
  cases hResource : self.device.resources RESOURCE_ID_FB with
  | none =>
    rw [request_of_none (by simp [Device.execute, hResource])]
    simp [Gpu.resource, hResource]
  | some resource =>
    rw [request_of_some (by simp [Device.execute, hResource]; rfl)]
    cases answersOk <;> simp [Gpu.resource]

/-- Of the three answers only the one to `resource_unref` matters to whether
the resource is gone. -/
theorem destroyFramebuffer_resource (replies : SetupReplies) (rect : Rect) :
    (self.destroyFramebuffer replies rect).resource.isSome =
      (!replies.unref && self.resource.isSome) := by
  have hDrop (gpu : Gpu) : (gpu.frameBufferDma.elim gpu gpu.dmaDrop).device = gpu.device := by
    cases gpu.frameBufferDma <;> rfl
  simp only [destroyFramebuffer, Gpu.resource, hDrop, request_setScanout]
  simp only [← Gpu.resource.eq_def, resource_unref]
  cases replies.unref
  · simp [resource_isSome_detachBacking]
  · simp

/-! ### Agreement of driver and device -/

/-- What every call should leave behind: the device knows the framebuffer's
resource only while the driver owns its memory, and what is attached to it is
that memory, which has not been freed. -/
structure Agrees (gpu : Gpu) : Prop where
  exists_owned : gpu.resource.isSome → gpu.frameBufferDma.isSome
  backing_owned : ∀ resource backing, gpu.resource = some resource →
    resource.backing = some backing →
    ∃ dma ∈ gpu.allocated, gpu.frameBufferDma = some dma ∧ backing.addr = dma.paddr ∧
      backing.length ≤ dma.pages * PAGE_SIZE

/-- A framebuffer that is set up on both sides. -/
structure Present (gpu : Gpu) (dma : Dma) : Prop where
  owned : gpu.frameBufferDma = some dma
  allocated : dma ∈ gpu.allocated
  attached : ∃ width height length, length ≤ dma.pages * PAGE_SIZE ∧
    gpu.resource = some ⟨width, height, some ⟨dma.paddr, length⟩⟩

/-- A resource of which the driver has lost track. -/
def Orphaned (self : Gpu) : Prop :=
  self.resource.isSome ∧ self.frameBufferDma = none

/-- No framebuffer on either side, or one on both. -/
def Settled (self : Gpu) : Prop :=
  (self.resource = none ∧ self.frameBufferDma = none) ∨ ∃ dma, self.Present dma

theorem Orphaned.not_agrees (h : self.Orphaned) : ¬ self.Agrees := by
  intro hAgrees
  have hOwned := hAgrees.exists_owned h.1
  rw [h.2] at hOwned
  exact Bool.noConfusion hOwned

theorem Settled.agrees (h : self.Settled) : self.Agrees := by
  obtain ⟨hNone, _⟩ | ⟨dma, hOwned, hAllocated, _, _, _, hLength, hAttached⟩ := h
  · refine ⟨fun hSome => ?_, fun _ _ hSome _ => ?_⟩ <;> simp [hNone] at hSome
  · refine ⟨fun _ => by simp [hOwned], fun resource backing hResource hBacking => ?_⟩
    obtain rfl := Option.some.inj (hAttached.symm.trans hResource)
    obtain rfl := Option.some.inj hBacking
    exact ⟨dma, hAllocated, hOwned, rfl, hLength⟩

/-! ### One call -/

theorem word32_yields (profile : BuildProfile) (value : Nat) :
    Yields (value < 2 ^ 32) (profile.word32 value) fun result =>
      value < 2 ^ 32 → result = value := by
  by_cases h : value < 2 ^ 32
  · rw [profile.word32_of_lt h]
    exact .ok fun _ => rfl
  · exact (Yields.of_forall fun _ _ hLt => absurd hLt h).weaken h

/-- The resource exists already, or the device refuses to create it. -/
theorem createFramebuffer_refused (profile : BuildProfile) (replies : SetupReplies) (rect : Rect)
    (h : self.resource.isSome ∨ replies.create2d = false) :
    createFramebuffer profile self replies rect = .ok (.error .ioError, self) := by
  have hRequest : self.request (.resourceCreate2d RESOURCE_ID_FB rect.width rect.height)
      replies.create2d = (.error .ioError, self) := by
    cases hResource : self.resource with
    | some resource =>
      rw [Gpu.resource] at hResource
      exact request_of_none (by simp [Device.execute, hResource])
    | none =>
      rw [request_resourceCreate2d _ _ hResource]
      simpa [hResource] using h
  rw [createFramebuffer, hRequest]

variable {replies : SetupReplies} {rect : Rect}

/-- Unless the device takes the memory and shows it, the resource is left behind. -/
theorem attachFramebuffer_spec {dma : Dma} {size : Nat} {resource : Resource}
    (hResource : self.resource = some resource) (hDma : self.frameBufferDma = none)
    (hAllocated : dma ∈ self.allocated) (hSize : size ≤ dma.pages * PAGE_SIZE) :
    Yields (0 < dma.pages) (self.attachFramebuffer replies rect dma size) fun result =>
      if replies.attachBacking ∧ replies.setScanout then
        result.1 = .ok dma ∧ result.2.Present dma
      else result.2.Orphaned := by
  rw [attachFramebuffer, request_resourceAttachBacking _ _ hResource]
  cases hAttach : replies.attachBacking with
  | false => exact .ok ⟨Option.isSome_of_eq_some hResource, hDma⟩
  | true =>
    rw [if_pos rfl]
    dsimp only
    rw [request_setScanout_framebuffer rect (by simp)]
    cases hScanout : replies.setScanout with
    | false =>
      refine .ok ⟨?_, hDma⟩
      exact Option.isSome_of_eq_some (resource_withResource self _)
    | true =>
      rw [if_pos rfl]
      dsimp only
      split
      case isTrue hPages =>
        exact .ok ⟨rfl, rfl, hAllocated, _, _, size, hSize, resource_withResource self _⟩
      case isFalse hPages =>
        exact .error fun hPos => hPages (Nat.mul_pos hPos (by decide))

/-- The device creates the resource. Unless the driver also gets the memory, and
the device takes it and shows it, the resource is left behind. -/
theorem createFramebuffer_created (profile : BuildProfile) (rect : Rect)
    (hResource : self.resource = none) (hDma : self.frameBufferDma = none)
    (hCreate : replies.create2d = true) :
    Yields (0 < rect.width * rect.height ∧ rect.width * rect.height * 4 < 2 ^ 32)
      (createFramebuffer profile self replies rect) fun result =>
        if replies.paddr ≠ 0 ∧ replies.attachBacking ∧ replies.setScanout then
          ∃ dma, result.1 = .ok dma ∧ result.2.Present dma
        else result.2.Orphaned := by
  rw [createFramebuffer, request_resourceCreate2d _ _ hResource, if_pos hCreate]
  dsimp only
  refine .bind ((word32_yields profile _).weaken fun h => ?_) fun pixels hPixels => ?_
  · omega
  refine .bind ((word32_yields profile _).weaken fun h => ?_) fun size hSize => ?_
  · rw [hPixels (by omega)]
    exact h.2
  by_cases hPaddr : replies.paddr = 0
  · simp only [dmaNew, if_pos hPaddr]
    refine .ok ?_
    rw [if_neg (by simp [hPaddr])]
    exact ⟨Option.isSome_of_eq_some (resource_withResource self _), hDma⟩
  · simp only [dmaNew, if_neg hPaddr]
    let dma : Dma := ⟨replies.paddr, pages size⟩
    let held : Gpu :=
      { self.withResource (some ⟨rect.width, rect.height, none⟩) with
        allocated := dma :: self.allocated }
    have hHeld : held.resource = some ⟨rect.width, rect.height, none⟩ :=
      resource_withResource self _
    have hAllocated : dma ∈ held.allocated := List.mem_cons_self
    refine ((attachFramebuffer_spec hHeld hDma hAllocated (le_pages size)).weaken
      fun h => ?_).mono fun result hResult => ?_
    · have hPixels : pixels = rect.width * rect.height := hPixels (by omega)
      have hSize : size = pixels * 4 := hSize (by omega)
      exact pages_pos (by omega)
    · grind

/-- When the new resource is created, the driver holds no memory, and the old
resource is gone unless the device kept it. -/
theorem Settled.setupFramebuffer_eq (h : self.Settled) (profile : BuildProfile)
    (hInfo : replies.displayInfo = some rect) :
    ∃ cleared : Gpu, cleared.frameBufferDma = none ∧
      (cleared.resource = none ↔ self.frameBufferDma = none ∨ replies.unref) ∧
      self.setupFramebuffer profile replies = createFramebuffer profile cleared replies rect := by
  simp only [Gpu.setupFramebuffer, hInfo]
  obtain ⟨hNone, hDma⟩ | ⟨dma, hOwned, _, _, _, _, _, hAttached⟩ := h
  · refine ⟨{ self with rect := some rect }, hDma, ?_, by simp [hDma]⟩
    exact ⟨fun _ => .inl hDma, fun _ => hNone⟩
  · let destroyed := self.destroyFramebuffer replies (self.rect.getD rect)
    have hDestroyed : destroyed.resource.isSome = (!replies.unref && self.resource.isSome) :=
      self.destroyFramebuffer_resource replies (self.rect.getD rect)
    refine ⟨{ destroyed with rect := some rect }, rfl, ?_, by simp [hOwned, destroyed]⟩
    change destroyed.resource = none ↔ _
    rw [← Option.not_isSome_iff_eq_none, hDestroyed]
    simp [hAttached, hOwned]

/-- No request of `setup_framebuffer` fails at a point from which the driver
does not go back: an old resource is given up by the device, and a new one that
the device creates also gets its memory and is shown. -/
def Completes (self : Gpu) (replies : SetupReplies) : Prop :=
  replies.displayInfo = none ∨
    (self.frameBufferDma = none ∨ replies.unref) ∧
    (replies.create2d → replies.paddr ≠ 0 ∧ replies.attachBacking ∧ replies.setScanout)

theorem Settled.setupFramebuffer (h : self.Settled) {result : Except Error Dma × Gpu}
    (hCall : self.setupFramebuffer profile replies = .ok result) :
    (self.Completes replies → result.2.Settled) ∧
      (¬ self.Completes replies → result.2.Orphaned) := by
  cases hInfo : replies.displayInfo with
  | none =>
    simp only [Gpu.setupFramebuffer, hInfo, Except.ok.injEq] at hCall
    subst hCall
    exact ⟨fun _ => h, fun hNot => absurd (.inl hInfo) hNot⟩
  | some rect =>
    obtain ⟨cleared, hDma, hGone, hSetup⟩ := h.setupFramebuffer_eq profile hInfo
    rw [hSetup] at hCall
    have hCompletes : self.Completes replies ↔ cleared.resource = none ∧ (replies.create2d →
        replies.paddr ≠ 0 ∧ replies.attachBacking ∧ replies.setScanout) := by
      simp [Completes, hInfo, hGone]
    rw [hCompletes]
    by_cases hResource : cleared.resource = none
    · cases hCreate : replies.create2d with
      | true =>
        have hCreated := (createFramebuffer_created profile rect hResource hDma hCreate).of_ok
          hCall
        split at hCreated
        case isTrue hAll =>
          obtain ⟨dma, _, hPresent⟩ := hCreated
          exact ⟨fun _ => .inr ⟨dma, hPresent⟩, by simp [hResource, hAll]⟩
        case isFalse hAll =>
          exact ⟨fun h => absurd (h.2 rfl) hAll, fun _ => hCreated⟩
      | false =>
        rw [createFramebuffer_refused profile replies rect (.inr hCreate)] at hCall
        obtain rfl := Except.ok.inj hCall
        exact ⟨fun _ => .inl ⟨hResource, hDma⟩, by simp [hResource]⟩
    · have hSome : cleared.resource.isSome := Option.isSome_iff_ne_none.mpr hResource
      rw [createFramebuffer_refused profile replies rect (.inl hSome)] at hCall
      obtain rfl := Except.ok.inj hCall
      exact ⟨fun hAll => absurd hAll.1 hResource, fun _ => ⟨hSome, hDma⟩⟩

/-- Nothing fails, and the display has a size that 32 bits can count. -/
structure AllOk (replies : SetupReplies) (rect : Rect) : Prop where
  displayInfo : replies.displayInfo = some rect
  size : 0 < rect.width * rect.height ∧ rect.width * rect.height * 4 < 2 ^ 32
  unref : replies.unref
  create2d : replies.create2d
  shown : replies.paddr ≠ 0 ∧ replies.attachBacking ∧ replies.setScanout

theorem Settled.setupFramebuffer_succeeds (h : self.Settled) (profile : BuildProfile)
    (hReplies : AllOk replies rect) :
    ∃ dma gpu, self.setupFramebuffer profile replies = .ok (.ok dma, gpu) := by
  obtain ⟨cleared, hDma, hGone, hSetup⟩ := h.setupFramebuffer_eq profile hReplies.displayInfo
  have hResource : cleared.resource = none := hGone.mpr (.inr hReplies.unref)
  have hCreated := createFramebuffer_created profile rect hResource hDma hReplies.create2d
  obtain ⟨⟨result, gpu⟩, hCall, hResult⟩ := hCreated.exists_ok hReplies.size
  rw [if_pos hReplies.shown] at hResult
  obtain ⟨dma, rfl, _⟩ := hResult
  exact ⟨dma, gpu, hSetup.trans hCall⟩

theorem flush_unchanged (transferOk flushOk : Bool) : (self.flush transferOk flushOk).2 = self := by
  unfold flush
  split
  case h_1 => rfl
  case h_2 rect _ =>
    have hTransfer : (self.request (.transferToHost2d rect 0 RESOURCE_ID_FB) transferOk).2 = self :=
      request_transferToHost2d rect 0 RESOURCE_ID_FB
    split
    case h_1 _ after h => rwa [h] at hTransfer
    case h_2 after h =>
      rw [h] at hTransfer
      rw [request_resourceFlush]
      exact hTransfer

end Gpu

/-! ### Runs -/

/-- The calls of a client, with the answers they meet. -/
inductive Call where
  | setupFramebuffer (replies : SetupReplies)
  | flush (transferOk flushOk : Bool)

namespace Call

/-- The state after a call that returns, whether with a value or an error. -/
def run (profile : BuildProfile) (gpu : Gpu) : Call → Except Panic Gpu
  | .setupFramebuffer replies => (·.2) <$> gpu.setupFramebuffer profile replies
  | .flush transferOk flushOk => .ok (gpu.flush transferOk flushOk).2

def Completes (gpu : Gpu) : Call → Prop
  | .setupFramebuffer replies => gpu.Completes replies
  | .flush _ _ => True

end Call

/-- The states between calls, in runs of calls that meet `meets`. -/
inductive Reaches (profile : BuildProfile) (meets : Gpu → Call → Prop) : Gpu → Prop where
  | new : Reaches profile meets .new
  | step {gpu gpu' : Gpu} (call : Call) (hReach : Reaches profile meets gpu)
      (hMeets : meets gpu call) (hCall : call.run profile gpu = .ok gpu') :
      Reaches profile meets gpu'

namespace Gpu

variable {gpu : Gpu}

theorem Settled.call {gpu' : Gpu} (h : gpu.Settled) {call : Call}
    (hCall : call.run profile gpu = .ok gpu') :
    (call.Completes gpu → gpu'.Settled) ∧ (¬ call.Completes gpu → gpu'.Orphaned) := by
  cases call with
  | setupFramebuffer replies =>
    obtain ⟨result, hSetup, rfl⟩ := (map_ok_iff _ _ _).mp hCall
    exact h.setupFramebuffer hSetup
  | flush transferOk flushOk =>
    obtain rfl : gpu = gpu' := (gpu.flush_unchanged _ _).symm.trans (Except.ok.inj hCall)
    exact ⟨fun _ => h, fun hNot => absurd trivial hNot⟩

theorem Settled.of_reaches (hReach : Reaches profile (fun gpu call => call.Completes gpu) gpu) :
    gpu.Settled := by
  induction hReach with
  | new => exact .inl ⟨rfl, rfl⟩
  | step call _ hMeets hCall ih => exact (ih.call hCall).1 hMeets

/-- A resource that is left over stays, and every later setup fails on it. -/
theorem Orphaned.setupFramebuffer (h : gpu.Orphaned) (profile : BuildProfile)
    (replies : SetupReplies) :
    ∃ gpu', gpu.setupFramebuffer profile replies = .ok (.error .ioError, gpu') ∧
      gpu'.Orphaned := by
  unfold Gpu.setupFramebuffer
  split
  case h_1 => exact ⟨gpu, rfl, h⟩
  case h_2 rect _ =>
    rw [if_neg (by simp [h.2])]
    exact ⟨_, createFramebuffer_refused profile replies rect (.inl h.1), h⟩

/-- As long as every call completes, the driver and the device agree, and the
next setup is not refused for a resource that is left over. The first call that
returns without completing ends the agreement. -/
theorem agrees_of_completes {gpu : Gpu} {profile : BuildProfile}
    (hReach : Reaches profile (fun gpu call => call.Completes gpu) gpu) :
    gpu.Agrees ∧
      (∀ replies rect, AllOk replies rect →
        ∃ dma gpu', gpu.setupFramebuffer profile replies = .ok (.ok dma, gpu')) ∧
      ∀ (call : Call) (gpu' : Gpu), call.run profile gpu = .ok gpu' → (gpu'.Agrees ↔ call.Completes gpu) := by
  have hSettled := Settled.of_reaches hReach
  refine ⟨hSettled.agrees, fun _ _ => hSettled.setupFramebuffer_succeeds profile, ?_⟩
  intro call gpu' hCall
  obtain ⟨hKept, hLost⟩ := hSettled.call hCall
  refine ⟨fun hAgrees => ?_, fun hCompletes => (hKept hCompletes).agrees⟩
  exact Classical.byContradiction fun hNot => (hLost hNot).not_agrees hAgrees

/-- The answers to a setup of a display in which nothing fails. -/
def allOk (rect : Rect) (paddr : Nat) : SetupReplies :=
  ⟨some rect, true, true, true, true, paddr, true, true⟩

theorem completes_allOk (gpu : Gpu) (rect : Rect) {paddr : Nat} (hPaddr : paddr ≠ 0) :
    (Call.setupFramebuffer (allOk rect paddr)).Completes gpu :=
  .inr ⟨.inr rfl, fun _ => ⟨hPaddr, rfl, rfl⟩⟩

/-- A display is set up, flushed, and set up again after it was resized. -/
theorem agrees_after_resize : ∃ gpu,
    Reaches .development (fun gpu call => call.Completes gpu) gpu ∧
      gpu.frameBufferDma = some ⟨0x200000, 16⟩ ∧ gpu.Agrees := by
  let setup : Call := .setupFramebuffer (allOk ⟨0, 0, 64, 64⟩ 0x100000)
  let resize : Call := .setupFramebuffer (allOk ⟨0, 0, 128, 128⟩ 0x200000)
  obtain ⟨first, flushed, resized, hFirst, hFlushed, hResized, hDma⟩ : ∃ first flushed resized,
      setup.run .development .new = .ok first ∧
      (Call.flush true true).run .development first = .ok flushed ∧
      resize.run .development flushed = .ok resized ∧
      resized.frameBufferDma = some ⟨0x200000, 16⟩ := ⟨_, _, _, rfl, rfl, rfl, rfl⟩
  have hReach : Reaches .development (fun gpu call => call.Completes gpu) resized :=
    .step resize (.step (.flush true true) (.step setup .new (completes_allOk _ _ (by decide)) hFirst)
      trivial hFlushed) (completes_allOk _ _ (by decide)) hResized
  exact ⟨resized, hReach, hDma, (agrees_of_completes hReach).1⟩

/-- The device takes the memory of the first framebuffer, but does not show it:
the driver frees the memory that the device keeps, and no later setup succeeds. -/
theorem freed_while_attached : ∃ gpu,
    Reaches .development (fun _ _ => True) gpu ∧ ¬ gpu.Agrees ∧
      gpu.resource = some ⟨64, 64, some ⟨0x100000, 0x4000⟩⟩ ∧ gpu.allocated = [] ∧
      ∀ profile replies, ∃ gpu',
        gpu.setupFramebuffer profile replies = .ok (.error .ioError, gpu') := by
  let refused : SetupReplies := { allOk ⟨0, 0, 64, 64⟩ 0x100000 with setScanout := false }
  let call : Call := .setupFramebuffer refused
  obtain ⟨gpu, hCall, hResource, hAllocated, hDma⟩ : ∃ gpu, call.run .development .new = .ok gpu ∧
      gpu.resource = some ⟨64, 64, some ⟨0x100000, 0x4000⟩⟩ ∧ gpu.allocated = [] ∧
      gpu.frameBufferDma = none := ⟨_, rfl, rfl, rfl, rfl⟩
  have hOrphaned : gpu.Orphaned := ⟨Option.isSome_of_eq_some hResource, hDma⟩
  refine ⟨gpu, .step call .new trivial hCall, hOrphaned.not_agrees, hResource, hAllocated, ?_⟩
  intro profile replies
  obtain ⟨gpu', hLater, _⟩ := hOrphaned.setupFramebuffer profile replies
  exact ⟨gpu', hLater⟩

end Gpu

end D3OS.VirtIO
