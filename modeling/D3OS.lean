import D3OS.Memory.FrameConservation
import D3OS.Memory.AreaDisjointness
import D3OS.Memory.Clone
import D3OS.Memory.Ramdisk
import D3OS.Memory.BootMap
import D3OS.Memory.GapSearch
import D3OS.Memory.PageFaults
import D3OS.Memory.Lifetime
import D3OS.Memory.IdentityMap
import D3OS.Memory.Translation
import D3OS.Memory.GivenFrames
import D3OS.Memory.CopyToSpace
import D3OS.Memory.Permissions
import D3OS.Process.Environment
import D3OS.Process.References
import D3OS.Process.SchedulerLock
import D3OS.Process.SwitchReferences
import D3OS.Process.SwitchTransparency
import D3OS.Process.Waiting
import D3OS.Process.BoundedWaiting
import D3OS.Naming.Handles
import D3OS.Naming.OpenErrors
import D3OS.Naming.Readdir
import D3OS.Naming.SeekEnd
import D3OS.Syscall.Dispatch
import D3OS.Syscall.Arguments
import D3OS.Storage.Registry
import D3OS.Device.IdeRequests
import D3OS.Device.IdePio
import D3OS.Device.IdeDma
import D3OS.Device.TransmitBuffers
import D3OS.Device.ReceivedPackets
import D3OS.Device.TerminalEvents
import D3OS.Device.TerminalErase
import D3OS.Device.PciEnumeration
import D3OS.VirtIO.FramebufferSize
import D3OS.VirtIO.Hal
import D3OS.VirtIO.VirGL
import D3OS.Memory.Nfit
import D3OS.Syscall.WorkingDirectory
import D3OS.VirtIO.Renderer
