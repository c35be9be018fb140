import Wbox.Lib.Chain
import Wbox.Codegen.Blocks
import Wbox.Cpu.Conditions
import Wbox.Lib.Trace
import Wbox.Cpu.Context
import Wbox.Nt.Sync
import Wbox.Thread.State
import Wbox.Thread.Scheduler
import Wbox.Thread.Machine
import Wbox.Thread.Queue
import Wbox.Thread.Switch
import Wbox.Thread.WaitList
import Wbox.Thread.Dispatcher
import Wbox.Thread.Refinement
import Wbox.Thread.Invariant
import Wbox.Thread.Placement
import Wbox.Thread.VirtualTime
import Wbox.Thread.Registers
import Wbox.Nt.Handles
import Wbox.Nt.Timeouts
import Wbox.Thread.Waits
import Wbox.Thread.Wakeup
import Wbox.Nt.Signals
import Wbox.Thread.Pending
import Wbox.Nt.Mutants
import Wbox.Nt.Heap
import Wbox.Nt.HeapBlocks
import Wbox.Host.Fs
import Wbox.Nt.VfsJail
import Wbox.Nt.VfsComponents
import Wbox.Nt.VfsContainment
import Wbox.Nt.VfsResolution
import Wbox.Host.Opens
import Wbox.Nt.Files
import Wbox.Nt.FileEffects
import Wbox.Nt.HandleNumbers
import Wbox.Lib.Reads
import Wbox.Pe.Load
import Wbox.Pe.Bounds
import Wbox.Lib.Word
import Wbox.Vm.Paging
import Wbox.Vm.Frames
import Wbox.Thread.Memory
import Wbox.Host.Dirs
import Wbox.Nt.DllSearch
import Wbox.Nt.Creation
import Wbox.Loader.Stubs
import Wbox.Nt.Syscalls
import Wbox.Thread.StaleBlocks
import Wbox.Thread.References
import Wbox.Nt.Lifetime
import Wbox.Vm.Translation
import Wbox.Loader.Images
import Wbox.Loader.Placement
import Wbox.Lib.Orbit
import Wbox.Loader.Relocations
import Wbox.Loader.Accesses
import Wbox.Loader.Views
import Wbox.Loader.Exports
import Wbox.Loader.Forwarders
import Wbox.Loader.Identity
import Wbox.Lib.Events
import Wbox.Nt.BufferSyscalls
import Wbox.Vm.PageMap
import Wbox.Gdi.Drawing
import Wbox.Gdi.Bounds
import Wbox.Gdi.Rops
import Wbox.Gdi.Pictures
import Wbox.Gdi.HandleTable
import Wbox.Gdi.StaleHandles
import Wbox.User.HandleTable
import Wbox.User.StaleHandles
import Wbox.Lib.Refinement
import Wbox.Lib.Ring
import Wbox.User.MessageQueue
import Wbox.Nt.MutantCounts
import Wbox.Thread.Consumption
import Wbox.Nt.Consumption
import Wbox.Thread.WaitTypes
import Wbox.Nt.WaitAgreement
import Wbox.Gdi.Selection
import Wbox.Gdi.LiveObjects
import Wbox.Gdi.BitmapLinks
import Wbox.Loader.Imports
import Wbox.Lib.Visits
import Wbox.Loader.InitOrder
import Wbox.Loader.ImportSteps
import Wbox.Gdi.SharedTable
import Wbox.Lib.Delivery
import Wbox.Nt.SemaphoreBounds
import Wbox.User.QuitDelivery
import Wbox.Gdi.Creation
import Wbox.Gdi.Shutdown
import Wbox.User.Window
import Wbox.User.PaintWalk
import Wbox.User.PaintCycle
import Wbox.Lib.Forest
import Wbox.User.DesktopHeap
import Wbox.User.WindowLinking
import Wbox.User.WindowTree
import Wbox.User.GuestHandles
import Wbox.User.GuestWnd
import Wbox.User.GuestMirror
import Wbox.Nt.HandleMap
import Wbox.Nt.DriveMembership
import Wbox.Vm.RangeMapping
import Wbox.Lib.PreOrder
import Wbox.User.TreeWalk
import Wbox.User.PaintFilter
import Wbox.Lib.Encodings
import Wbox.Nt.VfsEncoding
import Wbox.Gdi.FillRect
import Wbox.Loader.ExportLookup
import Wbox.Nt.HeapRegion
import Wbox.Nt.HeapRealloc
import Wbox.Lib.LineWalk
import Wbox.Gdi.Lines
import Wbox.User.LiveHandles
import Wbox.Gdi.LiveHandles
import Wbox.Loader.RelocTable
import Wbox.Gdi.SavedStates
import Wbox.Gdi.Blits
import Wbox.Vm.GuestBuffer
import Wbox.User.CallbackArgs
import Wbox.User.CallbackBuffer
import Wbox.User.HeapIsolation
import Wbox.User.WindowLongs
import Wbox.User.Relinking
import Wbox.User.WindowState
import Wbox.User.Ancestors
import Wbox.User.ClassAtoms
import Wbox.User.ClassCounts
import Wbox.Nt.StringConversions
import Wbox.User.CountedStrings
import Wbox.User.WindowSearch
import Wbox.Gdi.Reselection
import Wbox.Thread.ContextSwitch
import Wbox.Vm.ExitRequests
import Wbox.Loader.ModuleLists
import Wbox.Thread.QueueOperations
import Wbox.User.ClientArea
import Wbox.Gdi.Regions
import Wbox.Gdi.Outlines
import Wbox.Gdi.TextOut
import Wbox.Gdi.TextExtents
import Wbox.Gdi.TextPictures
import Wbox.Gdi.TextPlacement
import Wbox.Gdi.TextOptions
import Wbox.Gdi.Scrolling
import Wbox.Vm.FieldWrites
import Wbox.Gdi.ObjectQueries
import Wbox.Host.Descriptors
import Wbox.Nt.FileIo
import Wbox.Nt.FilePositions
