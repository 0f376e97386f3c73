import WineGlass.Sync.Threads
import WineGlass.Sync.Mutex
import WineGlass.Sync.Identity
import WineGlass.Sync.Semaphore
import WineGlass.Sync.Event
import WineGlass.Sync.OneHandle
import WineGlass.Sync.Pulse
import WineGlass.Sync.CondVar
import WineGlass.Lib.Probe
import WineGlass.Srw.Table
import WineGlass.Srw.Lock
import WineGlass.Srw.Exclusion
import WineGlass.Engine.ResumeGate
import WineGlass.Srw.Overflow
import WineGlass.Engine.GuestHeap
import WineGlass.Lib.Word
import WineGlass.Lib.Fields
import WineGlass.Lib.Walk
import WineGlass.Memory.Space
import WineGlass.Memory.Wide
import WineGlass.Memory.Write
import WineGlass.Memory.Map
import WineGlass.Cpu.Decode
import WineGlass.Cpu.Form
import WineGlass.Cpu.Extent
import WineGlass.Cpu.Shapes
import WineGlass.Cpu.Shifts
import WineGlass.Cpu.RipRelative
import WineGlass.Cpu.Truncation
import WineGlass.Cpu.Length
import WineGlass.Cpu.State
import WineGlass.Cpu.Interp
import WineGlass.Cpu.Step
import WineGlass.Cpu.Compare
import WineGlass.Cpu.Flags
import WineGlass.Cpu.MultiLimb
import WineGlass.Cpu.ZeroExtend
import WineGlass.Cpu.ByteRegs
import WineGlass.Cpu.Calls
import WineGlass.Cpu.Operands
import WineGlass.Cpu.Products
import WineGlass.Lib.Bits
import WineGlass.Pe.Image
import WineGlass.Pe.Load
import WineGlass.Pe.Slots
import WineGlass.Pe.Bounds
import WineGlass.Pe.Imports
import WineGlass.Pe.Rebase
import WineGlass.Pe.Relocation
import WineGlass.Pe.Mapping
import WineGlass.Pe.LoadDll
import WineGlass.Lib.Turns
import WineGlass.Graphics.Tokens
import WineGlass.Graphics.Translate
import WineGlass.Graphics.Progress
import WineGlass.Graphics.Grammar
import WineGlass.Graphics.Bounds
import WineGlass.Graphics.Operands
import WineGlass.Graphics.Msl
import WineGlass.Graphics.Emit
import WineGlass.Graphics.Scope
import WineGlass.Graphics.Meaning
import WineGlass.Graphics.Integer
import WineGlass.Coop.Scheduler
import WineGlass.Coop.Slots
import WineGlass.Coop.Context
import WineGlass.Coop.Waits
import WineGlass.Coop.Entry
import WineGlass.Coop.CondVars
import WineGlass.Lib.Ring
import WineGlass.Engine.Messages
import WineGlass.Engine.Completion
import WineGlass.Engine.Events
import WineGlass.Engine.Tls
import WineGlass.Engine.PointerWidth
import WineGlass.Locks.Sections
import WineGlass.Lib.Move
import WineGlass.Memory.Move
import WineGlass.Engine.Thunks
import WineGlass.Engine.Binding
import WineGlass.Engine.Calls
import WineGlass.Engine.Seh
import WineGlass.Lib.Paths
import WineGlass.Files.Path
import WineGlass.Lib.Stdio
import WineGlass.Files.Handles
import WineGlass.Engine.Controls
import WineGlass.Pe.Blocks
import WineGlass.Net.Schannel
import WineGlass.Net.Encrypt
import WineGlass.Net.Decrypt
import WineGlass.Net.Contexts
import WineGlass.Lib.CStrings
import WineGlass.Net.Http
import WineGlass.Net.Body
import WineGlass.Lib.Uri
import WineGlass.Net.Redirect
import WineGlass.Net.Requests
import WineGlass.Net.Addresses
import WineGlass.Graphics.Com
import WineGlass.Graphics.Edits
import WineGlass.Graphics.Dispatch
import WineGlass.Graphics.Lifetimes
import WineGlass.Graphics.ComRuns
import WineGlass.Sync.Pulse
import WineGlass.Lib.Units
import WineGlass.Engine.Strings
import WineGlass.Engine.HandleKinds
import WineGlass.Locks.FairLock
import WineGlass.Net.Overlapped
import WineGlass.Coop.Answers
import WineGlass.Coop.Polls
import WineGlass.Coop.Deadlines
import WineGlass.Coop.WaitPaths
import WineGlass.Files.Relative
import WineGlass.Files.Canon
import WineGlass.Files.Api
import WineGlass.Files.Positional
import WineGlass.Files.Large
import WineGlass.Files.Views
import WineGlass.Engine.Regions
import WineGlass.Engine.Commits
import WineGlass.Lib.Faults
import WineGlass.Lib.Grid
import WineGlass.Lib.Tables
import WineGlass.Lib.Bresenham
import WineGlass.Gdi.Objects
import WineGlass.Gdi.Line
import WineGlass.Gdi.LineRuns
import WineGlass.Gdi.Blit
import WineGlass.Gdi.BlitRuns
import WineGlass.Gdi.BlitLaw
import WineGlass.Gdi.Dib
import WineGlass.Gdi.DibLaw
import WineGlass.Gdi.Bmp
import WineGlass.Gdi.BmpLaw
import WineGlass.Gdi.Targets
import WineGlass.Gdi.TargetRuns
import WineGlass.Engine.AllocSizes
import WineGlass.Engine.Realloc
import WineGlass.Pe.Exports
import WineGlass.Pe.Dialogs
import WineGlass.Pe.Templates
import WineGlass.Engine.Initterm
import WineGlass.Net.Scatter
import WineGlass.Engine.Transcode
import WineGlass.Graphics.Uploads
import WineGlass.Files.Returned
import WineGlass.Graphics.Staged
import WineGlass.Net.Crack
import WineGlass.Lib.Lines
import WineGlass.Net.Headers
import WineGlass.Lib.CFormat
import WineGlass.Engine.Printf
import WineGlass.Locks.Directed
import WineGlass.Locks.HandOver
import WineGlass.Engine.Formats
import WineGlass.Pe.Resources
import WineGlass.Files.Searches
import WineGlass.Cpu.Programs
