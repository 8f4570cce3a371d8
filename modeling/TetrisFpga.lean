import TetrisFpga.Machine.Run
import TetrisFpga.Machine.Program
import TetrisFpga.Machine.LeadsTo
import TetrisFpga.Machine.TwoRuns
import TetrisFpga.Machine.History
import TetrisFpga.Machine.Clock
import TetrisFpga.Machine.Fifo
import TetrisFpga.Machine.Toggle
import TetrisFpga.Machine.Trace
import TetrisFpga.Machine.Divider
import TetrisFpga.Machine.ShiftRegister
import TetrisFpga.Machine.Memory
import TetrisFpga.Game.Logic
import TetrisFpga.Game.Bounds
import TetrisFpga.Game.Overlap
import TetrisFpga.Game.Reset
import TetrisFpga.Game.Fall
import TetrisFpga.Game.Stack
import TetrisFpga.Game.Landing
import TetrisFpga.Display.ColorMapper
import TetrisFpga.Display.Lab62
import TetrisFpga.Display.VgaController
import TetrisFpga.Display.FrameTick
import TetrisFpga.Display.Timing
import TetrisFpga.Display.Keyboard
import TetrisFpga.Display.Autonomy
import TetrisFpga.Usb.Defs
import TetrisFpga.Usb.World
import TetrisFpga.Usb.Transfer
import TetrisFpga.Usb.InTransfer
import TetrisFpga.Usb.Retries
import TetrisFpga.Usb.Control
import TetrisFpga.Usb.Hid
import TetrisFpga.Usb.ProbeWalk
import TetrisFpga.Usb.Max3421e
import TetrisFpga.Usb.Task
import TetrisFpga.Usb.Strings
import TetrisFpga.Usb.Main
import TetrisFpga.Usb.Digits
import TetrisFpga.Usb.Irq
import TetrisFpga.Usb.Invariant
import TetrisFpga.Usb.Table
import TetrisFpga.Usb.Requests
import TetrisFpga.Usb.Tasks
import TetrisFpga.Usb.Oscillator
import TetrisFpga.Usb.Running
import TetrisFpga.Usb.RunningAddress
import TetrisFpga.Usb.States
import TetrisFpga.Usb.Endpoints
import TetrisFpga.Usb.EndpointsMain
import TetrisFpga.Usb.Enumeration
import TetrisFpga.Usb.EnumerationRun
import TetrisFpga.Usb.Detection
import TetrisFpga.Usb.Completions
import TetrisFpga.Usb.Timeout
import TetrisFpga.Usb.Serves
import TetrisFpga.Usb.Served
import TetrisFpga.Usb.Replies
import TetrisFpga.Usb.Answered
import TetrisFpga.Usb.Leftovers
import TetrisFpga.Usb.Coverage
import TetrisFpga.Usb.Reports
import TetrisFpga.Usb.ProbeOutcome
import TetrisFpga.Usb.FirstEndpoint
import TetrisFpga.Usb.PolledEndpoint
import TetrisFpga.Usb.Abandoned
import TetrisFpga.Usb.Toggles
import TetrisFpga.Usb.Supply
import TetrisFpga.Usb.Rounds
import TetrisFpga.Usb.Truncated
import TetrisFpga.Usb.Recognise
import TetrisFpga.Usb.Configured
import TetrisFpga.Usb.Attach
import TetrisFpga.Usb.Bench
import TetrisFpga.Usb.BringUp
import TetrisFpga.Usb.InUse
import TetrisFpga.Usb.Placing
import TetrisFpga.Usb.Records
import TetrisFpga.Usb.Buffers
import TetrisFpga.Sdram.Controller
import TetrisFpga.Sdram.Device
import TetrisFpga.Sdram.Tetris
import TetrisFpga.Sdram.Handshake
import TetrisFpga.Sdram.System
import TetrisFpga.Sdram.Phase
import TetrisFpga.Sdram.Motion
import TetrisFpga.Sdram.Words
import TetrisFpga.Sdram.PowerUp
import TetrisFpga.Sdram.Reload
import TetrisFpga.Sdram.LoadMode
import TetrisFpga.Sdram.Answering
import TetrisFpga.Sdram.Wedge
import TetrisFpga.Sdram.Transaction
import TetrisFpga.Sdram.Legality
import TetrisFpga.Sdram.Refresh
import TetrisFpga.Sdram.View
import TetrisFpga.Sdram.Writing
import TetrisFpga.Sdram.WritePass
import TetrisFpga.Sdram.ReadPass
import TetrisFpga.Sdram.Hosted
import TetrisFpga.Sdram.Streams
import TetrisFpga.Sdram.ReadBack
import TetrisFpga.Sdram.Progress
import TetrisFpga.Spi.Port
import TetrisFpga.Spi.Bus
import TetrisFpga.Spi.Word
import TetrisFpga.Spi.Command
import TetrisFpga.Spi.Polling
import TetrisFpga.Spi.Exchange
import TetrisFpga.Spi.Burst
import TetrisFpga.Spi.Calls
import TetrisFpga.Spi.Playback
