import ZynqRtlFlow.Synchronous.Machine
import ZynqRtlFlow.Rtl.AxiLite
import ZynqRtlFlow.Rtl.SparseMacPe
import ZynqRtlFlow.Rtl.SparseCnnAxi
import ZynqRtlFlow.Rtl.ReluUnit
import ZynqRtlFlow.Rtl.ReluAxi
import ZynqRtlFlow.AxiLite.Pairing
import ZynqRtlFlow.Model.ReluModel
import ZynqRtlFlow.Relu.Stream
import ZynqRtlFlow.Synchronous.Tiles
import ZynqRtlFlow.Relu.Accounting
import ZynqRtlFlow.Model.SparseMacModel
import ZynqRtlFlow.SparseCnn.Tiles
import ZynqRtlFlow.SparseCnn.Control
import ZynqRtlFlow.SparseCnn.Status
import ZynqRtlFlow.AxiLite.Agreement
import ZynqRtlFlow.SparseCnn.StartWhileBusy
import ZynqRtlFlow.Program.Monitor
import ZynqRtlFlow.Driver.AccelTransport
import ZynqRtlFlow.Driver.Relu
import ZynqRtlFlow.Driver.SparseCnn
import ZynqRtlFlow.Board.Bus
import ZynqRtlFlow.Board.Accelerator
import ZynqRtlFlow.Board.Dma
import ZynqRtlFlow.Board.System
import ZynqRtlFlow.Board.Quiet
import ZynqRtlFlow.Board.Transport
import ZynqRtlFlow.Board.Transfer
import ZynqRtlFlow.Board.Contract
import ZynqRtlFlow.Relu.Contract
import ZynqRtlFlow.Relu.Registers
import ZynqRtlFlow.Relu.Device
import ZynqRtlFlow.Relu.EndToEnd
import ZynqRtlFlow.SparseCnn.Contract
import ZynqRtlFlow.SparseCnn.Registers
import ZynqRtlFlow.SparseCnn.Device
import ZynqRtlFlow.SparseCnn.EndToEnd
import ZynqRtlFlow.Relu.ShortTile
import ZynqRtlFlow.Rtl.Ports
import ZynqRtlFlow.Rtl.Reset
import ZynqRtlFlow.SparseCnn.Pulses
import ZynqRtlFlow.AxiLite.Reading
import ZynqRtlFlow.Relu.RegisterFile
import ZynqRtlFlow.Program.Always
import ZynqRtlFlow.Driver.RegisterLayer
import ZynqRtlFlow.Board.Lending
import ZynqRtlFlow.Board.Exits
import ZynqRtlFlow.Program.Erase
import ZynqRtlFlow.Driver.TileExit
import ZynqRtlFlow.Board.Calm
import ZynqRtlFlow.Relu.Calm
import ZynqRtlFlow.SparseCnn.Calm
import ZynqRtlFlow.Board.Stranding
import ZynqRtlFlow.Driver.Lifecycle
import ZynqRtlFlow.Driver.OpenFiles
import ZynqRtlFlow.Text.Replace
import ZynqRtlFlow.Text.Strings
import ZynqRtlFlow.Overlay.Script
import ZynqRtlFlow.Overlay.Tree
import ZynqRtlFlow.Overlay.Search
import ZynqRtlFlow.Overlay.Edit
import ZynqRtlFlow.Overlay.Interrupts
import ZynqRtlFlow.Overlay.Client
import ZynqRtlFlow.Overlay.Gic
import ZynqRtlFlow.Overlay.Labels
import ZynqRtlFlow.Overlay.Specifiers
import ZynqRtlFlow.Overlay.Carry
import ZynqRtlFlow.Model.PlainMac
import ZynqRtlFlow.Overlay.Format
import ZynqRtlFlow.Overlay.Inversion
import ZynqRtlFlow.Overlay.Lookup
import ZynqRtlFlow.BoardNet.Host
import ZynqRtlFlow.BoardNet.Guards
import ZynqRtlFlow.Driver.SlopeText
import ZynqRtlFlow.Program.Client
import ZynqRtlFlow.RunTile.Script
import ZynqRtlFlow.RunTile.Matched
import ZynqRtlFlow.RunTile.Interrupts
import ZynqRtlFlow.Driver.Operations
import ZynqRtlFlow.Relu.SlopeShow
import ZynqRtlFlow.Board.Progress
import ZynqRtlFlow.Board.Buffers
import ZynqRtlFlow.Program.Can
import ZynqRtlFlow.Board.Serving
import ZynqRtlFlow.Relu.Serving
import ZynqRtlFlow.Board.Jam
import ZynqRtlFlow.SparseCnn.Serving
import ZynqRtlFlow.Board.Service
import ZynqRtlFlow.AxiLite.Effects
import ZynqRtlFlow.Rtl.AcceleratorContract
import ZynqRtlFlow.Program.Sessions
import ZynqRtlFlow.Board.Sessions
import ZynqRtlFlow.Relu.Sessions
import ZynqRtlFlow.SparseCnn.Sessions
import ZynqRtlFlow.Board.Rebinding
