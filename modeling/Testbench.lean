import Testbench.Lib.Bits
import Testbench.Lib.MinScan
import Testbench.Lib.Run
import Testbench.Lib.TwoWire
import Testbench.Canphy.FrameLayout
import Testbench.Canfd.Faults
import Testbench.Lib.BoundedQueue
import Testbench.Canfd.RxFifo
import Testbench.Canfd.Arbitration
import Testbench.Axi4lite.Trans
import Testbench.Canfd.Scoreboard
import Testbench.Canfd.TxPrediction
import Testbench.Canfd.TxBuffer
import Testbench.Testcase.CheckRx
import Testbench.Canfd.BusErrors
import Testbench.Canfd.FilterConfig
import Testbench.Canfd.Registers
import Testbench.Canfd.Reception
import Testbench.Canfd.StatusBits
import Testbench.Canfd.TxEvents
import Testbench.Canfd.BusOff
import Testbench.Canfd.TxRequests
import Testbench.Canfd.Threads
import Testbench.Canfd.ExpectedFrame
import Testbench.Regmodel.CanfdRegBlock
import Testbench.Regmodel.RegSequence
import Testbench.Canfd.RegisterLayout
import Testbench.Canfd.Verdict
import Testbench.Canphy.DriveFrame
import Testbench.Canfd.FrameCrc
import Testbench.Canphy.SequenceLib
import Testbench.Axi4lite.Monitor
import Testbench.Axi4lite.Transfers
import Testbench.Sva.TbTop
import Testbench.I2c.Handshake
import Testbench.I2c.Transfers
import Testbench.Run.SeedRecord
import Testbench.Run.Regression
import Testbench.Run.CommandHistory
import Testbench.Run.Runners
import Testbench.Run.Report
import Testbench.Run.KFile
import Testbench.Run.KFileFlows
import Testbench.Testplan.RoundTrip
import Testbench.Canfd.LowestId
import Testbench.Canfd.RxOk
import Testbench.Canfd.Cancellation
import Testbench.Canfd.Timestamps
import Testbench.Canfd.Acceptance
import Testbench.Canfd.BufferWrites
import Testbench.Canfd.FrameCompare
import Testbench.Sdram.Monitor
import Testbench.Spi.Frames
import Testbench.Canfd.CrcDivision
import Testbench.Canphy.Stuffing
import Testbench.Canphy.Destuffing
import Testbench.Canphy.Capture
import Testbench.Canphy.BitRate
import Testbench.Sva.StuffCheck
import Testbench.Run.LogCheck
import Testbench.Run.RegressionReport
import Testbench.Run.DefineOptions
import Testbench.Testplan.SimArgs
import Testbench.Dma.Monitor
import Testbench.Lib.While
import Testbench.Testcase.ReadFile
import Testbench.Canphy.Session
import Testbench.Canfd.Environment
import Testbench.Axi4lite.MainPhase
import Testbench.Axi4lite.PublishedItems
import Testbench.Axi4lite.Progress
import Testbench.Sva.VifTop
import Testbench.Sva.ModeShadow
import Testbench.Run.RegressionMain
import Testbench.Printf.Hash
import Testbench.Printf.Render
import Testbench.Printf.Vasprintf
import Testbench.Canfd.Schedules
import Testbench.Run.SimFlows
import Testbench.Canfd.FrontDoor
