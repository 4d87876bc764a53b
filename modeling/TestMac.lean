import TestMac.Lib.Paths
import TestMac.Lib.Fifo
import TestMac.Lib.Bytes
import TestMac.Lib.FramedRing
import TestMac.Lib.IndexRing
import TestMac.Lib.Decoder
import TestMac.Lib.Rounds
import TestMac.Lib.Records
import TestMac.Lib.Action
import TestMac.Lib.Together
import TestMac.Lib.Channels
import TestMac.Lib.Commutes
import TestMac.Lib.Copies
import TestMac.Lib.PackedUnits
import TestMac.Lib.CString
import TestMac.Ring.QuickMsgRing
import TestMac.Ring.QuickMsgRingFrames
import TestMac.Ring.QuickMsgRingFifo
import TestMac.Ring.QuickMsgRingBulk
import TestMac.Ring.QuickMsgRingBatch
import TestMac.Ring.CmmQuickMsgRing
import TestMac.Ring.CmmQuickMsgRingFrames
import TestMac.Ring.CmmQuickMsgRingFifo
import TestMac.Fapi.Layout
import TestMac.Rx.Decode
import TestMac.Rx.Walk
import TestMac.Rx.Bounds
import TestMac.Rx.Group
import TestMac.Rx.UciFormat
import TestMac.Rx.Uci
import TestMac.Mac.State
import TestMac.Mac.Cells
import TestMac.Mac.Transmit
import TestMac.Mac.Sends
import TestMac.Mac.Load
import TestMac.Mac.Handlers
import TestMac.Mac.Commands
import TestMac.Mac.Control
import TestMac.Mac.Requests
import TestMac.Mac.Refines
import TestMac.Mac.Slots
import TestMac.Mac.Handling
import TestMac.Mac.Runs
import TestMac.Mac.Configured
import TestMac.Mac.Stopped
import TestMac.Mac.Switch
import TestMac.Mac.TxGroup
import TestMac.Mac.Handover
import TestMac.Mac.TxRow
import TestMac.Mac.Generator
import TestMac.Mac.SlotRun
import TestMac.Mac.TableUses
import TestMac.Mac.SlotBounds
import TestMac.Mac.IndexUses
import TestMac.Mac.TxTwice
import TestMac.Mac.LoadMode
import TestMac.Mac.OwnRows
import TestMac.Mac.OwnPart
import TestMac.Mac.LoadSteps
import TestMac.Mac.LoadRuns
import TestMac.Mac.Loaded
import TestMac.Mac.SameRows
import TestMac.Mac.TwoRuns
import TestMac.Mac.Replaced
import TestMac.Mac.Period
import TestMac.Mac.LoadHistory
import TestMac.Mac.RowSizes
import TestMac.Mac.EntryRequests
import TestMac.Mac.Stamped
import TestMac.Mac.MsgSizes
import TestMac.Mac.Spacing
import TestMac.Mac.Shifts
import TestMac.Mac.Window
import TestMac.Mac.Trace
import TestMac.Rct.TtiParams
import TestMac.Rct.UlttiParams
import TestMac.Rct.DlttiParams
import TestMac.Rct.DlDcis
import TestMac.Rct.DlttiSerial
import TestMac.Rct.DlRounds
import TestMac.Rct.DlMisread
import TestMac.Rct.ConfigReqParams
import TestMac.Rct.ConfigSerial
import TestMac.Rct.ConfigSend
import TestMac.Rx.Receive
import TestMac.Rx.Isolation
import TestMac.Rx.UeTable
import TestMac.Rx.UeEntries
import TestMac.Rx.Identity
import TestMac.Rx.Calls
import TestMac.Rx.Counters
import TestMac.Rx.Period
import TestMac.Rx.Prach
import TestMac.Rx.PucchCrc
import TestMac.Rx.TimeOut
import TestMac.Rx.Offset
import TestMac.Rx.Rounds
import TestMac.Rx.Indications
import TestMac.Rx.RoundTrip
import TestMac.Common.SnprintfBuf
import TestMac.Common.CmmBuf
import TestMac.App.Post
import TestMac.App.AppQueue
import TestMac.App.Console
import TestMac.App.OamConfig
import TestMac.Lib.Performs
import TestMac.Rx.Meaning
import TestMac.Rx.Groups
import TestMac.Lib.Mailbox
import TestMac.Ring.QuickMsgRingSteps
import TestMac.Ring.QuickMsgRingCapacity
import TestMac.Mac.ControlPlane
import TestMac.App.System
import TestMac.Rx.PuschCrc
import TestMac.Lib.Markup
import TestMac.Common.MsgDesc
import TestMac.Common.PlatformCfg
import TestMac.Common.CmmBufText
import TestMac.Common.MsgDescRule
import TestMac.Common.MsgDescNesting
import TestMac.Common.MsgDescEnds
import TestMac.Common.MsgDescDump
import TestMac.Common.CmmLog
import TestMac.Lib.Numerals
import TestMac.App.ConsoleText
import TestMac.App.Start
import TestMac.App.Timer
import TestMac.App.OamRelay
