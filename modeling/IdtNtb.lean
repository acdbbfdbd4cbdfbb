import IdtNtb.Lib.Runs
import IdtNtb.Lib.Bits
import IdtNtb.Lib.Bytes
import IdtNtb.Lib.Mailbox
import IdtNtb.Regs
import IdtNtb.Device
import IdtNtb.Peers
import IdtNtb.Windows
import IdtNtb.Writes
import IdtNtb.System
import IdtNtb.Mapping
import IdtNtb.Signals
import IdtNtb.Doorbell
import IdtNtb.Messages
import IdtNtb.Config
import IdtNtb.Bounds
import IdtNtb.Isolation
import IdtNtb.Interrupts
import IdtNtb.Masks
import IdtNtb.Status
import IdtNtb.Driver
import IdtNtb.Selector
import IdtNtb.Placement
import IdtNtb.Limit
import IdtNtb.Stores
import IdtNtb.FlatMemory
import IdtNtb.Reprogram
import IdtNtb.Table
import IdtNtb.Realize
import IdtNtb.Notifiers
import IdtNtb.Slots
import IdtNtb.LateStart
import IdtNtb.Server
import IdtNtb.Handshake
import IdtNtb.Connects
import IdtNtb.Vectors
import IdtNtb.Failures
import IdtNtb.Orders
import IdtNtb.Receive
import IdtNtb.Lib.Fuel
import IdtNtb.Setup
import IdtNtb.Aborts
import IdtNtb.Irqfd
import IdtNtb.InStep
import IdtNtb.Reset
import IdtNtb.Overlap
import IdtNtb.Bridge
import IdtNtb.Served
import IdtNtb.Pairing
import IdtNtb.Alerts
import IdtNtb.Lifetime
import IdtNtb.Heard
import IdtNtb.Membership
import IdtNtb.Events
import IdtNtb.Faults
import IdtNtb.Memory
import IdtNtb.Lib.Ledger
import IdtNtb.Ledger
import IdtNtb.Meeting
import IdtNtb.Lib.Progress
import IdtNtb.Recovery
