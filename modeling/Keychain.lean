import Keychain.Library.Circular
import Keychain.Library.Machine
import Keychain.Library.Interaction
import Keychain.Tls.RingBuffer
import Keychain.Tls.RingBuffer.Write
import Keychain.Tls.RingBuffer.Read
import Keychain.Tls.RingBuffer.Queue
import Keychain.Tls.Device
import Keychain.Tls.Task
import Keychain.Tty.UsbStream
import Keychain.Tty.Line
import Keychain.Tty.Task
import Keychain.Tty.Editor
import Keychain.Library.History
import Keychain.Tls.Control
import Keychain.Tls.Setup
import Keychain.Tls.Integrity
import Keychain.Tls.Routing
import Keychain.Tls.Disconnect
import Keychain.Cmd.Board
import Keychain.Cmd.Table
import Keychain.Cmd.Process
import Keychain.Cmd.Reply
import Keychain.Main.ChipSelect
import Keychain.Library.Delivery
import Keychain.Usb.CdcAcm
import Keychain.Usb.Traffic
import Keychain.Usb.ExactlyOnce
import Keychain.Library.Fifo
import Keychain.Tty.Fifo
import Keychain.Main.HostLines
import Keychain.Bridge.Forward
import Keychain.Time.Delay
import Keychain.Time.Timer
import Keychain.Time.Monotonic
import Keychain.Time.Elapsed
import Keychain.Cmd.Grammar
import Keychain.Main.Seed
import Keychain.Cmd.Lookup
import Keychain.Main.Handshake
import Keychain.Cmd.Auto
import Keychain.Cmd.WholeWord
import Keychain.Tty.Output
import Keychain.Main.AutoRead
import Keychain.Uart.Ring
import Keychain.Uart.Lpuart
import Keychain.Uart.Fifo
import Keychain.Uart.Interrupt
import Keychain.Led.Sequence
import Keychain.Library.Base64
import Keychain.Library.Substring
import Keychain.Keys.WritePEM
import Keychain.Keys.Label
import Keychain.Cmd.Decode
import Keychain.Library.Merkle
import Keychain.Library.Winternitz
import Keychain.Sphincs.Hash
import Keychain.Sphincs.Address
import Keychain.Sphincs.Treehash
import Keychain.Sphincs.Wots
import Keychain.Sphincs.OneTime
import Keychain.Sphincs.Fors
import Keychain.Sphincs.Subtree
import Keychain.Sphincs.Sign
import Keychain.Sphincs.Verify
import Keychain.Usb.Receive
import Keychain.Usb.Port
import Keychain.Usb.Inbound
import Keychain.Tls.Inbound
import Keychain.Main.Loop
import Keychain.Main.UsbConsole
import Keychain.Library.Record
import Keychain.Library.Packet
import Keychain.Usb.Descriptors
import Keychain.Usb.GetDescriptor
import Keychain.Usb.ControlPipe
import Keychain.Usb.DataStage
import Keychain.Usb.Enumeration
import Keychain.Bridge.Relay
import Keychain.Library.FreeList
import Keychain.Usb.MemoryPool
import Keychain.Usb.MemoryPool.Layout
import Keychain.Usb.MemoryPool.Search
import Keychain.Usb.MemoryPool.Allocate
import Keychain.Usb.MemoryPool.Free
import Keychain.Usb.MemoryPool.Client
