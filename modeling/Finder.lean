import Finder.Framework.Call
import Finder.Framework.SortedTable
import Finder.Framework.Heapless
import Finder.Framework.Machine
import Finder.Framework.Postcard
import Finder.Framework.Codec
import Finder.Framework.Strings
import Finder.Framework.CriticalSection
import Finder.Math.Bytes
import Finder.Math.Chain
import Finder.Math.Replicas
import Finder.Math.Causal
import Finder.Math.Gossip
import Finder.Protocol.Identity
import Finder.Protocol.Channel
import Finder.Protocol.Crypto
import Finder.Protocol.Chat
import Finder.Protocol.Slab
import Finder.Protocol.MemIo
import Finder.Protocol.Storage
import Finder.Protocol.Sync
import Finder.Protocol.Client
import Finder.Storage.Layout
import Finder.Storage.Writing
import Finder.Storage.Sessions
import Finder.Storage.Reading
import Finder.Storage.Frame
import Finder.Storage.Store
import Finder.Storage.Append
import Finder.Protocol.Wire
import Finder.Protocol.Plain
import Finder.Protocol.RustCrypto
import Finder.Crypto.Sealing
import Finder.Storage.Reopen
import Finder.Storage.RoundTrip
import Finder.Storage.Feed
import Finder.Storage.Stored
import Finder.Storage.Boundary
import Finder.Storage.Full
import Finder.Storage.Suffix
import Finder.Storage.Singles
import Finder.Channel.Table
import Finder.Channel.Steps
import Finder.Channel.Growth
import Finder.Channel.Convergence
import Finder.Channel.Devices
import Finder.Channel.Delivery
import Finder.Channel.Causality
import Finder.Channel.Bounds
import Finder.Channel.Addressing
import Finder.Client.Accept
import Finder.Client.Calls
import Finder.Client.Reachable
import Finder.Client.Atomicity
import Finder.Client.Ownership
import Finder.Client.Replay
import Finder.Client.Moves
import Finder.Client.Taking
import Finder.Client.Journal
import Finder.Client.History
import Finder.Client.Archive
import Finder.Client.Runs
import Finder.Client.Filing
import Finder.Client.Authorship
import Finder.Client.Redelivery
import Finder.Client.Members
import Finder.Client.Addressing
import Finder.Client.Numbering
import Finder.Client.Restoring
import Finder.Client.Permanence
import Finder.Sync.Stories
import Finder.Sync.Framing
import Finder.Sync.Clocks
import Finder.Sync.Hostile
import Finder.Sync.Merging
import Finder.Sync.Parsing
import Finder.Sync.Coverage
import Finder.Sync.Group
import Finder.Sync.Responding
import Finder.Sync.CatchUp
import Finder.Sync.Round
import Finder.Sync.Agreement
import Finder.Sync.Gossip
import Finder.Sync.Board
import Finder.Protocol.Packets
import Finder.Protocol.WireState
import Finder.Protocol.PlainRadio
import Finder.Protocol.Firmware
import Finder.Protocol.HeapType
import Finder.Memory.Ownership
import Finder.Radio.Packets
import Finder.Radio.Receiving
import Finder.Radio.Writing
import Finder.Radio.Entries
import Finder.Radio.Isolation
import Finder.Radio.Turns
import Finder.Radio.Coding
import Finder.Radio.Assembly
import Finder.Radio.Hello
import Finder.Radio.Polling
import Finder.Radio.Passes
import Finder.Radio.Links
import Finder.Radio.Air
import Finder.Radio.Delivery
import Finder.Radio.Traffic
import Finder.Radio.Deadlines
import Finder.Radio.Answers
import Finder.Storage.Corrupt
import Finder.Sync.Overflow
