import Chirc.Theory.PrefixCode
import Chirc.Server.System
import Chirc.Verify.Parser
import Chirc.Verify.RoundTrip
import Chirc.Verify.Handlers
import Chirc.Theory.Rendezvous
import Chirc.Verify.Registry
import Chirc.Verify.Effects
import Chirc.Verify.Steps
import Chirc.Verify.History
import Chirc.Theory.Holders
import Chirc.Verify.Mirror
import Chirc.Verify.Counters
import Chirc.Verify.Ownership
import Chirc.Verify.Registration
import Chirc.Verify.Whois
import Chirc.Verify.Addressing
import Chirc.Verify.Lines
import Chirc.Verify.Framing
import Chirc.Verify.Tables
import Chirc.Verify.Closing
import Chirc.Verify.Words
import Chirc.Verify.Commute
import Chirc.Verify.Grammar
import Chirc.Context.Modes
import Chirc.Theory.Incidence
import Chirc.Context.ChannelUser
import Chirc.Verify.Modes
import Chirc.Verify.Membership
import Chirc.Context.Network
import Chirc.Verify.Network
import Chirc.Theory.Interleaving
import Chirc.Server.Interleaved
import Chirc.Verify.Branches
import Chirc.Verify.NameRace
import Chirc.Verify.HeadRace
import Chirc.Verify.Received
import Chirc.Verify.Spelling
import Chirc.Verify.Alone
import Chirc.Theory.Raises
import Chirc.Verify.Lengths
import Chirc.Verify.Faults
import Chirc.Verify.Safety
import Chirc.Verify.Room
import Chirc.Verify.Buffer
import Chirc.Server.Reads
import Chirc.Verify.Reads
import Chirc.Verify.Unknown
import Chirc.Verify.Sender
import Chirc.Verify.Reserved
import Chirc.Verify.Frame
import Chirc.Verify.Counts
import Chirc.Verify.Records
import Chirc.Server.Trim
import Chirc.Verify.Trim
import Chirc.Verify.Pieces
import Chirc.Verify.Gaps
import Chirc.Verify.Verbatim
import Chirc.Verify.Motd
import Chirc.Theory.While
import Chirc.Verify.Drain
import Chirc.Verify.Overflow
import Chirc.Context.Ctx
import Chirc.Verify.Teardown
import Chirc.Theory.Traced
import Chirc.Walk
import Chirc.Verify.Walk
import Chirc.Theory.LinkedList
import Chirc.Server.NodeLists
import Chirc.Verify.Deletion
import Chirc.Theory.Argmax
import Chirc.Verify.Fuzzy
import Chirc.Theory.DoublyLinked
import Chirc.Theory.Counting
import Chirc.Uthash
import Chirc.Verify.Buckets
import Chirc.Verify.HashTables
import Chirc.Verify.HashRuns
import Chirc.Server.HashMaps
import Chirc.Verify.HashMaps
import Chirc.Jenkins
import Chirc.Verify.Jenkins
import Chirc.Theory.Block
import Chirc.Sds
import Chirc.Verify.Sds
import Chirc.Verify.SdsOps
import Chirc.Verify.SdsRuns
import Chirc.Theory.Splitting
import Chirc.Theory.Allocation
import Chirc.SdsSplit
import Chirc.Verify.SdsSplit
import Chirc.Verify.SdsJoin
import Chirc.Context.NetworkHeap
import Chirc.Verify.NetworkHeap
import Chirc.Verify.Taken
import Chirc.Theory.Keyed
import Chirc.Context.Api
import Chirc.Verify.Api
import Chirc.Verify.ApiCounts
import Chirc.Server.MessageHeap
import Chirc.Server.SharedLists
import Chirc.Theory.Lockstep
import Chirc.Verify.MessageHeap
import Chirc.Verify.MessageRuns
import Chirc.Verify.SharedLists
