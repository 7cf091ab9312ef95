import Trawl.Address
import Trawl.Address.Reader
import Trawl.Bytes
import Trawl.Capture
import Trawl.CaptureFile.Blocks
import Trawl.CaptureFile.Classic
import Trawl.CaptureFile.Reader
import Trawl.CaptureFile.Window
import Trawl.CommandLine.Arguments
import Trawl.CommandLine.Command
import Trawl.CommandLine.Input
import Trawl.CommandLine.Outcome
import Trawl.CommandLine.PrintedRecord
import Trawl.CompoundFile.Allocation
import Trawl.CompoundFile.Directory
import Trawl.CompoundFile.Header
import Trawl.CompoundFile.Root
import Trawl.CompoundFile.Sector
import Trawl.Compression.Bits
import Trawl.Compression.Checksum
import Trawl.Compression.Container
import Trawl.Compression.Deflate
import Trawl.Compression.PrefixCode
import Trawl.Content.Chunk
import Trawl.Content.Classification
import Trawl.Content.Declared
import Trawl.Content.Fault
import Trawl.Content.Http.Chunked
import Trawl.Content.Http.Head
import Trawl.Content.Http.Message
import Trawl.Content.Http.Scan
import Trawl.Content.Http.StartLine
import Trawl.Content.Signature
import Trawl.Content.Signature.Brand
import Trawl.Content.Signature.CompoundDocument
import Trawl.Content.Signature.Office
import Trawl.Files.Expansion
import Trawl.Files.FileTree
import Trawl.Files.Filesystem
import Trawl.Files.Path
import Trawl.Files.Pattern
import Trawl.Flow
import Trawl.Frame
import Trawl.Frame.Document
import Trawl.Interface
import Trawl.Json.Decimal
import Trawl.Json.Printer
import Trawl.Json.Reader
import Trawl.Json.Value
import Trawl.Main
import Trawl.Packet.Fault
import Trawl.Packet.Internet
import Trawl.Packet.Link
import Trawl.Packet.Transport
import Trawl.Pipeline.Engine
import Trawl.Pipeline.Filter
import Trawl.Pipeline.Lane
import Trawl.Pipeline.Queue
import Trawl.Predicate
import Trawl.Proofs.Bytes
import Trawl.Proofs.CaptureFile.Captured
import Trawl.Proofs.CaptureFile.Interfaces
import Trawl.Proofs.CaptureFile.Layouts
import Trawl.Proofs.CaptureFile.Reading
import Trawl.Proofs.CaptureFile.SimplePackets
import Trawl.Proofs.CaptureFile.Ticks
import Trawl.Proofs.CaptureFile.Window
import Trawl.Proofs.CaptureFile.Written
import Trawl.Proofs.CommandLine.Located
import Trawl.Proofs.CommandLine.PrintedChunk
import Trawl.Proofs.Compression.Following
import Trawl.Proofs.Compression.Limit
import Trawl.Proofs.Compression.Members
import Trawl.Proofs.Content.Bodyless
import Trawl.Proofs.Content.Bounds
import Trawl.Proofs.Content.Budget
import Trawl.Proofs.Content.ChunkGrammar
import Trawl.Proofs.Content.Continued
import Trawl.Proofs.Content.FirstLine
import Trawl.Proofs.Content.HeadParts
import Trawl.Proofs.Content.Lossless
import Trawl.Proofs.Content.Members
import Trawl.Proofs.Content.Nonempty
import Trawl.Proofs.Content.Pipelined
import Trawl.Proofs.Content.Quoted
import Trawl.Proofs.Content.Series
import Trawl.Proofs.Content.SizeLine
import Trawl.Proofs.Content.StartLine
import Trawl.Proofs.Content.Transparency
import Trawl.Proofs.Content.Undeflated
import Trawl.Proofs.Double
import Trawl.Proofs.Files.Matches
import Trawl.Proofs.Files.OneStep
import Trawl.Proofs.Files.Place
import Trawl.Proofs.Flow
import Trawl.Proofs.Frame.Consistency
import Trawl.Proofs.Frame.Lengths
import Trawl.Proofs.Frame.Tiling
import Trawl.Proofs.Json.Quoted
import Trawl.Proofs.Json.RoundTrip
import Trawl.Proofs.Json.Value
import Trawl.Proofs.Pipeline.Batches
import Trawl.Proofs.Pipeline.Carrying
import Trawl.Proofs.Pipeline.Course
import Trawl.Proofs.Pipeline.Delivery
import Trawl.Proofs.Pipeline.Dispatching
import Trawl.Proofs.Pipeline.Downstream
import Trawl.Proofs.Pipeline.Draining
import Trawl.Proofs.Pipeline.Ending
import Trawl.Proofs.Pipeline.Faults
import Trawl.Proofs.Pipeline.Filtering
import Trawl.Proofs.Pipeline.Lanes
import Trawl.Proofs.Pipeline.Outcome
import Trawl.Proofs.Pipeline.Pauses
import Trawl.Proofs.Pipeline.Progress
import Trawl.Proofs.Pipeline.Refinement
import Trawl.Proofs.Pipeline.Rounds
import Trawl.Proofs.Pipeline.Sequential
import Trawl.Proofs.Pipeline.Steps
import Trawl.Proofs.Pipeline.Undisturbed
import Trawl.Proofs.Pipeline.Verdict
import Trawl.Proofs.Reassembly.Accounting
import Trawl.Proofs.Reassembly.Anchor
import Trawl.Proofs.Reassembly.AnyOrder
import Trawl.Proofs.Reassembly.Calls
import Trawl.Proofs.Reassembly.Clock
import Trawl.Proofs.Reassembly.Closing
import Trawl.Proofs.Reassembly.Completion
import Trawl.Proofs.Reassembly.Counters
import Trawl.Proofs.Reassembly.Coverage
import Trawl.Proofs.Reassembly.Eviction
import Trawl.Proofs.Reassembly.Gaps
import Trawl.Proofs.Reassembly.Idle
import Trawl.Proofs.Reassembly.Isolation
import Trawl.Proofs.Reassembly.Listing
import Trawl.Proofs.Reassembly.Memory
import Trawl.Proofs.Reassembly.Order
import Trawl.Proofs.Reassembly.Waiting
import Trawl.Proofs.Text.Base64
import Trawl.Proofs.Text.Octets
import Trawl.Reassembly.Pool
import Trawl.Reassembly.Stream
import Trawl.Record
import Trawl.Session
import Trawl.Settings
import Trawl.Settings.Reader
import Trawl.Source
import Trawl.Text.Base64
import Trawl.Text.CharClass
import Trawl.Text.UpperCase
import Trawl.Text.Utf16
import Trawl.Text.Utf8
import Trawl.Timestamp
