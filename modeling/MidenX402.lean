import MidenX402.Adn.Client
import MidenX402.Adn.Remainder
import MidenX402.Adn.Types
import MidenX402.AdnServices.Agent
import MidenX402.AdnServices.Benchmark
import MidenX402.AdnServices.Facilitator
import MidenX402.AdnServices.Layout
import MidenX402.AdnServices.Loop
import MidenX402.AdnServices.Merchant
import MidenX402.AdnServices.Reference
import MidenX402.AdnServices.Resets
import MidenX402.AdnServices.Responses
import MidenX402.AdnServices.Sessions
import MidenX402.AdnServices.Survival
import MidenX402.AdnServices.Types
import MidenX402.AdnServices.Vouchers
import MidenX402.AgentDebitNote.Assets
import MidenX402.AgentDebitNote.Authorisation
import MidenX402.AgentDebitNote.Chain
import MidenX402.AgentDebitNote.Effect
import MidenX402.AgentDebitNote.Execution
import MidenX402.AgentDebitNote.Exposure
import MidenX402.AgentDebitNote.Kernel
import MidenX402.AgentDebitNote.Message
import MidenX402.AgentDebitNote.Reference
import MidenX402.AgentDebitNote.Script
import MidenX402.AgentDebitNote.Settle
import MidenX402.AgentDebitNote.Wire
import MidenX402.Agentic.Client
import MidenX402.Agentic.PaysOnce
import MidenX402.Agentic.Traces
import MidenX402.Agentic.World
import MidenX402.Concurrency.KeyedLock
import MidenX402.Disk.Contents
import MidenX402.Disk.Directories
import MidenX402.Disk.FileSystem
import MidenX402.Disk.Frames
import MidenX402.Disk.Inodes
import MidenX402.Disk.Interleaving
import MidenX402.Disk.Operations
import MidenX402.Disk.Program
import MidenX402.Disk.Script
import MidenX402.Disk.Volume
import MidenX402.Disk.Writers
import MidenX402.Encoding.Base64
import MidenX402.Encoding.Hex
import MidenX402.Facilitator.Acks
import MidenX402.Facilitator.AdnPay
import MidenX402.Facilitator.Agent
import MidenX402.Facilitator.Api
import MidenX402.Facilitator.Atomicity
import MidenX402.Facilitator.Batch
import MidenX402.Facilitator.Binding
import MidenX402.Facilitator.Effects
import MidenX402.Facilitator.Failures
import MidenX402.Facilitator.Frames
import MidenX402.Facilitator.Handler
import MidenX402.Facilitator.Increasing
import MidenX402.Facilitator.Intact
import MidenX402.Facilitator.Isolation
import MidenX402.Facilitator.Keys
import MidenX402.Facilitator.Listing
import MidenX402.Facilitator.Locking
import MidenX402.Facilitator.Lookup
import MidenX402.Facilitator.Moves
import MidenX402.Facilitator.Numbers
import MidenX402.Facilitator.OneWinner
import MidenX402.Facilitator.Payments
import MidenX402.Facilitator.Queue
import MidenX402.Facilitator.Race
import MidenX402.Facilitator.Reads
import MidenX402.Facilitator.RecordContents
import MidenX402.Facilitator.Records
import MidenX402.Facilitator.Recovery
import MidenX402.Facilitator.Registration
import MidenX402.Facilitator.Reservations
import MidenX402.Facilitator.RunOnce
import MidenX402.Facilitator.Sample
import MidenX402.Facilitator.SerialCodecs
import MidenX402.Facilitator.Serialization
import MidenX402.Facilitator.Server
import MidenX402.Facilitator.Store
import MidenX402.Facilitator.Submission
import MidenX402.Facilitator.Turns
import MidenX402.Facilitator.Types
import MidenX402.Facilitator.Wal
import MidenX402.Facilitator.Window
import MidenX402.Facilitator.Written
import MidenX402.Json.Reader
import MidenX402.Json.Serde
import MidenX402.Json.Text
import MidenX402.Ledger.Entries
import MidenX402.Masm.Machine
import MidenX402.Rust.Lines
import MidenX402.Rust.Parse
import MidenX402.Rust.Result
