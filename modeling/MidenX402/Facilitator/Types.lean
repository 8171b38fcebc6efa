import MidenX402.AgentDebitNote.Kernel
import MidenX402.Disk.Operations
import MidenX402.Rust.Parse
import MidenX402.Rust.Result

/-! # Records of the facilitator and the third-party functions it calls -/

namespace MidenX402.Facilitator
open Masm AgentDebitNote Disk

inductive SignatureScheme where
  | falcon
  | ecdsa
deriving DecidableEq

inductive ProposalSignature where
  | falcon (signature : String)
  | ecdsa (signature : String) (publicKey : Option String)
deriving DecidableEq

structure DeltaSignature where
  signerId : String
  signature : ProposalSignature
deriving DecidableEq

structure X402Context where
  merchantAccountId : String
  assetFaucetId : String
  amount : String
  deadlineUnixSecs : ℕ
  paymentRequirementsDigest : String
deriving DecidableEq

/-- The JSON value in `tx_summary`: the fields the handlers and the worker read, its serialisation and
how deep its brackets nest. -/
structure TxSummary where
  version : Option String
  summaryBase64 : Option String
  txRequestBase64 : Option String
  bytes : List UInt8
  depth : ℕ
deriving DecidableEq

structure AgenticPayload where
  txSummary : TxSummary
  hotKeySignature : DeltaSignature
  x402Context : X402Context
  builtOnStateCommitment : String
  newStateCommitment : String
  claimedNullifiers : List String
deriving DecidableEq

structure AgentMandate where
  perTxAmountCap : String
  merchantAllowlist : List String
  expiresAtUnixSecs : ℕ
deriving DecidableEq

structure RegisterAgentRequest where
  agentId : String
  accountId : String
  hotKeyCommitment : String
  hotKeyScheme : SignatureScheme
  hotKeyPubkeyHex : Option String
  initialStateCommitment : String
  mandate : AgentMandate
deriving DecidableEq

inductive PaymentStatus where
  | accepted
  | proving
  | submitted
  | committed
  | failed
deriving DecidableEq

structure AgentRecord where
  agentId : String
  accountId : String
  hotKeyCommitment : String
  hotKeyScheme : SignatureScheme
  hotKeyPubkeyHex : Option String
  registeredAtUnixSecs : ℕ
deriving DecidableEq

structure PendingState where
  committedStateCommitment : String
  pendingStateCommitment : String
  lastAcceptedSeq : ℕ
deriving DecidableEq

structure QueuedTx where
  seq : ℕ
  acceptedAtUnixMicros : ℕ
  nullifiers : List String
  status : PaymentStatus
  payload : AgenticPayload
  tBatchStartedUnixMicros : Option ℕ
  tSubmittedUnixMicros : Option ℕ
  tCommittedUnixMicros : Option ℕ
  error : Option String
deriving DecidableEq

structure WalEntry where
  nullifier : String
  seq : ℕ
  tsUnixMicros : ℕ
deriving DecidableEq

structure NullifierView where
  reserved : Finset String
  spent : Finset String
deriving DecidableEq

def NullifierView.contains (v : NullifierView) (nullifier : String) : Bool :=
  nullifier ∈ v.reserved || nullifier ∈ v.spent

structure AckResponse where
  acceptedAtUnixMicros : ℕ
  newPendingStateCommitment : String
  reservedNullifiers : List String
  seq : ℕ
  facilitatorAckSignature : String
deriving DecidableEq

inductive FacilitatorError where
  | agentNotRegistered (agentId : String)
  | agentAlreadyRegistered (agentId : String)
  | staleBaseState (client server : String)
  | invalidSignature (text : String)
  | mandateViolation (text : String)
  | outputCheckFailed (text : String)
  | doubleSpend
  | malformed (text : String)
  | notFound (text : String)
  | internal (text : String)
deriving DecidableEq

/-- What a file of the store holds.  `lines` is a log of one JSON entry per line, the empty log being
the empty file; `torn` is a file of which only a part was written. -/
inductive Content where
  | agent (record : AgentRecord)
  | mandate (mandate : AgentMandate)
  | pending (state : PendingState)
  | queued (tx : QueuedTx)
  | lookup (seq : ℕ)
  | lines (entries : List WalEntry)
  | torn
deriving DecidableEq

instance : Contents Content where
  empty := .lines []
  torn := .torn

/-- How deep `serde_json` reads; a value that nests to this depth is an error. -/
def recursionLimit : ℕ := 128

/-- A record of the payment reads back: there the summary stands two levels down. -/
def AgenticPayload.FitsRecord (payload : AgenticPayload) : Prop :=
  payload.txSummary.depth + 2 < recursionLimit

instance (payload : AgenticPayload) : Decidable payload.FitsRecord :=
  inferInstanceAs (Decidable (_ < _))

def QueuedTx.Readable (tx : QueuedTx) : Prop := tx.payload.FitsRecord

instance (tx : QueuedTx) : Decidable tx.Readable :=
  inferInstanceAs (Decidable tx.payload.FitsRecord)

/-- Deserialisation of a whole file.  Unknown fields are skipped, however deep they nest, so a queue
record and a log of one entry also read as a payment lookup; everything else reads as itself only,
and a record only within the recursion limit. -/
def Content.toAgent : Content → Option AgentRecord
  | .agent r => some r
  | _ => none

def Content.toMandate : Content → Option AgentMandate
  | .mandate m => some m
  | _ => none

def Content.toPending : Content → Option PendingState
  | .pending s => some s
  | _ => none

def Content.toQueued : Content → Option QueuedTx
  | .queued t => if t.Readable then some t else none
  | _ => none

theorem Content.toQueued_eq_some {c : Content} {tx : QueuedTx} :
    c.toQueued = some tx ↔ c = .queued tx ∧ tx.Readable := by
  cases c with
  | queued t =>
    rw [toQueued]
    split
    · rename_i hread
      constructor
      · rintro ⟨⟩
        exact ⟨rfl,hread⟩
      · rintro ⟨⟨⟩,-⟩
        rfl
    · rename_i hdeep
      constructor
      · rintro ⟨⟩
      · rintro ⟨⟨⟩,hread⟩
        exact absurd hread hdeep
  | _ =>
    constructor
    · rintro ⟨⟩
    · rintro ⟨⟨⟩,-⟩

def Content.toLookup : Content → Option ℕ
  | .lookup seq => some seq
  | .queued t => some t.seq
  | .lines [e] => some e.seq
  | _ => none

/-- Deserialisation line by line.  Records are pretty-printed over several lines and never read as
log entries. -/
def Content.toEntries : Content → Option (List WalEntry)
  | .lines es => some es
  | _ => none

/-- A line appended to a file; a record with a line after it is neither a record nor a log. -/
def Content.append (c : Content) (e : WalEntry) : Content :=
  match c with
  | .lines es => .lines (es ++ [e])
  | _ => .torn

structure FungibleAsset where
  faucetId : AccountId
  amount : ℕ

/-- The body of an output note as the checks read it. -/
structure FullNote where
  scriptRoot : Word
  storage : List Felt
  fungibleAssets : List FungibleAsset
  nullifierBytes : List UInt8

inductive RawOutputNote where
  | full (note : FullNote)
  | header

structure TransactionSummary where
  commitment : Word
  inputNullifierBytes : List (List UInt8)
  outputNotes : List RawOutputNote

/-- The libraries the handlers call: encodings, the Falcon verifier, the hash, and the texts of
identifiers and errors. -/
structure Miden where
  Signature : Type
  PublicKey : Type
  hexEncode : List UInt8 → String
  decodeHex : String → Except String (List UInt8)
  decodeBase64 : String → Except String (List UInt8)
  readSignature : List UInt8 → Except String Signature
  readPublicKey : List UInt8 → Except String PublicKey
  readSummary : List UInt8 → Except String TransactionSummary
  wordBytes : Word → List UInt8
  readWord : List UInt8 → Except String Word
  publicKey : Signature → PublicKey
  toCommitment : PublicKey → Word
  verify : Signature → Word → PublicKey → Bool
  hash : List UInt8 → Word
  debugWord : Word → String
  accountIdFromHex : String → Except String AccountId
  showAccountId : AccountId → String
  p2idScriptRoot : Word
  p2idTarget : List Felt → Except String AccountId
  signWordHex : Word → Except String String

end MidenX402.Facilitator
