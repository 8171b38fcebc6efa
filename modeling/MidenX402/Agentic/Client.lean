import MidenX402.Facilitator.Submission

/-!
# The agentic client

What `AgenticClient` computes between its awaits: the payload of a payment, the error an answer of the
facilitator turns into, and what it keeps of an answer.  The Miden client, the key store and the
serialiser are parameters.
-/

namespace MidenX402.Agentic
open Masm AgentDebitNote Facilitator

section Answers

inductive AgenticError where
  | http (text : String)
  | facilitator (status : ℕ) (code message : String)
  | staleBaseAfterRetry (client server : String)
  | keystore (text : String)
  | serialize (text : String)
  | config (text : String)
deriving DecidableEq

def AgenticError.isStaleBase : AgenticError → Bool
  | .facilitator _ code _ => code = "STALE_BASE_STATE"
  | _ => false

def codeAndStatus : FacilitatorError → String × ℕ
  | .agentNotRegistered _ => ("AGENT_NOT_REGISTERED",404)
  | .agentAlreadyRegistered _ => ("AGENT_ALREADY_REGISTERED",409)
  | .staleBaseState _ _ => ("STALE_BASE_STATE",409)
  | .invalidSignature _ => ("INVALID_SIGNATURE",400)
  | .mandateViolation _ => ("MANDATE_VIOLATION",403)
  | .outputCheckFailed _ => ("OUTPUT_CHECK_FAILED",400)
  | .doubleSpend => ("DOUBLE_SPEND",409)
  | .malformed _ => ("MALFORMED_PAYLOAD",400)
  | .notFound _ => ("NOT_FOUND",404)
  | .internal _ => ("INTERNAL",500)

/-- The error a client makes of an error body of the facilitator. -/
def AgenticError.ofFacilitator (e : FacilitatorError) : AgenticError :=
  .facilitator (codeAndStatus e).2 (codeAndStatus e).1 e.text

/-- `FacilitatorClient::parse` on an answer that arrives whole. -/
def parse {β : Type} (answer : Except FacilitatorError β) : Except AgenticError β :=
  answer.mapError AgenticError.ofFacilitator

/-- How an answer can fail to arrive: the connection breaks or the body of a success does not read, or
the body of an error does not read. -/
inductive Lost where
  | http (text : String)
  | unreadable (status : ℕ)

def Lost.error : Lost → AgenticError
  | .http text => .http text
  | .unreadable status => .facilitator status "UNKNOWN" ("non-success status " ++ Nat.repr status)

theorem Lost.isStaleBase_error (lost : Lost) : lost.error.isStaleBase = false := by
  cases lost <;> rfl

theorem isStaleBase_ofFacilitator (e : FacilitatorError) :
    (AgenticError.ofFacilitator e).isStaleBase = true ↔
      ∃ client server, e = .staleBaseState client server := by
  cases e <;> simp [AgenticError.ofFacilitator,AgenticError.isStaleBase,codeAndStatus]

structure AgentStateResponse where
  agentId : String
  committedStateCommitment : String
  pendingStateCommitment : String
  lastAcceptedSeq : ℕ
  inFlightCount : ℕ
deriving DecidableEq

/-- The answer of `get_agent_state`, from the pending state it loads first and the queue it lists
then. -/
def agentState (agentId : String) (pending : PendingState) (queued : List QueuedTx) :
    AgentStateResponse :=
  ⟨agentId,pending.committedStateCommitment,pending.pendingStateCommitment,pending.lastAcceptedSeq,
    queued.length⟩

end Answers

section Payload

structure PendingCache where
  pendingStateCommitment : String
  lastAcceptedSeq : ℕ
  nullifierSalt : ℕ
deriving DecidableEq

/-- The cache of a client that was just built. -/
def PendingCache.empty : PendingCache := ⟨"",0,0⟩

def PendingCache.refresh (cache : PendingCache) (state : AgentStateResponse) : PendingCache :=
  { cache with
    pendingStateCommitment := state.pendingStateCommitment
    lastAcceptedSeq := state.lastAcceptedSeq }

def PendingCache.take (cache : PendingCache) (ack : AckResponse) : PendingCache :=
  { cache with
    pendingStateCommitment := ack.newPendingStateCommitment
    lastAcceptedSeq := ack.seq }

/-- `miden` says whether an integration is attached. -/
structure AgenticClient where
  agentId : String
  accountId : String
  hotKeyCommitment : String
  miden : Bool

/-- The serialised envelope of a payment in either mode. -/
structure Encoders where
  placeholderJson : String → String → String → X402Context → ℕ → Except String (List UInt8)
  realJson : String → String → String → List UInt8

structure Execution where
  summary : TransactionSummary
  summaryBase64 : String
  txRequestBase64 : String

/-- What the Miden client and the key store answer when they are asked, which may differ from one
time to the next: `build_p2id_request` with `execute_for_summary`, and `sign_word_hex`. -/
structure Outside where
  execute : AccountId → AccountId → ℕ → Except AgenticError Execution
  signWordHex : Word → Except AgenticError String

variable (M : Miden) (E : Encoders)

def parseAccountId (s : String) : Except AgenticError AccountId :=
  (M.accountIdFromHex s).mapError fun e => .config ("AccountId from hex: " ++ e)

def parseAmount (s : String) : Except AgenticError ℕ :=
  match Rust.parseU64 s with
  | none => .error (.config "amount must be u64 for real path")
  | some amount => .ok amount

def beBytes (n : ℕ) : List UInt8 := (List.range 8).reverse.map fun i => UInt8.ofNat (n / 256 ^ i)

def deriveNextState (builtOn : String) (summaryCommitment : Word) : Word :=
  M.hash (builtOn.toUTF8.toList ++ M.wordBytes summaryCommitment)

/-- The salt wraps around. -/
def deriveNullifiers (agentId : String) (seq : ℕ) (cache : PendingCache) : List String × PendingCache :=
  let salt := (cache.nullifierSalt + 1) % 2 ^ 64
  ([M.wordToHex (M.hash (agentId.toUTF8.toList ++ beBytes seq ++ beBytes salt))],
    { cache with nullifierSalt := salt })

def makePayload (client : AgenticClient) (ctx : X402Context) (builtOn : String) (txSummary : TxSummary)
    (signatureHex nextStateHex : String) (nullifiers : List String) : AgenticPayload :=
  ⟨txSummary,⟨client.hotKeyCommitment,.falcon signatureHex⟩,ctx,builtOn,nextStateHex,nullifiers⟩

def buildReal (client : AgenticClient) (ctx : X402Context) (builtOn : String) (outside : Outside) :
    Except AgenticError AgenticPayload := do
  let recipient ← parseAccountId M ctx.merchantAccountId
  let faucet ← parseAccountId M ctx.assetFaucetId
  let amount ← parseAmount ctx.amount
  let run ← outside.execute recipient faucet amount
  let commitment := run.summary.commitment
  let signatureHex ← outside.signWordHex commitment
  let txSummary := ⟨some "miden-real-v1",some run.summaryBase64,some run.txRequestBase64,
    E.realJson run.summaryBase64 run.txRequestBase64 (M.wordToHex commitment),1⟩
  return makePayload client ctx builtOn txSummary signatureHex (M.wordToHex commitment)
    (run.summary.inputNullifierBytes.map M.toHex)

def buildPlaceholder (client : AgenticClient) (ctx : X402Context) (builtOn : String) (nextSeq : ℕ)
    (outside : Outside) (cache : PendingCache) :
    Except AgenticError (AgenticPayload × PendingCache) := do
  let bytes ← (E.placeholderJson client.agentId client.accountId builtOn ctx nextSeq).mapError .serialize
  let commitment := M.hash bytes
  let signatureHex ← outside.signWordHex commitment
  let nextStateHex := M.wordToHex (deriveNextState M builtOn commitment)
  let (nullifiers,cache) := deriveNullifiers M client.agentId nextSeq cache
  let txSummary := ⟨some "agentic-v1-placeholder",none,none,bytes,2⟩
  return (makePayload client ctx builtOn txSummary signatureHex nextStateHex nullifiers,cache)

/-- The rest of `build_payload_once` once it has read the cache. -/
def buildPayload (client : AgenticClient) (ctx : X402Context) (builtOn : String) (nextSeq : ℕ)
    (outside : Outside) (cache : PendingCache) : Except AgenticError (AgenticPayload × PendingCache) :=
  if client.miden then (buildReal M E client ctx builtOn outside).map fun payload => (payload,cache)
  else buildPlaceholder M E client ctx builtOn nextSeq outside cache

structure PaymentReceipt where
  agentId : String
  seq : ℕ
  reservedNullifiers : List String
  newPendingStateCommitment : String
  facilitatorAckSignature : String
  acceptedAtUnixMicros : ℕ
deriving DecidableEq

def receipt (agentId : String) (ack : AckResponse) : PaymentReceipt :=
  ⟨agentId,ack.seq,ack.reservedNullifiers,ack.newPendingStateCommitment,ack.facilitatorAckSignature,
    ack.acceptedAtUnixMicros⟩

end Payload

end MidenX402.Agentic
