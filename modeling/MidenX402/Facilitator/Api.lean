import MidenX402.Encoding.Hex
import MidenX402.Facilitator.Store

/-!
# The payment handler

`postPayment` is the handler of `POST /agents/{agent_id}/payments` once it holds the lock of the
agent.  Its steps are definitions of their own, which the interleaved model takes one at a time.
-/

namespace MidenX402.Facilitator
open Masm AgentDebitNote Disk Rust

section Checks
variable (M : Miden)

/-- Bytes in hex, with the mark in front. -/
def Miden.toHex (bytes : List UInt8) : String := "0x" ++ M.hexEncode bytes

def Miden.wordToHex (w : Word) : String := M.toHex (M.wordBytes w)

/-- `hex::encode` writes hex digits only. -/
def Miden.HexDigits : Prop := ∀ bytes, ∀ c ∈ (M.hexEncode bytes).toList, c ∈ Hex.digits

def decodeHex (s : String) : Except String (List UInt8) := M.decodeHex (trimHexMark s)
where
  /-- `trim_start_matches("0x")`. -/
  trimHexMark (s : String) : String := String.ofList (strip s.toList)
  strip : List Char → List Char
    | '0' :: 'x' :: rest => strip rest
    | cs => cs

/-- Decode the summary of an envelope in real mode. -/
def decodeSummary (tx : TxSummary) : Except FacilitatorError TransactionSummary := do
  match tx.summaryBase64 with
  | none => .error (.malformed "real summary missing summary_base64")
  | some b64 =>
    let bytes ← (M.decodeBase64 b64).mapError fun e => .malformed ("summary_base64: " ++ e)
    (M.readSummary bytes).mapError fun e => .malformed ("TransactionSummary decode: " ++ e)

def isRealMode (tx : TxSummary) : Bool := tx.version = some "miden-real-v1"

/-- The message the hot key signs. -/
def signedMessage (tx : TxSummary) : Except FacilitatorError Word :=
  if isRealMode tx then (decodeSummary M tx).map TransactionSummary.commitment
  else .ok (M.hash tx.bytes)

def invalid {β : Type} (text : String) : Except FacilitatorError β := .error (.invalidSignature text)

def checkStoredPubkey (stored : Option String) (inline : M.PublicKey) : Except FacilitatorError Unit := do
  match stored with
  | none => return ()
  | some hex =>
    let bytes ← (decodeHex M hex).mapError fun e => .invalidSignature ("stored pubkey hex: " ++ e)
    let pk ← (M.readPublicKey bytes).mapError fun e =>
      .invalidSignature ("stored pubkey decode: " ++ e)
    if M.toCommitment pk ≠ M.toCommitment inline then
      invalid "registered pubkey disagrees with signature's inline pubkey"
    else return ()

def verifyHotKeySignature (record : AgentRecord) (payload : AgenticPayload) :
    Except FacilitatorError Unit := do
  let signerId := payload.hotKeySignature.signerId
  if signerId ≠ record.hotKeyCommitment then
    invalid ("signer_id " ++ signerId ++ " does not match registered hot_key_commitment " ++
      record.hotKeyCommitment)
  else if record.hotKeyScheme = .ecdsa then
    invalid "ECDSA hot-key verification not supported in v1"
  else match payload.hotKeySignature.signature with
    | .ecdsa _ _ => invalid "expected Falcon signature for falcon scheme"
    | .falcon sigHex =>
      let bytes ← (decodeHex M sigHex).mapError fun e => .invalidSignature ("signature hex: " ++ e)
      let signature ← (M.readSignature bytes).mapError fun e =>
        .invalidSignature ("Falcon decode: " ++ e)
      let inline := M.publicKey signature
      let expected := M.wordToHex (M.toCommitment inline)
      if expected ≠ record.hotKeyCommitment then
        invalid ("signature pubkey commits to " ++ expected ++ ", registered commitment " ++
          record.hotKeyCommitment)
      else
        checkStoredPubkey M record.hotKeyPubkeyHex inline
        let message ← signedMessage M payload.txSummary
        if M.verify signature message inline then return ()
        else invalid "Falcon signature failed to verify against tx_summary commitment"

def tryDecodeRealSummary (tx : TxSummary) : Except FacilitatorError (Option TransactionSummary) :=
  if isRealMode tx then (decodeSummary M tx).map some else .ok none

def extractNullifierHexes (summary : TransactionSummary) : List String :=
  summary.inputNullifierBytes.map M.toHex ++ summary.outputNotes.filterMap fun
    | .full note => some (M.toHex note.nullifierBytes)
    | .header => none

def outputFailed {β : Type} (text : String) : Except FacilitatorError β :=
  .error (.outputCheckFailed text)

def checkRecipient (note : FullNote) (merchantAccountId : String) :
    Except FacilitatorError Unit := do
  let actual ← (M.p2idTarget note.storage).mapError fun e =>
    .outputCheckFailed ("P2idNoteStorage parse: " ++ e)
  let expected ← (M.accountIdFromHex merchantAccountId).mapError fun e =>
    .malformed ("x402_context.merchant_account_id: " ++ e)
  if actual ≠ expected then
    outputFailed ("recipient " ++ M.showAccountId actual ++ " != merchant " ++ M.showAccountId expected)
  else return ()

def checkAsset (note : FullNote) (context : X402Context) : Except FacilitatorError Unit := do
  match note.fungibleAssets with
  | [asset] =>
    let faucet ← (M.accountIdFromHex context.assetFaucetId).mapError fun e =>
      .malformed ("x402_context.asset_faucet_id: " ++ e)
    match Rust.parseU64 context.amount with
    | none => .error (.malformed "x402_context.amount must be u64")
    | some amount =>
      if asset.faucetId ≠ faucet then
        outputFailed ("asset faucet " ++ M.showAccountId asset.faucetId ++ " != expected " ++
          M.showAccountId faucet)
      else if asset.amount ≠ amount then
        outputFailed ("asset amount " ++ Nat.repr asset.amount ++ " != expected " ++ Nat.repr amount)
      else return ()
  | assets =>
    outputFailed ("expected exactly 1 fungible asset, found " ++ Nat.repr assets.length)

def validateP2idOutput (summary : TransactionSummary) (payload : AgenticPayload) :
    Except FacilitatorError Unit := do
  match summary.outputNotes with
  | [.full note] =>
    if note.scriptRoot ≠ M.p2idScriptRoot then
      outputFailed ("not a P2ID note: script root " ++ M.debugWord note.scriptRoot ++
        " != P2ID script root " ++ M.debugWord M.p2idScriptRoot)
    else
      checkRecipient M note payload.x402Context.merchantAccountId
      checkAsset M note payload.x402Context
  | [.header] =>
    outputFailed "output note must be Full (RawOutputNote::Partial not accepted)"
  | notes => outputFailed ("expected exactly 1 output note, found " ++ Nat.repr notes.length)

def checkMandate (mandate : AgentMandate) (context : X402Context) : Except FacilitatorError Unit :=
  if mandate.merchantAllowlist ≠ [] ∧ context.merchantAccountId ∉ mandate.merchantAllowlist then
    .error (.mandateViolation ("merchant " ++ context.merchantAccountId ++ " not in allowlist"))
  else match Rust.parseU128 mandate.perTxAmountCap with
    | none => .error (.internal "mandate cap not a u128")
    | some cap => match Rust.parseU128 context.amount with
      | none => .error (.malformed "amount not a u128")
      | some amount =>
        if cap < amount then
          .error (.mandateViolation ("amount " ++ Nat.repr amount ++ " exceeds per-tx cap " ++
            Nat.repr cap))
        else if mandate.expiresAtUnixSecs ≠ 0 ∧
            mandate.expiresAtUnixSecs < context.deadlineUnixSecs then
          .error (.mandateViolation "x402 deadline beyond mandate expiry")
        else .ok ()

def checkBase (pending : PendingState) (payload : AgenticPayload) : Except FacilitatorError Unit :=
  if payload.builtOnStateCommitment ≠ pending.pendingStateCommitment then
    .error (.staleBaseState payload.builtOnStateCommitment pending.pendingStateCommitment)
  else .ok ()

def checkOutput (extracted : Option TransactionSummary) (payload : AgenticPayload) :
    Except FacilitatorError Unit :=
  match extracted with
  | some summary => validateP2idOutput M summary payload
  | none => .ok ()

/-- The nullifiers come from the summary in real mode and from the client otherwise. -/
def nullifiersOf (extracted : Option TransactionSummary) (payload : AgenticPayload) : List String :=
  match extracted with
  | some summary => extractNullifierHexes M summary
  | none => payload.claimedNullifiers

def requireNullifiers (nullifiers : List String) : Except FacilitatorError Unit :=
  if nullifiers = [] then .error (.malformed "no dedup keys derivable from payload") else .ok ()

/-- Steps 1 to 5: the checks that need only what was loaded. -/
def checkPayload (record : AgentRecord) (mandate : AgentMandate) (pending : PendingState)
    (payload : AgenticPayload) : Except FacilitatorError (List String) := do
  checkBase pending payload
  verifyHotKeySignature M record payload
  let extracted ← tryDecodeRealSummary M payload.txSummary
  checkOutput M extracted payload
  checkMandate mandate payload.x402Context
  let nullifiers := nullifiersOf M extracted payload
  requireNullifiers nullifiers
  return nullifiers

/-- Step 6. -/
def checkNullifiers (view : NullifierView) (nullifiers : List String) :
    Except FacilitatorError Unit :=
  if nullifiers.any view.contains then .error .doubleSpend else .ok ()

end Checks

section Steps

def walEntries (pending : PendingState) (nullifiers : List String) (now : ℕ) : List WalEntry :=
  nullifiers.map fun n => ⟨n,pending.lastAcceptedSeq + 1,now⟩

def newPending (pending : PendingState) (payload : AgenticPayload) : PendingState :=
  ⟨pending.committedStateCommitment,payload.newStateCommitment,pending.lastAcceptedSeq + 1⟩

def queuedTx (pending : PendingState) (payload : AgenticPayload) (nullifiers : List String)
    (now : ℕ) : QueuedTx :=
  ⟨pending.lastAcceptedSeq + 1,now,nullifiers,.accepted,payload,none,none,none,none⟩

/-- The bytes of `(accepted_at || new_state || nullifiers...)`. -/
def ackBytes (now : ℕ) (newState : String) (nullifiers : List String) : List UInt8 :=
  (List.range 8).reverse.map (fun i => UInt8.ofNat (now / 256 ^ i)) ++
    newState.toUTF8.toList ++ nullifiers.flatMap fun n => n.toUTF8.toList

end Steps

section Handlers
variable (M : Miden) (store : FilesystemX402Store)

def agentRecord (req : RegisterAgentRequest) (now : ℕ) : AgentRecord :=
  ⟨req.agentId,req.accountId,req.hotKeyCommitment,req.hotKeyScheme,req.hotKeyPubkeyHex,now⟩

def registerAgent (req : RegisterAgentRequest) (now : ℕ) : StoreOp Unit :=
  if Rust.isBlank req.agentId then Prog.fail (.malformed "agent_id required")
  else store.registerAgent (agentRecord req now) req.mandate req.initialStateCommitment

/-- The loads and steps 1 to 6. -/
def accept (agentId : String) (payload : AgenticPayload) (fs : Files) :
    Except FacilitatorError (PendingState × List String) := do
  let record ← store.loadAgent agentId fs
  let mandate ← store.loadMandate agentId fs
  let pending ← store.loadPendingState agentId fs
  let nullifiers ← checkPayload M record mandate pending payload
  let view ← store.nullifierView agentId fs
  checkNullifiers view nullifiers
  return (pending,nullifiers)

def postPayment (agentId : String) (payload : AgenticPayload) (now : ℕ) : StoreOp AckResponse := do
  let (pending,nullifiers) ← Prog.read (accept M store agentId payload)
  store.reserveNullifiers agentId (walEntries pending nullifiers now)
  store.advancePendingState agentId (newPending pending payload)
  store.enqueue agentId (queuedTx pending payload nullifiers now)
  let signature ← Prog.read fun _ =>
    (M.signWordHex (M.hash (ackBytes now payload.newStateCommitment nullifiers))).mapError
      fun e => .internal ("sign: " ++ e)
  return ⟨now,payload.newStateCommitment,nullifiers,pending.lastAcceptedSeq + 1,signature⟩

end Handlers

section Marks

theorem strip_of_notMem {cs : List Char} (h : 'x' ∉ cs) : decodeHex.strip cs = cs := by
  unfold decodeHex.strip
  split
  · simp at h
  · rfl

/-- The mark is taken off what has no `x` of its own. -/
theorem trimHexMark_marked {cs : List Char} (h : 'x' ∉ cs) :
    decodeHex.trimHexMark (String.ofList ('0' :: 'x' :: cs)) = String.ofList cs := by
  rw [decodeHex.trimHexMark,String.toList_ofList,decodeHex.strip,strip_of_notMem h]

theorem trimHexMark_append {s : String} (h : 'x' ∉ s.toList) : decodeHex.trimHexMark ("0x" ++ s) = s := by
  have hmarked : "0x" ++ s = String.ofList ('0' :: 'x' :: s.toList) := by
    apply String.toList_inj.mp
    simp
  rw [hmarked,trimHexMark_marked h,String.ofList_toList]

end Marks

section Inversions

/-- What the mandate allows. -/
theorem checkMandate_eq_ok {mandate : AgentMandate} {context : X402Context}
    (h : checkMandate mandate context = .ok ()) :
    (mandate.merchantAllowlist = [] ∨ context.merchantAccountId ∈ mandate.merchantAllowlist) ∧
    (mandate.expiresAtUnixSecs ≠ 0 → context.deadlineUnixSecs ≤ mandate.expiresAtUnixSecs) ∧
    ∃ cap amount, Rust.parseU128 mandate.perTxAmountCap = some cap ∧
      Rust.parseU128 context.amount = some amount ∧ amount ≤ cap := by
  rw [checkMandate] at h
  split at h
  · cases h
  · rename_i hlist
    rw [not_and_or,not_not,not_not] at hlist
    split at h
    · cases h
    · rename_i cap hcap
      split at h
      · cases h
      · rename_i amount hamount
        split at h
        · cases h
        · rename_i hle
          split at h
          · cases h
          · rename_i hwindow
            refine ⟨hlist,?_,cap,amount,hcap,hamount,not_lt.mp hle⟩
            exact fun hexpires => not_lt.mp fun hlt => hwindow ⟨hexpires,hlt⟩

/-- A payload that passes the checks has passed each of them. -/
theorem checkPayload_steps {M : Miden} {record : AgentRecord} {mandate : AgentMandate}
    {pending : PendingState} {payload : AgenticPayload} {nullifiers : List String}
    (h : checkPayload M record mandate pending payload = .ok nullifiers) :
    ∃ extracted, checkBase pending payload = .ok () ∧
      verifyHotKeySignature M record payload = .ok () ∧
      tryDecodeRealSummary M payload.txSummary = .ok extracted ∧
      checkOutput M extracted payload = .ok () ∧ checkMandate mandate payload.x402Context = .ok () ∧
      requireNullifiers nullifiers = .ok () ∧ nullifiers = nullifiersOf M extracted payload := by
  obtain ⟨_,hbase,h⟩ := except_bind_eq_ok h
  obtain ⟨_,hsig,h⟩ := except_bind_eq_ok h
  obtain ⟨extracted,hex,h⟩ := except_bind_eq_ok h
  obtain ⟨_,houtput,h⟩ := except_bind_eq_ok h
  obtain ⟨_,hmandate,h⟩ := except_bind_eq_ok h
  obtain ⟨_,hreq,h⟩ := except_bind_eq_ok h
  obtain rfl := Except.ok.inj h
  exact ⟨extracted,hbase,hsig,hex,houtput,hmandate,hreq,rfl⟩

/-- What is known of a payload that passes the checks. -/
theorem checkPayload_eq_ok {M : Miden} {record : AgentRecord} {mandate : AgentMandate}
    {pending : PendingState} {payload : AgenticPayload} {nullifiers : List String}
    (h : checkPayload M record mandate pending payload = .ok nullifiers) :
    payload.builtOnStateCommitment = pending.pendingStateCommitment ∧ nullifiers ≠ [] ∧
      ∃ extracted, tryDecodeRealSummary M payload.txSummary = .ok extracted ∧
        nullifiers = nullifiersOf M extracted payload := by
  obtain ⟨extracted,hbase,-,hex,-,-,hreq,hns⟩ := checkPayload_steps h
  refine ⟨?_,?_,extracted,hex,hns⟩
  · rw [checkBase] at hbase
    split at hbase
    · cases hbase
    · rename_i heq
      exact not_not.mp heq
  · rw [requireNullifiers] at hreq
    split at hreq
    · cases hreq
    · assumption

end Inversions

end MidenX402.Facilitator
