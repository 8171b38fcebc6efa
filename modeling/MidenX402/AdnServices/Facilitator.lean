import MidenX402.AdnServices.Types

/-!
# The facilitator's worker

The worker takes one settlement request at a time.  After it has submitted the transaction it polls
the notes its client has ever created, and takes the first one with two storage items for the P2ID
note and the first one with nine for the remainder.
-/

namespace MidenX402.AdnServices
open Masm AgentDebitNote Rust

/-- A note of the client's store as one listing shows it. -/
structure OutputNoteRecord (Proof : Type) where
  note : OutputNote
  inclusionProof : Option Proof

/-- The record exported with its proof; a note whose details are unknown cannot be exported. -/
def OutputNoteRecord.intoNoteFile {Proof : Type} (r : OutputNoteRecord Proof) :
    Option (NoteFile Proof) :=
  r.inclusionProof.bind fun p => r.note.toNote.map fun n => .noteWithProof n p

/-- What the client library answers while one request is processed.  A call that fails where the
code unwraps its result is `none`. -/
structure Client (Proof : Type) where
  syncState : Option Unit
  /-- whether the note is authenticated, attempt by attempt -/
  authenticated : ℕ → Option Bool
  advMap : Word → Option (List Felt)
  blockNumber : UInt32
  hasBasicWallet : Bool
  vault : Word → Word
  executionError : String
  /-- the transaction id, or why the executed transaction could not be submitted -/
  submitted : Except String String
  outputNotes : ℕ → Option (List (OutputNoteRecord Proof))

/-- Why processing ends before the response: a failure is answered, a panic ends the worker. -/
inductive Stop where
  | panic
  | fail (error : String)

def Stop.unwrap {β : Type} : Option β → Except Stop β
  | some b => .ok b
  | none => .error .panic

/-- The request's transaction starts with an empty advice stack and no output notes. -/
def Client.txInputs {Proof : Type} (cl : Client Proof) : TxInputs where
  noteArgs := Word.zero
  advStack := []
  advMap := cl.advMap
  blockNumber := cl.blockNumber
  hasBasicWallet := cl.hasBasicWallet
  vault := cl.vault
  outputNotes := []

/-- The attempts to see the note authenticated, one after the other. -/
def awaitAuthentication : List (Option Bool) → Except Stop Unit
  | [] => .error (.fail "not authenticated timeout")
  | none :: _ => .error .panic
  | some true :: _ => .ok ()
  | some false :: rest => awaitAuthentication rest

/-- What the scan of the output notes has found. -/
structure Found where
  p2idHex : Option String
  remainderHex : Option String
  newSerial : Option SerialStrings

def Found.nothing : Found := ⟨none,none,none⟩

section Scan
variable {F E : Falcon} (C : Codec F E)

def Found.see (f : Found) (r : OutputNoteRecord C.Proof) : Found :=
  match r.intoNoteFile with
  | none => f
  | some nf =>
    match C.readNoteFile (C.noteFileBytes nf) with
    | .ok (.noteWithProof n _) =>
      let items := n.recipient.storage.length
      if items = 2 ∧ f.p2idHex = none then
        { f with p2idHex := some (C.hexEncode (C.noteFileBytes nf)) }
      else if items = 9 ∧ f.remainderHex = none then
        { f with
          remainderHex := some (C.hexEncode (C.noteFileBytes nf))
          newSerial := some (formatSerialNum n.recipient.serialNum) }
      else f
    | _ => f

/-- The polls of the output notes; `spent` says that the request takes the note's whole balance. -/
def awaitOutputNotes (spent : Bool) (f : Found) :
    List (Option (List (OutputNoteRecord C.Proof))) → Except Stop Found
  | [] => .ok f
  | none :: _ => .error .panic
  | some listing :: rest =>
    let f := listing.foldl (Found.see C) f
    if f.p2idHex.isSome ∧ f.remainderHex.isSome then .ok f
    else if f.p2idHex.isSome ∧ spent then .ok f
    else awaitOutputNotes spent f rest

end Scan

section Settle
variable (P : Protocol) {F E : Falcon} (C : Codec F E) (exec : Note → TxInputs → Option Host)

/-- The transaction for the request, with the key of either scheme. -/
def consumeRequest (merchantId : AccountId) (serialNum : SerialStrings) (amount : UInt64) :
    AuthSecretKey F E → Option ConsumeRequest
  | .falcon512Poseidon2 sk => processDecodedSettle P F ⟨merchantId,serialNum,sk,amount⟩
  | .ecdsaK256Keccak sk => processDecodedSettle P E ⟨merchantId,serialNum,sk,amount⟩

/-- Executes the transaction and submits it: its id and the notes it created. -/
def submitNewTransaction (cl : Client C.Proof) (n : Note) (r : ConsumeRequest) :
    Except String (String × List OutputNote) :=
  match exec n (cl.txInputs.withRequest r) with
  | none => .error cl.executionError
  | some h => cl.submitted.map fun txId => (txId,created cl.txInputs h)

def SettleResponse.failed (error : String) : SettleResponse :=
  ⟨false,"",0,0,none,none,none,some error⟩

def saturatingSub (a b : UInt64) : UInt64 := if b ≤ a then a - b else 0

/-- The note of the request and what it is consumed with. -/
def prepareSettle (cl : Client C.Proof) (req : SettleRequest) : Except Stop (Note × ConsumeRequest) := do
  let n ← (decodeNoteFile C req.noteFileHex).mapError Stop.fail
  Stop.unwrap cl.syncState
  awaitAuthentication ((List.range 60).map cl.authenticated)
  let merchantId ← (C.accountIdFromHex req.merchantIdHex).mapError
    fun e => Stop.fail ("merchant_id: " ++ e)
  -- the serial number is parsed before the key is read, and panics on a malformed element
  let _ ← Stop.unwrap (parseSerialNum req.serialNum)
  let agentSk ← (decodeSecretKey C req.agentSkHex).mapError Stop.fail
  let r ← Stop.unwrap (consumeRequest P merchantId req.serialNum req.cumulativeAmount agentSk)
  return (n,r)

/-- One request: the response and the notes that its transaction adds to the client's store. -/
def processSettle (cl : Client C.Proof) (req : SettleRequest) :
    Except Stop (SettleResponse × List OutputNote) := do
  let (n,r) ← prepareSettle P C cl req
  let (txId,outputs) ← (submitNewTransaction C exec cl n r).mapError Stop.fail
  let balance := noteBalance P n
  let found ← awaitOutputNotes C (balance = req.cumulativeAmount) .nothing
    ((List.range 60).map cl.outputNotes)
  return (⟨true,txId,req.cumulativeAmount,saturatingSub balance req.cumulativeAmount,found.p2idHex,
    found.remainderHex,found.newSerial,none⟩,outputs)

/-- The worker: the notes in its client's store, and whether its thread still runs. -/
structure Worker where
  outputNotes : List OutputNote
  running : Bool

/-- One request handed to the worker, with the answer of `handle_settle`. -/
def Worker.serve (w : Worker) (cl : Client C.Proof) (req : SettleRequest) : Worker × SettleResponse :=
  if w.running then
    match processSettle P C exec cl req with
    | .ok (resp,outputs) => ({ w with outputNotes := w.outputNotes ++ outputs },resp)
    | .error (.fail e) => (w,.failed e)
    | .error .panic => ({ w with running := false },.failed "facilitator dropped")
  else (w,.failed "facilitator down")

/-- Requests served in sequence. -/
def Worker.run (w : Worker) (steps : List (Client C.Proof × SettleRequest)) : Worker :=
  steps.foldl (fun w q => (w.serve P C exec q.1 q.2).1) w

end Settle

end MidenX402.AdnServices
