import MidenX402.Adn.Types

/-!
# The agent's client

The client signs debits of the note it knows and is told of the remainder after each settlement.  It
takes over the remainder's id and balance and keeps the serial number it was made with, which is
that of the first note.
-/

namespace MidenX402.Adn
open Masm AgentDebitNote AdnServices

structure AdnClient (F E : Falcon) where
  agentSk : AuthSecretKey F E
  noteId : String
  noteSerial : Word
  balance : UInt64
  expiryBlock : UInt32
  agentPubkeyCommitment : Word

inductive AdnPayError where
  | insufficientBalance (requested available : UInt64)
deriving DecidableEq

section Client
variable {F E : Falcon}

def commitmentOf : AuthSecretKey F E → Word
  | .falcon512Poseidon2 sk => F.toCommitment (F.publicKey sk)
  | .ecdsaK256Keccak sk => E.toCommitment (E.publicKey sk)

def AdnClient.new (agentSk : AuthSecretKey F E) (noteId : String) (noteSerial : Word)
    (balance : UInt64) (expiryBlock : UInt32) : AdnClient F E where
  agentSk := agentSk
  noteId := noteId
  noteSerial := noteSerial
  balance := balance
  expiryBlock := expiryBlock
  agentPubkeyCommitment := commitmentOf agentSk

/-- The debit over a signature that was made for it. -/
def AdnClient.debit (C : AdnCodec F E) (c : AdnClient F E) (message : Word) (signature : F.Signature)
    (merchant : AccountId) (amount : UInt64) : SignedDebit where
  noteId := c.noteId
  serialNumHex := wordToHexArray c.noteSerial
  merchantAccountId := C.accountIdToHex merchant
  amount := amount
  signatureHex := "0x" ++ C.hexEncode (C.signatureBytes signature)
  preparedSignatureHex :=
    "0x" ++ C.hexEncode (keyBytes (F.toPreparedSignature signature message))
  expiryBlockHeight := c.expiryBlock
  agentPubkeyCommitmentHex := "0x" ++ C.hexEncode (C.wordBytes c.agentPubkeyCommitment)

/-- `sign_debit`; it panics with a key of the other scheme. -/
def AdnClient.signDebit (P : Protocol) (C : AdnCodec F E) (c : AdnClient F E) (merchant : AccountId)
    (amount : UInt64) : Option (Except AdnPayError SignedDebit) :=
  if c.balance < amount then some (.error (.insufficientBalance amount c.balance))
  else
    let message := debitMessage P c.noteSerial merchant amount
    match c.agentSk with
    | .falcon512Poseidon2 sk => some (.ok (c.debit C message (F.sign sk message) merchant amount))
    | .ecdsaK256Keccak _ => none

def AdnClient.updateRemainder (c : AdnClient F E) (remainder : RemainderInfo) : AdnClient F E :=
  { c with noteId := remainder.noteId, balance := remainder.balance }

theorem AdnClient.signDebit_eq (P : Protocol) (C : AdnCodec F E) {c : AdnClient F E}
    {sk : F.SecretKey} (hsk : c.agentSk = .falcon512Poseidon2 sk) (merchant : AccountId)
    {amount : UInt64} (h : amount ≤ c.balance) :
    c.signDebit P C merchant amount =
      some (.ok (c.debit C (debitMessage P c.noteSerial merchant amount)
        (F.sign sk (debitMessage P c.noteSerial merchant amount)) merchant amount)) := by
  rw [signDebit,if_neg (UInt64.not_lt.mpr h),hsk]

/-- However often the client is told of a remainder, key and serial number are those it began
with. -/
theorem AdnClient.foldl_updateRemainder (c : AdnClient F E) (infos : List RemainderInfo) :
    infos.foldl AdnClient.updateRemainder c =
      { c with
        noteId := (infos.getLast?.map RemainderInfo.noteId).getD c.noteId
        balance := (infos.getLast?.map RemainderInfo.balance).getD c.balance } := by
  induction infos generalizing c with
  | nil => rfl
  | cons info rest ih =>
    rw [List.foldl_cons,ih]
    cases rest with
    | nil => rfl
    | cons next rest => simp [updateRemainder,List.getLast?_cons]

end Client

section Sample

instance : Encodable AccountId :=
  Encodable.ofLeftInverse (fun a => (a.prefixFelt,a.suffixFelt)) (fun q => ⟨q.1,q.2⟩) fun _ => rfl

/-- The reference codec with account ids written as the other values are. -/
def sampleAdnCodec : AdnCodec referenceFalcon referenceFalcon :=
  { sampleCodec with
    accountIdFromHex := fun s => (Hex.decode s.toList).bind decodeBytes
    accountIdToHex := fun a => String.ofList (Hex.encode (encodeBytes a))
    wordBytes := fun w => keyBytes w.toList
    inlineKey := fun (sig : Word × Word) => sig.1 }

theorem sampleAdnCodec_inverses : sampleAdnCodec.Inverses where
  roundTrips := ⟨sampleCodec_roundTrips.hex,sampleCodec_roundTrips.noteFile,
    sampleCodec_roundTrips.secretKey,sampleCodec_roundTrips.signature⟩
  accountId account := by
    change (Hex.decode (String.ofList (Hex.encode (encodeBytes account))).toList).bind decodeBytes = _
    rw [String.toList_ofList,Hex.decode_encode]
    exact decodeBytes_encodeBytes account
  inlineKey sk msg := rfl
  hexDigits bytes := by
    change 'x' ∉ (String.ofList (Hex.encode bytes)).toList
    rw [String.toList_ofList]
    exact fun h => absurd (Hex.mem_digits_of_mem_encode h) (by decide)

def sampleAgentSk : AuthSecretKey referenceFalcon referenceFalcon :=
  .falcon512Poseidon2 (.ofNats 7 8 9 10 : Word)

end Sample

end MidenX402.Adn
