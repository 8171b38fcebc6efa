import MidenX402.Adn.Client
import MidenX402.AgentDebitNote.Wire
import MidenX402.Facilitator.Api

/-!
# Payments with a debit note

`POST /adn/pay` reads serial number, merchant, signature and key commitment out of strings that the
agent's client has written with a codec of its own, and acknowledges a debit whose signature verifies
under the key that the request names.
-/

namespace MidenX402.Facilitator
open Masm AgentDebitNote AdnServices Adn Json

structure AdnPayRequest where
  noteId : String
  serialNumHex : HexWord
  merchantAccountId : String
  amount : UInt64
  signatureHex : String
  preparedSignatureHex : String
  expiryBlockHeight : UInt32
  agentPubkeyCommitmentHex : String
deriving DecidableEq

def adnPayRequestNames : List (List Char) :=
  unrenamed ["note_id","serial_num_hex","merchant_account_id","amount","signature_hex",
    "prepared_signature_hex","expiry_block_height","agent_pubkey_commitment_hex"]

theorem adnPayRequestNames_nodup : adnPayRequestNames.Nodup := by
  decide +kernel

instance : Faithful AdnPayRequest :=
  .ofFields adnPayRequestNames
    (fun r => (r.noteId,r.serialNumHex,r.merchantAccountId,r.amount,r.signatureHex,
      r.preparedSignatureHex,r.expiryBlockHeight,r.agentPubkeyCommitmentHex,()))
    (fun (noteId,serial,merchant,amount,signature,prepared,expiry,commitment,()) =>
      ⟨noteId,serial,merchant,amount,signature,prepared,expiry,commitment⟩)
    adnPayRequestNames_nodup rfl fun _ => rfl

structure AdnPayResponse where
  acceptedAtUnixMicros : UInt64
  facilitatorAckSignature : String
  facilitatorPubkeyCommitment : String
deriving DecidableEq

/-- The facilitator's own key and the hash its acknowledgements are signed over. -/
structure FacilitatorKey where
  commitment : Word
  hash : List UInt8 → Word
  signWordHex : Word → Except String String

section Parsing
variable {F E : Falcon} (C : AdnCodec F E)

def parseSerialFelt (i : ℕ) (h : String) : Except FacilitatorError Felt :=
  let s := (decodeHex.trimHexMark h).toList
  match Rust.fromStrRadix 16 (2 ^ 64) s with
  | some n => .ok (Felt.new (UInt64.ofNat n))
  | none =>
    .error (.malformed ("serial_num[" ++ Nat.repr i ++ "]: " ++ Rust.parseIntError 16 (2 ^ 64) s))

def parseSerialHex (h : HexWord) : Except FacilitatorError Word := do
  let e0 ← parseSerialFelt 0 h.e0
  let e1 ← parseSerialFelt 1 h.e1
  let e2 ← parseSerialFelt 2 h.e2
  let e3 ← parseSerialFelt 3 h.e3
  return ⟨e0,e1,e2,e3⟩

def decodeHexField (s : String) : Except FacilitatorError (List UInt8) :=
  (C.hexDecode (decodeHex.trimHexMark s)).mapError fun e => .malformed ("hex: " ++ e)

def wordToHex (w : Word) : String := "0x" ++ C.hexEncode (C.wordBytes w)

end Parsing

section Pay
variable (P : Protocol) {F E : Falcon} (C : AdnCodec F E) (key : FacilitatorKey)

/-- `u64::to_be_bytes`. -/
def beBytes (x : UInt64) : List UInt8 :=
  (List.range 8).reverse.map fun i => UInt8.ofNat (x.toNat / 256 ^ i)

def adnAckMessage (acceptedAt : UInt64) (noteId merchantId : String) (amount : UInt64) : Word :=
  key.hash (beBytes acceptedAt ++ Rust.asBytes noteId.toList ++ Rust.asBytes merchantId.toList ++
    beBytes amount)

/-- The signature of a request, verified under the key that comes with it. -/
def verifyDebit (req : AdnPayRequest) : Except FacilitatorError F.PublicKey := do
  let serialNum ← parseSerialHex req.serialNumHex
  let merchantId ← (C.accountIdFromHex req.merchantAccountId).mapError fun e =>
    .malformed ("merchant_account_id: " ++ e)
  let sigBytes ← decodeHexField C req.signatureHex
  let falconSig ← (C.readSignature sigBytes).mapError fun e =>
    .invalidSignature ("Falcon decode: " ++ e)
  let inlinePk := C.inlineKey falconSig
  if F.verify inlinePk (debitMessage P serialNum merchantId req.amount) falconSig then return inlinePk
  else invalid "Falcon signature failed to verify against debit message"

/-- The commitment of the key must be the one the agent claims. -/
def checkCommitment (inlinePk : F.PublicKey) (claimedHex : String) : Except FacilitatorError Unit :=
  let expected := decodeHex.trimHexMark (wordToHex C (F.toCommitment inlinePk))
  let claimed := decodeHex.trimHexMark claimedHex
  if expected ≠ claimed then
    invalid ("pubkey commitment mismatch: sig has " ++ expected ++ ", claimed " ++ claimed)
  else .ok ()

def adnPay (now : UInt64) (req : AdnPayRequest) : Except FacilitatorError AdnPayResponse := do
  let inlinePk ← verifyDebit P C req
  checkCommitment C inlinePk req.agentPubkeyCommitmentHex
  let signature ← (key.signWordHex
    (adnAckMessage key now req.noteId req.merchantAccountId req.amount)).mapError
      fun e => .internal ("sign: " ++ e)
  return ⟨now,signature,wordToHex C key.commitment⟩

/-- The endpoint on what `fromSlice` reads: a body that is no request is turned away before the handler. -/
def postAdnPay (now : UInt64) (body : List UInt8) : Option (Except FacilitatorError AdnPayResponse) :=
  (fromSlice body).map (adnPay P C key now)

end Pay

section Codecs

theorem parseSerialFelt_hexFelt (i : ℕ) (a : Felt) : parseSerialFelt i (hexFelt a) = .ok a := by
  simp only [parseSerialFelt,hexFelt,trimHexMark_marked (x_notMem_paddedHex _),String.toList_ofList,
    fromStrRadix_paddedHex,UInt64.ofNat_toNat,Felt.new_asCanonicalU64]

theorem parseSerialHex_wordToHexArray (w : Word) : parseSerialHex (wordToHexArray w) = .ok w := by
  simp only [parseSerialHex,wordToHexArray,parseSerialFelt_hexFelt]
  rfl

end Codecs

section Acceptance
variable {P : Protocol} {F E : Falcon} {C : AdnCodec F E} {key : FacilitatorKey}

/-- The request that a debit is read as. -/
def requestOf (d : SignedDebit) : AdnPayRequest :=
  ⟨d.noteId,d.serialNumHex,d.merchantAccountId,d.amount,d.signatureHex,d.preparedSignatureHex,
    d.expiryBlockHeight,d.agentPubkeyCommitmentHex⟩

def bodyOf (d : SignedDebit) : List UInt8 := Rust.asBytes (Serialize.serialize d)

/-- The two structs have their fields in the same places. -/
theorem fromSlice_bodyOf (d : SignedDebit) : fromSlice (bodyOf d) = some (requestOf d) := by
  have hsame : Serialize.serialize d = Serialize.serialize (requestOf d) := rfl
  rw [bodyOf,hsame]
  exact fromSlice_serialize (by decide) (requestOf d)

theorem decodeHexField_marked (hC : C.Inverses) (bytes : List UInt8) :
    decodeHexField C ("0x" ++ C.hexEncode bytes) = .ok bytes := by
  rw [decodeHexField,trimHexMark_append (hC.hexDigits bytes),hC.roundTrips.hex]
  rfl

theorem trimHexMark_wordToHex (hC : C.Inverses) (w : Word) :
    decodeHex.trimHexMark (wordToHex C w) = C.hexEncode (C.wordBytes w) :=
  trimHexMark_append (hC.hexDigits _)

/-- A debit as the client makes it verifies under the client's key. -/
theorem verifyDebit_debit (hC : C.Inverses) (hs : F.SignsCorrectly) (c : AdnClient F E)
    (sk : F.SecretKey) (merchant : AccountId) (amount : UInt64) :
    verifyDebit P C (requestOf (c.debit C (debitMessage P c.noteSerial merchant amount)
      (F.sign sk (debitMessage P c.noteSerial merchant amount)) merchant amount)) =
        .ok (F.publicKey sk) := by
  simp only [verifyDebit,requestOf,AdnClient.debit,parseSerialHex_wordToHexArray,hC.accountId,
    decodeHexField_marked hC,hC.roundTrips.signature,hC.inlineKey,Rust.mapError_ok,bind,Except.bind]
  rw [if_pos (hs sk _)]
  rfl

theorem verifyDebit_eq_ok {req : AdnPayRequest} {pk : F.PublicKey}
    (h : verifyDebit P C req = .ok pk) : ∃ serial merchant bytes sig,
      parseSerialHex req.serialNumHex = .ok serial ∧
      C.accountIdFromHex req.merchantAccountId = .ok merchant ∧
      decodeHexField C req.signatureHex = .ok bytes ∧ C.readSignature bytes = .ok sig ∧
      F.verify pk (debitMessage P serial merchant req.amount) sig = true := by
  obtain ⟨serial,hserial,h⟩ := Rust.except_bind_eq_ok h
  obtain ⟨merchant,hmerchant,h⟩ := Rust.except_bind_eq_ok h
  obtain ⟨bytes,hbytes,h⟩ := Rust.except_bind_eq_ok h
  obtain ⟨sig,hsig,h⟩ := Rust.except_bind_eq_ok h
  refine ⟨serial,merchant,bytes,sig,hserial,Rust.mapError_eq_ok.mp hmerchant,hbytes,
    Rust.mapError_eq_ok.mp hsig,?_⟩
  dsimp only at h
  split at h
  · rename_i hverify
    exact Except.ok.inj h ▸ hverify
  · cases h

theorem checkCommitment_eq_ok (hC : C.Inverses) {pk : F.PublicKey} {claimedHex : String} :
    checkCommitment C pk claimedHex = .ok () ↔
      decodeHex.trimHexMark claimedHex = C.hexEncode (C.wordBytes (F.toCommitment pk)) := by
  rw [checkCommitment,trimHexMark_wordToHex hC]
  split
  · rename_i hne
    constructor
    · intro h
      cases h
    · intro h
      exact absurd h.symm hne
  · rename_i heq
    exact ⟨fun _ => (not_not.mp heq).symm,fun _ => rfl⟩

/-- What the client signs is read as it was meant and acknowledged.  Whatever request the handler
acknowledges, however its body was read, carries a signature over what it says, under the key that it
names. -/
theorem signed_debits_accepted (hC : C.Inverses) (hs : F.SignsCorrectly)
    (hkey : ∀ message, ∃ signature, key.signWordHex message = .ok signature) :
    (∀ (sk : F.SecretKey) noteId serial (merchant : AccountId) (balance amount : UInt64) expiryBlock now,
      amount ≤ balance → ∃ (debit : SignedDebit) (req : AdnPayRequest) (resp : AdnPayResponse),
        (AdnClient.new (.falcon512Poseidon2 sk : AuthSecretKey F E) noteId serial balance
          expiryBlock).signDebit P C merchant amount = some (.ok debit) ∧
        fromSlice (bodyOf debit) = some req ∧ parseSerialHex req.serialNumHex = .ok serial ∧
        C.accountIdFromHex req.merchantAccountId = .ok merchant ∧ req.amount = amount ∧
        postAdnPay P C key now (bodyOf debit) = some (.ok resp)) ∧
    (∀ now (req : AdnPayRequest) resp, adnPay P C key now req = .ok resp →
      ∃ (serial : Word) (merchant : AccountId) (bytes : List UInt8) (sig : F.Signature)
        (pk : F.PublicKey), parseSerialHex req.serialNumHex = .ok serial ∧
        C.accountIdFromHex req.merchantAccountId = .ok merchant ∧
        decodeHexField C req.signatureHex = .ok bytes ∧ C.readSignature bytes = .ok sig ∧
        F.verify pk (debitMessage P serial merchant req.amount) sig = true ∧
        decodeHex.trimHexMark req.agentPubkeyCommitmentHex =
          C.hexEncode (C.wordBytes (F.toCommitment pk))) := by
  constructor
  · intro sk noteId serial merchant balance amount expiryBlock now hamount
    let c : AdnClient F E := .new (.falcon512Poseidon2 sk) noteId serial balance expiryBlock
    let debit := c.debit C (debitMessage P serial merchant amount)
      (F.sign sk (debitMessage P serial merchant amount)) merchant amount
    obtain ⟨signature,hsignature⟩ := hkey
      (adnAckMessage key now noteId (C.accountIdToHex merchant) amount)
    have hbody : fromSlice (bodyOf debit) = some (requestOf debit) := fromSlice_bodyOf debit
    have hverify : verifyDebit P C (requestOf debit) = .ok (F.publicKey sk) :=
      verifyDebit_debit hC hs c sk merchant amount
    have hcommitment : checkCommitment C (F.publicKey sk) (requestOf debit).agentPubkeyCommitmentHex =
        .ok () := (checkCommitment_eq_ok hC).mpr (trimHexMark_append (hC.hexDigits _))
    have hack : key.signWordHex (adnAckMessage key now (requestOf debit).noteId
        (requestOf debit).merchantAccountId (requestOf debit).amount) = .ok signature := hsignature
    refine ⟨debit,requestOf debit,⟨now,signature,wordToHex C key.commitment⟩,
      AdnClient.signDebit_eq P C rfl merchant hamount,hbody,parseSerialHex_wordToHexArray serial,
      hC.accountId merchant,rfl,?_⟩
    rw [postAdnPay,hbody,Option.map_some,adnPay,hverify]
    simp only [hcommitment,hack,Rust.mapError_ok,bind,Except.bind]
    rfl
  · intro now req resp h
    obtain ⟨pk,hverify,h⟩ := Rust.except_bind_eq_ok h
    obtain ⟨_,hcommitment,-⟩ := Rust.except_bind_eq_ok h
    obtain ⟨serial,merchant,bytes,sig,hserial,hmerchant,hbytes,hsig,hsound⟩ :=
      verifyDebit_eq_ok hverify
    exact ⟨serial,merchant,bytes,sig,pk,hserial,hmerchant,hbytes,hsig,hsound,
      (checkCommitment_eq_ok hC).mp hcommitment⟩

end Acceptance

section Sample

def sampleFacilitatorKey : FacilitatorKey :=
  ⟨.ofNats 1 1 2 2,fun bytes => .ofNats bytes.length 0 0 0,fun _ => .ok "0xack"⟩

/-- A debit of 100 out of 1000. -/
theorem signed_debits_accepted_sample :
    ∃ (debit : SignedDebit) (req : AdnPayRequest) (resp : AdnPayResponse),
    (AdnClient.new sampleAgentSk "0xdeadbeef01234567" (.ofNats 100 200 300 400) 1000
      1000).signDebit sampleProtocol sampleAdnCodec sampleMerchant 100 = some (.ok debit) ∧
    fromSlice (bodyOf debit) = some req ∧
    parseSerialHex req.serialNumHex = .ok (.ofNats 100 200 300 400) ∧
    sampleAdnCodec.accountIdFromHex req.merchantAccountId = .ok sampleMerchant ∧ req.amount = 100 ∧
    postAdnPay sampleProtocol sampleAdnCodec sampleFacilitatorKey 7 (bodyOf debit) = some (.ok resp) :=
  (@signed_debits_accepted sampleProtocol referenceFalcon referenceFalcon sampleAdnCodec
    sampleFacilitatorKey sampleAdnCodec_inverses referenceFalcon_signsCorrectly
    fun _ => ⟨_,rfl⟩).1 (.ofNats 7 8 9 10 : Word) "0xdeadbeef01234567" (.ofNats 100 200 300 400)
      sampleMerchant 1000 100 1000 7 (by decide)

end Sample

end MidenX402.Facilitator
