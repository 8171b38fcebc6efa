import MidenX402.Encoding.Base64
import MidenX402.Json.Serde
import MidenX402.Rust.Lines

/-!
# Header payloads

Payment requirements, session setup, vouchers and payment responses travel as JSON in base64.  Every
payload type is read back from its own header.
-/

namespace MidenX402.AgentDebitNote
open Json Json.Serialize Json.Deserialize

/-- The names of a struct's fields as they are written. -/
def renamed (fields : List String) : List (List Char) := fields.map fun f => camelCase f.toList

structure MidenExtra where
  minReclaimBlockBuffer : UInt64
deriving DecidableEq

structure PaymentRequirements where
  scheme : String
  network : String
  /-- decimal -/
  amount : String
  asset : String
  payTo : String
  maxTimeoutSeconds : UInt32
  extra : Option MidenExtra
deriving DecidableEq

structure PaymentRequired where
  x402Version : UInt32
  accepts : List PaymentRequirements
deriving DecidableEq

structure AssetEntry where
  faucetId : String
  amount : String
deriving DecidableEq

structure NoteDetails where
  serialNum : String
  script : String
  inputs : List String
  assets : List AssetEntry
deriving DecidableEq

structure PaymentSignatureSetup where
  x402Version : UInt32
  scheme : String
  network : String
  payerAccountId : String
  reclaimBlockHeight : UInt64
  noteCommitment : String
  noteDetails : NoteDetails
deriving DecidableEq

structure CumulativeVoucherPayload where
  scheme : String
  network : String
  noteCommitment : String
  /-- decimal -/
  cumulativeAmount : String
  blockHeightExpiry : UInt64
  merchantAccountId : String
  signature : String
deriving DecidableEq

structure PaymentResponse where
  success : Bool
  txHash : Option String
  settledAmount : Option String
  remainderNoteCommitment : Option String
  remainderBalance : Option String
deriving DecidableEq

section Structs

instance : Faithful MidenExtra :=
  .ofFields (renamed ["min_reclaim_block_buffer"]) (fun e => (e.minReclaimBlockBuffer,()))
    (fun (buffer,()) => ⟨buffer⟩) (by decide +kernel) rfl fun _ => rfl

instance : NotNull MidenExtra := ⟨rfl⟩

example : serialize (MidenExtra.mk 100) = "\x7b\"minReclaimBlockBuffer\":100\x7d".toList := by
  decide +kernel

instance : Faithful PaymentRequirements :=
  .ofFields (renamed ["scheme","network","amount","asset","pay_to","max_timeout_seconds","extra"])
    (fun p => (p.scheme,p.network,p.amount,p.asset,p.payTo,p.maxTimeoutSeconds,p.extra,()))
    (fun (scheme,network,amount,asset,payTo,timeout,extra,()) =>
      ⟨scheme,network,amount,asset,payTo,timeout,extra⟩) (by decide +kernel) rfl fun _ => rfl

instance : Faithful PaymentRequired :=
  .ofFields (renamed ["x402_version","accepts"]) (fun p => (p.x402Version,p.accepts,()))
    (fun (version,accepts,()) => ⟨version,accepts⟩) (by decide +kernel) rfl fun _ => rfl

instance : Faithful AssetEntry :=
  .ofFields (renamed ["faucet_id","amount"]) (fun a => (a.faucetId,a.amount,()))
    (fun (faucetId,amount,()) => ⟨faucetId,amount⟩) (by decide +kernel) rfl fun _ => rfl

instance : Faithful NoteDetails :=
  .ofFields (renamed ["serial_num","script","inputs","assets"])
    (fun n => (n.serialNum,n.script,n.inputs,n.assets,()))
    (fun (serialNum,script,inputs,assets,()) => ⟨serialNum,script,inputs,assets⟩)
    (by decide +kernel) rfl fun _ => rfl

instance : Faithful PaymentSignatureSetup :=
  .ofFields (renamed ["x402_version","scheme","network","payer_account_id","reclaim_block_height",
      "note_commitment","note_details"])
    (fun p => (p.x402Version,p.scheme,p.network,p.payerAccountId,p.reclaimBlockHeight,
      p.noteCommitment,p.noteDetails,()))
    (fun (version,scheme,network,payer,reclaimHeight,commitment,details,()) =>
      ⟨version,scheme,network,payer,reclaimHeight,commitment,details⟩)
    (by decide +kernel) rfl fun _ => rfl

instance : Faithful CumulativeVoucherPayload :=
  .ofFields (renamed ["scheme","network","note_commitment","cumulative_amount",
      "block_height_expiry","merchant_account_id","signature"])
    (fun p => (p.scheme,p.network,p.noteCommitment,p.cumulativeAmount,p.blockHeightExpiry,
      p.merchantAccountId,p.signature,()))
    (fun (scheme,network,commitment,amount,expiry,merchant,signature,()) =>
      ⟨scheme,network,commitment,amount,expiry,merchant,signature⟩)
    (by decide +kernel) rfl fun _ => rfl

instance : Faithful PaymentResponse :=
  .ofFields (renamed ["success","tx_hash","settled_amount","remainder_note_commitment",
      "remainder_balance"])
    (fun p => (p.success,p.txHash,p.settledAmount,p.remainderNoteCommitment,p.remainderBalance,()))
    (fun (success,txHash,settled,commitment,balance,()) => ⟨success,txHash,settled,commitment,balance⟩)
    (by decide +kernel) rfl fun _ => rfl

end Structs

section Headers

inductive HeaderError where
  | base64Decode
  | jsonDecode
deriving DecidableEq

def encodeHeader {α : Type} [Serialize α] (value : α) : String :=
  String.ofList (Base64.encode (Rust.asBytes (serialize value)))

/-- How deep the reader lets brackets nest. -/
def recursionLimit : ℕ := 127

/-- `serde_json::from_slice`, for texts that a serializer writes.  It is stricter on others: members that the
type does not name are skipped there, whatever they hold, and read here. -/
def fromSlice {α : Type} [Deserialize α] (bytes : List UInt8) : Option α :=
  ((Rust.fromUtf8 bytes).bind (Json.read recursionLimit)).bind deserialize

def decodeHeader {α : Type} [Deserialize α] (b64 : String) : Except HeaderError α :=
  match Base64.decode b64.toList with
  | none => .error .base64Decode
  | some bytes =>
    match fromSlice bytes with
    | none => .error .jsonDecode
    | some value => .ok value

theorem fromSlice_serialize {α : Type} [Faithful α] (h : Faithful.height α ≤ recursionLimit)
    (a : α) : fromSlice (Rust.asBytes (serialize a)) = some a := by
  obtain ⟨v,hv,hd⟩ := faithful_within a h
  have hread : Json.read recursionLimit (serialize a) = some v := by
    have hdepth := hd 0
    rw [Nat.zero_add] at hdepth
    exact hdepth.read
  rw [fromSlice,Rust.fromUtf8_asBytes,Option.bind_some,hread,Option.bind_some,hv]

theorem decodeHeader_encodeHeader {α : Type} [Faithful α] (h : Faithful.height α ≤ recursionLimit)
    (a : α) : decodeHeader (encodeHeader a) = .ok a := by
  simp only [decodeHeader,encodeHeader,String.toList_ofList,Base64.decode_encode,
    fromSlice_serialize h]

theorem mem_encodeHeader {α : Type} [Serialize α] (a : α) :
    ∀ c ∈ (encodeHeader a).toList, c ∈ Base64.alphabet ∨ c = Base64.padding := by
  rw [encodeHeader,String.toList_ofList]
  exact Base64.mem_encode _

end Headers

section Sdk

def buildPaymentRequired (merchantId assetFaucetId : String) (amountPerRequest : UInt64)
    (network : String) : String :=
  encodeHeader ({ x402Version := 1
                  accepts := [
                    { scheme := "batch-settlement"
                      network := network
                      amount := Nat.repr amountPerRequest.toNat
                      asset := assetFaucetId
                      payTo := merchantId
                      maxTimeoutSeconds := 3600
                      extra := some { minReclaimBlockBuffer := 100 } }] } : PaymentRequired)

def buildSessionSetupHeader (noteCommitment : String) (noteDetails : NoteDetails) (payerId : String)
    (reclaimBlock : UInt64) (network : String) : String :=
  encodeHeader ({ x402Version := 1
                  scheme := "batch-settlement"
                  network := network
                  payerAccountId := payerId
                  reclaimBlockHeight := reclaimBlock
                  noteCommitment := noteCommitment
                  noteDetails := noteDetails } : PaymentSignatureSetup)

def buildVoucher (noteCommitment merchantId : String) (cumulativeAmount blockHeightExpiry : UInt64)
    (signatureHex network : String) : CumulativeVoucherPayload where
  scheme := "batch-settlement"
  network := network
  noteCommitment := noteCommitment
  cumulativeAmount := Nat.repr cumulativeAmount.toNat
  blockHeightExpiry := blockHeightExpiry
  merchantAccountId := merchantId
  signature := signatureHex

def encodeVoucherHeader (voucher : CumulativeVoucherPayload) : String := encodeHeader voucher

theorem parseU64_repr (n : UInt64) : Rust.parseU64 (Nat.repr n.toNat) = some n.toNat := by
  rw [Rust.parseU64,Nat.toList_repr]
  exact Rust.fromStrRadix_toDigits (by decide) (by decide) n.toNat n.toNat_lt

end Sdk

/-- Every payload is read back from its header, a header has nothing but base64 in it, and the
amounts that were put in as numbers come out of the decoded strings. -/
theorem header_round_trip :
    (∀ v : PaymentRequired, decodeHeader (encodeHeader v) = .ok v) ∧
    (∀ v : PaymentSignatureSetup, decodeHeader (encodeHeader v) = .ok v) ∧
    (∀ v : CumulativeVoucherPayload, decodeHeader (encodeHeader v) = .ok v) ∧
    (∀ v : PaymentResponse, decodeHeader (encodeHeader v) = .ok v) ∧
    (∀ header, ((∃ v : PaymentRequired, header = encodeHeader v) ∨
        (∃ v : PaymentSignatureSetup, header = encodeHeader v) ∨
        (∃ v : CumulativeVoucherPayload, header = encodeHeader v) ∨
        ∃ v : PaymentResponse, header = encodeHeader v) →
      ∀ c ∈ header.toList, c ∈ Base64.alphabet ∨ c = Base64.padding) ∧
    (∀ merchantId assetFaucetId amount network, ∃ v p,
      decodeHeader (buildPaymentRequired merchantId assetFaucetId amount network) =
        .ok (v : PaymentRequired) ∧
      v.accepts = [p] ∧ Rust.parseU64 p.amount = some amount.toNat) ∧
    (∀ noteCommitment details payerId reclaimBlock network, ∃ v,
      decodeHeader (buildSessionSetupHeader noteCommitment details payerId reclaimBlock network) =
        .ok (v : PaymentSignatureSetup) ∧
      v.noteDetails = details ∧ v.reclaimBlockHeight = reclaimBlock) ∧
    (∀ noteCommitment merchantId amount expiry signature network, ∃ v,
      decodeHeader (encodeVoucherHeader
        (buildVoucher noteCommitment merchantId amount expiry signature network)) =
        .ok (v : CumulativeVoucherPayload) ∧
      Rust.parseU64 v.cumulativeAmount = some amount.toNat) := by
  refine ⟨?_,?_,?_,?_,?_,?_,?_,?_⟩
  · exact decodeHeader_encodeHeader (by decide)
  · exact decodeHeader_encodeHeader (by decide)
  · exact decodeHeader_encodeHeader (by decide)
  · exact decodeHeader_encodeHeader (by decide)
  · rintro header (⟨v,rfl⟩ | ⟨v,rfl⟩ | ⟨v,rfl⟩ | ⟨v,rfl⟩) <;> exact mem_encodeHeader v
  · intro merchantId assetFaucetId amount network
    exact ⟨_,_,decodeHeader_encodeHeader (by decide) _,rfl,parseU64_repr amount⟩
  · intro noteCommitment details payerId reclaimBlock network
    exact ⟨_,decodeHeader_encodeHeader (by decide) _,rfl,rfl⟩
  · intro noteCommitment merchantId amount expiry signature network
    exact ⟨_,decodeHeader_encodeHeader (by decide) _,parseU64_repr amount⟩

end MidenX402.AgentDebitNote
