import MidenX402.AdnServices.Types
import MidenX402.Encoding.Hex
import Mathlib.Data.Nat.Digits.Defs
import Mathlib.Logic.Encodable.Basic

/-!
# A codec that reads back what it writes

Values are numbered, the number is written in bytes, and the bytes in hex digits.
-/

namespace MidenX402.AdnServices
open Masm AgentDebitNote Rust

section Bytes

@[irreducible] def encodeBytes {β : Type} [Encodable β] (b : β) : List UInt8 :=
  (Nat.digits 256 (Encodable.encode b)).map UInt8.ofNat

@[irreducible] def decodeBytes {β : Type} [Encodable β] (bytes : List UInt8) : Except String β :=
  match Encodable.decode (Nat.ofDigits 256 (bytes.map UInt8.toNat)) with
  | some b => .ok b
  | none => .error "invalid value"

theorem decodeBytes_encodeBytes {β : Type} [Encodable β] (b : β) :
    decodeBytes (encodeBytes b) = .ok b := by
  have hdigits : ∀ d ∈ Nat.digits 256 (Encodable.encode b), (UInt8.toNat ∘ UInt8.ofNat) d = d := by
    intro d hd
    have hlt := Nat.digits_lt_base (by decide : 1 < 256) hd
    simp only [Function.comp_apply,UInt8.toNat_ofNat']
    exact Nat.mod_eq_of_lt hlt
  simp only [decodeBytes,encodeBytes,List.map_map]
  rw [List.map_congr_left hdigits,List.map_id',Nat.ofDigits_digits,Encodable.encodek]

end Bytes

section Numbering

instance : Encodable Felt :=
  Encodable.ofLeftInverse ZMod.val (fun i : ℕ => (i : Felt)) ZMod.natCast_zmod_val

instance : Encodable Word :=
  Encodable.ofLeftInverse (fun w => (w.e0,w.e1,w.e2,w.e3)) (fun q => ⟨q.1,q.2.1,q.2.2.1,q.2.2.2⟩)
    fun _ => rfl

instance : Encodable Asset :=
  Encodable.ofLeftInverse (fun a => (a.key,a.value)) (fun q => ⟨q.1,q.2⟩) fun _ => rfl

instance : Encodable Recipient :=
  Encodable.ofLeftInverse (fun r => (r.serialNum,r.scriptRoot,r.storage))
    (fun q => ⟨q.1,q.2.1,q.2.2⟩) fun _ => rfl

instance : Encodable Note :=
  Encodable.ofLeftInverse (fun n => (n.recipient,n.assets,n.noteType))
    (fun q => ⟨q.1,q.2.1,q.2.2⟩) fun _ => rfl

instance : Encodable (NoteFile Unit) :=
  Encodable.ofLeftInverse
    (fun nf => match nf with
      | .noteWithProof n _ => some n
      | .withoutProof => none)
    (fun q => match q with
      | some n => .noteWithProof n ()
      | none => .withoutProof)
    fun nf => by cases nf <;> rfl

instance : Encodable (AuthSecretKey referenceFalcon referenceFalcon) :=
  Encodable.ofLeftInverse
    (fun k => match k with
      | .falcon512Poseidon2 sk => (Sum.inl sk : Word ⊕ Word)
      | .ecdsaK256Keccak sk => Sum.inr sk)
    (fun q => match q with
      | .inl sk => .falcon512Poseidon2 sk
      | .inr sk => .ecdsaK256Keccak sk)
    fun k => by cases k <;> rfl

instance : Encodable referenceFalcon.Signature := inferInstanceAs (Encodable (Word × Word))

end Numbering

/-- The merchant of the sample note under the id its account is written with. -/
def sampleAccountId (hex : String) : Except String AccountId :=
  if hex = "0x7bfb0f38b0fafa103f86a805594170" then .ok sampleMerchant else .error "unknown account"

def sampleCodec : Codec referenceFalcon referenceFalcon where
  Proof := Unit
  hexDecode s := Hex.decode s.toList
  hexEncode bytes := String.ofList (Hex.encode bytes)
  readNoteFile := decodeBytes
  noteFileBytes := encodeBytes
  readSecretKey := decodeBytes
  secretKeyBytes := encodeBytes
  readSignature := decodeBytes
  signatureBytes := encodeBytes
  accountIdFromHex := sampleAccountId

def sampleProof : sampleCodec.Proof := ()

/-- The key the sample note commits to. -/
def sampleSk : AuthSecretKey referenceFalcon referenceFalcon :=
  .falcon512Poseidon2 (.ofNats 7 8 9 10 : Word)

theorem sampleCodec_roundTrips : sampleCodec.RoundTrips where
  hex bytes := by
    change Hex.decode (String.ofList (Hex.encode bytes)).toList = .ok bytes
    rw [String.toList_ofList,Hex.decode_encode]
  noteFile n p := @decodeBytes_encodeBytes (NoteFile Unit) inferInstance (.noteWithProof n p)
  secretKey sk := decodeBytes_encodeBytes sk
  signature sig := decodeBytes_encodeBytes sig

end MidenX402.AdnServices
