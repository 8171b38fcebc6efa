import MidenX402.AgentDebitNote.Settle
import MidenX402.Rust.Result

/-!
# Messages between agent, merchant and facilitator

The three services exchange JSON messages whose fields are hex strings.  Hex and the byte formats of
notes, keys and signatures belong to libraries outside of this repository; `Codec` names them, and
`Codec.RoundTrips` says that what was written is read back.
-/

namespace MidenX402.AdnServices
open Masm AgentDebitNote

/-- Four field elements, each as a hex string. -/
abbrev SerialStrings := List Char × List Char × List Char × List Char

structure SettleRequest where
  noteFileHex : String
  agentSkHex : String
  serialNum : SerialStrings
  cumulativeAmount : UInt64
  merchantIdHex : String
deriving DecidableEq

structure SettleResponse where
  success : Bool
  txHash : String
  settledAmount : UInt64
  remainderBalance : UInt64
  p2idNoteFileHex : Option String
  /-- the note file for the next batch -/
  remainderNoteFileHex : Option String
  /-- the serial number of the remainder note -/
  newSerialNum : Option SerialStrings
  error : Option String
deriving DecidableEq

structure PaymentRequest where
  /-- sent with the first request -/
  noteFileHex : Option String
  agentSkHex : String
  serialNum : SerialStrings
  cumulativeAmount : UInt64
  signatureHex : String
deriving DecidableEq

structure PaymentResponse where
  success : Bool
  resource : Option String
  error : Option String
  newSerialNum : Option SerialStrings
  settlementOccurred : Option Bool
deriving DecidableEq

inductive NoteFile (Proof : Type) where
  | noteWithProof (note : Note) (proof : Proof)
  /-- only an id, or details without a proof -/
  | withoutProof

/-- A secret key of one of the two schemes accounts can use; the second is given by `E`. -/
inductive AuthSecretKey (F E : Falcon) where
  | falcon512Poseidon2 (sk : F.SecretKey)
  | ecdsaK256Keccak (sk : E.SecretKey)

structure Codec (F E : Falcon) where
  Proof : Type
  hexDecode : String → Except String (List UInt8)
  hexEncode : List UInt8 → String
  readNoteFile : List UInt8 → Except String (NoteFile Proof)
  noteFileBytes : NoteFile Proof → List UInt8
  readSecretKey : List UInt8 → Except String (AuthSecretKey F E)
  secretKeyBytes : AuthSecretKey F E → List UInt8
  readSignature : List UInt8 → Except String F.Signature
  signatureBytes : F.Signature → List UInt8
  accountIdFromHex : String → Except String AccountId

section Codecs
variable {F E : Falcon}

structure Codec.RoundTrips (C : Codec F E) : Prop where
  hex : ∀ bytes, C.hexDecode (C.hexEncode bytes) = .ok bytes
  noteFile : ∀ n p, C.readNoteFile (C.noteFileBytes (.noteWithProof n p)) = .ok (.noteWithProof n p)
  secretKey : ∀ sk, C.readSecretKey (C.secretKeyBytes sk) = .ok sk
  signature : ∀ sig, C.readSignature (C.signatureBytes sig) = .ok sig

variable (C : Codec F E)

def noteFileHex (n : Note) (p : C.Proof) : String := C.hexEncode (C.noteFileBytes (.noteWithProof n p))

def secretKeyHex (sk : AuthSecretKey F E) : String := C.hexEncode (C.secretKeyBytes sk)

def signatureHex (sig : F.Signature) : String := C.hexEncode (C.signatureBytes sig)

def decodeNoteFile (hex : String) : Except String Note := do
  let bytes ← (C.hexDecode hex).mapError fun e => "hex: " ++ e
  match ← (C.readNoteFile bytes).mapError fun e => "note: " ++ e with
  | .noteWithProof n _ => .ok n
  | .withoutProof => .error "expected NoteWithProof"

def decodeSecretKey (hex : String) : Except String (AuthSecretKey F E) := do
  let bytes ← (C.hexDecode hex).mapError fun e => "agent_sk hex: " ++ e
  (C.readSecretKey bytes).mapError fun e => "agent_sk: " ++ e

/-- The amount of the first asset, if that asset is fungible. -/
def noteBalance (P : Protocol) (n : Note) : UInt64 :=
  match n.assets.head? with
  | some a => if P.isFungible a.key then a.value.e0.asCanonicalU64 else 0
  | none => 0

variable {C}

theorem decodeNoteFile_noteFileHex (hC : C.RoundTrips) (n : Note) (p : C.Proof) :
    decodeNoteFile C (noteFileHex C n p) = .ok n := by
  simp [decodeNoteFile,noteFileHex,hC.hex,hC.noteFile,Rust.mapError_ok,bind,Except.bind]

theorem decodeSecretKey_secretKeyHex (hC : C.RoundTrips) (sk : AuthSecretKey F E) :
    decodeSecretKey C (secretKeyHex C sk) = .ok sk := by
  simp [decodeSecretKey,secretKeyHex,hC.hex,hC.secretKey,Rust.mapError_ok,bind,Except.bind]

theorem noteFileHex_inj (hC : C.RoundTrips) {n n' : Note} {p p' : C.Proof}
    (h : noteFileHex C n p = noteFileHex C n' p') : n = n' := by
  have hd := decodeNoteFile_noteFileHex hC n p
  rw [h,decodeNoteFile_noteFileHex hC] at hd
  exact (Except.ok.inj hd).symm

theorem noteBalance_of_isDebitNote {P : Protocol} {t : Terms} {key : Word} {amount : Felt} {n : Note}
    (hn : IsDebitNote P t key amount n) : (noteBalance P n).toNat = amount.val := by
  simp [noteBalance,hn.assets,hn.fungible,fungibleValue,Felt.toNat_asCanonicalU64]

end Codecs

end MidenX402.AdnServices
