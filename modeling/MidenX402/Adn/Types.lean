import MidenX402.AdnServices.Layout
import MidenX402.Json.Serde

/-!
# Messages of the agent's client

A serial number travels as four hex strings, here with all sixteen digits of each element.
-/

namespace MidenX402.Adn
open Masm AgentDebitNote AdnServices Json

/-- An array of four strings. -/
structure HexWord where
  e0 : String
  e1 : String
  e2 : String
  e3 : String
deriving DecidableEq

def HexWord.toList (h : HexWord) : List String := [h.e0,h.e1,h.e2,h.e3]

def HexWord.ofList : List String → Option HexWord
  | [e0,e1,e2,e3] => some ⟨e0,e1,e2,e3⟩
  | _ => none

/-- The elements as the note's own reader takes them. -/
def HexWord.strings (h : HexWord) : SerialStrings := (h.e0.toList,h.e1.toList,h.e2.toList,h.e3.toList)

instance : Faithful HexWord where
  serialize h := Serialize.serialize h.toList
  deserialize v := (Deserialize.deserialize v : Option (List String)).bind HexWord.ofList
  missing := none
  height := 1
  faithful h := by
    obtain ⟨v,hv,hd⟩ := Faithful.faithful h.toList
    exact ⟨v,by rw [hv]; rfl,hd⟩

structure SignedDebit where
  noteId : String
  serialNumHex : HexWord
  merchantAccountId : String
  amount : UInt64
  signatureHex : String
  preparedSignatureHex : String
  expiryBlockHeight : UInt32
  agentPubkeyCommitmentHex : String
deriving DecidableEq

/-- Fields that keep their names. -/
def unrenamed (fields : List String) : List (List Char) := fields.map String.toList

def signedDebitNames : List (List Char) :=
  unrenamed ["note_id","serial_num_hex","merchant_account_id","amount","signature_hex",
    "prepared_signature_hex","expiry_block_height","agent_pubkey_commitment_hex"]

instance : Faithful SignedDebit :=
  .ofFields signedDebitNames
    (fun d => (d.noteId,d.serialNumHex,d.merchantAccountId,d.amount,d.signatureHex,
      d.preparedSignatureHex,d.expiryBlockHeight,d.agentPubkeyCommitmentHex,()))
    (fun (noteId,serial,merchant,amount,signature,prepared,expiry,commitment,()) =>
      ⟨noteId,serial,merchant,amount,signature,prepared,expiry,commitment⟩)
    (by decide +kernel) rfl fun _ => rfl

/-- What the facilitator tells of the note that a settlement left. -/
structure RemainderInfo where
  noteId : String
  serialNumHex : HexWord
  balance : UInt64
  txId : String
  blockNum : UInt32
deriving DecidableEq

section Hex

/-- `{:016x}`. -/
def paddedHex (n : ℕ) : List Char :=
  List.replicate (16 - (Nat.toDigits 16 n).length) '0' ++ Nat.toDigits 16 n

def hexFelt (a : Felt) : String := String.ofList ('0' :: 'x' :: paddedHex a.asCanonicalU64.toNat)

def wordToHexArray (w : Word) : HexWord := ⟨hexFelt w.e0,hexFelt w.e1,hexFelt w.e2,hexFelt w.e3⟩

theorem fromStrRadix_paddedHex (x : UInt64) :
    Rust.fromStrRadix 16 (2 ^ 64) (paddedHex x.toNat) = some x.toNat :=
  Rust.fromStrRadix_padded (by decide) le_rfl x.toNat x.toNat_lt _

theorem parseHexFelt_hexFelt (a : Felt) :
    parseHexFelt (hexFelt a).toList = some a.asCanonicalU64 := by
  rw [hexFelt,String.toList_ofList]
  change (Rust.fromStrRadix 16 (2 ^ 64) (paddedHex a.asCanonicalU64.toNat)).map _ = _
  rw [fromStrRadix_paddedHex,Option.map_some,UInt64.ofNat_toNat]

theorem parseSerialNum_wordToHexArray (w : Word) :
    parseSerialNum (wordToHexArray w).strings = some w := by
  simp [parseSerialNum,wordToHexArray,HexWord.strings,parseHexFelt_hexFelt]

theorem x_notMem_paddedHex (n : ℕ) : 'x' ∉ paddedHex n := by
  have hdigit : ∀ d < 16, Nat.digitChar d ≠ 'x' := by
    decide
  have hdigits : 'x' ∉ Nat.toDigits 16 n := by
    induction n using Nat.strongRecOn with
    | ind n ih =>
      by_cases hlt : n < 16
      · rw [Nat.toDigits_of_lt_base hlt,List.mem_singleton]
        exact (hdigit n hlt).symm
      · rw [Nat.toDigits_of_base_le (by decide) (by omega),List.mem_append,List.mem_singleton,not_or]
        exact ⟨ih (n / 16) (by omega),(hdigit (n % 16) (by omega)).symm⟩
  rw [paddedHex,List.mem_append,not_or]
  exact ⟨fun h => absurd (List.eq_of_mem_replicate h) (by decide),hdigits⟩

end Hex

/-- The libraries on the agent's side and what the facilitator reads back. -/
structure AdnCodec (F E : Falcon) extends Codec F E where
  accountIdToHex : AccountId → String
  wordBytes : Word → List UInt8
  /-- the public key that comes with a signature -/
  inlineKey : F.Signature → F.PublicKey

/-- What was written is read back, a signature comes with the key it was made with, and hex is
written in hex digits. -/
structure AdnCodec.Inverses {F E : Falcon} (C : AdnCodec F E) : Prop where
  roundTrips : C.RoundTrips
  accountId : ∀ account, C.accountIdFromHex (C.accountIdToHex account) = .ok account
  inlineKey : ∀ sk msg, C.inlineKey (F.sign sk msg) = F.publicKey sk
  hexDigits : ∀ bytes, 'x' ∉ (C.hexEncode bytes).toList

end MidenX402.Adn
