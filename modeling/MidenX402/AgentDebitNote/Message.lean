import MidenX402.AgentDebitNote.Kernel

/-! # Note storage, signed messages and vouchers -/

namespace MidenX402.AgentDebitNote
open Masm

structure AgentDebitNoteStorage where
  userPubkeyCommitment : Word
  merchantAccountId : AccountId
  userAccountId : AccountId
  reclaimBlockHeight : UInt64

/-- The nine storage items of a note, with the reclaim height as the field element stored. -/
def storageItems (userPk : Word) (merchant user : AccountId) (reclaimBlock : Felt) : List Felt :=
  [userPk.e0,userPk.e1,userPk.e2,userPk.e3,merchant.suffixFelt,merchant.prefixFelt,
    user.suffixFelt,user.prefixFelt,reclaimBlock]

def AgentDebitNoteStorage.toNoteStorage (s : AgentDebitNoteStorage) : List Felt :=
  storageItems s.userPubkeyCommitment s.merchantAccountId s.userAccountId
    (Felt.new s.reclaimBlockHeight)

def debitWord (merchant : AccountId) (cumulativeAmount : Felt) : Word :=
  ⟨merchant.suffixFelt,merchant.prefixFelt,cumulativeAmount,0⟩

def reclaimWord (user : AccountId) : Word :=
  ⟨user.suffixFelt,user.prefixFelt,0,0⟩

theorem debitWord_inj {m m' : AccountId} {c c' : Felt} (h : debitWord m c = debitWord m' c') :
    m = m' ∧ c = c' := by
  cases m
  cases m'
  simp only [debitWord,Word.mk.injEq] at h
  simp [h.1,h.2.1,h.2.2.1]

theorem reclaimWord_eq_debitWord (user : AccountId) : reclaimWord user = debitWord user 0 := rfl

section Messages
variable (P : Protocol)

def debitMessage (noteSerialNum : Word) (merchant : AccountId) (cumulativeAmount : UInt64) : Word :=
  P.merge noteSerialNum (debitWord merchant (Felt.new cumulativeAmount))

def reclaimMessage (noteSerialNum : Word) (user : AccountId) : Word :=
  P.merge noteSerialNum (reclaimWord user)

def voucherMessage (noteSerialNum : Word) (merchant : AccountId) (cumulativeAmount : UInt64) : Word :=
  debitMessage P noteSerialNum merchant cumulativeAmount

end Messages

/-- The Falcon scheme as the Rust code calls it: keys, signing, verification and the encoding of a
signature for the advice stack. -/
structure Falcon where
  SecretKey : Type
  PublicKey : Type
  Signature : Type
  publicKey : SecretKey → PublicKey
  toCommitment : PublicKey → Word
  sign : SecretKey → Word → Signature
  verify : PublicKey → Word → Signature → Bool
  toPreparedSignature : Signature → Word → List Felt

/-- A signature verifies under the key and for the message it was made for. -/
def Falcon.SignsCorrectly (F : Falcon) : Prop :=
  ∀ sk msg, F.verify (F.publicKey sk) msg (F.sign sk msg) = true

/-- A signature verifies for no other message. -/
def Falcon.BindsMessage (F : Falcon) : Prop :=
  ∀ sk msg msg', F.verify (F.publicKey sk) msg' (F.sign sk msg) = true → msg' = msg

/-- The procedure of the core library decides a prepared signature as the Rust verifier does, and
leaves what follows it on the advice stack. -/
def Falcon.MatchesProcedure (F : Falcon) (P : Protocol) : Prop :=
  ∀ pk msg sig rest, P.falconVerify (F.toCommitment pk) msg (F.toPreparedSignature sig msg ++ rest) =
    if F.verify pk msg sig then some rest else none

section Vouchers
variable (P : Protocol) (F : Falcon)

def signVoucher (sk : F.SecretKey) (noteSerialNum : Word) (merchant : AccountId)
    (cumulativeAmount : UInt64) : F.Signature :=
  F.sign sk (voucherMessage P noteSerialNum merchant cumulativeAmount)

def verifyVoucher (pk : F.PublicKey) (noteSerialNum : Word) (merchant : AccountId)
    (cumulativeAmount : UInt64) (sig : F.Signature) : Bool :=
  F.verify pk (voucherMessage P noteSerialNum merchant cumulativeAmount) sig

end Vouchers

end MidenX402.AgentDebitNote
