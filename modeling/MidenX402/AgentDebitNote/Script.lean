import MidenX402.AgentDebitNote.Message

/-!
# The note script

`main`, `consumePath` and `reclaimPath` follow `agent_debit_note.masm` instruction by instruction,
cut at the numbered comments of the source.  Each section is shown to realise an effect on the
transaction; `settleEffect` and `reclaimEffect` compose them.
-/

namespace MidenX402.AgentDebitNote
open Masm

def storagePtr : ℕ := 100
def userPkPtr : ℕ := 100
def merchantSuffixPtr : ℕ := 104
def merchantPrefixPtr : ℕ := 105
def userSuffixPtr : ℕ := 106
def userPrefixPtr : ℕ := 107
def reclaimBlockPtr : ℕ := 108
def cumulativeAmount : ℕ := 8
def assetKeyPtr : ℕ := 12
def assetValuePtr : ℕ := 16

section Code
variable (K : Kernel)

def loadWord (ptr : ℕ) : List (Proc Host) := [padw,push (ptr : Felt),memLoadwLe]

def consumeMessage : List (Proc Host) :=
  [push 0,memLoad cumulativeAmount,memLoad merchantPrefixPtr,memLoad merchantSuffixPtr,
    K.getSerialNumber,K.merge]

def consumeSigKey : List (Proc Host) := loadWord userPkPtr ++ [dupw 1,dupw 1,K.merge]

def consumeVerify : List (Proc Host) :=
  [advHasMapkey,advPush,ifTrue (block [advPushMapval,dropw]) (block [dropw]),K.falconVerify]

def receiveAssets : List (Proc Host) :=
  [K.addAssetsToAccount,push (assetKeyPtr : Felt),K.getAssets,drop,drop]

def createP2id (prefixPtr suffixPtr : ℕ) : List (Proc Host) :=
  [K.getSerialNumber,swap 3,push 1,add,swap 3,push 1,push 0,memLoad prefixPtr,memLoad suffixPtr,
    K.p2idNew]

def moveAsset : List (Proc Host) :=
  loadWord assetKeyPtr ++ [call K.moveAssetToNote,dropw,dropw,dropw,dropw]

def createRemainder : List (Proc Host) :=
  [K.getScriptRoot,K.getSerialNumber,push 1,add,push 9,push (storagePtr : Felt),K.buildRecipient,
    push 1,push 0,K.createOutputNote]

def payMerchant : List (Proc Host) :=
  createP2id K merchantPrefixPtr merchantSuffixPtr ++
  [push 0,push 0,push 0,memLoad cumulativeAmount] ++ moveAsset K

def keepRemainder : List (Proc Host) :=
  createRemainder K ++
  [push (assetValuePtr : Felt),memLoadTop,memLoad cumulativeAmount,sub,push 0,push 0,push 0,
    movup 3] ++ moveAsset K

def consumePath : Proc Host := block <|
  consumeMessage K ++ consumeSigKey K ++ consumeVerify K ++ receiveAssets K ++ payMerchant K ++
  keepRemainder K

def reclaimMessageCode : List (Proc Host) :=
  [push 0,push 0,memLoad userPrefixPtr,memLoad userSuffixPtr,K.getSerialNumber,K.merge]

/-- The part of the reclaim path that decides whether the presented signature is accepted. -/
def reclaimVerify : List (Proc Host) :=
  reclaimMessageCode K ++ loadWord userPkPtr ++ [K.falconVerify]

def payUser : List (Proc Host) :=
  createP2id K userPrefixPtr userSuffixPtr ++ loadWord assetValuePtr ++ moveAsset K

def reclaimPath : Proc Host := block <| reclaimVerify K ++ receiveAssets K ++ payUser K

def loadStorage : List (Proc Host) :=
  [memStore cumulativeAmount,drop,drop,drop,push (storagePtr : Felt),K.getStorage,drop,drop]

def main : Proc Host := block <|
  loadStorage K ++
  [K.getBlockNumber,memLoad reclaimBlockPtr,swap 1,gt,ifTrue (consumePath K) (reclaimPath K),
    K.truncateStack]

end Code

/-- The serial number a P2ID note gets from the note it settles. -/
def p2idSerial (w : Word) : Word := ⟨w.e0,w.e1,w.e2,w.e3 + 1⟩

/-- The serial number a remainder note gets from the note it replaces. -/
def remainderSerial (w : Word) : Word := ⟨w.e0 + 1,w.e1,w.e2,w.e3⟩

namespace Protocol
variable (P : Protocol)

/-- Where the signature is read from: the values stored under the key, if any, come first. -/
def sigSource (am : Word → Option (List Felt)) (key : Word) (av : List Felt) : List Felt :=
  (am key).getD [] ++ av

def receive (h : Host) : Option Host :=
  if h.hasBasicWallet then
    (P.vaultAddAll h.vault h.activeNote.assets).map fun vault => { h with vault := vault }
  else none

def create (h : Host) (r : Recipient) : Option Host :=
  if P.canCreate h 0 notePublic then
    some (h.createNote ⟨P.recipientDigest r,some r,0,notePublic,[]⟩)
  else none

/-- Create a public note for the recipient and move the asset into it. -/
def send (h : Host) (r : Recipient) (a : Asset) : Option Host :=
  (P.create h r).bind fun h' => P.moveAsset h' h.outputNotes.length a

def sendP2id (h : Host) (suffix pre : Felt) (a : Asset) : Option Host :=
  P.send h (P.p2idRecipient (p2idSerial h.activeNote.recipient.serialNum) suffix pre) a

def sendRemainder (h : Host) (storage : List Felt) (a : Asset) : Option Host :=
  P.send h ⟨remainderSerial h.activeNote.recipient.serialNum,h.activeNote.recipient.scriptRoot,
    storage⟩ a

/-- What a settlement of `c` out of a note holding `amount` does once it is authorised. -/
def settleEffect (key : Word) (amount c suffix pre : Felt) (storage : List Felt) (h : Host) :
    Option Host :=
  (P.receive h).bind fun h =>
    (P.sendP2id h suffix pre ⟨key,fungibleValue c⟩).bind fun h =>
      P.sendRemainder h storage ⟨key,fungibleValue (amount - c)⟩

/-- What a reclaim does once it is authorised. -/
def reclaimEffect (key : Word) (amount suffix pre : Felt) (h : Host) : Option Host :=
  (P.receive h).bind fun h => P.sendP2id h suffix pre ⟨key,fungibleValue amount⟩

end Protocol

end MidenX402.AgentDebitNote
