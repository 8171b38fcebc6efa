import MidenX402.Masm.Machine

/-!
# The transaction kernel around the note script

The note script calls procedures of the transaction kernel, of the standard note library and of the
core library, none of which is part of this repository.  They are parameters here: `Protocol` names
the functions they compute, `Kernel` the procedures themselves, and `Kernel.Documented` what their
documentation promises about them.
-/

namespace MidenX402.AgentDebitNote
open Masm

structure AccountId where
  prefixFelt : Felt
  suffixFelt : Felt
deriving DecidableEq

/-- An asset as the kernel stores it: the vault key and the value under that key. -/
structure Asset where
  key : Word
  value : Word
deriving DecidableEq

/-- The value word of a fungible asset. -/
def fungibleValue (amount : Felt) : Word := ⟨amount,0,0,0⟩

structure Recipient where
  serialNum : Word
  scriptRoot : Word
  storage : List Felt
deriving DecidableEq

structure Note where
  recipient : Recipient
  assets : List Asset
  noteType : Felt
deriving DecidableEq

/-- A note created by a transaction.  The kernel keeps the recipient digest; the host also keeps the
data behind it when that data was registered in the advice map. -/
structure OutputNote where
  recipient : Word
  details : Option Recipient
  tag : Felt
  noteType : Felt
  assets : List Asset
deriving DecidableEq

/-- The part of a transaction that kernel procedures read and change while one input note is being
executed. -/
structure Host where
  activeNote : Note
  blockNumber : UInt32
  hasBasicWallet : Bool
  vault : Word → Word
  outputNotes : List OutputNote

/-- `NoteType::Public` and `NoteType::Private`. -/
def notePublic : Felt := 1

def notePrivate : Felt := 2

structure Protocol where
  merge : Word → Word → Word
  falconVerify : Word → Word → List Felt → Option (List Felt)
  recipientDigest : Recipient → Word
  recipientOf : (Word → Option (List Felt)) → Word → Option Recipient
  p2idScriptRoot : Word
  isFungible : Word → Bool
  maxAmount : ℕ
  maxAmount_lt : maxAmount < fieldOrder
  maxOutputNotes : ℕ
  maxOutputNotes_lt : maxOutputNotes < fieldOrder

namespace Protocol
variable (P : Protocol)

/-- Fungible amounts add up to at most the protocol's maximum; a non-fungible asset is added once. -/
def vaultAdd (vault : Word → Word) (a : Asset) : Option (Word → Word) :=
  let held := vault a.key
  if P.isFungible a.key then
    if held.e0.val + a.value.e0.val ≤ P.maxAmount then
      some (Function.update vault a.key (fungibleValue (held.e0 + a.value.e0)))
    else none
  else if held = Word.zero then some (Function.update vault a.key a.value)
  else none

def vaultAddAll (vault : Word → Word) (assets : List Asset) : Option (Word → Word) :=
  assets.foldlM P.vaultAdd vault

/-- A fungible withdrawal is covered by the balance; a non-fungible asset is withdrawn as held. -/
def vaultRemove (vault : Word → Word) (a : Asset) : Option (Word → Word) :=
  let held := vault a.key
  if P.isFungible a.key then
    if a.value = fungibleValue a.value.e0 ∧ a.value.e0.val ≤ held.e0.val then
      some (Function.update vault a.key (fungibleValue (held.e0 - a.value.e0)))
    else none
  else if held = a.value ∧ held ≠ Word.zero then some (Function.update vault a.key Word.zero)
  else none

def canCreate (h : Host) (tag noteType : Felt) : Prop :=
  h.outputNotes.length < P.maxOutputNotes ∧ tag.val < 2 ^ 32 ∧
    (noteType = notePublic ∨ noteType = notePrivate)

instance (h : Host) (tag noteType : Felt) : Decidable (P.canCreate h tag noteType) :=
  inferInstanceAs (Decidable (_ ∧ _ ∧ _))

def p2idRecipient (serialNum : Word) (suffix pre : Felt) : Recipient :=
  ⟨serialNum,P.p2idScriptRoot,[suffix,pre]⟩

def moveAsset (h : Host) (i : ℕ) (a : Asset) : Option Host :=
  if h.hasBasicWallet then
    (P.vaultRemove h.vault a).map fun vault =>
      { h with
        vault := vault
        outputNotes := h.outputNotes.modify i fun n => { n with assets := n.assets ++ [a] } }
  else none

end Protocol

def Host.createNote (h : Host) (n : OutputNote) : Host :=
  { h with outputNotes := h.outputNotes ++ [n] }

/-- The procedures the script reaches by `exec` and `call`. -/
structure Kernel where
  /-- `active_note::get_storage`: `[dest_ptr]` to `[num_items, dest_ptr]` -/
  getStorage : Proc Host
  /-- `active_note::get_assets`: `[dest_ptr]` to `[num_assets, dest_ptr]` -/
  getAssets : Proc Host
  /-- `active_note::get_serial_number`: `[]` to `[SERIAL_NUM]` -/
  getSerialNumber : Proc Host
  /-- `active_note::get_script_root`: `[]` to `[SCRIPT_ROOT]` -/
  getScriptRoot : Proc Host
  /-- `tx::get_block_number`: `[]` to `[num]` -/
  getBlockNumber : Proc Host
  /-- `note::build_recipient`: `[storage_ptr, num_items, SERIAL_NUM, SCRIPT_ROOT]` to `[RECIPIENT]` -/
  buildRecipient : Proc Host
  /-- `output_note::create`: `[tag, note_type, RECIPIENT]` to `[note_idx]` -/
  createOutputNote : Proc Host
  /-- `p2id::new`: `[suffix, prefix, tag, note_type, SERIAL_NUM]` to `[note_idx]` -/
  p2idNew : Proc Host
  /-- `wallet::add_assets_to_account`: `[]` to `[]` -/
  addAssetsToAccount : Proc Host
  /-- `wallet::move_asset_to_note`: `[ASSET_KEY, ASSET_VALUE, note_idx, pad(7)]` to sixteen elements -/
  moveAssetToNote : Proc Host
  /-- `poseidon2::merge`: `[A, B]` to `[merge(A, B)]` -/
  merge : Proc Host
  /-- `falcon512_poseidon2::verify`: `[PK, MSG]` to `[]`, the signature on the advice stack -/
  falconVerify : Proc Host
  /-- `sys::truncate_stack` -/
  truncateStack : Proc Host

def Asset.cells (a : Asset) : List Felt := a.key.toList ++ a.value.toList

/-- Values are written to memory in double words. -/
def paddedLength (n : ℕ) : ℕ := (n + 7) / 8 * 8

/-- What the documentation of the called procedures promises.  Procedure locals live far above the
addresses the script uses and are not part of the memory here. -/
structure Kernel.Documented (P : Protocol) (K : Kernel) : Prop where
  getStorage : ∀ (ptr : Felt) st m av am (h : Host), ptr.val % 4 = 0 → ∃ m',
    K.getStorage ⟨ptr :: st,m,av,am,h⟩ =
      some ⟨(h.activeNote.recipient.storage.length : Felt) :: ptr :: st,m',av,am,h⟩ ∧
    memHolds m' ptr.val h.activeNote.recipient.storage ∧
    ∀ a, a < ptr.val ∨ ptr.val + paddedLength h.activeNote.recipient.storage.length ≤ a → m' a = m a
  getAssets : ∀ (ptr : Felt) st m av am (h : Host), ptr.val % 4 = 0 → ∃ m',
    K.getAssets ⟨ptr :: st,m,av,am,h⟩ =
      some ⟨(h.activeNote.assets.length : Felt) :: ptr :: st,m',av,am,h⟩ ∧
    memHolds m' ptr.val (h.activeNote.assets.flatMap Asset.cells) ∧
    ∀ a, a < ptr.val ∨ ptr.val + 8 * h.activeNote.assets.length ≤ a → m' a = m a
  getSerialNumber : ∀ st m av am (h : Host), K.getSerialNumber ⟨st,m,av,am,h⟩ =
    some ⟨h.activeNote.recipient.serialNum.push st,m,av,am,h⟩
  getScriptRoot : ∀ st m av am (h : Host), K.getScriptRoot ⟨st,m,av,am,h⟩ =
    some ⟨h.activeNote.recipient.scriptRoot.push st,m,av,am,h⟩
  getBlockNumber : ∀ st m av am (h : Host), K.getBlockNumber ⟨st,m,av,am,h⟩ =
    some ⟨(h.blockNumber.toNat : Felt) :: st,m,av,am,h⟩
  buildRecipient : ∀ (ptr num : Felt) (serialNum root : Word) st m av am (h : Host),
    ptr.val % 4 = 0 → num.val ≤ 1024 →
    let r : Recipient := ⟨serialNum,root,(List.range num.val).map fun i => m (ptr.val + i)⟩
    ∃ am', K.buildRecipient ⟨ptr :: num :: serialNum.push (root.push st),m,av,am,h⟩ =
        some ⟨(P.recipientDigest r).push st,m,av,am',h⟩ ∧
      P.recipientOf am' (P.recipientDigest r) = some r
  createOutputNote : ∀ (tag noteType : Felt) (digest : Word) st m av am (h : Host),
    K.createOutputNote ⟨tag :: noteType :: digest.push st,m,av,am,h⟩ =
      if P.canCreate h tag noteType then
        some ⟨(h.outputNotes.length : Felt) :: st,m,av,am,
          h.createNote ⟨digest,P.recipientOf am digest,tag,noteType,[]⟩⟩
      else none
  p2idNew : ∀ (suffix pre tag noteType : Felt) (serialNum : Word) st m av am (h : Host), ∃ am',
    K.p2idNew ⟨suffix :: pre :: tag :: noteType :: serialNum.push st,m,av,am,h⟩ =
      if P.canCreate h tag noteType then
        some ⟨(h.outputNotes.length : Felt) :: st,m,av,am',
          h.createNote ⟨P.recipientDigest (P.p2idRecipient serialNum suffix pre),
            some (P.p2idRecipient serialNum suffix pre),tag,noteType,[]⟩⟩
      else none
  addAssetsToAccount : ∀ st m av am (h : Host), K.addAssetsToAccount ⟨st,m,av,am,h⟩ =
    if h.hasBasicWallet then
      (P.vaultAddAll h.vault h.activeNote.assets).map fun vault =>
        ⟨st,m,av,am,{ h with vault := vault }⟩
    else none
  moveAssetToNote : ∀ (key value : Word) (idx : Felt) (pad : List Felt) m av am (h : Host)
    (n : OutputNote), pad.length = 7 → h.outputNotes[idx.val]? = some n → n.assets = [] →
    ∃ out m', out.length = 16 ∧
      K.moveAssetToNote ⟨key.push (value.push (idx :: pad)),m,av,am,h⟩ =
        (P.moveAsset h idx.val ⟨key,value⟩).map fun h' => ⟨out,m',av,am,h'⟩
  merge : ∀ (a b : Word) st m av am (h : Host), K.merge ⟨a.push (b.push st),m,av,am,h⟩ =
    some ⟨(P.merge a b).push st,m,av,am,h⟩
  falconVerify : ∀ (pk msg : Word) st m av am (h : Host),
    K.falconVerify ⟨pk.push (msg.push st),m,av,am,h⟩ =
      (P.falconVerify pk msg av).map fun av' => ⟨st,m,av',am,h⟩
  truncateStack : ∀ st m av am (h : Host),
    K.truncateStack ⟨st,m,av,am,h⟩ = some ⟨st.take 16,m,av,am,h⟩

end MidenX402.AgentDebitNote
