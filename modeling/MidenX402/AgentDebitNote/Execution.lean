import MidenX402.AgentDebitNote.Script

/-! # Symbolic execution of the note script -/

namespace MidenX402.AgentDebitNote
open Masm

section Sections
variable {P : Protocol} {K : Kernel} (hK : K.Documented P) (st : List Felt) (m : ℕ → Felt)
  (av : List Felt) (am : Word → Option (List Felt)) (h : Host)

theorem run_loadWord (ptr : ℕ) (hb : ptr < addressBound) (ha : ptr % 4 = 0) :
    block (loadWord ptr) ⟨st,m,av,am,h⟩ = some ⟨(memWord m ptr).push st,m,av,am,h⟩ := by
  have hv : (ptr : Felt).val = ptr :=
    ZMod.val_natCast_of_lt (hb.trans (by decide))
  simp only [loadWord,block_cons,run_padw,run_push,Option.bind_some]
  rw [run_memLoadwLe _ _ _ _ _ _ _ _ _ _ (by rw [hv]; exact ⟨hb,ha⟩),hv]
  rfl

include hK

theorem run_consumeMessage :
    block (consumeMessage K) ⟨st,m,av,am,h⟩ =
      some ⟨(P.merge h.activeNote.recipient.serialNum
        ⟨m merchantSuffixPtr,m merchantPrefixPtr,m cumulativeAmount,0⟩).push st,m,av,am,h⟩ := by
  simp only [consumeMessage,block_cons,run_push,run_memLoad,Option.bind_some,hK.getSerialNumber]
  rw [← Word.push_mk (m merchantSuffixPtr),hK.merge]
  rfl

theorem run_consumeSigKey (msg : Word) :
    block (consumeSigKey K) ⟨msg.push st,m,av,am,h⟩ =
      some ⟨(P.merge (memWord m userPkPtr) msg).push ((memWord m userPkPtr).push (msg.push st)),
        m,av,am,h⟩ := by
  rw [consumeSigKey,block_append,run_loadWord _ _ _ _ _ _ (by decide) (by decide),Option.bind_some]
  simp only [block_cons,run_dupw_one,Option.bind_some,hK.merge]
  rfl

theorem run_consumeVerify (key pk msg : Word) :
    block (consumeVerify K) ⟨key.push (pk.push (msg.push st)),m,av,am,h⟩ =
      (P.falconVerify pk msg (Protocol.sigSource am key av)).map fun av' => ⟨st,m,av',am,h⟩ := by
  simp only [consumeVerify,block_cons,run_advHasMapkey,run_advPush,Option.bind_some]
  cases hkey : am key with
  | none =>
    simp only [Option.isSome_none,Bool.false_eq_true,if_false,run_ifTrue_zero,block_cons,
      run_dropw_push,Option.bind_some,block_nil,hK.falconVerify,Protocol.sigSource,hkey,
      Option.getD_none,List.nil_append]
    exact Option.bind_fun_some _
  | some vs =>
    simp only [Option.isSome_some,if_true,run_ifTrue_one,block_cons,run_advPushMapval,hkey,
      Option.map_some,run_dropw_push,Option.bind_some,block_nil,hK.falconVerify,
      Protocol.sigSource,Option.getD_some]
    exact Option.bind_fun_some _

theorem run_reclaimVerify :
    block (reclaimVerify K) ⟨st,m,av,am,h⟩ =
      (P.falconVerify (memWord m userPkPtr)
        (P.merge h.activeNote.recipient.serialNum ⟨m userSuffixPtr,m userPrefixPtr,0,0⟩) av).map
        fun av' => ⟨st,m,av',am,h⟩ := by
  have hmsg : block (reclaimMessageCode K) ⟨st,m,av,am,h⟩ =
      some ⟨(P.merge h.activeNote.recipient.serialNum
        ⟨m userSuffixPtr,m userPrefixPtr,0,0⟩).push st,m,av,am,h⟩ := by
    simp only [reclaimMessageCode,block_cons,run_push,run_memLoad,Option.bind_some,
      hK.getSerialNumber]
    rw [← Word.push_mk (m userSuffixPtr),hK.merge]
    rfl
  rw [reclaimVerify,block_append,block_append,hmsg,Option.bind_some,
    run_loadWord _ _ _ _ _ _ (by decide) (by decide),Option.bind_some,block_cons,hK.falconVerify]
  exact Option.bind_fun_some _

/-- Receiving the assets writes them from `assetKeyPtr` on and keeps every other cell. -/
theorem receiveAssets_realises :
    Realises (block (receiveAssets K) ⟨st,m,av,am,h⟩) (P.receive h) fun t =>
      t.stack = st ∧ t.advStack = av ∧
      memHolds t.mem assetKeyPtr (h.activeNote.assets.flatMap Asset.cells) ∧
      ∀ a, a < assetKeyPtr ∨ assetKeyPtr + 8 * h.activeNote.assets.length ≤ a → t.mem a = m a := by
  rw [receiveAssets,block_cons,hK.addAssetsToAccount,Protocol.receive]
  split
  · cases hv : P.vaultAddAll h.vault h.activeNote.assets with
    | none => rfl
    | some vault =>
      simp only [Option.map_some,Option.bind_some,block_cons,run_push]
      obtain ⟨m',hrun,hholds,hframe⟩ := hK.getAssets (assetKeyPtr : Felt) st m av am
        { h with vault := vault } (by decide)
      rw [hrun]
      exact ⟨⟨st,m',av,am,_⟩,rfl,rfl,rfl,rfl,hholds,hframe⟩
  · rfl

theorem createP2id_realises (prefixPtr suffixPtr : ℕ) :
    Realises (block (createP2id K prefixPtr suffixPtr) ⟨st,m,av,am,h⟩)
      (P.create h (P.p2idRecipient (p2idSerial h.activeNote.recipient.serialNum)
        (m suffixPtr) (m prefixPtr))) fun t =>
      t.stack = (h.outputNotes.length : Felt) :: st ∧ t.mem = m := by
  have hcode : block (createP2id K prefixPtr suffixPtr) ⟨st,m,av,am,h⟩ =
      (K.p2idNew ⟨m suffixPtr :: m prefixPtr :: 0 :: notePublic ::
        (p2idSerial h.activeNote.recipient.serialNum).push st,m,av,am,h⟩).bind some := by
    simp only [createP2id,block_cons,hK.getSerialNumber,Option.bind_some,Word.push,run_swap_three,
      run_push,run_add,run_memLoad]
    rfl
  obtain ⟨am',hrun⟩ := hK.p2idNew (m suffixPtr) (m prefixPtr) 0 notePublic
    (p2idSerial h.activeNote.recipient.serialNum) st m av am h
  rw [hcode,hrun,Protocol.create]
  split
  · exact ⟨_,rfl,rfl,rfl,rfl⟩
  · rfl

theorem createRemainder_realises (storage : List Felt)
    (hst : (List.range 9).map (fun i => m (storagePtr + i)) = storage) :
    Realises (block (createRemainder K) ⟨st,m,av,am,h⟩)
      (P.create h ⟨remainderSerial h.activeNote.recipient.serialNum,
        h.activeNote.recipient.scriptRoot,storage⟩) fun t =>
      t.stack = (h.outputNotes.length : Felt) :: st ∧ t.mem = m := by
  have hcode : block (createRemainder K) ⟨st,m,av,am,h⟩ =
      (K.buildRecipient ⟨(storagePtr : Felt) :: 9 ::
        (remainderSerial h.activeNote.recipient.serialNum).push
          (h.activeNote.recipient.scriptRoot.push st),m,av,am,h⟩).bind
        (block [push notePublic,push 0,K.createOutputNote]) := by
    simp only [createRemainder,block_cons,hK.getScriptRoot,hK.getSerialNumber,Option.bind_some,
      run_push]
    rfl
  obtain ⟨am',hrun,hdet⟩ := hK.buildRecipient (storagePtr : Felt) 9
    (remainderSerial h.activeNote.recipient.serialNum) h.activeNote.recipient.scriptRoot st m av am h
    (by decide) (by decide)
  have hcells : ((List.range (9 : Felt).val).map fun i => m ((storagePtr : Felt).val + i)) = storage :=
    hst
  rw [hcells] at hrun hdet
  rw [hcode,hrun,Option.bind_some,block_cons,run_push,Option.bind_some,block_cons,run_push,
    Option.bind_some,block_cons,hK.createOutputNote,hdet,Protocol.create]
  split
  · exact ⟨_,rfl,rfl,rfl,rfl⟩
  · rfl

/-- Moving an asset into the note just created empties the stack and keeps the memory. -/
theorem moveAsset_realises (value : Word) (idx : Felt) (n : OutputNote)
    (hn : h.outputNotes[idx.val]? = some n) (hempty : n.assets = []) :
    Realises (block (moveAsset K) ⟨value.push [idx],m,av,am,h⟩)
      (P.moveAsset h idx.val ⟨memWord m assetKeyPtr,value⟩) fun t =>
      t.stack = [] ∧ t.mem = m := by
  rw [moveAsset,block_append,run_loadWord _ _ _ _ _ _ (by decide) (by decide),Option.bind_some,
    block_cons,run_call_of_le _ _ _ _ _ _ (by simp [Word.push])]
  have hfill : fill 16 ((memWord m assetKeyPtr).push (value.push [idx])) =
      (memWord m assetKeyPtr).push (value.push (idx :: List.replicate 7 0)) := rfl
  obtain ⟨out,m',hlen,hrun⟩ := hK.moveAssetToNote (memWord m assetKeyPtr) value idx
    (List.replicate 7 0) (fun _ => 0) av am h n rfl hn hempty
  rw [hfill,hrun]
  cases P.moveAsset h idx.val ⟨memWord m assetKeyPtr,value⟩ with
  | none => rfl
  | some h' =>
    simp only [Option.map_some,Option.bind_some,hlen,le_refl,if_true,block_cons,dropw,
      fill_of_le _ _ hlen.ge,List.drop_drop,List.drop_of_length_le hlen.le,block_nil]
    exact ⟨_,rfl,rfl,rfl,rfl⟩

end Sections

theorem memHolds_cells (m : ℕ → Felt) (i : ℕ) (a : Asset) :
    memHolds m i a.cells ↔ memWord m i = a.key ∧ memWord m (i + 4) = a.value := by
  obtain ⟨⟨k0,k1,k2,k3⟩,⟨v0,v1,v2,v3⟩⟩ := a
  simp only [Asset.cells,Word.toList,List.cons_append,List.nil_append,memHolds_cons,memHolds_nil,
    memWord,Word.mk.injEq,and_true,add_assoc,Nat.reduceAdd]
  tauto

theorem Protocol.create_eq_some {P : Protocol} {h h' : Host} {r : Recipient}
    (hc : P.create h r = some h') :
    h.outputNotes.length < P.maxOutputNotes ∧
      h' = h.createNote ⟨P.recipientDigest r,some r,0,notePublic,[]⟩ := by
  rw [Protocol.create] at hc
  split at hc
  · rename_i hcan
    exact ⟨hcan.1,(Option.some.inj hc).symm⟩
  · cases hc

section Paths
variable {P : Protocol} {K : Kernel} (hK : K.Documented P) (m : ℕ → Felt)
  (av : List Felt) (am : Word → Option (List Felt)) (h : Host)
include hK

/-- A section that creates a note, one that lays the asset value on the stack, and the transfer. -/
theorem send_realises (create load : List (Proc Host)) (r : Recipient) (value : Word)
    (hcreate : Realises (block create ⟨[],m,av,am,h⟩) (P.create h r) fun t =>
      t.stack = [(h.outputNotes.length : Felt)] ∧ t.mem = m)
    (hload : ∀ av am (h' : Host), block load ⟨[(h.outputNotes.length : Felt)],m,av,am,h'⟩ =
      some ⟨value.push [(h.outputNotes.length : Felt)],m,av,am,h'⟩) :
    Realises (block (create ++ load ++ moveAsset K) ⟨[],m,av,am,h⟩)
      (P.send h r ⟨memWord m assetKeyPtr,value⟩) fun t => t.stack = [] ∧ t.mem = m := by
  rw [List.append_assoc,block_append,Protocol.send]
  apply hcreate.with_effect.bind
  rintro ⟨st,m',av',am',h'⟩ ⟨⟨hst,hm⟩,heff⟩
  obtain ⟨hlen,hh'⟩ := Protocol.create_eq_some heff
  change st = _ at hst
  change m' = m at hm
  change h' = _ at hh'
  subst hst hm
  have hidx : (h.outputNotes.length : Felt).val = h.outputNotes.length :=
    ZMod.val_natCast_of_lt (hlen.trans P.maxOutputNotes_lt)
  rw [block_append,hload,Option.bind_some]
  have hnote : h'.outputNotes[(h.outputNotes.length : Felt).val]? =
      some ⟨P.recipientDigest r,some r,0,notePublic,[]⟩ := by
    rw [hidx,hh',Host.createNote]
    simp
  have hmove := moveAsset_realises hK m' av' am' h' value _ _ hnote rfl
  rw [hidx] at hmove
  exact hmove

theorem payMerchant_realises :
    Realises (block (payMerchant K) ⟨[],m,av,am,h⟩)
      (P.sendP2id h (m merchantSuffixPtr) (m merchantPrefixPtr)
        ⟨memWord m assetKeyPtr,fungibleValue (m cumulativeAmount)⟩) fun t =>
      t.stack = [] ∧ t.mem = m := by
  apply send_realises hK
  · exact createP2id_realises hK [] m av am h _ _
  · intro av am h'
    rfl

theorem payUser_realises :
    Realises (block (payUser K) ⟨[],m,av,am,h⟩)
      (P.sendP2id h (m userSuffixPtr) (m userPrefixPtr)
        ⟨memWord m assetKeyPtr,memWord m assetValuePtr⟩) fun t =>
      t.stack = [] ∧ t.mem = m := by
  apply send_realises hK
  · exact createP2id_realises hK [] m av am h _ _
  · intro av am h'
    exact run_loadWord _ _ _ _ _ _ (by decide) (by decide)

theorem keepRemainder_realises (storage : List Felt)
    (hst : (List.range 9).map (fun i => m (storagePtr + i)) = storage) :
    Realises (block (keepRemainder K) ⟨[],m,av,am,h⟩)
      (P.sendRemainder h storage ⟨memWord m assetKeyPtr,
        fungibleValue (m assetValuePtr - m cumulativeAmount)⟩) fun t =>
      t.stack = [] ∧ t.mem = m := by
  apply send_realises hK
  · exact createRemainder_realises hK [] m av am h storage hst
  · intro av am h'
    simp only [block_cons,run_push,Option.bind_some]
    rw [run_memLoadTop _ _ _ _ _ _ (by decide),Option.bind_some]
    simp only [block_cons,run_memLoad,run_sub,run_push,run_movup_three,Option.bind_some]
    rfl

/-- With one asset in the note, receiving it leaves its key and value where they are looked up and
keeps the cumulative amount and the storage items. -/
theorem receiveAssets_one_realises (key value : Word)
    (hassets : h.activeNote.assets = [⟨key,value⟩]) :
    Realises (block (receiveAssets K) ⟨[],m,av,am,h⟩) (P.receive h) fun t =>
      t.stack = [] ∧ memWord t.mem assetKeyPtr = key ∧ memWord t.mem assetValuePtr = value ∧
      t.mem cumulativeAmount = m cumulativeAmount ∧
      ∀ i, t.mem (storagePtr + i) = m (storagePtr + i) := by
  apply (receiveAssets_realises hK [] m av am h).mono
  rintro t ⟨hst,-,hcells,hframe⟩
  rw [hassets] at hcells hframe
  have hc := (memHolds_cells t.mem assetKeyPtr ⟨key,value⟩).mp (by simpa using hcells)
  refine ⟨hst,hc.1,hc.2,hframe _ (Or.inl (by decide)),?_⟩
  intro i
  apply hframe
  right
  simp only [assetKeyPtr,storagePtr,List.length_cons,List.length_nil]
  omega

theorem settle_realises (key : Word) (amount : Felt) (storage : List Felt)
    (hassets : h.activeNote.assets = [⟨key,fungibleValue amount⟩])
    (hst : (List.range 9).map (fun i => m (storagePtr + i)) = storage) :
    Realises (block (receiveAssets K ++ payMerchant K ++ keepRemainder K) ⟨[],m,av,am,h⟩)
      (P.settleEffect key amount (m cumulativeAmount) (m merchantSuffixPtr) (m merchantPrefixPtr)
        storage h) fun t => t.stack = [] := by
  rw [List.append_assoc,block_append,Protocol.settleEffect]
  apply (receiveAssets_one_realises hK m av am h key _ hassets).bind
  rintro ⟨st,m',av',am',h'⟩ ⟨rfl,hkey,hvalue,hc,hcells⟩
  have hsuffix : m' merchantSuffixPtr = m merchantSuffixPtr := hcells 4
  have hfront : m' merchantPrefixPtr = m merchantPrefixPtr := hcells 5
  have hamount : m' assetValuePtr = amount := congrArg Word.e0 hvalue
  have hst' : (List.range 9).map (fun i => m' (storagePtr + i)) = storage := by
    rw [← hst]
    exact List.map_congr_left fun i _ => hcells i
  change memWord m' assetKeyPtr = key at hkey
  change m' cumulativeAmount = _ at hc
  rw [block_append]
  have hpay := payMerchant_realises hK m' av' am' h'
  rw [hkey,hc,hsuffix,hfront] at hpay
  apply hpay.bind
  rintro ⟨st,m'',av'',am'',h''⟩ ⟨rfl,hm⟩
  change m'' = m' at hm
  subst hm
  have hkeep := keepRemainder_realises hK m'' av'' am'' h'' storage hst'
  rw [hkey,hc,hamount] at hkeep
  exact hkeep.mono fun t ht => ht.1

theorem refund_realises (key : Word) (amount : Felt)
    (hassets : h.activeNote.assets = [⟨key,fungibleValue amount⟩]) :
    Realises (block (receiveAssets K ++ payUser K) ⟨[],m,av,am,h⟩)
      (P.reclaimEffect key amount (m userSuffixPtr) (m userPrefixPtr) h) fun t => t.stack = [] := by
  rw [block_append,Protocol.reclaimEffect]
  apply (receiveAssets_one_realises hK m av am h key _ hassets).bind
  rintro ⟨st,m',av',am',h'⟩ ⟨rfl,hkey,hvalue,-,hcells⟩
  have hsuffix : m' userSuffixPtr = m userSuffixPtr := hcells 6
  have hfront : m' userPrefixPtr = m userPrefixPtr := hcells 7
  change memWord m' assetKeyPtr = key at hkey
  change memWord m' assetValuePtr = _ at hvalue
  have hpay := payUser_realises hK m' av' am' h'
  rw [hkey,hvalue,hsuffix,hfront] at hpay
  exact hpay.mono fun t ht => ht.1

end Paths

/-- What the executor of a transaction chooses, and the state of the consuming account. -/
structure TxInputs where
  noteArgs : Word
  advStack : List Felt
  advMap : Word → Option (List Felt)
  blockNumber : UInt32
  hasBasicWallet : Bool
  vault : Word → Word
  outputNotes : List OutputNote

def TxInputs.host (x : TxInputs) (n : Note) : Host :=
  ⟨n,x.blockNumber,x.hasBasicWallet,x.vault,x.outputNotes⟩

/-- The note script starts with the note arguments on the stack and a memory of its own. -/
def startState (n : Note) (x : TxInputs) : State Host :=
  ⟨x.noteArgs.push [],fun _ => 0,x.advStack,x.advMap,x.host n⟩

def execute (K : Kernel) (n : Note) (x : TxInputs) : Option Host :=
  (main K (startState n x)).map State.host

/-- The terms written into the storage of a note. -/
structure Terms where
  userPk : Word
  merchant : AccountId
  user : AccountId
  reclaimBlock : Felt

def Terms.storage (t : Terms) : List Felt := storageItems t.userPk t.merchant t.user t.reclaimBlock

def AgentDebitNoteStorage.terms (s : AgentDebitNoteStorage) : Terms :=
  ⟨s.userPubkeyCommitment,s.merchantAccountId,s.userAccountId,Felt.new s.reclaimBlockHeight⟩

/-- The message a debit of `c` from the note must be signed for. -/
def debitMessageOf (P : Protocol) (t : Terms) (n : Note) (c : Felt) : Word :=
  P.merge n.recipient.serialNum (debitWord t.merchant c)

section Main
variable {P : Protocol} {K : Kernel} (hK : K.Documented P)
include hK

/-- After the storage is loaded the nine items stand at their addresses. -/
theorem run_loadStorage (t : Terms) (n : Note) (x : TxInputs)
    (hst : n.recipient.storage = t.storage) : ∃ m,
    block (loadStorage K) (startState n x) = some ⟨[],m,x.advStack,x.advMap,x.host n⟩ ∧
    memWord m userPkPtr = t.userPk ∧ m merchantSuffixPtr = t.merchant.suffixFelt ∧
    m merchantPrefixPtr = t.merchant.prefixFelt ∧ m userSuffixPtr = t.user.suffixFelt ∧
    m userPrefixPtr = t.user.prefixFelt ∧ m reclaimBlockPtr = t.reclaimBlock ∧
    m cumulativeAmount = x.noteArgs.e0 ∧
    (List.range 9).map (fun i => m (storagePtr + i)) = t.storage := by
  obtain ⟨m,hrun,hcells,hframe⟩ := hK.getStorage (storagePtr : Felt) []
    (Function.update (fun _ => 0) cumulativeAmount x.noteArgs.e0) x.advStack x.advMap (x.host n)
    (by decide)
  refine ⟨m,?_,?_⟩
  · simp only [loadStorage,startState,Word.push,block_cons,run_memStore,run_drop,run_push,
      Option.bind_some]
    rw [hrun]
    rfl
  · have hptr : (storagePtr : Felt).val = 100 := rfl
    have hstore : (x.host n).activeNote.recipient.storage = t.storage := hst
    rw [hptr,hstore] at hcells hframe
    simp only [Terms.storage,storageItems,memHolds_cons,memHolds_nil,and_true,
      Nat.reduceAdd] at hcells
    obtain ⟨h0,h1,h2,h3,h4,h5,h6,h7,h8⟩ := hcells
    have hc := hframe cumulativeAmount (Or.inl (by decide))
    rw [Function.update_self] at hc
    refine ⟨?_,h4,h5,h6,h7,h8,hc,?_⟩
    · simp only [memWord,userPkPtr,h0,h1,h2,h3]
    · simp [List.range_succ,storagePtr,Terms.storage,storageItems,h0,h1,h2,h3,h4,h5,h6,h7,h8]

theorem truncateStack_map_host (run : Option (State Host)) :
    (run.bind (block [K.truncateStack])).map State.host = run.map State.host := by
  cases run with
  | none => rfl
  | some s =>
    obtain ⟨st,m,av,am,h⟩ := s
    rw [Option.bind_some,block_cons,hK.truncateStack]
    rfl

theorem consumePath_host (m : ℕ → Felt) (av : List Felt) (am : Word → Option (List Felt)) (h : Host)
    (key : Word) (amount : Felt) (storage : List Felt)
    (hassets : h.activeNote.assets = [⟨key,fungibleValue amount⟩])
    (hst : (List.range 9).map (fun i => m (storagePtr + i)) = storage) :
    let msg := P.merge h.activeNote.recipient.serialNum
      ⟨m merchantSuffixPtr,m merchantPrefixPtr,m cumulativeAmount,0⟩
    (consumePath K ⟨[],m,av,am,h⟩).map State.host =
      (P.falconVerify (memWord m userPkPtr) msg
        (Protocol.sigSource am (P.merge (memWord m userPkPtr) msg) av)).bind fun _ =>
        P.settleEffect key amount (m cumulativeAmount) (m merchantSuffixPtr) (m merchantPrefixPtr)
          storage h := by
  intro msg
  have hsplit : consumePath K = block (consumeMessage K ++ (consumeSigKey K ++ (consumeVerify K ++
      (receiveAssets K ++ payMerchant K ++ keepRemainder K)))) := by
    simp only [consumePath,List.append_assoc]
  rw [hsplit,block_append,run_consumeMessage hK,Option.bind_some,block_append,
    run_consumeSigKey hK,Option.bind_some,block_append,run_consumeVerify hK]
  cases P.falconVerify (memWord m userPkPtr) msg
    (Protocol.sigSource am (P.merge (memWord m userPkPtr) msg) av) with
  | none => simp only [Option.map_none,Option.bind_none]
  | some av' =>
    rw [Option.map_some,Option.bind_some,Option.bind_some]
    exact (settle_realises hK m av' am h key amount storage hassets hst).map_host

theorem reclaimPath_host (m : ℕ → Felt) (av : List Felt) (am : Word → Option (List Felt)) (h : Host)
    (key : Word) (amount : Felt) (hassets : h.activeNote.assets = [⟨key,fungibleValue amount⟩]) :
    (reclaimPath K ⟨[],m,av,am,h⟩).map State.host =
      (P.falconVerify (memWord m userPkPtr) (P.merge h.activeNote.recipient.serialNum
        ⟨m userSuffixPtr,m userPrefixPtr,0,0⟩) av).bind fun _ =>
        P.reclaimEffect key amount (m userSuffixPtr) (m userPrefixPtr) h := by
  rw [reclaimPath,List.append_assoc,block_append,run_reclaimVerify hK]
  cases P.falconVerify (memWord m userPkPtr) (P.merge h.activeNote.recipient.serialNum
    ⟨m userSuffixPtr,m userPrefixPtr,0,0⟩) av with
  | none => simp only [Option.map_none,Option.bind_none]
  | some av' =>
    rw [Option.map_some,Option.bind_some,Option.bind_some]
    exact (refund_realises hK m av' am h key amount hassets).map_host

/-- The whole script on a note with one fungible asset: before the reclaim height it settles the
amount in the note arguments under a debit signature, from then on it refunds under a reclaim
signature. -/
theorem execute_eq (t : Terms) (n : Note) (x : TxInputs) (key : Word) (amount : Felt)
    (hst : n.recipient.storage = t.storage) (hassets : n.assets = [⟨key,fungibleValue amount⟩]) :
    execute K n x =
      if x.blockNumber.toNat < t.reclaimBlock.val then
        (P.falconVerify t.userPk (debitMessageOf P t n x.noteArgs.e0)
          (Protocol.sigSource x.advMap (P.merge t.userPk (debitMessageOf P t n x.noteArgs.e0))
            x.advStack)).bind fun _ =>
          P.settleEffect key amount x.noteArgs.e0 t.merchant.suffixFelt t.merchant.prefixFelt
            t.storage (x.host n)
      else
        (P.falconVerify t.userPk (reclaimMessage P n.recipient.serialNum t.user)
          x.advStack).bind fun _ =>
          P.reclaimEffect key amount t.user.suffixFelt t.user.prefixFelt (x.host n) := by
  obtain ⟨m,hload,hpk,hms,hmp,hus,hup,hr,hc,hcells⟩ := run_loadStorage hK t n x hst
  have hblock : ((x.host n).blockNumber.toNat : Felt).val = x.blockNumber.toNat := by
    apply ZMod.val_natCast_of_lt
    exact (UInt32.toNat_lt x.blockNumber).trans (by decide)
  rw [execute,main,block_append,hload,Option.bind_some]
  simp only [block_cons,hK.getBlockNumber,run_memLoad,run_swap_one,run_gt,Option.bind_some,hblock,hr]
  split
  · rw [run_ifTrue_one,truncateStack_map_host hK,
      consumePath_host hK m _ _ _ key amount t.storage hassets hcells,hpk,hms,hmp,hc]
    rfl
  · rw [run_ifTrue_zero,truncateStack_map_host hK,
      reclaimPath_host hK m _ _ _ key amount hassets,hpk,hus,hup]
    rfl

end Main

end MidenX402.AgentDebitNote
