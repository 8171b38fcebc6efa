import MidenX402.AgentDebitNote.Chain

/-!
# Where the assets of a note go

The wallet takes in all assets of the consumed note, but the script moves out only what it finds at
the two addresses of the first one, and everything it creates is public.  The results here are about
notes with any list of assets; the memory after the assets are written is whatever it is, since from
twelve assets on they reach into the storage items.
-/

namespace MidenX402.AgentDebitNote
open Masm

/-- A settlement of `c` out of `B` next to `V` of the same asset: it succeeds only for `c ≤ B`, the
created notes carry `c` and `B - c`, and the vault is as it was. -/
theorem consume_within_balance {P : Protocol} {K : Kernel} (hK : K.Documented P) {t : Terms}
    {key : Word} {B V : Felt} {n : Note} (hn : IsDebitNote P t key B n) {x : TxInputs} {h : Host}
    (hV : x.vault key = fungibleValue V) (hr : routesToConsume n x) (hx : execute K n x = some h) :
    let c := x.noteArgs.e0
    c.val ≤ B.val ∧ (B - c).val = B.val - c.val ∧
    (created x h).map OutputNote.assets =
      [[⟨key,fungibleValue c⟩],[⟨key,fungibleValue (B - c)⟩]] ∧
    h.vault key = fungibleValue V ∧ ∀ k, k ≠ key → h.vault k = x.vault k := by
  intro c
  obtain ⟨-,hle,hvault,hcreated⟩ := execute_consume hK hn hr hx
  refine ⟨hle,ZMod.val_sub hle,?_,?_,?_⟩
  · rw [hcreated]
    rfl
  · rw [hvault,Protocol.passedThrough,Function.update_self,hV]
    rfl
  · intro k hk
    rw [hvault,Protocol.passedThrough,Function.update_of_ne hk]

/-- The sample note settled by an account that already holds 5000 of the asset. -/
def fundedInputs (c : Felt) : TxInputs :=
  { sampleInputs c 50 with vault := Function.update (fun _ => Word.zero) sampleKey (fungibleValue 5000) }

theorem consume_within_balance_sample : ∃ h,
    execute sampleKernel sampleNote (fundedInputs 300) = some h ∧
    h.vault sampleKey = fungibleValue 5000 := by
  have hx := execute_consume_of sampleKernel_documented sampleNote_isDebitNote
    (x := fundedInputs 300) [] (by decide) (by decide) rfl (by decide) (by decide) (by decide)
  have hbalance := consume_within_balance sampleKernel_documented sampleNote_isDebitNote (V := 5000)
    (x := fundedInputs 300) (by decide) (by decide) hx
  exact ⟨_,hx,hbalance.2.2.2.1⟩

section Creation
variable (P : Protocol)

/-- An asset that can be built: a fungible one is a word with an amount, and a non-fungible one is
never the empty word. -/
def Protocol.wellFormedAsset (a : Asset) : Prop :=
  if P.isFungible a.key then a.value = fungibleValue a.value.e0 else a.value ≠ Word.zero

instance (a : Asset) : Decidable (P.wellFormedAsset a) :=
  inferInstanceAs (Decidable
    (if P.isFungible a.key then a.value = fungibleValue a.value.e0 else a.value ≠ Word.zero))

/-- What `NoteAssets::new` requires: not too many assets, and no two under one vault key. -/
structure Protocol.AcceptsAssets (maxAssets : ℕ) (assets : List Asset) : Prop where
  count : assets.length ≤ maxAssets
  distinct : (assets.map Asset.key).Nodup
  wellFormed : ∀ a ∈ assets, P.wellFormedAsset a

theorem Protocol.acceptsAssets_iff (maxAssets : ℕ) (assets : List Asset) :
    (assets.length ≤ maxAssets ∧ (assets.map Asset.key).Nodup ∧ ∀ a ∈ assets, P.wellFormedAsset a) ↔
      P.AcceptsAssets maxAssets assets :=
  ⟨fun h => ⟨h.1,h.2.1,h.2.2⟩,fun h => ⟨h.count,h.distinct,h.wellFormed⟩⟩

instance (maxAssets : ℕ) (assets : List Asset) : Decidable (P.AcceptsAssets maxAssets assets) :=
  decidable_of_iff _ (P.acceptsAssets_iff maxAssets assets)

/-- `note::create`, with the serial number its generator draws. -/
def Note.create (maxAssets : ℕ) (serialNum noteScript : Word) (storage : AgentDebitNoteStorage)
    (assets : List Asset) (noteType : Felt) : Option Note :=
  if P.AcceptsAssets maxAssets assets then
    some ⟨⟨serialNum,noteScript,storage.toNoteStorage⟩,assets,noteType⟩
  else none

end Creation

theorem Note.create_eq_some {P : Protocol} {maxAssets : ℕ} {serialNum noteScript : Word}
    {storage : AgentDebitNoteStorage} {assets : List Asset} {noteType : Felt} {n : Note}
    (h : Note.create P maxAssets serialNum noteScript storage assets noteType = some n) :
    P.AcceptsAssets maxAssets assets ∧
      n = ⟨⟨serialNum,noteScript,storage.toNoteStorage⟩,assets,noteType⟩ := by
  rw [Note.create] at h
  split at h
  · rename_i haccepts
    exact ⟨haccepts,(Option.some.inj h).symm⟩
  · cases h

section Runs
variable {P : Protocol} {K : Kernel} (hK : K.Documented P) (m : ℕ → Felt)
  (av : List Felt) (am : Word → Option (List Felt)) (h : Host)

/-- The cumulative amount survives the reception of the assets, and the first asset is found at its
two addresses. -/
structure Received (h : Host) (m m' : ℕ → Felt) : Prop where
  amount : m' cumulativeAmount = m cumulativeAmount
  first : ∀ a rest, h.activeNote.assets = a :: rest →
    memWord m' assetKeyPtr = a.key ∧ memWord m' assetValuePtr = a.value

include hK

theorem receiveAssets_first_realises :
    Realises (block (receiveAssets K) ⟨[],m,av,am,h⟩) (P.receive h) fun t =>
      t.stack = [] ∧ Received h m t.mem := by
  apply (receiveAssets_realises hK [] m av am h).mono
  rintro t ⟨hst,-,hcells,hframe⟩
  refine ⟨hst,hframe _ (Or.inl (by decide)),?_⟩
  intro a rest hassets
  rw [hassets,List.flatMap_cons] at hcells
  exact (memHolds_cells t.mem assetKeyPtr a).mp hcells.of_append

theorem settle_of_run {t : State Host}
    (hrun : block (receiveAssets K ++ payMerchant K ++ keepRemainder K) ⟨[],m,av,am,h⟩ = some t) :
    ∃ m', Received h m m' ∧
      P.settleEffect (memWord m' assetKeyPtr) (m' assetValuePtr) (m cumulativeAmount)
        (m' merchantSuffixPtr) (m' merchantPrefixPtr)
        ((List.range 9).map fun i => m' (storagePtr + i)) h = some t.host := by
  rw [List.append_assoc,block_append] at hrun
  obtain ⟨⟨st,m',av',am',h'⟩,hreceive,hrun⟩ := Option.bind_eq_some_iff.mp hrun
  rw [block_append] at hrun
  obtain ⟨⟨st',m'',av'',am'',h''⟩,hpay,hkeep⟩ := Option.bind_eq_some_iff.mp hrun
  obtain ⟨hin,hst,hreceived⟩ := (receiveAssets_first_realises hK m av am h).of_run hreceive
  change st = [] at hst
  subst hst
  obtain ⟨hout,hst',hm⟩ := (payMerchant_realises hK m' av' am' h').of_run hpay
  change st' = [] at hst'
  change m'' = m' at hm
  subst hst' hm
  obtain ⟨hlast,-⟩ := (keepRemainder_realises hK m'' av'' am'' h'' _ rfl).of_run hkeep
  refine ⟨m'',hreceived,?_⟩
  have hc : m'' cumulativeAmount = m cumulativeAmount := hreceived.amount
  rw [hc] at hout hlast
  rw [Protocol.settleEffect,hin,Option.bind_some,hout,Option.bind_some,hlast]

theorem refund_of_run {t : State Host}
    (hrun : block (receiveAssets K ++ payUser K) ⟨[],m,av,am,h⟩ = some t) :
    ∃ m', Received h m m' ∧ ((P.receive h).bind fun h' =>
      P.sendP2id h' (m' userSuffixPtr) (m' userPrefixPtr)
        ⟨memWord m' assetKeyPtr,memWord m' assetValuePtr⟩) = some t.host := by
  rw [block_append] at hrun
  obtain ⟨⟨st,m',av',am',h'⟩,hreceive,hpay⟩ := Option.bind_eq_some_iff.mp hrun
  obtain ⟨hin,hst,hreceived⟩ := (receiveAssets_first_realises hK m av am h).of_run hreceive
  change st = [] at hst
  subst hst
  obtain ⟨hout,-⟩ := (payUser_realises hK m' av' am' h').of_run hpay
  refine ⟨m',hreceived,?_⟩
  rw [hin,Option.bind_some,hout]

theorem consumePath_settles {t : State Host} (hrun : consumePath K ⟨[],m,av,am,h⟩ = some t) :
    ∃ m', Received h m m' ∧
      P.settleEffect (memWord m' assetKeyPtr) (m' assetValuePtr) (m cumulativeAmount)
        (m' merchantSuffixPtr) (m' merchantPrefixPtr)
        ((List.range 9).map fun i => m' (storagePtr + i)) h = some t.host := by
  have hsplit : consumePath K = block (consumeMessage K ++ (consumeSigKey K ++ (consumeVerify K ++
      (receiveAssets K ++ payMerchant K ++ keepRemainder K)))) := by
    simp only [consumePath,List.append_assoc]
  rw [hsplit,block_append,run_consumeMessage hK,Option.bind_some,block_append,
    run_consumeSigKey hK,Option.bind_some,block_append,run_consumeVerify hK] at hrun
  obtain ⟨s,hverify,hrun⟩ := Option.bind_eq_some_iff.mp hrun
  obtain ⟨av',-,rfl⟩ := Option.map_eq_some_iff.mp hverify
  exact settle_of_run hK m av' am h hrun

theorem reclaimPath_refunds {t : State Host} (hrun : reclaimPath K ⟨[],m,av,am,h⟩ = some t) :
    ∃ m', Received h m m' ∧ ((P.receive h).bind fun h' =>
      P.sendP2id h' (m' userSuffixPtr) (m' userPrefixPtr)
        ⟨memWord m' assetKeyPtr,memWord m' assetValuePtr⟩) = some t.host := by
  rw [reclaimPath,List.append_assoc,block_append,run_reclaimVerify hK] at hrun
  obtain ⟨s,hverify,hrun⟩ := Option.bind_eq_some_iff.mp hrun
  obtain ⟨av',-,rfl⟩ := Option.map_eq_some_iff.mp hverify
  exact refund_of_run hK m av' am h hrun

omit hK in
/-- Nine storage items are the terms of some note. -/
theorem exists_terms {storage : List Felt} (hlen : storage.length = 9) :
    ∃ t : Terms, storage = t.storage := by
  match storage, hlen with
  | [a,b,c,d,e,f,g,i,j], _ => exact ⟨⟨⟨a,b,c,d⟩,⟨f,e⟩,⟨i,g⟩,j⟩,rfl⟩

/-- One successful execution of the script on any note with nine storage items, by either path. -/
theorem execute_assets {n : Note} {x : TxInputs} {h : Host} (hlen : n.recipient.storage.length = 9)
    (hx : execute K n x = some h) : ∃ m,
    (∀ a rest, n.assets = a :: rest →
      memWord m assetKeyPtr = a.key ∧ memWord m assetValuePtr = a.value) ∧
    (routesToConsume n x → P.settleEffect (memWord m assetKeyPtr) (m assetValuePtr) x.noteArgs.e0
      (m merchantSuffixPtr) (m merchantPrefixPtr) ((List.range 9).map fun i => m (storagePtr + i))
      (x.host n) = some h) ∧
    (¬routesToConsume n x → ((P.receive (x.host n)).bind fun h' =>
      P.sendP2id h' (m userSuffixPtr) (m userPrefixPtr)
        ⟨memWord m assetKeyPtr,memWord m assetValuePtr⟩) = some h) := by
  obtain ⟨t,hst⟩ := exists_terms hlen
  obtain ⟨m,hload,hpk,hms,hmp,hus,hup,hr,hc,hcells⟩ := run_loadStorage hK t n x hst
  have hblock : ((x.host n).blockNumber.toNat : Felt).val = x.blockNumber.toNat := by
    apply ZMod.val_natCast_of_lt
    exact (UInt32.toNat_lt x.blockNumber).trans (by decide)
  have hroute : routesToConsume n x ↔ x.blockNumber.toNat < t.reclaimBlock.val := by
    rw [routesToConsume,hst]
    rfl
  rw [execute,main,block_append,hload,Option.bind_some] at hx
  simp only [block_cons,hK.getBlockNumber,run_memLoad,run_swap_one,run_gt,Option.bind_some,hblock,
    hr] at hx
  by_cases hlt : x.blockNumber.toNat < t.reclaimBlock.val
  · rw [if_pos hlt,run_ifTrue_one,truncateStack_map_host hK] at hx
    obtain ⟨s,hrun,rfl⟩ := Option.map_eq_some_iff.mp hx
    obtain ⟨m',hm',heff⟩ := consumePath_settles hK _ _ _ _ hrun
    rw [hc] at heff
    exact ⟨m',hm'.first,fun _ => heff,fun hno => absurd (hroute.mpr hlt) hno⟩
  · rw [if_neg hlt,run_ifTrue_zero,truncateStack_map_host hK] at hx
    obtain ⟨s,hrun,rfl⟩ := Option.map_eq_some_iff.mp hx
    obtain ⟨m',hm',heff⟩ := reclaimPath_refunds hK _ _ _ _ hrun
    exact ⟨m',hm'.first,fun hyes => absurd (hroute.mp hyes) hlt,fun _ => heff⟩

end Runs

namespace Protocol
variable {P : Protocol}

theorem send_eq_some {h h' : Host} {r : Recipient} {a : Asset} (hs : P.send h r a = some h') :
    ∃ vault, P.vaultRemove h.vault a = some vault ∧
      h' = { h with vault := vault, outputNotes := h.outputNotes ++ [P.publicNote r a] } := by
  rw [send_eq] at hs
  split at hs
  · obtain ⟨vault,hv,rfl⟩ := Option.map_eq_some_iff.mp hs
    exact ⟨vault,hv,rfl⟩
  · cases hs

theorem receive_eq_some {h h' : Host} (hr : P.receive h = some h') :
    ∃ vault, P.vaultAddAll h.vault h.activeNote.assets = some vault ∧
      h' = { h with vault := vault } := by
  rw [receive] at hr
  split at hr
  · obtain ⟨vault,hv,rfl⟩ := Option.map_eq_some_iff.mp hr
    exact ⟨vault,hv,rfl⟩
  · cases hr

theorem settleEffect_eq_some {h h' : Host} {key : Word} {amount c suffix pre : Felt}
    {storage : List Felt} (hs : P.settleEffect key amount c suffix pre storage h = some h') :
    ∃ v v' v'' r r', P.vaultAddAll h.vault h.activeNote.assets = some v ∧
      P.vaultRemove v ⟨key,fungibleValue c⟩ = some v' ∧
      P.vaultRemove v' ⟨key,fungibleValue (amount - c)⟩ = some v'' ∧ r'.storage = storage ∧
      h' = { h with
        vault := v''
        outputNotes := h.outputNotes ++ [P.publicNote r ⟨key,fungibleValue c⟩,
          P.publicNote r' ⟨key,fungibleValue (amount - c)⟩] } := by
  obtain ⟨h₁,hreceive,hs⟩ := Option.bind_eq_some_iff.mp hs
  obtain ⟨h₂,hpay,hkeep⟩ := Option.bind_eq_some_iff.mp hs
  obtain ⟨v,hv,rfl⟩ := receive_eq_some hreceive
  obtain ⟨v',hv',rfl⟩ := send_eq_some hpay
  obtain ⟨v'',hv'',rfl⟩ := send_eq_some hkeep
  exact ⟨v,v',v'',_,⟨_,_,storage⟩,hv,hv',hv'',rfl,by rw [List.append_assoc]; rfl⟩

end Protocol

section Privacy
variable {P : Protocol} {K : Kernel} (hK : K.Documented P)
include hK

/-- Whatever a note holds, a settlement creates two public notes; the second has nine storage items
again. -/
theorem consume_creates_public {n : Note} {x : TxInputs} {h : Host}
    (hlen : n.recipient.storage.length = 9) (hr : routesToConsume n x) (hx : execute K n x = some h) :
    ∃ p2id r a, created x h = [p2id,P.publicNote r a] ∧ r.storage.length = 9 := by
  obtain ⟨m,-,hsettle,-⟩ := execute_assets hK hlen hx
  obtain ⟨-,-,-,_,r,-,-,-,hstorage,rfl⟩ := Protocol.settleEffect_eq_some (hsettle hr)
  refine ⟨_,r,_,List.drop_left,?_⟩
  rw [hstorage,List.length_map,List.length_range]

theorem DebitRun.public_remainders {start n : Note} {es : List Execution}
    (hlen : start.recipient.storage.length = 9) (hrun : DebitRun K start es n) :
    n.recipient.storage.length = 9 ∧
    ∀ e ∈ es, ∃ p2id r a, e.created = [p2id,P.publicNote r a] := by
  induction hrun with
  | start => exact ⟨hlen,by simp⟩
  | debit _ hr hx ho hnext ih =>
    obtain ⟨p2id,r,a,hcreated,hr9⟩ := consume_creates_public hK ih.1 hr hx
    constructor
    · rw [hcreated] at ho
      cases ho
      cases hnext
      exact hr9
    · intro e he
      rcases List.mem_append.mp he with hmem | hmem
      · exact ih.2 e hmem
      · rw [List.mem_singleton.mp hmem]
        exact ⟨p2id,r,a,hcreated⟩

/-- However a private note was funded, every remainder along a chain of its settlements is public;
the chain stays private only while nothing is settled. -/
theorem remainders_private_iff {maxAssets : ℕ} {serialNum noteScript : Word}
    {storage : AgentDebitNoteStorage} {assets : List Asset} {start n : Note} {es : List Execution}
    (hcreate : Note.create P maxAssets serialNum noteScript storage assets notePrivate = some start)
    (hrun : DebitRun K start es n) :
    (∀ e ∈ es, ∃ o, e.created.getLast? = some o ∧ o.noteType = notePublic) ∧
    ((∀ e ∈ es, ∀ o, e.created.getLast? = some o → o.noteType = notePrivate) ↔ es = []) := by
  obtain ⟨-,rfl⟩ := Note.create_eq_some hcreate
  have hpublic : ∀ e ∈ es, ∃ o, e.created.getLast? = some o ∧ o.noteType = notePublic := by
    intro e he
    obtain ⟨p2id,r,a,hcreated⟩ := (hrun.public_remainders hK rfl).2 e he
    exact ⟨P.publicNote r a,by rw [hcreated]; rfl,rfl⟩
  refine ⟨hpublic,?_,?_⟩
  · intro hprivate
    cases es with
    | nil => rfl
    | cons e es =>
      obtain ⟨o,ho,htype⟩ := hpublic e List.mem_cons_self
      have hcontra := hprivate e List.mem_cons_self o ho
      rw [htype] at hcontra
      exact absurd hcontra (by decide)
  · rintro rfl e he
    cases he

end Privacy

theorem sampleNote_created : Note.create sampleProtocol 64 (.ofNats 1 2 3 4) (.ofNats 5 5 5 5)
    sampleStorage [⟨sampleKey,fungibleValue (Felt.new 1000)⟩] notePrivate = some sampleNote := by
  decide

theorem sampleNote_debited : ∃ n es, DebitRun sampleKernel sampleNote es n ∧ ∃ e ∈ es,
    e.created.getLast? =
      some (sampleProtocol.remainderNote sampleNote.recipient sampleKey (1000 - 300)) := by
  have hrun : DebitRun sampleKernel sampleNote [_] _ :=
    DebitRun.start.debit (x := sampleInputs 300 50) (by decide) sampleSettles rfl rfl
  exact ⟨_,_,hrun,_,List.mem_singleton_self _,rfl⟩

theorem remainders_private_iff_sample : ∃ n es, DebitRun sampleKernel sampleNote es n ∧
    ∀ e ∈ es, ∃ o, e.created.getLast? = some o ∧ o.noteType = notePublic := by
  obtain ⟨n,es,hrun,-⟩ := sampleNote_debited
  exact ⟨n,es,hrun,(remainders_private_iff sampleKernel_documented sampleNote_created hrun).1⟩

/-- One settlement of the private sample note publishes its remainder. -/
theorem remainder_published : ∃ n es, DebitRun sampleKernel sampleNote es n ∧
    sampleNote.noteType = notePrivate ∧
    ¬∀ e ∈ es, ∀ o, e.created.getLast? = some o → o.noteType = notePrivate := by
  obtain ⟨n,es,hrun,e,he,ho⟩ := sampleNote_debited
  refine ⟨n,es,hrun,rfl,?_⟩
  intro hprivate
  have htype : notePublic = notePrivate := hprivate e he _ ho
  exact absurd htype (by decide)

namespace Protocol
variable (P : Protocol)

/-- What adding a value under a key does to the value held there. -/
def Added (key held value held' : Word) : Prop :=
  if P.isFungible key then
    held.e0.val + value.e0.val ≤ P.maxAmount ∧ held' = fungibleValue (held.e0 + value.e0)
  else held = Word.zero ∧ held' = value

/-- The values under the keys of fungible assets are words with an amount. -/
def WellFormedVault (vault : Word → Word) : Prop :=
  ∀ key, P.isFungible key = true → vault key = fungibleValue (vault key).e0

variable {P}

theorem vaultAdd_eq_some {v v' : Word → Word} {a : Asset} (h : P.vaultAdd v a = some v') :
    P.Added a.key (v a.key) a.value (v' a.key) ∧ ∀ k, k ≠ a.key → v' k = v k := by
  simp only [vaultAdd] at h
  rw [Added]
  split_ifs at h with hf hroom hfree
  · obtain rfl := (Option.some.inj h).symm
    rw [if_pos hf,Function.update_self]
    exact ⟨⟨hroom,rfl⟩,fun k hk => Function.update_of_ne hk _ _⟩
  · obtain rfl := (Option.some.inj h).symm
    rw [if_neg hf,Function.update_self]
    exact ⟨⟨hfree,rfl⟩,fun k hk => Function.update_of_ne hk _ _⟩

/-- Assets under distinct keys are added independently of each other. -/
theorem vaultAddAll_eq_some {v v' : Word → Word} {assets : List Asset}
    (hdistinct : (assets.map Asset.key).Nodup) (h : P.vaultAddAll v assets = some v') :
    (∀ a ∈ assets, P.Added a.key (v a.key) a.value (v' a.key)) ∧
      ∀ k, k ∉ assets.map Asset.key → v' k = v k := by
  induction assets generalizing v with
  | nil =>
    obtain rfl := (Option.some.inj h).symm
    simp
  | cons a assets ih =>
    rw [vaultAddAll,List.foldlM_cons] at h
    obtain ⟨v₁,hadd,hrest⟩ := Option.bind_eq_some_iff.mp h
    rw [List.map_cons,List.nodup_cons] at hdistinct
    obtain ⟨hin,hout⟩ := ih hdistinct.2 hrest
    obtain ⟨hself,hother⟩ := vaultAdd_eq_some hadd
    constructor
    · intro b hb
      rcases List.mem_cons.mp hb with rfl | hb
      · rw [hout _ hdistinct.1]
        exact hself
      · have hne : b.key ≠ a.key := by
          intro he
          exact hdistinct.1 (he ▸ List.mem_map_of_mem hb)
        rw [← hother _ hne]
        exact hin b hb
    · intro k hk
      rw [List.map_cons,List.mem_cons,not_or] at hk
      rw [hout k hk.2,hother k hk.1]

theorem vaultRemove_outside {v v' : Word → Word} {a : Asset} (h : P.vaultRemove v a = some v')
    {k : Word} (hk : k ≠ a.key) : v' k = v k := by
  simp only [vaultRemove] at h
  split_ifs at h
  all_goals
    obtain rfl := (Option.some.inj h).symm
    exact Function.update_of_ne hk _ _

theorem vaultRemove_nonFungible {v v' : Word → Word} {a : Asset} (hf : ¬P.isFungible a.key = true)
    (h : P.vaultRemove v a = some v') : v a.key = a.value ∧ a.value ≠ Word.zero ∧
      v' a.key = Word.zero := by
  simp only [vaultRemove,if_neg hf] at h
  split_ifs at h with hheld
  obtain rfl := (Option.some.inj h).symm
  exact ⟨hheld.1,hheld.1 ▸ hheld.2,Function.update_self ..⟩

/-- An asset leaves the value under its key alone exactly if it is a fungible asset of amount zero. -/
theorem Added.unchanged_iff {held held' : Word} {a : Asset} (ha : P.wellFormedAsset a)
    (hheld : P.isFungible a.key = true → held = fungibleValue held.e0)
    (h : P.Added a.key held a.value held') :
    held' = held ↔ P.isFungible a.key = true ∧ a.value = Word.zero := by
  rw [wellFormedAsset] at ha
  rw [Added] at h
  by_cases hf : P.isFungible a.key = true
  · rw [if_pos hf] at ha h
    rw [h.2,hheld hf,ha]
    simp [fungibleValue,Word.zero,hf]
  · rw [if_neg hf] at ha h
    rw [h.2,h.1]
    exact ⟨fun he => absurd he ha,fun he => absurd he.1 hf⟩

theorem vaultRemove_fungible_eq_some {v v' : Word → Word} {key : Word} {c : Felt}
    (hf : P.isFungible key = true) (h : P.vaultRemove v ⟨key,fungibleValue c⟩ = some v') :
    c.val ≤ (v key).e0.val ∧ v' key = fungibleValue ((v key).e0 - c) := by
  rw [vaultRemove_fungible P _ _ _ hf] at h
  split_ifs at h with hc
  obtain rfl := (Option.some.inj h).symm
  exact ⟨hc,Function.update_self ..⟩

/-- Both withdrawals of a settlement succeed only for a fungible asset that covers the amount, and
then leave the key as it was before the asset came in. -/
theorem Added.settled {v₀ v v' v'' : Word → Word} {a : Asset} {c : Felt}
    (hvault : P.WellFormedVault v₀) (h : P.Added a.key (v₀ a.key) a.value (v a.key))
    (hpay : P.vaultRemove v ⟨a.key,fungibleValue c⟩ = some v')
    (hkeep : P.vaultRemove v' ⟨a.key,fungibleValue (a.value.e0 - c)⟩ = some v'') :
    P.isFungible a.key = true ∧ c.val ≤ a.value.e0.val ∧ v'' a.key = v₀ a.key := by
  by_cases hf : P.isFungible a.key = true
  · rw [Added,if_pos hf] at h
    obtain ⟨hroom,hv⟩ := h
    obtain ⟨hc,hv'⟩ := vaultRemove_fungible_eq_some hf hpay
    obtain ⟨hrest,hv''⟩ := vaultRemove_fungible_eq_some hf hkeep
    rw [hv] at hc hv'
    rw [hv'] at hrest hv''
    refine ⟨hf,(both_covered_iff (hroom.trans_lt P.maxAmount_lt)).mp ⟨hc,hrest⟩,?_⟩
    rw [hv'',hvault _ hf]
    congr 1
    simp only [fungibleValue]
    ring
  · -- the first withdrawal took the whole asset, so there is nothing left for the second
    have hempty := (vaultRemove_nonFungible (a := ⟨a.key,fungibleValue c⟩) hf hpay).2.2
    have hheld := vaultRemove_nonFungible (a := ⟨a.key,fungibleValue (a.value.e0 - c)⟩) hf hkeep
    exact absurd (hheld.1.symm.trans hempty) hheld.2.1

theorem Added.refunded {v₀ v v' : Word → Word} {a : Asset} (ha : P.wellFormedAsset a)
    (hvault : P.WellFormedVault v₀) (h : P.Added a.key (v₀ a.key) a.value (v a.key))
    (hpay : P.vaultRemove v a = some v') : v' a.key = v₀ a.key := by
  by_cases hf : P.isFungible a.key = true
  · rw [Added,if_pos hf] at h
    rw [wellFormedAsset,if_pos hf] at ha
    obtain ⟨key,value⟩ := a
    change value = fungibleValue value.e0 at ha
    rw [ha] at hpay
    rw [(vaultRemove_fungible_eq_some hf hpay).2,h.2,hvault _ hf]
    congr 1
    simp only [fungibleValue]
    ring
  · rw [Added,if_neg hf] at h
    rw [(vaultRemove_nonFungible hf hpay).2.2,h.1]

end Protocol

/-- The total of a fungible asset in a list of assets. -/
def fungibleTotal (assets : List Asset) (key : Word) : ℕ :=
  ((assets.filter fun a => a.key = key).map fun a => a.value.e0.val).sum

def valuesUnder (assets : List Asset) (key : Word) : List Word :=
  (assets.filter fun a => a.key = key).map Asset.value

/-- The same total of every fungible asset and the same non-fungible assets. -/
def Protocol.SameAssets (P : Protocol) (assets assets' : List Asset) : Prop :=
  ∀ key, if P.isFungible key then fungibleTotal assets key = fungibleTotal assets' key
    else (valuesUnder assets key).Perm (valuesUnder assets' key)

/-- The cells `get_assets` writes for so many assets, and the storage items. -/
def assetCells (count : ℕ) : Set ℕ := { i | assetKeyPtr ≤ i ∧ i < assetKeyPtr + 8 * count }

def storageCells : Set ℕ := { i | storagePtr ≤ i ∧ i < storagePtr + 9 }

theorem assetCells_apart_iff (count : ℕ) :
    (∀ i ∈ assetCells count, i ∉ storageCells) ↔ count ≤ 11 := by
  simp only [assetCells,storageCells,assetKeyPtr,storagePtr,Set.mem_ofPred_eq]
  constructor
  · intro hapart
    by_contra hmany
    exact hapart 100 (by omega) (by omega)
  · intro hfew i hi
    omega

/-- An execution passes all assets of the note on and writes nothing over the storage items. -/
structure PassesOn (P : Protocol) (n : Note) (x : TxInputs) (h : Host) : Prop where
  vault : h.vault = x.vault
  carried : P.SameAssets ((created x h).flatMap OutputNote.assets) n.assets
  apart : ∀ i ∈ assetCells n.assets.length, i ∉ storageCells

/-- A fungible asset of amount zero. -/
def Protocol.isEmptyAsset (P : Protocol) (a : Asset) : Prop :=
  P.isFungible a.key = true ∧ a.value = Word.zero

section Leaving
variable {P : Protocol} {K : Kernel}

theorem fungibleTotal_cons (a : Asset) (assets : List Asset) (key : Word) :
    fungibleTotal (a :: assets) key =
      (if a.key = key then a.value.e0.val else 0) + fungibleTotal assets key := by
  by_cases hk : a.key = key
  · simp [fungibleTotal,hk]
  · simp [fungibleTotal,hk]

theorem valuesUnder_cons_of_ne {a : Asset} {key : Word} (hk : a.key ≠ key) (assets : List Asset) :
    valuesUnder (a :: assets) key = valuesUnder assets key := by
  simp [valuesUnder,hk]

theorem fungibleTotal_of_empty {assets : List Asset} (h : ∀ a ∈ assets, P.isEmptyAsset a)
    (key : Word) : fungibleTotal assets key = 0 := by
  induction assets with
  | nil => rfl
  | cons a assets ih =>
    rw [fungibleTotal_cons,ih fun b hb => h b (List.mem_cons_of_mem a hb),
      (h a List.mem_cons_self).2]
    simp [Word.zero]

theorem valuesUnder_of_empty {assets : List Asset} (h : ∀ a ∈ assets, P.isEmptyAsset a)
    {key : Word} (hf : ¬P.isFungible key = true) : valuesUnder assets key = [] := by
  induction assets with
  | nil => rfl
  | cons a assets ih =>
    have hk : a.key ≠ key := by
      rintro rfl
      exact hf (h a List.mem_cons_self).1
    rw [valuesUnder_cons_of_ne hk,ih fun b hb => h b (List.mem_cons_of_mem a hb)]

/-- Two parts of a fungible asset stand for the whole. -/
theorem sameAssets_split {key : Word} {B c : Felt} (hf : P.isFungible key = true)
    (hc : c.val ≤ B.val) {value : Word} (hB : value.e0 = B) {rest : List Asset}
    (hrest : ∀ b ∈ rest, P.isEmptyAsset b) :
    P.SameAssets [⟨key,fungibleValue c⟩,⟨key,fungibleValue (B - c)⟩] (⟨key,value⟩ :: rest) := by
  intro k
  split
  · simp only [fungibleTotal_cons,fungibleTotal_of_empty hrest,fungibleValue,hB,ZMod.val_sub hc]
    split
    · simp only [fungibleTotal,List.filter_nil,List.map_nil,List.sum_nil]
      omega
    · simp [fungibleTotal]
  · rename_i hnf
    have hk : key ≠ k := by
      rintro rfl
      exact hnf hf
    rw [valuesUnder_cons_of_ne hk,valuesUnder_cons_of_ne hk,valuesUnder_cons_of_ne hk,
      valuesUnder_of_empty hrest hnf]
    exact List.Perm.refl _

theorem sameAssets_first {a : Asset} {rest : List Asset} (hrest : ∀ b ∈ rest, P.isEmptyAsset b) :
    P.SameAssets [a] (a :: rest) := by
  intro k
  split
  · simp only [fungibleTotal_cons,fungibleTotal_of_empty hrest]
    rfl
  · rename_i hnf
    have hnil := valuesUnder_of_empty hrest hnf
    by_cases hk : a.key = k
    · simp only [valuesUnder,List.map_eq_nil_iff] at hnil
      simp [valuesUnder,hk,hnil]
    · rw [valuesUnder_cons_of_ne hk,valuesUnder_cons_of_ne hk,hnil]
      exact List.Perm.refl _

/-- What an execution leaves in the vault: nothing of the first asset, all of the others. -/
structure MovesFirst (P : Protocol) (x : TxInputs) (h : Host) (a : Asset) (rest : List Asset) :
    Prop where
  first : h.vault a.key = x.vault a.key
  others : ∀ b ∈ rest, P.Added b.key (x.vault b.key) b.value (h.vault b.key)
  outside : ∀ k, k ∉ (a :: rest).map Asset.key → h.vault k = x.vault k
  carried : (∀ b ∈ rest, P.isEmptyAsset b) →
    P.SameAssets ((created x h).flatMap OutputNote.assets) (a :: rest)

/-- Only the key of the first asset is touched after all assets came in. -/
theorem others_of_first {v₀ v v' : Word → Word} {a : Asset} {rest : List Asset}
    (hdistinct : ((a :: rest).map Asset.key).Nodup)
    (hadd : P.vaultAddAll v₀ (a :: rest) = some v) (hframe : ∀ k, k ≠ a.key → v' k = v k) :
    (∀ b ∈ rest, P.Added b.key (v₀ b.key) b.value (v' b.key)) ∧
      ∀ k, k ∉ (a :: rest).map Asset.key → v' k = v₀ k := by
  obtain ⟨hin,hout⟩ := Protocol.vaultAddAll_eq_some hdistinct hadd
  rw [List.map_cons,List.nodup_cons] at hdistinct
  constructor
  · intro b hb
    have hne : b.key ≠ a.key := by
      intro he
      exact hdistinct.1 (he ▸ List.mem_map_of_mem hb)
    rw [hframe _ hne]
    exact hin b (List.mem_cons_of_mem a hb)
  · intro k hk
    have hne : k ≠ a.key := by
      rintro rfl
      exact hk List.mem_cons_self
    rw [hframe k hne,hout k hk]

theorem execute_movesFirst (hK : K.Documented P) {n : Note} {a : Asset} {rest : List Asset}
    {x : TxInputs} {h : Host} (hlen : n.recipient.storage.length = 9) (hn : n.assets = a :: rest)
    (hdistinct : ((a :: rest).map Asset.key).Nodup) (ha : P.wellFormedAsset a)
    (hvault : P.WellFormedVault x.vault) (hx : execute K n x = some h) :
    MovesFirst P x h a rest := by
  have hassets : (x.host n).activeNote.assets = a :: rest := hn
  obtain ⟨m,hfirst,hsettle,hrefund⟩ := execute_assets hK hlen hx
  obtain ⟨hkey,hvalue⟩ := hfirst a rest hn
  have hamount : m assetValuePtr = a.value.e0 := congrArg Word.e0 hvalue
  by_cases hr : routesToConsume n x
  · have heff := hsettle hr
    rw [hkey,hamount] at heff
    obtain ⟨v,v',v'',_,_,hadd,hpay,hkeep,-,rfl⟩ := Protocol.settleEffect_eq_some heff
    rw [hassets] at hadd
    have hin := (Protocol.vaultAddAll_eq_some hdistinct hadd).1 a List.mem_cons_self
    obtain ⟨hf,hc,hback⟩ := hin.settled hvault hpay hkeep
    have hframe : ∀ k, k ≠ a.key → v'' k = v k := fun k hk =>
      (Protocol.vaultRemove_outside hkeep hk).trans (Protocol.vaultRemove_outside hpay hk)
    obtain ⟨hothers,hout⟩ := others_of_first hdistinct hadd hframe
    refine ⟨hback,hothers,hout,?_⟩
    intro hempty
    change P.SameAssets ((List.drop x.outputNotes.length (x.outputNotes ++ _)).flatMap _) _
    rw [List.drop_left]
    exact sameAssets_split hf hc rfl hempty
  · have heff := hrefund hr
    rw [hkey,hvalue] at heff
    obtain ⟨h₁,hreceive,hsend⟩ := Option.bind_eq_some_iff.mp heff
    obtain ⟨v,hadd,rfl⟩ := Protocol.receive_eq_some hreceive
    obtain ⟨v',hpay,rfl⟩ := Protocol.send_eq_some hsend
    rw [hassets] at hadd
    have hin := (Protocol.vaultAddAll_eq_some hdistinct hadd).1 a List.mem_cons_self
    have hframe : ∀ k, k ≠ a.key → v' k = v k := fun k hk => Protocol.vaultRemove_outside hpay hk
    obtain ⟨hothers,hout⟩ := others_of_first hdistinct hadd hframe
    refine ⟨hin.refunded ha hvault hpay,hothers,hout,?_⟩
    intro hempty
    change P.SameAssets ((List.drop x.outputNotes.length (x.outputNotes ++ _)).flatMap _) _
    rw [List.drop_left]
    exact sameAssets_first hempty

/-- A successful execution passes all assets of the note on exactly if the note has at most eleven
assets and all but the first are fungible assets of amount zero. -/
theorem passesOn_iff (hK : K.Documented P) {maxAssets : ℕ} {serialNum noteScript : Word}
    {storage : AgentDebitNoteStorage} {a : Asset} {rest : List Asset} {noteType : Felt} {n : Note}
    (hcreate : Note.create P maxAssets serialNum noteScript storage (a :: rest) noteType = some n)
    {x : TxInputs} {h : Host} (hvault : P.WellFormedVault x.vault) (hx : execute K n x = some h) :
    PassesOn P n x h ↔ (∀ b ∈ rest, P.isEmptyAsset b) ∧ (a :: rest).length ≤ 11 := by
  obtain ⟨haccepts,rfl⟩ := Note.create_eq_some hcreate
  have hmoves := execute_movesFirst hK rfl rfl haccepts.distinct
    (haccepts.wellFormed a List.mem_cons_self) hvault hx
  have hsame : ∀ b ∈ rest, h.vault b.key = x.vault b.key ↔ P.isEmptyAsset b := by
    intro b hb
    exact (hmoves.others b hb).unchanged_iff (haccepts.wellFormed b (List.mem_cons_of_mem a hb))
      (hvault b.key)
  constructor
  · intro hpass
    refine ⟨?_,(assetCells_apart_iff _).mp hpass.apart⟩
    intro b hb
    rw [← hsame b hb,hpass.vault]
  · rintro ⟨hempty,hfew⟩
    refine ⟨?_,hmoves.carried hempty,(assetCells_apart_iff _).mpr hfew⟩
    funext k
    by_cases hk : k ∈ (a :: rest).map Asset.key
    · rw [List.map_cons,List.mem_cons] at hk
      rcases hk with rfl | hk
      · exact hmoves.first
      · obtain ⟨b,hb,rfl⟩ := List.mem_map.mp hk
        exact (hsame b hb).mpr (hempty b hb)
    · exact hmoves.outside k hk

end Leaving

theorem emptyVault_wellFormed (P : Protocol) : P.WellFormedVault fun _ => Word.zero :=
  fun _ _ => rfl

theorem passesOn_iff_sample : ∃ h, execute sampleKernel sampleNote (sampleInputs 300 50) = some h ∧
    PassesOn sampleProtocol sampleNote (sampleInputs 300 50) h :=
  ⟨_,sampleSettles,(passesOn_iff sampleKernel_documented sampleNote_created
    (emptyVault_wellFormed _) sampleSettles).mpr (by simp)⟩

/-- The sample note with seven units of a second fungible asset. -/
def twoAssetsNote : Note :=
  { sampleNote with
    assets := [⟨sampleKey,fungibleValue (Felt.new 1000)⟩,⟨.ofNats 0 0 5 6,fungibleValue 7⟩] }

/-- Settling a note with two assets leaves the second one with the consumer. -/
theorem second_asset_kept : ∃ h,
    Note.create sampleProtocol 64 (.ofNats 1 2 3 4) (.ofNats 5 5 5 5) sampleStorage
      twoAssetsNote.assets notePrivate = some twoAssetsNote ∧
    sampleProtocol.WellFormedVault (sampleInputs 300 50).vault ∧
    execute sampleKernel twoAssetsNote (sampleInputs 300 50) = some h ∧
    h.vault (.ofNats 0 0 5 6) = fungibleValue 7 ∧
    ¬PassesOn sampleProtocol twoAssetsNote (sampleInputs 300 50) h := by
  have hrun : (execute sampleKernel twoAssetsNote (sampleInputs 300 50)).map
      (fun h => h.vault (.ofNats 0 0 5 6)) = some (fungibleValue 7) := by
    decide +kernel
  obtain ⟨h,hx,hkept⟩ := Option.map_eq_some_iff.mp hrun
  refine ⟨h,by decide,emptyVault_wellFormed _,hx,hkept,?_⟩
  intro hpass
  rw [hpass.vault] at hkept
  exact absurd hkept (by decide)

end MidenX402.AgentDebitNote
