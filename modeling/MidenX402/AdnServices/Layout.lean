import MidenX402.AdnServices.Reference

/-!
# The layout of the note storage

The nine storage items are written in `types.rs`, read by address in the note script and by index in
`handle_verify`.  Key and accounts come back as they were put in.  The reclaim height is a 64-bit
number in a field element, and from the order of the field on it comes back reduced.
-/

namespace MidenX402.AdnServices
open Masm AgentDebitNote

structure VerifyRequest where
  noteFileHex : String
  merchantIdHex : String

structure VerifyResponse where
  isValid : Bool
  noteBalance : UInt64
  userPubKeyHex : String
  reclaimBlockHeight : UInt64
  error : Option String
deriving DecidableEq

section Verify
variable (P : Protocol) {F E : Falcon} (C : Codec F E)

/-- `u64::to_le_bytes`. -/
def leBytes (x : UInt64) : List UInt8 := (List.range 8).map fun i => UInt8.ofNat (x.toNat / 256 ^ i)

def keyBytes (items : List Felt) : List UInt8 := items.flatMap fun f => leBytes f.asCanonicalU64

def handleVerify (req : VerifyRequest) : VerifyResponse :=
  match decodeNoteFile C req.noteFileHex with
  | .error e => ⟨false,0,"",0,some e⟩
  | .ok note =>
    let items := note.recipient.storage
    let userPkHex := if 4 ≤ items.length then "0x" ++ C.hexEncode (keyBytes (items.take 4)) else ""
    let reclaim := if 9 ≤ items.length then (items.getD 8 0).asCanonicalU64 else 0
    ⟨true,noteBalance P note,userPkHex,reclaim,none⟩

end Verify

/-- `main` up to the branch. -/
def routeCode (K : Kernel) : List (Proc Host) :=
  loadStorage K ++ [K.getBlockNumber,memLoad reclaimBlockPtr,swap 1,gt]

theorem main_eq_route (K : Kernel) : main K =
    block (routeCode K ++ [ifTrue (consumePath K) (reclaimPath K),K.truncateStack]) := rfl

section Bytes

/-- `u64::from_le_bytes`. -/
def ofLeBytes (bytes : List UInt8) : ℕ := bytes.foldr (fun b n => b.toNat + 256 * n) 0

/-- The word that 32 bytes spell. -/
def wordOfLeBytes (bytes : List UInt8) : Word :=
  .ofNats (ofLeBytes (bytes.take 8)) (ofLeBytes ((bytes.drop 8).take 8))
    (ofLeBytes ((bytes.drop 16).take 8)) (ofLeBytes ((bytes.drop 24).take 8))

theorem ofLeBytes_cons (b : UInt8) (bytes : List UInt8) :
    ofLeBytes (b :: bytes) = b.toNat + 256 * ofLeBytes bytes := rfl

/-- The lowest `k` bytes of a number. -/
theorem ofLeBytes_digits (n k : ℕ) :
    ofLeBytes ((List.range k).map fun i => UInt8.ofNat (n / 256 ^ i)) = n % 256 ^ k := by
  induction k generalizing n with
  | zero => rw [pow_zero,Nat.mod_one]; rfl
  | succ k ih =>
    have hshift : ∀ i, n / 256 ^ (i + 1) = n / 256 / 256 ^ i := fun i => by
      rw [pow_succ',Nat.div_div_eq_div_mul]
    have hbyte : (UInt8.ofNat n).toNat = n % 256 := UInt8.toNat_ofNat'
    simp only [List.range_succ_eq_map,List.map_cons,List.map_map,Function.comp_def,Nat.succ_eq_add_one,
      pow_zero,Nat.div_one,hshift]
    rw [ofLeBytes_cons,ih,hbyte,pow_succ',Nat.mod_mul]

theorem ofLeBytes_leBytes (x : UInt64) : ofLeBytes (leBytes x) = x.toNat := by
  rw [leBytes,ofLeBytes_digits]
  exact Nat.mod_eq_of_lt x.toNat_lt

theorem length_leBytes (x : UInt64) : (leBytes x).length = 8 := by
  simp [leBytes]

theorem wordOfLeBytes_append {a b c d : List UInt8} (ha : a.length = 8) (hb : b.length = 8)
    (hc : c.length = 8) (hd : d.length = 8) : wordOfLeBytes (a ++ (b ++ (c ++ d))) =
      .ofNats (ofLeBytes a) (ofLeBytes b) (ofLeBytes c) (ofLeBytes d) := by
  have h8 : (a ++ (b ++ (c ++ d))).drop 8 = b ++ (c ++ d) := List.drop_left' ha
  have h16 : (a ++ (b ++ (c ++ d))).drop 16 = c ++ d := by
    rw [show 16 = 8 + 8 from rfl,← List.drop_drop,h8,List.drop_left' hb]
  have h24 : (a ++ (b ++ (c ++ d))).drop 24 = d := by
    rw [show 24 = 16 + 8 from rfl,← List.drop_drop,h16,List.drop_left' hc]
  rw [wordOfLeBytes,h8,h16,h24,List.take_left' ha,List.take_left' hb,List.take_left' hc,
    List.take_of_length_le hd.le]

theorem wordOfLeBytes_keyBytes (w : Word) : wordOfLeBytes (keyBytes w.toList) = w := by
  have hback : ∀ f : Felt, ((ofLeBytes (leBytes f.asCanonicalU64) : ℕ) : Felt) = f := by
    intro f
    rw [ofLeBytes_leBytes,Felt.toNat_asCanonicalU64,ZMod.natCast_zmod_val]
  simp only [keyBytes,Word.toList,List.flatMap_cons,List.flatMap_nil,List.append_nil]
  rw [wordOfLeBytes_append (length_leBytes _) (length_leBytes _) (length_leBytes _)
    (length_leBytes _)]
  simp only [Word.ofNats,hback]

end Bytes

section Terms
variable {P : Protocol} {K : Kernel} {s : AgentDebitNoteStorage} {n : Note}

/-- Before the branch the script has the outcome of its comparison on the stack. -/
theorem run_routeCode (hK : K.Documented P) (hn : n.recipient.storage = s.toNoteStorage)
    (x : TxInputs) : ∃ m, block (routeCode K) (startState n x) =
      some ⟨[if x.blockNumber.toNat < (Felt.new s.reclaimBlockHeight).val then 1 else 0],m,
        x.advStack,x.advMap,x.host n⟩ := by
  obtain ⟨m,hload,-,-,-,-,-,hr,-,-⟩ := run_loadStorage hK s.terms n x hn
  have hblock : ((x.host n).blockNumber.toNat : Felt).val = x.blockNumber.toNat := by
    apply ZMod.val_natCast_of_lt
    exact (UInt32.toNat_lt x.blockNumber).trans (by decide)
  refine ⟨m,?_⟩
  rw [routeCode,block_append,hload,Option.bind_some]
  simp only [block_cons,hK.getBlockNumber,run_memLoad,run_swap_one,run_gt,Option.bind_some,hblock,hr]
  rfl

/-- The script compares with the height that was stored. -/
theorem peek_route_iff {x : TxInputs} {t : State Host} (hK : K.Documented P)
    (hn : n.recipient.storage = s.toNoteStorage)
    (hrun : block (routeCode K) (startState n x) = some t) :
    peek t.stack 0 = 1 ↔ x.blockNumber.toNat < (Felt.new s.reclaimBlockHeight).val := by
  obtain ⟨m,hroute⟩ := run_routeCode hK hn x
  obtain rfl := Option.some.inj (hroute.symm.trans hrun)
  rw [peek_zero]
  split
  · exact ⟨fun _ => by assumption,fun _ => rfl⟩
  · rename_i hnot
    exact ⟨fun h => absurd h Felt.zero_ne_one,fun h => absurd h hnot⟩

/-- A 64-bit number is its own representative below the order of the field and nowhere else. -/
theorem new_val_eq_iff (x : UInt64) : (Felt.new x).val = x.toNat ↔ x.toNat < fieldOrder := by
  constructor
  · intro h
    rw [← h]
    exact Felt.val_lt _
  · exact Felt.val_new

end Terms

section Faithful
variable {P : Protocol} {K : Kernel} {F E : Falcon} {C : Codec F E} {s : AgentDebitNoteStorage}
  {n : Note} {p : C.Proof}

/-- What is read from the note is what the struct states: by the script at its addresses, by the
script's comparison at every block, and by `handle_verify`. -/
structure StorageFaithful (P : Protocol) (K : Kernel) (C : Codec F E) (s : AgentDebitNoteStorage)
    (n : Note) (p : C.Proof) : Prop where
  addresses : ∀ x, ∃ m, block (loadStorage K) (startState n x) =
      some ⟨[],m,x.advStack,x.advMap,x.host n⟩ ∧
    memWord m userPkPtr = s.userPubkeyCommitment ∧
    ⟨m merchantPrefixPtr,m merchantSuffixPtr⟩ = s.merchantAccountId ∧
    ⟨m userPrefixPtr,m userSuffixPtr⟩ = s.userAccountId ∧
    (m reclaimBlockPtr).asCanonicalU64 = s.reclaimBlockHeight
  routes : ∀ x t, block (routeCode K) (startState n x) = some t →
    (peek t.stack 0 = 1 ↔ x.blockNumber.toNat < s.reclaimBlockHeight.toNat)
  verified : ∀ merchantIdHex, ∃ bytes, wordOfLeBytes bytes = s.userPubkeyCommitment ∧
    handleVerify P C ⟨noteFileHex C n p,merchantIdHex⟩ =
      ⟨true,noteBalance P n,"0x" ++ C.hexEncode bytes,s.reclaimBlockHeight,none⟩

/-- Key and accounts come back whatever the height. -/
theorem read_addresses (hK : K.Documented P) (hn : n.recipient.storage = s.toNoteStorage)
    (x : TxInputs) : ∃ m, block (loadStorage K) (startState n x) =
      some ⟨[],m,x.advStack,x.advMap,x.host n⟩ ∧
    memWord m userPkPtr = s.userPubkeyCommitment ∧
    ⟨m merchantPrefixPtr,m merchantSuffixPtr⟩ = s.merchantAccountId ∧
    ⟨m userPrefixPtr,m userSuffixPtr⟩ = s.userAccountId ∧
    m reclaimBlockPtr = Felt.new s.reclaimBlockHeight := by
  obtain ⟨m,hload,hpk,hms,hmp,hus,hup,hr,-,-⟩ := run_loadStorage hK s.terms n x hn
  refine ⟨m,hload,hpk,?_,?_,hr⟩
  · rw [hms,hmp]
    rfl
  · rw [hus,hup]
    rfl

theorem handleVerify_noteFileHex (hC : C.RoundTrips) (hn : n.recipient.storage = s.toNoteStorage)
    (merchantIdHex : String) : handleVerify P C ⟨noteFileHex C n p,merchantIdHex⟩ =
      ⟨true,noteBalance P n,"0x" ++ C.hexEncode (keyBytes s.userPubkeyCommitment.toList),
        (Felt.new s.reclaimBlockHeight).asCanonicalU64,none⟩ := by
  rw [handleVerify,decodeNoteFile_noteFileHex hC]
  simp only [hn]
  rfl

/-- The nine items are faithful to the struct exactly when its reclaim height is below the order of
the field. -/
theorem storage_faithful_iff (hK : K.Documented P) (hC : C.RoundTrips)
    (hn : n.recipient.storage = s.toNoteStorage) :
    StorageFaithful P K C s n p ↔ s.reclaimBlockHeight.toNat < fieldOrder := by
  constructor
  · intro h
    obtain ⟨_,-,hverify⟩ := h.verified ""
    rw [handleVerify_noteFileHex hC hn] at hverify
    have hheight := congrArg (fun r => r.reclaimBlockHeight.toNat) hverify
    rw [← new_val_eq_iff,← Felt.toNat_asCanonicalU64]
    exact hheight
  · intro hlt
    have hval := (new_val_eq_iff s.reclaimBlockHeight).mpr hlt
    have hheight : (Felt.new s.reclaimBlockHeight).asCanonicalU64 = s.reclaimBlockHeight := by
      rw [← UInt64.toNat_inj,Felt.toNat_asCanonicalU64,hval]
    refine ⟨?_,?_,?_⟩
    · intro x
      obtain ⟨m,hload,hpk,hmerchant,huser,hr⟩ := read_addresses hK hn x
      refine ⟨m,hload,hpk,hmerchant,huser,?_⟩
      rw [hr,hheight]
    · intro x t hrun
      rw [peek_route_iff hK hn hrun,hval]
    · intro merchantIdHex
      refine ⟨_,wordOfLeBytes_keyBytes _,?_⟩
      rw [handleVerify_noteFileHex hC hn,hheight]

/-- Routing by itself: from the order of the field on, some block below the height is taken for
expired. -/
theorem routes_iff (hK : K.Documented P) (hn : n.recipient.storage = s.toNoteStorage) :
    (∀ x t, block (routeCode K) (startState n x) = some t →
      (peek t.stack 0 = 1 ↔ x.blockNumber.toNat < s.reclaimBlockHeight.toNat)) ↔
    s.reclaimBlockHeight.toNat < fieldOrder := by
  constructor
  · intro h
    by_contra hge
    have hp : fieldOrder = 2 ^ 64 - 2 ^ 32 + 1 := rfl
    have hheight := s.reclaimBlockHeight.toNat_lt
    have hred : (Felt.new s.reclaimBlockHeight).val = s.reclaimBlockHeight.toNat - fieldOrder := by
      rw [Felt.new,ZMod.val_natCast,Nat.mod_eq_sub_mod (not_lt.mp hge)]
      exact Nat.mod_eq_of_lt (by omega)
    -- the height as stored is itself a block number
    have hblock : (UInt32.ofNat (s.reclaimBlockHeight.toNat - fieldOrder)).toNat =
        s.reclaimBlockHeight.toNat - fieldOrder :=
      UInt32.toNat_ofNat_of_lt' (by rw [UInt32.size]; omega)
    let x : TxInputs := ⟨Word.zero,[],fun _ => none,
      UInt32.ofNat (s.reclaimBlockHeight.toNat - fieldOrder),false,fun _ => Word.zero,[]⟩
    obtain ⟨m,hrun⟩ := run_routeCode hK hn x
    have hroute := (h x _ hrun).symm.trans (peek_route_iff hK hn hrun)
    rw [hred,show x.blockNumber.toNat = _ from hblock] at hroute
    omega
  · intro hlt x t hrun
    rw [peek_route_iff hK hn hrun,(new_val_eq_iff s.reclaimBlockHeight).mpr hlt]

end Faithful

def storageUntil (height : UInt64) : AgentDebitNoteStorage :=
  { sampleStorage with reclaimBlockHeight := height }

def noteUntil (height : UInt64) : Note :=
  { sampleNote with recipient :=
      ⟨.ofNats 1 2 3 4,.ofNats 5 5 5 5,(storageUntil height).toNoteStorage⟩ }

theorem storage_faithful_sample : StorageFaithful sampleProtocol sampleKernel sampleCodec
    (storageUntil 100) (noteUntil 100) sampleProof :=
  (storage_faithful_iff sampleKernel_documented sampleCodec_roundTrips rfl).mpr (by decide)

/-- `2^64 - 2^32 + 1`, far in the future. -/
def farHeight : UInt64 := 18446744069414584321

/-- A note with a reclaim height far in the future takes the reclaim path in block 50, and is reported
to be reclaimable from block 0 on. -/
theorem storage_height_lost :
    (∃ t, block (routeCode sampleKernel) (startState (noteUntil farHeight) (sampleInputs 300 50)) =
      some t ∧ peek t.stack 0 = 0) ∧
    VerifyResponse.reclaimBlockHeight (handleVerify sampleProtocol sampleCodec
      ⟨noteFileHex sampleCodec (noteUntil farHeight) sampleProof,"0x7b"⟩) = 0 ∧
    ¬ StorageFaithful sampleProtocol sampleKernel sampleCodec (storageUntil farHeight)
      (noteUntil farHeight) sampleProof := by
  have hzero : (Felt.new (storageUntil farHeight).reclaimBlockHeight).asCanonicalU64 = 0 := by decide
  have hverify := handleVerify_noteFileHex (P := sampleProtocol) (n := noteUntil farHeight)
    (p := sampleProof) sampleCodec_roundTrips rfl "0x7b"
  rw [hzero] at hverify
  refine ⟨?_,by rw [hverify],?_⟩
  · obtain ⟨m,hrun⟩ := run_routeCode sampleKernel_documented (n := noteUntil farHeight) rfl
      (sampleInputs 300 50)
    refine ⟨_,hrun,?_⟩
    rw [peek_zero]
    exact if_neg (by decide)
  · intro h
    obtain ⟨_,-,hread⟩ := h.verified "0x7b"
    rw [hverify] at hread
    have hheight : (0 : UInt64) = farHeight := congrArg VerifyResponse.reclaimBlockHeight hread
    exact absurd hheight (by decide)

end MidenX402.AdnServices
