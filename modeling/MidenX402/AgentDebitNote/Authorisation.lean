import MidenX402.AgentDebitNote.Chain

/-!
# What a signature authorises

A successful execution has verified one signature under the key in the note's storage.  Which message
that was, and which accounts the created notes pay, is decided by the block height and the storage
alone.  Which signatures pass for which messages is settled afterwards, for all pairs of a signed and
a presented authorisation.
-/

namespace MidenX402.AgentDebitNote
open Masm

/-- The verifier returns only on a valid signature, which it takes from the advice stack. -/
def Protocol.VerifySound (P : Protocol) (Valid : Word → Word → List Felt → Prop) : Prop :=
  ∀ pk msg av rest, P.falconVerify pk msg av = some rest → ∃ sig, av = sig ++ rest ∧ Valid pk msg sig

theorem debitMessageOf_eq (P : Protocol) (t : Terms) (n : Note) (c : Felt) :
    debitMessageOf P t n c = debitMessage P n.recipient.serialNum t.merchant c.asCanonicalU64 := by
  rw [debitMessageOf,debitMessage,Felt.new_asCanonicalU64]

/-- Before the reclaim height a successful execution has verified the user's signature on the debit
message for the committed merchant and the first note argument, which it pays to that merchant; from
the reclaim height on it has verified the reclaim message and pays everything to the committed user. -/
theorem execute_authorised {P : Protocol} {K : Kernel} (hK : K.Documented P)
    {Valid : Word → Word → List Felt → Prop} (hsound : P.VerifySound Valid) {t : Terms} {key : Word}
    {amount : Felt} {n : Note} (hn : IsDebitNote P t key amount n) {x : TxInputs} {h : Host}
    (hx : execute K n x = some h) :
    let msg := debitMessage P n.recipient.serialNum t.merchant x.noteArgs.e0.asCanonicalU64
    (x.blockNumber.toNat < t.reclaimBlock.val →
      (∃ sig rest, Protocol.sigSource x.advMap (P.merge t.userPk msg) x.advStack = sig ++ rest ∧
        Valid t.userPk msg sig) ∧
      (created x h).head? = some (P.p2idNote n.recipient.serialNum t.merchant key x.noteArgs.e0)) ∧
    (t.reclaimBlock.val ≤ x.blockNumber.toNat →
      (∃ sig rest, x.advStack = sig ++ rest ∧
        Valid t.userPk (reclaimMessage P n.recipient.serialNum t.user) sig) ∧
      created x h = [P.p2idNote n.recipient.serialNum t.user key amount]) := by
  intro msg
  constructor
  · intro hlt
    obtain ⟨⟨rest,hsig⟩,-,-,hc⟩ :=
      execute_consume hK hn ((hn.routesToConsume_iff x).mpr hlt) hx
    rw [debitMessageOf_eq] at hsig
    obtain ⟨sig,hsrc,hvalid⟩ := hsound _ _ _ _ hsig
    refine ⟨⟨sig,rest,hsrc,hvalid⟩,?_⟩
    rw [hc,List.head?_cons]
  · intro hle
    have hr : ¬routesToConsume n x := by
      rw [hn.routesToConsume_iff]
      omega
    obtain ⟨⟨rest,hsig⟩,-,hc⟩ := execute_reclaim hK hn hr hx
    obtain ⟨sig,hsrc,hvalid⟩ := hsound _ _ _ _ hsig
    exact ⟨⟨sig,rest,hsrc,hvalid⟩,hc⟩

/-- The reference verifier accepts one signature for each key and message. -/
def ReferenceValid (pk msg : Word) (sig : List Felt) : Prop := sig = pk.toList ++ msg.toList

theorem sampleProtocol_verifySound : sampleProtocol.VerifySound ReferenceValid := by
  intro pk msg av rest hv
  change referenceVerify pk msg av = some rest at hv
  rw [referenceVerify] at hv
  split at hv
  · rename_i htake
    refine ⟨av.take 8,?_,htake⟩
    rw [← Option.some.inj hv]
    exact (List.take_append_drop 8 av).symm
  · cases hv

theorem execute_authorised_sample : ∃ h,
    execute sampleKernel sampleNote (sampleInputs 300 50) = some h ∧
    (created (sampleInputs 300 50) h).head? =
      some (sampleProtocol.p2idNote ⟨1,2,3,4⟩ sampleMerchant sampleKey 300) :=
  ⟨_,sampleSettles,((execute_authorised sampleKernel_documented sampleProtocol_verifySound
    sampleNote_isDebitNote sampleSettles).1 (by decide)).2⟩

/-- Something a user can sign for: a debit up to an amount, or a reclaim. -/
inductive Authorisation where
  | debit (noteSerialNum : Word) (merchant : AccountId) (cumulativeAmount : UInt64)
  | reclaim (noteSerialNum : Word) (user : AccountId)

/-- The two words merged into the message. -/
def Authorisation.preimage : Authorisation → Word × Word
  | .debit s m a => (s,debitWord m (Felt.new a))
  | .reclaim s u => (s,reclaimWord u)

section Signatures
variable (P : Protocol) (K : Kernel) (F : Falcon)

def Authorisation.message (a : Authorisation) : Word := P.merge a.preimage.1 a.preimage.2

/-- The signature made for an authorisation: a voucher for a debit. -/
def signatureFor (sk : F.SecretKey) : Authorisation → F.Signature
  | .debit s m a => signVoucher P F sk s m a
  | .reclaim s u => F.sign sk (reclaimMessage P s u)

/-- The reclaim path gets past its signature check on some note with this serial number, user and
key when the prepared signature is on the advice stack. -/
def ReclaimAccepts (pk : F.PublicKey) (s : Word) (u : AccountId) (sig : F.Signature) : Prop :=
  ∃ (n : Note) (t : Terms) (x : TxInputs), n.recipient.serialNum = s ∧
    n.recipient.storage = t.storage ∧ t.userPk = F.toCommitment pk ∧ t.user = u ∧
    (block (loadStorage K ++ reclaimVerify K) (startState n { x with
      advStack := F.toPreparedSignature sig (reclaimMessage P s u) ++ x.advStack })).isSome

/-- A signature presented for an authorisation is accepted, by the merchant's voucher check for a
debit and by the note script for a reclaim. -/
def Accepts (pk : F.PublicKey) : Authorisation → F.Signature → Prop
  | .debit s m a, sig => verifyVoucher P F pk s m a sig = true
  | .reclaim s u, sig => ReclaimAccepts P K F pk s u sig

end Signatures

/-- The two authorisations differ in more than the representative of an amount modulo the field
order, and a zero amount does not stand beside a reclaim by the same account. -/
def Distinguishable : Authorisation → Authorisation → Prop
  | .debit s m a, .debit s' m' a' => s' = s → m' = m → a'.toNat ≡ a.toNat [MOD fieldOrder] → a' = a
  | .debit s m a, .reclaim s' u => s' = s → u = m → ¬fieldOrder ∣ a.toNat
  | .reclaim s u, .debit s' m a => s' = s → m = u → ¬fieldOrder ∣ a.toNat
  | .reclaim _ _, .reclaim _ _ => True

section Acceptance
variable {P : Protocol} {K : Kernel} {F : Falcon}

theorem signatureFor_eq (sk : F.SecretKey) (a : Authorisation) :
    signatureFor P F sk a = F.sign sk (a.message P) := by
  cases a <;> rfl

theorem reclaimAccepts_iff (hK : K.Documented P) (hm : F.MatchesProcedure P) (pk : F.PublicKey)
    (s : Word) (u : AccountId) (sig : F.Signature) :
    ReclaimAccepts P K F pk s u sig ↔ F.verify pk (reclaimMessage P s u) sig = true := by
  have hrun : ∀ (n : Note) (t : Terms) (x : TxInputs), n.recipient.serialNum = s →
      n.recipient.storage = t.storage → t.userPk = F.toCommitment pk → t.user = u →
      ((block (loadStorage K ++ reclaimVerify K) (startState n { x with
        advStack := F.toPreparedSignature sig (reclaimMessage P s u) ++ x.advStack })).isSome ↔
        F.verify pk (reclaimMessage P s u) sig = true) := by
    intro n t x hs hst hpk hu
    obtain ⟨m,hload,hkey,-,-,hsuf,hpre,-⟩ := run_loadStorage hK t n
      { x with advStack := F.toPreparedSignature sig (reclaimMessage P s u) ++ x.advStack } hst
    have hmsg : P.merge n.recipient.serialNum ⟨m userSuffixPtr,m userPrefixPtr,0,0⟩ =
        reclaimMessage P s u := by
      rw [hsuf,hpre,hs,hu]
      rfl
    rw [block_append,hload,Option.bind_some,run_reclaimVerify hK,hkey,hpk]
    change (Option.map _ (P.falconVerify _ (P.merge n.recipient.serialNum _) _)).isSome = true ↔ _
    rw [hmsg,hm]
    split
    · rename_i hv
      simp [hv]
    · rename_i hv
      simp [hv]
  constructor
  · rintro ⟨n,t,x,hs,hst,hpk,hu,hacc⟩
    exact (hrun n t x hs hst hpk hu).mp hacc
  · intro hv
    refine ⟨⟨⟨s,s,(Terms.mk (F.toCommitment pk) u u 0).storage⟩,[],notePublic⟩,
      ⟨F.toCommitment pk,u,u,0⟩,⟨Word.zero,[],fun _ => none,0,true,fun _ => Word.zero,[]⟩,
      rfl,rfl,rfl,rfl,?_⟩
    exact (hrun _ _ _ rfl rfl rfl rfl).mpr hv

theorem accepts_iff_message (hK : K.Documented P) (hs : F.SignsCorrectly) (hb : F.BindsMessage)
    (hm : F.MatchesProcedure P) (sk : F.SecretKey) (signed presented : Authorisation) :
    Accepts P K F (F.publicKey sk) presented (signatureFor P F sk signed) ↔
      presented.message P = signed.message P := by
  have hverify : Accepts P K F (F.publicKey sk) presented (signatureFor P F sk signed) ↔
      F.verify (F.publicKey sk) (presented.message P) (signatureFor P F sk signed) = true := by
    cases presented with
    | debit s m a => exact Iff.rfl
    | reclaim s u => exact reclaimAccepts_iff hK hm _ s u _
  rw [hverify,signatureFor_eq]
  constructor
  · exact hb sk _ _
  · intro he
    rw [he]
    exact hs sk _

theorem Authorisation.debit_preimage_eq_iff (s s' : Word) (m m' : AccountId) (a a' : UInt64) :
    (debit s' m' a').preimage = (debit s m a).preimage ↔
      s' = s ∧ m' = m ∧ a'.toNat ≡ a.toNat [MOD fieldOrder] := by
  rw [← Felt.new_eq_new_iff]
  constructor
  · intro he
    obtain ⟨hs,hw⟩ := Prod.mk.inj he
    exact ⟨hs,debitWord_inj hw⟩
  · rintro ⟨rfl,rfl,ha⟩
    rw [preimage,preimage,ha]

theorem Authorisation.debit_preimage_eq_reclaim_iff (s s' : Word) (m u : AccountId) (a : UInt64) :
    (debit s m a).preimage = (reclaim s' u).preimage ↔ s = s' ∧ m = u ∧ fieldOrder ∣ a.toNat := by
  rw [← Felt.new_eq_zero_iff]
  constructor
  · intro he
    obtain ⟨hs,hw⟩ := Prod.mk.inj he
    rw [reclaimWord_eq_debitWord] at hw
    exact ⟨hs,debitWord_inj hw⟩
  · rintro ⟨rfl,rfl,ha⟩
    rw [preimage,preimage,ha,reclaimWord_eq_debitWord]

theorem Authorisation.reclaim_preimage_inj {s s' : Word} {u u' : AccountId}
    (h : (reclaim s' u').preimage = (reclaim s u).preimage) : reclaim s' u' = reclaim s u := by
  obtain ⟨rfl,hw⟩ := Prod.mk.inj h
  rw [reclaimWord_eq_debitWord,reclaimWord_eq_debitWord] at hw
  rw [(debitWord_inj hw).1]

theorem distinguishable_iff (signed presented : Authorisation) :
    (presented.preimage = signed.preimage → presented = signed) ↔
      Distinguishable signed presented := by
  cases signed with
  | debit s m a =>
    cases presented with
    | debit s' m' a' =>
      rw [Authorisation.debit_preimage_eq_iff,Authorisation.debit.injEq,Distinguishable]
      tauto
    | reclaim s' u =>
      rw [eq_comm,Authorisation.debit_preimage_eq_reclaim_iff,Distinguishable]
      simp only [reduceCtorEq]
      tauto
  | reclaim s u =>
    cases presented with
    | debit s' m a =>
      rw [Authorisation.debit_preimage_eq_reclaim_iff,Distinguishable]
      simp only [reduceCtorEq]
      tauto
    | reclaim s' u' => exact ⟨fun _ => trivial,fun _ => Authorisation.reclaim_preimage_inj⟩

/-- A signature made for one authorisation is accepted for another exactly when the two are not
distinguishable, as long as the hash does not collide on the two preimages. -/
theorem accepts_only_signed_iff (hK : K.Documented P) (hs : F.SignsCorrectly) (hb : F.BindsMessage)
    (hm : F.MatchesProcedure P) (signed presented : Authorisation)
    (hinj : Set.InjOn (fun q : Word × Word => P.merge q.1 q.2)
      {signed.preimage,presented.preimage}) (sk : F.SecretKey) :
    (Accepts P K F (F.publicKey sk) presented (signatureFor P F sk signed) → presented = signed) ↔
      Distinguishable signed presented := by
  have hmsg : presented.message P = signed.message P ↔ presented.preimage = signed.preimage :=
    hinj.eq_iff (Set.mem_insert_of_mem _ rfl) (Set.mem_insert _ _)
  rw [accepts_iff_message hK hs hb hm,hmsg,distinguishable_iff]

end Acceptance

theorem referenceFalcon_matchesSample : referenceFalcon.MatchesProcedure sampleProtocol :=
  referenceFalcon_matchesProcedure sampleMerge

/-- The sample hash does not collide on the messages of one chain. -/
theorem sampleMerge_injOn : Set.InjOn (fun q : Word × Word => sampleProtocol.merge q.1 q.2)
    {q | (∃ k : ℕ, q.1 = serialAfter ⟨1,2,3,4⟩ k) ∧ q.2.e3 = 0} := by
  rintro ⟨_,⟨w0,w1,w2,w3⟩⟩ ⟨⟨i,rfl⟩,hw⟩ ⟨_,⟨v0,v1,v2,v3⟩⟩ ⟨⟨j,rfl⟩,hv⟩ he
  change w3 = 0 at hw
  change v3 = 0 at hv
  change sampleMerge _ _ = sampleMerge _ _ at he
  simp only [sampleMerge,Word.mk.injEq,serialAfter,hw,hv,add_zero] at he
  simp only [serialAfter,hw,hv,he.1,he.2.1,he.2.2.1,he.2.2.2]

/-- A voucher for 5000 is not accepted for 9999. -/
theorem accepts_only_signed_iff_sample :
    ¬Accepts sampleProtocol sampleKernel referenceFalcon (⟨7,8,9,10⟩ : Word)
      (.debit ⟨1,2,3,4⟩ sampleMerchant 9999)
      (signatureFor sampleProtocol referenceFalcon (⟨7,8,9,10⟩ : Word)
        (.debit ⟨1,2,3,4⟩ sampleMerchant 5000)) := by
  have hinj : Set.InjOn (fun q : Word × Word => sampleProtocol.merge q.1 q.2)
      {Authorisation.preimage (.debit ⟨1,2,3,4⟩ sampleMerchant 5000),
        Authorisation.preimage (.debit ⟨1,2,3,4⟩ sampleMerchant 9999)} := by
    apply sampleMerge_injOn.mono
    rintro q (rfl | rfl) <;> exact ⟨⟨0,rfl⟩,rfl⟩
  intro hacc
  have honly := (accepts_only_signed_iff sampleKernel_documented referenceFalcon_signsCorrectly
    referenceFalcon_bindsMessage referenceFalcon_matchesSample _ _ hinj (⟨7,8,9,10⟩ : Word)).mpr
      (fun _ _ ha => absurd ha (by decide)) hacc
  simp at honly

/-- With a hash that does not collide on any of the messages involved: a voucher for 5 is accepted
for 5 plus the field order, a voucher for nothing passes the reclaim check, and a reclaim signature
is accepted as a voucher for nothing. -/
theorem voucher_accepted_beyond_signed :
    let P := sampleProtocol
    let F := referenceFalcon
    let sk : Word := ⟨7,8,9,10⟩
    let s : Word := ⟨1,2,3,4⟩
    sampleKernel.Documented P ∧ F.SignsCorrectly ∧ F.BindsMessage ∧ F.MatchesProcedure P ∧
    Set.InjOn (fun q : Word × Word => P.merge q.1 q.2)
      {q | (∃ k : ℕ, q.1 = serialAfter s k) ∧ q.2.e3 = 0} ∧
    verifyVoucher P F sk s sampleMerchant 18446744069414584326
      (signVoucher P F sk s sampleMerchant 5) = true ∧
    ReclaimAccepts P sampleKernel F sk s sampleUser (signVoucher P F sk s sampleUser 0) ∧
    verifyVoucher P F sk s sampleUser 0 (F.sign sk (reclaimMessage P s sampleUser)) = true := by
  intro P F sk s
  have hacc := accepts_iff_message sampleKernel_documented referenceFalcon_signsCorrectly
    referenceFalcon_bindsMessage referenceFalcon_matchesSample sk
  refine ⟨sampleKernel_documented,referenceFalcon_signsCorrectly,referenceFalcon_bindsMessage,
    referenceFalcon_matchesSample,sampleMerge_injOn,?_,?_,?_⟩
  · exact (hacc (.debit s sampleMerchant 5) (.debit s sampleMerchant 18446744069414584326)).mpr
      (by decide)
  · exact (hacc (.debit s sampleUser 0) (.reclaim s sampleUser)).mpr (by decide)
  · exact (hacc (.reclaim s sampleUser) (.debit s sampleUser 0)).mpr (by decide)

end MidenX402.AgentDebitNote
