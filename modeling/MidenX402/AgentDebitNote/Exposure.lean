import MidenX402.AgentDebitNote.Authorisation

/-!
# What a signer of vouchers is exposed to

Any party may execute the script on the unspent note of a chain, in any order and with any inputs.
Each note is spent once, so whatever the strategy, the executions form a chain of settlements that
is open or was closed by one reclaim, and each settlement redeems a voucher made for its note.
-/

namespace MidenX402.AgentDebitNote
open Masm

/-- The notes of a chain that can still be spent, and the executions that went through. -/
structure Ledger where
  unspent : List Note
  executions : List Execution

/-- The created notes that carry the script and the storage of the chain. -/
def chainNotes (start : Note) (os : List OutputNote) : List Note :=
  (os.filterMap OutputNote.toNote).filter fun n =>
    n.recipient.scriptRoot = start.recipient.scriptRoot ∧
      n.recipient.storage = start.recipient.storage

/-- One attempt to execute the script on a note of the chain.  The chain spends a note at most once,
and a failed execution leaves no trace. -/
def Ledger.attempt (K : Kernel) (start : Note) (l : Ledger) (move : Note × TxInputs) : Ledger :=
  if move.1 ∈ l.unspent then
    match execute K move.1 move.2 with
    | some h =>
      ⟨l.unspent.erase move.1 ++ chainNotes start (created move.2 h),
        l.executions ++ [⟨move.1,move.2,created move.2 h⟩]⟩
    | none => l
  else l

theorem Ledger.attempt_cases (K : Kernel) (start : Note) (l : Ledger) (n : Note) (x : TxInputs) :
    l.attempt K start (n,x) = l ∨ ∃ h, n ∈ l.unspent ∧ execute K n x = some h ∧
      l.attempt K start (n,x) = ⟨l.unspent.erase n ++ chainNotes start (created x h),
        l.executions ++ [⟨n,x,created x h⟩]⟩ := by
  rw [Ledger.attempt]
  split
  · rename_i hmem
    cases hrun : execute K n x with
    | none => exact Or.inl rfl
    | some h => exact Or.inr ⟨h,hmem,rfl,rfl⟩
  · exact Or.inl rfl

def attack (K : Kernel) (start : Note) (moves : List (Note × TxInputs)) : Ledger :=
  moves.foldl (Ledger.attempt K start) ⟨[start],[]⟩

def debitsOf (es : List Execution) : List Execution :=
  es.filter fun e => routesToConsume e.note e.inputs

/-- The amount that the P2ID notes among `os` pay to an account. -/
def paidTo (P : Protocol) (target : AccountId) (os : List OutputNote) : ℕ :=
  ((os.filter fun o => o.details.any fun r =>
    r.scriptRoot = P.p2idScriptRoot && r.storage = [target.suffixFelt,target.prefixFelt]).map
      noteAmount).sum

structure Voucher where
  noteSerialNum : Word
  merchantAccountId : AccountId
  cumulativeAmount : UInt64
deriving DecidableEq

def Voucher.message (P : Protocol) (v : Voucher) : Word :=
  voucherMessage P v.noteSerialNum v.merchantAccountId v.cumulativeAmount

/-- The largest amount signed for one serial number and merchant. -/
def largestSigned (signed : List Voucher) (s : Word) (m : AccountId) : ℕ :=
  ((signed.filter fun v => v.noteSerialNum = s ∧ v.merchantAccountId = m).map
    fun v => v.cumulativeAmount.toNat).foldr max 0

theorem le_largestSigned {signed : List Voucher} {v : Voucher} (hv : v ∈ signed) :
    v.cumulativeAmount.toNat ≤ largestSigned signed v.noteSerialNum v.merchantAccountId := by
  apply List.le_max_of_le' 0 _ le_rfl
  rw [List.mem_map]
  exact ⟨v,List.mem_filter.mpr ⟨hv,by simp⟩,rfl⟩

section Payments
variable (P : Protocol) (s key : Word) (c : Felt) (target : AccountId)

theorem paidTo_append (os os' : List OutputNote) :
    paidTo P target (os ++ os') = paidTo P target os + paidTo P target os' := by
  simp [paidTo]

theorem paidTo_settlement (r : Recipient) (t : Terms) (d : Felt) (hr : r.storage = t.storage) :
    paidTo P target [P.p2idNote s target key c,P.remainderNote r key d] = c.val := by
  simp [paidTo,Protocol.p2idNote,Protocol.remainderNote,Protocol.publicNote,
    Protocol.p2idRecipient,hr,Terms.storage,storageItems,noteAmount,fungibleValue]

theorem paidTo_p2idNote_of_ne (other : AccountId) (hne : other ≠ target) :
    paidTo P target [P.p2idNote s other key c] = 0 := by
  have hfelts : other.suffixFelt = target.suffixFelt → other.prefixFelt ≠ target.prefixFelt := by
    intro hs hp
    cases other
    cases target
    exact hne (by simp_all)
  have hother : ¬[other.suffixFelt,other.prefixFelt] = [target.suffixFelt,target.prefixFelt] := by
    simpa using hfelts
  simp [paidTo,Protocol.p2idNote,Protocol.publicNote,Protocol.p2idRecipient,List.filter,hother]

end Payments

/-- The script found a signature for the debit that the execution made. -/
def RedeemsSignature (P : Protocol) (t : Terms) (e : Execution) : Prop :=
  ∃ rest, P.falconVerify t.userPk (debitMessageOf P t e.note e.inputs.noteArgs.e0)
    (Protocol.sigSource e.inputs.advMap
      (P.merge t.userPk (debitMessageOf P t e.note e.inputs.noteArgs.e0)) e.inputs.advStack) =
    some rest

/-- The ledger of a chain: settlements in sequence with their last remainder unspent, or closed by
one reclaim of that remainder. -/
structure LedgerInv (P : Protocol) (t : Terms) (s root key : Word) (total : Felt) (l : Ledger)
    (debits : List Execution) (n : Note) (live : Felt) : Prop where
  chain : ChainInv P t s root key total debits n live
  redeems : ∀ e ∈ debits, RedeemsSignature P t e
  shape : (l.unspent = [n] ∧ l.executions = debits) ∨
    (l.unspent = [] ∧ ∃ x, ¬routesToConsume n x ∧ l.executions = debits ++
      [⟨n,x,[P.p2idNote n.recipient.serialNum t.user key live]⟩])

section Attack
variable {P : Protocol} {K : Kernel} {t : Terms} {s root key : Word} {total : Felt} {start : Note}

theorem chainNotes_p2idNote (hstart : start.recipient = ⟨s,root,t.storage⟩) (serial : Word)
    (target : AccountId) (key : Word) (c : Felt) :
    chainNotes start [P.p2idNote serial target key c] = [] := by
  simp [chainNotes,OutputNote.toNote,Protocol.p2idNote,Protocol.publicNote,Protocol.p2idRecipient,
    hstart,Terms.storage,storageItems]

theorem chainNotes_settlement (hstart : start.recipient = ⟨s,root,t.storage⟩) (serial : Word)
    (target : AccountId) (key : Word) (c d : Felt) {r : Recipient} (hroot : r.scriptRoot = root)
    (hst : r.storage = t.storage) :
    chainNotes start [P.p2idNote serial target key c,P.remainderNote r key d] =
      [⟨⟨remainderSerial r.serialNum,root,t.storage⟩,[⟨key,fungibleValue d⟩],notePublic⟩] := by
  have hcons : ∀ o os, chainNotes start (o :: os) = chainNotes start [o] ++ chainNotes start os := by
    intro o os
    simp only [chainNotes,← List.filter_append,← List.filterMap_append,List.singleton_append]
  rw [hcons,chainNotes_p2idNote hstart,List.nil_append]
  simp [chainNotes,OutputNote.toNote,Protocol.remainderNote,Protocol.publicNote,hstart,hroot,hst]

theorem LedgerInv.attempt (hK : K.Documented P) (hf : P.isFungible key = true)
    (hstart : start.recipient = ⟨s,root,t.storage⟩) {l : Ledger} {debits : List Execution} {n : Note}
    {live : Felt} (hi : LedgerInv P t s root key total l debits n live) (move : Note × TxInputs) :
    ∃ debits' n' live',
      LedgerInv P t s root key total (l.attempt K start move) debits' n' live' := by
  obtain ⟨m,x⟩ := move
  rcases l.attempt_cases K start m x with hsame | ⟨h,hmem,hrun,hnew⟩
  · rw [hsame]
    exact ⟨_,_,_,hi⟩
  rcases hi.shape with ⟨hun,hex⟩ | ⟨hun,-⟩
  swap
  · rw [hun] at hmem
    cases hmem
  obtain rfl : m = n := by simpa [hun] using hmem
  have hn := hi.chain.isDebitNote hf
  rw [hun,hex,List.erase_cons_head,List.nil_append] at hnew
  rw [hnew]
  by_cases hr : routesToConsume m x
  · obtain ⟨hsig,-,-,hcreated⟩ := execute_consume hK hn hr hrun
    have hnotes := chainNotes_settlement (P := P) hstart m.recipient.serialNum t.merchant key
      x.noteArgs.e0 (live - x.noteArgs.e0) (r := m.recipient) (by rw [hi.chain.recipient])
      (by rw [hi.chain.recipient])
    rw [← hcreated] at hnotes
    refine ⟨_,_,_,⟨hi.chain.debit hK hf hr hrun (o := P.remainderNote m.recipient key
      (live - x.noteArgs.e0)) (by rw [hcreated]; rfl) rfl,?_,Or.inl ⟨?_,rfl⟩⟩⟩
    · intro e he
      rcases List.mem_append.mp he with hold | hlast
      · exact hi.redeems e hold
      · rw [List.mem_singleton.mp hlast]
        exact hsig
    · rw [hnotes,hi.chain.recipient]
      rfl
  · obtain ⟨-,-,hcreated⟩ := execute_reclaim hK hn hr hrun
    refine ⟨debits,m,live,⟨hi.chain,hi.redeems,Or.inr ⟨?_,x,hr,?_⟩⟩⟩
    · rw [hcreated,chainNotes_p2idNote hstart]
    · rw [hcreated]

theorem attack_inv (hK : K.Documented P) (hf : P.isFungible key = true)
    (hstart : start.recipient = ⟨s,root,t.storage⟩)
    (hassets : start.assets = [⟨key,fungibleValue total⟩]) (moves : List (Note × TxInputs)) :
    ∃ debits n live, LedgerInv P t s root key total (attack K start moves) debits n live := by
  induction moves using List.reverseRecOn with
  | nil =>
    obtain ⟨live,hi⟩ := DebitRun.inv hK hf hstart hassets (DebitRun.start (K := K))
    exact ⟨[],start,live,⟨hi,by simp,Or.inl ⟨rfl,rfl⟩⟩⟩
  | append_singleton moves move ih =>
    obtain ⟨debits,n,live,hi⟩ := ih
    rw [attack,List.foldl_append]
    exact hi.attempt hK hf hstart move

theorem attack_length (K : Kernel) (start : Note) (moves : List (Note × TxInputs)) :
    (attack K start moves).executions.length ≤ moves.length := by
  induction moves using List.reverseRecOn with
  | nil => exact le_rfl
  | append_singleton moves move ih =>
    rw [attack,List.foldl_append,List.length_append,List.length_singleton]
    change ((attack K start moves).attempt K start move).executions.length ≤ _
    rcases (attack K start moves).attempt_cases K start move.1 move.2 with hsame | ⟨h,-,-,hnew⟩
    · rw [hsame]
      omega
    · rw [hnew,List.length_append,List.length_singleton]
      omega

theorem LedgerInv.debitsOf_eq {l : Ledger} {debits : List Execution} {n : Note} {live : Felt}
    (hi : LedgerInv P t s root key total l debits n live) : debitsOf l.executions = debits := by
  have hall : debitsOf debits = debits := by
    rw [debitsOf,List.filter_eq_self]
    intro e he
    obtain ⟨k,hk⟩ := List.getElem?_of_mem he
    exact decide_eq_true (hi.chain.settlements k e hk).1
  rcases hi.shape with ⟨-,hex⟩ | ⟨-,x,hr,hex⟩
  · rw [hex,hall]
  · rw [hex,debitsOf,List.filter_append]
    change debitsOf debits ++ _ = debits
    rw [hall,List.filter_eq_nil_iff.mpr (by simpa using hr),List.append_nil]

/-- The executions stand on the notes of the chain in their order. -/
theorem LedgerInv.serialNum {l : Ledger} {debits : List Execution} {n : Note} {live : Felt}
    (hi : LedgerInv P t s root key total l debits n live) {k : ℕ} {e : Execution}
    (hk : l.executions[k]? = some e) : e.note.recipient = ⟨serialAfter s k,root,t.storage⟩ := by
  rcases hi.shape with ⟨-,hex⟩ | ⟨-,x,-,hex⟩
  · rw [hex] at hk
    exact (hi.chain.settlements k e hk).2.1
  · rw [hex] at hk
    by_cases hlt : k < debits.length
    · rw [List.getElem?_append_left hlt] at hk
      exact (hi.chain.settlements k e hk).2.1
    · have hlen := (List.getElem?_eq_some_iff.mp hk).1
      simp only [List.length_append,List.length_singleton] at hlen
      obtain rfl : k = debits.length := by omega
      simp only [List.getElem?_concat_length,Option.some.injEq] at hk
      subst hk
      exact hi.chain.recipient

theorem LedgerInv.serials_nodup {l : Ledger} {debits : List Execution} {n : Note} {live : Felt}
    (hi : LedgerInv P t s root key total l debits n live) (hlen : l.executions.length < fieldOrder) :
    (l.executions.map fun e => e.note.recipient.serialNum).Nodup := by
  rw [List.Nodup,List.pairwise_map,List.pairwise_iff_getElem]
  intro i j hilt hjlt hij heq
  rw [hi.serialNum (List.getElem?_eq_getElem hilt),
    hi.serialNum (List.getElem?_eq_getElem hjlt)] at heq
  have hsame := serialAfter_inj (by omega) (by omega) heq
  omega

theorem ChainInv.paidTo_eq {es : List Execution} {n : Note} {live : Felt}
    (hi : ChainInv P t s root key total es n live) :
    paidTo P t.merchant (allCreated es) = (es.map fun e => e.inputs.noteArgs.e0.val).sum := by
  have hone : ∀ e ∈ es, paidTo P t.merchant e.created = e.inputs.noteArgs.e0.val := by
    intro e he
    obtain ⟨k,hk⟩ := List.getElem?_of_mem he
    obtain ⟨-,-,amount,-,hc⟩ := hi.settlements k e hk
    rw [hc]
    exact paidTo_settlement P _ _ _ _ _ t _ rfl
  clear hi
  induction es with
  | nil => rfl
  | cons e es ih =>
    rw [allCreated,List.flatMap_cons,paidTo_append,hone e List.mem_cons_self,List.map_cons,
      List.sum_cons]
    change _ + paidTo P t.merchant (allCreated es) = _
    rw [ih fun e' he' => hone e' (List.mem_cons_of_mem _ he')]

/-- A reclaim pays the user, so only settlements pay a merchant that is someone else. -/
theorem LedgerInv.paidTo_executions {l : Ledger} {debits : List Execution} {n : Note} {live : Felt}
    (hi : LedgerInv P t s root key total l debits n live) (hne : t.user ≠ t.merchant) :
    paidTo P t.merchant (allCreated l.executions) = paidTo P t.merchant (allCreated debits) := by
  rcases hi.shape with ⟨-,hex⟩ | ⟨-,x,-,hex⟩
  · rw [hex]
  · rw [hex,allCreated_append,paidTo_append,paidTo_p2idNote_of_ne P _ _ _ _ _ hne,Nat.add_zero]

/-- The messages that signed vouchers and the debits of a chain are made of. -/
def chainPreimages (signed : List Voucher) (s : Word) (m : AccountId) : Set (Word × Word) :=
  {q | (∃ v ∈ signed, q = (v.noteSerialNum,
      debitWord v.merchantAccountId (Felt.new v.cumulativeAmount))) ∨
    ∃ (k : ℕ) (c : Felt), q = (serialAfter s k,debitWord m c)}

/-- A debit of the `k`-th note redeems a voucher signed for its serial number, the committed
merchant and the amount paid. -/
theorem LedgerInv.voucher {l : Ledger} {debits : List Execution} {n : Note} {live : Felt}
    (hi : LedgerInv P t s root key total l debits n live)
    {Valid : Word → Word → List Felt → Prop} (hsound : P.VerifySound Valid) {signed : List Voucher}
    (hsigned : ∀ msg sig, Valid t.userPk msg sig → ∃ v ∈ signed, v.message P = msg)
    (hinj : Set.InjOn (fun q : Word × Word => P.merge q.1 q.2)
      (chainPreimages signed s t.merchant)) {k : ℕ} {e : Execution} (hk : debits[k]? = some e) :
    ∃ v ∈ signed, v.noteSerialNum = serialAfter s k ∧ v.merchantAccountId = t.merchant ∧
      Felt.new v.cumulativeAmount = e.inputs.noteArgs.e0 := by
  obtain ⟨rest,hrest⟩ := hi.redeems e (List.mem_of_getElem? hk)
  obtain ⟨sig,-,hvalid⟩ := hsound _ _ _ _ hrest
  obtain ⟨v,hv,hmsg⟩ := hsigned _ _ hvalid
  obtain ⟨-,hnote,-⟩ := hi.chain.settlements k e hk
  rw [debitMessageOf,hnote] at hmsg
  have hpre := hinj (Or.inl ⟨v,hv,rfl⟩) (Or.inr ⟨k,e.inputs.noteArgs.e0,rfl⟩) hmsg
  obtain ⟨hserial,hword⟩ := Prod.mk.inj hpre
  obtain ⟨hm,hc⟩ := debitWord_inj hword
  exact ⟨v,hv,hserial,hm,hc⟩

theorem sum_le_largestSigned {signed : List Voucher} {debits : List Execution} {m : AccountId}
    (h : ∀ k e, debits[k]? = some e → ∃ v ∈ signed, v.noteSerialNum = serialAfter s k ∧
      v.merchantAccountId = m ∧ Felt.new v.cumulativeAmount = e.inputs.noteArgs.e0) :
    (debits.map fun e => e.inputs.noteArgs.e0.val).sum ≤
      ∑ k ∈ Finset.range debits.length, largestSigned signed (serialAfter s k) m := by
  induction debits using List.reverseRecOn with
  | nil => exact le_rfl
  | append_singleton debits e ih =>
    have hold := ih fun k e' hk => h k e' (by
      rw [List.getElem?_append_left (List.getElem?_eq_some_iff.mp hk).1]
      exact hk)
    obtain ⟨v,hv,hs,hm,hc⟩ := h debits.length e (by simp)
    have hnew : e.inputs.noteArgs.e0.val ≤ largestSigned signed (serialAfter s debits.length) m := by
      rw [← hc,← hs,← hm]
      exact (Felt.val_new_le _).trans (le_largestSigned hv)
    rw [List.map_append,List.sum_append,List.length_append,List.length_singleton,
      Finset.sum_range_succ]
    simpa using Nat.add_le_add hold hnew

/-- Whatever is attempted on a chain: its notes are executed at most once each; the `k`-th debit is
of the `k`-th note and redeems a voucher signed for its serial number and the committed merchant; the
merchant receives at most the sum of the largest amounts signed for each note; and a note without a
voucher is never debited. -/
theorem attack_exposure (hK : K.Documented P) {Valid : Word → Word → List Felt → Prop}
    (hsound : P.VerifySound Valid) (hf : P.isFungible key = true)
    (hstart : start.recipient = ⟨s,root,t.storage⟩)
    (hassets : start.assets = [⟨key,fungibleValue total⟩]) {signed : List Voucher}
    (hsigned : ∀ msg sig, Valid t.userPk msg sig → ∃ v ∈ signed, v.message P = msg)
    (hinj : Set.InjOn (fun q : Word × Word => P.merge q.1 q.2) (chainPreimages signed s t.merchant))
    (moves : List (Note × TxInputs)) (hlen : moves.length < fieldOrder) :
    let executions := (attack K start moves).executions
    let debits := debitsOf executions
    let bound := ∑ k ∈ Finset.range debits.length, largestSigned signed (serialAfter s k) t.merchant
    (executions.map fun e => e.note.recipient.serialNum).Nodup ∧
    (∀ k e, debits[k]? = some e →
      e.note.recipient = ⟨serialAfter s k,root,t.storage⟩ ∧
      e.created.head? = some (P.p2idNote (serialAfter s k) t.merchant key e.inputs.noteArgs.e0) ∧
      ∃ v ∈ signed, v.noteSerialNum = serialAfter s k ∧ v.merchantAccountId = t.merchant ∧
        Felt.new v.cumulativeAmount = e.inputs.noteArgs.e0) ∧
    paidTo P t.merchant (allCreated debits) ≤ bound ∧
    (t.user ≠ t.merchant → paidTo P t.merchant (allCreated executions) ≤ bound) ∧
    ∀ k, (∀ v ∈ signed, v.noteSerialNum ≠ serialAfter s k) →
      ∀ e ∈ debits, e.note.recipient.serialNum ≠ serialAfter s k := by
  obtain ⟨debits,n,live,hi⟩ := attack_inv (K := K) hK hf hstart hassets moves
  intro executions ds bound
  have hds : ds = debits := hi.debitsOf_eq
  have hvoucher := fun k e => hi.voucher hsound hsigned hinj (k := k) (e := e)
  have hpaid : paidTo P t.merchant (allCreated debits) ≤ bound := by
    change _ ≤ ∑ k ∈ Finset.range ds.length, _
    rw [hi.chain.paidTo_eq,hds]
    exact sum_le_largestSigned hvoucher
  refine ⟨?_,?_,?_,?_,?_⟩
  · exact hi.serials_nodup ((attack_length K start moves).trans_lt hlen)
  · rw [hds]
    intro k e hk
    obtain ⟨-,hnote,amount,-,hc⟩ := hi.chain.settlements k e hk
    refine ⟨hnote,?_,hvoucher k e hk⟩
    rw [hc,List.head?_cons]
  · rw [hds]
    exact hpaid
  · intro hne
    rw [hi.paidTo_executions hne]
    exact hpaid
  · rw [hds]
    intro k hnone e he hserial
    obtain ⟨j,hj⟩ := List.getElem?_of_mem he
    obtain ⟨v,hv,hs,-⟩ := hvoucher j e hj
    obtain ⟨-,hnote,-⟩ := hi.chain.settlements j e hj
    rw [hnote] at hserial
    exact hnone v hv (hs.trans hserial)

end Attack

section Sample

/-- The voucher that the sample settlement redeems, the only one signed. -/
def sampleVouchers : List Voucher := [⟨.ofNats 1 2 3 4,sampleMerchant,300⟩]

/-- The sample protocol in a world where the signed vouchers are the only messages with a
signature. -/
def voucherProtocol : Protocol :=
  { sampleProtocol with
    falconVerify := fun pk msg av =>
      if sampleVouchers.any fun v => v.message sampleProtocol = msg then referenceVerify pk msg av
      else none }

def voucherKernel : Kernel := referenceKernel voucherProtocol Recipient.encode

theorem voucherKernel_documented : voucherKernel.Documented voucherProtocol := by
  apply referenceKernel_documented
  intro am r
  simp [voucherProtocol,sampleProtocol,referenceProtocol,Recipient.decode_encode]

def VoucherValid (pk msg : Word) (sig : List Felt) : Prop :=
  ReferenceValid pk msg sig ∧ ∃ v ∈ sampleVouchers, v.message voucherProtocol = msg

theorem voucherProtocol_verifySound : voucherProtocol.VerifySound VoucherValid := by
  intro pk msg av rest hv
  change (if _ then referenceVerify pk msg av else none) = some rest at hv
  split at hv
  · rename_i hany
    obtain ⟨sig,hav,hvalid⟩ := sampleProtocol_verifySound pk msg av rest hv
    simp only [List.any_eq_true,decide_eq_true_eq] at hany
    exact ⟨sig,hav,hvalid,hany⟩
  · cases hv

theorem voucherProtocol_injOn :
    Set.InjOn (fun q : Word × Word => voucherProtocol.merge q.1 q.2)
      (chainPreimages sampleVouchers ⟨1,2,3,4⟩ sampleMerchant) := by
  apply sampleMerge_injOn.mono
  rintro q (⟨v,hv,rfl⟩ | ⟨k,c,rfl⟩)
  · rw [List.mem_singleton.mp hv]
    exact ⟨⟨0,rfl⟩,rfl⟩
  · exact ⟨⟨k,rfl⟩,rfl⟩

/-- The sample settlement, attempted twice, pays once. -/
theorem attack_exposure_sample :
    let moves := [(sampleNote,sampleInputs 300 50),(sampleNote,sampleInputs 300 50)]
    let debits := debitsOf (attack voucherKernel sampleNote moves).executions
    debits.length = 1 ∧ paidTo voucherProtocol sampleMerchant (allCreated debits) ≤
      ∑ k ∈ Finset.range debits.length,
        largestSigned sampleVouchers (serialAfter ⟨1,2,3,4⟩ k) sampleMerchant := by
  intro moves debits
  have hexposure := @attack_exposure voucherProtocol voucherKernel sampleStorage.terms ⟨1,2,3,4⟩
    ⟨5,5,5,5⟩ sampleKey 1000 sampleNote voucherKernel_documented VoucherValid
    voucherProtocol_verifySound rfl rfl rfl sampleVouchers (fun _ _ hv => hv.2)
    voucherProtocol_injOn moves (by decide)
  exact ⟨by decide +kernel,hexposure.2.2.1⟩

end Sample

end MidenX402.AgentDebitNote
