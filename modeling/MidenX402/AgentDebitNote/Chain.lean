import MidenX402.AgentDebitNote.Reference

/-!
# Settlement chains

A chain starts at a funded note and continues, settlement after settlement, on the remainder note
the previous settlement created.  The invariant ties the live note to the position in the chain: its
serial number counts the settlements, its script and storage never change, and its amount together
with everything paid out so far is the amount the chain started with.
-/

namespace MidenX402.AgentDebitNote
open Masm

/-- The note behind an output note whose details are known. -/
def OutputNote.toNote (o : OutputNote) : Option Note :=
  o.details.map fun r => ⟨r,o.assets,o.noteType⟩

def noteId (o : OutputNote) : Option (Word × Word) :=
  o.details.map fun r => (r.scriptRoot,r.serialNum)

def isP2id (P : Protocol) (o : OutputNote) : Bool :=
  match o.details with
  | some r => r.scriptRoot = P.p2idScriptRoot && r.storage.length = 2
  | none => false

def noteAmount (o : OutputNote) : ℕ := (o.assets.map fun a => a.value.e0.val).sum

def p2idTotal (P : Protocol) (os : List OutputNote) : ℕ :=
  ((os.filter (isP2id P)).map noteAmount).sum

structure Execution where
  note : Note
  inputs : TxInputs
  created : List OutputNote

def allCreated (es : List Execution) : List OutputNote := es.flatMap Execution.created

/-- Settlements in sequence, each on the remainder the previous one created last. -/
inductive DebitRun (K : Kernel) (start : Note) : List Execution → Note → Prop
  | start : DebitRun K start [] start
  | debit {es : List Execution} {n : Note} {x : TxInputs} {h : Host} {o : OutputNote} {next : Note} :
      DebitRun K start es n → routesToConsume n x → execute K n x = some h →
      (created x h).getLast? = some o → o.toNote = some next →
      DebitRun K start (es ++ [⟨n,x,created x h⟩]) next

theorem DebitRun.eq_start {K : Kernel} {start n : Note} {es : List Execution}
    (h : DebitRun K start es n) (hes : es = []) : n = start := by
  cases h with
  | start => rfl
  | debit => simp at hes

/-- The serial number after `k` settlements. -/
def serialAfter (s : Word) (k : ℕ) : Word := ⟨s.e0 + k,s.e1,s.e2,s.e3⟩

@[simp] theorem serialAfter_zero (s : Word) : serialAfter s 0 = s := by
  simp [serialAfter]

theorem remainderSerial_serialAfter (s : Word) (k : ℕ) :
    remainderSerial (serialAfter s k) = serialAfter s (k + 1) := by
  simp [remainderSerial,serialAfter,add_assoc]

theorem serialAfter_inj {s : Word} {i j : ℕ} (hi : i < fieldOrder) (hj : j < fieldOrder)
    (h : serialAfter s i = serialAfter s j) : i = j :=
  Felt.add_natCast_inj hi hj (congrArg Word.e0 h)

theorem p2idSerial_ne_serialAfter (s : Word) (i j : ℕ) :
    p2idSerial (serialAfter s i) ≠ serialAfter s j := by
  intro h
  exact Felt.ne_add_one s.e3 (congrArg Word.e3 h).symm

theorem p2idSerial_inj {s : Word} {i j : ℕ} (hi : i < fieldOrder) (hj : j < fieldOrder)
    (h : p2idSerial (serialAfter s i) = p2idSerial (serialAfter s j)) : i = j :=
  Felt.add_natCast_inj hi hj (congrArg Word.e0 h)

section Notes
variable (P : Protocol)

@[simp] theorem isP2id_p2idNote (s : Word) (target : AccountId) (key : Word) (c : Felt) :
    isP2id P (P.p2idNote s target key c) = true := by
  simp [isP2id,Protocol.p2idNote,Protocol.publicNote,Protocol.p2idRecipient]

@[simp] theorem isP2id_remainderNote (r : Recipient) (t : Terms) (key : Word) (c : Felt)
    (hr : r.storage = t.storage) : isP2id P (P.remainderNote r key c) = false := by
  simp [isP2id,Protocol.remainderNote,Protocol.publicNote,hr,Terms.storage,storageItems]

@[simp] theorem noteAmount_p2idNote (s : Word) (target : AccountId) (key : Word) (c : Felt) :
    noteAmount (P.p2idNote s target key c) = c.val := by
  simp [noteAmount,Protocol.p2idNote,Protocol.publicNote,fungibleValue]

theorem p2idTotal_append (os os' : List OutputNote) :
    p2idTotal P (os ++ os') = p2idTotal P os + p2idTotal P os' := by
  simp [p2idTotal]

theorem p2idTotal_p2idNote (s : Word) (target : AccountId) (key : Word) (c : Felt) :
    p2idTotal P [P.p2idNote s target key c] = c.val := by
  simp [p2idTotal]

theorem p2idTotal_settlement (r : Recipient) (t : Terms) (s : Word) (key : Word) (c d : Felt)
    (hr : r.storage = t.storage) :
    p2idTotal P [P.p2idNote s t.merchant key c,P.remainderNote r key d] = c.val := by
  simp [p2idTotal,isP2id_remainderNote P r t key d hr]

end Notes

/-- What is known of a chain after the executions `es`, with `n` its live note holding `live`. -/
structure ChainInv (P : Protocol) (t : Terms) (s root key : Word) (total : Felt)
    (es : List Execution) (n : Note) (live : Felt) : Prop where
  recipient : n.recipient = ⟨serialAfter s es.length,root,t.storage⟩
  assets : n.assets = [⟨key,fungibleValue live⟩]
  settlements : ∀ k e, es[k]? = some e → routesToConsume e.note e.inputs ∧
    e.note.recipient = ⟨serialAfter s k,root,t.storage⟩ ∧
    ∃ amount, e.note.assets = [⟨key,fungibleValue amount⟩] ∧
      e.created = [P.p2idNote (serialAfter s k) t.merchant key e.inputs.noteArgs.e0,
        P.remainderNote ⟨serialAfter s k,root,t.storage⟩ key (amount - e.inputs.noteArgs.e0)]
  balance : p2idTotal P (allCreated es) + live.val = total.val

section Run
variable {P : Protocol} {K : Kernel} {t : Terms} {s root key : Word} {total : Felt}

theorem ChainInv.isDebitNote {es : List Execution} {n : Note} {live : Felt}
    (hi : ChainInv P t s root key total es n live) (hf : P.isFungible key = true) :
    IsDebitNote P t key live n :=
  ⟨by rw [hi.recipient],hi.assets,hf⟩

theorem allCreated_append (es : List Execution) (e : Execution) :
    allCreated (es ++ [e]) = allCreated es ++ e.created := by
  simp [allCreated]

theorem ChainInv.debit (hK : K.Documented P) (hf : P.isFungible key = true)
    {es : List Execution} {n next : Note} {live : Felt} {x : TxInputs} {h : Host} {o : OutputNote}
    (hi : ChainInv P t s root key total es n live) (hr : routesToConsume n x)
    (hx : execute K n x = some h) (ho : (created x h).getLast? = some o)
    (hnext : o.toNote = some next) :
    ChainInv P t s root key total (es ++ [⟨n,x,created x h⟩]) next (live - x.noteArgs.e0) := by
  obtain ⟨-,hle,-,hcreated⟩ := execute_consume hK (hi.isDebitNote hf) hr hx
  rw [hi.recipient] at hcreated
  have hlast : P.remainderNote ⟨serialAfter s es.length,root,t.storage⟩ key
      (live - x.noteArgs.e0) = o := by
    rw [hcreated] at ho
    exact Option.some.inj ho
  subst hlast
  obtain rfl := (Option.some.inj hnext).symm
  refine ⟨?_,rfl,?_,?_⟩
  · simp only [List.length_append,List.length_singleton,← remainderSerial_serialAfter]
  · intro k e hk
    by_cases hlt : k < es.length
    · rw [List.getElem?_append_left hlt] at hk
      exact hi.settlements k e hk
    · have hke : k = es.length := by
        have hlen := (List.getElem?_eq_some_iff.mp hk).1
        simp only [List.length_append,List.length_singleton] at hlen
        omega
      subst hke
      simp only [List.getElem?_concat_length,Option.some.injEq] at hk
      subst hk
      exact ⟨hr,hi.recipient,live,hi.assets,hcreated⟩
  · rw [allCreated_append,p2idTotal_append,hcreated,p2idTotal_settlement P _ t _ _ _ _ rfl,
      ZMod.val_sub hle]
    have hb := hi.balance
    omega

theorem DebitRun.inv (hK : K.Documented P) (hf : P.isFungible key = true) {start n : Note}
    {es : List Execution} (hstart : start.recipient = ⟨s,root,t.storage⟩)
    (hassets : start.assets = [⟨key,fungibleValue total⟩]) (hrun : DebitRun K start es n) :
    ∃ live, ChainInv P t s root key total es n live := by
  induction hrun with
  | start => exact ⟨total,by simpa using hstart,hassets,by simp,by simp [allCreated,p2idTotal]⟩
  | debit _ hr hx ho hnext ih =>
    obtain ⟨live,hi⟩ := ih
    exact ⟨_,hi.debit hK hf hr hx ho hnext⟩

/-- The identities of the notes created in the first `k` settlements. -/
def settlementIds (P : Protocol) (s root : Word) (k : ℕ) : List (Option (Word × Word)) :=
  (List.range k).flatMap fun i =>
    [some (P.p2idScriptRoot,p2idSerial (serialAfter s i)),some (root,serialAfter s (i + 1))]

theorem ChainInv.ids {es : List Execution} {n : Note} {live : Felt}
    (hi : ChainInv P t s root key total es n live) :
    (allCreated es).map noteId = settlementIds P s root es.length := by
  have hmap : ∀ j ≤ es.length, (allCreated (es.take j)).map noteId = settlementIds P s root j := by
    intro j
    induction j with
    | zero => intro _; rfl
    | succ j ih =>
      intro hj
      obtain ⟨-,-,amount,-,hc⟩ := hi.settlements j es[j] (List.getElem?_eq_getElem hj)
      rw [List.take_add_one,List.getElem?_eq_getElem hj,Option.toList_some,allCreated_append,
        List.map_append,ih (by omega),hc,settlementIds,settlementIds,List.range_succ,
        List.flatMap_append]
      simp [noteId,Protocol.p2idNote,Protocol.remainderNote,Protocol.publicNote,
        Protocol.p2idRecipient,remainderSerial_serialAfter]
  simpa using hmap es.length le_rfl

theorem mem_settlementIds {P : Protocol} {s root : Word} {k : ℕ} {id : Option (Word × Word)}
    (h : id ∈ settlementIds P s root k) :
    (∃ i < k, id = some (P.p2idScriptRoot,p2idSerial (serialAfter s i))) ∨
      ∃ i < k, id = some (root,serialAfter s (i + 1)) := by
  obtain ⟨i,hi,hid⟩ := List.mem_flatMap.mp h
  rw [List.mem_range] at hi
  simp only [List.mem_cons,List.not_mem_nil,or_false] at hid
  rcases hid with rfl | rfl
  · exact Or.inl ⟨i,hi,rfl⟩
  · exact Or.inr ⟨i,hi,rfl⟩

theorem p2idId_notMem_settlementIds (P : Protocol) (s root : Word) (k : ℕ) (hk : k < fieldOrder) :
    some (P.p2idScriptRoot,p2idSerial (serialAfter s k)) ∉ settlementIds P s root k := by
  intro hmem
  rcases mem_settlementIds hmem with ⟨i,hi,he⟩ | ⟨i,hi,he⟩
  · have hs := (Prod.mk.inj (Option.some.inj he)).2
    have hik := p2idSerial_inj hk (by omega) hs
    omega
  · exact p2idSerial_ne_serialAfter s k (i + 1) (Prod.mk.inj (Option.some.inj he)).2

theorem remainderId_notMem_settlementIds (P : Protocol) (s root : Word) (k : ℕ)
    (hk : k + 1 < fieldOrder) : some (root,serialAfter s (k + 1)) ∉ settlementIds P s root k := by
  intro hmem
  rcases mem_settlementIds hmem with ⟨i,hi,he⟩ | ⟨i,hi,he⟩
  · exact p2idSerial_ne_serialAfter s i (k + 1) (Prod.mk.inj (Option.some.inj he)).2.symm
  · have hs := (Prod.mk.inj (Option.some.inj he)).2
    have hik := serialAfter_inj hk (by omega) hs
    omega

theorem settlementIds_succ (P : Protocol) (s root : Word) (k : ℕ) :
    settlementIds P s root (k + 1) = settlementIds P s root k ++
      [some (P.p2idScriptRoot,p2idSerial (serialAfter s k)),some (root,serialAfter s (k + 1))] := by
  simp [settlementIds,List.range_succ]

theorem settlementIds_nodup (P : Protocol) (s root : Word) (k : ℕ) (hk : k < fieldOrder) :
    (settlementIds P s root k).Nodup := by
  induction k with
  | zero => exact List.nodup_nil
  | succ k ih =>
    have hp := p2idId_notMem_settlementIds P s root k (by omega)
    have hr := remainderId_notMem_settlementIds P s root k hk
    have hne : some (P.p2idScriptRoot,p2idSerial (serialAfter s k)) ≠
        some (root,serialAfter s (k + 1)) := by
      intro he
      exact p2idSerial_ne_serialAfter s k (k + 1) (Prod.mk.inj (Option.some.inj he)).2
    rw [settlementIds_succ]
    apply List.Nodup.append (ih (by omega))
    · simp [hne]
    · intro id hid hnew
      simp only [List.mem_cons,List.not_mem_nil,or_false] at hnew
      rcases hnew with rfl | rfl
      · exact hp hid
      · exact hr hid

/-- Along every chain of settlements of a debit note: the note after `k` settlements keeps the
script and the storage and has the `k`-th serial number; the P2ID note made from it goes to the
committed merchant; what was paid out and the live amount add up to the amount of the first note; a
closing reclaim pays the whole live amount to the committed user; and the notes created, that of the
reclaim included, differ in script root or serial number. -/
theorem debitRun_chain (hK : K.Documented P) (storage : AgentDebitNoteStorage)
    (hf : P.isFungible key = true) {start n : Note} {es : List Execution}
    (hstart : start.recipient = ⟨s,root,storage.toNoteStorage⟩)
    (hassets : start.assets = [⟨key,fungibleValue total⟩]) (hrun : DebitRun K start es n)
    (hlen : es.length < fieldOrder) :
    n.recipient = ⟨serialAfter s es.length,root,storage.toNoteStorage⟩ ∧
    (∀ k e, es[k]? = some e → e.note.recipient = ⟨serialAfter s k,root,storage.toNoteStorage⟩ ∧
      ∃ rest, e.created =
        [P.p2idNote (serialAfter s k) storage.merchantAccountId key e.inputs.noteArgs.e0,
          P.remainderNote e.note.recipient key rest]) ∧
    (∃ live, n.assets = [⟨key,fungibleValue live⟩] ∧
      p2idTotal P (allCreated es) + live.val = total.val ∧
      ∀ x h, ¬routesToConsume n x → execute K n x = some h →
        created x h = [P.p2idNote (serialAfter s es.length) storage.userAccountId key live] ∧
        p2idTotal P (allCreated es ++ created x h) = total.val ∧
        ((allCreated es ++ created x h).map noteId).Nodup) ∧
    ((allCreated es).map noteId).Nodup := by
  have hstart' : start.recipient = ⟨s,root,storage.terms.storage⟩ := hstart
  obtain ⟨live,hi⟩ := hrun.inv hK hf hstart' hassets
  have hnodup : ((allCreated es).map noteId).Nodup := by
    rw [hi.ids]
    exact settlementIds_nodup P s root _ hlen
  refine ⟨hi.recipient,?_,⟨live,hi.assets,hi.balance,?_⟩,hnodup⟩
  · intro k e hk
    obtain ⟨-,hnote,amount,-,hc⟩ := hi.settlements k e hk
    rw [hnote]
    exact ⟨rfl,_,hc⟩
  · intro x h hr hx
    obtain ⟨-,-,hc⟩ := execute_reclaim hK (hi.isDebitNote hf) hr hx
    rw [hi.recipient] at hc
    refine ⟨hc,?_,?_⟩
    · rw [p2idTotal_append,hc,p2idTotal_p2idNote]
      exact hi.balance
    · rw [List.map_append,hi.ids,hc]
      apply List.Nodup.append (settlementIds_nodup P s root _ hlen) (List.nodup_singleton _)
      intro id hid hnew
      rw [List.mem_singleton.mp hnew] at hid
      exact p2idId_notMem_settlementIds P s root _ hlen hid

end Run

section Sample

/-- The sample note when `k` settlements have left `live` of it. -/
def sampleTip (k : ℕ) (live : Felt) : Note :=
  ⟨{ sampleNote.recipient with serialNum := serialAfter sampleNote.recipient.serialNum k },
    [⟨sampleKey,fungibleValue live⟩],notePublic⟩

/-- Inputs with the user's signature for debiting `c` from the note. -/
def debitInputs (n : Note) (c : Felt) : TxInputs :=
  { sampleInputs c 50 with
    advStack := sampleStorage.userPubkeyCommitment.toList ++
      (debitMessageOf sampleProtocol sampleStorage.terms n c).toList }

/-- Inputs at the reclaim height with the user's signature for taking the note back. -/
def reclaimInputs (n : Note) : TxInputs :=
  { sampleInputs 0 100 with
    advStack := sampleStorage.userPubkeyCommitment.toList ++
      (reclaimMessage sampleProtocol n.recipient.serialNum sampleUser).toList }

/-- Settlements of 300 and 200 out of 1000 on the sample note, and a reclaim of what is left. -/
theorem debitRun_chain_sample : ∃ n es h, DebitRun sampleKernel sampleNote es n ∧ es.length = 2 ∧
    n.recipient.serialNum = ⟨3,2,3,4⟩ ∧ execute sampleKernel n (reclaimInputs n) = some h ∧
    created (reclaimInputs n) h = [sampleProtocol.p2idNote ⟨3,2,3,4⟩ sampleUser sampleKey 500] ∧
    p2idTotal sampleProtocol (allCreated es ++ created (reclaimInputs n) h) = 1000 ∧
    ((allCreated es ++ created (reclaimInputs n) h).map noteId).Nodup := by
  have hfirst : DebitRun sampleKernel sampleNote [_] (sampleTip 1 700) :=
    DebitRun.start.debit (x := sampleInputs 300 50) (by decide) sampleSettles rfl rfl
  have hnote : IsDebitNote sampleProtocol sampleStorage.terms sampleKey 700 (sampleTip 1 700) :=
    ⟨rfl,rfl,rfl⟩
  have hsecond := execute_consume_of sampleKernel_documented hnote
    (x := debitInputs (sampleTip 1 700) 200) [] (by decide) (by decide +kernel) rfl (by decide)
    (by decide) (by decide)
  have hrun : DebitRun sampleKernel sampleNote [_,_] (sampleTip 2 500) :=
    hfirst.debit (by decide) hsecond rfl rfl
  have hreclaimed : (execute sampleKernel (sampleTip 2 500) (reclaimInputs (sampleTip 2 500))).isSome :=
    by decide +kernel
  obtain ⟨h,hh⟩ := Option.isSome_iff_exists.mp hreclaimed
  obtain ⟨-,-,⟨live,hlive,-,hreclaim⟩,-⟩ := @debitRun_chain sampleProtocol sampleKernel ⟨1,2,3,4⟩
    ⟨5,5,5,5⟩ sampleKey 1000 sampleKernel_documented sampleStorage rfl _ _ _ rfl rfl hrun (by decide)
  obtain ⟨hcreated,htotal,hnodup⟩ := hreclaim _ h (by decide) hh
  obtain rfl : live = 500 := by
    have hvalue := congrArg (fun as => as.map fun a : Asset => a.value.e0) hlive
    exact (List.cons.inj hvalue).1.symm
  exact ⟨_,_,h,hrun,rfl,by decide,hh,hcreated,htotal,hnodup⟩

end Sample

end MidenX402.AgentDebitNote
