import MidenX402.Facilitator.Handler

/-!
# What a hot-key signature binds

The signature covers the transaction summary and nothing else of the payload.  In real mode the
nullifiers are taken from the summary and the context is checked against it, so both are bound; the
new state commitment, and in placeholder mode the context and the nullifiers, are the client's word.
-/

namespace MidenX402.Facilitator
open Masm AgentDebitNote Disk Rust

/-- Who is paid, in which asset and how much. -/
structure PaymentTerms where
  payee : AccountId
  faucet : AccountId
  amount : ℕ
deriving DecidableEq

section Terms
variable (M : Miden)

/-- The terms a payment context names. -/
def X402Context.terms (context : X402Context) : Option PaymentTerms := do
  let payee ← (M.accountIdFromHex context.merchantAccountId).toOption
  let faucet ← (M.accountIdFromHex context.assetFaucetId).toOption
  let amount ← Rust.parseU64 context.amount
  return ⟨payee,faucet,amount⟩

/-- The terms of a summary that pays by a single P2ID note. -/
def TransactionSummary.terms (summary : TransactionSummary) : Option PaymentTerms :=
  match summary.outputNotes with
  | [.full note] =>
    match note.fungibleAssets with
    | [asset] => (M.p2idTarget note.storage).toOption.map fun payee =>
        ⟨payee,asset.faucetId,asset.amount⟩
    | _ => none
  | _ => none

/-- What the store shows of an acknowledged payment: the new pending state, the reserved nullifiers
beside those of before, and the queue record. -/
structure Shown (store : FilesystemX402Store) (a : String) (payload : AgenticPayload)
    (ack : AckResponse) (view : NullifierView) (ns : List String) (record : QueuedTx) (fs : Files) :
    Prop where
  pending : ∃ p, store.loadPendingState a fs = .ok p ∧
    p.pendingStateCommitment = payload.newStateCommitment ∧ p.lastAcceptedSeq = ack.seq
  reserved : store.nullifierView a fs = .ok ⟨view.reserved ∪ ns.toFinset,view.spent⟩
  queued : fs.readFile (store.queueFile a ack.seq) = some (.queued record)
  seq : record.seq = ack.seq
  payload : record.payload = payload
  nullifiers : record.nullifiers = ns

end Terms

section Checks
variable {M : Miden} {note : FullNote} {summary : TransactionSummary} {payload : AgenticPayload}

theorem checkRecipient_eq_ok {merchant : String} (h : checkRecipient M note merchant = .ok ()) :
    ∃ payee, M.p2idTarget note.storage = .ok payee ∧ M.accountIdFromHex merchant = .ok payee := by
  obtain ⟨actual,hactual,h⟩ := except_bind_eq_ok h
  obtain ⟨expected,hexpected,h⟩ := except_bind_eq_ok h
  split at h
  · cases h
  · rename_i hne
    obtain rfl : actual = expected := not_not.mp hne
    exact ⟨actual,mapError_eq_ok.mp hactual,mapError_eq_ok.mp hexpected⟩

theorem checkAsset_eq_ok {context : X402Context} (h : checkAsset M note context = .ok ()) :
    ∃ asset, note.fungibleAssets = [asset] ∧
      M.accountIdFromHex context.assetFaucetId = .ok asset.faucetId ∧
      Rust.parseU64 context.amount = some asset.amount := by
  unfold checkAsset at h
  split at h
  · rename_i asset hassets
    obtain ⟨faucet,hfaucet,h⟩ := except_bind_eq_ok h
    split at h
    · cases h
    · rename_i amount hamount
      split at h
      · cases h
      · rename_i hf
        split at h
        · cases h
        · rename_i ha
          refine ⟨asset,hassets,?_,?_⟩
          · rw [not_not.mp hf]
            exact mapError_eq_ok.mp hfaucet
          · rw [not_not.mp ha]
            exact hamount
  · cases h

/-- A summary passes the output check with a single note, full and of the P2ID script, that passes
the checks of the recipient and of the asset. -/
theorem validateP2idOutput_note (h : validateP2idOutput M summary payload = .ok ()) :
    ∃ note, summary.outputNotes = [.full note] ∧ note.scriptRoot = M.p2idScriptRoot ∧
      checkRecipient M note payload.x402Context.merchantAccountId = .ok () ∧
      checkAsset M note payload.x402Context = .ok () := by
  unfold validateP2idOutput at h
  split at h
  · rename_i note hnotes
    split at h
    · cases h
    · rename_i hroot
      obtain ⟨_,hrecipient,hasset⟩ := except_bind_eq_ok h
      exact ⟨note,hnotes,not_not.mp hroot,hrecipient,hasset⟩
  · cases h
  · cases h

/-- A summary that passes the output check pays exactly what the context says. -/
theorem validateP2idOutput_eq_ok (h : validateP2idOutput M summary payload = .ok ()) :
    ∃ terms, summary.terms M = some terms ∧ payload.x402Context.terms M = some terms := by
  obtain ⟨note,hnotes,-,hrecipient,hasset⟩ := validateP2idOutput_note h
  obtain ⟨payee,htarget,hmerchant⟩ := checkRecipient_eq_ok hrecipient
  obtain ⟨asset,hassets,hfaucet,hamount⟩ := checkAsset_eq_ok hasset
  refine ⟨⟨payee,asset.faucetId,asset.amount⟩,?_,?_⟩
  · simp [TransactionSummary.terms,hnotes,hassets,htarget,Except.toOption]
  · simp [X402Context.terms,hmerchant,hfaucet,hamount,Except.toOption]

/-- An accepted signature is a Falcon signature by the registered key on the message of the
envelope. -/
theorem verifyHotKeySignature_eq_ok {record : AgentRecord}
    (h : verifyHotKeySignature M record payload = .ok ()) :
    payload.hotKeySignature.signerId = record.hotKeyCommitment ∧
    ∃ sigHex bytes signature message,
      payload.hotKeySignature.signature = .falcon sigHex ∧ decodeHex M sigHex = .ok bytes ∧
      M.readSignature bytes = .ok signature ∧
      M.wordToHex (M.toCommitment (M.publicKey signature)) = record.hotKeyCommitment ∧
      signedMessage M payload.txSummary = .ok message ∧
      M.verify signature message (M.publicKey signature) = true := by
  unfold verifyHotKeySignature at h
  simp only at h
  split at h
  · cases h
  · rename_i hsigner
    split at h
    · cases h
    · split at h
      · cases h
      · rename_i sigHex hsig
        obtain ⟨bytes,hbytes,h⟩ := except_bind_eq_ok h
        obtain ⟨signature,hread,h⟩ := except_bind_eq_ok h
        split at h
        · cases h
        · rename_i hkey
          obtain ⟨_,-,h⟩ := except_bind_eq_ok h
          obtain ⟨message,hmessage,h⟩ := except_bind_eq_ok h
          split at h
          · rename_i hverify
            exact ⟨not_not.mp hsigner,sigHex,bytes,signature,message,hsig,mapError_eq_ok.mp hbytes,
              mapError_eq_ok.mp hread,not_not.mp hkey,hmessage,hverify⟩
          · cases h

/-- What a payload in real mode that passes the checks has shown. -/
theorem checkPayload_real {record : AgentRecord} {mandate : AgentMandate} {pending : PendingState}
    {nullifiers : List String} (hreal : isRealMode payload.txSummary = true)
    (h : checkPayload M record mandate pending payload = .ok nullifiers) :
    ∃ summary, decodeSummary M payload.txSummary = .ok summary ∧
      validateP2idOutput M summary payload = .ok () ∧ nullifiers = extractNullifierHexes M summary := by
  obtain ⟨extracted,-,-,hextract,houtput,-,-,rfl⟩ := checkPayload_steps h
  rw [tryDecodeRealSummary,if_pos hreal] at hextract
  cases hdecode : decodeSummary M payload.txSummary with
  | error e =>
    rw [hdecode] at hextract
    cases hextract
  | ok summary =>
    rw [hdecode] at hextract
    obtain rfl := Except.ok.inj hextract
    exact ⟨summary,rfl,houtput,rfl⟩

theorem checkPayload_placeholder {record : AgentRecord} {mandate : AgentMandate}
    {pending : PendingState} {nullifiers : List String} (hreal : isRealMode payload.txSummary = false)
    (h : checkPayload M record mandate pending payload = .ok nullifiers) :
    nullifiers = payload.claimedNullifiers := by
  obtain ⟨-,-,extracted,hextract,hn⟩ := checkPayload_eq_ok h
  rw [tryDecodeRealSummary,if_neg (by simp [hreal])] at hextract
  obtain rfl := Except.ok.inj hextract
  exact hn

end Checks

section Observed
variable {M : Miden} {store : FilesystemX402Store} {a : String} {payload : AgenticPayload} {now : ℕ}
  {fs fs' : Files} {ack : AckResponse} {p : PendingState} {ns : List String} {view : NullifierView}

theorem isPlain_toHex (hM : M.HexDigits) (bytes : List UInt8) : IsPlain (M.toHex bytes) := by
  have htext : (M.toHex bytes).toList = '0' :: 'x' :: (M.hexEncode bytes).toList := by
    rw [Miden.toHex,String.toList_append]
    rfl
  have hne : ∀ s : String, s.toList.head? ≠ some '0' → M.toHex bytes ≠ s := by
    rintro s hs rfl
    rw [htext] at hs
    exact hs rfl
  refine ⟨hne _ (by decide),hne _ (by decide),hne _ (by decide),?_⟩
  rw [htext,List.mem_cons,List.mem_cons,not_or,not_or]
  exact ⟨by decide,by decide,fun hmem => absurd (hM bytes _ hmem) (by decide)⟩

/-- The nullifiers of a summary are written in hex. -/
theorem isPlain_extracted (hM : M.HexDigits) (summary : TransactionSummary) :
    ∀ n ∈ extractNullifierHexes M summary, IsPlain n := by
  intro n hn
  rcases List.mem_append.mp hn with hin | hout
  · obtain ⟨bytes,-,rfl⟩ := List.mem_map.mp hin
    exact isPlain_toHex hM bytes
  · obtain ⟨note,-,hnote⟩ := List.mem_filterMap.mp hout
    cases note with
    | full note =>
      rw [← Option.some.inj hnote]
      exact isPlain_toHex hM _
    | header => cases hnote

/-- The log reads back with the entries of the payment behind those that were there, and the spent
nullifiers as before. -/
theorem Stored.reserved (h : Stored store a payload now p ns fs fs')
    (hmade : MadeIn (paymentDirs store a fs) fs fs') {d : Path}
    (hd : fs.resolveDir [] (components (store.agentDir a)) = some d)
    (hview : store.nullifierView a fs = .ok view) :
    store.nullifierView a fs' = .ok ⟨view.reserved ∪ ns.toFinset,view.spent⟩ := by
  obtain ⟨reserved,hreserved,hrest⟩ := except_bind_eq_ok hview
  obtain ⟨spent,hspent,hpair⟩ := except_bind_eq_ok hrest
  obtain rfl := Except.ok.inj hpair
  obtain rfl : d = resolved (store.agentDir a) := resolveDir_eq_normalize hd
  have hd' := resolveDir_mono h.dirs hd
  obtain ⟨es,hlog,-,rfl⟩ := readWalSet_eq_ok isPlain_wal hd hreserved
  obtain ⟨es',hold,hdir,rfl⟩ := readWalSet_eq_ok isPlain_spent hd hspent
  have hwal : fs'.fileAt (agentPlace store a "nullifiers.wal") =
      some (.lines (es ++ walEntries p ns now)) := by
    rw [h.wal,agentPlace,hlog,foldl_append_lines]
  have hsame : fs'.fileAt (agentPlace store a "nullifiers.spent") =
      fs.fileAt (agentPlace store a "nullifiers.spent") := h.others _ (by decide)
  have hnot : fs'.isDir (agentPlace store a "nullifiers.spent") = false := by
    rw [← Bool.not_eq_true]
    intro hisdir
    rcases hmade _ hisdir with hold | hold | hqueue | hpayments
    · exact absurd (hold.symm.trans hdir) (by decide)
    · exact absurd (hold.symm.trans hdir) (by decide)
    · rw [FilesystemX402Store.queueDir,resolved_concat (by decide)] at hqueue
      exact absurd (List.singleton_inj.mp (List.append_cancel_left hqueue)) (by decide)
    · rw [FilesystemX402Store.paymentsDir,resolved_concat (by decide)] at hpayments
      have he := List.append_cancel_left (hpayments.eq_of_length (by simp [agentPlace]))
      exact absurd (List.singleton_inj.mp he) (by decide)
  have hwritten := readWalSet_of_lines isPlain_wal hd' (es ++ walEntries p ns now)
    (by rw [← agentPlace,hwal]; rfl) (by
      rw [← Bool.not_eq_true]
      intro hisdir
      rw [agentPlace] at hwal
      rw [FileSystem.fileAt_eq_none_of_isDir (by simp) hisdir] at hwal
      cases hwal)
  have hkept := readWalSet_of_lines isPlain_spent hd' es' (by rw [← agentPlace,hsame]; exact hold) hnot
  have hnames : (walEntries p ns now).map WalEntry.nullifier = ns := by
    rw [walEntries,List.map_map]
    exact List.map_id' ns
  rw [FilesystemX402Store.nullifierView,FilesystemX402Store.nullifiersWal,
    FilesystemX402Store.nullifiersSpent,hwritten,hkept,List.map_append,List.toFinset_append,hnames]
  rfl

/-- The new state and the record read back. -/
theorem shown_of_exec (hns : ack.reservedNullifiers = ns) (hplain : ∀ n ∈ ns, IsPlain n)
    (hview : store.nullifierView a fs = .ok view)
    (h : (postPayment M store a payload now).exec fs = .ok (ack,fs')) :
    ∃ record, Shown store a payload ack view ns record fs' := by
  subst hns
  obtain ⟨p,haccept,hseq,hstored⟩ :=
    postPayment_stored (fun n hn => draft_mem_paymentsArea (hplain n hn)) h
  obtain ⟨_,_,_,hrecord,-⟩ := accept_eq_ok_iff.mp haccept
  obtain ⟨d,hd⟩ := loadAgent_resolves hrecord
  have hmade := (postPayment_made haccept fun n hn _ => walk_sentinel hd (hplain n hn)).exec h
  have hview' := hstored.reserved hmade hd hview
  obtain rfl : d = resolved (store.agentDir a) := resolveDir_eq_normalize hd
  refine ⟨queuedTx p payload ack.reservedNullifiers now,⟨newPending p payload,?_,rfl,hseq.symm⟩,
    hview',?_,hseq.symm,rfl,rfl⟩
  · refine mapError_eq_ok.mpr (readJson_eq_ok_iff.mpr ⟨.pending (newPending p payload),?_,rfl⟩)
    rw [FilesystemX402Store.pendingStateFile,readFile_concat isPlain_pendingState,
      resolveDir_mono hstored.dirs hd,Option.bind_some]
    exact hstored.pending
  · rw [hseq,FilesystemX402Store.queueFile,readFile_concat (isPlain_seqFile _),hstored.queueDir,
      Option.bind_some]
    exact hstored.record

end Observed

section Accepted
variable {M : Miden} {store : FilesystemX402Store} {a : String} {payload payload' : AgenticPayload}
  {now now' : ℕ} {fs fs1 fs1' : Files} {ack ack' : AckResponse}

theorem postPayment_eq_ok (h : (postPayment M store a payload now fs).result = .ok ack) :
    ∃ pending nullifiers, accept M store a payload fs = .ok (pending,nullifiers) ∧
      ack.seq = pending.lastAcceptedSeq + 1 ∧
      ack.newPendingStateCommitment = payload.newStateCommitment ∧
      ack.reservedNullifiers = nullifiers := by
  have hexec := (Prog.exec_eq_ok_iff _ _ _ _).mpr ⟨h,rfl⟩
  obtain ⟨⟨pending,nullifiers⟩,fs0,hread,hexec⟩ := Prog.exec_bind_eq_ok hexec
  obtain ⟨_,fs1,-,hexec⟩ := Prog.exec_bind_eq_ok hexec
  obtain ⟨_,fs2,-,hexec⟩ := Prog.exec_bind_eq_ok hexec
  obtain ⟨_,fs3,-,hexec⟩ := Prog.exec_bind_eq_ok hexec
  obtain ⟨signature,fs4,-,hexec⟩ := Prog.exec_bind_eq_ok hexec
  rw [Prog.exec_pure] at hexec
  obtain rfl := (Prod.mk.inj (Except.ok.inj hexec)).1
  exact ⟨pending,nullifiers,(Prog.exec_read_eq_ok hread).1,rfl,rfl,rfl⟩

/-- Two payloads with the same summary that are accepted from the same state get the same number and
build on the same state.  In real mode both reserve the nullifiers of the summary, and the terms their
records name are those of the summary.  The new state is the one each payload claims, and in
placeholder mode so are the nullifiers. -/
theorem summary_binds (hM : M.HexDigits) (hsummary : payload'.txSummary = payload.txSummary)
    (h : (postPayment M store a payload now).exec fs = .ok (ack,fs1))
    (h' : (postPayment M store a payload' now').exec fs = .ok (ack',fs1')) :
    ack'.seq = ack.seq ∧ payload'.builtOnStateCommitment = payload.builtOnStateCommitment ∧
    (isRealMode payload.txSummary = true → ∃ summary terms view record record',
      decodeSummary M payload.txSummary = .ok summary ∧ summary.terms M = some terms ∧
      store.nullifierView a fs = .ok view ∧
      Shown store a payload ack view (extractNullifierHexes M summary) record fs1 ∧
      Shown store a payload' ack' view (extractNullifierHexes M summary) record' fs1' ∧
      record.payload.x402Context.terms M = some terms ∧
      record'.payload.x402Context.terms M = some terms) ∧
    (isRealMode payload.txSummary = false →
      (∀ n ∈ payload.claimedNullifiers ++ payload'.claimedNullifiers, IsPlain n) →
      ∃ view record record', store.nullifierView a fs = .ok view ∧
        Shown store a payload ack view payload.claimedNullifiers record fs1 ∧
        Shown store a payload' ack' view payload'.claimedNullifiers record' fs1') := by
  obtain ⟨pending,_,haccept,hseq,-,hreserved⟩ := postPayment_eq_ok ((Prog.exec_eq_ok_iff ..).mp h).1
  obtain ⟨pending',_,haccept',hseq',-,hreserved'⟩ := postPayment_eq_ok ((Prog.exec_eq_ok_iff ..).mp h').1
  obtain ⟨_,_,view,-,-,hp,hcheck,hview,-⟩ := accept_eq_ok_iff.mp haccept
  obtain ⟨_,_,_,-,-,hp',hcheck',-,-⟩ := accept_eq_ok_iff.mp haccept'
  obtain rfl := Except.ok.inj (hp.symm.trans hp')
  refine ⟨hseq'.trans hseq.symm,?_,?_,?_⟩
  · rw [(checkPayload_eq_ok hcheck).1,(checkPayload_eq_ok hcheck').1]
  · intro hreal
    obtain ⟨summary,hdecode,hvalid,hns⟩ := checkPayload_real hreal hcheck
    obtain ⟨summary',hdecode',hvalid',hns'⟩ :=
      checkPayload_real (by rw [hsummary]; exact hreal) hcheck'
    rw [hsummary,hdecode] at hdecode'
    obtain rfl := Except.ok.inj hdecode'
    obtain ⟨terms,hterms,hcontext⟩ := validateP2idOutput_eq_ok hvalid
    obtain ⟨terms',hterms',hcontext'⟩ := validateP2idOutput_eq_ok hvalid'
    obtain rfl := Option.some.inj (hterms.symm.trans hterms')
    obtain ⟨record,hshown⟩ := shown_of_exec (hreserved.trans hns) (isPlain_extracted hM summary) hview h
    obtain ⟨record',hshown'⟩ := shown_of_exec (hreserved'.trans hns') (isPlain_extracted hM summary) hview h'
    refine ⟨summary,terms,view,record,record',hdecode,hterms,hview,hshown,hshown',?_,?_⟩
    · rw [hshown.payload]
      exact hcontext
    · rw [hshown'.payload]
      exact hcontext'
  · intro hplaceholder hplain
    have hns := checkPayload_placeholder hplaceholder hcheck
    have hns' := checkPayload_placeholder (by rw [hsummary]; exact hplaceholder) hcheck'
    obtain ⟨record,hshown⟩ := shown_of_exec (hreserved.trans hns)
      (fun n hn => hplain n (List.mem_append_left _ hn)) hview h
    obtain ⟨record',hshown'⟩ := shown_of_exec (hreserved'.trans hns')
      (fun n hn => hplain n (List.mem_append_right _ hn)) hview h'
    exact ⟨view,record,record',hview,hshown,hshown'⟩

/-- A payment accepted in real mode moves on chain what the mandate allows: the summary the hot key
signed has one output note, a full P2ID note to the named merchant, which the allowlist admits, with
one fungible asset of the named faucet and amount, within the cap. -/
theorem mandate_binds (hreal : isRealMode payload.txSummary = true)
    (h : (postPayment M store a payload now fs).result = .ok ack) :
    ∃ record mandate summary signature note payee asset cap,
      store.loadAgent a fs = .ok record ∧ store.loadMandate a fs = .ok mandate ∧
      decodeSummary M payload.txSummary = .ok summary ∧
      M.wordToHex (M.toCommitment (M.publicKey signature)) = record.hotKeyCommitment ∧
      M.verify signature summary.commitment (M.publicKey signature) = true ∧
      (∃ sigHex bytes, payload.hotKeySignature.signature = .falcon sigHex ∧
        decodeHex M sigHex = .ok bytes ∧ M.readSignature bytes = .ok signature) ∧
      summary.outputNotes = [.full note] ∧ note.scriptRoot = M.p2idScriptRoot ∧
      M.p2idTarget note.storage = .ok payee ∧
      M.accountIdFromHex payload.x402Context.merchantAccountId = .ok payee ∧
      (mandate.merchantAllowlist = [] ∨
        payload.x402Context.merchantAccountId ∈ mandate.merchantAllowlist) ∧
      note.fungibleAssets = [asset] ∧
      M.accountIdFromHex payload.x402Context.assetFaucetId = .ok asset.faucetId ∧
      Rust.parseU64 payload.x402Context.amount = some asset.amount ∧
      Rust.parseU128 mandate.perTxAmountCap = some cap ∧ asset.amount ≤ cap := by
  obtain ⟨pending,ns,haccept,-⟩ := postPayment_eq_ok h
  obtain ⟨record,mandate,_,hrecord,hmandate,-,hcheck,-,-⟩ := accept_eq_ok_iff.mp haccept
  obtain ⟨summary,hdecode,hvalid,-⟩ := checkPayload_real hreal hcheck
  obtain ⟨_,-,hsigned,-,-,hallowed,-,-⟩ := checkPayload_steps hcheck
  obtain ⟨-,sigHex,bytes,signature,message,hsig,hbytes,hread,hkey,hmessage,hverify⟩ :=
    verifyHotKeySignature_eq_ok hsigned
  obtain ⟨note,hnotes,hroot,hrecipient,hasset⟩ := validateP2idOutput_note hvalid
  obtain ⟨payee,htarget,hmerchant⟩ := checkRecipient_eq_ok hrecipient
  obtain ⟨asset,hassets,hfaucet,hamount⟩ := checkAsset_eq_ok hasset
  obtain ⟨hlist,-,cap,amount,hcap,hamount',hle⟩ := checkMandate_eq_ok hallowed
  -- the message under the signature is the commitment of the summary whose output was checked
  have hcommitment : message = summary.commitment := by
    rw [signedMessage,if_pos hreal,hdecode] at hmessage
    exact (Except.ok.inj hmessage).symm
  -- both readings of the amount see one number
  have hsame : amount = asset.amount := by
    have hwide := Rust.fromStrRadix_mono (show 2 ^ 64 ≤ 2 ^ 128 by decide) hamount
    exact Option.some.inj (hamount'.symm.trans hwide)
  subst hcommitment hsame
  exact ⟨record,mandate,summary,signature,note,payee,asset,cap,hrecord,hmandate,hdecode,hkey,hverify,
    ⟨sigHex,bytes,hsig,hbytes,hread⟩,hnotes,hroot,htarget,hmerchant,hlist,hassets,hfaucet,hamount,
    hcap,hle⟩

end Accepted

theorem sampleRealPayload_accepted : (postPayment sampleMiden sampleStore "a"
    (sampleRealPayload "0xs0" "0xs1") 7 registeredFiles).result =
      .ok ⟨7,"0xs1",["0xaa"],1,"0xack"⟩ := by
  decide +kernel

/-- The same signed summary, sent on with another new state commitment, is accepted as well. -/
theorem new_state_not_signed :
    (sampleRealPayload "0xs0" "0xs2").txSummary = (sampleRealPayload "0xs0" "0xs1").txSummary ∧
    (sampleRealPayload "0xs0" "0xs2").hotKeySignature =
      (sampleRealPayload "0xs0" "0xs1").hotKeySignature ∧
    ∃ ack ack', (postPayment sampleMiden sampleStore "a" (sampleRealPayload "0xs0" "0xs1") 7
        registeredFiles).result = .ok ack ∧
      (postPayment sampleMiden sampleStore "a" (sampleRealPayload "0xs0" "0xs2") 7
        registeredFiles).result = .ok ack' ∧
      ack.newPendingStateCommitment = "0xs1" ∧ ack'.newPendingStateCommitment = "0xs2" :=
  ⟨rfl,rfl,⟨7,"0xs1",["0xaa"],1,"0xack"⟩,⟨7,"0xs2",["0xaa"],1,"0xack"⟩,sampleRealPayload_accepted,
    by decide +kernel,rfl,rfl⟩

theorem mandate_binds_sample : ∃ summary note asset,
    decodeSummary sampleMiden (sampleRealPayload "0xs0" "0xs1").txSummary = .ok summary ∧
    summary.outputNotes = [.full note] ∧ note.fungibleAssets = [asset] ∧
    Rust.parseU64 (sampleRealPayload "0xs0" "0xs1").x402Context.amount = some asset.amount := by
  obtain ⟨_,_,summary,_,note,_,asset,_,-,-,hdecode,-,-,-,hnotes,-,-,-,-,hassets,-,hamount,-,-⟩ :=
    mandate_binds (by decide) sampleRealPayload_accepted
  exact ⟨summary,note,asset,hdecode,hnotes,hassets,hamount⟩

theorem summary_binds_sample : ∃ fs1 fs1' record record' terms,
    (postPayment sampleMiden sampleStore "a" (sampleRealPayload "0xs0" "0xs1") 7).exec
      registeredFiles = .ok (⟨7,"0xs1",["0xaa"],1,"0xack"⟩,fs1) ∧
    (postPayment sampleMiden sampleStore "a" (sampleRealPayload "0xs0" "0xs2") 7).exec
      registeredFiles = .ok (⟨7,"0xs2",["0xaa"],1,"0xack"⟩,fs1') ∧
    sampleStore.nullifierView "a" fs1 = sampleStore.nullifierView "a" fs1' ∧
    fs1.readFile (sampleStore.queueFile "a" 1) = some (.queued record) ∧
    fs1'.readFile (sampleStore.queueFile "a" 1) = some (.queued record') ∧
    record.payload.x402Context.terms sampleMiden = some terms ∧
    record'.payload.x402Context.terms sampleMiden = some terms := by
  have h' : (postPayment sampleMiden sampleStore "a" (sampleRealPayload "0xs0" "0xs2") 7
      registeredFiles).result = .ok ⟨7,"0xs2",["0xaa"],1,"0xack"⟩ := by decide +kernel
  have hreal : isRealMode (sampleRealPayload "0xs0" "0xs1").txSummary = true := by decide
  have hexec := (Prog.exec_eq_ok_iff _ registeredFiles _ _).mpr ⟨sampleRealPayload_accepted,rfl⟩
  have hexec' := (Prog.exec_eq_ok_iff _ registeredFiles _ _).mpr ⟨h',rfl⟩
  have hsummary : (sampleRealPayload "0xs0" "0xs2").txSummary =
      (sampleRealPayload "0xs0" "0xs1").txSummary := rfl
  obtain ⟨-,-,hbound,-⟩ := summary_binds sampleMiden_hexDigits hsummary hexec hexec'
  obtain ⟨_,terms,_,record,record',-,-,-,hshown,hshown',hterms,hterms'⟩ := hbound hreal
  exact ⟨_,_,record,record',terms,hexec,hexec',hshown.reserved.trans hshown'.reserved.symm,
    hshown.queued,hshown'.queued,hterms,hterms'⟩

end MidenX402.Facilitator
