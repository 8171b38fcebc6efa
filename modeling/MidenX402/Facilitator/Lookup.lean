import MidenX402.Facilitator.Records
import MidenX402.Facilitator.Batch

/-!
# Payments are found again

A merchant looks a payment up by one of its nullifiers.  Between two states of a run the record it
finds is the same payment, at the same stage or a later one.
-/

namespace MidenX402.Facilitator
open Disk KeyedLock

section Api

end Api

section Moves
variable {M : Miden} {store : FilesystemX402Store} {maxSize : ℕ} {a b : String} {fs fs' : Files}
  {s s' : Server} {act : Action}

/-- The files in the directory of an agent itself. -/
def topFiles (store : FilesystemX402Store) (b : String) : Set Path :=
  {p | ∃ name, p = store.agentPath b ++ [name]}

theorem pair_subset_topFiles (name : String) : filePair (store.agentPath b) name ⊆ topFiles store b := by
  rintro p (rfl | rfl)
  · exact ⟨name,rfl⟩
  · exact ⟨_,rfl⟩

theorem belowKept_of_top (h : Frame (topFiles store b) fs fs') : BelowKept store a fs fs' := by
  refine ⟨?_,h.dirs⟩
  intro sub name
  apply h.files
  rintro ⟨name',he⟩
  exact keyPath_ne_below name' a sub name he.symm

theorem enqueue_frame (hb : IsPlain b) {tx : QueuedTx} (hns : ∀ n ∈ tx.nullifiers, IsPlain n)
    (hafter : after (store.enqueue b tx) fs = some fs') : Frame (agentFiles store b) fs fs' := by
  refine (after_steps (enqueue_steps hb hns ?_ ?_) hafter).toFrame
  · exact pair_subset_agentFiles _ _
  · exact fun n _ => pair_subset_agentFiles _ n

theorem registerOp_frame {record : AgentRecord} {mandate : AgentMandate} {initial : String}
    {op : RegisterOp} (hb : IsPlain record.agentId)
    (hop : op ∈ store.registerOps record mandate initial) (hafter : after op.run fs = some fs') :
    Frame (topFiles store record.agentId) fs fs' :=
  (after_steps (registerOp_steps hb hop fun name _ => pair_subset_topFiles name) hafter).toFrame

/-- A move as the records of an agent see it: nothing, a new payment, or the worker. -/
inductive RecordMove (store : FilesystemX402Store) (maxSize : ℕ) (a : String) (s s' : Server) : Prop
  | quiet (hfiles : BelowKept store a s.files s'.files) (hhistory : s'.history a = s.history a)
      (hworker : s'.worker = s.worker) (hattempts : s'.attempts = s.attempts)
      (hticks : s'.ticks = s.ticks)
  | enqueue {payload p ns now} (ha : IsPlain a) (hinside : s.Inside a payload (.advanced p ns now))
      (hafter : after (store.enqueue a (queuedTx p payload ns now)) s.files = some s'.files)
      (hhistory : s'.history a = s.history a ++ [⟨a,p.lastAcceptedSeq + 1,payload,ns⟩])
      (hworker : s'.worker = s.worker) (hattempts : s'.attempts = s.attempts)
      (hticks : s'.ticks = s.ticks)
  | work {attempts ticks}
      (hwork : WorkMove store maxSize s.files s.worker s'.worker s'.files attempts ticks)
      (hhistory : s'.history a = s.history a) (hattempts : s'.attempts = s.attempts ++ attempts)
      (hticks : s'.ticks = s.ticks + ticks)

theorem StageMove.below {payload : AgenticPayload} {σ σ' : Stage}
    (h : StageMove M store b payload fs σ σ' fs') (hb : IsPlain b)
    (hns : ∀ n ∈ σ.nullifiers, IsPlain n) (hab : a ≠ b ∨ ∀ p ns now, σ ≠ .advanced p ns now) :
    BelowKept store a fs fs' := by
  cases h with
  | reserve hafter =>
    exact belowKept_of_top
      (after_steps (reserveNullifiers_steps (S := topFiles store b) hb ⟨_,rfl⟩) hafter).toFrame
  | advance hafter =>
    exact belowKept_of_top
      (after_steps (advancePendingState_steps hb (pair_subset_topFiles _)) hafter).toFrame
  | enqueue hafter =>
    exact belowKept_of_other (hab.resolve_right fun hne => hne _ _ _ rfl) (enqueue_frame hb hns hafter)
  | _ => exact BelowKept.rfl

theorem RecordMove.of_stage {t m : ℕ} {r : Request} {σ σ' : Stage} (hplain : PlainInv store s)
    (hns : ∀ b payload σ, s.Inside b payload σ → ∀ n ∈ σ.nullifiers, IsPlain n)
    (hr : s.request t = some r) (hp : r.phase = .inside m σ)
    (hstage : StageMove M store r.agentId r.payload s.files σ σ' s'.files)
    (haccepted : s'.accepted = s.accepted ++ acceptance r.agentId r.payload σ')
    (hworker : s'.worker = s.worker) (hattempts : s'.attempts = s.attempts)
    (hticks : s'.ticks = s.ticks) : RecordMove store maxSize a s s' := by
  have hb := hplain.requests t r hr
  have hinside : s.Inside r.agentId r.payload σ := ⟨t,insideAt_of_phase hr hp⟩
  have hhistory := history_append (a := a) haccepted
  by_cases hra : r.agentId = a
  · subst hra
    rw [if_pos rfl] at hhistory
    by_cases hadv : ∃ p ns now, σ = .advanced p ns now
    · obtain ⟨p,ns,now,rfl⟩ := hadv
      generalize hfs : s'.files = fs' at hstage
      cases hstage with
      | enqueue hafter =>
        subst hfs
        exact .enqueue hb hinside hafter hhistory hworker hattempts hticks
    · have hbelow := hstage.below hb (hns _ _ _ hinside) (a := r.agentId)
        (Or.inr fun p ns now he => hadv ⟨p,ns,now,he⟩)
      rw [hstage.acceptance_eq_nil hadv,List.append_nil] at hhistory
      exact .quiet hbelow hhistory hworker hattempts hticks
  · rw [if_neg hra,List.append_nil] at hhistory
    exact .quiet (hstage.below hb (hns _ _ _ hinside) (Or.inl (Ne.symm hra))) hhistory hworker
      hattempts hticks

theorem Move.record (hmove : Move M store maxSize s act s') (hplain : PlainInv store s)
    (hns : ∀ b payload σ, s.Inside b payload σ → ∀ n ∈ σ.nullifiers, IsPlain n)
    (hact : act.fails = false ∧ act ≠ .restart) (a : String) : RecordMove store maxSize a s s' := by
  cases hmove with
  | stay => exact .quiet BelowKept.rfl rfl rfl rfl rfl
  | begin _ => exact .quiet BelowKept.rfl rfl rfl rfl rfl
  | @registration t g op rest fs' hg htodo hafter =>
    have henrols := hplain.registrations t g hg
    have hmem := henrols.mem_ops (htodo ▸ List.mem_cons_self)
    exact .quiet (belowKept_of_top (registerOp_frame henrols.plain hmem hafter)) rfl rfl rfl rfl
  | registrationFails _ _ _ => cases hact.1
  | arrive => exact .quiet BelowKept.rfl rfl rfl rfl rfl
  | miss _ _ => exact .quiet BelowKept.rfl rfl rfl rfl rfl
  | find _ _ _ => exact .quiet BelowKept.rfl rfl rfl rfl rfl
  | insert _ _ => exact .quiet BelowKept.rfl rfl rfl rfl rfl
  | acquire _ _ _ => exact .quiet BelowKept.rfl rfl rfl rfl rfl
  | stage hr hp hstage => exact .of_stage hplain hns hr hp hstage rfl rfl rfl rfl
  | leave _ _ _ => exact .quiet BelowKept.rfl rfl rfl rfl rfl
  | requestFails _ _ _ => cases hact.1
  | work _ hwork => exact .work hwork rfl rfl rfl
  | workFails _ => cases hact.1
  | restart _ _ => exact absurd rfl hact.2

theorem IntactInv.record (h : IntactInv M store s) (hact : act.Smooth M ∧ act ≠ .restart)
    (hmove : Move M store maxSize s act s') (a : String) : RecordMove store maxSize a s s' :=
  hmove.record h.server.plain (fun _ _ _ hi => h.stage_plain hi) ⟨hact.1.2,hact.2⟩ a

end Moves

section Sentinels
variable {M : Miden} {store : FilesystemX402Store} {maxSize : ℕ} {a b : String} {fs fs' : Files}
  {history : List Acceptance} {w w' : Worker}

/-- Each nullifier of an accepted payment leads to the number of the payment. -/
def SentinelsInv (store : FilesystemX402Store) (a : String) (fs : Files) (history : List Acceptance) :
    Prop :=
  ∀ x ∈ history, ∀ n ∈ x.nullifiers,
    fs.fileAt (store.paymentsPath a ++ [n]) = some (.lookup x.seq) ∧ HasSub store fs a "payments"

theorem SentinelsInv.kept (h : SentinelsInv store a fs history)
    (hfiles : ∀ name, fs'.fileAt (store.paymentsPath a ++ [name]) =
      fs.fileAt (store.paymentsPath a ++ [name]))
    (hdirs : ∀ p, fs.isDir p = true → fs'.isDir p = true) : SentinelsInv store a fs' history := by
  intro x hx n hn
  obtain ⟨hfile,hdir⟩ := h x hx n hn
  exact ⟨(hfiles n).trans hfile,hdir.mono hdirs⟩

/-- The files in the directories where records lie. -/
def recordArea (store : FilesystemX402Store) : Set Path :=
  {p | ∃ b, ∃ sub ∈ recordDirs, ∃ name, p = store.agentPath b ++ [sub] ++ [name]}

theorem pair_subset_recordArea {sub : String} (hsub : sub ∈ recordDirs) (name : String) :
    filePair (store.agentPath b ++ [sub]) name ⊆ recordArea store := by
  rintro p (rfl | rfl)
  · exact ⟨b,sub,hsub,name,rfl⟩
  · exact ⟨b,sub,hsub,_,rfl⟩

theorem payments_notMem_recordArea (a name : String) :
    store.paymentsPath a ++ [name] ∉ recordArea store := by
  rintro ⟨b,sub,hsub,name',he⟩
  simp only [FilesystemX402Store.paymentsPath,FilesystemX402Store.agentPath,List.append_assoc,
    List.append_cancel_left_eq,List.cons_append,List.nil_append,List.cons.injEq] at he
  rw [← he.2.1] at hsub
  exact absurd hsub (by decide)

theorem WorkMove.recordArea {attempts : List (String × ℕ)} {ticks : ℕ}
    (h : WorkMove store maxSize fs w w' fs' attempts ticks) (hnames : ∀ b ∈ w.names, IsPlain b) :
    Frame (Facilitator.recordArea store) fs fs' := by
  have hstay : Frame (Facilitator.recordArea store) fs fs := Std.Refl.refl fs
  cases h with
  | prove hafter =>
    exact (after_steps (upsertQueued_steps (hnames _ List.mem_cons_self)
      fun sub hsub => pair_subset_recordArea hsub _) hafter).toFrame
  | finish hafter =>
    exact (after_steps (upsertQueued_steps (hnames _ List.mem_cons_self)
      fun sub hsub => pair_subset_recordArea hsub _) hafter).toFrame
  | @move b seq todo rest _ hafter =>
    refine (after_steps (moveToFailed_steps (hnames _ List.mem_cons_self) ?_ ?_) hafter).toFrame
    · exact ⟨b,"pending_queue",by decide,_,rfl⟩
    · exact ⟨b,"failed",by decide,_,rfl⟩
  | _ => exact hstay

theorem SentinelsInv.enqueue {tx : QueuedTx} {x : Acceptance} (h : SentinelsInv store a fs history)
    (ha : IsPlain a) (hns : ∀ n ∈ tx.nullifiers, IsPlain n) (hseq : x.seq = tx.seq)
    (hnullifiers : x.nullifiers = tx.nullifiers)
    (hdisjoint : ∀ y ∈ history, y.nullifiers.Disjoint tx.nullifiers)
    (htmp : ∀ y ∈ history ++ [x], ∀ n ∈ y.nullifiers, ∀ m ∈ tx.nullifiers, n ≠ "." ++ m ++ ".tmp")
    (hafter : after (store.enqueue a tx) fs = some fs') : SentinelsInv store a fs' (history ++ [x]) := by
  obtain ⟨fs1,hw,-,hsentinels⟩ := enqueue_written ha hafter
  have hqueue : ∀ n, fs1.fileAt (store.paymentsPath a ++ [n]) =
      fs.fileAt (store.paymentsPath a ++ [n]) := by
    intro n
    have hdir : ∀ name, store.paymentsPath a ++ [n] ≠ store.queuePath a ++ [name] := by
      intro name he
      apply payments_notMem_recordArea a n
      exact ⟨a,"pending_queue",by decide,name,he⟩
    exact hw.others _ (hdir _) (hdir _)
  intro y hy n hn
  obtain ⟨hfile,hdir⟩ := writeSentinels_written ha hns hsentinels (htmp y hy n hn)
  rcases List.mem_append.mp hy with hold | hnew
  · have hout : n ∉ tx.nullifiers := hdisjoint y hold hn
    obtain ⟨hfile0,hdir0⟩ := h y hold n hn
    rw [if_neg hout,hqueue] at hfile
    have hframe : Frame Set.univ fs1 fs' :=
      ((writeSentinels_steps ha hns fun _ _ => Set.subset_univ _).exec hsentinels).toFrame
    exact ⟨hfile.trans hfile0,hdir0.mono fun p hp => hframe.dirs p (hw.dirs p hp)⟩
  · rw [List.mem_singleton.mp hnew] at hn ⊢
    rw [hnullifiers] at hn
    rw [if_pos hn] at hfile
    rw [hseq]
    exact ⟨hfile,hdir (List.ne_nil_of_mem hn)⟩

/-- A payment is found through any of its sentinels, in exactly one record file. -/
structure Found (store : FilesystemX402Store) (fs : Files) (a : String) (x : Acceptance)
    (tx : QueuedTx) : Prop where
  file : ∃ sub ∈ recordDirs,
    fs.readFile (store.agentDir a ++ [sub,seqFile x.seq]) = some (.queued tx) ∧
    ∀ sub' ∈ recordDirs, sub' ≠ sub → fs.readFile (store.agentDir a ++ [sub',seqFile x.seq]) = none
  lookup : ∀ n ∈ x.nullifiers, store.lookupPayment a n fs = .ok tx
  record : RecordOf x tx

theorem lookupPayment_of_record (ha : IsPlain a) {n : String} (hn : IsPlain n) {q : ℕ} {tx : QueuedTx}
    (hdir : HasSub store fs a "payments")
    (hfile : fs.fileAt (store.paymentsPath a ++ [n]) = some (.lookup q)) {p : List String}
    (hfind : (store.recordFiles a q).find? (fun p => (fs.readFile p).isSome) = some p)
    (hp : fs.readFile p = some (.queued tx)) (hread : tx.Readable) :
    store.lookupPayment a n fs = .ok tx := by
  have hsentinel : readJson Content.toLookup (join (store.paymentsDir a) n) fs = .ok q := by
    rw [readJson_eq_ok_iff,sentinel_eq ha hn,readFile_concat hn,
      components_of_plain (plain_paymentsPath ha)]
    refine ⟨.lookup q,?_,rfl⟩
    have hres : fs.resolveDir [] (store.paymentsPath a) = some (store.paymentsPath a) := hdir
    rw [hres]
    exact hfile
  delta FilesystemX402Store.lookupPayment
  rw [hsentinel]
  simp only [hfind]
  exact readJson_eq_ok_iff.mpr ⟨_,hp,Content.toQueued_eq_some.mpr ⟨rfl,hread⟩⟩

theorem RecordsInv.found {used : ℕ → Prop} {x : Acceptance} {tx : QueuedTx}
    (h : RecordsInv store a fs w used history) (hs : SentinelsInv store a fs history) (ha : IsPlain a)
    (hx : x ∈ history) (hns : ∀ n ∈ x.nullifiers, IsPlain n) (hat : RecordAt store a fs x.seq tx)
    (hof : RecordOf x tx) (hfits : x.payload.FitsRecord) : Found store fs a x tx := by
  have hread : tx.Readable := by
    rw [QueuedTx.Readable,hof.payload]
    exact hfits
  have hpath : ∀ sub, store.agentDir a ++ [sub,seqFile x.seq] = store.recordPath a sub x.seq := by
    intro sub
    rw [agentDir_eq ha,FilesystemX402Store.recordPath,List.append_assoc]
    rfl
  have hcommitted := readFile_eq_none ha (by decide) (h.committed x.seq)
  have hfound : ∃ sub ∈ recordDirs, fs.readFile (store.recordPath a sub x.seq) = some (.queued tx) ∧
      ∀ sub' ∈ recordDirs, sub' ≠ sub → fs.readFile (store.recordPath a sub' x.seq) = none := by
    cases hat with
    | queued hfile hnone =>
      have hdir : HasSub store fs a "pending_queue" := (h.named _ _ hfile).1
      refine ⟨"pending_queue",by decide,(hdir.readFile ha (by decide) _).trans hfile,?_⟩
      intro sub' hsub' hne
      rcases List.mem_cons.mp hsub' with rfl | hsub'
      · exact absurd rfl hne
      rcases List.mem_cons.mp hsub' with rfl | hsub'
      · exact hcommitted
      rw [List.mem_singleton.mp hsub']
      exact readFile_eq_none ha (by decide) hnone
    | failed hdir hnone hfile _ =>
      refine ⟨"failed",by decide,(hdir.readFile ha (by decide) _).trans hfile,?_⟩
      intro sub' hsub' hne
      rcases List.mem_cons.mp hsub' with rfl | hsub'
      · exact readFile_eq_none ha (by decide) hnone
      rcases List.mem_cons.mp hsub' with rfl | hsub'
      · exact hcommitted
      exact absurd (List.mem_singleton.mp hsub') hne
  obtain ⟨sub,hsub,hfile,hothers⟩ := hfound
  have hfind : (store.recordFiles a x.seq).find? (fun p => (fs.readFile p).isSome) =
      some (store.recordPath a sub x.seq) := by
    rw [recordFiles_eq ha,List.find?_map]
    have hone : recordDirs.find? ((fun p => (fs.readFile p).isSome) ∘
        fun sub => store.recordPath a sub x.seq) = some sub := by
      cases hf : recordDirs.find? ((fun p => (fs.readFile p).isSome) ∘
          fun sub => store.recordPath a sub x.seq) with
      | none =>
        have hno := List.find?_eq_none.mp hf sub hsub
        simp [hfile] at hno
      | some sub' =>
        by_contra hne
        have hyes := List.find?_some hf
        have hnone := hothers sub' (List.mem_of_find?_eq_some hf) fun he => hne (congrArg some he)
        simp [hnone] at hyes
    rw [hone]
    rfl
  refine ⟨⟨sub,hsub,?_,?_⟩,?_,hof⟩
  · rw [hpath]
    exact hfile
  · intro sub' hsub' hne
    rw [hpath]
    exact hothers sub' hsub' hne
  · intro n hn
    obtain ⟨hsent,hdir⟩ := hs x hx n hn
    exact lookupPayment_of_record ha (hns n hn) hdir hsent hfind hfile hread

end Sentinels

section Kept
variable {M : Miden} {store : FilesystemX402Store} {maxSize : ℕ} {s s' : Server} {act : Action}
  {acts later : List Action} {fs : Files} {a : String} {names : List (String × String)}
  {x : Acceptance}

/-- The nullifiers of an arriving payment, with the agent it is for. -/
def Action.nullifiers (M : Miden) : Action → List (String × String)
  | .arrive a payload => (payloadNullifiers M payload).map fun n => (a,n)
  | _ => []

/-- No nullifier of an agent is the name of the temporary file beside the sentinel of another. -/
def Untangled (names : List (String × String)) : Prop :=
  ∀ x ∈ names, ∀ y ∈ names, x.1 = y.1 → x.2 ≠ "." ++ y.2 ++ ".tmp"

instance (names : List (String × String)) : Decidable (Untangled names) :=
  inferInstanceAs (Decidable (∀ x ∈ names, ∀ y ∈ names, x.1 = y.1 → x.2 ≠ "." ++ y.2 ++ ".tmp"))

/-- `names` are the nullifiers that arrive in the run. -/
structure KeptInv (M : Miden) (store : FilesystemX402Store) (names : List (String × String))
    (s : Server) : Prop where
  intact : IntactInv M store s
  requests : ∀ t r, s.request t = some r → ∀ n ∈ payloadNullifiers M r.payload, (r.agentId,n) ∈ names
  accepted : ∀ a, ∀ x ∈ s.history a, ∀ n ∈ x.nullifiers, (a,n) ∈ names ∧ IsPlain n
  records : ∀ a, RecordsInv store a s.files s.worker (fun q => ∃ x ∈ s.history a, x.seq = q)
    (s.history a)
  sentinels : ∀ a, SentinelsInv store a s.files (s.history a)

theorem ServerInv.seq_le (h : ServerInv M store s) (hx : x ∈ s.history a) :
    x.seq ≤ (s.history a).length := by
  have hmem : x.seq ∈ (s.history a).map Acceptance.seq := List.mem_map_of_mem hx
  rw [h.seqs a,List.mem_range'_1] at hmem
  omega

/-- What a request knows that is about to queue its payment. -/
theorem KeptInv.advanced (h : KeptInv M store names s) {payload : AgenticPayload} {p : PendingState}
    {ns : List String} {now : ℕ} (hi : s.Inside a payload (.advanced p ns now)) :
    p.lastAcceptedSeq = (s.history a).length ∧ (∀ n ∈ ns, (a,n) ∈ names ∧ IsPlain n) ∧
      ∀ y ∈ s.history a, y.nullifiers.Disjoint ns := by
  obtain ⟨hclaims,hdisjoint,-⟩ := (h.intact.server.reserving a).stages payload _ hi
  refine ⟨h.intact.server.next_seq hi,?_,hdisjoint⟩
  intro n hn
  refine ⟨?_,h.intact.stage_plain hi n hn⟩
  rw [hclaims.derived] at hn
  obtain ⟨t,m,hm⟩ := hi
  exact h.requests t _ hm n hn

/-- One step, for one agent. -/
theorem KeptInv.agent (h : KeptInv M store names s) (hnames : Untangled names)
    (hmove : RecordMove store maxSize a s s') :
    (∀ x ∈ s'.history a, ∀ n ∈ x.nullifiers, (a,n) ∈ names ∧ IsPlain n) ∧
    RecordsInv store a s'.files s'.worker (fun q => ∃ x ∈ s'.history a, x.seq = q) (s'.history a) ∧
    SentinelsInv store a s'.files (s'.history a) ∧
    Advances store a s.files s'.files (s.history a) := by
  cases hmove with
  | quiet hfiles hhistory hworker _ _ =>
    rw [hhistory,hworker]
    exact ⟨h.accepted a,(h.records a).kept hfiles.records,
      (h.sentinels a).kept (fun name => hfiles.files _ name) hfiles.dirs,hfiles.records.advances⟩
  | @enqueue payload p ns now ha hinside hafter hhistory hworker _ _ =>
    obtain ⟨hlen,hns,hdisjoint⟩ := h.advanced hinside
    have haccepted : ∀ x ∈ s'.history a, ∀ n ∈ x.nullifiers, (a,n) ∈ names ∧ IsPlain n := by
      intro x hx n hn
      rw [hhistory] at hx
      rcases List.mem_append.mp hx with hold | hnew
      · exact h.accepted a x hold n hn
      · rw [List.mem_singleton.mp hnew] at hn
        exact hns n hn
    have hfree : ¬ ∃ x ∈ s.history a, x.seq = p.lastAcceptedSeq + 1 := by
      rintro ⟨x,hx,hseq⟩
      have hle := h.intact.server.seq_le hx
      omega
    have hused : ∀ q, (∃ x ∈ s.history a, x.seq = q) → ∃ x ∈ s'.history a, x.seq = q := by
      rintro q ⟨x,hx,hseq⟩
      exact ⟨x,hhistory ▸ List.mem_append_left _ hx,hseq⟩
    have hself : ∃ x ∈ s'.history a, x.seq = p.lastAcceptedSeq + 1 :=
      ⟨_,hhistory ▸ List.mem_append_right _ List.mem_cons_self,rfl⟩
    obtain ⟨hrecords,hadvances⟩ := (h.records a).enqueue (x := ⟨a,p.lastAcceptedSeq + 1,payload,ns⟩) ha
      (fun n hn => (hns n hn).2) rfl rfl rfl hfree hused hself hafter
    refine ⟨haccepted,?_,?_,hadvances⟩
    · rw [← hhistory] at hrecords
      rw [hworker]
      exact hrecords
    · rw [hhistory]
      refine (h.sentinels a).enqueue ha (fun n hn => (hns n hn).2) rfl rfl hdisjoint ?_ hafter
      intro y hy n hn m hm
      rw [← hhistory] at hy
      exact hnames _ (haccepted y hy n hn).1 _ (hns m hm).1 rfl
  | work hwork hhistory _ _ =>
    have hframe := hwork.recordArea h.intact.server.plain.worker
    obtain ⟨hrecords,hadvances⟩ := (h.records a).work h.intact.server.plain.worker hwork
    rw [hhistory]
    refine ⟨h.accepted a,hrecords,(h.sentinels a).kept ?_ hframe.dirs,hadvances⟩
    exact fun name => hframe.files _ (payments_notMem_recordArea a name)

theorem KeptInv.move (h : KeptInv M store names s) (hnames : Untangled names)
    (hact : (act.Smooth M ∧ act ≠ .restart) ∧ ∀ x ∈ act.nullifiers M, x ∈ names)
    (hsole : s.Unraced store act) (hmove : Move M store maxSize s act s') :
    KeptInv M store names s' ∧ ∀ a, Advances store a s.files s'.files (s.history a) := by
  have hrecord := h.intact.record hact.1 hmove
  refine ⟨⟨h.intact.move hact.1.1.1 hsole hact.1.1.2 hmove,?_,?_,?_,?_⟩,?_⟩
  · refine hmove.requests_all
      (P := fun a payload => ∀ n ∈ payloadNullifiers M payload, (a,n) ∈ names) h.requests ?_
    rintro a payload rfl n hn
    exact hact.2 _ (List.mem_map_of_mem hn)
  · exact fun a => (h.agent hnames (hrecord a)).1
  · exact fun a => (h.agent hnames (hrecord a)).2.1
  · exact fun a => (h.agent hnames (hrecord a)).2.2.1
  · exact fun a => (h.agent hnames (hrecord a)).2.2.2

theorem recordsInv_start (hfresh : Fresh store fs) (a : String) (used : ℕ → Prop) :
    RecordsInv store a fs .idle used [] := by
  have hbelow : ∀ sub name, fs.fileAt (store.agentPath a ++ [sub] ++ [name]) = none := by
    intro sub name
    rw [FilesystemX402Store.agentPath,List.append_assoc,List.append_assoc]
    exact hfresh _
  refine ⟨?_,fun q => hbelow _ _,?_,fun _ hx => absurd hx List.not_mem_nil,trivial,?_⟩
  · intro name c hf
    rw [show fs.fileAt (store.queuePath a ++ [name]) = none from hbelow _ name] at hf
    cases hf
  · intro sub _ q c hf
    rw [show fs.fileAt (store.recordPath a sub q) = none from hbelow sub _] at hf
    cases hf
  · intro q tx hf
    rw [show fs.fileAt (store.recordPath a "pending_queue" q) = none from hbelow _ _] at hf
    cases hf

theorem KeptInv.run (h : KeptInv M store names s) (hnames : Untangled names)
    (hacts : ∀ act ∈ acts, (act.Smooth M ∧ act ≠ .restart) ∧ ∀ x ∈ act.nullifiers M, x ∈ names)
    (hsole : s.Along M store maxSize (Server.Unraced store) acts)
    (hrun : s.run M store maxSize acts = some s') : KeptInv M store names s' :=
  run_along (fun hs hact hmove => (KeptInv.move hs hnames hact.1 hact.2 hmove).1) h
    ((along_of_forall fun act h _ => hacts act h).and hsole) hrun

theorem RecordMove.history_mono (h : RecordMove store maxSize a s s') (hx : x ∈ s.history a) :
    x ∈ s'.history a := by
  cases h with
  | quiet _ hhistory _ _ _ =>
    rw [hhistory]
    exact hx
  | enqueue _ _ _ hhistory _ _ _ =>
    rw [hhistory]
    exact List.mem_append_left _ hx
  | work _ hhistory _ _ =>
    rw [hhistory]
    exact hx

/-- The record of a payment at the end of a run continues the one at its start. -/
theorem KeptInv.continues (h : KeptInv M store names s) (hnames : Untangled names)
    (hacts : ∀ act ∈ acts, (act.Smooth M ∧ act ≠ .restart) ∧ ∀ x ∈ act.nullifiers M, x ∈ names)
    (hsole : s.Along M store maxSize (Server.Unraced store) acts)
    (hrun : s.run M store maxSize acts = some s') (hx : x ∈ s.history a) {tx : QueuedTx}
    (hat : RecordAt store a s.files x.seq tx) :
    x ∈ s'.history a ∧ ∃ tx', RecordAt store a s'.files x.seq tx' ∧ Continues tx tx' := by
  have hinv : KeptInv M store names s' ∧ x ∈ s'.history a ∧
      ∃ tx', RecordAt store a s'.files x.seq tx' ∧ Continues tx tx' := by
    refine run_along (P := fun s' => KeptInv M store names s' ∧ x ∈ s'.history a ∧
      ∃ tx', RecordAt store a s'.files x.seq tx' ∧ Continues tx tx') ?_ ⟨h,hx,tx,hat,.rfl⟩
      ((along_of_forall fun act h _ => hacts act h).and hsole) hrun
    rintro s1 s2 act ⟨hs,hx1,tx1,hat1,hcont1⟩ ⟨hact,hunraced⟩ hmove
    obtain ⟨hs2,hadvances⟩ := hs.move hnames hact hunraced hmove
    obtain ⟨tx2,hat2,hcont2⟩ := hadvances a x hx1 tx1 hat1
    exact ⟨hs2,(hs.intact.record hact.1 hmove a).history_mono hx1,tx2,hat2,hcont1.trans hcont2⟩
  exact hinv.2

theorem KeptInv.found (h : KeptInv M store names s) (hx : x ∈ s.history a) {tx : QueuedTx}
    (hat : RecordAt store a s.files x.seq tx) (hof : RecordOf x tx) (hfits : x.payload.FitsRecord) :
    Found store s.files a x tx := by
  cases hs : s.initialOf a with
  | none =>
    rw [(h.intact.server.unregistered hs).history] at hx
    cases hx
  | some initial =>
    have ha := (h.intact.server.following hs).plain
    exact (h.records a).found (h.sentinels a) ha hx (fun n hn => (h.accepted a x hx n hn).2) hat hof
      hfits

/-- A payment whose summary nests as deep as a request may. -/
def deepPayload : AgenticPayload :=
  { samplePayload "0xs0" "0xs1" ["0x01"] with
    txSummary := { (samplePayload "0xs0" "0xs1" ["0x01"]).txSummary with depth := 126 } }

-- It is accepted, and its record cannot be read back.
example : ((Server.start emptyFiles).run sampleMiden sampleStore 1
    (sampleRegister 0 "a" ++ samplePay 0 11 "a" deepPayload)).map (fun s =>
      ((s.history "a").length,sampleStore.lookupPayment "a" "0x01" s.files)) =
    some (1,.error (.internal "read /data/agents/a/pending_queue/1.json")) := by decide +kernel

end Kept

end MidenX402.Facilitator
