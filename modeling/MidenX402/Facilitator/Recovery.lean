import MidenX402.Facilitator.Turns

/-!
# Payments after a kill

The process can be killed at any point.  Operations on the store that are under way are then stopped
somewhere in between, and the server starts again from what is on disk.
-/

namespace MidenX402.Facilitator
open Disk KeyedLock

section Kill
variable (M : Miden) (store : FilesystemX402Store) (maxSize : ℕ)

/-- The operation on the store that the worker is about to make. -/
def Worker.operation (now : ℕ) : Worker → Option (StoreOp Unit)
  | .batch agentId (tx :: _) _ => some (store.upsertQueued agentId (startProving tx now))
  | .finishing agentId tx _ _ => some (store.upsertQueued agentId tx)
  | .moving agentId seq _ _ => some (store.moveToFailed agentId seq)
  | _ => none

/-- The operation on the store that a request is about to make. -/
def Stage.operation (agentId : String) (payload : AgenticPayload) (now : ℕ) :
    Stage → Option (StoreOp Unit)
  | .clear pending nullifiers =>
    some (store.reserveNullifiers agentId (walEntries pending nullifiers now))
  | .reserved pending _ _ => some (store.advancePendingState agentId (newPending pending payload))
  | .advanced pending nullifiers now =>
    some (store.enqueue agentId (queuedTx pending payload nullifiers now))
  | _ => none

/-- An operation that a kill stops after some of its changes: one of the worker, of a request or of a
registration. -/
inductive Cut where
  | worker (now steps : ℕ)
  | request (thread now steps : ℕ)
  | registration (thread steps : ℕ)

/-- The operation is stopped, and whoever made it is gone. -/
def Server.cut (s : Server) : Cut → Option Server
  | .worker now steps => do
    let op ← s.worker.operation store now
    let files ← op.stopped steps s.files
    return { s with files := files, worker := .idle }
  | .request thread now steps => do
    let r ← s.request thread
    match r.phase with
    | .inside _ stage =>
      let op ← stage.operation store r.agentId r.payload now
      let files ← op.stopped steps s.files
      return { s with files := files }.setRequest thread none
    | _ => none
  | .registration thread steps => do
    let g ← s.registration thread
    let op ← g.todo.head?
    let files ← op.run.stopped steps s.files
    return { s with files := files }.setRegistration thread none

/-- The files are all that is left when the process starts again. -/
def Server.reboot (s : Server) : Server :=
  { s with locks := Table.empty, registrations := [], requests := [], worker := .idle }

/-- The process is killed while the given operations are under way, and started again. -/
def Server.kill (s : Server) (cuts : List Cut) : Option Server := do
  let s ← cuts.foldlM (Server.cut store) s
  return s.reboot

/-- A record is marked as being proved. -/
def Worker.isProving : Worker → Bool
  | .proving _ _ _ _ | .finishing _ _ _ _ => true
  | _ => false

/-- The first change a request in its last stage makes is to write the record. -/
def Server.recordSteps (s : Server) (thread : ℕ) : ℕ :=
  match s.request thread with
  | some ⟨agentId,payload,.inside _ (.advanced pending nullifiers now)⟩ =>
    (atomicWriteJson (store.queueFile agentId (pending.lastAcceptedSeq + 1))
      (.queued (queuedTx pending payload nullifiers now)) s.files).visited.length
  | _ => 0

/-- No file of a queue is stopped while it is written. -/
def Cut.Clean (s : Server) : Cut → Prop
  | .worker _ steps => s.worker.isProving = false ∧ steps = 0
  | .request thread _ steps => steps = 0 ∨ s.recordSteps store thread ≤ steps
  | .registration _ _ => True

/-- A kill at which no file of a queue is being written and no record is marked as being proved. -/
def CleanKill (s : Server) : List Cut → Prop
  | [] => s.worker.isProving = false
  | c :: cuts => c.Clean store s ∧ ∀ s', s.cut store c = some s' → CleanKill s' cuts

instance decidableClean (s : Server) (c : Cut) : Decidable (c.Clean store s) :=
  match c with
  | .worker _ steps => inferInstanceAs (Decidable (s.worker.isProving = false ∧ steps = 0))
  | .request thread _ steps =>
    inferInstanceAs (Decidable (steps = 0 ∨ s.recordSteps store thread ≤ steps))
  | .registration _ _ => isTrue trivial

instance decidableCleanKill (s : Server) (cuts : List Cut) : Decidable (CleanKill store s cuts) :=
  match cuts with
  | [] => inferInstanceAs (Decidable (s.worker.isProving = false))
  | c :: cuts =>
    match h : s.cut store c with
    | none => decidable_of_iff (c.Clean store s) (by simp [CleanKill,h])
    | some s' =>
      have : Decidable (CleanKill store s' cuts) := decidableCleanKill s' cuts
      decidable_of_iff (c.Clean store s ∧ CleanKill store s' cuts) (by simp [CleanKill,h])

/-- The records of the payments that arrive can be read back. -/
def Action.Fits : Action → Prop
  | .arrive _ payload => payload.FitsRecord
  | _ => True

instance (act : Action) : Decidable act.Fits :=
  match act with
  | .arrive _ payload => inferInstanceAs (Decidable payload.FitsRecord)
  | .register _ _ | .registration _ | .registrationFails _ _ | .request _ _ | .requestFails _ _ _
  | .tick _ | .work _ _ | .workFails _ _ | .lookup _ _ | .restart => isTrue trivial

/-- The states of runs with plain names and readable records, no two registrations of an agent at once,
in which every kill is clean. -/
inductive Reached (files : Files) : Server → Prop
  | start : Reached files (Server.start files)
  | act {s s' act} (hs : Reached files s) (hact : (act.Smooth M ∧ act ≠ .restart) ∧ act.Fits)
      (hsole : s.Unraced store act) (hstep : s.step M store maxSize act = some s') : Reached files s'
  | kill {s s' cuts} (hs : Reached files s) (hclean : CleanKill store s cuts)
      (hkill : s.kill store cuts = some s') : Reached files s'

end Kill

section Operations
variable {M : Miden} {store : FilesystemX402Store} {s s' : Server} {a b : String} {fs' : Files}
  {payload : AgenticPayload} {now steps : ℕ} {σ : Stage} {op : StoreOp Unit} {w : Worker}

theorem operation_frame (hb : IsPlain b) (hns : ∀ n ∈ σ.nullifiers, IsPlain n)
    (hop : σ.operation store b payload now = some op) (fs : Files) :
    op.Steps (Frame (agentFiles store b)) fs := by
  cases σ with
  | clear p ns =>
    obtain rfl := Option.some.inj hop
    exact (reserveNullifiers_steps (S := agentFiles store b) hb ⟨_,rfl⟩).imp fun _ h => h.toFrame
  | reserved p ns now =>
    obtain rfl := Option.some.inj hop
    have hpair : filePair (store.agentPath b ++ []) "pending_state.json" ⊆ agentFiles store b :=
      pair_subset_agentFiles [] "pending_state.json"
    rw [List.append_nil] at hpair
    exact (advancePendingState_steps hb hpair).imp fun _ h => h.toFrame
  | advanced p ns now =>
    obtain rfl := Option.some.inj hop
    exact (enqueue_steps hb hns (pair_subset_agentFiles _ _) fun n _ =>
      pair_subset_agentFiles _ n).imp fun _ h => h.toFrame
  | _ => cases hop

/-- An operation of a request writes its payload into the records, if it writes one. -/
theorem operation_keeps {R : Path → QueuedTx → Prop}
    (hR : ∀ p ns now, R (resolved (store.agentDir b)) (queuedTx p payload ns now))
    (hop : σ.operation store b payload now = some op) (fs : Files) :
    op.Steps (Keeps (RecordsBelow R)) fs := by
  cases σ with
  | clear p ns =>
    obtain rfl := Option.some.inj hop
    exact reserveNullifiers_keeps (silent_recordsBelow R)
  | reserved p ns now =>
    obtain rfl := Option.some.inj hop
    exact writeJson_keeps (silent_recordsBelow R) fun _ => recordsBelow_of_ne fun _ => nofun
  | advanced p ns now =>
    obtain rfl := Option.some.inj hop
    exact enqueue_keeps (silent_recordsBelow R) (recordsBelow_queued (hR p ns now))
  | _ => cases hop

/-- Whatever is stopped, agents it is not for have everything as before. -/
theorem NumbersInv.other (h : NumbersInv M store s) (hab : a ≠ b)
    (hframe : Frame (agentFiles store b) s.files fs') :
    (∀ payload σ, s.Inside a payload σ → σ.Counts store a payload fs') ∧
      RecordsInv store a fs' s.worker (Numbered store a fs') (s.history a) ∧
      ∀ p, PendingAt store a fs' p → PendingAt store a s.files p := by
  have hkept := (belowKept_of_other hab hframe).records
  have hsame := hframe.files _ (notMem_agentFiles hab ["pending_state.json"])
  have hpending : ∀ p, PendingAt store a s.files p → PendingAt store a fs' p :=
    fun p hp => hsame.trans hp
  have hwithin : ∀ used, NumbersWithin store a s.files used → NumbersWithin store a fs' used :=
    fun used hw sub hsub q c hf => hw sub hsub q c ((hkept.record sub hsub q).symm.trans hf)
  refine ⟨fun payload σ hi => (h.stages a payload σ hi).mono hframe.dirs hpending hwithin,?_,
    fun p hp => hsame.symm.trans hp⟩
  refine ((h.records a).kept hkept).renumber (hwithin _ ?_)
  intro sub hsub q c hf
  obtain ⟨ha,hdir,p,hp,hle⟩ := (h.records a).numbers sub hsub q c hf
  exact ⟨ha,hdir.mono hframe.dirs,p,hpending p hp,hle⟩

/-- The records are where they were, and the pending state has counted at least as far. -/
theorem NumbersInv.counted (h : NumbersInv M store s) (hkept : RecordsKept store b s.files fs')
    (hpending : ∀ p, PendingAt store b s.files p →
      ∃ p', PendingAt store b fs' p' ∧ p.lastAcceptedSeq ≤ p'.lastAcceptedSeq) :
    RecordsInv store b fs' s.worker (Numbered store b fs') (s.history b) := by
  refine ((h.records b).kept hkept).renumber fun sub hsub q c hf => ?_
  obtain ⟨hb,hdir,p,hp,hle⟩ :=
    (h.records b).numbers sub hsub q c ((hkept.record sub hsub q).symm.trans hf)
  obtain ⟨p',hp',hle'⟩ := hpending p hp
  exact ⟨hb,hdir.mono hkept.dirs,p',hp',hle.trans hle'⟩

/-- The record has been written completely; of the sentinels, some may be missing. -/
theorem NumbersInv.enqueue_stopped {p : PendingState} {ns : List String} (h : NumbersInv M store s)
    (hb : IsPlain b) (hinside : s.Inside b payload (.advanced p ns now))
    (hstop : (store.enqueue b (queuedTx p payload ns now)).stopped steps s.files = some fs')
    (hsteps : (atomicWriteJson (store.queueFile b (p.lastAcceptedSeq + 1))
      (.queued (queuedTx p payload ns now)) s.files).visited.length ≤ steps) :
    RecordsInv store b fs' s.worker (Numbered store b fs') (s.history b) := by
  have hns := h.names b payload _ hinside
  obtain ⟨hdir,hpending,hwithin⟩ := h.stages b payload _ hinside
  obtain ⟨u,fs1,hrecord,hrest⟩ := Prog.stopped_bind hstop hsteps
  have hrecord' := hrecord
  rw [queueFile_eq hb] at hrecord'
  obtain ⟨hw,hqueue⟩ := atomicWriteJson_written (plain_sub hb (by decide)) (isPlain_seqFile _) hrecord'
  have hsentinels : Frame (sentinelFiles store b) fs1 fs' :=
    ((writeSentinels_steps hb hns fun n _ => pair_subset_sentinelFiles n).stopped hrest).toFrame
  have hkeys : KeysKept store b ["pending_state.json"] ns s.files fs' :=
    (enqueue_keys hb (by decide)).stopped hstop
  have hpending' := hpending.kept hkeys hns List.mem_cons_self
  have hcounted : ∀ q, q ≤ p.lastAcceptedSeq + 1 → Numbered store b fs' q :=
    fun q hle => ⟨hb,hdir.mono hkeys.dirs,_,hpending',hle⟩
  have hfree : ¬ p.lastAcceptedSeq + 1 ≤ p.lastAcceptedSeq := Nat.not_succ_le_self _
  obtain ⟨hinv,-,-⟩ := ((h.records b).renumber hwithin).record (rewritten_of_written hw) hqueue rfl
    hfree (fun q hle => hcounted q (Nat.le_succ_of_le hle)) (hcounted _ le_rfl)
  exact hinv.kept (recordsKept_of_sentinels hsentinels)

/-- The records of the agent whose request is stopped, and its pending state: as it was, or one there was
before. -/
theorem NumbersInv.stopped {t m : ℕ} (h : NumbersInv M store s) (hb : IsPlain b)
    (hr : s.request t = some ⟨b,payload,.inside m σ⟩)
    (hop : σ.operation store b payload now = some op) (hstop : op.stopped steps s.files = some fs')
    (hclean : steps = 0 ∨ s.recordSteps store t ≤ steps) :
    RecordsInv store b fs' s.worker (Numbered store b fs') (s.history b) ∧
      ((∀ p, PendingAt store b fs' p → PendingAt store b s.files p) ∨
        ∃ p, PendingAt store b s.files p) := by
  have hinside : s.Inside b payload σ := ⟨t,m,hr⟩
  cases σ with
  | clear p ns =>
    obtain rfl := Option.some.inj hop
    have hframe : Frame {store.keyPath b "nullifiers.wal"} s.files fs' :=
      ((reserveNullifiers_steps hb (Set.mem_singleton _)).stopped hstop).toFrame
    have hkept := belowKept_of_top (a := b) (hframe.mono fun p hp => ⟨"nullifiers.wal",hp⟩)
    have hsame := hframe.files (store.keyPath b "pending_state.json")
      fun he => absurd (keyPath_inj he).2 (by decide)
    exact ⟨h.counted hkept.records fun p hp => ⟨p,hsame.trans hp,le_rfl⟩,
      Or.inl fun p hp => hsame.symm.trans hp⟩
  | reserved p ns now =>
    obtain rfl := Option.some.inj hop
    have hframe : Frame (topFiles store b) s.files fs' :=
      ((advancePendingState_steps hb (pair_subset_topFiles _)).stopped hstop).toFrame
    have hreplaced : Replaced (store.keyPath b "pending_state.json") (.pending (newPending p payload))
        s.files fs' := by
      rw [FilesystemX402Store.keyPath,← resolved_agentDir hb]
      exact ((atomicWrite_replaced isPlain_pendingState).mapError ioErr).stopped hstop
    have hp := (h.stages b payload _ hinside).2
    refine ⟨h.counted (belowKept_of_top hframe).records fun p' hp' => ?_,Or.inr ⟨p,hp⟩⟩
    obtain rfl := hp'.inj hp
    rcases hreplaced with hsame | hnew
    · exact ⟨p',hsame.trans hp',le_rfl⟩
    · exact ⟨_,hnew,Nat.le_succ _⟩
  | advanced p ns now =>
    obtain rfl := Option.some.inj hop
    have hp := (h.stages b payload _ hinside).2.1
    refine ⟨?_,Or.inr ⟨_,hp⟩⟩
    rcases hclean with rfl | hsteps
    · rw [Prog.stopped_zero hstop]
      exact h.records b
    · rw [Server.recordSteps,hr] at hsteps
      exact h.enqueue_stopped hb hinside hstop hsteps
  | _ => cases hop

end Operations

section Cuts
variable {M : Miden} {store : FilesystemX402Store} {maxSize : ℕ} {s s' : Server} {c : Cut}
  {cuts : List Cut} {files : Files}

/-- The invariant, and that what is in the queues can be listed. -/
structure ReadableInv (M : Miden) (store : FilesystemX402Store) (s : Server) : Prop
    extends NumbersInv M store s where
  fits : ∀ t r, s.request t = some r → r.payload.FitsRecord
  readable : Recorded store store.ReadsBelow s

theorem lasting_readsBelow : Lasting store.ReadsBelow := by
  intro d tx tx' hread _ hpayload hd
  rw [QueuedTx.Readable,hpayload]
  exact hread hd

theorem ReadableInv.move {act : Action} (h : ReadableInv M store s)
    (hact : (act.Smooth M ∧ act ≠ .restart) ∧ act.Fits) (hsole : s.Unraced store act)
    (hmove : Move M store maxSize s act s') : ReadableInv M store s' := by
  refine ⟨h.toNumbersInv.move hact.1 hsole hmove,?_,h.readable.move lasting_readsBelow ?_ hmove⟩
  · refine hmove.requests_all (P := fun _ payload => payload.FitsRecord) h.fits ?_
    rintro a payload rfl
    exact hact.2
  · rintro a payload p ns now ⟨t,m,hr⟩ -
    exact h.fits t _ hr

/-- A registration that is left was there, and has still to write what it had to. -/
def Server.Fewer (s s' : Server) : Prop :=
  (∀ t r, s'.request t = some r → s.request t = some r) ∧
    ∀ t g, s'.registration t = some g → s.registration t = some g

/-- The invariant for a state with fewer requests and registrations, whose files are as the proofs say:
the pending state of an agent is as it was, or nobody is about to write the first one. -/
theorem NumbersInv.of_fewer (h : NumbersInv M store s) (hlock : LockInv s')
    (hworker : ∀ b ∈ s'.worker.names, IsPlain b) (hfewer : s.Fewer s')
    (hdirs : ∀ p, s.files.isDir p = true → s'.files.isDir p = true)
    (hagents : ∀ a, (∀ payload σ, s'.Inside a payload σ → σ.Counts store a payload s'.files) ∧
      RecordsInv store a s'.files s'.worker (Numbered store a s'.files) (s'.history a) ∧
      ((∀ p, PendingAt store a s'.files p → PendingAt store a s.files p) ∨
        HasDir store s.files a ∧ ∀ t g, s'.registration t = some g → g.record.agentId = a →
          store.enrolment g.record.agentId g.initial ∉ g.todo)) : NumbersInv M store s' := by
  obtain ⟨hrequests,hregistrations⟩ := hfewer
  refine ⟨hlock,⟨?_,hworker,?_⟩,⟨?_,?_⟩,?_,?_,?_,?_,?_,fun a => (hagents a).2.1⟩
  · exact fun t r hr => h.plain.requests t r (hrequests t r hr)
  · exact fun t g hg => h.plain.registrations t g (hregistrations t g hg)
  · exact fun t t' g g' hg hg' =>
      h.sole.unique t t' g g' (hregistrations t g hg) (hregistrations t' g' hg')
  · exact fun t g done hg hops raw hraw =>
      resolveDir_mono hdirs (h.sole.made t g done (hregistrations t g hg) hops raw hraw)
  · exact fun t r hr => h.payloads t r (hrequests t r hr)
  · rintro b payload σ ⟨t,m,hr⟩
    exact h.names b payload σ ⟨t,m,hrequests t _ hr⟩
  · intro b p hp
    rcases (hagents b).2.2 with hold | ⟨hdir,-⟩
    · exact (h.housed b p (hold p hp)).mono hdirs
    · exact hdir.mono hdirs
  · intro t g hg hmem p hp
    rcases (hagents g.record.agentId).2.2 with hold | ⟨-,hnone⟩
    · exact h.unwritten t g (hregistrations t g hg) hmem p (hold p hp)
    · exact hnone t g hg rfl hmem
  · exact fun b payload σ hi => (hagents b).1 payload σ hi

/-- Records stay readable when requests and registrations are gone and the worker holds what it held. -/
theorem ReadableInv.of_fewer (h : ReadableInv M store s) (hnumbers : NumbersInv M store s')
    (hfewer : s.Fewer s') (hworker : s'.worker = s.worker ∨ s'.worker = .idle)
    (hfiles : Keeps (RecordsBelow store.ReadsBelow) s.files s'.files) :
    ReadableInv M store s' := by
  refine ⟨hnumbers,fun t r hr => h.fits t r (hfewer.1 t r hr),?_,hfiles.files h.readable.files,?_⟩
  · exact fun t g hg => h.readable.enrolling t g (hfewer.2 t g hg)
  · intro b tx hmem
    rcases hworker with hsame | hidle
    · rw [hsame] at hmem
      exact h.readable.held b tx hmem
    · rw [hidle] at hmem
      cases hmem

/-- A worker that is not proving can be forgotten. -/
theorem RecordsInv.idle {a : String} {fs : Files} {w : Worker} {used : ℕ → Prop}
    {history : List Acceptance} (h : RecordsInv store a fs w used history)
    (hw : w.isProving = false) : RecordsInv store a fs .idle used history := by
  refine h.goOn trivial ?_
  intro q hhas
  cases w with
  | proving _ _ _ _ => cases hw
  | finishing _ _ _ _ => cases hw
  | _ => exact hhas

theorem ReadableInv.cut_worker {now steps : ℕ} (h : ReadableInv M store s)
    (hclean : (Cut.worker now steps).Clean store s)
    (hcut : s.cut store (.worker now steps) = some s') : ReadableInv M store s' := by
  obtain ⟨hproving,rfl⟩ := hclean
  obtain ⟨op,-,hcut⟩ := Option.bind_eq_some_iff.mp hcut
  obtain ⟨fs',hstop,hcut⟩ := Option.bind_eq_some_iff.mp hcut
  obtain rfl := Prog.stopped_zero hstop
  obtain rfl := Option.some.inj hcut
  have hfewer : s.Fewer { s with worker := .idle } := ⟨fun _ _ hr => hr,fun _ _ hg => hg⟩
  refine h.of_fewer (h.toNumbersInv.of_fewer (h.lock.congr rfl rfl) ?_ hfewer (fun _ hp => hp) ?_)
    hfewer (Or.inr rfl) (Std.Refl.refl _)
  · exact fun b hb => absurd hb List.not_mem_nil
  · exact fun a => ⟨fun payload σ hi => h.stages a payload σ hi,(h.records a).idle hproving,
      Or.inl fun p hp => hp⟩

theorem thread_setRequest_none {t t' : ℕ} {r r' : Request} (hr : s.request t = some r)
    (h : (s.setRequest t none).request t' = some r') : s.request t' = some r' ∧ t' ≠ t := by
  rw [Server.request,Server.setRequest,thread_set hr] at h
  split at h
  · cases h
  · rename_i ht
    exact ⟨h,ht⟩

theorem ReadableInv.cut_request {t now steps : ℕ} (h : ReadableInv M store s)
    (hclean : (Cut.request t now steps).Clean store s)
    (hcut : s.cut store (.request t now steps) = some s') : ReadableInv M store s' := by
  obtain ⟨⟨b,payload,phase⟩,hr,hcut⟩ := Option.bind_eq_some_iff.mp hcut
  cases phase with
  | inside m σ =>
    obtain ⟨op,hop,hcut⟩ := Option.bind_eq_some_iff.mp hcut
    obtain ⟨fs',hstop,hcut⟩ := Option.bind_eq_some_iff.mp hcut
    obtain rfl := Option.some.inj hcut
    have hb : IsPlain b := h.plain.requests t _ hr
    have hinside : s.InsideAt t b payload σ := ⟨m,hr⟩
    have hframe : Frame (agentFiles store b) s.files fs' :=
      (operation_frame hb (h.names b payload σ ⟨t,hinside⟩) hop s.files).stopped hstop
    have hgone : ∀ {t' : ℕ} {r' : Request}, ({ s with files := fs' }.setRequest t none).request t' =
        some r' → s.request t' = some r' ∧ t' ≠ t :=
      fun hr' => thread_setRequest_none (s := { s with files := fs' }) hr hr'
    have hlock : LockInv ({ s with files := fs' }.setRequest t none) := by
      refine h.lock.of_set hr rfl h.lock.sound (fun _ _ hm => hm) ?_ ?_ fun _ _ _ hm => hm
      · intro r' m' he
        cases he
      · intro r' m' σ' he
        cases he
    have hfewer : s.Fewer ({ s with files := fs' }.setRequest t none) :=
      ⟨fun t' r' hr' => (hgone hr').1,fun _ _ hg => hg⟩
    refine h.of_fewer (h.toNumbersInv.of_fewer hlock h.plain.worker hfewer hframe.dirs ?_) hfewer
      (Or.inl rfl) ((operation_keeps (fun _ _ _ _ => h.fits t _ hr) hop s.files).stopped hstop)
    intro a
    by_cases hab : a = b
    · subst hab
      obtain ⟨hrecords,hpending⟩ := h.stopped hb hr hop hstop hclean
      refine ⟨?_,hrecords,hpending.imp_right ?_⟩
      · -- nobody else is inside for this agent
        rintro payload' σ' ⟨t',m',hr'⟩
        obtain ⟨hold,hne⟩ := hgone hr'
        exact absurd (h.lock.insideAt_unique hinside ⟨m',hold⟩).symm hne
      · rintro ⟨p,hp⟩
        refine ⟨h.housed a p hp,?_⟩
        rintro t' g hg rfl hmem
        exact h.unwritten t' g hg hmem p hp
    · obtain ⟨hcounts,hrecords,hpending⟩ := h.other hab hframe
      refine ⟨?_,hrecords,Or.inl hpending⟩
      rintro payload' σ' ⟨t',m',hr'⟩
      exact hcounts payload' σ' ⟨t',m',(hgone hr').1⟩
  | _ => cases hcut

/-- What a registration that is stopped has changed for its agent. -/
theorem NumbersInv.registration_stopped {t steps : ℕ} {g : Registering} {op : RegisterOp}
    {rest : List RegisterOp} {fs' : Files} (h : NumbersInv M store s) (hg : s.registration t = some g)
    (htodo : g.todo = op :: rest) (hstop : op.run.stopped steps s.files = some fs') :
    (∀ payload σ, s.Inside g.record.agentId payload σ →
      σ.Counts store g.record.agentId payload fs') ∧
    RecordsInv store g.record.agentId fs' s.worker (Numbered store g.record.agentId fs')
      (s.history g.record.agentId) ∧
    ((∀ p, PendingAt store g.record.agentId fs' p → PendingAt store g.record.agentId s.files p) ∨
      HasDir store s.files g.record.agentId) := by
  have henrols := h.plain.registrations t g hg
  have hop : op ∈ g.todo := htodo ▸ List.mem_cons_self
  have hmem := henrols.mem_ops hop
  have hframe : Frame (topFiles store g.record.agentId) s.files fs' :=
    ((registerOp_steps henrols.plain hmem fun name _ => pair_subset_topFiles name).stopped hstop).toFrame
  have hkept := (belowKept_of_top (a := g.record.agentId) hframe).records
  rcases registers_of_mem hmem with ⟨rfl,-⟩ | ⟨-,hother⟩
  · -- there is no pending state yet, so no payment either
    have hnone := h.unwritten t g hg hop
    refine ⟨fun payload σ hi => (h.stages _ payload σ hi).of_unwritten hframe.dirs hnone,?_,Or.inr ?_⟩
    · refine ((h.records _).kept hkept).renumber fun sub hsub q c hf => ?_
      obtain ⟨-,-,p,hp,-⟩ :=
        (h.records _).numbers sub hsub q c ((hkept.record sub hsub q).symm.trans hf)
      exact absurd hp (hnone p)
    · have hdir := h.sole.resolves h.plain hg htodo List.mem_cons_self
      rw [agentDir_eq henrols.plain] at hdir
      exact hdir
  · have hkeys : KeysKept store g.record.agentId stateFiles [] s.files fs' :=
      (registerOp_keys henrols.plain hmem (by decide) (Or.inr hother)).stopped hstop
    have hns : ∀ n ∈ ([] : List String), IsPlain n := fun n hn => absurd hn List.not_mem_nil
    have hpending : ∀ p, PendingAt store g.record.agentId s.files p →
        PendingAt store g.record.agentId fs' p := fun p hp => hp.kept hkeys hns (by decide)
    refine ⟨?_,h.counted hkept fun p hp => ⟨p,hpending p hp,le_rfl⟩,
      Or.inl fun p hp => hp.old hkeys (by decide)⟩
    intro payload σ hi
    refine (h.stages _ payload σ hi).mono hframe.dirs hpending ?_
    exact fun used hw sub hsub q c hf => hw sub hsub q c ((hkept.record sub hsub q).symm.trans hf)

theorem ReadableInv.cut_registration {t steps : ℕ} (h : ReadableInv M store s)
    (hcut : s.cut store (.registration t steps) = some s') : ReadableInv M store s' := by
  obtain ⟨g,hg,hcut⟩ := Option.bind_eq_some_iff.mp hcut
  obtain ⟨op,hhead,hcut⟩ := Option.bind_eq_some_iff.mp hcut
  obtain ⟨fs',hstop,hcut⟩ := Option.bind_eq_some_iff.mp hcut
  obtain rfl := Option.some.inj hcut
  obtain ⟨rest,htodo⟩ := List.head?_eq_some_iff.mp hhead
  have henrols := h.plain.registrations t g hg
  have hmem := henrols.mem_ops (htodo ▸ List.mem_cons_self)
  have hframe : Frame (agentFiles store g.record.agentId) s.files fs' :=
    ((registerOp_steps henrols.plain hmem fun name _ =>
      List.append_nil (store.agentPath g.record.agentId) ▸
        pair_subset_agentFiles [] name).stopped hstop).toFrame
  have hgone : ∀ {t' : ℕ} {g' : Registering},
      ({ s with files := fs' }.setRegistration t none).registration t' = some g' →
      s.registration t' = some g' ∧ t' ≠ t := by
    intro t' g' hg'
    rw [Server.registration,Server.setRegistration,thread_set hg] at hg'
    split at hg'
    · cases hg'
    · rename_i hne
      exact ⟨hg',hne⟩
  have hfewer : s.Fewer ({ s with files := fs' }.setRegistration t none) :=
    ⟨fun _ _ hr => hr,fun t' g' hg' => (hgone hg').1⟩
  refine h.of_fewer (h.toNumbersInv.of_fewer (h.lock.congr rfl rfl) h.plain.worker hfewer hframe.dirs ?_)
    hfewer (Or.inl rfl) ((registerOp_keeps_records hmem).stopped hstop)
  intro a
  by_cases hab : a = g.record.agentId
  · subst hab
    obtain ⟨hcounts,hrecords,hpending⟩ := h.registration_stopped hg htodo hstop
    refine ⟨hcounts,hrecords,hpending.imp_right fun hdir => ⟨hdir,?_⟩⟩
    intro t' g' hg' hid _
    obtain ⟨hold,hne⟩ := hgone hg'
    exact hne (h.sole.unique t' t g' g hold hg hid)
  · obtain ⟨hcounts,hrecords,hpending⟩ := h.other hab hframe
    exact ⟨hcounts,hrecords,Or.inl hpending⟩

theorem ReadableInv.cut (h : ReadableInv M store s) (hclean : c.Clean store s)
    (hcut : s.cut store c = some s') : ReadableInv M store s' := by
  cases c with
  | worker now steps => exact h.cut_worker hclean hcut
  | request t now steps => exact h.cut_request hclean hcut
  | registration t steps => exact h.cut_registration hcut

theorem ReadableInv.foldlM_cut (h : ReadableInv M store s) (hclean : CleanKill store s cuts)
    (hcuts : cuts.foldlM (Server.cut store) s = some s') :
    ReadableInv M store s' ∧ s'.worker.isProving = false := by
  induction cuts generalizing s with
  | nil =>
    obtain rfl := Option.some.inj hcuts
    exact ⟨h,hclean⟩
  | cons c cuts ih =>
    rw [List.foldlM_cons] at hcuts
    obtain ⟨s1,hone,hrest⟩ := Option.bind_eq_some_iff.mp hcuts
    exact ih (h.cut hclean.1 hone) (hclean.2 s1 hone) hrest

theorem ReadableInv.kill (h : ReadableInv M store s) (hclean : CleanKill store s cuts)
    (hkill : s.kill store cuts = some s') : ReadableInv M store s' := by
  obtain ⟨s1,hcuts,hs'⟩ := Option.bind_eq_some_iff.mp hkill
  obtain rfl := Option.some.inj hs'
  obtain ⟨hinv,hproving⟩ := h.foldlM_cut hclean hcuts
  have hnone : ∀ t r, s1.reboot.request t ≠ some r := by
    intro t r hr
    exact absurd hr (request_ne rfl)
  have hfewer : s1.Fewer s1.reboot := by
    refine ⟨fun t r hr => absurd hr (hnone t r),?_⟩
    intro t g hg
    exact absurd hg (registration_ne rfl)
  refine hinv.of_fewer (hinv.toNumbersInv.of_fewer (lockInv_of_empty rfl rfl) ?_ hfewer
    (fun _ hp => hp) ?_) hfewer (Or.inr rfl) (Std.Refl.refl _)
  · exact fun b hb => absurd hb List.not_mem_nil
  · intro a
    refine ⟨?_,(hinv.records a).idle hproving,Or.inl fun p hp => hp⟩
    rintro payload σ ⟨t,m,hr⟩
    exact absurd hr (hnone t _)

theorem Reached.readableInv (hfresh : Fresh store files) (h : Reached M store maxSize files s) :
    ReadableInv M store s := by
  induction h with
  | start =>
    refine ⟨numbersInv_start hfresh,?_,recorded_start hfresh ?_⟩
    · intro t r hr
      exact absurd hr (request_ne rfl)
    · rintro d tx hd ⟨a,rfl⟩
      exact absurd rfl (hd a)
  | act _ hact hsole hstep ih => exact ih.move hact hsole (step_move hstep)
  | kill _ hclean hkill ih => exact ih.kill hclean hkill

end Cuts

section Recovered
variable {M : Miden} {store : FilesystemX402Store} {maxSize : ℕ} {s : Server} {files : Files}
  {a : String} {x : Acceptance}

/-- Nothing is left to do for the payment. -/
def PaymentStatus.isFinal : PaymentStatus → Bool
  | .submitted | .committed | .failed => true
  | .accepted | .proving => false

/-- A payment is picked up: `run_once` lists its agent, can list its queue, and its filter selects the
record. -/
structure Selected (store : FilesystemX402Store) (a : String) (fs : Files) (tx : QueuedTx)
    (queued : List QueuedTx) : Prop where
  agent : a ∈ store.listAgents fs
  listed : store.listQueued a fs = .ok queued
  filtered : tx ∈ queued.filter fun tx => tx.status = .accepted

/-- The record of the payment is final, or the worker picks it up. -/
def Recovered (store : FilesystemX402Store) (a : String) (fs : Files) (x : Acceptance) : Prop :=
  ∃ tx, RecordAt store a fs x.seq tx ∧ RecordOf x tx ∧
    (tx.status.isFinal = true ∨ ∃ queued, Selected store a fs tx queued)

theorem RecordAt.inj {fs : Files} {q : ℕ} {tx tx' : QueuedTx} (h : RecordAt store a fs q tx)
    (h' : RecordAt store a fs q tx') : tx = tx' := by
  cases h with
  | queued hfile hnone =>
    cases h' with
    | queued hfile' _ => exact queued_unique hfile hfile'
    | failed _ hnone' _ _ =>
      rw [hfile] at hnone'
      cases hnone'
  | failed _ hnone hfile _ =>
    cases h' with
    | queued hfile' _ =>
      rw [hnone] at hfile'
      cases hfile'
    | failed _ _ hfile' _ => exact queued_unique hfile hfile'

theorem PaymentStatus.isFinal_or_accepted {st : PaymentStatus} (h : st ≠ .proving) :
    st.isFinal = true ∨ st = .accepted := by
  cases st with
  | accepted => exact Or.inr rfl
  | proving => exact absurd rfl h
  | _ => exact Or.inl rfl

theorem ReadableInv.recovered (h : ReadableInv M store s) (hidle : s.worker = .idle)
    (hx : x ∈ s.history a) : ∃ tx, RecordAt store a s.files x.seq tx ∧ RecordOf x tx ∧
      (tx.status.isFinal = true ∨ acceptedAt store a s.files x.seq = true ∧ IsPlain a ∧
        ∃ queued, Selected store a s.files tx queued) := by
  have hrecords := h.records a
  obtain ⟨tx,hat,hof⟩ := hrecords.recorded x hx
  refine ⟨tx,hat,hof,?_⟩
  cases hat with
  | failed _ _ _ hstatus => exact Or.inl (by rw [hstatus]; rfl)
  | queued hfile _ =>
    have hproving : tx.status ≠ .proving := by
      intro hst
      have hhas := hrecords.taken _ tx hfile hst
      rw [hidle] at hhas
      exact hhas
    rcases PaymentStatus.isFinal_or_accepted hproving with hfinal | hstatus
    · exact Or.inl hfinal
    · have hacc : acceptedAt store a s.files x.seq = true := acceptedAt_iff.mpr ⟨tx,hfile,hstatus⟩
      have ha := (hrecords.numbers _ (by decide) _ _ hfile).plain
      obtain ⟨queued,hlist⟩ := hrecords.listQueued_ok ha h.readable.files
      refine Or.inr ⟨hacc,ha,queued,h.mem_listAgents hacc,hlist,?_⟩
      exact List.mem_filter.mpr ⟨hrecords.mem_listed ha hlist hfile,decide_eq_true hstatus⟩

/-- In a run with plain names and readable records whose kills are clean: whenever the worker is idle, so
in particular after every kill, every queue can be listed and each accepted payment has its record, which
is final or is selected; and one that is selected has been attempted as soon as the worker has made
enough rounds for the payments before it. -/
theorem payments_recovered (hfresh : Fresh store files) (h : Reached M store maxSize files s)
    (hidle : s.worker = .idle) :
    (∀ b ∈ store.listAgents s.files, ∃ queued, store.listQueued b s.files = .ok queued) ∧
    (∀ a, ∀ x ∈ s.history a, Recovered store a s.files x) ∧
    ∀ a, ∀ x ∈ s.history a, ∀ tx queued, RecordAt store a s.files x.seq tx →
      Selected store a s.files tx queued →
      ∀ later s', (∀ act ∈ later, act.Smooth M ∧ act ≠ .restart) →
        s.Along M store maxSize (Server.Unraced store) later →
        s.run M store maxSize later = some s' →
        (queued.filter fun y => y.status = .accepted ∧ y.seq ≤ x.seq).length ≤
          (s'.ticks - s.ticks) * maxSize →
        ∃ new, s'.attempts = s.attempts ++ new ∧ (a,x.seq) ∈ new := by
  have hinv := h.readableInv hfresh
  refine ⟨?_,?_,?_⟩
  · exact fun b hb => (hinv.records b).listQueued_ok (plain_listAgents s.files b hb) hinv.readable.files
  · intro a x hx
    obtain ⟨tx,hat,hof,hrest⟩ := hinv.recovered hidle hx
    exact ⟨tx,hat,hof,hrest.imp_right fun hsel => hsel.2.2⟩
  · intro a x hx tx queued hat hsel later s' hacts hsole hlater hrounds
    obtain ⟨tx',hat',-,hrest⟩ := hinv.recovered hidle hx
    obtain rfl := hat.inj hat'
    have hstatus : tx.status = .accepted := of_decide_eq_true (List.mem_filter.mp hsel.filtered).2
    rcases hrest with hfinal | ⟨hacc,ha,-⟩
    · rw [hstatus] at hfinal
      cases hfinal
    · exact hinv.attempted hidle hacc hacts hsole hlater
        (((hinv.records a).card_waitingUpTo_le ha hsel.listed).trans hrounds)

theorem Reached.run {s' : Server} {acts : List Action} (h : Reached M store maxSize files s)
    (hacts : ∀ act ∈ acts, (act.Smooth M ∧ act ≠ .restart) ∧ act.Fits)
    (hsole : s.Along M store maxSize (Server.Unraced store) acts)
    (hrun : s.run M store maxSize acts = some s') : Reached M store maxSize files s' := by
  induction acts generalizing s with
  | nil =>
    obtain rfl := Option.some.inj hrun
    exact h
  | cons act acts ih =>
    rw [Server.run,List.foldlM_cons] at hrun
    obtain ⟨s1,hone,hrest⟩ := Option.bind_eq_some_iff.mp hrun
    obtain ⟨hunraced,hlater⟩ := along_cons hsole
    exact ih (h.act (hacts act List.mem_cons_self) hunraced hone)
      (fun act' hact' => hacts act' (List.mem_cons_of_mem _ hact')) (hlater s1 hone) hrest

/-- One payment; the worker has listed the queue and not yet begun. -/
def sampleRound : List Action :=
  sampleRegister 0 "a" ++ samplePay 0 11 "a" (samplePayload "0xs0" "0xs1" ["0x01"]) ++
    [.tick ["a"],.work 8 none]

/-- A second payment is about to advance the pending state, and another agent is being registered. -/
def sampleBusy : List Action :=
  sampleRound ++ samplePay 1 7 "a" (samplePayload "0xs1" "0xs2" ["0x02"]) ++
    .register (sampleRegistration "b") 0 :: List.replicate 5 (.registration 1)

/-- The process is killed while it writes the pending state of one agent and the record of another, and
before the worker takes the first payment up. -/
theorem payments_recovered_sample : ∃ s s' x,
    (Server.start emptyFiles).run sampleMiden sampleStore 1 sampleBusy = some s ∧
    s.kill sampleStore [.request 1 9 2,.registration 1 1] = some s' ∧ x ∈ s'.history "a" ∧
    Recovered sampleStore "a" s'.files x := by
  obtain ⟨s,hs,hfacts⟩ : ∃ s, (Server.start emptyFiles).run sampleMiden sampleStore 1 sampleBusy =
      some s ∧ (decide (CleanKill sampleStore s [.request 1 9 2,.registration 1 1]),
        (s.kill sampleStore [.request 1 9 2,.registration 1 1]).map fun s' =>
          (s'.worker.isIdle,(s'.history "a").length)) = (true,some (true,1)) :=
    Option.map_eq_some_iff.mp (by decide +kernel)
  obtain ⟨hclean,hkill⟩ := Prod.mk.inj hfacts
  obtain ⟨s',hs',hpair⟩ := Option.map_eq_some_iff.mp hkill
  obtain ⟨hidle,hlen⟩ := Prod.mk.inj hpair
  have hreached : Reached sampleMiden sampleStore 1 emptyFiles s :=
    Reached.run .start (by decide +kernel) (by decide +kernel) hs
  obtain ⟨x,hx⟩ := List.exists_mem_of_length_pos (Nat.lt_of_lt_of_eq Nat.zero_lt_one hlen.symm)
  refine ⟨s,s',x,hs,hs',hx,?_⟩
  exact (payments_recovered fresh_emptyFiles (hreached.kill (of_decide_eq_true hclean) hs')
    (Worker.eq_idle hidle)).2.1 "a" x hx

end Recovered

section Lost
variable {M : Miden} {store : FilesystemX402Store} {maxSize : ℕ} {s s' : Server} {act : Action}
  {files : Files} {a : String} {q : ℕ}

/-- The payment with this number counts as attempted although it was not. -/
structure LostInv (M : Miden) (store : FilesystemX402Store) (a : String) (q : ℕ) (s s' : Server) :
    Prop where
  intact : IntactInv M store s'
  queueDir : s'.initialOf a ≠ none → HasQueue store s'.files a
  queue : ∃ k new, q ≤ k ∧ s'.attempts = s.attempts ++ new ∧ (∀ n ∈ attemptsOf a new, q < n) ∧
    QueueInv store a s'.files s'.worker k (s'.history a).length

theorem BelowKept.queue {fs fs' : Files} (h : BelowKept store a fs fs') : QueueKept store a fs fs' := by
  refine ⟨fun name tx hf => (h.files _ name).symm.trans hf,fun n hn => ?_⟩
  rw [show fs'.fileAt (store.queuePath a ++ [seqFile n]) = _ from h.files _ (seqFile n)]
  exact hn

theorem LostInv.move {s0 : Server} (h : LostInv M store a q s0 s)
    (hact : act.Smooth M ∧ act ≠ .restart) (hsole : s.Unraced store act)
    (hmove : Move M store maxSize s act s') : LostInv M store a q s0 s' := by
  have hserver := h.intact.server
  have hagent := hmove.agent hserver.lock hserver.plain a
  have hrecord := h.intact.record hact hmove a
  refine ⟨h.intact.move hact.1.1 hsole hact.1.2 hmove,
    hagent.hasQueue hserver.sole hserver.plain h.queueDir,?_⟩
  obtain ⟨k,new,hk,hnew,hafter,hqueue⟩ := h.queue
  cases hrecord with
  | quiet hfiles hhistory hworker hattempts _ =>
    refine ⟨k,new,hk,hattempts.trans hnew,hafter,?_⟩
    rw [hhistory,hworker]
    exact hqueue.kept hfiles.queue
  | enqueue ha hinside hafter' hhistory hworker hattempts _ =>
    refine ⟨k,new,hk,hattempts.trans hnew,hafter,?_⟩
    rw [hhistory,hworker,List.length_append]
    refine hqueue.enqueue ha ?_ rfl hafter'
    rw [← hserver.next_seq hinside]
    rfl
  | @work attempts ticks hwork hhistory hattempts _ =>
    have hdir : 0 < (s.history a).length → HasQueue store s.files a := by
      intro hpos
      apply h.queueDir
      intro hnone
      rw [(hserver.unregistered hnone).history] at hpos
      exact absurd hpos (Nat.lt_irrefl 0)
    obtain ⟨j,hj,hqueue'⟩ := hqueue.work hserver.plain.worker hdir hwork
    refine ⟨k + j,new ++ attempts,hk.trans (Nat.le_add_right _ _),?_,?_,hhistory ▸ hqueue'⟩
    · rw [hattempts,hnew,List.append_assoc]
    · intro n hn
      rw [attemptsOf_append] at hn
      rcases List.mem_append.mp hn with hold | hnow
      · exact hafter n hold
      · rw [hj,List.mem_range'_1] at hnow
        omega

/-- A payment whose record is marked as being proved when the process is killed is never attempted
again. -/
theorem proving_never_attempted {tx : QueuedTx} {todo : List QueuedTx} {rest : List String}
    {acts later : List Action} (hfresh : Fresh store files)
    (hacts : ∀ act ∈ acts ++ later, act.Smooth M ∧ act ≠ .restart)
    (hsole : (Server.start files).Along M store maxSize (Server.Unraced store) acts)
    (hrun : (Server.start files).run M store maxSize acts = some s)
    (hworker : s.worker = .proving a tx todo rest)
    (hout : ∀ t r m σ, s.request t = some r → r.phase ≠ .inside m σ)
    (hidle : ∀ t, s.registration t = none)
    (hunraced : s.reboot.Along M store maxSize (Server.Unraced store) later)
    (hlater : s.reboot.run M store maxSize later = some s') :
    ∃ new, s'.attempts = s.attempts ++ new ∧ (a,tx.seq) ∉ new := by
  have hearly := fun act h => hacts act (List.mem_append_left later h)
  have hbatch : BatchInv M store s := batchInv_run hfresh
    (fun act h => ⟨(hearly act h).1.1.plainId,(hearly act h).2,(hearly act h).1.2⟩) hsole hrun
  have hintact : IntactInv M store s := intactInv_run hfresh (fun act h => (hearly act h).1) hsole hrun
  have hqueue := (hbatch.attempted a).queue
  rw [hworker] at hqueue
  obtain ⟨hseq,-⟩ := hqueue.batching rfl
  have hstarted : (Worker.proving a tx todo rest).started a (s.attemptsOf a).length = tx.seq := by
    rw [hseq]
    exact if_pos rfl
  have hmove : Move M store maxSize s .restart s.reboot := .restart hout hidle
  have hplain : Action.restart.Plain M := trivial
  have hstart : LostInv M store a tx.seq s s.reboot := by
    refine ⟨hintact.move hplain trivial rfl hmove,hbatch.queueDir a,tx.seq,[],le_rfl,
      (List.append_nil _).symm,?_,?_⟩
    · exact fun n hn => absurd hn List.not_mem_nil
    · exact hqueue.goOn trivial hstarted.symm
  have hinv := run_along (fun hs hact hmove => LostInv.move hs hact.1 hact.2 hmove) hstart
    ((along_of_forall fun act h _ => hacts act (List.mem_append_right acts h)).and hunraced) hlater
  obtain ⟨k,new,-,hnew,hafter,-⟩ := hinv.queue
  refine ⟨new,hnew,fun hmem => ?_⟩
  refine Nat.lt_irrefl _ (hafter tx.seq ?_)
  exact List.mem_map.mpr ⟨_,List.mem_filter.mpr ⟨hmem,decide_eq_true rfl⟩,rfl⟩

def Worker.current : Worker → Option (String × ℕ)
  | .proving agentId tx _ _ => some (agentId,tx.seq)
  | _ => none

theorem Worker.eq_proving {w : Worker} (h : w.current = some (a,q)) :
    ∃ tx todo rest, w = .proving a tx todo rest ∧ tx.seq = q := by
  cases w with
  | proving b tx todo rest =>
    obtain ⟨rfl,rfl⟩ := Prod.mk.inj (Option.some.inj h)
    exact ⟨tx,todo,rest,rfl,rfl⟩
  | _ => cases h

theorem not_recovered_of_proving {fs : Files} {x : Acceptance}
    (h : ((fs.fileAt (store.recordPath a "pending_queue" x.seq)).bind Content.toQueued).map
      QueuedTx.status = some .proving) : ¬ Recovered store a fs x := by
  obtain ⟨tx,htx,hstatus⟩ := Option.map_eq_some_iff.mp h
  obtain ⟨c,hfile,hc⟩ := Option.bind_eq_some_iff.mp htx
  rintro ⟨tx',hat,-,hrest⟩
  obtain rfl : tx = tx' := by
    cases hat with
    | queued hfile' _ =>
      rw [hfile] at hfile'
      obtain rfl := Option.some.inj hfile'
      exact (Content.queued.inj (Content.toQueued_eq_some.mp hc).1).symm
    | failed _ hnone _ _ =>
      rw [hfile] at hnone
      cases hnone
  rcases hrest with hfinal | ⟨queued,hsel⟩
  · rw [hstatus] at hfinal
    cases hfinal
  · have hacc : tx.status = .accepted := of_decide_eq_true (List.mem_filter.mp hsel.filtered).2
    rw [hstatus] at hacc
    cases hacc

/-- Killed right after the record was marked, the payment is never attempted; killed while the record
is being marked, it leaves a temporary file with which the queue cannot be listed. -/
theorem payment_lost_by_kill : (∃ s s' x,
    (Server.start emptyFiles).run sampleMiden sampleStore 1 (sampleRound ++ [.work 8 none]) = some s ∧
    s.kill sampleStore [] = some s' ∧ x ∈ s'.history "a" ∧ ¬ Recovered sampleStore "a" s'.files x ∧
    ∀ later s'', (∀ act ∈ later, act.Smooth sampleMiden ∧ act ≠ .restart) →
      s'.Along sampleMiden sampleStore 1 (Server.Unraced sampleStore) later →
      s'.run sampleMiden sampleStore 1 later = some s'' → ("a",x.seq) ∉ s''.attempts) ∧
    ∃ s s', (Server.start emptyFiles).run sampleMiden sampleStore 1 sampleRound = some s ∧
      s.kill sampleStore [.worker 8 1] = some s' ∧ (s'.history "a").length = 1 ∧
      sampleStore.listQueued "a" s'.files =
        .error (.internal "read /data/agents/a/pending_queue/.1.json.tmp") := by
  constructor
  · obtain ⟨s,hs,hfacts⟩ : ∃ s, (Server.start emptyFiles).run sampleMiden sampleStore 1
        (sampleRound ++ [.work 8 none]) = some s ∧
        decide (s.worker.current = some ("a",1) ∧ s.requests.all Option.isNone = true ∧
          s.registrations.any Option.isSome = false ∧
          s.attempts = [] ∧ (s.history "a").map Acceptance.seq = [1] ∧
          ((s.files.fileAt (sampleStore.recordPath "a" "pending_queue" 1)).bind Content.toQueued).map
            QueuedTx.status = some .proving) = true :=
      Option.map_eq_some_iff.mp (by decide +kernel)
    rw [decide_eq_true_eq] at hfacts
    obtain ⟨hcurrent,hrequests,hregistrations,hattempts,hseqs,hstatus⟩ := hfacts
    obtain ⟨tx,todo,rest,hworker,hseq⟩ := Worker.eq_proving hcurrent
    obtain ⟨x,hx,hxseq⟩ := List.mem_map.mp (hseqs ▸ List.mem_singleton_self 1)
    refine ⟨s,_,x,hs,rfl,hx,not_recovered_of_proving (by rw [hxseq]; exact hstatus),?_⟩
    intro later s'' hacts hsole hlater
    have hout : ∀ t r m σ, s.request t = some r → r.phase ≠ .inside m σ := by
      intro t r m σ hr
      rw [Server.request_eq_some_iff] at hr
      have hnone := List.all_eq_true.mp hrequests _ (List.mem_of_getElem? hr)
      cases hnone
    have hall : ∀ act ∈ (sampleRound ++ [.work 8 none]) ++ later,
        act.Smooth sampleMiden ∧ act ≠ .restart := by
      intro act hact
      rcases List.mem_append.mp hact with hearly | hlate
      · have hdecided : ∀ act ∈ sampleRound ++ [.work 8 none],
            act.Smooth sampleMiden ∧ act ≠ .restart := by
          decide +kernel
        exact hdecided act hearly
      · exact hacts act hlate
    obtain ⟨new,hnew,hnot⟩ := proving_never_attempted fresh_emptyFiles hall (by decide +kernel) hs
      hworker hout (registration_eq_none hregistrations) hsole hlater
    rw [hnew,hattempts,List.nil_append,hxseq,← hseq]
    exact hnot
  · obtain ⟨s,hs,hfacts⟩ : ∃ s, (Server.start emptyFiles).run sampleMiden sampleStore 1 sampleRound =
        some s ∧ (s.kill sampleStore [.worker 8 1]).map (fun s' => ((s'.history "a").length,
          sampleStore.listQueued "a" s'.files)) =
        some (1,.error (.internal "read /data/agents/a/pending_queue/.1.json.tmp")) :=
      Option.map_eq_some_iff.mp (by decide +kernel)
    obtain ⟨s',hs',hpair⟩ := Option.map_eq_some_iff.mp hfacts
    obtain ⟨hlen,hlist⟩ := Prod.mk.inj hpair
    exact ⟨s,s',hs,hs',hlen,hlist⟩

end Lost

end MidenX402.Facilitator
