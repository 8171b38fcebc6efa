import MidenX402.Facilitator.Numbers
import MidenX402.Facilitator.RecordContents

/-!
# Payments on top of failed ones

The worker marks a payment failed and moves its record away.  The pending state still counts it, so
the next payment is built on it.  Before the worker has done so no record of the agent is marked, and
afterwards one always is.
-/

namespace MidenX402.Facilitator
open Disk KeyedLock Rust

/-- The payment leads to this state, directly or through accepted payments built on one another. -/
inductive Underlies (history : List Acceptance) (y : Acceptance) : String → Prop
  | directly : y ∈ history → Underlies history y y.payload.newStateCommitment
  | through {x} : x ∈ history → Underlies history y x.payload.builtOnStateCommitment →
      Underlies history y x.payload.newStateCommitment

/-- The record of a payment that failed. -/
def Content.isFailed : Content → Bool
  | .queued tx => tx.status = .failed
  | _ => false

/-- A record of the payment says that it failed. -/
def FilesystemX402Store.HasFailed (store : FilesystemX402Store) (a : String) (seq : ℕ) (fs : Files) :
    Prop :=
  ∃ raw ∈ store.recordFiles a seq, ∃ tx, readJson Content.toQueued raw fs = .ok tx ∧
    tx.status = .failed

/-- Nothing the newly accepted payment is built on has failed. -/
def OnSound (store : FilesystemX402Store) (s s' : Server) (x : Acceptance) : Prop :=
  ∀ y, Underlies (s.history x.agentId) y x.payload.builtOnStateCommitment →
    ¬ store.HasFailed x.agentId y.seq s'.files

/-- The agent of whose payment the worker is about to record the failure. -/
def Worker.failing : Worker → Option String
  | .finishing b tx _ _ => if tx.status = .failed then some b else none
  | _ => none

/-- The worker has taken its failure branch for a payment of the agent. -/
def FailureRecorded (M : Miden) (store : FilesystemX402Store) (maxSize : ℕ) (fs : Files)
    (acts : List Action) (b : String) : Prop :=
  ∃ before act later s, acts = before ++ act :: later ∧
    (Server.start fs).run M store maxSize before = some s ∧ act.isWork = true ∧
    s.worker.failing = some b

section Runs
variable {M : Miden} {store : FilesystemX402Store} {maxSize : ℕ} {fs : Files} {s s' : Server}
  {act : Action} {acts : List Action} {D : Set Path}

/-- Records of failed payments are in these directories only. -/
def FailedIn (D : Set Path) (d : Path) (tx : QueuedTx) : Prop := tx.status = .failed → d ∈ D

theorem FailureRecorded.append {b : String} (h : FailureRecorded M store maxSize fs acts b)
    (act : Action) : FailureRecorded M store maxSize fs (acts ++ [act]) b := by
  obtain ⟨before,act',later,s,rfl,hrun,hact,hfail⟩ := h
  exact ⟨before,act',later ++ [act],s,by simp,hrun,hact,hfail⟩

/-- The directories of the agents for which the worker has taken its failure branch. -/
def failedDirs (M : Miden) (store : FilesystemX402Store) (maxSize : ℕ) (fs : Files)
    (acts : List Action) : Set Path :=
  {d | ∃ b, FailureRecorded M store maxSize fs acts b ∧ d = resolved (store.agentDir b)}

/-- The worker writes a record of a failed payment in its failure branch only. -/
theorem Worker.Writes.failing {w : Worker} {b : String} {tx : QueuedTx} (h : w.Writes b tx)
    (hfailed : tx.status = .failed) : w.failing = some b := by
  cases w with
  | batch b' todo rest =>
    cases todo with
    | nil => exact h.elim
    | cons tx' todo =>
      obtain ⟨-,now,rfl⟩ := h
      cases hfailed
  | finishing b' tx' todo rest =>
    obtain ⟨rfl,rfl⟩ := h
    rw [Worker.failing,if_pos hfailed]
  | _ => exact h.elim

/-- Requests, registrations and the rest of the worker mark no record. -/
theorem Move.keeps_failed (hmove : Move M store maxSize s act s') (henrolling : Enrolling store s)
    (hD : act.isWork = true → ∀ b, s.worker.failing = some b → resolved (store.agentDir b) ∈ D) :
    Keeps (RecordsBelow (FailedIn D)) s.files s'.files := by
  refine hmove.keeps henrolling ?_ ?_
  · rintro a payload p ns now - ⟨⟩
  · exact fun hact b tx hw hfailed => hD hact b (hw.failing hfailed)

theorem run_failedIn (hnone : fs.AllFiles fun _ c => c.isFailed = false)
    (hrun : (Server.start fs).run M store maxSize acts = some s) : Enrolling store s ∧
      s.files.AllFiles (RecordsBelow (FailedIn (failedDirs M store maxSize fs acts))) := by
  induction acts using List.reverseRecOn generalizing s with
  | nil =>
    obtain rfl := Option.some.inj hrun
    refine ⟨enrolling_start fs,?_⟩
    rintro p c hc tx rfl hfailed
    have hsound : decide (tx.status = .failed) = false := hnone p _ hc
    rw [hfailed] at hsound
    cases hsound
  | append_singleton acts act ih =>
    obtain ⟨s0,hrun0,hstep⟩ := run_concat.mp hrun
    obtain ⟨henrolling,hfiles⟩ := ih hrun0
    have hmove := step_move hstep
    refine ⟨henrolling.move hmove,(hmove.keeps_failed henrolling ?_).files ?_⟩
    · intro hact b hb
      exact ⟨b,⟨acts,act,[],s0,rfl,hrun0,hact,hb⟩,rfl⟩
    · intro p c hc tx htx hfailed
      obtain ⟨b,hb,hd⟩ := hfiles p c hc tx htx hfailed
      exact ⟨b,hb.append act,hd⟩

/-- The worker accepts no payment. -/
theorem Move.accepted_of_isWork (hmove : Move M store maxSize s act s') (hact : act.isWork = true) :
    s'.accepted = s.accepted := by
  cases hmove with
  | stage _ _ _ => cases hact
  | _ => rfl

/-- A record that can be read lies in the directory of its agent. -/
theorem mem_dirs_of_hasFailed {a : String} {q : ℕ} {files : Files} (h : store.HasFailed a q files)
    (hfiles : files.AllFiles (RecordsBelow (FailedIn D))) : resolved (store.agentDir a) ∈ D := by
  obtain ⟨raw,hraw,tx,hread,hstatus⟩ := h
  obtain ⟨sub,hsub,rfl⟩ := List.mem_map.mp hraw
  obtain ⟨c,hc,hdecode⟩ := readJson_eq_ok_iff.mp hread
  obtain ⟨rfl,-⟩ := Content.toQueued_eq_some.mp hdecode
  rw [FileSystem.readFile] at hc
  split at hc
  · obtain ⟨p,hp,hfile⟩ := Option.bind_eq_some_iff.mp hc
    rw [← locate_sub (isPlain_recordDirs sub hsub) hp]
    exact hfiles p _ hfile tx rfl hstatus
  · cases hc

/-- Without a failure in the agent's directory, what a payment is built on has not failed. -/
theorem onSound_of_no_failure {x : Acceptance} (hnone : fs.AllFiles fun _ c => c.isFailed = false)
    (hrun : (Server.start fs).run M store maxSize acts = some s)
    (hstep : s.step M store maxSize act = some s') (hacc : s'.accepted = s.accepted ++ [x])
    (hok : ∀ b, resolved (store.agentDir b) = resolved (store.agentDir x.agentId) →
      ¬ FailureRecorded M store maxSize fs acts b) : OnSound store s s' x := by
  intro y _ hfailed
  obtain ⟨henrolling,hfiles⟩ := run_failedIn hnone hrun
  have hmove := step_move hstep
  have hwork : act.isWork ≠ true := by
    intro hact
    rw [hmove.accepted_of_isWork hact] at hacc
    simp at hacc
  have hkept := (hmove.keeps_failed henrolling fun hact => absurd hact hwork).files hfiles
  obtain ⟨b,hb,hdir⟩ := mem_dirs_of_hasFailed hfailed hkept
  exact hok b hdir.symm hb

end Runs

section Exactness
variable {M : Miden} {store : FilesystemX402Store} {maxSize : ℕ} {fs : Files} {s s' : Server}
  {act : Action} {acts : List Action} {a : String} {x y : Acceptance}

/-- The record of the payment says that it failed. -/
structure Failed (store : FilesystemX402Store) (a : String) (y : Acceptance) (s : Server) : Prop where
  accepted : y ∈ s.history a
  record : ∃ tx, RecordAt store a s.files y.seq tx ∧ tx.status = .failed ∧ tx.Readable

/-- A payment that failed stays failed. -/
theorem Failed.move (h : Failed store a y s) (hinv : NumbersInv M store s)
    (hact : act.Smooth M ∧ act ≠ .restart) (hmove : Move M store maxSize s act s') :
    Failed store a y s' := by
  have hagent : AgentMove M store a s s' false := hact.1.2 ▸ hmove.agent hinv.lock hinv.plain a
  have hrecord := hmove.record hinv.plain hinv.names ⟨hact.1.2,hact.2⟩ a
  obtain ⟨tx,hat,hfailed,hread⟩ := h.record
  obtain ⟨tx',hat',hcont⟩ := (hinv.records_move hagent hrecord).2 y h.accepted tx hat
  refine ⟨hrecord.history_mono h.accepted,tx',hat',?_,?_⟩
  · have hleads := hcont.status
    rw [hfailed] at hleads
    exact hleads.of_failed
  · rw [QueuedTx.Readable,hcont.payload]
    exact hread

theorem Failed.hasFailed (h : Failed store a y s) (hinv : NumbersInv M store s) (ha : IsPlain a) :
    store.HasFailed a y.seq s.files := by
  obtain ⟨tx,hat,hfailed,hreadable⟩ := h.record
  have hdecode : (Content.queued tx).toQueued = some tx := Content.toQueued_eq_some.mpr ⟨rfl,hreadable⟩
  have hread : ∀ sub ∈ recordDirs, HasSub store s.files a sub →
      s.files.fileAt (store.recordPath a sub y.seq) = some (.queued tx) →
      store.HasFailed a y.seq s.files := by
    intro sub hsub hdir hfile
    refine ⟨store.recordPath a sub y.seq,?_,tx,readJson_eq_ok_iff.mpr ⟨.queued tx,?_,hdecode⟩,hfailed⟩
    · rw [recordFiles_eq ha]
      exact List.mem_map_of_mem hsub
    · exact (hdir.readFile ha (isPlain_recordDirs sub hsub) y.seq).trans hfile
  cases hat with
  | queued hfile _ => exact hread "pending_queue" (by decide) ((hinv.records a).named _ _ hfile).1 hfile
  | failed hdir _ hfile _ => exact hread "failed" (by decide) hdir hfile

theorem Underlies.append {history : List Acceptance} {state : String}
    (h : Underlies history y state) (x : Acceptance) : Underlies (history ++ [x]) y state := by
  induction h with
  | directly hy => exact .directly (List.mem_append_left _ hy)
  | through hx _ ih => exact .through (List.mem_append_left _ hx) ih

/-- A payment underlies the state all later ones lead to. -/
theorem underlies_tip {initial : String} {n : ℕ} {history : List Acceptance}
    (h : Ledger.Chained initial n (history.map Acceptance.entry)) (hy : y ∈ history) :
    Underlies history y (Ledger.tip initial (history.map Acceptance.entry)) := by
  induction history using List.reverseRecOn with
  | nil => cases hy
  | append_singleton history x ih =>
    rw [List.map_append,List.map_singleton] at h ⊢
    obtain ⟨hchained,hbase⟩ := h.of_append
    rw [Ledger.tip_append]
    rcases List.mem_append.mp hy with hold | hlast
    · have hunder := (ih hchained hold).append x
      rw [← hbase] at hunder
      exact .through (List.mem_append_right _ List.mem_cons_self) hunder
    · rw [List.mem_singleton.mp hlast]
      exact .directly (List.mem_append_right _ List.mem_cons_self)

/-- What the worker has taken from the queues could be read. -/
def WorkerReads (s : Server) : Prop := ∀ b tx, (b,tx) ∈ s.worker.records → tx.Readable

theorem WorkerReads.move (h : WorkerReads s) (hmove : Move M store maxSize s act s') :
    WorkerReads s' := by
  have hall : s.files.AllFiles (RecordsBelow fun _ _ => True) := fun _ _ _ _ _ => trivial
  refine hmove.held (P := fun _ tx => tx.Readable) ?_ ?_ h
  · intro b tx tx' hread _ hpayload
    rw [QueuedTx.Readable,hpayload]
    exact hread
  · exact fun b queued hlist tx htx => (mem_listQueued hall hlist htx).2

/-- The failure branch marks the record of an accepted payment. -/
theorem BatchInv.failed {s1 : Server} {now : ℕ} {outcome : Option String}
    (hbatch : BatchInv M store s) (hinv : NumbersInv M store s) (hinv1 : NumbersInv M store s1)
    (hreads : WorkerReads s) (hstep : s.step M store maxSize (.work now outcome) = some s1)
    (hfailing : s.worker.failing = some a) : ∃ y, Failed store a y s1 := by
  have hwork : s.workStep store maxSize now outcome = some s1 := hstep
  cases hw : s.worker with
  | finishing b tx todo rest =>
    rw [hw,Worker.failing] at hfailing
    split at hfailing
    · rename_i hfailed
      obtain rfl := Option.some.inj hfailing
      have hread : tx.Readable := hreads b tx (hw ▸ List.mem_cons_self)
      have hnames := hinv.plain.worker
      rw [hw] at hnames
      have hb := hnames b List.mem_cons_self
      obtain ⟨hinorder,hqueue⟩ := hbatch.attempted b
      have hbatching := hqueue.batching
      rw [hw] at hbatching
      obtain ⟨hseq,hpos,-⟩ := hbatching rfl
      have hattempted : tx.seq ∈ s.attemptsOf b := by
        rw [hinorder,List.mem_range'_1]
        omega
      obtain ⟨y,hy,hyseq⟩ := hbatch.exists_accepted hattempted
      have hrecords := hinv.records b
      rw [hw] at hrecords
      obtain ⟨-,⟨old,-,-,hfile⟩,-⟩ := hrecords.held rfl
      rw [Server.workStep,hw] at hwork
      obtain ⟨fs',hafter,rfl⟩ := Option.map_eq_some_iff.mp hwork
      have hself := (upsertQueued_rewrites hb (hrecords.named _ _ hfile).1 hfile hafter).self
      rw [← hyseq] at hself
      obtain ⟨tx',hat,-⟩ := (hinv1.records b).recorded y hy
      refine ⟨y,hy,tx,?_,hfailed,hread⟩
      cases hat with
      | queued hfile' hnone => exact .queued hself hnone
      | failed _ hnone _ _ =>
        have hcontra := hself.symm.trans hnone
        cases hcontra
    · cases hfailing
  | _ =>
    rw [hw] at hfailing
    cases hfailing

/-- A failure recorded earlier in a run is still on record at its end. -/
theorem failed_of_recorded (hfresh : Fresh store fs)
    (hacts : ∀ act ∈ acts, act.Smooth M ∧ act ≠ .restart)
    (hsole : (Server.start fs).Along M store maxSize (Server.Unraced store) acts)
    (hrun : (Server.start fs).run M store maxSize acts = some s)
    (hrecorded : FailureRecorded M store maxSize fs acts a) : ∃ y, Failed store a y s := by
  obtain ⟨before,act,later,s0,rfl,hbefore,hwork,hfailing⟩ := hrecorded
  have hearly : ∀ act ∈ before, act.Smooth M ∧ act ≠ .restart :=
    fun act h => hacts act (List.mem_append_left _ h)
  obtain ⟨hsole0,hsole1⟩ := hsole.append
  have hnumbers : NumbersInv M store s0 := numbersInv_run hfresh hearly hsole0 hbefore
  have hbatch : BatchInv M store s0 := batchInv_run hfresh
    (fun act h => ⟨(hearly act h).1.1.plainId,(hearly act h).2,(hearly act h).1.2⟩) hsole0 hbefore
  have hreads : WorkerReads s0 := run_invariant (Q := fun _ => True)
    (fun hs _ hmove => WorkerReads.move hs hmove)
    (fun b tx hmem => absurd hmem List.not_mem_nil) (fun _ _ => trivial) hbefore
  rw [Server.run,List.foldlM_append] at hrun
  obtain ⟨s0',hrun0,hrest⟩ := Option.bind_eq_some_iff.mp hrun
  obtain rfl : s0 = s0' := Option.some.inj (hbefore.symm.trans hrun0)
  rw [List.foldlM_cons] at hrest
  obtain ⟨s1,hstep,hlater⟩ := Option.bind_eq_some_iff.mp hrest
  obtain ⟨hunraced,hsole2⟩ := along_cons (hsole1 s0 hbefore)
  have hact := hacts act (List.mem_append_right before List.mem_cons_self)
  have hnumbers1 := hnumbers.move hact hunraced (step_move hstep)
  obtain ⟨now,outcome,rfl⟩ : ∃ now outcome, act = .work now outcome := by
    obtain ⟨⟨-,hfails⟩,-⟩ := hact
    cases act with
    | work now outcome => exact ⟨now,outcome,rfl⟩
    | workFails _ _ => cases hfails
    | _ => cases hwork
  obtain ⟨y,hfailed⟩ := hbatch.failed hnumbers hnumbers1 hreads hstep hfailing
  have hend : NumbersInv M store s ∧ Failed store a y s := by
    refine run_along (P := fun s => NumbersInv M store s ∧ Failed store a y s) ?_
      ⟨hnumbers1,hfailed⟩ ((along_of_forall fun act h _ => hacts act ?_).and (hsole2 s1 hstep)) hlater
    · rintro s s' act ⟨hs,hf⟩ ⟨hact,hunraced⟩ hmove
      exact ⟨hs.move hact hunraced hmove,hf.move hs hact hmove⟩
    · exact List.mem_append_right before (List.mem_cons_of_mem _ h)
  exact ⟨y,hend.2⟩

/-- A payment underlies every payment that is accepted after it. -/
theorem underlies_accepted {initial : String}
    (hchained : Ledger.Chained initial 0 (s.ledger x.agentId))
    (hacc : s.accepted = s'.accepted ++ [x]) (hy : y ∈ s'.history x.agentId) :
    Underlies (s'.history x.agentId) y x.payload.builtOnStateCommitment := by
  have hhistory : s.history x.agentId = s'.history x.agentId ++ [x] := by
    rw [Server.history,hacc,List.filter_append]
    simp [Server.history]
  rw [Server.ledger,hhistory,List.map_append,List.map_singleton] at hchained
  obtain ⟨hbefore,hbase⟩ := hchained.of_append
  have hunder := underlies_tip hbefore hy
  rw [← hbase] at hunder
  exact hunder

/-- As long as the worker has not taken its failure branch for a payment in the agent's directory,
nothing an accepted payment builds on has failed.  Once it has, in runs with plain names and without
restarts, with no two registrations of an agent at once and no write that fails, every payment the agent
makes is built on one that has failed. -/
theorem accepted_on_sound (hfresh : Fresh store fs) (hnone : fs.AllFiles fun _ c => c.isFailed = false)
    (hrun : (Server.start fs).run M store maxSize acts = some s)
    (hstep : s.step M store maxSize act = some s') (hacc : s'.accepted = s.accepted ++ [x]) :
    ((∀ b, resolved (store.agentDir b) = resolved (store.agentDir x.agentId) →
      ¬ FailureRecorded M store maxSize fs acts b) → OnSound store s s' x) ∧
    ((∀ act' ∈ acts ++ [act], act'.Smooth M ∧ act' ≠ .restart) →
      (Server.start fs).Along M store maxSize (Server.Unraced store) (acts ++ [act]) →
      FailureRecorded M store maxSize fs acts x.agentId → ¬ OnSound store s s' x) := by
  refine ⟨onSound_of_no_failure hnone hrun hstep hacc,?_⟩
  intro hacts hsole hrecorded hsound
  have hbefore := fun act' h => hacts act' (List.mem_append_left [act] h)
  have hact := hacts act (List.mem_append_right acts List.mem_cons_self)
  have hmove := step_move hstep
  have hrun' := run_concat.mpr ⟨s,hrun,hstep⟩
  obtain ⟨y,hfailed⟩ := failed_of_recorded hfresh hbefore hsole.append.1 hrun hrecorded
  have hnumbers : NumbersInv M store s := numbersInv_run hfresh hbefore hsole.append.1 hrun
  have hnumbers' : NumbersInv M store s' := numbersInv_run hfresh hacts hsole hrun'
  have hserver : ServerInv M store s' := serverInv_run hfresh
    (fun act' h => (hacts act' h).1.1.plainId) (fun act' h => (hacts act' h).1.2) hsole hrun'
  have hlater := hfailed.move hnumbers hact hmove
  cases hi : s'.initialOf x.agentId with
  | none =>
    have hmem := hlater.accepted
    rw [(hserver.unregistered hi).history] at hmem
    cases hmem
  | some initial =>
    apply hsound y (underlies_accepted (hserver.chained hi) hacc hfailed.accepted)
    exact hlater.hasFailed hnumbers' (hserver.following hi).plain

theorem emptyFiles_fileAt (p : Path) : emptyFiles.fileAt p = none := by
  rw [FileSystem.fileAt]
  by_cases h : p = ["data"] ∨ p = ["data","agents"]
  · rw [show emptyFiles.node p = some .dir from if_pos h]
  · rw [show emptyFiles.node p = none from if_neg h]

theorem emptyFiles_unfailed : emptyFiles.AllFiles fun _ c => c.isFailed = false := by
  intro p c hc
  rw [emptyFiles_fileAt] at hc
  cases hc

def sampleFirst : List Action :=
  sampleRegister 0 "a" ++
    samplePay 0 11 "a" (samplePayload "0xs0" "0xs1" ["0x01"])

/-- The second of two payments, up to the step that queues it. -/
def sampleSecond : List Action := samplePay 1 8 "a" (samplePayload "0xs1" "0xs2" ["0x02"])

/-- The acceptance of a payment in placeholder mode. -/
def sampleAcceptance (seq : ℕ) (builtOn newState nullifier : String) : Acceptance :=
  ⟨"a",seq,samplePayload builtOn newState [nullifier],[nullifier]⟩

theorem accepted_on_sound_sample : ∃ s s',
    (Server.start emptyFiles).run sampleMiden sampleStore 1 (sampleFirst ++ sampleSecond) = some s ∧
    s.step sampleMiden sampleStore 1 (.request 1 7) = some s' ∧
    OnSound sampleStore s s' (sampleAcceptance 2 "0xs1" "0xs2" "0x02") := by
  obtain ⟨s,hs,hfacts⟩ : ∃ s, (Server.start emptyFiles).run sampleMiden sampleStore 1
      (sampleFirst ++ sampleSecond) = some s ∧
      ((s.step sampleMiden sampleStore 1 (.request 1 7)).map fun s' => (s.accepted,s'.accepted)) =
        some ([sampleAcceptance 1 "0xs0" "0xs1" "0x01"],[sampleAcceptance 1 "0xs0" "0xs1" "0x01",
          sampleAcceptance 2 "0xs1" "0xs2" "0x02"]) :=
    Option.map_eq_some_iff.mp (by decide +kernel)
  obtain ⟨s',hs',hpair⟩ := Option.map_eq_some_iff.mp hfacts
  obtain ⟨hold,hnew⟩ := Prod.mk.inj hpair
  have hacc : s'.accepted = s.accepted ++ [sampleAcceptance 2 "0xs1" "0xs2" "0x02"] := by
    rw [hold,hnew]
    rfl
  refine ⟨s,s',hs,hs',?_⟩
  refine (accepted_on_sound fresh_emptyFiles emptyFiles_unfailed hs hs' hacc).1 ?_
  rintro b _ ⟨before,act,later,s0,hsplit,-,hact,-⟩
  have hmem : act ∈ sampleFirst ++ sampleSecond := by
    rw [hsplit]
    exact List.mem_append_right _ List.mem_cons_self
  have hquiet : ∀ act ∈ sampleFirst ++ sampleSecond, act.isWork = false := by decide
  rw [hquiet act hmem] at hact
  cases hact

/-- The second payment is accepted on top of the first one, whose submission was rejected. -/
theorem accepted_on_failed : ∃ s s',
    (Server.start emptyFiles).run sampleMiden sampleStore 1 (sampleFirst ++
      [.tick ["a"],.work 8 none,.work 8 none,.work 8 (some "rejected"),.work 8 none,.work 8 none] ++
      sampleSecond) = some s ∧
    s.step sampleMiden sampleStore 1 (.request 1 7) = some s' ∧
    s'.accepted = s.accepted ++ [sampleAcceptance 2 "0xs1" "0xs2" "0x02"] ∧
    ¬ OnSound sampleStore s s' (sampleAcceptance 2 "0xs1" "0xs2" "0x02") := by
  obtain ⟨s,hs,hfacts⟩ : ∃ s, (Server.start emptyFiles).run sampleMiden sampleStore 1 (sampleFirst ++
      [.tick ["a"],.work 8 none,.work 8 none,.work 8 (some "rejected"),.work 8 none,.work 8 none] ++
      sampleSecond) = some s ∧
      ((s.step sampleMiden sampleStore 1 (.request 1 7)).map fun s' => (s.accepted,s'.accepted,
        (readJson Content.toQueued ["data","agents","a","failed","1.json"] s'.files).map
          QueuedTx.status)) =
        some ([sampleAcceptance 1 "0xs0" "0xs1" "0x01"],[sampleAcceptance 1 "0xs0" "0xs1" "0x01",
          sampleAcceptance 2 "0xs1" "0xs2" "0x02"],.ok .failed) :=
    Option.map_eq_some_iff.mp (by decide +kernel)
  obtain ⟨s',hs',htriple⟩ := Option.map_eq_some_iff.mp hfacts
  simp only [Prod.mk.injEq] at htriple
  obtain ⟨hold,hnew,hread⟩ := htriple
  obtain ⟨tx,htx,hstatus⟩ := map_eq_ok hread
  refine ⟨s,s',hs,hs',by rw [hold,hnew]; rfl,?_⟩
  intro hsound
  apply hsound (sampleAcceptance 1 "0xs0" "0xs1" "0x01")
  · apply Underlies.directly
    rw [Server.history,hold]
    decide
  · exact ⟨_,by decide,tx,htx,hstatus⟩

end Exactness

end MidenX402.Facilitator
