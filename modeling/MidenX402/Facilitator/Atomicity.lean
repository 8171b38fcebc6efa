import MidenX402.Facilitator.Reads
import MidenX402.Facilitator.Sample

/-!
# What a payment leaves behind when it stops early

A payment makes several durable changes one after the other.  A request that the checks refuse makes
none; any other request goes through states in which its nullifiers are reserved and nothing else has
happened yet.
-/

namespace MidenX402.Facilitator
open Disk Rust

section Observations
variable (store : FilesystemX402Store) (agentId : String)

/-- What can be seen of an agent through the store. -/
structure Observation where
  view : Except FacilitatorError NullifierView
  pending : Except FacilitatorError PendingState
  queue : Except FacilitatorError (List QueuedTx)
  payment : String → Except FacilitatorError QueuedTx

def observe (fs : Files) : Observation :=
  ⟨store.nullifierView agentId fs,store.loadPendingState agentId fs,store.listQueued agentId fs,
    fun n => store.lookupPayment agentId n fs⟩

/-- The request can be accepted: everything it needs is on disk, it builds on the pending state, its
signature, output and mandate are in order, and it brings nullifiers none of which is taken. -/
def Admissible (M : Miden) (payload : AgenticPayload) (fs : Files) (pending : PendingState)
    (nullifiers : List String) : Prop :=
  ∃ record mandate view, store.loadAgent agentId fs = .ok record ∧
    store.loadMandate agentId fs = .ok mandate ∧ store.loadPendingState agentId fs = .ok pending ∧
    checkPayload M record mandate pending payload = .ok nullifiers ∧
    store.nullifierView agentId fs = .ok view ∧ ∀ n ∈ nullifiers, view.contains n = false

/-- The state in which the payment was accepted completely: its nullifiers are reserved, the pending
state has advanced, its record is queued, and every nullifier leads to it. -/
def AcceptedIn (payload : AgenticPayload) (now : ℕ) (pending : PendingState)
    (nullifiers : List String) (fs fs' : Files) : Prop :=
  ∃ view queue queue', store.nullifierView agentId fs = .ok view ∧
    store.listQueued agentId fs = .ok queue ∧ store.listQueued agentId fs' = .ok queue' ∧
    store.nullifierView agentId fs' = .ok ⟨view.reserved ∪ nullifiers.toFinset,view.spent⟩ ∧
    store.loadPendingState agentId fs' = .ok (newPending pending payload) ∧
    queue'.Perm (queuedTx pending payload nullifiers now :: queue) ∧
    ∀ n ∈ nullifiers,
      store.lookupPayment agentId n fs' = .ok (queuedTx pending payload nullifiers now)

/-- Wherever the handler stops, the agent is as before or as after a complete acceptance, and as
before when it returns an error. -/
def AllOrNothing (M : Miden) (payload : AgenticPayload) (now : ℕ) (fs : Files) : Prop :=
  (∀ fs' ∈ fs :: (postPayment M store agentId payload now fs).visited,
    observe store agentId fs' = observe store agentId fs ∨
    ∃ pending nullifiers, Admissible store agentId M payload fs pending nullifiers ∧
      AcceptedIn store agentId payload now pending nullifiers fs fs') ∧
  ∀ e, (postPayment M store agentId payload now fs).result = .error e →
    observe store agentId ((postPayment M store agentId payload now fs).last fs) =
      observe store agentId fs

end Observations

section Checks
variable {M : Miden} {store : FilesystemX402Store} {agentId : String} {payload : AgenticPayload}
  {fs : Files}

theorem accept_eq_ok_iff {pending : PendingState} {nullifiers : List String} :
    accept M store agentId payload fs = .ok (pending,nullifiers) ↔
      Admissible store agentId M payload fs pending nullifiers := by
  constructor
  · intro h
    obtain ⟨record,hr,h⟩ := except_bind_eq_ok h
    obtain ⟨mandate,hm,h⟩ := except_bind_eq_ok h
    obtain ⟨pending',hp,h⟩ := except_bind_eq_ok h
    obtain ⟨nullifiers',hn,h⟩ := except_bind_eq_ok h
    obtain ⟨view,hv,h⟩ := except_bind_eq_ok h
    obtain ⟨u,hc,h⟩ := except_bind_eq_ok h
    obtain ⟨rfl,rfl⟩ := Prod.mk.inj (Except.ok.inj h)
    refine ⟨record,mandate,view,hr,hm,hp,hn,hv,?_⟩
    rw [checkNullifiers] at hc
    split at hc
    · cases hc
    · rename_i hany
      simpa using hany
  · rintro ⟨record,mandate,view,hr,hm,hp,hn,hv,hfree⟩
    have hc : checkNullifiers view nullifiers = .ok () := by
      rw [checkNullifiers,if_neg]
      simpa using hfree
    simp only [accept,hr,hm,hp,hn,hv,hc,bind,Except.bind]
    rfl

end Checks

section Reserve
variable {fs : Files} {d : Path}

/-- Right after the first reservation the log holds one more entry and nothing else has changed. -/
theorem exists_visited_reserve {store : FilesystemX402Store} {agentId : String}
    (hd : fs.resolveDir [] (components (store.agentDir agentId)) = some d) {es0 : List WalEntry}
    (hlog : (fs.fileAt (d ++ ["nullifiers.wal"])).getD Contents.empty = .lines es0)
    (hdir : fs.isDir (d ++ ["nullifiers.wal"]) = false) (e : WalEntry) (es : List WalEntry) :
    ∃ s ∈ (store.reserveNullifiers agentId (e :: es) fs).visited,
      s.fileAt (d ++ ["nullifiers.wal"]) = some (.lines (es0 ++ [e])) ∧
      (∀ q, q ≠ d ++ ["nullifiers.wal"] → s.fileAt q = fs.fileAt q) ∧
      ∀ q, s.isDir q = fs.isDir q := by
  set p := d ++ ["nullifiers.wal"] with hp
  have hlocate : fs.locate (store.nullifiersWal agentId) = some p := by
    rw [FilesystemX402Store.nullifiersWal,locate_concat isPlain_wal,hd]
    rfl
  have hends : FileSystem.endsPlain (store.nullifiersWal agentId) = true := endsPlain_concat isPlain_wal
  obtain ⟨fs1,hopen,hfile,hothers,hdirs⟩ : ∃ fs1,
      (openAppend (store.nullifiersWal agentId)).exec fs = .ok (p,fs1) ∧
      fs1.fileAt p = some (.lines es0) ∧ (∀ q, q ≠ p → fs1.fileAt q = fs.fileAt q) ∧
      ∀ q, fs1.isDir q = fs.isDir q := by
    cases hf : fs.fileAt p with
    | some c =>
      refine ⟨fs,?_,?_,fun _ _ => rfl,fun _ => rfl⟩
      · simp [Prog.exec,openAppend,hlocate,hdir,hends,hf]
        rfl
      · rw [hf] at hlog ⊢
        exact congrArg some hlog
    | none =>
      rw [hf] at hlog
      refine ⟨fs.set p (some (.file Contents.empty)),?_,?_,?_,isDir_set_file _ hdir⟩
      · simp [Prog.exec,openAppend,hlocate,hdir,hends,hf]
        rfl
      · rw [FileSystem.fileAt_set,if_pos rfl]
        exact congrArg some hlog
      · intro q hq
        rw [FileSystem.fileAt_set,if_neg hq]
  have hdir1 : fs1.isDir p = false := (hdirs p).trans hdir
  refine ⟨(fs1.set p (some (.file .torn))).set p (some (.file (.lines (es0 ++ [e])))),?_,?_,?_,?_⟩
  · apply Prog.mem_visited_bind_right (b := p) (u := fs1)
    · rw [Prog.exec_mapError,hopen]
      rfl
    · apply Prog.mem_visited_bind_left
      have hrun : appendLine p e fs1 =
          (writeFile p (.lines (es0 ++ [e]))).mapError ioErr fs1 := by
        rw [appendLine,hfile]
        rfl
      rw [hrun]
      exact List.mem_cons_of_mem _ (List.mem_singleton.mpr rfl)
  · rw [FileSystem.fileAt_set,if_pos rfl]
  · intro q hq
    rw [FileSystem.fileAt_set,if_neg hq,FileSystem.fileAt_set,if_neg hq,hothers q hq]
  · intro q
    have htorn := isDir_set_file Content.torn hdir1
    rw [isDir_set_file _ ((htorn p).trans hdir1),htorn,hdirs]

end Reserve

section Stops
variable {M : Miden} {store : FilesystemX402Store} {agentId : String} {payload : AgenticPayload}
  {fs : Files}

theorem loadPendingState_congr {fs' : Files} {d : Path}
    (hd : fs.resolveDir [] (components (store.agentDir agentId)) = some d)
    (hd' : fs'.resolveDir [] (components (store.agentDir agentId)) = some d)
    (h : fs'.fileAt (d ++ ["pending_state.json"]) = fs.fileAt (d ++ ["pending_state.json"])) :
    store.loadPendingState agentId fs' = store.loadPendingState agentId fs := by
  have hread : fs'.readFile (store.pendingStateFile agentId) =
      fs.readFile (store.pendingStateFile agentId) := by
    rw [FilesystemX402Store.pendingStateFile,readFile_concat isPlain_pendingState,
      readFile_concat isPlain_pendingState,hd,hd',Option.bind_some,Option.bind_some,h]
  rw [FilesystemX402Store.loadPendingState,FilesystemX402Store.loadPendingState,readJson,readJson,
    hread]

/-- An admissible request passes through a state that reserves a nullifier which was free, with the
pending state still as it was. -/
theorem Admissible.halfway {pending : PendingState} {nullifiers : List String}
    (h : Admissible store agentId M payload fs pending nullifiers) (now : ℕ) :
    ∃ s ∈ (postPayment M store agentId payload now fs).visited,
      store.loadPendingState agentId s = .ok pending ∧
      ∃ n, (∀ view, store.nullifierView agentId fs = .ok view → n ∉ view.reserved) ∧
        ∀ view, store.nullifierView agentId s = .ok view → n ∈ view.reserved := by
  have haccept := accept_eq_ok_iff.mpr h
  obtain ⟨record,mandate,view,hr,-,hp,hn,hv,hfree⟩ := h
  obtain ⟨n,ns,rfl⟩ := List.exists_cons_of_ne_nil (checkPayload_eq_ok hn).2.1
  obtain ⟨d,hd⟩ := loadAgent_resolves hr
  obtain ⟨reserved,hres,-⟩ := except_bind_eq_ok hv
  obtain ⟨es0,hlog,hdir,-⟩ := readWalSet_eq_ok isPlain_wal hd hres
  obtain ⟨s,hs,hlog',hothers,hdirs⟩ := exists_visited_reserve hd hlog hdir
    ⟨n,pending.lastAcceptedSeq + 1,now⟩ (walEntries pending ns now)
  have hd' : s.resolveDir [] (components (store.agentDir agentId)) = some d :=
    resolveDir_mono (fun q hq => (hdirs q).trans hq) hd
  refine ⟨s,?_,?_,n,?_,?_⟩
  · apply Prog.mem_visited_bind_right (b := (pending,n :: ns)) (u := fs)
    · rw [Prog.exec_read,haccept]
      rfl
    · exact Prog.mem_visited_bind_left hs
  · rw [loadPendingState_congr hd hd' (hothers _ (by simp))]
    exact hp
  · intro view' hv'
    rw [hv] at hv'
    obtain rfl := Except.ok.inj hv'
    have hcontains := hfree n List.mem_cons_self
    rw [NullifierView.contains,Bool.or_eq_false_iff,decide_eq_false_iff_not] at hcontains
    exact hcontains.1
  · intro view' hv'
    obtain ⟨reserved',hres',hrest⟩ := except_bind_eq_ok hv'
    obtain ⟨spent',-,hview⟩ := except_bind_eq_ok hrest
    obtain rfl := Except.ok.inj hview
    have hset := readWalSet_of_lines isPlain_wal hd' (es0 ++ [⟨n,pending.lastAcceptedSeq + 1,now⟩])
      (by rw [hlog']; rfl) ((hdirs _).trans hdir)
    rw [FilesystemX402Store.nullifiersWal,hset] at hres'
    obtain rfl := Except.ok.inj hres'
    simp

/-- The handler keeps to all or nothing exactly for the requests it does not accept. -/
theorem allOrNothing_iff (M : Miden) (store : FilesystemX402Store) (agentId : String)
    (payload : AgenticPayload) (now : ℕ) (fs : Files) :
    AllOrNothing store agentId M payload now fs ↔
      ¬∃ pending nullifiers, Admissible store agentId M payload fs pending nullifiers := by
  constructor
  · rintro ⟨hall,-⟩ ⟨pending,nullifiers,hadm⟩
    obtain ⟨s,hs,hpending,n,hfree,htaken⟩ := hadm.halfway now
    obtain ⟨_,_,view,-,-,hp,-,hv,-⟩ := hadm
    rcases hall s (List.mem_cons_of_mem _ hs) with hsame | ⟨pending',ns,hadm',hacc⟩
    · have hview : store.nullifierView agentId s = store.nullifierView agentId fs :=
        congrArg Observation.view hsame
      exact hfree view hv (htaken view (hview.trans hv))
    · obtain ⟨_,_,_,-,-,hp',-⟩ := hadm'
      rw [hp] at hp'
      obtain rfl := Except.ok.inj hp'
      obtain ⟨_,_,_,-,-,-,-,hnew,-⟩ := hacc
      rw [hpending] at hnew
      have hseq := congrArg PendingState.lastAcceptedSeq (Except.ok.inj hnew)
      exact Nat.succ_ne_self _ hseq.symm
  · intro hnot
    cases haccept : accept M store agentId payload fs with
    | ok r =>
      exact absurd ⟨r.1,r.2,accept_eq_ok_iff.mp haccept⟩ hnot
    | error e =>
      have hrun : postPayment M store agentId payload now fs = ⟨[],.error e⟩ :=
        Prog.run_read_bind_of_error haccept
      rw [AllOrNothing,hrun]
      refine ⟨?_,fun _ _ => rfl⟩
      intro fs' hfs'
      rw [List.mem_singleton.mp hfs']
      exact Or.inl rfl

end Stops

def registeredFiles : Files :=
  (after (registerAgent sampleStore (sampleRegistration "a") 0) emptyFiles).getD emptyFiles

/-- Two registered agents. -/
def neighbours : Files :=
  (after (registerAgent sampleStore (sampleRegistration "b") 0) registeredFiles).getD registeredFiles

/-- A payment that claims the empty string as a nullifier fails on its sentinel file: the handler
returns an error, and the pending state has advanced. -/
theorem postPayment_fails_halfway :
    let run := postPayment sampleMiden sampleStore "a" (samplePayload "0xs0" "0xs1" [""]) 7
      registeredFiles
    run.result = .error (ioErr .notADirectory) ∧
    sampleStore.loadPendingState "a" registeredFiles = .ok ⟨"0xs0","0xs0",0⟩ ∧
    sampleStore.loadPendingState "a" (run.last registeredFiles) = .ok ⟨"0xs0","0xs1",1⟩ ∧
    ¬AllOrNothing sampleStore "a" sampleMiden (samplePayload "0xs0" "0xs1" [""]) 7
      registeredFiles := by
  intro run
  have hresult : run.result = .error (ioErr .notADirectory) := by decide +kernel
  have hbefore : sampleStore.loadPendingState "a" registeredFiles = .ok ⟨"0xs0","0xs0",0⟩ := by
    decide +kernel
  have hafter : sampleStore.loadPendingState "a" (run.last registeredFiles) =
      .ok ⟨"0xs0","0xs1",1⟩ := by
    decide +kernel
  refine ⟨hresult,hbefore,hafter,?_⟩
  rintro ⟨-,hnothing⟩
  have hsame : sampleStore.loadPendingState "a" (run.last registeredFiles) =
      sampleStore.loadPendingState "a" registeredFiles :=
    congrArg Observation.pending (hnothing _ hresult)
  rw [hbefore,hafter] at hsame
  exact absurd hsame (by decide)

end MidenX402.Facilitator
