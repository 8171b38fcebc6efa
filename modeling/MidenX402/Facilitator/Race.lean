import MidenX402.Disk.Interleaving
import MidenX402.Facilitator.Moves
import MidenX402.Facilitator.Registration
import MidenX402.Facilitator.Server

/-!
# Registrations of one agent side by side

`register_agent` looks for the directory of the agent and then makes and writes what belongs there, one
file operation after the other, and takes no mutex.  Other calls for the same agent and its payments
come in between.  Payments take the mutex of the agent, so at most one is under way.
-/

namespace MidenX402.Facilitator
open Disk

section Scripts
variable (store : FilesystemX402Store)

/-- The arguments of a call of `register_agent`. -/
structure Registration (agentId : String) where
  record : AgentRecord
  mandate : AgentMandate
  initialStateCommitment : String
  sameAgent : record.agentId = agentId

def Registration.initial {agentId : String} (reg : Registration agentId) : PendingState :=
  ⟨reg.initialStateCommitment,reg.initialStateCommitment,0⟩

def dirOps (agentId : String) : List (FsOp Content) :=
  mkdirs [] (components (store.agentDir agentId)) ++ mkdirs [] (components (store.queueDir agentId)) ++
    mkdirs [] (components (store.committedDir agentId)) ++
    mkdirs [] (components (store.failedDir agentId)) ++ mkdirs [] (components (store.paymentsDir agentId))

def recordOps {agentId : String} (reg : Registration agentId) : List (FsOp Content) :=
  atomicWriteOps (store.agentFile agentId) (.agent reg.record) ++
    atomicWriteOps (store.mandateFile agentId) (.mandate reg.mandate) ++
    atomicWriteOps (store.pendingStateFile agentId) (.pending reg.initial)

def touchOps (agentId : String) : List (FsOp Content) :=
  [.openAppend (store.nullifiersWal agentId),.openAppend (store.nullifiersSpent agentId)]

/-- What a call of `register_agent` does when it has found no directory of the agent. -/
def registerOps {agentId : String} (reg : Registration agentId) : List (FsOp Content) :=
  dirOps store agentId ++ recordOps store reg ++ touchOps store agentId

/-- A line is appended at once: nobody else reads the log. -/
def reserveOps (agentId : String) (entries : List WalEntry) : List (FsOp Content) :=
  .openAppend (store.nullifiersWal agentId) :: entries.map fun e => .put fun c => c.append e

def advanceOps (agentId : String) (newState : PendingState) : List (FsOp Content) :=
  atomicWriteOps (store.pendingStateFile agentId) (.pending newState)

def sentinelOps (agentId : String) (seq : ℕ) (nullifiers : List String) : List (FsOp Content) :=
  nullifiers.flatMap fun n => atomicWriteOps (join (store.paymentsDir agentId) n) (.lookup seq)

def queueOps (agentId : String) (tx : QueuedTx) : List (FsOp Content) :=
  atomicWriteOps (store.queueFile agentId tx.seq) (.queued tx) ++
    sentinelOps store agentId tx.seq tx.nullifiers

end Scripts

section Calls

/-- Before its check, between two of its file operations, or answered, by whether with `Ok`. -/
inductive CallState where
  | checking
  | running (t : Process Content)
  | returned (ok : Bool)

/-- A payment that holds the mutex: the stage it has reached, and the write that leads to the next. -/
structure Payment where
  payload : AgenticPayload
  stage : Stage
  writing : Option (Stage × Process Content)

/-- The calls and the payments of one agent.  Whose state was advanced and what was accepted is recorded
on the side. -/
structure Race (ι : Type) where
  volume : Volume Content
  call : ι → CallState
  payment : Option Payment
  advanced : List AgenticPayload
  accepted : List Acceptance

inductive RaceAction (ι : Type) where
  | call (i : ι)
  | arrive (payload : AgenticPayload)
  | pay (now : ℕ)

variable (M : Miden) (store : FilesystemX402Store) {a : String} {ι : Type} [DecidableEq ι]

/-- The stages that write, with the stage that follows and the operations that lead there. -/
def stageOps (agentId : String) (payload : AgenticPayload) (now : ℕ) :
    Stage → Option (Stage × List (FsOp Content))
  | .clear pending nullifiers => some (.reserved pending nullifiers now,
      reserveOps store agentId (walEntries pending nullifiers now))
  | .reserved pending nullifiers now => some (.advanced pending nullifiers now,
      advanceOps store agentId (newPending pending payload))
  | .advanced pending nullifiers now => some (.queued pending nullifiers now,
      queueOps store agentId (queuedTx pending payload nullifiers now))
  | _ => none

def advancement (payload : AgenticPayload) : Stage → List AgenticPayload
  | .advanced _ _ _ => [payload]
  | _ => []

def Race.start (v : Volume Content) : Race ι := ⟨v,fun _ => .checking,none,[],[]⟩

def Race.setCall (s : Race ι) (i : ι) (c : CallState) : Race ι :=
  { s with call := Function.update s.call i c }

def Race.callStep (reg : Registration a) (s : Race ι) (i : ι) : Option (Race ι) :=
  match s.call i with
  | .checking => some (s.setCall i (
      if s.volume.view.pathExists (store.agentDir a) then .returned false
      else .running ⟨registerOps store reg,none⟩))
  | .running t => (t.step s.volume).map fun
    | .goesOn v t => { s with volume := v }.setCall i (.running t)
    | .ends v => { s with volume := v }.setCall i (.returned true)
    | .fails _ => s.setCall i (.returned false)
  | .returned _ => none

/-- The payment goes on from another stage. -/
def Race.enter (a : String) (s : Race ι) (p : Payment) (σ : Stage) : Race ι :=
  { s with
    payment := some ⟨p.payload,σ,none⟩
    advanced := s.advanced ++ advancement p.payload σ
    accepted := s.accepted ++ acceptance a p.payload σ }

/-- The next read or the next file operation of a payment, or the start of a write. -/
def Race.payStep (a : String) (s : Race ι) (now : ℕ) (p : Payment) : Option (Race ι) :=
  match p.writing with
  | some (σ,t) => (t.step s.volume).map fun
    | .goesOn v t => { s with volume := v, payment := some { p with writing := some (σ,t) } }
    | .ends v => { s with volume := v }.enter a p σ
    | .fails _ => { s with payment := none }
  | none =>
    match stageOps store a p.payload now p.stage with
    | some (σ,ops) => some { s with payment := some { p with writing := some (σ,⟨ops,none⟩) } }
    | none => (stageStep M store a p.payload now s.volume.view p.stage).map fun
      | .next σ _ => s.enter a p σ
      | .answer _ => { s with payment := none }

def Race.step (regs : ι → Registration a) (s : Race ι) : RaceAction ι → Option (Race ι)
  | .call i => s.callStep store (regs i) i
  | .arrive payload =>
    match s.payment with
    | none => some { s with payment := some ⟨payload,.entered,none⟩ }
    | some _ => none
  | .pay now => s.payment.bind (s.payStep M store a now)

def Race.run (regs : ι → Registration a) (s : Race ι) (actions : List (RaceAction ι)) :
    Option (Race ι) := actions.foldlM (Race.step M store regs) s

end Calls

section Moves
variable {M : Miden} {store : FilesystemX402Store} {a : String} {ι : Type} [DecidableEq ι]
  {s s' : Race ι} {i : ι} {p : Payment} {now : ℕ}

inductive CallMove (store : FilesystemX402Store) (reg : Registration a) (s : Race ι) (i : ι) :
    Race ι → Prop
  | refused (hcall : s.call i = .checking)
      (hpath : s.volume.view.pathExists (store.agentDir a) = true) :
      CallMove store reg s i (s.setCall i (.returned false))
  | starts (hcall : s.call i = .checking)
      (hpath : s.volume.view.pathExists (store.agentDir a) = false) :
      CallMove store reg s i (s.setCall i (.running ⟨registerOps store reg,none⟩))
  | goesOn {t v t'} (hcall : s.call i = .running t) (ht : t.step s.volume = some (.goesOn v t')) :
      CallMove store reg s i ({ s with volume := v }.setCall i (.running t'))
  | ends {t v} (hcall : s.call i = .running t) (ht : t.step s.volume = some (.ends v)) :
      CallMove store reg s i ({ s with volume := v }.setCall i (.returned true))
  | fails {t e} (hcall : s.call i = .running t) (ht : t.step s.volume = some (.fails e)) :
      CallMove store reg s i (s.setCall i (.returned false))

inductive PayMove (M : Miden) (store : FilesystemX402Store) (a : String) (s : Race ι) (p : Payment) :
    Race ι → Prop
  | reads {σ fs} (hwriting : p.writing = none) (hops : ∀ now, stageOps store a p.payload now p.stage = none)
      (hmove : StageMove M store a p.payload s.volume.view p.stage σ fs) :
      PayMove M store a s p (s.enter a p σ)
  | begins {now σ ops} (hwriting : p.writing = none)
      (hops : stageOps store a p.payload now p.stage = some (σ,ops)) :
      PayMove M store a s p { s with payment := some { p with writing := some (σ,⟨ops,none⟩) } }
  | goesOn {σ t v t'} (hwriting : p.writing = some (σ,t)) (ht : t.step s.volume = some (.goesOn v t')) :
      PayMove M store a s p { s with volume := v, payment := some { p with writing := some (σ,t') } }
  | ends {σ t v} (hwriting : p.writing = some (σ,t)) (ht : t.step s.volume = some (.ends v)) :
      PayMove M store a s p ({ s with volume := v }.enter a p σ)
  | answers : PayMove M store a s p { s with payment := none }

theorem callStep_move {reg : Registration a} (h : s.callStep store reg i = some s') :
    CallMove store reg s i s' := by
  rw [Race.callStep] at h
  cases hcall : s.call i with
  | checking =>
    simp only [hcall] at h
    rw [← Option.some.inj h]
    cases hpath : s.volume.view.pathExists (store.agentDir a) with
    | true => exact .refused hcall hpath
    | false => exact .starts hcall hpath
  | running t =>
    simp only [hcall] at h
    obtain ⟨r,hr,hs⟩ := Option.map_eq_some_iff.mp h
    cases r with
    | goesOn v t' =>
      rw [← hs]
      exact .goesOn hcall hr
    | ends v =>
      rw [← hs]
      exact .ends hcall hr
    | fails e =>
      rw [← hs]
      exact .fails hcall hr
  | returned ok =>
    simp only [hcall] at h
    cases h

/-- Whether a stage writes does not depend on the clock. -/
theorem stageOps_eq_none {payload : AgenticPayload} {σ : Stage}
    (h : stageOps store a payload now σ = none) (now' : ℕ) : stageOps store a payload now' σ = none := by
  cases σ with
  | clear _ _ => cases h
  | reserved _ _ _ => cases h
  | advanced _ _ _ => cases h
  | _ => rfl

omit [DecidableEq ι] in
theorem payStep_move (h : s.payStep M store a now p = some s') : PayMove M store a s p s' := by
  rw [Race.payStep] at h
  cases hwriting : p.writing with
  | some w =>
    obtain ⟨σ,t⟩ := w
    simp only [hwriting] at h
    obtain ⟨r,hr,hs⟩ := Option.map_eq_some_iff.mp h
    cases r with
    | goesOn v t' =>
      rw [← hs]
      exact .goesOn hwriting hr
    | ends v =>
      rw [← hs]
      exact .ends hwriting hr
    | fails e =>
      rw [← hs]
      exact .answers
  | none =>
    simp only [hwriting] at h
    cases hops : stageOps store a p.payload now p.stage with
    | some w =>
      simp only [hops] at h
      rw [← Option.some.inj h]
      exact .begins hwriting hops
    | none =>
      simp only [hops] at h
      obtain ⟨r,hr,hs⟩ := Option.map_eq_some_iff.mp h
      cases r with
      | next σ fs =>
        rw [← hs]
        exact .reads hwriting (stageOps_eq_none hops) (stageStep_next hr)
      | answer result =>
        rw [← hs]
        exact .answers

end Moves

section Refinement
variable {store : FilesystemX402Store} {a : String} {fs fs' : Files} {p : Path}

theorem implements_makeDirs (raw : List String) :
    Implements (mkdirs [] (components raw)) (FilesystemX402Store.makeDirs raw) := by
  apply Implements.mapError
  rw [← List.append_nil (mkdirs [] (components raw))]
  exact (implements_createDirAll [] (components raw)).bind fun _ _ _ _ => implements_pure ()

theorem implements_touch (raw : List String) :
    Implements [.openAppend raw] (FilesystemX402Store.touch raw) := by
  apply Implements.mapError
  rw [← List.append_nil [FsOp.openAppend raw]]
  exact (implements_openAppend raw).bind fun _ _ _ _ => implements_pure ()

theorem implements_atomicWriteJson (raw : List String) (c : Content) :
    Implements (atomicWriteOps raw c) (atomicWriteJson raw c) := (implements_atomicWrite raw c).mapError _

/-- A call that finds no directory and is left alone ends as the function of the store does. -/
theorem registerOps_spec (reg : Registration a) (habsent : fs.pathExists (store.agentDir a) = false)
    (name : Option Path) : (∃ name', runFiles (registerOps store reg) (fs,name) = .ok (fs',name')) ↔
      (store.registerAgent reg.record reg.mandate reg.initialStateCommitment).exec fs = .ok ((),fs') := by
  have hbody : Implements (registerOps store reg) (do
      FilesystemX402Store.makeDirs (store.agentDir reg.record.agentId)
      FilesystemX402Store.makeDirs (store.queueDir reg.record.agentId)
      FilesystemX402Store.makeDirs (store.committedDir reg.record.agentId)
      FilesystemX402Store.makeDirs (store.failedDir reg.record.agentId)
      FilesystemX402Store.makeDirs (store.paymentsDir reg.record.agentId)
      atomicWriteJson (store.agentFile reg.record.agentId) (.agent reg.record)
      atomicWriteJson (store.mandateFile reg.record.agentId) (.mandate reg.mandate)
      atomicWriteJson (store.pendingStateFile reg.record.agentId) (.pending reg.initial)
      FilesystemX402Store.touch (store.nullifiersWal reg.record.agentId)
      FilesystemX402Store.touch (store.nullifiersSpent reg.record.agentId)) := by
    rw [reg.sameAgent]
    simp only [registerOps,dirOps,recordOps,List.append_assoc]
    refine (implements_makeDirs _).bind fun _ _ _ _ => ?_
    refine (implements_makeDirs _).bind fun _ _ _ _ => ?_
    refine (implements_makeDirs _).bind fun _ _ _ _ => ?_
    refine (implements_makeDirs _).bind fun _ _ _ _ => ?_
    refine (implements_makeDirs _).bind fun _ _ _ _ => ?_
    refine (implements_atomicWriteJson _ _).bind fun _ _ _ _ => ?_
    refine (implements_atomicWriteJson _ _).bind fun _ _ _ _ => ?_
    refine (implements_atomicWriteJson _ _).bind fun _ _ _ _ => ?_
    rw [touchOps,← List.singleton_append]
    exact (implements_touch _).bind fun _ _ _ _ => implements_touch _
  have hcheck : (if fs.pathExists (store.agentDir reg.record.agentId) then
      Except.error (FacilitatorError.agentAlreadyRegistered reg.record.agentId) else .ok ()) =
        Except.ok () := by
    rw [reg.sameAgent,habsent]
    rfl
  rw [hbody fs name fs']
  delta FilesystemX402Store.registerAgent
  rw [Prog.exec_bind (Prog.read _),Prog.exec_read,hcheck]
  exact ⟨fun ⟨_,h⟩ => h,fun h => ⟨_,h⟩⟩

theorem implements_advance (p : PendingState) :
    Implements (advanceOps store a p) (store.advancePendingState a p) := implements_atomicWriteJson _ _

theorem implements_sentinels (seq : ℕ) (ns : List String) :
    Implements (sentinelOps store a seq ns) (store.writeSentinels a seq ns) := by
  induction ns with
  | nil => exact implements_pure ()
  | cons n ns ih =>
    rw [sentinelOps,List.flatMap_cons,FilesystemX402Store.writeSentinels]
    exact (implements_atomicWriteJson _ _).bind fun _ _ _ _ => ih

theorem implements_queue (tx : QueuedTx) :
    Implements (queueOps store a tx) (store.enqueue a tx) :=
  (implements_atomicWriteJson _ _).bind fun _ _ _ _ => implements_sentinels tx.seq tx.nullifiers

theorem runFiles_appendLines (es : List WalEntry) (fs fs' : Files) :
    (∃ name, runFiles (es.map fun e => FsOp.put fun c : Content => c.append e) (fs,some p) =
        .ok (fs',name)) ↔ ∃ u, (appendLines p es).exec fs = .ok (u,fs') := by
  induction es generalizing fs with
  | nil => exact (implements_pure (α := Content) (ε := FacilitatorError) ()) fs (some p) fs'
  | cons e es ih =>
    rw [List.map_cons,runFiles_cons,appendLines,Prog.exec_bind,FsOp.onFiles]
    cases hf : fs.fileAt p with
    | none =>
      have hline : (appendLine p e).exec fs = .error (ioErr .notFound) := by
        rw [Prog.exec,appendLine,hf]
        rfl
      rw [hline]
      apply iff_of_false
      · rintro ⟨_,h⟩
        cases h
      · rintro ⟨_,h⟩
        cases h
    | some c =>
      rw [exec_appendLine e hf,FileSystem.set_set]
      exact ih _

theorem implements_reserve (entries : List WalEntry) :
    Implements (reserveOps store a entries) (store.reserveNullifiers a entries) := by
  intro fs name fs'
  rw [reserveOps,runFiles_cons,FilesystemX402Store.reserveNullifiers,Prog.exec_bind,Prog.exec_mapError]
  rcases openAppend_onFiles (store.nullifiersWal a) fs name with ⟨e,hop,hprog⟩ | ⟨q,t,hop,hprog⟩
  · rw [hop,hprog]
    apply iff_of_false
    · rintro ⟨_,h⟩
      cases h
    · rintro ⟨_,h⟩
      cases h
  · rw [hop,hprog]
    exact runFiles_appendLines entries t fs'

end Refinement

end MidenX402.Facilitator
