import MidenX402.Facilitator.Sample
import MidenX402.Concurrency.KeyedLock

/-!
# The running server

Registrations, requests and the batch worker share the store.  A request takes the mutex of its agent,
then performs one store operation at a time; registrations and the worker take no mutex.  Any thread
may make the next step.  A store operation is one step; it may also fail with only some of its changes
made, which ends a registration or a request and which the worker passes over.  What was registered,
accepted and submitted and how often the worker went round is recorded on the side.
-/

namespace MidenX402.Facilitator
open Disk KeyedLock

/-- How far a request has come while it holds the mutex. -/
inductive Stage where
  | entered
  | haveRecord (record : AgentRecord)
  | haveMandate (record : AgentRecord) (mandate : AgentMandate)
  | checked (pending : PendingState) (nullifiers : List String)
  | clear (pending : PendingState) (nullifiers : List String)
  | reserved (pending : PendingState) (nullifiers : List String) (now : ℕ)
  | advanced (pending : PendingState) (nullifiers : List String) (now : ℕ)
  | queued (pending : PendingState) (nullifiers : List String) (now : ℕ)

/-- `arrived` is before the table of mutexes was asked, `missed` after it had none for the agent. -/
inductive Phase where
  | arrived
  | missed
  | waiting (lock : ℕ)
  | inside (lock : ℕ) (stage : Stage)

/-- A registration that passed its check, and the operations it still has to do. -/
structure Registering where
  record : AgentRecord
  mandate : AgentMandate
  initial : String
  todo : List RegisterOp

structure Request where
  agentId : String
  payload : AgenticPayload
  phase : Phase

/-- Where the worker is: between ticks, between agents, before the next transaction of a batch, and
before each of the operations on that transaction. -/
inductive Worker where
  | idle
  | agents (rest : List String)
  | batch (agentId : String) (todo : List QueuedTx) (rest : List String)
  | proving (agentId : String) (tx : QueuedTx) (todo : List QueuedTx) (rest : List String)
  | finishing (agentId : String) (tx : QueuedTx) (todo : List QueuedTx) (rest : List String)
  | moving (agentId : String) (seq : ℕ) (todo : List QueuedTx) (rest : List String)

structure Acceptance where
  agentId : String
  seq : ℕ
  payload : AgenticPayload
  nullifiers : List String

/-- An agent counts as registered from the write of its pending state on; `advances` are the payments
whose handler moved the pending state, in that order. -/
structure Server where
  files : Files
  locks : Table String
  registrations : List (Option Registering)
  requests : List (Option Request)
  worker : Worker
  registered : List (AgentRecord × String)
  advances : List Acceptance
  accepted : List Acceptance
  attempts : List (String × ℕ)
  ticks : ℕ

/-- In a `fails` action the store operation of the thread ends in an error after some of its changes. -/
inductive Action where
  | register (req : RegisterAgentRequest) (now : ℕ)
  | registration (thread : ℕ)
  | registrationFails (thread steps : ℕ)
  | arrive (agentId : String) (payload : AgenticPayload)
  | request (thread now : ℕ)
  | requestFails (thread now steps : ℕ)
  | tick (order : List String)
  | work (now : ℕ) (outcome : Option String)
  | workFails (now steps : ℕ)
  | lookup (agentId nullifier : String)
  | restart

/-- A request goes on with new files, or leaves with its answer. -/
inductive StageStep where
  | next (stage : Stage) (files : Files)
  | answer (result : Except FacilitatorError AckResponse)

section Request
variable (M : Miden) (store : FilesystemX402Store)

def Server.start (files : Files) : Server := ⟨files,Table.empty,[],[],.idle,[],[],[],[],0⟩

def Server.registration (s : Server) (thread : ℕ) : Option Registering :=
  (s.registrations[thread]?).join

def Server.request (s : Server) (thread : ℕ) : Option Request := (s.requests[thread]?).join

def Server.setRequest (s : Server) (thread : ℕ) (r : Option Request) : Server :=
  { s with requests := s.requests.set thread r }

def ackFor (payload : AgenticPayload) (pending : PendingState) (nullifiers : List String) (now : ℕ) :
    Except FacilitatorError AckResponse :=
  ((M.signWordHex (M.hash (ackBytes now payload.newStateCommitment nullifiers))).mapError
    fun e => .internal ("sign: " ++ e)).map fun signature =>
      ⟨now,payload.newStateCommitment,nullifiers,pending.lastAcceptedSeq + 1,signature⟩

/-- A load or a check: on to the next stage with the files as they are, or out with the error. -/
def proceed {β : Type} (fs : Files) (x : Except FacilitatorError β) (next : β → Stage) : StageStep :=
  match x with
  | .ok b => .next (next b) fs
  | .error e => .answer (.error e)

/-- The next operation of a request that holds the mutex of its agent. -/
def stageStep (agentId : String) (payload : AgenticPayload) (now : ℕ) (fs : Files) :
    Stage → Option StageStep
  | .entered => some (proceed fs (store.loadAgent agentId fs) .haveRecord)
  | .haveRecord record => some (proceed fs (store.loadMandate agentId fs) (.haveMandate record))
  | .haveMandate record mandate => some (proceed fs
      (do let pending ← store.loadPendingState agentId fs
          return (pending,← checkPayload M record mandate pending payload))
      fun (pending,nullifiers) => .checked pending nullifiers)
  | .checked pending nullifiers => some (proceed fs
      (do let view ← store.nullifierView agentId fs
          checkNullifiers view nullifiers)
      fun _ => .clear pending nullifiers)
  | .clear pending nullifiers =>
    (after (store.reserveNullifiers agentId (walEntries pending nullifiers now)) fs).map
      (.next (.reserved pending nullifiers now))
  | .reserved pending nullifiers now =>
    (after (store.advancePendingState agentId (newPending pending payload)) fs).map
      (.next (.advanced pending nullifiers now))
  | .advanced pending nullifiers now =>
    (after (store.enqueue agentId (queuedTx pending payload nullifiers now)) fs).map
      (.next (.queued pending nullifiers now))
  | .queued pending nullifiers now => some (.answer (ackFor M payload pending nullifiers now))

/-- What is left of the write of a stage that fails.  The log is synced when its lines are written, so
that this write can fail complete. -/
def stageFails (agentId : String) (payload : AgenticPayload) (now steps : ℕ) (fs : Files) :
    Stage → Option Files
  | .clear pending nullifiers =>
    (store.reserveNullifiers agentId (walEntries pending nullifiers now)).reached steps fs
  | .reserved pending _ _ =>
    (store.advancePendingState agentId (newPending pending payload)).failed steps fs
  | .advanced pending nullifiers now =>
    (store.enqueue agentId (queuedTx pending payload nullifiers now)).failed steps fs
  | _ => none

/-- A step that writes the pending state moves it. -/
def advance (agentId : String) (payload : AgenticPayload) : Stage → List Acceptance
  | .advanced pending nullifiers _ => [⟨agentId,pending.lastAcceptedSeq + 1,payload,nullifiers⟩]
  | _ => []

/-- The acceptance a step completes: the payment has been queued. -/
def acceptance (agentId : String) (payload : AgenticPayload) : Stage → List Acceptance
  | .queued pending nullifiers _ => [⟨agentId,pending.lastAcceptedSeq + 1,payload,nullifiers⟩]
  | _ => []

def Server.requestStep (s : Server) (thread now : ℕ) (r : Request) : Option Server :=
  match r.phase with
  | .arrived =>
    match s.locks.get r.agentId with
    | some m => some (s.setRequest thread (some { r with phase := .waiting m }))
    | none => some (s.setRequest thread (some { r with phase := .missed }))
  | .missed =>
    let (locks,m) := s.locks.getOrInsert r.agentId
    some ({ s with locks := locks }.setRequest thread (some { r with phase := .waiting m }))
  | .waiting m => (s.locks.acquire m thread).map fun locks =>
      { s with locks := locks }.setRequest thread (some { r with phase := .inside m .entered })
  | .inside m stage =>
    (stageStep M store r.agentId r.payload now s.files stage).map fun
      | .next stage' files =>
        { s with
          files := files
          advances := s.advances ++ advance r.agentId r.payload stage'
          accepted := s.accepted ++ acceptance r.agentId r.payload stage' }.setRequest
            thread (some { r with phase := .inside m stage' })
      | .answer _ => { s with locks := s.locks.release m }.setRequest thread none

/-- The request answers with the error and gives the mutex back. -/
def Server.requestFails (s : Server) (thread now steps : ℕ) (r : Request) : Option Server :=
  match r.phase with
  | .inside m stage => (stageFails store r.agentId r.payload now steps s.files stage).map fun files =>
      { s with files := files, locks := s.locks.release m }.setRequest thread none
  | _ => none

end Request

section Work
variable (store : FilesystemX402Store) (maxSize : ℕ)

def startProving (tx : QueuedTx) (now : ℕ) : QueuedTx :=
  { tx with tBatchStartedUnixMicros := some now, status := .proving }

/-- The record after the submission attempt; `outcome` is its error. -/
def recordOutcome (tx : QueuedTx) (now : ℕ) (outcome : Option String) : QueuedTx :=
  match outcome with
  | none => { tx with status := .submitted, tSubmittedUnixMicros := some now }
  | some e => { tx with status := .failed, error := some e }

def nextBatch (maxSize : ℕ) (queued : List QueuedTx) : List QueuedTx :=
  (queued.filter fun tx => tx.status = .accepted).take maxSize

def Server.workStep (s : Server) (now : ℕ) (outcome : Option String) : Option Server :=
  match s.worker with
  | .idle => none
  | .agents [] => some { s with worker := .idle, ticks := s.ticks + 1 }
  | .agents (agentId :: rest) =>
    match store.listQueued agentId s.files with
    | .error _ => some { s with worker := .idle }
    | .ok queued => some { s with worker := .batch agentId (nextBatch maxSize queued) rest }
  | .batch _ [] rest => some { s with worker := .agents rest }
  | .batch agentId (tx :: todo) rest =>
    (after (store.upsertQueued agentId (startProving tx now)) s.files).map fun files =>
      { s with files := files, worker := .proving agentId (startProving tx now) todo rest }
  | .proving agentId tx todo rest =>
    some { s with
      attempts := s.attempts ++ [(agentId,tx.seq)]
      worker := .finishing agentId (recordOutcome tx now outcome) todo rest }
  | .finishing agentId tx todo rest =>
    (after (store.upsertQueued agentId tx) s.files).map fun files =>
      { s with
        files := files
        worker := if tx.status = .failed then .moving agentId tx.seq todo rest
          else .batch agentId todo rest }
  | .moving agentId seq todo rest =>
    (after (store.moveToFailed agentId seq) s.files).map fun files =>
      { s with files := files, worker := .batch agentId todo rest }

/-- The worker goes on whether its writes succeed or not. -/
def Server.workFails (s : Server) (now steps : ℕ) : Option Server :=
  match s.worker with
  | .batch agentId (tx :: todo) rest =>
    ((store.upsertQueued agentId (startProving tx now)).failed steps s.files).map fun files =>
      { s with files := files, worker := .proving agentId (startProving tx now) todo rest }
  | .finishing agentId tx todo rest =>
    ((store.upsertQueued agentId tx).failed steps s.files).map fun files =>
      { s with
        files := files
        worker := if tx.status = .failed then .moving agentId tx.seq todo rest
          else .batch agentId todo rest }
  | .moving agentId seq todo rest =>
    ((store.moveToFailed agentId seq).failed steps s.files).map fun files =>
      { s with files := files, worker := .batch agentId todo rest }
  | _ => none

end Work

section Register
variable (store : FilesystemX402Store)

/-- The check of a registration; the operations are still to come. -/
def Server.registerStep (s : Server) (req : RegisterAgentRequest) (now : ℕ) : Server :=
  let record := agentRecord req now
  if Rust.isBlank req.agentId || s.files.pathExists (store.agentDir req.agentId) then s
  else { s with registrations := s.registrations ++
    [some ⟨record,req.mandate,req.initialStateCommitment,
      store.registerOps record req.mandate req.initialStateCommitment⟩] }

def Server.setRegistration (s : Server) (thread : ℕ) (g : Option Registering) : Server :=
  { s with registrations := s.registrations.set thread g }

/-- The agent an operation completes the registration of: its pending state is there. -/
def Registering.registers (g : Registering) : RegisterOp → List (AgentRecord × String)
  | .write _ (.pending _) => [(g.record,g.initial)]
  | _ => []

def Registering.rest (g : Registering) : Option Registering :=
  match g.todo.tail with
  | [] => none
  | todo => some { g with todo := todo }

def Server.registrationStep (s : Server) (thread : ℕ) (g : Registering) : Option Server :=
  match g.todo with
  | [] => none
  | op :: _ => (after op.run s.files).map fun files =>
      { s with files := files, registered := s.registered ++ g.registers op }.setRegistration
        thread g.rest

def Server.registrationFails (s : Server) (thread steps : ℕ) (g : Registering) : Option Server :=
  match g.todo with
  | [] => none
  | op :: _ => (op.run.failed steps s.files).map fun files =>
      { s with files := files }.setRegistration thread none

end Register

def Request.isInside (r : Request) : Bool :=
  match r.phase with
  | .inside _ _ => true
  | _ => false

section Steps
variable (M : Miden) (store : FilesystemX402Store) (maxSize : ℕ)

/-- One step.  A restart is clean: no registration is under way and no request holds a mutex; the files
stay, the mutexes and whatever the worker was doing are gone. -/
def Server.step (s : Server) : Action → Option Server
  | .register req now => some (s.registerStep store req now)
  | .registration thread => (s.registration thread).bind (s.registrationStep thread)
  | .registrationFails thread steps =>
    (s.registration thread).bind (s.registrationFails thread steps)
  | .arrive agentId payload =>
    some { s with requests := s.requests ++ [some ⟨agentId,payload,.arrived⟩] }
  | .request thread now => (s.request thread).bind (s.requestStep M store thread now)
  | .requestFails thread now steps => (s.request thread).bind (s.requestFails store thread now steps)
  | .tick order =>
    match s.worker with
    | .idle => if order.Perm (store.listAgents s.files) then some { s with worker := .agents order } else none
    | _ => none
  | .work now outcome => s.workStep store maxSize now outcome
  | .workFails now steps => s.workFails store now steps
  | .lookup _ _ => some s
  | .restart =>
    if (s.requests.any fun r => r.any Request.isInside) || s.registrations.any Option.isSome then none
    else some { s with
      locks := Table.empty
      registrations := []
      requests := []
      worker := .idle }

/-- No other registration of the directory stands between its check and its first operation. -/
def Server.Unraced (s : Server) : Action → Prop
  | .register req _ => ∀ g ∈ s.registrations.reduceOption,
      g.todo.head? ≠ some (.makeDirs (store.agentDir req.agentId))
  | _ => True

instance (s : Server) (act : Action) : Decidable (s.Unraced store act) :=
  match act with
  | .register req _ => inferInstanceAs (Decidable (∀ g ∈ s.registrations.reduceOption,
      g.todo.head? ≠ some (.makeDirs (store.agentDir req.agentId))))
  | .registration _ | .registrationFails _ _ | .arrive _ _ | .request _ _ | .requestFails _ _ _
  | .tick _ | .work _ _ | .workFails _ _ | .lookup _ _ | .restart => isTrue trivial

def Server.run (s : Server) (actions : List Action) : Option Server :=
  actions.foldlM (Server.step M store maxSize) s

/-- Every action of a run meets the condition in the state it is taken in. -/
def Server.Along (Q : Server → Action → Prop) (s : Server) : List Action → Prop
  | [] => True
  | act :: acts => Q s act ∧
    match s.step M store maxSize act with
    | none => True
    | some s' => s'.Along Q acts

instance decidableAlong {Q : Server → Action → Prop} [∀ s act, Decidable (Q s act)] (s : Server)
    (acts : List Action) : Decidable (s.Along M store maxSize Q acts) :=
  match acts with
  | [] => isTrue trivial
  | act :: acts =>
    match h : s.step M store maxSize act with
    | none => decidable_of_iff (Q s act) (by simp [Server.Along,h])
    | some s' =>
      have : Decidable (s'.Along M store maxSize Q acts) := decidableAlong s' acts
      decidable_of_iff (Q s act ∧ s'.Along M store maxSize Q acts) (by simp [Server.Along,h])

end Steps

end MidenX402.Facilitator
