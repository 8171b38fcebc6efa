import MidenX402.Facilitator.Types
import Mathlib.Data.List.Sort

/-!
# The per-agent store

One directory for each agent under `agents`, laid out as in `store.rs`.  Agent ids and nullifiers are
joined to paths as they come.
-/

namespace MidenX402.Facilitator
open Disk

abbrev Files := FileSystem Content

abbrev StoreOp (β : Type) := Prog Files FacilitatorError β

structure FilesystemX402Store where
  root : Path
  plain : ∀ s ∈ root, IsPlain s

def ioText : IoError → String
  | .notFound => "No such file or directory (os error 2)"
  | .busy => "Device or resource busy (os error 16)"
  | .alreadyExists => "File exists (os error 17)"
  | .notADirectory => "Not a directory (os error 20)"
  | .isADirectory => "Is a directory (os error 21)"
  | .noParent => "path has no parent"

def ioErr (e : IoError) : FacilitatorError := .internal ("io: " ++ ioText e)

def atomicWriteJson (raw : List String) (c : Content) : StoreOp Unit :=
  (atomicWrite raw c).mapError fun
    | .noParent => .internal ("path has no parent: " ++ display raw)
    | e => ioErr e

/-- The text that `serde_json` gives for its error is left out. -/
def readJson {β : Type} (decode : Content → Option β) (raw : List String) (fs : Files) :
    Except FacilitatorError β :=
  match fs.readFile raw with
  | none => .error (ioErr .notFound)
  | some c =>
    match decode c with
    | none => .error (.internal ("read " ++ display raw))
    | some b => .ok b

def readWalSet (raw : List String) (fs : Files) : Except FacilitatorError (Finset String) :=
  if !fs.pathExists raw then .ok ∅
  else match fs.readFile raw with
    | none => .error (ioErr .isADirectory)
    | some c =>
      match c.toEntries with
      | none => .error (.internal "corrupt WAL entry")
      | some es => .ok (es.map WalEntry.nullifier).toFinset

/-- Append one line through an open file. -/
def appendLine (p : Path) (e : WalEntry) : StoreOp Unit := fun fs =>
  match fs.fileAt p with
  | none => Prog.fail (ioErr .notFound) fs
  | some c => (writeFile p (c.append e)).mapError ioErr fs

def appendLines (p : Path) : List WalEntry → StoreOp Unit
  | [] => pure ()
  | e :: es => do
    appendLine p e
    appendLines p es

def seqFile (seq : ℕ) : String := Nat.repr seq ++ ".json"

namespace FilesystemX402Store
variable (store : FilesystemX402Store)

def agentsDir : List String := store.root ++ ["agents"]

def agentDir (agentId : String) : List String := join store.agentsDir agentId

def agentFile (agentId : String) : List String := store.agentDir agentId ++ ["agent.json"]

def mandateFile (agentId : String) : List String := store.agentDir agentId ++ ["mandate.json"]

def pendingStateFile (agentId : String) : List String :=
  store.agentDir agentId ++ ["pending_state.json"]

def nullifiersWal (agentId : String) : List String := store.agentDir agentId ++ ["nullifiers.wal"]

def nullifiersSpent (agentId : String) : List String :=
  store.agentDir agentId ++ ["nullifiers.spent"]

def queueDir (agentId : String) : List String := store.agentDir agentId ++ ["pending_queue"]

def committedDir (agentId : String) : List String := store.agentDir agentId ++ ["committed"]

def failedDir (agentId : String) : List String := store.agentDir agentId ++ ["failed"]

def paymentsDir (agentId : String) : List String := store.agentDir agentId ++ ["payments"]

def makeDirs (raw : List String) : StoreOp Unit :=
  (do let _ ← createDirAll [] (components raw) : Prog Files IoError Unit).mapError ioErr

def touch (raw : List String) : StoreOp Unit :=
  (do let _ ← openAppend raw : Prog Files IoError Unit).mapError ioErr

def registerAgent (record : AgentRecord) (mandate : AgentMandate)
    (initialStateCommitment : String) : StoreOp Unit := do
  let dir := store.agentDir record.agentId
  Prog.read fun fs =>
    if fs.pathExists dir then .error (.agentAlreadyRegistered record.agentId) else .ok ()
  makeDirs dir
  makeDirs (store.queueDir record.agentId)
  makeDirs (store.committedDir record.agentId)
  makeDirs (store.failedDir record.agentId)
  makeDirs (store.paymentsDir record.agentId)
  atomicWriteJson (store.agentFile record.agentId) (.agent record)
  atomicWriteJson (store.mandateFile record.agentId) (.mandate mandate)
  atomicWriteJson (store.pendingStateFile record.agentId)
    (.pending ⟨initialStateCommitment,initialStateCommitment,0⟩)
  touch (store.nullifiersWal record.agentId)
  touch (store.nullifiersSpent record.agentId)

def loadAgent (agentId : String) (fs : Files) : Except FacilitatorError AgentRecord :=
  (readJson Content.toAgent (store.agentFile agentId) fs).mapError
    fun _ => .agentNotRegistered agentId

def loadMandate (agentId : String) (fs : Files) : Except FacilitatorError AgentMandate :=
  (readJson Content.toMandate (store.mandateFile agentId) fs).mapError
    fun _ => .agentNotRegistered agentId

def loadPendingState (agentId : String) (fs : Files) : Except FacilitatorError PendingState :=
  (readJson Content.toPending (store.pendingStateFile agentId) fs).mapError
    fun _ => .agentNotRegistered agentId

def nullifierView (agentId : String) (fs : Files) : Except FacilitatorError NullifierView := do
  let reserved ← readWalSet (store.nullifiersWal agentId) fs
  let spent ← readWalSet (store.nullifiersSpent agentId) fs
  return ⟨reserved,spent⟩

def reserveNullifiers (agentId : String) (entries : List WalEntry) : StoreOp Unit := do
  let p ← (openAppend (store.nullifiersWal agentId)).mapError ioErr
  appendLines p entries

def advancePendingState (agentId : String) (newState : PendingState) : StoreOp Unit :=
  atomicWriteJson (store.pendingStateFile agentId) (.pending newState)

def queueFile (agentId : String) (seq : ℕ) : List String := store.queueDir agentId ++ [seqFile seq]

/-- One sentinel for each nullifier. -/
def writeSentinels (agentId : String) (seq : ℕ) : List String → StoreOp Unit
  | [] => pure ()
  | n :: ns => do
    atomicWriteJson (join (store.paymentsDir agentId) n) (.lookup seq)
    writeSentinels agentId seq ns

def enqueue (agentId : String) (tx : QueuedTx) : StoreOp Unit := do
  atomicWriteJson (store.queueFile agentId tx.seq) (.queued tx)
  store.writeSentinels agentId tx.seq tx.nullifiers

/-- The files a record can lie in, in the order they are tried. -/
def recordFiles (agentId : String) (seq : ℕ) : List (List String) :=
  ["pending_queue","committed","failed"].map fun sub => store.agentDir agentId ++ [sub,seqFile seq]

def upsertQueued (agentId : String) (tx : QueuedTx) : StoreOp Unit := fun fs =>
  match (store.recordFiles agentId tx.seq).find? fun p => (fs.readFile p).isSome with
  | some p => atomicWriteJson p (.queued tx) fs
  | none => atomicWriteJson (store.queueFile agentId tx.seq) (.queued tx) fs

/-- The records among the entries of a directory; one that does not read fails the listing. -/
def readRecords (raw : List String) :
    List (String × Node Content) → Except FacilitatorError (List QueuedTx)
  | [] => .ok []
  | (_,.dir) :: rest => readRecords raw rest
  | (name,.file c) :: rest => do
    match c.toQueued with
    | none => .error (.internal ("read " ++ display (raw ++ [name])))
    | some tx => return tx :: (← readRecords raw rest)

def listQueued (agentId : String) (fs : Files) : Except FacilitatorError (List QueuedTx) :=
  match fs.locate (store.queueDir agentId) with
  | none => .ok []
  | some dir =>
    if fs.isDir dir then
      (readRecords (store.queueDir agentId) (fs.entries dir)).map fun txs => txs.insertionSort fun a b => a.seq ≤ b.seq
    else .ok []

def listAgents (fs : Files) : List String :=
  (fs.entries store.agentsDir).filterMap fun
    | (name,.dir) => some name
    | _ => none

def moveToFailed (agentId : String) (seq : ℕ) : StoreOp Unit :=
  (rename (store.queueFile agentId seq) (store.failedDir agentId ++ [seqFile seq])).mapError ioErr

def lookupPayment (agentId nullifier : String) (fs : Files) : Except FacilitatorError QueuedTx :=
  match readJson Content.toLookup (join (store.paymentsDir agentId) nullifier) fs with
  | .error _ => .error (.notFound ("payment " ++ nullifier))
  | .ok seq =>
    match (store.recordFiles agentId seq).find? fun p => (fs.readFile p).isSome with
    | some p => readJson Content.toQueued p fs
    | none => .error (.notFound ("payment " ++ nullifier ++ " record missing"))

end FilesystemX402Store

section Registration

inductive RegisterOp where
  | makeDirs (raw : List String)
  | write (raw : List String) (content : Content)
  | touch (raw : List String)
deriving DecidableEq

def RegisterOp.run : RegisterOp → StoreOp Unit
  | .makeDirs raw => FilesystemX402Store.makeDirs raw
  | .write raw content => atomicWriteJson raw content
  | .touch raw => FilesystemX402Store.touch raw

def runOps : List RegisterOp → StoreOp Unit
  | [] => pure ()
  | [op] => op.run
  | op :: ops => do
    op.run
    runOps ops

/-- What `register_agent` does after its check, one operation after the other. -/
def FilesystemX402Store.registerOps (store : FilesystemX402Store) (record : AgentRecord)
    (mandate : AgentMandate) (initialStateCommitment : String) : List RegisterOp :=
  let id := record.agentId
  [.makeDirs (store.agentDir id),.makeDirs (store.queueDir id),.makeDirs (store.committedDir id),
    .makeDirs (store.failedDir id),.makeDirs (store.paymentsDir id),
    .write (store.agentFile id) (.agent record),.write (store.mandateFile id) (.mandate mandate),
    .write (store.pendingStateFile id)
      (.pending ⟨initialStateCommitment,initialStateCommitment,0⟩),
    .touch (store.nullifiersWal id),.touch (store.nullifiersSpent id)]

theorem registerAgent_eq (store : FilesystemX402Store) (record : AgentRecord) (mandate : AgentMandate)
    (initial : String) : store.registerAgent record mandate initial = (do
      Prog.read fun fs =>
        if fs.pathExists (store.agentDir record.agentId) then
          .error (.agentAlreadyRegistered record.agentId)
        else .ok ()
      runOps (store.registerOps record mandate initial)) := rfl

end Registration

end MidenX402.Facilitator
