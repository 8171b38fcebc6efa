import MidenX402.Disk.Contents
import MidenX402.Facilitator.Frames
import MidenX402.Facilitator.Moves

/-!
# What the operations write

A property of files that says nothing of logs and of sentinels.  An operation of the store keeps it when
the pending state or the record it writes has it.  Agent ids and nullifiers may be any strings, and
operations may fail.
-/

namespace MidenX402.Facilitator
open Disk

/-- The property leaves open what logs, sentinels and unfinished files hold. -/
structure Silent (Q : Path → Content → Prop) : Prop extends Unfinished Q where
  lookup : ∀ p seq, Q p (.lookup seq)
  append : ∀ p (c : Content) e, Q p (c.append e)

section Operations
variable {store : FilesystemX402Store} {fs fs' : Files} {a : String} {Q : Path → Content → Prop}

theorem writeJson_keeps (hQ : Silent Q) {raw : List String} {c : Content}
    (h : ∀ name, Q (normalize [] (components raw).dropLast ++ [name]) c) :
    (atomicWriteJson raw c).Steps (Keeps Q) fs := (atomicWrite_keeps hQ.toUnfinished h).mapError _

theorem writeRecord_keeps (hQ : Silent Q) {sub : String} (hsub : IsPlain sub) {seq : ℕ} {tx : QueuedTx}
    (h : ∀ sub name, Q (resolved (store.agentDir a) ++ [sub] ++ [name]) (.queued tx)) :
    (atomicWriteJson (store.agentDir a ++ [sub,seqFile seq]) (.queued tx)).Steps (Keeps Q) fs := by
  apply writeJson_keeps hQ
  intro name
  rw [normalize_sub store a hsub (isPlain_seqFile seq)]
  exact h sub name

theorem upsertQueued_keeps (hQ : Silent Q) {tx : QueuedTx}
    (h : ∀ sub name, Q (resolved (store.agentDir a) ++ [sub] ++ [name]) (.queued tx)) :
    (store.upsertQueued a tx).Steps (Keeps Q) fs := by
  intro t ht
  delta FilesystemX402Store.upsertQueued at ht
  split at ht
  · rename_i raw hfind
    obtain ⟨sub,hsub,rfl⟩ := List.mem_map.mp (List.mem_of_find?_eq_some hfind)
    exact writeRecord_keeps hQ (isPlain_recordDirs sub hsub) h t ht
  · rw [queueFile_split] at ht
    exact writeRecord_keeps hQ (by decide) h t ht

theorem writeSentinels_keeps (hQ : Silent Q) {seq : ℕ} {ns : List String} :
    (store.writeSentinels a seq ns).Steps (Keeps Q) fs := by
  induction ns generalizing fs with
  | nil => exact Prog.steps_pure ()
  | cons n ns ih => exact (writeJson_keeps hQ fun _ => hQ.lookup _ _).bind fun _ _ _ => ih

theorem enqueue_keeps (hQ : Silent Q) {tx : QueuedTx}
    (h : ∀ sub name, Q (resolved (store.agentDir a) ++ [sub] ++ [name]) (.queued tx)) :
    (store.enqueue a tx).Steps (Keeps Q) fs := by
  rw [FilesystemX402Store.enqueue,queueFile_split]
  exact (writeRecord_keeps hQ (by decide) h).bind fun _ _ _ => writeSentinels_keeps hQ

theorem appendLines_keeps (hQ : Silent Q) {p : Path} {es : List WalEntry} (hdir : fs.isDir p = false) :
    (appendLines p es).Steps (Keeps Q) fs := by
  induction es generalizing fs with
  | nil => exact Prog.steps_pure ()
  | cons e es ih =>
    apply Prog.Steps.bind
    · intro t ht
      rw [appendLine] at ht
      split at ht
      · exact Prog.steps_fail _ t ht
      · exact (writeFile_keeps hdir (hQ.torn _) (hQ.append _ _ _)).mapError _ t ht
    · intro _ t ht
      apply ih
      cases hc : fs.fileAt p with
      | none =>
        rw [Prog.exec,appendLine,hc] at ht
        cases ht
      | some c =>
        rw [exec_appendLine e hc] at ht
        obtain rfl := (Prod.mk.inj (Except.ok.inj ht)).2
        have htorn := isDir_set_file Content.torn hdir p
        rw [isDir_set_file _ (htorn.trans hdir),htorn]
        exact hdir

theorem reserveNullifiers_keeps (hQ : Silent Q) {es : List WalEntry} :
    (store.reserveNullifiers a es).Steps (Keeps Q) fs := by
  apply ((openAppend_keeps hQ.toUnfinished).mapError _).bind
  intro p fs1 hopen
  exact appendLines_keeps hQ (openAppend_notDir (Prog.exec_mapError_eq_ok hopen))

theorem advancePendingState_keeps (hQ : Silent Q) {pending : PendingState}
    (h : ∀ name, Q (resolved (store.agentDir a) ++ [name]) (.pending pending)) :
    (store.advancePendingState a pending).Steps (Keeps Q) fs := by
  apply writeJson_keeps hQ
  intro name
  rw [FilesystemX402Store.pendingStateFile,components_concat isPlain_pendingState,List.dropLast_concat]
  exact h name

/-- A registration writes logs, and what its other operations say. -/
theorem registerOp_keeps (hQ : Silent Q) {op : RegisterOp} (h : ∀ raw c, op = .write raw c →
    ∀ name, Q (normalize [] (components raw).dropLast ++ [name]) c) :
    op.run.Steps (Keeps Q) fs := by
  cases op with
  | makeDirs raw => exact (createDirAll_keeps.bind fun _ _ _ => Prog.steps_pure ()).mapError _
  | touch raw =>
    exact ((openAppend_keeps hQ.toUnfinished).bind fun _ _ _ => Prog.steps_pure ()).mapError _
  | write raw c => exact writeJson_keeps hQ (h raw c rfl)

/-- The record keeps the property where it moves to. -/
def KeptByMove (store : FilesystemX402Store) (Q : Path → Content → Prop) : Prop :=
  ∀ (fs : Files) b seq p q c, fs.locate (store.queueFile b seq) = some p →
    fs.locate (store.failedDir b ++ [seqFile seq]) = some q → Q p c → Q q c

theorem moveToFailed_keeps (hmoved : KeptByMove store Q) {seq : ℕ} :
    (store.moveToFailed a seq).Steps (Keeps Q) fs := by
  apply Prog.Steps.mapError
  apply rename_keeps
  exact fun p q c hp hq => hmoved fs a seq p q c hp hq

end Operations

section Moves
variable {M : Miden} {store : FilesystemX402Store} {maxSize : ℕ} {fs fs' : Files} {a : String}
  {payload : AgenticPayload} {σ σ' : Stage} {w w' : Worker} {Q : Path → Content → Prop}

/-- A record the worker is about to write. -/
def Worker.Writes (b : String) (tx : QueuedTx) : Worker → Prop
  | .batch b' (tx' :: _) _ => b' = b ∧ ∃ now, tx = startProving tx' now
  | .finishing b' tx' _ _ => b' = b ∧ tx = tx'
  | _ => False

/-- What a request is about to write has the property. -/
structure Stage.Fills (store : FilesystemX402Store) (a : String) (payload : AgenticPayload)
    (Q : Path → Content → Prop) (σ : Stage) : Prop where
  pending : ∀ p ns now, σ = .reserved p ns now →
    ∀ name, Q (resolved (store.agentDir a) ++ [name]) (.pending (newPending p payload))
  record : ∀ p ns now, σ = .advanced p ns now → ∀ sub name,
    Q (resolved (store.agentDir a) ++ [sub] ++ [name]) (.queued (queuedTx p payload ns now))

theorem after_keeps {β : Type} {op : StoreOp β} (h : op.Steps (Keeps Q) fs)
    (hafter : after op fs = some fs') : Keeps Q fs fs' := by
  obtain ⟨_,hexec⟩ := after_eq_some_iff.mp hafter
  exact h.exec hexec

theorem StageMove.keeps (h : StageMove M store a payload fs σ σ' fs') (hQ : Silent Q)
    (hfills : σ.Fills store a payload Q) : Keeps Q fs fs' := by
  cases h with
  | reserve hafter => exact after_keeps (reserveNullifiers_keeps hQ) hafter
  | advance hafter => exact after_keeps (advancePendingState_keeps hQ (hfills.pending _ _ _ rfl)) hafter
  | enqueue hafter => exact after_keeps (enqueue_keeps hQ (hfills.record _ _ _ rfl)) hafter
  | _ => exact Std.Refl.refl _

theorem StageCut.keeps (h : StageCut store a payload fs σ fs') (hQ : Silent Q)
    (hfills : σ.Fills store a payload Q) : Keeps Q fs fs' := by
  cases h with
  | reserve hcut => exact (reserveNullifiers_keeps hQ).reached hcut
  | advance hcut => exact (advancePendingState_keeps hQ (hfills.pending _ _ _ rfl)).failed hcut
  | enqueue hcut => exact (enqueue_keeps hQ (hfills.record _ _ _ rfl)).failed hcut

theorem WorkMove.keeps {attempts : List (String × ℕ)} {ticks : ℕ}
    (h : WorkMove store maxSize fs w w' fs' attempts ticks) (hQ : Silent Q)
    (hmoved : KeptByMove store Q) (hwrites : ∀ b tx, w.Writes b tx → ∀ sub name,
      Q (resolved (store.agentDir b) ++ [sub] ++ [name]) (.queued tx)) : Keeps Q fs fs' := by
  cases h with
  | prove hafter => exact after_keeps (upsertQueued_keeps hQ (hwrites _ _ ⟨rfl,_,rfl⟩)) hafter
  | finish hafter => exact after_keeps (upsertQueued_keeps hQ (hwrites _ _ ⟨rfl,rfl⟩)) hafter
  | move hafter => exact after_keeps (moveToFailed_keeps hmoved) hafter
  | _ => exact Std.Refl.refl _

theorem WorkCut.keeps (h : WorkCut store fs w w' fs') (hQ : Silent Q) (hmoved : KeptByMove store Q)
    (hwrites : ∀ b tx, w.Writes b tx → ∀ sub name,
      Q (resolved (store.agentDir b) ++ [sub] ++ [name]) (.queued tx)) : Keeps Q fs fs' := by
  cases h with
  | prove hcut => exact (upsertQueued_keeps hQ (hwrites _ _ ⟨rfl,_,rfl⟩)).failed hcut
  | finish hcut => exact (upsertQueued_keeps hQ (hwrites _ _ ⟨rfl,rfl⟩)).failed hcut
  | move hcut => exact (moveToFailed_keeps hmoved).failed hcut

end Moves

end MidenX402.Facilitator
