import MidenX402.Disk.Frames
import MidenX402.Facilitator.Effects

/-!
# What a store operation can touch

Under plain names every operation stays with the files it is for and the temporary files beside them,
and makes no directory but those of its agent, at every point a crash can stop it.
-/

namespace MidenX402.Facilitator
open Disk

section Operations
variable {store : FilesystemX402Store} {a : String} {fs fs' : Files} {S : Set Path}

/-- A file of the directory and the temporary file beside it. -/
def filePair (dir : Path) (name : String) : Set Path := {dir ++ [name],dir ++ ["." ++ name ++ ".tmp"]}

/-- The directories on the way to the files of an agent. -/
def FilesystemX402Store.dirs (store : FilesystemX402Store) (a : String) : Set Path :=
  {p | ∃ sub ∈ subDirs, p <+: store.agentPath a ++ [sub]}

/-- Only files in the set differ, and new directories are ones of the agent. -/
structure Local (store : FilesystemX402Store) (a : String) (S : Set Path) (fs fs' : Files) : Prop
    extends Frame S fs fs' where
  made : MadeIn (store.dirs a) fs fs'

instance : Std.Refl (Local store a S) := ⟨fun _ => ⟨Std.Refl.refl _,Std.Refl.refl _⟩⟩

instance : IsTrans Files (Local store a S) :=
  ⟨fun _ _ _ h h' => ⟨h.toFrame.trans h'.toFrame,IsTrans.trans _ _ _ h.made h'.made⟩⟩

theorem local_of_steps {β : Type} {op : StoreOp β} {D : Set Path} (hframe : op.Steps (Frame S) fs)
    (hmade : op.Steps (MadeIn D) fs) (hD : D ⊆ store.dirs a) : op.Steps (Local store a S) fs :=
  fun t ht => ⟨hframe t ht,(hmade t ht).mono hD⟩

theorem prefix_subset_dirs {p : Path}
    (hp : p ∈ store.dirs a) : {q | q <+: p} ⊆ store.dirs a := by
  obtain ⟨sub,hsub,hpre⟩ := hp
  exact fun q hq => ⟨sub,hsub,List.IsPrefix.trans hq hpre⟩

theorem agentPath_mem_dirs : store.agentPath a ∈ store.dirs a :=
  ⟨"payments",by decide,List.prefix_append ..⟩

theorem sub_mem_dirs {sub : String} (hsub : sub ∈ subDirs) :
    store.agentPath a ++ [sub] ∈ store.dirs a := ⟨sub,hsub,List.prefix_rfl⟩

theorem after_steps {β : Type} {op : StoreOp β} (h : op.Steps (Local store a S) fs)
    (hafter : after op fs = some fs') : Local store a S fs fs' := by
  obtain ⟨b,hb⟩ := after_eq_some_iff.mp hafter
  exact h.exec hb

theorem atomicWriteJson_frame {raw : List String} {name : String} {c : Content} (hn : IsPlain name) :
    (atomicWriteJson (raw ++ [name]) c).Steps (Frame (filePair (resolved raw) name)) fs := by
  apply Prog.Steps.mapError
  exact atomicWrite_steps hn (Set.mem_insert ..) (Set.mem_insert_of_mem _ rfl)

theorem atomicWriteJson_concat {raw : List String} {name : String} {c : Content} {u : Unit}
    (hn : IsPlain name) (h : (atomicWriteJson (raw ++ [name]) c).exec fs = .ok (u,fs')) :
    Written fs fs' (resolved raw) name c ∧
      fs'.resolveDir [] (components raw) = some (resolved raw) := by
  have hexec := Prog.exec_mapError_eq_ok h
  exact ⟨atomicWrite_concat hn hexec,atomicWrite_concat_resolves hn hexec⟩

theorem atomicWriteJson_steps {p : Path} {name : String} {c : Content} (hp : ∀ s ∈ p, IsPlain s)
    (hn : IsPlain name) (hS : filePair p name ⊆ S) (hD : p ∈ store.dirs a) :
    (atomicWriteJson (p ++ [name]) c).Steps (Local store a S) fs := by
  refine local_of_steps (D := {q | q <+: p}) ?_ ?_ (prefix_subset_dirs hD)
  · rw [← resolved_of_plain hp] at hS
    exact (atomicWriteJson_frame hn).imp fun _ ht => ht.mono hS
  · refine (atomicWrite_made.imp fun t ht => ht.mono ?_).mapError _
    rw [components_concat hn,List.dropLast_concat,components_of_plain hp]
    exact fun q hq => walk_plain hp hq

/-- What holds of writes to the file holds of lines appended to it. -/
theorem appendLines_of {R : Files → Files → Prop} [Std.Refl R] [IsTrans Files R] {p : Path}
    {es : List WalEntry} (hdir : fs.isDir p = false)
    (hwrite : ∀ c fs, fs.isDir p = false → (writeFile p c).Steps R fs) : (appendLines p es).Steps R fs := by
  induction es generalizing fs with
  | nil => exact Prog.steps_pure ()
  | cons e es ih =>
    rw [appendLines]
    cases hc : fs.fileAt p with
    | none =>
      have hfail : appendLine p e fs = (Prog.fail (ioErr .notFound) : StoreOp Unit) fs := by
        rw [appendLine,hc]
      apply Prog.Steps.bind
      · intro t ht
        rw [hfail] at ht
        cases ht
      · intro _ t ht
        rw [Prog.exec,hfail] at ht
        cases ht
    | some c =>
      have hrun : appendLine p e fs = (writeFile p (c.append e)).mapError ioErr fs := by
        rw [appendLine,hc]
      apply Prog.Steps.bind
      · intro t ht
        rw [hrun] at ht
        exact hwrite _ _ hdir t ht
      · intro _ t ht
        rw [exec_appendLine e hc] at ht
        obtain rfl := (Prod.mk.inj (Except.ok.inj ht)).2
        apply ih
        have htorn := isDir_set_file Content.torn hdir p
        rw [isDir_set_file _ (htorn.trans hdir),htorn]
        exact hdir

theorem appendLines_steps {p : Path} {es : List WalEntry} (hp : p ∈ S) (hdir : fs.isDir p = false) :
    (appendLines p es).Steps (Local store a S) fs :=
  appendLines_of hdir fun _ _ hdir t ht => ⟨writeFile_steps hp hdir t ht,writeFile_made t ht⟩

theorem reserveNullifiers_steps (ha : IsPlain a) {es : List WalEntry}
    (hS : store.agentPath a ++ ["nullifiers.wal"] ∈ S) :
    (store.reserveNullifiers a es).Steps (Local store a S) fs := by
  rw [← resolved_agentDir ha] at hS
  rw [FilesystemX402Store.reserveNullifiers]
  have hopen : ((openAppend (store.nullifiersWal a)).mapError ioErr).Steps (Local store a S) fs :=
    local_of_steps ((openAppend_steps isPlain_wal hS).mapError ioErr) (openAppend_made.mapError ioErr)
      (Set.empty_subset _)
  apply hopen.bind
  intro p fs1 hopen
  have hopened := Prog.exec_mapError_eq_ok hopen
  obtain ⟨rfl,-⟩ := openAppend_concat isPlain_wal hopened
  exact appendLines_steps hS (openAppend_notDir hopened)

theorem advancePendingState_steps (ha : IsPlain a) {p : PendingState}
    (hS : filePair (store.agentPath a) "pending_state.json" ⊆ S) :
    (store.advancePendingState a p).Steps (Local store a S) fs := by
  rw [FilesystemX402Store.advancePendingState,FilesystemX402Store.pendingStateFile,agentDir_eq ha]
  exact atomicWriteJson_steps (plain_agentPath ha) isPlain_pendingState hS agentPath_mem_dirs

def FilesystemX402Store.paymentsPath (store : FilesystemX402Store) (a : String) : Path :=
  store.agentPath a ++ ["payments"]

theorem plain_paymentsPath (ha : IsPlain a) : ∀ s ∈ store.paymentsPath a, IsPlain s :=
  plain_sub ha (by decide)

theorem sentinel_eq (ha : IsPlain a) {n : String} (hn : IsPlain n) :
    join (store.paymentsDir a) n = store.paymentsPath a ++ [n] := by
  rw [FilesystemX402Store.paymentsDir,agentDir_eq ha,hn.join_eq]
  rfl

theorem writeSentinels_steps (ha : IsPlain a) {seq : ℕ} {ns : List String}
    (hns : ∀ n ∈ ns, IsPlain n) (hS : ∀ n ∈ ns, filePair (store.paymentsPath a) n ⊆ S) :
    (store.writeSentinels a seq ns).Steps (Local store a S) fs := by
  induction ns generalizing fs with
  | nil => exact Prog.steps_pure ()
  | cons n ns ih =>
    have hn := hns n List.mem_cons_self
    rw [FilesystemX402Store.writeSentinels,sentinel_eq ha hn]
    apply (atomicWriteJson_steps (plain_paymentsPath ha) hn (hS n List.mem_cons_self)
      (sub_mem_dirs (by decide))).bind
    intro _ fs1 _
    exact ih (fun m hm => hns m (List.mem_cons_of_mem _ hm)) fun m hm => hS m (List.mem_cons_of_mem _ hm)

theorem writeRecord_steps (ha : IsPlain a) {sub : String} (hsub : sub ∈ recordDirs) {seq : ℕ}
    {c : Content} (hS : filePair (store.agentPath a ++ [sub]) (seqFile seq) ⊆ S) :
    (atomicWriteJson (store.recordPath a sub seq) c).Steps (Local store a S) fs :=
  atomicWriteJson_steps (plain_sub ha (isPlain_recordDirs sub hsub)) (isPlain_seqFile seq) hS
    (sub_mem_dirs ((by decide : recordDirs ⊆ subDirs) hsub))

theorem enqueue_steps (ha : IsPlain a) {tx : QueuedTx} (hns : ∀ n ∈ tx.nullifiers, IsPlain n)
    (hrecord : filePair (store.agentPath a ++ ["pending_queue"]) (seqFile tx.seq) ⊆ S)
    (hS : ∀ n ∈ tx.nullifiers, filePair (store.paymentsPath a) n ⊆ S) :
    (store.enqueue a tx).Steps (Local store a S) fs := by
  rw [FilesystemX402Store.enqueue,queueFile_eq ha]
  apply (writeRecord_steps ha (by decide) hrecord).bind
  intro _ fs1 _
  exact writeSentinels_steps ha hns hS

theorem upsertQueued_steps (ha : IsPlain a) {tx : QueuedTx}
    (hS : ∀ sub ∈ recordDirs, filePair (store.agentPath a ++ [sub]) (seqFile tx.seq) ⊆ S) :
    (store.upsertQueued a tx).Steps (Local store a S) fs := by
  intro t ht
  delta FilesystemX402Store.upsertQueued at ht
  rw [recordFiles_eq ha] at ht
  cases hfind : (recordDirs.map fun sub => store.recordPath a sub tx.seq).find?
      (fun p => (fs.readFile p).isSome) with
  | none =>
    rw [hfind,queueFile_eq ha] at ht
    exact writeRecord_steps ha (by decide) (hS "pending_queue" (by decide)) t ht
  | some p =>
    rw [hfind] at ht
    obtain ⟨sub,hsub,rfl⟩ := List.mem_map.mp (List.mem_of_find?_eq_some hfind)
    exact writeRecord_steps ha hsub (hS sub hsub) t ht

theorem moveToFailed_steps (ha : IsPlain a) {seq : ℕ}
    (hsrc : store.recordPath a "pending_queue" seq ∈ S) (hdst : store.recordPath a "failed" seq ∈ S) :
    (store.moveToFailed a seq).Steps (Local store a S) fs := by
  apply Prog.Steps.mapError
  intro t ht
  have hdst' : store.failedDir a ++ [seqFile seq] = store.recordPath a "failed" seq := by
    rw [FilesystemX402Store.failedDir,agentDir_eq ha]
    rfl
  rw [queueFile_eq ha,hdst'] at ht
  delta rename at ht
  split at ht
  · rename_i p q hp hq
    obtain rfl := locate_recordPath ha (by decide) hp
    obtain rfl := locate_recordPath ha (by decide) hq
    split at ht
    · exact ⟨renameFile_steps hsrc hdst t ht,renameFile_made t ht⟩
    · cases ht
  · cases ht

theorem makeDirs_steps {p : Path} (hp : ∀ s ∈ p, IsPlain s) (hD : p ∈ store.dirs a) :
    (FilesystemX402Store.makeDirs p).Steps (Local store a S) fs := by
  refine local_of_steps (D := {q | q <+: p}) ?_ ?_ (prefix_subset_dirs hD)
  · exact (createDirAll_steps.bind fun _ _ _ => Prog.steps_pure ()).mapError _
  · refine Prog.Steps.mapError (Prog.Steps.bind ?_ fun _ _ _ => Prog.steps_pure ()) _
    rw [components_of_plain hp]
    exact createDirAll_made.imp fun t ht => ht.mono fun q hq => walk_plain hp hq

theorem touch_steps {p : Path} {name : String} (hp : ∀ s ∈ p, IsPlain s) (hn : IsPlain name)
    (hS : p ++ [name] ∈ S) :
    (FilesystemX402Store.touch (p ++ [name])).Steps (Local store a S) fs := by
  refine local_of_steps (D := ∅) ?_ ?_ (Set.empty_subset _)
  · rw [← resolved_of_plain hp] at hS
    exact ((openAppend_steps hn hS).bind fun _ _ _ => Prog.steps_pure ()).mapError _
  · exact (openAppend_made.bind fun _ _ _ => Prog.steps_pure ()).mapError _

/-- The operations of a registration stay with the files of its agent. -/
theorem registerOp_steps {record : AgentRecord} {mandate : AgentMandate} {initial : String}
    {op : RegisterOp} (ha : IsPlain record.agentId) (hop : op ∈ store.registerOps record mandate initial)
    (hS : ∀ name ∈ keyFiles, filePair (store.agentPath record.agentId) name ⊆ S) :
    op.run.Steps (Local store record.agentId S) fs := by
  have hplain : ∀ s ∈ store.agentPath record.agentId, IsPlain s := plain_agentPath ha
  have hsub : ∀ sub ∈ subDirs,
      (FilesystemX402Store.makeDirs (store.agentPath record.agentId ++ [sub])).Steps
        (Local store record.agentId S) fs := by
    intro sub hsub
    have hall : ∀ sub ∈ subDirs, IsPlain sub := by decide
    exact makeDirs_steps (plain_sub ha (hall sub hsub)) (sub_mem_dirs hsub)
  have hwrite : ∀ {name : String} {c : Content}, name ∈ keyFiles → IsPlain name →
      (atomicWriteJson (store.agentPath record.agentId ++ [name]) c).Steps
        (Local store record.agentId S) fs :=
    fun hname hn => atomicWriteJson_steps hplain hn (hS _ hname) agentPath_mem_dirs
  have htouch : ∀ {name : String}, name ∈ keyFiles → IsPlain name →
      (FilesystemX402Store.touch (store.agentPath record.agentId ++ [name])).Steps
        (Local store record.agentId S) fs :=
    fun hname hn => touch_steps hplain hn (hS _ hname (Set.mem_insert ..))
  simp only [FilesystemX402Store.registerOps,FilesystemX402Store.queueDir,
    FilesystemX402Store.committedDir,FilesystemX402Store.failedDir,FilesystemX402Store.paymentsDir,
    FilesystemX402Store.agentFile,FilesystemX402Store.mandateFile,
    FilesystemX402Store.pendingStateFile,FilesystemX402Store.nullifiersWal,
    FilesystemX402Store.nullifiersSpent,agentDir_eq ha,List.mem_cons,List.not_mem_nil,or_false] at hop
  rcases hop with rfl | rfl | rfl | rfl | rfl | rfl | rfl | rfl | rfl | rfl
  · exact makeDirs_steps hplain agentPath_mem_dirs
  · exact hsub _ (by decide)
  · exact hsub _ (by decide)
  · exact hsub _ (by decide)
  · exact hsub _ (by decide)
  · exact hwrite (by decide) (by decide)
  · exact hwrite (by decide) (by decide)
  · exact hwrite (by decide) (by decide)
  · exact htouch (by decide) (by decide)
  · exact htouch (by decide) (by decide)

end Operations

end MidenX402.Facilitator
