import MidenX402.Facilitator.Frames
import MidenX402.Facilitator.Moves

/-!
# The files that speak for an agent

Whatever other agents, the worker and registrations do, a file of the agent is as it was or a stray
sentinel fell on it, at every point an operation can stop.
-/

namespace MidenX402.Facilitator
open Disk

/-- The files that change while an agent pays. -/
def stateFiles : List String := ["pending_state.json","nullifiers.wal","nullifiers.spent"]

/-- What a reader finds in a file of the agent.  A log that is not there is empty. -/
def FilesystemX402Store.content (store : FilesystemX402Store) (fs : Files) (a name : String) : Content :=
  (fs.fileAt (store.keyPath a name)).getD Contents.empty

section Kept
variable {store : FilesystemX402Store} {a b name : String} {names ns : List String}
  {fs fs' fs'' : Files} {S : Set Path}

theorem content_eq {c : Content} (hc : c ≠ Contents.empty) :
    store.content fs a name = c ↔ fs.fileAt (store.keyPath a name) = some c := by
  rw [FilesystemX402Store.content]
  cases fs.fileAt (store.keyPath a name) with
  | none => simp [Ne.symm hc]
  | some c' => simp

theorem content_of_fileAt {c : Content} (h : fs.fileAt (store.keyPath a name) = some c) :
    store.content fs a name = c := by
  rw [FilesystemX402Store.content,h,Option.getD_some]

/-- The files of the agent hold what they held, unless a sentinel fell on one because a nullifier is not
a plain name. -/
structure KeysKept (store : FilesystemX402Store) (a : String) (names ns : List String)
    (fs fs' : Files) : Prop where
  files : ∀ name ∈ names, store.content fs' a name = store.content fs a name ∨
    ∃ seq, store.content fs' a name = .lookup seq
  same : (∀ n ∈ ns, IsPlain n) → ∀ name ∈ names, store.content fs' a name = store.content fs a name
  places : (∀ n ∈ ns, IsPlain n) → ∀ name ∈ names, fs.isDir (store.keyPath a name) = false →
    fs'.isDir (store.keyPath a name) = false
  dirs : ∀ p, fs.isDir p = true → fs'.isDir p = true

instance : Std.Refl (KeysKept store a names ns) :=
  ⟨fun _ => ⟨fun _ _ => Or.inl rfl,fun _ _ _ => rfl,fun _ _ _ h => h,fun _ h => h⟩⟩

theorem KeysKept.trans (h : KeysKept store a names ns fs fs') (h' : KeysKept store a names ns fs' fs'') :
    KeysKept store a names ns fs fs'' := by
  refine ⟨?_,?_,?_,fun p hp => h'.dirs p (h.dirs p hp)⟩
  · intro name hname
    rcases h'.files name hname with hsame | hlookup
    · rw [hsame]
      exact h.files name hname
    · exact Or.inr hlookup
  · intro hns name hname
    rw [h'.same hns name hname,h.same hns name hname]
  · exact fun hns name hname hdir => h'.places hns name hname (h.places hns name hname hdir)

instance : IsTrans Files (KeysKept store a names ns) := ⟨fun _ _ _ h h' => h.trans h'⟩

theorem KeysKept.mono (h : KeysKept store a names [] fs fs') : KeysKept store a names ns fs fs' := by
  have hplain : ∀ n ∈ ([] : List String), IsPlain n := fun n hn => absurd hn List.not_mem_nil
  exact ⟨h.files,fun _ => h.same hplain,fun _ => h.places hplain,h.dirs⟩

theorem keyPath_notMem_dirs (hname : name ∈ keyFiles) : store.keyPath a name ∉ store.dirs b := by
  rintro ⟨sub,hsub,hpre⟩
  have heq := hpre.eq_of_length (by
    simp [FilesystemX402Store.keyPath,FilesystemX402Store.agentPath])
  have hne : ∀ name ∈ keyFiles, ∀ sub ∈ subDirs, name ≠ sub := by decide
  apply hne name hname sub hsub
  simpa [FilesystemX402Store.keyPath] using congrArg List.getLast? heq

theorem keysKept_of_local (h : Local store b S fs fs') (hnames : names ⊆ keyFiles)
    (hS : ∀ name ∈ names, store.keyPath a name ∉ S) : KeysKept store a names ns fs fs' := by
  have hsame : ∀ name ∈ names, store.content fs' a name = store.content fs a name := by
    intro name hname
    rw [FilesystemX402Store.content,FilesystemX402Store.content,h.files _ (hS name hname)]
  refine ⟨fun name hname => Or.inl (hsame name hname),fun _ => hsame,?_,h.dirs⟩
  exact fun _ name hname => not_isDir_of_madeIn h.made (keyPath_notMem_dirs (hnames hname))

theorem steps_keysKept {β : Type} {op : StoreOp β} (h : op.Steps (Local store b S) fs)
    (hnames : names ⊆ keyFiles) (hS : ∀ name ∈ names, store.keyPath a name ∉ S) :
    op.Steps (KeysKept store a names ns) fs := h.imp fun _ ht => keysKept_of_local ht hnames hS

theorem keyPath_ne_below (name b sub file : String) :
    store.keyPath a name ≠ store.agentPath b ++ [sub] ++ [file] := by
  intro h
  have hlen := congrArg List.length h
  simp [FilesystemX402Store.keyPath,FilesystemX402Store.agentPath] at hlen

theorem keyPath_ne_record (name b sub : String) (seq : ℕ) :
    store.keyPath a name ≠ store.recordPath b sub seq := keyPath_ne_below name b sub _

theorem keyPath_notMem_below (name b sub file : String) :
    store.keyPath a name ∉ filePair (store.agentPath b ++ [sub]) file := by
  rintro (h | h)
  · exact keyPath_ne_below name b sub _ h
  · exact keyPath_ne_below name b sub _ h

/-- A file of an agent is no temporary file beside another one. -/
theorem keyPath_notMem_pair (hname : name ∈ keyFiles) {name' : String} (hne : a ≠ b ∨ name ≠ name') :
    store.keyPath a name ∉ filePair (store.agentPath b) name' := by
  rintro (h | h)
  · rcases hne with hab | hnn
    · exact hab (keyPath_inj h).1
    · exact hnn (keyPath_inj h).2
  · exact (undotted_keyPath a hname).ne_tmp _ _ h

end Kept

section Operations
variable {store : FilesystemX402Store} {a b name : String} {names ns : List String}
  {fs fs' : Files}

/-- A sentinel can fall on a file of any agent. -/
theorem sentinel_keys (hb : IsPlain b) (hnames : names ⊆ keyFiles) {n : String} (hn : n ∈ ns)
    {seq : ℕ} : (atomicWriteJson (join (store.paymentsDir b) n) (.lookup seq)).Steps
      (KeysKept store a names ns) fs := by
  intro t ht
  have hputs := atomicWrite_puts t ht
  have hlocal : IsPlain n → KeysKept store a names [] fs t := by
    intro hplain
    rw [sentinel_eq hb hplain] at ht
    refine steps_keysKept (atomicWriteJson_steps (plain_paymentsPath hb) hplain subset_rfl
      (sub_mem_dirs (by decide))) hnames ?_ t ht
    exact fun name _ => keyPath_notMem_below name b "payments" n
  have hnil : ∀ m ∈ ([] : List String), IsPlain m := fun m hm => absurd hm List.not_mem_nil
  refine ⟨?_,fun hns => (hlocal (hns n hn)).same hnil,fun hns => (hlocal (hns n hn)).places hnil,
    hputs.dirs⟩
  intro name hname
  have hdot : Undotted (store.keyPath a name) := undotted_keyPath a (hnames hname)
  rcases hputs.files _ (hdot.ne_tmp _ _) with hsame | ⟨-,hnew⟩
  · left
    rw [FilesystemX402Store.content,FilesystemX402Store.content,hsame]
  · exact Or.inr ⟨seq,content_of_fileAt hnew⟩

theorem writeSentinels_keys (hb : IsPlain b) (hnames : names ⊆ keyFiles) {seq : ℕ} {ms : List String}
    (hms : ms ⊆ ns) : (store.writeSentinels b seq ms).Steps (KeysKept store a names ns) fs := by
  induction ms generalizing fs with
  | nil => exact Prog.steps_pure ()
  | cons m ms ih =>
    rw [FilesystemX402Store.writeSentinels]
    apply (sentinel_keys hb hnames (hms List.mem_cons_self)).bind
    intro _ fs1 _
    exact ih fun n hn => hms (List.mem_cons_of_mem _ hn)

theorem enqueue_keys (hb : IsPlain b) (hnames : names ⊆ keyFiles) {tx : QueuedTx} :
    (store.enqueue b tx).Steps (KeysKept store a names tx.nullifiers) fs := by
  rw [FilesystemX402Store.enqueue,queueFile_eq hb]
  have hrecord : (atomicWriteJson (store.recordPath b "pending_queue" tx.seq) (.queued tx)).Steps
      (KeysKept store a names tx.nullifiers) fs :=
    steps_keysKept (writeRecord_steps hb (by decide) subset_rfl) hnames fun name _ =>
      keyPath_notMem_below name b _ _
  exact hrecord.bind fun _ _ _ => writeSentinels_keys hb hnames (List.Subset.refl _)

theorem reserveNullifiers_keys (hb : IsPlain b) (hnames : names ⊆ keyFiles) {es : List WalEntry}
    (hout : ∀ name ∈ names, a ≠ b ∨ name ≠ "nullifiers.wal") :
    (store.reserveNullifiers b es).Steps (KeysKept store a names ns) fs := by
  refine steps_keysKept (reserveNullifiers_steps hb (Set.mem_singleton _)) hnames ?_
  intro name hname hmem
  have hinj := keyPath_inj hmem
  exact (hout name hname).elim (fun h => h hinj.1) fun h => h hinj.2

theorem advancePendingState_keys (hb : IsPlain b) (hnames : names ⊆ keyFiles) {p : PendingState}
    (hout : ∀ name ∈ names, a ≠ b ∨ name ≠ "pending_state.json") :
    (store.advancePendingState b p).Steps (KeysKept store a names ns) fs :=
  steps_keysKept (advancePendingState_steps hb subset_rfl) hnames fun name hname =>
    keyPath_notMem_pair (hnames hname) (hout name hname)

theorem upsertQueued_keys (hb : IsPlain b) (hnames : names ⊆ keyFiles) {tx : QueuedTx} :
    (store.upsertQueued b tx).Steps (KeysKept store a names ns) fs := by
  refine steps_keysKept (S := {p | ∃ sub file, p = store.agentPath b ++ [sub] ++ [file]})
    (upsertQueued_steps hb ?_) hnames ?_
  · rintro sub - p (rfl | rfl)
    · exact ⟨sub,_,rfl⟩
    · exact ⟨sub,_,rfl⟩
  · rintro name - ⟨sub,file,h⟩
    exact keyPath_ne_below name b sub file h

theorem moveToFailed_keys (hb : IsPlain b) (hnames : names ⊆ keyFiles) {seq : ℕ} :
    (store.moveToFailed b seq).Steps (KeysKept store a names ns) fs := by
  refine steps_keysKept (moveToFailed_steps hb (Set.mem_insert ..)
    (Set.mem_insert_of_mem _ (Set.mem_singleton _))) hnames ?_
  rintro name - (h | h)
  · exact keyPath_ne_record name b _ _ h
  · exact keyPath_ne_record name b _ _ h

/-- A write that fails leaves the files of every agent. -/
theorem write_fails_keys (hb : IsPlain b) (hnames : names ⊆ keyFiles) {file : String}
    (hfile : IsPlain file) {c : Content} :
    (atomicWriteJson (store.agentPath b ++ [file]) c).Fails (KeysKept store a names ns) fs := by
  intro k t ht
  have hmade : Local store b Set.univ fs t :=
    (atomicWriteJson_steps (plain_agentPath hb) hfile (Set.subset_univ _) agentPath_mem_dirs).failed ht
  have hfails : (atomicWriteJson (store.agentPath b ++ [file]) c).Fails
      (Frame {staging (store.agentPath b ++ [file])}) fs := atomicWrite_fails.mapError _
  rw [staging_concat hfile,resolved_of_plain (plain_agentPath hb)] at hfails
  refine keysKept_of_local ⟨hfails k t ht,hmade.made⟩ hnames ?_
  exact fun name hname => (undotted_keyPath a (hnames hname)).ne_tmp _ _

/-- Opening a log leaves what it holds. -/
theorem openAppend_keys {raw : List String} :
    (openAppend raw).Steps (KeysKept store a names ns) fs := by
  intro t ht
  obtain ⟨q,hq,hdir,hfile,rfl⟩ := visited_openAppend ht
  have hcontent : ∀ name, store.content (fs.set q (some (.file Contents.empty))) a name =
      store.content fs a name := by
    intro name
    rw [FilesystemX402Store.content,FilesystemX402Store.content,FileSystem.fileAt_set]
    split
    · rename_i hqa
      rw [hqa,hfile]
      rfl
    · rfl
  refine ⟨fun name _ => Or.inl (hcontent name),fun _ name _ => hcontent name,?_,?_⟩
  · intro _ name _ hname
    rw [isDir_set_file _ hdir]
    exact hname
  · intro p hp
    rw [isDir_set_file _ hdir]
    exact hp

theorem touch_keys {raw : List String} :
    (FilesystemX402Store.touch raw).Steps (KeysKept store a names ns) fs :=
  (openAppend_keys.bind fun _ _ _ => Prog.steps_pure ()).mapError ioErr

end Operations

end MidenX402.Facilitator
