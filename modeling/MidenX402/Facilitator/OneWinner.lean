import MidenX402.Facilitator.Race
import MidenX402.Facilitator.Serialization

/-!
# One winner per registration

As long as no call looks for the directory of the agent while another one is about to make it, one call
registers the agent, every other one is told that it exists, and the files stay those of the one call,
whatever payments come in between.
-/

namespace MidenX402.Facilitator
open Disk

section Places
variable (store : FilesystemX402Store) (a : String)

def homeFiles : List String := ["agent.json","mandate.json","pending_state.json"]

def logFiles : List String := ["nullifiers.wal","nullifiers.spent"]

/-- Everywhere but at some names in the directory of the agent. -/
def outside (names : List String) : Set Path := {p | ∀ name ∈ names, p ≠ agentPlace store a name}

/-- Nothing is at the place of the agent, nor in it, nor in the way. -/
structure Free (fs : Files) : Prop extends Available store a fs where
  empty : ∀ name ∈ homeFiles, fs.fileAt (agentPlace store a name) = none

variable {a}

/-- The agent is registered with some files, and its pending state has come to some point. -/
structure Home (reg : Registration a) (current : PendingState) (fs : Files) : Prop where
  dir : fs.resolveDir [] (components (store.agentDir a)) = some (resolved (store.agentDir a))
  agent : fs.fileAt (agentPlace store a "agent.json") = some (.agent reg.record)
  mandate : fs.fileAt (agentPlace store a "mandate.json") = some (.mandate reg.mandate)
  pending : fs.fileAt (agentPlace store a "pending_state.json") = some (.pending current)
  logs : ∀ name ∈ logFiles, fs.isDir (agentPlace store a name) = false

end Places

section Names
variable {store : FilesystemX402Store} {a : String} {raw : List String} {name sub : String}
  {names : List String} {c : Content}

theorem place_mem_outside (h : name ∉ names) : agentPlace store a name ∈ outside store a names := by
  intro name' hname' he
  obtain rfl := List.singleton_inj.mp (List.append_cancel_left he)
  exact h hname'

theorem below_mem_outside (file : String) : agentPlace store a sub ++ [file] ∈ outside store a names := by
  intro name _ he
  have hlen := congrArg List.length he
  simp [agentPlace] at hlen

/-- The directories on the way to an agent are none of its files, where its place is free. -/
theorem Available.walk_outside {fs : Files} (h : Available store a fs) :
    ∀ p ∈ walk [] (components (store.agentDir a)), p ∈ outside store a logFiles := by
  rintro p hp name hname rfl
  exact (h.files name ((by decide : ∀ n ∈ logFiles, n ∈ writtenFiles) name hname)).2 hp

end Names

section Within
variable {store : FilesystemX402Store} {a : String} {raw : List String} {name sub : String}
  {c : Content} {S T : Set Path}
  (hwalk : ∀ p ∈ walk [] (components (store.agentDir a)), p ∈ outside store a logFiles)

theorem mkdirs_within (h : ∀ p ∈ walk [] (components raw), p ∈ T) :
    ∀ op ∈ mkdirs [] (components raw), FsOp.Within (α := Content) S T op := by
  intro op hop
  obtain ⟨p,e,rfl,hp⟩ := mem_mkdirs hop
  exact h p hp

/-- An atomic write keeps to its file, the one beside it, and the directories on the way. -/
theorem atomicWriteOps_within (hn : IsPlain name) (hdirs : ∀ p ∈ walk [] (components raw), p ∈ T)
    (htmp : resolved raw ++ ["." ++ name ++ ".tmp"] ∈ S) (hfile : resolved raw ++ [name] ∈ S) :
    ∀ op ∈ atomicWriteOps (raw ++ [name]) c, op.Within S T := by
  rw [atomicWriteOps_concat hn,List.forall_mem_append]
  refine ⟨mkdirs_within hdirs,?_⟩
  simp only [writeOps,List.forall_mem_cons,List.not_mem_nil,IsEmpty.forall_iff,implies_true,and_true]
  exact ⟨htmp,trivial,trivial,htmp,hfile⟩

theorem advanceOps_eq (p : PendingState) : advanceOps store a p =
    mkdirs [] (components (store.agentDir a)) ++
      writeOps (agentPlace store a ".pending_state.json.tmp")
        (agentPlace store a "pending_state.json") (.pending p) :=
  atomicWriteOps_concat isPlain_pendingState

theorem reserveOps_within (entries : List WalEntry) : ∀ op ∈ reserveOps store a entries,
    op.Within (outside store a homeFiles) (outside store a logFiles) := by
  rw [reserveOps,List.forall_mem_cons]
  constructor
  · change resolved (store.agentDir a ++ ["nullifiers.wal"]) ∈ _
    rw [resolved_concat isPlain_wal]
    exact place_mem_outside (by decide)
  · intro op hop
    obtain ⟨e,-,rfl⟩ := List.mem_map.mp hop
    trivial

include hwalk

theorem walk_sub_outside (hsub : IsPlain sub) (hlog : sub ∉ logFiles) :
    ∀ p ∈ walk [] (components (store.agentDir a ++ [sub])), p ∈ outside store a logFiles := by
  rw [walk_concat hsub,List.forall_mem_append,List.forall_mem_singleton]
  exact ⟨hwalk,place_mem_outside hlog⟩

/-- A write below the directory of the agent. -/
theorem subWrite_within (hsub : IsPlain sub) (hlog : sub ∉ logFiles) (hn : IsPlain name) :
    ∀ op ∈ atomicWriteOps (store.agentDir a ++ [sub] ++ [name]) c,
      op.Within (outside store a homeFiles) (outside store a logFiles) := by
  apply atomicWriteOps_within hn (walk_sub_outside hwalk hsub hlog)
  · rw [resolved_concat hsub]
    exact below_mem_outside _
  · rw [resolved_concat hsub]
    exact below_mem_outside _

theorem queueOps_within (tx : QueuedTx) (hns : ∀ n ∈ tx.nullifiers, IsPlain n) :
    ∀ op ∈ queueOps store a tx, op.Within (outside store a homeFiles) (outside store a logFiles) := by
  rw [queueOps,List.forall_mem_append]
  refine ⟨subWrite_within hwalk (by decide) (by decide) (isPlain_seqFile tx.seq),?_⟩
  intro op hop
  obtain ⟨n,hn,hop⟩ := List.mem_flatMap.mp hop
  rw [(hns n hn).join_eq] at hop
  exact subWrite_within hwalk (by decide) (by decide) (hns n hn) op hop

/-- The write of the pending state, from its first operation. -/
theorem advance_writes (v : Volume Content) (p : PendingState) :
    Writes (agentPlace store a ".pending_state.json.tmp") (agentPlace store a "pending_state.json")
      (.pending p) (outside store a logFiles) v ⟨advanceOps store a p,none⟩ := by
  rw [advanceOps_eq]
  apply Writes.dirs
  intro op hop
  obtain ⟨q,e,rfl,hq⟩ := mem_mkdirs hop
  exact ⟨q,e,rfl,hwalk q hq⟩

end Within

section Home
variable {store : FilesystemX402Store} {a name : String} {reg : Registration a}
  {current next : PendingState} {fs fs' : Files} {v v' : Volume Content}

theorem Home.readFile (h : Home store reg current fs) (hn : IsPlain name) :
    fs.readFile (store.agentDir a ++ [name]) = fs.fileAt (agentPlace store a name) := by
  rw [readFile_concat hn,h.dir]
  rfl

theorem Home.loadAgent (h : Home store reg current fs) : store.loadAgent a fs = .ok reg.record := by
  rw [FilesystemX402Store.loadAgent,readJson,FilesystemX402Store.agentFile,
    h.readFile isPlain_agentJson,h.agent]
  rfl

theorem Home.loadMandate (h : Home store reg current fs) :
    store.loadMandate a fs = .ok reg.mandate := by
  rw [FilesystemX402Store.loadMandate,readJson,FilesystemX402Store.mandateFile,
    h.readFile (by decide),h.mandate]
  rfl

theorem Home.loadPendingState (h : Home store reg current fs) :
    store.loadPendingState a fs = .ok current := by
  rw [FilesystemX402Store.loadPendingState,readJson,FilesystemX402Store.pendingStateFile,
    h.readFile isPlain_pendingState,h.pending]
  rfl

theorem Home.pathExists (h : Home store reg current fs) : fs.pathExists (store.agentDir a) = true := by
  rw [FileSystem.pathExists,dirExists_eq_isSome,h.dir]
  rfl

/-- What keeps away from the files of the agent leaves them. -/
theorem Home.confined (h : Home store reg current fs)
    (hc : Confined (outside store a homeFiles) (outside store a logFiles) fs fs') :
    Home store reg current fs' := by
  have hfile : ∀ name ∈ homeFiles,
      fs'.fileAt (agentPlace store a name) = fs.fileAt (agentPlace store a name) :=
    fun name hname => hc.files _ fun hout => hout name hname rfl
  refine ⟨resolveDir_mono hc.dirs h.dir,?_,?_,?_,?_⟩
  · exact (hfile "agent.json" (by decide)).trans h.agent
  · exact (hfile "mandate.json" (by decide)).trans h.mandate
  · exact (hfile "pending_state.json" (by decide)).trans h.pending
  · intro name hname
    exact (hc.made _ fun hout => hout name hname rfl).trans (h.logs name hname)

theorem Home.advanced (h : Home store reg current fs)
    (hc : Confined {agentPlace store a ".pending_state.json.tmp",agentPlace store a "pending_state.json"}
      (outside store a logFiles) fs fs')
    (hp : fs'.fileAt (agentPlace store a "pending_state.json") = some (.pending next)) :
    Home store reg next fs' := by
  have hfile : ∀ name, name ≠ ".pending_state.json.tmp" → name ≠ "pending_state.json" →
      fs'.fileAt (agentPlace store a name) = fs.fileAt (agentPlace store a name) := by
    intro name htmp hpending
    apply hc.files
    rintro (he | he)
    · exact htmp (List.singleton_inj.mp (List.append_cancel_left he))
    · exact hpending (List.singleton_inj.mp (List.append_cancel_left he))
  refine ⟨resolveDir_mono hc.dirs h.dir,?_,?_,hp,?_⟩
  · exact (hfile _ (by decide) (by decide)).trans h.agent
  · exact (hfile _ (by decide) (by decide)).trans h.mandate
  · intro name hname
    exact (hc.made _ fun hout => hout name hname rfl).trans (h.logs name hname)

theorem Home.grows (h : Home store reg current v.view) (hgrows : Grows v v') :
    Home store reg current v'.view := by
  refine ⟨resolveDir_mono (fun p hp => (hgrows.isDir_view p).trans hp) h.dir,
    hgrows.fileAt_view h.agent,hgrows.fileAt_view h.mandate,hgrows.fileAt_view h.pending,?_⟩
  intro name hname
  exact (hgrows.isDir_view _).trans (h.logs name hname)

/-- A log can be opened. -/
theorem Home.opens (h : Home store reg current v.view) (hn : IsPlain name) (hlog : name ∈ logFiles)
    (file : Option ℕ) : ∃ v' file',
      (FsOp.openAppend (store.agentDir a ++ [name])).onVolume (v,file) = .ok (v',file') := by
  have hlocate : v.tree.locate (store.agentDir a ++ [name]) = some (agentPlace store a name) := by
    rw [← Volume.locate_view,locate_concat hn,h.dir]
    rfl
  have hdir : v.tree.isDir (agentPlace store a name) = false :=
    (v.isDir_view _).symm.trans (h.logs name hlog)
  have hgood : (v.tree.isDir (agentPlace store a name) ||
      !FileSystem.endsPlain (store.agentDir a ++ [name])) = false := by
    rw [hdir,endsPlain_concat hn]
    rfl
  simp only [FsOp.onVolume,hlocate,hgood]
  cases v.tree.fileAt (agentPlace store a name) with
  | none => exact ⟨_,_,rfl⟩
  | some i => exact ⟨_,_,rfl⟩

end Home

section Alone
variable {store : FilesystemX402Store} {a : String} {reg : Registration a} {fs t : Files}
  {name : Option Path}

/-- Everything but the opening of the logs. -/
def headOps (store : FilesystemX402Store) (reg : Registration a) : List (FsOp Content) :=
  dirOps store a ++ recordOps store reg

/-- Where the place of the agent is free, a registration alone runs to its end. -/
theorem Available.runs (h : Available store a fs) (reg : Registration a) :
    ∃ y z, runFiles (headOps store reg) (fs,none) = .ok y ∧ runFiles (touchOps store a) y = .ok z := by
  have hsucceeds : (store.registerAgent reg.record reg.mandate reg.initialStateCommitment).Succeeds fs := by
    rw [registerAgent_succeeds_iff,reg.sameAgent]
    exact h
  obtain ⟨_,t,ht⟩ := hsucceeds
  obtain ⟨name,hrun⟩ := (registerOps_spec reg h.absent none).mpr ht
  obtain ⟨y,hy,hz⟩ := runFiles_append_eq_ok hrun
  exact ⟨y,_,hy,hz⟩

theorem written_of_runFiles {raw : List String} {file : String} {c : Content}
    {y : Files × Option Path} (hn : IsPlain file)
    (h : runFiles (atomicWriteOps (raw ++ [file]) c) y = .ok (t,name)) :
    Written y.1 t (resolved raw) file c := by
  obtain ⟨u,hu⟩ := (implements_atomicWrite _ _ y.1 y.2 t).mp ⟨name,h⟩
  exact atomicWrite_concat hn hu

theorem notDir_of_opened {file : String} {y : Files × Option Path} (hn : IsPlain file)
    (h : (FsOp.openAppend (store.agentDir a ++ [file])).onFiles (t,name) = .ok y) :
    t.isDir (agentPlace store a file) = false := by
  rcases openAppend_onFiles (store.agentDir a ++ [file]) t name with ⟨e,he,-⟩ | ⟨p,t',-,hprog⟩
  · cases he.symm.trans h
  · obtain ⟨hlocate,hdir,-⟩ := openAppend_spec hprog
    rw [locate_eq_resolved hlocate,resolved_concat hn] at hdir
    exact hdir

theorem logs_of_touched {z : Files × Option Path}
    (h : runFiles (touchOps store a) (t,name) = .ok z) :
    ∀ file ∈ logFiles, t.isDir (agentPlace store a file) = false := by
  rw [touchOps,← List.singleton_append] at h
  obtain ⟨y,hwal,h⟩ := runFiles_append_eq_ok h
  rw [runFiles_singleton] at hwal h
  obtain ⟨t',name'⟩ := y
  have hsame : Confined Set.univ ∅ t t' :=
    (FsOp.confined (S := Set.univ) (T := ∅) (Set.mem_univ _) (fun _ _ => Set.mem_univ _) hwal).1
  simp only [logFiles,List.forall_mem_cons,List.not_mem_nil,IsEmpty.forall_iff,implies_true,and_true]
  refine ⟨notDir_of_opened isPlain_wal hwal,?_⟩
  rw [← hsame.made _ (Set.notMem_empty _)]
  exact notDir_of_opened isPlain_spent h

theorem resolves_of_dirOps {y z : Files × Option Path} (h : runFiles (dirOps store a) y = .ok z) :
    z.1.resolveDir [] (components (store.agentDir a)) = some (resolved (store.agentDir a)) := by
  simp only [dirOps,List.append_assoc] at h
  obtain ⟨x,hfirst,hrest⟩ := runFiles_append_eq_ok h
  obtain ⟨d,hd⟩ := (implements_createDirAll [] _ y.1 y.2 x.1).mp ⟨x.2,hfirst⟩
  obtain ⟨rfl,hres,-⟩ := createDirAll_spec hd
  have hkept : Confined Set.univ Set.univ x.1 z.1 := by
    refine runFiles_confined ?_ (fun _ _ => Set.mem_univ _) hrest
    simp only [List.forall_mem_append]
    exact ⟨mkdirs_within fun _ _ => Set.mem_univ _,mkdirs_within fun _ _ => Set.mem_univ _,
      mkdirs_within fun _ _ => Set.mem_univ _,mkdirs_within fun _ _ => Set.mem_univ _⟩
  exact resolveDir_mono hkept.dirs hres

/-- What the agent has when everything but the logs is there. -/
theorem Available.home (h : Available store a fs)
    (hrun : runFiles (headOps store reg) (fs,none) = .ok (t,name)) : Home store reg reg.initial t := by
  obtain ⟨y,z,hy,hz⟩ := h.runs reg
  rw [hrun] at hy
  obtain rfl := Except.ok.inj hy
  obtain ⟨y0,hdirs,hrun⟩ := runFiles_append_eq_ok hrun
  obtain ⟨y2,hrun,hpending⟩ := runFiles_append_eq_ok hrun
  obtain ⟨y1,hagent,hmandate⟩ := runFiles_append_eq_ok hrun
  have hagent := written_of_runFiles isPlain_agentJson hagent
  have hmandate := written_of_runFiles (by decide) hmandate
  have hpending := written_of_runFiles isPlain_pendingState hpending
  refine ⟨resolveDir_mono ?_ (resolves_of_dirOps hdirs),?_,?_,hpending.self,logs_of_touched hz⟩
  · exact fun p hp => hpending.dirs p (hmandate.dirs p (hagent.dirs p hp))
  · refine (hpending.others _ ?_ ?_).trans ((hmandate.others _ ?_ ?_).trans hagent.self)
    all_goals exact fun he => absurd (List.singleton_inj.mp (List.append_cancel_left he)) (by decide)
  · refine (hpending.others _ ?_ ?_).trans hmandate.self
    all_goals exact fun he => absurd (List.singleton_inj.mp (List.append_cancel_left he)) (by decide)

end Alone

section Invariant
variable (M : Miden) (store : FilesystemX402Store) {a : String} {ι : Type}

def Stage.isEarly : Stage → Bool
  | .entered | .haveRecord _ | .haveMandate _ _ => true
  | _ => false

/-- What a payment that has come to a stage knows of the pending state. -/
def StageOk (current : PendingState) (payload : AgenticPayload) : Stage → Prop
  | .checked p ns | .clear p ns | .reserved p ns _ => p = current ∧ ∀ n ∈ ns, IsPlain n
  | .advanced p ns _ => newPending p payload = current ∧ ∀ n ∈ ns, IsPlain n
  | _ => True

/-- How far a write has come that leads from one stage to the next. -/
inductive Writing (a : String) (v : Volume Content) (payload : AgenticPayload) :
    Stage → Stage → Process Content → Prop
  | reserve {p ns now t} (h : t.Keeps (outside store a homeFiles) (outside store a logFiles) v) :
      Writing a v payload (.clear p ns) (.reserved p ns now) t
  | advance {p ns now t} (h : Writes (agentPlace store a ".pending_state.json.tmp")
        (agentPlace store a "pending_state.json") (.pending (newPending p payload))
        (outside store a logFiles) v t) :
      Writing a v payload (.reserved p ns now) (.advanced p ns now) t
  | queue {p ns now t} (h : t.Keeps (outside store a homeFiles) (outside store a logFiles) v) :
      Writing a v payload (.advanced p ns now) (.queued p ns now) t

structure PaymentInv (a : String) (current : PendingState) (v : Volume Content) (p : Payment) : Prop where
  stage : StageOk current p.payload p.stage
  writing : ∀ σ t, p.writing = some (σ,t) → Writing store a v p.payload p.stage σ t

/-- There is no pending state yet, and so no payment has come to write. -/
structure Quiet (a : String) (s : Race ι) : Prop where
  advanced : s.advanced = []
  accepted : s.accepted = []
  early : ∀ p, s.payment = some p → p.stage.isEarly = true ∧ p.writing = none
  absent : s.volume.view.fileAt (agentPlace store a "pending_state.json") = none

structure Before (a : String) (s : Race ι) : Prop extends Quiet store a s where
  calls : ∀ i, s.call i = .checking
  free : Free store a s.volume.view

def Others (s : Race ι) (w : ι) : Prop := ∀ i, i ≠ w → s.call i = .checking ∨ s.call i = .returned false

variable (regs : ι → Registration a)

/-- One call has found the place free and has been alone with it since. -/
structure During (s : Race ι) (w : ι) : Prop extends Quiet store a s where
  others : Others s w
  running : ∃ rest file fs, s.call w = .running ⟨rest ++ touchOps store a,file⟩ ∧ rest ≠ [] ∧
    Free store a fs ∧ Progress (headOps store (regs w)) rest fs (s.volume,file)

def Race.current (s : Race ι) (w : ι) : PendingState :=
  s.advanced.foldl newPending (regs w).initial

/-- The files of one call are there; it has returned, or has only the logs to open. -/
structure After (s : Race ι) (w : ι) : Prop where
  others : Others s w
  call : s.call w = .returned true ∨
    ∃ ops file, s.call w = .running ⟨ops,file⟩ ∧ ops <:+ touchOps store a
  home : Home store (regs w) (s.current regs w) s.volume.view
  payment : ∀ p, s.payment = some p → PaymentInv store a (s.current regs w) s.volume p
  accepted : ∀ x ∈ s.accepted, x.seq ≤ (s.current regs w).lastAcceptedSeq

structure RaceInv (s : Race ι) : Prop where
  plain : ∀ p, s.payment = some p → ∀ n ∈ payloadNullifiers M p.payload, IsPlain n
  cases : Before store a s ∨ ∃ w, During store regs s w ∨ After store regs s w

end Invariant

section Head
variable {store : FilesystemX402Store} {a : String} {reg : Registration a} {fs : Files}
  {rest : List (FsOp Content)} {v : Volume Content} {file : Option ℕ}

/-- The last operation but the logs is the one that shows the pending state. -/
theorem headOps_concat (store : FilesystemX402Store) (reg : Registration a) : ∃ before, headOps store reg =
    before ++ [.rename (agentPlace store a ".pending_state.json.tmp")
      (agentPlace store a "pending_state.json")] ∧
    ∀ op ∈ before, op.Within (outside store a ["pending_state.json"]) Set.univ := by
  have hpending : atomicWriteOps (store.pendingStateFile a) (Content.pending reg.initial) = _ :=
    advanceOps_eq reg.initial
  have huniv : ∀ {raw : List String}, ∀ p ∈ walk [] (components raw), p ∈ (Set.univ : Set Path) :=
    fun _ _ => Set.mem_univ _
  refine ⟨dirOps store a ++ (atomicWriteOps (store.agentFile a) (.agent reg.record) ++
    atomicWriteOps (store.mandateFile a) (.mandate reg.mandate) ++
      (mkdirs [] (components (store.agentDir a)) ++
        (writeOps (agentPlace store a ".pending_state.json.tmp")
          (agentPlace store a "pending_state.json") (Content.pending reg.initial)).take 3)),?_,?_⟩
  · rw [headOps,recordOps,hpending]
    simp only [List.append_assoc]
    rfl
  · simp only [dirOps,List.forall_mem_append]
    refine ⟨⟨⟨⟨⟨mkdirs_within huniv,mkdirs_within huniv⟩,mkdirs_within huniv⟩,mkdirs_within huniv⟩,
      mkdirs_within huniv⟩,⟨?_,?_⟩,mkdirs_within huniv,?_⟩
    · exact atomicWriteOps_within isPlain_agentJson huniv (place_mem_outside (by decide))
        (place_mem_outside (by decide))
    · exact atomicWriteOps_within (by decide) huniv (place_mem_outside (by decide))
        (place_mem_outside (by decide))
    · simp only [writeOps,List.take_succ_cons,List.take_zero,List.forall_mem_cons,List.not_mem_nil,
        IsEmpty.forall_iff,implies_true,and_true]
      exact ⟨place_mem_outside (by decide),trivial,trivial⟩

/-- Until then there is none. -/
theorem absent_of_progress (hfree : Free store a fs)
    (h : Progress (headOps store reg) rest fs (v,file)) (hrest : rest ≠ []) :
    v.view.fileAt (agentPlace store a "pending_state.json") = none := by
  obtain ⟨past,y,hsplit,hrun,hshows⟩ := h
  obtain ⟨before,hhead,hwithin⟩ := headOps_concat store reg
  have hpast : ∀ op ∈ past, op ∈ before := by
    have hlast := congrArg List.dropLast (hhead.symm.trans hsplit)
    rw [List.dropLast_concat,List.dropLast_append_of_ne_nil hrest] at hlast
    intro op hop
    rw [hlast]
    exact List.mem_append_left _ hop
  have hkept : Confined (outside store a ["pending_state.json"]) Set.univ fs y.1 :=
    runFiles_confined (fun op hop => hwithin op (hpast op hop)) (fun p hp => by cases hp) hrun
  have hview : v.view = y.1 := hshows.view
  rw [hview,hkept.files _ fun hout => hout _ List.mem_cons_self rfl]
  exact hfree.empty _ (by decide)

theorem headOps_ne_nil (reg : Registration a) : headOps store reg ≠ [] := by
  obtain ⟨before,hhead,-⟩ := headOps_concat store reg
  rw [hhead]
  exact List.append_ne_nil_of_right_ne_nil _ (List.cons_ne_nil _ _)

end Head

section Payments
variable {M : Miden} {store : FilesystemX402Store} {a : String} {ι : Type} {reg : Registration a}
  {regs : ι → Registration a} {s s' : Race ι} {w : ι} {p : Payment} {payload : AgenticPayload}
  {σ σ' : Stage} {fs fs' : Files} {v v' : Volume Content} {t t' : Process Content}
  {current : PendingState} {now : ℕ}

theorem noPending_of_absent (h : fs.fileAt (agentPlace store a "pending_state.json") = none)
    (q : PendingState) : store.loadPendingState a fs ≠ .ok q := by
  intro hload
  obtain ⟨c,hc,-⟩ := readJson_eq_ok_iff.mp (Rust.mapError_eq_ok.mp hload)
  rw [FilesystemX402Store.pendingStateFile,readFile_concat isPlain_pendingState] at hc
  obtain ⟨d,hd,hfile⟩ := Option.bind_eq_some_iff.mp hc
  obtain rfl := resolveDir_eq_normalize hd
  cases h.symm.trans hfile

theorem StageMove.early (h : StageMove M store a payload fs σ σ' fs') (hσ : σ.isEarly = true)
    (habsent : ∀ q, store.loadPendingState a fs ≠ .ok q) : σ'.isEarly = true := by
  cases h with
  | loadAgent _ => rfl
  | loadMandate => rfl
  | check hload _ => exact absurd hload (habsent _)
  | clear _ _ => cases hσ
  | reserve _ => cases hσ
  | advance _ => cases hσ
  | enqueue _ => cases hσ

theorem silent_of_early (store : FilesystemX402Store) (a : String) (payload : AgenticPayload) (now : ℕ)
    (hσ : σ.isEarly = true) :
    advancement payload σ = [] ∧ acceptance a payload σ = [] ∧ stageOps store a payload now σ = none := by
  cases σ with
  | entered => exact ⟨rfl,rfl,rfl⟩
  | haveRecord _ => exact ⟨rfl,rfl,rfl⟩
  | haveMandate _ _ => exact ⟨rfl,rfl,rfl⟩
  | _ => cases hσ

theorem stageOk_of_early (hσ : σ.isEarly = true) : StageOk current payload σ := by
  cases σ with
  | entered => trivial
  | haveRecord _ => trivial
  | haveMandate _ _ => trivial
  | _ => cases hσ

/-- Without a pending state a payment changes nothing but itself. -/
theorem Quiet.pay (h : Quiet store a s) (hp : s.payment = some p) (hmove : PayMove M store a s p s') :
    Quiet store a s' ∧ s'.call = s.call ∧ s'.volume = s.volume := by
  obtain ⟨hearly,hnone⟩ := h.early p hp
  cases hmove with
  | @reads σ _ _ _ hmove =>
    have hσ := hmove.early hearly (noPending_of_absent h.absent)
    obtain ⟨hadvanced,haccepted,-⟩ := silent_of_early store a p.payload 0 hσ
    refine ⟨⟨?_,?_,?_,h.absent⟩,rfl,rfl⟩
    · rw [Race.enter,hadvanced,h.advanced]
      rfl
    · rw [Race.enter,haccepted,h.accepted]
      rfl
    · rintro p' ⟨⟩
      exact ⟨hσ,rfl⟩
  | begins _ hops => cases (silent_of_early _ a _ _ hearly).2.2.symm.trans hops
  | goesOn hwriting _ => cases hnone.symm.trans hwriting
  | ends hwriting _ => cases hnone.symm.trans hwriting
  | answers => exact ⟨⟨h.advanced,h.accepted,(fun _ hp => nomatch hp),h.absent⟩,rfl,rfl⟩

theorem PayMove.same_payload (h : PayMove M store a s p s') :
    ∀ p', s'.payment = some p' → p'.payload = p.payload := by
  cases h with
  | answers =>
    rintro p' ⟨⟩
  | _ =>
    rintro p' ⟨⟩
    rfl

theorem StageMove.stageOk (h : StageMove M store a payload fs σ σ' fs')
    (hops : ∀ now, stageOps store a payload now σ = none) (home : Home store reg current fs)
    (hok : StageOk current payload σ) (hplain : ∀ n ∈ payloadNullifiers M payload, IsPlain n) :
    StageOk current payload σ' ∧ advancement payload σ' = [] ∧ acceptance a payload σ' = [] := by
  cases h with
  | loadAgent _ => exact ⟨trivial,rfl,rfl⟩
  | loadMandate => exact ⟨trivial,rfl,rfl⟩
  | check hload hcheck =>
    refine ⟨⟨Except.ok.inj (hload.symm.trans home.loadPendingState),?_⟩,rfl,rfl⟩
    rw [checkPayload_nullifiers hcheck]
    exact hplain
  | clear _ _ => exact ⟨hok,rfl,rfl⟩
  | reserve _ => cases hops 0
  | advance _ => cases hops 0
  | enqueue _ => cases hops 0

theorem writing_start
    (hwalk : ∀ q ∈ walk [] (components (store.agentDir a)), q ∈ outside store a logFiles)
    {ops : List (FsOp Content)} (hops : stageOps store a payload now σ = some (σ',ops))
    (hok : StageOk current payload σ) : Writing store a v payload σ σ' ⟨ops,none⟩ := by
  cases σ with
  | clear q ns =>
    obtain ⟨rfl,rfl⟩ := Prod.mk.inj (Option.some.inj hops)
    exact .reserve (keeps_start v (reserveOps_within _))
  | reserved q ns now =>
    obtain ⟨rfl,rfl⟩ := Prod.mk.inj (Option.some.inj hops)
    exact .advance (advance_writes hwalk v _)
  | advanced q ns now =>
    obtain ⟨rfl,rfl⟩ := Prod.mk.inj (Option.some.inj hops)
    exact .queue (keeps_start v (queueOps_within hwalk _ hok.2))
  | _ => cases hops

theorem tmp_subset : ({agentPlace store a ".pending_state.json.tmp"} : Set Path) ⊆
    outside store a homeFiles := by
  rintro p rfl
  exact place_mem_outside (by decide)

theorem Writing.goesOn (h : Writing store a v payload σ σ' t)
    (ht : t.step v = some (.goesOn v' t')) :
    Confined (outside store a homeFiles) (outside store a logFiles) v.view v'.view ∧
      Writing store a v' payload σ σ' t' := by
  cases h with
  | reserve h => exact ⟨(h.step ht).1,.reserve (h.step ht).2⟩
  | advance h => exact ⟨(h.step ht).1.mono tmp_subset,.advance (h.step ht).2⟩
  | queue h => exact ⟨(h.step ht).1,.queue (h.step ht).2⟩

theorem Writing.grows (h : Writing store a v payload σ σ' t) (hgrows : Grows v v') :
    Writing store a v' payload σ σ' t := by
  cases h with
  | reserve h => exact .reserve (h.grows hgrows)
  | advance h => exact .advance (h.grows hgrows)
  | queue h => exact .queue (h.grows hgrows)

/-- A write that ends has advanced the pending state or left it. -/
theorem Writing.ends (h : Writing store a v payload σ σ' t) (ht : t.step v = some (.ends v'))
    (home : Home store reg current v.view) (hok : StageOk current payload σ)
    {next : PendingState} (hnext : next = (advancement payload σ').foldl newPending current) :
    Home store reg next v'.view ∧ StageOk next payload σ' ∧
      current.lastAcceptedSeq ≤ next.lastAcceptedSeq ∧
        ∀ x ∈ acceptance a payload σ', x.seq ≤ next.lastAcceptedSeq := by
  subst hnext
  cases h with
  | reserve h => exact ⟨home.confined (h.step ht),hok,le_rfl,fun _ hx => nomatch hx⟩
  | advance h =>
    obtain ⟨rfl,hns⟩ := hok
    obtain ⟨hc,hfile⟩ := h.step ht
    exact ⟨home.advanced hc hfile,⟨rfl,hns⟩,Nat.le_succ _,fun _ hx => nomatch hx⟩
  | queue h =>
    obtain ⟨rfl,-⟩ := hok
    refine ⟨home.confined (h.step ht),trivial,le_rfl,?_⟩
    intro x hx
    rw [List.mem_singleton.mp hx]
    exact le_rfl

theorem After.pay
    (hwalk : ∀ q ∈ walk [] (components (store.agentDir a)), q ∈ outside store a logFiles)
    (h : After store regs s w) (hp : s.payment = some p)
    (hplain : ∀ n ∈ payloadNullifiers M p.payload, IsPlain n) (hmove : PayMove M store a s p s') :
    After store regs s' w := by
  obtain ⟨hok,hwriting⟩ := h.payment p hp
  cases hmove with
  | @reads σ _ hnone hops hmove =>
    obtain ⟨hok',hadvanced,haccepted⟩ := hmove.stageOk hops h.home hok hplain
    have hcurrent : (s.enter a p σ).current regs w = s.current regs w := by
      rw [Race.current,Race.enter,hadvanced,List.append_nil]
      rfl
    refine ⟨h.others,h.call,?_,?_,?_⟩
    · rw [hcurrent]
      exact h.home
    · rintro p' ⟨⟩
      rw [hcurrent]
      exact ⟨hok',fun _ _ he => nomatch he⟩
    · rw [hcurrent,Race.enter,haccepted,List.append_nil]
      exact h.accepted
  | begins hnone hops =>
    refine ⟨h.others,h.call,h.home,?_,h.accepted⟩
    rintro p' ⟨⟩
    refine ⟨hok,?_⟩
    rintro σ t ⟨⟩
    exact writing_start hwalk hops hok
  | goesOn hw ht =>
    obtain ⟨hc,hnext⟩ := (hwriting _ _ hw).goesOn ht
    refine ⟨h.others,h.call,h.home.confined hc,?_,h.accepted⟩
    rintro p' ⟨⟩
    refine ⟨hok,?_⟩
    rintro σ t ⟨⟩
    exact hnext
  | @ends σ t v hw ht =>
    have hcurrent : ({ s with volume := v }.enter a p σ).current regs w =
        (advancement p.payload σ).foldl newPending (s.current regs w) := List.foldl_append ..
    obtain ⟨home,hok',hle,hnew⟩ := (hwriting _ _ hw).ends ht h.home hok hcurrent
    refine ⟨h.others,h.call,home,?_,?_⟩
    · rintro p' ⟨⟩
      exact ⟨hok',fun _ _ he => nomatch he⟩
    · intro x hx
      rcases List.mem_append.mp hx with hold | hx
      · exact (h.accepted x hold).trans hle
      · exact hnew x hx
  | answers => exact ⟨h.others,h.call,h.home,(fun _ hp => nomatch hp),h.accepted⟩

end Payments

section Calls
variable {M : Miden} {store : FilesystemX402Store} {a : String} {ι : Type} [DecidableEq ι]
  {regs : ι → Registration a} {s s' : Race ι} {w i : ι} {c : CallState}

theorem setCall_self (s : Race ι) (i : ι) (c : CallState) : (s.setCall i c).call i = c :=
  Function.update_self ..

theorem setCall_of_ne (s : Race ι) (c : CallState) (h : w ≠ i) : (s.setCall i c).call w = s.call w :=
  Function.update_of_ne h ..

theorem Others.refuse (h : Others s w) (i : ι) : Others (s.setCall i (.returned false)) w := by
  intro j hj
  by_cases hji : j = i
  · subst hji
    exact Or.inr (setCall_self s j _)
  · rw [setCall_of_ne s _ hji]
    exact h j hj

/-- Where the call of the one goes does not matter to the others. -/
theorem Others.self (h : Others s w) {v : Volume Content} (c : CallState) :
    Others ({ s with volume := v }.setCall w c) w := by
  intro j hj
  rw [setCall_of_ne _ _ hj]
  exact h j hj

theorem During.refuse (h : During store regs s w) (hi : i ≠ w) :
    During store regs (s.setCall i (.returned false)) w := by
  refine ⟨⟨h.advanced,h.accepted,h.early,h.absent⟩,h.others.refuse i,?_⟩
  rw [setCall_of_ne s _ (Ne.symm hi)]
  exact h.running

theorem After.refuse (h : After store regs s w) (hi : i ≠ w) :
    After store regs (s.setCall i (.returned false)) w := by
  refine ⟨h.others.refuse i,?_,h.home,h.payment,h.accepted⟩
  rw [setCall_of_ne s _ (Ne.symm hi)]
  exact h.call

/-- The first call to look finds the place free. -/
theorem Before.moves (h : Before store a s) (hmove : CallMove store (regs i) s i s') :
    During store regs s' i := by
  cases hmove with
  | refused _ hpath => cases h.free.absent.symm.trans hpath
  | starts _ _ =>
    refine ⟨⟨h.advanced,h.accepted,h.early,h.absent⟩,?_,?_⟩
    · intro j hj
      rw [setCall_of_ne s _ hj]
      exact Or.inl (h.calls j)
    · exact ⟨headOps store (regs i),none,_,setCall_self s i _,headOps_ne_nil _,h.free,progress_start _⟩
  | goesOn hcall _ => cases (h.calls i).symm.trans hcall
  | ends hcall _ => cases (h.calls i).symm.trans hcall
  | fails hcall _ => cases (h.calls i).symm.trans hcall

/-- The one call goes on alone until the files of the agent are there. -/
theorem During.moves (h : During store regs s w) (hmove : CallMove store (regs w) s w s') :
    During store regs s' w ∨ After store regs s' w := by
  obtain ⟨rest,file,fs,hcall,hne,hfree,hprogress⟩ := h.running
  obtain ⟨op,rest,rfl⟩ := List.exists_cons_of_ne_nil hne
  have hrun : ∀ {t : Process Content}, s.call w = .running t →
      t = ⟨op :: (rest ++ touchOps store a),file⟩ :=
    fun ht => (CallState.running.inj (hcall.symm.trans ht)).symm
  cases hmove with
  | refused hc _ => cases hcall.symm.trans hc
  | starts hc _ => cases hcall.symm.trans hc
  | ends hc ht =>
    rw [hrun hc] at ht
    rcases Process.step_cases ht with ⟨e,-,he⟩ | ⟨v',file',-,⟨hnil,-⟩ | ⟨-,he⟩⟩
    · cases he
    · cases (List.append_eq_nil_iff.mp hnil).2
    · cases he
  | fails hc ht =>
    rw [hrun hc] at ht
    rcases Process.step_cases ht with ⟨e,hop,-⟩ | ⟨v',file',-,⟨-,he⟩ | ⟨-,he⟩⟩
    · obtain ⟨y,z,hy,-⟩ := hfree.runs (regs w)
      cases (hprogress.fails hop).symm.trans hy
    · cases he
    · cases he
  | goesOn hc ht =>
    rw [hrun hc] at ht
    rcases Process.step_cases ht with ⟨e,-,he⟩ | ⟨v',file',hop,⟨-,he⟩ | ⟨-,he⟩⟩
    · cases he
    · cases he
    · obtain ⟨rfl,rfl⟩ := ProcessStep.goesOn.inj he
      have hnext := hprogress.step hop
      cases rest with
      | nil =>
        obtain ⟨name,hended⟩ := hnext.ended
        have home := hfree.home hended
        have hcurrent : (s.current regs w) = (regs w).initial := by
          rw [Race.current,h.advanced]
          rfl
        right
        refine ⟨h.others.self _,Or.inr ⟨_,_,setCall_self _ w _,List.suffix_rfl⟩,?_,?_,?_⟩
        · exact hcurrent ▸ home
        · intro p hp
          obtain ⟨hearly,hnone⟩ := h.early p hp
          refine ⟨stageOk_of_early hearly,?_⟩
          intro σ t hw
          cases hnone.symm.trans hw
        · intro x hx
          cases h.accepted ▸ hx
      | cons op' rest =>
        left
        have hcons := List.cons_ne_nil op' rest
        refine ⟨⟨h.advanced,h.accepted,h.early,absent_of_progress hfree hnext hcons⟩,h.others.self _,?_⟩
        exact ⟨_,_,fs,setCall_self _ w _,hcons,hfree,hnext⟩

theorem After.grows {v : Volume Content} {c : CallState} (h : After store regs s w)
    (hgrows : Grows s.volume v) (hcall : c = .returned true ∨
      ∃ ops file, c = .running ⟨ops,file⟩ ∧ ops <:+ touchOps store a) :
    After store regs ({ s with volume := v }.setCall w c) w := by
  refine ⟨h.others.self c,?_,h.home.grows hgrows,?_,h.accepted⟩
  · rw [setCall_self]
    exact hcall
  · intro p hp
    obtain ⟨hok,hwriting⟩ := h.payment p hp
    exact ⟨hok,fun σ t hw => (hwriting σ t hw).grows hgrows⟩

/-- What is left to it are the logs. -/
theorem After.moves (h : After store regs s w) (hmove : CallMove store (regs w) s w s') :
    After store regs s' w := by
  rcases h.call with hcall | ⟨ops,file,hcall,hsuffix⟩
  · cases hmove with
    | refused hc _ => cases hcall.symm.trans hc
    | starts hc _ => cases hcall.symm.trans hc
    | goesOn hc _ => cases hcall.symm.trans hc
    | ends hc _ => cases hcall.symm.trans hc
    | fails hc _ => cases hcall.symm.trans hc
  · have hrun : ∀ {t : Process Content}, s.call w = .running t → t = ⟨ops,file⟩ :=
      fun ht => (CallState.running.inj (hcall.symm.trans ht)).symm
    cases ops with
    | nil =>
      cases hmove with
      | refused hc _ => cases hcall.symm.trans hc
      | starts hc _ => cases hcall.symm.trans hc
      | goesOn hc ht => cases hrun hc ▸ ht
      | ends hc ht => cases hrun hc ▸ ht
      | fails hc ht => cases hrun hc ▸ ht
    | cons op rest =>
      obtain ⟨name,hn,hlog,rfl⟩ : ∃ name, IsPlain name ∧ name ∈ logFiles ∧
          op = .openAppend (store.agentDir a ++ [name]) := by
        rcases List.mem_cons.mp (hsuffix.subset List.mem_cons_self) with rfl | hop
        · exact ⟨_,isPlain_wal,by decide,rfl⟩
        · rw [List.mem_singleton.mp hop]
          exact ⟨_,isPlain_spent,by decide,rfl⟩
      have hrest : rest <:+ touchOps store a := (List.suffix_cons _ rest).trans hsuffix
      cases hmove with
      | refused hc _ => cases hcall.symm.trans hc
      | starts hc _ => cases hcall.symm.trans hc
      | goesOn hc ht =>
        rw [hrun hc] at ht
        rcases Process.step_cases ht with ⟨e,-,he⟩ | ⟨v',file',hop,⟨-,he⟩ | ⟨-,he⟩⟩
        · cases he
        · cases he
        · obtain ⟨rfl,rfl⟩ := ProcessStep.goesOn.inj he
          exact h.grows (openAppend_grows hop) (Or.inr ⟨rest,file',rfl,hrest⟩)
      | ends hc ht =>
        rw [hrun hc] at ht
        rcases Process.step_cases ht with ⟨e,-,he⟩ | ⟨v',file',hop,⟨-,he⟩ | ⟨-,he⟩⟩
        · cases he
        · obtain rfl := ProcessStep.ends.inj he
          exact h.grows (openAppend_grows hop) (Or.inl rfl)
        · cases he
      | fails hc ht =>
        rw [hrun hc] at ht
        rcases Process.step_cases ht with ⟨e,hop,-⟩ | ⟨v',file',-,⟨-,he⟩ | ⟨-,he⟩⟩
        · obtain ⟨v',file',hok⟩ := h.home.opens hn hlog file
          cases hop.symm.trans hok
        · cases he
        · cases he

end Calls

section Runs
variable (M : Miden) (store : FilesystemX402Store) {a : String} {ι : Type} [DecidableEq ι]
  (regs : ι → Registration a)

def CallState.isChecking : CallState → Bool
  | .checking => true
  | _ => false

def CallState.isRunning : CallState → Bool
  | .running _ => true
  | _ => false

def CallState.isOk : CallState → Bool
  | .returned ok => ok
  | _ => false

theorem CallState.isOk_iff {c : CallState} : c.isOk = true ↔ c = .returned true := by
  cases c with
  | returned ok => exact ⟨congrArg CallState.returned,CallState.returned.inj⟩
  | _ => exact iff_of_false Bool.false_ne_true fun h => nomatch h

/-- No call looks for the directory of the agent while another is about to make it, and payments claim
nullifiers that are plain names. -/
def Race.Orderly (a : String) (s : Race ι) : RaceAction ι → Prop
  | .call i => (s.call i).isChecking = true → ∀ j, (s.call j).isRunning = true →
      s.volume.view.pathExists (store.agentDir a) = true
  | .arrive payload => ∀ n ∈ payloadNullifiers M payload, IsPlain n
  | .pay _ => True

def Race.OrderlyRun (s : Race ι) : List (RaceAction ι) → Prop
  | [] => True
  | act :: acts => s.Orderly M store a act ∧ ∀ s' ∈ s.step M store regs act, s'.OrderlyRun acts

instance [Fintype ι] (s : Race ι) (act : RaceAction ι) : Decidable (s.Orderly M store a act) :=
  match act with
  | .call i => inferInstanceAs (Decidable ((s.call i).isChecking = true → ∀ j,
      (s.call j).isRunning = true → s.volume.view.pathExists (store.agentDir a) = true))
  | .arrive payload => inferInstanceAs (Decidable (∀ n ∈ payloadNullifiers M payload, IsPlain n))
  | .pay _ => isTrue trivial

instance decidableOrderlyRun [Fintype ι] (acts : List (RaceAction ι)) (s : Race ι) :
    Decidable (s.OrderlyRun M store regs acts) :=
  match acts with
  | [] => isTrue trivial
  | act :: acts =>
    have : DecidablePred fun s' : Race ι => s'.OrderlyRun M store regs acts := decidableOrderlyRun acts
    inferInstanceAs (Decidable (s.Orderly M store a act ∧
      ∀ s' ∈ s.step M store regs act, s'.OrderlyRun M store regs acts))

/-- At most one call has returned `Ok`, and one has when all have returned.  The files are those of
that call, the pending state what the payments made of its initial one; it is not reset once a payment
was accepted. -/
structure OneWinner (s : Race ι) : Prop where
  unique : ∀ i j, s.call i = .returned true → s.call j = .returned true → i = j
  winner : Nonempty ι → (∀ i, ∃ ok, s.call i = .returned ok) → ∃ i, s.call i = .returned true
  files : ∀ i, s.call i = .returned true →
    store.loadAgent a s.volume.view = .ok (regs i).record ∧
      store.loadMandate a s.volume.view = .ok (regs i).mandate ∧
        store.loadPendingState a s.volume.view = .ok (s.advanced.foldl newPending (regs i).initial)
  kept : ∀ x ∈ s.accepted, ∃ p, store.loadPendingState a s.volume.view = .ok p ∧
    x.seq ≤ p.lastAcceptedSeq

variable {M store regs} {s s' : Race ι} {act : RaceAction ι} {acts : List (RaceAction ι)}

theorem CallMove.same_payment {i : ι} (h : CallMove store (regs i) s i s') : s'.payment = s.payment := by
  cases h <;> rfl

/-- A call that does not find the place free is refused. -/
theorem CallMove.refuses {i : ι} (h : CallMove store (regs i) s i s')
    (hcall : s.call i = .checking ∨ s.call i = .returned false)
    (hpath : s.call i = .checking → s.volume.view.pathExists (store.agentDir a) = true) :
    s' = s.setCall i (.returned false) := by
  have hnot : ∀ t, s.call i ≠ .running t := by
    intro t ht
    rcases hcall with hc | hc
    · cases hc.symm.trans ht
    · cases hc.symm.trans ht
  cases h with
  | refused _ _ => rfl
  | starts hc hp => cases (hpath hc).symm.trans hp
  | goesOn hc _ => exact absurd hc (hnot _)
  | ends hc _ => exact absurd hc (hnot _)
  | fails hc _ => exact absurd hc (hnot _)

theorem RaceInv.call {i : ι} (h : RaceInv M store regs s)
    (horderly : s.Orderly M store a (.call i)) (hmove : CallMove store (regs i) s i s') :
    RaceInv M store regs s' := by
  refine ⟨?_,?_⟩
  · rw [hmove.same_payment]
    exact h.plain
  · rcases h.cases with hbefore | ⟨w,hduring | hafter⟩
    · exact Or.inr ⟨i,Or.inl (hbefore.moves hmove)⟩
    · refine Or.inr ⟨w,?_⟩
      by_cases hi : i = w
      · subst hi
        exact hduring.moves hmove
      · left
        rw [hmove.refuses (hduring.others i hi)]
        · exact hduring.refuse hi
        · intro hc
          obtain ⟨rest,file,fs,hrunning,-⟩ := hduring.running
          refine horderly ?_ w ?_
          · rw [hc]
            rfl
          · rw [hrunning]
            rfl
    · refine Or.inr ⟨w,Or.inr ?_⟩
      by_cases hi : i = w
      · subst hi
        exact hafter.moves hmove
      · rw [hmove.refuses (hafter.others i hi) fun _ => hafter.home.pathExists]
        exact hafter.refuse hi

omit [DecidableEq ι] in
/-- A payment begins with reading. -/
theorem RaceInv.arrive {payload : AgenticPayload} (h : RaceInv M store regs s)
    (hplain : ∀ n ∈ payloadNullifiers M payload, IsPlain n) :
    RaceInv M store regs { s with payment := some ⟨payload,.entered,none⟩ } := by
  have hearly : ∀ p : Payment, some ⟨payload,.entered,none⟩ = some p →
      p.stage.isEarly = true ∧ p.writing = none := by
    rintro p ⟨⟩
    exact ⟨rfl,rfl⟩
  refine ⟨?_,?_⟩
  · rintro p ⟨⟩
    exact hplain
  · rcases h.cases with hbefore | ⟨w,hduring | hafter⟩
    · exact Or.inl ⟨⟨hbefore.advanced,hbefore.accepted,hearly,hbefore.absent⟩,hbefore.calls,hbefore.free⟩
    · exact Or.inr ⟨w,Or.inl ⟨⟨hduring.advanced,hduring.accepted,hearly,hduring.absent⟩,
        hduring.others,hduring.running⟩⟩
    · refine Or.inr ⟨w,Or.inr ⟨hafter.others,hafter.call,hafter.home,?_,hafter.accepted⟩⟩
      rintro p ⟨⟩
      exact ⟨trivial,fun _ _ hw => nomatch hw⟩

omit [DecidableEq ι] in
theorem RaceInv.pay {p : Payment}
    (hwalk : ∀ q ∈ walk [] (components (store.agentDir a)), q ∈ outside store a logFiles)
    (h : RaceInv M store regs s) (hp : s.payment = some p) (hmove : PayMove M store a s p s') :
    RaceInv M store regs s' := by
  refine ⟨?_,?_⟩
  · intro p' hp'
    rw [hmove.same_payload p' hp']
    exact h.plain p hp
  · rcases h.cases with hbefore | ⟨w,hduring | hafter⟩
    · obtain ⟨hquiet,hcall,hvolume⟩ := hbefore.pay hp hmove
      refine Or.inl ⟨hquiet,?_,?_⟩
      · rw [hcall]
        exact hbefore.calls
      · rw [hvolume]
        exact hbefore.free
    · obtain ⟨hquiet,hcall,hvolume⟩ := hduring.pay hp hmove
      refine Or.inr ⟨w,Or.inl ⟨hquiet,?_,?_⟩⟩
      · rw [Others,hcall]
        exact hduring.others
      · rw [hcall,hvolume]
        exact hduring.running
    · exact Or.inr ⟨w,Or.inr (hafter.pay hwalk hp (h.plain p hp) hmove)⟩

theorem RaceInv.step
    (hwalk : ∀ q ∈ walk [] (components (store.agentDir a)), q ∈ outside store a logFiles)
    (h : RaceInv M store regs s) (horderly : s.Orderly M store a act)
    (hstep : s.step M store regs act = some s') : RaceInv M store regs s' := by
  cases act with
  | call i => exact h.call horderly (callStep_move hstep)
  | arrive payload =>
    rw [Race.step] at hstep
    split at hstep
    · rw [← Option.some.inj hstep]
      exact h.arrive horderly
    · cases hstep
  | pay now =>
    obtain ⟨p,hp,hstep⟩ := Option.bind_eq_some_iff.mp hstep
    exact h.pay hwalk hp (payStep_move hstep)

theorem raceInv_run
    (hwalk : ∀ q ∈ walk [] (components (store.agentDir a)), q ∈ outside store a logFiles)
    (h : RaceInv M store regs s) (horderly : s.OrderlyRun M store regs acts)
    (hrun : s.run M store regs acts = some s') : RaceInv M store regs s' := by
  induction acts generalizing s with
  | nil =>
    obtain rfl := Option.some.inj hrun
    exact h
  | cons act acts ih =>
    rw [Race.run,List.foldlM_cons] at hrun
    obtain ⟨s1,hstep,hrest⟩ := Option.bind_eq_some_iff.mp hrun
    exact ih (h.step hwalk horderly.1 hstep) (horderly.2 s1 hstep) hrest

theorem Others.unique {w i : ι} (h : Others s w) (hi : s.call i = .returned true) : i = w := by
  by_contra hne
  rcases h i hne with hc | hc
  · cases hc.symm.trans hi
  · cases hc.symm.trans hi

theorem After.oneWinner {w : ι} (h : After store regs s w) : OneWinner store regs s := by
  refine ⟨?_,?_,?_,?_⟩
  · intro i j hi hj
    rw [h.others.unique hi,h.others.unique hj]
  · intro _ hall
    rcases h.call with hcall | ⟨ops,file,hcall,-⟩
    · exact ⟨w,hcall⟩
    · obtain ⟨ok,hok⟩ := hall w
      cases hcall.symm.trans hok
  · intro i hi
    rw [h.others.unique hi]
    exact ⟨h.home.loadAgent,h.home.loadMandate,h.home.loadPendingState⟩
  · exact fun x hx => ⟨_,h.home.loadPendingState,h.accepted x hx⟩

omit [DecidableEq ι] in
/-- While nobody has returned `Ok` there is nothing to say. -/
theorem Quiet.oneWinner (h : Quiet store a s) (hnot : ∀ i, s.call i ≠ .returned true)
    (hopen : Nonempty ι → ∃ w, ∀ ok, s.call w ≠ .returned ok) : OneWinner store regs s := by
  refine ⟨fun i _ hi _ => absurd hi (hnot i),?_,fun i hi => absurd hi (hnot i),?_⟩
  · intro hsome hall
    obtain ⟨w,hw⟩ := hopen hsome
    obtain ⟨ok,hok⟩ := hall w
    exact absurd hok (hw ok)
  · intro x hx
    cases h.accepted ▸ hx

theorem RaceInv.oneWinner (h : RaceInv M store regs s) : OneWinner store regs s := by
  rcases h.cases with hbefore | ⟨w,hduring | hafter⟩
  · have hnone : ∀ i ok, s.call i ≠ .returned ok := by
      intro i ok hok
      cases (hbefore.calls i).symm.trans hok
    exact hbefore.toQuiet.oneWinner (fun i => hnone i true) fun ⟨w⟩ => ⟨w,hnone w⟩
  · obtain ⟨rest,file,fs,hrunning,-⟩ := hduring.running
    have hw : ∀ ok, s.call w ≠ .returned ok := by
      intro ok hok
      cases hrunning.symm.trans hok
    refine hduring.toQuiet.oneWinner ?_ fun _ => ⟨w,hw⟩
    intro i hi
    exact hw true (hduring.others.unique hi ▸ hi)
  · exact hafter.oneWinner

/-- Where the place of the agent is free and no call looks for its directory while another is about to
make it, one call wins, whatever payments come in between.  The id is one whose names the operating
system accepts. -/
theorem one_winner (M : Miden) (store : FilesystemX402Store) (regs : ι → Registration a)
    (v : Volume Content) (acts : List (RaceAction ι)) (s : Race ι) (hfree : Free store a v.view)
    (horderly : (Race.start v).OrderlyRun M store regs acts)
    (hrun : (Race.start v).run M store regs acts = some s) : OneWinner store regs s := by
  have hstart : RaceInv M store regs (Race.start v) :=
    ⟨fun _ hp => (nomatch hp),Or.inl ⟨⟨rfl,rfl,fun _ hp => (nomatch hp),hfree.empty _ (by decide)⟩,
      fun _ => rfl,hfree⟩⟩
  exact (raceInv_run hfree.walk_outside hstart horderly hrun).oneWinner

end Runs

section Sample

/-- A volume with the directory of the agents and nothing in it. -/
def emptyVolume : Volume Content where
  tree :=
    { node := fun p => if p = ["data"] ∨ p = ["data","agents"] then some .dir else none
      paths := [["data"],["data","agents"]]
      nodup := emptyFiles.nodup
      mem_paths := by
        intro p n h
        by_cases hp : p = ["data"] ∨ p = ["data","agents"]
        · simpa using hp
        · rw [if_neg hp] at h
          cases h }
  contents _ := Contents.empty
  fresh := 0
  lt_fresh p i h := by
    simp only [FileSystem.fileAt] at h
    split at h
    · rename_i hp
      split at hp
      · cases hp
      · cases hp
    · cases h
  inj p q i h := by
    simp only [FileSystem.fileAt] at h
    split at h
    · rename_i hp
      split at hp
      · cases hp
      · cases hp
    · cases h

/-- Two calls for one agent, with different initial states. -/
def rivals (i : Fin 2) : Registration "a" where
  record := ⟨"a","0xaccount","0x01",.falcon,none,0⟩
  mandate := ⟨"100",[],0⟩
  initialStateCommitment := if i = 0 then "0xs0" else "0xr0"
  sameAgent := rfl

/-- The second call looks while the first one is at work, and a payment follows. -/
def orderlyActions : List (RaceAction (Fin 2)) :=
  List.replicate 20 (.call 0) ++ [.call 1] ++ List.replicate 23 (.call 0) ++
    .arrive (samplePayload "0xs0" "0xs1" ["0xn1"]) :: List.replicate 33 (.pay 7)

theorem emptyVolume_fileAt (p : Path) : emptyVolume.view.fileAt p = none := by
  rw [Volume.fileAt_view]
  cases h : emptyVolume.tree.fileAt p with
  | none => rfl
  | some i => exact absurd (emptyVolume.lt_fresh p i h) (Nat.not_lt_zero i)

theorem free_emptyVolume : Free sampleStore "a" emptyVolume.view where
  absent := by decide +kernel
  clear _ _ := emptyVolume_fileAt _
  dirs _ _ := emptyVolume_fileAt _
  files := by decide +kernel
  empty _ _ := emptyVolume_fileAt _

theorem one_winner_sample : ∃ s,
    (Race.start emptyVolume).OrderlyRun sampleMiden sampleStore rivals orderlyActions ∧
    (Race.start emptyVolume).run sampleMiden sampleStore rivals orderlyActions = some s ∧
    s.accepted.map Acceptance.seq = [1] ∧ OneWinner sampleStore rivals s := by
  have horderly : (Race.start emptyVolume).OrderlyRun sampleMiden sampleStore rivals orderlyActions := by
    decide +kernel
  have hrun : ((Race.start emptyVolume).run sampleMiden sampleStore rivals orderlyActions).any
      (fun s => s.accepted.map Acceptance.seq = [1]) = true := by
    decide +kernel
  obtain ⟨s,hs,haccepted⟩ := Option.any_eq_true _ _ |>.mp hrun
  exact ⟨s,horderly,hs,of_decide_eq_true haccepted,one_winner sampleMiden sampleStore rivals emptyVolume
    orderlyActions s free_emptyVolume horderly hs⟩

/-- Both calls look before either makes the directory.  The first one returns, a payment is accepted,
and then the second one writes its files over those of the first: it returns `Ok` as well, and the
pending state is its own, with number 0. -/
theorem two_winners : ∃ s s',
    (Race.start emptyVolume).run sampleMiden sampleStore rivals
      ([.call 0,.call 1] ++ List.replicate 42 (.call 0)) = some s ∧ s.call 0 = .returned true ∧
    s.run sampleMiden sampleStore rivals (.arrive (samplePayload "0xs0" "0xs1" ["0xn1"]) ::
      List.replicate 33 (.pay 7) ++ List.replicate 42 (.call 1)) = some s' ∧
    s'.call 0 = .returned true ∧ s'.call 1 = .returned true ∧ s'.accepted.map Acceptance.seq = [1] ∧
    sampleStore.loadPendingState "a" s'.volume.view = .ok ⟨"0xr0","0xr0",0⟩ ∧
    ¬OneWinner sampleStore rivals s' := by
  have hrun : ((Race.start emptyVolume).run sampleMiden sampleStore rivals
      ([.call 0,.call 1] ++ List.replicate 42 (.call 0))).any (fun s => (s.call 0).isOk ∧
        (s.run sampleMiden sampleStore rivals (.arrive (samplePayload "0xs0" "0xs1" ["0xn1"]) ::
          List.replicate 33 (.pay 7) ++ List.replicate 42 (.call 1))).any (fun s' =>
            (s'.call 0).isOk ∧ (s'.call 1).isOk ∧ s'.accepted.map Acceptance.seq = [1] ∧
              sampleStore.loadPendingState "a" s'.volume.view = .ok ⟨"0xr0","0xr0",0⟩)) = true := by
    decide +kernel
  obtain ⟨s,hs,h⟩ := Option.any_eq_true _ _ |>.mp hrun
  obtain ⟨hfirst,h⟩ := of_decide_eq_true h
  obtain ⟨s',hs',h⟩ := Option.any_eq_true _ _ |>.mp h
  obtain ⟨h0,h1,haccepted,hpending⟩ := of_decide_eq_true h
  have h0 := CallState.isOk_iff.mp h0
  have h1 := CallState.isOk_iff.mp h1
  refine ⟨s,s',hs,CallState.isOk_iff.mp hfirst,hs',h0,h1,haccepted,hpending,?_⟩
  intro hwinner
  exact absurd (hwinner.unique 0 1 h0 h1) (by decide)

end Sample

end MidenX402.Facilitator
