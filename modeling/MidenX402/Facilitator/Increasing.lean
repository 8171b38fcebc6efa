import MidenX402.Disk.Directories
import MidenX402.Facilitator.RecordContents

/-!
# Payments are numbered upwards

For any agent id, plain or not, and whatever the files hold at the start: each payment accepted for the
agent has a larger number than those before it.  Only the agent's own requests replace its pending
state, one at a time, and none of them goes back.  They stand still while the agent is registered.
-/

namespace MidenX402.Facilitator
open Disk KeyedLock Rust

section Kept
variable {store : FilesystemX402Store} {a b : String} {P : Path} {fs fs' : Files}

/-- A pending state that is found at a place afterwards was there before. -/
structure PendingKept (P : Path) (fs fs' : Files) : Prop where
  old : ∀ q, fs'.fileAt P = some (.pending q) → fs.fileAt P = some (.pending q)
  dirs : ∀ p, fs.isDir p = true → fs'.isDir p = true

theorem PendingKept.rfl : PendingKept P fs fs := ⟨fun _ h => h,fun _ h => h⟩

/-- The pending state at the place, if there is one, is the one of `fs`. -/
def SameAt (P : Path) (fs : Files) (p : Path) (c : Content) : Prop :=
  p = P → ∀ q, c = .pending q → fs.fileAt P = some (.pending q)

theorem pendingKept_of_keeps (h : Keeps (SameAt P fs) fs fs') : PendingKept P fs fs' := by
  refine ⟨?_,h.dirs⟩
  intro q hq
  refine h.files ?_ P _ hq rfl q rfl
  rintro p c hc rfl r rfl
  exact hc

theorem silent_sameAt (P : Path) (fs : Files) : Silent (SameAt P fs) where
  empty _ := fun _ _ => nofun
  torn _ := fun _ _ => nofun
  lookup _ _ := fun _ _ => nofun
  append p c e := by
    intro _ q
    cases c <;> exact nofun

theorem sameAt_queued (p : Path) (tx : QueuedTx) : SameAt P fs p (.queued tx) := fun _ _ => nofun

theorem seqFile_ne_pendingState (seq : ℕ) : seqFile seq ≠ "pending_state.json" := by
  intro he
  obtain ⟨c,cs,hc,hdigit⟩ := head_seqFile seq
  rw [he] at hc
  obtain ⟨rfl,-⟩ := List.cons.inj hc
  exact absurd hdigit (by decide)

/-- No record moves to the place of a pending state. -/
theorem keptByMove_sameAt : KeptByMove store (SameAt (agentPlace store a "pending_state.json") fs) := by
  intro fs' b seq p q c _ hq _ hplace
  rw [locate_eq_resolved hq,resolved_concat (isPlain_seqFile seq),agentPlace] at hplace
  have hlast := congrArg List.getLast? hplace
  rw [List.getLast?_concat,List.getLast?_concat] at hlast
  exact absurd (Option.some.inj hlast) (seqFile_ne_pendingState seq)

/-- The agent id leads elsewhere. -/
def Apart (store : FilesystemX402Store) (a b : String) : Prop :=
  resolved (store.agentDir b) ≠ resolved (store.agentDir a)

/-- What is written in the directory of another agent. -/
theorem Apart.sameAt (h : Apart store a b) (name : String) (c : Content) :
    SameAt (agentPlace store a "pending_state.json") fs (resolved (store.agentDir b) ++ [name]) c := by
  intro hplace
  exact absurd (List.append_inj_left' hplace rfl) h

/-- The operation writes the pending state. -/
def RegisterOp.isPending : RegisterOp → Bool
  | .write _ (.pending _) => true
  | _ => false

/-- A registration that does not write a pending state, or that of another agent. -/
theorem registerOp_pendingKept {record : AgentRecord} {mandate : AgentMandate} {initial : String}
    {op : RegisterOp} (h : Apart store a record.agentId ∨ op.isPending = false)
    (hop : op ∈ store.registerOps record mandate initial) :
    op.run.Steps (Keeps (SameAt (agentPlace store a "pending_state.json") fs)) fs := by
  apply registerOp_keeps (silent_sameAt _ fs)
  rcases h with hapart | hother
  swap
  · rintro raw c rfl name - q rfl
    cases hother
  have hplace : ∀ {file : String} {c : Content}, IsPlain file → ∀ name, SameAt
      (agentPlace store a "pending_state.json") fs
      (normalize [] (components (store.agentDir record.agentId ++ [file])).dropLast ++ [name]) c := by
    intro file c hfile name
    rw [components_concat hfile,List.dropLast_concat]
    exact hapart.sameAt name c
  rintro raw c rfl
  simp only [FilesystemX402Store.registerOps,FilesystemX402Store.agentFile,
    FilesystemX402Store.mandateFile,FilesystemX402Store.pendingStateFile,List.mem_cons,
    List.not_mem_nil,or_false] at hop
  simp at hop
  rcases hop with ⟨rfl,rfl⟩ | ⟨rfl,rfl⟩ | ⟨rfl,rfl⟩
  · exact hplace isPlain_agentJson
  · exact hplace (by decide)
  · exact hplace isPlain_pendingState

end Kept

section Stages
variable {M : Miden} {store : FilesystemX402Store} {maxSize : ℕ} {a b : String} {fs fs' : Files}
  {payload : AgenticPayload} {σ σ' : Stage}

/-- The pending state a request goes by. -/
def Stage.read : Stage → Option PendingState
  | .checked p _ | .clear p _ | .reserved p _ _ | .advanced p _ _ => some p
  | _ => none

/-- The directory of the agent is there. -/
def Resolves (store : FilesystemX402Store) (a : String) (fs : Files) : Prop :=
  (fs.resolveDir [] (components (store.agentDir a))).isSome = true

theorem Resolves.mono (h : Resolves store a fs) (hdirs : ∀ p, fs.isDir p = true → fs'.isDir p = true) :
    Resolves store a fs' := by
  obtain ⟨d,hd⟩ := Option.isSome_iff_exists.mp h
  rw [Resolves,resolveDir_mono hdirs hd]
  rfl

theorem loadPendingState_place {p : PendingState} (h : store.loadPendingState a fs = .ok p) :
    Resolves store a fs ∧ fs.fileAt (agentPlace store a "pending_state.json") = some (.pending p) := by
  obtain ⟨c,hc,hp⟩ := readJson_eq_ok_iff.mp (mapError_eq_ok.mp h)
  rw [FilesystemX402Store.pendingStateFile,readFile_concat isPlain_pendingState] at hc
  obtain ⟨d,hd,hfile⟩ := Option.bind_eq_some_iff.mp hc
  rw [Resolves,hd]
  rw [resolveDir_eq_normalize hd] at hfile
  refine ⟨rfl,?_⟩
  cases c with
  | pending q =>
    rw [← Option.some.inj hp]
    exact hfile
  | _ => cases hp

/-- Another agent's request leaves the pending state alone. -/
theorem Apart.fills (h : Apart store a b) :
    σ.Fills store b payload (SameAt (agentPlace store a "pending_state.json") fs) :=
  ⟨fun _ _ _ _ name => h.sameAt name _,fun _ _ _ _ _ _ => sameAt_queued _ _⟩

/-- So do the stages of a request that do not replace it. -/
theorem fills_of_ne (h : ∀ p ns now, σ ≠ .reserved p ns now) : σ.Fills store b payload (SameAt P fs) :=
  ⟨fun p ns now hσ => absurd hσ (h p ns now),fun _ _ _ _ _ _ => sameAt_queued _ _⟩

theorem StageMove.pendingKept (h : StageMove M store b payload fs σ σ' fs')
    (hfills : σ.Fills store b payload (SameAt P fs)) : PendingKept P fs fs' :=
  pendingKept_of_keeps (h.keeps (silent_sameAt P fs) hfills)

/-- A request that fails to replace the pending state leaves it as it was. -/
theorem StageCut.pendingKept (h : StageCut store b payload fs σ fs') :
    PendingKept (agentPlace store a "pending_state.json") fs fs' := by
  have hfills : (∀ p ns now, σ ≠ .reserved p ns now) →
      PendingKept (agentPlace store a "pending_state.json") fs fs' := fun hne =>
    pendingKept_of_keeps (h.keeps (silent_sameAt _ fs) (fills_of_ne hne))
  cases h with
  | reserve _ => exact hfills fun _ _ _ => nofun
  | enqueue _ => exact hfills fun _ _ _ => nofun
  | @advance pending _ _ _ _ hcut =>
    have hfails : (atomicWriteJson (store.pendingStateFile b) (.pending (newPending pending payload))).Fails
        (Frame {staging (store.pendingStateFile b)}) fs := atomicWrite_fails.mapError _
    have hframe := hfails _ _ hcut
    have hdot : Undotted (agentPlace store a "pending_state.json") := undotted_concat (by decide)
    refine ⟨?_,hframe.dirs⟩
    intro q hq
    exact (hframe.files _ (hdot.ne_tmp _ _)).symm.trans hq

theorem atomicWriteJson_place {raw : List String} {name : String} {c : Content} {u : Unit}
    (hn : IsPlain name) (h : (atomicWriteJson (raw ++ [name]) c).exec fs = .ok (u,fs')) :
    OnlyAt fs fs' {resolved raw ++ [name]} ∧ fs'.fileAt (resolved raw ++ [name]) = some c := by
  have hw := atomicWrite_concat hn (Prog.exec_mapError_eq_ok h)
  exact ⟨onlyAt_of_written hw,hw.self⟩

end Stages

section Counted
variable {M : Miden} {store : FilesystemX402Store} {maxSize : ℕ} {s s' : Server} {act : Action}
  {a : String} {payload : AgenticPayload} {σ σ' : Stage} {fs fs' : Files}

/-- The numbers of the accepted payments grow, and neither the pending state on disk nor one that a
request has read is behind them. -/
structure Counts (store : FilesystemX402Store) (s : Server) (a : String) : Prop where
  increasing : ((s.history a).map Acceptance.seq).Pairwise (· < ·)
  resolves : s.history a ≠ [] → Resolves store a s.files
  read : ∀ payload σ p, s.Inside a payload σ → σ.read = some p →
    Resolves store a s.files ∧ ∀ x ∈ s.history a, x.seq ≤ p.lastAcceptedSeq
  ahead : ∀ payload p ns now, s.Inside a payload (.advanced p ns now) →
    ∀ q, s.files.fileAt (agentPlace store a "pending_state.json") = some (.pending q) →
      p.lastAcceptedSeq < q.lastAcceptedSeq
  file : ∀ q, s.files.fileAt (agentPlace store a "pending_state.json") = some (.pending q) →
    ∀ x ∈ s.history a, x.seq ≤ q.lastAcceptedSeq

/-- The agent is the one or leads elsewhere. -/
def Action.Apart (store : FilesystemX402Store) (a : String) : Action → Prop
  | .register req _ => req.agentId = a ∨ Facilitator.Apart store a req.agentId
  | .arrive b _ => b = a ∨ Facilitator.Apart store a b
  | _ => True

instance (store : FilesystemX402Store) (a b : String) : Decidable (Facilitator.Apart store a b) :=
  inferInstanceAs (Decidable (_ ≠ _))

instance (store : FilesystemX402Store) (a : String) (act : Action) : Decidable (act.Apart store a) :=
  match act with
  | .register _ _ => inferInstanceAs (Decidable (_ ∨ _))
  | .arrive _ _ => inferInstanceAs (Decidable (_ ∨ _))
  | .registration _ | .registrationFails _ _ | .request _ _ | .requestFails _ _ _ | .tick _
  | .work _ _ | .workFails _ _ | .lookup _ _ | .restart => isTrue trivial

/-- The registration has still to write the pending state of the agent. -/
def Registering.Resets (g : Registering) (a : String) : Prop :=
  g.record.agentId = a ∧ g.todo.any RegisterOp.isPending = true

instance (g : Registering) (a : String) : Decidable (g.Resets a) := inferInstanceAs (Decidable (_ ∧ _))

/-- Such a registration of the agent is under way. -/
def Server.Resetting (s : Server) (a : String) : Prop := ∃ g ∈ s.registrations.reduceOption, g.Resets a

instance (s : Server) (a : String) : Decidable (s.Resetting a) := inferInstanceAs (Decidable (∃ _ ∈ _, _))

/-- A request of the agent finds no pending state which a registration of the agent is about to replace. -/
def Server.Steady (store : FilesystemX402Store) (a : String) (s : Server) : Action → Prop
  | .request t _ => s.Resetting a → ∀ r ∈ s.request t, r.agentId = a →
      (store.loadPendingState a s.files).toOption = none
  | _ => True

instance (store : FilesystemX402Store) (a : String) (s : Server) (act : Action) :
    Decidable (s.Steady store a act) :=
  match act with
  | .request t _ => inferInstanceAs (Decidable (s.Resetting a → ∀ r ∈ s.request t, r.agentId = a →
      (store.loadPendingState a s.files).toOption = none))
  | .register _ _ | .arrive _ _ | .registration _ | .registrationFails _ _ | .requestFails _ _ _
  | .tick _ | .work _ _ | .workFails _ _ | .lookup _ _ | .restart => isTrue trivial

/-- Until the agent has its pending state nothing of it has been accepted or read. -/
structure Unread (s : Server) (a : String) : Prop where
  history : s.history a = []
  inside : ∀ payload σ, s.Inside a payload σ → σ.read = none

structure Counted (store : FilesystemX402Store) (a : String) (s : Server) : Prop where
  unread : s.Resetting a → Unread s a
  counts : Counts store s a

structure CountedInv (store : FilesystemX402Store) (a : String) (s : Server) : Prop where
  lock : LockInv s
  enrolling : Enrolling store s
  requests : ∀ t r, s.request t = some r → r.agentId = a ∨ Apart store a r.agentId
  registrations : ∀ t g, s.registration t = some g → g.record.agentId = a ∨ Apart store a g.record.agentId
  counted : Counted store a s

/-- What a request at the stage has read is behind no accepted payment, and it has not replaced it
yet. -/
structure Stage.Reads (store : FilesystemX402Store) (s : Server) (a : String) (σ : Stage) : Prop where
  read : ∀ p, σ.read = some p → Resolves store a s.files ∧ ∀ x ∈ s.history a, x.seq ≤ p.lastAcceptedSeq
  early : ∀ p ns now, σ ≠ .advanced p ns now

/-- A step that leaves the pending state of the agent alone. -/
theorem Counts.quiet (h : Counts store s a)
    (hkept : PendingKept (agentPlace store a "pending_state.json") s.files s'.files)
    (hhistory : s'.history a = s.history a)
    (hinside : ∀ payload σ, s'.Inside a payload σ → s.Inside a payload σ ∨ σ.Reads store s a) :
    Counts store s' a := by
  refine ⟨?_,?_,?_,?_,?_⟩
  · rw [hhistory]
    exact h.increasing
  · rw [hhistory]
    exact fun hne => (h.resolves hne).mono hkept.dirs
  · intro payload σ p hi hread
    have hold : Resolves store a s.files ∧ ∀ x ∈ s.history a, x.seq ≤ p.lastAcceptedSeq := by
      rcases hinside payload σ hi with hold | hnew
      · exact h.read payload σ p hold hread
      · exact hnew.read p hread
    rw [hhistory]
    exact ⟨hold.1.mono hkept.dirs,hold.2⟩
  · intro payload p ns now hi q hq
    rcases hinside payload _ hi with hold | hnew
    · exact h.ahead payload p ns now hold q (hkept.old q hq)
    · exact absurd rfl (hnew.early p ns now)
  · rw [hhistory]
    exact fun q hq => h.file q (hkept.old q hq)

theorem reads_of_none (h : σ.read = none) : σ.Reads store s a := by
  refine ⟨?_,?_⟩
  · intro p hp
    rw [h] at hp
    cases hp
  · rintro p ns now rfl
    cases h

/-- A request that goes by the state it has read. -/
theorem Counts.reads (h : Counts store s a) (hi : s.Inside a payload σ) (hread : σ'.read = σ.read)
    (hearly : ∀ p ns now, σ' ≠ .advanced p ns now) : σ'.Reads store s a :=
  ⟨fun p hp => h.read payload σ p hi (hread.symm.trans hp),hearly⟩

theorem Unread.counts (h : Unread s a) : Counts store s a := by
  refine ⟨?_,fun hne => absurd h.history hne,?_,?_,?_⟩
  · rw [h.history]
    exact List.Pairwise.nil
  · intro payload σ p hi hread
    rw [h.inside payload σ hi] at hread
    cases hread
  · exact fun payload p ns now hi => absurd (h.inside payload _ hi) (by simp [Stage.read])
  · rw [h.history]
    exact fun q _ x hx => absurd hx List.not_mem_nil

/-- Before the agent has a directory nothing of it has been accepted or read. -/
theorem Counts.unread (h : Counts store s a)
    (habsent : s.files.pathExists (store.agentDir a) = false) : Unread s a := by
  have hnew : ¬ Resolves store a s.files := by
    intro hres
    rw [FileSystem.pathExists,dirExists_eq_isSome,Bool.or_eq_false_iff] at habsent
    exact absurd (hres.symm.trans habsent.1) (by decide)
  refine ⟨not_not.mp fun hne => hnew (h.resolves hne),?_⟩
  intro payload σ hi
  cases hread : σ.read with
  | none => rfl
  | some p => exact absurd (h.read payload σ p hi hread).1 hnew

theorem Unread.keep (h : Unread s a) (hhistory : s'.history a = s.history a)
    (hinside : ∀ payload σ, s'.Inside a payload σ → s.Inside a payload σ ∨ σ.read = none) :
    Unread s' a := by
  refine ⟨hhistory.trans h.history,?_⟩
  intro payload σ hi
  rcases hinside payload σ hi with hold | hnone
  · exact h.inside payload σ hold
  · exact hnone

/-- A request that has read nothing goes on to read nothing, unless it comes to the pending state. -/
theorem Unread.stage (h : Unread s a) (hi : s.Inside a payload σ)
    (hto : ∀ payload' σ'', s'.Inside a payload' σ'' ↔ payload' = payload ∧ σ'' = σ')
    (hhistory : s'.history a = s.history a ++ acceptance a payload σ')
    (hmove : StageMove M store a payload s.files σ σ' fs')
    (hload : (store.loadPendingState a s.files).toOption = none) : Unread s' a := by
  have hread := h.inside payload σ hi
  have hnext : acceptance a payload σ' = [] → σ'.read = none → Unread s' a := by
    intro hnone hread'
    rw [hnone,List.append_nil] at hhistory
    refine h.keep hhistory fun payload' σ'' hi' => Or.inr ?_
    rw [((hto payload' σ'').mp hi').2]
    exact hread'
  cases hmove with
  | loadAgent _ => exact hnext rfl rfl
  | loadMandate => exact hnext rfl rfl
  | check hpending _ =>
    rw [hpending] at hload
    cases hload
  | _ => cases hread

/-- The agent's own request replaces the pending state. -/
theorem Counts.advance {p : PendingState} {ns : List String} {now : ℕ} (h : Counts store s a)
    (hi : s.Inside a payload (.reserved p ns now))
    (hto : ∀ payload' σ'', s'.Inside a payload' σ'' ↔ payload' = payload ∧ σ'' = .advanced p ns now)
    (hhistory : s'.history a = s.history a)
    (hafter : after (store.advancePendingState a (newPending p payload)) s.files = some s'.files) :
    Counts store s' a := by
  obtain ⟨hres,hle⟩ := h.read payload _ p hi rfl
  obtain ⟨_,hwrite⟩ := after_eq_some_iff.mp hafter
  obtain ⟨honly,hfile⟩ := atomicWriteJson_place isPlain_pendingState hwrite
  have hnew : ∀ q, s'.files.fileAt (agentPlace store a "pending_state.json") = some (.pending q) →
      p.lastAcceptedSeq < q.lastAcceptedSeq := by
    intro q hq
    rw [agentPlace,hfile] at hq
    injection hq with hq
    injection hq with hq
    rw [← hq]
    exact Nat.lt_succ_self _
  refine ⟨?_,?_,?_,?_,?_⟩
  · rw [hhistory]
    exact h.increasing
  · exact fun _ => hres.mono honly.dirs
  · intro payload' σ'' p' hi' hp
    obtain ⟨rfl,rfl⟩ := (hto payload' σ'').mp hi'
    obtain rfl := Option.some.inj hp
    rw [hhistory]
    exact ⟨hres.mono honly.dirs,hle⟩
  · intro payload' p' ns' now' hi'
    obtain ⟨-,he⟩ := (hto payload' _).mp hi'
    obtain ⟨rfl,-,-⟩ := Stage.advanced.inj he
    exact hnew
  · rw [hhistory]
    exact fun q hq x hx => (hle x hx).trans (hnew q hq).le

/-- The payment gets the number after the one the request has read. -/
theorem Counts.enqueue {p : PendingState} {ns : List String} {now : ℕ} (h : Counts store s a)
    (hi : s.Inside a payload (.advanced p ns now))
    (hto : ∀ payload' σ'', s'.Inside a payload' σ'' ↔ payload' = payload ∧ σ'' = .queued p ns now)
    (hhistory : s'.history a = s.history a ++ acceptance a payload (.queued p ns now))
    (hkept : PendingKept (agentPlace store a "pending_state.json") s.files s'.files) :
    Counts store s' a := by
  obtain ⟨hres,hle⟩ := h.read payload _ p hi rfl
  have hlast : ∀ x ∈ s'.history a, x.seq ≤ p.lastAcceptedSeq + 1 := by
    intro x hx
    rw [hhistory] at hx
    rcases List.mem_append.mp hx with hold | hnew
    · exact Nat.le_succ_of_le (hle x hold)
    · rw [List.mem_singleton.mp hnew]
  refine ⟨?_,?_,?_,?_,?_⟩
  · rw [hhistory,List.map_append,List.pairwise_append]
    refine ⟨h.increasing,List.pairwise_singleton _ _,?_⟩
    intro n hn m hm
    obtain ⟨x,hx,rfl⟩ := List.mem_map.mp hn
    obtain rfl := List.mem_singleton.mp hm
    exact Nat.lt_succ_of_le (hle x hx)
  · exact fun _ => hres.mono hkept.dirs
  · intro payload' σ'' p' hi' hp
    obtain ⟨rfl,rfl⟩ := (hto payload' σ'').mp hi'
    cases hp
  · intro payload' p' ns' now' hi'
    cases ((hto payload' _).mp hi').2
  · intro q hq x hx
    exact (hlast x hx).trans (h.ahead payload p ns now hi q (hkept.old q hq))

/-- A step of the agent's own request. -/
theorem Counts.stage (h : Counts store s a) (hi : s.Inside a payload σ)
    (hto : ∀ payload' σ'', s'.Inside a payload' σ'' ↔ payload' = payload ∧ σ'' = σ')
    (hhistory : s'.history a = s.history a ++ acceptance a payload σ')
    (hmove : StageMove M store a payload s.files σ σ' s'.files) : Counts store s' a := by
  have hkept : (∀ p ns now, σ ≠ .reserved p ns now) →
      PendingKept (agentPlace store a "pending_state.json") s.files s'.files := fun hne =>
    hmove.pendingKept (fills_of_ne hne)
  have hquiet : (∀ p ns now, σ ≠ .reserved p ns now) → acceptance a payload σ' = [] →
      σ'.Reads store s a → Counts store s' a := by
    intro hne hnone hreads
    rw [hnone,List.append_nil] at hhistory
    refine h.quiet (hkept hne) hhistory ?_
    intro payload' σ'' hi'
    rw [((hto payload' σ'').mp hi').2]
    exact Or.inr hreads
  generalize hfs : s'.files = fs' at hmove
  cases hmove with
  | loadAgent _ => exact hquiet (by simp) rfl (reads_of_none rfl)
  | loadMandate => exact hquiet (by simp) rfl (reads_of_none rfl)
  | check hload _ =>
    obtain ⟨hres,hfile⟩ := loadPendingState_place hload
    refine hquiet (by simp) rfl ⟨?_,by simp⟩
    rintro p ⟨⟩
    exact ⟨hres,h.file _ hfile⟩
  | clear _ _ => exact hquiet (by simp) rfl (h.reads hi rfl (by simp))
  | reserve _ => exact hquiet (by simp) rfl (h.reads hi rfl (by simp))
  | advance hafter =>
    subst hfs
    exact h.advance hi hto (hhistory.trans (List.append_nil _)) hafter
  | enqueue _ => exact h.enqueue hi hto hhistory (hkept (by simp))

theorem resetting_iff : s.Resetting a ↔ ∃ t g, s.registration t = some g ∧ g.Resets a := by
  have hmem : ∀ g, g ∈ s.registrations.reduceOption ↔ ∃ t, s.registration t = some g := by
    intro g
    rw [List.reduceOption_mem_iff,List.mem_iff_getElem?]
    exact exists_congr fun t => Option.join_eq_some_iff.symm
  constructor
  · rintro ⟨g,hg,henrols⟩
    obtain ⟨t,ht⟩ := (hmem g).mp hg
    exact ⟨t,g,ht,henrols⟩
  · rintro ⟨t,g,ht,henrols⟩
    exact ⟨g,(hmem g).mpr ⟨t,ht⟩,henrols⟩

/-- A step in which the agent waits, enters or leaves, and no registration of it begins. -/
theorem Counted.quiet (h : Counted store a s)
    (hkept : PendingKept (agentPlace store a "pending_state.json") s.files s'.files)
    (hhistory : s'.history a = s.history a)
    (hinside : ∀ payload σ, s'.Inside a payload σ → s.Inside a payload σ ∨ σ = .entered)
    (hresetting : s'.Resetting a → s.Resetting a) : Counted store a s' := by
  refine ⟨fun hnew => (h.unread (hresetting hnew)).keep hhistory ?_,
    h.counts.quiet hkept hhistory ?_⟩
  · intro payload σ hi
    rcases hinside payload σ hi with hold | rfl
    · exact Or.inl hold
    · exact Or.inr rfl
  · intro payload σ hi
    rcases hinside payload σ hi with hold | rfl
    · exact Or.inl hold
    · exact Or.inr (reads_of_none rfl)

/-- A registration goes on, or fails. -/
theorem Counted.registration (h : Counted store a s) {t : ℕ} {g : Registering} {o : Option Registering}
    (hg : s.registration t = some g) (hregs : s'.registrations = s.registrations.set t o)
    (ho : ∀ g', o = some g' → g'.Resets a → g.Resets a)
    (hkept : ¬ g.Resets a → PendingKept (agentPlace store a "pending_state.json") s.files s'.files)
    (hhistory : s'.history a = s.history a) (hrequests : s'.requests = s.requests) :
    Counted store a s' := by
  have hinside : ∀ payload σ, s'.Inside a payload σ → s.Inside a payload σ :=
    fun payload σ hi => (inside_congr hrequests).mp hi
  by_cases hself : g.Resets a
  · have hunread := h.unread (resetting_iff.mpr ⟨t,g,hg,hself⟩)
    have hnext := hunread.keep hhistory fun payload σ hi => Or.inl (hinside payload σ hi)
    exact ⟨fun _ => hnext,hnext.counts⟩
  · refine h.quiet (hkept hself) hhistory (fun payload σ hi => Or.inl (hinside payload σ hi)) ?_
    intro hnew
    obtain ⟨t',g',hg',henrols⟩ := resetting_iff.mp hnew
    rw [Server.registration,hregs,thread_set hg] at hg'
    split at hg'
    · exact absurd (ho g' hg' henrols) hself
    · exact resetting_iff.mpr ⟨t',g',hg',henrols⟩

/-- A request of another agent goes on, or fails. -/
theorem Counted.other (h : Counted store a s) {t : ℕ} {r : Request} {o : Option Request}
    (hr : s.request t = some r) (hne : r.agentId ≠ a) (hrequests : s'.requests = s.requests.set t o)
    (ho : ∀ r', o = some r' → r'.agentId = r.agentId)
    (hkept : PendingKept (agentPlace store a "pending_state.json") s.files s'.files)
    (hhistory : s'.history a = s.history a) (hregs : s'.registrations = s.registrations) :
    Counted store a s' := by
  refine h.quiet hkept hhistory ?_ ?_
  · exact fun payload σ hi => Or.inl ((inside_of_stage_other hr hne hrequests ho payload σ).mp hi)
  · rw [Server.Resetting,Server.Resetting,hregs]
    exact id

/-- The agent's own request goes on. -/
theorem Counted.stage (h : Counted store a s) (hi : s.Inside a payload σ)
    (hto : ∀ payload' σ'', s'.Inside a payload' σ'' ↔ payload' = payload ∧ σ'' = σ')
    (hhistory : s'.history a = s.history a ++ acceptance a payload σ')
    (hmove : StageMove M store a payload s.files σ σ' s'.files)
    (hregs : s'.registrations = s.registrations)
    (hsteady : s.Resetting a → (store.loadPendingState a s.files).toOption = none) :
    Counted store a s' := by
  refine ⟨?_,h.counts.stage hi hto hhistory hmove⟩
  rw [Server.Resetting,hregs]
  exact fun hnew => (h.unread hnew).stage hi hto hhistory hmove (hsteady hnew)

/-- A request waits, enters or leaves. -/
theorem Counted.waits (h : Counted store a s) {t : ℕ} {r : Request} {o : Option Request}
    (hr : s.request t = some r) (hrequests : s'.requests = s.requests.set t o)
    (hfiles : s'.files = s.files) (haccepted : s'.accepted = s.accepted)
    (hregs : s'.registrations = s.registrations)
    (ho : ∀ r' m σ, o = some r' → r'.phase = .inside m σ → σ = .entered) : Counted store a s' := by
  refine h.quiet (hfiles ▸ PendingKept.rfl) ?_ ?_ ?_
  · rw [Server.history,Server.history,haccepted]
  · intro payload σ hi
    rcases (inside_set hr hrequests).mp hi with ⟨m,hnew⟩ | ⟨t',-,hi'⟩
    · exact Or.inr (ho _ m σ hnew rfl)
    · exact Or.inl ⟨t',hi'⟩
  · rw [Server.Resetting,Server.Resetting,hregs]
    exact id

/-- A registration begins where nothing is in its way. -/
theorem Counted.begin (h : Counted store a s) {g : Registering}
    (hregs : s'.registrations = s.registrations ++ [some g])
    (habsent : s.files.pathExists (store.agentDir g.record.agentId) = false) (hfiles : s'.files = s.files)
    (hhistory : s'.history a = s.history a) (hrequests : s'.requests = s.requests) :
    Counted store a s' := by
  have hinside : ∀ payload σ, s'.Inside a payload σ → s.Inside a payload σ :=
    fun payload σ hi => (inside_congr hrequests).mp hi
  by_cases ha : g.record.agentId = a
  · have hunread := (h.counts.unread (ha ▸ habsent)).keep hhistory
      fun payload σ hi => Or.inl (hinside payload σ hi)
    exact ⟨fun _ => hunread,hunread.counts⟩
  · refine h.quiet (hfiles ▸ PendingKept.rfl) hhistory (fun payload σ hi => Or.inl (hinside payload σ hi)) ?_
    intro hnew
    obtain ⟨t,g',hg',hresets⟩ := resetting_iff.mp hnew
    rw [Server.registration,hregs] at hg'
    rcases thread_append hg' with hold | ⟨-,rfl⟩
    · exact resetting_iff.mpr ⟨t,g',hold,hresets⟩
    · exact absurd hresets.1 ha

/-- An operation of a registration that is not about to replace the agent's pending state. -/
theorem CountedInv.op (h : CountedInv store a s) {t : ℕ} {g : Registering} {op : RegisterOp}
    {rest : List RegisterOp} (hg : s.registration t = some g) (htodo : g.todo = op :: rest)
    (hself : ¬ g.Resets a) :
    op.run.Steps (Keeps (SameAt (agentPlace store a "pending_state.json") s.files)) s.files := by
  have hop : op ∈ g.todo := htodo ▸ List.mem_cons_self
  refine registerOp_pendingKept ?_ (h.enrolling t g hg op hop)
  rcases h.registrations t g hg with hid | hapart
  · right
    rw [← Bool.not_eq_true]
    exact fun hisPending => hself ⟨hid,List.any_eq_true.mpr ⟨op,hop,hisPending⟩⟩
  · exact Or.inl hapart

/-- What a step makes of the requests that go by the agent's pending state. -/
theorem CountedInv.counted_move (h : CountedInv store a s) (hsteady : s.Steady store a act)
    (hmove : Move M store maxSize s act s') : Counted store a s' := by
  cases hmove with
  | stay => exact h.counted
  | begin habsent => exact h.counted.begin rfl habsent rfl rfl rfl
  | registration hg htodo hafter =>
    refine h.counted.registration hg rfl ?_ (fun hself => pendingKept_of_keeps
      (after_keeps (h.op hg htodo hself) hafter)) rfl rfl
    rintro g' hrest ⟨hid,hany⟩
    obtain ⟨rfl,-⟩ := Registering.rest_eq_some hrest
    obtain ⟨op,hop,hisPending⟩ := List.any_eq_true.mp hany
    exact ⟨hid,List.any_eq_true.mpr ⟨op,List.mem_of_mem_tail hop,hisPending⟩⟩
  | registrationFails hg htodo hcut =>
    refine h.counted.registration hg rfl ?_ (fun hself => pendingKept_of_keeps
      ((h.op hg htodo hself).failed hcut)) rfl rfl
    rintro g' ⟨⟩
  | arrive =>
    refine h.counted.quiet PendingKept.rfl rfl ?_ id
    exact fun payload σ hi => Or.inl ((inside_of_arrive rfl).1 payload σ hi)
  | miss hr _ | find hr _ _ | insert hr _ =>
    refine h.counted.waits hr rfl rfl rfl rfl ?_
    rintro r' m σ ⟨⟩ hφ
    cases hφ
  | acquire hr _ _ =>
    refine h.counted.waits hr rfl rfl rfl rfl ?_
    rintro r' m σ ⟨⟩ hφ
    injection hφ with _ hσ
    exact hσ.symm
  | leave hr _ _ =>
    refine h.counted.waits hr rfl rfl rfl rfl ?_
    rintro r' m σ ⟨⟩
  | @stage t now r m σ σ' fs' hr hp hstage =>
    by_cases ha : r.agentId = a
    · subst ha
      refine h.counted.stage ⟨t,insideAt_of_phase hr hp⟩ (inside_iff_of_stage h.lock hr hp rfl) ?_
        hstage rfl fun hresetting => hsteady hresetting r hr rfl
      exact (history_append rfl).trans (by rw [if_pos rfl])
    · have hapart := (h.requests t r hr).resolve_left ha
      refine h.counted.other hr ha rfl ?_ (hstage.pendingKept hapart.fills) ?_ rfl
      · rintro r' ⟨⟩
        rfl
      · exact (history_append rfl).trans (by rw [if_neg ha,List.append_nil])
  | @requestFails t now steps r m σ fs' hr hp hcut =>
    by_cases ha : r.agentId = a
    · subst ha
      refine h.counted.quiet hcut.pendingKept rfl ?_ id
      intro payload σ hi
      rcases (inside_set hr rfl).mp hi with ⟨m,ho⟩ | ⟨t',-,hi'⟩
      · cases ho
      · exact Or.inl ⟨t',hi'⟩
    · refine h.counted.other hr ha rfl ?_ hcut.pendingKept rfl rfl
      rintro r' ⟨⟩
  | work _ hwork =>
    refine h.counted.quiet (pendingKept_of_keeps (hwork.keeps (silent_sameAt _ _) keptByMove_sameAt
      fun _ _ _ _ _ => sameAt_queued _ _)) rfl (fun _ _ hi => Or.inl hi) id
  | workFails hwork =>
    refine h.counted.quiet (pendingKept_of_keeps (hwork.keeps (silent_sameAt _ _) keptByMove_sameAt
      fun _ _ _ _ _ => sameAt_queued _ _)) rfl (fun _ _ hi => Or.inl hi) id
  | restart _ hidle =>
    refine h.counted.quiet PendingKept.rfl rfl ?_ ?_
    · rintro payload σ ⟨t,m,hm⟩
      exact absurd hm (request_ne rfl)
    · rintro ⟨g,hg,-⟩
      cases hg

theorem CountedInv.move (h : CountedInv store a s) (hact : act.Apart store a)
    (hsteady : s.Steady store a act) (hmove : Move M store maxSize s act s') :
    CountedInv store a s' := by
  refine ⟨h.lock.move hmove,h.enrolling.move hmove,?_,?_,h.counted_move hsteady hmove⟩
  · refine hmove.requests_all (P := fun b _ => b = a ∨ Apart store a b) h.requests ?_
    rintro b payload rfl
    exact hact
  · refine hmove.registrations_all (P := fun _ g => g.record.agentId = a ∨ Apart store a g.record.agentId)
      h.registrations ?_ ?_
    · rintro req now rfl -
      exact hact
    · intro t g g' hg hrest
      obtain ⟨rfl,-⟩ := Registering.rest_eq_some hrest
      exact h.registrations t g hg

theorem countedInv_start (a : String) (fs : Files) : CountedInv store a (Server.start fs) := by
  have hunread : Unread (Server.start fs) a := by
    refine ⟨rfl,?_⟩
    rintro payload σ ⟨t,m,hm⟩
    exact absurd hm (request_ne rfl)
  refine ⟨lockInv_of_empty rfl rfl,enrolling_start fs,?_,?_,fun _ => hunread,hunread.counts⟩
  · intro t r hr
    exact absurd hr (request_ne rfl)
  · intro t g hg
    exact absurd hg (registration_ne rfl)

end Counted

end MidenX402.Facilitator
