import MidenX402.Facilitator.Serialization

/-!
# Runs from an empty store

What holds throughout a run: of the nullifiers whatever the run, of the chain of every agent where no
two registrations of an agent race, of the accepted payments where no store operation fails.  Where the
nullifiers are plain names too, the files of every agent stay intact and its logs are only appended to.
-/

namespace MidenX402.Facilitator
open Disk KeyedLock

section Reachable
variable {M : Miden} {store : FilesystemX402Store} {maxSize : ℕ} {s s' : Server} {act : Action}
  {acts : List Action} {fs : Files} {a initial : String}

/-- There are no files in the agents' directory. -/
def Fresh (store : FilesystemX402Store) (fs : Files) : Prop :=
  ∀ p, fs.fileAt (store.agentsDir ++ p) = none

theorem Fresh.key (h : Fresh store fs) (a name : String) :
    fs.fileAt (store.keyPath a name) = none := by
  rw [FilesystemX402Store.keyPath,FilesystemX402Store.agentPath,List.append_assoc]
  exact h _

theorem Fresh.content (h : Fresh store fs) (a name : String) :
    store.content fs a name = .lines [] := by
  rw [FilesystemX402Store.content,h.key]
  rfl

/-- What holds under plain agent ids, whatever registrations race and whichever writes fail. -/
structure SharedInv (M : Miden) (store : FilesystemX402Store) (s : Server) : Prop where
  lock : LockInv s
  plain : PlainInv store s
  reserving : ∀ a, Reserving M store s a

structure RunInv (M : Miden) (store : FilesystemX402Store) (s : Server) : Prop
    extends SharedInv M store s where
  sole : SoleInv store s
  enrols : EnrolsNew store s
  agents : ∀ a, AgentInv store s a

theorem fresh_emptyFiles : Fresh sampleStore emptyFiles := by
  intro p
  rw [FileSystem.fileAt]
  by_cases h : sampleStore.agentsDir ++ p = ["data"] ∨ sampleStore.agentsDir ++ p = ["data","agents"]
  · rw [show emptyFiles.node (sampleStore.agentsDir ++ p) = some .dir from if_pos h]
  · rw [show emptyFiles.node (sampleStore.agentsDir ++ p) = none from if_neg h]

deriving instance DecidableEq for Acceptance

/-- A registration from its check to its last operation. -/
def sampleRegister (thread : ℕ) (a : String) : List Action :=
  .register (sampleRegistration a) 0 :: List.replicate 10 (.registration thread)

/-- A payment from its arrival to its answer. -/
def samplePay (thread steps : ℕ) (a : String) (payload : AgenticPayload) : List Action :=
  .arrive a payload :: List.replicate steps (.request thread 7)

theorem not_inside_start (fs : Files) (a : String) (payload : AgenticPayload) (σ : Stage) :
    ¬ (Server.start fs).Inside a payload σ := by
  rintro ⟨t,m,hm⟩
  exact absurd hm (request_ne rfl)

theorem sharedInv_start (fs : Files) : SharedInv M store (Server.start fs) := by
  refine ⟨lockInv_of_empty rfl rfl,⟨?_,fun b hb => absurd hb List.not_mem_nil,?_⟩,fun a =>
    ⟨fun x hx => absurd hx List.not_mem_nil,List.Pairwise.nil,fun x hx => absurd hx List.not_mem_nil,
      fun payload σ hi => absurd hi (not_inside_start fs a payload σ)⟩⟩
  · intro t r hr
    exact absurd hr (request_ne rfl)
  · intro t g hg
    exact absurd hg (registration_ne rfl)

theorem SharedInv.move (h : SharedInv M store s) (hact : act.PlainId)
    (hmove : Move M store maxSize s act s') : SharedInv M store s' :=
  ⟨h.lock.move hmove,h.plain.move hmove hact,
    fun a => (h.reserving a).move (hmove.agent h.lock h.plain a)⟩

theorem sharedInv_run (hids : ∀ act ∈ acts, act.PlainId)
    (hrun : (Server.start fs).run M store maxSize acts = some s) : SharedInv M store s :=
  run_invariant (fun hs hact hmove => SharedInv.move hs hact hmove) (sharedInv_start fs) hids hrun

theorem soleInv_start (fs : Files) : SoleInv store (Server.start fs) := by
  constructor
  · intro t t' g g' hg
    exact absurd hg (registration_ne rfl)
  · intro t g done hg
    exact absurd hg (registration_ne rfl)

theorem runInv_start (hfresh : Fresh store fs) : RunInv M store (Server.start fs) := by
  refine ⟨sharedInv_start fs,soleInv_start fs,?_,?_⟩
  · intro t g hg
    exact absurd hg (registration_ne rfl)
  · intro a
    refine ⟨?_,rfl,rfl,fun payload σ hi => absurd hi (not_inside_start fs a payload σ)⟩
    intro p hp
    rw [show (Server.start fs).files = fs from rfl,hfresh.content] at hp
    cases hp

theorem RunInv.move (h : RunInv M store s) (hact : act.PlainId) (hsole : s.Unraced store act)
    (hmove : Move M store maxSize s act s') : RunInv M store s' :=
  ⟨h.toSharedInv.move hact hmove,h.sole.move h.lock h.plain hmove hact hsole,
    h.enrols.move h.sole h.lock h.plain h.agents hmove,
    fun a => (h.agents a).move h.sole h.enrols h.plain (hmove.agent h.lock h.plain a)⟩

theorem runInv_run (hfresh : Fresh store fs) (hids : ∀ act ∈ acts, act.PlainId)
    (hsole : (Server.start fs).Along M store maxSize (Server.Unraced store) acts)
    (hrun : (Server.start fs).run M store maxSize acts = some s) : RunInv M store s :=
  run_along (fun hs hact hmove => RunInv.move hs hact.1 hact.2 hmove) (runInv_start hfresh)
    ((along_of_forall fun act h _ => hids act h).and hsole) hrun

theorem RunInv.following (h : RunInv M store s) (hi : s.initialOf a = some initial) :
    Following store s a initial := by
  have ha := h.agents a
  rw [AgentInv,hi] at ha
  exact ha

theorem RunInv.unregistered (h : RunInv M store s) (hi : s.initialOf a = none) :
    Unregistered store s a := by
  have ha := h.agents a
  rw [AgentInv,hi] at ha
  exact ha

/-- The nullifiers a request is about to write are its payload's. -/
theorem SharedInv.stage_nullifiers (h : SharedInv M store s) {payload : AgenticPayload} {σ : Stage}
    (hi : s.Inside a payload σ) : σ.nullifiers ⊆ payloadNullifiers M payload := by
  have hstage := (h.reserving a).stages payload σ hi
  cases σ with
  | checked p ns => exact hstage.2.derived ▸ List.Subset.refl ns
  | clear p ns => exact hstage.1.derived ▸ List.Subset.refl ns
  | reserved p ns now => exact hstage.1.derived ▸ List.Subset.refl ns
  | advanced p ns now => exact hstage.1.derived ▸ List.Subset.refl ns
  | _ => exact List.nil_subset _

end Reachable

section InStep
variable {M : Miden} {store : FilesystemX402Store} {maxSize : ℕ} {s s' : Server} {act : Action}
  {acts : List Action} {fs : Files} {a initial : String}

/-- The payments that moved the pending state are the accepted ones and the one about to be queued. -/
structure InStep (s : Server) (a : String) : Prop where
  ahead : ∀ payload p ns now, s.Inside a payload (.advanced p ns now) →
    s.trail a = s.history a ++ [⟨a,p.lastAcceptedSeq + 1,payload,ns⟩]
  level : (∀ payload p ns now, ¬ s.Inside a payload (.advanced p ns now)) → s.trail a = s.history a

theorem InStep.keep (h : InStep s a) (htrail : s'.trail a = s.trail a)
    (hhistory : s'.history a = s.history a)
    (hinside : ∀ payload σ, s'.Inside a payload σ → s.Inside a payload σ ∨ σ = .entered)
    (hadvanced : ∀ payload p ns now, s.Inside a payload (.advanced p ns now) →
      s'.Inside a payload (.advanced p ns now)) : InStep s' a := by
  constructor
  · intro payload p ns now hi
    rw [htrail,hhistory]
    rcases hinside payload _ hi with hold | hnew
    · exact h.ahead payload p ns now hold
    · cases hnew
  · intro hnone
    rw [htrail,hhistory]
    exact h.level fun payload p ns now hi => hnone payload p ns now (hadvanced payload p ns now hi)

theorem InStep.stage (h : InStep s a) {payload : AgenticPayload} {σ σ' : Stage} {fs fs' : Files}
    (hfrom : ∀ payload' σ'', s.Inside a payload' σ'' ↔ payload' = payload ∧ σ'' = σ)
    (hto : ∀ payload' σ'', s'.Inside a payload' σ'' ↔ payload' = payload ∧ σ'' = σ')
    (htrail : s'.trail a = s.trail a ++ advance a payload σ')
    (hhistory : s'.history a = s.history a ++ acceptance a payload σ')
    (hmove : StageMove M store a payload fs σ σ' fs') : InStep s' a := by
  have hlevel : (∀ p ns now, σ ≠ .advanced p ns now) → s.trail a = s.history a := by
    intro hσ
    exact h.level fun payload' p ns now hi => hσ p ns now ((hfrom _ _).mp hi).2.symm
  have hstill : (∀ p ns now, σ ≠ .advanced p ns now) → (∀ p ns now, σ' ≠ .advanced p ns now) →
      advance a payload σ' = acceptance a payload σ' → InStep s' a := by
    intro hσ hσ' heq
    constructor
    · intro payload' p ns now hi
      exact absurd ((hto _ _).mp hi).2.symm (hσ' p ns now)
    · intro _
      rw [htrail,hhistory,hlevel hσ,heq]
  cases hmove with
  | loadAgent _ => exact hstill (fun _ _ _ => nofun) (fun _ _ _ => nofun) rfl
  | loadMandate => exact hstill (fun _ _ _ => nofun) (fun _ _ _ => nofun) rfl
  | check _ _ => exact hstill (fun _ _ _ => nofun) (fun _ _ _ => nofun) rfl
  | clear _ _ => exact hstill (fun _ _ _ => nofun) (fun _ _ _ => nofun) rfl
  | reserve _ => exact hstill (fun _ _ _ => nofun) (fun _ _ _ => nofun) rfl
  | @advance p ns now _ _ =>
    constructor
    · intro payload' p' ns' now' hi
      obtain ⟨rfl,hσ⟩ := (hto _ _).mp hi
      obtain ⟨rfl,rfl,rfl⟩ := Stage.advanced.inj hσ
      rw [htrail,hhistory,hlevel fun _ _ _ => nofun]
      exact congrArg (· ++ _) (List.append_nil _).symm
    · intro hnone
      exact absurd ((hto payload _).mpr ⟨rfl,rfl⟩) (hnone payload p ns now)
  | @enqueue p ns now _ _ =>
    constructor
    · intro payload' p' ns' now' hi
      cases ((hto _ _).mp hi).2
    · intro _
      rw [htrail,hhistory,h.ahead payload p ns now ((hfrom _ _).mpr ⟨rfl,rfl⟩)]
      exact List.append_nil _

theorem InStep.move (h : InStep s a) (hmove : AgentMove M store a s s' false) : InStep s' a := by
  generalize hbroke : false = broke at hmove
  cases hmove with
  | quiet _ htrail hhistory _ _ hinside hadvanced => exact h.keep htrail hhistory hinside hadvanced
  | register _ _ _ _ _ _ _ htrail hhistory hinside _ =>
    exact h.keep htrail hhistory (fun payload σ hi => Or.inl ((hinside payload σ).mp hi))
      fun payload p ns now hi => (hinside payload _).mpr hi
  | stage _ hfrom hto _ htrail hhistory hstage => exact h.stage hfrom hto htrail hhistory hstage
  | cut => cases hbroke

structure ServerInv (M : Miden) (store : FilesystemX402Store) (s : Server) : Prop
    extends RunInv M store s where
  step : ∀ a, InStep s a

theorem serverInv_start (hfresh : Fresh store fs) : ServerInv M store (Server.start fs) := by
  refine ⟨runInv_start hfresh,fun a => ⟨?_,fun _ => rfl⟩⟩
  exact fun payload p ns now hi => absurd hi (not_inside_start fs a payload _)

theorem ServerInv.move (h : ServerInv M store s) (hact : act.PlainId) (hsole : s.Unraced store act)
    (hfails : act.fails = false) (hmove : Move M store maxSize s act s') : ServerInv M store s' := by
  refine ⟨h.toRunInv.move hact hsole hmove,fun a => ?_⟩
  have hagent := hmove.agent h.lock h.plain a
  rw [hfails] at hagent
  exact (h.step a).move hagent

theorem serverInv_run (hfresh : Fresh store fs) (hids : ∀ act ∈ acts, act.PlainId)
    (hfails : ∀ act ∈ acts, act.fails = false)
    (hsole : (Server.start fs).Along M store maxSize (Server.Unraced store) acts)
    (hrun : (Server.start fs).run M store maxSize acts = some s) : ServerInv M store s :=
  run_along (fun hs hact hmove => ServerInv.move hs hact.1.1 hact.2 hact.1.2 hmove)
    (serverInv_start hfresh)
    ((along_of_forall fun act h _ => And.intro (hids act h) (hfails act h)).and hsole) hrun

/-- The accepted payments of an agent are its chain, but for the one about to be queued. -/
theorem ServerInv.chained (h : ServerInv M store s) (hi : s.initialOf a = some initial) :
    Ledger.Chained initial 0 (s.ledger a) := by
  have hchain := (h.following hi).chained
  by_cases hsome : ∃ payload p ns now, s.Inside a payload (.advanced p ns now)
  · obtain ⟨payload,p,ns,now,hin⟩ := hsome
    rw [Server.chain,(h.step a).ahead payload p ns now hin,List.map_append] at hchain
    exact hchain.of_append.1
  · rw [Server.chain,(h.step a).level fun payload p ns now hin =>
      hsome ⟨payload,p,ns,now,hin⟩] at hchain
    exact hchain

theorem ServerInv.seqs (h : ServerInv M store s) (a : String) :
    (s.history a).map Acceptance.seq = List.range' 1 (s.history a).length := by
  cases hi : s.initialOf a with
  | none =>
    rw [(h.unregistered hi).history]
    rfl
  | some initial =>
    have hseq := (h.chained hi).map_seq
    rw [Server.ledger,List.map_map,List.length_map] at hseq
    exact hseq

/-- The payment about to be queued is the next one. -/
theorem ServerInv.next_seq (h : ServerInv M store s) {payload : AgenticPayload} {p : PendingState}
    {ns : List String} {now : ℕ} (hin : s.Inside a payload (.advanced p ns now)) :
    p.lastAcceptedSeq = (s.history a).length := by
  cases hi : s.initialOf a with
  | none => cases (h.unregistered hi).loading payload _ hin
  | some initial =>
    have hseq := (h.following hi).chained.map_seq
    rw [Server.chain,(h.step a).ahead payload p ns now hin,List.map_map,List.length_map,
      List.length_append,List.length_singleton,List.range'_concat,List.map_append] at hseq
    have hlast := List.append_inj_right' hseq rfl
    have := List.singleton_inj.mp hlast
    simp only [Function.comp_apply,Acceptance.entry] at this
    omega

end InStep

section Logs
variable {M : Miden} {store : FilesystemX402Store} {a : String} {fs fs' fs'' : Files}

/-- What a reader finds in the files a payment needs. -/
structure Decodes (store : FilesystemX402Store) (a : String) (registered : Bool) (fs : Files) :
    Prop where
  pending : registered = true → ∃ p, store.content fs a "pending_state.json" = .pending p
  wal : ∃ es, store.content fs a "nullifiers.wal" = .lines es
  spent : ∃ es, store.content fs a "nullifiers.spent" = .lines es

/-- No directory is in the place of a log. -/
structure Viewable (store : FilesystemX402Store) (a : String) (fs : Files) : Prop where
  wal : fs.isDir (store.keyPath a "nullifiers.wal") = false
  spent : fs.isDir (store.keyPath a "nullifiers.spent") = false

/-- A log is only appended to. -/
def LogGrows (store : FilesystemX402Store) (a name : String) (fs fs' : Files) : Prop :=
  ∀ es, store.content fs a name = .lines es →
    ∃ es', store.content fs' a name = .lines es' ∧ es <+: es'

structure LogsGrow (store : FilesystemX402Store) (a : String) (fs fs' : Files) : Prop where
  wal : LogGrows store a "nullifiers.wal" fs fs'
  spent : LogGrows store a "nullifiers.spent" fs fs'
  viewable : Viewable store a fs → Viewable store a fs'

theorem LogGrows.of_same {name : String} (h : store.content fs' a name = store.content fs a name) :
    LogGrows store a name fs fs' := fun es hes => ⟨es,h.trans hes,List.prefix_rfl⟩

theorem LogGrows.trans {name : String} (h : LogGrows store a name fs fs')
    (h' : LogGrows store a name fs' fs'') : LogGrows store a name fs fs'' := by
  intro es hes
  obtain ⟨es1,hes1,hpre1⟩ := h es hes
  obtain ⟨es2,hes2,hpre2⟩ := h' es1 hes1
  exact ⟨es2,hes2,hpre1.trans hpre2⟩

theorem LogsGrow.trans (h : LogsGrow store a fs fs') (h' : LogsGrow store a fs' fs'') :
    LogsGrow store a fs fs'' :=
  ⟨h.wal.trans h'.wal,h.spent.trans h'.spent,fun hv => h'.viewable (h.viewable hv)⟩

section Kept
variable {names ns : List String} {registered : Bool}

theorem LogsGrow.of_kept (h : KeysKept store a names ns fs fs') (hns : ∀ n ∈ ns, IsPlain n)
    (hwal : "nullifiers.wal" ∈ names) (hspent : "nullifiers.spent" ∈ names) :
    LogsGrow store a fs fs' := by
  refine ⟨.of_same (h.same hns _ hwal),.of_same (h.same hns _ hspent),?_⟩
  exact fun hv => ⟨h.places hns _ hwal hv.wal,h.places hns _ hspent hv.spent⟩

theorem Decodes.of_kept (hd : Decodes store a registered fs)
    (h : KeysKept store a stateFiles ns fs fs') (hns : ∀ n ∈ ns, IsPlain n) :
    Decodes store a registered fs' := by
  refine ⟨?_,?_,?_⟩
  · rw [h.same hns _ (by decide)]
    exact hd.pending
  · rw [h.same hns _ (by decide)]
    exact hd.wal
  · rw [h.same hns _ (by decide)]
    exact hd.spent

end Kept

theorem StageMove.logs {payload : AgenticPayload} {σ σ' : Stage} {registered : Bool}
    (hmove : StageMove M store a payload fs σ σ' fs') (ha : IsPlain a)
    (hns : ∀ n ∈ σ.nullifiers, IsPlain n) (hd : Decodes store a registered fs) :
    Decodes store a registered fs' ∧ LogsGrow store a fs fs' := by
  have hnil : ∀ n ∈ ([] : List String), IsPlain n := fun n hn => absurd hn List.not_mem_nil
  have hstill : KeysKept store a stateFiles σ.nullifiers fs fs' →
      Decodes store a registered fs' ∧ LogsGrow store a fs fs' := fun h =>
    ⟨hd.of_kept h hns,.of_kept h hns (by decide) (by decide)⟩
  cases hmove with
  | @reserve p ns now _ hafter =>
    obtain ⟨_,hexec⟩ := after_eq_some_iff.mp hafter
    have hkeys : KeysKept store a ["pending_state.json","nullifiers.spent"] [] fs fs' :=
      (reserveNullifiers_keys ha (by decide) fun name hname => Or.inr (by
        rintro rfl
        exact absurd hname (by decide))).exec hexec
    have hwal := (reserveNullifiers_spec ha hafter).2
    obtain ⟨es,hes⟩ := hd.wal
    have happend : store.content fs' a "nullifiers.wal" = .lines (es ++ walEntries p ns now) := by
      rw [FilesystemX402Store.content,FilesystemX402Store.keyPath] at hes
      rw [content_of_fileAt hwal,hes,foldl_append_lines]
    refine ⟨⟨?_,⟨_,happend⟩,?_⟩,?_,?_,?_⟩
    · rw [hkeys.same hnil _ (by decide)]
      exact hd.pending
    · rw [hkeys.same hnil _ (by decide)]
      exact hd.spent
    · intro es' hes'
      obtain rfl := Content.lines.inj (hes.symm.trans hes')
      exact ⟨_,happend,List.prefix_append ..⟩
    · exact .of_same (hkeys.same hnil _ (by decide))
    · intro hv
      refine ⟨?_,hkeys.places hnil _ (by decide) hv.spent⟩
      rw [← Bool.not_eq_true]
      intro hisdir
      rw [FilesystemX402Store.keyPath] at hisdir
      rw [FileSystem.fileAt_eq_none_of_isDir (by simp) hisdir] at hwal
      cases hwal
  | advance hafter =>
    obtain ⟨_,hexec⟩ := after_eq_some_iff.mp hafter
    have hkeys : KeysKept store a ["nullifiers.wal","nullifiers.spent"] [] fs fs' :=
      (advancePendingState_keys ha (by decide) fun name hname => Or.inr (by
        rintro rfl
        exact absurd hname (by decide))).exec hexec
    refine ⟨⟨fun _ => ⟨_,content_of_fileAt (advancePendingState_spec ha hafter).2⟩,?_,?_⟩,
      .of_kept hkeys hnil (by decide) (by decide)⟩
    · rw [hkeys.same hnil _ (by decide)]
      exact hd.wal
    · rw [hkeys.same hnil _ (by decide)]
      exact hd.spent
  | enqueue hafter =>
    obtain ⟨_,hexec⟩ := after_eq_some_iff.mp hafter
    exact hstill ((enqueue_keys ha (by decide)).exec hexec)
  | _ => exact hstill (Std.Refl.refl _)

end Logs

section Intact
variable {M : Miden} {store : FilesystemX402Store} {maxSize : ℕ} {s s' : Server} {act : Action}
  {acts : List Action} {fs : Files} {a initial : String}

/-- Agent ids and nullifiers that are names of files. -/
def Action.Plain (M : Miden) : Action → Prop
  | .register req _ => IsPlain req.agentId
  | .arrive a payload => IsPlain a ∧ ∀ n ∈ payloadNullifiers M payload, IsPlain n
  | _ => True

instance (act : Action) : Decidable (act.Plain M) :=
  match act with
  | .register req _ => inferInstanceAs (Decidable (IsPlain req.agentId))
  | .arrive a payload =>
    inferInstanceAs (Decidable (IsPlain a ∧ ∀ n ∈ payloadNullifiers M payload, IsPlain n))
  | .registration _ | .registrationFails _ _ | .request _ _ | .requestFails _ _ _ | .tick _
  | .work _ _ | .workFails _ _ | .lookup _ _ | .restart => isTrue trivial

theorem Action.Plain.plainId (h : act.Plain M) : act.PlainId := by
  cases act with
  | register _ _ => exact h
  | arrive _ _ => exact h.1
  | _ => trivial

/-- The stages from which on the view of the agent was read. -/
def Stage.viewed : Stage → Bool
  | .clear _ _ | .reserved _ _ _ | .advanced _ _ _ => true
  | _ => false

/-- The files of an agent decode, and its view can be read once a payment came past it. -/
structure Intact (store : FilesystemX402Store) (s : Server) (a : String) : Prop where
  decodes : Decodes store a (s.initialOf a).isSome s.files
  accepted : s.history a ≠ [] → Viewable store a s.files
  viewed : ∀ payload σ, s.Inside a payload σ → σ.viewed = true → Viewable store a s.files

structure IntactInv (M : Miden) (store : FilesystemX402Store) (s : Server) : Prop where
  server : ServerInv M store s
  payloads : ∀ t r, s.request t = some r → ∀ n ∈ payloadNullifiers M r.payload, IsPlain n
  files : ∀ a, Intact store s a

theorem IntactInv.stage_plain (h : IntactInv M store s) {payload : AgenticPayload} {σ : Stage}
    (hi : s.Inside a payload σ) : ∀ n ∈ σ.nullifiers, IsPlain n := by
  intro n hn
  obtain ⟨t,m,hm⟩ := id hi
  exact h.payloads t _ hm n (h.server.stage_nullifiers hi hn)

theorem Intact.keep (h : Intact store s a) (hd : Decodes store a (s'.initialOf a).isSome s'.files)
    (hgrow : LogsGrow store a s.files s'.files) (hhistory : s'.history a = s.history a)
    (hinside : ∀ payload σ, s'.Inside a payload σ → s.Inside a payload σ ∨ σ = .entered) :
    Intact store s' a := by
  refine ⟨hd,?_,?_⟩
  · rw [hhistory]
    exact fun hne => hgrow.viewable (h.accepted hne)
  · intro payload σ hi hσ
    rcases hinside payload σ hi with hold | rfl
    · exact hgrow.viewable (h.viewed payload σ hold hσ)
    · cases hσ

theorem IntactInv.stage (h : IntactInv M store s) {payload : AgenticPayload} {σ σ' : Stage}
    (ha : IsPlain a) (hfrom : ∀ payload' σ'', s.Inside a payload' σ'' ↔ payload' = payload ∧ σ'' = σ)
    (hto : ∀ payload' σ'', s'.Inside a payload' σ'' ↔ payload' = payload ∧ σ'' = σ')
    (hinitial : s'.initialOf a = s.initialOf a)
    (hhistory : s'.history a = s.history a ++ acceptance a payload σ')
    (hmove : StageMove M store a payload s.files σ σ' s'.files) :
    Intact store s' a ∧ LogsGrow store a s.files s'.files := by
  have hin := (hfrom payload σ).mpr ⟨rfl,rfl⟩
  obtain ⟨hd,hgrow⟩ := hmove.logs ha (h.stage_plain hin) (h.files a).decodes
  rw [← hinitial] at hd
  have hview : σ'.viewed = true ∨ acceptance a payload σ' ≠ [] → Viewable store a s'.files := by
    intro hor
    cases hσ : σ.viewed with
    | true => exact hgrow.viewable ((h.files a).viewed payload σ hin hσ)
    | false =>
      generalize hfs' : s'.files = fs' at hmove
      cases hmove with
      | clear hview _ =>
        have hdir := ((h.server.reserving a).stages payload _ hin).1
        obtain ⟨_,_,_,_,hwal,hspent,_⟩ := nullifierView_eq_ok ha hdir hview
        exact ⟨hwal,hspent⟩
      | loadAgent _ => simp [Stage.viewed,acceptance] at hor
      | loadMandate => simp [Stage.viewed,acceptance] at hor
      | check _ _ => simp [Stage.viewed,acceptance] at hor
      | _ => cases hσ
  refine ⟨⟨hd,?_,?_⟩,hgrow⟩
  · intro hne
    by_cases hacc : acceptance a payload σ' = []
    · rw [hhistory,hacc,List.append_nil] at hne
      exact hgrow.viewable ((h.files a).accepted hne)
    · exact hview (Or.inr hacc)
  · intro payload' σ'' hi hσ''
    obtain ⟨-,rfl⟩ := (hto payload' σ'').mp hi
    exact hview (Or.inl hσ'')

/-- One move, for the files of one agent. -/
theorem IntactInv.agent (h : IntactInv M store s) (hmove : AgentMove M store a s s' false) :
    Intact store s' a ∧ LogsGrow store a s.files s'.files := by
  have hfiles := h.files a
  generalize hbroke : false = broke at hmove
  cases hmove with
  | quiet hinitial _ hhistory hkeys hns hinside _ =>
    have hplain := plain_of_inside hns fun _ _ _ hi => h.stage_plain hi
    have hgrow : LogsGrow store a s.files s'.files := .of_kept hkeys hplain (by decide) (by decide)
    refine ⟨hfiles.keep ?_ hgrow hhistory hinside,hgrow⟩
    rw [hinitial]
    exact hfiles.decodes.of_kept hkeys hplain
  | register _ _ _ _ hpending hkeys _ _ hhistory hinside _ =>
    have hplain : ∀ n ∈ ([] : List String), IsPlain n := fun n hn => absurd hn List.not_mem_nil
    have hgrow : LogsGrow store a s.files s'.files := .of_kept hkeys hplain (by decide) (by decide)
    refine ⟨hfiles.keep ⟨fun _ => ⟨_,content_of_fileAt hpending⟩,?_,?_⟩ hgrow hhistory
      fun payload σ hi => Or.inl ((hinside payload σ).mp hi),hgrow⟩
    · rw [hkeys.same hplain _ (by decide)]
      exact hfiles.decodes.wal
    · rw [hkeys.same hplain _ (by decide)]
      exact hfiles.decodes.spent
  | stage ha hfrom hto hinitial _ hhistory hstage =>
    exact h.stage ha hfrom hto hinitial hhistory hstage
  | cut => cases hbroke

theorem IntactInv.move (h : IntactInv M store s) (hact : act.Plain M) (hsole : s.Unraced store act)
    (hfails : act.fails = false) (hmove : Move M store maxSize s act s') : IntactInv M store s' := by
  refine ⟨h.server.move hact.plainId hsole hfails hmove,?_,fun a => ?_⟩
  · refine hmove.requests_all
      (P := fun _ payload => ∀ n ∈ payloadNullifiers M payload, IsPlain n) h.payloads ?_
    rintro a payload rfl
    exact hact.2
  · have hagent := hmove.agent h.server.lock h.server.plain a
    rw [hfails] at hagent
    exact (h.agent hagent).1

theorem intactInv_start (hfresh : Fresh store fs) : IntactInv M store (Server.start fs) := by
  refine ⟨serverInv_start hfresh,?_,fun a => ⟨⟨?_,⟨[],hfresh.content a _⟩,
    ⟨[],hfresh.content a _⟩⟩,fun hne => absurd rfl hne,?_⟩⟩
  · intro t r hr
    exact absurd hr (request_ne rfl)
  · rintro ⟨⟩
  · exact fun payload σ hi => absurd hi (not_inside_start fs a payload σ)

/-- The condition on the actions of a run in which all names are plain and no operation fails. -/
def Action.Smooth (M : Miden) (act : Action) : Prop := act.Plain M ∧ act.fails = false

instance (act : Action) : Decidable (act.Smooth M) := inferInstanceAs (Decidable (_ ∧ _))

theorem intactInv_run (hfresh : Fresh store fs) (hsmooth : ∀ act ∈ acts, act.Smooth M)
    (hsole : (Server.start fs).Along M store maxSize (Server.Unraced store) acts)
    (hrun : (Server.start fs).run M store maxSize acts = some s) : IntactInv M store s :=
  run_along (fun hs hact hmove => IntactInv.move hs hact.1.1 hact.2 hact.1.2 hmove)
    (intactInv_start hfresh) ((along_of_forall fun act h _ => hsmooth act h).and hsole) hrun

theorem AgentMove.initialOf {broke : Bool} (hmove : AgentMove M store a s s' broke)
    (hi : s.initialOf a = some initial) : s'.initialOf a = some initial := by
  cases hmove with
  | quiet hinitial _ _ _ _ _ _ => exact hinitial.trans hi
  | register _ _ _ _ _ _ hinitial _ _ _ _ =>
    rw [hi,Option.some_or] at hinitial
    exact hinitial
  | stage _ _ _ hinitial _ _ _ => exact hinitial.trans hi
  | cut _ _ _ hinitial _ _ _ => exact hinitial.trans hi

/-- Over any later part of a run an agent stays registered and its logs are only appended to. -/
theorem IntactInv.run (h : IntactInv M store s) (hsmooth : ∀ act ∈ acts, act.Smooth M)
    (hsole : s.Along M store maxSize (Server.Unraced store) acts)
    (hrun : s.run M store maxSize acts = some s') (a : String) :
    IntactInv M store s' ∧ LogsGrow store a s.files s'.files ∧
      ∀ initial, s.initialOf a = some initial → s'.initialOf a = some initial := by
  have hsame : KeysKept store a stateFiles [] s.files s.files := Std.Refl.refl _
  have hrefl : LogsGrow store a s.files s.files :=
    .of_kept hsame (fun n hn => absurd hn List.not_mem_nil) (by decide) (by decide)
  refine run_along (P := fun s' => IntactInv M store s' ∧ LogsGrow store a s.files s'.files ∧
    ∀ initial, s.initialOf a = some initial → s'.initialOf a = some initial)
    ?_ ⟨h,hrefl,fun _ hi => hi⟩ ((along_of_forall fun act h _ => hsmooth act h).and hsole) hrun
  rintro s1 s2 act ⟨hs,hgrow,hinitial⟩ ⟨hact,hunraced⟩ hmove
  have hagent := hmove.agent hs.server.lock hs.server.plain a
  rw [hact.2] at hagent
  refine ⟨hs.move hact.1 hunraced hact.2 hmove,hgrow.trans (hs.agent hagent).2,?_⟩
  exact fun initial hi => hagent.initialOf (hinitial initial hi)

end Intact

end MidenX402.Facilitator
