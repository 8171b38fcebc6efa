import MidenX402.Facilitator.Reservations
import Mathlib.Data.List.ReduceOption

/-!
# Payments of one agent are serialized

The payments that moved the pending state of an agent form a chain from the commitment it was registered
with, and the accepted ones are some of them in their order: all of them where no write fails.
-/

namespace MidenX402.Facilitator
open Disk KeyedLock Rust

section Invariant
variable {M : Miden} {store : FilesystemX402Store} {a initial : String} {s s' : Server}

structure AtTip (initial : String) (es : List (Ledger.Entry String)) (p : PendingState) :
    Prop where
  commitment : p.pendingStateCommitment = Ledger.tip initial es
  seq : p.lastAcceptedSeq = es.length

/-- The chain of states of an agent, whether its payments were accepted in the end or not. -/
def Server.chain (s : Server) (a : String) : List (Ledger.Entry String) :=
  (s.trail a).map Acceptance.entry

/-- What a request inside the mutex knows of the chain. -/
def StageFollows (s : Server) (a initial : String) (payload : AgenticPayload) : Stage → Prop
  | .checked p _ | .clear p _ | .reserved p _ _ =>
    AtTip initial (s.chain a) p ∧ payload.builtOnStateCommitment = Ledger.tip initial (s.chain a)
  | .advanced p ns _ => ∃ xs, s.trail a = xs ++ [⟨a,p.lastAcceptedSeq + 1,payload,ns⟩] ∧
      (s.history a).Sublist xs
  | _ => True

structure Following (store : FilesystemX402Store) (s : Server) (a initial : String) : Prop where
  plain : IsPlain a
  dir : HasDir store s.files a
  chained : Ledger.Chained initial 0 (s.chain a)
  tip : ∀ p, store.content s.files a "pending_state.json" = .pending p → AtTip initial (s.chain a) p
  accepted : (s.history a).Sublist (s.trail a)
  stages : ∀ payload σ, s.Inside a payload σ → StageFollows s a initial payload σ

/-- The stages at which the pending state was not read yet. -/
def Stage.loading : Stage → Bool
  | .entered | .haveRecord _ | .haveMandate _ _ => true
  | _ => false

structure Unregistered (store : FilesystemX402Store) (s : Server) (a : String) : Prop where
  pending : ∀ p, store.content s.files a "pending_state.json" ≠ .pending p
  trail : s.trail a = []
  history : s.history a = []
  loading : ∀ payload σ, s.Inside a payload σ → σ.loading = true

def AgentInv (store : FilesystemX402Store) (s : Server) (a : String) : Prop :=
  match s.initialOf a with
  | none => Unregistered store s a
  | some initial => Following store s a initial

theorem KeysKept.pending {names ns : List String} {fs fs' : Files}
    (hkeys : KeysKept store a names ns fs fs') (hname : "pending_state.json" ∈ names)
    {p : PendingState} (h : store.content fs' a "pending_state.json" = .pending p) :
    store.content fs a "pending_state.json" = .pending p := by
  rcases hkeys.files _ hname with hsame | ⟨seq,hseq⟩
  · exact hsame.symm.trans h
  · rw [hseq] at h
    cases h

theorem StageFollows.congr {payload : AgenticPayload} {σ : Stage}
    (h : StageFollows s a initial payload σ) (htrail : s'.trail a = s.trail a)
    (hhistory : s'.history a = s.history a) : StageFollows s' a initial payload σ := by
  cases σ with
  | advanced p ns now =>
    rw [StageFollows,htrail,hhistory]
    exact h
  | checked p ns =>
    rw [StageFollows,Server.chain,htrail]
    exact h
  | clear p ns =>
    rw [StageFollows,Server.chain,htrail]
    exact h
  | reserved p ns now =>
    rw [StageFollows,Server.chain,htrail]
    exact h
  | _ => trivial

theorem pathExists_of_hasDir {fs : Files} (hdir : HasDir store fs a) (ha : IsPlain a) :
    fs.pathExists (store.agentDir a) = true := by
  have hres : fs.resolveDir [] (components store.agentsDir ++ [a]) = some (store.agentPath a) := by
    rw [components_of_plain (plain_agentsDir store)]
    exact hdir
  rw [agentDir_eq ha,FileSystem.pathExists,FilesystemX402Store.agentPath,dirExists_concat ha hres,
    Bool.true_or]

/-- The chain does not move, and whoever is inside was or has just entered. -/
theorem Following.keep (h : Following store s a initial) (htrail : s'.trail a = s.trail a)
    (hhistory : s'.history a = s.history a)
    (hdirs : ∀ p, s.files.isDir p = true → s'.files.isDir p = true)
    (hpending : ∀ p, store.content s'.files a "pending_state.json" = .pending p →
      store.content s.files a "pending_state.json" = .pending p)
    (hinside : ∀ payload σ, s'.Inside a payload σ → s.Inside a payload σ ∨ σ = .entered) :
    Following store s' a initial := by
  have hchain : s'.chain a = s.chain a := by
    rw [Server.chain,Server.chain,htrail]
  refine ⟨h.plain,h.dir.mono hdirs,hchain ▸ h.chained,?_,?_,?_⟩
  · intro p hp
    rw [hchain]
    exact h.tip p (hpending p hp)
  · rw [htrail,hhistory]
    exact h.accepted
  · intro payload σ hi
    rcases hinside payload σ hi with hold | rfl
    · exact (h.stages payload σ hold).congr htrail hhistory
    · trivial

theorem Unregistered.keep (h : Unregistered store s a) (htrail : s'.trail a = s.trail a)
    (hhistory : s'.history a = s.history a)
    (hpending : ∀ p, store.content s'.files a "pending_state.json" = .pending p →
      store.content s.files a "pending_state.json" = .pending p)
    (hinside : ∀ payload σ, s'.Inside a payload σ → s.Inside a payload σ ∨ σ = .entered) :
    Unregistered store s' a := by
  refine ⟨fun p hp => h.pending p (hpending p hp),htrail.trans h.trail,hhistory.trans h.history,?_⟩
  intro payload σ hi
  rcases hinside payload σ hi with hold | rfl
  · exact h.loading payload σ hold
  · rfl

end Invariant

section Stages
variable {M : Miden} {store : FilesystemX402Store} {a initial : String} {s s' : Server}
  {payload : AgenticPayload} {σ σ' : Stage} {p : PendingState} {ns : List String} {fs fs' : Files}

theorem AtTip.base {record : AgentRecord} {mandate : AgentMandate}
    {es : List (Ledger.Entry String)} (htip : AtTip initial es p)
    (h : checkPayload M record mandate p payload = .ok ns) :
    payload.builtOnStateCommitment = Ledger.tip initial es :=
  (checkPayload_eq_ok h).1.trans htip.commitment

theorem content_of_load (ha : IsPlain a) (h : store.loadPendingState a fs = .ok p) :
    store.content fs a "pending_state.json" = .pending p := content_of_fileAt (loadPendingState_eq_ok ha h)

/-- A step that neither moves the pending state nor queues the payment. -/
theorem Following.goOn (h : Following store s a initial)
    (hto : ∀ payload' σ'', s'.Inside a payload' σ'' ↔ payload' = payload ∧ σ'' = σ')
    (htrail : s'.trail a = s.trail a) (hhistory : s'.history a = s.history a)
    (hdirs : ∀ p, s.files.isDir p = true → s'.files.isDir p = true)
    (hpending : ∀ p, store.content s'.files a "pending_state.json" = .pending p →
      store.content s.files a "pending_state.json" = .pending p)
    (hstage : StageFollows s a initial payload σ') : Following store s' a initial := by
  have hchain : s'.chain a = s.chain a := by
    rw [Server.chain,Server.chain,htrail]
  refine ⟨h.plain,h.dir.mono hdirs,hchain ▸ h.chained,?_,?_,?_⟩
  · intro p hp
    rw [hchain]
    exact h.tip p (hpending p hp)
  · rw [htrail,hhistory]
    exact h.accepted
  · intro payload' σ'' hi
    obtain ⟨rfl,rfl⟩ := (hto payload' σ'').mp hi
    exact hstage.congr htrail hhistory

/-- The write of the pending state adds the payment to the chain. -/
theorem Following.advance {now : ℕ} (h : Following store s a initial)
    (hto : ∀ payload' σ'', s'.Inside a payload' σ'' ↔ payload' = payload ∧ σ'' = .advanced p ns now)
    (htrail : s'.trail a = s.trail a ++ [⟨a,p.lastAcceptedSeq + 1,payload,ns⟩])
    (hhistory : s'.history a = s.history a)
    (hstage : StageFollows s a initial payload (.reserved p ns now))
    (hafter : after (store.advancePendingState a (newPending p payload)) s.files = some s'.files) :
    Following store s' a initial := by
  obtain ⟨htip,hbase⟩ := hstage
  obtain ⟨honly,hfile⟩ := advancePendingState_spec h.plain hafter
  have hchain : s'.chain a = s.chain a ++ [⟨p.lastAcceptedSeq + 1,
      payload.builtOnStateCommitment,payload.newStateCommitment⟩] := by
    rw [Server.chain,htrail,List.map_append]
    rfl
  refine ⟨h.plain,h.dir.mono honly.dirs,?_,?_,?_,?_⟩
  · rw [hchain]
    refine Ledger.chained_append h.chained ?_ hbase
    rw [htip.seq,Nat.zero_add]
  · intro q hq
    rw [content_of_fileAt hfile] at hq
    obtain rfl := Content.pending.inj hq
    rw [hchain]
    constructor
    · rw [Ledger.tip_append]
      rfl
    · rw [List.length_append,← htip.seq]
      rfl
  · rw [htrail,hhistory]
    exact h.accepted.trans (List.sublist_append_left ..)
  · intro payload' σ'' hi
    obtain ⟨rfl,rfl⟩ := (hto payload' σ'').mp hi
    exact ⟨s.trail a,htrail,hhistory ▸ h.accepted⟩

/-- A payment that is queued was the last to move the pending state. -/
theorem Following.enqueue {now : ℕ} (h : Following store s a initial)
    (hto : ∀ payload' σ'', s'.Inside a payload' σ'' ↔ payload' = payload ∧ σ'' = .queued p ns now)
    (htrail : s'.trail a = s.trail a)
    (hhistory : s'.history a = s.history a ++ [⟨a,p.lastAcceptedSeq + 1,payload,ns⟩])
    (hstage : StageFollows s a initial payload (.advanced p ns now))
    (hkeys : KeysKept store a ["pending_state.json"] ns s.files s'.files) :
    Following store s' a initial := by
  have hchain : s'.chain a = s.chain a := by
    rw [Server.chain,Server.chain,htrail]
  obtain ⟨xs,hxs,hsub⟩ := hstage
  refine ⟨h.plain,h.dir.mono hkeys.dirs,hchain ▸ h.chained,?_,?_,?_⟩
  · intro q hq
    rw [hchain]
    exact h.tip q (hkeys.pending List.mem_cons_self hq)
  · rw [htrail,hhistory,hxs]
    exact hsub.append (List.Sublist.refl _)
  · intro payload' σ'' hi
    rw [((hto payload' σ'').mp hi).2]
    trivial

theorem Following.stage (h : Following store s a initial)
    (hfrom : ∀ payload' σ'', s.Inside a payload' σ'' ↔ payload' = payload ∧ σ'' = σ)
    (hto : ∀ payload' σ'', s'.Inside a payload' σ'' ↔ payload' = payload ∧ σ'' = σ')
    (htrail : s'.trail a = s.trail a ++ Facilitator.advance a payload σ')
    (hhistory : s'.history a = s.history a ++ acceptance a payload σ')
    (hmove : StageMove M store a payload s.files σ σ' s'.files) : Following store s' a initial := by
  have ha := h.plain
  have hstage := h.stages payload σ ((hfrom payload σ).mpr ⟨rfl,rfl⟩)
  have htrail' : s.trail a ++ [] = s.trail a := List.append_nil _
  have hhistory' : s.history a ++ [] = s.history a := List.append_nil _
  generalize hfs : s'.files = fs' at hmove
  have hread : fs' = s.files → Facilitator.advance a payload σ' = [] → acceptance a payload σ' = [] →
      StageFollows s a initial payload σ' → Following store s' a initial := by
    rintro rfl hadv hacc hnext
    rw [hadv,htrail'] at htrail
    rw [hacc,hhistory'] at hhistory
    refine h.goOn hto htrail hhistory ?_ ?_ hnext
    · rw [hfs]
      exact fun _ hd => hd
    · rw [hfs]
      exact fun _ hp => hp
  cases hmove with
  | loadAgent _ => exact hread rfl rfl rfl trivial
  | loadMandate => exact hread rfl rfl rfl trivial
  | check hload hcheck =>
    have htip := h.tip _ (content_of_load ha hload)
    exact hread rfl rfl rfl ⟨htip,htip.base hcheck⟩
  | clear _ _ => exact hread rfl rfl rfl hstage
  | reserve hafter =>
    subst hfs
    obtain ⟨_,hexec⟩ := after_eq_some_iff.mp hafter
    have hkeys : KeysKept store a ["pending_state.json"] [] s.files s'.files := by
      refine (reserveNullifiers_keys ha (by decide) fun name hname => Or.inr ?_).exec hexec
      rw [List.mem_singleton.mp hname]
      decide
    exact h.goOn hto (htrail.trans htrail') (hhistory.trans hhistory') hkeys.dirs
      (fun p => hkeys.pending List.mem_cons_self) hstage
  | advance hafter =>
    subst hfs
    exact h.advance hto htrail (hhistory.trans hhistory') hstage hafter
  | enqueue hafter =>
    subst hfs
    obtain ⟨_,hexec⟩ := after_eq_some_iff.mp hafter
    exact h.enqueue hto (htrail.trans htrail') hhistory hstage
      ((enqueue_keys ha (by decide)).exec hexec)

/-- An agent that is not registered gets no further than its record and its mandate. -/
theorem Unregistered.stage (h : Unregistered store s a) (ha : IsPlain a)
    (hfrom : ∀ payload' σ'', s.Inside a payload' σ'' ↔ payload' = payload ∧ σ'' = σ)
    (hto : ∀ payload' σ'', s'.Inside a payload' σ'' ↔ payload' = payload ∧ σ'' = σ')
    (htrail : s'.trail a = s.trail a ++ Facilitator.advance a payload σ')
    (hhistory : s'.history a = s.history a ++ acceptance a payload σ')
    (hmove : StageMove M store a payload s.files σ σ' s'.files) : Unregistered store s' a := by
  have hloading := h.loading payload σ ((hfrom payload σ).mpr ⟨rfl,rfl⟩)
  generalize hfs : s'.files = fs' at hmove
  have hload : fs' = s.files → σ'.loading = true → s'.trail a = s.trail a →
      s'.history a = s.history a → Unregistered store s' a := by
    rintro rfl hnext htrail hhistory
    refine ⟨?_,htrail.trans h.trail,hhistory.trans h.history,?_⟩
    · rw [hfs]
      exact h.pending
    · intro payload' σ'' hi
      rw [((hto payload' σ'').mp hi).2]
      exact hnext
  cases hmove with
  | loadAgent _ =>
    exact hload rfl rfl (htrail.trans (List.append_nil _)) (hhistory.trans (List.append_nil _))
  | loadMandate =>
    exact hload rfl rfl (htrail.trans (List.append_nil _)) (hhistory.trans (List.append_nil _))
  | check hpending _ => exact absurd (content_of_load ha hpending) (h.pending _)
  | _ => cases hloading

/-- A write that fails leaves the pending state, even one of the pending state. -/
theorem StageCut.pending (h : StageCut store a payload fs σ fs') (ha : IsPlain a) :
    KeysKept store a ["pending_state.json"] σ.nullifiers fs fs' := by
  cases h with
  | reserve hcut =>
    refine (reserveNullifiers_keys ha (by decide) fun name hname => Or.inr ?_).reached hcut
    rw [List.mem_singleton.mp hname]
    decide
  | advance hcut =>
    rw [FilesystemX402Store.advancePendingState,FilesystemX402Store.pendingStateFile,
      agentDir_eq ha] at hcut
    exact write_fails_keys ha (by decide) isPlain_pendingState _ _ hcut
  | enqueue hcut => exact (enqueue_keys ha (by decide)).failed hcut

end Stages

section Registrations
variable {M : Miden} {store : FilesystemX402Store} {maxSize : ℕ} {a initial : String}
  {s s' : Server} {act : Action} {broke : Bool}

/-- What registrations under way have made, and that they are alone with their agent. -/
structure SoleInv (store : FilesystemX402Store) (s : Server) : Prop where
  unique : ∀ t t' g g', s.registration t = some g → s.registration t' = some g' →
    g.record.agentId = g'.record.agentId → t = t'
  made : ∀ t g done, s.registration t = some g →
    store.registerOps g.record g.mandate g.initial = done ++ g.todo →
    ∀ raw, .makeDirs raw ∈ done → s.files.resolveDir [] raw = some raw

/-- Until it writes the pending state the agent of a registration is not registered. -/
def EnrolsNew (store : FilesystemX402Store) (s : Server) : Prop :=
  ∀ t g, s.registration t = some g → store.enrolment g.record.agentId g.initial ∈ g.todo →
    s.initialOf g.record.agentId = none

/-- After the write of the pending state only the logs are touched. -/
theorem touch_of_enrolment {g : Registering} {done rest : List RegisterOp}
    (h : store.registerOps g.record g.mandate g.initial =
      done ++ store.enrolment g.record.agentId g.initial :: rest) :
    ∀ op ∈ rest, ∃ raw, op = .touch raw := by
  have hall : (store.registerOps g.record g.mandate g.initial).Pairwise fun x y =>
      x = store.enrolment g.record.agentId g.initial → ∃ raw, y = .touch raw := by
    simp [FilesystemX402Store.registerOps,FilesystemX402Store.enrolment,
      FilesystemX402Store.agentFile,FilesystemX402Store.mandateFile]
  rw [h] at hall
  exact fun op hop => (List.pairwise_cons.mp (List.pairwise_append.mp hall).2.1).1 op hop rfl

theorem SoleInv.resolves (h : SoleInv store s) {t : ℕ} {g : Registering} {rest : List RegisterOp}
    (hplain : PlainInv store s) (hg : s.registration t = some g)
    (htodo : g.todo = store.enrolment g.record.agentId g.initial :: rest) {raw : List String}
    (hraw : .makeDirs raw ∈ store.registerOps g.record g.mandate g.initial) :
    s.files.resolveDir [] raw = some raw := by
  obtain ⟨done,hops⟩ := (hplain.registrations t g hg).ops
  refine h.made t g done hg hops raw ?_
  rw [hops,htodo] at hraw
  rcases List.mem_append.mp hraw with hdone | hrest
  · exact hdone
  · rcases List.mem_cons.mp hrest with heq | hmem
    · cases heq
    · rw [htodo] at hops
      obtain ⟨raw',heq⟩ := touch_of_enrolment hops _ hmem
      cases heq

/-- Whatever step is taken, the directories stay. -/
theorem Move.dirs (hmove : Move M store maxSize s act s') (hlock : LockInv s)
    (hplain : PlainInv store s) : ∀ p, s.files.isDir p = true → s'.files.isDir p = true :=
  (hmove.agent hlock hplain "").dirs

/-- A registration that found no directory has the agent to itself. -/
theorem SoleInv.unseen (h : SoleInv store s) (hplain : PlainInv store s)
    {req : RegisterAgentRequest} {now : ℕ} (hact : IsPlain req.agentId)
    (hsole : s.Unraced store (.register req now))
    (habsent : s.files.pathExists (store.agentDir req.agentId) = false) {t : ℕ} {g : Registering}
    (hg : s.registration t = some g) : g.record.agentId ≠ req.agentId := by
  intro hid
  obtain ⟨done,hops⟩ := (hplain.registrations t g hg).ops
  cases done with
  | nil =>
    have hmem : g ∈ s.registrations.reduceOption := by
      rw [List.reduceOption_mem_iff]
      exact List.mem_of_getElem? (Option.join_eq_some_iff.mp hg)
    apply hsole g hmem
    rw [List.nil_append] at hops
    rw [← hid,← hops]
    rfl
  | cons op done =>
    rw [List.cons_append] at hops
    obtain ⟨hop,-⟩ := List.cons.inj hops
    have hmade := h.made t g (op :: done) hg hops (store.agentDir g.record.agentId)
      (hop ▸ List.mem_cons_self)
    rw [hid,agentDir_eq hact] at hmade
    have hexists : s.files.pathExists (store.agentDir req.agentId) = true :=
      pathExists_of_hasDir hmade hact
    rw [habsent] at hexists
    cases hexists

/-- Where a registration under way comes from. -/
theorem Move.registration_origin (hmove : Move M store maxSize s act s') {t : ℕ} {g : Registering}
    (hg : s'.registration t = some g) :
    (∃ g', s.registration t = some g' ∧ (g = g' ∨ g'.rest = some g ∧
      ∃ op rest, g'.todo = op :: rest ∧ after op.run s.files = some s'.files)) ∨
    ∃ req now, act = .register req now ∧ t = s.registrations.length ∧
      s.files.pathExists (store.agentDir req.agentId) = false ∧
      s'.registered = s.registered ∧ s'.files = s.files ∧
      g = ⟨agentRecord req now,req.mandate,req.initialStateCommitment,
        store.registerOps (agentRecord req now) req.mandate req.initialStateCommitment⟩ := by
  cases hmove with
  | @begin req now habsent =>
    rcases thread_append hg with hold | ⟨ht,rfl⟩
    · exact Or.inl ⟨g,hold,Or.inl rfl⟩
    · exact Or.inr ⟨req,now,rfl,ht,habsent,rfl,rfl,rfl⟩
  | @registration t' g' op rest fs' hg' htodo hafter =>
    rw [Server.registration,Server.setRegistration,thread_set hg'] at hg
    split at hg
    · rename_i ht
      exact Or.inl ⟨g',ht ▸ hg',Or.inr ⟨hg,op,rest,htodo,hafter⟩⟩
    · exact Or.inl ⟨g,hg,Or.inl rfl⟩
  | registrationFails hg' _ _ =>
    rw [Server.registration,Server.setRegistration,thread_set hg'] at hg
    split at hg
    · cases hg
    · exact Or.inl ⟨g,hg,Or.inl rfl⟩
  | restart _ _ =>
    exact absurd hg (registration_ne rfl)
  | _ => exact Or.inl ⟨g,hg,Or.inl rfl⟩

theorem origin_record {g g' : Registering} {P : Prop} (h : g = g' ∨ g'.rest = some g ∧ P) :
    g.record = g'.record ∧ g.mandate = g'.mandate ∧ g.initial = g'.initial ∧
      g.todo ⊆ g'.todo := by
  rcases h with rfl | ⟨hrest,-⟩
  · exact ⟨rfl,rfl,rfl,List.Subset.refl _⟩
  · obtain ⟨rfl,-⟩ := Registering.rest_eq_some hrest
    exact ⟨rfl,rfl,rfl,List.tail_subset _⟩

theorem SoleInv.unique_move (h : SoleInv store s) (hplain : PlainInv store s)
    (hmove : Move M store maxSize s act s') (hact : act.PlainId) (hsole : s.Unraced store act) :
    ∀ t t' g g', s'.registration t = some g → s'.registration t' = some g' →
      g.record.agentId = g'.record.agentId → t = t' := by
  intro t t' g g' hg hg' hid
  rcases hmove.registration_origin hg with ⟨g0,hg0,hfrom⟩ | ⟨req,now,rfl,rfl,habsent,-,-,rfl⟩
  · rcases hmove.registration_origin hg' with ⟨g0',hg0',hfrom'⟩ | ⟨req,now,rfl,rfl,habsent,-,-,rfl⟩
    · apply h.unique t t' g0 g0' hg0 hg0'
      rw [← (origin_record hfrom).1,hid,(origin_record hfrom').1]
    · rw [(origin_record hfrom).1] at hid
      exact absurd hid (h.unseen hplain hact hsole habsent hg0)
  · rcases hmove.registration_origin hg' with ⟨g0',hg0',hfrom'⟩ | ⟨_,_,-,rfl,-⟩
    · rw [(origin_record hfrom').1] at hid
      exact absurd hid.symm (h.unseen hplain hact hsole habsent hg0')
    · rfl

/-- A directory made by a registration is there from then on. -/
theorem SoleInv.made_move (h : SoleInv store s) (hlock : LockInv s) (hplain : PlainInv store s)
    (hmove : Move M store maxSize s act s') : ∀ t g done, s'.registration t = some g →
      store.registerOps g.record g.mandate g.initial = done ++ g.todo →
      ∀ raw, .makeDirs raw ∈ done → s'.files.resolveDir [] raw = some raw := by
  have hdirs := hmove.dirs hlock hplain
  intro t g done hg hops raw hraw
  rcases hmove.registration_origin hg with ⟨g0,hg0,rfl | ⟨hrest,op,rest,htodo,hafter⟩⟩ |
    ⟨_,_,-,-,-,-,-,rfl⟩
  · exact resolveDir_mono hdirs (h.made t g done hg0 hops raw hraw)
  · obtain ⟨rfl,-⟩ := Registering.rest_eq_some hrest
    obtain ⟨done0,hops0⟩ := (hplain.registrations t g0 hg0).ops
    have hdone : done = done0 ++ [op] := by
      have heq : done ++ rest = done0 ++ [op] ++ rest := by
        rw [List.append_assoc,List.singleton_append,← htodo,← hops0,hops,htodo,List.tail_cons]
      exact List.append_cancel_right heq
    rw [hdone] at hraw
    rcases List.mem_append.mp hraw with hold | hnew
    · exact resolveDir_mono hdirs (h.made t g0 done0 hg0 hops0 raw hold)
    · obtain rfl := List.mem_singleton.mp hnew
      obtain ⟨u,hexec⟩ := after_eq_some_iff.mp hafter
      have henrols := hplain.registrations t g0 hg0
      rcases registerOp_cases henrols.plain (henrols.mem_ops (htodo ▸ List.mem_cons_self)) with
        ⟨p,-,hp,heq⟩ | ⟨_,_,-,heq⟩ | ⟨_,heq⟩
      · obtain rfl := RegisterOp.makeDirs.inj heq
        exact (makeDirs_spec hp hexec).2
      · cases heq
      · cases heq
  · rw [List.self_eq_append_left] at hops
    rw [hops] at hraw
    cases hraw

/-- What a registration still has to do once it has written the pending state. -/
theorem enrolment_notMem_rest {g g' : Registering} {rest : List RegisterOp} (henrols : Enrols store g)
    (htodo : g.todo = store.enrolment g.record.agentId g.initial :: rest) (hrest : g.rest = some g') :
    store.enrolment g'.record.agentId g'.initial ∉ g'.todo := by
  intro hmem
  obtain ⟨rfl,-⟩ := Registering.rest_eq_some hrest
  obtain ⟨done,hops⟩ := henrols.ops
  rw [htodo] at hops hmem
  obtain ⟨raw,hraw⟩ := touch_of_enrolment hops _ hmem
  cases hraw

theorem EnrolsNew.move (h : EnrolsNew store s) (hsole : SoleInv store s) (hlock : LockInv s)
    (hplain : PlainInv store s) (hagents : ∀ a, AgentInv store s a)
    (hmove : Move M store maxSize s act s') : EnrolsNew store s' := by
  intro t g hg hmem
  rcases hmove.registration_origin hg with ⟨g0,hg0,hfrom⟩ | ⟨req,now,rfl,-,habsent,hregistered,-,rfl⟩
  · obtain ⟨hrecord,-,hinitial,htodo⟩ := origin_record hfrom
    rw [hrecord,hinitial] at hmem
    have hold := h t g0 hg0 (htodo hmem)
    rw [hrecord]
    have hagent := hmove.agent hlock hplain g0.record.agentId
    generalize act.fails = broke at hagent
    cases hagent with
    | quiet hsame _ _ _ _ _ _ => exact hsame.trans hold
    | stage _ _ _ hsame _ _ _ => exact hsame.trans hold
    | cut _ _ _ hsame _ _ _ => exact hsame.trans hold
    | @register t' g' rest _ hg' hid htodo' _ _ _ _ _ _ hrest =>
      obtain rfl := hsole.unique t' t g' g0 hg' hg0 hid
      obtain rfl := Option.some.inj (hg0.symm.trans hg')
      rw [hg] at hrest
      rw [← hrecord,← hinitial] at hmem
      exact absurd hmem (enrolment_notMem_rest (hplain.registrations t' g0 hg0) htodo' hrest.symm)
  · have hsame : s'.initialOf (agentRecord req now).agentId = s.initialOf req.agentId := by
      rw [Server.initialOf,Server.initialOf,hregistered]
      rfl
    rw [hsame]
    cases hi : s.initialOf req.agentId with
    | none => rfl
    | some initial =>
      have hinv := hagents req.agentId
      rw [AgentInv,hi] at hinv
      rw [pathExists_of_hasDir hinv.dir hinv.plain] at habsent
      cases habsent

theorem SoleInv.move (h : SoleInv store s) (hlock : LockInv s) (hplain : PlainInv store s)
    (hmove : Move M store maxSize s act s') (hact : act.PlainId) (hsole : s.Unraced store act) :
    SoleInv store s' :=
  ⟨h.unique_move hplain hmove hact hsole,h.made_move hlock hplain hmove⟩

theorem AgentInv.move (h : AgentInv store s a) (hsole : SoleInv store s) (hnew : EnrolsNew store s)
    (hplain : PlainInv store s) (hmove : AgentMove M store a s s' broke) : AgentInv store s' a := by
  have hdirs := hmove.dirs
  cases hi : s.initialOf a with
  | none =>
    rw [AgentInv,hi] at h
    cases hmove with
    | quiet hsame htrail hhistory hkeys _ hinside _ =>
      rw [AgentInv,hsame,hi]
      exact h.keep htrail hhistory (fun p => hkeys.pending (by decide)) hinside
    | stage ha hfrom hto hsame htrail hhistory hstage =>
      rw [AgentInv,hsame,hi]
      exact h.stage ha hfrom hto htrail hhistory hstage
    | cut ha _ hgone hsame htrail hhistory hcut =>
      rw [AgentInv,hsame,hi]
      exact h.keep htrail hhistory (fun p => (hcut.pending ha).pending List.mem_cons_self)
        fun payload σ hin => absurd hin (hgone payload σ)
    | register ha hg hid htodo hpending hkeys hinitial htrail hhistory hinside _ =>
      rw [hi,Option.none_or] at hinitial
      rw [AgentInv,hinitial]
      subst hid
      refine ⟨ha,?_,?_,?_,?_,?_⟩
      · have hdir := hsole.resolves hplain hg htodo List.mem_cons_self
        rw [agentDir_eq ha] at hdir
        exact HasDir.mono hdir hdirs
      · rw [Server.chain,htrail,h.trail]
        trivial
      · intro p hp
        rw [content_of_fileAt hpending] at hp
        obtain rfl := Content.pending.inj hp
        rw [Server.chain,htrail,h.trail]
        exact ⟨rfl,rfl⟩
      · rw [hhistory,h.history]
        exact List.nil_sublist _
      · intro payload σ hin
        have hloading := h.loading payload σ ((hinside payload σ).mp hin)
        cases σ with
        | entered => trivial
        | haveRecord _ => trivial
        | haveMandate _ _ => trivial
        | _ => cases hloading
  | some initial =>
    rw [AgentInv,hi] at h
    cases hmove with
    | quiet hsame htrail hhistory hkeys _ hinside _ =>
      rw [AgentInv,hsame,hi]
      exact h.keep htrail hhistory hdirs (fun p => hkeys.pending (by decide)) hinside
    | stage ha hfrom hto hsame htrail hhistory hstage =>
      rw [AgentInv,hsame,hi]
      exact h.stage hfrom hto htrail hhistory hstage
    | cut ha _ hgone hsame htrail hhistory hcut =>
      rw [AgentInv,hsame,hi]
      exact h.keep htrail hhistory hdirs (fun p => (hcut.pending ha).pending List.mem_cons_self)
        fun payload σ hin => absurd hin (hgone payload σ)
    | register _ hg hid htodo _ _ _ _ _ _ _ =>
      subst hid
      have hnone := hnew _ _ hg (htodo ▸ List.mem_cons_self)
      rw [hi] at hnone
      cases hnone

end Registrations

end MidenX402.Facilitator
