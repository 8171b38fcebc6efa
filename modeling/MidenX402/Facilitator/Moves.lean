import MidenX402.Facilitator.Effects

/-!
# The moves of the server

Every step is one of the moves below, with the state it leads to.  Invariants are proved move by
move.
-/

namespace MidenX402.Facilitator
open Disk KeyedLock Rust

/-- A step of a request inside the mutex, with what was read or written. -/
inductive StageMove (M : Miden) (store : FilesystemX402Store) (a : String) (payload : AgenticPayload)
    (fs : Files) : Stage → Stage → Files → Prop
  | loadAgent {record} : store.loadAgent a fs = .ok record →
      StageMove M store a payload fs .entered (.haveRecord record) fs
  | loadMandate {record mandate} :
      StageMove M store a payload fs (.haveRecord record) (.haveMandate record mandate) fs
  | check {record mandate pending nullifiers} : store.loadPendingState a fs = .ok pending →
      checkPayload M record mandate pending payload = .ok nullifiers →
      StageMove M store a payload fs (.haveMandate record mandate) (.checked pending nullifiers) fs
  | clear {pending nullifiers view} : store.nullifierView a fs = .ok view →
      (∀ n ∈ nullifiers, view.contains n = false) →
      StageMove M store a payload fs (.checked pending nullifiers) (.clear pending nullifiers) fs
  | reserve {pending nullifiers now fs'} :
      after (store.reserveNullifiers a (walEntries pending nullifiers now)) fs = some fs' →
      StageMove M store a payload fs (.clear pending nullifiers) (.reserved pending nullifiers now) fs'
  | advance {pending nullifiers now fs'} :
      after (store.advancePendingState a (newPending pending payload)) fs = some fs' →
      StageMove M store a payload fs (.reserved pending nullifiers now)
        (.advanced pending nullifiers now) fs'
  | enqueue {pending nullifiers now fs'} :
      after (store.enqueue a (queuedTx pending payload nullifiers now)) fs = some fs' →
      StageMove M store a payload fs (.advanced pending nullifiers now)
        (.queued pending nullifiers now) fs'

/-- What the write of a stage leaves when it fails. -/
inductive StageCut (store : FilesystemX402Store) (a : String) (payload : AgenticPayload) (fs : Files) :
    Stage → Files → Prop
  | reserve {pending nullifiers now steps fs'} :
      (store.reserveNullifiers a (walEntries pending nullifiers now)).reached steps fs = some fs' →
      StageCut store a payload fs (.clear pending nullifiers) fs'
  | advance {pending nullifiers now steps fs'} :
      (store.advancePendingState a (newPending pending payload)).failed steps fs = some fs' →
      StageCut store a payload fs (.reserved pending nullifiers now) fs'
  | enqueue {pending nullifiers now steps fs'} :
      (store.enqueue a (queuedTx pending payload nullifiers now)).failed steps fs = some fs' →
      StageCut store a payload fs (.advanced pending nullifiers now) fs'

/-- Only the step that queues a payment accepts it. -/
theorem StageMove.acceptance_eq_nil {M : Miden} {store : FilesystemX402Store} {a : String}
    {payload : AgenticPayload} {fs fs' : Files} {σ σ' : Stage}
    (h : StageMove M store a payload fs σ σ' fs')
    (hadv : ¬ ∃ pending nullifiers now, σ = .advanced pending nullifiers now) :
    acceptance a payload σ' = [] := by
  cases h with
  | enqueue _ => exact absurd ⟨_,_,_,rfl⟩ hadv
  | _ => rfl

/-- The stages at which a request can leave with its answer. -/
def Stage.canLeave : Stage → Bool
  | .entered | .haveRecord _ | .haveMandate _ _ | .checked _ _ | .queued _ _ _ => true
  | _ => false

section Stages
variable {M : Miden} {store : FilesystemX402Store} {a : String} {payload : AgenticPayload} {now : ℕ}
  {fs fs' : Files} {σ σ' : Stage}

theorem proceed_eq_next {β : Type} {x : Except FacilitatorError β} {next : β → Stage}
    (h : proceed fs x next = .next σ' fs') : ∃ b, x = .ok b ∧ σ' = next b ∧ fs' = fs := by
  cases x with
  | error e => cases h
  | ok b =>
    obtain ⟨rfl,rfl⟩ := StageStep.next.inj h
    exact ⟨b,rfl,rfl,rfl⟩

theorem stageStep_next (h : stageStep M store a payload now fs σ = some (.next σ' fs')) :
    StageMove M store a payload fs σ σ' fs' := by
  cases σ with
  | entered =>
    obtain ⟨record,hr,rfl,rfl⟩ := proceed_eq_next (Option.some.inj h)
    exact .loadAgent hr
  | haveRecord record =>
    obtain ⟨mandate,-,rfl,rfl⟩ := proceed_eq_next (Option.some.inj h)
    exact .loadMandate
  | haveMandate record mandate =>
    obtain ⟨⟨pending,nullifiers⟩,hp,rfl,rfl⟩ := proceed_eq_next (Option.some.inj h)
    obtain ⟨pending',hload,hrest⟩ := except_bind_eq_ok hp
    obtain ⟨nullifiers',hcheck,hpure⟩ := except_bind_eq_ok hrest
    obtain ⟨rfl,rfl⟩ := Prod.mk.inj (Except.ok.inj hpure)
    exact .check hload hcheck
  | checked pending nullifiers =>
    obtain ⟨_,hv,rfl,rfl⟩ := proceed_eq_next (Option.some.inj h)
    obtain ⟨view,hview,hfree⟩ := except_bind_eq_ok hv
    refine .clear hview ?_
    rw [checkNullifiers] at hfree
    split at hfree
    · cases hfree
    · rename_i hany
      simpa using hany
  | clear pending nullifiers =>
    obtain ⟨fs1,hafter,hnext⟩ := Option.map_eq_some_iff.mp h
    obtain ⟨rfl,rfl⟩ := StageStep.next.inj hnext
    exact .reserve hafter
  | reserved pending nullifiers now =>
    obtain ⟨fs1,hafter,hnext⟩ := Option.map_eq_some_iff.mp h
    obtain ⟨rfl,rfl⟩ := StageStep.next.inj hnext
    exact .advance hafter
  | advanced pending nullifiers now =>
    obtain ⟨fs1,hafter,hnext⟩ := Option.map_eq_some_iff.mp h
    obtain ⟨rfl,rfl⟩ := StageStep.next.inj hnext
    exact .enqueue hafter
  | queued pending nullifiers now => cases Option.some.inj h

theorem stageStep_answer {result : Except FacilitatorError AckResponse}
    (h : stageStep M store a payload now fs σ = some (.answer result)) : σ.canLeave = true := by
  cases σ with
  | clear _ _ =>
    obtain ⟨_,-,hnext⟩ := Option.map_eq_some_iff.mp h
    cases hnext
  | reserved _ _ _ =>
    obtain ⟨_,-,hnext⟩ := Option.map_eq_some_iff.mp h
    cases hnext
  | advanced _ _ _ =>
    obtain ⟨_,-,hnext⟩ := Option.map_eq_some_iff.mp h
    cases hnext
  | _ => rfl

end Stages

/-- A step of the worker: the files and what it is doing change, an attempt or a complete round is
recorded. -/
inductive WorkMove (store : FilesystemX402Store) (maxSize : ℕ) (fs : Files) :
    Worker → Worker → Files → List (String × ℕ) → ℕ → Prop
  | tick {order} : order.Perm (store.listAgents fs) →
      WorkMove store maxSize fs .idle (.agents order) fs [] 0
  | done : WorkMove store maxSize fs (.agents []) .idle fs [] 1
  | abort {a rest} : WorkMove store maxSize fs (.agents (a :: rest)) .idle fs [] 0
  | list {a rest queued} : store.listQueued a fs = .ok queued →
      WorkMove store maxSize fs (.agents (a :: rest)) (.batch a (nextBatch maxSize queued) rest) fs [] 0
  | batchDone {a rest} : WorkMove store maxSize fs (.batch a [] rest) (.agents rest) fs [] 0
  | prove {a tx todo rest now fs'} :
      after (store.upsertQueued a (startProving tx now)) fs = some fs' →
      WorkMove store maxSize fs (.batch a (tx :: todo) rest)
        (.proving a (startProving tx now) todo rest) fs' [] 0
  | attempt {a tx todo rest now outcome} : WorkMove store maxSize fs (.proving a tx todo rest)
      (.finishing a (recordOutcome tx now outcome) todo rest) fs [(a,tx.seq)] 0
  | finish {a tx todo rest fs'} : after (store.upsertQueued a tx) fs = some fs' →
      WorkMove store maxSize fs (.finishing a tx todo rest)
        (if tx.status = .failed then .moving a tx.seq todo rest else .batch a todo rest) fs' [] 0
  | move {a seq todo rest fs'} : after (store.moveToFailed a seq) fs = some fs' →
      WorkMove store maxSize fs (.moving a seq todo rest) (.batch a todo rest) fs' [] 0

/-- What a write of the worker leaves when it fails; the worker goes on. -/
inductive WorkCut (store : FilesystemX402Store) (fs : Files) : Worker → Worker → Files → Prop
  | prove {a tx todo rest now steps fs'} :
      (store.upsertQueued a (startProving tx now)).failed steps fs = some fs' →
      WorkCut store fs (.batch a (tx :: todo) rest) (.proving a (startProving tx now) todo rest) fs'
  | finish {a tx todo rest steps fs'} : (store.upsertQueued a tx).failed steps fs = some fs' →
      WorkCut store fs (.finishing a tx todo rest)
        (if tx.status = .failed then .moving a tx.seq todo rest else .batch a todo rest) fs'
  | move {a seq todo rest steps fs'} : (store.moveToFailed a seq).failed steps fs = some fs' →
      WorkCut store fs (.moving a seq todo rest) (.batch a todo rest) fs'

/-- The worker acts, beginning a round apart. -/
def Action.isWork : Action → Bool
  | .work _ _ | .workFails _ _ => true
  | _ => false

/-- A step and the action that caused it. -/
inductive Move (M : Miden) (store : FilesystemX402Store) (maxSize : ℕ) (s : Server) :
    Action → Server → Prop
  | stay {act} : Move M store maxSize s act s
  | begin {req now} : s.files.pathExists (store.agentDir req.agentId) = false →
      Move M store maxSize s (.register req now) { s with
        registrations := s.registrations ++ [some ⟨agentRecord req now,req.mandate,req.initialStateCommitment,
          store.registerOps (agentRecord req now) req.mandate req.initialStateCommitment⟩] }
  | registration {t g op rest fs'} : s.registration t = some g → g.todo = op :: rest →
      after op.run s.files = some fs' → Move M store maxSize s (.registration t)
        ({ s with files := fs', registered := s.registered ++ g.registers op }.setRegistration t g.rest)
  | registrationFails {t steps g op rest fs'} : s.registration t = some g → g.todo = op :: rest →
      op.run.failed steps s.files = some fs' → Move M store maxSize s (.registrationFails t steps)
        ({ s with files := fs' }.setRegistration t none)
  | arrive {a payload} : Move M store maxSize s (.arrive a payload)
      { s with requests := s.requests ++ [some ⟨a,payload,.arrived⟩] }
  | miss {act t r} : s.request t = some r → r.phase = .arrived →
      Move M store maxSize s act (s.setRequest t (some { r with phase := .missed }))
  | find {act t r m} : s.request t = some r → r.phase = .arrived → s.locks.ids r.agentId = some m →
      Move M store maxSize s act (s.setRequest t (some { r with phase := .waiting m }))
  | insert {act t r} : s.request t = some r → r.phase = .missed →
      Move M store maxSize s act ({ s with locks := (s.locks.getOrInsert r.agentId).1 }.setRequest t
        (some { r with phase := .waiting (s.locks.getOrInsert r.agentId).2 }))
  | acquire {act t r m} : s.request t = some r → r.phase = .waiting m → s.locks.holder m = none →
      Move M store maxSize s act
        ({ s with locks := { s.locks with holder := Function.update s.locks.holder m (some t) } }.setRequest
          t (some { r with phase := .inside m .entered }))
  | stage {t now r m σ σ' fs'} : s.request t = some r → r.phase = .inside m σ →
      StageMove M store r.agentId r.payload s.files σ σ' fs' →
      Move M store maxSize s (.request t now)
        ({ s with
          files := fs'
          advances := s.advances ++ advance r.agentId r.payload σ'
          accepted := s.accepted ++ acceptance r.agentId r.payload σ' }.setRequest t
            (some { r with phase := .inside m σ' }))
  | leave {act t r m σ} : s.request t = some r → r.phase = .inside m σ → σ.canLeave = true →
      Move M store maxSize s act ({ s with locks := s.locks.release m }.setRequest t none)
  | requestFails {t now steps r m σ fs'} : s.request t = some r → r.phase = .inside m σ →
      StageCut store r.agentId r.payload s.files σ fs' →
      Move M store maxSize s (.requestFails t now steps)
        ({ s with files := fs', locks := s.locks.release m }.setRequest t none)
  | work {act worker fs' attempts ticks} : act.isWork = true ∨ s.worker = .idle →
      WorkMove store maxSize s.files s.worker worker fs' attempts ticks →
      Move M store maxSize s act { s with
        files := fs'
        worker := worker
        attempts := s.attempts ++ attempts
        ticks := s.ticks + ticks }
  | workFails {now steps worker fs'} : WorkCut store s.files s.worker worker fs' →
      Move M store maxSize s (.workFails now steps) { s with files := fs', worker := worker }
  | restart : (∀ t r m σ, s.request t = some r → r.phase ≠ .inside m σ) →
      (∀ t, s.registration t = none) →
      Move M store maxSize s .restart { s with
        locks := Table.empty
        registrations := []
        requests := []
        worker := .idle }

section Steps
variable {M : Miden} {store : FilesystemX402Store} {maxSize : ℕ} {s s' : Server} {act : Action}

/-- A worker step that records nothing. -/
theorem Move.work_silent {worker : Worker} {fs' : Files} (hact : act.isWork = true ∨ s.worker = .idle)
    (h : WorkMove store maxSize s.files s.worker worker fs' [] 0) :
    Move M store maxSize s act { s with files := fs', worker := worker } := by
  have hmove : Move M store maxSize s act _ := Move.work hact h
  rw [List.append_nil,Nat.add_zero] at hmove
  exact hmove

/-- A worker step that records nothing, in the form of `workStep_spec`. -/
theorem WorkMove.silent {w worker : Worker} {fs' : Files}
    (h : WorkMove store maxSize s.files w worker fs' [] 0) : ∃ worker' fs'' attempts ticks,
      WorkMove store maxSize s.files w worker' fs'' attempts ticks ∧
      { s with files := fs', worker := worker } = { s with
        files := fs''
        worker := worker'
        attempts := s.attempts ++ attempts
        ticks := s.ticks + ticks } := by
  refine ⟨worker,fs',[],0,h,?_⟩
  rw [List.append_nil,Nat.add_zero]

/-- What a worker step writes and records. -/
theorem workStep_spec {now : ℕ} {outcome : Option String}
    (h : s.workStep store maxSize now outcome = some s') : ∃ worker fs' attempts ticks,
      WorkMove store maxSize s.files s.worker worker fs' attempts ticks ∧
      s' = { s with
        files := fs'
        worker := worker
        attempts := s.attempts ++ attempts
        ticks := s.ticks + ticks } := by
  rw [Server.workStep] at h
  cases hw : s.worker with
  | idle =>
    rw [hw] at h
    cases h
  | agents rest =>
    cases rest with
    | nil =>
      rw [hw] at h
      obtain rfl := Option.some.inj h
      refine ⟨.idle,s.files,[],1,.done,?_⟩
      rw [List.append_nil]
    | cons a rest =>
      rw [hw] at h
      cases hl : store.listQueued a s.files with
      | error e =>
        simp only [hl] at h
        obtain rfl := Option.some.inj h
        exact WorkMove.silent .abort
      | ok queued =>
        simp only [hl] at h
        obtain rfl := Option.some.inj h
        exact WorkMove.silent (.list hl)
  | batch a todo rest =>
    cases todo with
    | nil =>
      rw [hw] at h
      obtain rfl := Option.some.inj h
      exact WorkMove.silent .batchDone
    | cons tx todo =>
      rw [hw] at h
      obtain ⟨fs',hafter,rfl⟩ := Option.map_eq_some_iff.mp h
      exact WorkMove.silent (.prove hafter)
  | proving a tx todo rest =>
    rw [hw] at h
    obtain rfl := Option.some.inj h
    refine ⟨.finishing a (recordOutcome tx now outcome) todo rest,s.files,[(a,tx.seq)],0,.attempt,?_⟩
    rw [Nat.add_zero]
  | finishing a tx todo rest =>
    rw [hw] at h
    obtain ⟨fs',hafter,rfl⟩ := Option.map_eq_some_iff.mp h
    exact WorkMove.silent (.finish hafter)
  | moving a seq todo rest =>
    rw [hw] at h
    obtain ⟨fs',hafter,rfl⟩ := Option.map_eq_some_iff.mp h
    exact WorkMove.silent (.move hafter)

theorem workStep_move {now : ℕ} {outcome : Option String}
    (h : s.workStep store maxSize now outcome = some s') :
    Move M store maxSize s (.work now outcome) s' := by
  obtain ⟨worker,fs',attempts,ticks,hwork,rfl⟩ := workStep_spec h
  exact .work (Or.inl rfl) hwork

theorem requestStep_move {t now : ℕ} {r : Request} (hr : s.request t = some r)
    (h : s.requestStep M store t now r = some s') : Move M store maxSize s (.request t now) s' := by
  rw [Server.requestStep] at h
  cases hp : r.phase with
  | arrived =>
    rw [hp] at h
    cases hl : s.locks.get r.agentId with
    | none =>
      simp only [hl] at h
      obtain rfl := Option.some.inj h
      exact .miss hr hp
    | some m =>
      simp only [hl] at h
      obtain rfl := Option.some.inj h
      exact .find hr hp hl
  | missed =>
    rw [hp] at h
    obtain rfl := Option.some.inj h
    exact .insert hr hp
  | waiting m =>
    rw [hp] at h
    obtain ⟨locks,hacq,rfl⟩ := Option.map_eq_some_iff.mp h
    rw [Table.acquire] at hacq
    cases hh : s.locks.holder m with
    | some _ =>
      rw [hh] at hacq
      cases hacq
    | none =>
      rw [hh] at hacq
      obtain rfl := Option.some.inj hacq
      exact .acquire hr hp hh
  | inside m σ =>
    rw [hp] at h
    obtain ⟨next,hstage,rfl⟩ := Option.map_eq_some_iff.mp h
    cases next with
    | next σ' fs' => exact .stage hr hp (stageStep_next hstage)
    | answer result => exact .leave hr hp (stageStep_answer hstage)

theorem stageFails_cut {a : String} {payload : AgenticPayload} {now steps : ℕ} {fs fs' : Files}
    {σ : Stage} (h : stageFails store a payload now steps fs σ = some fs') :
    StageCut store a payload fs σ fs' := by
  cases σ with
  | clear pending nullifiers => exact .reserve h
  | reserved pending nullifiers now => exact .advance h
  | advanced pending nullifiers now => exact .enqueue h
  | _ => cases h

theorem requestFails_move {t now steps : ℕ} {r : Request} (hr : s.request t = some r)
    (h : s.requestFails store t now steps r = some s') :
    Move M store maxSize s (.requestFails t now steps) s' := by
  rw [Server.requestFails] at h
  cases hp : r.phase with
  | inside m σ =>
    rw [hp] at h
    obtain ⟨fs',hcut,rfl⟩ := Option.map_eq_some_iff.mp h
    exact .requestFails hr hp (stageFails_cut hcut)
  | _ =>
    rw [hp] at h
    cases h

/-- What a worker step leaves when its write fails. -/
theorem workFails_spec {now steps : ℕ} (h : s.workFails store now steps = some s') :
    ∃ worker fs', WorkCut store s.files s.worker worker fs' ∧
      s' = { s with files := fs', worker := worker } := by
  rw [Server.workFails] at h
  cases hw : s.worker with
  | batch a todo rest =>
    cases todo with
    | nil =>
      rw [hw] at h
      cases h
    | cons tx todo =>
      rw [hw] at h
      obtain ⟨fs',hcut,rfl⟩ := Option.map_eq_some_iff.mp h
      exact ⟨_,fs',.prove hcut,rfl⟩
  | finishing a tx todo rest =>
    rw [hw] at h
    obtain ⟨fs',hcut,rfl⟩ := Option.map_eq_some_iff.mp h
    exact ⟨_,fs',.finish hcut,rfl⟩
  | moving a seq todo rest =>
    rw [hw] at h
    obtain ⟨fs',hcut,rfl⟩ := Option.map_eq_some_iff.mp h
    exact ⟨_,fs',.move hcut,rfl⟩
  | _ =>
    rw [hw] at h
    cases h

theorem workFails_move {now steps : ℕ} (h : s.workFails store now steps = some s') :
    Move M store maxSize s (.workFails now steps) s' := by
  obtain ⟨worker,fs',hcut,rfl⟩ := workFails_spec h
  exact .workFails hcut

/-- A registration is refused, or it found no directory and its operations are to come. -/
theorem registerStep_spec (store : FilesystemX402Store) (s : Server) (req : RegisterAgentRequest) (now : ℕ) :
    s.registerStep store req now = s ∨
      s.files.pathExists (store.agentDir req.agentId) = false ∧
      s.registerStep store req now = { s with
        registrations := s.registrations ++ [some ⟨agentRecord req now,req.mandate,req.initialStateCommitment,
          store.registerOps (agentRecord req now) req.mandate req.initialStateCommitment⟩] } := by
  rw [Server.registerStep]
  split
  · exact Or.inl rfl
  · rename_i hgo
    rw [Bool.or_eq_true,not_or] at hgo
    exact Or.inr ⟨Bool.eq_false_of_not_eq_true hgo.2,rfl⟩

/-- A registration does the first of its operations, or fails in it. -/
theorem registrationStep_spec {t : ℕ} {g : Registering} (h : s.registrationStep t g = some s') :
    ∃ op rest fs', g.todo = op :: rest ∧ after op.run s.files = some fs' ∧
      s' = { s with files := fs', registered := s.registered ++ g.registers op }.setRegistration
        t g.rest := by
  rw [Server.registrationStep] at h
  cases htodo : g.todo with
  | nil =>
    simp only [htodo] at h
    cases h
  | cons op rest =>
    simp only [htodo] at h
    obtain ⟨fs',hafter,rfl⟩ := Option.map_eq_some_iff.mp h
    exact ⟨op,rest,fs',rfl,hafter,rfl⟩

theorem registrationFails_spec {t steps : ℕ} {g : Registering}
    (h : s.registrationFails t steps g = some s') :
    ∃ op rest fs', g.todo = op :: rest ∧ op.run.failed steps s.files = some fs' ∧
      s' = { s with files := fs' }.setRegistration t none := by
  rw [Server.registrationFails] at h
  cases htodo : g.todo with
  | nil =>
    simp only [htodo] at h
    cases h
  | cons op rest =>
    simp only [htodo] at h
    obtain ⟨fs',hcut,rfl⟩ := Option.map_eq_some_iff.mp h
    exact ⟨op,rest,fs',rfl,hcut,rfl⟩

/-- A tick starts a round of the idle worker. -/
theorem tick_spec {order : List String} (h : s.step M store maxSize (.tick order) = some s') :
    s.worker = .idle ∧ order.Perm (store.listAgents s.files) ∧
      s' = { s with worker := .agents order } := by
  rw [Server.step] at h
  split at h
  · rename_i hw
    split at h
    · rename_i hperm
      exact ⟨hw,hperm,(Option.some.inj h).symm⟩
    · cases h
  · cases h

/-- A restart waits until no request is inside a mutex and no registration is under way. -/
theorem restart_spec (h : s.step M store maxSize .restart = some s') :
    s.requests.any (fun r => r.any Request.isInside) = false ∧
      s.registrations.any Option.isSome = false ∧ s' = { s with
        locks := Table.empty
        registrations := []
        requests := []
        worker := .idle } := by
  rw [Server.step] at h
  split at h
  · cases h
  · rename_i hnone
    rw [Bool.or_eq_true,not_or] at hnone
    exact ⟨Bool.eq_false_of_not_eq_true hnone.1,Bool.eq_false_of_not_eq_true hnone.2,
      (Option.some.inj h).symm⟩

theorem registration_eq_none (h : s.registrations.any Option.isSome = false) (t : ℕ) :
    s.registration t = none := by
  cases hg : s.registration t with
  | none => rfl
  | some g =>
    rw [Server.registration,Option.join_eq_some_iff] at hg
    rw [List.any_eq_false] at h
    exact absurd rfl (h _ (List.mem_of_getElem? hg))

theorem Server.request_eq_some_iff {t : ℕ} {r : Request} :
    s.request t = some r ↔ s.requests[t]? = some (some r) := by
  rw [Server.request,Option.join_eq_some_iff]

theorem Server.lt_of_request {t : ℕ} {r : Request} (hr : s.request t = some r) :
    t < s.requests.length :=
  (List.getElem?_eq_some_iff.mp (Server.request_eq_some_iff.mp hr)).1

theorem step_move (h : s.step M store maxSize act = some s') :
    Move M store maxSize s act s' := by
  cases act with
  | register req now =>
    obtain rfl := Option.some.inj h
    rcases registerStep_spec store s req now with hsame | ⟨habsent,hbegun⟩
    · rw [hsame]
      exact .stay
    · rw [hbegun]
      exact .begin habsent
  | registration t =>
    obtain ⟨g,hg,hstep⟩ := Option.bind_eq_some_iff.mp h
    obtain ⟨op,rest,fs',htodo,hafter,rfl⟩ := registrationStep_spec hstep
    exact .registration hg htodo hafter
  | registrationFails t steps =>
    obtain ⟨g,hg,hstep⟩ := Option.bind_eq_some_iff.mp h
    obtain ⟨op,rest,fs',htodo,hcut,rfl⟩ := registrationFails_spec hstep
    exact .registrationFails hg htodo hcut
  | arrive a payload =>
    obtain rfl := Option.some.inj h
    exact .arrive
  | request t now =>
    obtain ⟨r,hr,hstep⟩ := Option.bind_eq_some_iff.mp h
    exact requestStep_move hr hstep
  | requestFails t now steps =>
    obtain ⟨r,hr,hstep⟩ := Option.bind_eq_some_iff.mp h
    exact requestFails_move hr hstep
  | tick order =>
    obtain ⟨hw,hperm,rfl⟩ := tick_spec h
    apply Move.work_silent (Or.inr hw)
    rw [hw]
    exact .tick hperm
  | work now outcome => exact workStep_move h
  | workFails now steps => exact workFails_move h
  | lookup a n =>
    obtain rfl := Option.some.inj h
    exact .stay
  | restart =>
    obtain ⟨hnone,hidle,rfl⟩ := restart_spec h
    refine .restart ?_ (registration_eq_none hidle)
    intro t r m σ hr hp
    rw [List.any_eq_false] at hnone
    apply hnone (some r) (List.mem_of_getElem? (Server.request_eq_some_iff.mp hr))
    rw [Option.any_some,Request.isInside,hp]

theorem along_cons {Q : Server → Action → Prop} {acts : List Action}
    (h : s.Along M store maxSize Q (act :: acts)) :
    Q s act ∧ ∀ s', s.step M store maxSize act = some s' → s'.Along M store maxSize Q acts := by
  refine ⟨h.1,?_⟩
  intro s' hs'
  have hrest := h.2
  simp only [hs'] at hrest
  exact hrest

/-- What every step preserves that meets the condition holds at the end of a run. -/
theorem run_along {P : Server → Prop} {Q : Server → Action → Prop}
    (hstep : ∀ {s s' : Server} {act : Action}, P s → Q s act → Move M store maxSize s act s' → P s')
    {acts : List Action} (hs : P s) (hacts : s.Along M store maxSize Q acts)
    (hrun : s.run M store maxSize acts = some s') : P s' := by
  induction acts generalizing s with
  | nil =>
    obtain rfl := Option.some.inj hrun
    exact hs
  | cons act acts ih =>
    rw [Server.run,List.foldlM_cons] at hrun
    obtain ⟨s1,hone,hrest⟩ := Option.bind_eq_some_iff.mp hrun
    obtain ⟨hact,halong⟩ := along_cons hacts
    exact ih (hstep hs hact (step_move hone)) (halong s1 hone) hrest

theorem along_of_forall {Q : Server → Action → Prop} {acts : List Action}
    (h : ∀ act ∈ acts, ∀ s, Q s act) : s.Along M store maxSize Q acts := by
  induction acts generalizing s with
  | nil => exact trivial
  | cons act acts ih =>
    refine ⟨h act List.mem_cons_self s,?_⟩
    split
    · trivial
    · exact ih fun act' hmem => h act' (List.mem_cons_of_mem _ hmem)

theorem Server.Along.and {Q R : Server → Action → Prop} {acts : List Action}
    (h : s.Along M store maxSize Q acts) (h' : s.Along M store maxSize R acts) :
    s.Along M store maxSize (fun s act => Q s act ∧ R s act) acts := by
  induction acts generalizing s with
  | nil => exact trivial
  | cons act acts ih =>
    refine ⟨⟨h.1,h'.1⟩,?_⟩
    split
    · trivial
    · rename_i s1 hs1
      exact ih ((along_cons h).2 s1 hs1) ((along_cons h').2 s1 hs1)

/-- The condition holds along both parts of a run. -/
theorem Server.Along.append {Q : Server → Action → Prop} {acts later : List Action}
    (h : s.Along M store maxSize Q (acts ++ later)) : s.Along M store maxSize Q acts ∧
      ∀ s', s.run M store maxSize acts = some s' → s'.Along M store maxSize Q later := by
  induction acts generalizing s with
  | nil =>
    refine ⟨trivial,?_⟩
    rintro s' ⟨⟩
    exact h
  | cons act acts ih =>
    obtain ⟨hact,hrest⟩ := along_cons h
    refine ⟨⟨hact,?_⟩,?_⟩
    · split
      · trivial
      · rename_i s1 hs1
        exact (ih (hrest s1 hs1)).1
    · intro s' hrun
      rw [Server.run,List.foldlM_cons] at hrun
      obtain ⟨s1,hone,hrun⟩ := Option.bind_eq_some_iff.mp hrun
      exact (ih (hrest s1 hone)).2 s' hrun

/-- What every allowed step preserves holds at the end of a run. -/
theorem run_invariant {P : Server → Prop} {Q : Action → Prop}
    (hstep : ∀ {s s' : Server} {act : Action}, P s → Q act → Move M store maxSize s act s' → P s')
    {acts : List Action} (hs : P s) (hacts : ∀ act ∈ acts, Q act)
    (hrun : s.run M store maxSize acts = some s') : P s' :=
  run_along (Q := fun _ act => Q act) hstep hs (along_of_forall fun act h _ => hacts act h) hrun

theorem run_concat {acts : List Action} : s.run M store maxSize (acts ++ [act]) = some s' ↔
    ∃ s1, s.run M store maxSize acts = some s1 ∧ s1.step M store maxSize act = some s' := by
  rw [Server.run,List.foldlM_append]
  simp only [List.foldlM_cons,List.foldlM_nil,bind_pure]
  exact Option.bind_eq_some_iff

end Steps

end MidenX402.Facilitator
