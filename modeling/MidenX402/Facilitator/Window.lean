import MidenX402.Facilitator.Intact

/-!
# The time window of a mandate

The handler compares the deadline of a payment with the expiry of the mandate and neither of them
with the clock.  What it checks is that the window of the payment lies within that of the mandate.
-/

namespace MidenX402.Facilitator
open Disk

/-- `t` is in the window of the mandate and not past the deadline of the payment. -/
def InWindow (mandate : AgentMandate) (context : X402Context) (t : ℕ) : Prop :=
  (mandate.expiresAtUnixSecs ≠ 0 → t ≤ mandate.expiresAtUnixSecs) ∧ t ≤ context.deadlineUnixSecs

/-- The second a time in microseconds falls into. -/
def unixSecs (micros : ℕ) : ℕ := micros / 1000000

/-- Within the limits the check sets, only the deadline of the payment is left to keep. -/
theorem inWindow_iff {mandate : AgentMandate} {context : X402Context} {t : ℕ}
    (h : checkMandate mandate context = .ok ()) :
    InWindow mandate context t ↔ t ≤ context.deadlineUnixSecs := by
  constructor
  · intro hin
    exact hin.2
  · intro hle
    exact ⟨fun hexpires => hle.trans ((checkMandate_eq_ok h).2.1 hexpires),hle⟩

section Steps
variable {M : Miden} {store : FilesystemX402Store} {maxSize : ℕ} {s s' : Server} {act : Action}
  {t : ℕ} {a : String} {payload : AgenticPayload} {σ' : Stage}

/-- The entry of one thread was replaced: the thread is where the new entry says, the others where
they were. -/
theorem insideAt_set {t' : ℕ} {r : Request} {o : Option Request} (hr : s.request t' = some r)
    (hreq : s'.requests = s.requests.set t' o) (h : s'.InsideAt t a payload σ') :
    s.InsideAt t a payload σ' ∨ t = t' ∧ ∃ m, o = some ⟨a,payload,.inside m σ'⟩ := by
  obtain ⟨m,hm⟩ := h
  rw [request_set hr hreq] at hm
  split at hm
  · rename_i ht
    exact Or.inr ⟨ht,m,hm⟩
  · exact Or.inl ⟨m,hm⟩

/-- After a step of a thread, a request inside the mutex was there before, has just got the mutex, or
made the step. -/
theorem insideAt_requestStep {t' now : ℕ} {r : Request} (hr : s.request t' = some r)
    (hstep : s.requestStep M store t' now r = some s') (h : s'.InsideAt t a payload σ') :
    s.InsideAt t a payload σ' ∨ σ' = .entered ∨ t = t' ∧ ∃ σ, s.InsideAt t a payload σ ∧
      stageStep M store a payload now s.files σ = some (.next σ' s'.files) := by
  -- what the thread that made the step is left with
  have hset : ∀ o, s'.requests = s.requests.set t' o →
      (∀ m, o = some ⟨a,payload,.inside m σ'⟩ → σ' = .entered ∨ ∃ σ, s.InsideAt t' a payload σ ∧
        stageStep M store a payload now s.files σ = some (.next σ' s'.files)) →
      s.InsideAt t a payload σ' ∨ σ' = .entered ∨ t = t' ∧ ∃ σ, s.InsideAt t a payload σ ∧
        stageStep M store a payload now s.files σ = some (.next σ' s'.files) := by
    intro o hreq ho
    rcases insideAt_set hr hreq h with hold | ⟨rfl,m,hm⟩
    · exact Or.inl hold
    · rcases ho m hm with hentered | ⟨σ,hin,hstage⟩
      · exact Or.inr (Or.inl hentered)
      · exact Or.inr (Or.inr ⟨rfl,σ,hin,hstage⟩)
  rw [Server.requestStep] at hstep
  cases hp : r.phase with
  | arrived =>
    rw [hp] at hstep
    simp only at hstep
    split at hstep
    · obtain rfl := Option.some.inj hstep
      exact hset _ rfl fun m hm => by cases hm
    · obtain rfl := Option.some.inj hstep
      exact hset _ rfl fun m hm => by cases hm
  | missed =>
    rw [hp] at hstep
    obtain rfl := Option.some.inj hstep
    exact hset _ rfl fun m hm => by cases hm
  | waiting m =>
    rw [hp] at hstep
    obtain ⟨locks,-,rfl⟩ := Option.map_eq_some_iff.mp hstep
    apply hset _ rfl
    intro m' hm
    cases hm
    exact Or.inl rfl
  | inside m σ =>
    rw [hp] at hstep
    obtain ⟨next,hstage,rfl⟩ := Option.map_eq_some_iff.mp hstep
    cases next with
    | answer result => exact hset _ rfl fun m hm => by cases hm
    | next σ'' fs' =>
      apply hset _ rfl
      intro m' hm
      cases hm
      exact Or.inr ⟨σ,insideAt_of_phase hr hp,hstage⟩

/-- How a request came to be where it is inside the mutex: it was there before the step, it has just
got the mutex, or the step was its own. -/
theorem insideAt_step (hstep : s.step M store maxSize act = some s')
    (h : s'.InsideAt t a payload σ') :
    (s.InsideAt t a payload σ' ∧ act ≠ .restart) ∨ σ' = .entered ∨
      ∃ σ now, act = .request t now ∧ s.InsideAt t a payload σ ∧
        stageStep M store a payload now s.files σ = some (.next σ' s'.files) := by
  -- a step that leaves the requests alone
  have hsame : s'.requests = s.requests → act ≠ .restart →
      s.InsideAt t a payload σ' ∧ act ≠ .restart := by
    intro hreq hact
    obtain ⟨m,hm⟩ := h
    rw [Server.request,hreq] at hm
    exact ⟨⟨m,hm⟩,hact⟩
  cases act with
  | register req now =>
    left
    apply hsame _ Action.noConfusion
    obtain rfl := Option.some.inj hstep
    rcases registerStep_spec store s req now with hstay | ⟨-,hbegun⟩
    · rw [hstay]
    · rw [hbegun]
  | registration g =>
    left
    apply hsame _ Action.noConfusion
    obtain ⟨r,-,hstep⟩ := Option.bind_eq_some_iff.mp hstep
    obtain ⟨_,_,_,-,-,rfl⟩ := registrationStep_spec hstep
    rfl
  | registrationFails g steps =>
    left
    apply hsame _ Action.noConfusion
    obtain ⟨r,-,hstep⟩ := Option.bind_eq_some_iff.mp hstep
    obtain ⟨_,_,_,-,-,rfl⟩ := registrationFails_spec hstep
    rfl
  | arrive b payload' =>
    obtain rfl := Option.some.inj hstep
    obtain ⟨m,hm⟩ := h
    rcases thread_append hm with hold | ⟨-,hnew⟩
    · exact Or.inl ⟨⟨m,hold⟩,Action.noConfusion⟩
    · cases hnew
  | request t' now =>
    obtain ⟨r,hr,hstep⟩ := Option.bind_eq_some_iff.mp hstep
    rcases insideAt_requestStep hr hstep h with hold | hentered | ⟨rfl,σ,hin,hstage⟩
    · exact Or.inl ⟨hold,Action.noConfusion⟩
    · exact Or.inr (Or.inl hentered)
    · exact Or.inr (Or.inr ⟨σ,now,rfl,hin,hstage⟩)
  | requestFails t' now steps =>
    obtain ⟨r,hr,hstep⟩ := Option.bind_eq_some_iff.mp hstep
    rw [Server.requestFails] at hstep
    split at hstep
    · obtain ⟨fs',-,rfl⟩ := Option.map_eq_some_iff.mp hstep
      rcases insideAt_set hr rfl h with hold | ⟨-,m,hm⟩
      · exact Or.inl ⟨hold,Action.noConfusion⟩
      · cases hm
    · cases hstep
  | tick order =>
    left
    apply hsame _ Action.noConfusion
    obtain ⟨-,-,rfl⟩ := tick_spec hstep
    rfl
  | work now outcome =>
    left
    apply hsame _ Action.noConfusion
    obtain ⟨_,_,_,_,-,rfl⟩ := workStep_spec hstep
    rfl
  | workFails now steps =>
    left
    apply hsame _ Action.noConfusion
    obtain ⟨_,_,-,rfl⟩ := workFails_spec hstep
    rfl
  | lookup b n =>
    obtain rfl := Option.some.inj hstep
    exact Or.inl ⟨h,Action.noConfusion⟩
  | restart =>
    obtain ⟨-,-,rfl⟩ := restart_spec hstep
    obtain ⟨m,hm⟩ := h
    simp [Server.request] at hm

theorem stageStep_mandate {record : AgentRecord} {mandate : AgentMandate} {σ : Stage} {fs fs' : Files}
    {now : ℕ} (h : stageStep M store a payload now fs σ = some (.next (.haveMandate record mandate) fs')) :
    store.loadMandate a fs' = .ok mandate := by
  cases stageStep_next h with
  | loadMandate =>
    obtain ⟨mandate',hload,hstage,-⟩ := proceed_eq_next (Option.some.inj h)
    obtain ⟨-,rfl⟩ := Stage.haveMandate.inj hstage
    exact hload

end Steps

section Runs
variable {M : Miden} {store : FilesystemX402Store} {maxSize : ℕ} {fs : Files} {acts : List Action}
  {act : Action} {s s' : Server} {t : ℕ} {a : String} {payload : AgenticPayload} {σ : Stage}

/-- In the run of `acts` thread `t`, which has served this one request since, read `mandate` from the
file of the agent. -/
def MandateRead (M : Miden) (store : FilesystemX402Store) (maxSize : ℕ) (fs : Files)
    (acts : List Action) (t : ℕ) (a : String) (payload : AgenticPayload) (mandate : AgentMandate) :
    Prop :=
  ∃ before later s record, acts = before ++ later ∧ .restart ∉ later ∧
    (Server.start fs).run M store maxSize before = some s ∧
    s.InsideAt t a payload (.haveMandate record mandate) ∧ store.loadMandate a s.files = .ok mandate

/-- What the check of the mandate leaves behind, stage by stage. -/
def StageWindow (read : AgentMandate → Prop) (context : X402Context) : Stage → Prop
  | .entered | .haveRecord _ => True
  | .haveMandate _ mandate => read mandate
  | .checked _ _ | .clear _ _ | .reserved _ _ _ | .advanced _ _ _ | .queued _ _ _ =>
    ∃ mandate, read mandate ∧ checkMandate mandate context = .ok ()

theorem StageWindow.mono {read read' : AgentMandate → Prop} {context : X402Context}
    (hread : ∀ mandate, read mandate → read' mandate) (h : StageWindow read context σ) :
    StageWindow read' context σ := by
  cases σ with
  | entered | haveRecord => trivial
  | haveMandate record mandate => exact hread mandate h
  | checked | clear | reserved | advanced | queued =>
    obtain ⟨mandate,hmandate,hcheck⟩ := h
    exact ⟨mandate,hread mandate hmandate,hcheck⟩

theorem MandateRead.append {mandate : AgentMandate}
    (h : MandateRead M store maxSize fs acts t a payload mandate) (hact : act ≠ .restart) :
    MandateRead M store maxSize fs (acts ++ [act]) t a payload mandate := by
  obtain ⟨before,later,s,record,rfl,hlater,hrun,hin,hload⟩ := h
  refine ⟨before,later ++ [act],s,record,by simp,?_,hrun,hin,hload⟩
  simp [hlater,hact.symm]

/-- One step of a request inside the mutex. -/
theorem StageWindow.stage {read : AgentMandate → Prop} {σ' : Stage} {files files' : Files}
    (h : StageWindow read payload.x402Context σ) (hmove : StageMove M store a payload files σ σ' files')
    (hload : ∀ record mandate, σ' = .haveMandate record mandate → read mandate) :
    StageWindow read payload.x402Context σ' := by
  cases hmove with
  | loadAgent => trivial
  | loadMandate => exact hload _ _ rfl
  | check _ hcheck =>
    obtain ⟨_,-,-,-,-,hmandate,-⟩ := checkPayload_steps hcheck
    exact ⟨_,h,hmandate⟩
  | clear | reserve | advance | enqueue => exact h

/-- Every request past the check was checked against a mandate it had read. -/
theorem run_stageWindow (hrun : (Server.start fs).run M store maxSize acts = some s)
    (hin : s.InsideAt t a payload σ) :
    StageWindow (MandateRead M store maxSize fs acts t a payload) payload.x402Context σ := by
  induction acts using List.reverseRecOn generalizing s σ with
  | nil =>
    obtain rfl := Option.some.inj hrun
    exact absurd ⟨t,hin⟩ (not_inside_start fs a payload σ)
  | append_singleton acts act ih =>
    obtain ⟨s0,hrun0,hstep⟩ := run_concat.mp hrun
    rcases insideAt_step hstep hin with ⟨hold,hact⟩ | rfl | ⟨σ0,now,rfl,hold,hstage⟩
    · exact (ih hrun0 hold).mono fun mandate h => h.append hact
    · trivial
    · have hbefore : StageWindow
          (MandateRead M store maxSize fs (acts ++ [.request t now]) t a payload) payload.x402Context σ0 :=
        (ih hrun0 hold).mono fun mandate h => h.append Action.noConfusion
      apply hbefore.stage (stageStep_next hstage)
      rintro record mandate rfl
      exact ⟨_,[],s,record,(List.append_nil _).symm,List.not_mem_nil,hrun,hin,stageStep_mandate hstage⟩

/-- A payment is accepted by the step that leaves its request in the last stage. -/
theorem queued_of_accepted {x : Acceptance} (hstep : s.step M store maxSize act = some s')
    (haccepted : s'.accepted = s.accepted ++ [x]) :
    ∃ t pending now, s'.InsideAt t x.agentId x.payload (.queued pending x.nullifiers now) := by
  have hnone : s.accepted ≠ s.accepted ++ [x] := by simp
  cases step_move hstep with
  | @stage t _ r m σ σ' fs' hr hp hstage =>
    cases hstage with
    | @enqueue pending ns now fs' _ =>
      have hx : acceptance r.agentId r.payload (.queued pending ns now) = [x] :=
        List.append_cancel_left haccepted
      obtain rfl := (List.cons.inj hx).1
      exact ⟨t,pending,now,m,(thread_set hr).trans (if_pos rfl)⟩
    | _ => exact absurd haccepted (by simp [acceptance,Server.setRequest])
  | _ => exact absurd haccepted hnone

/-- Of every payment accepted in a run: it is within the window of the mandate it was checked against
exactly when the clock, read as the nullifiers are reserved, is not past the deadline that the client
put into the payload. -/
theorem accepted_in_window_iff {x : Acceptance}
    (hrun : (Server.start fs).run M store maxSize acts = some s)
    (hstep : s.step M store maxSize act = some s') (haccepted : s'.accepted = s.accepted ++ [x]) :
    ∃ t pending now mandate,
      s'.InsideAt t x.agentId x.payload (.queued pending x.nullifiers now) ∧
      MandateRead M store maxSize fs (acts ++ [act]) t x.agentId x.payload mandate ∧
      (InWindow mandate x.payload.x402Context (unixSecs now) ↔
        unixSecs now ≤ x.payload.x402Context.deadlineUnixSecs) := by
  obtain ⟨t,pending,now,hin⟩ := queued_of_accepted hstep haccepted
  obtain ⟨mandate,hread,hcheck⟩ := run_stageWindow (run_concat.mpr ⟨s,hrun,hstep⟩) hin
  exact ⟨t,pending,now,mandate,hin,hread,inWindow_iff hcheck⟩

end Runs

/-- A mandate that ends with second 1. -/
def briefRegistration : RegisterAgentRequest :=
  { sampleRegistration "a" with mandate := ⟨"100",[],1⟩ }

/-- A payment that is to be made by second 1. -/
def briefPayload : AgenticPayload :=
  { samplePayload "0xs0" "0xs1" ["0x01"] with
    x402Context := ⟨"0xpayee","0xfaucet","5",1,"0xdigest"⟩ }

/-- The payment up to its acceptance, with the clock at `now` microseconds. -/
def briefActs (now : ℕ) : List Action :=
  .register briefRegistration 0 :: List.replicate 10 (.registration 0) ++
    .arrive "a" briefPayload :: List.replicate 9 (.request 0 now)

def briefAcceptance : Acceptance := ⟨"a",1,briefPayload,["0x01"]⟩

/-- A request that has queued its payment, with the nullifiers and the time it wrote. -/
def Request.queuedAt (r : Request) : Option (String × AgenticPayload × List String × ℕ) :=
  match r.phase with
  | .inside _ (.queued _ nullifiers now) => some (r.agentId,r.payload,nullifiers,now)
  | _ => none

theorem Request.queuedAt_eq_some {r : Request} {a : String} {payload : AgenticPayload}
    {nullifiers : List String} {now : ℕ}
    (h : r.queuedAt = some (a,payload,nullifiers,now)) :
    ∃ m pending, r = ⟨a,payload,.inside m (.queued pending nullifiers now)⟩ := by
  obtain ⟨b,payload',phase⟩ := r
  rw [Request.queuedAt] at h
  split at h
  · rename_i m pending _ _ hphase
    simp only at hphase
    cases h
    exact ⟨m,pending,by rw [hphase]⟩
  · cases h

theorem accepted_in_window_sample : ∃ s s',
    (Server.start emptyFiles).run sampleMiden sampleStore 1 (briefActs 1000000) = some s ∧
    s.step sampleMiden sampleStore 1 (.request 0 1000000) = some s' ∧
    ∃ t pending now mandate, s'.InsideAt t "a" briefPayload (.queued pending ["0x01"] now) ∧
      MandateRead sampleMiden sampleStore 1 emptyFiles (briefActs 1000000 ++ [.request 0 1000000])
        t "a" briefPayload mandate ∧
      (InWindow mandate briefPayload.x402Context (unixSecs now) ↔
        unixSecs now ≤ briefPayload.x402Context.deadlineUnixSecs) := by
  obtain ⟨s,hs,hfacts⟩ : ∃ s,
      (Server.start emptyFiles).run sampleMiden sampleStore 1 (briefActs 1000000) = some s ∧
      ((s.step sampleMiden sampleStore 1 (.request 0 1000000)).map fun s' =>
        (s.accepted,s'.accepted)) = some ([],[briefAcceptance]) :=
    Option.map_eq_some_iff.mp (by decide +kernel)
  obtain ⟨s',hs',hpair⟩ := Option.map_eq_some_iff.mp hfacts
  obtain ⟨hold,hnew⟩ := Prod.mk.inj hpair
  have haccepted : s'.accepted = s.accepted ++ [briefAcceptance] := by
    rw [hold,hnew]
    rfl
  exact ⟨s,s',hs,hs',accepted_in_window_iff hs hs' haccepted⟩

/-- The same payment when it arrives in second 2: it is accepted, after its own deadline and after
the end of the mandate. -/
theorem accepted_after_expiry : ∃ s s' pending,
    (Server.start emptyFiles).run sampleMiden sampleStore 1 (briefActs 2000000) = some s ∧
    s.step sampleMiden sampleStore 1 (.request 0 2000000) = some s' ∧
    s'.accepted = s.accepted ++ [briefAcceptance] ∧
    s'.InsideAt 0 "a" briefPayload (.queued pending ["0x01"] 2000000) ∧
    sampleStore.loadMandate "a" s'.files = .ok briefRegistration.mandate ∧
    ¬ (briefRegistration.mandate.expiresAtUnixSecs ≠ 0 →
      unixSecs 2000000 ≤ briefRegistration.mandate.expiresAtUnixSecs) ∧
    ¬ unixSecs 2000000 ≤ briefPayload.x402Context.deadlineUnixSecs := by
  obtain ⟨s,hs,hfacts⟩ : ∃ s,
      (Server.start emptyFiles).run sampleMiden sampleStore 1 (briefActs 2000000) = some s ∧
      ((s.step sampleMiden sampleStore 1 (.request 0 2000000)).map fun s' =>
        (s.accepted,s'.accepted,sampleStore.loadMandate "a" s'.files)) =
        some ([],[briefAcceptance],.ok briefRegistration.mandate) :=
    Option.map_eq_some_iff.mp (by decide +kernel)
  obtain ⟨s',hs',hparts⟩ := Option.map_eq_some_iff.mp hfacts
  simp only [Prod.mk.injEq] at hparts
  obtain ⟨hold,hnew,hmandate⟩ := hparts
  have hrequest : (((Server.start emptyFiles).run sampleMiden sampleStore 1
      (briefActs 2000000 ++ [.request 0 2000000])).bind fun s' =>
        (s'.request 0).bind Request.queuedAt) = some ("a",briefPayload,["0x01"],2000000) := by
    decide +kernel
  rw [run_concat.mpr ⟨s,hs,hs'⟩,Option.bind_some] at hrequest
  obtain ⟨r,hr,hqueued⟩ := Option.bind_eq_some_iff.mp hrequest
  obtain ⟨m,pending,rfl⟩ := Request.queuedAt_eq_some hqueued
  refine ⟨s,s',pending,hs,hs',?_,⟨m,hr⟩,hmandate,by decide,by decide⟩
  rw [hold,hnew]
  rfl

end MidenX402.Facilitator
