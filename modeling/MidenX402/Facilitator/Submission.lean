import MidenX402.Facilitator.Binding
import MidenX402.Facilitator.Intact
import MidenX402.Facilitator.RecordContents

/-!
# Submitting an accepted payment

The worker decodes the envelope of a queued payment a second time before it hands the transaction to
the submitter.  What the handler has checked cannot fail there; what it has not checked decides
whether the payment can be submitted at all.
-/

namespace MidenX402.Facilitator
open Masm AgentDebitNote Disk Rust

def FacilitatorError.text : FacilitatorError → String
  | .agentNotRegistered a => "agent not registered: " ++ a
  | .agentAlreadyRegistered a => "agent already registered: " ++ a
  | .staleBaseState client server =>
    "stale base state: client built on " ++ client ++ ", facilitator pending " ++ server
  | .invalidSignature e => "invalid signature: " ++ e
  | .mandateViolation e => "mandate violation: " ++ e
  | .outputCheckFailed e => "output check failed: " ++ e
  | .doubleSpend => "double spend: nullifier already reserved or spent"
  | .malformed e => "malformed payload: " ++ e
  | .notFound e => "not found: " ++ e
  | .internal e => "internal: " ++ e

section Worker
variable (M : Miden)

end Worker

section Decoding
variable {M : Miden} {payload : AgenticPayload} {record : AgentRecord} {mandate : AgentMandate}
  {pending : PendingState} {nullifiers : List String}

end Decoding

section Files
variable {M : Miden} {store : FilesystemX402Store} {maxSize : ℕ} {s s' : Server} {act : Action}
  {fs fs' : Files} {a : String} {names ns : List String}

/-- The agent has a directory and a record in it. -/
structure Loadable (store : FilesystemX402Store) (fs : Files) (a : String) : Prop where
  plain : IsPlain a
  dir : HasDir store fs a
  file : ∃ record, store.content fs a "agent.json" = .agent record

theorem Loadable.load (h : Loadable store fs a) : ∃ record, store.loadAgent a fs = .ok record := by
  obtain ⟨record,hfile⟩ := h.file
  refine ⟨record,mapError_eq_ok.mpr (readJson_eq_ok_iff.mpr ⟨.agent record,?_,rfl⟩)⟩
  rw [FilesystemX402Store.agentFile,readFile_concat isPlain_agentJson,h.dir.resolve h.plain]
  exact (content_eq (by simp [Contents.empty])).mp hfile

theorem loadable_of_load (ha : IsPlain a) {record : AgentRecord}
    (h : store.loadAgent a fs = .ok record) : Loadable store fs a :=
  ⟨ha,hasDir_of_loadAgent ha h,record,content_of_fileAt (loadAgent_eq_ok ha h)⟩

theorem Loadable.kept (h : Loadable store fs a) (hkeys : KeysKept store a names ns fs fs')
    (hname : "agent.json" ∈ names) (hns : ∀ n ∈ ns, IsPlain n) : Loadable store fs' a := by
  obtain ⟨record,hfile⟩ := h.file
  exact ⟨h.plain,h.dir.mono hkeys.dirs,record,(hkeys.same hns _ hname).trans hfile⟩

/-- A registration writes a record where one is. -/
theorem Loadable.registerOp {record : AgentRecord} {mandate : AgentMandate} {initial : String}
    {op : RegisterOp} (h : Loadable store fs a) (hb : IsPlain record.agentId)
    (hop : op ∈ store.registerOps record mandate initial) (hafter : after op.run fs = some fs') :
    Loadable store fs' a := by
  obtain ⟨_,hexec⟩ := after_eq_some_iff.mp hafter
  have hother : (a ≠ record.agentId ∨
      ∀ name ∈ ["agent.json"], ∀ c, op ≠ .write (store.agentDir record.agentId ++ [name]) c) →
      Loadable store fs' a := by
    intro hout
    have hkept : KeysKept store a ["agent.json"] [] fs fs' :=
      (registerOp_keys hb hop (by decide) hout).exec hexec
    exact h.kept hkept (List.mem_singleton_self _) fun n hn => absurd hn List.not_mem_nil
  by_cases ha : a = record.agentId
  · subst ha
    by_cases hown : op = .write (store.agentFile record.agentId) (.agent record)
    · rw [hown,RegisterOp.run,FilesystemX402Store.agentFile,agentDir_eq hb] at hexec
      obtain ⟨hlocal,hfile⟩ := atomicWriteJson_spec (plain_agentPath hb) isPlain_agentJson hexec
      exact ⟨hb,h.dir.mono hlocal.dirs,record,content_of_fileAt hfile⟩
    · apply hother
      right
      rintro name hname c rfl
      rw [List.mem_singleton.mp hname] at hop hown
      simp [FilesystemX402Store.registerOps,FilesystemX402Store.agentFile,
        FilesystemX402Store.mandateFile,FilesystemX402Store.pendingStateFile] at hop
      exact hown (by rw [hop]; rfl)
  · exact hother (Or.inl ha)

/-- Once an agent is there it stays: its record is replaced by another one at most. -/
theorem Loadable.move (h : Loadable store s.files a) (hplain : PlainInv store s)
    (hnames : ∀ b payload σ, s.Inside b payload σ → ∀ n ∈ σ.nullifiers, IsPlain n)
    (hmove : Move M store maxSize s act s') : Loadable store s'.files a := by
  have haside : ∀ b, Aside a b ["agent.json"] := by
    intro b name hname
    rw [List.mem_singleton.mp hname]
    exact Or.inr (by decide)
  have hnil : ∀ n ∈ ([] : List String), IsPlain n := fun n hn => absurd hn List.not_mem_nil
  cases hmove with
  | registration hg htodo hafter =>
    have henrols := hplain.registrations _ _ hg
    exact h.registerOp henrols.plain (henrols.mem_ops (htodo ▸ List.mem_cons_self)) hafter
  | registrationFails hg htodo hcut =>
    have henrols := hplain.registrations _ _ hg
    have hmem := henrols.mem_ops (htodo ▸ List.mem_cons_self)
    exact h.kept (registerOp_fails_keys henrols.plain hmem (by decide) _ _ hcut)
      (List.mem_singleton_self _) hnil
  | stage hr hp hstage =>
    exact h.kept (hstage.keys (hplain.requests _ _ hr) (by decide) (haside _))
      (List.mem_singleton_self _) (hnames _ _ _ ⟨_,insideAt_of_phase hr hp⟩)
  | requestFails hr hp hcut =>
    exact h.kept (hcut.keys (hplain.requests _ _ hr) (by decide) (haside _))
      (List.mem_singleton_self _) (hnames _ _ _ ⟨_,insideAt_of_phase hr hp⟩)
  | work _ hwork =>
    exact h.kept (hwork.keys hplain.worker (by decide)) (List.mem_singleton_self _) hnil
  | workFails hwork =>
    exact h.kept (hwork.keys hplain.worker (by decide)) (List.mem_singleton_self _) hnil
  | _ => exact h

end Files

section Vetted
variable {M : Miden} {store : FilesystemX402Store} {maxSize : ℕ} {s s' : Server} {act : Action}
  {acts : List Action} {fs fs' : Files} {a : String} {payload : AgenticPayload} {σ σ' : Stage}
  {broke : Bool}

/-- The payload passed the checks of the agent, which can still be loaded. -/
structure Vetted (M : Miden) (store : FilesystemX402Store) (fs : Files) (a : String)
    (payload : AgenticPayload) : Prop where
  loadable : Loadable store fs a
  passed : ∃ record mandate pending ns, checkPayload M record mandate pending payload = .ok ns

/-- What a request inside the mutex has behind it. -/
def StageVetted (M : Miden) (store : FilesystemX402Store) (s : Server) (a : String)
    (payload : AgenticPayload) : Stage → Prop
  | .entered => True
  | .haveRecord _ | .haveMandate _ _ => Loadable store s.files a
  | .advanced p ns _ =>
    Vetted M store s.files a payload ∧ ⟨a,p.lastAcceptedSeq + 1,payload,ns⟩ ∈ s.trail a
  | _ => Vetted M store s.files a payload

/-- Every payment of the agent that moved its pending state passed the checks, the accepted ones are among
them, and so is what was checked of those on their way. -/
structure AgentVetted (M : Miden) (store : FilesystemX402Store) (s : Server) (a : String) : Prop where
  stages : ∀ payload σ, s.Inside a payload σ → StageVetted M store s a payload σ
  trail : ∀ x ∈ s.trail a, Vetted M store s.files a x.payload
  history : s.history a ⊆ s.trail a

theorem Vetted.mono (h : Vetted M store fs a payload)
    (hload : Loadable store fs a → Loadable store fs' a) : Vetted M store fs' a payload :=
  ⟨hload h.loadable,h.passed⟩

theorem StageVetted.mono (h : StageVetted M store s a payload σ)
    (hload : Loadable store s.files a → Loadable store s'.files a)
    (htrail : s.trail a ⊆ s'.trail a) : StageVetted M store s' a payload σ := by
  cases σ with
  | entered => trivial
  | haveRecord _ => exact hload h
  | haveMandate _ _ => exact hload h
  | advanced p ns now => exact ⟨h.1.mono hload,htrail h.2⟩
  | _ => exact Vetted.mono h hload

/-- The agent does not pay in the step. -/
theorem AgentVetted.keep (h : AgentVetted M store s a)
    (hload : Loadable store s.files a → Loadable store s'.files a) (htrail : s'.trail a = s.trail a)
    (hhistory : s'.history a = s.history a)
    (hinside : ∀ payload σ, s'.Inside a payload σ → s.Inside a payload σ ∨ σ = .entered) :
    AgentVetted M store s' a := by
  refine ⟨?_,?_,?_⟩
  · intro payload σ hi
    rcases hinside payload σ hi with hold | rfl
    · exact (h.stages payload σ hold).mono hload (htrail ▸ List.Subset.refl _)
    · trivial
  · rw [htrail]
    exact fun x hx => (h.trail x hx).mono hload
  · rw [htrail,hhistory]
    exact h.history

/-- A step of a request, seen from the stage it comes from. -/
theorem vetted_of_stage (hmove : StageMove M store a payload s.files σ σ' fs') (ha : IsPlain a)
    (hstage : StageVetted M store s a payload σ) (hfiles : s'.files = fs')
    (hload : Loadable store s.files a → Loadable store s'.files a)
    (htrail : s'.trail a = s.trail a ++ advance a payload σ') :
    StageVetted M store s' a payload σ' ∧
      (∀ x ∈ advance a payload σ', Vetted M store s'.files a x.payload) ∧
      ∀ x ∈ acceptance a payload σ', x ∈ s.trail a := by
  have hnone : ∀ {P : Acceptance → Prop}, ∀ x ∈ ([] : List Acceptance), P x :=
    fun x hx => absurd hx List.not_mem_nil
  cases hmove with
  | loadAgent hrecord =>
    exact ⟨hload (loadable_of_load ha hrecord),hnone,hnone⟩
  | loadMandate => exact ⟨hload hstage,hnone,hnone⟩
  | check _ hcheck => exact ⟨⟨hload hstage,_,_,_,_,hcheck⟩,hnone,hnone⟩
  | clear _ _ => exact ⟨Vetted.mono hstage hload,hnone,hnone⟩
  | reserve _ => exact ⟨Vetted.mono hstage hload,hnone,hnone⟩
  | advance _ =>
    have hvetted := Vetted.mono hstage hload
    refine ⟨⟨hvetted,?_⟩,?_,hnone⟩
    · rw [htrail]
      exact List.mem_append_right _ (List.mem_singleton_self _)
    · intro x hx
      rw [List.mem_singleton.mp hx]
      exact hvetted
  | enqueue _ =>
    refine ⟨Vetted.mono hstage.1 hload,hnone,?_⟩
    intro x hx
    rw [List.mem_singleton.mp hx]
    exact hstage.2

theorem AgentVetted.move (h : AgentVetted M store s a) (hmove : AgentMove M store a s s' broke)
    (hload : Loadable store s.files a → Loadable store s'.files a) : AgentVetted M store s' a := by
  cases hmove with
  | quiet _ htrail hhistory _ _ hinside _ => exact h.keep hload htrail hhistory hinside
  | register _ _ _ _ _ _ _ htrail hhistory hinside _ =>
    exact h.keep hload htrail hhistory fun payload σ hi => Or.inl ((hinside payload σ).mp hi)
  | cut _ _ hgone _ htrail hhistory _ =>
    exact h.keep hload htrail hhistory fun payload σ hi => absurd hi (hgone payload σ)
  | stage ha hfrom hto _ htrail hhistory hstage =>
    have hold := h.stages _ _ ((hfrom _ _).mpr ⟨rfl,rfl⟩)
    obtain ⟨hnext,hadvance,haccept⟩ := vetted_of_stage hstage ha hold rfl hload htrail
    refine ⟨?_,?_,?_⟩
    · intro payload' σ'' hi
      obtain ⟨rfl,rfl⟩ := (hto payload' σ'').mp hi
      exact hnext
    · intro x hx
      rw [htrail] at hx
      rcases List.mem_append.mp hx with hx | hx
      · exact (h.trail x hx).mono hload
      · exact hadvance x hx
    · intro x hx
      rw [hhistory] at hx
      rw [htrail]
      rcases List.mem_append.mp hx with hx | hx
      · exact List.mem_append_left _ (h.history hx)
      · exact List.mem_append_left _ (haccept x hx)

/-- The record is that of a payment which moved the pending state of the agent. -/
def Server.Advanced (s : Server) (store : FilesystemX402Store) (d : Path) (tx : QueuedTx) : Prop :=
  ∀ a, d = store.agentPath a → ∃ x ∈ s.trail a, x.seq = tx.seq ∧ x.payload = tx.payload

theorem lasting_advanced : Lasting (s.Advanced store) := by
  intro d tx tx' h hseq hpayload a ha
  obtain ⟨x,hx,hxseq,hxpayload⟩ := h a ha
  exact ⟨x,hx,hxseq.trans hseq.symm,hxpayload.trans hpayload.symm⟩

structure VettedInv (M : Miden) (store : FilesystemX402Store) (s : Server) : Prop where
  shared : SharedInv M store s
  payloads : ∀ t r, s.request t = some r → ∀ n ∈ payloadNullifiers M r.payload, IsPlain n
  agents : ∀ a, AgentVetted M store s a
  recorded : Recorded store (s.Advanced store) s

theorem VettedInv.stage_plain (h : VettedInv M store s) (hi : s.Inside a payload σ) :
    ∀ n ∈ σ.nullifiers, IsPlain n := by
  intro n hn
  obtain ⟨t,m,hm⟩ := id hi
  exact h.payloads t _ hm n (h.shared.stage_nullifiers hi hn)

theorem AgentMove.trail_subset (hmove : AgentMove M store a s s' broke) : s.trail a ⊆ s'.trail a := by
  cases hmove with
  | quiet _ htrail _ _ _ _ _ => exact htrail ▸ List.Subset.refl _
  | register _ _ _ _ _ _ _ htrail _ _ _ => exact htrail ▸ List.Subset.refl _
  | cut _ _ _ _ htrail _ _ => exact htrail ▸ List.Subset.refl _
  | stage _ _ _ _ htrail _ _ =>
    rw [htrail]
    exact List.subset_append_left _ _

theorem VettedInv.move (h : VettedInv M store s) (hact : act.Plain M)
    (hmove : Move M store maxSize s act s') : VettedInv M store s' := by
  have hagent := hmove.agent h.shared.lock h.shared.plain
  refine ⟨h.shared.move hact.plainId hmove,?_,fun a => ?_,?_⟩
  · refine hmove.requests_all
      (P := fun _ payload => ∀ n ∈ payloadNullifiers M payload, IsPlain n) h.payloads ?_
    rintro a payload rfl
    exact hact.2
  · exact (h.agents a).move (hagent a) fun hload =>
      hload.move h.shared.plain (fun b payload σ hi => h.stage_plain hi) hmove
  · -- the payment about to be queued has moved the pending state
    have hnext := h.recorded.move lasting_advanced ?_ hmove
    · apply hnext.mono
      intro d tx htx a ha
      obtain ⟨x,hx,hsame⟩ := htx a ha
      exact ⟨x,(hagent a).trail_subset hx,hsame⟩
    · intro a payload p ns now hi b hb
      obtain ⟨t,m,hm⟩ := id hi
      have hplain := h.shared.plain.requests t _ hm
      rw [resolved_agentDir hplain] at hb
      obtain rfl := agentPath_inj hb
      exact ⟨_,((h.agents a).stages _ _ hi).2,rfl,rfl⟩

end Vetted

end MidenX402.Facilitator
