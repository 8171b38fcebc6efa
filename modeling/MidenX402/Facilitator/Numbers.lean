import MidenX402.Facilitator.Lookup

/-!
# The numbers of payments

A payment takes the number after the one in the pending state on disk.  A payment that was cut off
leaves a gap, so records need not be numbered without gaps; but no number has been used that the
pending state has not counted, and so none is used twice.
-/

namespace MidenX402.Facilitator
open Disk KeyedLock Rust

section Stages
variable {store : FilesystemX402Store} {a : String} {fs fs' : Files} {used : ℕ → Prop}
  {payload : AgenticPayload} {σ : Stage}

/-- The pending state on disk. -/
def PendingAt (store : FilesystemX402Store) (a : String) (fs : Files) (p : PendingState) : Prop :=
  fs.fileAt (store.keyPath a "pending_state.json") = some (.pending p)

theorem pendingAt_iff {p : PendingState} :
    PendingAt store a fs p ↔ store.content fs a "pending_state.json" = .pending p :=
  (content_eq (c := .pending p) nofun).symm

theorem PendingAt.inj {p p' : PendingState} (h : PendingAt store a fs p)
    (h' : PendingAt store a fs p') : p = p' := by
  rw [PendingAt,h] at h'
  injection h' with h'
  injection h'

/-- The pending state has counted up to this number. -/
structure Numbered (store : FilesystemX402Store) (a : String) (fs : Files) (q : ℕ) : Prop where
  plain : IsPlain a
  dir : HasDir store fs a
  counted : ∃ p, PendingAt store a fs p ∧ q ≤ p.lastAcceptedSeq

/-- Every number of a record is one of these. -/
def NumbersWithin (store : FilesystemX402Store) (a : String) (fs : Files) (used : ℕ → Prop) : Prop :=
  ∀ sub ∈ recordDirs, ∀ q c, fs.fileAt (store.recordPath a sub q) = some c → used q

/-- What a request inside the mutex has read is still so; once it has advanced the pending state, the
number it took has no record yet. -/
def Stage.Counts (store : FilesystemX402Store) (a : String) (payload : AgenticPayload) (fs : Files) :
    Stage → Prop
  | .haveRecord _ | .haveMandate _ _ => HasDir store fs a
  | .checked p _ | .clear p _ | .reserved p _ _ => HasDir store fs a ∧ PendingAt store a fs p
  | .advanced p _ _ => HasDir store fs a ∧ PendingAt store a fs (newPending p payload) ∧
      NumbersWithin store a fs fun q => q ≤ p.lastAcceptedSeq
  | _ => True

theorem Stage.Counts.mono (h : σ.Counts store a payload fs)
    (hdirs : ∀ p, fs.isDir p = true → fs'.isDir p = true)
    (hpending : ∀ p, PendingAt store a fs p → PendingAt store a fs' p)
    (hwithin : ∀ used, NumbersWithin store a fs used → NumbersWithin store a fs' used) :
    σ.Counts store a payload fs' := by
  cases σ with
  | entered => trivial
  | haveRecord _ => exact HasDir.mono h hdirs
  | haveMandate _ _ => exact HasDir.mono h hdirs
  | checked p ns => exact ⟨h.1.mono hdirs,hpending p h.2⟩
  | clear p ns => exact ⟨h.1.mono hdirs,hpending p h.2⟩
  | reserved p ns now => exact ⟨h.1.mono hdirs,hpending p h.2⟩
  | advanced p ns now => exact ⟨h.1.mono hdirs,hpending _ h.2.1,hwithin _ h.2.2⟩
  | queued p ns now => trivial

/-- Where there is no pending state, nobody has read it. -/
theorem Stage.Counts.of_unwritten (h : σ.Counts store a payload fs)
    (hdirs : ∀ p, fs.isDir p = true → fs'.isDir p = true)
    (hnone : ∀ p, ¬ PendingAt store a fs p) : σ.Counts store a payload fs' := by
  cases σ with
  | entered => trivial
  | haveRecord _ => exact HasDir.mono h hdirs
  | haveMandate _ _ => exact HasDir.mono h hdirs
  | checked p ns => exact absurd h.2 (hnone p)
  | clear p ns => exact absurd h.2 (hnone p)
  | reserved p ns now => exact absurd h.2 (hnone p)
  | advanced p ns now => exact absurd h.2.1 (hnone _)
  | queued p ns now => trivial

/-- Only the step that advances the pending state writes it. -/
theorem StageMove.pending_keys {M : Miden} {σ' : Stage} (h : StageMove M store a payload fs σ σ' fs')
    (ha : IsPlain a) (hσ : ∀ p ns now, σ ≠ .reserved p ns now) :
    KeysKept store a ["pending_state.json"] σ.nullifiers fs fs' := by
  cases h with
  | reserve hafter =>
    obtain ⟨_,hexec⟩ := after_eq_some_iff.mp hafter
    refine (reserveNullifiers_keys ha (by decide) fun name hname => Or.inr ?_).exec hexec
    rw [List.mem_singleton.mp hname]
    decide
  | advance _ => exact absurd rfl (hσ _ _ _)
  | enqueue hafter =>
    obtain ⟨_,hexec⟩ := after_eq_some_iff.mp hafter
    exact (enqueue_keys ha (by decide)).exec hexec
  | _ => exact Std.Refl.refl _

theorem RecordsInv.renumber {w : Worker} {used' : ℕ → Prop} {history : List Acceptance}
    (h : RecordsInv store a fs w used history) (hused : NumbersWithin store a fs used') :
    RecordsInv store a fs w used' history :=
  ⟨h.named,h.committed,hused,h.recorded,h.held,h.taken⟩

end Stages

section Server
variable {M : Miden} {store : FilesystemX402Store} {maxSize : ℕ} {s s' : Server} {act : Action}
  {acts : List Action} {fs fs' : Files} {a : String} {used : ℕ → Prop} {broke : Bool}

/-- A pending state is in the directory of its agent, and none is there before it is registered. -/
structure NumbersInv (M : Miden) (store : FilesystemX402Store) (s : Server) : Prop where
  lock : LockInv s
  plain : PlainInv store s
  sole : SoleInv store s
  payloads : ∀ t r, s.request t = some r → ∀ n ∈ payloadNullifiers M r.payload, IsPlain n
  names : ∀ b payload σ, s.Inside b payload σ → ∀ n ∈ σ.nullifiers, IsPlain n
  housed : ∀ b p, PendingAt store b s.files p → HasDir store s.files b
  unwritten : ∀ t g, s.registration t = some g →
    store.enrolment g.record.agentId g.initial ∈ g.todo →
    ∀ p, ¬ PendingAt store g.record.agentId s.files p
  stages : ∀ b payload σ, s.Inside b payload σ → σ.Counts store b payload s.files
  records : ∀ b, RecordsInv store b s.files s.worker (Numbered store b s.files) (s.history b)

/-- Without a new payment there is no new number. -/
theorem RecordMove.within (hmove : RecordMove store maxSize a s s') (h : NumbersInv M store s)
    (hhistory : s'.history a = s.history a) (hw : NumbersWithin store a s.files used) :
    NumbersWithin store a s'.files used := by
  cases hmove with
  | quiet hfiles _ _ _ _ =>
    intro sub hsub q c hf
    exact hw sub hsub q c ((hfiles.files sub (seqFile q)).symm.trans hf)
  | enqueue _ _ _ hmore _ _ _ =>
    have hlen := congrArg List.length (hhistory.symm.trans hmore)
    simp at hlen
  | work hwork _ _ _ =>
    exact (((h.records a).renumber hw).work h.plain.worker hwork).1.numbers

theorem PendingAt.kept {names ns : List String} {p : PendingState} (hp : PendingAt store a fs p)
    (hkeys : KeysKept store a names ns fs fs') (hns : ∀ n ∈ ns, IsPlain n)
    (hname : "pending_state.json" ∈ names) : PendingAt store a fs' p :=
  pendingAt_iff.mpr ((hkeys.same hns _ hname).trans (pendingAt_iff.mp hp))

theorem PendingAt.old {names ns : List String} {p : PendingState} (hp : PendingAt store a fs' p)
    (hkeys : KeysKept store a names ns fs fs') (hname : "pending_state.json" ∈ names) :
    PendingAt store a fs p := pendingAt_iff.mpr (hkeys.pending hname (pendingAt_iff.mp hp))

/-- What becomes of the pending state of an agent in a move in which no write fails. -/
theorem AgentMove.pending (hmove : AgentMove M store a s s' false) (h : NumbersInv M store s) :
    (∀ p, PendingAt store a s'.files p ↔ PendingAt store a s.files p) ∨
    (∃ t g rest, s.registration t = some g ∧ g.record.agentId = a ∧
      g.todo = store.enrolment a g.initial :: rest ∧ s'.registration t = g.rest ∧
      s'.history a = s.history a ∧ ∀ payload σ, s'.Inside a payload σ ↔ s.Inside a payload σ) ∨
    ∃ p payload, HasDir store s.files a ∧ PendingAt store a s.files p ∧
      PendingAt store a s'.files (newPending p payload) := by
  generalize hbroke : false = broke at hmove
  cases hmove with
  | quiet _ _ _ hkeys hns _ _ =>
    have hplain := plain_of_inside hns h.names
    exact Or.inl fun p => ⟨fun hp => hp.old hkeys (by decide),fun hp => hp.kept hkeys hplain (by decide)⟩
  | register ha hg hid htodo _ _ _ _ hhistory hinside hrest =>
    exact Or.inr (Or.inl ⟨_,_,_,hg,hid,htodo,hrest,hhistory,hinside⟩)
  | @stage payload σ σ' ha hfrom _ _ _ _ hstage =>
    have hinside : s.Inside a payload σ := (hfrom payload σ).mpr ⟨rfl,rfl⟩
    by_cases hσ : ∃ p ns now, σ = .reserved p ns now
    · obtain ⟨p,ns,now,rfl⟩ := hσ
      obtain ⟨hdir,hp⟩ := h.stages a payload _ hinside
      generalize s'.files = fs' at hstage
      cases hstage with
      | advance hafter =>
        exact Or.inr (Or.inr ⟨p,payload,hdir,hp,(advancePendingState_spec ha hafter).2⟩)
    · have hkeys := hstage.pending_keys ha fun p ns now he => hσ ⟨p,ns,now,he⟩
      exact Or.inl fun p => ⟨fun hp => hp.old hkeys List.mem_cons_self,
        fun hp => hp.kept hkeys (h.names a payload σ hinside) List.mem_cons_self⟩
  | cut => cases hbroke

/-- What the agent's own files are after a move: the pending state only counts on. -/
theorem AgentMove.numbered (hmove : AgentMove M store a s s' false) (h : NumbersInv M store s) {q : ℕ}
    (hq : Numbered store a s.files q) : Numbered store a s'.files q := by
  have hdirs := hmove.dirs
  obtain ⟨ha,hdir,p,hp,hle⟩ := hq
  rcases hmove.pending h with hsame | ⟨t,g,rest,hg,rfl,htodo,-⟩ | ⟨p',payload,-,hp',hnew⟩
  · exact ⟨ha,hdir.mono hdirs,p,(hsame p).mpr hp,hle⟩
  · exact absurd hp (h.unwritten t g hg (htodo ▸ List.mem_cons_self) p)
  · obtain rfl := hp.inj hp'
    exact ⟨ha,hdir.mono hdirs,_,hnew,Nat.le_succ_of_le hle⟩

theorem StageMove.counts {payload : AgenticPayload} {σ σ' : Stage} (hmove : RecordMove store maxSize a s s')
    (hstage : StageMove M store a payload s.files σ σ' s'.files) (h : NumbersInv M store s)
    (ha : IsPlain a) (hinside : s.Inside a payload σ)
    (hhistory : s'.history a = s.history a ++ acceptance a payload σ') :
    σ'.Counts store a payload s'.files := by
  have hcounts := h.stages a payload σ hinside
  generalize hfs : s'.files = fs' at hstage
  cases hstage with
  | loadAgent hload => exact hasDir_of_loadAgent ha hload
  | loadMandate => exact hcounts
  | check hload _ => exact ⟨hcounts,loadPendingState_eq_ok ha hload⟩
  | clear _ _ => exact hcounts
  | reserve hafter =>
    obtain ⟨honly,-⟩ := reserveNullifiers_spec ha hafter
    refine ⟨hcounts.1.mono honly.dirs,(honly.key (by decide) ?_).trans hcounts.2⟩
    exact fun he => absurd (keyPath_inj he).2 (by decide)
  | @advance p ns now _ hafter =>
    obtain ⟨honly,hpending⟩ := advancePendingState_spec ha hafter
    refine ⟨hcounts.1.mono honly.dirs,hpending,?_⟩
    have hwithin : NumbersWithin store a s.files fun q => q ≤ p.lastAcceptedSeq := by
      intro sub hsub q c hf
      obtain ⟨-,-,p',hp',hle⟩ := (h.records a).numbers sub hsub q c hf
      obtain rfl := hp'.inj hcounts.2
      exact hle
    rw [← hfs]
    exact hmove.within h (hhistory.trans (List.append_nil _)) hwithin
  | enqueue _ => trivial

theorem NumbersInv.counts (h : NumbersInv M store s) (hagent : AgentMove M store a s s' false)
    (hrecord : RecordMove store maxSize a s s') :
    ∀ payload σ, s'.Inside a payload σ → σ.Counts store a payload s'.files := by
  have hdirs := hagent.dirs
  generalize hbroke : false = broke at hagent
  cases hagent with
  | quiet _ _ hhistory hkeys hns hinside _ =>
    have hplain := plain_of_inside hns h.names
    intro payload σ hi
    rcases hinside payload σ hi with hold | rfl
    · refine (h.stages a payload σ hold).mono hdirs ?_ fun used => hrecord.within h hhistory
      exact fun p hp => hp.kept hkeys hplain (by decide)
    · trivial
  | register _ hg hid htodo _ _ _ _ _ hinside _ =>
    subst hid
    intro payload σ hi
    refine (h.stages _ payload σ ((hinside payload σ).mp hi)).of_unwritten hdirs ?_
    exact h.unwritten _ _ hg (htodo ▸ List.mem_cons_self)
  | @stage payload σ σ' ha hfrom hto _ _ hhistory hstage =>
    intro payload' σ'' hi
    obtain ⟨rfl,rfl⟩ := (hto payload' σ'').mp hi
    exact StageMove.counts hrecord hstage h ha ((hfrom _ _).mpr ⟨rfl,rfl⟩) hhistory
  | cut => cases hbroke

theorem NumbersInv.names_move (h : NumbersInv M store s) (hagent : AgentMove M store a s s' broke) :
    ∀ payload σ, s'.Inside a payload σ → ∀ n ∈ σ.nullifiers, IsPlain n := by
  cases hagent with
  | quiet _ _ _ _ _ hinside _ =>
    intro payload σ hi
    rcases hinside payload σ hi with hold | rfl
    · exact h.names a payload σ hold
    · exact fun n hn => absurd hn List.not_mem_nil
  | register _ _ _ _ _ _ _ _ _ hinside _ =>
    exact fun payload σ hi => h.names a payload σ ((hinside payload σ).mp hi)
  | @stage payload σ σ' ha hfrom hto _ _ _ hstage =>
    intro payload' σ'' hi
    obtain ⟨rfl,rfl⟩ := (hto payload' σ'').mp hi
    have hinside : s.Inside a payload' σ := (hfrom _ _).mpr ⟨rfl,rfl⟩
    have hnames := h.names a payload' σ hinside
    generalize s'.files = fs' at hstage
    cases hstage with
    | check _ hcheck =>
      obtain ⟨t,m,hr⟩ := hinside
      intro n hn
      apply h.payloads t _ hr
      rw [← checkPayload_nullifiers hcheck]
      exact hn
    | clear _ _ => exact hnames
    | reserve _ => exact hnames
    | advance _ => exact hnames
    | _ => exact fun n hn => absurd hn List.not_mem_nil
  | cut _ _ hgone _ _ _ _ => exact fun payload σ hi => absurd hi (hgone payload σ)

theorem NumbersInv.records_move (h : NumbersInv M store s) (hagent : AgentMove M store a s s' false)
    (hrecord : RecordMove store maxSize a s s') :
    RecordsInv store a s'.files s'.worker (Numbered store a s'.files) (s'.history a) ∧
      Advances store a s.files s'.files (s.history a) := by
  have hold := h.records a
  have hnumbered : ∀ {w : Worker} {history : List Acceptance},
      RecordsInv store a s'.files w (Numbered store a s.files) history →
      RecordsInv store a s'.files w (Numbered store a s'.files) history := by
    intro w history hinv
    exact hinv.renumber fun sub hsub q c hf => hagent.numbered h (hinv.numbers sub hsub q c hf)
  cases hrecord with
  | quiet hfiles hhistory hworker _ _ =>
    rw [hhistory,hworker]
    exact ⟨hnumbered (hold.kept hfiles.records),hfiles.records.advances⟩
  | work hwork hhistory _ _ =>
    rw [hhistory]
    obtain ⟨hrecords,hadvances⟩ := hold.work h.plain.worker hwork
    exact ⟨hnumbered hrecords,hadvances⟩
  | @enqueue payload p ns now ha hinside hafter hhistory hworker _ _ =>
    have hns := h.names a payload _ hinside
    obtain ⟨hdir,hpending,hwithin⟩ := h.stages a payload _ hinside
    obtain ⟨_,hexec⟩ := after_eq_some_iff.mp hafter
    have hkeys : KeysKept store a ["pending_state.json"] ns s.files s'.files :=
      (enqueue_keys ha (by decide)).exec hexec
    have hpending' := hpending.kept hkeys hns List.mem_cons_self
    have hcounted : ∀ q, q ≤ p.lastAcceptedSeq + 1 → Numbered store a s'.files q :=
      fun q hle => ⟨ha,hdir.mono hkeys.dirs,_,hpending',hle⟩
    have hfree : ¬ p.lastAcceptedSeq + 1 ≤ p.lastAcceptedSeq := Nat.not_succ_le_self _
    rw [hhistory,hworker]
    exact (hold.renumber hwithin).enqueue ha hns rfl rfl rfl hfree
      (fun q hle => hcounted q (Nat.le_succ_of_le hle)) (hcounted _ le_rfl) hafter

theorem NumbersInv.housed_move (h : NumbersInv M store s) (hagent : AgentMove M store a s s' false)
    {p : PendingState} (hp : PendingAt store a s'.files p) : HasDir store s'.files a := by
  have hdirs := hagent.dirs
  rcases hagent.pending h with hsame | ⟨t,g,rest,hg,rfl,htodo,-⟩ | ⟨p',payload,hdir,-,-⟩
  · exact (h.housed a p ((hsame p).mp hp)).mono hdirs
  · have hplain := (h.plain.registrations t g hg).plain
    have hdir := h.sole.resolves h.plain hg htodo List.mem_cons_self
    rw [agentDir_eq hplain] at hdir
    exact HasDir.mono hdir hdirs
  · exact hdir.mono hdirs

theorem NumbersInv.unwritten_move (h : NumbersInv M store s) (hact : act.PlainId)
    (hmove : Move M store maxSize s act s') (hagent : ∀ a, AgentMove M store a s s' false) :
    ∀ t g, s'.registration t = some g → store.enrolment g.record.agentId g.initial ∈ g.todo →
      ∀ p, ¬ PendingAt store g.record.agentId s'.files p := by
  intro t g hg hmem p hp
  rcases hmove.registration_origin hg with ⟨g0,hg0,hfrom⟩ | ⟨req,now,rfl,-,habsent,-,hfiles,rfl⟩
  · obtain ⟨hrecord,-,hinitial,htodo⟩ := origin_record hfrom
    have hnone : ∀ p, ¬ PendingAt store g.record.agentId s.files p := by
      rw [hrecord,hinitial] at hmem
      rw [hrecord]
      exact h.unwritten t g0 hg0 (htodo hmem)
    rcases (hagent g.record.agentId).pending h with hsame | ⟨t',g',rest,hg',hid,htodo',hrest,-⟩ |
      ⟨p',payload,-,hp',-⟩
    · exact hnone p ((hsame p).mp hp)
    · obtain rfl := h.sole.unique t' t g' g0 hg' hg0 (hid.trans (congrArg AgentRecord.agentId hrecord))
      rw [hg] at hrest
      rw [← hid] at htodo'
      exact enrolment_notMem_rest (h.plain.registrations t' g' hg') htodo' hrest.symm hmem
    · exact hnone p' hp'
  · rw [hfiles] at hp
    have hexists := pathExists_of_hasDir (h.housed req.agentId p hp) hact
    rw [habsent] at hexists
    cases hexists

theorem NumbersInv.move (h : NumbersInv M store s) (hact : act.Smooth M ∧ act ≠ .restart)
    (hsole : s.Unraced store act) (hmove : Move M store maxSize s act s') : NumbersInv M store s' := by
  have hids := hact.1.1.plainId
  have hagent : ∀ a, AgentMove M store a s s' false := fun a => hact.1.2 ▸ hmove.agent h.lock h.plain a
  have hrecord := hmove.record h.plain h.names ⟨hact.1.2,hact.2⟩
  refine ⟨h.lock.move hmove,h.plain.move hmove hids,h.sole.move h.lock h.plain hmove hids hsole,
    ?_,?_,?_,h.unwritten_move hids hmove hagent,?_,?_⟩
  · refine hmove.requests_all (P := fun _ payload => ∀ n ∈ payloadNullifiers M payload, IsPlain n)
      h.payloads ?_
    rintro a payload rfl
    exact hact.1.1.2
  · exact fun b => h.names_move (hagent b)
  · exact fun b p hp => h.housed_move (hagent b) hp
  · exact fun b => h.counts (hagent b) (hrecord b)
  · exact fun b => (h.records_move (hagent b) (hrecord b)).1

theorem numbersInv_start (hfresh : Fresh store fs) : NumbersInv M store (Server.start fs) := by
  have hshared : SharedInv M store (Server.start fs) := sharedInv_start fs
  refine ⟨hshared.lock,hshared.plain,soleInv_start fs,?_,?_,?_,?_,?_,
    fun b => recordsInv_start hfresh b _⟩
  · intro t r hr
    exact absurd hr (request_ne rfl)
  · exact fun b payload σ hi => absurd hi (not_inside_start fs b payload σ)
  · intro b p hp
    rw [PendingAt,show (Server.start fs).files = fs from rfl,hfresh.key] at hp
    cases hp
  · intro t g hg
    exact absurd hg (registration_ne rfl)
  · exact fun b payload σ hi => absurd hi (not_inside_start fs b payload σ)

theorem numbersInv_run (hfresh : Fresh store fs) (hacts : ∀ act ∈ acts, act.Smooth M ∧ act ≠ .restart)
    (hsole : (Server.start fs).Along M store maxSize (Server.Unraced store) acts)
    (hrun : (Server.start fs).run M store maxSize acts = some s) : NumbersInv M store s :=
  run_along (fun hs hact hmove => NumbersInv.move hs hact.1 hact.2 hmove) (numbersInv_start hfresh)
    ((along_of_forall fun act h _ => hacts act h).and hsole) hrun

end Server

end MidenX402.Facilitator
