import MidenX402.Facilitator.Agent
import MidenX402.Facilitator.Queue
import MidenX402.Facilitator.Written

/-!
# What the records say

A property of payments and of the directories their records are in.  A record is written by the request
that queues the payment and rewritten by the worker; the worker takes what it rewrites from the queue.
Agent ids and nullifiers may be any strings, and operations may fail.
-/

namespace MidenX402.Facilitator
open Disk KeyedLock Rust

/-- Records two levels below a directory have the property there. -/
def RecordsBelow (R : Path → QueuedTx → Prop) (p : Path) (c : Content) : Prop :=
  ∀ tx, c = .queued tx → R p.dropLast.dropLast tx

section Operations
variable {store : FilesystemX402Store} {fs fs' : Files} {a : String} {R : Path → QueuedTx → Prop}

theorem recordsBelow_of_ne {p : Path} {c : Content} (h : ∀ tx, c ≠ .queued tx) : RecordsBelow R p c :=
  fun tx htx => absurd htx (h tx)

theorem silent_recordsBelow (R : Path → QueuedTx → Prop) : Silent (RecordsBelow R) where
  empty _ := recordsBelow_of_ne fun _ => nofun
  torn _ := recordsBelow_of_ne fun _ => nofun
  lookup _ _ := recordsBelow_of_ne fun _ => nofun
  append p c e := by
    apply recordsBelow_of_ne
    cases c <;> exact fun _ => nofun

theorem recordsBelow_queued {tx : QueuedTx} (h : R (resolved (store.agentDir a)) tx) (sub name : String) :
    RecordsBelow R (resolved (store.agentDir a) ++ [sub] ++ [name]) (.queued tx) := by
  intro tx' htx
  obtain rfl := Content.queued.inj htx
  rw [List.dropLast_concat,List.dropLast_concat]
  exact h

theorem recordsBelow_fills {payload : AgenticPayload} {σ : Stage} (h : ∀ p ns now,
    σ = .advanced p ns now → R (resolved (store.agentDir a)) (queuedTx p payload ns now)) :
    σ.Fills store a payload (RecordsBelow R) :=
  ⟨fun _ _ _ _ _ => recordsBelow_of_ne fun _ => nofun,
    fun p ns now hσ => recordsBelow_queued (h p ns now hσ)⟩

/-- No operation of a registration writes a record. -/
theorem registerOp_keeps_records {record : AgentRecord} {mandate : AgentMandate} {initial : String}
    {op : RegisterOp} (hop : op ∈ store.registerOps record mandate initial) :
    op.run.Steps (Keeps (RecordsBelow R)) fs := by
  apply registerOp_keeps (silent_recordsBelow R)
  rintro raw c rfl name tx rfl
  simp [FilesystemX402Store.registerOps] at hop

/-- A file in a subdirectory lies two levels below the agent's directory. -/
theorem locate_sub {sub : String} (hsub : IsPlain sub) {seq : ℕ} {p : Path}
    (h : fs.locate (store.agentDir a ++ [sub,seqFile seq]) = some p) :
    p.dropLast.dropLast = resolved (store.agentDir a) := by
  have hnorm := normalize_sub store a hsub (isPlain_seqFile seq)
  rw [sub_split,components_concat (isPlain_seqFile seq),List.dropLast_concat] at hnorm
  rw [sub_split,locate_concat (isPlain_seqFile seq)] at h
  obtain ⟨d,hd,rfl⟩ := Option.map_eq_some_iff.mp h
  rw [List.dropLast_concat,resolveDir_eq_normalize hd,hnorm,List.dropLast_concat]

/-- A record that moves stays below the directory of its agent. -/
theorem keptByMove_recordsBelow (R : Path → QueuedTx → Prop) : KeptByMove store (RecordsBelow R) := by
  intro fs b seq p q c hp hq hQ tx htx
  rw [queueFile_split] at hp
  rw [FilesystemX402Store.failedDir,List.append_assoc,List.singleton_append] at hq
  have hfailedDir : IsPlain "failed" := by decide
  rw [locate_sub hfailedDir hq,← locate_sub (by decide) hp]
  exact hQ tx htx

/-- What a listing yields is in a file below the directory of the agent, and can be read. -/
theorem mem_listQueued (hfiles : fs.AllFiles (RecordsBelow R)) {queued : List QueuedTx}
    (hlist : store.listQueued a fs = .ok queued) {tx : QueuedTx} (htx : tx ∈ queued) :
    R (resolved (store.agentDir a)) tx ∧ tx.Readable := by
  rw [FilesystemX402Store.listQueued] at hlist
  split at hlist
  · rw [← Except.ok.inj hlist] at htx
    cases htx
  · rename_i d hloc
    split at hlist
    · obtain ⟨txs,hrec,rfl⟩ := map_eq_ok hlist
      have hmem := (List.perm_insertionSort _ txs).mem_iff.mp htx
      obtain ⟨name,hentry,hread⟩ := (readRecords_eq_ok hrec).2 tx hmem
      have hfile := FileSystem.fileAt_of_node (FileSystem.mem_entries.mp hentry).1
      rw [FilesystemX402Store.queueDir,locate_concat (by decide)] at hloc
      obtain ⟨home,hhome,rfl⟩ := Option.map_eq_some_iff.mp hloc
      have hbelow := hfiles _ _ hfile tx rfl
      rw [List.dropLast_concat,List.dropLast_concat,resolveDir_eq_normalize hhome] at hbelow
      exact ⟨hbelow,hread⟩
    · rw [← Except.ok.inj hlist] at htx
      cases htx

/-- Below the directories of agents all records can be read. -/
def FilesystemX402Store.ReadsBelow (store : FilesystemX402Store) (d : Path) (tx : QueuedTx) : Prop :=
  (∃ a, d = store.agentPath a) → tx.Readable

end Operations

section Moves
variable {M : Miden} {store : FilesystemX402Store} {maxSize : ℕ} {fs fs' : Files} {a : String}
  {R : Path → QueuedTx → Prop} {s s' : Server} {act : Action}

/-- The payments the worker has taken from the queues. -/
def Worker.records : Worker → List (String × QueuedTx)
  | .batch b todo _ | .moving b _ todo _ => todo.map fun tx => (b,tx)
  | .proving b tx todo _ | .finishing b tx todo _ => (tx :: todo).map fun tx => (b,tx)
  | _ => []

/-- Registrations under way do what `register_agent` does. -/
def Enrolling (store : FilesystemX402Store) (s : Server) : Prop :=
  ∀ t g, s.registration t = some g →
    ∀ op ∈ g.todo, op ∈ store.registerOps g.record g.mandate g.initial

theorem enrolling_start (fs : Files) : Enrolling store (Server.start fs) := by
  intro t g hg
  exact absurd hg (registration_ne rfl)

theorem Enrolling.move (h : Enrolling store s) (hmove : Move M store maxSize s act s') :
    Enrolling store s' := by
  refine hmove.registrations_all
    (P := fun _ g => ∀ op ∈ g.todo, op ∈ store.registerOps g.record g.mandate g.initial) h ?_ ?_
  · exact fun req now _ _ op hop => hop
  · intro t g g' hg hrest op hop
    obtain ⟨rfl,-⟩ := Registering.rest_eq_some hrest
    exact h t g hg op (List.mem_of_mem_tail hop)

/-- A step keeps the property of all records when what it writes has it. -/
theorem Move.keeps (hmove : Move M store maxSize s act s') (henrolling : Enrolling store s)
    (hqueue : ∀ a payload p ns now, s.Inside a payload (.advanced p ns now) →
      R (resolved (store.agentDir a)) (queuedTx p payload ns now))
    (hwrites : act.isWork = true → ∀ b tx, s.worker.Writes b tx → R (resolved (store.agentDir b)) tx) :
    Keeps (RecordsBelow R) s.files s'.files := by
  cases hmove with
  | registration hg htodo hafter =>
    exact after_keeps (registerOp_keeps_records (henrolling _ _ hg _ (htodo ▸ List.mem_cons_self))) hafter
  | registrationFails hg htodo hcut =>
    exact (registerOp_keeps_records (henrolling _ _ hg _ (htodo ▸ List.mem_cons_self))).failed hcut
  | stage hr hp hstage =>
    refine hstage.keeps (silent_recordsBelow R) (recordsBelow_fills ?_)
    rintro p ns now rfl
    exact hqueue _ _ p ns now ⟨_,insideAt_of_phase hr hp⟩
  | requestFails hr hp hcut =>
    refine hcut.keeps (silent_recordsBelow R) (recordsBelow_fills ?_)
    rintro p ns now rfl
    exact hqueue _ _ p ns now ⟨_,insideAt_of_phase hr hp⟩
  | work hact hwork =>
    refine hwork.keeps (silent_recordsBelow R) (keptByMove_recordsBelow R) fun b tx hw =>
      recordsBelow_queued ?_
    rcases hact with hact | hidle
    · exact hwrites hact b tx hw
    · rw [hidle] at hw
      exact hw.elim
  | workFails hwork =>
    exact hwork.keeps (silent_recordsBelow R) (keptByMove_recordsBelow R) fun b tx hw =>
      recordsBelow_queued (hwrites rfl b tx hw)
  | _ => exact Std.Refl.refl _

end Moves

section Recorded
variable {M : Miden} {store : FilesystemX402Store} {maxSize : ℕ} {fs fs' : Files}
  {R R' : Path → QueuedTx → Prop} {s s' : Server} {act : Action} {w w' : Worker}

/-- The property is about what the worker leaves as it is. -/
def Lasting (R : Path → QueuedTx → Prop) : Prop :=
  ∀ d tx tx', R d tx → tx'.seq = tx.seq → tx'.payload = tx.payload → R d tx'

/-- All records have the property, on disk and in the hands of the worker. -/
structure Recorded (store : FilesystemX402Store) (R : Path → QueuedTx → Prop) (s : Server) : Prop where
  enrolling : Enrolling store s
  files : s.files.AllFiles (RecordsBelow R)
  held : ∀ b tx, (b,tx) ∈ s.worker.records → R (resolved (store.agentDir b)) tx

theorem Recorded.mono (h : Recorded store R s) (hR : ∀ d tx, R d tx → R' d tx) : Recorded store R' s :=
  ⟨h.enrolling,fun p c hc tx htx => hR _ tx (h.files p c hc tx htx),
    fun b tx hmem => hR _ tx (h.held b tx hmem)⟩

theorem Worker.Writes.of_held {b : String} {tx : QueuedTx} (h : w.Writes b tx) (hR : Lasting R)
    (hheld : ∀ b tx, (b,tx) ∈ w.records → R (resolved (store.agentDir b)) tx) :
    R (resolved (store.agentDir b)) tx := by
  cases w with
  | batch b' todo rest =>
    cases todo with
    | nil => exact h.elim
    | cons tx' todo =>
      obtain ⟨rfl,now,rfl⟩ := h
      exact hR _ tx' _ (hheld b' tx' List.mem_cons_self) rfl rfl
  | finishing b' tx' todo rest =>
    obtain ⟨rfl,rfl⟩ := h
    exact hheld b' tx List.mem_cons_self
  | _ => exact h.elim

theorem recordOutcome_same (tx : QueuedTx) (now : ℕ) (outcome : Option String) :
    (recordOutcome tx now outcome).seq = tx.seq ∧
      (recordOutcome tx now outcome).payload = tx.payload := by
  cases outcome with
  | none => exact ⟨rfl,rfl⟩
  | some e => exact ⟨rfl,rfl⟩

section Held
variable {P : String → QueuedTx → Prop}

/-- The worker takes records from the queues, and otherwise changes their status only. -/
theorem WorkMove.held {attempts : List (String × ℕ)} {ticks : ℕ}
    (h : WorkMove store maxSize fs w w' fs' attempts ticks)
    (hP : ∀ b tx tx', P b tx → tx'.seq = tx.seq → tx'.payload = tx.payload → P b tx')
    (hlist : ∀ b queued, store.listQueued b fs = .ok queued → ∀ tx ∈ queued, P b tx)
    (hheld : ∀ b tx, (b,tx) ∈ w.records → P b tx) : ∀ b tx, (b,tx) ∈ w'.records → P b tx := by
  have hcons : ∀ {b' : String} {tx' : QueuedTx} {todo : List QueuedTx}, P b' tx' →
      (∀ b tx, (b,tx) ∈ todo.map (fun tx => (b',tx)) → P b tx) →
      ∀ b tx, (b,tx) ∈ (tx' :: todo).map (fun tx => (b',tx)) → P b tx := by
    intro b' tx' todo hself hrest b tx hmem
    rcases List.mem_cons.mp hmem with heq | hmem
    · obtain ⟨rfl,rfl⟩ := Prod.mk.inj heq
      exact hself
    · exact hrest b tx hmem
  have htail : ∀ {b' : String} {tx' : QueuedTx} {todo : List QueuedTx},
      (∀ b tx, (b,tx) ∈ (tx' :: todo).map (fun tx => (b',tx)) → P b tx) →
      P b' tx' ∧ ∀ b tx, (b,tx) ∈ todo.map (fun tx => (b',tx)) → P b tx :=
    fun hall => ⟨hall _ _ List.mem_cons_self,fun b tx hmem => hall b tx (List.mem_cons_of_mem _ hmem)⟩
  cases h with
  | list hqueued =>
    intro b tx hmem
    obtain ⟨tx',htx,heq⟩ := List.mem_map.mp hmem
    obtain ⟨rfl,rfl⟩ := Prod.mk.inj heq
    exact hlist _ _ hqueued _ (List.mem_of_mem_filter (List.mem_of_mem_take htx))
  | prove _ => exact hcons (hP _ _ _ (htail hheld).1 rfl rfl) (htail hheld).2
  | @attempt a tx todo rest now outcome =>
    obtain ⟨hseq,hpayload⟩ := recordOutcome_same tx now outcome
    exact hcons (hP _ _ _ (htail hheld).1 hseq hpayload) (htail hheld).2
  | finish _ =>
    split
    · exact (htail hheld).2
    · exact (htail hheld).2
  | move _ => exact hheld
  | _ => exact fun b tx hmem => absurd hmem List.not_mem_nil

theorem WorkCut.held (h : WorkCut store fs w w' fs')
    (hP : ∀ b tx tx', P b tx → tx'.seq = tx.seq → tx'.payload = tx.payload → P b tx')
    (hheld : ∀ b tx, (b,tx) ∈ w.records → P b tx) : ∀ b tx, (b,tx) ∈ w'.records → P b tx := by
  cases h with
  | @prove a tx todo rest now steps _ _ =>
    intro b tx' hmem
    rcases List.mem_cons.mp hmem with heq | hmem
    · obtain ⟨rfl,rfl⟩ := Prod.mk.inj heq
      exact hP _ tx _ (hheld _ tx List.mem_cons_self) rfl rfl
    · exact hheld b tx' (List.mem_cons_of_mem _ hmem)
  | finish _ =>
    split
    · exact fun b tx hmem => hheld b tx (List.mem_cons_of_mem _ hmem)
    · exact fun b tx hmem => hheld b tx (List.mem_cons_of_mem _ hmem)
  | move _ => exact hheld

/-- What holds of all listed records, and does not depend on their status, holds of those in the hands of
the worker. -/
theorem Move.held (hmove : Move M store maxSize s act s')
    (hP : ∀ b tx tx', P b tx → tx'.seq = tx.seq → tx'.payload = tx.payload → P b tx')
    (hlist : ∀ b queued, store.listQueued b s.files = .ok queued → ∀ tx ∈ queued, P b tx)
    (hheld : ∀ b tx, (b,tx) ∈ s.worker.records → P b tx) :
    ∀ b tx, (b,tx) ∈ s'.worker.records → P b tx := by
  cases hmove with
  | work _ hwork => exact hwork.held hP hlist hheld
  | workFails hwork => exact hwork.held hP hheld
  | restart _ _ => exact fun b tx hmem => absurd hmem List.not_mem_nil
  | _ => exact hheld

end Held

/-- At the start there are no records in the directories of agents. -/
theorem recorded_start (hfresh : Fresh store fs)
    (hR : ∀ d tx, (∀ a, d ≠ store.agentPath a) → R d tx) : Recorded store R (Server.start fs) := by
  refine ⟨enrolling_start fs,?_,fun b tx hmem => absurd hmem List.not_mem_nil⟩
  intro p c hc tx _
  apply hR
  intro a hp
  have hprefix : store.agentPath a <+: p :=
    hp ▸ (List.dropLast_prefix _).trans (List.dropLast_prefix _)
  obtain ⟨rest,rfl⟩ := hprefix
  rw [FilesystemX402Store.agentPath,List.append_assoc] at hc
  have hnone := hfresh ([a] ++ rest)
  rw [show (Server.start fs).files = fs from rfl,hnone] at hc
  cases hc

theorem Recorded.move (h : Recorded store R s) (hR : Lasting R)
    (hqueue : ∀ a payload p ns now, s.Inside a payload (.advanced p ns now) →
      R (resolved (store.agentDir a)) (queuedTx p payload ns now))
    (hmove : Move M store maxSize s act s') : Recorded store R s' := by
  refine ⟨h.enrolling.move hmove,?_,?_⟩
  · exact (hmove.keeps h.enrolling hqueue fun _ b tx hw => hw.of_held hR h.held).files h.files
  · refine hmove.held (P := fun b tx => R (resolved (store.agentDir b)) tx) (fun b => hR _) ?_ h.held
    exact fun b queued hlist tx htx => (mem_listQueued h.files hlist htx).1

end Recorded

end MidenX402.Facilitator
