import MidenX402.Facilitator.Frames
import MidenX402.Facilitator.Queue
import Mathlib.Logic.Relation

/-!
# The record of a payment

A record is written into the queue, rewritten in place while the worker has it and moved away when
the payment has failed.  The invariant says where the records of an agent lie and what the worker
holds of them; it does not depend on how payments are numbered.
-/

namespace MidenX402.Facilitator
open Disk Rust

section Status

inductive PaymentStatus.Next : PaymentStatus → PaymentStatus → Prop
  | prove : Next .accepted .proving
  | submit : Next .proving .submitted
  | fail : Next .proving .failed

/-- A status is reached from another one along accepted, proving, and submitted or failed. -/
def PaymentStatus.Leads : PaymentStatus → PaymentStatus → Prop := Relation.ReflTransGen Next

theorem PaymentStatus.Leads.of_failed {st : PaymentStatus} (h : PaymentStatus.failed.Leads st) :
    st = .failed := by
  induction h with
  | refl => rfl
  | tail _ hnext ih =>
    rw [ih] at hnext
    cases hnext

/-- A later version of a record. -/
structure Continues (tx tx' : QueuedTx) : Prop where
  seq : tx'.seq = tx.seq
  payload : tx'.payload = tx.payload
  status : tx.status.Leads tx'.status

theorem Continues.rfl {tx : QueuedTx} : Continues tx tx := ⟨Eq.refl _,Eq.refl _,.refl⟩

theorem Continues.trans {tx tx' tx'' : QueuedTx} (h : Continues tx tx') (h' : Continues tx' tx'') :
    Continues tx tx'' :=
  ⟨h'.seq.trans h.seq,h'.payload.trans h.payload,Relation.ReflTransGen.trans h.status h'.status⟩

theorem continues_startProving {tx : QueuedTx} (h : tx.status = .accepted) (now : ℕ) :
    Continues tx (startProving tx now) := by
  refine ⟨rfl,rfl,?_⟩
  rw [h]
  exact .single .prove

theorem continues_recordOutcome {tx : QueuedTx} (h : tx.status = .proving) (now : ℕ)
    (outcome : Option String) : Continues tx (recordOutcome tx now outcome) := by
  cases outcome with
  | none =>
    refine ⟨rfl,rfl,?_⟩
    rw [h]
    exact .single .submit
  | some e =>
    refine ⟨rfl,rfl,?_⟩
    rw [h]
    exact .single .fail

end Status

section Writes
variable {store : FilesystemX402Store} {a : String} {fs fs' : Files}

/-- A directory of the agent is there. -/
def HasSub (store : FilesystemX402Store) (fs : Files) (a sub : String) : Prop :=
  fs.resolveDir [] (store.agentPath a ++ [sub]) = some (store.agentPath a ++ [sub])

theorem HasSub.mono {sub : String} (h : HasSub store fs a sub)
    (hdirs : ∀ p, fs.isDir p = true → fs'.isDir p = true) : HasSub store fs' a sub :=
  resolveDir_mono hdirs h

theorem HasSub.readFile {sub : String} (h : HasSub store fs a sub) (ha : IsPlain a)
    (hs : IsPlain sub) (q : ℕ) :
    fs.readFile (store.recordPath a sub q) = fs.fileAt (store.recordPath a sub q) :=
  readFile_recordPath ha hs q (Option.isSome_iff_exists.mpr ⟨_,h⟩)

theorem readFile_eq_none (ha : IsPlain a) {sub : String} (hs : IsPlain sub) {q : ℕ}
    (h : fs.fileAt (store.recordPath a sub q) = none) :
    fs.readFile (store.recordPath a sub q) = none := by
  cases hd : fs.resolveDir [] (store.agentPath a ++ [sub]) with
  | none =>
    rw [FilesystemX402Store.recordPath,readFile_concat (isPlain_seqFile q),
      components_of_plain (plain_sub ha hs),hd]
    rfl
  | some d =>
    rw [readFile_recordPath ha hs q (Option.isSome_iff_exists.mpr ⟨d,hd⟩)]
    exact h

theorem atomicWriteJson_written {p : Path} {name : String} {c : Content} {u : Unit}
    (hp : ∀ s ∈ p, IsPlain s) (hn : IsPlain name)
    (h : (atomicWriteJson (p ++ [name]) c).exec fs = .ok (u,fs')) :
    Written fs fs' p name c ∧ fs'.resolveDir [] p = some p := by
  have hwritten := atomicWriteJson_concat hn h
  rw [resolved_of_plain hp,components_of_plain hp] at hwritten
  exact hwritten

/-- What the sentinels of a payment hold once they are written. -/
theorem writeSentinels_written (ha : IsPlain a) {seq : ℕ} {ns : List String} {u : Unit}
    (hns : ∀ n ∈ ns, IsPlain n) (h : (store.writeSentinels a seq ns).exec fs = .ok (u,fs'))
    {n : String} (htmp : ∀ m ∈ ns, n ≠ "." ++ m ++ ".tmp") :
    fs'.fileAt (store.paymentsPath a ++ [n]) =
      (if n ∈ ns then some (.lookup seq) else fs.fileAt (store.paymentsPath a ++ [n])) ∧
    (ns ≠ [] → HasSub store fs' a "payments") := by
  induction ns generalizing fs with
  | nil =>
    rw [FilesystemX402Store.writeSentinels,Prog.exec_pure] at h
    obtain ⟨rfl,rfl⟩ := Prod.mk.inj (Except.ok.inj h)
    exact ⟨(if_neg List.not_mem_nil).symm,fun hne => absurd rfl hne⟩
  | cons m ns ih =>
    rw [FilesystemX402Store.writeSentinels] at h
    obtain ⟨_,fs1,hone,hrest⟩ := Prog.exec_bind_eq_ok h
    have hm := hns m List.mem_cons_self
    rw [sentinel_eq ha hm] at hone
    obtain ⟨hwritten,hdir⟩ := atomicWriteJson_written (plain_paymentsPath ha) hm hone
    have hns' := fun n hn => hns n (List.mem_cons_of_mem m hn)
    have hframe : Frame Set.univ fs1 fs' :=
      ((writeSentinels_steps ha hns' fun _ _ => Set.subset_univ _).exec hrest).toFrame
    have hih := (ih hns' hrest fun n hn => htmp n (List.mem_cons_of_mem m hn)).1
    refine ⟨?_,fun _ => resolveDir_mono hframe.dirs hdir⟩
    rw [hih]
    by_cases hmem : n ∈ ns
    · rw [if_pos hmem,if_pos (List.mem_cons_of_mem m hmem)]
    · rw [if_neg hmem]
      by_cases hnm : n = m
      · subst hnm
        rw [if_pos List.mem_cons_self,hwritten.self]
      · have hout : n ∉ m :: ns := by simp [hnm,hmem]
        rw [if_neg hout]
        apply hwritten.others
        · exact fun he => hnm (List.singleton_inj.mp (List.append_cancel_left he))
        · exact fun he => htmp m List.mem_cons_self (List.singleton_inj.mp (List.append_cancel_left he))

/-- The record is written first. -/
theorem enqueue_written (ha : IsPlain a) {tx : QueuedTx}
    (h : after (store.enqueue a tx) fs = some fs') : ∃ fs1,
      Written fs fs1 (store.queuePath a) (seqFile tx.seq) (.queued tx) ∧ HasQueue store fs1 a ∧
      (store.writeSentinels a tx.seq tx.nullifiers).exec fs1 = .ok ((),fs') := by
  obtain ⟨_,h⟩ := after_eq_some_iff.mp h
  obtain ⟨_,fs1,hrecord,hsentinels⟩ := Prog.exec_bind_eq_ok h
  rw [queueFile_eq ha] at hrecord
  obtain ⟨hw,hdir⟩ := atomicWriteJson_written (plain_sub ha (by decide)) (isPlain_seqFile _) hrecord
  exact ⟨fs1,hw,hdir,hsentinels⟩

/-- A record moves as it is. -/
theorem moveToFailed_moves (ha : IsPlain a) {seq : ℕ}
    (h : after (store.moveToFailed a seq) fs = some fs') : ∃ c,
      fs.fileAt (store.recordPath a "pending_queue" seq) = some c ∧
      fs'.fileAt (store.recordPath a "failed" seq) = some c ∧ HasSub store fs' a "failed" := by
  have hframe : Frame Set.univ fs fs' :=
    (after_steps (moveToFailed_steps ha (Set.mem_univ _) (Set.mem_univ _)) h).toFrame
  obtain ⟨hdir,hmove⟩ := moveToFailed_renames ha h
  obtain ⟨c,hc,-,rfl⟩ := renameFile_spec hmove
  exact ⟨c,hc,(FileSystem.fileAt_set ..).trans (if_pos rfl),resolveDir_mono hframe.dirs hdir⟩

end Writes

section Invariant
variable {store : FilesystemX402Store} {a b : String} {fs fs' : Files} {w w' : Worker} {q : ℕ}
  {used : ℕ → Prop} {history : List Acceptance} {tx : QueuedTx}

/-- The one file that holds the record with a number. -/
inductive RecordAt (store : FilesystemX402Store) (a : String) (fs : Files) (q : ℕ) (tx : QueuedTx) :
    Prop
  | queued (hfile : fs.fileAt (store.recordPath a "pending_queue" q) = some (.queued tx))
      (hnone : fs.fileAt (store.recordPath a "failed" q) = none)
  | failed (hdir : HasSub store fs a "failed")
      (hnone : fs.fileAt (store.recordPath a "pending_queue" q) = none)
      (hfile : fs.fileAt (store.recordPath a "failed" q) = some (.queued tx))
      (hstatus : tx.status = .failed)

/-- The rest of a batch is still in the queue as it was read. -/
structure Waiting (store : FilesystemX402Store) (a : String) (fs : Files) (todo : List QueuedTx) :
    Prop where
  files : ∀ tx ∈ todo, fs.fileAt (store.recordPath a "pending_queue" tx.seq) = some (.queued tx)
  accepted : ∀ tx ∈ todo, tx.status = .accepted
  sorted : (todo.map QueuedTx.seq).Pairwise (· < ·)

/-- What the worker holds of the agent is what lies in the queue. -/
def Worker.Holds (store : FilesystemX402Store) (a : String) (fs : Files) : Worker → Prop
  | .batch b todo _ => b = a → Waiting store a fs todo
  | .proving b tx todo _ => b = a → tx.status = .proving ∧
      fs.fileAt (store.recordPath a "pending_queue" tx.seq) = some (.queued tx) ∧
      Waiting store a fs todo
  | .finishing b tx todo _ => b = a → tx.status ≠ .proving ∧ (∃ old, old.status = .proving ∧
      Continues old tx ∧
      fs.fileAt (store.recordPath a "pending_queue" tx.seq) = some (.queued old)) ∧
      Waiting store a fs todo
  | .moving b seq todo _ => b = a → (∃ tx, tx.status = .failed ∧
      fs.fileAt (store.recordPath a "pending_queue" seq) = some (.queued tx)) ∧
      Waiting store a fs todo
  | _ => True

/-- The worker has marked the record as being proved. -/
def Worker.Has (a : String) (q : ℕ) : Worker → Prop
  | .proving b tx _ _ | .finishing b tx _ _ => b = a ∧ tx.seq = q
  | _ => False

/-- The record of an accepted payment. -/
structure RecordOf (x : Acceptance) (tx : QueuedTx) : Prop where
  seq : tx.seq = x.seq
  payload : tx.payload = x.payload
  status : PaymentStatus.accepted.Leads tx.status

theorem RecordOf.continues {x : Acceptance} {tx' : QueuedTx} (h : RecordOf x tx)
    (hcont : Continues tx tx') : RecordOf x tx' :=
  ⟨hcont.seq.trans h.seq,hcont.payload.trans h.payload,
    Relation.ReflTransGen.trans h.status hcont.status⟩

/-- `used` bounds the numbers that have records. -/
structure RecordsInv (store : FilesystemX402Store) (a : String) (fs : Files) (w : Worker)
    (used : ℕ → Prop) (history : List Acceptance) : Prop where
  named : ∀ name c, fs.fileAt (store.queuePath a ++ [name]) = some c →
    HasQueue store fs a ∧ ∃ tx, c = .queued tx ∧ name = seqFile tx.seq
  committed : ∀ q, fs.fileAt (store.recordPath a "committed" q) = none
  numbers : ∀ sub ∈ recordDirs, ∀ q c, fs.fileAt (store.recordPath a sub q) = some c → used q
  recorded : ∀ x ∈ history, ∃ tx, RecordAt store a fs x.seq tx ∧ RecordOf x tx
  held : w.Holds store a fs
  taken : ∀ q tx, fs.fileAt (store.recordPath a "pending_queue" q) = some (.queued tx) →
    tx.status = .proving → w.Has a q

/-- Every recorded payment still has its record, in a later version. -/
def Advances (store : FilesystemX402Store) (a : String) (fs fs' : Files) (history : List Acceptance) :
    Prop :=
  ∀ x ∈ history, ∀ tx, RecordAt store a fs x.seq tx →
    ∃ tx', RecordAt store a fs' x.seq tx' ∧ Continues tx tx'

/-- The record files of the agent are as they were. -/
structure RecordsKept (store : FilesystemX402Store) (a : String) (fs fs' : Files) : Prop where
  files : ∀ sub ∈ recordDirs, ∀ name,
    fs'.fileAt (store.agentPath a ++ [sub] ++ [name]) = fs.fileAt (store.agentPath a ++ [sub] ++ [name])
  dirs : ∀ p, fs.isDir p = true → fs'.isDir p = true

theorem RecordsKept.record (h : RecordsKept store a fs fs') (sub : String) (hsub : sub ∈ recordDirs)
    (q : ℕ) : fs'.fileAt (store.recordPath a sub q) = fs.fileAt (store.recordPath a sub q) :=
  h.files sub hsub (seqFile q)

theorem RecordAt.kept (h : RecordAt store a fs q tx) (hk : RecordsKept store a fs fs') :
    RecordAt store a fs' q tx := by
  have hqueue := hk.record "pending_queue" (by decide) q
  have hfailed := hk.record "failed" (by decide) q
  cases h with
  | queued hfile hnone => exact .queued (hqueue.trans hfile) (hfailed.trans hnone)
  | failed hdir hnone hfile hstatus =>
    exact .failed (hdir.mono hk.dirs) (hqueue.trans hnone) (hfailed.trans hfile) hstatus

theorem Waiting.mono {todo : List QueuedTx} (h : Waiting store a fs todo)
    (hkeep : ∀ tx ∈ todo, fs.fileAt (store.recordPath a "pending_queue" tx.seq) = some (.queued tx) →
      fs'.fileAt (store.recordPath a "pending_queue" tx.seq) = some (.queued tx)) :
    Waiting store a fs' todo :=
  ⟨fun tx htx => hkeep tx htx (h.files tx htx),h.accepted,h.sorted⟩

theorem Worker.Holds.mono (h : w.Holds store a fs)
    (hkeep : ∀ q tx, fs.fileAt (store.recordPath a "pending_queue" q) = some (.queued tx) →
      fs'.fileAt (store.recordPath a "pending_queue" q) = some (.queued tx)) : w.Holds store a fs' := by
  have hwaiting : ∀ {todo : List QueuedTx}, Waiting store a fs todo → Waiting store a fs' todo :=
    fun hw => hw.mono fun tx _ => hkeep tx.seq tx
  cases w with
  | idle => trivial
  | agents rest => trivial
  | batch b todo rest => exact fun hb => hwaiting (h hb)
  | proving b tx todo rest =>
    intro hb
    obtain ⟨hstatus,hfile,hw⟩ := h hb
    exact ⟨hstatus,hkeep _ _ hfile,hwaiting hw⟩
  | finishing b tx todo rest =>
    intro hb
    obtain ⟨hstatus,⟨old,hproving,hcont,hfile⟩,hw⟩ := h hb
    exact ⟨hstatus,⟨old,hproving,hcont,hkeep _ _ hfile⟩,hwaiting hw⟩
  | moving b seq todo rest =>
    intro hb
    obtain ⟨⟨tx,hstatus,hfile⟩,hw⟩ := h hb
    exact ⟨⟨tx,hstatus,hkeep _ _ hfile⟩,hwaiting hw⟩

theorem Advances.recorded (h : Advances store a fs fs' history)
    (hrec : ∀ x ∈ history, ∃ tx, RecordAt store a fs x.seq tx ∧ RecordOf x tx) :
    ∀ x ∈ history, ∃ tx, RecordAt store a fs' x.seq tx ∧ RecordOf x tx := by
  intro x hx
  obtain ⟨tx,hat,hof⟩ := hrec x hx
  obtain ⟨tx',hat',hcont⟩ := h x hx tx hat
  exact ⟨tx',hat',hof.continues hcont⟩

theorem RecordsKept.advances (hk : RecordsKept store a fs fs') : Advances store a fs fs' history :=
  fun _ _ tx hat => ⟨tx,hat.kept hk,.rfl⟩

/-- Nothing happens to the records of the agent. -/
theorem RecordsInv.kept (h : RecordsInv store a fs w used history)
    (hk : RecordsKept store a fs fs') : RecordsInv store a fs' w used history := by
  have hqueue := hk.record "pending_queue" (by decide)
  refine ⟨?_,?_,?_,hk.advances.recorded h.recorded,h.held.mono ?_,?_⟩
  · intro name c hf
    obtain ⟨hdir,htx⟩ := h.named name c ((hk.files _ (by decide) name).symm.trans hf)
    exact ⟨HasSub.mono hdir hk.dirs,htx⟩
  · exact fun q => (hk.record _ (by decide) q).trans (h.committed q)
  · exact fun sub hsub q c hf => h.numbers sub hsub q c ((hk.record sub hsub q).symm.trans hf)
  · exact fun q tx hf => (hqueue q).trans hf
  · exact fun q tx hf => h.taken q tx ((hqueue q).symm.trans hf)

end Invariant

section Steps
variable {store : FilesystemX402Store} {maxSize : ℕ} {a b : String} {fs fs' : Files} {w w' : Worker}
  {used used' : ℕ → Prop} {history : List Acceptance} {tx old : QueuedTx} {todo : List QueuedTx}
  {rest : List String}

theorem recordPath_ne {sub sub' : String} {q q' : ℕ} (h : sub ≠ sub' ∨ q ≠ q') :
    store.recordPath a sub q ≠ store.recordPath a sub' q' := by
  intro he
  obtain ⟨-,hsub,hq⟩ := recordPath_inj he
  exact h.elim (fun hne => hne hsub) fun hne => hne hq

/-- A record in the queue is rewritten there; every other record file is as it was. -/
structure Rewritten (store : FilesystemX402Store) (a : String) (tx : QueuedTx) (fs fs' : Files) :
    Prop where
  self : fs'.fileAt (store.recordPath a "pending_queue" tx.seq) = some (.queued tx)
  others : ∀ sub q, sub ≠ "pending_queue" ∨ q ≠ tx.seq →
    fs'.fileAt (store.recordPath a sub q) = fs.fileAt (store.recordPath a sub q)
  named : ∀ name c, name ≠ seqFile tx.seq → fs'.fileAt (store.queuePath a ++ [name]) = some c →
    fs.fileAt (store.queuePath a ++ [name]) = some c
  dirs : ∀ p, fs.isDir p = true → fs'.isDir p = true

theorem upsertQueued_rewrites (ha : IsPlain a) (hdir : HasQueue store fs a)
    (hold : fs.fileAt (store.recordPath a "pending_queue" tx.seq) = some (.queued old))
    (hafter : after (store.upsertQueued a tx) fs = some fs') : Rewritten store a tx fs fs' := by
  obtain ⟨sub,-,honly,hrecord,hsub⟩ := upsertQueued_spec ha hafter
  have hread := HasSub.readFile hdir ha (by decide) tx.seq
  obtain rfl : sub = "pending_queue" := by
    apply hsub
    rw [hread,hold]
    rfl
  refine ⟨hrecord,?_,?_,honly.dirs⟩
  · exact fun sub q hne => honly.files _ (undotted_seqFile _ q) (recordPath_ne hne)
  · intro name c hne hf
    refine honly.old _ c ?_ hf
    exact fun he => hne (List.singleton_inj.mp (List.append_cancel_left he))

theorem Rewritten.advances (h : Rewritten store a tx fs fs')
    (hold : fs.fileAt (store.recordPath a "pending_queue" tx.seq) = some (.queued old))
    (hcont : Continues old tx) : Advances store a fs fs' history := by
  intro x _ tx0 hat
  have hfailed := h.others "failed" x.seq (Or.inl (by decide))
  cases hat with
  | queued hfile hnone =>
    by_cases hq : x.seq = tx.seq
    · rw [hq] at hfile hnone hfailed ⊢
      obtain rfl := queued_unique hold hfile
      exact ⟨tx,.queued h.self (hfailed.trans hnone),hcont⟩
    · exact ⟨tx0,.queued ((h.others _ _ (Or.inr hq)).trans hfile) (hfailed.trans hnone),.rfl⟩
  | failed hdir hnone hfile hstatus =>
    have hq : x.seq ≠ tx.seq := by
      intro hq
      rw [hq,hold] at hnone
      cases hnone
    exact ⟨tx0,.failed (hdir.mono h.dirs) ((h.others _ _ (Or.inr hq)).trans hnone)
      (hfailed.trans hfile) hstatus,.rfl⟩

/-- The worker writes a record back. -/
theorem RecordsInv.rewrite (h : RecordsInv store a fs w used history)
    (hold : fs.fileAt (store.recordPath a "pending_queue" tx.seq) = some (.queued old))
    (hcont : Continues old tx) (hrw : Rewritten store a tx fs fs') (hheld : w'.Holds store a fs')
    (htaken : ∀ q, q ≠ tx.seq → w.Has a q → w'.Has a q)
    (hproving : tx.status = .proving → w'.Has a tx.seq) :
    RecordsInv store a fs' w' used history := by
  have hdir : HasQueue store fs' a := HasSub.mono (h.named _ _ hold).1 hrw.dirs
  refine ⟨?_,?_,?_,(hrw.advances hold hcont).recorded h.recorded,hheld,?_⟩
  · intro name c hf
    by_cases hname : name = seqFile tx.seq
    · subst hname
      have hself : fs'.fileAt (store.queuePath a ++ [seqFile tx.seq]) = some (.queued tx) := hrw.self
      rw [hself] at hf
      exact ⟨hdir,tx,(Option.some.inj hf).symm,rfl⟩
    · exact ⟨hdir,(h.named name c (hrw.named name c hname hf)).2⟩
  · exact fun q => (hrw.others _ _ (Or.inl (by decide))).trans (h.committed q)
  · intro sub hsub q c hf
    by_cases hself : sub = "pending_queue" ∧ q = tx.seq
    · obtain ⟨rfl,rfl⟩ := hself
      exact h.numbers _ hsub _ _ hold
    · rw [hrw.others sub q (by tauto)] at hf
      exact h.numbers sub hsub q c hf
  · intro q tx' hf hstatus
    by_cases hq : q = tx.seq
    · subst hq
      obtain rfl := queued_unique hrw.self hf
      exact hproving hstatus
    · rw [hrw.others _ _ (Or.inr hq)] at hf
      exact htaken q hq (h.taken q tx' hf hstatus)

/-- The rest of a batch is not the record at hand, which is no longer accepted. -/
theorem Waiting.rewritten (h : Waiting store a fs todo) (hrw : Rewritten store a tx fs fs')
    (hold : fs.fileAt (store.recordPath a "pending_queue" tx.seq) = some (.queued old))
    (hne : old ∉ todo) : Waiting store a fs' todo := by
  apply h.mono
  intro y hy hfile
  rw [hrw.others _ _ (Or.inr ?_)]
  · exact hfile
  · intro hseq
    rw [hseq] at hfile
    obtain rfl := queued_unique hold hfile
    exact hne hy

theorem Waiting.notMem (h : Waiting store a fs todo) (hstatus : tx.status ≠ .accepted) : tx ∉ todo :=
  fun hmem => hstatus (h.accepted tx hmem)

theorem Waiting.tail (h : Waiting store a fs (tx :: todo)) : Waiting store a fs todo ∧ tx ∉ todo := by
  have hsorted := h.sorted
  rw [List.map_cons,List.pairwise_cons] at hsorted
  refine ⟨⟨fun y hy => h.files y (List.mem_cons_of_mem tx hy),
    fun y hy => h.accepted y (List.mem_cons_of_mem tx hy),hsorted.2⟩,?_⟩
  intro hmem
  exact Nat.lt_irrefl _ (hsorted.1 _ (List.mem_map_of_mem hmem))

theorem rewritten_of_written
    (h : Written fs fs' (store.queuePath a) (seqFile tx.seq) (.queued tx)) :
    Rewritten store a tx fs fs' := by
  refine ⟨h.self,?_,?_,h.dirs⟩
  · exact fun sub q hne => h.others _ (recordPath_ne hne) ((undotted_seqFile _ q).ne_tmp _ _)
  · intro name c hname hf
    by_cases htmp : name = "." ++ seqFile tx.seq ++ ".tmp"
    · rw [htmp,h.tmp] at hf
      cases hf
    · rw [h.others] at hf
      · exact hf
      · exact fun he => hname (List.singleton_inj.mp (List.append_cancel_left he))
      · exact fun he => htmp (List.singleton_inj.mp (List.append_cancel_left he))

/-- A record with an unused number joins the queue. -/
theorem RecordsInv.record (h : RecordsInv store a fs w used history)
    (hrw : Rewritten store a tx fs fs') (hdir : HasQueue store fs' a) (hstatus : tx.status = .accepted)
    (hfree : ¬ used tx.seq) (hused : ∀ q, used q → used' q) (hself : used' tx.seq) :
    RecordsInv store a fs' w used' history ∧ RecordAt store a fs' tx.seq tx ∧
      Advances store a fs fs' history := by
  have hnone : ∀ sub ∈ recordDirs, fs.fileAt (store.recordPath a sub tx.seq) = none := by
    intro sub hsub
    cases hf : fs.fileAt (store.recordPath a sub tx.seq) with
    | none => rfl
    | some c => exact absurd (h.numbers sub hsub _ c hf) hfree
  have hqueue : ∀ q y, fs.fileAt (store.recordPath a "pending_queue" q) = some (.queued y) →
      fs'.fileAt (store.recordPath a "pending_queue" q) = some (.queued y) := by
    intro q y hf
    rw [hrw.others _ _ (Or.inr ?_)]
    · exact hf
    · rintro rfl
      rw [hnone _ (by decide)] at hf
      cases hf
  have hadvances : Advances store a fs fs' history := by
    intro y _ ty hat
    refine ⟨ty,?_,.rfl⟩
    have hfailed := hrw.others "failed" y.seq (Or.inl (by decide))
    cases hat with
    | queued hfile hempty => exact .queued (hqueue _ _ hfile) (hfailed.trans hempty)
    | failed hsub hempty hfile hst =>
      have hq : y.seq ≠ tx.seq := by
        intro hq
        rw [hq,hnone _ (by decide)] at hfile
        cases hfile
      exact .failed (hsub.mono hrw.dirs) ((hrw.others _ _ (Or.inr hq)).trans hempty)
        (hfailed.trans hfile) hst
  have hat : RecordAt store a fs' tx.seq tx :=
    .queued hrw.self ((hrw.others _ _ (Or.inl (by decide))).trans (hnone _ (by decide)))
  refine ⟨⟨?_,?_,?_,hadvances.recorded h.recorded,h.held.mono hqueue,?_⟩,hat,hadvances⟩
  · intro name c hf
    refine ⟨hdir,?_⟩
    by_cases hname : name = seqFile tx.seq
    · subst hname
      have hfile : fs'.fileAt (store.queuePath a ++ [seqFile tx.seq]) = some (.queued tx) := hrw.self
      rw [hfile] at hf
      exact ⟨tx,(Option.some.inj hf).symm,rfl⟩
    · exact (h.named name c (hrw.named name c hname hf)).2
  · exact fun q => (hrw.others _ _ (Or.inl (by decide))).trans (h.committed q)
  · intro sub hsub q c hf
    by_cases hq : q = tx.seq
    · rw [hq]
      exact hself
    · rw [hrw.others sub q (Or.inr hq)] at hf
      exact hused q (h.numbers sub hsub q c hf)
  · intro q y hf hproving
    by_cases hq : q = tx.seq
    · rw [hq] at hf
      obtain rfl := queued_unique hrw.self hf
      rw [hstatus] at hproving
      cases hproving
    · rw [hrw.others _ _ (Or.inr hq)] at hf
      exact h.taken q y hf hproving

theorem RecordsInv.accept {x : Acceptance} (h : RecordsInv store a fs w used history)
    (hat : RecordAt store a fs x.seq tx) (hof : RecordOf x tx) :
    RecordsInv store a fs w used (history ++ [x]) := by
  refine ⟨h.named,h.committed,h.numbers,?_,h.held,h.taken⟩
  intro y hy
  rcases List.mem_append.mp hy with hold | hnew
  · exact h.recorded y hold
  · rw [List.mem_singleton.mp hnew]
    exact ⟨tx,hat,hof⟩

/-- The paths in the payments directory of the agent. -/
def sentinelFiles (store : FilesystemX402Store) (a : String) : Set Path :=
  {p | ∃ name, p = store.paymentsPath a ++ [name]}

theorem pair_subset_sentinelFiles (n : String) :
    filePair (store.paymentsPath a) n ⊆ sentinelFiles store a := by
  rintro p (rfl | rfl)
  · exact ⟨n,rfl⟩
  · exact ⟨_,rfl⟩

theorem recordsKept_of_sentinels (h : Frame (sentinelFiles store a) fs fs') :
    RecordsKept store a fs fs' := by
  refine ⟨?_,h.dirs⟩
  intro sub hsub name
  apply h.files
  rintro ⟨name',he⟩
  simp only [FilesystemX402Store.paymentsPath,List.append_assoc,List.append_cancel_left_eq,
    List.cons_append,List.nil_append,List.cons.injEq] at he
  rw [he.1] at hsub
  exact absurd hsub (by decide)

/-- An accepted payment gets its record. -/
theorem RecordsInv.enqueue {x : Acceptance} (h : RecordsInv store a fs w used history)
    (ha : IsPlain a) (hns : ∀ n ∈ tx.nullifiers, IsPlain n) (hseq : x.seq = tx.seq)
    (hpayload : x.payload = tx.payload) (hstatus : tx.status = .accepted) (hfree : ¬ used tx.seq)
    (hused : ∀ q, used q → used' q) (hself : used' tx.seq)
    (hafter : after (store.enqueue a tx) fs = some fs') :
    RecordsInv store a fs' w used' (history ++ [x]) ∧ Advances store a fs fs' history := by
  obtain ⟨fs1,hw,hdir,hsentinels⟩ := enqueue_written ha hafter
  obtain ⟨hinv,hat,hadvances⟩ :=
    h.record (rewritten_of_written hw) hdir hstatus hfree hused hself
  have hkept : RecordsKept store a fs1 fs' := recordsKept_of_sentinels
    ((writeSentinels_steps ha hns fun n _ => pair_subset_sentinelFiles n).exec hsentinels).toFrame
  have hof : RecordOf x tx := by
    refine ⟨hseq.symm,hpayload.symm,?_⟩
    rw [hstatus]
    exact .refl
  rw [← hseq] at hat
  refine ⟨(hinv.accept hat hof).kept hkept,?_⟩
  intro y hy ty hty
  obtain ⟨ty',hat',hcont⟩ := hadvances y hy ty hty
  exact ⟨ty',hat'.kept hkept,hcont⟩

theorem moveToFailed_others (ha : IsPlain a) {seq q : ℕ} {sub : String}
    (hafter : after (store.moveToFailed a seq) fs = some fs') (hne : sub = "committed" ∨ q ≠ seq) :
    fs'.fileAt (store.recordPath a sub q) = fs.fileAt (store.recordPath a sub q) := by
  apply (moveToFailed_spec ha hafter).1.files _ (undotted_seqFile _ q)
  rintro (he | he)
  · refine recordPath_ne (hne.imp_left ?_) he
    rintro rfl
    decide
  · refine recordPath_ne (hne.imp_left ?_) he
    rintro rfl
    decide

theorem moveToFailed_advances (ha : IsPlain a) {seq : ℕ}
    (hafter : after (store.moveToFailed a seq) fs = some fs')
    (hfile : fs.fileAt (store.recordPath a "pending_queue" seq) = some (.queued tx))
    (hstatus : tx.status = .failed) : Advances store a fs fs' history := by
  obtain ⟨c,hc,hfailed,hsub⟩ := moveToFailed_moves ha hafter
  obtain ⟨honly,hgone⟩ := moveToFailed_spec ha hafter
  obtain rfl : c = .queued tx := Option.some.inj (hc.symm.trans hfile)
  intro x _ tx0 hat
  refine ⟨tx0,?_,.rfl⟩
  by_cases hq : x.seq = seq
  · rw [hq] at hat ⊢
    cases hat with
    | queued hf hnone =>
      obtain rfl := queued_unique hfile hf
      exact .failed hsub hgone hfailed hstatus
    | failed _ hnone _ _ =>
      rw [hfile] at hnone
      cases hnone
  · have hothers : ∀ sub, fs'.fileAt (store.recordPath a sub x.seq) =
        fs.fileAt (store.recordPath a sub x.seq) :=
      fun sub => moveToFailed_others ha hafter (Or.inr hq)
    cases hat with
    | queued hf hnone => exact .queued ((hothers _).trans hf) ((hothers _).trans hnone)
    | failed hd hnone hf hst =>
      exact .failed (hd.mono honly.dirs) ((hothers _).trans hnone) ((hothers _).trans hf) hst

/-- A failed record leaves the queue. -/
theorem RecordsInv.moveToFailed {seq : ℕ} (h : RecordsInv store a fs (.moving a seq todo rest) used history)
    (ha : IsPlain a) (hafter : after (store.moveToFailed a seq) fs = some fs') :
    RecordsInv store a fs' (.batch a todo rest) used history ∧ Advances store a fs fs' history := by
  obtain ⟨⟨tx,hstatus,hfile⟩,hwaiting⟩ := h.held rfl
  obtain ⟨honly,hgone⟩ := moveToFailed_spec ha hafter
  have hadvances : Advances store a fs fs' history := moveToFailed_advances ha hafter hfile hstatus
  refine ⟨⟨?_,?_,?_,hadvances.recorded h.recorded,?_,?_⟩,hadvances⟩
  · intro name c hf
    by_cases hname : name = seqFile seq
    · have hnone : fs'.fileAt (store.queuePath a ++ [seqFile seq]) = none := hgone
      rw [hname,hnone] at hf
      cases hf
    · have hnot : store.queuePath a ++ [name] ∉
          ({store.recordPath a "pending_queue" seq,store.recordPath a "failed" seq} : Set Path) := by
        rintro (he | he)
        · exact hname (List.singleton_inj.mp (List.append_cancel_left he))
        · have hsplit := congrArg List.dropLast he
          rw [FilesystemX402Store.recordPath,List.dropLast_concat,List.dropLast_concat] at hsplit
          exact absurd (List.singleton_inj.mp (List.append_cancel_left hsplit)) (by decide)
      obtain ⟨hdir,htx⟩ := h.named name c (honly.old _ _ hnot hf)
      exact ⟨HasSub.mono hdir honly.dirs,htx⟩
  · exact fun q => (moveToFailed_others ha hafter (Or.inl rfl)).trans (h.committed q)
  · intro sub hsub' q c hf
    by_cases hq : q = seq
    · rw [hq]
      exact h.numbers _ (by decide) seq _ hfile
    · rw [moveToFailed_others ha hafter (Or.inr hq)] at hf
      exact h.numbers sub hsub' q c hf
  · intro _
    apply hwaiting.mono
    intro y hy hf
    rw [moveToFailed_others ha hafter (Or.inr ?_)]
    · exact hf
    · intro hq
      rw [hq] at hf
      obtain rfl := queued_unique hfile hf
      have hacc := hwaiting.accepted tx hy
      rw [hstatus] at hacc
      cases hacc
  · intro q y hf hproving
    by_cases hq : q = seq
    · rw [hq,hgone] at hf
      cases hf
    · rw [moveToFailed_others ha hafter (Or.inr hq)] at hf
      exact absurd (h.taken q y hf hproving) (fun hhas => hhas)

/-- The worker goes on with the files as they are. -/
theorem RecordsInv.goOn (h : RecordsInv store a fs w used history) (hheld : w'.Holds store a fs)
    (htaken : ∀ q, w.Has a q → w'.Has a q) : RecordsInv store a fs w' used history :=
  ⟨h.named,h.committed,h.numbers,h.recorded,hheld,fun q tx hf hst => htaken q (h.taken q tx hf hst)⟩

/-- Everything in the directory of an agent. -/
def agentFiles (store : FilesystemX402Store) (a : String) : Set Path :=
  {p | ∃ rest, p = store.agentPath a ++ rest}

theorem notMem_agentFiles (hab : a ≠ b) (rest : Path) :
    store.agentPath a ++ rest ∉ agentFiles store b := by
  rintro ⟨rest',he⟩
  rw [FilesystemX402Store.agentPath,FilesystemX402Store.agentPath,List.append_assoc,
    List.append_assoc,List.append_cancel_left_eq] at he
  exact hab (List.cons.inj he).1

theorem pair_subset_agentFiles (dir : Path) (name : String) :
    filePair (store.agentPath a ++ dir) name ⊆ agentFiles store a := by
  rintro p (rfl | rfl)
  · exact ⟨dir ++ [name],List.append_assoc ..⟩
  · exact ⟨dir ++ ["." ++ name ++ ".tmp"],List.append_assoc ..⟩

/-- The files in the directories of the agent are as they were. -/
structure BelowKept (store : FilesystemX402Store) (a : String) (fs fs' : Files) : Prop where
  files : ∀ sub name,
    fs'.fileAt (store.agentPath a ++ [sub] ++ [name]) = fs.fileAt (store.agentPath a ++ [sub] ++ [name])
  dirs : ∀ p, fs.isDir p = true → fs'.isDir p = true

theorem BelowKept.rfl : BelowKept store a fs fs := ⟨fun _ _ => Eq.refl _,fun _ h => h⟩

theorem BelowKept.records (h : BelowKept store a fs fs') : RecordsKept store a fs fs' :=
  ⟨fun sub _ name => h.files sub name,h.dirs⟩

theorem belowKept_of_other (hab : a ≠ b) (h : Frame (agentFiles store b) fs fs') :
    BelowKept store a fs fs' := by
  refine ⟨?_,h.dirs⟩
  intro sub name
  rw [List.append_assoc]
  exact h.files _ (notMem_agentFiles hab _)

theorem upsertQueued_frame (hb : IsPlain b) (hafter : after (store.upsertQueued b tx) fs = some fs') :
    Frame (agentFiles store b) fs fs' :=
  (after_steps (upsertQueued_steps hb fun _ _ => pair_subset_agentFiles _ _) hafter).toFrame

theorem moveToFailed_frame {seq : ℕ} (hb : IsPlain b)
    (hafter : after (store.moveToFailed b seq) fs = some fs') : Frame (agentFiles store b) fs fs' := by
  refine (after_steps (moveToFailed_steps hb ?_ ?_) hafter).toFrame
  · exact ⟨["pending_queue"] ++ [seqFile seq],List.append_assoc ..⟩
  · exact ⟨["failed"] ++ [seqFile seq],List.append_assoc ..⟩

/-- What a listing yields lies in the queue under its number, in the order of the numbers. -/
theorem RecordsInv.listed (h : RecordsInv store a fs w used history) (ha : IsPlain a)
    {queued : List QueuedTx} (hlist : store.listQueued a fs = .ok queued) :
    (∀ tx ∈ queued, fs.fileAt (store.recordPath a "pending_queue" tx.seq) = some (.queued tx)) ∧
      (queued.map QueuedTx.seq).Pairwise (· < ·) := by
  rcases listQueued_eq_ok ha hlist with ⟨rfl,-⟩ | ⟨txs,hrec,rfl⟩
  · exact ⟨fun _ htx => absurd htx List.not_mem_nil,List.Pairwise.nil⟩
  have hname : ∀ name tx, (name,Node.file (.queued tx)) ∈ fs.entries (store.queuePath a) →
      name = seqFile tx.seq := by
    intro name tx hmem
    obtain ⟨-,tx',htx,hname⟩ :=
      h.named name _ (FileSystem.fileAt_of_node (FileSystem.mem_entries.mp hmem).1)
    injection htx with htx
    rw [htx]
    exact hname
  have hperm := List.perm_insertionSort (fun x y : QueuedTx => x.seq ≤ y.seq) txs
  constructor
  · intro tx htx
    obtain ⟨name,hmem,-⟩ := (readRecords_eq_ok hrec).2 tx (hperm.mem_iff.mp htx)
    have hfile := FileSystem.fileAt_of_node (FileSystem.mem_entries.mp hmem).1
    rw [hname name tx hmem] at hfile
    exact hfile
  · exact seqs_insertionSort (readRecords_nodup hrec (FileSystem.nodup_entries _ _) hname)

theorem RecordsInv.waiting (h : RecordsInv store a fs w used history) (ha : IsPlain a)
    {queued : List QueuedTx} (hlist : store.listQueued a fs = .ok queued) :
    Waiting store a fs (nextBatch maxSize queued) := by
  obtain ⟨hfiles,hsorted⟩ := h.listed ha hlist
  have hsub : (nextBatch maxSize queued).Sublist
      (queued.filter fun tx => tx.status = .accepted) := List.take_sublist ..
  refine ⟨?_,?_,?_⟩
  · exact fun tx htx => hfiles tx (List.mem_of_mem_filter (hsub.subset htx))
  · exact fun tx htx => of_decide_eq_true (List.mem_filter.mp (hsub.subset htx)).2
  · exact hsorted.sublist ((hsub.trans List.filter_sublist).map _)

theorem RecordsInv.prove {now : ℕ} (h : RecordsInv store a fs (.batch a (tx :: todo) rest) used history)
    (ha : IsPlain a) (hafter : after (store.upsertQueued a (startProving tx now)) fs = some fs') :
    RecordsInv store a fs' (.proving a (startProving tx now) todo rest) used history ∧
      Advances store a fs fs' history := by
  have hwaiting := h.held rfl
  have hfile : fs.fileAt (store.recordPath a "pending_queue" (startProving tx now).seq) =
      some (.queued tx) := hwaiting.files tx List.mem_cons_self
  have hcont := continues_startProving (hwaiting.accepted tx List.mem_cons_self) now
  have hrw := upsertQueued_rewrites ha (h.named _ _ hfile).1 hfile hafter
  refine ⟨h.rewrite hfile hcont hrw ?_ ?_ ?_,hrw.advances hfile hcont⟩
  · exact fun _ => ⟨rfl,hrw.self,hwaiting.tail.1.rewritten hrw hfile hwaiting.tail.2⟩
  · exact fun q _ hhas => absurd hhas fun hf => hf
  · exact fun _ => ⟨rfl,rfl⟩

theorem RecordsInv.finish (h : RecordsInv store a fs (.finishing a tx todo rest) used history)
    (ha : IsPlain a) (hafter : after (store.upsertQueued a tx) fs = some fs') :
    RecordsInv store a fs'
      (if tx.status = .failed then .moving a tx.seq todo rest else .batch a todo rest) used history ∧
      Advances store a fs fs' history := by
  obtain ⟨hstatus,⟨old,hproving,hcont,hfile⟩,hwaiting⟩ := h.held rfl
  have hrw := upsertQueued_rewrites ha (h.named _ _ hfile).1 hfile hafter
  have hold : old ∉ todo := hwaiting.notMem (by rw [hproving]; decide)
  have hrest := hwaiting.rewritten hrw hfile hold
  refine ⟨h.rewrite hfile hcont hrw ?_ ?_ ?_,hrw.advances hfile hcont⟩
  · split
    · rename_i hfailed
      exact fun _ => ⟨⟨tx,hfailed,hrw.self⟩,hrest⟩
    · exact fun _ => hrest
  · exact fun q hq hhas => absurd hhas.2.symm hq
  · exact fun hp => absurd hp hstatus

theorem RecordsInv.work {attempts : List (String × ℕ)} {ticks : ℕ}
    (h : RecordsInv store a fs w used history) (hnames : ∀ b ∈ w.names, IsPlain b)
    (hwork : WorkMove store maxSize fs w w' fs' attempts ticks) :
    RecordsInv store a fs' w' used history ∧ Advances store a fs fs' history := by
  have hstay : Advances store a fs fs history := fun _ _ tx hat => ⟨tx,hat,.rfl⟩
  -- another agent's turn: neither the records nor what the worker holds are this agent's
  have hother : ∀ {b : String} {w' : Worker} {fs' : Files}, b ≠ a → Frame (agentFiles store b) fs fs' →
      w'.Holds store a fs' → (∀ q, w.Has a q → w'.Has a q) →
      RecordsInv store a fs' w' used history ∧ Advances store a fs fs' history := by
    intro b w' fs' hab hframe hheld htaken
    have hkept := (belowKept_of_other (Ne.symm hab) hframe).records
    exact ⟨(h.kept hkept).goOn hheld htaken,hkept.advances⟩
  cases hwork with
  | tick _ => exact ⟨h.goOn trivial fun _ hf => hf,hstay⟩
  | done => exact ⟨h.goOn trivial fun _ hf => hf,hstay⟩
  | abort => exact ⟨h.goOn trivial fun _ hf => hf,hstay⟩
  | list hlist =>
    refine ⟨h.goOn ?_ fun _ hf => hf,hstay⟩
    rintro rfl
    exact h.waiting (hnames _ List.mem_cons_self) hlist
  | batchDone => exact ⟨h.goOn trivial fun _ hf => hf,hstay⟩
  | @prove b tx todo rest now _ hafter =>
    by_cases hab : b = a
    · subst hab
      exact h.prove (hnames _ List.mem_cons_self) hafter
    · exact hother hab (upsertQueued_frame (hnames _ List.mem_cons_self) hafter)
        (fun hb => absurd hb hab) fun _ hf => hf.elim
  | @attempt b tx todo rest now outcome =>
    refine ⟨h.goOn ?_ ?_,hstay⟩
    · intro hb
      obtain ⟨hstatus,hfile,hwaiting⟩ := h.held hb
      have hcont := continues_recordOutcome hstatus now outcome
      refine ⟨by cases outcome <;> simp [recordOutcome],⟨tx,hstatus,hcont,?_⟩,hwaiting⟩
      rw [hcont.seq]
      exact hfile
    · rintro q ⟨hb,hq⟩
      refine ⟨hb,?_⟩
      cases outcome <;> exact hq
  | @finish b tx todo rest _ hafter =>
    by_cases hab : b = a
    · subst hab
      exact h.finish (hnames _ List.mem_cons_self) hafter
    · refine hother hab (upsertQueued_frame (hnames _ List.mem_cons_self) hafter) ?_ ?_
      · split <;> exact fun hb => absurd hb hab
      · exact fun q hhas => absurd hhas.1 hab
  | @move b seq todo rest _ hafter =>
    by_cases hab : b = a
    · subst hab
      exact h.moveToFailed (hnames _ List.mem_cons_self) hafter
    · exact hother hab (moveToFailed_frame (hnames _ List.mem_cons_self) hafter)
        (fun hb => absurd hb hab) fun _ hf => hf.elim

end Steps

end MidenX402.Facilitator
