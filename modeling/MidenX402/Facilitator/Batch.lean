import MidenX402.Facilitator.Queue

/-!
# The batch worker

The worker reads the queue without the mutex of the agent and works through what it read.  Payments
of an agent are attempted once each, in order, and every complete round attempts a full batch of what
was waiting.
-/

namespace MidenX402.Facilitator
open Disk KeyedLock

section Kept
variable {M : Miden} {store : FilesystemX402Store} {a b : String} {fs fs' fs'' : Files}

/-- The queue of the agent has no new records and lost none. -/
structure QueueKept (store : FilesystemX402Store) (a : String) (fs fs' : Files) : Prop where
  old : ∀ name tx, fs'.fileAt (store.queuePath a ++ [name]) = some (.queued tx) →
    fs.fileAt (store.queuePath a ++ [name]) = some (.queued tx)
  present : ∀ q, (fs.fileAt (store.queuePath a ++ [seqFile q])).isSome = true →
    (fs'.fileAt (store.queuePath a ++ [seqFile q])).isSome = true

theorem QueueKept.trans (h : QueueKept store a fs fs') (h' : QueueKept store a fs' fs'') :
    QueueKept store a fs fs'' :=
  ⟨fun name tx hf => h.old name tx (h'.old name tx hf),fun q hq => h'.present q (h.present q hq)⟩

theorem queueKept_of_onlyAt {S : Set Path} (h : OnlyAt fs fs' S)
    (hS : ∀ name, store.queuePath a ++ [name] ∉ S) : QueueKept store a fs fs' := by
  refine ⟨fun name tx hf => h.old _ _ (hS name) hf,?_⟩
  intro q hq
  rw [h.files _ (undotted_seqFile _ q) (hS _)]
  exact hq

theorem queueKept_of_frame {S : Set Path} (h : Frame S fs fs')
    (hS : ∀ name, store.queuePath a ++ [name] ∉ S) : QueueKept store a fs fs' := by
  constructor
  · intro name tx hf
    rw [← h.files _ (hS name)]
    exact hf
  · intro q hq
    rw [h.files _ (hS _)]
    exact hq

theorem queueKept_of_lookups (h : OnlyLookups fs fs') : QueueKept store a fs fs' := by
  constructor
  · intro name tx hf
    rcases h.old _ _ hf with hold | ⟨seq,hseq⟩
    · exact hold
    · cases hseq
  · intro q hq
    rcases h.files _ (undotted_seqFile (store.queuePath a) q) with hsame | ⟨seq,hseq⟩
    · rw [hsame]
      exact hq
    · rw [hseq]
      rfl

theorem queuePath_ne_key (name x : String) : store.queuePath a ++ [name] ≠ store.keyPath b x :=
  fun h => keyPath_ne_below x a "pending_queue" name h.symm

/-- The queue is none of the files of a registration. -/
theorem registerOp_queue {record : AgentRecord} {mandate : AgentMandate} {initial : String}
    {op : RegisterOp} (hb : IsPlain record.agentId)
    (hop : op ∈ store.registerOps record mandate initial) (h : after op.run fs = some fs') :
    QueueKept store a fs fs' := by
  have hsteps : op.run.Steps (Local store record.agentId
      {p | ∃ name, p = store.keyPath record.agentId name}) fs := by
    refine registerOp_steps hb hop fun name _ => ?_
    rintro p (rfl | rfl)
    · exact ⟨_,rfl⟩
    · exact ⟨_,rfl⟩
  refine queueKept_of_frame (after_steps hsteps h).toFrame ?_
  rintro name ⟨key,hkey⟩
  exact queuePath_ne_key name key hkey

theorem queuePath_ne_record {sub : String} {seq : ℕ} (name : String) (h : a ≠ b ∨ sub ≠ "pending_queue") :
    store.queuePath a ++ [name] ≠ store.recordPath b sub seq := by
  intro he
  simp only [FilesystemX402Store.queuePath,FilesystemX402Store.recordPath,
    FilesystemX402Store.agentPath,List.append_assoc,List.cons_append,List.nil_append,
    List.append_cancel_left_eq,List.cons.injEq,and_true] at he
  rcases h with hab | hsub
  · exact hab he.1
  · exact hsub he.2.1.symm

theorem StageMove.queue {payload : AgenticPayload} {σ σ' : Stage}
    (h : StageMove M store b payload fs σ σ' fs') (hb : IsPlain b)
    (hab : a ≠ b ∨ ∀ p ns now, σ ≠ .advanced p ns now) : QueueKept store a fs fs' := by
  cases h with
  | reserve hafter =>
    exact queueKept_of_onlyAt (reserveNullifiers_spec hb hafter).1 fun name => queuePath_ne_key name _
  | advance hafter =>
    exact queueKept_of_onlyAt (advancePendingState_spec hb hafter).1 fun name => queuePath_ne_key name _
  | enqueue hafter =>
    obtain ⟨fs1,honly,-,hlookups⟩ := enqueue_spec hb hafter
    have hne : a ≠ b := hab.resolve_right fun h => h _ _ _ rfl
    exact (queueKept_of_onlyAt honly fun name => queuePath_ne_record name (Or.inl hne)).trans
      (queueKept_of_lookups hlookups)
  | _ => exact queueKept_of_onlyAt OnlyAt.rfl fun _ => Set.notMem_empty _

end Kept

section Steps
variable {store : FilesystemX402Store} {a b : String} {fs fs' : Files} {w w' : Worker} {k n n' : ℕ}

theorem Upcoming.mono {todo : List QueuedTx} (h : Upcoming k n todo) (hn : n ≤ n') :
    Upcoming k n' todo := ⟨h.seqs,h.bound.trans hn⟩

theorem Worker.Batching.mono (h : w.Batching a k n) (hn : n ≤ n') : w.Batching a k n' := by
  cases w with
  | idle => trivial
  | agents rest => trivial
  | batch b todo rest => exact fun hb => (h hb).mono hn
  | proving b tx todo rest => exact fun hb => ⟨(h hb).1,(h hb).2.1,(h hb).2.2.mono hn⟩
  | finishing b tx todo rest =>
    exact fun hb => ⟨(h hb).1,(h hb).2.1,(h hb).2.2.1,(h hb).2.2.2.mono hn⟩
  | moving b seq todo rest => exact fun hb => ⟨(h hb).1,(h hb).2.mono hn⟩

theorem QueueInv.kept (h : QueueInv store a fs w k n) (hk : QueueKept store a fs fs') :
    QueueInv store a fs' w k n :=
  ⟨h.batching,h.bound,fun name tx hf => h.records name tx (hk.old name tx hf),
    fun q hq hn => hk.present q (h.present q hq hn)⟩

/-- The worker goes on with the files as they are. -/
theorem QueueInv.goOn {k' : ℕ} (h : QueueInv store a fs w k n) (hb : w'.Batching a k' n)
    (hs : w'.started a k' = w.started a k) : QueueInv store a fs w' k' n := by
  refine ⟨hb,?_,?_,?_⟩
  · rw [hs]
    exact h.bound
  · rw [hs]
    exact h.records
  · rw [hs]
    exact h.present

/-- An accepted payment joins the queue. -/
theorem QueueInv.enqueue (h : QueueInv store a fs w k n) (ha : IsPlain a) {tx : QueuedTx}
    (hseq : tx.seq = n + 1) (hstatus : tx.status = .accepted)
    (hafter : after (store.enqueue a tx) fs = some fs') : QueueInv store a fs' w k (n + 1) := by
  obtain ⟨fs1,honly,hrecord,hlookups⟩ := enqueue_spec ha hafter
  rw [hseq] at honly hrecord
  have hbound := h.bound
  have hfirst : QueueInv store a fs1 w k (n + 1) := by
    refine ⟨h.batching.mono (Nat.le_succ n),hbound.trans (Nat.le_succ n),?_,?_⟩
    · intro name tx' hf
      by_cases hname : store.queuePath a ++ [name] = store.recordPath a "pending_queue" (n + 1)
      · rw [hname] at hf
        obtain rfl := queued_unique hrecord hf
        have hlast : name = seqFile (n + 1) := List.singleton_inj.mp (List.append_cancel_left hname)
        rw [hseq]
        refine ⟨hlast,by omega,le_rfl,fun _ => by omega,fun _ => hstatus⟩
      · obtain ⟨hn,hpos,hle,hiff⟩ := h.records name tx' (honly.old _ _ hname hf)
        exact ⟨hn,hpos,hle.trans (Nat.le_succ n),hiff⟩
    · intro q hq hn
      by_cases hlast : q = n + 1
      · subst hlast
        change (fs1.fileAt (store.recordPath a "pending_queue" (n + 1))).isSome = true
        rw [hrecord]
        rfl
      · have hold := h.present q hq (by omega)
        have hne : store.queuePath a ++ [seqFile q] ≠ store.recordPath a "pending_queue" (n + 1) :=
          fun he => hlast (seqFile_inj (List.singleton_inj.mp (List.append_cancel_left he)))
        rw [honly.files _ (undotted_seqFile _ q) hne]
        exact hold
  exact hfirst.kept (queueKept_of_lookups hlookups)

theorem HasQueue.readFile (h : HasQueue store fs a) (ha : IsPlain a) (q : ℕ) :
    fs.readFile (store.recordPath a "pending_queue" q) =
      fs.fileAt (store.recordPath a "pending_queue" q) :=
  readFile_recordPath ha (by decide) q (Option.isSome_iff_exists.mpr ⟨_,h⟩)

/-- A record that has been taken up is written back. -/
theorem QueueInv.upsert {k' : ℕ} (h : QueueInv store a fs w k n) (ha : IsPlain a)
    (hdir : HasQueue store fs a) {tx : QueuedTx} (hstatus : tx.status ≠ .accepted)
    (hpos : 1 ≤ tx.seq) (hle : tx.seq ≤ w'.started a k') (hbatch : w'.Batching a k' n)
    (hbound : w'.started a k' ≤ n) (hmono : w.started a k ≤ w'.started a k')
    (hcover : ∀ q, w.started a k < q → q ≤ w'.started a k' → q = tx.seq)
    (hafter : after (store.upsertQueued a tx) fs = some fs') : QueueInv store a fs' w' k' n := by
  obtain ⟨sub,-,honly,hrecord,hsub⟩ := upsertQueued_spec ha hafter
  rw [hdir.readFile ha] at hsub
  refine ⟨hbatch,hbound,?_,?_⟩
  · intro name tx' hf
    by_cases hself : store.queuePath a ++ [name] = store.recordPath a "pending_queue" tx.seq
    · have hsubeq : sub = "pending_queue" := by
        by_contra hne
        have hold := honly.old _ _ (queuePath_ne_record name (Or.inr hne)) hf
        rw [hself] at hold
        exact hne (hsub (by rw [hold]; rfl))
      rw [hsubeq] at hrecord
      rw [hself] at hf
      obtain rfl := queued_unique hrecord hf
      refine ⟨List.singleton_inj.mp (List.append_cancel_left hself),hpos,hle.trans hbound,?_⟩
      exact ⟨fun hacc => absurd hacc hstatus,fun hlt => absurd hle (Nat.not_le.mpr hlt)⟩
    · have hnot : store.queuePath a ++ [name] ≠ store.recordPath a sub tx.seq := by
        intro he
        by_cases hsubeq : sub = "pending_queue"
        · rw [hsubeq] at he
          exact hself he
        · exact queuePath_ne_record name (Or.inr hsubeq) he
      obtain ⟨hname,hpos',hle',hiff⟩ := h.records name tx' (honly.old _ _ hnot hf)
      refine ⟨hname,hpos',hle',?_⟩
      have hne : tx'.seq ≠ tx.seq := by
        intro heq
        rw [hname,heq] at hself
        exact hself rfl
      rw [hiff]
      constructor
      · intro hlt
        by_contra hnlt
        exact hne (hcover _ hlt (Nat.not_lt.mp hnlt))
      · exact fun hlt => Nat.lt_of_le_of_lt hmono hlt
  · intro q hq hn
    have hne : store.queuePath a ++ [seqFile q] ≠ store.recordPath a sub tx.seq := by
      intro he
      have hrecord' : store.recordPath a "pending_queue" q = store.recordPath a sub tx.seq := he
      have hseq := (recordPath_inj hrecord').2.2
      omega
    rw [honly.files _ (undotted_seqFile _ q) hne]
    exact h.present q (Nat.lt_of_le_of_lt hmono hq) hn

/-- A failed record leaves the queue. -/
theorem QueueInv.moveToFailed {seq : ℕ} (h : QueueInv store a fs w k n) (ha : IsPlain a)
    (hle : seq ≤ w.started a k) (hafter : after (store.moveToFailed a seq) fs = some fs') :
    QueueInv store a fs' w k n := by
  obtain ⟨honly,hgone⟩ := moveToFailed_spec ha hafter
  have hother : ∀ name, store.queuePath a ++ [name] ≠ store.recordPath a "pending_queue" seq →
      store.queuePath a ++ [name] ∉
        ({store.recordPath a "pending_queue" seq,store.recordPath a "failed" seq} : Set Path) := by
    rintro name hne (hmem | hmem)
    · exact hne hmem
    · exact queuePath_ne_record name (Or.inr (by decide)) hmem
  refine ⟨h.batching,h.bound,?_,?_⟩
  · intro name tx hf
    by_cases hself : store.queuePath a ++ [name] = store.recordPath a "pending_queue" seq
    · rw [hself,hgone] at hf
      cases hf
    · exact h.records name tx (honly.old _ _ (hother name hself) hf)
  · intro q hq hn
    have hne : store.queuePath a ++ [seqFile q] ≠ store.recordPath a "pending_queue" seq := by
      intro he
      have hseq : q = seq := seqFile_inj (List.singleton_inj.mp (List.append_cancel_left he))
      omega
    rw [honly.files _ (undotted_seqFile _ q) (hother _ hne)]
    exact h.present q hq hn

end Steps

section Work
variable {store : FilesystemX402Store} {maxSize : ℕ} {a b : String} {fs fs' : Files}
  {w w' : Worker} {k n ticks : ℕ} {attempts : List (String × ℕ)} {todo : List QueuedTx}
  {rest : List String} {tx : QueuedTx}

/-- The numbers of an agent's payments among the attempts. -/
def attemptsOf (a : String) (attempts : List (String × ℕ)) : List ℕ :=
  (attempts.filter fun x => x.1 = a).map Prod.snd

theorem Upcoming.head (h : Upcoming k n (tx :: todo)) : tx.seq = k + 1 ∧ Upcoming (k + 1) n todo := by
  have hseqs := h.seqs
  rw [List.map_cons,List.length_cons,List.range'_succ,List.cons.injEq] at hseqs
  refine ⟨hseqs.1,hseqs.2,?_⟩
  have hbound := h.bound
  rw [List.length_cons] at hbound
  omega

theorem upsert_kept (hb : IsPlain b) (hab : b ≠ a)
    (hafter : after (store.upsertQueued b tx) fs = some fs') : QueueKept store a fs fs' := by
  obtain ⟨sub,-,honly,-⟩ := upsertQueued_spec hb hafter
  exact queueKept_of_onlyAt honly fun name => queuePath_ne_record name (Or.inl (Ne.symm hab))

theorem QueueInv.list (h : QueueInv store a fs (.agents (b :: rest)) k n) (hb : IsPlain b)
    (hdir : 0 < n → HasQueue store fs a) {queued : List QueuedTx}
    (hlist : store.listQueued b fs = .ok queued) :
    QueueInv store a fs (.batch b (nextBatch maxSize queued) rest) k n := by
  refine h.goOn ?_ rfl
  rintro rfl
  have hseqs := h.nextBatch_seqs hb rfl hdir hlist maxSize
  have hlen := congrArg List.length hseqs
  rw [List.length_map,List.length_range'] at hlen
  have hbound : k ≤ n := h.bound
  refine ⟨?_,?_⟩
  · rw [hseqs,hlen]
  · omega

theorem QueueInv.prove (h : QueueInv store a fs (.batch b (tx :: todo) rest) k n) (hb : IsPlain b)
    (hdir : 0 < n → HasQueue store fs a) {now : ℕ}
    (hafter : after (store.upsertQueued b (startProving tx now)) fs = some fs') :
    QueueInv store a fs' (.proving b (startProving tx now) todo rest) k n := by
  by_cases hab : b = a
  · subst hab
    obtain ⟨hseq,hrest⟩ := (h.batching rfl).head
    have hn : k + 1 ≤ n := (Nat.le_add_right _ _).trans hrest.bound
    have hseq' : (startProving tx now).seq = k + 1 := hseq
    have hstarted : (Worker.proving b (startProving tx now) todo rest).started b k = k + 1 := if_pos rfl
    refine h.upsert hb (hdir (by omega)) (by simp [startProving]) ?_ ?_ ?_ ?_ ?_ ?_ hafter
    · omega
    · rw [hstarted,hseq']
    · exact fun _ => ⟨hseq',by simp [startProving],hrest⟩
    · rw [hstarted]
      exact hn
    · rw [hstarted]
      exact Nat.le_succ k
    · intro q hq hle
      rw [hstarted] at hle
      have hlt : k < q := hq
      omega
  · have hkept := h.kept (upsert_kept hb hab hafter)
    refine hkept.goOn (fun he => absurd he hab) ?_
    exact if_neg hab

theorem QueueInv.finish (h : QueueInv store a fs (.finishing b tx todo rest) k n) (hb : IsPlain b)
    (hdir : 0 < n → HasQueue store fs a) (hafter : after (store.upsertQueued b tx) fs = some fs') :
    QueueInv store a fs'
      (if tx.status = .failed then .moving b tx.seq todo rest else .batch b todo rest) k n := by
  have hnext : ∀ {fs : Files}, QueueInv store a fs (.finishing b tx todo rest) k n → QueueInv store a fs
      (if tx.status = .failed then .moving b tx.seq todo rest else .batch b todo rest) k n := by
    intro fs hq
    split
    · exact hq.goOn (fun he => ⟨(hq.batching he).1,(hq.batching he).2.2.2⟩) rfl
    · exact hq.goOn (fun he => (hq.batching he).2.2.2) rfl
  by_cases hab : b = a
  · subst hab
    obtain ⟨hseq,hpos,hstatus,-⟩ := h.batching rfl
    have hbound : k ≤ n := h.bound
    refine hnext (h.upsert hb (hdir (by omega)) hstatus (by omega) (le_of_eq hseq) h.batching h.bound
      le_rfl ?_ hafter)
    intro q hq hle
    exact absurd hle (Nat.not_le.mpr hq)
  · exact hnext (h.kept (upsert_kept hb hab hafter))

theorem QueueInv.move {seq : ℕ} (h : QueueInv store a fs (.moving b seq todo rest) k n)
    (hb : IsPlain b) (hafter : after (store.moveToFailed b seq) fs = some fs') :
    QueueInv store a fs' (.batch b todo rest) k n := by
  have hmoved : QueueInv store a fs' (.moving b seq todo rest) k n := by
    by_cases hab : b = a
    · subst hab
      exact h.moveToFailed hb (le_of_eq (h.batching rfl).1) hafter
    · apply h.kept
      apply queueKept_of_onlyAt (moveToFailed_spec hb hafter).1
      rintro name (hmem | hmem)
      · exact queuePath_ne_record name (Or.inl (Ne.symm hab)) hmem
      · exact queuePath_ne_record name (Or.inl (Ne.symm hab)) hmem
  exact hmoved.goOn (fun he => (hmoved.batching he).2) rfl

theorem QueueInv.work (h : QueueInv store a fs w k n) (hnames : ∀ b ∈ w.names, IsPlain b)
    (hdir : 0 < n → HasQueue store fs a)
    (hwork : WorkMove store maxSize fs w w' fs' attempts ticks) :
    ∃ j, attemptsOf a attempts = List.range' (k + 1) j ∧ QueueInv store a fs' w' (k + j) n := by
  cases hwork with
  | tick _ => exact ⟨0,rfl,h.goOn trivial rfl⟩
  | done => exact ⟨0,rfl,h.goOn trivial rfl⟩
  | abort => exact ⟨0,rfl,h.goOn trivial rfl⟩
  | list hlist => exact ⟨0,rfl,h.list (hnames _ List.mem_cons_self) hdir hlist⟩
  | batchDone => exact ⟨0,rfl,h.goOn trivial rfl⟩
  | prove hafter => exact ⟨0,rfl,h.prove (hnames _ List.mem_cons_self) hdir hafter⟩
  | @attempt b tx todo rest now outcome =>
    by_cases hab : b = a
    · subst hab
      obtain ⟨hseq,-,hrest⟩ := h.batching rfl
      refine ⟨1,?_,h.goOn ?_ ?_⟩
      · simp [attemptsOf,hseq]
      · refine fun _ => ⟨?_,by omega,?_,hrest⟩
        · cases outcome <;> exact hseq
        · cases outcome <;> simp [recordOutcome]
      · exact (if_pos rfl).symm
    · refine ⟨0,?_,h.goOn (fun he => absurd he hab) ?_⟩
      · simp [attemptsOf,hab]
      · exact (if_neg hab).symm
  | finish hafter => exact ⟨0,rfl,h.finish (hnames _ List.mem_cons_self) hdir hafter⟩
  | move hafter => exact ⟨0,rfl,h.move (hnames _ List.mem_cons_self) hafter⟩

end Work

section Server
variable {M : Miden} {store : FilesystemX402Store} {maxSize : ℕ} {s s' : Server} {act : Action}
  {acts : List Action} {fs : Files} {a : String}

def Server.attemptsOf (s : Server) (a : String) : List ℕ := Facilitator.attemptsOf a s.attempts

theorem attemptsOf_append (a : String) (xs ys : List (String × ℕ)) :
    attemptsOf a (xs ++ ys) = attemptsOf a xs ++ attemptsOf a ys := by
  rw [attemptsOf,List.filter_append,List.map_append]
  rfl

/-- The payments of an agent are attempted from the first one on. -/
structure Attempted (store : FilesystemX402Store) (s : Server) (a : String) : Prop where
  inOrder : s.attemptsOf a = List.range' 1 (s.attemptsOf a).length
  queue : QueueInv store a s.files s.worker (s.attemptsOf a).length (s.history a).length

structure BatchInv (M : Miden) (store : FilesystemX402Store) (s : Server) : Prop where
  server : ServerInv M store s
  queueDir : ∀ a, s.initialOf a ≠ none → HasQueue store s.files a
  attempted : ∀ a, Attempted store s a

theorem HasQueue.mono {fs' : Files} (h : HasQueue store fs a)
    (hdirs : ∀ p, fs.isDir p = true → fs'.isDir p = true) : HasQueue store fs' a :=
  resolveDir_mono hdirs h

theorem AgentMove.hasQueue {broke : Bool} (hmove : AgentMove M store a s s' broke)
    (hsole : SoleInv store s) (hplain : PlainInv store s)
    (h : s.initialOf a ≠ none → HasQueue store s.files a) :
    s'.initialOf a ≠ none → HasQueue store s'.files a := by
  have hdirs := hmove.dirs
  cases hmove with
  | quiet hinitial _ _ _ _ _ _ =>
    rw [hinitial]
    exact fun hi => (h hi).mono hdirs
  | register ha hg hid htodo _ _ _ _ _ _ _ =>
    subst hid
    have hdir := hsole.resolves hplain hg htodo (List.mem_cons_of_mem _ List.mem_cons_self)
    rw [FilesystemX402Store.queueDir,agentDir_eq ha] at hdir
    exact fun _ => HasQueue.mono hdir hdirs
  | stage _ _ _ hinitial _ _ _ =>
    rw [hinitial]
    exact fun hi => (h hi).mono hdirs
  | cut _ _ _ hinitial _ _ _ =>
    rw [hinitial]
    exact fun hi => (h hi).mono hdirs

theorem Attempted.kept (h : Attempted store s a) (hfiles : QueueKept store a s.files s'.files)
    (hworker : s'.worker = s.worker) (hattempts : s'.attempts = s.attempts)
    (hhistory : s'.history a = s.history a) : Attempted store s' a := by
  have hof : s'.attemptsOf a = s.attemptsOf a := by
    rw [Server.attemptsOf,hattempts]
    rfl
  constructor
  · rw [hof]
    exact h.inOrder
  · rw [hof,hhistory,hworker]
    exact h.queue.kept hfiles

theorem Attempted.work {w : Worker} {attempts : List (String × ℕ)} {ticks : ℕ}
    (h : Attempted store s a) (hnames : ∀ b ∈ s.worker.names, IsPlain b)
    (hdir : 0 < (s.history a).length → HasQueue store s.files a)
    (hwork : WorkMove store maxSize s.files s.worker w s'.files attempts ticks)
    (hworker : s'.worker = w) (hattempts : s'.attempts = s.attempts ++ attempts)
    (hhistory : s'.history a = s.history a) : Attempted store s' a := by
  obtain ⟨j,hj,hqueue⟩ := h.queue.work hnames hdir hwork
  have hof : s'.attemptsOf a = List.range' 1 ((s.attemptsOf a).length + j) := by
    rw [Server.attemptsOf,hattempts,attemptsOf_append,hj,← List.range'_append_1,Nat.add_comm 1]
    exact congrArg (· ++ _) h.inOrder
  have hlen : (s'.attemptsOf a).length = (s.attemptsOf a).length + j := by
    rw [hof,List.length_range']
  constructor
  · rw [hlen]
    exact hof
  · rw [hlen,hhistory,hworker]
    exact hqueue

theorem Attempted.enqueue {tx : QueuedTx} (h : Attempted store s a) (ha : IsPlain a)
    (hseq : tx.seq = (s.history a).length + 1) (hstatus : tx.status = .accepted)
    (hafter : after (store.enqueue a tx) s.files = some s'.files) (hworker : s'.worker = s.worker)
    (hattempts : s'.attempts = s.attempts)
    (hlen : (s'.history a).length = (s.history a).length + 1) : Attempted store s' a := by
  have hof : s'.attemptsOf a = s.attemptsOf a := by
    rw [Server.attemptsOf,hattempts]
    rfl
  constructor
  · rw [hof]
    exact h.inOrder
  · rw [hof,hlen,hworker]
    exact h.queue.enqueue ha hseq hstatus hafter

theorem BatchInv.stage {t m : ℕ} {r : Request} {σ σ' : Stage} (h : BatchInv M store s)
    (hr : s.request t = some r) (hp : r.phase = .inside m σ)
    (hstage : StageMove M store r.agentId r.payload s.files σ σ' s'.files)
    (hworker : s'.worker = s.worker) (hattempts : s'.attempts = s.attempts)
    (haccepted : s'.accepted = s.accepted ++ acceptance r.agentId r.payload σ') :
    Attempted store s' a := by
  have hplain := h.server.plain.requests t r hr
  have hhistory := history_append (a := a) haccepted
  by_cases hra : r.agentId = a
  · subst hra
    rw [if_pos rfl] at hhistory
    by_cases hadv : ∃ p ns now, σ = .advanced p ns now
    · obtain ⟨p,ns,now,rfl⟩ := hadv
      have hseq := h.server.next_seq ⟨t,insideAt_of_phase hr hp⟩
      generalize hfs : s'.files = fs' at hstage
      cases hstage with
      | enqueue hafter =>
        subst hfs
        refine (h.attempted r.agentId).enqueue hplain ?_ rfl hafter hworker hattempts ?_
        · rw [← hseq]
          rfl
        · rw [hhistory,List.length_append]
          rfl
    · have hkept := hstage.queue hplain (a := r.agentId)
        (Or.inr fun p ns now he => hadv ⟨p,ns,now,he⟩)
      rw [hstage.acceptance_eq_nil hadv,List.append_nil] at hhistory
      exact (h.attempted r.agentId).kept hkept hworker hattempts hhistory
  · rw [if_neg hra,List.append_nil] at hhistory
    exact (h.attempted a).kept (hstage.queue hplain (Or.inl (Ne.symm hra))) hworker hattempts hhistory

/-- An action under a plain agent id that is no restart and in which no operation fails. -/
def Action.Steady (act : Action) : Prop := act.PlainId ∧ act ≠ .restart ∧ act.fails = false

theorem BatchInv.move (h : BatchInv M store s) (hact : act.Steady) (hsole : s.Unraced store act)
    (hmove : Move M store maxSize s act s') : BatchInv M store s' := by
  obtain ⟨hplain,hrestart,hfails⟩ := hact
  refine ⟨h.server.move hplain hsole hfails hmove,?_,?_⟩
  · exact fun a => (hmove.agent h.server.lock h.server.plain a).hasQueue h.server.sole h.server.plain
      (h.queueDir a)
  · intro a
    have hatt := h.attempted a
    have hsame : QueueKept store a s.files s.files :=
      queueKept_of_onlyAt OnlyAt.rfl fun _ => Set.notMem_empty _
    cases hmove with
    | stay => exact hatt
    | begin _ => exact hatt.kept hsame rfl rfl rfl
    | @registration t g op rest fs' hg htodo hafter =>
      have henrols := h.server.plain.registrations t g hg
      exact hatt.kept (registerOp_queue henrols.plain
        (henrols.mem_ops (htodo ▸ List.mem_cons_self)) hafter) rfl rfl rfl
    | registrationFails _ _ _ => cases hfails
    | arrive => exact hatt.kept hsame rfl rfl rfl
    | miss _ _ => exact hatt.kept hsame rfl rfl rfl
    | find _ _ _ => exact hatt.kept hsame rfl rfl rfl
    | insert _ _ => exact hatt.kept hsame rfl rfl rfl
    | acquire _ _ _ => exact hatt.kept hsame rfl rfl rfl
    | stage hr hp hstage => exact h.stage hr hp hstage rfl rfl rfl
    | leave _ _ _ => exact hatt.kept hsame rfl rfl rfl
    | requestFails _ _ _ => cases hfails
    | work _ hwork =>
      refine hatt.work h.server.plain.worker ?_ hwork rfl rfl rfl
      intro hpos
      apply h.queueDir
      intro hnone
      rw [(h.server.unregistered hnone).history] at hpos
      exact absurd hpos (Nat.lt_irrefl 0)
    | workFails _ => cases hfails
    | restart _ _ => exact absurd rfl hrestart

theorem Fresh.queue (h : Fresh store fs) (a name : String) :
    fs.fileAt (store.queuePath a ++ [name]) = none := by
  rw [FilesystemX402Store.queuePath,FilesystemX402Store.agentPath,List.append_assoc,List.append_assoc]
  exact h _

theorem batchInv_start (hfresh : Fresh store fs) : BatchInv M store (Server.start fs) := by
  refine ⟨serverInv_start hfresh,fun a hi => absurd rfl hi,fun a => ⟨rfl,trivial,le_rfl,?_,?_⟩⟩
  · intro name tx hf
    have hnone : (Server.start fs).files.fileAt (store.queuePath a ++ [name]) = none :=
      hfresh.queue a name
    rw [hnone] at hf
    cases hf
  · intro q hq hle
    exact absurd hq (Nat.not_lt.mpr hle)

theorem batchInv_run {acts : List Action} (hfresh : Fresh store fs) (hacts : ∀ act ∈ acts, act.Steady)
    (hsole : (Server.start fs).Along M store maxSize (Server.Unraced store) acts)
    (hrun : (Server.start fs).run M store maxSize acts = some s) : BatchInv M store s :=
  run_along (fun hs hact hmove => BatchInv.move hs hact.1 hact.2 hmove) (batchInv_start hfresh)
    ((along_of_forall fun act h _ => hacts act h).and hsole) hrun

end Server

section Progress
variable {M : Miden} {store : FilesystemX402Store} {maxSize : ℕ} {s s' : Server} {act : Action}
  {acts later : List Action} {fs fs' : Files} {a : String} {w w' : Worker} {k n n0 rounds ticks : ℕ}
  {attempts : List (String × ℕ)}

/-- The agents whose queue is still to be read in this round. -/
def Worker.unread : Worker → List String
  | .idle => []
  | .agents rest | .batch _ _ rest | .proving _ _ _ rest | .finishing _ _ _ rest
  | .moving _ _ _ rest => rest

/-- The payments of the agent that are still to be attempted in this round. -/
def Worker.remaining (a : String) : Worker → ℕ
  | .batch b todo _ | .finishing b _ todo _ | .moving b _ todo _ => if b = a then todo.length else 0
  | .proving b _ todo _ => if b = a then todo.length + 1 else 0
  | _ => 0

/-- After some complete rounds, `n0` payments having waited when the first one began. -/
structure Progress (a : String) (n0 maxSize rounds : ℕ) (w : Worker) (k : ℕ) : Prop where
  done : min n0 (rounds * maxSize) ≤ k
  round : w ≠ .idle → a ∈ w.unread ∨ min n0 ((rounds + 1) * maxSize) ≤ k + w.remaining a

/-- A step within a round that reads no queue. -/
theorem Progress.within (h : Progress a n0 maxSize rounds w k) (hw : w ≠ .idle)
    (hunread : a ∈ w.unread → a ∈ w'.unread) {j : ℕ}
    (hremaining : k + w.remaining a ≤ k + j + w'.remaining a) :
    Progress a n0 maxSize rounds w' (k + j) := by
  refine ⟨h.done.trans (Nat.le_add_right _ _),fun _ => ?_⟩
  rcases h.round hw with hrest | hle
  · exact Or.inl (hunread hrest)
  · exact Or.inr (hle.trans hremaining)

theorem Progress.list {b : String} {rest : List String} {queued : List QueuedTx}
    (h : Progress a n0 maxSize rounds (.agents (b :: rest)) k)
    (hq : QueueInv store a fs (.agents (b :: rest)) k n) (hn : n0 ≤ n) (hb : IsPlain b)
    (hdir : 0 < n → HasQueue store fs a) (hlist : store.listQueued b fs = .ok queued) :
    Progress a n0 maxSize rounds (.batch b (nextBatch maxSize queued) rest) k := by
  refine ⟨h.done,fun _ => ?_⟩
  by_cases hab : b = a
  · subst hab
    right
    have hlen := congrArg List.length (hq.nextBatch_seqs hb rfl hdir hlist maxSize)
    rw [List.length_map,List.length_range'] at hlen
    have hdone := h.done
    have hbound : k ≤ n := hq.bound
    rw [Worker.remaining,if_pos rfl,hlen,Nat.add_mul,Nat.one_mul]
    omega
  · rcases h.round (by simp) with hrest | hle
    · exact Or.inl ((List.mem_cons.mp hrest).resolve_left (Ne.symm hab))
    · right
      rw [Worker.remaining,if_neg hab]
      exact hle

theorem Progress.work (h : Progress a n0 maxSize rounds w k) (hq : QueueInv store a fs w k n)
    (hn : n0 ≤ n) (hnames : ∀ b ∈ w.names, IsPlain b) (hdir : 0 < n → HasQueue store fs a)
    (hlisted : 0 < n0 → a ∈ store.listAgents fs)
    (hwork : WorkMove store maxSize fs w w' fs' attempts ticks) :
    Progress a n0 maxSize (rounds + ticks) w' (k + (attemptsOf a attempts).length) := by
  cases hwork with
  | tick hperm =>
    refine ⟨h.done,fun _ => ?_⟩
    rcases Nat.eq_zero_or_pos n0 with rfl | hpos
    · right
      rw [Nat.zero_min]
      exact Nat.zero_le _
    · exact Or.inl (hperm.mem_iff.mpr (hlisted hpos))
  | done =>
    refine ⟨?_,fun hidle => absurd rfl hidle⟩
    rcases h.round (by simp) with hrest | hle
    · cases hrest
    · exact hle
  | abort => exact ⟨h.done,fun hidle => absurd rfl hidle⟩
  | list hlist => exact h.list hq hn (hnames _ List.mem_cons_self) hdir hlist
  | batchDone =>
    refine h.within (by simp) ?_ ?_
    · exact fun hm => hm
    · simp [Worker.remaining,attemptsOf]
  | prove _ =>
    refine h.within (by simp) ?_ ?_
    · exact fun hm => hm
    · simp [Worker.remaining,attemptsOf]
  | @attempt b tx todo rest now outcome =>
    refine h.within (by simp) ?_ ?_
    · exact fun hm => hm
    · by_cases hab : b = a
      · simp [Worker.remaining,attemptsOf,hab]
        omega
      · simp [Worker.remaining,attemptsOf,hab]
  | finish _ =>
    refine h.within (by simp) ?_ ?_
    · split <;> exact fun hm => hm
    · split <;> simp [Worker.remaining,attemptsOf]
  | move _ =>
    refine h.within (by simp) ?_ ?_
    · exact fun hm => hm
    · simp [Worker.remaining,attemptsOf]

theorem mem_listAgents (ha : IsPlain a) (hdir : HasDir store fs a) : a ∈ store.listAgents fs := by
  have hres := hdir
  rw [HasDir,FilesystemX402Store.agentPath,resolveDir_append] at hres
  obtain ⟨d,hd,hlast⟩ := Option.bind_eq_some_iff.mp hres
  rw [resolveDir_of_plain (plain_agentsDir store) hd,FileSystem.resolveDir,if_neg ha.ne_dots] at hlast
  split at hlast
  · rename_i hisdir
    have hnode : fs.node (store.agentsDir ++ [a]) = some .dir := by
      rw [FileSystem.isDir] at hisdir
      split at hisdir
      · assumption
      · exact absurd (of_decide_eq_true hisdir) (by simp)
    exact List.mem_filterMap.mpr ⟨(a,.dir),FileSystem.mem_entries.mpr ⟨hnode,ha⟩,rfl⟩
  · cases hlast

theorem AgentMove.history_length {broke : Bool} (h : AgentMove M store a s s' broke) :
    (s.history a).length ≤ (s'.history a).length := by
  cases h with
  | quiet _ _ hhistory _ _ _ _ => rw [hhistory]
  | register _ _ _ _ _ _ _ _ hhistory _ _ => rw [hhistory]
  | cut _ _ _ _ _ hhistory _ => rw [hhistory]
  | stage _ _ _ _ _ hhistory _ =>
    rw [hhistory,List.length_append]
    exact Nat.le_add_right _ _

/-- Only the worker changes what the worker has done. -/
theorem Move.worker_cases (h : Move M store maxSize s act s') (hact : act ≠ .restart)
    (hfails : act.fails = false) :
    (s'.worker = s.worker ∧ s'.attempts = s.attempts ∧ s'.ticks = s.ticks) ∨
    ∃ fs' attempts ticks, WorkMove store maxSize s.files s.worker s'.worker fs' attempts ticks ∧
      s'.attempts = s.attempts ++ attempts ∧ s'.ticks = s.ticks + ticks := by
  cases h with
  | work _ hwork => exact Or.inr ⟨_,_,_,hwork,rfl,rfl⟩
  | workFails _ => cases hfails
  | restart _ _ => exact absurd rfl hact
  | _ => exact Or.inl ⟨rfl,rfl,rfl⟩

/-- The invariant of a run that follows a state with `n0` payments and an idle worker. -/
structure RoundInv (M : Miden) (store : FilesystemX402Store) (maxSize : ℕ) (a : String)
    (n0 ticks : ℕ) (s : Server) : Prop where
  batch : BatchInv M store s
  waiting : n0 ≤ (s.history a).length
  since : ticks ≤ s.ticks
  progress : Progress a n0 maxSize (s.ticks - ticks) s.worker (s.attemptsOf a).length

theorem RoundInv.move (h : RoundInv M store maxSize a n0 ticks s) (hact : act.Steady)
    (hsole : s.Unraced store act) (hmove : Move M store maxSize s act s') :
    RoundInv M store maxSize a n0 ticks s' := by
  have hserver := h.batch.server
  have hagent := hmove.agent hserver.lock hserver.plain a
  have hregistered : 0 < (s.history a).length → ∃ initial, s.initialOf a = some initial := by
    intro hpos
    cases hs : s.initialOf a with
    | none =>
      rw [(hserver.unregistered hs).history] at hpos
      exact absurd hpos (Nat.lt_irrefl 0)
    | some initial => exact ⟨initial,rfl⟩
  refine ⟨h.batch.move hact hsole hmove,h.waiting.trans hagent.history_length,?_,?_⟩
  · rcases hmove.worker_cases hact.2.1 hact.2.2 with ⟨-,-,hticks⟩ | ⟨_,_,_,-,-,hticks⟩
    · rw [hticks]
      exact h.since
    · rw [hticks]
      exact h.since.trans (Nat.le_add_right _ _)
  · rcases hmove.worker_cases hact.2.1 hact.2.2 with ⟨hworker,hattempts,hticks⟩ | ⟨fs',attempts,t,hwork,hattempts,hticks⟩
    · rw [hworker,hticks,Server.attemptsOf,hattempts]
      exact h.progress
    · have hnext := h.progress.work (h.batch.attempted a).queue h.waiting hserver.plain.worker ?_ ?_ hwork
      · rw [hticks,Server.attemptsOf,hattempts,attemptsOf_append,List.length_append,
          Nat.sub_add_comm h.since]
        exact hnext
      · intro hpos
        obtain ⟨initial,hi⟩ := hregistered hpos
        exact h.batch.queueDir a (by rw [hi]; simp)
      · intro hpos
        obtain ⟨initial,hi⟩ := hregistered (Nat.lt_of_lt_of_le hpos h.waiting)
        have hfollowing := hserver.following hi
        exact mem_listAgents hfollowing.plain hfollowing.dir

theorem Attempted.le_history (h : Attempted store s a) :
    (s.attemptsOf a).length ≤ (s.history a).length := by
  refine Nat.le_trans ?_ h.queue.bound
  cases s.worker with
  | proving b tx todo rest =>
    rw [Worker.started]
    split
    · exact Nat.le_succ _
    · exact le_rfl
  | _ => exact le_rfl

/-- An attempt is one of an accepted payment. -/
theorem BatchInv.exists_accepted (h : BatchInv M store s) {q : ℕ} (hq : q ∈ s.attemptsOf a) :
    ∃ x ∈ s.history a, x.seq = q := by
  rw [(h.attempted a).inOrder,List.mem_range'_1] at hq
  have hle := (h.attempted a).le_history
  apply List.mem_map.mp
  rw [h.server.seqs a,List.mem_range'_1]
  omega

/-- In a run whose agent ids are plain names, without restarts and with no two registrations of an agent
at once: the payments of an agent are attempted at most once each and in the order of their numbers,
and when the worker has gone round completely after `n` payments were accepted, it has attempted the
first of them, a full batch for each round. -/
theorem payments_attempted (hfresh : Fresh store fs)
    (hacts : ∀ act ∈ acts ++ later, act.PlainId ∧ act ≠ .restart ∧ act.fails = false)
    (hsole : (Server.start fs).Along M store maxSize (Server.Unraced store) (acts ++ later))
    (hrun : (Server.start fs).run M store maxSize acts = some s) (hidle : s.worker = .idle)
    (hlater : s.run M store maxSize later = some s') (a : String) :
    (s'.attemptsOf a).Pairwise (· < ·) ∧ (∀ q ∈ s'.attemptsOf a, ∃ x ∈ s'.history a, x.seq = q) ∧
    ∀ q, 1 ≤ q → q ≤ min (s.history a).length ((s'.ticks - s.ticks) * maxSize) →
      q ∈ s'.attemptsOf a := by
  obtain ⟨hearly,hlate⟩ := hsole.append
  have hbatch : BatchInv M store s :=
    batchInv_run hfresh (fun act h => hacts act (List.mem_append_left _ h)) hearly hrun
  have hstart : RoundInv M store maxSize a (s.history a).length s.ticks s := by
    refine ⟨hbatch,le_rfl,le_rfl,?_,fun hw => absurd hidle hw⟩
    rw [Nat.sub_self,Nat.zero_mul,Nat.min_zero]
    exact Nat.zero_le _
  have hround : RoundInv M store maxSize a (s.history a).length s.ticks s' :=
    run_along (fun hs hact hmove => RoundInv.move hs hact.1 hact.2 hmove) hstart
      ((along_of_forall fun act h _ => hacts act (List.mem_append_right _ h)).and (hlate s hrun)) hlater
  have horder := (hround.batch.attempted a).inOrder
  refine ⟨?_,fun q hq => hround.batch.exists_accepted hq,?_⟩
  · rw [horder]
    exact List.pairwise_lt_range'
  · intro q hpos hle
    rw [horder,List.mem_range'_1]
    have hdone := hround.progress.done
    omega

instance (act : Action) : Decidable (act = .restart) :=
  match act with
  | .restart => isTrue rfl
  | .register _ _ | .registration _ | .registrationFails _ _ | .arrive _ _ | .request _ _
  | .requestFails _ _ _ | .tick _ | .work _ _ | .workFails _ _ | .lookup _ _ => isFalse nofun

def Worker.isIdle : Worker → Bool
  | .idle => true
  | _ => false

theorem Worker.eq_idle (h : w.isIdle = true) : w = .idle := by
  cases w with
  | idle => rfl
  | _ => cases h

/-- Two payments, then one complete round of the worker. -/
theorem payments_attempted_sample : ∃ s s', (Server.start emptyFiles).run sampleMiden sampleStore 1
      (sampleRegister 0 "a" ++
        samplePay 0 11 "a" (samplePayload "0xs0" "0xs1" ["0x01"]) ++
        samplePay 1 10 "a" (samplePayload "0xs1" "0xs2" ["0x02"])) = some s ∧
    s.run sampleMiden sampleStore 1 (.tick ["a"] :: List.replicate 6 (.work 8 none)) = some s' ∧
    (s.history "a").length = 2 ∧ s'.ticks - s.ticks = 1 ∧ 1 ∈ s'.attemptsOf "a" := by
  obtain ⟨s,hs,hfacts⟩ : ∃ s, (Server.start emptyFiles).run sampleMiden sampleStore 1
      (sampleRegister 0 "a" ++
        samplePay 0 11 "a" (samplePayload "0xs0" "0xs1" ["0x01"]) ++
        samplePay 1 10 "a" (samplePayload "0xs1" "0xs2" ["0x02"])) = some s ∧
      ((s.run sampleMiden sampleStore 1 (.tick ["a"] :: List.replicate 6 (.work 8 none))).map
        fun s' => (s.worker.isIdle,(s.history "a").length,s'.ticks - s.ticks)) = some (true,2,1) :=
    Option.map_eq_some_iff.mp (by decide +kernel)
  obtain ⟨s',hs',hcounts⟩ := Option.map_eq_some_iff.mp hfacts
  simp only [Prod.mk.injEq] at hcounts
  obtain ⟨hidle,hlen,hticks⟩ := hcounts
  have hattempted := payments_attempted fresh_emptyFiles (by decide +kernel) (by decide +kernel) hs
    (Worker.eq_idle hidle) hs' "a"
  refine ⟨s,s',hs,hs',hlen,hticks,hattempted.2.2 1 le_rfl ?_⟩
  rw [hlen,hticks]
  decide

/-- The worker lists the entries of the agents' directory, where an agent id with a slash is not one:
its payment waits for ever. -/
theorem nested_agent_never_attempted : ∃ s s',
    (Server.start emptyFiles).run sampleMiden sampleStore 1
      (sampleRegister 0 "a/b" ++
        samplePay 0 11 "a/b" (samplePayload "0xs0" "0xs1" ["0x01"])) = some s ∧
    s.worker = .idle ∧ (s.history "a/b").length = 1 ∧
    s.run sampleMiden sampleStore 1 (.tick ["a"] :: List.replicate 3 (.work 8 none)) = some s' ∧
    s'.ticks - s.ticks = 1 ∧ s'.attempts = [] := by
  obtain ⟨s,hs,hfacts⟩ : ∃ s, (Server.start emptyFiles).run sampleMiden sampleStore 1
      (sampleRegister 0 "a/b" ++
        samplePay 0 11 "a/b" (samplePayload "0xs0" "0xs1" ["0x01"])) = some s ∧
      ((s.run sampleMiden sampleStore 1 (.tick ["a"] :: List.replicate 3 (.work 8 none))).map
        fun s' => (s.worker.isIdle,(s.history "a/b").length,s'.ticks - s.ticks,
          s'.attempts.length)) = some (true,1,1,0) :=
    Option.map_eq_some_iff.mp (by decide +kernel)
  obtain ⟨s',hs',hcounts⟩ := Option.map_eq_some_iff.mp hfacts
  simp only [Prod.mk.injEq] at hcounts
  obtain ⟨hidle,hlen,hticks,hattempts⟩ := hcounts
  exact ⟨s,s',hs,Worker.eq_idle hidle,hlen,hs',hticks,List.length_eq_zero_iff.mp hattempts⟩

end Progress

end MidenX402.Facilitator
