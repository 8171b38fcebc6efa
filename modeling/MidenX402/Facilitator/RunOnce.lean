import MidenX402.Facilitator.Batch

/-!
# One tick of the batch worker

`run_once` goes through the agents in the order in which they were listed.  Between any two of its
operations the other threads may change the files, and each of its own may fail.  What goes wrong with
a transaction is noted down and passed over; a queue that cannot be listed ends the tick.
-/

namespace MidenX402.Facilitator
open Disk Rust

/-- What one tick meets, operation by operation: what the others do to the files first, after how many
changes a write is cut short, why a queue cannot be listed, how an attempt ends, and the clock. -/
structure Surroundings where
  others : ℕ → Files → Files
  cut : ℕ → Option ℕ
  unlistable : ℕ → Option IoError
  submit : ℕ → Option String
  now : ℕ → ℕ

structure Tick where
  files : Files
  step : ℕ
  attempts : List (String × ℕ)

section Operations
variable (store : FilesystemX402Store) (env : Surroundings) (maxSize : ℕ)

/-- An operation that writes nothing. -/
def Tick.look (s : Tick) : Tick := { s with files := env.others s.step s.files, step := s.step + 1 }

/-- A write, whose error is at most logged. -/
def Tick.write (s : Tick) (op : StoreOp Unit) : Tick :=
  let fs := env.others s.step s.files
  { s with
    files := match env.cut s.step with
      | none => (op fs).last fs
      | some k => (op.stopped k fs).getD ((op fs).last fs)
    step := s.step + 1 }

def Tick.listed (s : Tick) (agentId : String) : Except FacilitatorError (List QueuedTx) :=
  match env.unlistable s.step with
  | some e => .error (ioErr e)
  | none => store.listQueued agentId (env.others s.step s.files)

def Tick.submit (s : Tick) (agentId : String) (tx : QueuedTx) : Tick :=
  { s.look env with attempts := s.attempts ++ [(agentId,tx.seq)] }

/-- One transaction of a batch. -/
def Tick.attempt (s : Tick) (agentId : String) (tx : QueuedTx) : Tick :=
  let tx := startProving tx (env.now s.step)
  let s := s.write env (store.upsertQueued agentId tx)
  let outcome := env.submit s.step
  let s := s.submit env agentId tx
  let tx := recordOutcome tx (env.now s.step) outcome
  let s := s.write env (store.upsertQueued agentId tx)
  match outcome with
  | none => s
  | some _ => s.write env (store.moveToFailed agentId tx.seq)

def Tick.batch (s : Tick) (agentId : String) (batch : List QueuedTx) : Tick :=
  batch.foldl (fun s tx => s.attempt store env agentId tx) s

/-- The loop over the agents. -/
def runAgents : List String → Tick → Except FacilitatorError Unit × Tick
  | [], s => (.ok (),s)
  | agentId :: rest, s =>
    match s.listed store env agentId with
    | .error e => (.error e,s.look env)
    | .ok queued => runAgents rest ((s.look env).batch store env agentId (nextBatch maxSize queued))

/-- `agents` is what `list_agents` returned. -/
def runOnce (agents : Except FacilitatorError (List String)) (s : Tick) :
    Except FacilitatorError Unit × Tick :=
  match agents with
  | .error e => (.error e,s)
  | .ok order => runAgents store env maxSize order s

end Operations

section Loop
variable {store : FilesystemX402Store} {env : Surroundings} {maxSize : ℕ} {s : Tick} {a b : String}
  {before later : List String} {queued : List QueuedTx}

@[simp] theorem Tick.write_attempts (s : Tick) (op : StoreOp Unit) :
    (s.write env op).attempts = s.attempts := rfl

@[simp] theorem Tick.look_attempts (s : Tick) : (s.look env).attempts = s.attempts := rfl

/-- However its writes and its submission end, a transaction is attempted once. -/
theorem Tick.attempt_attempts (s : Tick) (a : String) (tx : QueuedTx) :
    (s.attempt store env a tx).attempts = s.attempts ++ [(a,tx.seq)] := by
  rw [Tick.attempt]
  cases env.submit (s.write env (store.upsertQueued a (startProving tx (env.now s.step)))).step <;> rfl

theorem Tick.batch_attempts (s : Tick) (a : String) (batch : List QueuedTx) :
    (s.batch store env a batch).attempts = s.attempts ++ batch.map fun tx => (a,tx.seq) := by
  induction batch generalizing s with
  | nil => simp [Tick.batch]
  | cons tx batch ih =>
    have hrest := ih (s.attempt store env a tx)
    rw [Tick.batch] at hrest ⊢
    rw [List.foldl_cons,hrest,Tick.attempt_attempts]
    simp

theorem attemptsOf_batch (s : Tick) (a b : String) (batch : List QueuedTx) :
    attemptsOf b (s.batch store env a batch).attempts =
      attemptsOf b s.attempts ++ if a = b then batch.map QueuedTx.seq else [] := by
  rw [Tick.batch_attempts,attemptsOf_append]
  congr 1
  rw [attemptsOf,List.filter_map,List.map_map]
  by_cases hab : a = b
  · simp [hab,Function.comp_def]
  · simp [hab,Function.comp_def]

/-- The loop takes up the second part of the order when it got through the first one. -/
theorem runAgents_append (before later : List String) (s : Tick) :
    runAgents store env maxSize (before ++ later) s =
      match runAgents store env maxSize before s with
      | (.ok (),t) => runAgents store env maxSize later t
      | (.error e,t) => (.error e,t) := by
  induction before generalizing s with
  | nil => rfl
  | cons a before ih =>
    rw [List.cons_append,runAgents,runAgents]
    cases s.listed store env a with
    | error e => rfl
    | ok queued => exact ih _

theorem attemptsOf_runAgents (h : b ∉ before) : attemptsOf b
    (runAgents store env maxSize before s).2.attempts = attemptsOf b s.attempts := by
  induction before generalizing s with
  | nil => rfl
  | cons a before ih =>
    rw [List.mem_cons,not_or] at h
    rw [runAgents]
    cases s.listed store env a with
    | error e => rfl
    | ok queued =>
      simp only
      rw [ih h.2,attemptsOf_batch,if_neg (Ne.symm h.1),List.append_nil,Tick.look_attempts]

/-- Every one of the agents has a queue that can be listed when its turn comes. -/
def Listable (store : FilesystemX402Store) (env : Surroundings) (maxSize : ℕ) (agents : List String)
    (s : Tick) : Prop :=
  ∀ pre a post, agents = pre ++ a :: post →
    ∃ queued, (runAgents store env maxSize pre s).2.listed store env a = .ok queued

theorem listable_iff : Listable store env maxSize before s ↔
    (runAgents store env maxSize before s).1 = .ok () := by
  induction before generalizing s with
  | nil =>
    refine ⟨fun _ => rfl,fun _ pre a post hsplit => ?_⟩
    simp at hsplit
  | cons a before ih =>
    cases hlisted : s.listed store env a with
    | error e =>
      rw [runAgents,hlisted]
      refine ⟨fun h => ?_,fun h => by cases h⟩
      obtain ⟨queued,hq⟩ := h [] a before rfl
      cases hlisted.symm.trans hq
    | ok queued =>
      -- what comes after the first agent starts where its batch has ended
      have hnext : ∀ rest, runAgents store env maxSize (a :: rest) s = runAgents store env maxSize rest
          ((s.look env).batch store env a (nextBatch maxSize queued)) := by
        intro rest
        rw [runAgents,hlisted]
      rw [hnext,← ih]
      constructor
      · intro h pre a' post hsplit
        rw [← hnext]
        exact h (a :: pre) a' post (by rw [hsplit,List.cons_append])
      · intro h pre a' post hsplit
        cases pre with
        | nil =>
          obtain ⟨rfl,-⟩ := List.cons.inj hsplit
          exact ⟨queued,hlisted⟩
        | cons a'' pre =>
          obtain ⟨rfl,hrest⟩ := List.cons.inj hsplit
          rw [hnext]
          exact h pre a' post hrest

theorem sorted_of_listed (h : s.listed store env b = .ok queued) :
    queued.Pairwise fun x y => x.seq ≤ y.seq := by
  rw [Tick.listed] at h
  split at h
  · cases h
  · rw [FilesystemX402Store.listQueued] at h
    split at h
    · cases h
      exact List.Pairwise.nil
    · split at h
      · obtain ⟨txs,-,rfl⟩ := map_eq_ok h
        exact pairwise_seq_insertionSort txs
      · cases h
        exact List.Pairwise.nil

/-- No agent is listed twice. -/
theorem listAgents_nodup (store : FilesystemX402Store) (fs : Files) :
    (store.listAgents fs).Nodup := by
  have hsub : ∀ (f : String × Node Content → Option String),
      (∀ e, f e = none ∨ f e = some e.1) → ∀ es : List (String × Node Content),
        (es.filterMap f).Sublist (es.map Prod.fst) := by
    intro f hf es
    induction es with
    | nil => exact List.Sublist.refl _
    | cons e es ih =>
      rcases hf e with hnone | hsome
      · rw [List.filterMap_cons_none hnone]
        exact ih.cons e.1
      · rw [List.filterMap_cons_some hsome]
        exact ih.cons_cons e.1
  apply List.Nodup.sublist (hsub _ _ _) (fs.nodup_entries store.agentsDir)
  intro e
  obtain ⟨name,node⟩ := e
  cases node with
  | dir => exact Or.inr rfl
  | file c => exact Or.inl rfl

/-- For an agent whose queue can be listed when its turn comes or the tick is over: whatever becomes of
the transactions of the others, the tick attempts its oldest accepted payments, a full batch if there
are so many, exactly when every agent before it in the order had a queue that could be listed, or it
has nothing to attempt. -/
theorem run_once_serves_iff {fs : Files}
    (horder : (before ++ b :: later).Perm (store.listAgents fs))
    (hlisted : (runAgents store env maxSize before s).2.listed store env b = .ok queued) :
    queued.Pairwise (fun x y => x.seq ≤ y.seq) ∧
    (attemptsOf b (runOnce store env maxSize (.ok (before ++ b :: later)) s).2.attempts =
        attemptsOf b s.attempts ++
          ((queued.filter fun tx => tx.status = .accepted).map QueuedTx.seq).take maxSize ↔
      Listable store env maxSize before s ∨ maxSize = 0 ∨
        (queued.filter fun tx => tx.status = .accepted) = []) := by
  refine ⟨sorted_of_listed hlisted,?_⟩
  have hnodup := horder.nodup_iff.mpr (listAgents_nodup store fs)
  have hbefore : b ∉ before := by
    intro hb
    exact List.disjoint_of_nodup_append hnodup hb List.mem_cons_self
  have hlater : b ∉ later := (List.nodup_cons.mp (List.nodup_append.mp hnodup).2.1).1
  have hfirst : attemptsOf b (runAgents store env maxSize before s).2.attempts =
      attemptsOf b s.attempts := attemptsOf_runAgents hbefore
  rw [runOnce,runAgents_append,listable_iff]
  cases hrun : runAgents store env maxSize before s with
  | mk result t =>
    rw [hrun] at hlisted hfirst
    cases result with
    | error e =>
      simp [hfirst]
    | ok u =>
      simp only [runAgents,hlisted]
      rw [attemptsOf_runAgents hlater,attemptsOf_batch,if_pos rfl,Tick.look_attempts,hfirst]
      simp [nextBatch,List.map_take]

end Loop

/-- Two agents are registered and the second one pays. -/
def secondPays : List Action :=
  sampleRegister 0 "a" ++ sampleRegister 1 "b" ++
    samplePay 0 11 "b" (samplePayload "0xs0" "0xs1" ["0x01"])

/-- Nothing happens besides, and every submission is rejected. -/
def rejecting : Surroundings :=
  ⟨fun _ fs => fs,fun _ => none,fun _ => none,fun _ => some "rejected",fun _ => 8⟩

def acceptedSeqs (txs : List QueuedTx) : List ℕ :=
  (txs.filter fun tx => tx.status = .accepted).map QueuedTx.seq

/-- The first agent's payment is attempted and rejected, and so is the second one's after it. -/
theorem run_once_serves_sample : ∃ s,
    (Server.start emptyFiles).run sampleMiden sampleStore 1 (secondPays ++
      samplePay 1 11 "a" (samplePayload "0xs0" "0xs1" ["0x01"])) = some s ∧
    attemptsOf "a" (runAgents sampleStore rejecting 50 ["a"] ⟨s.files,0,[]⟩).2.attempts = [1] ∧
    attemptsOf "b" (runOnce sampleStore rejecting 50 (.ok ["a","b"]) ⟨s.files,0,[]⟩).2.attempts =
      [1] := by
  obtain ⟨s,hs,hfacts⟩ : ∃ s,
      (Server.start emptyFiles).run sampleMiden sampleStore 1 (secondPays ++
        samplePay 1 11 "a" (samplePayload "0xs0" "0xs1" ["0x01"])) = some s ∧
      (sampleStore.listAgents s.files,
        decide ((runAgents sampleStore rejecting 50 ["a"] ⟨s.files,0,[]⟩).1 = .ok ()),
        attemptsOf "a" (runAgents sampleStore rejecting 50 ["a"] ⟨s.files,0,[]⟩).2.attempts,
        ((runAgents sampleStore rejecting 50 ["a"] ⟨s.files,0,[]⟩).2.listed sampleStore rejecting
          "b").map acceptedSeqs) = (["b","a"],true,[1],.ok [1]) :=
    Option.map_eq_some_iff.mp (by decide +kernel)
  simp only [Prod.mk.injEq] at hfacts
  obtain ⟨hagents,hfirst,hattempts,hsecond⟩ := hfacts
  obtain ⟨queued,hqueued,hseqs⟩ := map_eq_ok hsecond
  have hserves := (@run_once_serves_iff sampleStore rejecting 50 ⟨s.files,0,[]⟩ "b" ["a"] [] queued
    s.files (by rw [hagents]; decide) hqueued).2.mpr (Or.inl (listable_iff.mpr (of_decide_eq_true hfirst)))
  have htake : ((queued.filter fun tx => tx.status = .accepted).map QueuedTx.seq).take 50 = [1] := by
    rw [show (queued.filter fun tx => tx.status = .accepted).map QueuedTx.seq = [1] from hseqs]
    rfl
  rw [htake] at hserves
  exact ⟨s,hs,hattempts,hserves⟩

/-- A payment of the first agent was cut off before its record was complete, and what it left behind
ends the tick: the payment of the second agent is not attempted. -/
theorem run_once_starves : ∃ s leftover,
    (Server.start emptyFiles).run sampleMiden sampleStore 1 secondPays = some s ∧
    leftover = s.files.set ["data","agents","a","pending_queue",".1.json.tmp"] (some (.file .torn)) ∧
    ["a","b"].Perm (sampleStore.listAgents leftover) ∧
    (sampleStore.listQueued "b" leftover).map acceptedSeqs = .ok [1] ∧
    (runOnce sampleStore rejecting 50 (.ok ["a","b"]) ⟨leftover,0,[]⟩).2.attempts = [] := by
  obtain ⟨s,hs,hfacts⟩ : ∃ s,
      (Server.start emptyFiles).run sampleMiden sampleStore 1 secondPays = some s ∧
      (sampleStore.listAgents
          (s.files.set ["data","agents","a","pending_queue",".1.json.tmp"] (some (.file .torn))),
        (sampleStore.listQueued "a"
          (s.files.set ["data","agents","a","pending_queue",".1.json.tmp"]
            (some (.file .torn)))).map acceptedSeqs,
        (sampleStore.listQueued "b"
          (s.files.set ["data","agents","a","pending_queue",".1.json.tmp"]
            (some (.file .torn)))).map acceptedSeqs) =
        (["b","a"],.error (.internal "read /data/agents/a/pending_queue/.1.json.tmp"),.ok [1]) :=
    Option.map_eq_some_iff.mp (by decide +kernel)
  simp only [Prod.mk.injEq] at hfacts
  obtain ⟨hagents,hfirst,hsecond⟩ := hfacts
  refine ⟨s,_,hs,rfl,by rw [hagents]; decide,hsecond,?_⟩
  rw [runOnce,runAgents,Tick.listed]
  cases hlisted : sampleStore.listQueued "a"
      (s.files.set ["data","agents","a","pending_queue",".1.json.tmp"] (some (.file .torn))) with
  | error e =>
    rw [show rejecting.unlistable 0 = none from rfl]
    simp only [show rejecting.others 0 = id from rfl,id_eq,hlisted]
    rfl
  | ok queued =>
    rw [hlisted] at hfirst
    cases hfirst

end MidenX402.Facilitator
