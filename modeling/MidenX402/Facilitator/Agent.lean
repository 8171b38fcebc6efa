import MidenX402.Facilitator.Keys
import MidenX402.Facilitator.Locking
import MidenX402.Ledger.Entries

/-!
# The server as one agent sees it

For an agent with a plain name every move is one of four: it is registered, its own request goes on,
that request fails in a write, or nothing of its own happens.  Stray sentinels may still fall on its
files.
-/

namespace MidenX402.Facilitator
open Disk KeyedLock

section Projections

def Acceptance.entry (x : Acceptance) : Ledger.Entry String :=
  ⟨x.seq,x.payload.builtOnStateCommitment,x.payload.newStateCommitment⟩

/-- The accepted payments of an agent, in the order of acceptance. -/
def Server.history (s : Server) (a : String) : List Acceptance :=
  s.accepted.filter fun x => x.agentId = a

/-- The payments of an agent that moved its pending state, in that order. -/
def Server.trail (s : Server) (a : String) : List Acceptance :=
  s.advances.filter fun x => x.agentId = a

def Server.ledger (s : Server) (a : String) : List (Ledger.Entry String) :=
  (s.history a).map Acceptance.entry

/-- The initial state commitment an agent was registered with. -/
def Server.initialOf (s : Server) (a : String) : Option String :=
  (s.registered.find? fun r => r.1.agentId = a).map Prod.snd

def Server.InsideAt (s : Server) (t : ℕ) (a : String) (payload : AgenticPayload) (σ : Stage) : Prop :=
  ∃ m, s.request t = some ⟨a,payload,.inside m σ⟩

/-- A request of the agent holds its mutex. -/
def Server.Inside (s : Server) (a : String) (payload : AgenticPayload) (σ : Stage) : Prop :=
  ∃ t, s.InsideAt t a payload σ

/-- The nullifiers a request is about to write. -/
def Stage.nullifiers : Stage → List String
  | .checked _ ns | .clear _ ns | .reserved _ ns _ | .advanced _ ns _ => ns
  | _ => []

def Worker.names : Worker → List String
  | .idle => []
  | .agents rest => rest
  | .batch a _ rest | .proving a _ _ rest | .finishing a _ _ rest | .moving a _ _ rest => a :: rest

end Projections

section Inside
variable {s s' : Server} {a : String} {payload payload' : AgenticPayload} {σ σ' : Stage} {t t' : ℕ}

theorem LockInv.insideAt_unique (h : LockInv s) (hi : s.InsideAt t a payload σ)
    (hi' : s.InsideAt t' a payload' σ') : t = t' := by
  obtain ⟨m,hm⟩ := hi
  obtain ⟨m',hm'⟩ := hi'
  exact h.exclusive hm rfl hm' rfl rfl

theorem insideAt_inj (hi : s.InsideAt t a payload σ) (hi' : s.InsideAt t a payload' σ') :
    payload' = payload ∧ σ' = σ := by
  obtain ⟨m,hm⟩ := hi
  obtain ⟨m',hm'⟩ := hi'
  rw [hm] at hm'
  injection hm' with hr
  injection hr with _ hpayload hphase
  injection hphase with _ hstage
  exact ⟨hpayload.symm,hstage.symm⟩

/-- After one thread's entry was replaced. -/
theorem inside_set {r : Request} {o : Option Request} (hr : s.request t = some r)
    (hreq : s'.requests = s.requests.set t o) :
    s'.Inside a payload σ ↔ (∃ m, o = some ⟨a,payload,.inside m σ⟩) ∨
      ∃ t', t' ≠ t ∧ s.InsideAt t' a payload σ := by
  have hrequest := request_set hr hreq
  constructor
  · rintro ⟨t',m,hm⟩
    rw [hrequest] at hm
    split at hm
    · exact Or.inl ⟨m,hm⟩
    · rename_i ht
      exact Or.inr ⟨t',ht,m,hm⟩
  · rintro (⟨m,hm⟩ | ⟨t',ht,m,hm⟩)
    · refine ⟨t,m,?_⟩
      rw [hrequest,if_pos rfl]
      exact hm
    · refine ⟨t',m,?_⟩
      rw [hrequest,if_neg ht]
      exact hm

theorem inside_congr (hreq : s'.requests = s.requests) :
    s'.Inside a payload σ ↔ s.Inside a payload σ := by
  simp only [Server.Inside,Server.InsideAt,Server.request,hreq]

theorem insideAt_of_phase {r : Request} {m : ℕ} (hr : s.request t = some r)
    (hp : r.phase = .inside m σ) : s.InsideAt t r.agentId r.payload σ := by
  refine ⟨m,?_⟩
  rw [hr,← hp]

end Inside

section Origins
variable {M : Miden} {store : FilesystemX402Store} {maxSize : ℕ} {s s' : Server} {act : Action}

/-- What holds of all arriving requests holds of all requests. -/
theorem Move.requests_all (hmove : Move M store maxSize s act s')
    {P : String → AgenticPayload → Prop} (h : ∀ t r, s.request t = some r → P r.agentId r.payload)
    (harrive : ∀ a payload, act = .arrive a payload → P a payload) :
    ∀ t r, s'.request t = some r → P r.agentId r.payload := by
  have hset : ∀ {t : ℕ} {r : Request} {o : Option Request} {s'' : Server}, s.request t = some r →
      s''.requests = s.requests.set t o →
      (∀ r', o = some r' → r'.agentId = r.agentId ∧ r'.payload = r.payload) →
      ∀ t r, s''.request t = some r → P r.agentId r.payload := by
    intro t r o s'' hr hreq ho t' r' hr'
    rw [request_set hr hreq] at hr'
    split at hr'
    · rw [(ho r' hr').1,(ho r' hr').2]
      exact h t r hr
    · exact h t' r' hr'
  have hphase : ∀ {r : Request} {φ : Phase} (r' : Request), some { r with phase := φ } = some r' →
      r'.agentId = r.agentId ∧ r'.payload = r.payload := by
    rintro r φ r' ⟨⟩
    exact ⟨rfl,rfl⟩
  cases hmove with
  | stay => exact h
  | begin _ => exact h
  | registration _ _ _ => exact h
  | registrationFails _ _ _ => exact h
  | work _ _ => exact h
  | workFails _ => exact h
  | restart _ _ =>
    intro t r hr
    exact absurd hr (request_ne rfl)
  | arrive =>
    intro t r hr
    rcases thread_append hr with hold | ⟨-,rfl⟩
    · exact h t r hold
    · exact harrive _ _ rfl
  | miss hr _ => exact hset hr rfl hphase
  | find hr _ _ => exact hset hr rfl hphase
  | insert hr _ => exact hset hr rfl hphase
  | acquire hr _ _ => exact hset hr rfl hphase
  | stage hr _ _ => exact hset hr rfl hphase
  | leave hr _ _ => exact hset hr rfl fun r' hr' => absurd hr'.symm (Option.some_ne_none r')
  | requestFails hr _ _ => exact hset hr rfl fun r' hr' => absurd hr'.symm (Option.some_ne_none r')

theorem plain_listAgents (fs : Files) : ∀ b ∈ store.listAgents fs, IsPlain b := by
  intro b hb
  obtain ⟨⟨name,n⟩,hmem,hname⟩ := List.mem_filterMap.mp hb
  obtain rfl : name = b := by
    cases n with
    | dir => exact Option.some.inj hname
    | file c => cases hname
  exact (FileSystem.mem_entries.mp hmem).2

theorem WorkMove.names_plain {fs fs' : Files} {w w' : Worker} {attempts : List (String × ℕ)}
    {ticks : ℕ} (hwork : WorkMove store maxSize fs w w' fs' attempts ticks)
    (h : ∀ b ∈ w.names, IsPlain b) : ∀ b ∈ w'.names, IsPlain b := by
  cases hwork with
  | tick hperm =>
    intro b hb
    exact plain_listAgents fs b (hperm.mem_iff.mp hb)
  | done => exact h
  | abort =>
    intro b hb
    cases hb
  | list _ => exact h
  | batchDone => exact fun b hb => h b (List.mem_cons_of_mem _ hb)
  | prove _ => exact h
  | attempt => exact h
  | finish _ =>
    intro b hb
    split at hb
    · exact h b hb
    · exact h b hb
  | move _ => exact h

theorem WorkCut.names_plain {fs fs' : Files} {w w' : Worker} (hwork : WorkCut store fs w w' fs')
    (h : ∀ b ∈ w.names, IsPlain b) : ∀ b ∈ w'.names, IsPlain b := by
  cases hwork with
  | prove _ => exact h
  | finish _ =>
    intro b hb
    split at hb
    · exact h b hb
    · exact h b hb
  | move _ => exact h

/-- Agent ids that name an entry of the agents' directory. -/
def Action.PlainId : Action → Prop
  | .register req _ => IsPlain req.agentId
  | .arrive a _ => IsPlain a
  | _ => True

instance (act : Action) : Decidable act.PlainId :=
  match act with
  | .register req _ => inferInstanceAs (Decidable (IsPlain req.agentId))
  | .arrive a _ => inferInstanceAs (Decidable (IsPlain a))
  | .registration _ | .registrationFails _ _ | .request _ _ | .requestFails _ _ _ | .tick _
  | .work _ _ | .workFails _ _ | .lookup _ _ | .restart => isTrue trivial

/-- A store operation fails in the action. -/
def Action.fails : Action → Bool
  | .registrationFails _ _ | .requestFails _ _ _ | .workFails _ _ => true
  | _ => false

/-- A registration of an agent with a plain name, some of whose operations are done. -/
structure Enrols (store : FilesystemX402Store) (g : Registering) : Prop where
  plain : IsPlain g.record.agentId
  ops : ∃ done, store.registerOps g.record g.mandate g.initial = done ++ g.todo
  todo : g.todo ≠ []

theorem Enrols.mem_ops {g : Registering} (h : Enrols store g) {op : RegisterOp} (hop : op ∈ g.todo) :
    op ∈ store.registerOps g.record g.mandate g.initial := by
  obtain ⟨done,hops⟩ := h.ops
  exact hops ▸ List.mem_append_right _ hop

theorem Registering.rest_eq_some {g g' : Registering} (h : g.rest = some g') :
    g' = { g with todo := g.todo.tail } ∧ g'.todo ≠ [] := by
  rw [Registering.rest] at h
  split at h
  · cases h
  · rename_i hne
    obtain rfl := Option.some.inj h
    exact ⟨rfl,hne⟩

theorem Enrols.rest {g g' : Registering} (h : Enrols store g) (hrest : g.rest = some g') :
    Enrols store g' := by
  obtain ⟨rfl,hne⟩ := Registering.rest_eq_some hrest
  obtain ⟨done,hops⟩ := h.ops
  refine ⟨h.plain,⟨done ++ g.todo.take 1,?_⟩,hne⟩
  rw [hops,List.append_assoc,← List.drop_one,List.take_append_drop]

structure PlainInv (store : FilesystemX402Store) (s : Server) : Prop where
  requests : ∀ t r, s.request t = some r → IsPlain r.agentId
  worker : ∀ b ∈ s.worker.names, IsPlain b
  registrations : ∀ t g, s.registration t = some g → Enrols store g

/-- What holds of a registration that begins and is kept by its operations holds of all of them. -/
theorem Move.registrations_all {P : ℕ → Registering → Prop} (hmove : Move M store maxSize s act s')
    (h : ∀ t g, s.registration t = some g → P t g)
    (hbegin : ∀ req now, act = .register req now →
      s.files.pathExists (store.agentDir req.agentId) = false →
      P s.registrations.length ⟨agentRecord req now,req.mandate,req.initialStateCommitment,
        store.registerOps (agentRecord req now) req.mandate req.initialStateCommitment⟩)
    (hrest : ∀ t g g', s.registration t = some g → g.rest = some g' → P t g') :
    ∀ t g, s'.registration t = some g → P t g := by
  cases hmove with
  | @begin req now habsent =>
    intro t g hg
    rcases thread_append hg with hold | ⟨rfl,rfl⟩
    · exact h t g hold
    · exact hbegin req now rfl habsent
  | @registration t g op rest fs' hg htodo _ =>
    intro t' g' hg'
    rw [Server.registration,Server.setRegistration,thread_set hg] at hg'
    split at hg'
    · rename_i ht
      exact ht ▸ hrest t g g' hg hg'
    · exact h t' g' hg'
  | registrationFails hg _ _ =>
    intro t' g' hg'
    rw [Server.registration,Server.setRegistration,thread_set hg] at hg'
    split at hg'
    · cases hg'
    · exact h t' g' hg'
  | restart _ _ =>
    intro t g hg
    exact absurd hg (registration_ne rfl)
  | _ => exact h

theorem PlainInv.move (h : PlainInv store s) (hmove : Move M store maxSize s act s')
    (hact : act.PlainId) : PlainInv store s' := by
  refine ⟨?_,?_,?_⟩
  · refine hmove.requests_all (P := fun a _ => IsPlain a) h.requests ?_
    rintro a payload rfl
    exact hact
  · cases hmove with
    | work _ hwork => exact hwork.names_plain h.worker
    | workFails hwork => exact hwork.names_plain h.worker
    | restart _ _ =>
      intro b hb
      cases hb
    | _ => exact h.worker
  · refine hmove.registrations_all (P := fun _ g => Enrols store g) h.registrations ?_ ?_
    · rintro req now rfl -
      exact ⟨hact,⟨[],rfl⟩,List.cons_ne_nil _ _⟩
    · exact fun t g g' hg hrest => (h.registrations t g hg).rest hrest

end Origins

section Keys
variable {M : Miden} {store : FilesystemX402Store} {maxSize : ℕ} {a b : String}
  {names ns : List String} {fs fs' : Files} {payload : AgenticPayload} {σ σ' : Stage}

/-- The files that a payment of the agent itself does not write. -/
def Aside (a b : String) (names : List String) : Prop :=
  ∀ name ∈ names, a ≠ b ∨ name ≠ "nullifiers.wal" ∧ name ≠ "pending_state.json"

theorem StageMove.keys (h : StageMove M store b payload fs σ σ' fs') (hb : IsPlain b)
    (hnames : names ⊆ keyFiles) (hout : Aside a b names) :
    KeysKept store a names σ.nullifiers fs fs' := by
  cases h with
  | reserve hafter =>
    obtain ⟨_,hexec⟩ := after_eq_some_iff.mp hafter
    exact (reserveNullifiers_keys hb hnames fun name hname =>
      (hout name hname).imp_right And.left).exec hexec
  | advance hafter =>
    obtain ⟨_,hexec⟩ := after_eq_some_iff.mp hafter
    exact (advancePendingState_keys hb hnames fun name hname =>
      (hout name hname).imp_right And.right).exec hexec
  | enqueue hafter =>
    obtain ⟨_,hexec⟩ := after_eq_some_iff.mp hafter
    exact (enqueue_keys hb hnames).exec hexec
  | _ => exact Std.Refl.refl _

theorem StageCut.keys (h : StageCut store b payload fs σ fs') (hb : IsPlain b)
    (hnames : names ⊆ keyFiles) (hout : Aside a b names) :
    KeysKept store a names σ.nullifiers fs fs' := by
  cases h with
  | reserve hcut =>
    exact (reserveNullifiers_keys hb hnames fun name hname =>
      (hout name hname).imp_right And.left).reached hcut
  | advance hcut =>
    exact (advancePendingState_keys hb hnames fun name hname =>
      (hout name hname).imp_right And.right).failed hcut
  | enqueue hcut => exact (enqueue_keys hb hnames).failed hcut

theorem StageMove.dirs (h : StageMove M store b payload fs σ σ' fs') (hb : IsPlain b) :
    ∀ p, fs.isDir p = true → fs'.isDir p = true := by
  have hkeys : KeysKept store b [] σ.nullifiers fs fs' :=
    h.keys hb (List.nil_subset _) fun _ hn => absurd hn List.not_mem_nil
  exact hkeys.dirs

theorem StageCut.dirs (h : StageCut store b payload fs σ fs') (hb : IsPlain b) :
    ∀ p, fs.isDir p = true → fs'.isDir p = true := by
  have hkeys : KeysKept store b [] σ.nullifiers fs fs' :=
    h.keys hb (List.nil_subset _) fun _ hn => absurd hn List.not_mem_nil
  exact hkeys.dirs

theorem aside_of_ne (h : a ≠ b) (names : List String) : Aside a b names := fun _ _ => Or.inl h

theorem WorkMove.keys {w w' : Worker} {attempts : List (String × ℕ)} {ticks : ℕ}
    (h : WorkMove store maxSize fs w w' fs' attempts ticks) (hw : ∀ b ∈ w.names, IsPlain b)
    (hnames : names ⊆ keyFiles) : KeysKept store a names ns fs fs' := by
  cases h with
  | prove hafter =>
    obtain ⟨_,hexec⟩ := after_eq_some_iff.mp hafter
    exact (upsertQueued_keys (hw _ List.mem_cons_self) hnames).exec hexec
  | finish hafter =>
    obtain ⟨_,hexec⟩ := after_eq_some_iff.mp hafter
    exact (upsertQueued_keys (hw _ List.mem_cons_self) hnames).exec hexec
  | move hafter =>
    obtain ⟨_,hexec⟩ := after_eq_some_iff.mp hafter
    exact (moveToFailed_keys (hw _ List.mem_cons_self) hnames).exec hexec
  | _ => exact Std.Refl.refl _

theorem WorkCut.keys {w w' : Worker} (h : WorkCut store fs w w' fs') (hw : ∀ b ∈ w.names, IsPlain b)
    (hnames : names ⊆ keyFiles) : KeysKept store a names ns fs fs' := by
  cases h with
  | prove hcut => exact (upsertQueued_keys (hw _ List.mem_cons_self) hnames).failed hcut
  | finish hcut => exact (upsertQueued_keys (hw _ List.mem_cons_self) hnames).failed hcut
  | move hcut => exact (moveToFailed_keys (hw _ List.mem_cons_self) hnames).failed hcut

/-- What the operations of a registration are, for an agent with a plain name. -/
theorem registerOp_cases {record : AgentRecord} {mandate : AgentMandate} {initial : String}
    {op : RegisterOp} (hb : IsPlain record.agentId)
    (hop : op ∈ store.registerOps record mandate initial) :
    (∃ p ∈ store.dirs record.agentId, (∀ s ∈ p, IsPlain s) ∧ op = .makeDirs p) ∨
    (∃ file c, IsPlain file ∧ op = .write (store.agentPath record.agentId ++ [file]) c) ∨
    ∃ raw, op = .touch raw := by
  have hplain : ∀ s ∈ store.agentPath record.agentId, IsPlain s := plain_agentPath hb
  simp only [FilesystemX402Store.registerOps,FilesystemX402Store.queueDir,
    FilesystemX402Store.committedDir,FilesystemX402Store.failedDir,FilesystemX402Store.paymentsDir,
    FilesystemX402Store.agentFile,FilesystemX402Store.mandateFile,
    FilesystemX402Store.pendingStateFile,FilesystemX402Store.nullifiersWal,
    FilesystemX402Store.nullifiersSpent,agentDir_eq hb,List.mem_cons,List.not_mem_nil,or_false] at hop
  have hsub : ∀ sub ∈ subDirs, op = .makeDirs (store.agentPath record.agentId ++ [sub]) →
      ∃ p ∈ store.dirs record.agentId, (∀ s ∈ p, IsPlain s) ∧ op = .makeDirs p := by
    intro sub hsub h
    have hall : ∀ sub ∈ subDirs, IsPlain sub := by decide
    exact ⟨_,sub_mem_dirs hsub,plain_sub hb (hall sub hsub),h⟩
  rcases hop with h | h | h | h | h | h | h | h | h | h
  · exact Or.inl ⟨_,agentPath_mem_dirs,hplain,h⟩
  · exact Or.inl (hsub _ (by decide) h)
  · exact Or.inl (hsub _ (by decide) h)
  · exact Or.inl (hsub _ (by decide) h)
  · exact Or.inl (hsub _ (by decide) h)
  · exact Or.inr (Or.inl ⟨_,_,by decide,h⟩)
  · exact Or.inr (Or.inl ⟨_,_,by decide,h⟩)
  · exact Or.inr (Or.inl ⟨_,_,by decide,h⟩)
  · exact Or.inr (Or.inr ⟨_,h⟩)
  · exact Or.inr (Or.inr ⟨_,h⟩)

/-- An operation of a registration that fails leaves the files of every agent. -/
theorem registerOp_fails_keys {record : AgentRecord} {mandate : AgentMandate} {initial : String}
    {op : RegisterOp} (hb : IsPlain record.agentId)
    (hop : op ∈ store.registerOps record mandate initial) (hnames : names ⊆ keyFiles) :
    op.run.Fails (KeysKept store a names ns) fs := by
  rcases registerOp_cases hb hop with ⟨p,hD,hp,rfl⟩ | ⟨file,c,hfile,rfl⟩ | ⟨raw,rfl⟩
  · exact (steps_keysKept (S := ∅) (makeDirs_steps hp hD) hnames fun _ _ => Set.notMem_empty _).fails
  · exact write_fails_keys hb hnames hfile
  · exact touch_keys.fails

/-- An operation of a registration keeps the files it does not write. -/
theorem registerOp_keys {record : AgentRecord} {mandate : AgentMandate} {initial : String}
    {op : RegisterOp} (hb : IsPlain record.agentId)
    (hop : op ∈ store.registerOps record mandate initial) (hnames : names ⊆ keyFiles)
    (hout : a ≠ record.agentId ∨
      ∀ name ∈ names, ∀ c, op ≠ .write (store.agentDir record.agentId ++ [name]) c) :
    op.run.Steps (KeysKept store a names ns) fs := by
  rcases registerOp_cases hb hop with ⟨p,hD,hp,rfl⟩ | ⟨file,c,hfile,rfl⟩ | ⟨raw,rfl⟩
  · exact steps_keysKept (S := ∅) (makeDirs_steps hp hD) hnames fun _ _ => Set.notMem_empty _
  · refine steps_keysKept
      (atomicWriteJson_steps (plain_agentPath hb) hfile subset_rfl agentPath_mem_dirs) hnames ?_
    intro name hname
    refine keyPath_notMem_pair (hnames hname) (hout.imp_right fun hne => ?_)
    rintro rfl
    exact hne name hname c (by rw [agentDir_eq hb])
  · exact touch_keys

end Keys

section Moves
variable {M : Miden} {store : FilesystemX402Store} {maxSize : ℕ} {a : String} {s s' : Server}
  {act : Action} {ns : List String} {broke : Bool}

/-- The write that makes an agent registered. -/
def FilesystemX402Store.enrolment (store : FilesystemX402Store) (a initial : String) : RegisterOp :=
  .write (store.pendingStateFile a) (.pending ⟨initial,initial,0⟩)

/-- A move as the agent sees it, and whether a store operation fails in it. -/
inductive AgentMove (M : Miden) (store : FilesystemX402Store) (a : String) (s s' : Server) : Bool → Prop
  | quiet {broke : Bool} {ns : List String} (hinitial : s'.initialOf a = s.initialOf a)
      (htrail : s'.trail a = s.trail a) (hhistory : s'.history a = s.history a)
      (hkeys : KeysKept store a stateFiles ns s.files s'.files)
      (hns : ∀ n ∈ ns, ∃ b payload σ, s.Inside b payload σ ∧ n ∈ σ.nullifiers)
      (hinside : ∀ payload σ, s'.Inside a payload σ → s.Inside a payload σ ∨ σ = .entered)
      (hadvanced : ∀ payload p ns now, s.Inside a payload (.advanced p ns now) →
        s'.Inside a payload (.advanced p ns now)) : AgentMove M store a s s' broke
  | register {t g rest} (ha : IsPlain a) (hg : s.registration t = some g)
      (hid : g.record.agentId = a) (htodo : g.todo = store.enrolment a g.initial :: rest)
      (hpending : s'.files.fileAt (store.keyPath a "pending_state.json") =
        some (.pending ⟨g.initial,g.initial,0⟩))
      (hkeys : KeysKept store a ["nullifiers.wal","nullifiers.spent"] [] s.files s'.files)
      (hinitial : s'.initialOf a = (s.initialOf a).or (some g.initial))
      (htrail : s'.trail a = s.trail a) (hhistory : s'.history a = s.history a)
      (hinside : ∀ payload σ, s'.Inside a payload σ ↔ s.Inside a payload σ)
      (hrest : s'.registration t = g.rest) : AgentMove M store a s s' false
  | stage {payload σ σ'} (ha : IsPlain a)
      (hfrom : ∀ payload' σ'', s.Inside a payload' σ'' ↔ payload' = payload ∧ σ'' = σ)
      (hto : ∀ payload' σ'', s'.Inside a payload' σ'' ↔ payload' = payload ∧ σ'' = σ')
      (hinitial : s'.initialOf a = s.initialOf a)
      (htrail : s'.trail a = s.trail a ++ advance a payload σ')
      (hhistory : s'.history a = s.history a ++ acceptance a payload σ')
      (hmove : StageMove M store a payload s.files σ σ' s'.files) : AgentMove M store a s s' false
  | cut {payload σ} (ha : IsPlain a)
      (hfrom : ∀ payload' σ'', s.Inside a payload' σ'' ↔ payload' = payload ∧ σ'' = σ)
      (hgone : ∀ payload' σ'', ¬ s'.Inside a payload' σ'')
      (hinitial : s'.initialOf a = s.initialOf a) (htrail : s'.trail a = s.trail a)
      (hhistory : s'.history a = s.history a)
      (hcut : StageCut store a payload s.files σ s'.files) : AgentMove M store a s s' true

/-- A step that is quiet for an agent keeps its files when all names in use are plain. -/
theorem plain_of_inside
    (hns : ∀ n ∈ ns, ∃ b payload σ, s.Inside b payload σ ∧ n ∈ σ.nullifiers)
    (hplain : ∀ b payload σ, s.Inside b payload σ → ∀ n ∈ σ.nullifiers, IsPlain n) :
    ∀ n ∈ ns, IsPlain n := by
  intro n hn
  obtain ⟨b,payload,σ,hi,hmem⟩ := hns n hn
  exact hplain b payload σ hi n hmem

theorem AgentMove.dirs (h : AgentMove M store a s s' broke) :
    ∀ p, s.files.isDir p = true → s'.files.isDir p = true := by
  cases h with
  | quiet _ _ _ hkeys _ _ _ => exact hkeys.dirs
  | register _ _ _ _ _ hkeys _ _ _ _ _ => exact hkeys.dirs
  | stage ha _ _ _ _ _ hmove =>
    exact hmove.dirs ha
  | cut ha _ _ _ _ _ hcut =>
    exact hcut.dirs ha

theorem AgentMove.still (hinitial : s'.initialOf a = s.initialOf a) (htrail : s'.trail a = s.trail a)
    (hhistory : s'.history a = s.history a) (hfiles : s'.files = s.files)
    (hinside : ∀ payload σ, s'.Inside a payload σ → s.Inside a payload σ ∨ σ = .entered)
    (hadvanced : ∀ payload p ns now, s.Inside a payload (.advanced p ns now) →
      s'.Inside a payload (.advanced p ns now)) : AgentMove M store a s s' broke := by
  have hkeys : KeysKept store a stateFiles [] s.files s'.files := by
    rw [hfiles]
    exact Std.Refl.refl _
  exact .quiet hinitial htrail hhistory hkeys (fun _ hn => absurd hn List.not_mem_nil) hinside
    hadvanced

theorem filter_advance (b : String) (payload : AgenticPayload) (σ : Stage) :
    (advance b payload σ).filter (fun x => x.agentId = a) =
      if b = a then advance b payload σ else [] := by
  cases σ with
  | advanced p ns now =>
    rw [advance,List.filter_singleton]
    by_cases hba : b = a
    · simp [hba]
    · simp [hba]
  | _ => split <;> rfl

theorem filter_acceptance (b : String) (payload : AgenticPayload) (σ : Stage) :
    (acceptance b payload σ).filter (fun x => x.agentId = a) =
      if b = a then acceptance b payload σ else [] := by
  cases σ with
  | queued p ns now =>
    rw [acceptance,List.filter_singleton]
    by_cases hba : b = a
    · simp [hba]
    · simp [hba]
  | _ => split <;> rfl

/-- One thread moves outside the mutex, enters it, or leaves it with no write under way. -/
theorem inside_of_set {t : ℕ} {r : Request} {o : Option Request} (hr : s.request t = some r)
    (hreq : s'.requests = s.requests.set t o)
    (hold : ∀ m p ns now, r.phase ≠ .inside m (.advanced p ns now))
    (hnew : ∀ r' m σ, o = some r' → r'.phase = .inside m σ → σ = .entered) :
    (∀ payload σ, s'.Inside a payload σ → s.Inside a payload σ ∨ σ = .entered) ∧
      ∀ payload p ns now, s.Inside a payload (.advanced p ns now) →
        s'.Inside a payload (.advanced p ns now) := by
  constructor
  · intro payload σ hi
    rcases (inside_set hr hreq).mp hi with ⟨m,ho⟩ | ⟨t',-,hi'⟩
    · exact Or.inr (hnew _ m σ ho rfl)
    · exact Or.inl ⟨t',hi'⟩
  · rintro payload p ns now ⟨t',hi⟩
    apply (inside_set hr hreq).mpr
    right
    refine ⟨t',?_,hi⟩
    rintro rfl
    obtain ⟨m,hm⟩ := hi
    rw [hr] at hm
    apply hold m p ns now
    rw [Option.some.inj hm]

theorem AgentMove.of_set {t : ℕ} {r : Request} {o : Option Request} (hr : s.request t = some r)
    (hreq : s'.requests = s.requests.set t o) (hregistered : s'.registered = s.registered)
    (hadvances : s'.advances = s.advances) (haccepted : s'.accepted = s.accepted)
    (hfiles : s'.files = s.files) (hold : ∀ m p ns now, r.phase ≠ .inside m (.advanced p ns now))
    (hnew : ∀ r' m σ, o = some r' → r'.phase = .inside m σ → σ = .entered) :
    AgentMove M store a s s' broke := by
  obtain ⟨hinside,hadvanced⟩ := inside_of_set hr hreq hold hnew
  refine .still ?_ ?_ ?_ hfiles hinside hadvanced
  · rw [Server.initialOf,Server.initialOf,hregistered]
  · rw [Server.trail,Server.trail,hadvances]
  · rw [Server.history,Server.history,haccepted]

theorem initialOf_append (record : AgentRecord) (initial : String)
    (h : s'.registered = s.registered ++ [(record,initial)]) :
    s'.initialOf a = (s.initialOf a).or (if record.agentId = a then some initial else none) := by
  rw [Server.initialOf,h,List.find?_append,Server.initialOf]
  cases hf : s.registered.find? fun r => r.1.agentId = a with
  | some r => rfl
  | none =>
    rw [List.find?_singleton]
    by_cases ha : record.agentId = a
    · simp [ha]
    · simp [ha]

/-- Only the write of the pending state registers the agent. -/
theorem registers_of_mem {g : Registering} {op : RegisterOp}
    (hop : op ∈ store.registerOps g.record g.mandate g.initial) :
    op = store.enrolment g.record.agentId g.initial ∧ g.registers op = [(g.record,g.initial)] ∨
      g.registers op = [] ∧ ∀ name ∈ stateFiles, ∀ c,
        op ≠ .write (store.agentDir g.record.agentId ++ [name]) c := by
  simp only [FilesystemX402Store.registerOps,List.mem_cons,List.not_mem_nil,or_false] at hop
  have hother : ∀ {file : String} {c : Content}, file ∉ stateFiles →
      op = .write (store.agentDir g.record.agentId ++ [file]) c →
      ∀ name ∈ stateFiles, ∀ c', op ≠ .write (store.agentDir g.record.agentId ++ [name]) c' := by
    rintro file c hfile rfl name hname c' heq
    injection heq with hpath
    exact hfile (List.singleton_inj.mp (List.append_cancel_left hpath) ▸ hname)
  have hdirs : ∀ {raw : List String}, op = .makeDirs raw → g.registers op = [] ∧
      ∀ name ∈ stateFiles, ∀ c, op ≠ .write (store.agentDir g.record.agentId ++ [name]) c := by
    rintro raw rfl
    refine ⟨rfl,?_⟩
    rintro name - c ⟨⟩
  have htouch : ∀ {raw : List String}, op = .touch raw → g.registers op = [] ∧
      ∀ name ∈ stateFiles, ∀ c, op ≠ .write (store.agentDir g.record.agentId ++ [name]) c := by
    rintro raw rfl
    refine ⟨rfl,?_⟩
    rintro name - c ⟨⟩
  rcases hop with rfl | rfl | rfl | rfl | rfl | rfl | rfl | rfl | rfl | rfl
  · exact Or.inr (hdirs rfl)
  · exact Or.inr (hdirs rfl)
  · exact Or.inr (hdirs rfl)
  · exact Or.inr (hdirs rfl)
  · exact Or.inr (hdirs rfl)
  · exact Or.inr ⟨rfl,hother (by decide) rfl⟩
  · exact Or.inr ⟨rfl,hother (by decide) rfl⟩
  · exact Or.inl ⟨rfl,rfl⟩
  · exact Or.inr (htouch rfl)
  · exact Or.inr (htouch rfl)

/-- Only files change: the worker, or an operation of a registration that does not register the agent. -/
theorem AgentMove.of_files (hkeys : KeysKept store a stateFiles [] s.files s'.files)
    (hinitial : s'.initialOf a = s.initialOf a) (hrequests : s'.requests = s.requests)
    (hadvances : s'.advances = s.advances) (haccepted : s'.accepted = s.accepted) :
    AgentMove M store a s s' broke := by
  refine .quiet hinitial ?_ ?_ hkeys (fun _ hn => absurd hn List.not_mem_nil) ?_ ?_
  · rw [Server.trail,Server.trail,hadvances]
  · rw [Server.history,Server.history,haccepted]
  · exact fun payload σ hi => Or.inl ((inside_congr hrequests).mp hi)
  · exact fun payload p ns now hi => (inside_congr hrequests).mpr hi

theorem AgentMove.of_registration {t : ℕ} {g : Registering} {op : RegisterOp}
    {rest : List RegisterOp} {fs' : Files} (hplain : PlainInv store s)
    (hg : s.registration t = some g) (htodo : g.todo = op :: rest)
    (hafter : after op.run s.files = some fs') (hfiles : s'.files = fs')
    (hrequests : s'.requests = s.requests)
    (hregistered : s'.registered = s.registered ++ g.registers op)
    (hadvances : s'.advances = s.advances) (haccepted : s'.accepted = s.accepted)
    (hrest : s'.registration t = g.rest) : AgentMove M store a s s' false := by
  subst hfiles
  have henrols := hplain.registrations t g hg
  have hop : op ∈ g.todo := htodo ▸ List.mem_cons_self
  have hmem := henrols.mem_ops hop
  obtain ⟨_,hexec⟩ := after_eq_some_iff.mp hafter
  have hquiet : s'.initialOf a = s.initialOf a → (a ≠ g.record.agentId ∨
      ∀ name ∈ stateFiles, ∀ c, op ≠ .write (store.agentDir g.record.agentId ++ [name]) c) →
      AgentMove M store a s s' false := fun hinitial hout =>
    .of_files ((registerOp_keys henrols.plain hmem (by decide) hout).exec hexec) hinitial
      hrequests hadvances haccepted
  rcases registers_of_mem hmem with ⟨hwrite,hsome⟩ | ⟨hnone,hother⟩
  · rw [hsome] at hregistered
    have hinitial := initialOf_append (a := a) _ _ hregistered
    by_cases ha : g.record.agentId = a
    · rw [if_pos ha] at hinitial
      subst ha
      have hfile : s'.files.fileAt (store.keyPath g.record.agentId "pending_state.json") =
          some (.pending ⟨g.initial,g.initial,0⟩) := by
        rw [hwrite,FilesystemX402Store.enrolment,RegisterOp.run,
          FilesystemX402Store.pendingStateFile,agentDir_eq henrols.plain] at hexec
        exact (atomicWriteJson_spec (plain_agentPath henrols.plain) isPlain_pendingState hexec).2
      refine .register henrols.plain hg rfl (hwrite ▸ htodo) hfile ?_ hinitial ?_ ?_
        (fun payload σ => inside_congr hrequests) hrest
      · refine (registerOp_keys henrols.plain hmem (by decide) (Or.inr ?_)).exec hexec
        rintro name hname c heq
        rw [hwrite] at heq
        injection heq with hpath
        rw [FilesystemX402Store.pendingStateFile] at hpath
        rw [← List.singleton_inj.mp (List.append_cancel_left hpath)] at hname
        exact absurd hname (by decide)
      · rw [Server.trail,Server.trail,hadvances]
      · rw [Server.history,Server.history,haccepted]
    · rw [if_neg ha,Option.or_none] at hinitial
      exact hquiet hinitial (Or.inl (Ne.symm ha))
  · rw [hnone,List.append_nil] at hregistered
    refine hquiet ?_ (Or.inr hother)
    rw [Server.initialOf,Server.initialOf,hregistered]

theorem inside_of_arrive {b : String} {payload : AgenticPayload}
    (hreq : s'.requests = s.requests ++ [some ⟨b,payload,.arrived⟩]) :
    (∀ payload' σ, s'.Inside a payload' σ → s.Inside a payload' σ) ∧
      ∀ payload' σ, s.Inside a payload' σ → s'.Inside a payload' σ := by
  constructor
  · rintro payload' σ ⟨t,m,hm⟩
    rw [Server.request,hreq] at hm
    rcases thread_append hm with hold | ⟨-,hnew⟩
    · exact ⟨t,m,hold⟩
    · cases hnew
  · rintro payload' σ ⟨t,m,hm⟩
    refine ⟨t,m,?_⟩
    rw [Server.request_eq_some_iff] at hm ⊢
    rw [hreq,List.getElem?_append_left (List.getElem?_eq_some_iff.mp hm).1]
    exact hm

theorem AgentMove.of_arrive {b : String} {payload : AgenticPayload} : AgentMove M store a s
    { s with requests := s.requests ++ [some ⟨b,payload,.arrived⟩] } broke := by
  refine .still rfl rfl rfl rfl ?_ ?_
  · exact fun payload σ hi => Or.inl ((inside_of_arrive rfl).1 payload σ hi)
  · exact fun payload p ns now hi => (inside_of_arrive rfl).2 payload _ hi

theorem history_append {b : String} {payload : AgenticPayload} {σ : Stage}
    (haccepted : s'.accepted = s.accepted ++ acceptance b payload σ) :
    s'.history a = s.history a ++ if b = a then acceptance b payload σ else [] := by
  rw [Server.history,haccepted,List.filter_append,filter_acceptance]
  rfl

theorem trail_append {b : String} {payload : AgenticPayload} {σ : Stage}
    (hadvances : s'.advances = s.advances ++ advance b payload σ) :
    s'.trail a = s.trail a ++ if b = a then advance b payload σ else [] := by
  rw [Server.trail,hadvances,List.filter_append,filter_advance]
  rfl

/-- The thread of a stage is the only one inside for its agent. -/
theorem inside_iff_of_phase {t m : ℕ} {r : Request} {σ : Stage} (hlock : LockInv s)
    (hr : s.request t = some r) (hp : r.phase = .inside m σ) :
    ∀ payload' σ'', s.Inside r.agentId payload' σ'' ↔ payload' = r.payload ∧ σ'' = σ := by
  have hat := insideAt_of_phase hr hp
  intro payload' σ''
  constructor
  · rintro ⟨t',hi⟩
    obtain rfl := hlock.insideAt_unique hat hi
    exact insideAt_inj hat hi
  · rintro ⟨rfl,rfl⟩
    exact ⟨t,hat⟩

/-- It is the only one after the step too. -/
theorem inside_iff_of_stage {t m : ℕ} {r : Request} {σ σ' : Stage} (hlock : LockInv s)
    (hr : s.request t = some r) (hp : r.phase = .inside m σ)
    (hrequests : s'.requests = s.requests.set t (some { r with phase := .inside m σ' })) :
    ∀ payload' σ'', s'.Inside r.agentId payload' σ'' ↔ payload' = r.payload ∧ σ'' = σ' := by
  have hat := insideAt_of_phase hr hp
  intro payload' σ''
  rw [inside_set hr hrequests]
  constructor
  · rintro (⟨m',ho⟩ | ⟨t',ht',hi⟩)
    · injection ho with hrec
      injection hrec with _ hpayload hphase
      injection hphase with _ hstage'
      exact ⟨hpayload.symm,hstage'.symm⟩
    · exact absurd (hlock.insideAt_unique hat hi).symm ht'
  · rintro ⟨rfl,rfl⟩
    exact Or.inl ⟨m,rfl⟩

/-- To another agent its step is nothing. -/
theorem inside_of_stage_other {t : ℕ} {r : Request} {o : Option Request}
    (hr : s.request t = some r) (ha : r.agentId ≠ a) (hrequests : s'.requests = s.requests.set t o)
    (ho : ∀ r', o = some r' → r'.agentId = r.agentId) :
    ∀ payload' σ'', s'.Inside a payload' σ'' ↔ s.Inside a payload' σ'' := by
  intro payload' σ''
  rw [inside_set hr hrequests]
  constructor
  · rintro (⟨m',hsome⟩ | ⟨t',-,hi'⟩)
    · exact absurd (ho _ hsome).symm ha
    · exact ⟨t',hi'⟩
  · rintro ⟨t',hi⟩
    right
    refine ⟨t',?_,hi⟩
    rintro rfl
    obtain ⟨m',hm'⟩ := hi
    rw [hr] at hm'
    apply ha
    rw [Option.some.inj hm']

theorem AgentMove.of_stage {t m : ℕ} {r : Request} {σ σ' : Stage} {fs' : Files} (hlock : LockInv s)
    (hplain : PlainInv store s) (hr : s.request t = some r) (hp : r.phase = .inside m σ)
    (hstage : StageMove M store r.agentId r.payload s.files σ σ' fs') (hfiles : s'.files = fs')
    (hrequests : s'.requests = s.requests.set t (some { r with phase := .inside m σ' }))
    (hregistered : s'.registered = s.registered)
    (hadvances : s'.advances = s.advances ++ advance r.agentId r.payload σ')
    (haccepted : s'.accepted = s.accepted ++ acceptance r.agentId r.payload σ') :
    AgentMove M store a s s' false := by
  subst hfiles
  have hb := hplain.requests t r hr
  have hinitial : s'.initialOf a = s.initialOf a := by
    rw [Server.initialOf,Server.initialOf,hregistered]
  have hhistory := history_append (a := a) haccepted
  have htrail := trail_append (a := a) hadvances
  by_cases ha : r.agentId = a
  · rw [if_pos ha] at hhistory htrail
    subst ha
    exact .stage hb (inside_iff_of_phase hlock hr hp) (inside_iff_of_stage hlock hr hp hrequests)
      hinitial htrail hhistory hstage
  · rw [if_neg ha,List.append_nil] at hhistory htrail
    have hsame := inside_of_stage_other hr ha hrequests (by rintro r' ⟨⟩; rfl)
    refine .quiet hinitial htrail hhistory
      (hstage.keys hb (by decide) (aside_of_ne (Ne.symm ha) _)) ?_ ?_ ?_
    · exact fun n hn => ⟨r.agentId,r.payload,σ,⟨t,insideAt_of_phase hr hp⟩,hn⟩
    · exact fun payload' σ'' hi => Or.inl ((hsame payload' σ'').mp hi)
    · exact fun payload' p ns now hi => (hsame payload' _).mpr hi

/-- A request that fails is gone with what its write has left. -/
theorem AgentMove.of_cut {t m : ℕ} {r : Request} {σ : Stage} {fs' : Files} (hlock : LockInv s)
    (hplain : PlainInv store s) (hr : s.request t = some r) (hp : r.phase = .inside m σ)
    (hcut : StageCut store r.agentId r.payload s.files σ fs') (hfiles : s'.files = fs')
    (hrequests : s'.requests = s.requests.set t none) (hregistered : s'.registered = s.registered)
    (hadvances : s'.advances = s.advances) (haccepted : s'.accepted = s.accepted) :
    AgentMove M store a s s' true := by
  subst hfiles
  have hb := hplain.requests t r hr
  have hinitial : s'.initialOf a = s.initialOf a := by
    rw [Server.initialOf,Server.initialOf,hregistered]
  have hhistory : s'.history a = s.history a := by
    rw [Server.history,Server.history,haccepted]
  have htrail : s'.trail a = s.trail a := by
    rw [Server.trail,Server.trail,hadvances]
  by_cases ha : r.agentId = a
  · subst ha
    refine .cut hb (inside_iff_of_phase hlock hr hp) ?_ hinitial htrail hhistory hcut
    intro payload' σ'' hi
    rcases (inside_set hr hrequests).mp hi with ⟨m',ho⟩ | ⟨t',ht',hi'⟩
    · cases ho
    · exact ht' (hlock.insideAt_unique (insideAt_of_phase hr hp) hi').symm
  · have hsame := inside_of_stage_other hr ha hrequests (fun _ => nofun)
    refine .quiet hinitial htrail hhistory
      (hcut.keys hb (by decide) (aside_of_ne (Ne.symm ha) _)) ?_ ?_ ?_
    · exact fun n hn => ⟨r.agentId,r.payload,σ,⟨t,insideAt_of_phase hr hp⟩,hn⟩
    · exact fun payload' σ'' hi => Or.inl ((hsame payload' σ'').mp hi)
    · exact fun payload' p ns now hi => (hsame payload' _).mpr hi

theorem Move.agent (hmove : Move M store maxSize s act s') (hlock : LockInv s)
    (hplain : PlainInv store s) (a : String) : AgentMove M store a s s' act.fails := by
  have houtside : ∀ {r : Request} {φ : Phase}, r.phase = φ → φ.lock = none →
      ∀ m p ns now, r.phase ≠ .inside m (.advanced p ns now) := by
    rintro r φ rfl hφ m p ns now he
    rw [he] at hφ
    cases hφ
  cases hmove with
  | stay => exact .still rfl rfl rfl rfl (fun _ _ hi => Or.inl hi) fun _ _ _ _ hi => hi
  | begin _ => exact .still rfl rfl rfl rfl (fun _ _ hi => Or.inl hi) fun _ _ _ _ hi => hi
  | @registration t g op rest fs' hg htodo hafter =>
    refine .of_registration hplain hg htodo hafter rfl rfl rfl rfl rfl ?_
    rw [Server.registration,Server.setRegistration,thread_set hg,if_pos rfl]
  | @registrationFails t steps g op rest fs' hg htodo hcut =>
    have hop : op ∈ g.todo := htodo ▸ List.mem_cons_self
    have henrols := hplain.registrations t g hg
    have hmem := henrols.mem_ops hop
    exact .of_files (registerOp_fails_keys henrols.plain hmem (by decide) _ _ hcut) rfl rfl rfl rfl
  | arrive => exact .of_arrive
  | miss hr hp =>
    refine .of_set hr rfl rfl rfl rfl rfl (houtside hp rfl) ?_
    rintro r' m σ ⟨⟩ hφ
    cases hφ
  | find hr hp _ =>
    refine .of_set hr rfl rfl rfl rfl rfl (houtside hp rfl) ?_
    rintro r' m σ ⟨⟩ hφ
    cases hφ
  | insert hr hp =>
    refine .of_set hr rfl rfl rfl rfl rfl (houtside hp rfl) ?_
    rintro r' m σ ⟨⟩ hφ
    cases hφ
  | acquire hr hp _ =>
    refine .of_set hr rfl rfl rfl rfl rfl ?_ ?_
    · intro m p ns now he
      rw [hp] at he
      cases he
    · rintro r' m σ ⟨⟩ hφ
      injection hφ with _ hσ
      exact hσ.symm
  | stage hr hp hstage => exact .of_stage hlock hplain hr hp hstage rfl rfl rfl rfl rfl
  | leave hr hp hleave =>
    refine .of_set hr rfl rfl rfl rfl rfl ?_ ?_
    · intro m p ns now he
      rw [hp] at he
      injection he with _ hσ
      rw [hσ] at hleave
      cases hleave
    · rintro r' m σ ⟨⟩
  | requestFails hr hp hcut => exact .of_cut hlock hplain hr hp hcut rfl rfl rfl rfl rfl
  | work _ hwork => exact .of_files (hwork.keys hplain.worker (by decide)) rfl rfl rfl rfl
  | workFails hwork => exact .of_files (hwork.keys hplain.worker (by decide)) rfl rfl rfl rfl
  | restart hnone _ =>
    refine .still rfl rfl rfl rfl ?_ ?_
    · rintro payload σ ⟨t,m,hm⟩
      exact absurd hm (request_ne rfl)
    · rintro payload p ns now ⟨t,m,hm⟩
      exact absurd rfl (hnone t _ m _ hm)

end Moves

end MidenX402.Facilitator
