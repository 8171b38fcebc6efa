import MidenX402.Disk.Directories
import MidenX402.Facilitator.Reads
import MidenX402.Facilitator.Sample

/-!
# Registration over HTTP

`POST /agents` writes the store first and looks at the account snapshot afterwards.  The store makes
the directory of the agent before anything else, and takes an existing directory for an agent.
-/

namespace MidenX402.Facilitator
open Disk

section Handler

/-- The body of `POST /agents`: the registration and the account to mirror. -/
structure PostAgentsRequest extends RegisterAgentRequest where
  accountSnapshotB64 : Option String

structure RegisterAgentResponse where
  agentId : String
  facilitatorPubkeyCommitment : String
deriving DecidableEq

/-- What the handler reads of the state of the server. -/
structure AppState where
  store : FilesystemX402Store
  facilitatorPubkeyCommitment : String
  submitter : Bool

variable (M : Miden) (app : AppState)

/-- The account goes to the submitter, which lies outside of the store and whose failure is logged
and no more. -/
def mirrorSnapshot (snapshot : Option String) : StoreOp Unit :=
  match snapshot, app.submitter with
  | some b64, true => do
    let _ ← Prog.read fun _ =>
      (M.decodeBase64 b64).mapError fun e => .malformed ("account_snapshot_b64: " ++ e)
    return ()
  | _, _ => return ()

def postAgents (req : PostAgentsRequest) (now : ℕ) : StoreOp RegisterAgentResponse := do
  registerAgent app.store req.toRegisterAgentRequest now
  mirrorSnapshot M app req.accountSnapshotB64
  return ⟨req.agentId,app.facilitatorPubkeyCommitment⟩

/-- `agent_exists`. -/
def FilesystemX402Store.agentExists (store : FilesystemX402Store) (agentId : String) (fs : Files) :
    Bool := (fs.readFile (store.agentFile agentId)).isSome

structure NotRegistered (store : FilesystemX402Store) (agentId : String) (fs : Files) : Prop where
  absent : store.agentExists agentId fs = false
  agent : ∃ e, store.loadAgent agentId fs = .error e
  mandate : ∃ e, store.loadMandate agentId fs = .error e
  pending : ∃ e, store.loadPendingState agentId fs = .error e

/-- How a request comes to be answered with an error: the handler refuses it, or a file operation
fails after some changes. -/
inductive Failure where
  | refused
  | fault (steps : ℕ)

/-- The files when the error is answered. -/
def filesAfter (req : PostAgentsRequest) (now : ℕ) (failure : Failure) (fs : Files) : Option Files :=
  match failure with
  | .refused =>
    match (postAgents M app req now fs).result with
    | .ok _ => none
    | .error _ => some ((postAgents M app req now fs).last fs)
  | .fault steps => (postAgents M app req now).stopped steps fs

def SnapshotDecodes (snapshot : Option String) : Prop :=
  ∀ b64, snapshot = some b64 → app.submitter = true → ∃ bytes, M.decodeBase64 b64 = .ok bytes

/-- Every request for the agent that is right itself succeeds. -/
def CanRegister (agentId : String) (fs : Files) : Prop :=
  ∀ (req : PostAgentsRequest) (now : ℕ), req.agentId = agentId → Rust.isBlank agentId = false →
    SnapshotDecodes M app req.accountSnapshotB64 → (postAgents M app req now).Succeeds fs

end Handler

section Store
variable (store : FilesystemX402Store)

/-- The files a registration writes, with those it writes beside them. -/
def writtenFiles : List String :=
  ["agent.json",".agent.json.tmp","mandate.json",".mandate.json.tmp","pending_state.json",
    ".pending_state.json.tmp","nullifiers.wal","nullifiers.spent"]

/-- What a registration needs of the files: nothing is at the place of the agent, and nothing stands
in the way of what it makes and writes. -/
structure Available (agentId : String) (fs : Files) : Prop where
  absent : fs.pathExists (store.agentDir agentId) = false
  clear : fs.Clear [] (components (store.agentDir agentId))
  dirs : ∀ sub ∈ subDirs, fs.fileAt (resolved (store.agentDir agentId) ++ [sub]) = none
  files : ∀ name ∈ writtenFiles, fs.isDir (resolved (store.agentDir agentId) ++ [name]) = false ∧
    resolved (store.agentDir agentId) ++ [name] ∉ walk [] (components (store.agentDir agentId))

end Store

section Steps
variable {fs t : Files} {raw : List String} {d : Path} {name sub : String} {β : Type}
  {f : Unit → StoreOp β} {P : Prop}

theorem makeDirs_succeeds : (FilesystemX402Store.makeDirs raw).Succeeds fs ↔
    fs.Clear [] (components raw) := by
  rw [FilesystemX402Store.makeDirs,Prog.succeeds_mapError,← createDirAll_succeeds_iff]
  refine (Prog.succeeds_bind_iff (P := True) fun d t _ => ?_).trans (and_iff_left trivial)
  exact iff_of_true ⟨(),t,rfl⟩ trivial

/-- A directory is made in one that is there. -/
theorem makeSub_succeeds (hd : fs.resolveDir [] (components raw) = some d) (hsub : IsPlain sub)
    (hrest : ∀ t, t.resolveDir [] (components raw) = some d → Made {d ++ [sub]} fs t →
      ((f ()).Succeeds t ↔ P)) :
    (FilesystemX402Store.makeDirs (raw ++ [sub]) >>= f).Succeeds fs ↔
      fs.fileAt (d ++ [sub]) = none ∧ P := by
  obtain ⟨hnorm,hdirs⟩ := resolveDir_eq_some_iff.mp hd
  have hwalk : walk [] (components (raw ++ [sub])) = walk [] (components raw) ++ [d ++ [sub]] := by
    rw [components_concat hsub,walk_append,walk_singleton hsub,hnorm]
  have hclear : fs.Clear [] (components (raw ++ [sub])) ↔ fs.fileAt (d ++ [sub]) = none := by
    rw [FileSystem.Clear,hwalk,List.forall_mem_append,List.forall_mem_singleton]
    apply and_iff_right
    intro p hp
    exact FileSystem.fileAt_eq_none_of_isDir (ne_nil_of_mem_walk hp) (hdirs p hp)
  rw [← hclear,← makeDirs_succeeds]
  apply Prog.succeeds_bind_iff
  intro _ t ht
  obtain ⟨_,hmake⟩ := exec_makeDirs ht
  have hmade := createDirAll_made_all hmake
  apply hrest t
  · exact resolveDir_mono (fun p hp => (hmade.dirs p).mpr (Or.inl hp)) hd
  · refine ⟨hmade.files,fun p => (hmade.dirs p).trans ?_⟩
    change _ ∨ p ∈ walk [] (components (raw ++ [sub])) ↔ _
    rw [hwalk,List.mem_append,List.mem_singleton,Set.mem_singleton_iff]
    constructor
    · rintro (hp | hp | hp)
      · exact Or.inl hp
      · exact Or.inl (hdirs p hp)
      · exact Or.inr hp
    · rintro (hp | hp)
      · exact Or.inl hp
      · exact Or.inr (Or.inr hp)

theorem write_succeeds {c : Content} (hd : fs.resolveDir [] (components raw) = some d)
    (hn : IsPlain name) (hrest : ∀ t, t.resolveDir [] (components raw) = some d →
      (∀ p, t.isDir p = fs.isDir p) → ((f ()).Succeeds t ↔ P)) :
    (atomicWriteJson (raw ++ [name]) c >>= f).Succeeds fs ↔
      fs.isDir (d ++ [name]) = false ∧ fs.isDir (d ++ ["." ++ name ++ ".tmp"]) = false ∧ P := by
  have hexec := exec_atomicWrite (c := c) hn hd
  have hwrite : (atomicWriteJson (raw ++ [name]) c).Succeeds fs ↔
      fs.isDir (d ++ [name]) = false ∧ fs.isDir (d ++ ["." ++ name ++ ".tmp"]) = false := by
    rw [atomicWriteJson,Prog.succeeds_mapError,Prog.Succeeds,hexec]
    cases fs.isDir (d ++ ["." ++ name ++ ".tmp"]) <;> cases fs.isDir (d ++ [name]) <;> simp
  rw [← and_assoc,← hwrite]
  apply Prog.succeeds_bind_iff
  intro _ t ht
  obtain ⟨hfile,htmp⟩ := hwrite.mp ⟨_,t,ht⟩
  have ht := Prog.exec_mapError_eq_ok ht
  rw [hexec,htmp,hfile] at ht
  have hdirs : ∀ p, t.isDir p = fs.isDir p := by
    rw [← (Prod.mk.inj (Except.ok.inj ht)).2]
    exact isDir_replaced htmp hfile
  exact hrest t (resolveDir_mono (fun p hp => (hdirs p).trans hp) hd) hdirs

theorem touch_succeeds (hd : fs.resolveDir [] (components raw) = some d) (hn : IsPlain name) :
    (FilesystemX402Store.touch (raw ++ [name])).Succeeds fs ↔ fs.isDir (d ++ [name]) = false := by
  rw [FilesystemX402Store.touch,Prog.succeeds_mapError,← openAppend_succeeds hn hd]
  refine (Prog.succeeds_bind_iff (P := True) fun q t _ => ?_).trans (and_iff_left trivial)
  exact iff_of_true ⟨(),t,rfl⟩ trivial

theorem touch_isDir {u : Unit} (h : (FilesystemX402Store.touch raw).exec fs = .ok (u,t)) (p : Path) :
    t.isDir p = fs.isDir p := by
  obtain ⟨q,t',hopen,hpure⟩ := Prog.exec_bind_eq_ok (Prog.exec_mapError_eq_ok h)
  rw [Prog.exec_pure] at hpure
  obtain rfl := (Prod.mk.inj (Except.ok.inj hpure)).2
  exact openAppend_isDir hopen p

/-- The files of an agent can be written when no directory is in their place. -/
theorem writes_succeed {c1 c2 c3 : Content} (hd : fs.resolveDir [] (components raw) = some d) :
    (do atomicWriteJson (raw ++ ["agent.json"]) c1
        atomicWriteJson (raw ++ ["mandate.json"]) c2
        atomicWriteJson (raw ++ ["pending_state.json"]) c3
        FilesystemX402Store.touch (raw ++ ["nullifiers.wal"])
        FilesystemX402Store.touch (raw ++ ["nullifiers.spent"]) : StoreOp Unit).Succeeds fs ↔
      ∀ name ∈ writtenFiles, fs.isDir (d ++ [name]) = false := by
  simp only [writtenFiles,List.forall_mem_cons,List.not_mem_nil,IsEmpty.forall_iff,implies_true,and_true]
  apply write_succeeds hd isPlain_agentJson
  intro t1 hd1 h1
  simp only [← h1]
  apply write_succeeds hd1 (by decide)
  intro t2 hd2 h2
  simp only [← h2]
  apply write_succeeds hd2 isPlain_pendingState
  intro t3 hd3 h3
  simp only [← h3]
  rw [← touch_succeeds hd3 isPlain_wal]
  apply Prog.succeeds_bind_iff
  intro _ t4 h4
  have hdirs := touch_isDir h4
  rw [← hdirs]
  apply touch_succeeds _ isPlain_spent
  exact resolveDir_mono (fun p hp => (hdirs p).trans hp) hd3

/-- In the directory of an agent the rest of a registration goes through when no file is in the place
of a directory and no directory in the place of a file. -/
theorem layout_succeeds {c1 c2 c3 : Content} (hd : fs.resolveDir [] (components raw) = some d) :
    (do FilesystemX402Store.makeDirs (raw ++ ["pending_queue"])
        FilesystemX402Store.makeDirs (raw ++ ["committed"])
        FilesystemX402Store.makeDirs (raw ++ ["failed"])
        FilesystemX402Store.makeDirs (raw ++ ["payments"])
        atomicWriteJson (raw ++ ["agent.json"]) c1
        atomicWriteJson (raw ++ ["mandate.json"]) c2
        atomicWriteJson (raw ++ ["pending_state.json"]) c3
        FilesystemX402Store.touch (raw ++ ["nullifiers.wal"])
        FilesystemX402Store.touch (raw ++ ["nullifiers.spent"]) : StoreOp Unit).Succeeds fs ↔
      (∀ sub ∈ subDirs, fs.fileAt (d ++ [sub]) = none) ∧
        ∀ name ∈ writtenFiles, fs.isDir (d ++ [name]) = false := by
  simp only [subDirs,List.forall_mem_cons,List.not_mem_nil,IsEmpty.forall_iff,implies_true,and_true,
    and_assoc]
  apply makeSub_succeeds hd (by decide)
  intro t1 hd1 h1
  simp only [← h1.files]
  apply makeSub_succeeds hd1 (by decide)
  intro t2 hd2 h2
  simp only [← h2.files]
  apply makeSub_succeeds hd2 (by decide)
  intro t3 hd3 h3
  rw [← h3.files]
  apply makeSub_succeeds hd3 (by decide)
  intro t4 hd4 h4
  rw [writes_succeed hd4]
  have hdirs : ∀ name ∈ writtenFiles, t4.isDir (d ++ [name]) = fs.isDir (d ++ [name]) := by
    intro name hname
    have hne : ∀ sub ∈ subDirs, d ++ [name] ≠ d ++ [sub] := by
      intro sub hsub he
      obtain rfl := List.singleton_inj.mp (List.append_cancel_left he)
      exact (by decide : ∀ name ∈ writtenFiles, name ∉ subDirs) name hname hsub
    rw [Bool.eq_iff_iff,h4.dirs,h3.dirs,h2.dirs,h1.dirs]
    simp only [Set.mem_singleton_iff,hne _ (by decide : "pending_queue" ∈ subDirs),
      hne _ (by decide : "committed" ∈ subDirs),hne _ (by decide : "failed" ∈ subDirs),
      hne _ (by decide : "payments" ∈ subDirs),or_false]
  exact forall₂_congr fun name hname => by rw [hdirs name hname]

end Steps

section Available
variable {store : FilesystemX402Store} {fs t : Files} {record : AgentRecord} {mandate : AgentMandate}
  {initial : String}

/-- What the layout needs, in terms of the files before the directory of the agent was made. -/
theorem layout_iff {raw : List String} {d : Path}
    (h : (createDirAll [] (components raw)).exec fs = .ok (d,t)) :
    ((∀ sub ∈ subDirs, t.fileAt (d ++ [sub]) = none) ∧
        ∀ name ∈ writtenFiles, t.isDir (d ++ [name]) = false) ↔
      (∀ sub ∈ subDirs, fs.fileAt (resolved raw ++ [sub]) = none) ∧
        ∀ name ∈ writtenFiles, fs.isDir (resolved raw ++ [name]) = false ∧
          resolved raw ++ [name] ∉ walk [] (components raw) := by
  obtain rfl : d = resolved raw := (createDirAll_spec h).1
  have hmade := createDirAll_made_all h
  have hfile : ∀ p, t.isDir p = false ↔ fs.isDir p = false ∧ p ∉ walk [] (components raw) := by
    intro p
    rw [← Bool.not_eq_true,hmade.dirs,not_or,Bool.not_eq_true]
    rfl
  simp only [hmade.files,hfile]

/-- A registration goes through exactly when the place of the agent is free. -/
theorem registerAgent_succeeds_iff : (store.registerAgent record mandate initial).Succeeds fs ↔
    Available store record.agentId fs := by
  set raw := store.agentDir record.agentId with hraw
  have hread : (Prog.read fun fs : Files => if fs.pathExists raw then
      Except.error (FacilitatorError.agentAlreadyRegistered record.agentId) else .ok ()).Succeeds fs ↔
      fs.pathExists raw = false := by
    rw [Prog.Succeeds,Prog.exec_read]
    cases fs.pathExists raw <;> simp [Except.map]
  have hrun : (store.registerAgent record mandate initial).Succeeds fs ↔
      fs.pathExists raw = false ∧ fs.Clear [] (components raw) ∧
        (∀ sub ∈ subDirs, fs.fileAt (resolved raw ++ [sub]) = none) ∧
          ∀ name ∈ writtenFiles, fs.isDir (resolved raw ++ [name]) = false ∧
            resolved raw ++ [name] ∉ walk [] (components raw) := by
    rw [← hread]
    apply Prog.succeeds_bind_iff
    intro _ t ht
    obtain ⟨-,rfl⟩ := Prog.exec_read_eq_ok ht
    rw [← makeDirs_succeeds]
    apply Prog.succeeds_bind_iff
    intro _ t ht
    obtain ⟨d,hmake⟩ := exec_makeDirs ht
    exact (layout_succeeds (createDirAll_spec hmake).2.1).trans (layout_iff hmake)
  rw [hrun]
  constructor
  · rintro ⟨h1,h2,h3,h4⟩
    exact ⟨h1,h2,h3,h4⟩
  · rintro ⟨h1,h2,h3,h4⟩
    exact ⟨h1,h2,h3,h4⟩

end Available

section Reached
variable {store : FilesystemX402Store} {a : String} {fs t : Files} {k : ℕ} {record : AgentRecord}
  {mandate : AgentMandate} {initial : String}

/-- Nothing of an agent is found while its directory is not. -/
theorem notRegistered_of_unresolved
    (h : fs.resolveDir [] (components (store.agentDir a)) = none) : NotRegistered store a fs := by
  have hread : ∀ name, IsPlain name → fs.readFile (store.agentDir a ++ [name]) = none := by
    intro name hn
    rw [readFile_concat hn,h]
    rfl
  have hagent := hread "agent.json" (by decide)
  have hmandate := hread "mandate.json" (by decide)
  have hpending := hread "pending_state.json" (by decide)
  refine ⟨?_,⟨.agentNotRegistered a,?_⟩,⟨.agentNotRegistered a,?_⟩,⟨.agentNotRegistered a,?_⟩⟩
  · rw [FilesystemX402Store.agentExists,FilesystemX402Store.agentFile,hagent]
    rfl
  · rw [FilesystemX402Store.loadAgent,readJson,FilesystemX402Store.agentFile,hagent]
    rfl
  · rw [FilesystemX402Store.loadMandate,readJson,FilesystemX402Store.mandateFile,hmandate]
    rfl
  · rw [FilesystemX402Store.loadPendingState,readJson,FilesystemX402Store.pendingStateFile,hpending]
    rfl

theorem not_available_of_resolves {d : Path}
    (h : fs.resolveDir [] (components (store.agentDir a)) = some d) : ¬Available store a fs := by
  intro hfree
  have habsent := hfree.absent
  rw [FileSystem.pathExists,dirExists_eq_isSome,h] at habsent
  cases habsent

theorem visited_makeDirs (raw : List String) : (FilesystemX402Store.makeDirs raw fs).visited =
    (createDirAll [] (components raw) fs).visited := by
  change (Prog.bind (createDirAll [] (components raw)) (fun _ => Prog.pure ()) fs).visited = _
  rw [Prog.bind]
  cases (createDirAll [] (components raw) fs).result with
  | error e => rfl
  | ok d => exact List.append_nil _

theorem reached_makeDirs (raw : List String) : (FilesystemX402Store.makeDirs raw).reached k fs =
    (createDirAll [] (components raw)).reached k fs := by
  rw [Prog.reached,Prog.reached,visited_makeDirs]

/-- While directories are still to be made, the directory of the agent is not found. -/
theorem unresolved_of_reached {raw : List String}
    (hk : k < (createDirAll [] (components raw) fs).visited.length)
    (h : (createDirAll [] (components raw)).reached k fs = some t) :
    t.resolveDir [] (components raw) = none := by
  cases hd : t.resolveDir [] (components raw) with
  | none => rfl
  | some d =>
    have hdrop := congrArg (fun r => r.visited.length) (createDirAll_resume h)
    simp only [createDirAll_resolved hd,List.length_drop,List.length_nil] at hdrop
    omega

theorem clear_of_reached {raw : List String}
    (h : (createDirAll [] (components raw)).reached k fs = some t) :
    t.Clear [] (components raw) ↔ fs.Clear [] (components raw) := by
  have hfiles := ((createDirAll_steps (S := ∅)).reached h).files
  exact forall₂_congr fun p _ => by rw [hfiles p (Set.notMem_empty p)]

theorem layout_steps {raw : List String} {c1 c2 c3 : Content} :
    (do FilesystemX402Store.makeDirs (raw ++ ["pending_queue"])
        FilesystemX402Store.makeDirs (raw ++ ["committed"])
        FilesystemX402Store.makeDirs (raw ++ ["failed"])
        FilesystemX402Store.makeDirs (raw ++ ["payments"])
        atomicWriteJson (raw ++ ["agent.json"]) c1
        atomicWriteJson (raw ++ ["mandate.json"]) c2
        atomicWriteJson (raw ++ ["pending_state.json"]) c3
        FilesystemX402Store.touch (raw ++ ["nullifiers.wal"])
        FilesystemX402Store.touch (raw ++ ["nullifiers.spent"]) :
      StoreOp Unit).Steps (Frame Set.univ) fs := by
  have hmake : ∀ raw fs, (FilesystemX402Store.makeDirs raw).Steps (Frame Set.univ) fs := by
    intro raw fs
    exact (createDirAll_steps.bind fun _ _ _ => Prog.steps_pure ()).mapError _
  have hwrite : ∀ raw c fs, (atomicWriteJson raw c).Steps (Frame Set.univ) fs := by
    intro raw c fs
    exact (atomicWrite_frame (Set.mem_univ _) fun _ _ => Set.mem_univ _).mapError _
  have htouch : ∀ raw fs, (FilesystemX402Store.touch raw).Steps (Frame Set.univ) fs := by
    intro raw fs
    exact (openAppend_frame.bind fun _ _ _ => Prog.steps_pure ()).mapError _
  refine (hmake _ _).bind fun _ _ _ => ?_
  refine (hmake _ _).bind fun _ _ _ => ?_
  refine (hmake _ _).bind fun _ _ _ => ?_
  refine (hmake _ _).bind fun _ _ _ => ?_
  refine (hwrite _ _ _).bind fun _ _ _ => ?_
  refine (hwrite _ _ _).bind fun _ _ _ => ?_
  refine (hwrite _ _ _).bind fun _ _ _ => ?_
  refine (htouch _ _).bind fun _ _ _ => ?_
  exact htouch _ _

theorem registerAgent_taken (h : fs.pathExists (store.agentDir record.agentId) = true) :
    store.registerAgent record mandate initial fs =
      ⟨[],.error (.agentAlreadyRegistered record.agentId)⟩ := by
  delta FilesystemX402Store.registerAgent
  exact Prog.run_read_bind_of_error (if_pos h)

/-- A registration that finds nothing makes the directory of the agent first.  From then on the id is
taken. -/
theorem registerAgent_reached (habsent : fs.pathExists (store.agentDir record.agentId) = false)
    (h : (store.registerAgent record mandate initial).reached k fs = some t) :
    k < (createDirAll [] (components (store.agentDir record.agentId)) fs).visited.length ∧
        (createDirAll [] (components (store.agentDir record.agentId))).reached k fs = some t ∨
      (createDirAll [] (components (store.agentDir record.agentId)) fs).visited.length ≤ k ∧
        ¬Available store record.agentId t := by
  rw [Prog.reached] at h
  delta FilesystemX402Store.registerAgent at h
  rw [Prog.run_read_bind_of_ok (b := ()) (by rw [habsent]; rfl)] at h
  rcases Nat.lt_or_ge k (createDirAll [] (components (store.agentDir record.agentId)) fs).visited.length
    with hk | hk
  · refine Or.inl ⟨hk,?_⟩
    rw [← visited_makeDirs] at hk
    rw [← reached_makeDirs,← Prog.reached_bind_of_lt hk]
    exact h
  · refine Or.inr ⟨hk,?_⟩
    rw [← visited_makeDirs] at hk
    rcases Prog.reached_bind_of_le hk h with ⟨e,hr,ht⟩ | ⟨_,u,hu,ht⟩
    · intro hfree
      rw [reached_makeDirs] at ht
      obtain ⟨_,u,hu⟩ := makeDirs_succeeds.mpr ((clear_of_reached ht).mp hfree.clear)
      rw [((Prog.exec_eq_ok_iff _ _ _ _).mp hu).1] at hr
      cases hr
    · obtain ⟨d,hmake⟩ := exec_makeDirs hu
      have hd := (createDirAll_spec hmake).2.1
      exact not_available_of_resolves (resolveDir_mono (layout_steps.reached ht).dirs hd)

theorem length_createDirAll_le (habsent : fs.pathExists (store.agentDir record.agentId) = false) :
    (createDirAll [] (components (store.agentDir record.agentId)) fs).visited.length ≤
      (store.registerAgent record mandate initial fs).visited.length := by
  delta FilesystemX402Store.registerAgent
  rw [Prog.run_read_bind_of_ok (b := ()) (by rw [habsent]; rfl),← visited_makeDirs]
  exact Prog.length_visited_le_bind ..

/-- While directories are still to be made, the place of the agent is as free as it was. -/
theorem available_iff_of_reached (habsent : fs.pathExists (store.agentDir a) = false)
    (hk : k < (createDirAll [] (components (store.agentDir a)) fs).visited.length)
    (h : (createDirAll [] (components (store.agentDir a))).reached k fs = some t) :
    Available store a t ↔ Available store a fs := by
  by_cases hclear : fs.Clear [] (components (store.agentDir a))
  · have hpath : t.pathExists (store.agentDir a) = false := by
      rw [pathExists_of_clear ((clear_of_reached h).mpr hclear),unresolved_of_reached hk h]
      rfl
    have hexec : (FilesystemX402Store.makeDirs (store.agentDir a)).exec t =
        (FilesystemX402Store.makeDirs (store.agentDir a)).exec fs := by
      rw [FilesystemX402Store.makeDirs,Prog.exec_mapError,Prog.exec_mapError,Prog.exec_bind,
        Prog.exec_bind,exec_createDirAll_resume hk h]
    have hsame : (store.registerAgent ⟨a,"","",.falcon,none,0⟩ ⟨"",[],0⟩ "").exec t =
        (store.registerAgent ⟨a,"","",.falcon,none,0⟩ ⟨"",[],0⟩ "").exec fs := by
      rw [FilesystemX402Store.registerAgent,Prog.exec_bind,Prog.exec_bind,Prog.exec_read,
        Prog.exec_read,hpath,habsent]
      simp only [Bool.false_eq_true,if_false,Except.map,Except.bind]
      rw [Prog.exec_bind,Prog.exec_bind,hexec]
    have hiff : ∀ s : Files, (store.registerAgent ⟨a,"","",.falcon,none,0⟩ ⟨"",[],0⟩ "").Succeeds s ↔
        Available store a s := fun s => registerAgent_succeeds_iff
    rw [← hiff t,← hiff fs,Prog.Succeeds,Prog.Succeeds,hsame]
  · exact iff_of_false (fun hfree => hclear ((clear_of_reached h).mp hfree.clear)) fun hfree =>
      hclear hfree.clear

end Reached

section Errors
variable {M : Miden} {app : AppState} {a : String} {fs t : Files} {k : ℕ} {req : PostAgentsRequest}
  {now : ℕ}

/-- The snapshot changes nothing in the store; one that does not decode fails the request. -/
theorem mirrorSnapshot_cases (M : Miden) (app : AppState) (fs : Files) (snapshot : Option String) :
    SnapshotDecodes M app snapshot ∧ mirrorSnapshot M app snapshot fs = ⟨[],.ok ()⟩ ∨
      ¬SnapshotDecodes M app snapshot ∧ ∃ e, mirrorSnapshot M app snapshot fs = ⟨[],.error e⟩ := by
  cases snapshot with
  | none =>
    refine Or.inl ⟨?_,rfl⟩
    intro b64 h
    cases h
  | some b64 =>
    delta mirrorSnapshot
    cases hsub : app.submitter with
    | false =>
      refine Or.inl ⟨?_,rfl⟩
      intro b64 _ h
      rw [hsub] at h
      cases h
    | true =>
      cases hb : M.decodeBase64 b64 with
      | ok bytes =>
        refine Or.inl ⟨?_,?_⟩
        · intro b64' h _
          obtain rfl := Option.some.inj h
          exact ⟨bytes,hb⟩
        · exact Prog.run_read_bind_of_ok (b := bytes) (by rw [hb]; rfl)
      | error e =>
        refine Or.inr ⟨?_,.malformed ("account_snapshot_b64: " ++ e),?_⟩
        · intro h
          obtain ⟨bytes,hbytes⟩ := h b64 rfl hsub
          rw [hb] at hbytes
          cases hbytes
        · exact Prog.run_read_bind_of_error (by rw [hb]; rfl)

theorem mirrorSnapshot_succeeds (snapshot : Option String) :
    (mirrorSnapshot M app snapshot).Succeeds fs ↔ SnapshotDecodes M app snapshot := by
  rw [Prog.Succeeds,Prog.exec]
  rcases mirrorSnapshot_cases M app fs snapshot with ⟨h,hrun⟩ | ⟨h,e,hrun⟩
  · rw [hrun]
    exact iff_of_true ⟨(),fs,rfl⟩ h
  · rw [hrun]
    refine iff_of_false ?_ h
    rintro ⟨_,_,h⟩
    cases h

theorem handler_succeeds (req : RegisterAgentRequest) : (registerAgent app.store req now).Succeeds fs ↔
    Rust.isBlank req.agentId = false ∧ Available app.store req.agentId fs := by
  rw [registerAgent]
  split
  · rename_i hblank
    refine iff_of_false ?_ fun h => Bool.false_ne_true (h.1.symm.trans hblank)
    rintro ⟨_,_,h⟩
    cases h
  · rename_i hblank
    rw [and_iff_right (Bool.not_eq_true _ ▸ hblank)]
    exact registerAgent_succeeds_iff

theorem postAgents_succeeds : (postAgents M app req now).Succeeds fs ↔
    (Rust.isBlank req.agentId = false ∧ Available app.store req.agentId fs) ∧
      SnapshotDecodes M app req.accountSnapshotB64 := by
  rw [← handler_succeeds req.toRegisterAgentRequest]
  apply Prog.succeeds_bind_iff
  intro _ u _
  rw [← mirrorSnapshot_succeeds]
  exact (Prog.succeeds_bind_iff fun _ v _ => iff_of_true ⟨_,v,rfl⟩ trivial).trans (and_iff_left trivial)

theorem canRegister_iff :
    CanRegister M app a fs ↔ Rust.isBlank a = true ∨ Available app.store a fs := by
  constructor
  · intro h
    cases hblank : Rust.isBlank a with
    | true => exact Or.inl rfl
    | false =>
      have hreq := h ⟨⟨a,"","",.falcon,none,"",⟨"",[],0⟩⟩,none⟩ 0 rfl hblank fun b64 hb => nomatch hb
      exact Or.inr (postAgents_succeeds.mp hreq).1.2
  · rintro h req now rfl hblank hsnapshot
    rw [hblank] at h
    exact postAgents_succeeds.mpr ⟨⟨hblank,h.resolve_left Bool.false_ne_true⟩,hsnapshot⟩

theorem visited_postAgents : (postAgents M app req now fs).visited =
    (registerAgent app.store req.toRegisterAgentRequest now fs).visited := by
  have hrest : ∀ s : Files, ((do
      mirrorSnapshot M app req.accountSnapshotB64
      return ⟨req.agentId,app.facilitatorPubkeyCommitment⟩ : StoreOp RegisterAgentResponse) s).visited =
        [] := by
    intro s
    change (Prog.bind _ _ s).visited = []
    rw [Prog.bind]
    rcases mirrorSnapshot_cases M app s req.accountSnapshotB64 with ⟨-,hrun⟩ | ⟨-,e,hrun⟩
    · rw [hrun]
      rfl
    · rw [hrun]
  change (Prog.bind _ _ fs).visited = _
  rw [Prog.bind]
  split
  · rfl
  · rw [hrest]
    exact List.append_nil _

/-- An error leaves the store in a state that the registration went through.  A refused request has
gone through all of them. -/
theorem reached_of_filesAfter {failure : Failure}
    (h : filesAfter M app req now failure fs = some t) :
    ∃ k, (registerAgent app.store req.toRegisterAgentRequest now).reached k fs = some t ∧
      (failure = .fault k ∨
        failure = .refused ∧
          (registerAgent app.store req.toRegisterAgentRequest now fs).visited.length ≤ k) := by
  cases failure with
  | refused =>
    refine ⟨_,?_,Or.inr ⟨rfl,le_rfl⟩⟩
    rw [filesAfter] at h
    split at h
    · cases h
    · rw [← h,Prog.reached,← visited_postAgents (M := M)]
      exact Prog.reached_last ..
  | fault k =>
    refine ⟨k,?_,Or.inl rfl⟩
    rw [Prog.reached,← visited_postAgents (M := M)]
    exact (Prog.stopped_eq_some_iff.mp h).2

/-- Where nothing was, an error leaves nothing exactly when the place was free and a fault came while
directories were still to be made. -/
theorem undone_iff_of_absent {store : FilesystemX402Store} {record : AgentRecord}
    {mandate : AgentMandate} {initial : String} {failure : Failure}
    (habsent : fs.pathExists (store.agentDir record.agentId) = false)
    (h : (store.registerAgent record mandate initial).reached k fs = some t)
    (hk : failure = .fault k ∨ failure = .refused ∧
      (store.registerAgent record mandate initial fs).visited.length ≤ k) :
    NotRegistered store record.agentId t ∧ Available store record.agentId t ↔
      Available store record.agentId fs ∧ ∃ steps, failure = .fault steps ∧
        steps < (fs.missing [] (components (store.agentDir record.agentId))).card := by
  have hle := @length_createDirAll_le store fs record mandate initial habsent
  have hcard (hfree : Available store record.agentId fs) := length_visited_createDirAll hfree.clear
  rcases registerAgent_reached habsent h with ⟨hlt,hr⟩ | ⟨hge,hnot⟩
  · have hfault : failure = .fault k := by
      rcases hk with hk | ⟨-,hk⟩
      · exact hk
      · exact absurd (hle.trans hk) (Nat.not_le.mpr hlt)
    rw [available_iff_of_reached habsent hlt hr]
    constructor
    · rintro ⟨-,hfree⟩
      exact ⟨hfree,k,hfault,hcard hfree ▸ hlt⟩
    · rintro ⟨hfree,-⟩
      exact ⟨notRegistered_of_unresolved (unresolved_of_reached hlt hr),hfree⟩
  · apply iff_of_false (fun h => hnot h.2)
    rintro ⟨hfree,steps,rfl,hsteps⟩
    rw [← hcard hfree] at hsteps
    rcases hk with hk | ⟨hk,-⟩
    · rw [Failure.fault.inj hk] at hsteps
      exact absurd hge (Nat.not_le.mpr hsteps)
    · cases hk

theorem registerAgent_handler (store : FilesystemX402Store) {req : RegisterAgentRequest} (now : ℕ)
    (h : Rust.isBlank req.agentId = false) : ∃ record : AgentRecord, record.agentId = req.agentId ∧
      registerAgent store req now =
        store.registerAgent record req.mandate req.initialStateCommitment := by
  refine ⟨agentRecord req now,rfl,if_neg ?_⟩
  rw [h]
  decide

/-- An error leaves nothing behind, and the id free for a corrected request, exactly when no request
can be right for the id or when a fault comes while the directory of the agent is still to be made, at
a place that was free.  The id is one whose names the operating system accepts. -/
theorem registration_undone_iff (M : Miden) (app : AppState) (req : PostAgentsRequest) (now : ℕ)
    (failure : Failure) (fs t : Files) (hbefore : NotRegistered app.store req.agentId fs)
    (hfail : filesAfter M app req now failure fs = some t) :
    NotRegistered app.store req.agentId t ∧ CanRegister M app req.agentId t ↔
      Rust.isBlank req.agentId = true ∨ Available app.store req.agentId fs ∧ ∃ steps,
        failure = .fault steps ∧
          steps < (fs.missing [] (components (app.store.agentDir req.agentId))).card := by
  obtain ⟨k,hreach,hk⟩ := reached_of_filesAfter hfail
  have hnothing : (registerAgent app.store req.toRegisterAgentRequest now fs).visited = [] → t = fs := by
    intro hnil
    rw [Prog.reached,hnil] at hreach
    exact List.mem_singleton.mp (List.mem_of_getElem? hreach)
  rw [canRegister_iff]
  cases hblank : Rust.isBlank req.agentId with
  | true =>
    have hfs : t = fs := by
      apply hnothing
      rw [registerAgent,if_pos hblank]
      rfl
    rw [hfs]
    exact iff_of_true ⟨hbefore,Or.inl rfl⟩ (Or.inl rfl)
  | false =>
    obtain ⟨record,hid,hrun⟩ := registerAgent_handler app.store now hblank
    rw [hrun] at hreach hk hnothing
    simp only [Bool.false_eq_true,false_or]
    rw [← hid]
    cases hpath : fs.pathExists (app.store.agentDir record.agentId) with
    | true =>
      have hfs : t = fs := hnothing (congrArg Run.visited (registerAgent_taken hpath))
      have hnot : ¬Available app.store record.agentId fs := by
        intro hfree
        rw [hfree.absent] at hpath
        cases hpath
      rw [hfs]
      exact iff_of_false (fun h => hnot h.2) fun h => hnot h.1
    | false => exact undone_iff_of_absent hpath hreach hk

end Errors

/-- A server with a submitter, and a decoder that knows one bad text. -/
def mirroringApp : AppState := ⟨sampleStore,"0xack",true⟩

def strictMiden : Miden :=
  { sampleMiden with
    decodeBase64 := fun s => if s = "%%%" then .error "Invalid symbol 37, offset 0." else .ok [1] }

theorem sample_notRegistered : NotRegistered sampleStore "a" emptyFiles :=
  notRegistered_of_unresolved (by decide +kernel)

theorem registration_undone_sample :
    NotRegistered sampleStore "a" emptyFiles ∧
    filesAfter strictMiden mirroringApp ⟨sampleRegistration "a",none⟩ 0 (.fault 0) emptyFiles =
      some emptyFiles ∧
    (NotRegistered sampleStore "a" emptyFiles ∧ CanRegister strictMiden mirroringApp "a" emptyFiles ↔
      Rust.isBlank "a" = true ∨ Available sampleStore "a" emptyFiles ∧ ∃ steps,
        Failure.fault 0 = .fault steps ∧
          steps < (emptyFiles.missing [] (components (sampleStore.agentDir "a"))).card) := by
  have hfail : filesAfter strictMiden mirroringApp ⟨sampleRegistration "a",none⟩ 0 (.fault 0)
      emptyFiles = some emptyFiles := Prog.stopped_eq_some_iff.mpr ⟨by decide +kernel,rfl⟩
  exact ⟨sample_notRegistered,hfail,registration_undone_iff strictMiden mirroringApp
    ⟨sampleRegistration "a",none⟩ 0 (.fault 0) emptyFiles emptyFiles sample_notRegistered hfail⟩

/-- A snapshot that does not decode is found after the agent was registered: the request fails, the
agent is there, and the corrected request is told so.  A fault right after the directory was made
leaves no agent, and a corrected request is told that there is one. -/
theorem registration_left_behind :
    NotRegistered sampleStore "a" emptyFiles ∧
    (∃ t, filesAfter strictMiden mirroringApp ⟨sampleRegistration "a",some "%%%"⟩ 0 .refused
        emptyFiles = some t ∧ sampleStore.agentExists "a" t = true ∧
      (postAgents strictMiden mirroringApp ⟨sampleRegistration "a",none⟩ 1 t).result =
        .error (.agentAlreadyRegistered "a") ∧
      ¬(NotRegistered sampleStore "a" t ∧ CanRegister strictMiden mirroringApp "a" t)) ∧
    ∃ t, filesAfter strictMiden mirroringApp ⟨sampleRegistration "a",none⟩ 0 (.fault 1) emptyFiles =
        some t ∧ sampleStore.agentExists "a" t = false ∧
      (postAgents strictMiden mirroringApp ⟨sampleRegistration "a",none⟩ 1 t).result =
        .error (.agentAlreadyRegistered "a") ∧
      ¬(NotRegistered sampleStore "a" t ∧ CanRegister strictMiden mirroringApp "a" t) := by
  have hrefused : ∀ {t : Files} {e : FacilitatorError}, (postAgents strictMiden mirroringApp
      ⟨sampleRegistration "a",none⟩ 1 t).result = .error e →
      ¬CanRegister strictMiden mirroringApp "a" t := by
    intro t e he hcan
    obtain ⟨b,u,hu⟩ := hcan ⟨sampleRegistration "a",none⟩ 1 rfl (by decide +kernel) fun _ h => nomatch h
    rw [((Prog.exec_eq_ok_iff _ _ _ _).mp hu).1] at he
    cases he
  refine ⟨sample_notRegistered,?_,?_⟩
  · have hrun : (filesAfter strictMiden mirroringApp ⟨sampleRegistration "a",some "%%%"⟩ 0 .refused
        emptyFiles).any (fun t => sampleStore.agentExists "a" t ∧
          (postAgents strictMiden mirroringApp ⟨sampleRegistration "a",none⟩ 1 t).result =
            .error (.agentAlreadyRegistered "a")) = true := by
      decide +kernel
    obtain ⟨t,ht,h⟩ := Option.any_eq_true _ _ |>.mp hrun
    obtain ⟨hexists,hresult⟩ := of_decide_eq_true h
    exact ⟨t,ht,hexists,hresult,fun hleft => hrefused hresult hleft.2⟩
  · have hrun : (filesAfter strictMiden mirroringApp ⟨sampleRegistration "a",none⟩ 0 (.fault 1)
        emptyFiles).any (fun t => sampleStore.agentExists "a" t = false ∧
          (postAgents strictMiden mirroringApp ⟨sampleRegistration "a",none⟩ 1 t).result =
            .error (.agentAlreadyRegistered "a")) = true := by
      decide +kernel
    obtain ⟨t,ht,h⟩ := Option.any_eq_true _ _ |>.mp hrun
    obtain ⟨hexists,hresult⟩ := of_decide_eq_true h
    exact ⟨t,ht,hexists,hresult,fun hleft => hrefused hresult hleft.2⟩

end MidenX402.Facilitator
