import MidenX402.Facilitator.Agent

/-!
# Reserved nullifiers of one agent

The log of an agent is only appended to, so that an accepted payment keeps its nullifiers whatever
registrations do and whichever writes fail.  The invariant speaks of what the log holds only when it
reads as one, so it survives stray sentinels and torn lines.
-/

namespace MidenX402.Facilitator
open Disk KeyedLock Rust

section Reads
variable {store : FilesystemX402Store} {a name : String} {fs : Files} {c : Content}

/-- The directory of the agent is where its name says. -/
def HasDir (store : FilesystemX402Store) (fs : Files) (a : String) : Prop :=
  fs.resolveDir [] (store.agentPath a) = some (store.agentPath a)

theorem HasDir.resolve (h : HasDir store fs a) (ha : IsPlain a) :
    fs.resolveDir [] (components (store.agentDir a)) = some (store.agentPath a) := by
  rw [agentDir_eq ha,components_of_plain (plain_agentPath ha)]
  exact h

theorem fileAt_of_readFile (ha : IsPlain a) (hn : IsPlain name)
    (h : fs.readFile (store.agentDir a ++ [name]) = some c) :
    fs.fileAt (store.keyPath a name) = some c := by
  rw [agentDir_eq ha,readFile_concat hn,components_of_plain (plain_agentPath ha)] at h
  obtain ⟨d,hd,hc⟩ := Option.bind_eq_some_iff.mp h
  obtain rfl := resolveDir_of_plain (plain_agentPath ha) hd
  exact hc

theorem loadAgent_eq_ok (ha : IsPlain a) {record : AgentRecord}
    (h : store.loadAgent a fs = .ok record) :
    fs.fileAt (store.keyPath a "agent.json") = some (.agent record) := by
  obtain ⟨c,hc,hdecode⟩ := readJson_eq_ok_iff.mp (mapError_eq_ok.mp h)
  rw [fileAt_of_readFile ha (by decide) hc]
  cases c with
  | agent r => rw [Option.some.inj hdecode]
  | _ => cases hdecode

theorem loadPendingState_eq_ok (ha : IsPlain a) {p : PendingState}
    (h : store.loadPendingState a fs = .ok p) :
    fs.fileAt (store.keyPath a "pending_state.json") = some (.pending p) := by
  obtain ⟨c,hc,hdecode⟩ := readJson_eq_ok_iff.mp (mapError_eq_ok.mp h)
  rw [fileAt_of_readFile ha (by decide) hc]
  cases c with
  | pending q => rw [Option.some.inj hdecode]
  | _ => cases hdecode

theorem loadPendingState_of_fileAt (ha : IsPlain a) (hdir : HasDir store fs a) {p : PendingState}
    (h : fs.fileAt (store.keyPath a "pending_state.json") = some (.pending p)) :
    store.loadPendingState a fs = .ok p := by
  apply mapError_eq_ok.mpr
  apply readJson_eq_ok_iff.mpr
  refine ⟨.pending p,?_,rfl⟩
  rw [FilesystemX402Store.pendingStateFile,readFile_concat isPlain_pendingState,hdir.resolve ha]
  exact h

theorem hasDir_of_loadPendingState (ha : IsPlain a) {p : PendingState}
    (h : store.loadPendingState a fs = .ok p) : HasDir store fs a := by
  obtain ⟨c,hc,-⟩ := readJson_eq_ok_iff.mp (mapError_eq_ok.mp h)
  rw [FilesystemX402Store.pendingStateFile,agentDir_eq ha,readFile_concat isPlain_pendingState,
    components_of_plain (plain_agentPath ha)] at hc
  obtain ⟨d,hd,-⟩ := Option.bind_eq_some_iff.mp hc
  rw [HasDir,hd,resolveDir_of_plain (plain_agentPath ha) hd]

theorem hasDir_of_loadAgent (ha : IsPlain a) {record : AgentRecord}
    (h : store.loadAgent a fs = .ok record) : HasDir store fs a := by
  obtain ⟨d,hd⟩ := loadAgent_resolves h
  rw [agentDir_eq ha,components_of_plain (plain_agentPath ha)] at hd
  obtain rfl := resolveDir_of_plain (plain_agentPath ha) hd
  exact hd

/-- The view of an agent whose directory is there is what its two logs hold. -/
theorem nullifierView_eq_ok (ha : IsPlain a) (hdir : HasDir store fs a) {view : NullifierView}
    (h : store.nullifierView a fs = .ok view) : ∃ es es' : List WalEntry,
      store.content fs a "nullifiers.wal" = .lines es ∧
      store.content fs a "nullifiers.spent" = .lines es' ∧
      fs.isDir (store.keyPath a "nullifiers.wal") = false ∧
      fs.isDir (store.keyPath a "nullifiers.spent") = false ∧
      view = ⟨(es.map WalEntry.nullifier).toFinset,(es'.map WalEntry.nullifier).toFinset⟩ := by
  obtain ⟨reserved,hreserved,hrest⟩ := except_bind_eq_ok h
  obtain ⟨spent,hspent,hpure⟩ := except_bind_eq_ok hrest
  obtain ⟨es,hes,hwaldir,rfl⟩ := readWalSet_eq_ok isPlain_wal (hdir.resolve ha) hreserved
  obtain ⟨es',hes',hspentdir,rfl⟩ := readWalSet_eq_ok isPlain_spent (hdir.resolve ha) hspent
  exact ⟨es,es',hes,hes',hwaldir,hspentdir,(Except.ok.inj hpure).symm⟩

theorem nullifierView_of_lines (ha : IsPlain a) (hdir : HasDir store fs a) {es es' : List WalEntry}
    (hwal : store.content fs a "nullifiers.wal" = .lines es)
    (hspent : store.content fs a "nullifiers.spent" = .lines es')
    (hwaldir : fs.isDir (store.keyPath a "nullifiers.wal") = false)
    (hspentdir : fs.isDir (store.keyPath a "nullifiers.spent") = false) :
    store.nullifierView a fs = .ok
      ⟨(es.map WalEntry.nullifier).toFinset,(es'.map WalEntry.nullifier).toFinset⟩ := by
  rw [FilesystemX402Store.nullifierView,FilesystemX402Store.nullifiersWal,
    FilesystemX402Store.nullifiersSpent,
    readWalSet_of_lines isPlain_wal (hdir.resolve ha) es hwal hwaldir,
    readWalSet_of_lines isPlain_spent (hdir.resolve ha) es' hspent hspentdir]
  rfl

end Reads

section Log
variable {store : FilesystemX402Store} {a : String} {fs fs' : Files} {ns : List String}

/-- The nullifier is in the log, unless the log no longer reads as one. -/
def Logged (store : FilesystemX402Store) (fs : Files) (a n : String) : Prop :=
  ∀ es, store.content fs a "nullifiers.wal" = .lines es → n ∈ es.map WalEntry.nullifier

/-- A log that reads as one has grown out of one. -/
def LogKept (store : FilesystemX402Store) (a : String) (fs fs' : Files) : Prop :=
  ∀ es', store.content fs' a "nullifiers.wal" = .lines es' →
    ∃ es, store.content fs a "nullifiers.wal" = .lines es ∧ es <+: es'

instance : Std.Refl (LogKept store a) := ⟨fun _ es hes => ⟨es,hes,List.prefix_rfl⟩⟩

instance : IsTrans Files (LogKept store a) := by
  refine ⟨fun _ _ _ h h' es'' hes'' => ?_⟩
  obtain ⟨es',hes',hpre'⟩ := h' es'' hes''
  obtain ⟨es,hes,hpre⟩ := h es' hes'
  exact ⟨es,hes,hpre.trans hpre'⟩

theorem KeysKept.logKept {names : List String} (h : KeysKept store a names ns fs fs')
    (hwal : "nullifiers.wal" ∈ names) : LogKept store a fs fs' := by
  intro es' hes'
  rcases h.files _ hwal with hsame | ⟨seq,hseq⟩
  · exact ⟨es',hsame.symm.trans hes',List.prefix_rfl⟩
  · rw [hseq] at hes'
    cases hes'

theorem LogKept.logged (h : LogKept store a fs fs') {n : String} (hn : Logged store fs a n) :
    Logged store fs' a n := by
  intro es' hes'
  obtain ⟨es,hes,hpre⟩ := h es' hes'
  exact (hpre.map _).subset (hn es hes)

theorem content_set (p : Path) (c : Content) (name : String) :
    store.content (fs.set p (some (.file c))) a name =
      if store.keyPath a name = p then c else store.content fs a name := by
  rw [FilesystemX402Store.content,FileSystem.fileAt_set]
  split
  · rfl
  · rfl

theorem append_eq_lines {c : Content} {e : WalEntry} {es' : List WalEntry}
    (h : c.append e = .lines es') : ∃ es, c = .lines es ∧ es' = es ++ [e] := by
  cases c with
  | lines es => exact ⟨es,rfl,(Content.lines.inj h).symm⟩
  | _ => cases h

theorem appendLine_logKept {p : Path} {e : WalEntry} : (appendLine p e).Steps (LogKept store a) fs := by
  intro t ht es' hes'
  cases hc : fs.fileAt p with
  | none =>
    simp only [appendLine,hc,Prog.fail] at ht
    cases ht
  | some c =>
    have hvisited : t = fs.set p (some (.file .torn)) ∨
        t = (fs.set p (some (.file .torn))).set p (some (.file (c.append e))) := by
      simp only [appendLine,hc] at ht
      rcases List.mem_cons.mp ht with rfl | ht
      · exact Or.inl rfl
      · exact Or.inr (List.mem_singleton.mp ht)
    by_cases hp : store.keyPath a "nullifiers.wal" = p
    · rcases hvisited with rfl | rfl
      · rw [content_set,if_pos hp] at hes'
        cases hes'
      · rw [content_set,if_pos hp] at hes'
        obtain ⟨es,rfl,rfl⟩ := append_eq_lines hes'
        exact ⟨es,content_of_fileAt (hp ▸ hc),List.prefix_append ..⟩
    · rcases hvisited with rfl | rfl
      · rw [content_set,if_neg hp] at hes'
        exact ⟨es',hes',List.prefix_rfl⟩
      · rw [content_set,if_neg hp,content_set,if_neg hp] at hes'
        exact ⟨es',hes',List.prefix_rfl⟩

theorem appendLines_logKept {p : Path} {es : List WalEntry} :
    (appendLines p es).Steps (LogKept store a) fs := by
  induction es generalizing fs with
  | nil => exact Prog.steps_pure ()
  | cons e es ih =>
    rw [appendLines]
    exact appendLine_logKept.bind fun _ _ _ => ih

theorem reserveNullifiers_logKept {b : String} {es : List WalEntry} :
    (store.reserveNullifiers b es).Steps (LogKept store a) fs := by
  rw [FilesystemX402Store.reserveNullifiers]
  have hkeys : ((openAppend (store.nullifiersWal b)).mapError ioErr).Steps
      (KeysKept store a ["nullifiers.wal"] []) fs := openAppend_keys.mapError _
  have hopen : ((openAppend (store.nullifiersWal b)).mapError ioErr).Steps (LogKept store a) fs :=
    hkeys.imp fun _ h => h.logKept List.mem_cons_self
  exact hopen.bind fun _ _ _ => appendLines_logKept

theorem advancePendingState_logKept (ha : IsPlain a) {p : PendingState} :
    (store.advancePendingState a p).Steps (LogKept store a) fs := by
  have hkeys : (store.advancePendingState a p).Steps (KeysKept store a ["nullifiers.wal"] []) fs := by
    refine advancePendingState_keys ha (by decide) fun name hname => Or.inr ?_
    rw [List.mem_singleton.mp hname]
    decide
  exact hkeys.imp fun _ h => h.logKept List.mem_cons_self

theorem enqueue_logKept (ha : IsPlain a) {tx : QueuedTx} :
    (store.enqueue a tx).Steps (LogKept store a) fs := by
  have hkeys : (store.enqueue a tx).Steps (KeysKept store a ["nullifiers.wal"] tx.nullifiers) fs :=
    enqueue_keys ha (by decide)
  exact hkeys.imp fun _ h => h.logKept List.mem_cons_self

theorem foldl_append_eq_lines {es es' : List WalEntry} {c : Content}
    (h : es.foldl Content.append c = .lines es') : ∃ es0, c = .lines es0 ∧ es' = es0 ++ es := by
  induction es generalizing c with
  | nil => exact ⟨es',h,(List.append_nil es').symm⟩
  | cons e es ih =>
    obtain ⟨es1,hc,rfl⟩ := ih h
    obtain ⟨es0,rfl,rfl⟩ := append_eq_lines hc
    exact ⟨es0,rfl,by rw [List.append_assoc,List.singleton_append]⟩

/-- What was just reserved is in the log. -/
theorem logged_reserve (ha : IsPlain a) {pending : PendingState} {now : ℕ}
    (h : after (store.reserveNullifiers a (walEntries pending ns now)) fs = some fs') :
    ∀ n ∈ ns, Logged store fs' a n := by
  intro n hn es hes
  have hfile := (reserveNullifiers_spec ha h).2
  rw [content_of_fileAt hfile] at hes
  obtain ⟨es0,-,rfl⟩ := foldl_append_eq_lines hes
  rw [List.map_append,List.mem_append]
  right
  rw [walEntries,List.map_map]
  exact List.mem_map.mpr ⟨n,hn,rfl⟩

end Log

section Invariant
variable {M : Miden} {store : FilesystemX402Store} {maxSize : ℕ} {a : String} {s s' : Server}
  {act : Action} {payload : AgenticPayload} {σ σ' : Stage} {ns : List String} {p : PendingState}
  {broke : Bool}

/-- The nullifiers that `post_payment` takes from a payload that decodes. -/
def payloadNullifiers (M : Miden) (payload : AgenticPayload) : List String :=
  match tryDecodeRealSummary M payload.txSummary with
  | .ok extracted => nullifiersOf M extracted payload
  | .error _ => []

theorem checkPayload_nullifiers {record : AgentRecord} {mandate : AgentMandate}
    (h : checkPayload M record mandate p payload = .ok ns) : ns = payloadNullifiers M payload := by
  obtain ⟨-,-,extracted,hdecode,hns⟩ := checkPayload_eq_ok h
  rw [payloadNullifiers,hdecode]
  exact hns

/-- The nullifiers are the payload's, and there are some. -/
structure Claims (M : Miden) (payload : AgenticPayload) (ns : List String) : Prop where
  derived : ns = payloadNullifiers M payload
  nonempty : ns ≠ []

/-- What a request inside the mutex knows of its nullifiers. -/
def StageReserves (M : Miden) (store : FilesystemX402Store) (fs : Files) (a : String)
    (history : List Acceptance) (payload : AgenticPayload) : Stage → Prop
  | .checked _ ns => HasDir store fs a ∧ Claims M payload ns
  | .clear _ ns => Claims M payload ns ∧ ∀ x ∈ history, x.nullifiers.Disjoint ns
  | .reserved _ ns _ | .advanced _ ns _ =>
    Claims M payload ns ∧ (∀ x ∈ history, x.nullifiers.Disjoint ns) ∧ ∀ n ∈ ns, Logged store fs a n
  | _ => True

structure Reserving (M : Miden) (store : FilesystemX402Store) (s : Server) (a : String) : Prop where
  claims : ∀ x ∈ s.history a, Claims M x.payload x.nullifiers
  disjoint : (s.history a).Pairwise fun x y => x.nullifiers.Disjoint y.nullifiers
  logged : ∀ x ∈ s.history a, ∀ n ∈ x.nullifiers, Logged store s.files a n
  stages : ∀ payload σ, s.Inside a payload σ →
    StageReserves M store s.files a (s.history a) payload σ

theorem HasDir.mono {fs fs' : Files} (h : HasDir store fs a)
    (hdirs : ∀ p, fs.isDir p = true → fs'.isDir p = true) : HasDir store fs' a := resolveDir_mono hdirs h

theorem StageReserves.mono {fs fs' : Files} {history : List Acceptance}
    (h : StageReserves M store fs a history payload σ)
    (hdirs : ∀ p, fs.isDir p = true → fs'.isDir p = true) (hlog : LogKept store a fs fs') :
    StageReserves M store fs' a history payload σ := by
  cases σ with
  | checked _ _ => exact ⟨h.1.mono hdirs,h.2⟩
  | reserved _ _ _ => exact ⟨h.1,h.2.1,fun n hn => hlog.logged (h.2.2 n hn)⟩
  | advanced _ _ _ => exact ⟨h.1,h.2.1,fun n hn => hlog.logged (h.2.2 n hn)⟩
  | _ => exact h

/-- Nothing is accepted, and whoever is inside was or has just entered. -/
theorem Reserving.keep (h : Reserving M store s a) (hhistory : s'.history a = s.history a)
    (hdirs : ∀ p, s.files.isDir p = true → s'.files.isDir p = true)
    (hlog : LogKept store a s.files s'.files)
    (hinside : ∀ payload σ, s'.Inside a payload σ → s.Inside a payload σ ∨ σ = .entered) :
    Reserving M store s' a := by
  refine ⟨?_,?_,?_,?_⟩
  · rw [hhistory]
    exact h.claims
  · rw [hhistory]
    exact h.disjoint
  · rw [hhistory]
    exact fun x hx n hn => hlog.logged (h.logged x hx n hn)
  · intro payload σ hi
    rw [hhistory]
    rcases hinside payload σ hi with hold | rfl
    · exact (h.stages payload σ hold).mono hdirs hlog
    · trivial

/-- A view that reports none of the nullifiers: no earlier payment reserved one of them. -/
theorem Reserving.disjoint_of_view (h : Reserving M store s a) (ha : IsPlain a)
    (hdir : HasDir store s.files a) {view : NullifierView}
    (hview : store.nullifierView a s.files = .ok view) (hfree : ∀ n ∈ ns, view.contains n = false) :
    ∀ x ∈ s.history a, x.nullifiers.Disjoint ns := by
  obtain ⟨es,es',hes,-,-,-,rfl⟩ := nullifierView_eq_ok ha hdir hview
  intro x hx n hn hns
  have hfalse := hfree n hns
  rw [NullifierView.contains,Bool.or_eq_false_iff,decide_eq_false_iff_not] at hfalse
  exact hfalse.1 (List.mem_toFinset.mpr (h.logged x hx n hn es hes))

/-- The step of the request, except the one that queues its payment. -/
theorem StageMove.reserves {fs fs' : Files} (h : Reserving M store s a) (ha : IsPlain a)
    (hstage : StageReserves M store s.files a (s.history a) payload σ) (hfs : s.files = fs)
    (hmove : StageMove M store a payload fs σ σ' fs') :
    LogKept store a fs fs' ∧ StageReserves M store fs' a (s.history a) payload σ' := by
  subst hfs
  have hrefl : LogKept store a s.files s.files := Std.Refl.refl _
  cases hmove with
  | loadAgent _ => exact ⟨hrefl,trivial⟩
  | loadMandate => exact ⟨hrefl,trivial⟩
  | check hload hcheck =>
    exact ⟨hrefl,hasDir_of_loadPendingState ha hload,checkPayload_nullifiers hcheck,
      (checkPayload_eq_ok hcheck).2.1⟩
  | clear hview hfree =>
    exact ⟨hrefl,hstage.2,h.disjoint_of_view ha hstage.1 hview hfree⟩
  | reserve hafter =>
    obtain ⟨_,hexec⟩ := after_eq_some_iff.mp hafter
    exact ⟨reserveNullifiers_logKept.exec hexec,hstage.1,hstage.2,logged_reserve ha hafter⟩
  | advance hafter =>
    obtain ⟨_,hexec⟩ := after_eq_some_iff.mp hafter
    have hlog := (advancePendingState_logKept ha).exec hexec
    exact ⟨hlog,hstage.1,hstage.2.1,fun n hn => hlog.logged (hstage.2.2 n hn)⟩
  | enqueue hafter =>
    obtain ⟨_,hexec⟩ := after_eq_some_iff.mp hafter
    exact ⟨(enqueue_logKept ha).exec hexec,trivial⟩

/-- A payment is accepted with nullifiers of its own. -/
theorem Reserving.stage (h : Reserving M store s a) (ha : IsPlain a)
    (hfrom : ∀ payload' σ'', s.Inside a payload' σ'' ↔ payload' = payload ∧ σ'' = σ)
    (hto : ∀ payload' σ'', s'.Inside a payload' σ'' ↔ payload' = payload ∧ σ'' = σ')
    (hhistory : s'.history a = s.history a ++ acceptance a payload σ')
    (hmove : StageMove M store a payload s.files σ σ' s'.files) : Reserving M store s' a := by
  have hstage := h.stages payload σ ((hfrom payload σ).mpr ⟨rfl,rfl⟩)
  obtain ⟨hlog,hnext⟩ := hmove.reserves h ha hstage rfl
  have hdirs : ∀ p, s.files.isDir p = true → s'.files.isDir p = true :=
    hmove.dirs ha
  by_cases hadv : ∃ p ns now, σ = .advanced p ns now
  · obtain ⟨p,ns,now,rfl⟩ := hadv
    obtain rfl : σ' = .queued p ns now := by
      generalize s'.files = fs' at hmove
      cases hmove
      rfl
    obtain ⟨hclaims,hfresh,hlogged⟩ := hstage
    have hmem : ∀ {P : Acceptance → Prop}, (∀ y ∈ s.history a, P y) →
        P ⟨a,p.lastAcceptedSeq + 1,payload,ns⟩ → ∀ y ∈ s'.history a, P y := by
      intro P hall hnew y hy
      rw [hhistory] at hy
      rcases List.mem_append.mp hy with hold | hlast
      · exact hall y hold
      · rw [List.mem_singleton.mp hlast]
        exact hnew
    refine ⟨hmem h.claims hclaims,?_,?_,?_⟩
    · rw [hhistory,acceptance,List.pairwise_append]
      refine ⟨h.disjoint,List.pairwise_singleton ..,?_⟩
      intro x hx y hy
      rw [List.mem_singleton.mp hy]
      exact hfresh x hx
    · exact hmem (fun y hy n hn => hlog.logged (h.logged y hy n hn))
        fun n hn => hlog.logged (hlogged n hn)
    · intro payload' σ'' hi
      rw [((hto payload' σ'').mp hi).2]
      trivial
  · rw [hmove.acceptance_eq_nil hadv,List.append_nil] at hhistory
    refine ⟨?_,?_,?_,?_⟩
    · rw [hhistory]
      exact h.claims
    · rw [hhistory]
      exact h.disjoint
    · rw [hhistory]
      exact fun x hx n hn => hlog.logged (h.logged x hx n hn)
    · intro payload' σ'' hi
      obtain ⟨rfl,rfl⟩ := (hto payload' σ'').mp hi
      rw [hhistory]
      exact hnext

theorem StageCut.logKept {fs fs' : Files} (h : StageCut store a payload fs σ fs') (ha : IsPlain a) :
    LogKept store a fs fs' := by
  cases h with
  | reserve hcut => exact reserveNullifiers_logKept.reached hcut
  | advance hcut => exact (advancePendingState_logKept ha).failed hcut
  | enqueue hcut => exact (enqueue_logKept ha).failed hcut

theorem Reserving.move (h : Reserving M store s a) (hmove : AgentMove M store a s s' broke) :
    Reserving M store s' a := by
  have hdirs := hmove.dirs
  cases hmove with
  | quiet _ _ hhistory hkeys _ hinside _ =>
    exact h.keep hhistory hdirs (hkeys.logKept (by decide)) hinside
  | register _ _ _ _ _ hkeys _ _ hhistory hinside _ =>
    exact h.keep hhistory hdirs (hkeys.logKept (by decide)) fun payload σ hi =>
      Or.inl ((hinside payload σ).mp hi)
  | stage ha hfrom hto _ _ hhistory hstage => exact h.stage ha hfrom hto hhistory hstage
  | cut ha _ hgone _ _ hhistory hcut =>
    exact h.keep hhistory hdirs (hcut.logKept ha) fun payload σ hi => absurd hi (hgone payload σ)

end Invariant

end MidenX402.Facilitator
