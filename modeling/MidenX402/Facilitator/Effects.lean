import MidenX402.Facilitator.Reads
import MidenX402.Facilitator.Server

/-!
# What store operations do to the files

For an agent id that is a plain name the files of the agent lie where the layout says.  A sentinel is
written wherever the nullifier leads, but it is only ever a payment lookup.
-/

namespace MidenX402.Facilitator
open Disk Rust

section Names

/-- The name of a file that is not a temporary one. -/
def Undotted (p : Path) : Prop := ∀ name, p.getLast? = some name → name.toList.head? ≠ some '.'

theorem undotted_concat {p : Path} {name : String} (h : name.toList.head? ≠ some '.') :
    Undotted (p ++ [name]) := by
  intro name' hname
  rw [List.getLast?_concat] at hname
  rw [← Option.some.inj hname]
  exact h

theorem Undotted.ne_tmp {p : Path} (h : Undotted p) (dir : Path) (name : String) :
    p ≠ dir ++ ["." ++ name ++ ".tmp"] := by
  rintro rfl
  apply h _ List.getLast?_concat
  rw [String.toList_append,String.toList_append]
  rfl

theorem toList_seqFile (seq : ℕ) : (seqFile seq).toList = Nat.toDigits 10 seq ++ ".json".toList := by
  rw [seqFile,String.toList_append,Nat.toList_repr]

theorem seqFile_inj {i j : ℕ} (h : seqFile i = seqFile j) : i = j := by
  have hlist := congrArg String.toList h
  rw [toList_seqFile,toList_seqFile] at hlist
  have hdigits := congrArg (fun cs => Nat.ofDigitChars 10 cs 0) (List.append_cancel_right hlist)
  simpa using hdigits

theorem head_seqFile (seq : ℕ) : ∃ c cs, (seqFile seq).toList = c :: cs ∧ c.isDigit = true := by
  obtain ⟨c,cs,hc⟩ := List.exists_cons_of_ne_nil (Nat.toDigits_ne_nil (n := seq) (b := 10))
  refine ⟨c,cs ++ ".json".toList,by rw [toList_seqFile,hc,List.cons_append],?_⟩
  apply Nat.isDigit_of_mem_toDigits (by decide) le_rfl (n := seq)
  rw [hc]
  exact List.mem_cons_self

theorem undotted_seqFile (p : Path) (seq : ℕ) : Undotted (p ++ [seqFile seq]) := by
  apply undotted_concat
  obtain ⟨c,cs,hc,hdigit⟩ := head_seqFile seq
  rw [hc]
  intro he
  rw [Option.some.inj he] at hdigit
  exact absurd hdigit (by decide)

theorem isPlain_seqFile (seq : ℕ) : IsPlain (seqFile seq) := by
  obtain ⟨c,cs,hc,hdigit⟩ := head_seqFile seq
  have hne : ∀ s : String, s.toList.head?.all Char.isDigit = false → seqFile seq ≠ s := by
    rintro s hs rfl
    rw [hc] at hs
    simp [hdigit] at hs
  refine ⟨?_,hne _ rfl,hne _ rfl,?_⟩
  · intro he
    rw [he] at hc
    cases hc
  · rw [toList_seqFile,List.mem_append,not_or]
    refine ⟨?_,by decide⟩
    intro hmem
    exact absurd (Nat.isDigit_of_mem_toDigits (by decide) le_rfl hmem) (by decide)

theorem sub_split (store : FilesystemX402Store) (a sub name : String) :
    store.agentDir a ++ [sub,name] = store.agentDir a ++ [sub] ++ [name] := by
  rw [List.append_assoc,List.singleton_append]

/-- Where a file in a subdirectory of an agent's directory lies. -/
theorem normalize_sub (store : FilesystemX402Store) (a : String) {sub name : String}
    (hsub : IsPlain sub) (hname : IsPlain name) :
    normalize [] (components (store.agentDir a ++ [sub,name])).dropLast =
      resolved (store.agentDir a) ++ [sub] := by
  rw [sub_split,components_concat hname,List.dropLast_concat,components_concat hsub,normalize_append]
  have hplain : ∀ s ∈ [sub], IsPlain s := fun s hs => List.mem_singleton.mp hs ▸ hsub
  exact normalize_of_plain _ hplain

theorem queueFile_split (store : FilesystemX402Store) (a : String) (seq : ℕ) :
    store.queueFile a seq = store.agentDir a ++ ["pending_queue",seqFile seq] := by
  rw [FilesystemX402Store.queueFile,FilesystemX402Store.queueDir,List.append_assoc,
    List.singleton_append]

end Names

section OnlyAt

/-- Only the files at the given paths may differ, and temporary files may be gone; directories
stay. -/
structure OnlyAt (fs fs' : Files) (S : Set Path) : Prop where
  files : ∀ p, Undotted p → p ∉ S → fs'.fileAt p = fs.fileAt p
  old : ∀ p c, p ∉ S → fs'.fileAt p = some c → fs.fileAt p = some c
  dirs : ∀ p, fs.isDir p = true → fs'.isDir p = true

variable {fs fs' fs'' : Files} {S T : Set Path}

theorem OnlyAt.rfl : OnlyAt fs fs S := ⟨fun _ _ _ => Eq.refl _,fun _ _ _ h => h,fun _ h => h⟩

theorem OnlyAt.mono (h : OnlyAt fs fs' S) (hST : S ⊆ T) : OnlyAt fs fs' T :=
  ⟨fun p hp hT => h.files p hp fun hS => hT (hST hS),fun p c hT => h.old p c fun hS => hT (hST hS),
    h.dirs⟩

theorem OnlyAt.trans (h : OnlyAt fs fs' S) (h' : OnlyAt fs' fs'' S) : OnlyAt fs fs'' S :=
  ⟨fun p hp hS => (h'.files p hp hS).trans (h.files p hp hS),
    fun p c hS hc => h.old p c hS (h'.old p c hS hc),fun p hp => h'.dirs p (h.dirs p hp)⟩

/-- All files elsewhere are the same. -/
theorem onlyAt_of_same (h : ∀ p, p ∉ S → fs'.fileAt p = fs.fileAt p)
    (hdirs : ∀ p, fs.isDir p = true → fs'.isDir p = true) : OnlyAt fs fs' S :=
  ⟨fun p _ hS => h p hS,fun p _ hS hc => (h p hS).symm.trans hc,hdirs⟩

theorem onlyAt_of_written {dir : Path} {name : String} {c : Content}
    (h : Written fs fs' dir name c) : OnlyAt fs fs' {dir ++ [name]} := by
  refine ⟨fun p hp hS => h.others p hS (hp.ne_tmp dir name),?_,h.dirs⟩
  intro p c' hS hc'
  by_cases hp : p = dir ++ ["." ++ name ++ ".tmp"]
  · rw [hp,h.tmp] at hc'
    cases hc'
  · exact (h.others p hS hp).symm.trans hc'

theorem after_eq_some_iff {β : Type} {op : StoreOp β} :
    after op fs = some fs' ↔ ∃ b, op.exec fs = .ok (b,fs') := by
  rw [after]
  cases op.exec fs with
  | error e => simp
  | ok r => simp [Prod.ext_iff]

end OnlyAt

section Operations
variable {store : FilesystemX402Store} {a : String} {fs fs' : Files}

def FilesystemX402Store.agentPath (store : FilesystemX402Store) (a : String) : Path :=
  store.agentsDir ++ [a]

/-- A name in the directory of an agent, wherever its id leads. -/
def agentPlace (store : FilesystemX402Store) (a name : String) : Path :=
  resolved (store.agentDir a) ++ [name]

theorem agentDir_eq (ha : IsPlain a) : store.agentDir a = store.agentPath a := ha.join_eq _

theorem plain_agentsDir (store : FilesystemX402Store) : ∀ s ∈ store.agentsDir, IsPlain s := by
  intro s hs
  rcases List.mem_append.mp hs with h | h
  · exact store.plain s h
  · rw [List.mem_singleton.mp h]
    decide

theorem plain_concat {p : Path} {name : String} (hp : ∀ s ∈ p, IsPlain s) (hn : IsPlain name) :
    ∀ s ∈ p ++ [name], IsPlain s := by
  intro s hs
  rcases List.mem_append.mp hs with h | h
  · exact hp s h
  · rw [List.mem_singleton.mp h]
    exact hn

theorem plain_agentPath (ha : IsPlain a) : ∀ s ∈ store.agentPath a, IsPlain s :=
  plain_concat (plain_agentsDir store) ha

theorem resolved_agentDir (ha : IsPlain a) : resolved (store.agentDir a) = store.agentPath a := by
  rw [agentDir_eq ha,resolved_of_plain (plain_agentPath ha)]

theorem atomicWriteJson_spec {p : Path} {name : String} {c : Content} {u : Unit}
    (hp : ∀ s ∈ p, IsPlain s) (hn : IsPlain name)
    (h : (atomicWriteJson (p ++ [name]) c).exec fs = .ok (u,fs')) :
    OnlyAt fs fs' {p ++ [name]} ∧ fs'.fileAt (p ++ [name]) = some c := by
  have hw := atomicWrite_concat hn (Prog.exec_mapError_eq_ok h)
  rw [normalize_components hp] at hw
  exact ⟨onlyAt_of_written hw,hw.self⟩

/-- A write to wherever a raw path leads. -/
theorem atomicWriteJson_anywhere {raw : List String} {c : Content} {u : Unit}
    (h : (atomicWriteJson raw c).exec fs = .ok (u,fs')) :
    ∃ p, OnlyAt fs fs' {p} ∧ fs'.fileAt p = some c := by
  obtain ⟨name,-,hw⟩ := atomicWrite_spec (Prog.exec_mapError_eq_ok h)
  exact ⟨_,onlyAt_of_written hw,hw.self⟩

theorem exec_appendLine {p : Path} {c : Content} (e : WalEntry) (h : fs.fileAt p = some c) :
    (appendLine p e).exec fs =
      .ok ((),(fs.set p (some (.file .torn))).set p (some (.file (c.append e)))) := by
  have hrun : appendLine p e fs = (writeFile p (c.append e)).mapError ioErr fs := by
    rw [appendLine,h]
  rw [Prog.exec,hrun]
  rfl

theorem foldl_append_lines (es es' : List WalEntry) :
    es'.foldl Content.append (.lines es) = .lines (es ++ es') := by
  induction es' generalizing es with
  | nil => rw [List.append_nil,List.foldl_nil]
  | cons e es' ih => rw [List.foldl_cons,Content.append,ih,List.append_assoc,List.singleton_append]

theorem appendLines_spec {p : Path} {c : Content} {es : List WalEntry} {u : Unit}
    (hfile : fs.fileAt p = some c) (hdir : fs.isDir p = false)
    (h : (appendLines p es).exec fs = .ok (u,fs')) :
    OnlyAt fs fs' {p} ∧ fs'.fileAt p = some (es.foldl Content.append c) := by
  induction es generalizing fs c with
  | nil =>
    rw [appendLines,Prog.exec_pure] at h
    obtain ⟨rfl,rfl⟩ := Prod.mk.inj (Except.ok.inj h)
    exact ⟨OnlyAt.rfl,hfile⟩
  | cons e es ih =>
    rw [appendLines] at h
    obtain ⟨_,fs1,hline,hrest⟩ := Prog.exec_bind_eq_ok h
    rw [exec_appendLine e hfile] at hline
    obtain rfl := (Prod.mk.inj (Except.ok.inj hline)).2
    have htorn := isDir_set_file Content.torn hdir
    have hwrite := isDir_set_file (c.append e) ((htorn p).trans hdir)
    obtain ⟨honly,hlast⟩ := ih ((FileSystem.fileAt_set ..).trans (if_pos rfl))
      ((hwrite p).trans ((htorn p).trans hdir)) hrest
    refine ⟨(onlyAt_of_same ?_ ?_).trans honly,hlast⟩
    · intro q hq
      have hne : q ≠ p := hq
      rw [FileSystem.fileAt_set,if_neg hne,FileSystem.fileAt_set,if_neg hne]
    · intro q hq
      rw [hwrite,htorn]
      exact hq

theorem openAppend_concat {raw : List String} {name : String} {q : Path} (hn : IsPlain name)
    (h : (openAppend (raw ++ [name])).exec fs = .ok (q,fs')) :
    q = resolved raw ++ [name] ∧ OnlyAt fs fs' {q} ∧
      fs'.fileAt q = some ((fs.fileAt q).getD Contents.empty) := by
  obtain ⟨hloc,-,-,hfile,hothers,hdirs⟩ := openAppend_spec h
  rw [locate_concat hn] at hloc
  obtain ⟨d,hd,rfl⟩ := Option.map_eq_some_iff.mp hloc
  rw [resolveDir_eq_normalize hd] at hfile hothers ⊢
  exact ⟨rfl,onlyAt_of_same hothers hdirs,hfile⟩

/-- The entries are appended to the log, wherever the agent id leads. -/
theorem reserveNullifiers_appends {es : List WalEntry} {u : Unit}
    (h : (store.reserveNullifiers a es).exec fs = .ok (u,fs')) :
    OnlyAt fs fs' {agentPlace store a "nullifiers.wal"} ∧
    fs'.fileAt (agentPlace store a "nullifiers.wal") = some (es.foldl Content.append
      ((fs.fileAt (agentPlace store a "nullifiers.wal")).getD Contents.empty)) := by
  obtain ⟨q,fs1,hopen,hlines⟩ := Prog.exec_bind_eq_ok h
  have hopened := Prog.exec_mapError_eq_ok hopen
  obtain ⟨rfl,honly,hfile⟩ := openAppend_concat isPlain_wal hopened
  obtain ⟨honly',hfile'⟩ := appendLines_spec hfile (openAppend_notDir hopened) hlines
  exact ⟨honly.trans honly',hfile'⟩

theorem reserveNullifiers_spec (ha : IsPlain a) {es : List WalEntry}
    (h : after (store.reserveNullifiers a es) fs = some fs') :
    OnlyAt fs fs' {store.agentPath a ++ ["nullifiers.wal"]} ∧
    fs'.fileAt (store.agentPath a ++ ["nullifiers.wal"]) = some (es.foldl Content.append
      ((fs.fileAt (store.agentPath a ++ ["nullifiers.wal"])).getD Contents.empty)) := by
  obtain ⟨_,h⟩ := after_eq_some_iff.mp h
  rw [← resolved_agentDir ha]
  exact reserveNullifiers_appends h

theorem advancePendingState_spec (ha : IsPlain a) {p : PendingState}
    (h : after (store.advancePendingState a p) fs = some fs') :
    OnlyAt fs fs' {store.agentPath a ++ ["pending_state.json"]} ∧
    fs'.fileAt (store.agentPath a ++ ["pending_state.json"]) = some (.pending p) := by
  obtain ⟨_,h⟩ := after_eq_some_iff.mp h
  rw [FilesystemX402Store.advancePendingState,FilesystemX402Store.pendingStateFile,
    agentDir_eq ha] at h
  exact atomicWriteJson_spec (plain_agentPath ha) isPlain_pendingState h

/-- A file that differs is now a payment lookup, and temporary files may be gone; directories
stay. -/
structure OnlyLookups (fs fs' : Files) : Prop where
  files : ∀ p, Undotted p → fs'.fileAt p = fs.fileAt p ∨ ∃ seq, fs'.fileAt p = some (.lookup seq)
  old : ∀ p c, fs'.fileAt p = some c → fs.fileAt p = some c ∨ ∃ seq, c = .lookup seq
  dirs : ∀ p, fs.isDir p = true → fs'.isDir p = true

theorem writeSentinels_lookups {seq : ℕ} {ns : List String} {u : Unit}
    (h : (store.writeSentinels a seq ns).exec fs = .ok (u,fs')) : OnlyLookups fs fs' := by
  induction ns generalizing fs with
  | nil =>
    rw [FilesystemX402Store.writeSentinels,Prog.exec_pure] at h
    obtain ⟨rfl,rfl⟩ := Prod.mk.inj (Except.ok.inj h)
    exact ⟨fun _ _ => Or.inl rfl,fun _ _ hc => Or.inl hc,fun _ hp => hp⟩
  | cons n ns ih =>
    rw [FilesystemX402Store.writeSentinels] at h
    obtain ⟨_,fs1,hone,hrest⟩ := Prog.exec_bind_eq_ok h
    obtain ⟨q,honly,hq⟩ := atomicWriteJson_anywhere hone
    obtain hih := ih hrest
    refine ⟨?_,?_,fun p hp => hih.dirs p (honly.dirs p hp)⟩
    · intro p hp
      rcases hih.files p hp with hsame | hlookup
      · by_cases hpq : p = q
        · subst hpq
          exact Or.inr ⟨seq,hsame.trans hq⟩
        · exact Or.inl (hsame.trans (honly.files p hp hpq))
      · exact Or.inr hlookup
    · intro p c hc
      rcases hih.old p c hc with hold | hlookup
      · by_cases hpq : p = q
        · subst hpq
          rw [hq] at hold
          exact Or.inr ⟨seq,(Option.some.inj hold).symm⟩
        · exact Or.inl (honly.old p c hpq hold)
      · exact Or.inr hlookup

def FilesystemX402Store.recordPath (store : FilesystemX402Store) (a sub : String) (seq : ℕ) : Path :=
  store.agentPath a ++ [sub] ++ [seqFile seq]

theorem queueFile_eq (ha : IsPlain a) (seq : ℕ) :
    store.queueFile a seq = store.recordPath a "pending_queue" seq := by
  rw [FilesystemX402Store.queueFile,FilesystemX402Store.queueDir,agentDir_eq ha]
  rfl

theorem plain_sub (ha : IsPlain a) {sub : String} (hs : IsPlain sub) :
    ∀ s ∈ store.agentPath a ++ [sub], IsPlain s := plain_concat (plain_agentPath ha) hs

/-- The record first, then the sentinels. -/
theorem enqueue_spec (ha : IsPlain a) {tx : QueuedTx} (h : after (store.enqueue a tx) fs = some fs') :
    ∃ fs1, OnlyAt fs fs1 {store.recordPath a "pending_queue" tx.seq} ∧
      fs1.fileAt (store.recordPath a "pending_queue" tx.seq) = some (.queued tx) ∧
      OnlyLookups fs1 fs' := by
  obtain ⟨_,h⟩ := after_eq_some_iff.mp h
  obtain ⟨_,fs1,hrecord,hsentinels⟩ := Prog.exec_bind_eq_ok h
  rw [queueFile_eq ha] at hrecord
  obtain ⟨honly,hfile⟩ := atomicWriteJson_spec (plain_sub ha (by decide)) (isPlain_seqFile _) hrecord
  exact ⟨fs1,honly,hfile,writeSentinels_lookups hsentinels⟩

/-- The directories a record can be in. -/
def recordDirs : List String := ["pending_queue","committed","failed"]

theorem isPlain_recordDirs : ∀ sub ∈ recordDirs, IsPlain sub := by decide

theorem recordFiles_eq (ha : IsPlain a) (seq : ℕ) :
    store.recordFiles a seq = recordDirs.map fun sub => store.recordPath a sub seq := by
  rw [FilesystemX402Store.recordFiles,agentDir_eq ha]
  simp [recordDirs,FilesystemX402Store.recordPath]

theorem readFile_recordPath (ha : IsPlain a) {sub : String} (hs : IsPlain sub) (seq : ℕ)
    (hd : (fs.resolveDir [] (store.agentPath a ++ [sub])).isSome) :
    fs.readFile (store.recordPath a sub seq) = fs.fileAt (store.recordPath a sub seq) := by
  obtain ⟨d,hd⟩ := Option.isSome_iff_exists.mp hd
  have hplain : ∀ s ∈ store.agentPath a ++ [sub], IsPlain s := plain_sub ha hs
  rw [FilesystemX402Store.recordPath,readFile_concat (isPlain_seqFile seq),
    components_of_plain hplain,hd,Option.bind_some,resolveDir_of_plain hplain hd]

theorem upsertQueued_spec (ha : IsPlain a) {tx : QueuedTx}
    (h : after (store.upsertQueued a tx) fs = some fs') :
    ∃ sub ∈ recordDirs, OnlyAt fs fs' {store.recordPath a sub tx.seq} ∧
      fs'.fileAt (store.recordPath a sub tx.seq) = some (.queued tx) ∧
      ((fs.readFile (store.recordPath a "pending_queue" tx.seq)).isSome → sub = "pending_queue") := by
  obtain ⟨_,h⟩ := after_eq_some_iff.mp h
  have hwrite : ∀ sub ∈ recordDirs,
      (atomicWriteJson (store.recordPath a sub tx.seq) (.queued tx)).exec fs = .ok ((),fs') →
      OnlyAt fs fs' {store.recordPath a sub tx.seq} ∧
        fs'.fileAt (store.recordPath a sub tx.seq) = some (.queued tx) := fun sub hsub hw =>
    atomicWriteJson_spec (plain_sub ha (isPlain_recordDirs sub hsub)) (isPlain_seqFile _) hw
  rw [Prog.exec] at h
  delta FilesystemX402Store.upsertQueued at h
  rw [recordFiles_eq ha] at h
  by_cases hq : (fs.readFile (store.recordPath a "pending_queue" tx.seq)).isSome = true
  · have hfind : (recordDirs.map fun sub => store.recordPath a sub tx.seq).find?
        (fun p => (fs.readFile p).isSome) = some (store.recordPath a "pending_queue" tx.seq) := by
      rw [recordDirs,List.map_cons]
      exact List.find?_cons_of_pos hq
    rw [hfind] at h
    have hspec := hwrite "pending_queue" (by decide) h
    exact ⟨_,by decide,hspec.1,hspec.2,fun _ => rfl⟩
  · cases hfind : (recordDirs.map fun sub => store.recordPath a sub tx.seq).find?
        (fun p => (fs.readFile p).isSome) with
    | none =>
      rw [hfind,queueFile_eq ha] at h
      have hspec := hwrite "pending_queue" (by decide) h
      exact ⟨_,by decide,hspec.1,hspec.2,fun _ => rfl⟩
    | some p =>
      rw [hfind] at h
      obtain ⟨sub,hsub,rfl⟩ := List.mem_map.mp (List.mem_of_find?_eq_some hfind)
      have hspec := hwrite sub hsub h
      exact ⟨sub,hsub,hspec.1,hspec.2,fun hsome => absurd hsome hq⟩

theorem renameFile_onlyAt {p q : Path} {u : Unit} (hpq : p ≠ q)
    (h : (renameFile p q).exec fs = .ok (u,fs')) :
    ∃ c, fs.fileAt p = some c ∧ OnlyAt fs fs' {p,q} ∧ fs'.fileAt p = none := by
  obtain ⟨c,hc,hdst,rfl⟩ := renameFile_spec h
  have hsrc : ∀ r, fs.isDir r = true → r ≠ p ∨ p = [] := by
    intro r hr
    by_cases hrp : r = p
    · subst hrp
      right
      by_contra hne
      rw [FileSystem.fileAt_eq_none_of_isDir hne hr] at hc
      cases hc
    · exact Or.inl hrp
  refine ⟨c,hc,onlyAt_of_same ?_ ?_,?_⟩
  · intro r hr
    rw [Set.mem_insert_iff,Set.mem_singleton_iff,not_or] at hr
    rw [FileSystem.fileAt_set,if_neg hr.2,FileSystem.fileAt_set,if_neg hr.1]
  · intro r hr
    have hrq : r ≠ q := by
      rintro rfl
      rw [hr] at hdst
      cases hdst
    rw [FileSystem.isDir_set_of_ne _ _ hrq]
    rcases hsrc r hr with hrp | rfl
    · rw [FileSystem.isDir_set_of_ne _ _ hrp]
      exact hr
    · by_cases hrp : r = []
      · subst hrp
        rw [FileSystem.isDir,FileSystem.node_set_self]
        rfl
      · rw [FileSystem.isDir_set_of_ne _ _ hrp]
        exact hr
  · rw [FileSystem.fileAt_set,if_neg hpq,FileSystem.fileAt_set,if_pos rfl]

theorem recordPath_inj {a a' sub sub' : String} {seq seq' : ℕ}
    (h : store.recordPath a sub seq = store.recordPath a' sub' seq') :
    a = a' ∧ sub = sub' ∧ seq = seq' := by
  simp only [FilesystemX402Store.recordPath,FilesystemX402Store.agentPath,List.append_assoc,
    List.cons_append,List.nil_append,List.append_cancel_left_eq,List.cons.injEq,and_true] at h
  exact ⟨h.1,h.2.1,seqFile_inj h.2.2⟩

theorem locate_recordPath (ha : IsPlain a) {sub : String} (hs : IsPlain sub) {seq : ℕ} {p : Path}
    (h : fs.locate (store.recordPath a sub seq) = some p) : p = store.recordPath a sub seq := by
  have hplain : ∀ s ∈ store.agentPath a ++ [sub], IsPlain s := plain_sub ha hs
  rw [FilesystemX402Store.recordPath,locate_concat (isPlain_seqFile seq),
    components_of_plain hplain] at h
  obtain ⟨d,hd,rfl⟩ := Option.map_eq_some_iff.mp h
  rw [resolveDir_of_plain hplain hd]
  rfl

/-- The record is renamed into a directory that is there. -/
theorem moveToFailed_renames (ha : IsPlain a) {seq : ℕ}
    (h : after (store.moveToFailed a seq) fs = some fs') :
    fs.resolveDir [] (store.agentPath a ++ ["failed"]) = some (store.agentPath a ++ ["failed"]) ∧
      (renameFile (store.recordPath a "pending_queue" seq) (store.recordPath a "failed" seq)).exec fs =
        .ok ((),fs') := by
  obtain ⟨_,h⟩ := after_eq_some_iff.mp h
  have hrename := Prog.exec_mapError_eq_ok h
  have hdst : store.failedDir a ++ [seqFile seq] = store.recordPath a "failed" seq := by
    rw [FilesystemX402Store.failedDir,agentDir_eq ha]
    rfl
  rw [queueFile_eq ha,hdst] at hrename
  obtain ⟨p,q,hp,hq,hmove⟩ := rename_spec hrename
  obtain rfl := locate_recordPath ha (by decide) hp
  have hq' := hq
  obtain rfl := locate_recordPath ha (by decide) hq
  have hplain : ∀ s ∈ store.agentPath a ++ ["failed"], IsPlain s := plain_sub ha (by decide)
  rw [FilesystemX402Store.recordPath,locate_concat (isPlain_seqFile seq),
    components_of_plain hplain] at hq'
  obtain ⟨d,hd,-⟩ := Option.map_eq_some_iff.mp hq'
  obtain rfl := resolveDir_of_plain hplain hd
  exact ⟨hd,hmove⟩

theorem moveToFailed_spec (ha : IsPlain a) {seq : ℕ}
    (h : after (store.moveToFailed a seq) fs = some fs') :
    OnlyAt fs fs' {store.recordPath a "pending_queue" seq,store.recordPath a "failed" seq} ∧
      fs'.fileAt (store.recordPath a "pending_queue" seq) = none := by
  have hne : store.recordPath a "pending_queue" seq ≠ store.recordPath a "failed" seq := by
    intro he
    exact absurd (recordPath_inj he).2.1 (by decide)
  obtain ⟨_,-,honly,hnone⟩ := renameFile_onlyAt hne (moveToFailed_renames ha h).2
  exact ⟨honly,hnone⟩

theorem makeDirs_spec {p : Path} {u : Unit} (hp : ∀ s ∈ p, IsPlain s)
    (h : (FilesystemX402Store.makeDirs p).exec fs = .ok (u,fs')) :
    Extends fs fs' ∧ fs'.resolveDir [] p = some p := by
  obtain ⟨d,hcreate⟩ := exec_makeDirs h
  obtain ⟨hd,hres,hext⟩ := createDirAll_spec hcreate
  rw [normalize_components hp] at hd
  rw [components_of_plain hp,hd] at hres
  exact ⟨hext,hres⟩

/-- The files written when an agent is registered. -/
def keyFiles : List String :=
  ["agent.json","mandate.json","pending_state.json","nullifiers.wal","nullifiers.spent"]

def FilesystemX402Store.keyPath (store : FilesystemX402Store) (a name : String) : Path :=
  store.agentPath a ++ [name]

theorem keyPath_inj {a a' name name' : String}
    (h : store.keyPath a name = store.keyPath a' name') : a = a' ∧ name = name' := by
  simpa [FilesystemX402Store.keyPath,FilesystemX402Store.agentPath] using h

theorem agentPath_inj {a a' : String} (h : store.agentPath a = store.agentPath a') : a = a' :=
  List.singleton_inj.mp (List.append_cancel_left h)

theorem undotted_keyPath (a : String) {name : String} (h : name ∈ keyFiles) :
    Undotted (store.keyPath a name) := by
  apply undotted_concat
  have hall : ∀ name ∈ keyFiles, name.toList.head? ≠ some '.' := by decide
  exact hall name h

theorem OnlyAt.key {S : Set Path} (h : OnlyAt fs fs' S) {a name : String} (hname : name ∈ keyFiles)
    (hS : store.keyPath a name ∉ S) :
    fs'.fileAt (store.keyPath a name) = fs.fileAt (store.keyPath a name) :=
  h.files _ (undotted_keyPath a hname) hS

end Operations

end MidenX402.Facilitator
