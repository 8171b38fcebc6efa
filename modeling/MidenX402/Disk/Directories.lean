import MidenX402.Disk.Frames
import Mathlib.Data.Finset.Card

/-!
# Making directories

When all the directories a path leads through can be made, and what a run that was stopped on the way
leaves for the next one.
-/

namespace Disk

section Nodes
variable {α : Type} {fs : FileSystem α} {p : Path}

theorem FileSystem.node_eq_dir (hne : p ≠ []) (h : fs.isDir p = true) : fs.node p = some .dir := by
  rw [isDir] at h
  split at h
  · assumption
  · exact absurd (of_decide_eq_true h) hne

theorem FileSystem.isDir_of_node (h : fs.node p = some .dir) : fs.isDir p = true := by
  rw [isDir,h]

theorem FileSystem.isDir_of_none (hne : p ≠ []) (h : fs.node p = none) : fs.isDir p = false := by
  rw [isDir,h]
  exact decide_eq_false hne

end Nodes

section Make
variable {α : Type} {fs fs' t : FileSystem α} {start : Path} {s : String} {rest comps : List String}

theorem createDirAll_up : createDirAll start (".." :: rest) fs = createDirAll start.dropLast rest fs := by
  rw [createDirAll,if_pos rfl]

/-- A directory that is there is passed through. -/
theorem createDirAll_there (hs : s ≠ "..") (h : fs.node (start ++ [s]) = some .dir) :
    createDirAll start (s :: rest) fs = createDirAll (start ++ [s]) rest fs := by
  rw [createDirAll,if_neg hs]
  have hmake : ∀ e, makeDir (start ++ [s]) e fs = ⟨[],.ok ()⟩ := by
    intro e
    simp only [makeDir,h]
    rfl
  change Prog.bind _ _ fs = _
  rw [Prog.bind,hmake]
  rfl

/-- A directory that is missing is made. -/
theorem createDirAll_missing (hs : s ≠ "..") (h : fs.node (start ++ [s]) = none) :
    createDirAll start (s :: rest) fs =
      ⟨fs.set (start ++ [s]) (some .dir) ::
        (createDirAll (start ++ [s]) rest (fs.set (start ++ [s]) (some .dir))).visited,
       (createDirAll (start ++ [s]) rest (fs.set (start ++ [s]) (some .dir))).result⟩ := by
  rw [createDirAll,if_neg hs]
  have hmake : ∀ e, makeDir (start ++ [s]) e fs = ⟨[fs.set (start ++ [s]) (some .dir)],.ok ()⟩ := by
    intro e
    simp only [makeDir,h]
    rfl
  change Prog.bind _ _ fs = _
  rw [Prog.bind,hmake]
  rfl

/-- A file in the way stops the walk. -/
theorem createDirAll_blocked (rest : List String) (hs : s ≠ "..") {c : α}
    (h : fs.node (start ++ [s]) = some (.file c)) :
    ∃ e, createDirAll start (s :: rest) fs = ⟨[],.error e⟩ := by
  refine ⟨if rest = [] then .alreadyExists else .notADirectory,?_⟩
  rw [createDirAll,if_neg hs]
  change Prog.bind _ _ fs = _
  rw [Prog.bind]
  simp only [makeDir,h]
  rfl

/-- Run again from where it was stopped, it goes on from there. -/
theorem createDirAll_resume {k : ℕ} (h : (createDirAll start comps).reached k fs = some t) :
    createDirAll start comps t =
      ⟨(createDirAll start comps fs).visited.drop k,(createDirAll start comps fs).result⟩ := by
  induction comps generalizing start fs k with
  | nil =>
    have hfs : fs = t := by
      cases k with
      | zero => exact Option.some.inj h
      | succ k => cases h
    rw [hfs]
    cases k <;> rfl
  | cons s comps ih =>
    rw [Prog.reached] at h
    by_cases hs : s = ".."
    · subst hs
      rw [createDirAll_up] at h ⊢
      rw [createDirAll_up]
      exact ih h
    cases hn : fs.node (start ++ [s]) with
    | none =>
      cases k with
      | zero =>
        rw [← Option.some.inj h]
        rfl
      | succ k =>
        rw [createDirAll_missing hs hn] at h ⊢
        have hmade : t.isDir (start ++ [s]) = true :=
          ((createDirAll_steps (S := Set.univ)).reached h).dirs (start ++ [s])
            (FileSystem.isDir_of_node (FileSystem.node_set_self ..))
        rw [createDirAll_there hs (FileSystem.node_eq_dir (by simp) hmade)]
        exact ih h
    | some n =>
      cases n with
      | dir =>
        rw [createDirAll_there hs hn] at h ⊢
        have hkept : t.isDir (start ++ [s]) = true :=
          ((createDirAll_steps (S := Set.univ)).reached h).dirs (start ++ [s])
            (FileSystem.isDir_of_node hn)
        rw [createDirAll_there hs (FileSystem.node_eq_dir (by simp) hkept)]
        exact ih h
      | file c =>
        obtain ⟨e,he⟩ := createDirAll_blocked comps hs hn
        rw [he] at h ⊢
        cases k with
        | zero =>
          rw [← Option.some.inj h]
          exact he
        | succ k => cases h

/-- Stopped before its last change and run again, it ends as if it had not been stopped. -/
theorem exec_createDirAll_resume {k : ℕ} (hk : k < (createDirAll start comps fs).visited.length)
    (h : (createDirAll start comps).reached k fs = some t) :
    (createDirAll start comps).exec t = (createDirAll start comps).exec fs := by
  have hlast : ((createDirAll start comps fs).visited.drop k).getLastD t =
      (createDirAll start comps fs).visited.getLastD fs := by
    have hne : (createDirAll start comps fs).visited ≠ [] := List.ne_nil_of_length_pos (by omega)
    have hdrop : (createDirAll start comps fs).visited.drop k ≠ [] :=
      List.ne_nil_of_length_pos (by rw [List.length_drop]; omega)
    rw [List.getLastD_eq_getLast?,List.getLastD_eq_getLast?,List.getLast?_eq_some_getLast hdrop,
      List.getLast?_eq_some_getLast hne,List.getLast_drop]
    rfl
  rw [Prog.exec,Prog.exec,createDirAll_resume h,Run.last,Run.last,hlast]

/-- What making directories leaves: the same files, and the directories on the way. -/
structure Made (S : Set Path) (fs fs' : FileSystem α) : Prop where
  files : ∀ p, fs'.fileAt p = fs.fileAt p
  dirs : ∀ p, fs'.isDir p = true ↔ fs.isDir p = true ∨ p ∈ S

/-- No file stands where a directory is needed. -/
def FileSystem.Clear (fs : FileSystem α) (start : Path) (comps : List String) : Prop :=
  ∀ p ∈ walk start comps, fs.fileAt p = none

instance : Decidable (fs.Clear start comps) :=
  inferInstanceAs (Decidable (∀ p ∈ walk start comps, fs.fileAt p = none))

/-- The directories on the way that are still to be made. -/
def FileSystem.missing (fs : FileSystem α) (start : Path) (comps : List String) : Finset Path :=
  (walk start comps).toFinset.filter fun p => fs.isDir p = false

theorem fileAt_set_dir {p : Path} (h : fs.node p = none) (q : Path) :
    (fs.set p (some .dir)).fileAt q = fs.fileAt q := by
  rw [FileSystem.fileAt_set]
  split
  · rename_i hq
    rw [hq,FileSystem.fileAt,h]
  · rfl

theorem isDir_set_dir_iff {p q : Path} :
    (fs.set p (some .dir)).isDir q = true ↔ fs.isDir q = true ∨ q = p := by
  by_cases hq : q = p
  · subst hq
    exact iff_of_true (FileSystem.isDir_of_node (FileSystem.node_set_self ..)) (Or.inr rfl)
  · rw [FileSystem.isDir_set_of_ne _ _ hq]
    exact ⟨Or.inl,fun h => h.resolve_right hq⟩

theorem exec_createDirAll_missing (hs : s ≠ "..") (h : fs.node (start ++ [s]) = none) :
    (createDirAll start (s :: rest)).exec fs =
      (createDirAll (start ++ [s]) rest).exec (fs.set (start ++ [s]) (some .dir)) := by
  rw [Prog.exec,Prog.exec,createDirAll_missing hs h,Run.last,List.getLastD_cons]
  rfl

/-- The directories are made exactly when no file is in the way. -/
theorem createDirAll_succeeds_iff :
    (createDirAll start comps).Succeeds fs ↔ fs.Clear start comps := by
  rw [Prog.Succeeds]
  induction comps generalizing start fs with
  | nil => exact iff_of_true ⟨start,fs,rfl⟩ fun p hp => absurd hp List.not_mem_nil
  | cons s comps ih =>
    rw [FileSystem.Clear,walk]
    by_cases hs : s = ".."
    · subst hs
      rw [if_pos rfl,Prog.exec,createDirAll_up]
      exact ih
    rw [if_neg hs,List.forall_mem_cons]
    cases hn : fs.node (start ++ [s]) with
    | none =>
      have hclear : (fs.set (start ++ [s]) (some .dir)).Clear (start ++ [s]) comps ↔
          fs.Clear (start ++ [s]) comps := by
        simp only [FileSystem.Clear,fileAt_set_dir hn]
      rw [exec_createDirAll_missing hs hn,ih,hclear]
      exact (and_iff_right (by rw [FileSystem.fileAt,hn])).symm
    | some n =>
      cases n with
      | dir =>
        rw [Prog.exec,createDirAll_there hs hn]
        exact ih.trans (and_iff_right (by rw [FileSystem.fileAt,hn])).symm
      | file c =>
        obtain ⟨e,he⟩ := createDirAll_blocked comps hs hn
        rw [Prog.exec,he,FileSystem.fileAt_of_node hn]
        exact iff_of_false (by rintro ⟨_,_,h⟩; cases h) fun h => Option.some_ne_none c h.1

/-- What a walk that succeeds has made. -/
theorem createDirAll_made_all {d : Path} (h : (createDirAll start comps).exec fs = .ok (d,fs')) :
    Made {p | p ∈ walk start comps} fs fs' := by
  refine ⟨(createDirAll_spec h).2.2.files,?_⟩
  intro q
  change _ ↔ _ ∨ q ∈ walk start comps
  induction comps generalizing start fs with
  | nil =>
    rw [createDirAll,Prog.exec_pure] at h
    rw [(Prod.mk.inj (Except.ok.inj h)).2]
    simp [walk]
  | cons s comps ih =>
    rw [walk]
    by_cases hs : s = ".."
    · subst hs
      rw [if_pos rfl]
      rw [Prog.exec,createDirAll_up] at h
      exact ih h
    rw [if_neg hs,List.mem_cons]
    cases hn : fs.node (start ++ [s]) with
    | none =>
      rw [exec_createDirAll_missing hs hn] at h
      rw [ih h,isDir_set_dir_iff,or_assoc]
    | some n =>
      cases n with
      | dir =>
        rw [Prog.exec,createDirAll_there hs hn] at h
        have hq : q = start ++ [s] → fs.isDir q = true := by
          rintro rfl
          exact FileSystem.isDir_of_node hn
        rw [ih h]
        tauto
      | file c =>
        obtain ⟨e,he⟩ := createDirAll_blocked comps hs hn
        rw [Prog.exec,he] at h
        cases h

/-- The walk makes each directory that is missing once. -/
theorem length_visited_createDirAll (h : fs.Clear start comps) :
    (createDirAll start comps fs).visited.length = (fs.missing start comps).card := by
  induction comps generalizing start fs with
  | nil => rfl
  | cons s comps ih =>
    rw [FileSystem.Clear,walk] at h
    rw [FileSystem.missing,walk]
    by_cases hs : s = ".."
    · subst hs
      rw [if_pos rfl] at h ⊢
      rw [createDirAll_up]
      exact ih h
    rw [if_neg hs,List.forall_mem_cons] at h
    rw [if_neg hs,List.toFinset_cons,Finset.filter_insert]
    cases hn : fs.node (start ++ [s]) with
    | none =>
      have hclear : (fs.set (start ++ [s]) (some .dir)).Clear (start ++ [s]) comps := by
        intro p hp
        rw [fileAt_set_dir hn]
        exact h.2 p hp
      set made := fs.set (start ++ [s]) (some .dir) with hset
      have hmissing : insert (start ++ [s]) ((walk (start ++ [s]) comps).toFinset.filter
          fun p => fs.isDir p = false) = insert (start ++ [s]) (made.missing (start ++ [s]) comps) := by
        ext q
        by_cases hq : q = start ++ [s]
        · simp [hq]
        · simp only [Finset.mem_insert,FileSystem.missing,Finset.mem_filter,hset,
            FileSystem.isDir_set_of_ne fs _ hq]
      have hnot : start ++ [s] ∉ made.missing (start ++ [s]) comps := by
        rw [FileSystem.missing,Finset.mem_filter,hset,
          FileSystem.isDir_of_node (FileSystem.node_set_self ..)]
        simp
      rw [createDirAll_missing hs hn,if_pos (FileSystem.isDir_of_none (by simp) hn),List.length_cons,
        ih hclear,hmissing,Finset.card_insert_of_notMem hnot]
    | some n =>
      cases n with
      | dir =>
        rw [createDirAll_there hs hn,if_neg (by rw [FileSystem.isDir_of_node hn]; decide)]
        exact ih h.2
      | file c =>
        rw [FileSystem.fileAt_of_node hn] at h
        cases h.1

end Make

section Found
variable {α : Type} {fs : FileSystem α} {start d : Path} {raw comps : List String}

/-- A path leads to a directory when each directory on the way is there. -/
theorem resolveDir_eq_some_iff : fs.resolveDir start comps = some d ↔
    d = normalize start comps ∧ ∀ p ∈ walk start comps, fs.isDir p = true := by
  induction comps generalizing start with
  | nil =>
    rw [FileSystem.resolveDir,normalize,List.foldl_nil,walk,Option.some.injEq,eq_comm]
    exact (and_iff_left fun _ hp => absurd hp List.not_mem_nil).symm
  | cons s comps ih =>
    rw [FileSystem.resolveDir,normalize,List.foldl_cons,walk]
    split
    · exact ih
    · rw [List.forall_mem_cons]
      split
      · rename_i hdir
        rw [ih,and_iff_right hdir]
        rfl
      · rename_i hdir
        exact iff_of_false (Option.some_ne_none d).symm fun h => hdir h.2.1

/-- The directories that a found directory lies in are there. -/
theorem isDir_prefix_of_resolves (hstart : ∀ p, p <+: start → fs.isDir p = true)
    (h : fs.resolveDir start comps = some d) : ∀ p, p <+: d → fs.isDir p = true := by
  induction comps generalizing start with
  | nil =>
    rw [← Option.some.inj h]
    exact hstart
  | cons s comps ih =>
    rw [FileSystem.resolveDir] at h
    split at h
    · exact ih (fun p hp => hstart p (hp.trans (List.dropLast_prefix start))) h
    · split at h
      · rename_i hdir
        apply ih _ h
        intro p hp
        rcases List.prefix_concat_iff.mp hp with rfl | hp
        · exact hdir
        · exact hstart p hp
      · cases h

theorem isDir_prefix_nil : ∀ p, p <+: ([] : Path) → fs.isDir p = true := by
  intro p hp
  rw [List.prefix_nil.mp hp]
  exact FileSystem.isDir_nil fs

theorem dirExists_eq_isSome : fs.dirExists raw = (fs.resolveDir [] (components raw)).isSome := by
  rw [FileSystem.dirExists,FileSystem.locate]
  cases hlast : (components raw).getLast? with
  | none =>
    rw [List.getLast?_eq_none_iff.mp hlast]
    exact FileSystem.isDir_nil fs
  | some s =>
    have hsplit := (List.dropLast_append_getLast? s hlast).symm
    rw [hsplit,resolveDir_append,List.dropLast_concat]
    cases hd : fs.resolveDir [] (components raw).dropLast with
    | none => rfl
    | some d =>
      change fs.isDir (if s = ".." then d.dropLast else d ++ [s]) = (fs.resolveDir d [s]).isSome
      rw [FileSystem.resolveDir]
      split
      · exact isDir_prefix_of_resolves isDir_prefix_nil hd _ (List.dropLast_prefix d)
      · split
        · assumption
        · rename_i hdir
          exact Bool.not_eq_true _ ▸ hdir

theorem normalize_singleton {s : String} (hs : s ≠ "..") : normalize start [s] = start ++ [s] := by
  rw [normalize,List.foldl_cons,if_neg hs,List.foldl_nil]

theorem normalize_mem_walk {s : String} (hs : s ≠ "..") :
    normalize start (comps ++ [s]) ∈ walk start (comps ++ [s]) := by
  rw [walk_append,normalize_append,normalize_singleton hs,walk,if_neg hs]
  exact List.mem_append_right _ List.mem_cons_self

theorem resolved_concat {raw : List String} {name : String} (hn : IsPlain name) :
    resolved (raw ++ [name]) = resolved raw ++ [name] := by
  rw [resolved,components_concat hn,normalize_append,normalize_singleton hn.ne_dots]
  rfl

theorem walk_concat {raw : List String} {name : String} (hn : IsPlain name) :
    walk [] (components (raw ++ [name])) = walk [] (components raw) ++ [resolved raw ++ [name]] := by
  rw [components_concat hn,walk_append,walk_singleton hn]
  rfl

theorem locate_eq_resolved {α : Type} {fs : FileSystem α} {raw : List String} {p : Path}
    (h : fs.locate raw = some p) : p = resolved raw := by
  rw [FileSystem.locate] at h
  rw [resolved]
  cases hlast : (components raw).getLast? with
  | none =>
    rw [hlast] at h
    rw [List.getLast?_eq_none_iff.mp hlast]
    exact (Option.some.inj h).symm
  | some s =>
    rw [hlast] at h
    obtain ⟨d,hd,rfl⟩ := Option.map_eq_some_iff.mp h
    rw [← List.dropLast_append_getLast? s hlast,normalize_append,← resolveDir_eq_normalize hd]
    rfl

/-- Where the directories can be made, no file is found. -/
theorem readFile_of_clear (h : fs.Clear [] (components raw)) : fs.readFile raw = none := by
  rw [FileSystem.readFile]
  split
  · rename_i hends
    have hname : raw.getLast? = fileName raw ∧ raw ≠ [] := of_decide_eq_true hends
    obtain ⟨s,hs⟩ : ∃ s, fileName raw = some s := by
      rw [← hname.1]
      exact ⟨_,List.getLast?_eq_some_getLast hname.2⟩
    obtain ⟨hlast,hdots⟩ := Option.filter_eq_some_iff.mp hs
    have hdots : s ≠ ".." := of_decide_eq_true hdots
    have hsplit := (List.dropLast_append_getLast? s hlast).symm
    rw [hsplit] at h
    rw [FileSystem.locate,hlast]
    cases hd : fs.resolveDir [] (components raw).dropLast with
    | none => rfl
    | some d =>
      have hmem := h _ (normalize_mem_walk hdots)
      rw [normalize_append,← resolveDir_eq_normalize hd,normalize_singleton hdots] at hmem
      change fs.fileAt (if s = ".." then d.dropLast else d ++ [s]) = none
      rw [if_neg hdots]
      exact hmem
  · rfl

theorem pathExists_of_clear (h : fs.Clear [] (components raw)) :
    fs.pathExists raw = (fs.resolveDir [] (components raw)).isSome := by
  rw [FileSystem.pathExists,readFile_of_clear h,dirExists_eq_isSome]
  exact Bool.or_false _

end Found

section Resolved
variable {α : Type} {fs fs' : FileSystem α} {start d : Path} {raw comps : List String} {name : String}

/-- Nothing is made where everything is there. -/
theorem createDirAll_resolved (h : fs.resolveDir start comps = some d) :
    createDirAll start comps fs = ⟨[],.ok d⟩ := by
  induction comps generalizing start with
  | nil =>
    rw [← Option.some.inj h]
    rfl
  | cons s comps ih =>
    rw [FileSystem.resolveDir] at h
    split at h
    · rename_i hs
      subst hs
      rw [createDirAll_up]
      exact ih h
    · rename_i hs
      split at h
      · rename_i hdir
        rw [createDirAll_there hs (FileSystem.node_eq_dir (by simp) hdir)]
        exact ih h
      · cases h

variable [Contents α] {c : α}

theorem exec_createFile (p : Path) : (createFile p).exec fs =
    if fs.isDir p then .error .isADirectory else .ok ((),fs.set p (some (.file Contents.empty))) := by
  rw [Prog.exec,createFile]
  split <;> rfl

omit [Contents α] in
theorem exec_renameFile {p q : Path} (h : fs.fileAt p = some c) : (renameFile p q).exec fs =
    if fs.isDir q then .error .isADirectory
    else .ok ((),(fs.set p none).set q (some (.file c))) := by
  simp only [Prog.exec,renameFile,h]
  split <;> rfl

/-- The state in which an atomic write leaves a directory that is there. -/
def FileSystem.replaced (fs : FileSystem α) (d : Path) (name : String) (c : α) : FileSystem α :=
  ((((fs.set (d ++ ["." ++ name ++ ".tmp"]) (some (.file Contents.empty))).set
    (d ++ ["." ++ name ++ ".tmp"]) (some (.file Contents.torn))).set
      (d ++ ["." ++ name ++ ".tmp"]) (some (.file c))).set
        (d ++ ["." ++ name ++ ".tmp"]) none).set (d ++ [name]) (some (.file c))

theorem exec_atomicWrite (hn : IsPlain name) (hd : fs.resolveDir [] (components raw) = some d) :
    (atomicWrite (raw ++ [name]) c).exec fs =
      if fs.isDir (d ++ ["." ++ name ++ ".tmp"]) then .error .isADirectory
      else if fs.isDir (d ++ [name]) then .error .isADirectory
      else .ok ((),fs.replaced d name c) := by
  have hcomps : components (raw ++ [name]) ≠ [] := by
    rw [components_concat hn]
    simp
  have hdir : (createDirAll [] (components (raw ++ [name])).dropLast).exec fs = .ok (d,fs) := by
    rw [components_concat hn,List.dropLast_concat,Prog.exec,createDirAll_resolved hd]
    rfl
  rw [atomicWrite,if_neg hcomps,Prog.exec_bind,hdir]
  simp only [Except.bind,fileName_concat hn,Option.getD_some,endsPlain_concat hn,if_true]
  rw [Prog.exec_bind,exec_createFile]
  split
  · rfl
  · rename_i htmp
    have htmp : fs.isDir (d ++ ["." ++ name ++ ".tmp"]) = false := by simpa using htmp
    have h1 := isDir_set_file (Contents.empty : α) htmp
    have h2 := isDir_set_file (Contents.torn : α) ((h1 _).trans htmp)
    have h3 := isDir_set_file c ((h2 _).trans ((h1 _).trans htmp))
    simp only [Except.bind]
    rw [Prog.exec_bind,exec_writeFile]
    simp only [Except.bind]
    rw [exec_renameFile (by rw [FileSystem.fileAt_set,if_pos rfl]),h3,h2,h1]
    rfl

/-- An atomic write makes no directory and loses none. -/
theorem isDir_replaced (htmp : fs.isDir (d ++ ["." ++ name ++ ".tmp"]) = false)
    (hfile : fs.isDir (d ++ [name]) = false) (p : Path) :
    (fs.replaced d name c).isDir p = fs.isDir p := by
  by_cases hp : p = d ++ [name]
  · subst hp
    rw [hfile,FileSystem.replaced,FileSystem.isDir,FileSystem.node_set_self]
    exact decide_eq_false (by simp)
  rw [FileSystem.replaced,FileSystem.isDir_set_of_ne _ _ hp]
  by_cases hpt : p = d ++ ["." ++ name ++ ".tmp"]
  · subst hpt
    rw [htmp,FileSystem.isDir,FileSystem.node_set_self]
    exact decide_eq_false (by simp)
  · simp only [FileSystem.isDir_set_of_ne _ _ hpt]

theorem openAppend_succeeds (hn : IsPlain name) (hd : fs.resolveDir [] (components raw) = some d) :
    (openAppend (raw ++ [name])).Succeeds fs ↔ fs.isDir (d ++ [name]) = false := by
  have hlocate : fs.locate (raw ++ [name]) = some (d ++ [name]) := by
    rw [locate_concat hn,hd]
    rfl
  rw [Prog.Succeeds]
  cases hdir : fs.isDir (d ++ [name]) with
  | true =>
    simp only [Prog.exec,openAppend,hlocate,hdir,Bool.true_or,if_true]
    refine iff_of_false ?_ Bool.noConfusion
    rintro ⟨_,_,h⟩
    cases h
  | false =>
    simp only [Prog.exec,openAppend,hlocate,hdir,endsPlain_concat hn]
    cases fs.fileAt (d ++ [name]) with
    | none => exact iff_of_true ⟨_,_,rfl⟩ trivial
    | some c => exact iff_of_true ⟨_,_,rfl⟩ trivial

theorem openAppend_isDir {q : Path} (h : (openAppend raw).exec fs = .ok (q,fs')) (p : Path) :
    fs'.isDir p = fs.isDir p := by
  obtain ⟨hlocate,hdir,hends,-⟩ := openAppend_spec h
  cases hf : fs.fileAt q with
  | some c =>
    simp only [Prog.exec,openAppend,hlocate,hdir,hends,hf] at h
    rw [← (Prod.mk.inj (Except.ok.inj h)).2]
    rfl
  | none =>
    simp only [Prog.exec,openAppend,hlocate,hdir,hends,hf] at h
    rw [← (Prod.mk.inj (Except.ok.inj h)).2]
    exact isDir_set_file _ hdir p

theorem openAppend_frame : (openAppend raw).Steps (Frame Set.univ) fs := by
  intro t ht
  obtain ⟨p,-,hdir,-,rfl⟩ := visited_openAppend ht
  exact frame_set_file (Set.mem_univ p) hdir

end Resolved

end Disk
