import MidenX402.Disk.Operations
import Mathlib.Data.Set.Insert

/-!
# What an operation leaves alone

A frame names the only files an operation may touch.  It holds in every state the operation passes
through, so it covers crashes and operations that fail halfway.
-/

namespace Disk

section Steps
variable {S ε ε' β γ : Type} {R : S → S → Prop} {s t : S}

/-- Every state that the program passes through is related to the first one. -/
def Prog.Steps (R : S → S → Prop) (x : Prog S ε β) (s : S) : Prop := ∀ t ∈ (x s).visited, R s t

theorem Prog.steps_pure (b : β) : (pure b : Prog S ε β).Steps R s :=
  fun _ ht => absurd ht List.not_mem_nil

theorem Prog.steps_fail (e : ε) : (Prog.fail e : Prog S ε β).Steps R s :=
  fun _ ht => absurd ht List.not_mem_nil

theorem Prog.steps_read (f : S → Except ε β) : (Prog.read f).Steps R s :=
  fun _ ht => absurd ht List.not_mem_nil

theorem Prog.steps_modify {f : S → S} (h : R s (f s)) : (Prog.modify f : Prog S ε Unit).Steps R s := by
  intro t ht
  rw [List.mem_singleton.mp ht]
  exact h

theorem Prog.Steps.mapError {x : Prog S ε β} (h : x.Steps R s) (g : ε → ε') :
    (x.mapError g).Steps R s := h

theorem Prog.Steps.last [Std.Refl R] {x : Prog S ε β} (h : x.Steps R s) : R s ((x s).last s) := by
  rw [Run.last]
  rcases List.eq_nil_or_concat (x s).visited with hv | ⟨ts,t,hv⟩
  · rw [hv]
    exact Std.Refl.refl s
  · rw [List.concat_eq_append] at hv
    rw [hv,List.getLastD_concat]
    apply h t
    rw [hv]
    exact List.mem_append_right _ List.mem_cons_self

theorem Prog.Steps.exec [Std.Refl R] {x : Prog S ε β} {b : β} (h : x.Steps R s)
    (hx : x.exec s = .ok (b,t)) : R s t := by
  obtain ⟨-,rfl⟩ := (Prog.exec_eq_ok_iff x s t b).mp hx
  exact h.last

theorem Prog.Steps.stopped [Std.Refl R] {x : Prog S ε β} {k : ℕ} (h : x.Steps R s)
    (ht : x.stopped k s = some t) : R s t := by
  have hmem := List.mem_of_getElem? (Prog.stopped_eq_some_iff.mp ht).2
  rcases List.mem_cons.mp hmem with rfl | hvisited
  · exact Std.Refl.refl t
  · exact h t hvisited

theorem Prog.Steps.reached [Std.Refl R] {x : Prog S ε β} {k : ℕ} (h : x.Steps R s)
    (ht : x.reached k s = some t) : R s t := by
  rcases List.mem_cons.mp (List.mem_of_getElem? ht) with rfl | hvisited
  · exact Std.Refl.refl t
  · exact h t hvisited

theorem Prog.Steps.failed [Std.Refl R] {x : Prog S ε β} {k : ℕ} (h : x.Steps R s)
    (ht : x.failed k s = some t) : R s t := h.reached (Prog.reached_of_failed ht)

theorem Prog.Steps.imp {R' : S → S → Prop} {x : Prog S ε β} (h : x.Steps R s)
    (himp : ∀ t, R s t → R' s t) : x.Steps R' s := fun t ht => himp t (h t ht)

theorem Prog.Steps.bind [Std.Refl R] [IsTrans S R] {x : Prog S ε β} {f : β → Prog S ε γ}
    (hx : x.Steps R s) (hf : ∀ b t, x.exec s = .ok (b,t) → (f b).Steps R t) :
    (x >>= f).Steps R s := by
  intro u hu
  change u ∈ (Prog.bind x f s).visited at hu
  rw [Prog.bind] at hu
  cases hr : (x s).result with
  | error e =>
    rw [hr] at hu
    exact hx u hu
  | ok b =>
    rw [hr] at hu
    rcases List.mem_append.mp hu with hfirst | hrest
    · exact hx u hfirst
    · have hexec := (Prog.exec_eq_ok_iff x s _ b).mpr ⟨hr,rfl⟩
      exact IsTrans.trans _ _ _ hx.last (hf b _ hexec u hrest)

/-- Every state in which the program can fail is related to the first one. -/
def Prog.Fails (R : S → S → Prop) (x : Prog S ε β) (s : S) : Prop :=
  ∀ k t, x.failed k s = some t → R s t

theorem Prog.Steps.fails [Std.Refl R] {x : Prog S ε β} (h : x.Steps R s) : x.Fails R s :=
  fun _ _ ht => h.failed ht

theorem Prog.Fails.mapError {x : Prog S ε β} (h : x.Fails R s) (g : ε → ε') :
    (x.mapError g).Fails R s := by
  intro k t ht
  apply h k t
  rw [Prog.failed] at ht ⊢
  have hok : ((x.mapError g) s).result.isOk = (x s).result.isOk := by
    rw [Prog.mapError]
    cases (x s).result <;> rfl
  rw [hok] at ht
  exact ht

theorem Prog.Fails.imp {R' : S → S → Prop} {x : Prog S ε β} (h : x.Fails R s)
    (himp : ∀ t, R s t → R' s t) : x.Fails R' s := fun k t ht => himp t (h k t ht)

theorem Prog.Fails.bind [Std.Refl R] [IsTrans S R] {x : Prog S ε β} {f : β → Prog S ε γ}
    (hx : x.Steps R s) (hf : ∀ b t, x.exec s = .ok (b,t) → (f b).Fails R t) :
    (x >>= f).Fails R s := by
  intro k t ht
  rcases Prog.failed_bind ht with hreached | ⟨b,u,j,hexec,hfailed⟩
  · exact hx.reached hreached
  · exact IsTrans.trans _ _ _ (hx.exec hexec) (hf b u hexec j t hfailed)

end Steps

section Frame
variable {α : Type} {S T : Set Path} {fs fs' fs'' : FileSystem α} {p q : Path} {c : α}

/-- Only the files in the set may differ; directories stay. -/
structure Frame (S : Set Path) (fs fs' : FileSystem α) : Prop where
  files : ∀ p, p ∉ S → fs'.fileAt p = fs.fileAt p
  dirs : ∀ p, fs.isDir p = true → fs'.isDir p = true

instance : Std.Refl (Frame S : FileSystem α → FileSystem α → Prop) :=
  ⟨fun _ => ⟨fun _ _ => rfl,fun _ h => h⟩⟩

instance : IsTrans (FileSystem α) (Frame S) :=
  ⟨fun _ _ _ h h' => ⟨fun p hp => (h'.files p hp).trans (h.files p hp),
    fun p hp => h'.dirs p (h.dirs p hp)⟩⟩

theorem Frame.trans (h : Frame S fs fs') (h' : Frame S fs' fs'') : Frame S fs fs'' :=
  IsTrans.trans _ _ _ h h'

theorem Frame.mono (h : Frame S fs fs') (hST : S ⊆ T) : Frame T fs fs' :=
  ⟨fun p hp => h.files p fun hS => hp (hST hS),h.dirs⟩

theorem frame_of_extends (h : Extends fs fs') : Frame S fs fs' := ⟨fun p _ => h.files p,h.dirs⟩

theorem frame_set_file (hp : p ∈ S) (hdir : fs.isDir p = false) :
    Frame S fs (fs.set p (some (.file c))) := by
  refine ⟨?_,?_⟩
  · intro q hq
    rw [FileSystem.fileAt_set,if_neg (ne_of_mem_of_not_mem hp hq).symm]
  · intro q hq
    rw [isDir_set_file c hdir]
    exact hq

/-- A file has moved from one place in the set to another. -/
theorem frame_moved (hp : p ∈ S) (hq : q ∈ S) (hfile : fs.fileAt p = some c)
    (hdir : fs.isDir q = false) : Frame S fs ((fs.set p none).set q (some (.file c))) := by
  have hgone : Frame S fs (fs.set p none) := by
    refine ⟨?_,?_⟩
    · intro r hr
      rw [FileSystem.fileAt_set,if_neg (ne_of_mem_of_not_mem hp hr).symm]
    · intro r hr
      by_cases hrp : r = p
      · subst hrp
        by_cases hroot : r = []
        · subst hroot
          rw [FileSystem.isDir,FileSystem.node_set_self]
          rfl
        · rw [FileSystem.fileAt_eq_none_of_isDir hroot hr] at hfile
          cases hfile
      · rw [FileSystem.isDir_set_of_ne _ _ hrp]
        exact hr
  have hdst : (fs.set p none).isDir q = false := by
    by_cases hqp : q = p
    · subst hqp
      rw [FileSystem.isDir] at hdir ⊢
      rw [FileSystem.node_set_self]
      by_cases hroot : q = []
      · subst hroot
        split at hdir <;> simp at hdir
      · exact decide_eq_false hroot
    · rw [FileSystem.isDir_set_of_ne _ _ hqp]
      exact hdir
  exact hgone.trans (frame_set_file hq hdst)

/-- The file is as it was, or has its new content. -/
def Replaced (p : Path) (c : α) (fs fs' : FileSystem α) : Prop :=
  fs'.fileAt p = fs.fileAt p ∨ fs'.fileAt p = some c

instance : Std.Refl (Replaced p c : FileSystem α → FileSystem α → Prop) := ⟨fun _ => Or.inl rfl⟩

instance : IsTrans (FileSystem α) (Replaced p c) := by
  refine ⟨fun _ _ _ h h' => ?_⟩
  rcases h' with hsame | hnew
  · rcases h with hold | hnew
    · exact Or.inl (hsame.trans hold)
    · exact Or.inr (hsame.trans hnew)
  · exact Or.inr hnew

theorem replaced_of_frame (h : Frame S fs fs') (hp : p ∉ S) : Replaced p c fs fs' :=
  Or.inl (h.files p hp)

/-- Directories are made in the set only. -/
def MadeIn (D : Set Path) (fs fs' : FileSystem α) : Prop :=
  ∀ p, fs'.isDir p = true → fs.isDir p = true ∨ p ∈ D

variable {D D' : Set Path}

instance : Std.Refl (MadeIn D : FileSystem α → FileSystem α → Prop) := ⟨fun _ _ h => Or.inl h⟩

instance : IsTrans (FileSystem α) (MadeIn D) :=
  ⟨fun _ _ _ h h' p hp => (h' p hp).elim (h p) Or.inr⟩

theorem MadeIn.mono (h : MadeIn D fs fs') (hD : D ⊆ D') : MadeIn D' fs fs' :=
  fun p hp => (h p hp).imp_right fun hmem => hD hmem

theorem madeIn_set_file : MadeIn D fs (fs.set p (some (.file c))) := by
  intro q hq
  by_cases hqp : q = p
  · subst hqp
    rw [FileSystem.isDir,FileSystem.node_set_self] at hq
    left
    rw [FileSystem.isDir]
    split
    · rfl
    · exact hq
  · rw [FileSystem.isDir_set_of_ne _ _ hqp] at hq
    exact Or.inl hq

theorem madeIn_moved : MadeIn D fs ((fs.set p none).set q (some (.file c))) := by
  have hgone : MadeIn D fs (fs.set p none) := by
    intro r hr
    by_cases hrp : r = p
    · subst hrp
      rw [FileSystem.isDir,FileSystem.node_set_self] at hr
      left
      rw [FileSystem.isDir]
      split
      · rfl
      · exact hr
    · rw [FileSystem.isDir_set_of_ne _ _ hrp] at hr
      exact Or.inl hr
  exact IsTrans.trans _ _ _ hgone madeIn_set_file

theorem not_isDir_of_madeIn (h : MadeIn D fs fs') (hp : p ∉ D) (hdir : fs.isDir p = false) :
    fs'.isDir p = false := by
  cases hd : fs'.isDir p with
  | false => rfl
  | true =>
    rcases h p hd with hold | hmem
    · rw [hdir] at hold
      cases hold
    · exact absurd hmem hp

end Frame

section Walk

/-- The directories that a list of components leads through. -/
def walk (start : Path) : List String → List Path
  | [] => []
  | s :: rest =>
    if s = ".." then walk start.dropLast rest
    else (start ++ [s]) :: walk (start ++ [s]) rest

theorem walk_append (start : Path) (xs ys : List String) :
    walk start (xs ++ ys) = walk start xs ++ walk (normalize start xs) ys := by
  induction xs generalizing start with
  | nil => rfl
  | cons x xs ih =>
    rw [List.cons_append,walk,walk,normalize,List.foldl_cons]
    split
    · exact ih start.dropLast
    · rw [List.cons_append,ih]
      rfl

theorem walk_singleton {start : Path} {name : String} (h : IsPlain name) :
    walk start [name] = [start ++ [name]] := by
  rw [walk,if_neg h.ne_dots,walk]

theorem ne_nil_of_mem_walk {start p : Path} {comps : List String} (h : p ∈ walk start comps) :
    p ≠ [] := by
  induction comps generalizing start with
  | nil => cases h
  | cons s comps ih =>
    rw [walk] at h
    split at h
    · exact ih h
    · rcases List.mem_cons.mp h with rfl | h
      · exact List.append_ne_nil_of_right_ne_nil start (List.cons_ne_nil s [])
      · exact ih h

/-- Through plain names it leads through their prefixes. -/
theorem walk_plain {start p : Path} {comps : List String} (hp : ∀ s ∈ comps, IsPlain s)
    (h : p ∈ walk start comps) : p <+: start ++ comps := by
  induction comps generalizing start with
  | nil => cases h
  | cons s comps ih =>
    rw [walk,if_neg (hp s List.mem_cons_self).ne_dots] at h
    rw [List.append_cons]
    rcases List.mem_cons.mp h with rfl | h
    · exact List.prefix_append ..
    · exact ih (fun t ht => hp t (List.mem_cons_of_mem s ht)) h

end Walk

section Operations
variable {α : Type} {S : Set Path} {fs fs' : FileSystem α} {p q : Path} {c : α}

theorem makeDir_steps (e : IoError) : (makeDir p e).Steps (Frame S) fs := by
  intro t ht
  have hexec : (makeDir p e).exec fs = .ok ((),t) := by
    cases hn : fs.node p with
    | none =>
      simp only [makeDir,hn] at ht
      rw [List.mem_singleton.mp ht]
      simp only [Prog.exec,makeDir,hn]
      rfl
    | some n =>
      cases n with
      | dir =>
        simp only [makeDir,hn] at ht
        cases ht
      | file c =>
        simp only [makeDir,hn] at ht
        cases ht
  exact frame_of_extends (makeDir_spec hexec).1

theorem createDirAll_steps {start : Path} {comps : List String} :
    (createDirAll start comps).Steps (Frame S) fs := by
  induction comps generalizing start fs with
  | nil => exact Prog.steps_pure start
  | cons s comps ih =>
    rw [createDirAll]
    split
    · exact ih
    · exact (makeDir_steps _).bind fun _ _ _ => ih

theorem makeDir_made {D : Set Path} (e : IoError) (hp : p ∈ D) : (makeDir p e).Steps (MadeIn D) fs := by
  intro t ht q hq
  cases hn : fs.node p with
  | none =>
    simp only [makeDir,hn] at ht
    rw [List.mem_singleton.mp ht] at hq
    by_cases hqp : q = p
    · rw [hqp]
      exact Or.inr hp
    · rw [FileSystem.isDir_set_of_ne _ _ hqp] at hq
      exact Or.inl hq
  | some n =>
    cases n with
    | dir =>
      simp only [makeDir,hn] at ht
      cases ht
    | file c =>
      simp only [makeDir,hn] at ht
      cases ht

theorem createDirAll_made {start : Path} {comps : List String} :
    (createDirAll start comps).Steps (MadeIn {p | p ∈ walk start comps}) fs := by
  induction comps generalizing start fs with
  | nil => exact Prog.steps_pure start
  | cons s comps ih =>
    rw [createDirAll,walk]
    split
    · exact ih
    · have hmake : (makeDir (start ++ [s]) (if comps = [] then .alreadyExists else .notADirectory)).Steps
          (MadeIn {p | p ∈ (start ++ [s]) :: walk (start ++ [s]) comps}) fs :=
        makeDir_made _ List.mem_cons_self
      refine hmake.bind fun _ _ _ => ih.imp fun t ht => ht.mono ?_
      exact fun p hp => List.mem_cons_of_mem _ hp

theorem renameFile_made {D : Set Path} : (renameFile p q).Steps (MadeIn D) fs := by
  intro t ht
  obtain ⟨c,-,-,rfl⟩ := visited_renameFile ht
  exact madeIn_moved

theorem renameFile_steps (hp : p ∈ S) (hq : q ∈ S) : (renameFile p q).Steps (Frame S) fs := by
  intro t ht
  obtain ⟨c,hc,hd,rfl⟩ := visited_renameFile ht
  exact frame_moved hp hq hc hd

variable [Contents α]

theorem writeFile_steps (hp : p ∈ S) (hdir : fs.isDir p = false) :
    (writeFile p c).Steps (Frame S) fs := by
  apply Prog.Steps.bind
  · exact Prog.steps_modify (frame_set_file hp hdir)
  · intro _ t ht
    obtain rfl := (Prod.mk.inj (Except.ok.inj ht)).2
    exact Prog.steps_modify (frame_set_file hp ((isDir_set_file _ hdir p).trans hdir))

theorem writeFile_made {D : Set Path} : (writeFile p c).Steps (MadeIn D) fs :=
  (Prog.steps_modify madeIn_set_file).bind fun _ _ _ => Prog.steps_modify madeIn_set_file

theorem createFile_steps (hp : p ∈ S) : (createFile p).Steps (Frame S) fs := by
  intro t ht
  obtain ⟨hd,rfl⟩ := visited_createFile ht
  exact frame_set_file hp hd

/-- The part of an atomic write that follows once its directory exists. -/
theorem writeBeside_steps {raw : List String} {tmp : Path} (htmp : tmp ∈ S) (hp : p ∈ S) :
    (do createFile tmp
        writeFile tmp c
        if FileSystem.endsPlain raw then renameFile tmp p else Prog.fail .notADirectory :
      Prog (FileSystem α) IoError Unit).Steps (Frame S) fs := by
  apply (createFile_steps htmp).bind
  intro _ fs1 hcreate
  obtain ⟨hnot,rfl⟩ := createFile_spec hcreate
  apply (writeFile_steps htmp ((isDir_set_file _ hnot _).trans hnot)).bind
  intro _ fs2 _
  split
  · exact renameFile_steps htmp hp
  · exact Prog.steps_fail _

/-- Apart from temporary files, a file is as before, or is one of those written and has its new
content. -/
structure Puts (S T : Set Path) (c : α) (fs fs' : FileSystem α) : Prop where
  files : ∀ p, p ∉ T → fs'.fileAt p = fs.fileAt p ∨ p ∈ S ∧ fs'.fileAt p = some c
  dirs : ∀ p, fs.isDir p = true → fs'.isDir p = true

instance : Std.Refl (Puts S T c : FileSystem α → FileSystem α → Prop) :=
  ⟨fun _ => ⟨fun _ _ => Or.inl rfl,fun _ h => h⟩⟩

instance : IsTrans (FileSystem α) (Puts S T c) := by
  refine ⟨fun _ _ _ h h' => ⟨?_,fun p hp => h'.dirs p (h.dirs p hp)⟩⟩
  intro p hp
  rcases h'.files p hp with hsame | hnew
  · rw [hsame]
    exact h.files p hp
  · exact Or.inr hnew

omit [Contents α] in
theorem Puts.mono {S' T' : Set Path} (h : Puts S T c fs fs') (hS : S ⊆ S') (hT : T ⊆ T') :
    Puts S' T' c fs fs' :=
  ⟨fun p hp => (h.files p fun hmem => hp (hT hmem)).imp_right (And.imp_left fun hmem => hS hmem),h.dirs⟩

omit [Contents α] in
theorem puts_of_frame (h : Frame T fs fs') : Puts S T c fs fs' :=
  ⟨fun p hp => Or.inl (h.files p hp),h.dirs⟩

omit [Contents α] in
theorem Puts.frame (h : Puts S T c fs fs') : Frame (S ∪ T) fs fs' := by
  refine ⟨?_,h.dirs⟩
  intro p hp
  rcases h.files p fun hT => hp (Or.inr hT) with hsame | ⟨hS,-⟩
  · exact hsame
  · exact absurd (Or.inl hS) hp

/-- Every state an atomic write passes through, wherever its path leads. -/
theorem atomicWrite_puts {raw : List String} :
    (atomicWrite raw c).Steps (Puts {p | target raw = some p} {staging raw} c) fs := by
  rw [atomicWrite]
  split
  · exact Prog.steps_fail _
  have hmake : (createDirAll [] (components raw).dropLast).Steps
      (Puts {p | target raw = some p} {staging raw} c) fs :=
    createDirAll_steps.imp fun _ ht => puts_of_frame ht
  apply hmake.bind
  intro dir fs1 hdir
  obtain ⟨rfl,-,-⟩ := createDirAll_spec hdir
  have hcreate : (createFile (staging raw)).Steps
      (Puts {p | target raw = some p} {staging raw} c) fs1 :=
    (createFile_steps (Set.mem_singleton _)).imp fun _ ht => puts_of_frame ht
  apply hcreate.bind
  intro _ fs2 hcreated
  obtain ⟨hnot,rfl⟩ := createFile_spec hcreated
  have hfile : (fs1.set (staging raw) (some (.file Contents.empty))).isDir (staging raw) = false :=
    (isDir_set_file _ hnot _).trans hnot
  have hwrite : (writeFile (staging raw) c).Steps (Puts {p | target raw = some p} {staging raw} c)
      (fs1.set (staging raw) (some (.file Contents.empty))) :=
    (writeFile_steps (Set.mem_singleton _) hfile).imp fun _ ht => puts_of_frame ht
  apply hwrite.bind
  intro _ fs3 hexec
  rw [exec_writeFile] at hexec
  obtain ⟨-,rfl⟩ := Prod.mk.inj (Except.ok.inj hexec)
  cases hname : fileName raw with
  | none => exact Prog.steps_fail _
  | some name =>
    dsimp only
    split
    · intro t ht
      rw [show normalize [] (components raw).dropLast ++
        ["." ++ (some name).getD "write" ++ ".tmp"] = staging raw by rw [staging,hname]] at ht
      obtain ⟨c',hc',hdir',rfl⟩ := visited_renameFile ht
      obtain rfl : c' = c := by
        rw [FileSystem.fileAt_set,if_pos rfl] at hc'
        exact (Option.some.inj hc').symm
      have hplace : target raw = some (normalize [] (components raw).dropLast ++ [name]) := by
        rw [target,hname]
        rfl
      refine ⟨?_,(frame_moved (S := Set.univ) trivial trivial hc' hdir').dirs⟩
      intro p hp
      rw [Set.mem_singleton_iff] at hp
      by_cases hpt : p = normalize [] (components raw).dropLast ++ [name]
      · right
        rw [FileSystem.fileAt_set,if_pos hpt,hpt]
        exact ⟨hplace,rfl⟩
      · left
        rw [FileSystem.fileAt_set,if_neg hpt,FileSystem.fileAt_set,if_neg hp]
    · exact Prog.steps_fail _

omit [Contents α] in
theorem renameFile_fails {R : FileSystem α → FileSystem α → Prop} [Std.Refl R] :
    (renameFile p q : Prog (FileSystem α) IoError Unit).Fails R fs := by
  intro k t ht
  have hreached := Prog.reached_of_failed ht
  rw [Prog.failed] at ht
  split at ht
  · rename_i hfails
    cases hc : fs.fileAt p with
    | none =>
      simp only [Prog.reached,renameFile,hc,Prog.fail] at hreached
      cases k with
      | zero => exact Option.some.inj hreached ▸ Std.Refl.refl fs
      | succ k => cases hreached
    | some c =>
      by_cases hd : fs.isDir q = true
      · simp only [Prog.reached,renameFile,hc,hd,if_true,Prog.fail] at hreached
        cases k with
        | zero => exact Option.some.inj hreached ▸ Std.Refl.refl fs
        | succ k => cases hreached
      · simp only [renameFile,hc,hd,Bool.false_eq_true,if_false,Prog.modify,List.length_singleton] at hfails
        obtain rfl : k = 0 := by
          rcases hfails with hlt | hok
          · omega
          · cases hok
        exact Option.some.inj hreached ▸ Std.Refl.refl fs
  · cases ht

/-- A write that fails has changed no file but the temporary one. -/
theorem atomicWrite_fails {raw : List String} :
    (atomicWrite raw c).Fails (Frame {staging raw}) fs := by
  rw [atomicWrite]
  split
  · exact (Prog.steps_fail _).fails
  apply Prog.Fails.bind createDirAll_steps
  intro dir fs1 hdir
  obtain ⟨rfl,-,-⟩ := createDirAll_spec hdir
  have hcreate : (createFile (staging raw)).Steps (Frame {staging raw}) fs1 :=
    createFile_steps (Set.mem_singleton _)
  apply Prog.Fails.bind hcreate
  intro _ fs2 hcreated
  obtain ⟨hnot,rfl⟩ := createFile_spec hcreated
  have hwrite : (writeFile (staging raw) c).Steps (Frame {staging raw})
      (fs1.set (staging raw) (some (.file Contents.empty))) :=
    writeFile_steps (Set.mem_singleton _) ((isDir_set_file _ hnot _).trans hnot)
  apply Prog.Fails.bind hwrite
  intro _ fs3 _
  cases fileName raw with
  | none => exact (Prog.steps_fail _).fails
  | some name =>
    dsimp only
    split
    · exact renameFile_fails
    · exact (Prog.steps_fail _).fails

/-- An atomic write that succeeds has put its file in place and left no temporary one. -/
theorem atomicWrite_leaves {raw : List String} {u : Unit}
    (h : (atomicWrite raw c).exec fs = .ok (u,fs')) : fs'.fileAt (staging raw) = none ∧
      ∃ p, target raw = some p ∧ fs'.fileAt p = some c := by
  obtain ⟨name,hname,hw⟩ := atomicWrite_spec h
  refine ⟨?_,_,?_,hw.self⟩
  · rw [staging,hname]
    exact hw.tmp
  · rw [target,hname]
    rfl

/-- The directory of a file that was written exists. -/
theorem atomicWrite_resolves {raw : List String} {u : Unit}
    (h : (atomicWrite raw c).exec fs = .ok (u,fs')) :
    fs'.resolveDir [] (components raw).dropLast = some (normalize [] (components raw).dropLast) := by
  obtain ⟨name,hname,-⟩ := atomicWrite_spec h
  rw [atomicWrite] at h
  split at h
  · cases h
  obtain ⟨dir,fs1,hdir,h⟩ := Prog.exec_bind_eq_ok h
  obtain ⟨rfl,hres,-⟩ := createDirAll_spec hdir
  simp only [hname,Option.getD_some] at h
  have hframe : Frame Set.univ fs1 fs' :=
    (writeBeside_steps (Set.mem_univ _) (Set.mem_univ _)).exec h
  exact resolveDir_mono hframe.dirs hres

/-- On the way the temporary file was first empty and then half written. -/
theorem atomicWrite_visits {raw : List String} {u : Unit}
    (h : (atomicWrite raw c).exec fs = .ok (u,fs')) :
    (∃ t ∈ (atomicWrite raw c fs).visited, t.fileAt (staging raw) = some Contents.empty) ∧
      ∃ t ∈ (atomicWrite raw c fs).visited, t.fileAt (staging raw) = some Contents.torn := by
  rw [atomicWrite] at h ⊢
  split at h
  · cases h
  rename_i hne
  rw [if_neg hne]
  obtain ⟨dir,fs1,hdir,h⟩ := Prog.exec_bind_eq_ok h
  obtain ⟨rfl,-,-⟩ := createDirAll_spec hdir
  obtain ⟨_,fs2,hcreate,-⟩ := Prog.exec_bind_eq_ok h
  obtain ⟨hnot,rfl⟩ := createFile_spec hcreate
  constructor
  · refine ⟨fs1.set (staging raw) (some (.file Contents.empty)),?_,?_⟩
    · apply Prog.mem_visited_bind_right hdir
      apply Prog.mem_visited_bind_left
      rw [createFile,if_neg (by rw [hnot]; exact Bool.false_ne_true)]
      exact List.mem_singleton.mpr rfl
    · rw [FileSystem.fileAt_set,if_pos rfl]
  · refine ⟨(fs1.set (staging raw) (some (.file Contents.empty))).set (staging raw)
      (some (.file Contents.torn)),?_,?_⟩
    · apply Prog.mem_visited_bind_right hdir
      apply Prog.mem_visited_bind_right hcreate
      apply Prog.mem_visited_bind_left
      exact List.mem_cons_self
    · rw [FileSystem.fileAt_set,if_pos rfl]

/-- An atomic write touches its file and the temporary file beside it. -/
theorem atomicWrite_frame {raw : List String} (htmp : staging raw ∈ S)
    (htarget : ∀ p, target raw = some p → p ∈ S) : (atomicWrite raw c).Steps (Frame S) fs := by
  refine atomicWrite_puts.imp fun t ht => ht.frame.mono ?_
  rintro p (hp | rfl)
  · exact htarget p hp
  · exact htmp

/-- The directories an atomic write makes lie on the way to its file. -/
theorem atomicWrite_made {raw : List String} :
    (atomicWrite raw c).Steps (MadeIn {p | p ∈ walk [] (components raw).dropLast}) fs := by
  rw [atomicWrite]
  split
  · exact Prog.steps_fail _
  apply createDirAll_made.bind
  intro dir fs1 _
  refine Prog.Steps.bind (fun t ht => ?_) fun _ fs2 _ => ?_
  · obtain ⟨-,rfl⟩ := visited_createFile ht
    exact madeIn_set_file
  refine writeFile_made.bind fun _ fs3 _ => ?_
  cases fileName raw with
  | none => exact Prog.steps_fail _
  | some name =>
    dsimp only
    split
    · exact renameFile_made
    · exact Prog.steps_fail _

section Name
variable {raw : List String} {name : String} (hn : IsPlain name)
include hn

omit [Contents α] in
theorem staging_concat : staging (raw ++ [name]) = resolved raw ++ ["." ++ name ++ ".tmp"] := by
  rw [staging,components_concat hn,List.dropLast_concat,fileName_concat hn,Option.getD_some]
  rfl

omit [Contents α] in
theorem target_concat : target (raw ++ [name]) = some (resolved raw ++ [name]) := by
  rw [target,components_concat hn,List.dropLast_concat,fileName_concat hn,Option.map_some]
  rfl

theorem atomicWrite_steps (hfile : resolved raw ++ [name] ∈ S)
    (htmp : resolved raw ++ ["." ++ name ++ ".tmp"] ∈ S) :
    (atomicWrite (raw ++ [name]) c).Steps (Frame S) fs := by
  apply atomicWrite_frame
  · rw [staging_concat hn]
    exact htmp
  · intro q hq
    rw [target_concat hn] at hq
    exact Option.some.inj hq ▸ hfile

theorem atomicWrite_concat_resolves {u : Unit}
    (h : (atomicWrite (raw ++ [name]) c).exec fs = .ok (u,fs')) :
    fs'.resolveDir [] (components raw) = some (resolved raw) := by
  have hdir := atomicWrite_resolves h
  rw [components_concat hn,List.dropLast_concat] at hdir
  exact hdir

/-- Wherever an atomic write is stopped, the file is as before or complete. -/
theorem atomicWrite_replaced :
    (atomicWrite (raw ++ [name]) c).Steps (Replaced (resolved raw ++ [name]) c) fs := by
  refine atomicWrite_puts.imp fun t ht => ?_
  have hne : resolved raw ++ [name] ≠ staging (raw ++ [name]) := by
    rw [staging_concat hn]
    exact (tmp_ne _ name).symm
  exact (ht.files _ hne).imp_right And.right

theorem openAppend_steps (hfile : resolved raw ++ [name] ∈ S) :
    (openAppend (raw ++ [name])).Steps (Frame S) fs := by
  intro t ht
  obtain ⟨q,hl,hd,-,rfl⟩ := visited_openAppend ht
  have hq : q = resolved raw ++ [name] := by
    rw [locate_concat hn] at hl
    obtain ⟨d,hres,rfl⟩ := Option.map_eq_some_iff.mp hl
    rw [resolveDir_eq_normalize hres]
    rfl
  exact frame_set_file (hq ▸ hfile) hd

end Name

theorem openAppend_made {D : Set Path} {raw : List String} : (openAppend raw).Steps (MadeIn D) fs := by
  intro t ht
  obtain ⟨q,-,-,-,rfl⟩ := visited_openAppend ht
  exact madeIn_set_file

end Operations

end Disk
