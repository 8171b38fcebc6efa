import MidenX402.Disk.FileSystem

/-!
# Durable file operations

Each operation passes through the states a crash can leave behind.  What callers rely on is stated
once per operation: the files before and after a successful run, and that directories stay.
-/

namespace Disk

inductive IoError where
  | notFound
  | busy
  | alreadyExists
  | notADirectory
  | isADirectory
  | noParent
deriving DecidableEq

/-- File contents with an empty file, and a file of which only a part was written. -/
class Contents (α : Type) where
  empty : α
  torn : α

section Operations
variable {α : Type} [Contents α]

def putFile (p : Path) (c : α) : Prog (FileSystem α) IoError Unit :=
  Prog.modify fun fs : FileSystem α => fs.set p (some (.file c))

/-- Make a directory unless it is there; `e` is the error when a file is in its place. -/
def makeDir (p : Path) (e : IoError) : Prog (FileSystem α) IoError Unit := fun fs =>
  match fs.node p with
  | some .dir => (pure () : Prog _ _ _) fs
  | some (.file _) => Prog.fail e fs
  | none => Prog.modify (fun fs : FileSystem α => fs.set p (some .dir)) fs

/-- `fs::create_dir_all`, from a directory that exists. -/
def createDirAll (start : Path) : List String → Prog (FileSystem α) IoError Path
  | [] => pure start
  | s :: rest =>
    if s = ".." then createDirAll start.dropLast rest
    else do
      makeDir (start ++ [s]) (if rest = [] then .alreadyExists else .notADirectory)
      createDirAll (start ++ [s]) rest

/-- `File::create`: an empty file in place of whatever file was there. -/
def createFile (p : Path) : Prog (FileSystem α) IoError Unit := fun fs =>
  if fs.isDir p then Prog.fail .isADirectory fs else putFile p Contents.empty fs

/-- A write through an open file, of which a crash may leave a part. -/
def writeFile (p : Path) (c : α) : Prog (FileSystem α) IoError Unit := do
  putFile p Contents.torn
  putFile p c

def renameFile (src dst : Path) : Prog (FileSystem α) IoError Unit := fun fs =>
  match fs.fileAt src with
  | none => Prog.fail .notFound fs
  | some c =>
    if fs.isDir dst then Prog.fail .isADirectory fs
    else Prog.modify (fun fs : FileSystem α => (fs.set src none).set dst (some (.file c))) fs

/-- Write a file beside its place and move it there. -/
def atomicWrite (raw : List String) (c : α) : Prog (FileSystem α) IoError Unit :=
  if components raw = [] then Prog.fail .noParent
  else do
    let dir ← createDirAll [] (components raw).dropLast
    let tmp := dir ++ ["." ++ (fileName raw).getD "write" ++ ".tmp"]
    createFile tmp
    writeFile tmp c
    match fileName raw with
    | some name =>
      if FileSystem.endsPlain raw then renameFile tmp (dir ++ [name])
      else Prog.fail .notADirectory
    | none => Prog.fail .busy

/-- Open a file for appending, creating it when it is missing. -/
def openAppend (raw : List String) : Prog (FileSystem α) IoError Path := fun fs =>
  match fs.locate raw with
  | none => Prog.fail .notFound fs
  | some p =>
    if fs.isDir p || !FileSystem.endsPlain raw then Prog.fail .isADirectory fs
    else match fs.fileAt p with
      | some _ => (pure p : Prog _ _ _) fs
      | none => (do
          putFile p Contents.empty
          pure p : Prog _ _ _) fs

/-- `fs::rename` of a file. -/
def rename (src dst : List String) : Prog (FileSystem α) IoError Unit := fun fs =>
  match fs.locate src, fs.locate dst with
  | some p, some q =>
    if FileSystem.endsPlain src && FileSystem.endsPlain dst then renameFile p q fs
    else Prog.fail .notADirectory fs
  | _, _ => Prog.fail .notFound fs

end Operations

section Specs
variable {α : Type}

/-- Where a list of components leads when all of it exists. -/
def normalize (start : Path) (comps : List String) : Path :=
  comps.foldl (fun p s => if s = ".." then p.dropLast else p ++ [s]) start

theorem normalize_of_plain (start : Path) {comps : List String} (h : ∀ s ∈ comps, IsPlain s) :
    normalize start comps = start ++ comps := by
  induction comps generalizing start with
  | nil => exact (List.append_nil start).symm
  | cons s comps ih =>
    rw [normalize,List.foldl_cons,if_neg (h s List.mem_cons_self).ne_dots]
    change normalize (start ++ [s]) comps = _
    rw [ih _ fun t ht => h t (List.mem_cons_of_mem _ ht),List.append_assoc,List.singleton_append]

theorem normalize_append (start : Path) (xs ys : List String) :
    normalize start (xs ++ ys) = normalize (normalize start xs) ys := List.foldl_append ..

/-- Where an atomic write puts its temporary file. -/
def staging (raw : List String) : Path :=
  normalize [] (components raw).dropLast ++ ["." ++ (fileName raw).getD "write" ++ ".tmp"]

/-- Where it moves the file. -/
def target (raw : List String) : Option Path :=
  (fileName raw).map fun name => normalize [] (components raw).dropLast ++ [name]

/-- The files are the same and no directory is lost. -/
structure Extends (fs fs' : FileSystem α) : Prop where
  files : ∀ p, fs'.fileAt p = fs.fileAt p
  dirs : ∀ p, fs.isDir p = true → fs'.isDir p = true

theorem Extends.rfl {fs : FileSystem α} : Extends fs fs := ⟨fun _ => Eq.refl _,fun _ h => h⟩

theorem Extends.trans {fs fs' fs'' : FileSystem α} (h : Extends fs fs') (h' : Extends fs' fs'') :
    Extends fs fs'' :=
  ⟨fun p => (h'.files p).trans (h.files p),fun p hp => h'.dirs p (h.dirs p hp)⟩

theorem isDir_set_file {fs : FileSystem α} {p : Path} (c : α) (hp : fs.isDir p = false) (q : Path) :
    (fs.set p (some (.file c))).isDir q = fs.isDir q := by
  by_cases hq : q = p
  · subst hq
    have hne : q ≠ [] := by
      rintro rfl
      rw [FileSystem.isDir] at hp
      split at hp <;> simp at hp
    rw [hp,FileSystem.isDir,FileSystem.node_set_self]
    exact decide_eq_false hne
  · exact FileSystem.isDir_set_of_ne fs _ hq

theorem makeDir_spec {p : Path} {e : IoError} {fs fs' : FileSystem α} {u : Unit}
    (h : (makeDir p e).exec fs = .ok (u,fs')) : Extends fs fs' ∧ fs'.isDir p = true := by
  cases hn : fs.node p with
  | none =>
    simp only [Prog.exec,makeDir,hn] at h
    have hfs : fs.set p (some .dir) = fs' := (Prod.mk.inj (Except.ok.inj h)).2
    subst hfs
    refine ⟨⟨?_,fun q hq => FileSystem.isDir_set_dir fs hq⟩,?_⟩
    · intro q
      rw [FileSystem.fileAt_set]
      split
      · rename_i hq
        rw [hq,FileSystem.fileAt,hn]
      · rfl
    · rw [FileSystem.isDir,FileSystem.node_set_self]
  | some n =>
    cases n with
    | dir =>
      simp only [Prog.exec,makeDir,hn] at h
      have hfs : fs = fs' := (Prod.mk.inj (Except.ok.inj h)).2
      subst hfs
      refine ⟨Extends.rfl,?_⟩
      rw [FileSystem.isDir,hn]
    | file c =>
      simp only [Prog.exec,makeDir,hn] at h
      cases h

/-- A directory found once is found again as long as no directory is lost. -/
theorem resolveDir_mono {fs fs' : FileSystem α}
    (hdirs : ∀ p, fs.isDir p = true → fs'.isDir p = true) {start : Path} {comps : List String}
    {d : Path} (h : fs.resolveDir start comps = some d) : fs'.resolveDir start comps = some d := by
  induction comps generalizing start with
  | nil => exact h
  | cons s comps ih =>
    rw [FileSystem.resolveDir] at h ⊢
    split
    · rename_i hs
      rw [if_pos hs] at h
      exact ih h
    · rename_i hs
      rw [if_neg hs] at h
      split at h
      · rename_i hd
        rw [if_pos (hdirs _ hd)]
        exact ih h
      · cases h

theorem resolveDir_eq_normalize {fs : FileSystem α} {start : Path} {comps : List String} {d : Path}
    (h : fs.resolveDir start comps = some d) : d = normalize start comps := by
  induction comps generalizing start with
  | nil => exact (Option.some.inj h).symm
  | cons s comps ih =>
    rw [FileSystem.resolveDir] at h
    rw [normalize,List.foldl_cons]
    split at h
    · rename_i hs
      rw [if_pos hs]
      exact ih h
    · rename_i hs
      rw [if_neg hs]
      split at h
      · exact ih h
      · cases h

theorem resolveDir_append (fs : FileSystem α) (start : Path) (xs ys : List String) :
    fs.resolveDir start (xs ++ ys) =
      (fs.resolveDir start xs).bind fun d => fs.resolveDir d ys := by
  induction xs generalizing start with
  | nil => rfl
  | cons x xs ih =>
    rw [List.cons_append,FileSystem.resolveDir,FileSystem.resolveDir]
    split
    · exact ih _
    · split
      · exact ih _
      · rfl

theorem createDirAll_spec {start : Path} {comps : List String} {fs fs' : FileSystem α} {dir : Path}
    (h : (createDirAll start comps).exec fs = .ok (dir,fs')) :
    dir = normalize start comps ∧ fs'.resolveDir start comps = some dir ∧ Extends fs fs' := by
  induction comps generalizing start fs with
  | nil =>
    rw [createDirAll,Prog.exec_pure] at h
    obtain ⟨rfl,rfl⟩ := Prod.mk.inj (Except.ok.inj h)
    exact ⟨rfl,rfl,Extends.rfl⟩
  | cons s comps ih =>
    rw [createDirAll] at h
    by_cases hs : s = ".."
    · rw [if_pos hs] at h
      rw [normalize,List.foldl_cons,if_pos hs,FileSystem.resolveDir,if_pos hs]
      exact ih h
    · rw [if_neg hs] at h
      rw [normalize,List.foldl_cons,if_neg hs,FileSystem.resolveDir,if_neg hs]
      obtain ⟨u,fs1,hmake,hrest⟩ := Prog.exec_bind_eq_ok h
      obtain ⟨hext,hmade⟩ := makeDir_spec hmake
      obtain ⟨hdir,hres,hext'⟩ := ih hrest
      rw [if_pos (hext'.dirs _ hmade)]
      exact ⟨hdir,hres,hext.trans hext'⟩

/-- What a successful atomic write leaves: the file in its place, the temporary file gone, every
other file as it was. -/
structure Written (fs fs' : FileSystem α) (dir : Path) (name : String) (c : α) : Prop where
  self : fs'.fileAt (dir ++ [name]) = some c
  others : ∀ p, p ≠ dir ++ [name] → p ≠ dir ++ ["." ++ name ++ ".tmp"] → fs'.fileAt p = fs.fileAt p
  tmp : fs'.fileAt (dir ++ ["." ++ name ++ ".tmp"]) = none
  dirs : ∀ p, fs.isDir p = true → fs'.isDir p = true

theorem createFile_spec [Contents α] {p : Path} {fs fs' : FileSystem α} {u : Unit}
    (h : (createFile p).exec fs = .ok (u,fs')) :
    fs.isDir p = false ∧ fs' = fs.set p (some (.file Contents.empty)) := by
  cases hd : fs.isDir p with
  | true =>
    simp only [Prog.exec,createFile,hd,if_true] at h
    cases h
  | false =>
    simp only [Prog.exec,createFile,hd,Bool.false_eq_true,if_false] at h
    exact ⟨rfl,(Prod.mk.inj (Except.ok.inj h)).2.symm⟩

theorem exec_writeFile [Contents α] (p : Path) (c : α) (fs : FileSystem α) :
    (writeFile p c).exec fs =
      .ok ((),(fs.set p (some (.file Contents.torn))).set p (some (.file c))) := rfl

theorem renameFile_spec {src dst : Path} {fs fs' : FileSystem α} {u : Unit}
    (h : (renameFile src dst).exec fs = .ok (u,fs')) : ∃ c, fs.fileAt src = some c ∧
      fs.isDir dst = false ∧ fs' = (fs.set src none).set dst (some (.file c)) := by
  cases hc : fs.fileAt src with
  | none =>
    simp only [Prog.exec,renameFile,hc] at h
    cases h
  | some c =>
    cases hd : fs.isDir dst with
    | true =>
      simp only [Prog.exec,renameFile,hc,hd,if_true] at h
      cases h
    | false =>
      simp only [Prog.exec,renameFile,hc,hd,Bool.false_eq_true,if_false] at h
      exact ⟨c,rfl,rfl,(Prod.mk.inj (Except.ok.inj h)).2.symm⟩

theorem tmp_ne (dir : Path) (name : String) : dir ++ ["." ++ name ++ ".tmp"] ≠ dir ++ [name] := by
  intro h
  have hname := List.singleton_inj.mp (List.append_cancel_left h)
  have hlen := congrArg String.length hname
  simp only [String.length_append] at hlen
  have hdot : ".".length = 1 := rfl
  omega

/-- What an atomic write leaves once the file is written beside its place and moved there. -/
theorem written_of_rename [Contents α] {dir : Path} {name : String} {c : α}
    {fs fs1 fs' : FileSystem α} (hext : Extends fs fs1)
    (htmp : fs1.isDir (dir ++ ["." ++ name ++ ".tmp"]) = false)
    {u : Unit} (h : (renameFile (dir ++ ["." ++ name ++ ".tmp"]) (dir ++ [name])).exec
      (((fs1.set (dir ++ ["." ++ name ++ ".tmp"]) (some (.file Contents.empty))).set
        (dir ++ ["." ++ name ++ ".tmp"]) (some (.file Contents.torn))).set
          (dir ++ ["." ++ name ++ ".tmp"]) (some (.file c))) = .ok (u,fs')) :
    Written fs fs' dir name c := by
  set tmp := dir ++ ["." ++ name ++ ".tmp"] with htmpdef
  obtain ⟨c',hc',hdst,rfl⟩ := renameFile_spec h
  rw [FileSystem.fileAt_set,if_pos rfl] at hc'
  obtain rfl : c = c' := Option.some.inj hc'
  refine ⟨?_,?_,?_,?_⟩
  · rw [FileSystem.fileAt_set,if_pos rfl]
  · intro p hp hp'
    rw [← htmpdef] at hp'
    simp only [FileSystem.fileAt_set,if_neg hp,if_neg hp',hext.files]
  · rw [← htmpdef,FileSystem.fileAt_set,if_neg (tmp_ne dir name),FileSystem.fileAt_set,if_pos rfl]
  · intro p hp
    have hpt : p ≠ tmp := by
      rintro rfl
      rw [hext.dirs _ hp] at htmp
      cases htmp
    have hpd : p ≠ dir ++ [name] := by
      rintro rfl
      rw [FileSystem.isDir_set_of_ne _ _ hpt,FileSystem.isDir_set_of_ne _ _ hpt,
        FileSystem.isDir_set_of_ne _ _ hpt,hext.dirs _ hp] at hdst
      cases hdst
    rw [FileSystem.isDir_set_of_ne _ _ hpd,FileSystem.isDir_set_of_ne _ _ hpt,
      FileSystem.isDir_set_of_ne _ _ hpt,FileSystem.isDir_set_of_ne _ _ hpt,
      FileSystem.isDir_set_of_ne _ _ hpt]
    exact hext.dirs p hp

theorem atomicWrite_spec [Contents α] {raw : List String} {c : α} {fs fs' : FileSystem α} {u : Unit}
    (h : (atomicWrite raw c).exec fs = .ok (u,fs')) :
    ∃ name, fileName raw = some name ∧
      Written fs fs' (normalize [] (components raw).dropLast) name c := by
  rw [atomicWrite] at h
  split at h
  · cases h
  obtain ⟨dir,fs1,hdir,h⟩ := Prog.exec_bind_eq_ok h
  obtain ⟨rfl,-,hext⟩ := createDirAll_spec hdir
  obtain ⟨_,fs2,hcreate,h⟩ := Prog.exec_bind_eq_ok h
  obtain ⟨_,fs3,hwrite,h⟩ := Prog.exec_bind_eq_ok h
  obtain ⟨htmp,rfl⟩ := createFile_spec hcreate
  rw [exec_writeFile] at hwrite
  obtain rfl := (Prod.mk.inj (Except.ok.inj hwrite)).2
  cases hname : fileName raw with
  | none =>
    rw [hname] at h
    cases h
  | some name =>
    simp only [hname,Option.getD_some] at h htmp
    split at h
    · exact ⟨name,rfl,written_of_rename hext htmp h⟩
    · cases h

theorem FileSystem.isDir_nil (fs : FileSystem α) : fs.isDir [] = true := by
  rw [isDir]
  split <;> rfl

theorem openAppend_spec [Contents α] {raw : List String} {fs fs' : FileSystem α} {p : Path}
    (h : (openAppend raw).exec fs = .ok (p,fs')) : fs.locate raw = some p ∧
      fs.isDir p = false ∧ FileSystem.endsPlain raw = true ∧
      fs'.fileAt p = some ((fs.fileAt p).getD Contents.empty) ∧
      (∀ q, q ≠ p → fs'.fileAt q = fs.fileAt q) ∧ ∀ q, fs.isDir q = true → fs'.isDir q = true := by
  cases hl : fs.locate raw with
  | none =>
    simp only [Prog.exec,openAppend,hl] at h
    cases h
  | some q =>
    by_cases hbad : (fs.isDir q || !FileSystem.endsPlain raw) = true
    · simp only [Prog.exec,openAppend,hl,hbad,if_true] at h
      cases h
    · have hgood : fs.isDir q = false ∧ FileSystem.endsPlain raw = true := by
        simpa using hbad
      cases hf : fs.fileAt q with
      | some c =>
        simp only [Prog.exec,openAppend,hl,hbad,Bool.false_eq_true,if_false,hf] at h
        obtain ⟨rfl,rfl⟩ := Prod.mk.inj (Except.ok.inj h)
        refine ⟨rfl,hgood.1,hgood.2,?_,fun _ _ => rfl,fun _ hd => hd⟩
        rw [hf]
        exact hf
      | none =>
        simp only [Prog.exec,openAppend,hl,hbad,Bool.false_eq_true,if_false,hf] at h
        obtain ⟨rfl,rfl⟩ := Prod.mk.inj (Except.ok.inj h)
        refine ⟨rfl,hgood.1,hgood.2,?_,?_,?_⟩
        · rw [hf]
          exact (FileSystem.fileAt_set ..).trans (if_pos rfl)
        · intro q' hq'
          exact (FileSystem.fileAt_set ..).trans (if_neg hq')
        · intro q' hq'
          exact (isDir_set_file _ hgood.1 q').trans hq'

theorem openAppend_notDir [Contents α] {raw : List String} {fs fs' : FileSystem α} {p : Path}
    (h : (openAppend raw).exec fs = .ok (p,fs')) : fs'.isDir p = false := by
  obtain ⟨-,hdir,-,hfile,-,-⟩ := openAppend_spec h
  have hp : p ≠ [] := by
    rintro rfl
    rw [FileSystem.isDir_nil] at hdir
    cases hdir
  rw [← Bool.not_eq_true]
  intro hisdir
  rw [FileSystem.fileAt_eq_none_of_isDir hp hisdir] at hfile
  cases hfile

theorem rename_spec {src dst : List String} {fs fs' : FileSystem α} {u : Unit}
    (h : (rename src dst).exec fs = .ok (u,fs')) :
    ∃ p q, fs.locate src = some p ∧ fs.locate dst = some q ∧
      (renameFile p q).exec fs = .ok (u,fs') := by
  cases hp : fs.locate src with
  | none =>
    simp only [Prog.exec,rename,hp] at h
    cases h
  | some p =>
    cases hq : fs.locate dst with
    | none =>
      simp only [Prog.exec,rename,hp,hq] at h
      cases h
    | some q =>
      refine ⟨p,q,rfl,rfl,?_⟩
      by_cases hends : (FileSystem.endsPlain src && FileSystem.endsPlain dst) = true
      · simp only [Prog.exec,rename,hp,hq,hends,if_true] at h
        exact h
      · simp only [Prog.exec,rename,hp,hq,hends,Bool.false_eq_true,if_false] at h
        cases h

/-- The one state a rename passes through. -/
theorem visited_renameFile {p q : Path} {fs t : FileSystem α} (ht : t ∈ (renameFile p q fs).visited) :
    ∃ c, fs.fileAt p = some c ∧ fs.isDir q = false ∧
      t = (fs.set p none).set q (some (.file c)) := by
  cases hc : fs.fileAt p with
  | none =>
    simp only [renameFile,hc] at ht
    cases ht
  | some c =>
    cases hd : fs.isDir q with
    | true =>
      simp only [renameFile,hc,hd,if_true] at ht
      cases ht
    | false =>
      simp only [renameFile,hc,hd,Bool.false_eq_true,if_false] at ht
      exact ⟨c,rfl,rfl,List.mem_singleton.mp ht⟩

theorem visited_rename {src dst : List String} {fs t : FileSystem α}
    (ht : t ∈ (rename src dst fs).visited) :
    ∃ p q, fs.locate src = some p ∧ fs.locate dst = some q ∧ t ∈ (renameFile p q fs).visited := by
  cases hp : fs.locate src with
  | none =>
    simp only [rename,hp] at ht
    cases ht
  | some p =>
    cases hq : fs.locate dst with
    | none =>
      simp only [rename,hp,hq] at ht
      cases ht
    | some q =>
      refine ⟨p,q,rfl,rfl,?_⟩
      by_cases hends : (FileSystem.endsPlain src && FileSystem.endsPlain dst) = true
      · simp only [rename,hp,hq,hends,if_true] at ht
        exact ht
      · simp only [rename,hp,hq,hends,Bool.false_eq_true,if_false] at ht
        cases ht

/-- The one state the making of a file passes through. -/
theorem visited_createFile [Contents α] {p : Path} {fs t : FileSystem α}
    (ht : t ∈ (createFile p fs).visited) :
    fs.isDir p = false ∧ t = fs.set p (some (.file Contents.empty)) := by
  cases hd : fs.isDir p with
  | true =>
    simp only [createFile,hd,if_true] at ht
    cases ht
  | false =>
    simp only [createFile,hd,Bool.false_eq_true,if_false] at ht
    exact ⟨rfl,List.mem_singleton.mp ht⟩

/-- Opening for appending passes through a state of its own only if the file is missing. -/
theorem visited_openAppend [Contents α] {raw : List String} {fs t : FileSystem α}
    (ht : t ∈ (openAppend raw fs).visited) :
    ∃ p, fs.locate raw = some p ∧ fs.isDir p = false ∧ fs.fileAt p = none ∧
      t = fs.set p (some (.file Contents.empty)) := by
  cases hl : fs.locate raw with
  | none =>
    simp only [openAppend,hl] at ht
    cases ht
  | some p =>
    by_cases hbad : (fs.isDir p || !FileSystem.endsPlain raw) = true
    · simp only [openAppend,hl,hbad,if_true] at ht
      cases ht
    · have hgood : fs.isDir p = false ∧ FileSystem.endsPlain raw = true := by
        simpa using hbad
      cases hf : fs.fileAt p with
      | some c =>
        simp only [openAppend,hl,hbad,Bool.false_eq_true,if_false,hf] at ht
        cases ht
      | none =>
        simp only [openAppend,hl,hbad,Bool.false_eq_true,if_false,hf] at ht
        exact ⟨p,rfl,hgood.1,hf,List.mem_singleton.mp ht⟩

section Plain
variable {raw : List String} {name : String} (hn : IsPlain name)
include hn

theorem components_concat : components (raw ++ [name]) = components raw ++ [name] := by
  rw [components,List.filter_append]
  simp [components,hn.ne_empty,hn.ne_dot]

theorem fileName_concat : fileName (raw ++ [name]) = some name := by
  rw [fileName,components_concat hn,List.getLast?_concat]
  simp [Option.filter,hn.ne_dots]

theorem endsPlain_concat : FileSystem.endsPlain (raw ++ [name]) = true := by
  simp [FileSystem.endsPlain,fileName_concat hn]

theorem locate_concat (fs : FileSystem α) : fs.locate (raw ++ [name]) =
    (fs.resolveDir [] (components raw)).map fun d => d ++ [name] := by
  rw [FileSystem.locate,components_concat hn,List.getLast?_concat,List.dropLast_concat]
  simp only [if_neg hn.ne_dots]

theorem readFile_concat (fs : FileSystem α) : fs.readFile (raw ++ [name]) =
    (fs.resolveDir [] (components raw)).bind fun d => fs.fileAt (d ++ [name]) := by
  rw [FileSystem.readFile,if_pos (endsPlain_concat hn),locate_concat hn]
  cases fs.resolveDir [] (components raw) <;> rfl

/-- A directory that is reached by name exists. -/
theorem dirExists_concat {fs : FileSystem α} {d : Path}
    (h : fs.resolveDir [] (components raw ++ [name]) = some d) :
    fs.dirExists (raw ++ [name]) = true := by
  rw [resolveDir_append] at h
  obtain ⟨d',hd',hlast⟩ := Option.bind_eq_some_iff.mp h
  rw [FileSystem.resolveDir,if_neg hn.ne_dots] at hlast
  rw [FileSystem.dirExists,locate_concat hn,hd',Option.map_some,Option.any_some]
  split at hlast
  · assumption
  · cases hlast

theorem atomicWrite_concat [Contents α] {c : α} {fs fs' : FileSystem α} {u : Unit}
    (h : (atomicWrite (raw ++ [name]) c).exec fs = .ok (u,fs')) :
    Written fs fs' (normalize [] (components raw)) name c := by
  obtain ⟨name',hname,hw⟩ := atomicWrite_spec h
  rw [fileName_concat hn] at hname
  obtain rfl := Option.some.inj hname
  rw [components_concat hn,List.dropLast_concat] at hw
  exact hw

end Plain

theorem resolveDir_of_plain {fs : FileSystem α} {p d : Path} (hp : ∀ s ∈ p, IsPlain s)
    (h : fs.resolveDir [] p = some d) : d = p := by
  rw [resolveDir_eq_normalize h,normalize_of_plain [] hp,List.nil_append]

/-- A path of plain names is where it says. -/
theorem normalize_components {p : Path} (h : ∀ s ∈ p, IsPlain s) :
    normalize [] (components p) = p := by
  rw [components_of_plain h,normalize_of_plain [] h,List.nil_append]

end Specs

section Resolution

/-- Where a path leads when all of it exists. -/
def resolved (raw : List String) : Path := normalize [] (components raw)

theorem resolved_of_plain {p : Path} (h : ∀ s ∈ p, IsPlain s) : resolved p = p := normalize_components h

end Resolution

end Disk
