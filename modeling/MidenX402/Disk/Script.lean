import MidenX402.Disk.Volume
import MidenX402.Disk.Directories

/-!
# Programs as lists of file operations

A script is what a program asks of the file system, one operation after the other, with the file it
has open.  Scripts of several processes can be interleaved on a volume.  A process that runs alone
does on the volume what it does on the files by name, and what the program it implements does.
-/

namespace Disk

inductive FsOp (α : Type) where
  | mkdir (p : Path) (e : IoError)
  | create (p : Path)
  /-- a write through the open file, by what the file held -/
  | put (f : α → α)
  /-- the open file was closed before -/
  | rename (p q : Path)
  | openAppend (raw : List String)
  | fail (e : IoError)

section Semantics
variable {α : Type} [Contents α]

/-- An operation of a process that is alone: its open file is known by name. -/
def FsOp.onFiles : FsOp α → FileSystem α × Option Path → Except IoError (FileSystem α × Option Path)
  | .mkdir p e, (fs,file) =>
    match fs.node p with
    | some .dir => .ok (fs,file)
    | some (.file _) => .error e
    | none => .ok (fs.set p (some .dir),file)
  | .create p, (fs,_) =>
    if fs.isDir p then .error .isADirectory
    else .ok (fs.set p (some (.file Contents.empty)),some p)
  | .put f, (fs,file) =>
    match file with
    | none => .error .notFound
    | some p =>
      match fs.fileAt p with
      | none => .error .notFound
      | some c => .ok (fs.set p (some (.file (f c))),some p)
  | .rename p q, (fs,_) =>
    match fs.fileAt p with
    | none => .error .notFound
    | some c =>
      if fs.isDir q then .error .isADirectory
      else .ok ((fs.set p none).set q (some (.file c)),none)
  | .openAppend raw, (fs,_) =>
    match fs.locate raw with
    | none => .error .notFound
    | some p =>
      if fs.isDir p || !FileSystem.endsPlain raw then .error .isADirectory
      else match fs.fileAt p with
        | some _ => .ok (fs,some p)
        | none => .ok (fs.set p (some (.file Contents.empty)),some p)
  | .fail e, _ => .error e

/-- An operation of one process among others. -/
def FsOp.onVolume : FsOp α → Volume α × Option ℕ → Except IoError (Volume α × Option ℕ)
  | .mkdir p e, (v,file) =>
    match v.tree.node p with
    | some .dir => .ok (v,file)
    | some (.file _) => .error e
    | none => .ok (v.makeDir p,file)
  | .create p, (v,_) =>
    if v.tree.isDir p then .error .isADirectory
    else .ok (v.create p Contents.empty,some (v.opened p))
  | .put f, (v,file) =>
    match file with
    | none => .error .notFound
    | some i => .ok (v.write i (f (v.contents i)),some i)
  | .rename p q, (v,_) =>
    match h : v.tree.fileAt p with
    | none => .error .notFound
    | some i =>
      if v.tree.isDir q then .error .isADirectory
      else .ok (v.rename p q i h,none)
  | .openAppend raw, (v,_) =>
    match v.tree.locate raw with
    | none => .error .notFound
    | some p =>
      if v.tree.isDir p || !FileSystem.endsPlain raw then .error .isADirectory
      else match v.tree.fileAt p with
        | some i => .ok (v,some i)
        | none => .ok (v.create p Contents.empty,some (v.opened p))
  | .fail e, _ => .error e

/-- A whole script, alone. -/
def runFiles (ops : List (FsOp α)) (y : FileSystem α × Option Path) :
    Except IoError (FileSystem α × Option Path) := ops.foldlM (fun y op => op.onFiles y) y

end Semantics

section Simulation
variable {α : Type} {x : Volume α × Option ℕ} {y : FileSystem α × Option Path}

/-- The files are what the names of the volume show, and the open file is the one with the name. -/
structure Shows (x : Volume α × Option ℕ) (y : FileSystem α × Option Path) : Prop where
  view : x.1.view = y.1
  file : x.2 = none ∧ y.2 = none ∨ ∃ i p, x.2 = some i ∧ y.2 = some p ∧ x.1.tree.fileAt p = some i

variable [Contents α]

/-- Both fail alike, or both go on alike. -/
def Alike (x : Except IoError (Volume α × Option ℕ)) (y : Except IoError (FileSystem α × Option Path)) :
    Prop :=
  (∃ e, x = .error e ∧ y = .error e) ∨ ∃ x' y', x = .ok x' ∧ y = .ok y' ∧ Shows x' y'

section Steps
variable {v : Volume α} {file : Option ℕ} {name : Option Path}

theorem Shows.mkdir (h : Shows (v,file) (v.view,name)) (p : Path) (e : IoError) :
    Alike ((FsOp.mkdir p e).onVolume (v,file)) ((FsOp.mkdir p e).onFiles (v.view,name)) := by
  rw [FsOp.onVolume,FsOp.onFiles,Volume.node_view]
  cases hn : v.tree.node p with
  | none =>
    refine Or.inr ⟨_,_,rfl,rfl,v.view_makeDir p,?_⟩
    rcases h.file with hnone | ⟨i,q,hi,hq,hf⟩
    · exact Or.inl hnone
    · refine Or.inr ⟨i,q,hi,hq,?_⟩
      have hne : q ≠ p := by
        rintro rfl
        rw [FileSystem.fileAt,hn] at hf
        cases hf
      change (v.tree.set p (some .dir)).fileAt q = some i
      rw [FileSystem.fileAt_set,if_neg hne]
      exact hf
  | some n =>
    cases n with
    | dir => exact Or.inr ⟨_,_,rfl,rfl,h⟩
    | file i => exact Or.inl ⟨e,rfl,rfl⟩

theorem shows_create (v : Volume α) (p : Path) :
    Shows (v.create p Contents.empty,some (v.opened p))
      (v.view.set p (some (.file Contents.empty)),some p) :=
  ⟨Volume.view_create _,Or.inr ⟨_,p,rfl,rfl,by
    change (v.tree.set p (some (.file (v.opened p)))).fileAt p = _
    rw [FileSystem.fileAt_set_file,if_pos rfl]⟩⟩

theorem Shows.create (p : Path) :
    Alike ((FsOp.create p).onVolume (v,file)) ((FsOp.create p).onFiles (v.view,name)) := by
  rw [FsOp.onVolume,FsOp.onFiles,Volume.isDir_view]
  cases v.tree.isDir p with
  | true => exact Or.inl ⟨_,rfl,rfl⟩
  | false => exact Or.inr ⟨_,_,rfl,rfl,shows_create v p⟩

theorem Shows.put (h : Shows (v,file) (v.view,name)) (f : α → α) :
    Alike ((FsOp.put f).onVolume (v,file)) ((FsOp.put f).onFiles (v.view,name)) := by
  rcases h.file with ⟨hi,hq⟩ | ⟨i,q,hi,hq,hf⟩
  · obtain rfl : file = none := hi
    obtain rfl : name = none := hq
    exact Or.inl ⟨_,rfl,rfl⟩
  · obtain rfl : file = some i := hi
    obtain rfl : name = some q := hq
    have hview : v.view.fileAt q = some (v.contents i) := by
      rw [Volume.fileAt_view,hf]
      rfl
    rw [FsOp.onFiles]
    simp only [hview]
    exact Or.inr ⟨_,_,rfl,rfl,Volume.view_write hf,Or.inr ⟨i,q,rfl,rfl,hf⟩⟩

theorem Shows.rename (p q : Path) :
    Alike ((FsOp.rename p q).onVolume (v,file)) ((FsOp.rename p q).onFiles (v.view,name)) := by
  have hview := v.fileAt_view p
  rw [FsOp.onVolume,FsOp.onFiles,Volume.isDir_view]
  split
  · rename_i hp
    rw [hp] at hview
    rw [hview]
    exact Or.inl ⟨_,rfl,rfl⟩
  · rename_i i hp
    rw [hp] at hview
    rw [hview]
    cases v.tree.isDir q with
    | true => exact Or.inl ⟨_,rfl,rfl⟩
    | false => exact Or.inr ⟨_,_,rfl,rfl,Volume.view_rename hp,Or.inl ⟨rfl,rfl⟩⟩

theorem Shows.openAppend (raw : List String) : Alike ((FsOp.openAppend raw).onVolume (v,file))
    ((FsOp.openAppend raw).onFiles (v.view,name)) := by
  rw [FsOp.onVolume,FsOp.onFiles,Volume.locate_view]
  cases v.tree.locate raw with
  | none => exact Or.inl ⟨_,rfl,rfl⟩
  | some p =>
    simp only [Volume.isDir_view,Volume.fileAt_view]
    split
    · exact Or.inl ⟨_,rfl,rfl⟩
    · cases hf : v.tree.fileAt p with
      | none => exact Or.inr ⟨_,_,rfl,rfl,shows_create v p⟩
      | some i => exact Or.inr ⟨_,_,rfl,rfl,rfl,Or.inr ⟨i,p,rfl,rfl,hf⟩⟩

end Steps

/-- An operation goes on the volume as it goes on the files. -/
theorem Shows.step (h : Shows x y) (op : FsOp α) : Alike (op.onVolume x) (op.onFiles y) := by
  obtain ⟨v,file⟩ := x
  obtain ⟨fs,name⟩ := y
  obtain rfl : v.view = fs := h.view
  cases op with
  | mkdir p e => exact h.mkdir p e
  | create p => exact Shows.create p
  | put f => exact h.put f
  | rename p q => exact Shows.rename p q
  | openAppend raw => exact Shows.openAppend raw
  | fail e => exact Or.inl ⟨e,rfl,rfl⟩

end Simulation

section Progress
variable {α : Type} [Contents α] {op : FsOp α} {ops rest : List (FsOp α)} {fs : FileSystem α}
  {x x' : Volume α × Option ℕ} {e : IoError}

theorem runFiles_append (xs ys : List (FsOp α)) (y : FileSystem α × Option Path) :
    runFiles (xs ++ ys) y = (runFiles xs y).bind (runFiles ys) := List.foldlM_append

theorem runFiles_cons (op : FsOp α) (ops : List (FsOp α)) (y : FileSystem α × Option Path) :
    runFiles (op :: ops) y = (op.onFiles y).bind (runFiles ops) := List.foldlM_cons

theorem runFiles_append_eq_ok {xs ys : List (FsOp α)} {y z : FileSystem α × Option Path}
    (h : runFiles (xs ++ ys) y = .ok z) : ∃ x, runFiles xs y = .ok x ∧ runFiles ys x = .ok z := by
  rw [runFiles_append] at h
  cases hx : runFiles xs y with
  | error e =>
    rw [hx] at h
    cases h
  | ok x =>
    rw [hx] at h
    exact ⟨x,rfl,h⟩

/-- A process that has been alone since it began: what it has done of its script, on the files it found
then, is what its volume shows. -/
def Progress (ops rest : List (FsOp α)) (fs : FileSystem α) (x : Volume α × Option ℕ) : Prop :=
  ∃ past y, ops = past ++ rest ∧ runFiles past (fs,none) = .ok y ∧ Shows x y

theorem progress_start (v : Volume α) : Progress ops ops v.view (v,none) :=
  ⟨[],(v.view,none),rfl,rfl,rfl,Or.inl ⟨rfl,rfl⟩⟩

theorem Progress.step (h : Progress ops (op :: rest) fs x) (hx : op.onVolume x = .ok x') :
    Progress ops rest fs x' := by
  obtain ⟨past,y,rfl,hrun,hshows⟩ := h
  rcases hshows.step op with ⟨e,he,-⟩ | ⟨_,y',hx',hy,hshows'⟩
  · rw [hx] at he
    cases he
  · rw [hx] at hx'
    obtain rfl := Except.ok.inj hx'
    refine ⟨past ++ [op],y',(List.append_cons ..),?_,hshows'⟩
    rw [runFiles_append,hrun]
    change runFiles [op] y = _
    rw [runFiles_cons,hy]
    rfl

/-- Alone on its files the script would have failed there too. -/
theorem Progress.fails (h : Progress ops (op :: rest) fs x) (hx : op.onVolume x = .error e) :
    runFiles ops (fs,none) = .error e := by
  obtain ⟨past,y,rfl,hrun,hshows⟩ := h
  rcases hshows.step op with ⟨e',he,hy⟩ | ⟨_,_,hx',-⟩
  · rw [hx] at he
    obtain rfl := Except.error.inj he
    rw [runFiles_append,hrun]
    change runFiles (op :: rest) y = _
    rw [runFiles_cons,hy]
    rfl
  · rw [hx] at hx'
    cases hx'

theorem Progress.ended (h : Progress ops [] fs x) :
    ∃ file, runFiles ops (fs,none) = .ok (x.1.view,file) := by
  obtain ⟨past,y,rfl,hrun,hshows⟩ := h
  rw [List.append_nil]
  exact ⟨y.2,by rw [hrun,hshows.view]⟩

end Progress

section Processes
variable {α : Type} [Contents α]

/-- A process: what is left of its script, and the file it has open. -/
structure Process (α : Type) where
  rest : List (FsOp α)
  file : Option ℕ

inductive ProcessStep (α : Type) where
  | goesOn (v : Volume α) (t : Process α)
  | ends (v : Volume α)
  | fails (e : IoError)

/-- The next operation of a process; it has ended with the last one, or with one that fails. -/
def Process.step (t : Process α) (v : Volume α) : Option (ProcessStep α) :=
  match t.rest with
  | [] => none
  | op :: rest => some <|
    match op.onVolume (v,t.file) with
    | .error e => .fails e
    | .ok (v',file) => if rest.isEmpty then .ends v' else .goesOn v' ⟨rest,file⟩

end Processes

section Within
variable {α : Type} {S T : Set Path} {fs fs' fs'' : FileSystem α} {p : Path} {c c' : α}

/-- The files differ in the first set only, and what is a directory in the second only. -/
structure Confined (S T : Set Path) (fs fs' : FileSystem α) : Prop extends Frame S fs fs' where
  made : ∀ p, p ∉ T → fs'.isDir p = fs.isDir p

theorem confined_refl (fs : FileSystem α) : Confined S T fs fs :=
  ⟨Std.Refl.refl fs,fun _ _ => rfl⟩

theorem Confined.trans (h : Confined S T fs fs') (h' : Confined S T fs' fs'') :
    Confined S T fs fs'' :=
  ⟨h.toFrame.trans h'.toFrame,fun p hp => (h'.made p hp).trans (h.made p hp)⟩

theorem Confined.mono {S' : Set Path} (h : Confined S T fs fs') (hS : S ⊆ S') :
    Confined S' T fs fs' := ⟨h.toFrame.mono hS,h.made⟩

/-- The operation names no file outside of the one set and no directory outside of the other. -/
def FsOp.Within (S T : Set Path) : FsOp α → Prop
  | .mkdir p _ => p ∈ T
  | .create p => p ∈ S
  | .rename p q => p ∈ S ∧ q ∈ S
  | .openAppend raw => resolved raw ∈ S
  | _ => True

/-- Writing over a file makes no directory and loses none. -/
theorem isDir_set_over (h : fs.fileAt p = some c') (q : Path) :
    (fs.set p (some (.file c))).isDir q = fs.isDir q := by
  by_cases hq : q = p
  · subst hq
    rw [FileSystem.isDir,FileSystem.isDir,FileSystem.node_set_self,FileSystem.node_of_fileAt h]
  · exact FileSystem.isDir_set_of_ne fs _ hq

theorem isDir_set_none (h : fs.fileAt p = some c') (q : Path) :
    (fs.set p none).isDir q = fs.isDir q := by
  by_cases hq : q = p
  · subst hq
    rw [FileSystem.isDir,FileSystem.isDir,FileSystem.node_set_self,FileSystem.node_of_fileAt h]
  · exact FileSystem.isDir_set_of_ne fs _ hq

theorem confined_set_file (hp : p ∈ S) (hdir : fs.isDir p = false) :
    Confined S T fs (fs.set p (some (.file c))) :=
  ⟨frame_set_file hp hdir,fun q _ => isDir_set_file c hdir q⟩

theorem confined_set_over (hp : p ∈ S) (h : fs.fileAt p = some c') :
    Confined S T fs (fs.set p (some (.file c))) := by
  refine ⟨⟨?_,fun q hq => (isDir_set_over h q).trans hq⟩,fun q _ => isDir_set_over h q⟩
  intro q hq
  rw [FileSystem.fileAt_set_file,if_neg (ne_of_mem_of_not_mem hp hq).symm]

theorem confined_moved {q : Path} (hp : p ∈ S) (hq : q ∈ S) (h : fs.fileAt p = some c)
    (hdir : fs.isDir q = false) : Confined S T fs ((fs.set p none).set q (some (.file c))) := by
  refine ⟨frame_moved hp hq h hdir,fun r _ => ?_⟩
  rw [isDir_set_file c ((isDir_set_none h q).trans hdir),isDir_set_none h]

theorem confined_set_dir (hp : p ∈ T) (hn : fs.node p = none) :
    Confined S T fs (fs.set p (some .dir)) := by
  refine ⟨⟨?_,fun q hq => FileSystem.isDir_set_dir fs hq⟩,?_⟩
  · intro q _
    rw [FileSystem.fileAt_set]
    split
    · rename_i hq
      rw [hq,FileSystem.fileAt,hn]
    · rfl
  · intro q hq
    exact FileSystem.isDir_set_of_ne fs _ (ne_of_mem_of_not_mem hp hq).symm

variable [Contents α] {op : FsOp α} {ops : List (FsOp α)} {y y' : FileSystem α × Option Path}

theorem FsOp.confined (hop : op.Within S T) (hfile : ∀ p, y.2 = some p → p ∈ S)
    (h : op.onFiles y = .ok y') : Confined S T y.1 y'.1 ∧ ∀ p, y'.2 = some p → p ∈ S := by
  obtain ⟨fs,name⟩ := y
  have hsame : Confined S T fs fs := confined_refl fs
  have hnew : ∀ {p : Path}, p ∈ S → ∀ q, some p = some q → q ∈ S := by
    intro p hp q hq
    rw [← Option.some.inj hq]
    exact hp
  cases op with
  | mkdir p e =>
    rw [FsOp.onFiles] at h
    split at h
    · obtain rfl := Except.ok.inj h
      exact ⟨hsame,hfile⟩
    · cases h
    · rename_i hn
      obtain rfl := Except.ok.inj h
      exact ⟨confined_set_dir hop hn,hfile⟩
  | create p =>
    rw [FsOp.onFiles] at h
    split at h
    · cases h
    · rename_i hdir
      obtain rfl := Except.ok.inj h
      exact ⟨confined_set_file hop (Bool.not_eq_true _ ▸ hdir),hnew hop⟩
  | put f =>
    cases name with
    | none => cases h
    | some p =>
      rw [FsOp.onFiles] at h
      split at h
      · cases h
      · rename_i c hc
        obtain rfl := Except.ok.inj h
        exact ⟨confined_set_over (hfile p rfl) hc,hnew (hfile p rfl)⟩
  | rename p q =>
    rw [FsOp.onFiles] at h
    split at h
    · cases h
    · rename_i c hc
      split at h
      · cases h
      · rename_i hdir
        obtain rfl := Except.ok.inj h
        exact ⟨confined_moved hop.1 hop.2 hc (Bool.not_eq_true _ ▸ hdir),fun p hp => nomatch hp⟩
  | openAppend raw =>
    rw [FsOp.onFiles] at h
    split at h
    · cases h
    · rename_i p hlocate
      obtain rfl := locate_eq_resolved hlocate
      split at h
      · cases h
      · rename_i hbad
        split at h
        · obtain rfl := Except.ok.inj h
          exact ⟨hsame,hnew hop⟩
        · obtain rfl := Except.ok.inj h
          refine ⟨confined_set_file hop ?_,hnew hop⟩
          simp only [Bool.or_eq_true,not_or,Bool.not_eq_true] at hbad
          exact hbad.1
  | fail e => cases h

theorem runFiles_confined (hops : ∀ op ∈ ops, op.Within S T) (hfile : ∀ p, y.2 = some p → p ∈ S)
    (h : runFiles ops y = .ok y') : Confined S T y.1 y'.1 := by
  induction ops generalizing y with
  | nil =>
    obtain rfl := Except.ok.inj h
    exact confined_refl _
  | cons op ops ih =>
    rw [runFiles_cons] at h
    cases hop : op.onFiles y with
    | error e =>
      rw [hop] at h
      cases h
    | ok y1 =>
      rw [hop] at h
      obtain ⟨hconfined,hfile1⟩ := FsOp.confined (hops op List.mem_cons_self) hfile hop
      exact hconfined.trans (ih (fun o ho => hops o (List.mem_cons_of_mem _ ho)) hfile1 h)

end Within

section Implements
variable {α : Type} {ε β γ : Type}

/-- The scripts of the operations. -/
def mkdirs (start : Path) : List String → List (FsOp α)
  | [] => []
  | s :: rest =>
    if s = ".." then mkdirs start.dropLast rest
    else .mkdir (start ++ [s]) (if rest = [] then .alreadyExists else .notADirectory) ::
      mkdirs (start ++ [s]) rest

variable [Contents α]

def atomicWriteOps (raw : List String) (c : α) : List (FsOp α) :=
  if components raw = [] then [.fail .noParent]
  else
    let dir := normalize [] (components raw).dropLast
    let tmp := dir ++ ["." ++ (fileName raw).getD "write" ++ ".tmp"]
    mkdirs [] (components raw).dropLast ++
      [.create tmp,.put fun _ => Contents.torn,.put fun _ => c] ++
      match fileName raw with
      | some name =>
        if FileSystem.endsPlain raw then [.rename tmp (dir ++ [name])] else [.fail .notADirectory]
      | none => [.fail .busy]

/-- Alone, the script ends with the files that the program ends with, and fails when it fails. -/
def Implements (ops : List (FsOp α)) (x : Prog (FileSystem α) ε β) : Prop :=
  ∀ fs name fs', (∃ name', runFiles ops (fs,name) = .ok (fs',name')) ↔ ∃ b, x.exec fs = .ok (b,fs')

variable {ops xs ys : List (FsOp α)} {x : Prog (FileSystem α) ε β} {f : β → Prog (FileSystem α) ε γ}

theorem implements_pure (b : β) : Implements (α := α) [] (pure b : Prog (FileSystem α) ε β) := by
  intro fs name fs'
  rw [Prog.exec_pure]
  constructor
  · rintro ⟨name',h⟩
    obtain rfl := (Prod.mk.inj (Except.ok.inj h)).1
    exact ⟨b,rfl⟩
  · rintro ⟨_,h⟩
    obtain rfl := (Prod.mk.inj (Except.ok.inj h)).2
    exact ⟨name,rfl⟩

theorem Implements.mapError {ε' : Type} (h : Implements ops x) (g : ε → ε') :
    Implements ops (x.mapError g) := by
  intro fs name fs'
  rw [h fs name fs',Prog.exec_mapError]
  cases x.exec fs with
  | ok p =>
    have hok : ∀ {δ : Type} b, (Except.ok p : Except δ (β × FileSystem α)) = .ok (b,fs') ↔ p = (b,fs') :=
      fun b => ⟨fun h => Except.ok.inj h,congrArg _⟩
    exact exists_congr fun b => (hok b).trans (hok b).symm
  | error e => exact iff_of_false (fun ⟨_,h⟩ => nomatch h) fun ⟨_,h⟩ => nomatch h

/-- Scripts one after the other implement programs one after the other. -/
theorem Implements.bind (hx : Implements xs x)
    (hf : ∀ b fs fs', x.exec fs = .ok (b,fs') → Implements ys (f b)) : Implements (xs ++ ys) (x >>= f) := by
  intro fs name fs'
  rw [runFiles_append]
  constructor
  · rintro ⟨name',h⟩
    cases hxs : runFiles xs (fs,name) with
    | error e =>
      rw [hxs] at h
      cases h
    | ok y =>
      rw [hxs] at h
      obtain ⟨b,hb⟩ := (hx fs name y.1).mp ⟨y.2,hxs⟩
      obtain ⟨c,hc⟩ := (hf b fs y.1 hb y.1 y.2 fs').mp ⟨name',h⟩
      refine ⟨c,?_⟩
      rw [Prog.exec_bind,hb]
      exact hc
  · rintro ⟨c,h⟩
    obtain ⟨b,t,hb,hc⟩ := Prog.exec_bind_eq_ok h
    obtain ⟨name1,hxs⟩ := (hx fs name t).mpr ⟨b,hb⟩
    obtain ⟨name',hys⟩ := (hf b fs t hb t name1 fs').mpr ⟨c,hc⟩
    refine ⟨name',?_⟩
    rw [hxs]
    exact hys

theorem runFiles_singleton (op : FsOp α) (y : FileSystem α × Option Path) :
    runFiles [op] y = op.onFiles y := by
  rw [runFiles_cons]
  cases op.onFiles y <;> rfl

/-- A script implements a program that ends with the same files and fails with the same errors. -/
theorem implements_of_exec {x : Prog (FileSystem α) IoError β}
    (h : ∀ fs name, (runFiles ops (fs,name)).map Prod.fst = (x.exec fs).map Prod.snd) :
    Implements ops x := by
  intro fs name fs'
  have hsame := h fs name
  cases hr : runFiles ops (fs,name) with
  | error e =>
    rw [hr] at hsame
    cases hx : x.exec fs with
    | error e' => exact iff_of_false (fun ⟨_,h⟩ => nomatch h) fun ⟨_,h⟩ => nomatch h
    | ok p =>
      rw [hx] at hsame
      cases hsame
  | ok y =>
    rw [hr] at hsame
    cases hx : x.exec fs with
    | error e' =>
      rw [hx] at hsame
      cases hsame
    | ok p =>
      rw [hx] at hsame
      have hfs : y.1 = p.2 := Except.ok.inj hsame
      constructor
      · rintro ⟨name',hy⟩
        rw [Except.ok.inj hy] at hfs
        exact ⟨p.1,congrArg Except.ok (Prod.ext rfl hfs.symm)⟩
      · rintro ⟨b,hp⟩
        rw [Except.ok.inj hp] at hfs
        exact ⟨y.2,congrArg Except.ok (Prod.ext hfs rfl)⟩

theorem implements_makeDir (p : Path) (e : IoError) :
    Implements (α := α) [.mkdir p e] (makeDir p e) := by
  apply implements_of_exec
  intro fs name
  rw [runFiles_singleton,FsOp.onFiles]
  cases hn : fs.node p with
  | none =>
    simp only [Prog.exec,makeDir,hn]
    rfl
  | some n =>
    cases n with
    | dir =>
      simp only [Prog.exec,makeDir,hn]
      rfl
    | file c =>
      simp only [Prog.exec,makeDir,hn]
      rfl

theorem implements_createDirAll (start : Path) (comps : List String) :
    Implements (α := α) (mkdirs start comps) (createDirAll start comps) := by
  induction comps generalizing start with
  | nil => exact implements_pure start
  | cons s comps ih =>
    rw [mkdirs,createDirAll]
    split
    · exact ih start.dropLast
    · exact (implements_makeDir _ _).bind fun _ _ _ _ => ih (start ++ [s])

theorem implements_write (p : Path) (c : α) :
    Implements [.create p,.put fun _ => Contents.torn,.put fun _ => c]
      (do createFile p; writeFile p c) := by
  apply implements_of_exec
  intro fs name
  rw [runFiles_cons,FsOp.onFiles,Prog.exec_bind]
  cases hdir : fs.isDir p with
  | true =>
    simp only [Prog.exec,createFile,hdir,if_true]
    rfl
  | false =>
    have hput : ∀ (fs : FileSystem α) c0 f, fs.fileAt p = some c0 →
        (FsOp.put f).onFiles (fs,some p) = .ok (fs.set p (some (.file (f c0))),some p) := by
      intro fs c0 f h
      simp only [FsOp.onFiles,h]
    have hself : ∀ (fs : FileSystem α) c0, (fs.set p (some (.file c0))).fileAt p = some c0 := by
      intro fs c0
      rw [FileSystem.fileAt_set_file,if_pos rfl]
    simp only [Prog.exec,createFile,hdir,Bool.false_eq_true,if_false,Except.bind]
    rw [runFiles_cons,hput _ _ _ (hself ..)]
    simp only [Except.bind]
    rw [runFiles_singleton,hput _ _ _ (hself ..)]
    rfl

theorem implements_rename (p q : Path) : Implements (α := α) [.rename p q] (renameFile p q) := by
  apply implements_of_exec
  intro fs name
  rw [runFiles_singleton,FsOp.onFiles]
  cases hf : fs.fileAt p with
  | none =>
    simp only [Prog.exec,renameFile,hf]
    rfl
  | some c =>
    cases hd : fs.isDir q with
    | true =>
      simp only [Prog.exec,renameFile,hf,hd]
      rfl
    | false =>
      simp only [Prog.exec,renameFile,hf,hd]
      rfl

theorem implements_fail (e : IoError) :
    Implements (α := α) [.fail e] (Prog.fail e : Prog (FileSystem α) IoError β) :=
  implements_of_exec fun _ _ => rfl

theorem Implements.assoc {δ : Type} {g : γ → Prog (FileSystem α) ε δ}
    (h : Implements ops ((x >>= f) >>= g)) : Implements ops (x >>= fun b => f b >>= g) := by
  intro fs name fs'
  rw [h fs name fs',Prog.exec_bind,Prog.exec_bind,Prog.exec_bind]
  cases x.exec fs with
  | error e => rfl
  | ok p =>
    change (∃ b, ((f p.1).exec p.2).bind _ = _) ↔ ∃ b, (f p.1 >>= g).exec p.2 = _
    rw [Prog.exec_bind]

theorem implements_atomicWrite (raw : List String) (c : α) :
    Implements (atomicWriteOps raw c) (atomicWrite raw c) := by
  rw [atomicWriteOps,atomicWrite]
  split
  · exact implements_fail _
  · rw [List.append_assoc]
    apply (implements_createDirAll [] (components raw).dropLast).bind
    intro dir fs fs' hdir
    obtain rfl := (createDirAll_spec hdir).1
    apply Implements.assoc
    apply (implements_write _ c).bind
    intro _ _ _ _
    cases fileName raw with
    | none => exact implements_fail .busy
    | some name =>
      cases FileSystem.endsPlain raw with
      | true => exact implements_rename (α := α) _ _
      | false => exact implements_fail .notADirectory

/-- Opening a file finds the same one either way. -/
theorem openAppend_onFiles (raw : List String) (fs : FileSystem α) (name : Option Path) :
    (∃ e, (FsOp.openAppend raw).onFiles (fs,name) = .error e ∧ (openAppend raw).exec fs = .error e) ∨
      ∃ p fs', (FsOp.openAppend raw).onFiles (fs,name) = .ok (fs',some p) ∧
        (openAppend raw).exec fs = .ok (p,fs') := by
  rw [FsOp.onFiles]
  cases hl : fs.locate raw with
  | none =>
    simp only [Prog.exec,openAppend,hl]
    exact Or.inl ⟨_,rfl,rfl⟩
  | some p =>
    cases hbad : fs.isDir p || !FileSystem.endsPlain raw with
    | true =>
      simp only [Prog.exec,openAppend,hl,hbad]
      exact Or.inl ⟨_,rfl,rfl⟩
    | false =>
      cases hf : fs.fileAt p with
      | none =>
        simp only [Prog.exec,openAppend,hl,hbad,hf]
        exact Or.inr ⟨p,_,rfl,rfl⟩
      | some c =>
        simp only [Prog.exec,openAppend,hl,hbad,hf]
        exact Or.inr ⟨p,_,rfl,rfl⟩

theorem implements_openAppend (raw : List String) :
    Implements (α := α) [.openAppend raw] (openAppend raw) := by
  apply implements_of_exec
  intro fs name
  rw [runFiles_singleton]
  rcases openAppend_onFiles raw fs name with ⟨e,hop,hprog⟩ | ⟨p,fs',hop,hprog⟩
  · rw [hop,hprog]
    rfl
  · rw [hop,hprog]
    rfl

end Implements

end Disk
