import MidenX402.Disk.Script

/-!
# Processes side by side

A process knows its open file by name as long as nobody moves the file.  Opening a file for appending
moves none, so a process that only opens files disturbs nobody: another one stays within its own files,
and an atomic write ends with what it has to write.
-/

namespace Disk

section Openings
variable {α : Type} {v v' : Volume α} {file file' : Option ℕ} {p : Path} {c : α}

/-- Every file is there as it was, and no directory has come or gone. -/
structure Grows (v v' : Volume α) : Prop where
  files : ∀ p i, v.tree.fileAt p = some i → v'.tree.fileAt p = some i
  contents : ∀ p i, v.tree.fileAt p = some i → v'.contents i = v.contents i
  dirs : ∀ p, v'.tree.isDir p = v.tree.isDir p

theorem Grows.fileAt_view (h : Grows v v') (hp : v.view.fileAt p = some c) :
    v'.view.fileAt p = some c := by
  rw [Volume.fileAt_view] at hp ⊢
  obtain ⟨i,hi,rfl⟩ := Option.map_eq_some_iff.mp hp
  rw [h.files p i hi,Option.map_some,h.contents p i hi]

theorem Grows.isDir_view (h : Grows v v') (p : Path) : v'.view.isDir p = v.view.isDir p := by
  rw [Volume.isDir_view,Volume.isDir_view,h.dirs]

theorem grows_create (hfile : v.tree.fileAt p = none) (hdir : v.tree.isDir p = false) :
    Grows v (v.create p c) := by
  have hopened : v.opened p = v.fresh := by rw [Volume.opened,hfile,Option.getD_none]
  refine ⟨?_,?_,isDir_set_file _ hdir⟩
  · intro q i hq
    change (v.tree.set p _).fileAt q = some i
    rw [FileSystem.fileAt_set_file,if_neg]
    · exact hq
    · rintro rfl
      rw [hfile] at hq
      cases hq
  · intro q i hq
    change Function.update v.contents _ c i = _
    rw [Function.update_of_ne]
    rw [hopened]
    exact Nat.ne_of_lt (v.lt_fresh q i hq)

variable [Contents α]

theorem openAppend_grows {raw : List String}
    (h : (FsOp.openAppend raw).onVolume (v,file) = .ok (v',file')) : Grows v v' := by
  rw [FsOp.onVolume] at h
  split at h
  · cases h
  · rename_i p _
    split at h
    · cases h
    · rename_i hbad
      split at h
      · obtain ⟨rfl,-⟩ := Prod.mk.inj (Except.ok.inj h)
        exact ⟨fun _ _ hi => hi,fun _ _ _ => rfl,fun _ => rfl⟩
      · rename_i hfile
        obtain ⟨rfl,-⟩ := Prod.mk.inj (Except.ok.inj h)
        simp only [Bool.or_eq_true,not_or,Bool.not_eq_true] at hbad
        exact grows_create hfile hbad.1

end Openings

section Tracks
variable {α : Type} [Contents α] {S T : Set Path} {v v' : Volume α} {t : Process α} {r : ProcessStep α}

/-- The process has no file open but one of the set, and will touch nothing outside of the sets. -/
structure Process.Keeps (S T : Set Path) (v : Volume α) (t : Process α) : Prop where
  file : ∃ name, Shows (v,t.file) (v.view,name) ∧ ∀ p, name = some p → p ∈ S
  ops : ∀ op ∈ t.rest, op.Within S T

omit [Contents α] in
theorem keeps_start {ops : List (FsOp α)} (v : Volume α) (h : ∀ op ∈ ops, op.Within S T) :
    Process.Keeps S T v ⟨ops,none⟩ := ⟨⟨none,⟨rfl,Or.inl ⟨rfl,rfl⟩⟩,fun _ hp => nomatch hp⟩,h⟩

/-- What an operation of such a process does. -/
def Process.Confines (S T : Set Path) (v : Volume α) : ProcessStep α → Prop
  | .goesOn v' t => Confined S T v.view v'.view ∧ t.Keeps S T v'
  | .ends v' => Confined S T v.view v'.view
  | .fails _ => True

theorem Process.step_cases {op : FsOp α} {rest : List (FsOp α)} {file : Option ℕ}
    (h : Process.step ⟨op :: rest,file⟩ v = some r) :
    (∃ e, op.onVolume (v,file) = .error e ∧ r = .fails e) ∨
      ∃ v' file', op.onVolume (v,file) = .ok (v',file') ∧
        (rest = [] ∧ r = .ends v' ∨ rest ≠ [] ∧ r = .goesOn v' ⟨rest,file'⟩) := by
  have hr := Option.some.inj h
  cases hop : op.onVolume (v,file) with
  | error e =>
    simp only [hop] at hr
    exact Or.inl ⟨e,rfl,hr.symm⟩
  | ok x =>
    simp only [hop] at hr
    refine Or.inr ⟨x.1,x.2,rfl,?_⟩
    cases rest with
    | nil => exact Or.inl ⟨rfl,hr.symm⟩
    | cons op' rest => exact Or.inr ⟨List.cons_ne_nil op' rest,hr.symm⟩

theorem Process.Keeps.step (h : t.Keeps S T v) (hstep : t.step v = some r) : Process.Confines S T v r := by
  obtain ⟨rest,file⟩ := t
  cases rest with
  | nil => cases hstep
  | cons op rest =>
    obtain ⟨name,hshows,hname⟩ := h.file
    rcases Process.step_cases hstep with ⟨e,-,rfl⟩ | ⟨v',file',hop,hr⟩
    · trivial
    · rcases hshows.step op with ⟨e,he,-⟩ | ⟨x,y,hx,hy,hshows'⟩
      · cases he.symm.trans hop
      · obtain rfl := Except.ok.inj (hx.symm.trans hop)
        obtain ⟨hconfined,hname'⟩ := FsOp.confined (h.ops op List.mem_cons_self) hname hy
        have hview : v'.view = y.1 := hshows'.view
        rw [← hview] at hconfined
        rcases hr with ⟨-,rfl⟩ | ⟨-,rfl⟩
        · exact hconfined
        · refine ⟨hconfined,⟨y.2,?_,hname'⟩,fun o ho => h.ops o (List.mem_cons_of_mem _ ho)⟩
          rw [hview]
          exact hshows'

omit [Contents α] in
theorem Process.Keeps.grows (h : t.Keeps S T v) (hgrows : Grows v v') : t.Keeps S T v' := by
  obtain ⟨name,hshows,hname⟩ := h.file
  refine ⟨⟨name,⟨rfl,?_⟩,hname⟩,h.ops⟩
  rcases hshows.file with hnone | ⟨i,p,hi,hp,hfile⟩
  · exact Or.inl hnone
  · exact Or.inr ⟨i,p,hi,hp,hgrows.files p i hfile⟩

end Tracks

section Writing
variable {α : Type} [Contents α] {T : Set Path} {v v' : Volume α} {t : Process α} {r : ProcessStep α}
  {tmp q : Path} {c : α}

/-- What an atomic write does once its directories are there. -/
def writeOps (tmp q : Path) (c : α) : List (FsOp α) :=
  [.create tmp,.put fun _ => Contents.torn,.put fun _ => c,.rename tmp q]

/-- How far an atomic write has come. -/
inductive Writes (tmp q : Path) (c : α) (T : Set Path) (v : Volume α) : Process α → Prop
  | dirs {ops : List (FsOp α)} (h : ∀ op ∈ ops, ∃ p e, op = .mkdir p e ∧ p ∈ T) :
      Writes tmp q c T v ⟨ops ++ writeOps tmp q c,none⟩
  | created {i : ℕ} (h : v.tree.fileAt tmp = some i) :
      Writes tmp q c T v ⟨(writeOps tmp q c).drop 1,some i⟩
  | torn {i : ℕ} (h : v.tree.fileAt tmp = some i) :
      Writes tmp q c T v ⟨(writeOps tmp q c).drop 2,some i⟩
  | written {i : ℕ} (h : v.tree.fileAt tmp = some i) (hc : v.contents i = c) :
      Writes tmp q c T v ⟨(writeOps tmp q c).drop 3,some i⟩

def Process.WritesTo (tmp q : Path) (c : α) (T : Set Path) (v : Volume α) : ProcessStep α → Prop
  | .goesOn v' t => Confined {tmp} T v.view v'.view ∧ Writes tmp q c T v' t
  | .ends v' => Confined {tmp,q} T v.view v'.view ∧ v'.view.fileAt q = some c
  | .fails _ => True

theorem Writes.grows (h : Writes tmp q c T v t) (hgrows : Grows v v') : Writes tmp q c T v' t := by
  cases h with
  | dirs h => exact .dirs h
  | created h => exact .created (hgrows.files _ _ h)
  | torn h => exact .torn (hgrows.files _ _ h)
  | written h hc => exact .written (hgrows.files _ _ h) ((hgrows.contents _ _ h).trans hc)

/-- An operation of a process whose open file, if any, is the temporary one. -/
theorem confined_of_onVolume {S : Set Path} {op : FsOp α} {file file' : Option ℕ}
    (h : op.onVolume (v,file) = .ok (v',file'))
    (hfile : file = none ∨ ∃ i, file = some i ∧ v.tree.fileAt tmp = some i) (htmp : tmp ∈ S)
    (hop : op.Within S T) : Confined S T v.view v'.view := by
  have hshows : ∃ name, Shows (v,file) (v.view,name) ∧ ∀ p, name = some p → p ∈ S := by
    rcases hfile with rfl | ⟨i,rfl,hi⟩
    · exact ⟨none,⟨rfl,Or.inl ⟨rfl,rfl⟩⟩,fun _ hp => nomatch hp⟩
    · refine ⟨some tmp,⟨rfl,Or.inr ⟨i,tmp,rfl,rfl,hi⟩⟩,?_⟩
      intro p hp
      rw [← Option.some.inj hp]
      exact htmp
  obtain ⟨name,hshows,hname⟩ := hshows
  rcases hshows.step op with ⟨e,he,-⟩ | ⟨x,y,hx,hy,hshows'⟩
  · cases he.symm.trans h
  · obtain rfl := Except.ok.inj (hx.symm.trans h)
    have hview : v'.view = y.1 := hshows'.view
    rw [hview]
    exact (FsOp.confined hop hname hy).1

theorem Writes.step (h : Writes tmp q c T v t) (hstep : t.step v = some r) :
    Process.WritesTo tmp q c T v r := by
  have htmp : tmp ∈ ({tmp} : Set Path) := Set.mem_singleton tmp
  cases h with
  | @dirs ops h =>
    cases ops with
    | nil =>
      rcases Process.step_cases hstep with ⟨e,-,rfl⟩ | ⟨v',file',hop,hr⟩
      · trivial
      · obtain ⟨-,rfl⟩ := hr.resolve_left fun h => List.cons_ne_nil _ _ h.1
        refine ⟨confined_of_onVolume hop (Or.inl rfl) htmp htmp,?_⟩
        rw [FsOp.onVolume] at hop
        split at hop
        · cases hop
        · obtain ⟨rfl,rfl⟩ := Prod.mk.inj (Except.ok.inj hop)
          exact .created ((FileSystem.fileAt_set_file ..).trans (if_pos rfl))
    | cons op ops =>
      rcases Process.step_cases hstep with ⟨e,-,rfl⟩ | ⟨v',file',hop,hr⟩
      · trivial
      · obtain ⟨-,rfl⟩ := hr.resolve_left fun h =>
          List.cons_ne_nil _ _ (List.append_eq_nil_iff.mp h.1).2
        obtain ⟨p,e,rfl,hp⟩ := h _ List.mem_cons_self
        refine ⟨confined_of_onVolume hop (Or.inl rfl) htmp hp,?_⟩
        have hfile : file' = none := by
          rw [FsOp.onVolume] at hop
          split at hop
          · exact (Prod.mk.inj (Except.ok.inj hop)).2.symm
          · cases hop
          · exact (Prod.mk.inj (Except.ok.inj hop)).2.symm
        rw [hfile]
        exact .dirs fun o ho => h o (List.mem_cons_of_mem _ ho)
  | @created i h =>
    rcases Process.step_cases hstep with ⟨e,-,rfl⟩ | ⟨v',file',hop,hr⟩
    · trivial
    · obtain ⟨-,rfl⟩ := hr.resolve_left fun h => List.cons_ne_nil _ _ h.1
      refine ⟨confined_of_onVolume hop (Or.inr ⟨i,rfl,h⟩) htmp trivial,?_⟩
      obtain ⟨rfl,rfl⟩ := Prod.mk.inj (Except.ok.inj hop)
      exact .torn h
  | @torn i h =>
    rcases Process.step_cases hstep with ⟨e,-,rfl⟩ | ⟨v',file',hop,hr⟩
    · trivial
    · obtain ⟨-,rfl⟩ := hr.resolve_left fun h => List.cons_ne_nil _ _ h.1
      refine ⟨confined_of_onVolume hop (Or.inr ⟨i,rfl,h⟩) htmp trivial,?_⟩
      obtain ⟨rfl,rfl⟩ := Prod.mk.inj (Except.ok.inj hop)
      exact .written h (Function.update_self ..)
  | @written i h hc =>
    rcases Process.step_cases hstep with ⟨e,-,rfl⟩ | ⟨v',file',hop,hr⟩
    · trivial
    · obtain ⟨-,rfl⟩ := hr.resolve_right fun h => absurd rfl h.1
      refine ⟨confined_of_onVolume hop (Or.inr ⟨i,rfl,h⟩) (Set.mem_insert tmp _)
        ⟨Set.mem_insert tmp _,Set.mem_insert_of_mem _ rfl⟩,?_⟩
      rw [FsOp.onVolume] at hop
      split at hop
      · cases hop
      · rename_i j hj
        obtain rfl := Option.some.inj (hj.symm.trans h)
        split at hop
        · cases hop
        · obtain ⟨rfl,-⟩ := Prod.mk.inj (Except.ok.inj hop)
          rw [Volume.view_rename,FileSystem.fileAt_set_file,if_pos rfl,hc]

end Writing

section Script
variable {α : Type} {raw : List String} {name : String} {c : α}

theorem mem_mkdirs {start : Path} {comps : List String} {op : FsOp α} (h : op ∈ mkdirs start comps) :
    ∃ p e, op = .mkdir p e ∧ p ∈ walk start comps := by
  induction comps generalizing start with
  | nil => cases h
  | cons s comps ih =>
    rw [mkdirs] at h
    rw [walk]
    split at h
    · rename_i hs
      rw [if_pos hs]
      exact ih h
    · rename_i hs
      rw [if_neg hs]
      rcases List.mem_cons.mp h with rfl | h
      · exact ⟨_,_,rfl,List.mem_cons_self⟩
      · obtain ⟨p,e,rfl,hp⟩ := ih h
        exact ⟨p,e,rfl,List.mem_cons_of_mem _ hp⟩

theorem atomicWriteOps_concat [Contents α] (hn : IsPlain name) : atomicWriteOps (raw ++ [name]) c =
    mkdirs [] (components raw) ++
      writeOps (resolved raw ++ ["." ++ name ++ ".tmp"]) (resolved raw ++ [name]) c := by
  have hne : components raw ++ [name] ≠ [] := by simp
  rw [atomicWriteOps,components_concat hn,if_neg hne,fileName_concat hn,endsPlain_concat hn,
    List.dropLast_concat,List.append_assoc]
  rfl

end Script

end Disk
