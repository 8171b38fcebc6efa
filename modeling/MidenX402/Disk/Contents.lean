import MidenX402.Disk.Frames

/-!
# What all files hold

A property of every file, of where it is and of what is in it.  An operation keeps the property when
what it writes has it; the paths may be raw and lead anywhere.
-/

namespace Disk

section Keeps
variable {α : Type} {Q : Path → α → Prop} {fs fs' : FileSystem α} {p q : Path} {c : α}

def FileSystem.AllFiles (fs : FileSystem α) (Q : Path → α → Prop) : Prop :=
  ∀ p c, fs.fileAt p = some c → Q p c

/-- All files still have the property, and directories stay. -/
structure Keeps (Q : Path → α → Prop) (fs fs' : FileSystem α) : Prop where
  files : fs.AllFiles Q → fs'.AllFiles Q
  dirs : ∀ p, fs.isDir p = true → fs'.isDir p = true

instance : Std.Refl (Keeps Q : FileSystem α → FileSystem α → Prop) := ⟨fun _ => ⟨fun h => h,fun _ h => h⟩⟩

instance : IsTrans (FileSystem α) (Keeps Q) :=
  ⟨fun _ _ _ h h' => ⟨fun hall => h'.files (h.files hall),fun p hp => h'.dirs p (h.dirs p hp)⟩⟩

theorem keeps_of_frame (h : Frame ∅ fs fs') : Keeps Q fs fs' :=
  ⟨fun hall p c hc => hall p c ((h.files p (Set.notMem_empty p)).symm.trans hc),h.dirs⟩

theorem keeps_set_file (hdir : fs.isDir p = false) (h : Q p c) : Keeps Q fs (fs.set p (some (.file c))) := by
  refine ⟨?_,(frame_set_file (Set.mem_singleton p) hdir).dirs⟩
  intro hall r d hd
  rw [FileSystem.fileAt_set] at hd
  split at hd
  · rename_i hr
    obtain rfl := Option.some.inj hd
    rw [hr]
    exact h
  · exact hall r d hd

/-- A file that moves has the property at its new place. -/
theorem keeps_moved (hfile : fs.fileAt p = some c) (hdir : fs.isDir q = false) (h : Q p c → Q q c) :
    Keeps Q fs ((fs.set p none).set q (some (.file c))) := by
  refine ⟨?_,(frame_moved (S := Set.univ) trivial trivial hfile hdir).dirs⟩
  intro hall r d hd
  rw [FileSystem.fileAt_set] at hd
  split at hd
  · rename_i hr
    obtain rfl := Option.some.inj hd
    rw [hr]
    exact h (hall p _ hfile)
  · rw [FileSystem.fileAt_set] at hd
    split at hd
    · cases hd
    · exact hall r d hd

end Keeps

section Operations
variable {α : Type} {Q : Path → α → Prop} {fs fs' : FileSystem α} {p q : Path} {c : α}

theorem createDirAll_keeps {start : Path} {comps : List String} :
    (createDirAll start comps).Steps (Keeps Q) fs :=
  createDirAll_steps.imp fun _ h => keeps_of_frame h

theorem renameFile_keeps (h : ∀ c, fs.fileAt p = some c → Q p c → Q q c) :
    (renameFile p q).Steps (Keeps Q) fs := by
  intro t ht
  obtain ⟨c,hc,hdir,rfl⟩ := visited_renameFile ht
  exact keeps_moved hc hdir (h c hc)

theorem rename_keeps {src dst : List String} (h : ∀ p q c, fs.locate src = some p →
    fs.locate dst = some q → Q p c → Q q c) : (rename src dst).Steps (Keeps Q) fs := by
  intro t ht
  obtain ⟨p,q,hp,hq,ht⟩ := visited_rename ht
  exact renameFile_keeps (fun c _ => h p q c hp hq) t ht

variable [Contents α]

theorem createFile_keeps (h : Q p Contents.empty) : (createFile p).Steps (Keeps Q) fs := by
  intro t ht
  obtain ⟨hdir,rfl⟩ := visited_createFile ht
  exact keeps_set_file hdir h

theorem writeFile_keeps (hdir : fs.isDir p = false) (htorn : Q p Contents.torn) (h : Q p c) :
    (writeFile p c).Steps (Keeps Q) fs := by
  apply Prog.Steps.bind
  · exact Prog.steps_modify (keeps_set_file hdir htorn)
  · intro _ fs1 hexec
    obtain rfl := (Prod.mk.inj (Except.ok.inj hexec)).2
    exact Prog.steps_modify (keeps_set_file ((isDir_set_file _ hdir p).trans hdir) h)

/-- The properties of contents that files have while they are written. -/
structure Unfinished (Q : Path → α → Prop) : Prop where
  empty : ∀ p, Q p Contents.empty
  torn : ∀ p, Q p Contents.torn

/-- An atomic write puts the new content into the directory of its file and nowhere else. -/
theorem atomicWrite_keeps {raw : List String} (hQ : Unfinished Q)
    (h : ∀ name, Q (normalize [] (components raw).dropLast ++ [name]) c) :
    (atomicWrite raw c).Steps (Keeps Q) fs := by
  rw [atomicWrite]
  split
  · exact Prog.steps_fail _
  apply (createDirAll_keeps (Q := Q)).bind
  intro dir fs1 hdir
  obtain ⟨rfl,-,-⟩ := createDirAll_spec hdir
  apply (createFile_keeps (hQ.empty _)).bind
  intro _ fs2 hcreate
  obtain ⟨hnot,rfl⟩ := createFile_spec hcreate
  apply (writeFile_keeps ((isDir_set_file _ hnot _).trans hnot) (hQ.torn _) (h _)).bind
  intro _ fs3 hwrite
  rw [exec_writeFile] at hwrite
  obtain ⟨-,rfl⟩ := Prod.mk.inj (Except.ok.inj hwrite)
  split
  · split
    · apply renameFile_keeps
      intro c' hc' _
      rw [FileSystem.fileAt_set,if_pos rfl] at hc'
      obtain rfl := Option.some.inj hc'
      exact h _
    · exact Prog.steps_fail _
  · exact Prog.steps_fail _

theorem openAppend_keeps {raw : List String} (hQ : Unfinished Q) :
    (openAppend raw).Steps (Keeps Q) fs := by
  intro t ht
  obtain ⟨p,-,hdir,-,rfl⟩ := visited_openAppend ht
  exact keeps_set_file hdir (hQ.empty p)

end Operations

end Disk
