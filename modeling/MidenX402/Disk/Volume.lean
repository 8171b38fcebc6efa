import MidenX402.Disk.Operations

/-!
# Files that stay open

On a volume a name leads to an inode and an open file is its inode, so a file that is renamed or
replaced can still be written through an older opening.  `view` is the file system that the names
show.
-/

namespace Disk

def Node.map {α β : Type} (f : α → β) : Node α → Node β
  | .dir => .dir
  | .file c => .file (f c)

namespace FileSystem
variable {α : Type}

theorem eq_of {fs fs' : FileSystem α} (hnode : fs.node = fs'.node) (hpaths : fs.paths = fs'.paths) :
    fs = fs' := by
  cases fs
  cases fs'
  cases hnode
  cases hpaths
  rfl

theorem set_set (fs : FileSystem α) (p : Path) (n m : Option (Node α)) :
    (fs.set p n).set p m = fs.set p m := by
  apply eq_of
  · exact Function.update_idem ..
  · exact List.insert_of_mem List.mem_insert_self

theorem fileAt_set_file (fs : FileSystem α) (p q : Path) (c : α) :
    (fs.set p (some (.file c))).fileAt q = if q = p then some c else fs.fileAt q := fileAt_set ..

theorem fileAt_set_none (fs : FileSystem α) (p q : Path) :
    (fs.set p none).fileAt q = if q = p then none else fs.fileAt q := fileAt_set ..

end FileSystem

structure Volume (α : Type) where
  tree : FileSystem ℕ
  contents : ℕ → α
  fresh : ℕ
  lt_fresh : ∀ p i, tree.fileAt p = some i → i < fresh
  inj : ∀ p q i, tree.fileAt p = some i → tree.fileAt q = some i → p = q

namespace Volume
variable {α : Type} {v : Volume α} {p q : Path} {i : ℕ} {c : α}

def view (v : Volume α) : FileSystem α where
  node p := (v.tree.node p).map (Node.map v.contents)
  paths := v.tree.paths
  nodup := v.tree.nodup
  mem_paths p n h := by
    obtain ⟨m,hm,-⟩ := Option.map_eq_some_iff.mp h
    exact v.tree.mem_paths p m hm

theorem node_view (v : Volume α) (p : Path) :
    v.view.node p = (v.tree.node p).map (Node.map v.contents) := rfl

theorem isDir_view (v : Volume α) (p : Path) : v.view.isDir p = v.tree.isDir p := by
  rw [FileSystem.isDir,FileSystem.isDir,node_view]
  cases v.tree.node p with
  | none => rfl
  | some n => cases n <;> rfl

theorem fileAt_view (v : Volume α) (p : Path) : v.view.fileAt p = (v.tree.fileAt p).map v.contents := by
  rw [FileSystem.fileAt,FileSystem.fileAt,node_view]
  cases v.tree.node p with
  | none => rfl
  | some n => cases n <;> rfl

theorem resolveDir_view (v : Volume α) (start : Path) (comps : List String) :
    v.view.resolveDir start comps = v.tree.resolveDir start comps := by
  induction comps generalizing start with
  | nil => rfl
  | cons s comps ih =>
    rw [FileSystem.resolveDir,FileSystem.resolveDir,ih,ih,isDir_view]

theorem locate_view (v : Volume α) (raw : List String) : v.view.locate raw = v.tree.locate raw := by
  rw [FileSystem.locate,FileSystem.locate]
  split
  · rfl
  · rw [resolveDir_view]

def makeDir (v : Volume α) (p : Path) : Volume α where
  tree := v.tree.set p (some .dir)
  contents := v.contents
  fresh := v.fresh
  lt_fresh q i hq := by
    rw [FileSystem.fileAt_set] at hq
    split at hq
    · cases hq
    · exact v.lt_fresh q i hq
  inj q r i hq hr := by
    rw [FileSystem.fileAt_set] at hq hr
    split at hq
    · cases hq
    · split at hr
      · cases hr
      · exact v.inj q r i hq hr

/-- The inode that is opened when a file is created. -/
def opened (v : Volume α) (p : Path) : ℕ := (v.tree.fileAt p).getD v.fresh

theorem eq_of_opened (h : v.tree.fileAt q = some (v.opened p)) : q = p := by
  cases hp : v.tree.fileAt p with
  | none =>
    rw [opened,hp,Option.getD_none] at h
    exact absurd (v.lt_fresh q _ h) (Nat.lt_irrefl _)
  | some i =>
    rw [opened,hp,Option.getD_some] at h
    exact v.inj q p i h hp

/-- `File::create`: the file at the path is emptied, or there is a new one. -/
def create (v : Volume α) (p : Path) (c : α) : Volume α where
  tree := v.tree.set p (some (.file (v.opened p)))
  contents := Function.update v.contents (v.opened p) c
  fresh := max v.fresh (v.opened p + 1)
  lt_fresh q i hq := by
    rw [FileSystem.fileAt_set_file] at hq
    split at hq
    · rw [← Option.some.inj hq]
      exact Nat.lt_of_lt_of_le (Nat.lt_succ_self _) (Nat.le_max_right ..)
    · exact Nat.lt_of_lt_of_le (v.lt_fresh q i hq) (Nat.le_max_left ..)
  inj q r i hq hr := by
    rw [FileSystem.fileAt_set_file] at hq hr
    split at hq
    · rename_i hqp
      split at hr
      · rename_i hrp
        rw [hqp,hrp]
      · rw [← hq] at hr
        rw [eq_of_opened hr,hqp]
    · split at hr
      · rename_i hrp
        rw [← hr] at hq
        rw [eq_of_opened hq,hrp]
      · exact v.inj q r i hq hr

/-- A write through an open file. -/
def write (v : Volume α) (i : ℕ) (c : α) : Volume α where
  tree := v.tree
  contents := Function.update v.contents i c
  fresh := v.fresh
  lt_fresh := v.lt_fresh
  inj := v.inj

/-- `fs::rename` of the file with the inode at `p`, in place of the one at `q`. -/
def rename (v : Volume α) (p q : Path) (i : ℕ) (h : v.tree.fileAt p = some i) : Volume α where
  tree := (v.tree.set p none).set q (some (.file i))
  contents := v.contents
  fresh := v.fresh
  lt_fresh r j hr := by
    rw [FileSystem.fileAt_set_file,FileSystem.fileAt_set_none] at hr
    split at hr
    · rw [← Option.some.inj hr]
      exact v.lt_fresh p i h
    · split at hr
      · cases hr
      · exact v.lt_fresh r j hr
  inj r s j hr hs := by
    rw [FileSystem.fileAt_set_file,FileSystem.fileAt_set_none] at hr hs
    have hinj := v.inj
    grind

theorem view_makeDir (v : Volume α) (p : Path) : (v.makeDir p).view = v.view.set p (some .dir) := by
  apply FileSystem.eq_of
  · funext q
    by_cases hq : q = p
    · subst hq
      simp [view,makeDir,FileSystem.set,Node.map]
    · simp [view,makeDir,FileSystem.set,Function.update_of_ne hq]
  · rfl

/-- Only the file that is opened changes. -/
theorem view_create (c : α) : (v.create p c).view = v.view.set p (some (.file c)) := by
  apply FileSystem.eq_of
  · funext q
    by_cases hq : q = p
    · subst hq
      simp [view,create,FileSystem.set,Node.map]
    · have hnode : ∀ n, v.tree.node q = some n →
          n.map (Function.update v.contents (v.opened p) c) = n.map v.contents := by
        intro n hn
        cases n with
        | dir => rfl
        | file i =>
          have hi : i ≠ v.opened p := by
            rintro rfl
            exact hq (eq_of_opened (FileSystem.fileAt_of_node hn))
          rw [Node.map,Node.map,Function.update_of_ne hi]
      simp only [view,create,FileSystem.set,Function.update_of_ne hq]
      cases hn : v.tree.node q with
      | none => rfl
      | some n => exact congrArg some (hnode n hn)
  · rfl

/-- A write through a file whose name is known. -/
theorem view_write (h : v.tree.fileAt p = some i) :
    (v.write i c).view = v.view.set p (some (.file c)) := by
  have hp := FileSystem.node_of_fileAt h
  apply FileSystem.eq_of
  · funext q
    by_cases hq : q = p
    · subst hq
      simp [view,write,FileSystem.set,Node.map,hp]
    · simp only [view,write,FileSystem.set,Function.update_of_ne hq]
      cases hn : v.tree.node q with
      | none => rfl
      | some n =>
        cases n with
        | dir => rfl
        | file j =>
          have hj : j ≠ i := by
            rintro rfl
            exact hq (v.inj q p j (FileSystem.fileAt_of_node hn) h)
          simp only [Option.map_some,Node.map,Function.update_of_ne hj]
  · exact (List.insert_of_mem (v.tree.mem_paths p _ hp)).symm

theorem view_rename (h : v.tree.fileAt p = some i) : (v.rename p q i h).view =
    (v.view.set p none).set q (some (.file (v.contents i))) := by
  apply FileSystem.eq_of
  · funext r
    by_cases hq : r = q
    · subst hq
      simp [view,rename,FileSystem.set,Node.map]
    · by_cases hp : r = p
      · subst hp
        simp [view,rename,FileSystem.set,Function.update_of_ne hq]
      · simp [view,rename,FileSystem.set,Function.update_of_ne hq,Function.update_of_ne hp]
  · rfl

end Volume

end Disk
