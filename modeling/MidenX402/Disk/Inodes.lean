import MidenX402.Disk.Operations

/-!
# Open files

Between the steps of a program its files can be renamed and replaced by another program.  A name leads
to an inode; a file that is open is the inode, whatever happens to its name.  No two names lead to
one inode.
-/

namespace Disk

structure Inodes (α : Type) where
  names : Path → Option ℕ
  contents : ℕ → α
  fresh : ℕ
  lt_fresh : ∀ p i, names p = some i → i < fresh
  inj : ∀ p q i, names p = some i → names q = some i → p = q

namespace Inodes
variable {α : Type}

def empty [Contents α] : Inodes α where
  names _ := none
  contents _ := Contents.empty
  fresh := 0
  lt_fresh _ _ h := by cases h
  inj _ _ _ h := by cases h

def fileAt (fs : Inodes α) (p : Path) : Option α := (fs.names p).map fs.contents

/-- A write through an open file. -/
def write (fs : Inodes α) (i : ℕ) (c : α) : Inodes α where
  names := fs.names
  contents := Function.update fs.contents i c
  fresh := fs.fresh
  lt_fresh := fs.lt_fresh
  inj := fs.inj

/-- The inode that is opened when a file is created. -/
def opened (fs : Inodes α) (p : Path) : ℕ := (fs.names p).getD fs.fresh

theorem opened_of_some {fs : Inodes α} {p : Path} {i : ℕ} (h : fs.names p = some i) :
    fs.opened p = i := by
  rw [opened,h,Option.getD_some]

theorem opened_of_none {fs : Inodes α} {p : Path} (h : fs.names p = none) :
    fs.opened p = fs.fresh := by
  rw [opened,h,Option.getD_none]

theorem eq_of_names_opened {fs : Inodes α} {p q : Path} (h : fs.names q = some (fs.opened p)) :
    q = p := by
  cases hp : fs.names p with
  | none =>
    rw [opened_of_none hp] at h
    exact absurd (fs.lt_fresh q _ h) (Nat.lt_irrefl _)
  | some i =>
    rw [opened_of_some hp] at h
    exact fs.inj q p i h hp

/-- `File::create`: the file at the path is truncated, or there is a new one. -/
def create [Contents α] (fs : Inodes α) (p : Path) : Inodes α where
  names := Function.update fs.names p (some (fs.opened p))
  contents := Function.update fs.contents (fs.opened p) Contents.empty
  fresh := max fs.fresh (fs.opened p + 1)
  lt_fresh q i h := by
    by_cases hq : q = p
    · subst hq
      rw [Function.update_self] at h
      obtain rfl := Option.some.inj h
      exact Nat.lt_of_lt_of_le (Nat.lt_succ_self _) (Nat.le_max_right ..)
    · rw [Function.update_of_ne hq] at h
      exact Nat.lt_of_lt_of_le (fs.lt_fresh q i h) (Nat.le_max_left ..)
  inj q r i hq hr := by
    by_cases hqp : q = p
    · by_cases hrp : r = p
      · rw [hqp,hrp]
      · subst hqp
        rw [Function.update_self] at hq
        rw [Function.update_of_ne hrp,← hq] at hr
        exact (eq_of_names_opened hr).symm
    · rw [Function.update_of_ne hqp] at hq
      by_cases hrp : r = p
      · subst hrp
        rw [Function.update_self] at hr
        rw [← hr] at hq
        exact eq_of_names_opened hq
      · rw [Function.update_of_ne hrp] at hr
        exact fs.inj q r i hq hr

/-- `fs::rename` of the file at `p`, in place of the one at `q`. -/
def rename (fs : Inodes α) (p q : Path) : Inodes α where
  names := Function.update (Function.update fs.names p none) q (fs.names p)
  contents := fs.contents
  fresh := fs.fresh
  lt_fresh r i h := by
    simp only [Function.update_apply] at h
    split at h
    · exact fs.lt_fresh p i h
    · split at h
      · cases h
      · exact fs.lt_fresh r i h
  inj r r' i h h' := by
    simp only [Function.update_apply] at h h'
    have hinj := fs.inj
    grind

section Lemmas
variable {fs : Inodes α} {p q : Path} {i j : ℕ} {c : α}

@[simp] theorem names_write : (fs.write i c).names = fs.names := rfl

@[simp] theorem contents_write_self : (fs.write i c).contents i = c := Function.update_self ..

theorem contents_write_of_ne (h : j ≠ i) : (fs.write i c).contents j = fs.contents j :=
  Function.update_of_ne h ..

theorem names_create_self [Contents α] : (fs.create p).names p = some (fs.opened p) :=
  Function.update_self ..

theorem names_create_of_ne [Contents α] (h : q ≠ p) : (fs.create p).names q = fs.names q :=
  Function.update_of_ne h ..

theorem contents_create_of_ne [Contents α] (h : j ≠ fs.opened p) :
    (fs.create p).contents j = fs.contents j := Function.update_of_ne h ..

@[simp] theorem contents_rename : (fs.rename p q).contents = fs.contents := rfl

theorem names_rename_self : (fs.rename p q).names q = fs.names p := Function.update_self ..

theorem names_rename_of_ne {r : Path} (hp : r ≠ p) (hq : r ≠ q) :
    (fs.rename p q).names r = fs.names r :=
  (Function.update_of_ne hq ..).trans (Function.update_of_ne hp ..)

theorem names_rename_gone (h : p ≠ q) : (fs.rename p q).names p = none :=
  (Function.update_of_ne h ..).trans (Function.update_self ..)

end Lemmas

end Inodes

end Disk
