import Mathlib.Logic.Function.Basic
import Mathlib.Data.Nat.Notation

/-!
# Mutexes made on demand, one for each key

A table hands out the mutex of a key and makes one when there is none yet.  Looking a key up and
inserting it are two operations, so several threads can miss the same key; inserting looks again.
-/

namespace KeyedLock

structure Table (κ : Type) where
  ids : κ → Option ℕ
  next : ℕ
  holder : ℕ → Option ℕ

namespace Table
variable {κ : Type} [DecidableEq κ]

def empty : Table κ := ⟨fun _ => none,0,fun _ => none⟩

def get (t : Table κ) (k : κ) : Option ℕ := t.ids k

def insert (t : Table κ) (k : κ) : Table κ :=
  { t with ids := Function.update t.ids k (some t.next), next := t.next + 1 }

/-- `entry(k).or_insert_with(..)`. -/
def getOrInsert (t : Table κ) (k : κ) : Table κ × ℕ :=
  match t.ids k with
  | some m => (t,m)
  | none => (t.insert k,t.next)

def acquire (t : Table κ) (m thread : ℕ) : Option (Table κ) :=
  match t.holder m with
  | none => some { t with holder := Function.update t.holder m (some thread) }
  | some _ => none

def release (t : Table κ) (m : ℕ) : Table κ := { t with holder := Function.update t.holder m none }

/-- Different keys have different mutexes. -/
structure Sound (t : Table κ) : Prop where
  lt_next : ∀ k m, t.ids k = some m → m < t.next
  inj : ∀ k k' m, t.ids k = some m → t.ids k' = some m → k = k'

omit [DecidableEq κ] in
theorem sound_empty : (empty : Table κ).Sound := ⟨nofun,nofun⟩

theorem getOrInsert_ids (t : Table κ) (k : κ) : (t.getOrInsert k).1.ids k = some (t.getOrInsert k).2 := by
  rw [getOrInsert]
  cases h : t.ids k with
  | some m => exact h
  | none => exact Function.update_self ..

/-- A mutex handed out once stays the mutex of its key. -/
theorem getOrInsert_mono (t : Table κ) (k k' : κ) (m : ℕ) (h : t.ids k' = some m) :
    (t.getOrInsert k).1.ids k' = some m := by
  rw [getOrInsert]
  cases hk : t.ids k with
  | some _ => exact h
  | none =>
    have hne : k' ≠ k := by
      rintro rfl
      rw [hk] at h
      cases h
    exact (Function.update_of_ne hne ..).trans h

theorem getOrInsert_holder (t : Table κ) (k : κ) : (t.getOrInsert k).1.holder = t.holder := by
  rw [getOrInsert]
  cases t.ids k <;> rfl

theorem ids_insert (t : Table κ) (k k' : κ) :
    (t.insert k).ids k' = if k' = k then some t.next else t.ids k' :=
  Function.update_apply ..

theorem Sound.insert {t : Table κ} (ht : t.Sound) (k : κ) : (t.insert k).Sound := by
  have hnew : ∀ k' m, t.ids k' = some m → m ≠ t.next := by
    intro k' m h he
    have hlt := ht.lt_next k' m h
    omega
  constructor
  · intro k' m h
    rw [ids_insert] at h
    split at h
    · rw [← Option.some.inj h]
      exact Nat.lt_succ_self _
    · exact Nat.lt_succ_of_lt (ht.lt_next k' m h)
  · intro k' k'' m h h'
    rw [ids_insert] at h h'
    split at h <;> split at h'
    · rename_i hk' hk''
      rw [hk',hk'']
    · exact absurd (Option.some.inj h).symm (hnew k'' m h')
    · exact absurd (Option.some.inj h').symm (hnew k' m h)
    · exact ht.inj k' k'' m h h'

theorem Sound.getOrInsert {t : Table κ} (ht : t.Sound) (k : κ) : (t.getOrInsert k).1.Sound := by
  rw [Table.getOrInsert]
  cases t.ids k with
  | some m => exact ht
  | none => exact ht.insert k

end Table

end KeyedLock
