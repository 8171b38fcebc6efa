import Mathlib.Data.List.Basic
import Mathlib.Data.List.Nodup
import Mathlib.Data.Nat.Notation

/-!
# Ledgers of state changes

Every entry is numbered and names the state it was built on and the state it leads to.
-/

namespace Ledger

structure Entry (σ : Type) where
  seq : ℕ
  base : σ
  next : σ

section Chains
variable {σ : Type}

/-- The state the entries lead to. -/
def tip (initial : σ) : List (Entry σ) → σ
  | [] => initial
  | e :: es => tip e.next es

/-- All states passed, the initial one first. -/
def states (initial : σ) (es : List (Entry σ)) : List σ := initial :: es.map Entry.next

/-- The entries are numbered on from `n` and each is built on the state before it. -/
def Chained (initial : σ) (n : ℕ) : List (Entry σ) → Prop
  | [] => True
  | e :: es => e.seq = n + 1 ∧ e.base = initial ∧ Chained e.next (n + 1) es

theorem tip_append (initial : σ) (es : List (Entry σ)) (e : Entry σ) :
    tip initial (es ++ [e]) = e.next := by
  induction es generalizing initial with
  | nil => rfl
  | cons _ es ih => exact ih _

theorem chained_append {initial : σ} {n : ℕ} {es : List (Entry σ)} {e : Entry σ}
    (h : Chained initial n es) (hseq : e.seq = n + es.length + 1) (hbase : e.base = tip initial es) :
    Chained initial n (es ++ [e]) := by
  induction es generalizing initial n with
  | nil => exact ⟨hseq,hbase,trivial⟩
  | cons x es ih =>
    refine ⟨h.1,h.2.1,ih h.2.2 ?_ hbase⟩
    rw [hseq,List.length_cons]
    omega

theorem Chained.of_append {initial : σ} {n : ℕ} {es : List (Entry σ)} {e : Entry σ}
    (h : Chained initial n (es ++ [e])) : Chained initial n es ∧ e.base = tip initial es := by
  induction es generalizing initial n with
  | nil => exact ⟨trivial,h.2.1⟩
  | cons x es ih =>
    obtain ⟨hes,hbase⟩ := ih h.2.2
    exact ⟨⟨h.1,h.2.1,hes⟩,hbase⟩

theorem Chained.map_seq {initial : σ} {n : ℕ} {es : List (Entry σ)} (h : Chained initial n es) :
    es.map Entry.seq = List.range' (n + 1) es.length := by
  induction es generalizing initial n with
  | nil => rfl
  | cons e es ih => rw [List.map_cons,h.1,ih h.2.2,List.length_cons,List.range'_succ]

theorem Chained.map_base {initial : σ} {n : ℕ} {es : List (Entry σ)} (h : Chained initial n es) :
    es.map Entry.base = (states initial es).dropLast := by
  induction es generalizing initial n with
  | nil => rfl
  | cons e es ih =>
    rw [List.map_cons,h.2.1,ih h.2.2]
    rfl

theorem getLast?_states (initial : σ) (es : List (Entry σ)) :
    (states initial es).getLast? = some (tip initial es) := by
  induction es generalizing initial with
  | nil => rfl
  | cons e es ih => exact ih e.next

/-- Where no state repeats, an entry built on the state reached by `k` entries has number `k + 1`. -/
theorem Chained.seq_of_base {initial : σ} {es : List (Entry σ)} (h : Chained initial 0 es)
    (hnodup : (states initial es).Nodup) {e : Entry σ} (he : e ∈ es) {k : ℕ}
    (hk : (states initial es)[k]? = some e.base) : e.seq = k + 1 := by
  obtain ⟨i,hi,rfl⟩ := List.getElem_of_mem he
  have hbase : (states initial es)[i]? = some es[i].base := by
    have hmap : (es.map Entry.base)[i]? = some es[i].base := by
      rw [List.getElem?_map,List.getElem?_eq_getElem hi,Option.map_some]
    rw [h.map_base,List.getElem?_dropLast] at hmap
    split at hmap
    · exact hmap
    · cases hmap
  have hki : k = i := by
    have hlt : k < (states initial es).length := (List.getElem?_eq_some_iff.mp hk).1
    exact (List.getElem?_inj hlt hnodup).mp (hk.trans hbase.symm)
  have hseq : (es.map Entry.seq)[i]? = some es[i].seq := by
    rw [List.getElem?_map,List.getElem?_eq_getElem hi,Option.map_some]
  rw [h.map_seq,List.getElem?_range' hi] at hseq
  have hval := Option.some.inj hseq
  omega

end Chains

end Ledger
