import Mathlib.Data.ZMod.Basic

/-!
# The stack machine

Miden assembly run on an operand stack, a flat memory, an advice stack and an advice map.  A
procedure is a partial function on machine states; `none` is a trap.  The operand stack is listed
from its top, and below the last listed element the machine supplies zeros, so popping an empty list
yields zero and leaves it empty.  The host state carried along is arbitrary.
-/

namespace Masm

/-- The order of the base field, `2^64 - 2^32 + 1`. -/
def fieldOrder : ℕ := 2 ^ 64 - 2 ^ 32 + 1

abbrev Felt := ZMod fieldOrder

instance : NeZero fieldOrder := ⟨by decide⟩

theorem fieldOrder_lt : fieldOrder < 2 ^ 64 := by decide

/-- `Felt::new`: any 64-bit value, reduced modulo the field order. -/
def Felt.new (x : UInt64) : Felt := (x.toNat : Felt)

theorem Felt.new_eq_new_iff (a b : UInt64) :
    Felt.new a = Felt.new b ↔ a.toNat ≡ b.toNat [MOD fieldOrder] :=
  ZMod.natCast_eq_natCast_iff _ _ _

theorem Felt.new_eq_zero_iff (a : UInt64) : Felt.new a = 0 ↔ fieldOrder ∣ a.toNat :=
  ZMod.natCast_eq_zero_iff _ _

theorem Felt.val_new_le (a : UInt64) : (Felt.new a).val ≤ a.toNat := by
  rw [Felt.new,ZMod.val_natCast]
  exact Nat.mod_le _ _

theorem Felt.val_new {a : UInt64} (h : a.toNat < fieldOrder) : (Felt.new a).val = a.toNat :=
  ZMod.val_cast_of_lt h

theorem Felt.val_lt (a : Felt) : a.val < fieldOrder :=
  ZMod.val_lt a

/-- The `u64` that represents a field element, `as_canonical_u64`. -/
def Felt.asCanonicalU64 (a : Felt) : UInt64 := UInt64.ofNat a.val

theorem Felt.toNat_asCanonicalU64 (a : Felt) : a.asCanonicalU64.toNat = a.val := by
  have h : a.val < 2 ^ 64 := (Felt.val_lt a).trans fieldOrder_lt
  simpa [Felt.asCanonicalU64,UInt64.toNat_ofNat'] using h

@[simp] theorem Felt.new_asCanonicalU64 (a : Felt) : Felt.new a.asCanonicalU64 = a := by
  rw [Felt.new,Felt.toNat_asCanonicalU64,ZMod.natCast_zmod_val]

/-- Subtraction wraps around exactly when the subtrahend is the larger representative. -/
theorem Felt.val_sub_of_lt {a b : Felt} (h : a.val < b.val) :
    (a - b).val = fieldOrder + a.val - b.val := by
  have hb := Felt.val_lt b
  have he : a - b = ((fieldOrder + a.val - b.val : ℕ) : Felt) := by
    rw [Nat.cast_sub (by omega),Nat.cast_add,ZMod.natCast_zmod_val,ZMod.natCast_zmod_val,
      CharP.cast_eq_zero,zero_add]
  rw [he,ZMod.val_natCast_of_lt (by omega)]

theorem Felt.add_natCast_inj {a : Felt} {i j : ℕ} (hi : i < fieldOrder) (hj : j < fieldOrder)
    (h : a + (i : Felt) = a + (j : Felt)) : i = j := by
  have hc : (i : Felt) = (j : Felt) := add_left_cancel h
  have hv := congrArg ZMod.val hc
  rwa [ZMod.val_natCast_of_lt hi,ZMod.val_natCast_of_lt hj] at hv

theorem Felt.zero_ne_one : (0 : Felt) ≠ 1 := by decide

theorem Felt.ne_add_one (a : Felt) : a ≠ a + 1 := by
  intro h
  exact Felt.zero_ne_one (left_eq_add.mp h).symm

/-- Four field elements; the element of index zero is nearest the top of the stack. -/
structure Word where
  e0 : Felt
  e1 : Felt
  e2 : Felt
  e3 : Felt
deriving DecidableEq

namespace Word

def zero : Word := ⟨0,0,0,0⟩

def ofNats (a b c d : ℕ) : Word := ⟨a,b,c,d⟩

def toList (w : Word) : List Felt := [w.e0,w.e1,w.e2,w.e3]

/-- The stack with the word on top of it. -/
def push (w : Word) (stack : List Felt) : List Felt :=
  w.e0 :: w.e1 :: w.e2 :: w.e3 :: stack

@[simp] theorem push_mk (a b c d : Felt) (stack : List Felt) :
    push ⟨a,b,c,d⟩ stack = a :: b :: c :: d :: stack := rfl

end Word

structure State (Host : Type) where
  stack : List Felt
  mem : ℕ → Felt
  advStack : List Felt
  advMap : Word → Option (List Felt)
  host : Host

abbrev Proc (Host : Type) := State Host → Option (State Host)

section Instructions
variable {Host : Type}

def block : List (Proc Host) → Proc Host
  | [] => some
  | i :: is => fun s => (i s).bind (block is)

@[simp] theorem block_nil (s : State Host) : block [] s = some s := rfl

theorem block_cons (i : Proc Host) (is : List (Proc Host)) (s : State Host) :
    block (i :: is) s = (i s).bind (block is) := rfl

theorem block_append (is js : List (Proc Host)) (s : State Host) :
    block (is ++ js) s = (block is s).bind (block js) := by
  induction is generalizing s with
  | nil => rfl
  | cons i is ih =>
    rw [List.cons_append,block_cons,block_cons,Option.bind_assoc]
    congr 1
    funext t
    exact ih t

/-- The element at a given depth, zero below the listed elements. -/
def peek (stack : List Felt) (depth : ℕ) : Felt := stack.getD depth 0

/-- At least `n` listed elements. -/
def fill (n : ℕ) (stack : List Felt) : List Felt :=
  stack ++ List.replicate (n - stack.length) 0

def push (v : Felt) : Proc Host := fun s => some { s with stack := v :: s.stack }

def padw : Proc Host := fun s => some { s with stack := Word.zero.push s.stack }

def drop : Proc Host := fun s => some { s with stack := s.stack.tail }

def dropw : Proc Host := fun s => some { s with stack := s.stack.drop 4 }

def dupw (n : ℕ) : Proc Host := fun s =>
  some { s with stack := ((fill (4 * n + 4) s.stack).drop (4 * n)).take 4 ++ s.stack }

def swap (n : ℕ) : Proc Host := fun s =>
  let t := fill (n + 1) s.stack
  some { s with stack := (t.set 0 (peek t n)).set n (peek t 0) }

def movup (n : ℕ) : Proc Host := fun s =>
  let t := fill (n + 1) s.stack
  some { s with stack := peek t n :: t.eraseIdx n }

/-- Replace the two topmost elements, `b` above `a`, by `f a b`. -/
def binop (f : Felt → Felt → Felt) : Proc Host := fun s =>
  some { s with stack := f (peek s.stack 1) (peek s.stack 0) :: s.stack.drop 2 }

def add : Proc Host := binop (· + ·)

def sub : Proc Host := binop (· - ·)

def gt : Proc Host := binop fun a b => if b.val < a.val then 1 else 0

/-- Addresses of memory cells are 32-bit. -/
def addressBound : ℕ := 2 ^ 32

def memStore (a : ℕ) : Proc Host := fun s =>
  some { s with mem := Function.update s.mem a (peek s.stack 0), stack := s.stack.tail }

def memLoad (a : ℕ) : Proc Host := fun s => some { s with stack := s.mem a :: s.stack }

/-- `mem_load` with the address taken from the stack. -/
def memLoadTop : Proc Host := fun s =>
  let a := (peek s.stack 0).val
  if a < addressBound then some { s with stack := s.mem a :: s.stack.tail } else none

def memWord (mem : ℕ → Felt) (a : ℕ) : Word := ⟨mem a,mem (a + 1),mem (a + 2),mem (a + 3)⟩

/-- The listed values, in consecutive cells from `a`. -/
def memHolds (mem : ℕ → Felt) (a : ℕ) (xs : List Felt) : Prop :=
  ∀ i x, xs[i]? = some x → mem (a + i) = x

/-- `mem_loadw_le`: pop a word-aligned address and overwrite the next four elements with the word
stored there, its lowest address on top. -/
def memLoadwLe : Proc Host := fun s =>
  let a := (peek s.stack 0).val
  if a < addressBound ∧ a % 4 = 0 then
    some { s with stack := (memWord s.mem a).push (s.stack.drop 5) }
  else none

def ifTrue (thn els : Proc Host) : Proc Host := fun s =>
  let t := { s with stack := s.stack.tail }
  if peek s.stack 0 = 1 then thn t
  else if peek s.stack 0 = 0 then els t
  else none

def topWord (stack : List Felt) : Word :=
  ⟨peek stack 0,peek stack 1,peek stack 2,peek stack 3⟩

/-- `adv.has_mapkey`: push onto the advice stack whether the top word is a key of the advice map. -/
def advHasMapkey : Proc Host := fun s =>
  some { s with advStack := (if (s.advMap (topWord s.stack)).isSome then 1 else 0) :: s.advStack }

/-- `adv.push_mapval`: prepend the values stored under the top word to the advice stack. -/
def advPushMapval : Proc Host := fun s =>
  (s.advMap (topWord s.stack)).map fun vs => { s with advStack := vs ++ s.advStack }

/-- `adv_push.1`. -/
def advPush : Proc Host := fun s =>
  match s.advStack with
  | [] => none
  | v :: vs => some { s with stack := v :: s.stack, advStack := vs }

/-- `call`: the callee sees the sixteen topmost elements and a memory of its own, and must return
with a stack of depth sixteen. -/
def call (p : Proc Host) : Proc Host := fun s =>
  (p { s with stack := (fill 16 s.stack).take 16, mem := fun _ => 0 }).bind fun t =>
    if t.stack.length ≤ 16 then
      some { t with stack := fill 16 t.stack ++ s.stack.drop 16, mem := s.mem }
    else none

end Instructions

section SymbolicExecution
variable {Host : Type} (a b c d e v : Felt) (st : List Felt) (m : ℕ → Felt) (av : List Felt)
  (am : Word → Option (List Felt)) (h : Host)

@[simp] theorem peek_zero : peek (a :: st) 0 = a := rfl

@[simp] theorem peek_succ (n : ℕ) : peek (a :: st) (n + 1) = peek st n := rfl

@[simp] theorem memHolds_nil (i : ℕ) : memHolds m i [] := by
  intro i x hx
  simp at hx

theorem memHolds.of_append {i : ℕ} {xs ys : List Felt} {m : ℕ → Felt} (hm : memHolds m i (xs ++ ys)) :
    memHolds m i xs := by
  intro j x hx
  have hj : j < xs.length := (List.getElem?_eq_some_iff.mp hx).1
  apply hm j x
  rw [List.getElem?_append_left hj,hx]

@[simp] theorem memHolds_cons (i : ℕ) (x : Felt) (xs : List Felt) :
    memHolds m i (x :: xs) ↔ m i = x ∧ memHolds m (i + 1) xs := by
  constructor
  · intro hm
    refine ⟨hm 0 x rfl,?_⟩
    intro j y hy
    rw [add_assoc,add_comm 1 j]
    exact hm (j + 1) y hy
  · rintro ⟨hx,hxs⟩ j y hy
    cases j with
    | zero => simpa [hx] using hy
    | succ j =>
      rw [add_comm j 1,← add_assoc]
      exact hxs j y hy

@[simp] theorem topWord_push (w : Word) : topWord (w.push st) = w := rfl

@[simp] theorem topWord_cons : topWord (a :: b :: c :: d :: st) = ⟨a,b,c,d⟩ := rfl

@[simp] theorem fill_of_le (n : ℕ) (hn : n ≤ st.length) : fill n st = st := by
  simp [fill,Nat.sub_eq_zero_of_le hn]

theorem run_push : push v ⟨st,m,av,am,h⟩ = some ⟨v :: st,m,av,am,h⟩ := rfl

theorem run_padw : padw ⟨st,m,av,am,h⟩ = some ⟨0 :: 0 :: 0 :: 0 :: st,m,av,am,h⟩ := rfl

theorem run_drop : drop ⟨a :: st,m,av,am,h⟩ = some ⟨st,m,av,am,h⟩ := rfl

theorem run_dropw_push (w : Word) : dropw ⟨w.push st,m,av,am,h⟩ = some ⟨st,m,av,am,h⟩ := rfl

theorem run_dupw_one (w x : Word) :
    dupw 1 ⟨w.push (x.push st),m,av,am,h⟩ = some ⟨x.push (w.push (x.push st)),m,av,am,h⟩ := by
  simp [dupw,Word.push]

theorem run_swap_one : swap 1 ⟨a :: b :: st,m,av,am,h⟩ = some ⟨b :: a :: st,m,av,am,h⟩ := by
  simp [swap]

theorem run_swap_three :
    swap 3 ⟨a :: b :: c :: d :: st,m,av,am,h⟩ = some ⟨d :: b :: c :: a :: st,m,av,am,h⟩ := by
  simp [swap]

theorem run_movup_three :
    movup 3 ⟨a :: b :: c :: d :: st,m,av,am,h⟩ = some ⟨d :: a :: b :: c :: st,m,av,am,h⟩ := by
  simp [movup]

theorem run_add : add ⟨b :: a :: st,m,av,am,h⟩ = some ⟨(a + b) :: st,m,av,am,h⟩ := rfl

theorem run_sub : sub ⟨b :: a :: st,m,av,am,h⟩ = some ⟨(a - b) :: st,m,av,am,h⟩ := rfl

theorem run_gt : gt ⟨b :: a :: st,m,av,am,h⟩ =
    some ⟨(if b.val < a.val then 1 else 0) :: st,m,av,am,h⟩ := rfl

theorem run_memStore (i : ℕ) :
    memStore i ⟨a :: st,m,av,am,h⟩ = some ⟨st,Function.update m i a,av,am,h⟩ := rfl

theorem run_memLoad (i : ℕ) : memLoad i ⟨st,m,av,am,h⟩ = some ⟨m i :: st,m,av,am,h⟩ := rfl

theorem run_memLoadTop (ha : a.val < addressBound) :
    memLoadTop ⟨a :: st,m,av,am,h⟩ = some ⟨m a.val :: st,m,av,am,h⟩ :=
  if_pos ha

theorem run_memLoadwLe (ha : e.val < addressBound ∧ e.val % 4 = 0) :
    memLoadwLe ⟨e :: a :: b :: c :: d :: st,m,av,am,h⟩ =
      some ⟨(memWord m e.val).push st,m,av,am,h⟩ :=
  if_pos ha

theorem run_ifTrue_one (thn els : Proc Host) :
    ifTrue thn els ⟨1 :: st,m,av,am,h⟩ = thn ⟨st,m,av,am,h⟩ := by
  simp [ifTrue]

theorem run_ifTrue_zero (thn els : Proc Host) :
    ifTrue thn els ⟨0 :: st,m,av,am,h⟩ = els ⟨st,m,av,am,h⟩ := by
  simp [ifTrue,Felt.zero_ne_one]

theorem run_advHasMapkey (w : Word) :
    advHasMapkey ⟨w.push st,m,av,am,h⟩ =
      some ⟨w.push st,m,(if (am w).isSome then 1 else 0) :: av,am,h⟩ := rfl

theorem run_advPushMapval (w : Word) :
    advPushMapval ⟨w.push st,m,av,am,h⟩ =
      (am w).map fun vs => ⟨w.push st,m,vs ++ av,am,h⟩ := rfl

theorem run_advPush : advPush ⟨st,m,v :: av,am,h⟩ = some ⟨v :: st,m,av,am,h⟩ := rfl

theorem length_fill (n : ℕ) : (fill n st).length = max n st.length := by
  rw [fill,List.length_append,List.length_replicate]
  omega

theorem run_call_of_le (p : Proc Host) (hst : st.length ≤ 16) :
    call p ⟨st,m,av,am,h⟩ =
      (p ⟨fill 16 st,fun _ => 0,av,am,h⟩).bind fun t =>
        if t.stack.length ≤ 16 then some { t with stack := fill 16 t.stack, mem := m }
        else none := by
  have htake : (fill 16 st).take 16 = fill 16 st := by
    apply List.take_of_length_le
    rw [length_fill]
    omega
  simp only [call,htake,List.drop_of_length_le hst,List.append_nil]

end SymbolicExecution

section Simulation
variable {Host : Type}

/-- A run simulates an effect on the host: it traps where the effect is undefined, and otherwise
ends with the host the effect yields, in a state that satisfies `Q`. -/
def Realises (run : Option (State Host)) (effect : Option Host) (Q : State Host → Prop) : Prop :=
  match effect with
  | none => run = none
  | some h => ∃ t, run = some t ∧ t.host = h ∧ Q t

theorem Realises.map_host {run : Option (State Host)} {effect : Option Host}
    {Q : State Host → Prop} (hr : Realises run effect Q) : run.map State.host = effect := by
  cases effect with
  | none =>
    have hnone : run = none := hr
    rw [hnone]
    rfl
  | some h =>
    obtain ⟨t,rfl,rfl,_⟩ := hr
    rfl

theorem Realises.bind {run : Option (State Host)} {effect : Option Host}
    {Q R : State Host → Prop} {next : Proc Host} {effect' : Host → Option Host}
    (hr : Realises run effect Q)
    (hnext : ∀ t, Q t → Realises (next t) (effect' t.host) R) :
    Realises (run.bind next) (effect.bind effect') R := by
  cases effect with
  | none =>
    have hnone : run = none := hr
    rw [hnone]
    rfl
  | some h =>
    obtain ⟨t,rfl,rfl,hQ⟩ := hr
    exact hnext t hQ

/-- A run that does not trap ends with the host its effect yields. -/
theorem Realises.of_run {run : Option (State Host)} {effect : Option Host} {Q : State Host → Prop}
    (hr : Realises run effect Q) {t : State Host} (hrun : run = some t) :
    effect = some t.host ∧ Q t := by
  cases effect with
  | none =>
    have hnone : run = none := hr
    rw [hnone] at hrun
    cases hrun
  | some h =>
    obtain ⟨t',hrun',rfl,hQ⟩ := hr
    rw [hrun'] at hrun
    cases hrun
    exact ⟨rfl,hQ⟩

/-- The final state also knows which effect it carries. -/
theorem Realises.with_effect {run : Option (State Host)} {effect : Option Host}
    {Q : State Host → Prop} (hr : Realises run effect Q) :
    Realises run effect fun t => Q t ∧ effect = some t.host := by
  cases effect with
  | none => exact hr
  | some h =>
    obtain ⟨t,ht,rfl,hQ⟩ := hr
    exact ⟨t,ht,rfl,hQ,rfl⟩

theorem Realises.mono {run : Option (State Host)} {effect : Option Host}
    {Q R : State Host → Prop} (hr : Realises run effect Q) (hQR : ∀ t, Q t → R t) :
    Realises run effect R := by
  cases effect with
  | none => exact hr
  | some h =>
    obtain ⟨t,ht,hh,hQ⟩ := hr
    exact ⟨t,ht,hh,hQR t hQ⟩

end Simulation

end Masm
