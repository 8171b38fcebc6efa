import Mathlib.Data.List.Basic

/-!
# Programs whose intermediate states survive a crash

A program over a durable state is run once and leaves behind every state it passed through.  A crash
or a failed operation leaves the state as it was at some point of that list; `exec` keeps only the
last state and the result.
-/

namespace Disk

structure Run (S ε β : Type) where
  visited : List S
  result : Except ε β

def Run.last {S ε β : Type} (r : Run S ε β) (s : S) : S := r.visited.getLastD s

def Prog (S ε β : Type) := S → Run S ε β

namespace Prog
variable {S ε β γ : Type}

def pure (b : β) : Prog S ε β := fun _ => ⟨[],.ok b⟩

def bind (x : Prog S ε β) (f : β → Prog S ε γ) : Prog S ε γ := fun s =>
  match (x s).result with
  | .error e => ⟨(x s).visited,.error e⟩
  | .ok b => ⟨(x s).visited ++ (f b ((x s).last s)).visited,(f b ((x s).last s)).result⟩

instance : Monad (Prog S ε) where
  pure := Prog.pure
  bind := Prog.bind

/-- Look at the state without changing it. -/
def read (f : S → Except ε β) : Prog S ε β := fun s => ⟨[],f s⟩

def fail (e : ε) : Prog S ε β := fun _ => ⟨[],.error e⟩

/-- One indivisible change of the state. -/
def modify (f : S → S) : Prog S ε Unit := fun s => ⟨[f s],.ok ()⟩

def mapError {ε' : Type} (g : ε → ε') (x : Prog S ε β) : Prog S ε' β := fun s =>
  ⟨(x s).visited,(x s).result.mapError g⟩

def exec (x : Prog S ε β) (s : S) : Except ε (β × S) := (x s).result.map fun b => (b,(x s).last s)

theorem exec_eq_ok_iff (x : Prog S ε β) (s s' : S) (b : β) :
    x.exec s = .ok (b,s') ↔ (x s).result = .ok b ∧ (x s).last s = s' := by
  rw [exec]
  cases hr : (x s).result with
  | error e => simp [Except.map]
  | ok b' => simp [Except.map]

@[simp] theorem exec_pure (b : β) (s : S) : (Pure.pure b : Prog S ε β).exec s = .ok (b,s) := rfl

@[simp] theorem exec_read (f : S → Except ε β) (s : S) :
    (read f).exec s = (f s).map fun b => (b,s) := rfl

theorem exec_read_eq_ok {f : S → Except ε β} {s s' : S} {b : β}
    (h : (read f).exec s = .ok (b,s')) : f s = .ok b ∧ s = s' := by
  rw [exec_eq_ok_iff] at h
  exact h

theorem exec_mapError {ε' : Type} (g : ε → ε') (x : Prog S ε β) (s : S) :
    (x.mapError g).exec s = (x.exec s).mapError g := by
  rw [exec,exec,mapError]
  cases (x s).result <;> rfl

theorem last_append (s : S) (xs ys : List S) :
    (xs ++ ys).getLastD s = ys.getLastD (xs.getLastD s) := by
  cases ys with
  | nil => simp
  | cons y ys => simp

theorem exec_bind (x : Prog S ε β) (f : β → Prog S ε γ) (s : S) :
    (x >>= f).exec s = (x.exec s).bind fun p => (f p.1).exec p.2 := by
  change exec (bind x f) s = _
  unfold exec bind
  cases hx : (x s).result with
  | error e => rfl
  | ok b =>
    simp only [Except.map,Except.bind]
    cases (f b ((x s).last s)).result with
    | error e => rfl
    | ok c =>
      simp only [Run.last,last_append]

theorem exec_bind_eq_ok {x : Prog S ε β} {f : β → Prog S ε γ} {s s' : S} {c : γ}
    (h : (x >>= f).exec s = .ok (c,s')) :
    ∃ b t, x.exec s = .ok (b,t) ∧ (f b).exec t = .ok (c,s') := by
  rw [exec_bind] at h
  cases hx : x.exec s with
  | error e =>
    rw [hx] at h
    cases h
  | ok p =>
    rw [hx] at h
    exact ⟨p.1,p.2,rfl,h⟩

theorem exec_mapError_eq_ok {ε' : Type} {g : ε → ε'} {x : Prog S ε β} {s s' : S} {b : β}
    (h : (x.mapError g).exec s = .ok (b,s')) : x.exec s = .ok (b,s') := by
  rw [exec_mapError] at h
  cases hx : x.exec s with
  | error e =>
    rw [hx] at h
    cases h
  | ok p =>
    rw [hx] at h
    exact congrArg Except.ok (Except.ok.inj h)

/-- The program runs to its end. -/
def Succeeds (x : Prog S ε β) (s : S) : Prop := ∃ b t, x.exec s = .ok (b,t)

theorem succeeds_mapError {ε' : Type} {g : ε → ε'} {x : Prog S ε β} {s : S} :
    (x.mapError g).Succeeds s ↔ x.Succeeds s := by
  rw [Succeeds,Succeeds,exec_mapError]
  cases x.exec s with
  | ok p => exact iff_of_true ⟨p.1,p.2,rfl⟩ ⟨p.1,p.2,rfl⟩
  | error e => exact iff_of_false (fun ⟨_,_,h⟩ => nomatch h) fun ⟨_,_,h⟩ => nomatch h

/-- A program succeeds when its first part does and the rest succeeds from wherever that ends. -/
theorem succeeds_bind_iff {x : Prog S ε β} {f : β → Prog S ε γ} {s : S} {P : Prop}
    (h : ∀ b t, x.exec s = .ok (b,t) → ((f b).Succeeds t ↔ P)) :
    (x >>= f).Succeeds s ↔ x.Succeeds s ∧ P := by
  constructor
  · rintro ⟨c,u,hu⟩
    obtain ⟨b,t,hx,hf⟩ := exec_bind_eq_ok hu
    exact ⟨⟨b,t,hx⟩,(h b t hx).mp ⟨c,u,hf⟩⟩
  · rintro ⟨⟨b,t,hx⟩,hP⟩
    obtain ⟨c,u,hu⟩ := (h b t hx).mpr hP
    refine ⟨c,u,?_⟩
    rw [exec_bind,hx]
    exact hu

theorem mem_visited_bind_left {x : Prog S ε β} {f : β → Prog S ε γ} {s t : S}
    (h : t ∈ (x s).visited) : t ∈ ((x >>= f) s).visited := by
  change t ∈ (bind x f s).visited
  rw [bind]
  cases (x s).result with
  | error e => exact h
  | ok b => exact List.mem_append_left _ h

theorem mem_visited_bind_right {x : Prog S ε β} {f : β → Prog S ε γ} {s t u : S} {b : β}
    (hx : x.exec s = .ok (b,u)) (h : t ∈ (f b u).visited) : t ∈ ((x >>= f) s).visited := by
  obtain ⟨hr,rfl⟩ := (exec_eq_ok_iff x s u b).mp hx
  change t ∈ (bind x f s).visited
  rw [bind,hr]
  exact List.mem_append_right _ h

theorem last_mem {x : Prog S ε β} {s t u : S} {b : β} (hx : x.exec s = .ok (b,u))
    (h : t ∈ (x s).visited) : u ∈ (x s).visited := by
  obtain ⟨-,rfl⟩ := (exec_eq_ok_iff x s u b).mp hx
  rw [Run.last]
  rcases List.eq_nil_or_concat (x s).visited with hv | ⟨ts,t',hv⟩
  · rw [hv] at h
    cases h
  · rw [List.concat_eq_append] at hv
    rw [hv,List.getLastD_concat]
    exact List.mem_append_right _ List.mem_cons_self

theorem last_bind_of_ok {x : Prog S ε β} {f : β → Prog S ε γ} {s t : S} {b : β}
    (hx : x.exec s = .ok (b,t)) : ((x >>= f) s).last s = (f b t).last t := by
  obtain ⟨hr,rfl⟩ := (exec_eq_ok_iff x s t b).mp hx
  change (bind x f s).last s = _
  rw [bind,hr]
  exact last_append ..

/-- A program that fails in what it reads first goes through no state. -/
theorem run_read_bind_of_error {g : S → Except ε β} {f : β → Prog S ε γ} {s : S} {e : ε}
    (h : g s = .error e) : (read g >>= f) s = ⟨[],.error e⟩ := by
  change bind (read g) f s = _
  rw [bind,read,h]

theorem run_read_bind_of_ok {g : S → Except ε β} {f : β → Prog S ε γ} {s : S} {b : β}
    (h : g s = .ok b) : (read g >>= f) s = f b s := by
  change bind (read g) f s = _
  rw [bind,read,h]
  rfl

/-- The state after some of the changes of a program. -/
def reached (x : Prog S ε β) (steps : ℕ) (s : S) : Option S := (s :: (x s).visited)[steps]?

theorem reached_last (x : Prog S ε β) (s : S) :
    x.reached (x s).visited.length s = some ((x s).last s) := by
  rw [reached,Run.last]
  induction (x s).visited generalizing s with
  | nil => rfl
  | cons t ts ih => rw [List.length_cons,List.getElem?_cons_succ,ih,List.getLastD_cons]

/-- The state in which a crash leaves the program after some of its changes, before the last one. -/
def stopped (x : Prog S ε β) (steps : ℕ) (s : S) : Option S :=
  if steps < (x s).visited.length then (s :: (x s).visited)[steps]? else none

theorem stopped_eq_some_iff {x : Prog S ε β} {steps : ℕ} {s t : S} : x.stopped steps s = some t ↔
    steps < (x s).visited.length ∧ (s :: (x s).visited)[steps]? = some t := by
  rw [stopped]
  split
  · rename_i hlt
    exact ⟨fun h => ⟨hlt,h⟩,fun h => h.2⟩
  · rename_i hnot
    exact ⟨fun h => (Option.some_ne_none _ h.symm).elim,fun h => absurd h.1 hnot⟩

/-- The state in which a program that fails leaves things: some of its changes are missing, or it ended
with an error. -/
def failed (x : Prog S ε β) (steps : ℕ) (s : S) : Option S :=
  if steps < (x s).visited.length ∨ (x s).result.isOk = false then x.reached steps s else none

theorem reached_of_failed {x : Prog S ε β} {steps : ℕ} {s t : S} (h : x.failed steps s = some t) :
    x.reached steps s = some t := by
  rw [failed] at h
  split at h
  · exact h
  · cases h

theorem stopped_zero {x : Prog S ε β} {s t : S} (h : x.stopped 0 s = some t) : t = s :=
  (Option.some.inj (stopped_eq_some_iff.mp h).2).symm

theorem getElem?_cons_append (s : S) (xs ys : List S) (k : ℕ) :
    (s :: (xs ++ ys))[xs.length + k]? = (xs.getLastD s :: ys)[k]? := by
  induction xs generalizing s with
  | nil => rw [List.length_nil,Nat.zero_add,List.nil_append,List.getLastD_nil]
  | cons x xs ih =>
    rw [List.length_cons,Nat.add_right_comm,List.getElem?_cons_succ,List.cons_append,ih,
      List.getLastD_cons]

theorem length_visited_le_bind (x : Prog S ε β) (f : β → Prog S ε γ) (s : S) :
    (x s).visited.length ≤ ((x >>= f) s).visited.length := by
  change _ ≤ (bind x f s).visited.length
  rw [bind]
  cases (x s).result with
  | error e => exact Nat.le_refl _
  | ok b =>
    rw [List.length_append]
    exact Nat.le_add_right ..

/-- The first changes of a program are those of its first part. -/
theorem reached_bind_of_lt {x : Prog S ε β} {f : β → Prog S ε γ} {s : S} {k : ℕ}
    (hk : k < (x s).visited.length) : (x >>= f).reached k s = x.reached k s := by
  change (s :: (bind x f s).visited)[k]? = (s :: (x s).visited)[k]?
  rw [bind]
  cases (x s).result with
  | error e => rfl
  | ok b =>
    rw [← List.cons_append,List.getElem?_append_left]
    exact Nat.lt_succ_of_lt hk

/-- The changes after those of the first part are the second part's, when there is one. -/
theorem reached_bind_of_le {x : Prog S ε β} {f : β → Prog S ε γ} {s t : S} {k : ℕ}
    (hk : (x s).visited.length ≤ k) (h : (x >>= f).reached k s = some t) :
    (∃ e, (x s).result = .error e ∧ x.reached k s = some t) ∨
      ∃ b u, x.exec s = .ok (b,u) ∧ (f b).reached (k - (x s).visited.length) u = some t := by
  change (s :: (bind x f s).visited)[k]? = some t at h
  rw [bind] at h
  cases hr : (x s).result with
  | error e =>
    rw [hr] at h
    exact Or.inl ⟨e,rfl,h⟩
  | ok b =>
    rw [hr] at h
    obtain ⟨j,rfl⟩ := Nat.exists_eq_add_of_le hk
    rw [getElem?_cons_append] at h
    refine Or.inr ⟨b,(x s).last s,(exec_eq_ok_iff x s _ b).mpr ⟨hr,rfl⟩,?_⟩
    rw [Nat.add_sub_cancel_left]
    exact h

/-- A program that fails stops in its first part, or its second part fails. -/
theorem failed_bind {x : Prog S ε β} {f : β → Prog S ε γ} {s t : S} {k : ℕ}
    (h : (x >>= f).failed k s = some t) : x.reached k s = some t ∨
      ∃ b u j, x.exec s = .ok (b,u) ∧ (f b).failed j u = some t := by
  rcases Nat.lt_or_ge k (x s).visited.length with hlt | hge
  · rw [← reached_bind_of_lt hlt (f := f)]
    exact Or.inl (reached_of_failed h)
  · rcases reached_bind_of_le hge (reached_of_failed h) with ⟨e,-,hx⟩ | ⟨b,u,hx,hf⟩
    · exact Or.inl hx
    · refine Or.inr ⟨b,u,k - (x s).visited.length,hx,?_⟩
      obtain ⟨hr,rfl⟩ := (exec_eq_ok_iff x s u b).mp hx
      rw [failed] at h ⊢
      split at h
      · rename_i hfails
        rw [if_pos]
        · exact hf
        · change k < (bind x f s).visited.length ∨ (bind x f s).result.isOk = false at hfails
          rw [bind,hr] at hfails
          refine hfails.imp_left fun hlt => ?_
          rw [List.length_append] at hlt
          omega
      · cases h

/-- A crash after the first part of a program is one in the second part. -/
theorem stopped_bind {x : Prog S ε β} {f : β → Prog S ε γ} {s u : S} {k : ℕ}
    (h : (x >>= f).stopped k s = some u) (hk : (x s).visited.length ≤ k) :
    ∃ b t, x.exec s = .ok (b,t) ∧ (f b).stopped (k - (x s).visited.length) t = some u := by
  obtain ⟨hlt,hget⟩ := stopped_eq_some_iff.mp h
  change k < (bind x f s).visited.length at hlt
  change (s :: (bind x f s).visited)[k]? = some u at hget
  rw [bind] at hlt hget
  cases hr : (x s).result with
  | error e =>
    rw [hr] at hlt
    exact absurd hk (Nat.not_le.mpr hlt)
  | ok b =>
    rw [hr] at hlt hget
    obtain ⟨j,rfl⟩ := Nat.exists_eq_add_of_le hk
    rw [getElem?_cons_append] at hget
    refine ⟨b,(x s).last s,(exec_eq_ok_iff x s _ b).mpr ⟨hr,rfl⟩,?_⟩
    rw [Nat.add_sub_cancel_left]
    refine stopped_eq_some_iff.mpr ⟨?_,hget⟩
    rw [List.length_append] at hlt
    omega

end Prog

end Disk
