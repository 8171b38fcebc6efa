import MidenX402.Facilitator.Moves

/-! # One request at a time inside the mutex of an agent -/

namespace MidenX402.Facilitator
open Disk KeyedLock

section Threads
variable {β : Type} {threads : List (Option β)} {t t' : ℕ} {x x' : β}

/-- Replacing the entry of a thread that has one. -/
theorem thread_set {o : Option β} (h : (threads[t]?).join = some x) :
    ((threads.set t o)[t']?).join = if t' = t then o else (threads[t']?).join := by
  have hlt : t < threads.length := by
    rw [Option.join_eq_some_iff] at h
    exact (List.getElem?_eq_some_iff.mp h).1
  by_cases ht : t' = t
  · subst ht
    rw [if_pos rfl,List.getElem?_set_self hlt,Option.join_some]
  · rw [if_neg ht,List.getElem?_set_ne (Ne.symm ht)]

theorem thread_append (h : ((threads ++ [some x'])[t]?).join = some x) :
    (threads[t]?).join = some x ∨ t = threads.length ∧ x = x' := by
  rw [Option.join_eq_some_iff,List.getElem?_append] at h
  rw [Option.join_eq_some_iff]
  split at h
  · exact Or.inl h
  · rename_i hge
    rw [List.getElem?_singleton] at h
    split at h
    · refine Or.inr ⟨by omega,(Option.some.inj (Option.some.inj h)).symm⟩
    · cases h

variable {s s' : Server} {r r' : Request}

theorem request_set {o : Option Request} (hr : s.request t = some r)
    (hreq : s'.requests = s.requests.set t o) (t' : ℕ) :
    s'.request t' = if t' = t then o else s.request t' := by
  rw [Server.request,hreq]
  exact thread_set hr

theorem request_ne (hreq : s.requests = []) : s.request t ≠ some r := by
  rw [Server.request,hreq,List.getElem?_nil,Option.join_none]
  exact (Option.some_ne_none r).symm

theorem registration_ne {g : Registering} (hregs : s.registrations = []) :
    s.registration t ≠ some g := by
  rw [Server.registration,hregs,List.getElem?_nil,Option.join_none]
  exact (Option.some_ne_none g).symm

end Threads

def Phase.lock : Phase → Option ℕ
  | .waiting m => some m
  | .inside m _ => some m
  | _ => none

/-- Requests hold handles of the mutex of their agent, and a request inside holds that mutex. -/
structure LockInv (s : Server) : Prop where
  sound : s.locks.Sound
  handle : ∀ t r m, s.request t = some r → r.phase.lock = some m → s.locks.ids r.agentId = some m
  held : ∀ t r m σ, s.request t = some r → r.phase = .inside m σ → s.locks.holder m = some t

section Invariant
variable {M : Miden} {store : FilesystemX402Store} {maxSize : ℕ} {s s' : Server}

/-- Without requests there is nothing to say about handles. -/
theorem lockInv_of_empty (hreq : s.requests = []) (hlocks : s.locks = Table.empty) : LockInv s := by
  refine ⟨?_,?_,?_⟩
  · rw [hlocks]
    exact Table.sound_empty
  · exact fun t r m hr => absurd hr (request_ne hreq)
  · exact fun t r m σ hr => absurd hr (request_ne hreq)

theorem LockInv.congr (h : LockInv s) (hreq : s'.requests = s.requests)
    (hlocks : s'.locks = s.locks) : LockInv s' := by
  have hrequest : ∀ t, s'.request t = s.request t := by
    intro t
    rw [Server.request,Server.request,hreq]
  constructor
  · rw [hlocks]
    exact h.sound
  · intro t r m hr hm
    rw [hlocks]
    rw [hrequest] at hr
    exact h.handle t r m hr hm
  · intro t r m σ hr hp
    rw [hlocks]
    rw [hrequest] at hr
    exact h.held t r m σ hr hp

/-- Two requests inside for the same agent are the same request. -/
theorem LockInv.exclusive (h : LockInv s) {t t' : ℕ} {r r' : Request} {m m' : ℕ} {σ σ' : Stage}
    (hr : s.request t = some r) (hp : r.phase = .inside m σ) (hr' : s.request t' = some r')
    (hp' : r'.phase = .inside m' σ') (ha : r.agentId = r'.agentId) : t = t' := by
  have hm := h.handle t r m hr (by rw [hp]; rfl)
  have hm' := h.handle t' r' m' hr' (by rw [hp']; rfl)
  rw [ha,hm'] at hm
  obtain rfl := Option.some.inj hm
  have hheld := h.held t r m' σ hr hp
  rw [h.held t' r' m' σ' hr' hp'] at hheld
  exact (Option.some.inj hheld).symm

/-- A move of one thread: the others keep their requests and mutexes. -/
theorem LockInv.of_set (h : LockInv s) {t : ℕ} {r : Request} (hr : s.request t = some r)
    {o : Option Request} (hreq : s'.requests = s.requests.set t o) (hsound : s'.locks.Sound)
    (hids : ∀ a m, s.locks.ids a = some m → s'.locks.ids a = some m)
    (hhandle : ∀ r' m, o = some r' → r'.phase.lock = some m → s'.locks.ids r'.agentId = some m)
    (hheld : ∀ r' m σ, o = some r' → r'.phase = .inside m σ → s'.locks.holder m = some t)
    (hothers : ∀ t' m, t' ≠ t → s.locks.holder m = some t' → s'.locks.holder m = some t') :
    LockInv s' := by
  have hrequest := request_set hr hreq
  refine ⟨hsound,?_,?_⟩
  · intro t' r' m hr' hm
    rw [hrequest] at hr'
    split at hr'
    · exact hhandle r' m hr' hm
    · exact hids _ _ (h.handle t' r' m hr' hm)
  · intro t' r' m σ hr' hp
    rw [hrequest] at hr'
    split at hr'
    · rename_i ht
      rw [ht]
      exact hheld r' m σ hr' hp
    · rename_i ht
      exact hothers t' m ht (h.held t' r' m σ hr' hp)

/-- A request inside gives its mutex back and is gone. -/
theorem LockInv.release (h : LockInv s) {t m : ℕ} {r : Request} {σ : Stage}
    (hr : s.request t = some r) (hp : r.phase = .inside m σ)
    (hreq : s'.requests = s.requests.set t none) (hlocks : s'.locks = s.locks.release m) :
    LockInv s' := by
  refine h.of_set hr hreq ?_ ?_ ?_ ?_ ?_
  · rw [hlocks]
    exact ⟨h.sound.lt_next,h.sound.inj⟩
  · rw [hlocks]
    exact fun _ _ hm => hm
  · intro r' m' hr'
    cases hr'
  · intro r' m' σ' hr'
    cases hr'
  · intro t' m' ht hm
    have hne : m' ≠ m := by
      rintro rfl
      rw [h.held t r _ σ hr hp] at hm
      exact ht (Option.some.inj hm).symm
    rw [hlocks]
    exact (Function.update_of_ne hne ..).trans hm

theorem LockInv.move {act : Action} (h : LockInv s) (hmove : Move M store maxSize s act s') : LockInv s' := by
  cases hmove with
  | stay => exact h
  | begin _ => exact h.congr rfl rfl
  | registration _ _ _ => exact h.congr rfl rfl
  | registrationFails _ _ _ => exact h.congr rfl rfl
  | work _ _ => exact h.congr rfl rfl
  | workFails _ => exact h.congr rfl rfl
  | restart _ _ => exact lockInv_of_empty rfl rfl
  | arrive =>
    refine ⟨h.sound,?_,?_⟩
    · intro t r m hr hm
      rcases thread_append hr with hold | ⟨-,rfl⟩
      · exact h.handle t r m hold hm
      · cases hm
    · intro t r m σ hr hp
      rcases thread_append hr with hold | ⟨-,rfl⟩
      · exact h.held t r m σ hold hp
      · cases hp
  | miss hr _ =>
    refine h.of_set hr rfl h.sound (fun _ _ hm => hm) ?_ ?_ ?_
    · rintro r' m ⟨⟩ hm
      cases hm
    · rintro r' m σ ⟨⟩ hp
      cases hp
    · exact fun _ _ _ hm => hm
  | find hr _ hids =>
    refine h.of_set hr rfl h.sound (fun _ _ hm => hm) ?_ ?_ ?_
    · rintro r' m' ⟨⟩ hm
      obtain rfl := Option.some.inj hm
      exact hids
    · rintro r' m' σ ⟨⟩ hp
      cases hp
    · exact fun _ _ _ hm => hm
  | @insert _ t r hr _ =>
    refine h.of_set hr rfl (h.sound.getOrInsert r.agentId)
      (fun a m hm => s.locks.getOrInsert_mono r.agentId a m hm) ?_ ?_ ?_
    · rintro r' m' ⟨⟩ hm
      obtain rfl := Option.some.inj hm
      exact s.locks.getOrInsert_ids r.agentId
    · rintro r' m' σ ⟨⟩ hp
      cases hp
    · intro t' m' _ hm
      exact (congrFun (s.locks.getOrInsert_holder r.agentId) m').trans hm
  | @acquire _ t r m hr hp hfree =>
    refine h.of_set hr rfl ⟨h.sound.lt_next,h.sound.inj⟩ (fun _ _ hm => hm) ?_ ?_ ?_
    · rintro r' m' ⟨⟩ hm
      obtain rfl := Option.some.inj hm
      exact h.handle t r _ hr (by rw [hp]; rfl)
    · rintro r' m' σ ⟨⟩ hp'
      obtain ⟨rfl,-⟩ := Phase.inside.inj hp'
      exact Function.update_self ..
    · intro t' m' _ hm
      have hne : m' ≠ m := by
        rintro rfl
        rw [hfree] at hm
        cases hm
      exact (Function.update_of_ne hne ..).trans hm
  | @stage t _ r m σ σ' fs' hr hp _ =>
    refine h.of_set hr rfl h.sound (fun _ _ hm => hm) ?_ ?_ ?_
    · rintro r' m' ⟨⟩ hm
      obtain rfl := Option.some.inj hm
      exact h.handle t r _ hr (by rw [hp]; rfl)
    · rintro r' m' σ'' ⟨⟩ hp'
      obtain ⟨rfl,-⟩ := Phase.inside.inj hp'
      exact h.held t r _ σ hr hp
    · exact fun _ _ _ hm => hm
  | leave hr hp _ => exact h.release hr hp rfl rfl
  | requestFails hr hp _ => exact h.release hr hp rfl rfl

end Invariant

end MidenX402.Facilitator
