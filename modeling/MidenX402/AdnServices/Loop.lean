import MidenX402.AdnServices.Benchmark
import Mathlib.Algebra.BigOperators.Group.Finset.Basic

/-!
# The agent's loop among other customers

The agent pays a merchant that serves others as well, so that its state is arbitrary whenever a
payment of the agent arrives and whenever its settlement completes, and so is what comes back from
the facilitator.  What the agent has signed is compared with what it was served.
-/

namespace MidenX402.AdnServices
open Masm AgentDebitNote Rust

/-- What one payment meets: the merchant when it arrives, the merchant when its settlement
completes, and the reply to a request for settlement. -/
structure Encounter where
  before : MerchantInner
  after : MerchantInner
  reply : SettleRequest → SettleReply

/-- The response of the handler. -/
def Encounter.handlePay (e : Encounter) (payment : PaymentRequest) : PaymentResponse :=
  match (e.before.receive payment).2 with
  | .answer _ resp => resp
  | .settle req => (e.after.complete (e.reply req)).2.2

structure Exchanged where
  encounter : Encounter
  payment : PaymentRequest

def Exchanged.response (x : Exchanged) : PaymentResponse := x.encounter.handlePay x.payment

/-- The agent takes the response for a settlement and starts again from zero. -/
def Exchanged.resets (x : Exchanged) : Bool :=
  x.response.success && x.response.settlementOccurred.getD false

/-- The payment is served at once, or its settlement succeeds. -/
def Exchanged.Served (x : Exchanged) : Prop :=
  match (x.encounter.before.receive x.payment).2 with
  | .answer _ _ => True
  | .settle req => (x.encounter.reply req).success = true

/-- The loop after some payments. -/
structure AgentLoop where
  agent : AgentState
  exchanged : List Exchanged

section Loop
variable (P : Protocol) {F E : Falcon} (C : Codec F E) (b : Benchmark F)

/-- The next payment meets `e`; `none` ends the benchmark. -/
def AgentLoop.exchange (e : Encounter) (l : AgentLoop) : Option AgentLoop :=
  let (payment,agent) := l.agent.pay P C b
  (agent.take (l.exchanged.length + 1) (e.handlePay payment)).map fun agent =>
    ⟨agent,l.exchanged ++ [⟨e,payment⟩]⟩

/-- The first `n` payments, the `i`-th of which meets `encounters i`. -/
def AgentLoop.run (encounters : ℕ → Encounter) (l : AgentLoop) : ℕ → Option AgentLoop
  | 0 => some l
  | n + 1 => (AgentLoop.run encounters l n).bind fun l => l.exchange P C b (encounters n)

def payLoop (encounters : ℕ → Encounter) (n : ℕ) : Option AgentLoop :=
  (AgentState.start b.config).bind fun agent => AgentLoop.run P C b encounters ⟨agent,[]⟩ n

end Loop

/-- Payments since the last settlement, served or not. -/
def answeredSince (xs : List Exchanged) : ℕ := xs.foldl (fun k x => if x.resets then 0 else k + 1) 0

/-- Payments answered with success since the last settlement. -/
def succeededSince (xs : List Exchanged) : ℕ :=
  xs.foldl (fun k x => if x.resets then 0 else if x.response.success then k + 1 else k) 0

def resources (xs : List Exchanged) : ℕ := xs.countP fun x => x.response.resource.isSome

/-- The largest amount signed for a note. -/
def largestFor (vs : List PaymentRequest) (note : Option Word) : ℕ :=
  ((vs.filter fun v => parseSerialNum v.serialNum = note).map fun v => v.cumulativeAmount.toNat).foldr
    max 0

/-- What the vouchers can collect: a note is consumed once, with one of its vouchers. -/
def collectable (vs : List PaymentRequest) : ℕ :=
  ∑ note ∈ (vs.map fun v => parseSerialNum v.serialNum).toFinset, largestFor vs note

section Counting
variable (xs : List Exchanged) (x : Exchanged)

theorem answeredSince_concat :
    answeredSince (xs ++ [x]) = if x.resets then 0 else answeredSince xs + 1 := by
  simp [answeredSince]

theorem succeededSince_concat :
    succeededSince (xs ++ [x]) =
      if x.resets then 0 else if x.response.success then succeededSince xs + 1 else succeededSince xs := by
  simp [succeededSince]

theorem resources_concat :
    resources (xs ++ [x]) = resources xs + if x.response.resource.isSome then 1 else 0 := by
  simp [resources,List.countP_append,List.countP_singleton]

/-- The response says success, and carries a resource, exactly if the settlement succeeded. -/
theorem MerchantInner.complete_success (s : MerchantInner) (reply : SettleReply) :
    (s.complete reply).2.2.success = reply.success ∧
      (s.complete reply).2.2.resource.isSome = reply.success := by
  cases reply with
  | sendError e => exact ⟨rfl,rfl⟩
  | parseError e => exact ⟨rfl,rfl⟩
  | response resp =>
    cases hs : resp.success <;> simp [SettleReply.success,MerchantInner.complete,hs]

/-- A payment is answered with success and a resource exactly if it is served. -/
theorem Exchanged.served_iff : (x.Served ↔ x.response.success = true) ∧
    x.response.resource.isSome = x.response.success := by
  rw [Exchanged.Served,Exchanged.response,Encounter.handlePay]
  by_cases hlt : x.encounter.before.batchCount + 1 < x.encounter.before.settleAfter
  · simp [MerchantInner.receive_of_lt _ _ hlt]
  · rw [MerchantInner.receive_of_le _ _ (by omega : x.encounter.before.settleAfter ≤ _)]
    obtain ⟨hsuccess,hresource⟩ := x.encounter.after.complete_success (x.encounter.reply
      ⟨(x.encounter.before.noteFileAfter x.payment).getD "",x.payment.agentSkHex,x.payment.serialNum,
        x.payment.cumulativeAmount,x.encounter.before.merchantId⟩)
    simp only
    rw [hsuccess,hresource]
    exact ⟨Iff.rfl,rfl⟩

theorem Exchanged.not_resets_of_failed (h : x.response.success = false) : x.resets = false := by
  simp [Exchanged.resets,h]

end Counting

theorem succeededSince_eq_answeredSince {xs : List Exchanged} (h : ∀ x ∈ xs, x.Served) :
    succeededSince xs = answeredSince xs := by
  induction xs using List.reverseRecOn with
  | nil => rfl
  | append_singleton xs x ih =>
    have hx := x.served_iff.1.mp (h x (by simp))
    rw [succeededSince_concat,answeredSince_concat,if_pos hx,ih fun y hy => h y (by simp [hy])]

theorem resources_eq_length {xs : List Exchanged} (h : ∀ x ∈ xs, x.Served) :
    resources xs = xs.length := by
  induction xs using List.reverseRecOn with
  | nil => rfl
  | append_singleton xs x ih =>
    have hx := x.served_iff.1.mp (h x (by simp))
    rw [resources_concat,x.served_iff.2,if_pos hx,ih fun y hy => h y (by simp [hy]),
      List.length_append,List.length_singleton]

section Collecting
variable (vs : List PaymentRequest) (v : PaymentRequest)

theorem largestFor_concat (note : Option Word) :
    largestFor (vs ++ [v]) note =
      if parseSerialNum v.serialNum = note then max (largestFor vs note) v.cumulativeAmount.toNat
      else largestFor vs note := by
  have hfold : ∀ (ns : List ℕ) (m : ℕ), (ns ++ [m]).foldr max 0 = max (ns.foldr max 0) m := by
    intro ns m
    induction ns with
    | nil => simp
    | cons n ns ih => rw [List.cons_append,List.foldr_cons,List.foldr_cons,ih,max_assoc]
  by_cases hv : parseSerialNum v.serialNum = note
  · rw [if_pos hv,largestFor,List.filter_append,List.map_append]
    simp only [hv,List.filter_cons,decide_true,if_true,List.filter_nil,List.map_cons,List.map_nil]
    exact hfold _ _
  · rw [if_neg hv,largestFor,List.filter_append]
    simp [hv,largestFor]

theorem le_largestFor {u : PaymentRequest} (hu : u ∈ vs) :
    u.cumulativeAmount.toNat ≤ largestFor vs (parseSerialNum u.serialNum) := by
  apply List.le_max_of_le' 0 _ le_rfl
  apply List.mem_map_of_mem
  simp [hu]

theorem le_collectable {u : PaymentRequest} (hu : u ∈ vs) :
    u.cumulativeAmount.toNat ≤ collectable vs := by
  apply (le_largestFor vs hu).trans
  apply Finset.single_le_sum (f := largestFor vs) (fun _ _ => Nat.zero_le _)
  exact List.mem_toFinset.mpr (List.mem_map_of_mem hu)

/-- A voucher that exceeds those for its note by at most `a` adds at most `a` to the total. -/
theorem collectable_concat_le {a : ℕ}
    (h : v.cumulativeAmount.toNat ≤ largestFor vs (parseSerialNum v.serialNum) + a) :
    collectable (vs ++ [v]) ≤ collectable vs + a := by
  let note := parseSerialNum v.serialNum
  let notes := (vs.map fun v => parseSerialNum v.serialNum).toFinset
  have hnotes : ((vs ++ [v]).map fun v => parseSerialNum v.serialNum).toFinset = insert note notes := by
    rw [List.map_append,List.toFinset_append,Finset.union_comm]
    rfl
  have hothers : ∀ n ∈ notes.erase note, largestFor (vs ++ [v]) n = largestFor vs n := by
    intro n hn
    rw [largestFor_concat,if_neg fun he => (Finset.mem_erase.mp hn).1 he.symm]
  have hself : largestFor (vs ++ [v]) note ≤ largestFor vs note + a := by
    rw [largestFor_concat,if_pos rfl]
    exact max_le (Nat.le_add_right _ _) h
  have herase : (insert note notes).erase note = notes.erase note := Finset.erase_insert_eq_erase _ _
  have hold : ∑ n ∈ notes.erase note, largestFor vs n + largestFor vs note = collectable vs := by
    by_cases hmem : note ∈ notes
    · exact Finset.sum_erase_add _ _ hmem
    · have hzero : largestFor vs note = 0 := by
        have hnone : ∀ u ∈ vs, parseSerialNum u.serialNum ≠ note := by
          intro u hu he
          exact hmem (by simpa [notes,he] using ⟨u,hu,he⟩)
        rw [largestFor,List.filter_eq_nil_iff.mpr (by simpa using hnone)]
        rfl
      rw [Finset.erase_eq_of_notMem hmem,hzero]
      rfl
  have hsum : ∑ n ∈ notes.erase note, largestFor (vs ++ [v]) n =
      ∑ n ∈ notes.erase note, largestFor vs n := Finset.sum_congr rfl hothers
  rw [collectable,hnotes,← Finset.sum_erase_add _ _ (Finset.mem_insert_self note notes),herase,hsum]
  omega

end Collecting

theorem mul_ofNat_succ (a : UInt64) (k : ℕ) :
    a * UInt64.ofNat (k + 1) = a * UInt64.ofNat k + a := by
  rw [UInt64.ofNat_add,UInt64.mul_add]
  exact congrArg _ (UInt64.mul_one a)

section Invariant
variable {P : Protocol} {F E : Falcon} {C : Codec F E} {b : Benchmark F} {e : Encounter}
  {encounters : ℕ → Encounter} {n : ℕ} {l l' : AgentLoop}

/-- The payment that the agent signs next. -/
def AgentLoop.next (P : Protocol) (C : Codec F E) (b : Benchmark F) (l : AgentLoop) : PaymentRequest :=
  (l.agent.pay P C b).1

def AgentLoop.payments (l : AgentLoop) : List PaymentRequest := l.exchanged.map Exchanged.payment

/-- A response that is no settlement leaves the variables as the payment left them; one that is sets
the amount back. -/
theorem AgentLoop.exchange_eq_some (h : l.exchange P C b e = some l') :
    l'.exchanged = l.exchanged ++ [⟨e,l.next P C b⟩] ∧
    (((Exchanged.mk e (l.next P C b)).resets = false ∧ l'.agent = (l.agent.pay P C b).2) ∨
      ((Exchanged.mk e (l.next P C b)).resets = true ∧ l'.agent.cumulative = 0)) := by
  obtain ⟨agent,htake,rfl⟩ := Option.map_eq_some_iff.mp h
  refine ⟨rfl,?_⟩
  rcases AgentState.take_eq_some htake with ⟨rfl,hno⟩ | ⟨hsuccess,hsettled,-,hzero,-⟩
  · refine Or.inl ⟨?_,rfl⟩
    rcases hno with hno | hno
    · exact Exchanged.not_resets_of_failed ⟨e,_⟩ hno
    · exact Bool.and_eq_false_iff.mpr (Or.inr hno)
  · exact Or.inr ⟨Bool.and_eq_true_iff.mpr ⟨hsuccess,hsettled⟩,hzero⟩

theorem payLoop_zero (h : payLoop P C b encounters 0 = some l) :
    l.exchanged = [] ∧ l.agent.cumulative = 0 := by
  obtain ⟨agent,hstart,hl⟩ := Option.bind_eq_some_iff.mp h
  obtain ⟨serial,-,rfl⟩ := Option.map_eq_some_iff.mp hstart
  obtain rfl := Option.some.inj hl
  exact ⟨rfl,rfl⟩

theorem payLoop_succ (h : payLoop P C b encounters (n + 1) = some l') :
    ∃ l, payLoop P C b encounters n = some l ∧ l.exchange P C b (encounters n) = some l' := by
  obtain ⟨agent,hstart,hrun⟩ := Option.bind_eq_some_iff.mp h
  obtain ⟨l,hl,hex⟩ := Option.bind_eq_some_iff.mp hrun
  refine ⟨l,?_,hex⟩
  rw [payLoop,hstart,Option.bind_some,hl]

/-- The running amount counts every payment since the last settlement, and the latest voucher for
the agent's note is for this amount. -/
structure AgentLoop.Inv (b : Benchmark F) (l : AgentLoop) : Prop where
  cumulative : l.agent.cumulative = b.amountPer * UInt64.ofNat (answeredSince l.exchanged)
  latest : l.agent.cumulative = 0 ∨ ∃ v ∈ l.payments,
    v.serialNum = l.agent.currentSerial ∧ v.cumulativeAmount = l.agent.cumulative

theorem AgentLoop.Inv.exchange (hi : l.Inv b) (h : l.exchange P C b e = some l') : l'.Inv b := by
  obtain ⟨hex,hcases⟩ := AgentLoop.exchange_eq_some h
  have hcount := answeredSince_concat l.exchanged ⟨e,l.next P C b⟩
  rw [← hex] at hcount
  rcases hcases with ⟨hno,hagent⟩ | ⟨hyes,hzero⟩
  · constructor
    · rw [hcount,hno,hagent]
      change l.agent.cumulative + b.amountPer = _
      rw [hi.cumulative,if_neg (by decide),mul_ofNat_succ]
    · refine Or.inr ⟨l.next P C b,by simp [AgentLoop.payments,hex],?_⟩
      rw [hagent]
      exact ⟨rfl,rfl⟩
  · refine ⟨?_,Or.inl hzero⟩
    rw [hcount,hyes,hzero]
    simp

theorem payLoop_inv (h : payLoop P C b encounters n = some l) : l.Inv b := by
  induction n generalizing l with
  | zero =>
    obtain ⟨hex,hzero⟩ := payLoop_zero h
    exact ⟨by simp [hex,hzero,answeredSince],Or.inl hzero⟩
  | succ n ih =>
    obtain ⟨l₀,hl₀,hl⟩ := payLoop_succ h
    exact (ih hl₀).exchange hl

/-- The amount the agent signs next counts all payments since the last settlement and one more. -/
theorem AgentLoop.Inv.next_amount (hi : l.Inv b) :
    (l.next P C b).cumulativeAmount.toNat =
      b.amountPer.toNat * (answeredSince l.exchanged + 1) % 2 ^ 64 := by
  have hnext : (l.next P C b).cumulativeAmount =
      b.amountPer * UInt64.ofNat (answeredSince l.exchanged + 1) := by
    change l.agent.cumulative + b.amountPer = _
    rw [hi.cumulative,mul_ofNat_succ]
  rw [hnext,UInt64.toNat_mul,UInt64.toNat_ofNat',Nat.mul_mod_mod]

/-- Each voucher adds at most one payment to what can be collected. -/
theorem AgentLoop.Inv.collectable_next (hi : l.Inv b) :
    collectable (l.payments ++ [l.next P C b]) ≤ collectable l.payments + b.amountPer.toNat := by
  apply collectable_concat_le
  have hnext : (l.next P C b).cumulativeAmount.toNat ≤
      l.agent.cumulative.toNat + b.amountPer.toNat := by
    change (l.agent.cumulative + b.amountPer).toNat ≤ _
    rw [UInt64.toNat_add]
    exact Nat.mod_le _ _
  rcases hi.latest with hzero | ⟨v,hv,hserial,hamount⟩
  · rw [hzero] at hnext
    exact hnext.trans (by simp)
  · have hle := le_largestFor l.payments hv
    rw [hserial,hamount] at hle
    change _ ≤ largestFor l.payments (parseSerialNum l.agent.currentSerial) + _
    omega

theorem payLoop_collectable (h : payLoop P C b encounters n = some l) :
    collectable l.payments ≤ b.amountPer.toNat * l.exchanged.length := by
  induction n generalizing l with
  | zero =>
    obtain ⟨hex,-⟩ := payLoop_zero h
    simp [AgentLoop.payments,hex,collectable]
  | succ n ih =>
    obtain ⟨l₀,hl₀,hl⟩ := payLoop_succ h
    obtain ⟨hex,-⟩ := AgentLoop.exchange_eq_some hl
    have hold := ih hl₀
    have hnew := (payLoop_inv hl₀).collectable_next (P := P) (C := C)
    have hpayments : l.payments = l₀.payments ++ [l₀.next P C b] := by
      simp [AgentLoop.payments,hex]
    rw [hpayments,hex,List.length_append,List.length_singleton,Nat.mul_add,Nat.mul_one]
    omega

/-- The agent's next voucher is for the payments it was served since the last settlement and one
more, and all its vouchers together collect at most one payment more than it was served. -/
def AgentLoop.Authorises (P : Protocol) (C : Codec F E) (b : Benchmark F) (l : AgentLoop) : Prop :=
  (l.next P C b).cumulativeAmount.toNat =
    b.amountPer.toNat * (1 + succeededSince l.exchanged) ∧
  collectable (l.payments ++ [l.next P C b]) ≤ b.amountPer.toNat * (resources l.exchanged + 1)

/-- Going on from an amount that fits, one payment too many is noticed. -/
theorem not_signed_twice {a k : ℕ} (ha : 0 < a) (hlt : a < 2 ^ 64) (hfits : a * (1 + k) < 2 ^ 64) :
    a * (k + 1 + 1) % 2 ^ 64 ≠ a * (1 + k) := by
  have hsum : a * (k + 1 + 1) = a * (1 + k) + a := by ring
  rw [hsum]
  intro heq
  by_cases hover : a * (1 + k) + a < 2 ^ 64
  · rw [Nat.mod_eq_of_lt hover] at heq
    omega
  · have hsmall : a * (1 + k) + a < 2 ^ 64 + 2 ^ 64 := Nat.add_lt_add hfits hlt
    rw [Nat.mod_eq_sub_mod (by omega),Nat.mod_eq_of_lt (by omega)] at heq
    omega

/-- While all payments are served and the amounts fit, the agent authorises what it should. -/
theorem authorises_of_served (h : payLoop P C b encounters n = some l)
    (hok : b.amountPer = 0 ∨ ((∀ x ∈ l.exchanged, x.Served) ∧
      b.amountPer.toNat * (1 + succeededSince l.exchanged) < 2 ^ 64)) : l.Authorises P C b := by
  have hi := payLoop_inv h
  have hnext := hi.next_amount (P := P) (C := C)
  have htotal := payLoop_collectable h
  have hmore := hi.collectable_next (P := P) (C := C)
  rcases hok with hzero | ⟨hserved,hfits⟩
  · rw [hzero] at hnext htotal hmore
    simp only [UInt64.toNat_zero,Nat.zero_mul,Nat.zero_mod] at hnext htotal hmore
    refine ⟨?_,?_⟩
    · rw [hnext,hzero]
      simp
    · rw [hzero]
      simp only [UInt64.toNat_zero,Nat.zero_mul]
      omega
  · refine ⟨?_,?_⟩
    · rw [hnext,← succeededSince_eq_answeredSince hserved,Nat.add_comm,Nat.mod_eq_of_lt hfits]
    · rw [resources_eq_length hserved,Nat.mul_add,Nat.mul_one]
      omega

/-- A voucher signed after a refused payment is for one payment too many. -/
theorem served_of_authorises (h : payLoop P C b encounters n = some l)
    (hl : l.exchange P C b e = some l') (hpos : 0 < b.amountPer.toNat)
    (hserved : ∀ x ∈ l.exchanged, x.Served)
    (hfits : b.amountPer.toNat * (1 + succeededSince l.exchanged) < 2 ^ 64)
    (hauth : l'.Authorises P C b) : (Exchanged.mk e (l.next P C b)).Served := by
  by_contra hrefused
  have hfailed : (Exchanged.mk e (l.next P C b)).response.success = false := by
    rw [(Exchanged.served_iff _).1] at hrefused
    exact Bool.not_eq_true _ ▸ hrefused
  have hno := Exchanged.not_resets_of_failed _ hfailed
  obtain ⟨hex,-⟩ := AgentLoop.exchange_eq_some hl
  have hnext := ((payLoop_inv h).exchange hl).next_amount (P := P) (C := C)
  rw [hauth.1,hex,succeededSince_concat,answeredSince_concat,hno,hfailed] at hnext
  simp only [Bool.false_eq_true,if_false] at hnext
  rw [← succeededSince_eq_answeredSince hserved] at hnext
  exact not_signed_twice hpos b.amountPer.toNat_lt hfits hnext.symm

/-- Along every run of the loop the agent authorises exactly what it was served and one payment more
if and only if every payment answered so far was served and the amounts fit, or payments are free. -/
theorem authorises_iff (h : payLoop P C b encounters n = some l) :
    (∀ m ≤ n, ∀ l', payLoop P C b encounters m = some l' → l'.Authorises P C b) ↔
    b.amountPer = 0 ∨ ((∀ x ∈ l.exchanged, x.Served) ∧
      ∀ m ≤ n, ∀ l', payLoop P C b encounters m = some l' →
        b.amountPer.toNat * (1 + succeededSince l'.exchanged) < 2 ^ 64) := by
  induction n generalizing l with
  | zero =>
    have hfits : ∀ l', payLoop P C b encounters 0 = some l' →
        b.amountPer.toNat * (1 + succeededSince l'.exchanged) < 2 ^ 64 := by
      intro l' hl'
      rw [(payLoop_zero hl').1]
      simpa [succeededSince] using b.amountPer.toNat_lt
    have hserved : ∀ x ∈ l.exchanged, x.Served := by simp [(payLoop_zero h).1]
    constructor
    · intro _
      refine Or.inr ⟨hserved,?_⟩
      intro m hm l' hl'
      obtain rfl : m = 0 := by omega
      exact hfits l' hl'
    · intro _ m hm l' hl'
      obtain rfl : m = 0 := by omega
      apply authorises_of_served hl'
      exact Or.inr ⟨by simp [(payLoop_zero hl').1],hfits l' hl'⟩
  | succ n ih =>
    obtain ⟨l₀,hl₀,hl⟩ := payLoop_succ h
    obtain ⟨hex,-⟩ := AgentLoop.exchange_eq_some hl
    have hsame : ∀ l', payLoop P C b encounters (n + 1) = some l' → l' = l := by
      intro l' hl'
      exact Option.some.inj (hl'.symm.trans h)
    constructor
    · intro hall
      by_cases hzero : b.amountPer = 0
      · exact Or.inl hzero
      have hpos : 0 < b.amountPer.toNat := by
        rw [Nat.pos_iff_ne_zero]
        intro hz
        exact hzero (UInt64.toNat_inj.mp hz)
      obtain hz | ⟨hserved,hfits⟩ := (ih hl₀).mp fun m hm => hall m (by omega)
      · exact absurd hz hzero
      have hlast := served_of_authorises hl₀ hl hpos hserved (hfits n le_rfl l₀ hl₀)
        (hall (n + 1) le_rfl l h)
      have hserved' : ∀ x ∈ l.exchanged, x.Served := by
        intro x hx
        rw [hex] at hx
        rcases List.mem_append.mp hx with hx | hx
        · exact hserved x hx
        · exact List.mem_singleton.mp hx ▸ hlast
      refine Or.inr ⟨hserved',?_⟩
      intro m hm l' hl'
      by_cases hmn : m ≤ n
      · exact hfits m hmn l' hl'
      · obtain rfl : m = n + 1 := by omega
        rw [← (hall _ le_rfl l' hl').1]
        exact UInt64.toNat_lt _
    · intro hok m hm l' hl'
      by_cases hmn : m ≤ n
      · refine (ih hl₀).mpr ?_ m hmn l' hl'
        refine hok.imp_right fun hgood => ⟨?_,fun m hm => hgood.2 m (by omega)⟩
        intro x hx
        exact hgood.1 x (by rw [hex]; exact List.mem_append_left _ hx)
      · obtain rfl : m = n + 1 := by omega
        obtain rfl := hsame l' hl'
        exact authorises_of_served h (hok.imp_right fun hgood => ⟨hgood.1,hgood.2 _ le_rfl _ h⟩)

end Invariant

section Sample

/-- The payments meet the merchant in these states, and no facilitator. -/
def sampleEncounters (batchCounts : ℕ → ℕ) (i : ℕ) : Encounter :=
  let m := { (sampleStart 2).inner with batchCount := batchCounts i }
  ⟨m,m,fun _ => .sendError "connection refused"⟩

/-- The loop after a payment that was served, and one that met no facilitator. -/
def servedLoop : AgentLoop :=
  ⟨⟨formatSerialNum sampleNote.recipient.serialNum,sampleNote.recipient.serialNum,100,false,0⟩,
    [⟨sampleEncounters id 0,samplePayment (some (noteFileHex sampleCodec sampleNote sampleProof)) 100⟩]⟩

def refusedLoop : AgentLoop :=
  ⟨{ servedLoop.agent with cumulative := 200 },
    servedLoop.exchanged ++ [⟨sampleEncounters id 1,samplePayment none 200⟩]⟩

theorem sampleLoop_run :
    payLoop sampleProtocol sampleCodec sampleBenchmark (sampleEncounters id) 1 = some servedLoop ∧
    payLoop sampleProtocol sampleCodec sampleBenchmark (sampleEncounters id) 2 = some refusedLoop := by
  constructor <;>
  · rw [payLoop,AgentState.start,sampleBenchmark_setting.serialNum,parseSerialNum_formatSerialNum,
      Option.map_some,Option.bind_some]
    rfl

theorem authorises_iff_sample : servedLoop.Authorises sampleProtocol sampleCodec sampleBenchmark := by
  refine (authorises_iff sampleLoop_run.1).mpr (Or.inr ⟨?_,?_⟩) 1 le_rfl servedLoop sampleLoop_run.1
  · intro x hx
    rw [List.mem_singleton.mp hx]
    exact ((Exchanged.served_iff _).1).mpr rfl
  · intro m hm l hl
    by_cases hzero : m = 0
    · subst hzero
      rw [(payLoop_zero hl).1]
      decide
    · obtain rfl : m = 1 := by omega
      obtain rfl := Option.some.inj (hl.symm.trans sampleLoop_run.1)
      change 100 * (1 + 1) < 2 ^ 64
      decide

/-- After a refused payment the agent signs for three payments although it was served one. -/
theorem refused_payment_signed :
    payLoop sampleProtocol sampleCodec sampleBenchmark (sampleEncounters id) 2 = some refusedLoop ∧
    resources refusedLoop.exchanged = 1 ∧ succeededSince refusedLoop.exchanged = 1 ∧
    (refusedLoop.next sampleProtocol sampleCodec sampleBenchmark).cumulativeAmount = 300 ∧
    100 * (resources refusedLoop.exchanged + 1) < collectable (refusedLoop.payments ++
      [refusedLoop.next sampleProtocol sampleCodec sampleBenchmark]) ∧
    ¬refusedLoop.Authorises sampleProtocol sampleCodec sampleBenchmark := by
  have hsince : succeededSince refusedLoop.exchanged = 1 := rfl
  have hresources : resources refusedLoop.exchanged = 1 := rfl
  have hamount : (refusedLoop.next sampleProtocol sampleCodec sampleBenchmark).cumulativeAmount = 300 :=
    rfl
  have hcollect := le_collectable (refusedLoop.payments ++
    [refusedLoop.next sampleProtocol sampleCodec sampleBenchmark]) (List.mem_append_right _
      (List.mem_singleton_self _))
  rw [hamount] at hcollect
  refine ⟨sampleLoop_run.2,hresources,hsince,hamount,?_,?_⟩
  · rw [hresources]
    exact (by decide : 100 * (1 + 1) < (300 : UInt64).toNat).trans_le hcollect
  · intro hauth
    have hfirst := hauth.1
    rw [hamount,hsince] at hfirst
    revert hfirst
    decide

end Sample

end MidenX402.AdnServices
