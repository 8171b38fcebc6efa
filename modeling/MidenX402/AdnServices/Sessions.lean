import MidenX402.AdnServices.Agent
import MidenX402.AdnServices.Vouchers

/-!
# Sessions of several agents with one merchant

Each agent runs its benchmark loop against the merchant, sending the file of its note with its first
request only.  The merchant has one slot for a note file.  As long as sessions follow each other the
note in the slot is that of the agent whose voucher is being handled; when they overlap it need not be.
-/

namespace MidenX402.AdnServices
open Masm AgentDebitNote Rust

/-- A running benchmark: the payments sent so far, and the request it waits for. -/
structure Session (F : Falcon) where
  benchmark : Benchmark F
  agent : AgentState
  sent : ℕ
  waiting : Option ℕ

/-- The merchant with the sessions of all agents; `current` records whose first request came last. -/
structure Shop (F : Falcon) where
  merchant : Merchant
  sessions : ℕ → Option (Session F)
  current : Option ℕ

inductive ShopAction where
  /-- an agent starts a benchmark, or starts it anew -/
  | start (i : ℕ) (config : BenchConfig) (amountPer : UInt64)
  /-- the next request of an agent is handled -/
  | send (i : ℕ)
  /-- a settlement completes -/
  | reply (request : ℕ) (reply : SettleReply)
  /-- an agent is done or gives up -/
  | stop (i : ℕ)

section Shop
variable (P : Protocol) {F E : Falcon} (C : Codec F E)

def Session.start (config : BenchConfig) (amountPer : UInt64) : Option (Session F) :=
  (Benchmark.load C config amountPer).bind fun b =>
    (AgentState.start config).map fun a => ⟨b,a,0,none⟩

/-- The session takes in the response to its last request. -/
def Session.take (s : Session F) (resp : PaymentResponse) : Option (Session F) :=
  (s.agent.take s.sent resp).map fun a => { s with agent := a, waiting := none }

def Shop.set (sh : Shop F) (i : ℕ) (s : Option (Session F)) : ℕ → Option (Session F) :=
  Function.update sh.sessions i s

/-- A request of session `s` of agent `i` is handled. -/
def Shop.sendFrom (sh : Shop F) (i : ℕ) (s : Session F) : Shop F :=
  let q := s.agent.pay P C s.benchmark
  let s' := { s with agent := q.2, sent := s.sent + 1 }
  let sh' := { sh with
    merchant := sh.merchant.pay q.1
    current := if s.agent.sendNoteFile then some i else sh.current }
  match (sh.merchant.inner.receive q.1).2 with
  | .answer _ resp => { sh' with sessions := sh.set i (s'.take resp) }
  | .settle _ => { sh' with
      sessions := sh.set i (some { s' with waiting := some sh.merchant.requests }) }

def Shop.step (sh : Shop F) : ShopAction → Shop F
  | .start i config amountPer => { sh with sessions := sh.set i (Session.start C config amountPer) }
  | .send i =>
    match sh.sessions i with
    | some s => if s.waiting = none then sh.sendFrom P C i s else sh
    | none => sh
  | .reply request reply =>
    match sh.merchant.inFlight.lookup request with
    | none => sh
    | some _ => { sh with
        merchant := sh.merchant.reply request reply
        sessions := fun i => (sh.sessions i).bind fun s =>
          if s.waiting = some request then s.take (sh.merchant.inner.complete reply).2.2 else some s }
  | .stop i => { sh with sessions := sh.set i none }

def Shop.run (sh : Shop F) (actions : List ShopAction) : Shop F := actions.foldl (Shop.step P C) sh

def Shop.opening (s : MerchantInner) : Shop F := ⟨.start s,fun _ => none,none⟩

/-- The settlement that the merchant asks for when the next request of agent `i` is handled. -/
def Shop.settles (sh : Shop F) (i : ℕ) : Option SettleRequest :=
  (sh.sessions i).bind fun s =>
    if s.waiting = none then
      match (sh.merchant.inner.receive (s.agent.pay P C s.benchmark).1).2 with
      | .answer _ _ => none
      | .settle req => some req
    else none

/-- The request pairs a note with a voucher for it: its serial number and its user's key. -/
def Paired (req : SettleRequest) : Prop :=
  ∃ n sk, decodeNoteFile C req.noteFileHex = .ok n ∧
    parseSerialNum req.serialNum = some n.recipient.serialNum ∧
    decodeSecretKey C req.agentSkHex = .ok (.falcon512Poseidon2 sk) ∧
    userKey n = F.toCommitment (F.publicKey sk)

/-- The file holds a note with the serial number whose user holds the key. -/
def HoldsNote (noteFile : Option String) (serialNum : Word) (sk : F.SecretKey) : Prop :=
  ∃ hex n, noteFile = some hex ∧ decodeNoteFile C hex = .ok n ∧ n.recipient.serialNum = serialNum ∧
    userKey n = F.toCommitment (F.publicKey sk)

/-- A configuration file as the setup writes it: the serial number and the key are those of the note
in the note file. -/
def BenchConfig.OwnsNote (config : BenchConfig) : Prop :=
  ∀ b amountPer serial, Benchmark.load C config amountPer = some b →
    parseSerialNum config.serialNum = some serial →
    HoldsNote C (some config.noteFileHex) serial b.agentSk

/-- A successful settlement names the remainder of the settled note with its serial number, or
neither. -/
def SettleResponse.NamesRemainder (req : SettleRequest) (resp : SettleResponse) : Prop :=
  (resp.remainderNoteFileHex = none ∧ resp.newSerialNum = none) ∨
  ∃ hex n n' serial, resp.remainderNoteFileHex = some hex ∧ resp.newSerialNum = some serial ∧
    decodeNoteFile C req.noteFileHex = .ok n ∧ decodeNoteFile C hex = .ok n' ∧
    parseSerialNum serial = some n'.recipient.serialNum ∧ userKey n' = userKey n

/-- What the agents' setup and the facilitator provide. -/
def Shop.Provided (sh : Shop F) : ShopAction → Prop
  | .start _ config _ => config.OwnsNote C
  | .reply request (.response resp) => ∀ req, sh.merchant.inFlight.lookup request = some req →
    resp.success = true → resp.NamesRemainder C req
  | _ => True

/-- A first request comes when no settlement is under way, any other one from the agent whose first
request came last. -/
def Shop.Follows (sh : Shop F) : ShopAction → Prop
  | .send i => ∀ s, sh.sessions i = some s →
    if s.agent.sendNoteFile then sh.merchant.inFlight = [] else sh.current = some i
  | _ => True

/-- What is known of one session: its serial number and key are read as the facilitator will read
them, and until it has sent the file of its note, that file holds the note it pays from. -/
structure Session.Ready (s : Session F) : Prop where
  serial : parseSerialNum s.agent.currentSerial = some s.agent.currentSerialWord
  key : decodeSecretKey C s.benchmark.config.agentSkHex =
    .ok (.falcon512Poseidon2 s.benchmark.agentSk)
  fresh : s.agent.sendNoteFile = true → s.waiting = none ∧
    HoldsNote C (some s.benchmark.config.noteFileHex) s.agent.currentSerialWord s.benchmark.agentSk

/-- At most one settlement is under way, of the note in the slot; only the session whose first request
came last waits for it, and the note in the slot is the one that session pays from. -/
structure ShopInv (sh : Shop F) : Prop where
  ready : ∀ i s, sh.sessions i = some s → s.Ready C
  waiting : ∀ i s r, sh.sessions i = some s → s.waiting = some r →
    sh.current = some i ∧ ∃ req, sh.merchant.inFlight = [(r,req)]
  idle : ∀ i s, sh.current = some i → sh.sessions i = some s → s.agent.sendNoteFile = false →
    s.waiting = none → sh.merchant.inFlight = []
  note : ∀ i s, sh.current = some i → sh.sessions i = some s → s.agent.sendNoteFile = false →
    HoldsNote C sh.merchant.inner.currentNoteFileHex s.agent.currentSerialWord s.benchmark.agentSk
  single : sh.merchant.inFlight.length ≤ 1
  slot : ∀ r req, (r,req) ∈ sh.merchant.inFlight →
    sh.merchant.inner.currentNoteFileHex = some req.noteFileHex

variable {P C}

theorem Session.start_eq_some {config : BenchConfig} {amountPer : UInt64} {s : Session F}
    (h : Session.start C config amountPer = some s) :
    Benchmark.load C config amountPer = some s.benchmark ∧
    parseSerialNum config.serialNum = some s.agent.currentSerialWord ∧
    s.agent.currentSerial = config.serialNum ∧ s.agent.sendNoteFile = true ∧ s.waiting = none := by
  obtain ⟨b,hb,h⟩ := Option.bind_eq_some_iff.mp h
  obtain ⟨a,ha,rfl⟩ := Option.map_eq_some_iff.mp h
  obtain ⟨serial,hserial,rfl⟩ := Option.map_eq_some_iff.mp ha
  exact ⟨hb,hserial,rfl,rfl,rfl⟩

theorem Benchmark.load_eq_some {config : BenchConfig} {amountPer : UInt64} {b : Benchmark F}
    (h : Benchmark.load C config amountPer = some b) : b.config = config ∧
    C.accountIdFromHex config.merchantIdHex = .ok b.merchantId ∧
    decodeSecretKey C config.agentSkHex = .ok (.falcon512Poseidon2 b.agentSk) := by
  rw [Benchmark.load] at h
  split at h
  · obtain rfl := Option.some.inj h
    exact ⟨rfl,by assumption,by assumption⟩
  · cases h

theorem ShopInv.start {sh : Shop F} (hi : ShopInv C sh) {i : ℕ} {config : BenchConfig}
    {amountPer : UInt64} (hown : config.OwnsNote C) :
    ShopInv C (sh.step P C (.start i config amountPer)) := by
  have hnew : ∀ j s, Function.update sh.sessions i (Session.start C config amountPer) j = some s →
      (s.Ready C ∧ s.agent.sendNoteFile = true ∧ s.waiting = none) ∨ sh.sessions j = some s := by
    intro j s hs
    by_cases hj : j = i
    · subst hj
      rw [Function.update_self] at hs
      obtain ⟨hload,hserial,hcur,hfirst,hwait⟩ := Session.start_eq_some hs
      obtain ⟨hconfig,-,hkey⟩ := Benchmark.load_eq_some hload
      refine Or.inl ⟨⟨?_,?_,?_⟩,hfirst,hwait⟩
      · rw [hcur,hserial]
      · rw [hconfig,hkey]
      · intro _
        rw [hconfig]
        exact ⟨hwait,hown _ _ _ hload hserial⟩
    · rw [Function.update_of_ne hj] at hs
      exact Or.inr hs
  refine ⟨?_,?_,?_,?_,hi.single,hi.slot⟩
  · intro j s hs
    rcases hnew j s hs with ⟨hready,-⟩ | hold
    · exact hready
    · exact hi.ready j s hold
  · intro j s r hs hr
    rcases hnew j s hs with ⟨-,-,hnone⟩ | hold
    · rw [hnone] at hr
      cases hr
    · exact hi.waiting j s r hold hr
  · intro j s hcur hs hsent hwait
    rcases hnew j s hs with ⟨-,hfirst,-⟩ | hold
    · rw [hfirst] at hsent
      cases hsent
    · exact hi.idle j s hcur hold hsent hwait
  · intro j s hcur hs hsent
    rcases hnew j s hs with ⟨-,hfirst,-⟩ | hold
    · rw [hfirst] at hsent
      cases hsent
    · exact hi.note j s hcur hold hsent

theorem ShopInv.stop {sh : Shop F} (hi : ShopInv C sh) (i : ℕ) :
    ShopInv C (sh.step P C (.stop i)) := by
  have hold : ∀ j s, Function.update sh.sessions i none j = some s → sh.sessions j = some s := by
    intro j s hs
    by_cases hj : j = i
    · subst hj
      rw [Function.update_self] at hs
      cases hs
    · rwa [Function.update_of_ne hj] at hs
  exact ⟨fun j s hs => hi.ready j s (hold j s hs),fun j s r hs => hi.waiting j s r (hold j s hs),
    fun j s hcur hs => hi.idle j s hcur (hold j s hs),fun j s hcur hs => hi.note j s hcur (hold j s hs),
    hi.single,hi.slot⟩

/-- When a request may be handled, no settlement is under way, and the note in the slot afterwards is
the one the voucher is for. -/
theorem ShopInv.noteFileAfter {sh : Shop F} (hi : ShopInv C sh) {i : ℕ} {s : Session F}
    (hs : sh.sessions i = some s) (hwait : s.waiting = none) (hf : sh.Follows (.send i)) :
    sh.merchant.inFlight = [] ∧
    HoldsNote C (sh.merchant.inner.noteFileAfter (s.agent.pay P C s.benchmark).1)
      s.agent.currentSerialWord s.benchmark.agentSk := by
  have hf := hf s hs
  cases hfirst : s.agent.sendNoteFile with
  | true =>
    simp only [hfirst,if_true] at hf
    refine ⟨hf,?_⟩
    simp only [MerchantInner.noteFileAfter,AgentState.pay,hfirst,if_true,Option.isSome_some]
    exact ((hi.ready i s hs).fresh hfirst).2
  | false =>
    simp only [hfirst,Bool.false_eq_true,if_false] at hf
    refine ⟨hi.idle i s hf hs hfirst hwait,?_⟩
    simp only [MerchantInner.noteFileAfter,AgentState.pay,hfirst,Bool.false_eq_true,if_false,
      Option.isSome_none]
    exact hi.note i s hf hs hfirst

theorem Shop.sendFrom_of_lt {sh : Shop F} {i : ℕ} {s : Session F}
    (h : sh.merchant.inner.batchCount + 1 < sh.merchant.inner.settleAfter) :
    sh.sendFrom P C i s =
      { merchant := sh.merchant.pay (s.agent.pay P C s.benchmark).1
        sessions := Function.update sh.sessions i (some { s with
          agent := (s.agent.pay P C s.benchmark).2, sent := s.sent + 1, waiting := none })
        current := if s.agent.sendNoteFile then some i else sh.current } := by
  simp only [Shop.sendFrom,MerchantInner.receive_of_lt _ _ h]
  rfl

theorem Shop.sendFrom_of_le {sh : Shop F} {i : ℕ} {s : Session F}
    (h : sh.merchant.inner.settleAfter ≤ sh.merchant.inner.batchCount + 1) :
    sh.sendFrom P C i s =
      { merchant := sh.merchant.pay (s.agent.pay P C s.benchmark).1
        sessions := Function.update sh.sessions i (some { s with
          agent := (s.agent.pay P C s.benchmark).2, sent := s.sent + 1
          waiting := some sh.merchant.requests })
        current := if s.agent.sendNoteFile then some i else sh.current } := by
  simp only [Shop.sendFrom,MerchantInner.receive_of_le _ _ h]
  rfl

/-- The sessions after a request of agent `i` was handled. -/
theorem sessions_update {sessions : ℕ → Option (Session F)} {i j : ℕ} {s' s : Session F}
    (h : Function.update sessions i (some s') j = some s) :
    (j = i ∧ s = s') ∨ (j ≠ i ∧ sessions j = some s) := by
  by_cases hj : j = i
  · subst hj
    rw [Function.update_self] at h
    exact Or.inl ⟨rfl,(Option.some.inj h).symm⟩
  · rw [Function.update_of_ne hj] at h
    exact Or.inr ⟨hj,h⟩

/-- A request was handled while nothing was under way: either nothing is now, or the settlement it
asked for, with the session waiting for it. -/
theorem ShopInv.sent {sh : Shop F} (hi : ShopInv C sh) (hempty : sh.merchant.inFlight = []) {i : ℕ}
    {s : Session F} {m : Merchant} (hready : s.Ready C) (hsent : s.agent.sendNoteFile = false)
    (hholds : HoldsNote C m.inner.currentNoteFileHex s.agent.currentSerialWord s.benchmark.agentSk)
    (hflight : (s.waiting = none ∧ m.inFlight = []) ∨ ∃ r req, s.waiting = some r ∧
      m.inFlight = [(r,req)] ∧ m.inner.currentNoteFileHex = some req.noteFileHex) :
    ShopInv C ⟨m,Function.update sh.sessions i (some s),some i⟩ := by
  -- no other session waits, since nothing was under way
  have hothers : ∀ j s' r, sh.sessions j = some s' → s'.waiting ≠ some r := by
    intro j s' r hs' hr
    obtain ⟨-,req,hreq⟩ := hi.waiting j s' r hs' hr
    rw [hempty] at hreq
    cases hreq
  refine ⟨?_,?_,?_,?_,?_,?_⟩
  · intro j s' hs'
    rcases sessions_update hs' with ⟨-,rfl⟩ | ⟨-,hold⟩
    · exact hready
    · exact hi.ready j s' hold
  · intro j s' r hs' hr
    rcases sessions_update hs' with ⟨rfl,rfl⟩ | ⟨-,hold⟩
    · rcases hflight with ⟨hnone,-⟩ | ⟨r',req,hr',hreq,-⟩
      · rw [hnone] at hr
        cases hr
      · obtain rfl := Option.some.inj (hr'.symm.trans hr)
        exact ⟨rfl,req,hreq⟩
    · exact absurd hr (hothers j s' r hold)
  · intro j s' hcur hs' _ hnone
    obtain rfl := Option.some.inj hcur
    rcases sessions_update hs' with ⟨-,rfl⟩ | ⟨hne,-⟩
    · rcases hflight with ⟨-,hnil⟩ | ⟨r',req,hr',-⟩
      · exact hnil
      · rw [hnone] at hr'
        cases hr'
    · exact absurd rfl hne
  · intro j s' hcur hs' _
    obtain rfl := Option.some.inj hcur
    rcases sessions_update hs' with ⟨-,rfl⟩ | ⟨hne,-⟩
    · exact hholds
    · exact absurd rfl hne
  · rcases hflight with ⟨-,hnil⟩ | ⟨r',req,-,hreq,-⟩
    · simp [hnil]
    · simp [hreq]
  · intro r req hmem
    rcases hflight with ⟨-,hnil⟩ | ⟨r',req',-,hreq,hslot⟩
    · rw [hnil] at hmem
      cases hmem
    · rw [hreq] at hmem
      obtain ⟨rfl,rfl⟩ := Prod.mk.inj (List.mem_singleton.mp hmem)
      exact hslot

theorem Session.Ready.paid {s : Session F} (hs : s.Ready C) (sent : ℕ) (waiting : Option ℕ) :
    Session.Ready C ⟨s.benchmark,(s.agent.pay P C s.benchmark).2,sent,waiting⟩ := by
  refine ⟨hs.serial,hs.key,?_⟩
  intro hfirst
  cases hfirst

theorem ShopInv.send {sh : Shop F} (hi : ShopInv C sh) {i : ℕ} (hf : sh.Follows (.send i)) :
    ShopInv C (sh.step P C (.send i)) := by
  simp only [Shop.step]
  cases hs : sh.sessions i with
  | none => exact hi
  | some s =>
    by_cases hwait : s.waiting = none
    swap
    · simpa only [hwait,if_false] using hi
    simp only [hwait,if_true]
    obtain ⟨hempty,hholds⟩ := hi.noteFileAfter (P := P) hs hwait hf
    have hready := hi.ready i s hs
    have hcurrent : (if s.agent.sendNoteFile = true then some i else sh.current) = some i := by
      have hf := hf s hs
      cases hfirst : s.agent.sendNoteFile <;> simp_all
    by_cases hlt : sh.merchant.inner.batchCount + 1 < sh.merchant.inner.settleAfter
    · rw [Shop.sendFrom_of_lt hlt,hcurrent,Merchant.pay_of_lt hlt,MerchantInner.receive_of_lt _ _ hlt]
      exact hi.sent hempty (hready.paid _ _) rfl hholds (Or.inl ⟨rfl,hempty⟩)
    · have hle : sh.merchant.inner.settleAfter ≤ sh.merchant.inner.batchCount + 1 := by omega
      rw [Shop.sendFrom_of_le hle,hcurrent,Merchant.pay_of_le hle,MerchantInner.receive_of_le _ _ hle,
        hempty]
      obtain ⟨hex,n,hhex,-⟩ := id hholds
      exact hi.sent hempty (hready.paid _ _) rfl hholds
        (Or.inr ⟨_,_,rfl,rfl,by simp only [hhex,Option.getD_some]⟩)

theorem Session.take_eq_some {s s' : Session F} {resp : PaymentResponse} (h : s.take resp = some s') :
    s'.waiting = none ∧ s'.benchmark = s.benchmark ∧ s.agent.take s.sent resp = some s'.agent := by
  obtain ⟨a,ha,rfl⟩ := Option.map_eq_some_iff.mp h
  exact ⟨rfl,rfl,ha⟩

/-- A response without a settlement leaves the agent's variables alone; one with a settlement starts
again from zero and may bring a new serial number. -/
theorem AgentState.take_eq_some {i : ℕ} {a a' : AgentState} {resp : PaymentResponse}
    (h : a.take i resp = some a') :
    (a' = a ∧ (resp.success = false ∨ resp.settlementOccurred.getD false = false)) ∨
    (resp.success = true ∧ resp.settlementOccurred.getD false = true ∧ a'.sendNoteFile = false ∧
      a'.cumulative = 0 ∧ ((resp.newSerialNum = none ∧ a'.currentSerial = a.currentSerial ∧
          a'.currentSerialWord = a.currentSerialWord) ∨
        (resp.newSerialNum = some a'.currentSerial ∧
          parseSerialNum a'.currentSerial = some a'.currentSerialWord))) := by
  rw [AgentState.take] at h
  cases hsuccess : resp.success with
  | false =>
    simp only [hsuccess,Bool.false_eq_true,if_false] at h
    split at h
    · exact Or.inl ⟨(Option.some.inj h).symm,Or.inl rfl⟩
    · cases h
  | true =>
    simp only [hsuccess,if_true] at h
    cases hsettled : resp.settlementOccurred.getD false with
    | false =>
      simp only [hsettled,Bool.false_eq_true,if_false] at h
      exact Or.inl ⟨(Option.some.inj h).symm,Or.inr rfl⟩
    | true =>
      simp only [hsettled,if_true] at h
      cases hnew : resp.newSerialNum with
      | none =>
        simp only [hnew] at h
        obtain rfl := Option.some.inj h
        exact Or.inr ⟨rfl,rfl,rfl,rfl,Or.inl ⟨rfl,rfl,rfl⟩⟩
      | some serial =>
        simp only [hnew] at h
        obtain ⟨word,hword,rfl⟩ := Option.map_eq_some_iff.mp h
        exact Or.inr ⟨rfl,rfl,rfl,rfl,Or.inr ⟨rfl,hword⟩⟩

theorem MerchantInner.complete_response_of_not_success (s : MerchantInner) {reply : SettleReply}
    (h : reply.success = false) : (s.complete reply).2.2.success = false := by
  cases reply with
  | response resp =>
    have hs : resp.success = false := h
    simp [MerchantInner.complete,hs]
  | _ => rfl

theorem lookup_single {β : Type} {l : List (ℕ × β)} {r : ℕ} {b : β} (hlen : l.length ≤ 1)
    (h : l.lookup r = some b) : l = [(r,b)] := by
  match l,hlen with
  | [],_ => cases h
  | [(r',b')],_ =>
    rw [List.lookup_cons] at h
    split at h
    · rename_i hr
      obtain rfl := Option.some.inj h
      rw [eq_of_beq hr]
    · cases h

/-- A session that waits has sent the file of its note. -/
theorem Session.Ready.sent {s : Session F} (h : s.Ready C) {request : ℕ}
    (hwait : s.waiting = some request) : s.agent.sendNoteFile = false := by
  cases hfirst : s.agent.sendNoteFile with
  | false => rfl
  | true =>
    rw [(h.fresh hfirst).1] at hwait
    cases hwait

/-- Without a settlement the session and the slot are as they were. -/
theorem Session.Ready.take_unsettled {s s' : Session F} {m : MerchantInner} {reply : SettleReply}
    (h : s.Ready C) (hsent : s.agent.sendNoteFile = false)
    (hnote : HoldsNote C m.currentNoteFileHex s.agent.currentSerialWord s.benchmark.agentSk)
    (hsuccess : reply.success = false) (htake : s.take (m.complete reply).2.2 = some s') :
    s'.Ready C ∧ HoldsNote C (m.complete reply).1.currentNoteFileHex
      s'.agent.currentSerialWord s'.benchmark.agentSk := by
  obtain ⟨-,hbench,hagent⟩ := Session.take_eq_some htake
  have hresp := m.complete_response_of_not_success hsuccess
  rcases AgentState.take_eq_some hagent with ⟨ha,-⟩ | ⟨hs',-⟩
  · rw [MerchantInner.complete_of_not_success _ hsuccess,ha,hbench]
    refine ⟨⟨?_,?_,?_⟩,hnote⟩
    · rw [ha,h.serial]
    · rw [hbench,h.key]
    · intro hfirst
      rw [ha,hsent] at hfirst
      cases hfirst
  · rw [hresp] at hs'
    cases hs'

/-- After a settlement of the note in the slot the session goes on with the remainder the response
names. -/
theorem Session.Ready.take_settled {s s' : Session F} {m : MerchantInner} {req : SettleRequest}
    {resp : SettleResponse} (h : s.Ready C)
    (hnote : HoldsNote C m.currentNoteFileHex s.agent.currentSerialWord s.benchmark.agentSk)
    (hslot : m.currentNoteFileHex = some req.noteFileHex) (hnames : resp.NamesRemainder C req)
    (hok : resp.success = true) (htake : s.take (m.complete (.response resp)).2.2 = some s') :
    s'.Ready C ∧ HoldsNote C (m.complete (.response resp)).1.currentNoteFileHex
      s'.agent.currentSerialWord s'.benchmark.agentSk := by
  obtain ⟨-,hbench,hagent⟩ := Session.take_eq_some htake
  simp only [MerchantInner.complete,hok,if_true] at hagent ⊢
  rcases AgentState.take_eq_some hagent with ⟨-,hno⟩ | ⟨-,-,hfirst,-,hserial⟩
  · simp at hno
  have hfresh : s'.agent.sendNoteFile = true → s'.waiting = none ∧ HoldsNote C
      (some s'.benchmark.config.noteFileHex) s'.agent.currentSerialWord s'.benchmark.agentSk := by
    intro htrue
    rw [hfirst] at htrue
    cases htrue
  have hkey : decodeSecretKey C s'.benchmark.config.agentSkHex =
      .ok (.falcon512Poseidon2 s'.benchmark.agentSk) := by
    rw [hbench,h.key]
  -- either nothing new was named and all stays, or file and serial number are the remainder's
  rcases hserial with ⟨hsame,hcs,hcw⟩ | ⟨hnew,hparse⟩
  · rcases hnames with ⟨hrem,-⟩ | ⟨_,_,_,serial,-,hserial,-⟩
    · refine ⟨⟨by rw [hcs,hcw,h.serial],hkey,hfresh⟩,?_⟩
      rw [hrem,hcw,hbench]
      exact hnote
    · cases hsame.symm.trans hserial
  · refine ⟨⟨hparse,hkey,hfresh⟩,?_⟩
    rcases hnames with ⟨-,hnone'⟩ | ⟨hex,n,n',serial,hrem,hserial,hn,hn',hparse',hkeys⟩
    · cases hnone'.symm.trans hnew
    · obtain rfl := Option.some.inj (hserial.symm.trans hnew)
      obtain ⟨hex',k,hhex',hk,-,hkkey⟩ := hnote
      obtain rfl := Option.some.inj (hslot.symm.trans hhex')
      obtain rfl := Except.ok.inj (hn.symm.trans hk)
      refine ⟨hex,n',?_,hn',Option.some.inj (hparse'.symm.trans hparse),?_⟩
      · simp [hrem]
      · rw [hkeys,hkkey,hbench]

/-- The waiting session takes in the outcome of its settlement and goes on with the note in the
slot. -/
theorem ShopInv.takes {sh : Shop F} (hi : ShopInv C sh) {i request : ℕ} {s s' : Session F}
    {req : SettleRequest} {reply : SettleReply} (hreq : sh.merchant.inFlight.lookup request = some req)
    (hp : sh.Provided C (.reply request reply)) (hs : sh.sessions i = some s)
    (hwait : s.waiting = some request)
    (htake : s.take (sh.merchant.inner.complete reply).2.2 = some s') :
    s'.Ready C ∧ HoldsNote C (sh.merchant.inner.complete reply).1.currentNoteFileHex
      s'.agent.currentSerialWord s'.benchmark.agentSk := by
  have hready := hi.ready i s hs
  have hsent := hready.sent hwait
  obtain ⟨hcur,-⟩ := hi.waiting i s request hs hwait
  have hnote := hi.note i s hcur hs hsent
  cases hsuccess : reply.success with
  | false => exact hready.take_unsettled hsent hnote hsuccess htake
  | true =>
    cases reply with
    | sendError e => cases hsuccess
    | parseError e => cases hsuccess
    | response resp =>
      have hmem : (request,req) ∈ sh.merchant.inFlight := by
        rw [lookup_single hi.single hreq]
        exact List.mem_singleton_self _
      exact hready.take_settled hnote (hi.slot request req hmem) (hp req hreq hsuccess) hsuccess htake

theorem ShopInv.reply {sh : Shop F} (hi : ShopInv C sh) {request : ℕ} {reply : SettleReply}
    (hp : sh.Provided C (.reply request reply)) :
    ShopInv C (sh.step P C (.reply request reply)) := by
  simp only [Shop.step]
  cases hreq : sh.merchant.inFlight.lookup request with
  | none => exact hi
  | some req =>
    have hflight := lookup_single hi.single hreq
    have hnil : (sh.merchant.reply request reply).inFlight = [] := by
      rcases sh.merchant.reply_cases request reply with ⟨hnone,-⟩ | ⟨_,-,⟨-,h⟩ | ⟨resp,-,-,h⟩⟩
      · rw [hreq] at hnone
        cases hnone
      · simp [h,hflight]
      · simp [h,hflight]
    have hinner : (sh.merchant.reply request reply).inner = (sh.merchant.inner.complete reply).1 := by
      simp only [Merchant.reply,hreq]
      cases reply.success <;> rfl
    -- a session either has taken in the response, or was not waiting for it and is as it was
    have hcases : ∀ i s', ((sh.sessions i).bind fun s => if s.waiting = some request then
        s.take (sh.merchant.inner.complete reply).2.2 else some s) = some s' →
        (s'.waiting = none ∧ s'.Ready C ∧ HoldsNote C (sh.merchant.inner.complete reply).1.currentNoteFileHex
          s'.agent.currentSerialWord s'.benchmark.agentSk) ∨
        (sh.sessions i = some s' ∧ s'.waiting = none) := by
      intro i s' hs'
      obtain ⟨s,hs,hs'⟩ := Option.bind_eq_some_iff.mp hs'
      by_cases hwait : s.waiting = some request
      · rw [if_pos hwait] at hs'
        exact Or.inl ⟨(Session.take_eq_some hs').1,hi.takes hreq hp hs hwait hs'⟩
      · rw [if_neg hwait] at hs'
        obtain rfl := Option.some.inj hs'
        refine Or.inr ⟨hs,?_⟩
        cases hw : s.waiting with
        | none => rfl
        | some r =>
          obtain ⟨-,req',hreq'⟩ := hi.waiting i s r hs hw
          rw [hflight] at hreq'
          obtain ⟨hr,-⟩ := Prod.mk.inj (List.cons.inj hreq').1
          exact absurd (hr ▸ hw) hwait
    refine ⟨?_,?_,?_,?_,?_,?_⟩
    · intro i s' hs'
      rcases hcases i s' hs' with ⟨-,hready,-⟩ | ⟨hold,-⟩
      · exact hready
      · exact hi.ready i s' hold
    · intro i s' r hs' hr
      rcases hcases i s' hs' with ⟨hnone,-⟩ | ⟨-,hnone⟩ <;>
      · rw [hnone] at hr
        cases hr
    · intro i s' hcur hs' hsent hwait
      exact hnil
    · intro i s' hcur hs' hsent
      rw [hinner]
      rcases hcases i s' hs' with ⟨-,-,hnote⟩ | ⟨hold,hwait⟩
      · exact hnote
      · rw [hi.idle i s' hcur hold hsent hwait] at hreq
        cases hreq
    · simp [hnil]
    · intro r q hmem
      rw [hnil] at hmem
      cases hmem

theorem ShopInv.step {sh : Shop F} (hi : ShopInv C sh) {a : ShopAction} (hp : sh.Provided C a)
    (hf : sh.Follows a) : ShopInv C (sh.step P C a) := by
  cases a with
  | start i config amountPer => exact hi.start hp
  | send i => exact hi.send hf
  | reply request reply => exact hi.reply hp
  | stop i => exact hi.stop i

/-- Every action of the run is provided for, and sessions follow each other. -/
def Shop.Orderly (P : Protocol) (C : Codec F E) (sh : Shop F) (actions : List ShopAction) : Prop :=
  ∀ before a after, actions = before ++ a :: after →
    (sh.run P C before).Provided C a ∧ (sh.run P C before).Follows a

theorem ShopInv.run {sh : Shop F} (hi : ShopInv C sh) {actions : List ShopAction}
    (ho : sh.Orderly P C actions) : ShopInv C (sh.run P C actions) := by
  induction actions generalizing sh with
  | nil => exact hi
  | cons a rest ih =>
    obtain ⟨hp,hf⟩ := ho [] a rest rfl
    apply ih (hi.step hp hf)
    intro before b after hrest
    exact ho (a :: before) b after (by rw [hrest]; rfl)

theorem Shop.opening_inv (s : MerchantInner) : ShopInv C (Shop.opening s : Shop F) := by
  refine ⟨?_,?_,?_,?_,?_,?_⟩
  · intro i s hs
    cases hs
  · intro i s r hs
    cases hs
  · intro i s hcur
    cases hcur
  · intro i s hcur
    cases hcur
  · exact Nat.zero_le 1
  · intro r req hmem
    cases hmem

theorem ShopInv.paired {sh : Shop F} (hi : ShopInv C sh) {i : ℕ} (hf : sh.Follows (.send i))
    {req : SettleRequest} (hreq : sh.settles P C i = some req) : Paired C req := by
  obtain ⟨s,hs,hreq⟩ := Option.bind_eq_some_iff.mp hreq
  by_cases hwait : s.waiting = none
  swap
  · rw [if_neg hwait] at hreq
    cases hreq
  obtain ⟨-,hex,n,hhex,hn,hserial,hkey⟩ := hi.noteFileAfter (P := P) hs hwait hf
  have hready := hi.ready i s hs
  rw [if_pos hwait] at hreq
  by_cases hlt : sh.merchant.inner.batchCount + 1 < sh.merchant.inner.settleAfter
  · rw [MerchantInner.receive_of_lt _ _ hlt] at hreq
    cases hreq
  · rw [MerchantInner.receive_of_le _ _ (by omega)] at hreq
    obtain rfl := Option.some.inj hreq
    refine ⟨n,s.benchmark.agentSk,?_,?_,hready.key,hkey⟩
    · simpa only [hhex,Option.getD_some] using hn
    · rw [hserial]
      exact hready.serial

/-- In every run with any number of agents whose sessions follow each other, where each agent's
configuration is that of its own note and each settlement names the remainder of the settled note:
the merchant asks only for settlements that pair a note with a voucher for it. -/
theorem settlements_paired (P : Protocol) (C : Codec F E) (s : MerchantInner)
    (actions : List ShopAction) (ho : (Shop.opening s : Shop F).Orderly P C actions) :
    ∀ before i after req, actions = before ++ .send i :: after →
      ((Shop.opening s).run P C before).settles P C i = some req → Paired C req := by
  intro before i after req hactions hreq
  have hbefore : (Shop.opening s : Shop F).Orderly P C before := by
    intro b a c hb
    exact ho b a (c ++ .send i :: after) (by rw [hactions,hb]; simp)
  exact ((Shop.opening_inv s).run hbefore).paired (ho before _ after hactions).2 hreq

end Shop

section Sample

/-- The configuration of an agent with the given note and key. -/
def configOf (n : Note) (sk : Word) : BenchConfig :=
  ⟨"0x7bfb0f38b0fafa103f86a805594170",
    secretKeyHex sampleCodec (.falcon512Poseidon2 (F := referenceFalcon) sk),
    noteFileHex sampleCodec n sampleProof,formatSerialNum n.recipient.serialNum⟩

/-- The note of a second agent. -/
def otherNote : Note :=
  { sampleNote with recipient := ⟨.ofNats 9 9 9 9,.ofNats 5 5 5 5,
    storageItems (.ofNats 11 12 13 14) sampleMerchant sampleUser 100⟩ }

def sessionOf (n : Note) (sk : Word) : Session referenceFalcon :=
  ⟨⟨configOf n sk,sampleMerchant,sk,100⟩,
    ⟨formatSerialNum n.recipient.serialNum,n.recipient.serialNum,0,true,0⟩,0,none⟩

theorem load_configOf (n : Note) (sk : Word) (amountPer : UInt64) :
    Benchmark.load sampleCodec (configOf n sk) amountPer =
      some ⟨configOf n sk,sampleMerchant,sk,amountPer⟩ := by
  have hkey := decodeSecretKey_secretKeyHex sampleCodec_roundTrips
    (.falcon512Poseidon2 (F := referenceFalcon) sk)
  have hid : sampleCodec.accountIdFromHex (configOf n sk).merchantIdHex = .ok sampleMerchant := rfl
  rw [Benchmark.load,hid]
  simp only [configOf,hkey]

theorem start_configOf (n : Note) (sk : Word) :
    Session.start sampleCodec (configOf n sk) 100 = some (sessionOf n sk) := by
  rw [Session.start,load_configOf,Option.bind_some,AgentState.start]
  simp only [configOf,parseSerialNum_formatSerialNum,Option.map_some]
  rfl

theorem configOf_ownsNote {n : Note} {sk : Word} (h : userKey n = sk) :
    (configOf n sk).OwnsNote sampleCodec := by
  intro b amountPer serial hload hserial
  obtain rfl := Option.some.inj (hload.symm.trans (load_configOf n sk amountPer))
  have hparse := parseSerialNum_formatSerialNum n.recipient.serialNum
  refine ⟨_,n,rfl,decodeNoteFile_noteFileHex sampleCodec_roundTrips n sampleProof,?_,h⟩
  exact Option.some.inj (hparse.symm.trans hserial)

/-- What a settlement of 100 leaves of the sample note. -/
def leftNote : Note :=
  ⟨⟨.ofNats 2 2 3 4,.ofNats 5 5 5 5,sampleStorage.toNoteStorage⟩,
    [⟨sampleKey,fungibleValue (Felt.new 900)⟩],notePublic⟩

/-- The response of a settlement that leaves the note. -/
def settledResponse (n : Note) : SettleResponse :=
  ⟨true,"0x01",100,900,none,some (noteFileHex sampleCodec n sampleProof),
    some (formatSerialNum n.recipient.serialNum),none⟩

/-- Two agents one after the other: the first pays twice, the second time out of what its first
settlement left, and gives up when no response comes. -/
def sampleSessions : List ShopAction :=
  [.start 0 (configOf sampleNote (.ofNats 7 8 9 10)) 100,.send 0,
    .reply 0 (.response (settledResponse leftNote)),.send 0,.reply 1 (.sendError "timeout"),.stop 0,
    .start 1 (configOf otherNote (.ofNats 11 12 13 14)) 100,.send 1]

/-- The merchant settles every payment; the first `k` of the actions are done. -/
def sampleShop (k : ℕ) : Shop referenceFalcon :=
  (Shop.opening (sampleStart 1).inner).run sampleProtocol sampleCodec (sampleSessions.take k)

theorem step_start_configOf (sh : Shop referenceFalcon) (i : ℕ) (n : Note) (sk : Word) :
    sh.step sampleProtocol sampleCodec (.start i (configOf n sk) 100) =
      { sh with sessions := sh.set i (some (sessionOf n sk)) } := by
  rw [Shop.step,start_configOf]

theorem sampleShop_three : (sampleShop 3).sessions 0 = some
    { sessionOf sampleNote (.ofNats 7 8 9 10) with
      agent := ⟨formatSerialNum leftNote.recipient.serialNum,leftNote.recipient.serialNum,0,false,1⟩
      sent := 1 } := by
  simp only [sampleShop,Shop.run,sampleSessions,List.take,List.foldl_cons,List.foldl_nil,
    step_start_configOf]
  simp [Shop.step,Shop.sendFrom,Shop.set,Shop.opening,sessionOf,AgentState.pay,sampleStart,
    Merchant.start,MerchantInner.start,MerchantInner.receive,Merchant.pay,Session.take,AgentState.take,
    MerchantInner.complete,settledResponse,parseSerialNum_formatSerialNum]

theorem sampleShop_idle : (sampleShop 1).sessions 0 = some (sessionOf sampleNote (.ofNats 7 8 9 10)) ∧
    (sampleShop 1).merchant.inFlight = [] ∧ (sampleShop 3).merchant.inFlight = [] ∧
    (sampleShop 3).current = some 0 ∧ (sampleShop 7).merchant.inFlight = [] ∧
    (sampleShop 7).sessions 1 = some (sessionOf otherNote (.ofNats 11 12 13 14)) := by
  simp only [sampleShop,Shop.run,sampleSessions,List.take,List.foldl_cons,List.foldl_nil,
    step_start_configOf]
  exact ⟨rfl,rfl,rfl,rfl,rfl,rfl⟩

/-- The first settlement under way is that of the sample note. -/
theorem sampleShop_two {req : SettleRequest} (h : (sampleShop 2).merchant.inFlight.lookup 0 = some req) :
    req.noteFileHex = noteFileHex sampleCodec sampleNote sampleProof := by
  simp only [sampleShop,Shop.run,sampleSessions,List.take,List.foldl_cons,List.foldl_nil,
    step_start_configOf] at h
  obtain rfl := Option.some.inj h
  rfl

theorem settledResponse_names {req : SettleRequest}
    (h : req.noteFileHex = noteFileHex sampleCodec sampleNote sampleProof) :
    (settledResponse leftNote).NamesRemainder sampleCodec req := by
  refine Or.inr ⟨_,sampleNote,leftNote,_,rfl,rfl,?_,?_,?_,rfl⟩
  · rw [h]
    exact decodeNoteFile_noteFileHex sampleCodec_roundTrips sampleNote sampleProof
  · exact decodeNoteFile_noteFileHex sampleCodec_roundTrips leftNote sampleProof
  · exact parseSerialNum_formatSerialNum _

theorem sampleSessions_orderly : (Shop.opening (sampleStart 1).inner).Orderly sampleProtocol sampleCodec
    sampleSessions := by
  intro before a after h
  have hbefore : (Shop.opening (sampleStart 1).inner).run sampleProtocol sampleCodec before =
      sampleShop before.length := by
    rw [sampleShop,h,List.take_left]
  have ha : sampleSessions[before.length]? = some a := by
    rw [h,List.getElem?_append_right le_rfl,Nat.sub_self,List.getElem?_cons_zero]
  rw [hbefore]
  generalize before.length = k at ha
  match k,ha with
  | 0,ha =>
    obtain rfl := Option.some.inj ha
    exact ⟨configOf_ownsNote rfl,trivial⟩
  | 1,ha =>
    obtain rfl := Option.some.inj ha
    refine ⟨trivial,?_⟩
    intro s hs
    obtain rfl := Option.some.inj (sampleShop_idle.1.symm.trans hs)
    exact sampleShop_idle.2.1
  | 2,ha =>
    obtain rfl := Option.some.inj ha
    exact ⟨fun req hreq _ => settledResponse_names (sampleShop_two hreq),trivial⟩
  | 3,ha =>
    obtain rfl := Option.some.inj ha
    refine ⟨trivial,?_⟩
    intro s hs
    obtain rfl := Option.some.inj (sampleShop_three.symm.trans hs)
    exact sampleShop_idle.2.2.2.1
  | 4,ha | 5,ha =>
    obtain rfl := Option.some.inj ha
    exact ⟨trivial,trivial⟩
  | 6,ha =>
    obtain rfl := Option.some.inj ha
    exact ⟨configOf_ownsNote rfl,trivial⟩
  | 7,ha =>
    obtain rfl := Option.some.inj ha
    refine ⟨trivial,?_⟩
    intro s hs
    obtain rfl := Option.some.inj (sampleShop_idle.2.2.2.2.2.symm.trans hs)
    exact sampleShop_idle.2.2.2.2.1
  | k + 8,ha => cases ha

/-- The settlement of what the first agent's first settlement left, and that of the second agent. -/
theorem settlements_paired_sample : ∃ req req',
    (sampleShop 3).settles sampleProtocol sampleCodec 0 = some req ∧
    req.noteFileHex = noteFileHex sampleCodec leftNote sampleProof ∧ Paired sampleCodec req ∧
    (sampleShop 7).settles sampleProtocol sampleCodec 1 = some req' ∧
    req'.noteFileHex = noteFileHex sampleCodec otherNote sampleProof ∧ Paired sampleCodec req' := by
  have hpaired := settlements_paired sampleProtocol sampleCodec (sampleStart 1).inner sampleSessions
    sampleSessions_orderly
  have hfirst : ∃ req, (sampleShop 3).settles sampleProtocol sampleCodec 0 = some req ∧
      req.noteFileHex = noteFileHex sampleCodec leftNote sampleProof := by
    rw [Shop.settles,sampleShop_three]
    simp only [sampleShop,Shop.run,sampleSessions,List.take,List.foldl_cons,List.foldl_nil,
      step_start_configOf]
    exact ⟨_,rfl,rfl⟩
  have hsecond : ∃ req, (sampleShop 7).settles sampleProtocol sampleCodec 1 = some req ∧
      req.noteFileHex = noteFileHex sampleCodec otherNote sampleProof := by
    rw [Shop.settles,sampleShop_idle.2.2.2.2.2]
    simp only [sampleShop,Shop.run,sampleSessions,List.take,List.foldl_cons,List.foldl_nil,
      step_start_configOf]
    exact ⟨_,rfl,rfl⟩
  obtain ⟨req,hreq,hfile⟩ := hfirst
  obtain ⟨req',hreq',hfile'⟩ := hsecond
  exact ⟨req,req',hreq,hfile,hpaired (sampleSessions.take 3) 0 (sampleSessions.drop 4) req rfl hreq,
    hreq',hfile',hpaired (sampleSessions.take 7) 1 [] req' rfl hreq'⟩

/-- The second agent's first request replaces the note file before the first agent's voucher is
settled. -/
theorem note_of_other_agent :
    let actions : List ShopAction := [.start 0 (configOf sampleNote (.ofNats 7 8 9 10)) 100,
      .start 1 (configOf otherNote (.ofNats 11 12 13 14)) 100,.send 0,.send 1]
    (configOf sampleNote (.ofNats 7 8 9 10)).OwnsNote sampleCodec ∧
    (configOf otherNote (.ofNats 11 12 13 14)).OwnsNote sampleCodec ∧
    ∃ req, ((Shop.opening (sampleStart 3).inner).run sampleProtocol sampleCodec actions).settles
        sampleProtocol sampleCodec 0 = some req ∧ ¬Paired sampleCodec req := by
  intro actions
  let sessions : ℕ → Option (Session referenceFalcon) :=
    Function.update (Function.update (fun _ => none) 0 (some (sessionOf sampleNote (.ofNats 7 8 9 10))))
      1 (some (sessionOf otherNote (.ofNats 11 12 13 14)))
  have hrun : (Shop.opening (sampleStart 3).inner).run sampleProtocol sampleCodec actions =
      Shop.run sampleProtocol sampleCodec ⟨sampleStart 3,sessions,none⟩ [.send 0,.send 1] := by
    change Shop.run _ _ (Shop.mk _ (Function.update (Function.update _ 0
      (Session.start sampleCodec _ 100)) 1 (Session.start sampleCodec _ 100)) _) _ = _
    rw [start_configOf,start_configOf]
    rfl
  refine ⟨configOf_ownsNote rfl,configOf_ownsNote rfl,?_⟩
  rw [hrun]
  refine ⟨_,rfl,?_⟩
  rintro ⟨n,sk,hn,hserial,-⟩
  have hother := decodeNoteFile_noteFileHex sampleCodec_roundTrips otherNote sampleProof
  obtain rfl := Except.ok.inj (hother.symm.trans hn)
  have hparse := parseSerialNum_formatSerialNum sampleNote.recipient.serialNum
  have hsame := Option.some.inj (hparse.symm.trans hserial)
  revert hsame
  decide

end Sample

end MidenX402.AdnServices
