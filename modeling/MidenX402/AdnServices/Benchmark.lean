import MidenX402.AdnServices.Responses
import MidenX402.AdnServices.Sessions
import MidenX402.AgentDebitNote.Exposure

/-!
# A benchmark run from end to end

One agent runs its loop against one merchant, which settles through one facilitator.  Each payment
is one exchange: the agent's voucher, the merchant's handler, the facilitator's settlement when the
batch is full, and the agent taking in the response.
-/

namespace MidenX402.AdnServices
open Masm AgentDebitNote Rust

/-- The three parties, with the responses the agent got and the settlements the merchant asked for. -/
structure Bench where
  agent : AgentState
  merchant : MerchantInner
  worker : Worker
  responses : List PaymentResponse
  settled : List SettleRequest

section Bench
variable (P : Protocol) {F E : Falcon} (C : Codec F E) (exec : Note → TxInputs → Option Host)
  (b : Benchmark F)

/-- The settlement that the next payment will make the merchant ask for. -/
def Bench.settles (st : Bench) : Option SettleRequest :=
  match (st.merchant.receive (st.agent.pay P C b).1).2 with
  | .answer _ _ => none
  | .settle req => some req

/-- Payment number `i`, with the facilitator's client behaving like `cl`; `none` ends the run. -/
def Bench.exchange (cl : Client C.Proof) (i : ℕ) (st : Bench) : Option Bench :=
  let (payment,agent) := st.agent.pay P C b
  match st.merchant.receive payment with
  | (merchant,.answer _ resp) => (agent.take i resp).map fun agent =>
    { st with agent := agent, merchant := merchant, responses := st.responses ++ [resp] }
  | (merchant,.settle req) =>
    let (worker,settleResp) := st.worker.serve P C exec cl req
    let (merchant,_,resp) := merchant.complete (.response settleResp)
    (agent.take i resp).map fun agent =>
      ⟨agent,merchant,worker,st.responses ++ [resp],st.settled ++ [req]⟩

/-- The first `n` payments, the facilitator's client behaving like `clients i` during the `i`-th. -/
def Bench.run (clients : ℕ → Client C.Proof) (st : Bench) : ℕ → Option Bench
  | 0 => some st
  | n + 1 => (Bench.run clients st n).bind fun st => st.exchange P C exec b (clients n) (n + 1)

/-- The benchmark against a merchant and a facilitator; a malformed serial number ends it at once.
The statistics after the last payment are left out: without a payment the code panics there, since
it picks the median from an empty list of times. -/
def runBenchmark (merchant : MerchantInner) (w : Worker) (clients : ℕ → Client C.Proof) (n : ℕ) :
    Option Bench :=
  (AgentState.start b.config).bind fun agent => Bench.run P C exec b clients ⟨agent,merchant,w,[],[]⟩ n

/-- The response names the P2ID note, the remainder and its serial number, all of them those of its
own transaction. -/
def SettleResponse.ReportsOwn (outputs : List OutputNote) (resp : SettleResponse) : Prop :=
  ∃ p2id rem p q, outputs.map OutputNote.toNote = [some p2id,some rem] ∧
    resp.p2idNoteFileHex = some (noteFileHex C p2id p) ∧
    resp.remainderNoteFileHex = some (noteFileHex C rem q) ∧
    resp.newSerialNum = some (formatSerialNum rem.recipient.serialNum)

/-- What holds after `i` payments: `es` are the settlements so far and `tip` is the live note. -/
structure BenchInv (K : Kernel) (t : Terms) (s root key : Word) (total : Felt) (start : Note)
    (k : ℕ) (w : Worker) (i : ℕ) (st : Bench) (es : List Execution) (tip : Note) (live : Felt) :
    Prop where
  cumulative : st.agent.cumulative.toNat = b.amountPer.toNat * (i % k)
  serial : st.agent.currentSerialWord = serialAfter s (i / k)
  serialStrings : st.agent.currentSerial = formatSerialNum (serialAfter s (i / k))
  sendNoteFile : st.agent.sendNoteFile = decide (i = 0)
  settleAfter : st.merchant.settleAfter = k
  batchCount : st.merchant.batchCount = i % k
  merchantId : C.accountIdFromHex st.merchant.merchantId = .ok t.merchant
  noNote : i = 0 → st.merchant.currentNoteFileHex = none
  note : i ≠ 0 → ∃ hex, st.merchant.currentNoteFileHex = some hex ∧ decodeNoteFile C hex = .ok tip
  running : st.worker.running = true
  outputNotes : st.worker.outputNotes = w.outputNotes ++ allCreated es
  settlements : es.length = i / k
  chain : DebitRun K start es tip
  inv : ChainInv P t s root key total es tip live
  balance : live.val + b.amountPer.toNat * k * (i / k) = total.val
  amounts : ∀ e ∈ es, e.inputs.noteArgs.e0 = Felt.new (UInt64.ofNat (b.amountPer.toNat * k))
  responses : st.responses.length = i ∧ ∀ resp ∈ st.responses, resp.success = true
  settled : List.Forall₂ (fun req e => decodeNoteFile C req.noteFileHex = .ok e.note ∧
    req.cumulativeAmount.toNat = b.amountPer.toNat * k) st.settled es

/-- The note, the agent's configuration and the key all belong together, and the client library,
the kernel and the codec behave as documented. -/
structure BenchSetting (K : Kernel) (t : Terms) (s root key : Word) (total : Felt) (start : Note) :
    Prop where
  documented : K.Documented P
  signsCorrectly : F.SignsCorrectly
  matchesProcedure : F.MatchesProcedure P
  roundTrips : C.RoundTrips
  runsScript : RunsScript K root exec
  slots : 1 < P.maxOutputNotes
  fungible : P.isFungible key = true
  recipient : start.recipient = ⟨s,root,t.storage⟩
  assets : start.assets = [⟨key,fungibleValue total⟩]
  userPk : t.userPk = F.toCommitment (F.publicKey b.agentSk)
  load : Benchmark.load C b.config b.amountPer = some b
  noteFile : decodeNoteFile C b.config.noteFileHex = .ok start
  serialNum : b.config.serialNum = formatSerialNum s

end Bench

theorem next_of_lt {i k : ℕ} (h : i % k + 1 < k) : (i + 1) / k = i / k ∧ (i + 1) % k = i % k + 1 := by
  have hi := Nat.mod_add_div i k
  apply (Nat.div_mod_unique (by omega)).mpr
  exact ⟨by linarith,h⟩

theorem next_of_eq {i k : ℕ} (h : i % k + 1 = k) : (i + 1) / k = i / k + 1 ∧ (i + 1) % k = 0 := by
  have hi := Nat.mod_add_div i k
  apply (Nat.div_mod_unique (by omega)).mpr
  exact ⟨by rw [mul_add]; linarith,by omega⟩

section Steps
variable {P : Protocol} {F E : Falcon} {C : Codec F E} {exec : Note → TxInputs → Option Host}
  {b : Benchmark F} {K : Kernel} {t : Terms} {s root key : Word} {total : Felt} {start : Note}
  {k : ℕ} {w : Worker} {i : ℕ} {st : Bench} {es : List Execution} {tip : Note} {live : Felt}

theorem Bench.exchange_of_lt (cl : Client C.Proof) (j : ℕ)
    (h : st.merchant.batchCount + 1 < st.merchant.settleAfter) :
    st.exchange P C exec b cl j = some { st with
      agent := (st.agent.pay P C b).2
      merchant := { st.merchant with
        batchCount := st.merchant.batchCount + 1
        currentNoteFileHex := st.merchant.noteFileAfter (st.agent.pay P C b).1
        latestPayment := some (st.agent.pay P C b).1 }
      responses := st.responses ++ [⟨true,some ("premium content (request #" ++
        toString (st.merchant.batchCount + 1) ++ ")"),none,none,none⟩] } := by
  simp only [Bench.exchange,MerchantInner.receive_of_lt _ _ h]
  rfl

/-- The request for settlement that a payment which fills the batch leads to. -/
def Bench.request (P : Protocol) (C : Codec F E) (b : Benchmark F) (st : Bench) : SettleRequest :=
  ⟨(st.merchant.noteFileAfter (st.agent.pay P C b).1).getD "",b.config.agentSkHex,
    st.agent.currentSerial,(st.agent.pay P C b).1.cumulativeAmount,st.merchant.merchantId⟩

theorem Bench.settles_of_le (h : st.merchant.settleAfter ≤ st.merchant.batchCount + 1) :
    st.settles P C b = some (st.request P C b) := by
  simp only [Bench.settles,MerchantInner.receive_of_le _ _ h]
  rfl

theorem Bench.exchange_of_le {cl : Client C.Proof} {j : ℕ} {worker : Worker} {resp : SettleResponse}
    {hex : String} {serial : Word}
    (h : st.merchant.settleAfter ≤ st.merchant.batchCount + 1)
    (hserve : st.worker.serve P C exec cl (st.request P C b) = (worker,resp))
    (hsuccess : resp.success = true) (hhex : resp.remainderNoteFileHex = some hex)
    (hserial : resp.newSerialNum = some (formatSerialNum serial)) :
    st.exchange P C exec b cl j = some
      { agent := ⟨formatSerialNum serial,serial,0,false,st.agent.settlements + 1⟩
        merchant := { st.merchant with
          batchCount := 0
          currentNoteFileHex := some hex
          latestPayment := none }
        worker := worker
        responses := st.responses ++ [⟨true,some "premium content (after settlement)",none,
          some (formatSerialNum serial),some true⟩]
        settled := st.settled ++ [st.request P C b] } := by
  have hreq : SettleRequest.mk ((st.merchant.noteFileAfter (st.agent.pay P C b).1).getD "")
      (st.agent.pay P C b).1.agentSkHex (st.agent.pay P C b).1.serialNum
      (st.agent.pay P C b).1.cumulativeAmount st.merchant.merchantId = st.request P C b := rfl
  simp only [Bench.exchange,MerchantInner.receive_of_le _ _ h,hreq,hserve,MerchantInner.complete,
    hsuccess,hhex,hserial,AgentState.take,if_true,Option.isSome_some,Option.getD_some,
    parseSerialNum_formatSerialNum,Option.map_some]
  rfl

/-- The next voucher is for one payment more, and the note in the merchant's slot once it has arrived
is the live one. -/
theorem BenchInv.payment (hset : BenchSetting P C exec b K t s root key total start)
    (hi : BenchInv P C b K t s root key total start k w i st es tip live) (hk : 0 < k)
    (hsmall : b.amountPer.toNat * k < 2 ^ 63) :
    (st.agent.pay P C b).1.cumulativeAmount.toNat = b.amountPer.toNat * (i % k + 1) ∧
    ∃ hex, st.merchant.noteFileAfter (st.agent.pay P C b).1 = some hex ∧
      decodeNoteFile C hex = .ok tip := by
  have hmod : i % k + 1 ≤ k := Nat.mod_lt i hk
  have hle : b.amountPer.toNat * (i % k + 1) ≤ b.amountPer.toNat * k := Nat.mul_le_mul_left _ hmod
  constructor
  · change (st.agent.cumulative + b.amountPer).toNat = _
    rw [UInt64.toNat_add,hi.cumulative,← Nat.mul_add_one,Nat.mod_eq_of_lt (by omega)]
  · simp only [MerchantInner.noteFileAfter,AgentState.pay,hi.sendNoteFile]
    by_cases hzero : i = 0
    · -- before the first payment nothing was settled, so the live note is the first one
      have hnil : es = [] := by
        apply List.length_eq_zero_iff.mp
        rw [hi.settlements,hzero,Nat.zero_div]
      refine ⟨b.config.noteFileHex,by simp [hzero],?_⟩
      rw [hi.chain.eq_start hnil]
      exact hset.noteFile
    · obtain ⟨hex,hhex,hdecode⟩ := hi.note hzero
      exact ⟨hex,by simp [hzero,hhex],hdecode⟩

/-- A payment that does not fill the batch. -/
theorem BenchInv.answered (hset : BenchSetting P C exec b K t s root key total start)
    (hi : BenchInv P C b K t s root key total start k w i st es tip live)
    (hsmall : b.amountPer.toNat * k < 2 ^ 63) (hlt : i % k + 1 < k) (cl : Client C.Proof) :
    ∃ st', st.exchange P C exec b cl (i + 1) = some st' ∧
      BenchInv P C b K t s root key total start k w (i + 1) st' es tip live := by
  obtain ⟨hamount,hex,hhex,hdecode⟩ := hi.payment hset (by omega) hsmall
  obtain ⟨hdiv,hmod⟩ := next_of_lt hlt
  have hmore : st.merchant.batchCount + 1 < st.merchant.settleAfter := by
    rw [hi.batchCount,hi.settleAfter]
    exact hlt
  refine ⟨_,Bench.exchange_of_lt cl _ hmore,?_⟩
  refine
    { cumulative := ?_, serial := ?_, serialStrings := ?_, sendNoteFile := ?_
      settleAfter := hi.settleAfter, batchCount := ?_, merchantId := hi.merchantId, noNote := ?_
      note := ?_, running := hi.running, outputNotes := hi.outputNotes, settlements := ?_
      chain := hi.chain, inv := hi.inv, balance := ?_, amounts := hi.amounts, responses := ?_
      settled := hi.settled }
  · rw [hmod]
    exact hamount
  · rw [hdiv]
    exact hi.serial
  · rw [hdiv]
    exact hi.serialStrings
  · simp [AgentState.pay]
  · rw [hmod,← hi.batchCount]
  · intro hzero
    omega
  · intro _
    exact ⟨hex,hhex,hdecode⟩
  · rw [hdiv]
    exact hi.settlements
  · rw [hdiv]
    exact hi.balance
  · constructor
    · simp [hi.responses.1]
    · intro resp hresp
      rcases List.mem_append.mp hresp with hold | hnew
      · exact hi.responses.2 resp hold
      · rw [List.mem_singleton.mp hnew]

theorem awaitOutputNotes_eq_ok (polls : List (Option (List (OutputNoteRecord C.Proof))))
    (h : ∀ poll ∈ polls, poll.isSome) (spent : Bool) (f : Found) :
    ∃ found, awaitOutputNotes C spent f polls = .ok found := by
  induction polls generalizing f with
  | nil => exact ⟨f,rfl⟩
  | cons poll rest ih =>
    cases poll with
    | none => simp at h
    | some l =>
      simp only [awaitOutputNotes]
      split
      · exact ⟨_,rfl⟩
      · split
        · exact ⟨_,rfl⟩
        · exact ih (fun p hp => h p (List.mem_cons_of_mem _ hp)) _

theorem BenchInv.covered (hi : BenchInv P C b K t s root key total start k w i st es tip live)
    (hcover : b.amountPer.toNat * k * (i / k + 1) ≤ total.val) : b.amountPer.toNat * k ≤ live.val := by
  have hbalance := hi.balance
  rw [mul_add,mul_one] at hcover
  omega

/-- The request of a full batch is settled on the live note. -/
theorem BenchInv.processSettle_request (hset : BenchSetting P C exec b K t s root key total start)
    (hi : BenchInv P C b K t s root key total start k w i st es tip live) (hk : 0 < k)
    (hsmall : b.amountPer.toNat * k < 2 ^ 63) (hfull : i % k + 1 = k)
    (hcover : b.amountPer.toNat * k * (i / k + 1) ≤ total.val) {cl : Client C.Proof}
    (hcl : cl.Ready P key total t.reclaimBlock) (hpolls : ∀ j, (cl.outputNotes j).isSome) :
    ∃ resp x host, routesToConsume tip x ∧
      x.noteArgs.e0 = Felt.new (st.request P C b).cumulativeAmount ∧ execute K tip x = some host ∧
      created x host = [P.p2idNote tip.recipient.serialNum t.merchant key
          (Felt.new (st.request P C b).cumulativeAmount),
        P.remainderNote tip.recipient key (live - Felt.new (st.request P C b).cumulativeAmount)] ∧
      processSettle P C exec cl (st.request P C b) = .ok (resp,created x host) ∧
      resp.success = true := by
  obtain ⟨hamount,hex,hhex,hdecode⟩ := hi.payment hset hk hsmall
  rw [hfull] at hamount
  have hn : IsDebitNote P t key live tip := hi.inv.isDebitNote hset.fungible
  have hcovered := hi.covered hcover
  have hbalance := hi.balance
  have hready : cl.Ready P key live t.reclaimBlock :=
    ⟨hcl.syncState,hcl.authenticated,hcl.beforeReclaim,hcl.hasBasicWallet,
      by have hroom := hcl.room; omega,hcl.submitted⟩
  have hserial : tip.recipient.serialNum = serialAfter s (i / k) := by
    rw [hi.inv.recipient,hi.settlements]
  obtain ⟨txId,x,hroutes,hargs,⟨host,hx,hcreated⟩,heq⟩ := processSettle_of_ready hset.documented
    hset.signsCorrectly hset.matchesProcedure hset.runsScript hset.slots hn
    (by rw [hi.inv.recipient]) b.agentSk hset.userPk (st.request P C b)
    (by simp only [Bench.request,hhex,Option.getD_some]; exact hdecode) hi.merchantId
    (by rw [hserial]; exact hi.serialStrings) (Benchmark.load_eq_some hset.load).2.2 (hamount.trans_le hcovered) hready
  obtain ⟨found,hfound⟩ := awaitOutputNotes_eq_ok
    ((List.range 60).map cl.outputNotes) (by simpa using fun j _ => hpolls j)
    (noteBalance P tip = (st.request P C b).cumulativeAmount) .nothing
  rw [hfound,Except.map,← hcreated] at heq
  exact ⟨_,x,host,hroutes,hargs,hx,hcreated,heq,rfl⟩

/-- A payment that fills the batch: the whole batch is settled on the live note. -/
theorem BenchInv.settledOne (hset : BenchSetting P C exec b K t s root key total start)
    (hi : BenchInv P C b K t s root key total start k w i st es tip live) (hk : 0 < k)
    (hsmall : b.amountPer.toNat * k < 2 ^ 63) (hfull : i % k + 1 = k)
    (hcover : b.amountPer.toNat * k * (i / k + 1) ≤ total.val) {cl : Client C.Proof}
    (hcl : cl.Ready P key total t.reclaimBlock) (hpolls : ∀ j, (cl.outputNotes j).isSome)
    (hreports : ∀ resp outputs, processSettle P C exec cl (st.request P C b) = .ok (resp,outputs) →
      resp.ReportsOwn C outputs) :
    ∃ st' es' tip' live', st.exchange P C exec b cl (i + 1) = some st' ∧
      BenchInv P C b K t s root key total start k w (i + 1) st' es' tip' live' := by
  obtain ⟨hamount,hex,hhex,hdecode⟩ := hi.payment hset hk hsmall
  rw [hfull] at hamount
  obtain ⟨hdiv,hmod⟩ := next_of_eq hfull
  have hbalance := hi.balance
  have hcovered := hi.covered hcover
  have hle : st.merchant.settleAfter ≤ st.merchant.batchCount + 1 := by
    rw [hi.batchCount,hi.settleAfter]
    omega
  obtain ⟨resp,x,host,hroutes,hargs,hx,hcreated,heq,hsuccess⟩ :=
    hi.processSettle_request hset hk hsmall hfull hcover hcl hpolls
  have hserve := Worker.serve_of_ok hi.running heq
  obtain ⟨p2id,rem,p,q,hnotes,-,hremainder,hnew⟩ := hreports _ _ heq
  rw [hcreated] at hnotes
  obtain ⟨-,hrem⟩ := List.cons.inj hnotes
  obtain ⟨hrem,-⟩ := List.cons.inj hrem
  have hlast : (created x host).getLast? = some (P.remainderNote tip.recipient key
      (live - Felt.new (st.request P C b).cumulativeAmount)) := by
    rw [hcreated]
    rfl
  have hchain := hi.chain.debit hroutes hx hlast hrem
  have hinv := hi.inv.debit hset.documented hset.fungible hroutes hx hlast hrem
  have hlength : (es ++ [Execution.mk tip x (created x host)]).length = (i + 1) / k := by
    rw [List.length_append,List.length_singleton,hi.settlements,hdiv]
  have hremserial : rem.recipient.serialNum = serialAfter s ((i + 1) / k) := by
    rw [hinv.recipient,hlength]
  rw [hremserial] at hnew
  have hval : x.noteArgs.e0.val = b.amountPer.toNat * k := by
    rw [hargs,Felt.val_new (by rw [fieldOrder]; exact hamount.trans_lt (by omega))]
    exact hamount
  refine ⟨_,es ++ [⟨tip,x,created x host⟩],rem,live - x.noteArgs.e0,
    Bench.exchange_of_le hle hserve hsuccess hremainder hnew,?_⟩
  refine
    { cumulative := ?_, serial := rfl, serialStrings := rfl, sendNoteFile := ?_
      settleAfter := hi.settleAfter, batchCount := hmod.symm, merchantId := hi.merchantId
      noNote := ?_, note := ?_, running := hi.running, outputNotes := ?_, settlements := hlength
      chain := hchain, inv := hinv, balance := ?_, amounts := ?_, responses := ?_, settled := ?_ }
  · rw [hmod]
    rfl
  · simp
  · intro hzero
    omega
  · intro _
    exact ⟨_,rfl,decodeNoteFile_noteFileHex hset.roundTrips rem q⟩
  · rw [hi.outputNotes,List.append_assoc,allCreated_append,hcreated]
  · rw [ZMod.val_sub (by omega),hval,hdiv,mul_add,mul_one]
    omega
  · intro e he
    rcases List.mem_append.mp he with hold | hnew
    · exact hi.amounts e hold
    · rw [List.mem_singleton.mp hnew]
      change x.noteArgs.e0 = _
      rw [hargs,← hamount,UInt64.ofNat_toNat]
      rfl
  · constructor
    · simp [hi.responses.1]
    · intro resp hresp
      rcases List.mem_append.mp hresp with hold | hnew
      · exact hi.responses.2 resp hold
      · rw [List.mem_singleton.mp hnew]
  · apply List.rel_append hi.settled
    refine List.Forall₂.cons ⟨?_,hamount⟩ List.Forall₂.nil
    simp only [Bench.request,hhex,Option.getD_some]
    exact hdecode

/-- Before the first payment. -/
theorem BenchSetting.initial (hset : BenchSetting P C exec b K t s root key total start)
    (url : String) (amountPerRequest : UInt64) (k : ℕ) {id : String}
    (hid : C.accountIdFromHex id = .ok t.merchant) (hw : w.running = true) :
    ∃ st, (∀ clients n, runBenchmark P C exec b (.start url id amountPerRequest k) w clients n =
        Bench.run P C exec b clients st n) ∧
      BenchInv P C b K t s root key total start k w 0 st [] start total := by
  refine ⟨⟨⟨formatSerialNum s,s,0,true,0⟩,.start url id amountPerRequest k,w,[],[]⟩,?_,?_⟩
  · intro clients n
    rw [runBenchmark,AgentState.start,hset.serialNum,parseSerialNum_formatSerialNum]
    rfl
  · refine
      { cumulative := ?_, serial := ?_, serialStrings := ?_, sendNoteFile := rfl, settleAfter := rfl
        batchCount := ?_, merchantId := hid, noNote := fun _ => rfl, note := ?_, running := hw
        outputNotes := ?_, settlements := ?_, chain := .start, inv := ?_, balance := ?_, amounts := ?_
        responses := ⟨rfl,?_⟩, settled := .nil }
    · simp
    · simp
    · simp
    · exact (Nat.zero_mod k).symm
    · intro hzero
      exact absurd rfl hzero
    · simp [allCreated]
    · simp
    · exact ⟨by simpa using hset.recipient,hset.assets,by simp,by simp [allCreated,p2idTotal]⟩
    · simp
    · simp
    · simp

/-- The settlements of the run are let through and each of them reports its own transaction. -/
def Completes (P : Protocol) (C : Codec F E) (exec : Note → TxInputs → Option Host)
    (b : Benchmark F) (t : Terms) (key : Word) (total : Felt) (merchant : MerchantInner) (w : Worker)
    (clients : ℕ → Client C.Proof) (n : ℕ) : Prop :=
  ∀ i < n, (clients i).Ready P key total t.reclaimBlock ∧ (∀ j, ((clients i).outputNotes j).isSome) ∧
    ∀ st req resp outputs, runBenchmark P C exec b merchant w clients i = some st →
      st.settles P C b = some req → processSettle P C exec (clients i) req = .ok (resp,outputs) →
      resp.ReportsOwn C outputs

theorem BenchInv.run (hset : BenchSetting P C exec b K t s root key total start) {url id : String}
    {amountPerRequest : UInt64} (hid : C.accountIdFromHex id = .ok t.merchant)
    (hw : w.running = true) (hk : 1 ≤ k) (hsmall : b.amountPer.toNat * k < 2 ^ 63)
    {clients : ℕ → Client C.Proof} (n : ℕ) (hcover : b.amountPer.toNat * k * (n / k) < total.val)
    (hcompletes : Completes P C exec b t key total (.start url id amountPerRequest k) w clients n) :
    ∃ st es tip live, runBenchmark P C exec b (.start url id amountPerRequest k) w clients n = some st ∧
      BenchInv P C b K t s root key total start k w n st es tip live := by
  obtain ⟨st0,hrun,hstart⟩ := hset.initial url amountPerRequest k hid hw
  induction n with
  | zero => exact ⟨st0,[],start,total,hrun clients 0,hstart⟩
  | succ n ih =>
    have hmono : b.amountPer.toNat * k * (n / k) ≤ b.amountPer.toNat * k * ((n + 1) / k) :=
      Nat.mul_le_mul_left _ (Nat.div_le_div_right (by omega))
    obtain ⟨st,es,tip,live,hst,hi⟩ := ih (by omega) fun i hin => hcompletes i (by omega)
    have hnext : runBenchmark P C exec b (.start url id amountPerRequest k) w clients (n + 1) =
        st.exchange P C exec b (clients n) (n + 1) := by
      rw [hrun] at hst ⊢
      rw [Bench.run,hst,Option.bind_some]
    rw [hnext]
    have hmod := Nat.mod_lt n (show 0 < k by omega)
    by_cases hlt : n % k + 1 < k
    · obtain ⟨st',hst',hi'⟩ := hi.answered hset hsmall hlt (clients n)
      exact ⟨st',es,tip,live,hst',hi'⟩
    · have hfull : n % k + 1 = k := by omega
      obtain ⟨hready,hpolls,hreports⟩ := hcompletes n (by omega)
      rw [(next_of_eq hfull).1] at hcover
      apply hi.settledOne hset hk hsmall hfull hcover.le hready hpolls
      intro resp outputs hok
      apply hreports st (st.request P C b) resp outputs hst _ hok
      apply Bench.settles_of_le
      rw [hi.batchCount,hi.settleAfter]
      omega

/-- The accounts of a benchmark of `n` payments of `a` against a merchant that settles every `k`
payments: every payment succeeds; the settlements are `n / k` debits of `k * a` in a chain from the
first note, each on the note then live and accepted by its script; together they pay the merchant
`a * k * (n / k)`; and agent and merchant end on the same note and the same place in the batch.  The
merchant has no note before the first payment. -/
theorem benchmark_accounting (hset : BenchSetting P C exec b K t s root key total start)
    (url : String) {id : String} {amountPerRequest : UInt64} (hid : C.accountIdFromHex id = .ok t.merchant)
    (hw : w.running = true) (hk : 1 ≤ k) (hsmall : b.amountPer.toNat * k < 2 ^ 63)
    {clients : ℕ → Client C.Proof} (n : ℕ) (hcover : b.amountPer.toNat * k * (n / k) < total.val)
    (hcompletes : Completes P C exec b t key total (.start url id amountPerRequest k) w clients n) :
    ∃ st es tip, runBenchmark P C exec b (.start url id amountPerRequest k) w clients n = some st ∧
      (st.responses.length = n ∧ ∀ resp ∈ st.responses, resp.success = true) ∧
      (es.length = n / k ∧ DebitRun K start es tip ∧
        (∀ e ∈ es, e.inputs.noteArgs.e0 = Felt.new (UInt64.ofNat (b.amountPer.toNat * k))) ∧
        List.Forall₂ (fun req e => decodeNoteFile C req.noteFileHex = .ok e.note ∧
          req.cumulativeAmount.toNat = b.amountPer.toNat * k) st.settled es) ∧
      (st.worker.outputNotes = w.outputNotes ++ allCreated es ∧
        paidTo P t.merchant (allCreated es) = b.amountPer.toNat * k * (n / k)) ∧
      st.agent.cumulative.toNat = n % k * b.amountPer.toNat ∧
      st.agent.currentSerialWord = serialAfter s (n / k) ∧
      (∃ live, tip.assets = [⟨key,fungibleValue live⟩] ∧
        live.val = total.val - b.amountPer.toNat * k * (n / k)) ∧
      (n ≠ 0 → ∃ hex, st.merchant.currentNoteFileHex = some hex ∧ decodeNoteFile C hex = .ok tip) ∧
      (n = 0 → st.merchant.currentNoteFileHex = none) ∧
      st.merchant.batchCount = n % k := by
  obtain ⟨st,es,tip,live,hrun,hi⟩ := BenchInv.run hset hid hw hk hsmall n hcover hcompletes
  have hvals : ∀ e ∈ es, e.inputs.noteArgs.e0.val = b.amountPer.toNat * k := by
    intro e he
    have hu : (UInt64.ofNat (b.amountPer.toNat * k)).toNat = b.amountPer.toNat * k := by
      rw [UInt64.toNat_ofNat']
      exact Nat.mod_eq_of_lt (by omega)
    rw [hi.amounts e he,Felt.val_new (by rw [hu,fieldOrder]; omega),hu]
  have hpaid : paidTo P t.merchant (allCreated es) = b.amountPer.toNat * k * (n / k) := by
    rw [hi.inv.paidTo_eq,List.map_congr_left hvals,List.map_const',List.sum_replicate,hi.settlements,
      smul_eq_mul,mul_comm]
  have hbalance := hi.balance
  refine ⟨st,es,tip,hrun,hi.responses,⟨hi.settlements,hi.chain,hi.amounts,hi.settled⟩,
    ⟨hi.outputNotes,hpaid⟩,?_,hi.serial,⟨live,hi.inv.assets,by omega⟩,hi.note,hi.noNote,hi.batchCount⟩
  rw [hi.cumulative,mul_comm]

end Steps

section Sample

def sampleBenchmark : Benchmark referenceFalcon :=
  ⟨configOf sampleNote (.ofNats 7 8 9 10),sampleMerchant,(.ofNats 7 8 9 10 : Word),100⟩

theorem sampleBenchmark_setting : BenchSetting sampleProtocol sampleCodec (execute sampleKernel)
    sampleBenchmark sampleKernel sampleStorage.terms ⟨1,2,3,4⟩ ⟨5,5,5,5⟩ sampleKey 1000 sampleNote where
  documented := sampleKernel_documented
  signsCorrectly := referenceFalcon_signsCorrectly
  matchesProcedure := referenceFalcon_matchesSample
  roundTrips := sampleCodec_roundTrips
  runsScript := runsScript_execute _ _
  slots := by decide
  fungible := rfl
  recipient := rfl
  assets := rfl
  userPk := rfl
  load := load_configOf _ _ _
  noteFile := decodeNoteFile_noteFileHex sampleCodec_roundTrips sampleNote sampleProof
  serialNum := rfl

/-- What is live when `k` batches of 200 have been settled out of the sample note. -/
def sampleLive (k : ℕ) : Felt := Felt.new 1000 - Felt.new (UInt64.ofNat (200 * k))

/-- The client of the facilitator during payment `i + 1`: every poll shows the two notes that a
settlement of the batch creates. -/
def sampleClients (i : ℕ) : Client sampleCodec.Proof :=
  let n := sampleTip (i / 2) (sampleLive (i / 2))
  sampleClient ([sampleP2id n 200,sampleRemainder n (sampleLive (i / 2)) 200].map included)

theorem sampleLive_eq {live : Felt} {k : ℕ} (hk : k ≤ 5) (h : live.val + 200 * k = 1000) :
    live = sampleLive k := by
  have htotal : (Felt.new 1000).val = 1000 := by decide
  have hsettled : (Felt.new (UInt64.ofNat (200 * k))).val = 200 * k := by
    have hu : (UInt64.ofNat (200 * k)).toNat = 200 * k := by
      rw [UInt64.toNat_ofNat']
      omega
    rw [Felt.val_new (by rw [hu,fieldOrder]; omega),hu]
  apply ZMod.val_injective
  rw [sampleLive,ZMod.val_sub (by omega),htotal,hsettled]
  omega

/-- A response to a full batch reports the two notes of its settlement. -/
theorem sampleClients_report {st : Bench} {es : List Execution} {tip : Note} {live : Felt} {i : ℕ}
    (hi : BenchInv sampleProtocol sampleCodec sampleBenchmark sampleKernel sampleStorage.terms
      ⟨1,2,3,4⟩ ⟨5,5,5,5⟩ sampleKey 1000 sampleNote 2 ⟨[],true⟩ i st es tip live) (hn : i < 5)
    (hfull : i % 2 + 1 = 2) {resp : SettleResponse} {outputs : List OutputNote}
    (hok : processSettle sampleProtocol sampleCodec (execute sampleKernel) (sampleClients i)
      (st.request sampleProtocol sampleCodec sampleBenchmark) = .ok (resp,outputs)) :
    resp.ReportsOwn sampleCodec outputs := by
  obtain ⟨hamount,hex,hhex,hdecode⟩ := hi.payment sampleBenchmark_setting (by decide) (by decide)
  have hbalance : live.val + 200 * (i / 2) = 1000 := hi.balance
  have hcumulative : (st.request sampleProtocol sampleCodec sampleBenchmark).cumulativeAmount = 200 := by
    apply UInt64.toNat_inj.mp
    rw [hfull] at hamount
    exact hamount
  have hlive : live = sampleLive (i / 2) := sampleLive_eq (by omega) hbalance
  have hrecipient : tip.recipient = (sampleTip (i / 2) (sampleLive (i / 2))).recipient := by
    rw [hi.inv.recipient,hi.settlements]
    rfl
  have hserial : st.agent.currentSerial = formatSerialNum tip.recipient.serialNum := by
    rw [hi.serialStrings,hrecipient]
    rfl
  obtain ⟨txId,x,-,-,-,heq⟩ := processSettle_of_ready sampleKernel_documented
    referenceFalcon_signsCorrectly referenceFalcon_matchesSample
    (runsScript_execute sampleKernel tip.recipient.scriptRoot) (by decide)
    (hi.inv.isDebitNote rfl) rfl (.ofNats 7 8 9 10 : Word) rfl
    (st.request sampleProtocol sampleCodec sampleBenchmark)
    (by simp only [Bench.request,hhex,Option.getD_some]; exact hdecode) hi.merchantId hserial
    (decodeSecretKey_secretKeyHex sampleCodec_roundTrips sampleSk)
    (by rw [hcumulative]; change 200 ≤ live.val; omega)
    (sampleClient_ready ([sampleP2id (sampleTip (i / 2) (sampleLive (i / 2))) 200,
      sampleRemainder (sampleTip (i / 2) (sampleLive (i / 2))) (sampleLive (i / 2)) 200].map included)
      (by omega))
  have hnotes : [sampleProtocol.p2idNote tip.recipient.serialNum sampleStorage.terms.merchant sampleKey
        (Felt.new 200),
      sampleProtocol.remainderNote tip.recipient sampleKey (live - Felt.new 200)] =
      [sampleP2id (sampleTip (i / 2) (sampleLive (i / 2))) 200,
        sampleRemainder (sampleTip (i / 2) (sampleLive (i / 2))) (sampleLive (i / 2)) 200] := by
    rw [hrecipient,hlive]
    rfl
  rw [hcumulative,hnotes,awaitOutputNotes_of_shown sampleCodec_roundTrips rfl
    (p := included (sampleP2id (sampleTip (i / 2) (sampleLive (i / 2))) 200))
    (r := included (sampleRemainder (sampleTip (i / 2) (sampleLive (i / 2))) (sampleLive (i / 2)) 200))
    rfl rfl] at heq
  obtain ⟨rfl,rfl⟩ := Prod.mk.inj (Except.ok.inj (heq.symm.trans hok))
  exact ⟨_,_,sampleProof,sampleProof,rfl,rfl,rfl,rfl⟩

theorem sampleClients_completes : ∀ n ≤ 5, Completes sampleProtocol sampleCodec (execute sampleKernel)
    sampleBenchmark sampleStorage.terms sampleKey 1000 (sampleStart 2).inner ⟨[],true⟩ sampleClients n := by
  intro n
  induction n with
  | zero => exact fun _ i hi => absurd hi (Nat.not_lt_zero i)
  | succ n ih =>
    intro hn i hi
    rcases Nat.lt_succ_iff_lt_or_eq.mp hi with hlt | rfl
    · exact ih (by omega) i hlt
    refine ⟨sampleClient_ready _ (by decide),fun _ => rfl,?_⟩
    intro st req resp outputs hrun hreq hok
    have hid : sampleCodec.accountIdFromHex "0x7bfb0f38b0fafa103f86a805594170" =
        .ok sampleStorage.terms.merchant := rfl
    obtain ⟨st',es,tip,live,hrun',hinv⟩ := BenchInv.run sampleBenchmark_setting hid rfl (by decide)
      (by decide) i (show 100 * 2 * (i / 2) < 1000 by omega) (ih (by omega))
    obtain rfl := Option.some.inj (hrun'.symm.trans hrun)
    have hsettle : (2 : ℕ) = st'.merchant.settleAfter := hinv.settleAfter.symm
    have hcount := hinv.batchCount
    by_cases hmore : i % 2 + 1 < 2
    · rw [Bench.settles,MerchantInner.receive_of_lt _ _ (by omega)] at hreq
      cases hreq
    · rw [Bench.settles_of_le (by omega)] at hreq
      obtain rfl := Option.some.inj hreq
      exact sampleClients_report hinv hn (by omega) hok

/-- Five payments of 100 in batches of two: two settlements, and one payment of the next batch. -/
theorem benchmark_accounting_sample :
    ∃ st, runBenchmark sampleProtocol sampleCodec (execute sampleKernel) sampleBenchmark
        (sampleStart 2).inner ⟨[],true⟩ sampleClients 5 = some st ∧ st.responses.length = 5 ∧
      st.settled.length = 2 ∧
      paidTo sampleProtocol sampleStorage.terms.merchant st.worker.outputNotes = 400 ∧
      st.agent.currentSerialWord = ⟨3,2,3,4⟩ ∧ st.agent.cumulative.toNat = 100 ∧
      st.merchant.batchCount = 1 := by
  obtain ⟨st,es,tip,hrun,⟨hresponses,-⟩,⟨hes,-,-,hsettled⟩,⟨hnotes,hpaid⟩,hcumulative,hserial,-,-,-,
    hbatch⟩ := benchmark_accounting sampleBenchmark_setting "http://localhost:7002" rfl rfl (by decide)
    (by decide) 5 (by decide) (sampleClients_completes 5 le_rfl)
  refine ⟨st,hrun,hresponses,hsettled.length_eq.trans hes,?_,?_,hcumulative,hbatch⟩
  · rw [hnotes]
    exact hpaid
  · rw [hserial]
    decide

/-- Without a payment the merchant never learns of the note. -/
theorem no_note_without_payment :
    BenchSetting sampleProtocol sampleCodec (execute sampleKernel) sampleBenchmark sampleKernel
      sampleStorage.terms ⟨1,2,3,4⟩ ⟨5,5,5,5⟩ sampleKey 1000 sampleNote ∧
    ∃ st, runBenchmark sampleProtocol sampleCodec (execute sampleKernel) sampleBenchmark
        (sampleStart 2).inner ⟨[],true⟩ sampleClients 0 = some st ∧
      st.merchant.currentNoteFileHex = none := by
  have hid : sampleCodec.accountIdFromHex "0x7bfb0f38b0fafa103f86a805594170" =
      .ok sampleStorage.terms.merchant := rfl
  obtain ⟨st,hrun,hi⟩ := sampleBenchmark_setting.initial (w := ⟨[],true⟩) "http://localhost:7002" 1000 2
    hid rfl
  exact ⟨sampleBenchmark_setting,st,hrun sampleClients 0,hi.noNote rfl⟩

end Sample

end MidenX402.AdnServices
