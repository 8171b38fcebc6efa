import MidenX402.AdnServices.Loop

/-!
# Starting again after a settlement

The agent starts again from zero whenever it is told of a settlement, but it takes a new serial
number only if the facilitator's scan has found one.  The scan may end without the remainder, or find
the remainder of another settlement; then the agent signs small amounts for a note that is gone.
-/

namespace MidenX402.AdnServices
open Masm AgentDebitNote Rust

/-- How a request for settlement fares: it is not delivered, its answer is not read, or a worker of
the facilitator serves it. -/
inductive Outcome (Proof : Type) where
  | sendError (error : String)
  | parseError (error : String)
  | served (w : Worker) (cl : Client Proof)

/-- A payment's visit to the merchant and, if its batch is full, to the facilitator. -/
structure Visit (Proof : Type) where
  before : MerchantInner
  after : MerchantInner
  outcome : Outcome Proof

section Visits
variable (P : Protocol) {F E : Falcon} (C : Codec F E) (exec : Note → TxInputs → Option Host)

def Outcome.reply (req : SettleRequest) : Outcome C.Proof → SettleReply
  | .sendError e => .sendError e
  | .parseError e => .parseError e
  | .served w cl => .response (w.serve P C exec cl req).2

def Visit.encounter (v : Visit C.Proof) : Encounter :=
  ⟨v.before,v.after,fun req => v.outcome.reply P C exec req⟩

/-- The payment makes the merchant ask for the settlement `req`, which succeeds and creates the notes
`outputs`. -/
def Visit.Settles (v : Visit C.Proof) (payment : PaymentRequest) (req : SettleRequest)
    (cl : Client C.Proof) (outputs : List OutputNote) : Prop :=
  (v.before.receive payment).2 = .settle req ∧
  ∃ w resp, v.outcome = .served w cl ∧ w.running = true ∧
    processSettle P C exec cl req = .ok (resp,outputs)

def Client.polls {Proof : Type} (cl : Client Proof) : List (Option (List (OutputNoteRecord Proof))) :=
  (List.range 60).map cl.outputNotes

/-- The first note with nine items that the polls show has the serial number, and no earlier poll
shows the P2ID note of a request for the whole balance. -/
def ShowsFirst {Proof : Type} (spent : Bool) (serialNum : Word)
    (polls : List (Option (List (OutputNoteRecord Proof)))) : Prop :=
  ∃ earlier l later r, polls = earlier ++ some l :: later ∧ l.find? (·.shows 9) = some r ∧
    r.note.details.map Recipient.serialNum = some serialNum ∧
    ∀ poll ∈ earlier, ∃ l', poll = some l' ∧ l'.find? (·.shows 9) = none ∧
      (spent = true → l'.find? (·.shows 2) = none)

/-- The serial number of the note created last. -/
def remainderSerialOf (outputs : List OutputNote) : Option Word :=
  outputs.getLast?.bind fun o => o.details.map Recipient.serialNum

end Visits

section Scan
variable {F E : Falcon} {C : Codec F E}

theorem showsFirst_cons {Proof : Type} (spent : Bool) (serialNum : Word)
    (l : List (OutputNoteRecord Proof)) (rest : List (Option (List (OutputNoteRecord Proof)))) :
    ShowsFirst spent serialNum (some l :: rest) ↔
      (∃ r, l.find? (·.shows 9) = some r ∧
        r.note.details.map Recipient.serialNum = some serialNum) ∨
      (l.find? (·.shows 9) = none ∧ (spent = true → l.find? (·.shows 2) = none) ∧
        ShowsFirst spent serialNum rest) := by
  constructor
  · rintro ⟨earlier,l',later,r,hpolls,hr,hserial,hearlier⟩
    cases earlier with
    | nil =>
      obtain ⟨hl,-⟩ := List.cons.inj hpolls
      obtain rfl := Option.some.inj hl
      exact Or.inl ⟨r,hr,hserial⟩
    | cons poll earlier =>
      obtain ⟨hl,hrest⟩ := List.cons.inj hpolls
      obtain ⟨l₁,hl₁,h9,h2⟩ := hearlier poll List.mem_cons_self
      obtain rfl := Option.some.inj (hl.trans hl₁)
      exact Or.inr ⟨h9,h2,earlier,l',later,r,hrest,hr,hserial,
        fun poll hpoll => hearlier poll (List.mem_cons_of_mem _ hpoll)⟩
  · rintro (⟨r,hr,hserial⟩ | ⟨h9,h2,earlier,l',later,r,rfl,hr,hserial,hearlier⟩)
    · exact ⟨[],l,rest,r,rfl,hr,hserial,by simp⟩
    · refine ⟨some l :: earlier,l',later,r,rfl,hr,hserial,?_⟩
      intro poll hpoll
      rcases List.mem_cons.mp hpoll with rfl | hpoll
      · exact ⟨l,rfl,h9,h2⟩
      · exact hearlier poll hpoll

theorem serial_eq_some_iff {Proof : Type} (r : OutputNoteRecord Proof) (serial : SerialStrings) :
    r.serial = some serial ↔ ∃ word, serial = formatSerialNum word ∧
      r.note.details.map Recipient.serialNum = some word := by
  cases hd : r.note.details with
  | none => simp [OutputNoteRecord.serial,hd]
  | some d => simp [OutputNoteRecord.serial,hd,eq_comm]

/-- A poll ends the scan, or the scan goes on with what the poll has shown. -/
theorem awaitOutputNotes_cons {spent : Bool} {l : List (OutputNoteRecord C.Proof)}
    {rest : List (Option (List (OutputNoteRecord C.Proof)))} {f found : Found}
    (h : awaitOutputNotes C spent f (some l :: rest) = .ok found) :
    found = l.foldl (Found.see C) f ∨
      awaitOutputNotes C spent (l.foldl (Found.see C) f) rest = .ok found := by
  simp only [awaitOutputNotes] at h
  split at h
  · exact Or.inl (Except.ok.inj h).symm
  · split at h
    · exact Or.inl (Except.ok.inj h).symm
    · exact Or.inr h

/-- A serial number that was found stays. -/
theorem awaitOutputNotes_keeps (hC : C.RoundTrips) {spent : Bool}
    {polls : List (Option (List (OutputNoteRecord C.Proof)))} {f found : Found} (hf : f.Coupled)
    {serial : SerialStrings} (hserial : f.newSerial = some serial)
    (h : awaitOutputNotes C spent f polls = .ok found) : found.newSerial = some serial := by
  induction polls generalizing f with
  | nil => rw [← Except.ok.inj h,hserial]
  | cons poll rest ih =>
    cases poll with
    | none => cases h
    | some l =>
      obtain ⟨heq,hcoupled⟩ := Found.foldl_see hC l f hf
      have hnext : (l.foldl (Found.see C) f).newSerial = some serial := by
        rw [heq]
        simp [hserial]
      rcases awaitOutputNotes_cons h with rfl | hrest
      · exact hnext
      · exact ih hcoupled hnext hrest

/-- The note is found in this poll, whatever the later ones show. -/
theorem awaitOutputNotes_shown (hC : C.RoundTrips) {spent : Bool}
    {l : List (OutputNoteRecord C.Proof)} {rest : List (Option (List (OutputNoteRecord C.Proof)))}
    {f found : Found} (hf : f.Coupled) (hnone : f.newSerial = none) {r : OutputNoteRecord C.Proof}
    (h9 : l.find? (·.shows 9) = some r) {serial : SerialStrings} (hserial : r.serial = some serial)
    (h : awaitOutputNotes C spent f (some l :: rest) = .ok found) : found.newSerial = some serial := by
  obtain ⟨heq,hcoupled⟩ := Found.foldl_see hC l f hf
  have hnext : (l.foldl (Found.see C) f).newSerial = some serial := by
    rw [heq]
    simp [hnone,h9,hserial]
  rcases awaitOutputNotes_cons h with rfl | hrest
  · exact hnext
  · exact awaitOutputNotes_keeps hC hcoupled hnext hrest

/-- A poll that does not show the note ends the scan exactly if the whole balance is asked for and the
P2ID note is shown. -/
theorem awaitOutputNotes_hidden (hC : C.RoundTrips) {spent : Bool}
    {l : List (OutputNoteRecord C.Proof)} (rest : List (Option (List (OutputNoteRecord C.Proof))))
    {f : Found} (hf : f.Coupled) (hnone : f.newSerial = none)
    (hspent : spent = true → f.p2idHex = none) (h9 : l.find? (·.shows 9) = none) :
    (l.foldl (Found.see C) f).newSerial = none ∧
    (spent = true → l.find? (·.shows 2) = none → (l.foldl (Found.see C) f).p2idHex = none) ∧
    awaitOutputNotes C spent f (some l :: rest) =
      if spent = true ∧ l.find? (·.shows 2) ≠ none then .ok (l.foldl (Found.see C) f)
      else awaitOutputNotes C spent (l.foldl (Found.see C) f) rest := by
  obtain ⟨heq,-⟩ := Found.foldl_see hC l f hf
  have hrem : f.remainderHex = none := by simpa [Found.Coupled,hnone] using hf
  have hp2id : (l.foldl (Found.see C) f).p2idHex =
      f.p2idHex.or ((l.find? (·.shows 2)).bind (·.fileHex)) := by
    rw [heq]
  have hfull : ((l.foldl (Found.see C) f).p2idHex.isSome ∧ spent = true) ↔
      (spent = true ∧ l.find? (·.shows 2) ≠ none) := by
    rw [and_comm]
    apply and_congr_right
    intro hs
    rw [hp2id,hspent hs]
    cases h2 : l.find? (·.shows 2) with
    | none => simp
    | some p => simpa using OutputNoteRecord.fileHex_isSome (C := C) (List.find?_some h2)
  refine ⟨?_,?_,?_⟩
  · rw [heq]
    simp [hnone,h9]
  · intro hs h2
    rw [hp2id,hspent hs,h2]
    rfl
  · have hopen : ¬((l.foldl (Found.see C) f).p2idHex.isSome ∧
        (l.foldl (Found.see C) f).remainderHex.isSome) := by
      rw [heq]
      simp [hrem,h9]
    simp only [awaitOutputNotes]
    rw [if_neg hopen]
    exact if_congr hfull rfl rfl

/-- What the scan reports as the new serial number. -/
theorem awaitOutputNotes_newSerial (hC : C.RoundTrips) {spent : Bool}
    {polls : List (Option (List (OutputNoteRecord C.Proof)))} {f found : Found} (hf : f.Coupled)
    (hnone : f.newSerial = none) (hspent : spent = true → f.p2idHex = none)
    (h : awaitOutputNotes C spent f polls = .ok found) (serial : SerialStrings) :
    found.newSerial = some serial ↔
      ∃ word, serial = formatSerialNum word ∧ ShowsFirst spent word polls := by
  induction polls generalizing f with
  | nil =>
    rw [← Except.ok.inj h,hnone]
    simp [ShowsFirst]
  | cons poll rest ih =>
    cases poll with
    | none => cases h
    | some l =>
      simp only [showsFirst_cons]
      cases h9 : l.find? (·.shows 9) with
      | some r =>
        obtain ⟨s,hs⟩ := Option.isSome_iff_exists.mp
          (OutputNoteRecord.serial_isSome (List.find?_some h9))
        have hiff := serial_eq_some_iff r serial
        rw [awaitOutputNotes_shown hC hf hnone h9 hs h,← hs,hiff]
        simp
      | none =>
        obtain ⟨hnext,hp2id,hscan⟩ := awaitOutputNotes_hidden hC rest hf hnone hspent h9
        rw [hscan] at h
        by_cases hfull : spent = true ∧ l.find? (·.shows 2) ≠ none
        · -- the whole balance is spent and its P2ID note was found
          rw [if_pos hfull] at h
          rw [← Except.ok.inj h,hnext]
          simp [hfull.1,hfull.2]
        · rw [if_neg hfull] at h
          have hopen : spent = true → l.find? (·.shows 2) = none :=
            fun hs => not_not.mp fun h2 => hfull ⟨hs,h2⟩
          rw [ih (Found.foldl_see hC l f hf).2 hnext (fun hs => hp2id hs (hopen hs)) h]
          simp only [reduceCtorEq,false_and,exists_false,false_or,true_and]
          constructor
          · rintro ⟨word,hword,hshows⟩
            exact ⟨word,hword,hopen,hshows⟩
          · rintro ⟨word,hword,-,hshows⟩
            exact ⟨word,hword,hshows⟩

end Scan

section Reset
variable {P : Protocol} {F E : Falcon} {C : Codec F E} {exec : Note → TxInputs → Option Host}
  {b : Benchmark F} {v : Visit C.Proof} {payment : PaymentRequest} {req : SettleRequest}
  {cl : Client C.Proof} {outputs : List OutputNote} {l l' : AgentLoop}

/-- The agent starts again exactly when a settlement has succeeded. -/
theorem Visit.resets_iff : (Exchanged.mk (v.encounter P C exec) payment).resets = true ↔
    ∃ req cl outputs, v.Settles P C exec payment req cl outputs := by
  rw [Exchanged.resets,Exchanged.response,Encounter.handlePay]
  by_cases hlt : v.before.batchCount + 1 < v.before.settleAfter
  · simp [Visit.Settles,Visit.encounter,MerchantInner.receive_of_lt _ _ hlt]
  · have hle : v.before.settleAfter ≤ v.before.batchCount + 1 := by omega
    simp only [Visit.Settles,Visit.encounter,MerchantInner.receive_of_le _ _ hle]
    constructor
    · intro hresets
      rw [(v.after.complete_success _).1,Bool.and_eq_true] at hresets
      cases houtcome : v.outcome with
      | sendError e => simp [houtcome,Outcome.reply,SettleReply.success] at hresets
      | parseError e => simp [houtcome,Outcome.reply,SettleReply.success] at hresets
      | served w cl =>
        rw [houtcome] at hresets
        obtain ⟨resp,outputs,hok,hserve⟩ := Worker.serve_success hresets.1
        have hrunning : w.running = true := by
          by_contra hstopped
          have hs := hresets.1
          simp [Outcome.reply,SettleReply.success,Worker.serve,hstopped,SettleResponse.failed] at hs
        exact ⟨_,cl,outputs,rfl,w,resp,rfl,hrunning,hok⟩
    · rintro ⟨req,cl,outputs,hreq,w,resp,houtcome,hrunning,hok⟩
      cases hreq
      obtain ⟨_,_,_,_,_,-,-,-,-,-,rfl⟩ := processSettle_eq_ok hok
      rw [houtcome]
      simp [Outcome.reply,Worker.serve_of_ok hrunning hok,MerchantInner.complete]

/-- What the agent signs with after a settlement: what the scan has found, else what it had. -/
theorem AgentLoop.exchange_settles (hC : C.RoundTrips) (l : AgentLoop)
    (h : v.Settles P C exec (l.next P C b) req cl outputs) :
    ∃ n l', decodeNoteFile C req.noteFileHex = .ok n ∧
      l.exchange P C b (v.encounter P C exec) = some l' ∧ l'.agent.cumulative = 0 ∧
      (∀ word, ShowsFirst (noteBalance P n = req.cumulativeAmount) word cl.polls →
        l'.agent.currentSerialWord = word) ∧
      ((∀ word, ¬ShowsFirst (noteBalance P n = req.cumulativeAmount) word cl.polls) →
        l'.agent.currentSerialWord = l.agent.currentSerialWord) := by
  obtain ⟨hreq,w,resp,houtcome,hrunning,hok⟩ := h
  obtain ⟨n,r,host,txId,found,hn,-,-,-,hfound,hresp⟩ := processSettle_eq_ok hok
  have hnew := awaitOutputNotes_newSerial hC (f := .nothing) rfl rfl (fun _ => rfl) hfound
  have hresponse : (v.encounter P C exec).handlePay (l.next P C b) =
      ⟨true,some "premium content (after settlement)",none,found.newSerial,some true⟩ := by
    simp only [Encounter.handlePay,Visit.encounter,hreq,houtcome,Outcome.reply,
      Worker.serve_of_ok hrunning hok]
    simp [MerchantInner.complete,hresp]
  have hexchange : l.exchange P C b (v.encounter P C exec) =
      ((l.agent.pay P C b).2.take (l.exchanged.length + 1)
        ((v.encounter P C exec).handlePay (l.next P C b))).map fun agent =>
          ⟨agent,l.exchanged ++ [⟨v.encounter P C exec,l.next P C b⟩]⟩ := rfl
  rw [hexchange,hresponse]
  cases hserial : found.newSerial with
  | none =>
    refine ⟨n,_,hn,rfl,rfl,?_,fun _ => rfl⟩
    intro word hshows
    have hsome := (hnew (formatSerialNum word)).mpr ⟨word,rfl,hshows⟩
    rw [hserial] at hsome
    cases hsome
  | some serial =>
    obtain ⟨word,rfl,hshows⟩ := (hnew serial).mp hserial
    simp only [AgentState.take,if_true,Option.getD_some,parseSerialNum_formatSerialNum,Option.map_some]
    refine ⟨n,_,hn,rfl,rfl,?_,fun hnothing => absurd hshows (hnothing word)⟩
    intro word' hshows'
    have hsame := (hnew (formatSerialNum word')).mpr ⟨word',rfl,hshows'⟩
    have hformat := Option.some.inj (hserial.symm.trans hsame)
    have hparse := parseSerialNum_formatSerialNum word
    rw [hformat,parseSerialNum_formatSerialNum] at hparse
    exact (Option.some.inj hparse).symm

end Reset

section Runs
variable (P : Protocol) {F E : Falcon} (C : Codec F E) (exec : Note → TxInputs → Option Host)
  (b : Benchmark F)

/-- The loop along the visits of its payments. -/
def visitLoop (visits : ℕ → Visit C.Proof) (n : ℕ) : Option AgentLoop :=
  payLoop P C b (fun i => (visits i).encounter P C exec) n

/-- During visit `m` the note `note` is settled. -/
def SettledAt (visits : ℕ → Visit C.Proof) (m : ℕ) (note : Note) (outputs : List OutputNote) : Prop :=
  ∃ l req cl, visitLoop P C exec b visits m = some l ∧
    (visits m).Settles P C exec (l.next P C b) req cl outputs ∧
    decodeNoteFile C req.noteFileHex = .ok note

/-- After each of the first `n` payments that reset the amount the agent signs for the remainder of
the note just settled. -/
def SignsForRemainder (visits : ℕ → Visit C.Proof) (n : ℕ) : Prop :=
  ∀ m < n, ∀ note outputs l', SettledAt P C exec b visits m note outputs →
    visitLoop P C exec b visits (m + 1) = some l' →
    l'.agent.cumulative = 0 ∧ remainderSerialOf outputs = some l'.agent.currentSerialWord

/-- No voucher is signed for a note that was settled before. -/
def NeverSignsForSettled (visits : ℕ → Visit C.Proof) (n : ℕ) : Prop :=
  ∀ m ≤ n, ∀ l, visitLoop P C exec b visits m = some l →
    ∀ j < m, ∀ note outputs, SettledAt P C exec b visits j note outputs →
      parseSerialNum (l.next P C b).serialNum ≠ some note.recipient.serialNum

/-- The note the merchant would have settled is a debit note, and the one the voucher is for. -/
def HoldsOwnNote (root : Word) (visits : ℕ → Visit C.Proof) (n : ℕ) : Prop :=
  ∀ m < n, ∀ l req, visitLoop P C exec b visits m = some l →
    ((visits m).before.receive (l.next P C b)).2 = .settle req →
    ∃ t key amount note, decodeNoteFile C req.noteFileHex = .ok note ∧
      IsDebitNote P t key amount note ∧ note.recipient.scriptRoot = root ∧
      parseSerialNum req.serialNum = some note.recipient.serialNum

/-- While a settlement is polled for, the first note with nine items that is shown is the remainder,
and if the whole balance is settled the remainder is not shown later than the P2ID note. -/
def ShowsRemainders (visits : ℕ → Visit C.Proof) (n : ℕ) : Prop :=
  ∀ m < n, ∀ l req cl note outputs, visitLoop P C exec b visits m = some l →
    (visits m).Settles P C exec (l.next P C b) req cl outputs →
    decodeNoteFile C req.noteFileHex = .ok note →
    ∃ word, remainderSerialOf outputs = some word ∧
      ShowsFirst (noteBalance P note = req.cumulativeAmount) word cl.polls

end Runs

section Chain
variable {P : Protocol} {K : Kernel} {F E : Falcon} {C : Codec F E}
  {exec : Note → TxInputs → Option Host} {b : Benchmark F} {root : Word}
  {visits : ℕ → Visit C.Proof} {n : ℕ} {l : AgentLoop}

theorem remainderSerialOf_settle (hK : K.Documented P) (hexec : RunsScript K root exec)
    (hsig : NeedsSignature P) {t : Terms} {key : Word} {amount : Felt} {note : Note}
    (hn : IsDebitNote P t key amount note) (hroot : note.recipient.scriptRoot = root)
    {v : Visit C.Proof} {payment : PaymentRequest} {req : SettleRequest} {cl : Client C.Proof}
    {outputs : List OutputNote} (hnote : decodeNoteFile C req.noteFileHex = .ok note)
    (h : v.Settles P C exec payment req cl outputs) :
    remainderSerialOf outputs = some (remainderSerial note.recipient.serialNum) := by
  obtain ⟨-,w,resp,-,-,hok⟩ := h
  obtain ⟨note',r,host,txId,found,hnote',-,hx,rfl,-,-⟩ := processSettle_eq_ok hok
  obtain rfl : note' = note := Except.ok.inj (hnote'.symm.trans hnote)
  rw [hexec _ _ hroot] at hx
  rw [(created_of_settle hK hsig hn hx).2]
  rfl

theorem Visit.Settles.serialNum {v : Visit C.Proof} {payment : PaymentRequest} {req : SettleRequest}
    {cl : Client C.Proof} {outputs : List OutputNote}
    (h : v.Settles P C exec payment req cl outputs) : req.serialNum = payment.serialNum := by
  obtain ⟨-,rfl⟩ := MerchantInner.receive_eq_settle h.1
  rfl

theorem exists_visitLoop (h : visitLoop P C exec b visits n = some l) {m : ℕ} (hm : m ≤ n) :
    ∃ l', visitLoop P C exec b visits m = some l' := by
  induction n generalizing l with
  | zero =>
    obtain rfl : m = 0 := by omega
    exact ⟨l,h⟩
  | succ n ih =>
    by_cases hmn : m ≤ n
    · obtain ⟨l₀,hl₀,-⟩ := payLoop_succ h
      exact ih hl₀ hmn
    · obtain rfl : m = n + 1 := by omega
      exact ⟨l,h⟩

theorem visitLoop_serial (h : visitLoop P C exec b visits n = some l) :
    parseSerialNum l.agent.currentSerial = some l.agent.currentSerialWord := by
  induction n generalizing l with
  | zero =>
    obtain ⟨agent,hstart,hl⟩ := Option.bind_eq_some_iff.mp h
    obtain ⟨serial,hserial,rfl⟩ := Option.map_eq_some_iff.mp hstart
    obtain rfl := Option.some.inj hl
    exact hserial
  | succ n ih =>
    obtain ⟨l₀,hl₀,hl⟩ := payLoop_succ h
    obtain ⟨agent,htake,rfl⟩ := Option.map_eq_some_iff.mp hl
    have hold : parseSerialNum l₀.agent.currentSerial = some l₀.agent.currentSerialWord := ih hl₀
    rcases AgentState.take_eq_some htake with ⟨rfl,-⟩ | ⟨-,-,-,-,⟨-,hs,hw⟩ | ⟨-,hparse⟩⟩
    · exact hold
    · change parseSerialNum agent.currentSerial = some agent.currentSerialWord
      rw [hs,hw]
      exact hold
    · exact hparse

/-- The settlement under way in a state of the loop. -/
theorem SettledAt.inv {m : ℕ} {note : Note} {outputs : List OutputNote}
    (h : SettledAt P C exec b visits m note outputs) (hl : visitLoop P C exec b visits m = some l) :
    ∃ req cl, (visits m).Settles P C exec (l.next P C b) req cl outputs ∧
      decodeNoteFile C req.noteFileHex = .ok note := by
  obtain ⟨l',req,cl,hl',hsettles,hnote⟩ := h
  obtain rfl := Option.some.inj (hl'.symm.trans hl)
  exact ⟨req,cl,hsettles,hnote⟩

/-- What the note in hand and its remainder have to do with the voucher. -/
theorem HoldsOwnNote.serials (hK : K.Documented P) (hexec : RunsScript K root exec)
    (hsig : NeedsSignature P) (hown : HoldsOwnNote P C exec b root visits n) {m : ℕ} (hm : m < n)
    {note : Note} {outputs : List OutputNote} (h : SettledAt P C exec b visits m note outputs)
    (hl : visitLoop P C exec b visits m = some l) :
    note.recipient.serialNum = l.agent.currentSerialWord ∧
      remainderSerialOf outputs = some (remainderSerial l.agent.currentSerialWord) := by
  obtain ⟨req,cl,hsettles,hnote⟩ := h.inv hl
  obtain ⟨t,key,amount,note',hnote',hn,hroot,hserial⟩ := hown m hm l req hl hsettles.1
  obtain rfl : note' = note := Except.ok.inj (hnote'.symm.trans hnote)
  rw [hsettles.serialNum] at hserial
  have hsame : note'.recipient.serialNum = l.agent.currentSerialWord :=
    Option.some.inj (hserial.symm.trans (visitLoop_serial hl))
  rw [← hsame]
  exact ⟨rfl,remainderSerialOf_settle hK hexec hsig hn hroot hnote hsettles⟩

theorem signsForRemainder_of_shown (hC : C.RoundTrips)
    (hshown : ShowsRemainders P C exec b visits n) : SignsForRemainder P C exec b visits n := by
  intro m hm note outputs l' hsettled hl'
  obtain ⟨l,hl,hex⟩ := payLoop_succ hl'
  obtain ⟨req,cl,hsettles,hnote⟩ := hsettled.inv hl
  obtain ⟨word,hword,hfirst⟩ := hshown m hm l req cl note outputs hl hsettles hnote
  obtain ⟨note',l₁,hnote',hex',hzero,hserial,-⟩ := AgentLoop.exchange_settles hC l hsettles
  obtain rfl : note' = note := Except.ok.inj (hnote'.symm.trans hnote)
  obtain rfl := Option.some.inj (hex'.symm.trans hex)
  exact ⟨hzero,by rw [hword,hserial word hfirst]⟩

/-- Conversely, an agent that signs for the remainder was shown it. -/
theorem shown_of_signsForRemainder (hK : K.Documented P) (hC : C.RoundTrips)
    (hexec : RunsScript K root exec) (hsig : NeedsSignature P)
    (hrun : visitLoop P C exec b visits n = some l) (hown : HoldsOwnNote P C exec b root visits n)
    (hsigns : SignsForRemainder P C exec b visits n) : ShowsRemainders P C exec b visits n := by
  intro m hm l₀ req cl note outputs hl₀ hsettles hnote
  obtain ⟨l',hl'⟩ : ∃ l', visitLoop P C exec b visits (m + 1) = some l' :=
    exists_visitLoop hrun (by omega)
  obtain ⟨l₁,hl₁,hex⟩ := payLoop_succ hl'
  obtain rfl := Option.some.inj (hl₁.symm.trans hl₀)
  have hsettled : SettledAt P C exec b visits m note outputs := ⟨l₁,req,cl,hl₀,hsettles,hnote⟩
  obtain ⟨-,hremainder⟩ := hown.serials hK hexec hsig hm hsettled hl₀
  have hnew := (hsigns m hm note outputs l' hsettled hl').2
  obtain ⟨note',l₂,hnote',hex',-,hfound,hkept⟩ := AgentLoop.exchange_settles hC l₁ hsettles
  obtain rfl : note' = note := Except.ok.inj (hnote'.symm.trans hnote)
  obtain rfl := Option.some.inj (hex'.symm.trans hex)
  by_cases hany : ∃ word, ShowsFirst (noteBalance P note' = req.cumulativeAmount) word cl.polls
  · obtain ⟨word,hword⟩ := hany
    rw [hfound word hword] at hnew
    exact ⟨word,hnew,hword⟩
  · -- without a new serial number the agent stays with that of the settled note
    rw [hkept (not_exists.mp hany),hremainder] at hnew
    have hsame := congrArg Word.e0 (Option.some.inj hnew)
    exact absurd hsame.symm (Felt.ne_add_one _)

/-- The agent's serial number counts the settlements, and the notes settled have the numbers before. -/
theorem visitLoop_chain (hK : K.Documented P) (hC : C.RoundTrips) (hexec : RunsScript K root exec)
    (hsig : NeedsSignature P) {s : Word} (hstart : parseSerialNum b.config.serialNum = some s)
    (hown : HoldsOwnNote P C exec b root visits n) (hshown : ShowsRemainders P C exec b visits n)
    {m : ℕ} (hm : m ≤ n) (hl : visitLoop P C exec b visits m = some l) :
    ∃ c ≤ m, l.agent.currentSerialWord = serialAfter s c ∧
      ∀ j < m, ∀ note outputs, SettledAt P C exec b visits j note outputs →
        ∃ d < c, note.recipient.serialNum = serialAfter s d := by
  induction m generalizing l with
  | zero =>
    refine ⟨0,le_rfl,?_,by simp⟩
    obtain ⟨agent,hagent,hl⟩ := Option.bind_eq_some_iff.mp hl
    rw [AgentState.start,hstart] at hagent
    obtain rfl := Option.some.inj hagent
    obtain rfl := Option.some.inj hl
    simp
  | succ m ih =>
    obtain ⟨l₀,hl₀,hex⟩ := payLoop_succ hl
    obtain ⟨c,hc,hserial,hbefore⟩ := ih (by omega) hl₀
    by_cases hsettled : ∃ note outputs, SettledAt P C exec b visits m note outputs
    · -- the agent moves on to the remainder of its note
      obtain ⟨note,outputs,hsettled⟩ := hsettled
      obtain ⟨hnote,hremainder⟩ := hown.serials hK hexec hsig (by omega) hsettled hl₀
      have hnew := (signsForRemainder_of_shown hC hshown m (by omega) note outputs l hsettled hl).2
      refine ⟨c + 1,by omega,?_,?_⟩
      · rw [hremainder] at hnew
        rw [← Option.some.inj hnew,hserial,remainderSerial_serialAfter]
      · intro j hj note' outputs' hsettled'
        by_cases hjm : j = m
        · subst hjm
          exact ⟨c,by omega,(hown.serials hK hexec hsig (by omega) hsettled' hl₀).1.trans hserial⟩
        · obtain ⟨d,hd,hnote'⟩ := hbefore j (by omega) note' outputs' hsettled'
          exact ⟨d,by omega,hnote'⟩
    · refine ⟨c,by omega,?_,?_⟩
      · rw [← hserial]
        have hno : (Exchanged.mk ((visits m).encounter P C exec) (l₀.next P C b)).resets = false := by
          rw [← Bool.not_eq_true,Visit.resets_iff]
          rintro ⟨req,cl,outputs,hsettles⟩
          obtain ⟨note,_,hnote,-⟩ := AgentLoop.exchange_settles hC l₀ hsettles
          exact hsettled ⟨note,outputs,l₀,req,cl,hl₀,hsettles,hnote⟩
        obtain ⟨-,⟨-,hagent⟩ | ⟨hyes,-⟩⟩ := AgentLoop.exchange_eq_some hex
        · rw [hagent]
          rfl
        · exact absurd (hyes.symm.trans hno) (by decide)
      · intro j hj note outputs hj'
        have hjm : j ≠ m := by
          rintro rfl
          exact hsettled ⟨note,outputs,hj'⟩
        exact hbefore j (by omega) note outputs hj'

/-- In every run of the loop: if the polls of each settlement show its remainder first and in time,
then after each reset the agent signs for the remainder of the note just settled.  Where the merchant
holds the note of the vouchers it settles that is also necessary, and then no voucher is ever signed
for a note that was settled before. -/
theorem signsForRemainder_iff (hK : K.Documented P) (hC : C.RoundTrips)
    (hexec : RunsScript K root exec) (hsig : NeedsSignature P)
    (hrun : visitLoop P C exec b visits n = some l) (hlen : n < fieldOrder) :
    (ShowsRemainders P C exec b visits n → SignsForRemainder P C exec b visits n) ∧
    (HoldsOwnNote P C exec b root visits n →
      ((SignsForRemainder P C exec b visits n ∧ NeverSignsForSettled P C exec b visits n) ↔
        ShowsRemainders P C exec b visits n)) := by
  refine ⟨signsForRemainder_of_shown hC,?_⟩
  intro hown
  constructor
  · intro hsigns
    exact shown_of_signsForRemainder hK hC hexec hsig hrun hown hsigns.1
  · intro hshown
    refine ⟨signsForRemainder_of_shown hC hshown,?_⟩
    intro m hm l' hl' j hj note outputs hsettled hsame
    obtain ⟨l₀,hl₀⟩ := exists_visitLoop hrun (Nat.zero_le n)
    obtain ⟨agent,hagent,-⟩ := Option.bind_eq_some_iff.mp hl₀
    obtain ⟨s,hs,-⟩ := Option.map_eq_some_iff.mp hagent
    obtain ⟨c,hc,hserial,hbefore⟩ := visitLoop_chain hK hC hexec hsig hs hown hshown hm hl'
    obtain ⟨d,hd,hnote⟩ := hbefore j hj note outputs hsettled
    change parseSerialNum l'.agent.currentSerial = _ at hsame
    rw [visitLoop_serial hl',hserial,hnote] at hsame
    have hcd := serialAfter_inj (by omega) (by omega) (Option.some.inj hsame)
    omega

end Chain

section Sample

/-- A visit that fills the batch of a merchant which settles every payment; the facilitator's client
shows the listing again and again. -/
def sampleVisit (listing : List (OutputNoteRecord sampleCodec.Proof)) : Visit sampleCodec.Proof :=
  ⟨(sampleStart 1).inner,(sampleStart 1).inner,.served ⟨[],true⟩ (sampleClient listing)⟩

def openingLoop : AgentLoop :=
  ⟨⟨formatSerialNum sampleNote.recipient.serialNum,sampleNote.recipient.serialNum,0,true,0⟩,[]⟩

theorem openingLoop_eq (visits : ℕ → Visit sampleCodec.Proof) :
    visitLoop sampleProtocol sampleCodec (execute sampleKernel) sampleBenchmark visits 0 =
      some openingLoop := by
  rw [visitLoop,payLoop,AgentState.start,sampleBenchmark_setting.serialNum,
    parseSerialNum_formatSerialNum]
  rfl

/-- The first payment settles 100 out of the sample note, whatever the listing shows. -/
theorem sampleVisit_settles (listing : List (OutputNoteRecord sampleCodec.Proof)) :
    (sampleVisit listing).Settles sampleProtocol sampleCodec (execute sampleKernel)
      (openingLoop.next sampleProtocol sampleCodec sampleBenchmark) (sampleSettle sampleNote 100)
      (sampleClient listing) (sampleOutputs 100) := by
  obtain ⟨txId,x,-,-,-,heq⟩ := processSettle_of_ready (C := sampleCodec) sampleKernel_documented
    referenceFalcon_signsCorrectly referenceFalcon_matchesSample
    (runsScript_execute sampleKernel sampleNote.recipient.scriptRoot) (by decide)
    sampleNote_isDebitNote rfl (.ofNats 7 8 9 10 : Word) rfl (sampleSettle sampleNote 100)
    (decodeNoteFile_noteFileHex sampleCodec_roundTrips sampleNote sampleProof) rfl rfl
    (decodeSecretKey_secretKeyHex sampleCodec_roundTrips sampleSk) (by decide)
    (sampleClient_ready listing (by decide))
  obtain ⟨found,hfound⟩ := awaitOutputNotes_eq_ok
    ((List.range 60).map (sampleClient listing).outputNotes) (by simp [sampleClient])
    (noteBalance sampleProtocol sampleNote = 100) .nothing
  have hok : processSettle sampleProtocol sampleCodec (execute sampleKernel) (sampleClient listing)
      (sampleSettle sampleNote 100) =
      .ok (.settled txId (noteBalance sampleProtocol sampleNote) 100 found,sampleOutputs 100) := by
    rw [heq]
    change Except.map _ (awaitOutputNotes sampleCodec
      (decide (noteBalance sampleProtocol sampleNote = 100)) _ _) = _
    rw [hfound]
    rfl
  exact ⟨rfl,⟨[],true⟩,_,rfl,rfl,hok⟩

theorem sampleVisit_loop (listing : List (OutputNoteRecord sampleCodec.Proof)) :
    ∃ l, visitLoop sampleProtocol sampleCodec (execute sampleKernel) sampleBenchmark
        (fun _ => sampleVisit listing) 1 = some l ∧
      ((∀ word, ¬ShowsFirst false word (sampleClient listing).polls) →
        l.agent.currentSerialWord = sampleNote.recipient.serialNum) := by
  obtain ⟨n,l,hn,hex,-,-,hkept⟩ := AgentLoop.exchange_settles sampleCodec_roundTrips openingLoop
    (sampleVisit_settles listing)
  obtain rfl : n = sampleNote := Except.ok.inj
    (hn.symm.trans (decodeNoteFile_noteFileHex sampleCodec_roundTrips sampleNote sampleProof))
  refine ⟨l,?_,hkept⟩
  have hzero := openingLoop_eq fun _ => sampleVisit listing
  rw [visitLoop,payLoop] at hzero ⊢
  obtain ⟨agent,hstart,hl⟩ := Option.bind_eq_some_iff.mp hzero
  rw [hstart,Option.bind_some,AgentLoop.run,hl,Option.bind_some,hex]

theorem sampleVisit_settledAt (listing : List (OutputNoteRecord sampleCodec.Proof)) :
    SettledAt sampleProtocol sampleCodec (execute sampleKernel) sampleBenchmark
      (fun _ => sampleVisit listing) 0 sampleNote (sampleOutputs 100) :=
  ⟨openingLoop,_,_,openingLoop_eq _,sampleVisit_settles listing,
    decodeNoteFile_noteFileHex sampleCodec_roundTrips sampleNote sampleProof⟩

/-- The polls run out before the remainder is included: the agent starts again from zero and signs
the next voucher, for 100, for the note that was just consumed. -/
theorem reset_without_serial : ∃ l,
    visitLoop sampleProtocol sampleCodec (execute sampleKernel) sampleBenchmark
      (fun _ => sampleVisit []) 1 = some l ∧
    SettledAt sampleProtocol sampleCodec (execute sampleKernel) sampleBenchmark
      (fun _ => sampleVisit []) 0 sampleNote (sampleOutputs 100) ∧
    l.agent.currentSerialWord = sampleNote.recipient.serialNum ∧
    ¬SignsForRemainder sampleProtocol sampleCodec (execute sampleKernel) sampleBenchmark
      (fun _ => sampleVisit []) 1 ∧
    ¬NeverSignsForSettled sampleProtocol sampleCodec (execute sampleKernel) sampleBenchmark
      (fun _ => sampleVisit []) 1 := by
  obtain ⟨l,hl,hkept⟩ := sampleVisit_loop []
  have hsettled := sampleVisit_settledAt []
  have hserial : l.agent.currentSerialWord = sampleNote.recipient.serialNum := by
    apply hkept
    rintro word ⟨earlier,listing,later,r,hpolls,hr,-,-⟩
    have hmem : some listing ∈ (sampleClient []).polls := by simp [hpolls]
    obtain ⟨i,-,hi⟩ := List.mem_map.mp hmem
    obtain rfl := Option.some.inj hi
    cases hr
  refine ⟨l,hl,hsettled,hserial,?_,?_⟩
  · intro hsigns
    have hremainder := (hsigns 0 (by decide) _ _ l hsettled hl).2
    rw [hserial] at hremainder
    exact absurd hremainder (by decide)
  · intro hnever
    apply hnever 1 le_rfl l hl 0 (by decide) _ _ hsettled
    change parseSerialNum l.agent.currentSerial = _
    rw [visitLoop_serial hl,hserial]

theorem signsForRemainder_iff_sample :
    let listing := (sampleOutputs 100).map included
    SignsForRemainder sampleProtocol sampleCodec (execute sampleKernel) sampleBenchmark
      (fun _ => sampleVisit listing) 1 := by
  intro listing
  obtain ⟨l,hl,-⟩ := sampleVisit_loop listing
  refine (signsForRemainder_iff sampleKernel_documented sampleCodec_roundTrips
    (runsScript_execute sampleKernel sampleNote.recipient.scriptRoot) sampleProtocol_needsSignature hl
    (by decide)).1 ?_
  intro m hm l₀ req cl note outputs hl₀ hsettles hnote
  obtain rfl : m = 0 := by omega
  obtain rfl := Option.some.inj (hl₀.symm.trans (openingLoop_eq _))
  obtain ⟨hreq,w,resp,houtcome,-,hok⟩ := hsettles
  obtain ⟨hreq',w',resp',houtcome',-,hok'⟩ := sampleVisit_settles listing
  cases hreq'.symm.trans hreq
  cases houtcome'.symm.trans houtcome
  cases hok'.symm.trans hok
  refine ⟨remainderSerial sampleNote.recipient.serialNum,rfl,[],listing,
    (List.range 59).map fun _ => some listing,included (sampleRemainder sampleNote 1000 100),?_,rfl,rfl,
    by simp⟩
  rw [Client.polls,show List.range 60 = 0 :: (List.range 59).map Nat.succ from List.range_succ_eq_map,
    List.map_cons,List.map_map]
  rfl

end Sample

end MidenX402.AdnServices
