import MidenX402.AdnServices.Responses

/-!
# The worker outlives its requests, except one kind

One thread owns the client and serves every merchant.  Whatever a request holds is either checked
and answered with a failure or, for the elements of the serial number alone, unwrapped: a malformed
element that is reached ends the thread, and with it the service.
-/

namespace MidenX402.AdnServices
open Masm AgentDebitNote Rust

/-- The node answers every sync, and the client's store every listing. -/
structure Client.Answers {Proof : Type} (cl : Client Proof) : Prop where
  syncState : cl.syncState = some ()
  authenticated : ∀ i, cl.authenticated i ≠ none
  outputNotes : ∀ i, cl.outputNotes i ≠ none

section Panics
variable {F E : Falcon} (P : Protocol) (C : Codec F E) (exec : Note → TxInputs → Option Host)

/-- What is checked before the serial number is in order, and the serial number is not. -/
def ReachesBadSerial (cl : Client C.Proof) (req : SettleRequest) : Prop :=
  (∃ n, decodeNoteFile C req.noteFileHex = .ok n) ∧
    awaitAuthentication ((List.range 60).map cl.authenticated) = .ok () ∧
    (∃ id, C.accountIdFromHex req.merchantIdHex = .ok id) ∧ parseSerialNum req.serialNum = none

/-- The request fails before its transaction is submitted. -/
def Malformed (cl : Client C.Proof) (req : SettleRequest) : Prop :=
  ∃ stop, prepareSettle P C cl req = .error stop

/-- The answer that processing computes, if it ends with one. -/
def settleAnswer (cl : Client C.Proof) (req : SettleRequest) : Option SettleResponse :=
  match processSettle P C exec cl req with
  | .ok (resp,_) => some resp
  | .error (.fail e) => some (.failed e)
  | .error .panic => none

variable {P C exec}

theorem awaitAuthentication_ne_panic {polls : List (Option Bool)} (h : ∀ poll ∈ polls, poll ≠ none) :
    awaitAuthentication polls ≠ .error .panic := by
  induction polls with
  | nil => simp [awaitAuthentication]
  | cons poll rest ih =>
    have hrest := ih fun p hp => h p (List.mem_cons_of_mem _ hp)
    cases poll with
    | none => exact absurd rfl (h none List.mem_cons_self)
    | some seen =>
      cases seen with
      | true => simp [awaitAuthentication]
      | false => simpa [awaitAuthentication] using hrest

theorem awaitOutputNotes_ne_panic {spent : Bool} {f : Found}
    {polls : List (Option (List (OutputNoteRecord C.Proof)))} (h : ∀ poll ∈ polls, poll ≠ none) :
    awaitOutputNotes C spent f polls ≠ .error .panic := by
  induction polls generalizing f with
  | nil => simp [awaitOutputNotes]
  | cons poll rest ih =>
    cases poll with
    | none => exact absurd rfl (h none List.mem_cons_self)
    | some listing =>
      simp only [awaitOutputNotes]
      split
      · simp
      · split
        · simp
        · exact ih fun p hp => h p (List.mem_cons_of_mem _ hp)

theorem Client.Answers.awaitAuthentication_ne_panic {cl : Client C.Proof} (h : cl.Answers) :
    awaitAuthentication ((List.range 60).map cl.authenticated) ≠ .error .panic := by
  apply AdnServices.awaitAuthentication_ne_panic
  intro poll hpoll
  obtain ⟨i,-,rfl⟩ := List.mem_map.mp hpoll
  exact h.authenticated i

theorem Client.Answers.awaitOutputNotes_ne_panic {cl : Client C.Proof} (h : cl.Answers) (spent : Bool) :
    awaitOutputNotes C spent .nothing ((List.range 60).map cl.outputNotes) ≠ .error .panic := by
  apply AdnServices.awaitOutputNotes_ne_panic
  intro poll hpoll
  obtain ⟨i,-,rfl⟩ := List.mem_map.mp hpoll
  exact h.outputNotes i

/-- The transaction is built from any serial number that parses. -/
theorem consumeRequest_isSome {id : AccountId} {serial : SerialStrings} {c : UInt64}
    (h : parseSerialNum serial ≠ none) (sk : AuthSecretKey F E) :
    ∃ r, consumeRequest P id serial c sk = some r := by
  obtain ⟨s,hs⟩ := Option.ne_none_iff_exists'.mp h
  cases sk <;> exact ⟨_,by simp [consumeRequest,processDecodedSettle,hs]; rfl⟩

/-- With a node that answers, only a malformed serial number makes the preparation panic. -/
theorem prepareSettle_panic_iff {cl : Client C.Proof} (hcl : cl.Answers) (req : SettleRequest) :
    prepareSettle P C cl req = .error .panic ↔ ReachesBadSerial C cl req := by
  have hawait := hcl.awaitAuthentication_ne_panic
  simp only [prepareSettle,ReachesBadSerial,hcl.syncState,Stop.unwrap]
  cases decodeNoteFile C req.noteFileHex with
  | error e => simp [Except.mapError,bind,Except.bind]
  | ok n =>
    cases hauth : awaitAuthentication ((List.range 60).map cl.authenticated) with
    | error stop =>
      rw [hauth] at hawait
      simpa [Except.mapError,bind,Except.bind] using hawait
    | ok u =>
      cases C.accountIdFromHex req.merchantIdHex with
      | error e => simp [Except.mapError,bind,Except.bind]
      | ok id =>
        cases hserial : parseSerialNum req.serialNum with
        | none => simp [Except.mapError,bind,Except.bind]
        | some s =>
          -- from here on the serial number is in order, so that nothing panics
          cases decodeSecretKey C req.agentSkHex with
          | error e => simp [Except.mapError,bind,Except.bind]
          | ok sk =>
            have hparsed : parseSerialNum req.serialNum ≠ none := by simp [hserial]
            obtain ⟨r,hr⟩ : ∃ r, consumeRequest P id req.serialNum req.cumulativeAmount sk = some r :=
              consumeRequest_isSome hparsed sk
            simp [Except.mapError,bind,Except.bind,hr,pure,Except.pure]

theorem processSettle_panic_iff {cl : Client C.Proof} (hcl : cl.Answers) (req : SettleRequest) :
    processSettle P C exec cl req = .error .panic ↔ ReachesBadSerial C cl req := by
  rw [← prepareSettle_panic_iff (P := P) hcl req]
  simp only [processSettle]
  cases prepareSettle P C cl req with
  | error stop => simp [bind,Except.bind]
  | ok q =>
    obtain ⟨n,r⟩ := q
    have hscan := hcl.awaitOutputNotes_ne_panic (noteBalance P n = req.cumulativeAmount)
    cases hsub : submitNewTransaction C exec cl n r with
    | error e => simp [hsub,Except.mapError,bind,Except.bind]
    | ok sub =>
      cases hfound : awaitOutputNotes C (noteBalance P n = req.cumulativeAmount) .nothing
          ((List.range 60).map cl.outputNotes) with
      | error stop =>
        rw [hfound] at hscan
        simpa [hsub,hfound,mapError_ok,bind,Except.bind] using hscan
      | ok found => simp [hsub,hfound,mapError_ok,bind,Except.bind,pure,Except.pure]

theorem settleAnswer_eq_none_iff {cl : Client C.Proof} (hcl : cl.Answers) (req : SettleRequest) :
    settleAnswer P C exec cl req = none ↔ ReachesBadSerial C cl req := by
  have hpanic : processSettle P C exec cl req = .error .panic ↔ ReachesBadSerial C cl req :=
    processSettle_panic_iff hcl req
  rw [← hpanic,settleAnswer]
  cases processSettle P C exec cl req with
  | ok q => simp
  | error stop => cases stop <;> simp

/-- A worker that runs answers with what processing computes, and stops where that is nothing. -/
theorem Worker.serve_running {w : Worker} (hw : w.running = true) (cl : Client C.Proof)
    (req : SettleRequest) : (w.serve P C exec cl req).1.running = (settleAnswer P C exec cl req).isSome ∧
      ∀ resp, settleAnswer P C exec cl req = some resp → (w.serve P C exec cl req).2 = resp := by
  rw [Worker.serve,if_pos hw,settleAnswer]
  cases processSettle P C exec cl req with
  | ok q => simp [hw]
  | error stop => cases stop <;> simp [hw]

/-- A malformed request that is answered leaves the worker as it was. -/
theorem Worker.serve_malformed {w : Worker} {cl : Client C.Proof} {req : SettleRequest}
    (h : Malformed P C cl req) (hanswer : settleAnswer P C exec cl req ≠ none) :
    (w.serve P C exec cl req).1 = w := by
  obtain ⟨stop,hstop⟩ := h
  have hp : processSettle P C exec cl req = .error stop := by
    simp [processSettle,hstop,bind,Except.bind]
  cases stop with
  | panic => exact absurd (by simp [settleAnswer,hp]) hanswer
  | fail e =>
    rw [Worker.serve,hp]
    split <;> rfl

theorem Worker.serve_stopped {w : Worker} (hw : w.running = false) (cl : Client C.Proof)
    (req : SettleRequest) : w.serve P C exec cl req = (w,.failed "facilitator down") := by
  simp [Worker.serve,hw]

end Panics

section Runs
variable {F E : Falcon} {P : Protocol} {C : Codec F E} {exec : Note → TxInputs → Option Host}
  {w : Worker}

theorem Worker.run_stopped (hw : w.running = false) (steps : List (Client C.Proof × SettleRequest)) :
    w.run P C exec steps = w := by
  induction steps with
  | nil => rfl
  | cons q rest ih =>
    rw [Worker.run,List.foldl_cons,Worker.serve_stopped hw]
    exact ih

/-- The worker still runs after a run of requests exactly if each of them was answered. -/
theorem Worker.run_running_iff (hw : w.running = true)
    (steps : List (Client C.Proof × SettleRequest)) : (w.run P C exec steps).running = true ↔
      ∀ q ∈ steps, settleAnswer P C exec q.1 q.2 ≠ none := by
  induction steps generalizing w with
  | nil => simpa [Worker.run] using hw
  | cons q rest ih =>
    have hserve : (w.serve P C exec q.1 q.2).1.running = (settleAnswer P C exec q.1 q.2).isSome :=
      (Worker.serve_running hw q.1 q.2).1
    rw [List.forall_mem_cons,Worker.run,List.foldl_cons]
    cases hanswer : settleAnswer P C exec q.1 q.2 with
    | none =>
      rw [hanswer] at hserve
      have hdead : rest.foldl (fun w q => (w.serve P C exec q.1 q.2).1) (w.serve P C exec q.1 q.2).1 =
          (w.serve P C exec q.1 q.2).1 := Worker.run_stopped hserve rest
      simpa [hdead] using hserve
    | some resp =>
      rw [hanswer] at hserve
      simpa [Worker.run] using ih hserve

/-- Leaving malformed requests out of a run changes nothing, where every request is answered. -/
theorem Worker.run_filter (keep : Client C.Proof × SettleRequest → Bool)
    {steps : List (Client C.Proof × SettleRequest)}
    (hanswer : ∀ q ∈ steps, settleAnswer P C exec q.1 q.2 ≠ none)
    (hkeep : ∀ q ∈ steps, keep q = false → Malformed P C q.1 q.2) :
    w.run P C exec (steps.filter keep) = w.run P C exec steps := by
  induction steps generalizing w with
  | nil => rfl
  | cons q rest ih =>
    have hrest := @ih (w.serve P C exec q.1 q.2).1 (fun p hp => hanswer p (List.mem_cons_of_mem _ hp))
      fun p hp => hkeep p (List.mem_cons_of_mem _ hp)
    cases hq : keep q with
    | true =>
      rw [List.filter_cons_of_pos hq]
      exact hrest
    | false =>
      have hsame := Worker.serve_malformed (w := w) (hkeep q List.mem_cons_self hq)
        (hanswer q List.mem_cons_self)
      rw [hsame] at hrest
      rw [List.filter_cons_of_neg (by simp [hq]),hrest]
      simp only [Worker.run,List.foldl_cons,hsame]

/-- What the service owes its callers during a run: each request gets the answer that processing it
computes, malformed requests before it make no difference, and the worker is still there. -/
structure Worker.Survives (P : Protocol) (C : Codec F E) (exec : Note → TxInputs → Option Host)
    (w : Worker) (steps : List (Client C.Proof × SettleRequest)) : Prop where
  answered : ∀ v cl req, w.ServesIn P C exec steps v cl req →
    settleAnswer P C exec cl req = some (v.serve P C exec cl req).2
  unaffected : ∀ before cl req after (keep : Client C.Proof × SettleRequest → Bool),
    steps = before ++ (cl,req) :: after →
    (∀ q ∈ before, keep q = false → Malformed P C q.1 q.2) →
    ((w.run P C exec (before.filter keep)).serve P C exec cl req).2 =
      ((w.run P C exec before).serve P C exec cl req).2
  running : (w.run P C exec steps).running = true

/-- With a node that answers every sync, the service does so in a run exactly if no request of it
reaches the parse of its serial number with an element that does not parse. -/
theorem worker_survives_iff (hw : w.running = true) (steps : List (Client C.Proof × SettleRequest))
    (hnode : ∀ q ∈ steps, q.1.Answers) :
    w.Survives P C exec steps ↔ ∀ q ∈ steps, ¬ReachesBadSerial C q.1 q.2 := by
  have hanswers : (∀ q ∈ steps, settleAnswer P C exec q.1 q.2 ≠ none) ↔
      ∀ q ∈ steps, ¬ReachesBadSerial C q.1 q.2 :=
    forall₂_congr fun q hq => not_congr (settleAnswer_eq_none_iff (hnode q hq) q.2)
  rw [← hanswers]
  constructor
  · intro h
    exact (Worker.run_running_iff hw steps).mp h.running
  · intro h
    refine ⟨?_,?_,(Worker.run_running_iff hw steps).mpr h⟩
    · intro v cl req hserves
      obtain ⟨before,after,rfl,rfl⟩ := hserves
      have hv : (w.run P C exec before).running = true :=
        (Worker.run_running_iff hw before).mpr fun q hq => h q (List.mem_append_left _ hq)
      obtain ⟨resp,hresp⟩ := Option.ne_none_iff_exists'.mp
        (h (cl,req) (List.mem_append_right _ List.mem_cons_self))
      rw [hresp,(Worker.serve_running hv cl req).2 resp hresp]
    · intro before cl req after keep hsteps hkeep
      rw [Worker.run_filter keep (fun q hq => h q (hsteps ▸ List.mem_append_left _ hq)) hkeep]

end Runs

section Sample

/-- The settlement of the sample note, with a serial number that is no hex number. -/
def sampleBadSerial : SettleRequest :=
  { sampleSettle sampleNote 300 with serialNum := (['0','x','g'],['0'],['0'],['0']) }

theorem sampleClient_answers (listing : List (OutputNoteRecord sampleCodec.Proof)) :
    (sampleClient listing).Answers :=
  ⟨rfl,fun _ => by simp [sampleClient],fun _ => by simp [sampleClient]⟩

/-- A settlement, and before it one whose note file is no hex string. -/
theorem worker_survives_sample :
    let cl := sampleClient (sampleFirst.map included)
    (Worker.mk [] true).Survives sampleProtocol sampleCodec (execute sampleKernel)
      [(cl,{ sampleSettle sampleNote 300 with noteFileHex := "zz" }),(cl,sampleSettle sampleNote 300)] := by
  intro cl
  refine (worker_survives_iff rfl _ ?_).mpr ?_
  · intro q hq
    simp only [List.mem_cons,List.not_mem_nil,or_false] at hq
    rcases hq with rfl | rfl <;> exact sampleClient_answers _
  · intro q hq hbad
    obtain ⟨⟨n,hn⟩,-,-,hserial⟩ := hbad
    simp only [List.mem_cons,List.not_mem_nil,or_false] at hq
    rcases hq with rfl | rfl
    · simp [decodeNoteFile,sampleCodec,Hex.decode,toDigit,Except.mapError,bind,Except.bind] at hn
    · simp [sampleSettle,parseSerialNum_formatSerialNum] at hserial

/-- One request with a malformed serial number on a note that is authenticated, and the settlement
after it, which would have succeeded, finds no worker. -/
theorem worker_killed_by_serial :
    let cl := sampleClient (sampleFirst.map included)
    let w : Worker := ⟨[],true⟩
    cl.Answers ∧ (w.serve sampleProtocol sampleCodec (execute sampleKernel) cl
        (sampleSettle sampleNote 300)).2.success = true ∧
      ((w.run sampleProtocol sampleCodec (execute sampleKernel) [(cl,sampleBadSerial)]).serve
        sampleProtocol sampleCodec (execute sampleKernel) cl (sampleSettle sampleNote 300)).2 =
        .failed "facilitator down" ∧
      ¬w.Survives sampleProtocol sampleCodec (execute sampleKernel) [(cl,sampleBadSerial)] := by
  intro cl w
  have hcl := sampleClient_answers (sampleFirst.map included)
  obtain ⟨txId,hok⟩ := sample_processSettle sampleNote_isDebitNote (by decide) (c := 300) (by decide)
    (sampleFirst.map included) (p := included (sampleP2id sampleNote 300))
    (r := included (sampleRemainder sampleNote 1000 300)) rfl rfl
  have hbad : ReachesBadSerial sampleCodec cl sampleBadSerial :=
    ⟨⟨_,decodeNoteFile_noteFileHex sampleCodec_roundTrips sampleNote sampleProof⟩,rfl,⟨_,rfl⟩,by decide⟩
  have hanswer : settleAnswer sampleProtocol sampleCodec (execute sampleKernel) cl sampleBadSerial
      = none := (settleAnswer_eq_none_iff hcl sampleBadSerial).mpr hbad
  have hdead : (w.run sampleProtocol sampleCodec (execute sampleKernel) [(cl,sampleBadSerial)]).running
      = false := by
    rw [Worker.run,List.foldl_cons,List.foldl_nil,(Worker.serve_running rfl cl sampleBadSerial).1,hanswer]
    rfl
  refine ⟨hcl,?_,?_,?_⟩
  · rw [Worker.serve_of_ok rfl hok]
    rfl
  · rw [Worker.serve_stopped hdead]
  · intro h
    rw [h.running] at hdead
    exact Bool.noConfusion hdead

end Sample

end MidenX402.AdnServices
