import MidenX402.Agentic.World

/-!
# What a request has had accepted

Each accepted payment is kept under the request that queued it.  A request under way has had the payment
of its stage accepted and no other; once it has left, its answer tells, and nothing is added any more.
-/

namespace MidenX402.Agentic
open Facilitator KeyedLock

section Under
variable {β : Type} {entries more : List (ℕ × β)} {k : ℕ} {x : β}

theorem mem_under : x ∈ under entries k ↔ (k,x) ∈ entries := by
  rw [under,List.mem_map]
  constructor
  · rintro ⟨⟨k',x'⟩,hmem,rfl⟩
    obtain ⟨hmem,hk⟩ := List.mem_filter.mp hmem
    rw [← of_decide_eq_true hk]
    exact hmem
  · intro hmem
    exact ⟨(k,x),List.mem_filter.mpr ⟨hmem,decide_eq_true rfl⟩,rfl⟩

theorem under_append : under (entries ++ more) k = under entries k ++ under more k := by
  rw [under,List.filter_append,List.map_append]
  rfl

theorem under_eq_nil (h : ∀ e ∈ entries, e.1 ≠ k) : under entries k = [] := by
  rw [under,List.map_eq_nil_iff,List.filter_eq_nil_iff]
  exact fun e he hk => h e he (of_decide_eq_true hk)

/-- Values that are all put under one key. -/
theorem under_map (t : ℕ) (xs : List β) (k : ℕ) :
    under (xs.map fun x => (t,x)) k = if t = k then xs else [] := by
  by_cases hk : t = k
  · rw [if_pos hk,under,List.filter_eq_self.mpr,List.map_map]
    · exact List.map_id xs
    · intro e he
      obtain ⟨x,-,rfl⟩ := List.mem_map.mp he
      exact decide_eq_true hk
  · rw [if_neg hk]
    apply under_eq_nil
    intro e he
    obtain ⟨x,-,rfl⟩ := List.mem_map.mp he
    exact hk

end Under

section Answers
variable {M : Miden} {store : FilesystemX402Store} {a : String} {payload : AgenticPayload} {now : ℕ}
  {fs : Facilitator.Files} {σ : Stage} {result : Except FacilitatorError AckResponse}

/-- The acknowledgement is for this payment. -/
structure Acknowledges (ack : AckResponse) (x : Acceptance) : Prop where
  seq : ack.seq = x.seq
  newState : ack.newPendingStateCommitment = x.payload.newStateCommitment
  nullifiers : ack.reservedNullifiers = x.nullifiers

/-- What an answer tells of the payments its request has had accepted. -/
def Tells (caused : List Acceptance) : Except FacilitatorError AckResponse → Prop
  | .ok ack => ∃ x, caused = [x] ∧ Acknowledges ack x
  | .error e => (AgenticError.ofFacilitator e).isStaleBase = true → caused = []

theorem proceed_eq_answer {β : Type} {x : Except FacilitatorError β} {next : β → Stage}
    (h : proceed fs x next = .answer result) : ∃ e, result = .error e := by
  cases x with
  | error e => exact ⟨e,(StageStep.answer.inj h).symm⟩
  | ok b => cases h

/-- Before the payment is queued only errors are answered. -/
theorem tells_of_proceed {β : Type} {x : Except FacilitatorError β} {next : β → Stage}
    (h : proceed fs x next = .answer result) : Tells [] result := by
  obtain ⟨e,rfl⟩ := proceed_eq_answer h
  exact fun _ => rfl

theorem tells_ackFor (a : String) (pending : PendingState) (nullifiers : List String) :
    Tells [⟨a,pending.lastAcceptedSeq + 1,payload,nullifiers⟩] (ackFor M payload pending nullifiers now) := by
  rw [ackFor]
  cases M.signWordHex (M.hash (ackBytes now payload.newStateCommitment nullifiers)) with
  | error e =>
    intro hstale
    obtain ⟨_,_,he⟩ := (isStaleBase_ofFacilitator _).mp hstale
    cases he
  | ok signature => exact ⟨_,rfl,rfl,rfl,rfl⟩

theorem stageStep_tells (h : stageStep M store a payload now fs σ = some (.answer result)) :
    Tells (acceptance a payload σ) result := by
  cases σ with
  | entered => exact tells_of_proceed (Option.some.inj h)
  | haveRecord _ => exact tells_of_proceed (Option.some.inj h)
  | haveMandate _ _ => exact tells_of_proceed (Option.some.inj h)
  | checked _ _ => exact tells_of_proceed (Option.some.inj h)
  | queued pending nullifiers now' =>
    rw [← StageStep.answer.inj (Option.some.inj h)]
    exact tells_ackFor a pending nullifiers
  | _ => cases stageStep_answer h

theorem acceptance_of_next {σ' : Stage} {fs' : Facilitator.Files}
    (h : stageStep M store a payload now fs σ = some (.next σ' fs')) : acceptance a payload σ = [] := by
  cases stageStep_next h <;> rfl

end Answers

section Requests
variable {M : Miden} {store : FilesystemX402Store} {maxSize : ℕ} {s s' : Server} {t now : ℕ}
  {r : Request} {act : Action} {a : String} {causes : List (ℕ × Acceptance)}
  {answers : List (ℕ × Except FacilitatorError AckResponse)}

/-- What a request under way has had accepted. -/
def acceptedOf (r : Request) : List Acceptance :=
  match r.phase with
  | .inside _ stage => acceptance r.agentId r.payload stage
  | _ => []

/-- A step of a request: it goes on, with nothing accepted before, or it leaves with an answer. -/
inductive Served (s s' : Server) (t : ℕ) (r : Request) : Option (Except FacilitatorError AckResponse) → Prop
  | goesOn {phase} : s'.requests = s.requests.set t (some { r with phase := phase }) →
      s'.accepted = s.accepted ++ acceptedOf { r with phase := phase } → acceptedOf r = [] →
      Served s s' t r none
  | leaves {result} : s'.requests = s.requests.set t none → s'.accepted = s.accepted →
      Tells (acceptedOf r) result → Served s s' t r (some result)

theorem requestStep_served (hr : s.request t = some r)
    (h : s.requestStep M store t now r = some s') : Served s s' t r (answerOf M store s t now) := by
  obtain ⟨a,payload,phase⟩ := r
  rw [answerOf,hr]
  rw [Server.requestStep] at h
  cases phase with
  | arrived =>
    have hset : ∀ {phase : Phase}, acceptedOf ⟨a,payload,phase⟩ = [] →
        s' = s.setRequest t (some ⟨a,payload,phase⟩) → Served s s' t ⟨a,payload,.arrived⟩ none := by
      rintro phase hnone rfl
      exact .goesOn rfl (by rw [hnone,List.append_nil]; rfl) rfl
    cases hl : s.locks.get a with
    | none =>
      simp only [hl] at h
      exact hset rfl (Option.some.inj h).symm
    | some m =>
      simp only [hl] at h
      exact hset rfl (Option.some.inj h).symm
  | missed =>
    obtain rfl := Option.some.inj h
    exact .goesOn rfl (List.append_nil _).symm rfl
  | waiting m =>
    obtain ⟨locks,-,rfl⟩ := Option.map_eq_some_iff.mp h
    exact .goesOn rfl (List.append_nil _).symm rfl
  | inside m σ =>
    obtain ⟨next,hstage,rfl⟩ := Option.map_eq_some_iff.mp h
    simp only [hstage]
    cases next with
    | next σ' fs' => exact .goesOn rfl rfl (acceptance_of_next hstage)
    | answer result => exact .leaves rfl rfl (stageStep_tells hstage)

/-- A request that fails in a write has had nothing accepted. -/
theorem requestFails_served {steps : ℕ} (hr : s.request t = some r)
    (h : s.requestFails store t now steps r = some s') (error : String) :
    Served s s' t r (some (.error (.internal error))) := by
  obtain ⟨a,payload,phase⟩ := r
  rw [Server.requestFails] at h
  cases phase with
  | inside m σ =>
    obtain ⟨fs',hcut,rfl⟩ := Option.map_eq_some_iff.mp h
    refine .leaves rfl rfl fun _ => ?_
    cases stageFails_cut hcut <;> rfl
  | _ => cases h

/-- The request has left. -/
def Settled (s : Server) (t : ℕ) : Prop := t < s.requests.length ∧ s.request t = none

/-- What each request has had accepted, and what the answers tell of it. -/
structure Traced (s : Server) (causes : List (ℕ × Acceptance))
    (answers : List (ℕ × Except FacilitatorError AckResponse)) : Prop where
  recorded : causes.map Prod.snd = s.accepted
  running : ∀ t r, s.request t = some r → under causes t = acceptedOf r
  few : ∀ t, (under causes t).length ≤ 1
  fresh : ∀ t, s.requests.length ≤ t → under causes t = []
  answered : ∀ t x, (t,x) ∈ answers → Settled s t ∧ Tells (under causes t) x

/-- The request belongs to the agent, and so does what it has had accepted. -/
structure Owned (a : String) (s : Server) (causes : List (ℕ × Acceptance)) (t : ℕ) : Prop where
  arrived : t < s.requests.length
  running : ∀ r, s.request t = some r → r.agentId = a
  caused : ∀ x ∈ under causes t, x.agentId = a

/-- What stays through the steps of the server. -/
structure Grown (s s' : Server) (causes causes' : List (ℕ × Acceptance)) : Prop where
  settled : ∀ t, Settled s t → Settled s' t ∧ under causes' t = under causes t
  owned : ∀ a t, Owned a s causes t → Owned a s' causes' t

theorem acceptedOf_length (r : Request) : (acceptedOf r).length ≤ 1 := by
  rw [acceptedOf]
  split
  · rename_i σ _
    cases σ <;> simp [acceptance]
  · exact Nat.zero_le 1

theorem acceptedOf_agentId : ∀ x ∈ acceptedOf r, x.agentId = r.agentId := by
  intro x hx
  rw [acceptedOf] at hx
  split at hx
  · rename_i σ _
    cases σ with
    | queued pending nullifiers now => rw [List.mem_singleton.mp hx]
    | _ => cases hx
  · cases hx

/-- Requests that arrive leave the others as they are. -/
theorem request_of_append {more : List (Option Request)} (hreq : s'.requests = s.requests ++ more)
    (ht : t < s.requests.length) : s'.request t = s.request t := by
  rw [Server.request,Server.request,hreq,List.getElem?_append_left ht]

theorem Traced.arrive {more : List (Option Request)} (h : Traced s causes answers)
    (hreq : s'.requests = s.requests ++ more) (haccepted : s'.accepted = s.accepted)
    (hmore : ∀ r, some r ∈ more → acceptedOf r = []) :
    Traced s' causes answers ∧ Grown s s' causes causes := by
  have hlen : s.requests.length ≤ s'.requests.length := by
    rw [hreq,List.length_append]
    exact Nat.le_add_right _ _
  have hsettled : ∀ t, Settled s t → Settled s' t := fun t ht =>
    ⟨ht.1.trans_le hlen,(request_of_append hreq ht.1).trans ht.2⟩
  refine ⟨⟨h.recorded.trans haccepted.symm,?_,h.few,?_,?_⟩,?_,?_⟩
  · intro t r hr
    by_cases ht : t < s.requests.length
    · exact h.running t r ((request_of_append hreq ht).symm.trans hr)
    · have hge := Nat.le_of_not_lt ht
      rw [Server.request_eq_some_iff,hreq,List.getElem?_append_right hge] at hr
      rw [h.fresh t hge,hmore r (List.mem_of_getElem? hr)]
  · exact fun t ht => h.fresh t (hlen.trans ht)
  · intro t x hx
    obtain ⟨hleft,htells⟩ := h.answered t x hx
    exact ⟨hsettled t hleft,htells⟩
  · exact fun t ht => ⟨hsettled t ht,rfl⟩
  · intro a t ht
    refine ⟨ht.arrived.trans_le hlen,?_,ht.caused⟩
    intro r hr
    exact ht.running r ((request_of_append hreq ht.arrived).symm.trans hr)

/-- One request changes, and what it has accepted of late is put under it. -/
theorem Traced.set (h : Traced s causes answers) (hr : s.request t = some r) {o : Option Request}
    {new : List Acceptance} (hreq : s'.requests = s.requests.set t o)
    (haccepted : s'.accepted = s.accepted ++ new)
    (ho : ∀ r', o = some r' → acceptedOf r' = acceptedOf r ++ new ∧ r'.agentId = r.agentId)
    (hfew : (acceptedOf r ++ new).length ≤ 1) (hnew : ∀ x ∈ new, x.agentId = r.agentId) :
    Traced s' (causes ++ new.map fun x => (t,x)) answers ∧
      Grown s s' causes (causes ++ new.map fun x => (t,x)) := by
  have hlen : s'.requests.length = s.requests.length := by rw [hreq,List.length_set]
  have hlt : t < s.requests.length := Server.lt_of_request hr
  have hrequest := request_set hr hreq
  have hself : under (causes ++ new.map fun x => (t,x)) t = acceptedOf r ++ new := by
    rw [under_append,under_map,if_pos rfl,h.running t r hr]
  have hother : ∀ t', t' ≠ t → under (causes ++ new.map fun x => (t,x)) t' = under causes t' := by
    intro t' ht
    rw [under_append,under_map,if_neg (Ne.symm ht),List.append_nil]
  have hleft : ∀ t', Settled s t' → t' ≠ t := by
    rintro t' hs rfl
    rw [hs.2] at hr
    cases hr
  have hsettled : ∀ t', Settled s t' → Settled s' t' := by
    intro t' hs
    refine ⟨hlen ▸ hs.1,?_⟩
    rw [hrequest,if_neg (hleft t' hs)]
    exact hs.2
  refine ⟨⟨?_,?_,?_,?_,?_⟩,?_,?_⟩
  · rw [List.map_append,List.map_map,h.recorded,haccepted]
    congr 1
    exact List.map_id new
  · intro t' r' hr'
    rw [hrequest] at hr'
    split at hr'
    · rename_i ht
      rw [ht,hself]
      exact (ho r' hr').1.symm
    · rename_i ht
      rw [hother t' ht]
      exact h.running t' r' hr'
  · intro t'
    by_cases ht : t' = t
    · rw [ht,hself]
      exact hfew
    · rw [hother t' ht]
      exact h.few t'
  · intro t' hge
    rw [hlen] at hge
    rw [hother t' (hlt.trans_le hge).ne']
    exact h.fresh t' hge
  · intro t' x hx
    obtain ⟨hs,htells⟩ := h.answered t' x hx
    rw [hother t' (hleft t' hs)]
    exact ⟨hsettled t' hs,htells⟩
  · exact fun t' hs => ⟨hsettled t' hs,hother t' (hleft t' hs)⟩
  · intro b t' howned
    by_cases ht : t' = t
    · subst ht
      have hb := howned.running r hr
      refine ⟨hlen ▸ hlt,?_,?_⟩
      · intro r' hr'
        rw [hrequest,if_pos rfl] at hr'
        exact (ho r' hr').2.trans hb
      · intro x hx
        rw [hself,← h.running t' r hr] at hx
        rcases List.mem_append.mp hx with hold | hlate
        · exact howned.caused x hold
        · exact (hnew x hlate).trans hb
    · refine ⟨hlen ▸ howned.arrived,?_,?_⟩
      · intro r' hr'
        rw [hrequest,if_neg ht] at hr'
        exact howned.running r' hr'
      · rw [hother t' ht]
        exact howned.caused

theorem Traced.answer (h : Traced s causes answers) {result : Except FacilitatorError AckResponse}
    (hleft : Settled s t) (htells : Tells (under causes t) result) :
    Traced s causes (answers ++ [(t,result)]) := by
  refine ⟨h.recorded,h.running,h.few,h.fresh,?_⟩
  intro t' x hx
  rcases List.mem_append.mp hx with hold | hnew
  · exact h.answered t' x hold
  · obtain ⟨rfl,rfl⟩ := Prod.mk.inj (List.mem_singleton.mp hnew)
    exact ⟨hleft,htells⟩

theorem Traced.request (h : Traced s causes answers) (hr : s.request t = some r)
    {answer : Option (Except FacilitatorError AckResponse)} (hserved : Served s s' t r answer) :
    Traced s' (causes ++ (s'.accepted.drop s.accepted.length).map fun x => (t,x))
        (answers ++ answer.toList.map fun x => (t,x)) ∧
      Grown s s' causes (causes ++ (s'.accepted.drop s.accepted.length).map fun x => (t,x)) := by
  cases hserved with
  | @goesOn phase hreq haccepted hbefore =>
    rw [haccepted,List.drop_left,Option.toList_none,List.map_nil,List.append_nil]
    apply h.set hr hreq haccepted
    · rintro r' ⟨⟩
      rw [hbefore]
      exact ⟨rfl,rfl⟩
    · rw [hbefore]
      exact acceptedOf_length _
    · exact acceptedOf_agentId
  | @leaves result hreq haccepted htells =>
    rw [haccepted,List.drop_length,List.map_nil,Option.toList_some,List.map_singleton]
    have hset := h.set hr hreq (haccepted.trans (List.append_nil _).symm) (fun r' hr' => by cases hr')
      (by rw [List.append_nil]; exact acceptedOf_length r) fun x hx => absurd hx List.not_mem_nil
    refine ⟨hset.1.answer ?_ ?_,hset.2⟩
    · refine ⟨by rw [hreq,List.length_set]; exact Server.lt_of_request hr,?_⟩
      rw [request_set hr hreq,if_pos rfl]
    · rw [List.map_nil,List.append_nil,h.running t r hr]
      exact htells

/-- The action is no step of a request. -/
def Action.isAside : Action → Bool
  | .request _ _ | .requestFails _ _ _ | .restart => false
  | _ => true

theorem step_between (h : s.step M store maxSize act = some s') (hact : Action.isAside act = true) :
    s'.accepted = s.accepted ∧ ∃ more,
      s'.requests = s.requests ++ more ∧ ∀ r, some r ∈ more → acceptedOf r = [] := by
  have hsame : ∀ {s' : Server}, s'.accepted = s.accepted → s'.requests = s.requests →
      s'.accepted = s.accepted ∧ ∃ more,
        s'.requests = s.requests ++ more ∧ ∀ r, some r ∈ more → acceptedOf r = [] := by
    intro s' haccepted hreq
    exact ⟨haccepted,[],hreq.trans (List.append_nil _).symm,fun r hr => absurd hr List.not_mem_nil⟩
  cases act with
  | register req now =>
    obtain rfl := Option.some.inj h
    rcases registerStep_spec store s req now with hstay | ⟨-,hbegun⟩
    · rw [hstay]
      exact hsame rfl rfl
    · rw [hbegun]
      exact hsame rfl rfl
  | registration t =>
    obtain ⟨g,-,hstep⟩ := Option.bind_eq_some_iff.mp h
    obtain ⟨_,_,_,-,-,rfl⟩ := registrationStep_spec hstep
    exact hsame rfl rfl
  | registrationFails t steps =>
    obtain ⟨g,-,hstep⟩ := Option.bind_eq_some_iff.mp h
    obtain ⟨_,_,_,-,-,rfl⟩ := registrationFails_spec hstep
    exact hsame rfl rfl
  | arrive b payload =>
    obtain rfl := Option.some.inj h
    refine ⟨rfl,[some ⟨b,payload,.arrived⟩],rfl,?_⟩
    intro r hr
    obtain rfl := Option.some.inj (List.mem_singleton.mp hr)
    rfl
  | tick order =>
    obtain ⟨-,-,rfl⟩ := tick_spec h
    exact hsame rfl rfl
  | work now outcome =>
    obtain ⟨worker,fs',attempts,ticks,-,rfl⟩ := workStep_spec h
    exact hsame rfl rfl
  | workFails now steps =>
    obtain ⟨worker,fs',-,rfl⟩ := workFails_spec h
    exact hsame rfl rfl
  | lookup b n =>
    obtain rfl := Option.some.inj h
    exact hsame rfl rfl
  | _ => cases hact

end Requests

end MidenX402.Agentic
