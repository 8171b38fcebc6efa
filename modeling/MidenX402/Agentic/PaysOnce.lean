import MidenX402.Agentic.Traces

/-!
# A call of `pay` pays once at most

The requests of a call are those of attempts that were refused as stale, which have left no trace, and
at most one more.
-/

namespace MidenX402.Agentic
open Facilitator KeyedLock Disk

section Calls
variable {store : FilesystemX402Store} {a : String} {s s' : Server} {t : ℕ} {w w' : World}
  {causes causes' : List (ℕ × Acceptance)} {threads : List ℕ} {phase : CallPhase}

/-- The request has left and these are the payments it has had accepted. -/
structure Left (s : Server) (causes : List (ℕ × Acceptance)) (t : ℕ) (caused : List Acceptance) : Prop where
  settled : Settled s t
  caused : under causes t = caused

theorem Left.grow {caused : List Acceptance} (h : Left s causes t caused)
    (hgrown : Grown s s' causes causes') : Left s' causes' t caused := by
  obtain ⟨hsettled,hsame⟩ := hgrown.settled t h.settled
  exact ⟨hsettled,hsame.trans h.caused⟩

/-- One request paid, and this is its acknowledgement. -/
def PaidBy (s : Server) (causes : List (ℕ × Acceptance)) (ack : AckResponse) (current : List ℕ) : Prop :=
  ∃ t x, current = [t] ∧ Left s causes t [x] ∧ Acknowledges ack x

/-- The requests of the attempt at hand, besides those that were refused as stale. -/
def CallPhase.Current (a : String) (s : Server) (causes : List (ℕ × Acceptance)) :
    CallPhase → List ℕ → Prop
  | .posted t, current => current = [t]
  | .acked ack, current => PaidBy s causes ack current
  | .returned (.ok r), current => ∃ ack, r = receipt a ack ∧ PaidBy s causes ack current
  | .returned (.error _), current => current.length ≤ 1
  | _, current => current = []

theorem PaidBy.grow {ack : AckResponse} {current : List ℕ} (h : PaidBy s causes ack current)
    (hgrown : Grown s s' causes causes') : PaidBy s' causes' ack current := by
  obtain ⟨t,x,hcurrent,hleft,hack⟩ := h
  exact ⟨t,x,hcurrent,hleft.grow hgrown,hack⟩

theorem CallPhase.Current.grow {current : List ℕ} (h : phase.Current a s causes current)
    (hgrown : Grown s s' causes causes') : phase.Current a s' causes' current := by
  cases phase with
  | acked ack => exact PaidBy.grow h hgrown
  | returned result =>
    cases result with
    | error e => exact h
    | ok r =>
      obtain ⟨ack,hr,hpaid⟩ := h
      exact ⟨ack,hr,hpaid.grow hgrown⟩
  | _ => exact h

theorem PaidBy.length {ack : AckResponse} {current : List ℕ} (h : PaidBy s causes ack current) :
    current.length ≤ 1 := by
  obtain ⟨t,x,rfl,-,-⟩ := h
  exact le_rfl

theorem CallPhase.Current.length {current : List ℕ} (h : phase.Current a s causes current) :
    current.length ≤ 1 := by
  have hnil : current = [] → current.length ≤ 1 := by
    rintro rfl
    exact Nat.zero_le 1
  cases phase with
  | posted t =>
    obtain rfl : current = [t] := h
    exact le_rfl
  | acked ack => exact PaidBy.length h
  | returned result =>
    cases result with
    | error e => exact h
    | ok r =>
      obtain ⟨ack,-,hpaid⟩ := h
      exact hpaid.length
  | _ => exact hnil h

/-- The requests that a call has sent. -/
def Sent (a : String) (s : Server) (causes : List (ℕ × Acceptance)) (threads : List ℕ)
    (phase : CallPhase) : Prop :=
  ∃ past current, threads = past ++ current ∧ (∀ t ∈ past, Left s causes t []) ∧
    phase.Current a s causes current

theorem Sent.grow (h : Sent a s causes threads phase) (hgrown : Grown s s' causes causes') :
    Sent a s' causes' threads phase := by
  obtain ⟨past,current,hthreads,hpast,hcurrent⟩ := h
  exact ⟨past,current,hthreads,fun t ht => (hpast t ht).grow hgrown,hcurrent.grow hgrown⟩

/-- No request is under way, and none has been acknowledged. -/
def CallPhase.isIdle : CallPhase → Bool
  | .posted _ | .acked _ | .returned _ => false
  | _ => true

theorem CallPhase.current_of_idle (h : phase.isIdle = true) (current : List ℕ) :
    phase.Current a s causes current ↔ current = [] := by
  cases phase with
  | posted t => cases h
  | acked ack => cases h
  | returned result => cases h
  | _ => exact Iff.rfl

theorem Sent.idle {next : CallPhase} (h : Sent a s causes threads phase)
    (hphase : phase.isIdle = true) (hnext : next.isIdle = true) : Sent a s causes threads next := by
  obtain ⟨past,current,hthreads,hpast,hcurrent⟩ := h
  rw [CallPhase.current_of_idle hphase] at hcurrent
  exact ⟨past,current,hthreads,hpast,(CallPhase.current_of_idle hnext _).mpr hcurrent⟩

theorem Sent.abort {e : AgenticError} (h : Sent a s causes threads phase) :
    Sent a s causes threads (.returned (.error e)) := by
  obtain ⟨past,current,hthreads,hpast,hcurrent⟩ := h
  exact ⟨past,current,hthreads,hpast,hcurrent.length⟩

/-- An attempt failed; when it is made again the request of the first has left no trace. -/
theorem Sent.fail {call : PayCall} {e : AgenticError} (h : Sent a s causes threads call.phase)
    (hstale : e.isStaleBase = true → ∀ current, call.phase.Current a s causes current →
      ∀ t ∈ current, Left s causes t []) : Sent a s causes threads (call.fail e).phase := by
  rw [PayCall.fail]
  split
  · rename_i hretry
    obtain ⟨past,current,hthreads,hpast,hcurrent⟩ := h
    have htraceless := hstale (Bool.and_eq_true_iff.mp hretry).2 current hcurrent
    refine ⟨past ++ current,[],hthreads.trans (List.append_nil _).symm,?_,rfl⟩
    intro t ht
    rcases List.mem_append.mp ht with hold | hnew
    · exact hpast t hold
    · exact htraceless t hnew
  · exact h.abort

end Calls

section Invariant
variable {M : Miden} {E : Encoders} {store : FilesystemX402Store} {maxSize : ℕ} {a : String}
  {w w' : World} {act : Action} {event : Event} {i : ℕ} {call : PayCall} {outside : Outside}

structure PayInv (store : FilesystemX402Store) (a : String) (w : World) : Prop where
  counted : CountedInv store a w.server
  traced : Traced w.server w.causes w.answers
  clients : ∀ c ∈ w.clients, c.1.agentId = a
  threads : (w.posts.map Prod.snd).Nodup
  owned : ∀ p ∈ w.posts, Owned a w.server w.causes p.2
  senders : ∀ p ∈ w.posts, p.1 < w.calls.length
  calls : ∀ i call, w.calls[i]? = some call →
    Sent a w.server w.causes (under w.posts i) call.phase

/-- Steps of the server. -/
theorem serve_spec (h : w.serve M store maxSize act = some w') (htraced : Traced w.server w.causes w.answers) :
    w.server.step M store maxSize act = some w'.server ∧
      Traced w'.server w'.causes w'.answers ∧ Grown w.server w'.server w.causes w'.causes ∧
      w'.clients = w.clients ∧ w'.calls = w.calls ∧ w'.posts = w.posts := by
  have hquiet : Action.isAside act = true →
      (w.server.step M store maxSize act).map (fun s => { w with server := s }) = some w' →
      w.server.step M store maxSize act = some w'.server ∧
        Traced w'.server w'.causes w'.answers ∧ Grown w.server w'.server w.causes w'.causes ∧
        w'.clients = w.clients ∧ w'.calls = w.calls ∧ w'.posts = w.posts := by
    intro haside h
    obtain ⟨s',hstep,rfl⟩ := Option.map_eq_some_iff.mp h
    obtain ⟨haccepted,more,hreq,hmore⟩ := step_between hstep haside
    obtain ⟨htraced',hgrown⟩ := htraced.arrive hreq haccepted hmore
    exact ⟨hstep,htraced',hgrown,rfl,rfl,rfl⟩
  cases act with
  | restart => cases h
  | requestFails t now steps => cases h
  | request t now =>
    obtain ⟨s',hstep,rfl⟩ := Option.map_eq_some_iff.mp h
    obtain ⟨r,hr,hone⟩ := Option.bind_eq_some_iff.mp hstep
    obtain ⟨htraced',hgrown⟩ := htraced.request hr (requestStep_served hr hone)
    exact ⟨hstep,htraced',hgrown,rfl,rfl,rfl⟩
  | _ => exact hquiet rfl h

theorem fail_spec {t now steps : ℕ} {error : String} (h : w.fail M store maxSize t now steps error = some w')
    (htraced : Traced w.server w.causes w.answers) :
    w.server.step M store maxSize (.requestFails t now steps) = some w'.server ∧
      Traced w'.server w'.causes w'.answers ∧ Grown w.server w'.server w.causes w'.causes ∧
      w'.clients = w.clients ∧ w'.calls = w.calls ∧ w'.posts = w.posts := by
  obtain ⟨s',hstep,rfl⟩ := Option.map_eq_some_iff.mp h
  obtain ⟨r,hr,hone⟩ := Option.bind_eq_some_iff.mp hstep
  have hserved := requestFails_served hr hone ("io: " ++ error)
  obtain ⟨htraced',hgrown⟩ := htraced.request hr hserved
  cases hserved with
  | leaves _ haccepted _ =>
    rw [haccepted,List.drop_length,List.map_nil,List.append_nil] at htraced' hgrown
    exact ⟨hstep,htraced',hgrown,rfl,rfl,rfl⟩

/-- The server has gone on, by itself or for a request. -/
theorem PayInv.grow (h : PayInv store a w) (hcounted : CountedInv store a w'.server)
    (htraced : Traced w'.server w'.causes w'.answers)
    (hgrown : Grown w.server w'.server w.causes w'.causes) (hclients : w'.clients = w.clients)
    (hcalls : w'.calls = w.calls) (hposts : w'.posts = w.posts) : PayInv store a w' := by
  refine ⟨hcounted,htraced,?_,?_,?_,?_,?_⟩
  · rw [hclients]
    exact h.clients
  · rw [hposts]
    exact h.threads
  · rw [hposts]
    exact fun p hp => hgrown.owned a _ (h.owned p hp)
  · rw [hposts,hcalls]
    exact h.senders
  · intro i call hcall
    rw [hcalls] at hcall
    rw [hposts]
    exact (h.calls i call hcall).grow hgrown

theorem PayInv.serve (h : PayInv store a w) (hact : act.Apart store a)
    (hsteady : w.server.Steady store a act) (hstep : w.serve M store maxSize act = some w') :
    PayInv store a w' := by
  obtain ⟨hserver,htraced,hgrown,hclients,hcalls,hposts⟩ := serve_spec hstep h.traced
  exact h.grow (h.counted.move hact hsteady (step_move hserver)) htraced hgrown hclients hcalls hposts

theorem PayInv.fail (h : PayInv store a w) {t now steps : ℕ} {error : String}
    (hstep : w.fail M store maxSize t now steps error = some w') : PayInv store a w' := by
  obtain ⟨hserver,htraced,hgrown,hclients,hcalls,hposts⟩ := fail_spec hstep h.traced
  have hapart : Action.Apart store a (.requestFails t now steps) := trivial
  exact h.grow (h.counted.move hapart trivial (step_move hserver)) htraced hgrown hclients hcalls hposts

/-- A call goes on without the server. -/
theorem PayInv.setCall (h : PayInv store a w) {next : PayCall} (hcall : w.calls[i]? = some call)
    (hnext : Sent a w.server w.causes (under w.posts i) next.phase) :
    PayInv store a (w.setCall i next) := by
  refine ⟨h.counted,h.traced,h.clients,h.threads,h.owned,?_,?_⟩
  · intro p hp
    rw [World.setCall,List.length_set]
    exact h.senders p hp
  · intro j other hother
    rw [World.setCall] at hother
    by_cases hj : i = j
    · subst hj
      rw [List.getElem?_set_self (List.getElem?_eq_some_iff.mp hcall).1] at hother
      rw [← Option.some.inj hother]
      exact hnext
    · rw [List.getElem?_set_ne hj] at hother
      exact h.calls j other hother

theorem PayInv.setCache (h : PayInv store a w) {c : ℕ} {client : AgenticClient} (cache : PendingCache)
    (hclient : client.agentId = a) : PayInv store a (w.setCache c client cache) := by
  refine ⟨h.counted,h.traced,?_,h.threads,h.owned,h.senders,h.calls⟩
  intro c' hc'
  rcases List.mem_or_eq_of_mem_set hc' with hold | rfl
  · exact h.clients c' hold
  · exact hclient

/-- A request is sent. -/
theorem PayInv.post (M : Miden) (maxSize : ℕ) (h : PayInv store a w) (hcall : w.calls[i]? = some call)
    {payload : AgenticPayload} (hphase : call.phase = .built payload) :
    PayInv store a (w.post a i call payload) := by
  have hlt := (List.getElem?_eq_some_iff.mp hcall).1
  have hmove : Move M store maxSize w.server (.arrive a payload) (w.post a i call payload).server := .arrive
  have hapart : Action.Apart store a (.arrive a payload) := Or.inl rfl
  have hnone : ∀ r, some r ∈ [some (⟨a,payload,.arrived⟩ : Request)] → acceptedOf r = [] := by
    intro r hr
    rw [Option.some.inj (List.mem_singleton.mp hr)]
    rfl
  obtain ⟨htraced,hgrown⟩ : Traced (w.post a i call payload).server w.causes w.answers ∧
      Grown w.server (w.post a i call payload).server w.causes w.causes :=
    h.traced.arrive rfl rfl hnone
  have hunder : ∀ j, under (w.post a i call payload).posts j =
      under w.posts j ++ if i = j then [w.server.requests.length] else [] := by
    intro j
    rw [World.post,under_append]
    exact congrArg _ (under_map i [w.server.requests.length] j)
  refine ⟨h.counted.move hapart trivial hmove,htraced,h.clients,?_,?_,?_,?_⟩
  · rw [World.post,List.map_append,List.nodup_append]
    refine ⟨h.threads,List.nodup_singleton _,?_⟩
    intro t ht u hu
    obtain ⟨p,hp,rfl⟩ := List.mem_map.mp ht
    rw [List.mem_singleton.mp hu]
    exact (h.owned p hp).arrived.ne
  · intro p hp
    rcases List.mem_append.mp hp with hold | hnew
    · exact hgrown.owned a _ (h.owned p hold)
    · rw [List.mem_singleton.mp hnew]
      refine ⟨?_,?_,?_⟩
      · rw [World.post,List.length_append]
        exact Nat.lt_succ_self _
      · intro r hr
        rw [Server.request_eq_some_iff,World.post,List.getElem?_concat_length] at hr
        rw [← Option.some.inj (Option.some.inj hr)]
      · rw [World.post,h.traced.fresh _ le_rfl]
        exact fun x hx => absurd hx List.not_mem_nil
  · intro p hp
    rw [World.post,List.length_set]
    rcases List.mem_append.mp hp with hold | hnew
    · exact h.senders p hold
    · rw [List.mem_singleton.mp hnew]
      exact hlt
  · intro j other hother
    rw [hunder]
    by_cases hj : i = j
    · subst hj
      rw [World.post,List.getElem?_set_self hlt] at hother
      rw [if_pos rfl,← Option.some.inj hother]
      obtain ⟨past,current,hthreads,hpast,hcurrent⟩ := (h.calls i call hcall).grow hgrown
      rw [hphase] at hcurrent
      obtain rfl : current = [] := hcurrent
      refine ⟨past,[w.server.requests.length],?_,hpast,rfl⟩
      rw [hthreads,List.append_nil]
    · rw [World.post,List.getElem?_set_ne hj] at hother
      rw [if_neg hj,List.append_nil]
      exact (h.calls j other hother).grow hgrown

/-- The answer to the request of a call arrives. -/
theorem Sent.deliver {t : ℕ} (h : PayInv store a w) (hcall : w.calls[i]? = some call)
    (hphase : call.phase = .posted t) {answer : Except FacilitatorError AckResponse}
    (hanswer : (t,answer) ∈ w.answers) :
    match parse answer with
    | .ok ack => Sent a w.server w.causes (under w.posts i) (.acked ack)
    | .error e => Sent a w.server w.causes (under w.posts i) (call.fail e).phase := by
  obtain ⟨hsettled,htells⟩ := h.traced.answered t answer hanswer
  have hsent := h.calls i call hcall
  cases answer with
  | ok ack =>
    obtain ⟨x,hcaused,hack⟩ := htells
    obtain ⟨past,current,hthreads,hpast,hcurrent⟩ := hsent
    rw [hphase] at hcurrent
    exact ⟨past,current,hthreads,hpast,t,x,hcurrent,⟨hsettled,hcaused⟩,hack⟩
  | error e =>
    apply hsent.fail
    intro hstale current hcurrent t' ht'
    rw [hphase] at hcurrent
    obtain rfl : current = [t] := hcurrent
    rw [List.mem_singleton.mp ht']
    exact ⟨hsettled,htells hstale⟩

theorem PayInv.callStep (h : PayInv store a w) (hcall : w.calls[i]? = some call)
    {client : AgenticClient} {cache : PendingCache} (hclient : client.agentId = a)
    (hstep : w.callStep M E store a i outside call client cache = some w') : PayInv store a w' := by
  have hsent := h.calls i call hcall
  have hidle : ∀ {phase next : CallPhase}, call.phase = phase → phase.isIdle = true →
      next.isIdle = true → Sent a w.server w.causes (under w.posts i) next := by
    rintro phase next rfl hphase hnext
    exact hsent.idle hphase hnext
  rw [World.callStep] at hstep
  cases hphase : call.phase with
  | start =>
    rw [hphase] at hstep
    obtain rfl := Option.some.inj hstep
    exact h.setCall hcall (hidle hphase rfl rfl)
  | based builtOn nextSeq =>
    simp only [hphase] at hstep
    cases hbuild : buildPayload M E client call.ctx builtOn nextSeq outside cache with
    | ok built =>
      rw [hbuild] at hstep
      obtain rfl := Option.some.inj hstep
      exact (h.setCache _ hclient).setCall hcall (hidle hphase rfl rfl)
    | error e =>
      rw [hbuild] at hstep
      obtain rfl := Option.some.inj hstep
      refine h.setCall hcall (hsent.fail ?_)
      intro _ current hcurrent t ht
      rw [hphase] at hcurrent
      obtain rfl : current = [] := hcurrent
      cases ht
  | built payload =>
    rw [hphase] at hstep
    obtain rfl := Option.some.inj hstep
    exact h.post M 0 hcall hphase
  | posted t =>
    simp only [hphase] at hstep
    cases hhead : (under w.answers t).head? with
    | none =>
      rw [hhead] at hstep
      cases hstep
    | some answer =>
      have hdeliver := Sent.deliver h hcall hphase (mem_under.mp (List.mem_of_head? hhead))
      rw [hhead,Option.map_some] at hstep
      cases hparse : parse answer with
      | ok ack =>
        simp only [hparse] at hstep hdeliver
        obtain rfl := Option.some.inj hstep
        exact h.setCall hcall hdeliver
      | error e =>
        simp only [hparse] at hstep hdeliver
        obtain rfl := Option.some.inj hstep
        exact h.setCall hcall hdeliver
  | acked ack =>
    rw [hphase] at hstep
    obtain rfl := Option.some.inj hstep
    refine (h.setCache _ hclient).setCall hcall ?_
    obtain ⟨past,current,hthreads,hpast,hcurrent⟩ := hsent
    rw [hphase] at hcurrent
    exact ⟨past,current,hthreads,hpast,ack,by rw [hclient],hcurrent⟩
  | stale =>
    simp only [hphase] at hstep
    cases hload : parse (store.loadPendingState a w.server.files) with
    | ok pending =>
      rw [hload] at hstep
      obtain rfl := Option.some.inj hstep
      exact h.setCall hcall (hidle hphase rfl rfl)
    | error e =>
      rw [hload] at hstep
      obtain rfl := Option.some.inj hstep
      exact h.setCall hcall hsent.abort
  | counting pending =>
    simp only [hphase] at hstep
    cases hlist : parse (store.listQueued a w.server.files) with
    | ok queued =>
      rw [hlist] at hstep
      obtain rfl := Option.some.inj hstep
      exact h.setCall hcall (hidle hphase rfl rfl)
    | error e =>
      rw [hlist] at hstep
      obtain rfl := Option.some.inj hstep
      exact h.setCall hcall hsent.abort
  | refreshed state =>
    rw [hphase] at hstep
    obtain rfl := Option.some.inj hstep
    exact (h.setCache _ hclient).setCall hcall (hidle hphase rfl rfl)
  | returned result =>
    rw [hphase] at hstep
    cases hstep

theorem PayInv.lose (h : PayInv store a w) {lost : Lost} {next : PayCall}
    (hcall : w.calls[i]? = some call) (hlose : call.lose lost = some next) :
    PayInv store a (w.setCall i next) := by
  have hsent := h.calls i call hcall
  apply h.setCall hcall
  rw [PayCall.lose] at hlose
  split at hlose
  · obtain rfl := Option.some.inj hlose
    apply hsent.fail
    intro hstale
    rw [lost.isStaleBase_error] at hstale
    cases hstale
  · obtain rfl := Option.some.inj hlose
    exact hsent.abort
  · obtain rfl := Option.some.inj hlose
    exact hsent.abort
  · obtain rfl := Option.some.inj hlose
    exact hsent.abort
  · cases hlose

/-- Requests and registrations that others make are for this agent or for one whose id leads
elsewhere. -/
def Event.Apart (store : FilesystemX402Store) (a : String) : Event → Prop
  | .server act => act.Apart store a
  | _ => True

instance (store : FilesystemX402Store) (a : String) (event : Event) : Decidable (event.Apart store a) :=
  match event with
  | .server act => inferInstanceAs (Decidable (act.Apart store a))
  | .fail _ _ _ _ | .connect _ | .touch _ _ | .pay _ _ | .call _ _ | .lose _ _ => isTrue trivial

/-- No request of the agent goes by a pending state that a registration is about to replace. -/
def World.Steady (store : FilesystemX402Store) (a : String) (w : World) : Event → Prop
  | .server act => w.server.Steady store a act
  | _ => True

instance (store : FilesystemX402Store) (a : String) (w : World) (event : Event) :
    Decidable (w.Steady store a event) :=
  match event with
  | .server act => inferInstanceAs (Decidable (w.server.Steady store a act))
  | .fail _ _ _ _ | .connect _ | .touch _ _ | .pay _ _ | .call _ _ | .lose _ _ => isTrue trivial

theorem PayInv.step (h : PayInv store a w) (hevent : event.Apart store a)
    (hsteady : w.Steady store a event) (hstep : w.step M E store maxSize a event = some w') :
    PayInv store a w' := by
  cases event with
  | server act => exact h.serve hevent hsteady hstep
  | fail t now steps error => exact h.fail hstep
  | connect client =>
    rw [World.step] at hstep
    split at hstep
    · rename_i hclient
      obtain rfl := Option.some.inj hstep
      refine ⟨h.counted,h.traced,?_,h.threads,h.owned,h.senders,h.calls⟩
      intro c hc
      rcases List.mem_append.mp hc with hold | hnew
      · exact h.clients c hold
      · rw [List.mem_singleton.mp hnew]
        exact hclient
    · cases hstep
  | touch c cache =>
    obtain ⟨⟨client,old⟩,hc,rfl⟩ := Option.map_eq_some_iff.mp hstep
    exact h.setCache cache (h.clients _ (List.mem_of_getElem? hc))
  | pay c ctx =>
    rw [World.step] at hstep
    split at hstep
    · obtain rfl := Option.some.inj hstep
      refine ⟨h.counted,h.traced,h.clients,h.threads,h.owned,?_,?_⟩
      · intro p hp
        rw [List.length_append]
        exact Nat.lt_add_right _ (h.senders p hp)
      · intro i call hcall
        rw [List.getElem?_append] at hcall
        split at hcall
        · exact h.calls i call hcall
        · rename_i hge
          obtain rfl := List.mem_singleton.mp (List.mem_of_getElem? hcall)
          refine ⟨[],[],?_,fun t ht => absurd ht List.not_mem_nil,rfl⟩
          exact under_eq_nil fun p hp => ((h.senders p hp).trans_le (Nat.le_of_not_lt hge)).ne
    · cases hstep
  | call i outside =>
    obtain ⟨call,hcall,hrest⟩ := Option.bind_eq_some_iff.mp hstep
    obtain ⟨⟨client,cache⟩,hc,hone⟩ := Option.bind_eq_some_iff.mp hrest
    exact h.callStep hcall (h.clients _ (List.mem_of_getElem? hc)) hone
  | lose i lost =>
    obtain ⟨call,hcall,hrest⟩ := Option.bind_eq_some_iff.mp hstep
    obtain ⟨next,hlose,rfl⟩ := Option.map_eq_some_iff.mp hrest
    exact h.lose hcall hlose

theorem payInv_start (files : Files) : PayInv store a (World.start files) := by
  refine ⟨countedInv_start a files,⟨rfl,?_,?_,?_,?_⟩,?_,List.nodup_nil,?_,?_,?_⟩
  · intro t r hr
    cases hr
  · exact fun t => Nat.zero_le 1
  · exact fun t _ => rfl
  · exact fun t x hx => absurd hx List.not_mem_nil
  · exact fun c hc => absurd hc List.not_mem_nil
  · exact fun p hp => absurd hp List.not_mem_nil
  · exact fun p hp => absurd hp List.not_mem_nil
  · intro i call hcall
    cases hcall

theorem payInv_run {events : List Event} (h : PayInv store a w)
    (hevents : ∀ event ∈ events, event.Apart store a)
    (hsteady : w.Along M E store maxSize a (World.Steady store a) events)
    (hrun : w.run M E store maxSize a events = some w') : PayInv store a w' := by
  induction events generalizing w with
  | nil =>
    obtain rfl := Option.some.inj hrun
    exact h
  | cons event events ih =>
    rw [World.run,List.foldlM_cons] at hrun
    obtain ⟨w1,hone,hrest⟩ := Option.bind_eq_some_iff.mp hrun
    obtain ⟨hnow,hlater⟩ := hsteady
    simp only [hone] at hlater
    exact ih (h.step (hevents event List.mem_cons_self) hnow hone)
      (fun event' h => hevents event' (List.mem_cons_of_mem _ h)) hlater hrest

end Invariant

section Once
variable {M : Miden} {E : Encoders} {store : FilesystemX402Store} {maxSize : ℕ} {a : String}
  {w : World} {i j : ℕ}

/-- The accepted payment is the one of the receipt. -/
structure Receives (r : PaymentReceipt) (x : Acceptance) : Prop where
  agentId : r.agentId = x.agentId
  seq : r.seq = x.seq
  newState : r.newPendingStateCommitment = x.payload.newStateCommitment
  nullifiers : r.reservedNullifiers = x.nullifiers

/-- A call has returned with a receipt. -/
def World.Returned (w : World) (i : ℕ) (r : PaymentReceipt) : Prop :=
  ∃ call, w.calls[i]? = some call ∧ call.phase = .returned (.ok r)

/-- Each call has caused one accepted payment at most; one that returned a receipt has caused the payment
of the receipt; and receipts are numbered apart.  Every accepted payment is put down to the request that
queued it. -/
structure PaysOnce (w : World) : Prop where
  recorded : w.causes.map Prod.snd = w.server.accepted
  once : ∀ i, (w.causedBy i).length ≤ 1
  receipt : ∀ i r, w.Returned i r → ∃ x ∈ w.server.accepted, w.causedBy i = [x] ∧ Receives r x
  apart : ∀ i j r r', i ≠ j → w.Returned i r → w.Returned j r' → r.seq ≠ r'.seq

/-- Attempts that were refused as stale have caused nothing. -/
theorem causedBy_eq {past current : List ℕ} (hthreads : under w.posts i = past ++ current)
    (hpast : ∀ t ∈ past, Left w.server w.causes t []) :
    w.causedBy i = current.flatMap fun t => under w.causes t := by
  have hnone : past.flatMap (fun t => under w.causes t) = [] :=
    List.flatMap_eq_nil_iff.mpr fun t ht => (hpast t ht).caused
  rw [World.causedBy,hthreads,List.flatMap_append,hnone,List.nil_append]

theorem PayInv.once (h : PayInv store a w) (i : ℕ) : (w.causedBy i).length ≤ 1 := by
  cases hcall : w.calls[i]? with
  | none =>
    have hnone : under w.posts i = [] := by
      apply under_eq_nil
      intro p hp
      exact ((h.senders p hp).trans_le (List.getElem?_eq_none_iff.mp hcall)).ne
    rw [World.causedBy,hnone]
    exact Nat.zero_le 1
  | some call =>
    obtain ⟨past,current,hthreads,hpast,hcurrent⟩ := h.calls i call hcall
    rw [causedBy_eq hthreads hpast]
    have hlen := hcurrent.length
    cases current with
    | nil => exact Nat.zero_le 1
    | cons t rest =>
      obtain rfl := List.eq_nil_of_length_eq_zero (Nat.le_zero.mp (Nat.succ_le_succ_iff.mp hlen))
      rw [List.flatMap_singleton]
      exact h.traced.few t

/-- The request and the payment behind a receipt. -/
theorem PayInv.returned (h : PayInv store a w) {r : PaymentReceipt} (hr : w.Returned i r) :
    ∃ t x, (i,t) ∈ w.posts ∧ (t,x) ∈ w.causes ∧ w.causedBy i = [x] ∧ x.agentId = a ∧ Receives r x := by
  obtain ⟨call,hcall,hphase⟩ := hr
  obtain ⟨past,current,hthreads,hpast,hcurrent⟩ := h.calls i call hcall
  rw [hphase] at hcurrent
  obtain ⟨ack,rfl,t,x,rfl,hleft,hack⟩ := hcurrent
  have hpost : (i,t) ∈ w.posts := by
    apply mem_under.mp
    rw [hthreads]
    exact List.mem_append_right _ (List.mem_singleton_self t)
  have hx : x ∈ under w.causes t := by
    rw [hleft.caused]
    exact List.mem_singleton_self x
  have hagent := (h.owned _ hpost).caused x hx
  refine ⟨t,x,hpost,mem_under.mp hx,?_,hagent,?_⟩
  · rw [causedBy_eq hthreads hpast,List.flatMap_singleton,hleft.caused]
  · exact ⟨hagent.symm,hack.seq,hack.newState,hack.nullifiers⟩

/-- Payments of the agent that different requests have had accepted are numbered apart. -/
theorem PayInv.seq_ne (h : PayInv store a w) {t u : ℕ} {x y : Acceptance} (htu : t ≠ u)
    (hx : (t,x) ∈ w.causes) (hy : (u,y) ∈ w.causes) (hxa : x.agentId = a) (hya : y.agentId = a) :
    x.seq ≠ y.seq := by
  have hincreasing := h.counted.counted.counts.increasing
  rw [Server.history,← h.traced.recorded,List.filter_map,List.map_map,List.pairwise_map] at hincreasing
  have happart : (w.causes.filter ((fun x : Acceptance => decide (x.agentId = a)) ∘ Prod.snd)).Pairwise
      fun p q => p.2.seq ≠ q.2.seq := hincreasing.imp fun hlt => Nat.ne_of_lt hlt
  have : Std.Symm fun p q : ℕ × Acceptance => p.2.seq ≠ q.2.seq := ⟨fun p q hne => hne.symm⟩
  refine happart.forall (List.mem_filter.mpr ⟨hx,?_⟩) (List.mem_filter.mpr ⟨hy,?_⟩) ?_
  · exact decide_eq_true hxa
  · exact decide_eq_true hya
  · exact fun he => htu (Prod.mk.inj he).1

theorem PayInv.paysOnce (h : PayInv store a w) : PaysOnce w := by
  refine ⟨h.traced.recorded,h.once,?_,?_⟩
  · intro i r hr
    obtain ⟨t,x,-,hcause,hcaused,-,hreceives⟩ := h.returned hr
    refine ⟨x,?_,hcaused,hreceives⟩
    rw [← h.traced.recorded]
    exact List.mem_map.mpr ⟨(t,x),hcause,rfl⟩
  · intro i j r r' hij hr hr'
    obtain ⟨t,x,hpost,hcause,-,hagent,hreceives⟩ := h.returned hr
    obtain ⟨u,y,hpost',hcause',-,hagent',hreceives'⟩ := h.returned hr'
    have htu : t ≠ u := by
      rintro rfl
      exact hij (Prod.mk.inj (List.inj_on_of_nodup_map h.threads hpost hpost' rfl)).1
    rw [hreceives.seq,hreceives'.seq]
    exact h.seq_ne htu hcause hcause' hagent hagent'

/-- Whatever the files held when the facilitator was started, and in whatever order the calls on any
number of clients of an agent, the requests of others, registrations and the worker take their steps, with
any answers lost and any writes failing: no call pays twice, and a receipt is for the one payment its call
has caused. -/
theorem pays_once {files : Files} {events : List Event} (hevents : ∀ event ∈ events, event.Apart store a)
    (hsteady : (World.start files).Along M E store maxSize a (World.Steady store a) events)
    (hrun : (World.start files).run M E store maxSize a events = some w) : PaysOnce w :=
  (payInv_run (payInv_start files) hevents hsteady hrun).paysOnce

/-- The sample libraries with hashes that add up the bytes, under which every signature verifies. -/
def summingMiden : Miden := { sampleMiden with
  verify := fun _ _ _ => true
  hash := fun bytes => .ofNats 0 (bytes.map UInt8.toNat).sum 4 4
  wordBytes := fun w => if w = hotKey then [1] else [UInt8.ofNat (w.e1.val / 256),UInt8.ofNat w.e1.val] }

def sampleEncoders : Encoders := ⟨fun _ _ _ _ _ => .ok [2],fun _ _ _ => []⟩

def sampleOutside : Outside := ⟨fun _ _ _ => .error (.config "no agent account"),fun _ => .ok "0x00"⟩

def sampleAgent : AgenticClient := ⟨"a","0xaccount","0x01",false⟩

def sampleContext : X402Context := ⟨"0xpayee","0xfaucet","5",0,"0xdigest"⟩

/-- Two clients pay.  The second has only just been built, and its first attempt, made while the first
client is paying, is refused. -/
def sampleEvents : List Event :=
  .connect sampleAgent :: (sampleRegister 0 "a").map .server ++
  [.touch 0 ⟨"0xs0",0,0⟩,.connect sampleAgent,.pay 0 sampleContext,.pay 1 sampleContext] ++
  calls 0 3 ++ calls 1 3 ++ requests 0 11 ++ calls 0 2 ++ requests 1 5 ++ calls 1 7 ++ requests 2 10 ++
  calls 1 2
where
  calls (i n : ℕ) : List Event := List.replicate n (.call i sampleOutside)
  requests (thread n : ℕ) : List Event := List.replicate n (.server (.request thread 7))

def PayCall.seq (call : PayCall) : Option ℕ :=
  match call.phase with
  | .returned (.ok r) => some r.seq
  | _ => none

theorem pays_once_sample : ∃ w,
    (World.start emptyFiles).run summingMiden sampleEncoders sampleStore 1 "a" sampleEvents = some w ∧
    PaysOnce w ∧ w.calls.map PayCall.seq = [some 1,some 2] ∧
    w.calls.map PayCall.retried = [false,true] := by
  obtain ⟨w,hw,hfacts⟩ : ∃ w,
      (World.start emptyFiles).run summingMiden sampleEncoders sampleStore 1 "a" sampleEvents = some w ∧
      (w.calls.map PayCall.seq,w.calls.map PayCall.retried) = ([some 1,some 2],[false,true]) :=
    Option.map_eq_some_iff.mp (by decide +kernel)
  obtain ⟨hseqs,hretried⟩ := Prod.mk.inj hfacts
  exact ⟨w,hw,pays_once (by decide +kernel) (by decide +kernel) hw,hseqs,hretried⟩

end Once

end MidenX402.Agentic
