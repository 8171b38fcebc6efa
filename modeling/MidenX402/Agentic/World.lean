import MidenX402.Agentic.Client
import MidenX402.Facilitator.Increasing

/-!
# Clients of an agent and the facilitator

Any number of clients of one agent, each with a cache that its calls share, and any number of calls of
`pay` on each of them, interleaved with the running server.  A request is in the list of the server as
soon as it is sent: before its first step there it is on its way, and one that never takes a step was
lost.  It is processed once at most, and may fail in a write.  An answer can get lost at any time.
-/

namespace MidenX402.Agentic
open Facilitator

/-- How far a call of `pay` has come.  `stale` to `refreshed` are `refresh_state` after a first attempt
that was refused as stale: before the pending state is loaded, before the queue is listed, and before the
answer is written to the cache. -/
inductive CallPhase where
  | start
  | based (builtOn : String) (nextSeq : ℕ)
  | built (payload : AgenticPayload)
  | posted (thread : ℕ)
  | acked (ack : AckResponse)
  | stale
  | counting (pending : PendingState)
  | refreshed (state : AgentStateResponse)
  | returned (result : Except AgenticError PaymentReceipt)

structure PayCall where
  client : ℕ
  ctx : X402Context
  retried : Bool
  phase : CallPhase

/-- `posts` are the requests of the server that a call has sent.  The answer a request left with and the
payment it had accepted are kept under its thread. -/
structure World where
  server : Server
  clients : List (AgenticClient × PendingCache)
  calls : List PayCall
  posts : List (ℕ × ℕ)
  answers : List (ℕ × Except FacilitatorError AckResponse)
  causes : List (ℕ × Acceptance)

/-- `touch` is whatever else is done with a client: registering, refreshing, building a payment for a
merchant.  To the server these are steps of its own; to the cache they are writes.  `fail` is a request
whose write fails, with the error of the operating system. -/
inductive Event where
  | server (act : Action)
  | fail (thread now steps : ℕ) (error : String)
  | connect (client : AgenticClient)
  | touch (client : ℕ) (cache : PendingCache)
  | pay (client : ℕ) (ctx : X402Context)
  | call (i : ℕ) (outside : Outside)
  | lose (i : ℕ) (lost : Lost)

/-- The values that stand under a key. -/
def under {β : Type} (entries : List (ℕ × β)) (k : ℕ) : List β :=
  (entries.filter fun e => e.1 = k).map Prod.snd

section Steps
variable (M : Miden) (E : Encoders) (store : FilesystemX402Store) (maxSize : ℕ) (agentId : String)

def World.start (files : Facilitator.Files) : World := ⟨.start files,[],[],[],[],[]⟩

/-- The answer a request leaves with when it takes its next step. -/
def answerOf (s : Server) (thread now : ℕ) : Option (Except FacilitatorError AckResponse) :=
  match s.request thread with
  | some ⟨a,payload,.inside _ stage⟩ =>
    match stageStep M store a payload now s.files stage with
    | some (.answer result) => some result
    | _ => none
  | _ => none

def World.serve (w : World) (act : Action) : Option World :=
  match act with
  | .restart | .requestFails _ _ _ => none
  | .request thread now => (w.server.step M store maxSize act).map fun s => { w with
      server := s
      answers := w.answers ++ (answerOf M store w.server thread now).toList.map fun x => (thread,x)
      causes := w.causes ++ (s.accepted.drop w.server.accepted.length).map fun x => (thread,x) }
  | _ => (w.server.step M store maxSize act).map fun s => { w with server := s }

def World.fail (w : World) (thread now steps : ℕ) (error : String) : Option World :=
  (w.server.step M store maxSize (.requestFails thread now steps)).map fun s => { w with
    server := s
    answers := w.answers ++ [(thread,.error (.internal ("io: " ++ error)))] }

def World.setCall (w : World) (i : ℕ) (call : PayCall) : World := { w with calls := w.calls.set i call }

def World.setCache (w : World) (c : ℕ) (client : AgenticClient) (cache : PendingCache) : World :=
  { w with clients := w.clients.set c (client,cache) }

/-- An attempt failed: a stale base at the first one is answered by a refresh and a second one. -/
def PayCall.fail (call : PayCall) (e : AgenticError) : PayCall :=
  if !call.retried && e.isStaleBase then { call with retried := true, phase := .stale }
  else { call with phase := .returned (.error e) }

/-- The refresh failed, and with it the call. -/
def PayCall.abort (call : PayCall) (e : AgenticError) : PayCall :=
  { call with phase := .returned (.error e) }

def World.post (w : World) (i : ℕ) (call : PayCall) (payload : AgenticPayload) : World :=
  let thread := w.server.requests.length
  { w with
    server := { w.server with requests := w.server.requests ++ [some ⟨agentId,payload,.arrived⟩] }
    calls := w.calls.set i { call with phase := .posted thread }
    posts := w.posts ++ [(i,thread)] }

/-- The next step of a call of `pay` on a client. -/
def World.callStep (w : World) (i : ℕ) (outside : Outside) (call : PayCall) (client : AgenticClient)
    (cache : PendingCache) : Option World :=
  match call.phase with
  | .start => some (w.setCall i { call with
      phase := .based cache.pendingStateCommitment (cache.lastAcceptedSeq + 1) })
  | .based builtOn nextSeq =>
    match buildPayload M E client call.ctx builtOn nextSeq outside cache with
    | .ok (payload,cache) =>
      some ((w.setCache call.client client cache).setCall i { call with phase := .built payload })
    | .error e => some (w.setCall i (call.fail e))
  | .built payload => some (w.post agentId i call payload)
  | .posted thread =>
    match (under w.answers thread).head?.map parse with
    | none => none
    | some (.ok ack) => some (w.setCall i { call with phase := .acked ack })
    | some (.error e) => some (w.setCall i (call.fail e))
  | .acked ack => some ((w.setCache call.client client (cache.take ack)).setCall i
      { call with phase := .returned (.ok (receipt client.agentId ack)) })
  | .stale =>
    match parse (store.loadPendingState agentId w.server.files) with
    | .ok pending => some (w.setCall i { call with phase := .counting pending })
    | .error e => some (w.setCall i (call.abort e))
  | .counting pending =>
    match parse (store.listQueued agentId w.server.files) with
    | .ok queued => some (w.setCall i { call with phase := .refreshed (agentState agentId pending queued) })
    | .error e => some (w.setCall i (call.abort e))
  | .refreshed state => some ((w.setCache call.client client (cache.refresh state)).setCall i
      { call with phase := .start })
  | .returned _ => none

/-- A call whose answer is lost. -/
def PayCall.lose (call : PayCall) (lost : Lost) : Option PayCall :=
  match call.phase with
  | .posted _ => some (call.fail lost.error)
  | .stale | .counting _ | .refreshed _ => some (call.abort lost.error)
  | _ => none

def World.step (w : World) : Event → Option World
  | .server act => w.serve M store maxSize act
  | .fail thread now steps error => w.fail M store maxSize thread now steps error
  | .connect client =>
    if client.agentId = agentId then some { w with clients := w.clients ++ [(client,.empty)] } else none
  | .touch c cache => (w.clients[c]?).map fun (client,_) => w.setCache c client cache
  | .pay c ctx =>
    if c < w.clients.length then some { w with calls := w.calls ++ [⟨c,ctx,false,.start⟩] } else none
  | .call i outside => (w.calls[i]?).bind fun call => (w.clients[call.client]?).bind fun (client,cache) =>
      w.callStep M E store agentId i outside call client cache
  | .lose i lost => (w.calls[i]?).bind fun call => (call.lose lost).map fun call => w.setCall i call

def World.run (w : World) (events : List Event) : Option World :=
  events.foldlM (World.step M E store maxSize agentId) w

/-- Every event meets the condition in the world it happens in. -/
def World.Along (Q : World → Event → Prop) (w : World) : List Event → Prop
  | [] => True
  | event :: events => Q w event ∧
    match w.step M E store maxSize agentId event with
    | none => True
    | some w' => w'.Along Q events

instance decidableWorldAlong {Q : World → Event → Prop} [∀ w event, Decidable (Q w event)] (w : World)
    (events : List Event) : Decidable (w.Along M E store maxSize agentId Q events) :=
  match events with
  | [] => isTrue trivial
  | event :: events =>
    match h : w.step M E store maxSize agentId event with
    | none => decidable_of_iff (Q w event) (by simp [World.Along,h])
    | some w' =>
      have : Decidable (w'.Along M E store maxSize agentId Q events) := decidableWorldAlong w' events
      decidable_of_iff (Q w event ∧ w'.Along M E store maxSize agentId Q events)
        (by simp [World.Along,h])

end Steps

/-- The accepted payments that a call has caused. -/
def World.causedBy (w : World) (i : ℕ) : List Acceptance :=
  (under w.posts i).flatMap fun thread => under w.causes thread

end MidenX402.Agentic
