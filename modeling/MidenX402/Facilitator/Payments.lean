import MidenX402.Facilitator.Intact

/-!
# Payments over whole runs

From an empty store, through any interleaving of registrations and requests with the worker, lookups
and restarts.
-/

namespace MidenX402.Facilitator
open Disk

section Results
variable {M : Miden} {store : FilesystemX402Store} {maxSize : ℕ} {s s' : Server}
  {acts later : List Action} {fs : Files} {a initial : String}

/-- The initial state commitment and the new ones of the accepted payments. -/
def Server.commitments (s : Server) (a initial : String) : List String :=
  initial :: (s.history a).map fun x => x.payload.newStateCommitment

/-- The commitments the pending state went through, those of payments that failed later included. -/
def Server.pendingCommitments (s : Server) (a initial : String) : List String :=
  initial :: (s.trail a).map fun x => x.payload.newStateCommitment

/-- A nullifier of an accepted payment, or of one on its way after it reserved its nullifiers. -/
def Server.Reserved (s : Server) (a n : String) : Prop :=
  (∃ x ∈ s.history a, n ∈ x.nullifiers) ∨ ∃ payload p ns now, n ∈ ns ∧
    (s.Inside a payload (.reserved p ns now) ∨ s.Inside a payload (.advanced p ns now))

/-- What serialization means for one agent.  The pending state is the last accepted one except
between the two writes of a payment that advance it and queue the payment. -/
structure Serialized (store : FilesystemX402Store) (s : Server) (a initial : String) : Prop where
  seqs : (s.history a).map Acceptance.seq = List.range' 1 (s.history a).length
  bases : (s.history a).map (fun x => x.payload.builtOnStateCommitment) =
    (s.commitments a initial).dropLast
  pending : (∀ payload p ns now, ¬ s.Inside a payload (.advanced p ns now)) →
    ∃ p, store.loadPendingState a s.files = .ok p ∧
      (s.commitments a initial).getLast? = some p.pendingStateCommitment ∧
      p.lastAcceptedSeq = (s.history a).length
  nonempty : ∀ x ∈ s.history a, x.nullifiers ≠ []
  disjoint : (s.history a).Pairwise fun x y => x.nullifiers.Disjoint y.nullifiers
  reported : ∀ n, s.Reserved a n →
    ∃ view, store.nullifierView a s.files = .ok view ∧ view.contains n = true

theorem states_ledger (s : Server) (a initial : String) :
    Ledger.states initial (s.ledger a) = s.commitments a initial := by
  rw [Ledger.states,Server.ledger,List.map_map]
  rfl

theorem states_chain (s : Server) (a initial : String) :
    Ledger.states initial (s.chain a) = s.pendingCommitments a initial := by
  rw [Ledger.states,Server.chain,List.map_map]
  rfl

theorem ServerInv.bases (h : ServerInv M store s) (hi : s.initialOf a = some initial) :
    (s.history a).map (fun x => x.payload.builtOnStateCommitment) =
      (s.commitments a initial).dropLast := by
  have hbase := (h.chained hi).map_base
  rw [states_ledger,Server.ledger,List.map_map] at hbase
  exact hbase

theorem Reserving.logged_of_reserved (h : Reserving M store s a) {n : String}
    (hn : s.Reserved a n) : Logged store s.files a n := by
  rcases hn with ⟨x,hx,hmem⟩ | ⟨payload,p,ns,now,hmem,hi | hi⟩
  · exact h.logged x hx n hmem
  · exact (h.stages payload _ hi).2.2 n hmem
  · exact (h.stages payload _ hi).2.2 n hmem

theorem Intact.viewable_of_reserved (h : Intact store s a) {n : String} (hn : s.Reserved a n) :
    Viewable store a s.files := by
  rcases hn with ⟨x,hx,-⟩ | ⟨payload,p,ns,now,-,hi | hi⟩
  · exact h.accepted (List.ne_nil_of_mem hx)
  · exact h.viewed payload _ hi rfl
  · exact h.viewed payload _ hi rfl

/-- The view of an agent that has its directory and its logs. -/
theorem Decodes.view {registered : Bool} (h : Decodes store a registered fs) (ha : IsPlain a)
    (hdir : HasDir store fs a) (hview : Viewable store a fs) {n : String}
    (hn : Logged store fs a n) :
    ∃ view, store.nullifierView a fs = .ok view ∧ view.contains n = true := by
  obtain ⟨es,hes⟩ := h.wal
  obtain ⟨es',hes'⟩ := h.spent
  refine ⟨_,nullifierView_of_lines ha hdir hes hes' hview.wal hview.spent,?_⟩
  rw [NullifierView.contains,Bool.or_eq_true,decide_eq_true_iff]
  exact Or.inl (List.mem_toFinset.mpr (hn es hes))

theorem IntactInv.pending (h : IntactInv M store s) (hi : s.initialOf a = some initial)
    (hnone : ∀ payload p ns now, ¬ s.Inside a payload (.advanced p ns now)) :
    ∃ p, store.loadPendingState a s.files = .ok p ∧ AtTip initial (s.ledger a) p := by
  have hfollowing := h.server.following hi
  obtain ⟨p,hp⟩ := (h.files a).decodes.pending (by rw [hi]; rfl)
  refine ⟨p,loadPendingState_of_fileAt hfollowing.plain hfollowing.dir ?_,?_⟩
  · exact (content_eq (by rintro ⟨⟩)).mp hp
  · have htip := hfollowing.tip p hp
    rw [Server.chain,(h.server.step a).level hnone] at htip
    exact htip

theorem IntactInv.serialized (h : IntactInv M store s) (hi : s.initialOf a = some initial) :
    Serialized store s a initial := by
  have hfollowing := h.server.following hi
  have hreserving := h.server.reserving a
  refine ⟨h.server.seqs a,h.server.bases hi,?_,fun x hx => (hreserving.claims x hx).nonempty,
    hreserving.disjoint,?_⟩
  · intro hnone
    obtain ⟨p,hload,htip⟩ := h.pending hi hnone
    refine ⟨p,hload,?_,?_⟩
    · rw [← states_ledger,Ledger.getLast?_states,htip.commitment]
    · rw [htip.seq,Server.ledger,List.length_map]
  · intro n hn
    exact (h.files a).decodes.view hfollowing.plain hfollowing.dir
      ((h.files a).viewable_of_reserved hn) (hreserving.logged_of_reserved hn)

/-- What the view reports it reports again once the logs have grown. -/
theorem view_mono (ha : IsPlain a) (hdir : HasDir store s.files a) (hdir' : HasDir store s'.files a)
    (hgrow : LogsGrow store a s.files s'.files) {view : NullifierView}
    (hview : store.nullifierView a s.files = .ok view) :
    ∃ view', store.nullifierView a s'.files = .ok view' ∧
      ∀ n, view.contains n = true → view'.contains n = true := by
  obtain ⟨es,es',hes,hes',hwal,hspent,rfl⟩ := nullifierView_eq_ok ha hdir hview
  obtain ⟨fs,hfs,hpre⟩ := hgrow.wal es hes
  obtain ⟨fs',hfs',hpre'⟩ := hgrow.spent es' hes'
  have hviewable := hgrow.viewable ⟨hwal,hspent⟩
  refine ⟨_,nullifierView_of_lines ha hdir' hfs hfs' hviewable.wal hviewable.spent,?_⟩
  intro n hn
  rw [NullifierView.contains,Bool.or_eq_true,decide_eq_true_iff,decide_eq_true_iff] at hn ⊢
  rw [List.mem_toFinset,List.mem_toFinset] at hn ⊢
  exact hn.imp (fun hm => (hpre.map _).subset hm) fun hm => (hpre'.map _).subset hm

/-- In a run whose agent ids and nullifiers are plain names and in which no two registrations of an
agent race every registered agent is serialized, and what its view reports once it reports ever after. -/
theorem payments_serialized (hfresh : Fresh store fs) (hsmooth : ∀ act ∈ acts ++ later, act.Smooth M)
    (hsole : (Server.start fs).Along M store maxSize (Server.Unraced store) (acts ++ later))
    (hrun : (Server.start fs).run M store maxSize acts = some s)
    (hlater : s.run M store maxSize later = some s') (a : String) :
    (s.initialOf a = none → s.history a = []) ∧
    ∀ initial, s.initialOf a = some initial → Serialized store s a initial ∧
      ∀ view, store.nullifierView a s.files = .ok view →
        ∃ view', store.nullifierView a s'.files = .ok view' ∧
          ∀ n, view.contains n = true → view'.contains n = true := by
  obtain ⟨hearly,hlate⟩ := hsole.append
  have hinv : IntactInv M store s :=
    intactInv_run hfresh (fun act h => hsmooth act (List.mem_append_left _ h)) hearly hrun
  refine ⟨fun hi => (hinv.server.unregistered hi).history,?_⟩
  intro initial hi
  obtain ⟨hinv',hgrow,hinitial⟩ :=
    hinv.run (fun act h => hsmooth act (List.mem_append_right acts h)) (hlate s hrun) hlater a
  refine ⟨hinv.serialized hi,fun view => ?_⟩
  have hfollowing := hinv.server.following hi
  exact view_mono hfollowing.plain hfollowing.dir (hinv'.server.following (hinitial initial hi)).dir
    hgrow

/-- One payment, its batch and a restart. -/
def sampleActs : List Action :=
  sampleRegister 0 "a" ++
    samplePay 0 11 "a" (samplePayload "0xs0" "0xs1" ["0x01"]) ++
    [.tick ["a"],.work 8 none,.work 8 none,.work 8 (some "rejected"),.restart]

def sampleLater : List Action := samplePay 0 11 "a" (samplePayload "0xs1" "0xs2" ["0x02"])

theorem payments_serialized_sample : ∃ s s',
    (Server.start emptyFiles).run sampleMiden sampleStore 1 sampleActs = some s ∧
    s.run sampleMiden sampleStore 1 sampleLater = some s' ∧ (s'.history "a").length = 2 ∧
    Serialized sampleStore s "a" "0xs0" := by
  obtain ⟨s,hs,hrest⟩ : ∃ s,
      (Server.start emptyFiles).run sampleMiden sampleStore 1 sampleActs = some s ∧
      ((s.run sampleMiden sampleStore 1 sampleLater).map fun s' =>
        (s.initialOf "a",(s'.history "a").length)) = some (some "0xs0",2) :=
    Option.bind_eq_some_iff.mp (by decide +kernel)
  obtain ⟨s',hs',hfacts⟩ := Option.map_eq_some_iff.mp hrest
  obtain ⟨hi,hlen⟩ := Prod.mk.inj hfacts
  refine ⟨s,s',hs,hs',hlen,?_⟩
  exact ((payments_serialized fresh_emptyFiles (by decide +kernel) (by decide +kernel) hs hs' "a").2 "0xs0" hi).1

/-- A payment whose nullifier leads to the pending state. -/
def strayActs : List Action :=
  sampleRegister 0 "a" ++
    samplePay 0 11 "a" (samplePayload "0xs0" "0xs1" ["../pending_state.json"])

/-- The sentinel replaces the pending state. -/
theorem pending_state_overwritten :
    ∃ s, (Server.start emptyFiles).run sampleMiden sampleStore 1 strayActs = some s ∧
    s.initialOf "a" = some "0xs0" ∧ (s.history "a").map Acceptance.seq = [1] ∧
    s.requests.length = 1 ∧ s.request 0 = none ∧
    sampleStore.loadPendingState "a" s.files = .error (.agentNotRegistered "a") ∧
    ¬ Serialized sampleStore s "a" "0xs0" := by
  obtain ⟨s,hs,hfacts⟩ : ∃ s,
      (Server.start emptyFiles).run sampleMiden sampleStore 1 strayActs = some s ∧
      (s.initialOf "a",(s.history "a").map Acceptance.seq,s.requests.length,
        (s.request 0).isSome) = (some "0xs0",[1],1,false) :=
    Option.map_eq_some_iff.mp (by decide +kernel)
  have herror : ((Server.start emptyFiles).run sampleMiden sampleStore 1 strayActs).map
      (fun s => sampleStore.loadPendingState "a" s.files) =
        some (.error (.agentNotRegistered "a")) := by decide +kernel
  rw [hs,Option.map_some,Option.some.injEq] at herror
  simp only [Prod.mk.injEq] at hfacts
  obtain ⟨hi,hseq,hlen,hdone⟩ := hfacts
  have hnone : s.request 0 = none := by
    simpa using hdone
  have hout : ∀ payload p ns now, ¬ s.Inside "a" payload (.advanced p ns now) := by
    rintro payload p ns now ⟨t,m,hm⟩
    have ht := Server.lt_of_request hm
    obtain rfl : t = 0 := by omega
    rw [hnone] at hm
    cases hm
  refine ⟨s,hs,hi,hseq,hlen,hnone,herror,?_⟩
  intro hserialized
  obtain ⟨p,hp,-⟩ := hserialized.pending hout
  rw [herror] at hp
  cases hp

/-- The payments that moved the pending state are numbered one by one, each is built on the one before
it, and the accepted ones are some of them in their order.  Two are built on one state only if the
commitments before the last one repeat; where none repeats, a payload built on the state after `n`
payments is accepted as payment `n + 1` only.  Where no operation fails they are all accepted. -/
theorem payments_chained (hfresh : Fresh store fs) (hids : ∀ act ∈ acts, act.PlainId)
    (hsole : (Server.start fs).Along M store maxSize (Server.Unraced store) acts)
    (hrun : (Server.start fs).run M store maxSize acts = some s)
    (hi : s.initialOf a = some initial) :
    (s.trail a).map Acceptance.seq = List.range' 1 (s.trail a).length ∧
    (s.trail a).map (fun x => x.payload.builtOnStateCommitment) =
      (s.pendingCommitments a initial).dropLast ∧
    (s.history a).Sublist (s.trail a) ∧
    ((s.pendingCommitments a initial).dropLast.Nodup →
      ((s.history a).map fun x => x.payload.builtOnStateCommitment).Nodup) ∧
    ((s.pendingCommitments a initial).Nodup → ∀ x ∈ s.history a, ∀ n : ℕ,
      (s.pendingCommitments a initial)[n]? = some x.payload.builtOnStateCommitment → x.seq = n + 1) ∧
    ((∀ act ∈ acts, act.fails = false) →
      (s.history a).map Acceptance.seq = List.range' 1 (s.history a).length ∧
      (s.history a).map (fun x => x.payload.builtOnStateCommitment) =
        (s.commitments a initial).dropLast ∧
      (((s.history a).map fun x => x.payload.builtOnStateCommitment).Nodup ↔
        (s.commitments a initial).dropLast.Nodup)) := by
  have hfollowing := (runInv_run hfresh hids hsole hrun).following hi
  have hseqs := hfollowing.chained.map_seq
  have hbases := hfollowing.chained.map_base
  rw [Server.chain,List.map_map,List.length_map] at hseqs
  rw [states_chain,Server.chain,List.map_map] at hbases
  refine ⟨hseqs,hbases,hfollowing.accepted,?_,?_,?_⟩
  · intro hnodup
    rw [← hbases] at hnodup
    exact hnodup.sublist (hfollowing.accepted.map _)
  · intro hnodup x hx n hn
    rw [← states_chain] at hnodup hn
    have hmem : x.entry ∈ s.chain a := List.mem_map_of_mem (hfollowing.accepted.subset hx)
    exact hfollowing.chained.seq_of_base hnodup hmem hn
  · intro hfails
    have hserver := serverInv_run hfresh hids hfails hsole hrun
    exact ⟨hserver.seqs a,hserver.bases hi,by rw [hserver.bases hi]⟩

/-- The first payment fails at the sentinel of the empty nullifier, after it moved the pending state. -/
def failingActs : List Action :=
  sampleRegister 0 "a" ++ samplePay 0 9 "a" (samplePayload "0xs0" "0xs1" [""]) ++
    [.requestFails 0 7 7] ++ samplePay 1 10 "a" (samplePayload "0xs1" "0xs2" ["0x02"])

theorem payments_chained_sample : ∃ s,
    (Server.start emptyFiles).run sampleMiden sampleStore 1 failingActs = some s ∧
    (s.history "a").map Acceptance.seq = [2] ∧ (s.trail "a").map Acceptance.seq = [1,2] ∧
    ((s.history "a").map fun x => x.payload.builtOnStateCommitment).Nodup ∧
    ∀ x ∈ s.history "a", ∀ n : ℕ,
      (s.pendingCommitments "a" "0xs0")[n]? = some x.payload.builtOnStateCommitment →
        x.seq = n + 1 := by
  obtain ⟨s,hs,hfacts⟩ : ∃ s, (Server.start emptyFiles).run sampleMiden sampleStore 1
      failingActs = some s ∧ (s.initialOf "a",(s.history "a").map Acceptance.seq,
        (s.trail "a").map Acceptance.seq,s.pendingCommitments "a" "0xs0") =
        (some "0xs0",[2],[1,2],["0xs0","0xs1","0xs2"]) :=
    Option.map_eq_some_iff.mp (by decide +kernel)
  simp only [Prod.mk.injEq] at hfacts
  obtain ⟨hi,hseqs,htrail,hcommitments⟩ := hfacts
  have hnodup : (s.pendingCommitments "a" "0xs0").Nodup := by
    rw [hcommitments]
    decide
  obtain ⟨-,-,-,hbases,hseq,-⟩ :=
    payments_chained fresh_emptyFiles (by decide +kernel) (by decide +kernel) hs hi
  exact ⟨s,hs,hseqs,htrail,hbases (hnodup.sublist (List.dropLast_sublist _)),hseq hnodup⟩

/-- A payment that does not change the state leaves room for another one on the same state. -/
theorem same_base_accepted_twice : ∃ s, (Server.start emptyFiles).run sampleMiden sampleStore 1
    (sampleRegister 0 "a" ++
      samplePay 0 11 "a" (samplePayload "0xs0" "0xs0" ["0x01"]) ++
      samplePay 1 10 "a" (samplePayload "0xs0" "0xs0" ["0x02"])) = some s ∧
    (s.history "a").map (fun x => (x.seq,x.payload.builtOnStateCommitment)) =
      [(1,"0xs0"),(2,"0xs0")] :=
  Option.map_eq_some_iff.mp (by decide +kernel)

/-- In real mode the nullifiers depend on the summary only. -/
theorem payloadNullifiers_of_real {payload payload' : AgenticPayload}
    (hreal : isRealMode payload.txSummary = true) (h : payload.txSummary = payload'.txSummary) :
    payloadNullifiers M payload = payloadNullifiers M payload' := by
  rw [payloadNullifiers,payloadNullifiers,← h,tryDecodeRealSummary,if_pos hreal]
  cases decodeSummary M payload.txSummary <;> rfl

/-- Under one agent id no nullifier is reserved by two payments and no payload is accepted twice,
nor in real mode a transaction summary. -/
theorem payments_disjoint (hids : ∀ act ∈ acts, act.PlainId)
    (hrun : (Server.start fs).run M store maxSize acts = some s) (a : String) :
    (s.history a).Pairwise fun x y => x.nullifiers.Disjoint y.nullifiers ∧ x.payload ≠ y.payload ∧
      (isRealMode x.payload.txSummary = true → x.payload.txSummary ≠ y.payload.txSummary) := by
  have hreserving := (sharedInv_run hids hrun).reserving a
  refine hreserving.disjoint.imp_of_mem ?_
  intro x y hx hy hdisjoint
  have hne : payloadNullifiers M x.payload ≠ payloadNullifiers M y.payload := by
    intro heq
    rw [← (hreserving.claims x hx).derived,← (hreserving.claims y hy).derived] at heq
    rw [← heq] at hdisjoint
    obtain ⟨n,hn⟩ := List.exists_mem_of_ne_nil _ (hreserving.claims x hx).nonempty
    exact hdisjoint hn hn
  refine ⟨hdisjoint,?_,?_⟩
  · intro heq
    rw [heq] at hne
    exact hne rfl
  · intro hreal heq
    exact hne (payloadNullifiers_of_real hreal heq)

theorem payments_disjoint_sample : ∃ s,
    (Server.start emptyFiles).run sampleMiden sampleStore 1 (sampleActs ++ sampleLater) = some s ∧
    (s.history "a").length = 2 ∧
    (s.history "a").Pairwise fun x y => x.nullifiers.Disjoint y.nullifiers ∧ x.payload ≠ y.payload ∧
      (isRealMode x.payload.txSummary = true → x.payload.txSummary ≠ y.payload.txSummary) := by
  obtain ⟨s,hs,hlen⟩ : ∃ s, (Server.start emptyFiles).run sampleMiden sampleStore 1
      (sampleActs ++ sampleLater) = some s ∧ (s.history "a").length = 2 :=
    Option.map_eq_some_iff.mp (by decide +kernel)
  exact ⟨s,hs,hlen,payments_disjoint (by decide +kernel) hs "a"⟩

/-- One account registered under two agent ids: both acknowledge the same signed payload. -/
theorem same_payload_accepted_twice :
    (∃ s, (Server.start emptyFiles).run sampleMiden sampleStore 1
      (sampleRegister 0 "a" ++ sampleRegister 1 "b" ++
        samplePay 0 11 "a" (sampleRealPayload "0xs0" "0xs1") ++
        samplePay 1 11 "b" (sampleRealPayload "0xs0" "0xs1")) = some s ∧
      (s.registered.map fun r => (r.1.agentId,r.1.accountId),
        s.accepted.map fun x => (x.agentId,x.payload,x.nullifiers)) =
        ([("a","0xaccount"),("b","0xaccount")],
          [("a",sampleRealPayload "0xs0" "0xs1",["0xaa"]),
            ("b",sampleRealPayload "0xs0" "0xs1",["0xaa"])])) ∧
    ∀ pending now, ackFor sampleMiden (sampleRealPayload "0xs0" "0xs1") pending ["0xaa"] now =
      .ok ⟨now,"0xs1",["0xaa"],pending.lastAcceptedSeq + 1,"0xack"⟩ :=
  ⟨Option.map_eq_some_iff.mp (by decide +kernel),fun _ _ => rfl⟩

end Results

end MidenX402.Facilitator
