import MidenX402.Facilitator.Numbers
import MidenX402.Facilitator.RecordContents
import Mathlib.Data.Finset.Card
import Mathlib.Data.Finset.Filter
import Mathlib.Data.Finset.Range

/-!
# A waiting payment gets its turn

A round of the worker takes the first payments of the queue.  Payments that come later have larger
numbers, so each complete round brings a waiting payment forward by a full batch.
-/

namespace MidenX402.Facilitator
open Disk KeyedLock

section Listing
variable {store : FilesystemX402Store} {a : String} {fs fs' : Files} {w : Worker} {used : ℕ → Prop}
  {history : List Acceptance} {q : ℕ} {tx : QueuedTx} {queued : List QueuedTx}

theorem readRecords_of_queued (raw : List String) {es : List (String × Node Content)}
    (h : ∀ name c, (name,Node.file c) ∈ es → ∃ tx, c = .queued tx ∧ tx.Readable) :
    ∃ txs, FilesystemX402Store.readRecords raw es = .ok txs := by
  induction es with
  | nil => exact ⟨[],rfl⟩
  | cons e es ih =>
    obtain ⟨txs,htxs⟩ := ih fun name c hmem => h name c (List.mem_cons_of_mem e hmem)
    obtain ⟨name,n⟩ := e
    cases n with
    | dir => exact ⟨txs,htxs⟩
    | file c =>
      obtain ⟨tx,rfl,hread⟩ := h name c List.mem_cons_self
      refine ⟨tx :: txs,?_⟩
      rw [FilesystemX402Store.readRecords,htxs,Content.toQueued_eq_some.mpr ⟨rfl,hread⟩]
      rfl

/-- The queue can be listed as long as every record of it can be read. -/
theorem RecordsInv.listQueued_ok (h : RecordsInv store a fs w used history) (ha : IsPlain a)
    (hread : fs.AllFiles (RecordsBelow store.ReadsBelow)) :
    ∃ queued, store.listQueued a fs = .ok queued := by
  have hfiles : ∀ name c, (name,Node.file c) ∈ fs.entries (store.queuePath a) →
      ∃ tx, c = .queued tx ∧ tx.Readable := by
    intro name c hmem
    have hfile := FileSystem.fileAt_of_node (FileSystem.mem_entries.mp hmem).1
    obtain ⟨-,tx,hc,-⟩ := h.named name c hfile
    refine ⟨tx,hc,hread _ _ hfile tx hc ⟨a,?_⟩⟩
    rw [FilesystemX402Store.queuePath,List.dropLast_concat,List.dropLast_concat]
  obtain ⟨txs,htxs⟩ := readRecords_of_queued (store.queueDir a) hfiles
  rw [FilesystemX402Store.listQueued]
  split
  · exact ⟨[],rfl⟩
  · rename_i d hloc
    obtain rfl := locate_queueDir ha hloc
    split
    · rw [htxs]
      exact ⟨_,rfl⟩
    · exact ⟨[],rfl⟩

theorem RecordsInv.mem_listed (h : RecordsInv store a fs w used history) (ha : IsPlain a)
    (hlist : store.listQueued a fs = .ok queued)
    (hfile : fs.fileAt (store.recordPath a "pending_queue" q) = some (.queued tx)) : tx ∈ queued := by
  rcases listQueued_eq_ok ha hlist with ⟨rfl,hno⟩ | ⟨txs,hrec,rfl⟩
  · exact absurd (h.named _ _ hfile).1 hno
  · have hentry := FileSystem.mem_entries.mpr ⟨FileSystem.node_of_fileAt hfile,isPlain_seqFile q⟩
    obtain ⟨tx',hc,hmem⟩ := (readRecords_eq_ok hrec).1 _ _ hentry
    injection hc with hc
    subst hc
    exact (List.perm_insertionSort _ txs).mem_iff.mpr hmem

theorem RecordsInv.seq_eq (h : RecordsInv store a fs w used history)
    (hfile : fs.fileAt (store.recordPath a "pending_queue" q) = some (.queued tx)) : tx.seq = q := by
  obtain ⟨-,tx',hc,hname⟩ := h.named _ _ hfile
  injection hc with hc
  subst hc
  exact (seqFile_inj hname).symm

/-- Of an increasing list, what is not among the first ones comes after all of them. -/
theorem take_lt {l : List ℕ} {k : ℕ} (hsorted : l.Pairwise (· < ·)) (hmem : q ∈ l)
    (hnot : q ∉ l.take k) : (l.take k).length = k ∧ ∀ n ∈ l.take k, n < q := by
  have hdrop : q ∈ l.drop k := by
    rw [← List.take_append_drop k l] at hmem
    exact (List.mem_append.mp hmem).resolve_left hnot
  refine ⟨?_,?_⟩
  · have hpos := List.length_pos_of_mem hdrop
    rw [List.length_drop] at hpos
    rw [List.length_take]
    omega
  · rw [← List.take_append_drop k l] at hsorted
    exact fun n hn => (List.pairwise_append.mp hsorted).2.2 n hn q hdrop

end Listing

section Accepted
variable {store : FilesystemX402Store} {a : String} {fs fs' : Files} {w : Worker} {used : ℕ → Prop}
  {history : List Acceptance} {n q : ℕ} {tx : QueuedTx} {queued : List QueuedTx}

/-- The record with this number waits in the queue. -/
def acceptedAt (store : FilesystemX402Store) (a : String) (fs : Files) (n : ℕ) : Bool :=
  match fs.fileAt (store.recordPath a "pending_queue" n) with
  | some (.queued tx) => tx.status = .accepted
  | _ => false

theorem acceptedAt_iff : acceptedAt store a fs n = true ↔
    ∃ tx, fs.fileAt (store.recordPath a "pending_queue" n) = some (.queued tx) ∧
      tx.status = .accepted := by
  rw [acceptedAt]
  split
  · rename_i tx hfile
    rw [hfile]
    simp
  · rename_i hnot
    refine ⟨fun h => (Bool.false_ne_true h).elim,?_⟩
    rintro ⟨tx,hfile,-⟩
    exact absurd hfile (hnot tx)

theorem acceptedAt_congr (h : fs'.fileAt (store.recordPath a "pending_queue" n) =
    fs.fileAt (store.recordPath a "pending_queue" n)) :
    acceptedAt store a fs' n = acceptedAt store a fs n := by
  rw [acceptedAt,acceptedAt,h]

theorem Rewritten.acceptedAt (h : Rewritten store a tx fs fs') (n : ℕ) :
    acceptedAt store a fs' n =
      if n = tx.seq then decide (tx.status = .accepted) else acceptedAt store a fs n := by
  split
  · rename_i hn
    rw [hn,Facilitator.acceptedAt,h.self]
  · rename_i hn
    exact acceptedAt_congr (h.others _ _ (Or.inr hn))

/-- The payments that wait up to a number. -/
def waitingUpTo (store : FilesystemX402Store) (a : String) (fs : Files) (q : ℕ) : Finset ℕ :=
  (Finset.range (q + 1)).filter fun n => acceptedAt store a fs n = true

theorem mem_waitingUpTo : n ∈ waitingUpTo store a fs q ↔ n ≤ q ∧ acceptedAt store a fs n = true := by
  rw [waitingUpTo,Finset.mem_filter,Finset.mem_range,Nat.lt_succ_iff]

theorem card_waitingUpTo_mono
    (h : ∀ n ≤ q, acceptedAt store a fs' n = true → acceptedAt store a fs n = true) :
    (waitingUpTo store a fs' q).card ≤ (waitingUpTo store a fs q).card := by
  apply Finset.card_le_card
  intro n hn
  obtain ⟨hle,hacc⟩ := mem_waitingUpTo.mp hn
  exact mem_waitingUpTo.mpr ⟨hle,h n hle hacc⟩

theorem card_waitingUpTo_lt
    (h : ∀ n ≤ q, acceptedAt store a fs' n = true → acceptedAt store a fs n = true) (hn : n ≤ q)
    (hold : acceptedAt store a fs n = true) (hnew : acceptedAt store a fs' n = false) :
    (waitingUpTo store a fs' q).card < (waitingUpTo store a fs q).card := by
  apply Finset.card_lt_card
  refine Finset.ssubset_iff_of_subset ?_ |>.mpr ⟨n,mem_waitingUpTo.mpr ⟨hn,hold⟩,?_⟩
  · intro m hm
    obtain ⟨hle,hacc⟩ := mem_waitingUpTo.mp hm
    exact mem_waitingUpTo.mpr ⟨hle,h m hle hacc⟩
  · intro hmem
    rw [(mem_waitingUpTo.mp hmem).2] at hnew
    cases hnew

/-- Their number can be read off a listing. -/
theorem RecordsInv.card_waitingUpTo_le (h : RecordsInv store a fs w used history) (ha : IsPlain a)
    (hlist : store.listQueued a fs = .ok queued) : (waitingUpTo store a fs q).card ≤
      (queued.filter fun tx => tx.status = .accepted ∧ tx.seq ≤ q).length := by
  have hsub : waitingUpTo store a fs q ⊆
      ((queued.filter fun tx => tx.status = .accepted ∧ tx.seq ≤ q).map QueuedTx.seq).toFinset := by
    intro n hn
    obtain ⟨hle,hacc⟩ := mem_waitingUpTo.mp hn
    obtain ⟨tx,hfile,hstatus⟩ := acceptedAt_iff.mp hacc
    have hseq := h.seq_eq hfile
    rw [List.mem_toFinset,List.mem_map]
    refine ⟨tx,List.mem_filter.mpr ⟨h.mem_listed ha hlist hfile,?_⟩,hseq⟩
    exact decide_eq_true ⟨hstatus,hseq ▸ hle⟩
  calc (waitingUpTo store a fs q).card
      ≤ _ := Finset.card_le_card hsub
    _ ≤ _ := List.toFinset_card_le _
    _ = _ := List.length_map _

end Accepted

section Turn
variable {store : FilesystemX402Store} {maxSize : ℕ} {a b : String} {fs fs' : Files} {w w' : Worker}
  {used : ℕ → Prop} {history : List Acceptance} {q r t ticks : ℕ} {attempts new : List (String × ℕ)}
  {tx : QueuedTx} {todo : List QueuedTx} {rest : List String}

/-- The payments of the agent that are still to be taken up in this round. -/
def Worker.upcoming (a : String) : Worker → List ℕ
  | .batch b todo _ | .proving b _ todo _ | .finishing b _ todo _ | .moving b _ todo _ =>
    if b = a then todo.map QueuedTx.seq else []
  | _ => []

/-- The worker is between rounds, will read the queue in this round, or has read it: then the payment
is in the batch, or a full batch of payments before it is. -/
def Worker.Round (store : FilesystemX402Store) (a : String) (fs : Files) (maxSize q r t : ℕ)
    (w : Worker) : Prop :=
  w = .idle ∨ a ∈ w.unread ∨ q ∈ w.upcoming a ∨ (∀ n ∈ w.upcoming a, n < q) ∧
    (waitingUpTo store a fs q).card + (t + 1) * maxSize ≤ r + (w.upcoming a).length

/-- The payment waits, `r` payments having waited up to it when the first of `t` rounds began. -/
structure Awaiting (store : FilesystemX402Store) (a : String) (fs : Files) (maxSize q r t : ℕ)
    (w : Worker) : Prop where
  accepted : acceptedAt store a fs q = true
  rank : (waitingUpTo store a fs q).card + t * maxSize ≤ r
  round : w.Round store a fs maxSize q r t

inductive Turn (store : FilesystemX402Store) (a : String) (fs : Files) (maxSize q r t : ℕ)
    (w : Worker) (new : List (String × ℕ)) : Prop
  | attempted (hmem : (a,q) ∈ new)
  | proving {tx : QueuedTx} {todo : List QueuedTx} {rest : List String}
      (hw : w = .proving a tx todo rest) (hseq : tx.seq = q) (ht : t * maxSize < r)
  | waiting (h : Awaiting store a fs maxSize q r t w)

theorem Awaiting.lt (h : Awaiting store a fs maxSize q r t w) : t * maxSize < r := by
  have hmem : q ∈ waitingUpTo store a fs q := mem_waitingUpTo.mpr ⟨le_rfl,h.accepted⟩
  have hpos := Finset.card_pos.mpr ⟨q,hmem⟩
  have hrank := h.rank
  omega

/-- After enough rounds the payment has been attempted. -/
theorem Turn.mem (h : Turn store a fs maxSize q r t w new) (hr : r ≤ t * maxSize) : (a,q) ∈ new := by
  cases h with
  | attempted hmem => exact hmem
  | proving _ _ ht => exact absurd hr (Nat.not_le.mpr ht)
  | waiting h => exact absurd hr (Nat.not_le.mpr h.lt)

/-- No payment up to this one is taken up, and the worker goes on with the round. -/
theorem Awaiting.goOn (h : Awaiting store a fs maxSize q r t w)
    (hsame : ∀ n ≤ q, acceptedAt store a fs' n = acceptedAt store a fs n)
    (hidle : w = .idle → w' = .idle) (hunread : a ∈ w.unread → a ∈ w'.unread)
    (hupcoming : w'.upcoming a = w.upcoming a) : Awaiting store a fs' maxSize q r t w' := by
  have hcard : (waitingUpTo store a fs' q).card ≤ (waitingUpTo store a fs q).card :=
    card_waitingUpTo_mono fun n hn hacc => (hsame n hn).symm.trans hacc
  refine ⟨(hsame q le_rfl).trans h.accepted,?_,?_⟩
  · have hrank := h.rank
    omega
  · rw [Worker.Round,hupcoming]
    rcases h.round with hw | hrest | hmem | ⟨hlt,hle⟩
    · exact Or.inl (hidle hw)
    · exact Or.inr (Or.inl (hunread hrest))
    · exact Or.inr (Or.inr (Or.inl hmem))
    · exact Or.inr (Or.inr (Or.inr ⟨hlt,by omega⟩))

theorem upcoming_of_ne (hab : b ≠ a) (todo : List QueuedTx) (rest : List String) :
    (Worker.batch b todo rest).upcoming a = [] := if_neg hab

theorem Awaiting.list {queued : List QueuedTx}
    (h : Awaiting store a fs maxSize q r t (.agents (b :: rest)))
    (hinv : RecordsInv store a fs (.agents (b :: rest)) used history) (hb : IsPlain b)
    (hlist : store.listQueued b fs = .ok queued) :
    Awaiting store a fs maxSize q r t (.batch b (nextBatch maxSize queued) rest) := by
  refine ⟨h.accepted,h.rank,?_⟩
  by_cases hab : b = a
  · subst hab
    have hup : (Worker.batch b (nextBatch maxSize queued) rest).upcoming b =
        ((queued.filter fun tx => tx.status = .accepted).map QueuedTx.seq).take maxSize := by
      rw [Worker.upcoming,if_pos rfl,nextBatch,List.map_take]
    have hsorted : ((queued.filter fun tx => tx.status = .accepted).map QueuedTx.seq).Pairwise
        (· < ·) := (hinv.listed hb hlist).2.sublist (List.filter_sublist.map _)
    have hmem : q ∈ (queued.filter fun tx => tx.status = .accepted).map QueuedTx.seq := by
      obtain ⟨tx,hfile,hstatus⟩ := acceptedAt_iff.mp h.accepted
      refine List.mem_map.mpr ⟨tx,List.mem_filter.mpr ⟨hinv.mem_listed hb hlist hfile,?_⟩,
        hinv.seq_eq hfile⟩
      exact decide_eq_true hstatus
    rw [Worker.Round,hup]
    by_cases hfirst : q ∈ ((queued.filter fun tx => tx.status = .accepted).map QueuedTx.seq).take maxSize
    · exact Or.inr (Or.inr (Or.inl hfirst))
    · obtain ⟨hlen,hlt⟩ := take_lt hsorted hmem hfirst
      have hrank := h.rank
      refine Or.inr (Or.inr (Or.inr ⟨hlt,?_⟩))
      rw [hlen,Nat.add_mul,Nat.one_mul]
      omega
  · rw [Worker.Round,upcoming_of_ne hab]
    rcases h.round with hw | hrest | hmem | hle
    · cases hw
    · exact Or.inr (Or.inl ((List.mem_cons.mp hrest).resolve_left (Ne.symm hab)))
    · cases hmem
    · exact Or.inr (Or.inr (Or.inr hle))

/-- The worker takes up a payment of this agent. -/
theorem Awaiting.prove {now : ℕ} (h : Awaiting store a fs maxSize q r t (.batch a (tx :: todo) rest))
    (hwaiting : Waiting store a fs (tx :: todo))
    (hrw : Rewritten store a (startProving tx now) fs fs') :
    Turn store a fs' maxSize q r t (.proving a (startProving tx now) todo rest) new := by
  by_cases hq : tx.seq = q
  · exact .proving rfl hq h.lt
  have hacc := hrw.acceptedAt
  have hother : ∀ n, n ≠ tx.seq → acceptedAt store a fs' n = acceptedAt store a fs n :=
    fun n hn => (hacc n).trans (if_neg hn)
  have hgone : acceptedAt store a fs' tx.seq = false := (hacc tx.seq).trans (if_pos rfl)
  have hsub : ∀ n ≤ q, acceptedAt store a fs' n = true → acceptedAt store a fs n = true := by
    intro n _ hn
    by_cases hnt : n = tx.seq
    · rw [hnt,hgone] at hn
      cases hn
    · exact (hother n hnt).symm.trans hn
  have hold : acceptedAt store a fs tx.seq = true := acceptedAt_iff.mpr
    ⟨tx,hwaiting.files tx List.mem_cons_self,hwaiting.accepted tx List.mem_cons_self⟩
  have hcard := card_waitingUpTo_mono hsub
  have hrank := h.rank
  refine .waiting ⟨(hother q (Ne.symm hq)).trans h.accepted,by omega,?_⟩
  have hup : (Worker.batch a (tx :: todo) rest).upcoming a = tx.seq :: todo.map QueuedTx.seq := by
    rw [Worker.upcoming,if_pos rfl,List.map_cons]
  have hup' : (Worker.proving a (startProving tx now) todo rest).upcoming a =
      todo.map QueuedTx.seq := if_pos rfl
  have hround := h.round
  rw [Worker.Round,hup] at hround
  rw [Worker.Round,hup']
  rcases hround with hw | hrest | hmem | ⟨hlt,hle⟩
  · cases hw
  · exact Or.inr (Or.inl hrest)
  · exact Or.inr (Or.inr (Or.inl ((List.mem_cons.mp hmem).resolve_left (Ne.symm hq))))
  · have hless := card_waitingUpTo_lt hsub (hlt _ List.mem_cons_self).le hold hgone
    refine Or.inr (Or.inr (Or.inr ⟨fun n hn => hlt n (List.mem_cons_of_mem _ hn),?_⟩))
    rw [List.length_cons] at hle
    omega

theorem acceptedAt_eq_false {old : QueuedTx} {n : ℕ}
    (hfile : fs.fileAt (store.recordPath a "pending_queue" n) = some (.queued old))
    (hstatus : old.status ≠ .accepted) : acceptedAt store a fs n = false := by
  rw [acceptedAt,hfile]
  exact decide_eq_false hstatus

theorem acceptedAt_of_other (hab : b ≠ a) (hframe : Frame (agentFiles store b) fs fs') (n : ℕ) :
    acceptedAt store a fs' n = acceptedAt store a fs n :=
  acceptedAt_congr ((belowKept_of_other (Ne.symm hab) hframe).files _ (seqFile n))

theorem PaymentStatus.Leads.ne_accepted {st : PaymentStatus} (h : PaymentStatus.proving.Leads st) :
    st ≠ .accepted := by
  cases h with
  | refl => decide
  | tail _ hnext =>
    rintro rfl
    cases hnext

/-- Only taking a payment of the agent up changes what waits. -/
theorem RecordsInv.work_acceptedAt (h : RecordsInv store a fs w used history)
    (hnames : ∀ b ∈ w.names, IsPlain b)
    (hwork : WorkMove store maxSize fs w w' fs' attempts ticks)
    (hprove : ∀ tx todo rest, w ≠ .batch a (tx :: todo) rest) (n : ℕ) :
    acceptedAt store a fs' n = acceptedAt store a fs n := by
  cases hwork with
  | @prove b tx todo rest now _ hafter =>
    have hab : b ≠ a := fun he => hprove tx todo rest (he ▸ rfl)
    exact acceptedAt_of_other hab (upsertQueued_frame (hnames _ List.mem_cons_self) hafter) n
  | @finish b tx todo rest _ hafter =>
    have hb := hnames _ List.mem_cons_self
    by_cases hab : b = a
    · subst hab
      obtain ⟨-,⟨old,hproving,hcont,hfile⟩,-⟩ := h.held rfl
      have hrw := upsertQueued_rewrites hb (h.named _ _ hfile).1 hfile hafter
      rw [hrw.acceptedAt]
      split
      · rename_i hn
        have hleads := hcont.status
        rw [hproving] at hleads
        rw [hn,acceptedAt_eq_false hfile (by rw [hproving]; decide)]
        exact decide_eq_false hleads.ne_accepted
      · rfl
    · exact acceptedAt_of_other hab (upsertQueued_frame hb hafter) n
  | @move b seq todo rest _ hafter =>
    have hb := hnames _ List.mem_cons_self
    by_cases hab : b = a
    · subst hab
      obtain ⟨⟨tx,hstatus,hfile⟩,-⟩ := h.held rfl
      obtain ⟨-,hgone⟩ := moveToFailed_spec hb hafter
      by_cases hn : n = seq
      · rw [hn,acceptedAt_eq_false hfile (by rw [hstatus]; decide),acceptedAt,hgone]
      · exact acceptedAt_congr (moveToFailed_others hb hafter (Or.inr hn))
    · exact acceptedAt_of_other hab (moveToFailed_frame hb hafter) n
  | _ => rfl

theorem Turn.work (h : Turn store a fs maxSize q r t w new)
    (hinv : RecordsInv store a fs w used history) (hnames : ∀ b ∈ w.names, IsPlain b)
    (hlisted : acceptedAt store a fs q = true → a ∈ store.listAgents fs)
    (hwork : WorkMove store maxSize fs w w' fs' attempts ticks) :
    Turn store a fs' maxSize q r (t + ticks) w' (new ++ attempts) := by
  cases h with
  | attempted hmem => exact .attempted (List.mem_append_left _ hmem)
  | proving hw hseq ht =>
    subst hw
    cases hwork with
    | attempt =>
      apply Turn.attempted
      rw [← hseq]
      exact List.mem_append_right _ List.mem_cons_self
  | waiting h =>
    -- every step but taking up a payment of the agent leaves what waits as it is
    have hsame := hinv.work_acceptedAt hnames hwork
    cases hwork with
    | tick hperm =>
      refine .waiting ⟨h.accepted,h.rank,Or.inr (Or.inl ?_)⟩
      exact hperm.mem_iff.mpr (hlisted h.accepted)
    | done =>
      rcases h.round with hw | hrest | hmem | ⟨-,hle⟩
      · cases hw
      · cases hrest
      · cases hmem
      · exact .waiting ⟨h.accepted,hle,Or.inl rfl⟩
    | abort => exact .waiting ⟨h.accepted,h.rank,Or.inl rfl⟩
    | list hlist => exact .waiting (h.list hinv (hnames _ List.mem_cons_self) hlist)
    | batchDone =>
      refine .waiting (h.goOn (fun _ _ => rfl) (fun hw => nomatch hw) (fun hr => hr) ?_)
      simp [Worker.upcoming]
    | @prove b tx todo rest now _ hafter =>
      by_cases hab : b = a
      · subst hab
        have hwaiting := hinv.held rfl
        have hfile := hwaiting.files tx List.mem_cons_self
        have hrw : Rewritten store b (startProving tx now) fs _ :=
          upsertQueued_rewrites (hnames _ List.mem_cons_self) (hinv.named _ _ hfile).1 hfile hafter
        exact h.prove hwaiting hrw
      · refine .waiting (h.goOn (fun n _ => hsame ?_ n) (fun hw => nomatch hw) (fun hr => hr) ?_)
        · rintro tx' todo' rest' he
          injection he with hb
          exact hab hb
        · simp [Worker.upcoming,hab]
    | attempt =>
      exact .waiting (h.goOn (fun _ _ => rfl) (fun hw => nomatch hw) (fun hr => hr) rfl)
    | finish _ =>
      refine .waiting (h.goOn (fun n _ => hsame (by simp) n) (fun hw => nomatch hw) ?_ ?_)
      · split <;> exact fun hr => hr
      · split <;> rfl
    | move _ =>
      exact .waiting (h.goOn (fun n _ => hsame (by simp) n) (fun hw => nomatch hw) (fun hr => hr) rfl)

end Turn

section Rounds
variable {M : Miden} {store : FilesystemX402Store} {maxSize : ℕ} {s s' : Server} {act : Action}
  {later : List Action} {a : String} {q r : ℕ}

theorem NumbersInv.mem_listAgents (h : NumbersInv M store s)
    (hacc : acceptedAt store a s.files q = true) : a ∈ store.listAgents s.files := by
  obtain ⟨tx,hfile,-⟩ := acceptedAt_iff.mp hacc
  have hnumbered := (h.records a).numbers _ (by decide) q _ hfile
  exact Facilitator.mem_listAgents hnumbered.plain hnumbered.dir

/-- A new payment has a number of its own. -/
theorem enqueue_acceptedAt {tx : QueuedTx} {fs fs' : Files} (ha : IsPlain a)
    (hns : ∀ n ∈ tx.nullifiers, IsPlain n) (hafter : after (store.enqueue a tx) fs = some fs') {n : ℕ}
    (hn : n ≠ tx.seq) : acceptedAt store a fs' n = acceptedAt store a fs n := by
  obtain ⟨fs1,hw,-,hsentinels⟩ := enqueue_written ha hafter
  have hkept : RecordsKept store a fs1 fs' := recordsKept_of_sentinels
    ((writeSentinels_steps ha hns fun n _ => pair_subset_sentinelFiles n).exec hsentinels).toFrame
  rw [acceptedAt_congr (hkept.record _ (by decide) n),(rewritten_of_written hw).acceptedAt,if_neg hn]

/-- The payment has waited since a state `s` with an idle worker, or has been attempted since. -/
structure TurnInv (M : Miden) (store : FilesystemX402Store) (maxSize : ℕ) (a : String) (q r : ℕ)
    (s s' : Server) : Prop where
  numbers : NumbersInv M store s'
  since : s.ticks ≤ s'.ticks
  turn : ∃ new, s'.attempts = s.attempts ++ new ∧
    Turn store a s'.files maxSize q r (s'.ticks - s.ticks) s'.worker new

theorem TurnInv.move {s0 : Server} (h : TurnInv M store maxSize a q r s0 s)
    (hact : act.Smooth M ∧ act ≠ .restart) (hsole : s.Unraced store act)
    (hmove : Move M store maxSize s act s') : TurnInv M store maxSize a q r s0 s' := by
  have hinv := h.numbers
  have hrecord := hmove.record hinv.plain hinv.names ⟨hact.1.2,hact.2⟩ a
  obtain ⟨new,hnew,hturn⟩ := h.turn
  -- a step that is not the worker's keeps what waits up to the payment
  have hkeep : (∀ n, n ≤ q → acceptedAt store a s.files q = true →
      acceptedAt store a s'.files n = acceptedAt store a s.files n) → s'.worker = s.worker →
      Turn store a s'.files maxSize q r (s.ticks - s0.ticks) s'.worker new := by
    intro hsame hworker
    rw [hworker]
    cases hturn with
    | attempted hmem => exact .attempted hmem
    | proving hw hseq ht => exact .proving hw hseq ht
    | waiting hwait =>
      exact .waiting (hwait.goOn (fun n hn => hsame n hn hwait.accepted) (fun hw => hw)
        (fun hr => hr) rfl)
  refine ⟨hinv.move hact hsole hmove,?_,?_⟩
  · cases hrecord with
    | quiet _ _ _ _ hticks => exact hticks ▸ h.since
    | enqueue _ _ _ _ _ _ hticks => exact hticks ▸ h.since
    | work _ _ _ hticks => exact h.since.trans (hticks ▸ Nat.le_add_right _ _)
  · cases hrecord with
    | quiet hfiles _ hworker hattempts hticks =>
      refine ⟨new,hattempts.trans hnew,?_⟩
      rw [hticks]
      refine hkeep (fun n _ _ => ?_) hworker
      exact acceptedAt_congr (hfiles.files _ (seqFile n))
    | @enqueue payload p ns now ha hinside hafter _ hworker hattempts hticks =>
      refine ⟨new,hattempts.trans hnew,?_⟩
      rw [hticks]
      refine hkeep (fun n hn hacc => ?_) hworker
      obtain ⟨tx,hfile,-⟩ := acceptedAt_iff.mp hacc
      have hle := (hinv.stages a payload _ hinside).2.2 _ (by decide) q _ hfile
      refine enqueue_acceptedAt ha (hinv.names a payload _ hinside) hafter ?_
      exact Nat.ne_of_lt (Nat.lt_succ_of_le (hn.trans hle))
    | @work attempts ticks hwork _ hattempts hticks =>
      refine ⟨new ++ attempts,?_,?_⟩
      · rw [hattempts,hnew,List.append_assoc]
      · rw [hticks,Nat.sub_add_comm h.since]
        exact hturn.work (hinv.records a) hinv.plain.worker hinv.mem_listAgents hwork

/-- A payment that waits while the worker is idle is attempted when the worker has gone round often
enough. -/
theorem NumbersInv.attempted (h : NumbersInv M store s) (hidle : s.worker = .idle)
    (hacc : acceptedAt store a s.files q = true)
    (hacts : ∀ act ∈ later, act.Smooth M ∧ act ≠ .restart)
    (hsole : s.Along M store maxSize (Server.Unraced store) later)
    (hlater : s.run M store maxSize later = some s')
    (hrounds : (waitingUpTo store a s.files q).card ≤ (s'.ticks - s.ticks) * maxSize) :
    ∃ new, s'.attempts = s.attempts ++ new ∧ (a,q) ∈ new := by
  have hstart : TurnInv M store maxSize a q (waitingUpTo store a s.files q).card s s := by
    refine ⟨h,le_rfl,[],(List.append_nil _).symm,.waiting ⟨hacc,?_,Or.inl hidle⟩⟩
    rw [Nat.sub_self,Nat.zero_mul,Nat.add_zero]
  have hinv := run_along (fun hs hact hmove => TurnInv.move hs hact.1 hact.2 hmove) hstart
    ((along_of_forall fun act h _ => hacts act h).and hsole) hlater
  obtain ⟨new,hnew,hturn⟩ := hinv.turn
  exact ⟨new,hnew,hturn.mem hrounds⟩

end Rounds

end MidenX402.Facilitator
