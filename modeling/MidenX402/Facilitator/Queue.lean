import MidenX402.Facilitator.Payments

/-!
# The queue of one agent

Payments of an agent are attempted in order, so at any time the first ones have been started and the
rest lie in the queue as accepted.  The listing then yields exactly the rest, unless it fails.
-/

namespace MidenX402.Facilitator
open Disk Rust

section Listing
variable {raw : List String} {es : List (String × Node Content)} {txs : List QueuedTx}

theorem readRecords_cons {name : String} {c : Content}
    (h : FilesystemX402Store.readRecords raw ((name,.file c) :: es) = .ok txs) :
    ∃ tx txs', c.toQueued = some tx ∧ FilesystemX402Store.readRecords raw es = .ok txs' ∧
      txs = tx :: txs' := by
  rw [FilesystemX402Store.readRecords] at h
  split at h
  · cases h
  · rename_i tx htx
    obtain ⟨txs',hrest,hpure⟩ := except_bind_eq_ok h
    exact ⟨tx,txs',htx,hrest,(Except.ok.inj hpure).symm⟩

theorem readRecords_eq_ok (h : FilesystemX402Store.readRecords raw es = .ok txs) :
    (∀ name c, (name,Node.file c) ∈ es → ∃ tx, c = .queued tx ∧ tx ∈ txs) ∧
    ∀ tx ∈ txs, ∃ name, (name,Node.file (.queued tx)) ∈ es ∧ tx.Readable := by
  induction es generalizing txs with
  | nil =>
    obtain rfl := Except.ok.inj h
    exact ⟨fun _ _ hmem => absurd hmem List.not_mem_nil,fun _ hmem => absurd hmem List.not_mem_nil⟩
  | cons e es ih =>
    obtain ⟨name,n⟩ := e
    cases n with
    | dir =>
      obtain ⟨hfile,hrecord⟩ := ih h
      refine ⟨?_,?_⟩
      · intro name' c hmem
        rcases List.mem_cons.mp hmem with heq | hmem
        · cases heq
        · exact hfile name' c hmem
      · intro tx htx
        obtain ⟨name',hmem,hread⟩ := hrecord tx htx
        exact ⟨name',List.mem_cons_of_mem _ hmem,hread⟩
    | file c =>
      obtain ⟨tx,txs',htx,hrest,rfl⟩ := readRecords_cons h
      obtain ⟨rfl,hread⟩ := Content.toQueued_eq_some.mp htx
      obtain ⟨hfile,hrecord⟩ := ih hrest
      refine ⟨?_,?_⟩
      · intro name' c hmem
        rcases List.mem_cons.mp hmem with heq | hmem
        · injection heq with _ hc
          injection hc with hc
          exact ⟨tx,hc,List.mem_cons_self⟩
        · obtain ⟨tx',hc,htx'⟩ := hfile name' c hmem
          exact ⟨tx',hc,List.mem_cons_of_mem _ htx'⟩
      · intro tx' htx'
        rcases List.mem_cons.mp htx' with rfl | htx'
        · exact ⟨name,List.mem_cons_self,hread⟩
        · obtain ⟨name',hmem,hread'⟩ := hrecord tx' htx'
          exact ⟨name',List.mem_cons_of_mem _ hmem,hread'⟩

/-- Records that lie under their own numbers have different numbers. -/
theorem readRecords_nodup (h : FilesystemX402Store.readRecords raw es = .ok txs)
    (hnodup : (es.map Prod.fst).Nodup)
    (hname : ∀ name tx, (name,Node.file (.queued tx)) ∈ es → name = seqFile tx.seq) :
    (txs.map QueuedTx.seq).Nodup := by
  induction es generalizing txs with
  | nil =>
    obtain rfl := Except.ok.inj h
    exact List.nodup_nil
  | cons e es ih =>
    obtain ⟨name,n⟩ := e
    rw [List.map_cons,List.nodup_cons] at hnodup
    have hname' := fun name tx hmem => hname name tx (List.mem_cons_of_mem _ hmem)
    cases n with
    | dir => exact ih h hnodup.2 hname'
    | file c =>
      obtain ⟨tx,txs',htx,hrest,rfl⟩ := readRecords_cons h
      obtain ⟨rfl,-⟩ := Content.toQueued_eq_some.mp htx
      rw [List.map_cons,List.nodup_cons]
      refine ⟨?_,ih hrest hnodup.2 hname'⟩
      intro hmem
      obtain ⟨tx',htx',hseq⟩ := List.mem_map.mp hmem
      obtain ⟨name',hfile,-⟩ := (readRecords_eq_ok hrest).2 tx' htx'
      apply hnodup.1
      rw [hname name tx List.mem_cons_self,← hseq,← hname' name' tx' hfile]
      exact List.mem_map.mpr ⟨_,hfile,rfl⟩

/-- Numbers in order, without repetition and from `k + 1` to `n`. -/
theorem eq_range'_of_sorted {qs : List ℕ} {k n : ℕ} (hsorted : qs.Pairwise (· ≤ ·))
    (hnodup : qs.Nodup) (hmem : ∀ q, q ∈ qs ↔ k < q ∧ q ≤ n) : qs = List.range' (k + 1) (n - k) := by
  have hperm : qs.Perm (List.range' (k + 1) (n - k)) := by
    apply (List.perm_ext_iff_of_nodup hnodup List.nodup_range').mpr
    intro q
    rw [hmem,List.mem_range'_1]
    omega
  exact hperm.eq_of_pairwise (fun _ _ _ _ => Nat.le_antisymm) hsorted List.pairwise_le_range'

end Listing

section Invariant
variable {store : FilesystemX402Store} {a : String} {fs fs' : Files} {w : Worker} {k n : ℕ}

def FilesystemX402Store.queuePath (store : FilesystemX402Store) (a : String) : Path :=
  store.agentPath a ++ ["pending_queue"]

/-- The next payments of a batch when `k` are done. -/
structure Upcoming (k n : ℕ) (todo : List QueuedTx) : Prop where
  seqs : todo.map QueuedTx.seq = List.range' (k + 1) todo.length
  bound : k + todo.length ≤ n

/-- What the worker holds of the agent when `k` payments have been attempted. -/
def Worker.Batching (a : String) (k n : ℕ) : Worker → Prop
  | .batch b todo _ => b = a → Upcoming k n todo
  | .proving b tx todo _ =>
    b = a → tx.seq = k + 1 ∧ tx.status ≠ .accepted ∧ Upcoming (k + 1) n todo
  | .finishing b tx todo _ =>
    b = a → tx.seq = k ∧ 1 ≤ k ∧ tx.status ≠ .accepted ∧ Upcoming k n todo
  | .moving b seq todo _ => b = a → seq = k ∧ Upcoming k n todo
  | _ => True

/-- How many payments of the agent have been taken up. -/
def Worker.started (a : String) (k : ℕ) : Worker → ℕ
  | .proving b _ _ _ => if b = a then k + 1 else k
  | _ => k

/-- `k` of `n` accepted payments have been attempted.  A record in the queue lies under its number and
is marked accepted exactly when it has not been taken up; those not taken up are still there. -/
structure QueueInv (store : FilesystemX402Store) (a : String) (fs : Files) (w : Worker) (k n : ℕ) :
    Prop where
  batching : w.Batching a k n
  bound : w.started a k ≤ n
  records : ∀ name tx, fs.fileAt (store.queuePath a ++ [name]) = some (.queued tx) →
    name = seqFile tx.seq ∧ 1 ≤ tx.seq ∧ tx.seq ≤ n ∧ (tx.status = .accepted ↔ w.started a k < tx.seq)
  present : ∀ q, w.started a k < q → q ≤ n →
    (fs.fileAt (store.queuePath a ++ [seqFile q])).isSome = true

/-- The queue directory is there. -/
def HasQueue (store : FilesystemX402Store) (fs : Files) (a : String) : Prop :=
  fs.resolveDir [] (store.queuePath a) = some (store.queuePath a)

theorem queued_unique {p : Path} {tx tx' : QueuedTx} (h : fs.fileAt p = some (.queued tx))
    (h' : fs.fileAt p = some (.queued tx')) : tx = tx' := by
  rw [h] at h'
  injection h' with h'
  injection h'

theorem locate_queueDir (ha : IsPlain a) {d : Path} (h : fs.locate (store.queueDir a) = some d) :
    d = store.queuePath a := by
  rw [FilesystemX402Store.queueDir,agentDir_eq ha,locate_concat (by decide),
    components_of_plain (plain_agentPath ha)] at h
  obtain ⟨d',hd',rfl⟩ := Option.map_eq_some_iff.mp h
  rw [resolveDir_of_plain (plain_agentPath ha) hd']
  rfl

theorem HasQueue.locate (h : HasQueue store fs a) (ha : IsPlain a) :
    fs.locate (store.queueDir a) = some (store.queuePath a) ∧
      fs.isDir (store.queuePath a) = true := by
  have hsplit := h
  rw [HasQueue,FilesystemX402Store.queuePath,resolveDir_append] at hsplit
  obtain ⟨d,hd,hlast⟩ := Option.bind_eq_some_iff.mp hsplit
  obtain rfl := resolveDir_of_plain (plain_agentPath ha) hd
  rw [FileSystem.resolveDir,if_neg (by decide)] at hlast
  constructor
  · rw [FilesystemX402Store.queueDir,agentDir_eq ha,locate_concat (by decide),
      components_of_plain (plain_agentPath ha),hd]
    rfl
  · split at hlast
    · assumption
    · cases hlast

theorem listQueued_eq_ok (ha : IsPlain a) {queued : List QueuedTx}
    (h : store.listQueued a fs = .ok queued) : (queued = [] ∧ ¬ HasQueue store fs a) ∨
      ∃ txs, FilesystemX402Store.readRecords (store.queueDir a) (fs.entries (store.queuePath a)) = .ok txs ∧
        queued = txs.insertionSort fun x y => x.seq ≤ y.seq := by
  rw [FilesystemX402Store.listQueued] at h
  split at h
  · rename_i hloc
    refine Or.inl ⟨(Except.ok.inj h).symm,?_⟩
    intro hq
    rw [(hq.locate ha).1] at hloc
    cases hloc
  · rename_i d hloc
    obtain rfl := locate_queueDir ha hloc
    split at h
    · cases hrec : FilesystemX402Store.readRecords (store.queueDir a) (fs.entries (store.queuePath a)) with
      | error e =>
        rw [hrec] at h
        cases h
      | ok txs =>
        rw [hrec] at h
        exact Or.inr ⟨txs,rfl,(Except.ok.inj h).symm⟩
    · rename_i hnot
      refine Or.inl ⟨(Except.ok.inj h).symm,?_⟩
      exact fun hq => hnot (hq.locate ha).2

/-- Where nothing is being proved, the accepted records of a listing are those not yet attempted. -/
theorem QueueInv.accepted_seqs (h : QueueInv store a fs w k n) (ha : IsPlain a)
    (hw : w.started a k = k) (hdir : 0 < n → HasQueue store fs a) {queued : List QueuedTx}
    (hlist : store.listQueued a fs = .ok queued) :
    (queued.filter fun tx => tx.status = .accepted).map QueuedTx.seq =
      List.range' (k + 1) (n - k) := by
  rcases listQueued_eq_ok ha hlist with ⟨rfl,hno⟩ | ⟨txs,hrec,rfl⟩
  · have hn : n = 0 := by
      by_contra hne
      exact hno (hdir (Nat.pos_of_ne_zero hne))
    rw [hn,Nat.zero_sub]
    rfl
  obtain ⟨hfile,hrecord⟩ := readRecords_eq_ok hrec
  have hrecords : ∀ name tx, (name,Node.file (.queued tx)) ∈ fs.entries (store.queuePath a) →
      name = seqFile tx.seq ∧ 1 ≤ tx.seq ∧ tx.seq ≤ n ∧ (tx.status = .accepted ↔ k < tx.seq) := by
    intro name tx hmem
    have hspec := h.records name tx (FileSystem.fileAt_of_node (FileSystem.mem_entries.mp hmem).1)
    rw [hw] at hspec
    exact hspec
  have hnodup := readRecords_nodup hrec (FileSystem.nodup_entries _ _)
    fun name tx hmem => (hrecords name tx hmem).1
  have hperm := List.perm_insertionSort (fun x y : QueuedTx => x.seq ≤ y.seq) txs
  apply eq_range'_of_sorted
  · rw [List.pairwise_map]
    exact (pairwise_seq_insertionSort txs).filter _
  · exact ((hperm.map _).nodup_iff.mpr hnodup).sublist (List.filter_sublist.map _)
  · intro q
    rw [List.mem_map]
    constructor
    · rintro ⟨tx,htx,rfl⟩
      obtain ⟨hmem,hacc⟩ := List.mem_filter.mp htx
      obtain ⟨name,hname,-⟩ := hrecord tx (hperm.mem_iff.mp hmem)
      obtain ⟨-,-,hle,hiff⟩ := hrecords name tx hname
      exact ⟨hiff.mp (of_decide_eq_true hacc),hle⟩
    · rintro ⟨hk,hn⟩
      have hpresent := h.present q (by rw [hw]; exact hk) hn
      obtain ⟨c,hc⟩ := Option.isSome_iff_exists.mp hpresent
      have hentry := FileSystem.mem_entries.mpr ⟨FileSystem.node_of_fileAt hc,isPlain_seqFile q⟩
      obtain ⟨tx,rfl,htx⟩ := hfile (seqFile q) c hentry
      obtain ⟨hseq,-,-,hiff⟩ := hrecords _ tx hentry
      obtain rfl := seqFile_inj hseq
      exact ⟨tx,List.mem_filter.mpr ⟨hperm.mem_iff.mpr htx,decide_eq_true (hiff.mpr hk)⟩,rfl⟩

theorem QueueInv.nextBatch_seqs (h : QueueInv store a fs w k n) (ha : IsPlain a)
    (hw : w.started a k = k) (hdir : 0 < n → HasQueue store fs a) {queued : List QueuedTx}
    (hlist : store.listQueued a fs = .ok queued) (maxSize : ℕ) :
    (nextBatch maxSize queued).map QueuedTx.seq = List.range' (k + 1) (min maxSize (n - k)) := by
  rw [nextBatch,List.map_take,h.accepted_seqs ha hw hdir hlist]
  rcases Nat.le_total maxSize (n - k) with hle | hle
  · rw [List.take_range'_of_length_ge hle,Nat.min_eq_left hle]
  · rw [List.take_range'_of_length_le hle,Nat.min_eq_right hle]

end Invariant

end MidenX402.Facilitator
