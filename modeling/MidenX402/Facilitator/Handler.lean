import MidenX402.Disk.Directories
import MidenX402.Facilitator.Atomicity
import MidenX402.Facilitator.Frames

/-!
# What the payment handler writes

Agent ids and nullifiers come from outside and lead where they lead.  Of the files of a payment only
the sentinels depend on the nullifiers; what the others hold once the payment is acknowledged follows
as soon as the sentinels stay below the payments directory.
-/

namespace MidenX402.Facilitator
open Disk Rust

section Places
variable (store : FilesystemX402Store) (x : String)

/-- Where the sentinel of a nullifier is put, when its path ends in a name. -/
def FilesystemX402Store.sentinel (n : String) : Option Path := target (join (store.paymentsDir x) n)

/-- Where it is written before it is moved there. -/
def FilesystemX402Store.draft (n : String) : Path := staging (join (store.paymentsDir x) n)

/-- The files in the payments directory and below it. -/
def paymentsArea : Set Path := {p | resolved (store.paymentsDir x) <+: p.dropLast}

/-- The directories that are there, the queue, and the payments directory with those below it. -/
def paymentDirs (fs : Files) : Set Path :=
  {p | fs.isDir p = true ∨ p = resolved (store.queueDir x) ∨ resolved (store.paymentsDir x) <+: p}

end Places

section Stages
variable {M : Miden} {store : FilesystemX402Store} {x : String} {payload : AgenticPayload}
  {now seq : ℕ} {fs fs' : Files} {pending : PendingState} {n : String} {ns : List String}
  {es : List WalEntry}

theorem dropLast_sentinel {p : Path} (h : store.sentinel x n = some p) :
    p.dropLast = (store.draft x n).dropLast := by
  obtain ⟨name,-,rfl⟩ := Option.map_eq_some_iff.mp h
  rw [FilesystemX402Store.draft,staging,List.dropLast_concat,List.dropLast_concat]

theorem sentinel_mem_paymentsArea {p : Path} (hn : store.draft x n ∈ paymentsArea store x)
    (h : store.sentinel x n = some p) : p ∈ paymentsArea store x := by
  rw [paymentsArea,Set.mem_ofPred_eq,dropLast_sentinel h]
  exact hn

theorem agentPlace_notMem_paymentsArea (name : String) :
    agentPlace store x name ∉ paymentsArea store x := by
  intro h
  have hlen := List.IsPrefix.length_le h
  rw [agentPlace,List.dropLast_concat,FilesystemX402Store.paymentsDir,resolved_concat (by decide),
    List.length_append] at hlen
  exact absurd hlen (by simp)

theorem record_notMem_paymentsArea (name : String) :
    resolved (store.queueDir x) ++ [name] ∉ paymentsArea store x := by
  intro h
  rw [paymentsArea,Set.mem_ofPred_eq,List.dropLast_concat,FilesystemX402Store.paymentsDir,
    FilesystemX402Store.queueDir,resolved_concat (by decide),resolved_concat (by decide)] at h
  have he := List.append_cancel_left (h.eq_of_length (by simp))
  exact absurd (List.singleton_inj.mp he) (by decide)

theorem reserveNullifiers_frame :
    (store.reserveNullifiers x es).Steps (Frame {agentPlace store x "nullifiers.wal"}) fs := by
  have hopen : ((openAppend (store.nullifiersWal x)).mapError ioErr).Steps
      (Frame {agentPlace store x "nullifiers.wal"}) fs :=
    (openAppend_steps isPlain_wal (Set.mem_singleton _)).mapError ioErr
  refine hopen.bind fun p fs1 hexec => ?_
  have hopened := Prog.exec_mapError_eq_ok hexec
  obtain ⟨rfl,-⟩ := openAppend_concat isPlain_wal hopened
  exact appendLines_of (openAppend_notDir hopened) fun _ _ => writeFile_steps (Set.mem_singleton _)

theorem advancePendingState_frame {p : PendingState} : (store.advancePendingState x p).Steps
    (Frame (filePair (resolved (store.agentDir x)) "pending_state.json")) fs :=
  atomicWriteJson_frame isPlain_pendingState

theorem writeRecord_frame {c : Content} : (atomicWriteJson (store.queueFile x seq) c).Steps
    (Frame (filePair (resolved (store.queueDir x)) (seqFile seq))) fs :=
  atomicWriteJson_frame (isPlain_seqFile seq)

/-- Wherever the nullifiers lead, only their sentinels and the drafts of these are written. -/
theorem writeSentinels_puts : (store.writeSentinels x seq ns).Steps
    (Puts {p | ∃ n ∈ ns, store.sentinel x n = some p} {p | ∃ n ∈ ns, p = store.draft x n}
      (.lookup seq)) fs := by
  induction ns generalizing fs with
  | nil => exact Prog.steps_pure ()
  | cons n ns ih =>
    rw [FilesystemX402Store.writeSentinels]
    refine Prog.Steps.bind ?_ fun _ fs1 _ => ?_
    · refine Prog.Steps.mapError (atomicWrite_puts.imp fun t ht => ht.mono ?_ ?_) _
      · exact fun p hp => ⟨n,List.mem_cons_self,hp⟩
      · exact fun p hp => ⟨n,List.mem_cons_self,hp⟩
    · refine ih.imp fun t ht => ht.mono ?_ ?_
      · rintro p ⟨m,hm,hp⟩
        exact ⟨m,List.mem_cons_of_mem n hm,hp⟩
      · rintro p ⟨m,hm,hp⟩
        exact ⟨m,List.mem_cons_of_mem n hm,hp⟩

theorem writeSentinels_frame (hns : ∀ n ∈ ns, store.draft x n ∈ paymentsArea store x) :
    (store.writeSentinels x seq ns).Steps (Frame (paymentsArea store x)) fs := by
  refine writeSentinels_puts.imp fun t ht => ht.frame.mono ?_
  rintro p (⟨n,hn,hp⟩ | ⟨n,hn,rfl⟩)
  · exact sentinel_mem_paymentsArea (hns n hn) hp
  · exact hns n hn

/-- Once the sentinels are written their drafts are gone, unless one is where another belongs. -/
theorem writeSentinels_leaves {u : Unit}
    (hapart : ∀ m ∈ ns, ∀ n ∈ ns, store.sentinel x m ≠ some (store.draft x n))
    (h : (store.writeSentinels x seq ns).exec fs = .ok (u,fs')) :
    ∀ n ∈ ns, fs'.fileAt (store.draft x n) = none ∧
      ∃ p, store.sentinel x n = some p ∧ fs'.fileAt p = some (.lookup seq) := by
  induction ns generalizing fs with
  | nil => exact fun n hn => absurd hn List.not_mem_nil
  | cons m ns ih =>
    rw [FilesystemX402Store.writeSentinels] at h
    obtain ⟨_,fs1,hone,hrest⟩ := Prog.exec_bind_eq_ok h
    have hputs := writeSentinels_puts.exec hrest
    have hih := ih (fun k hk n hn => hapart k (List.mem_cons_of_mem m hk) n (List.mem_cons_of_mem m hn))
      hrest
    obtain ⟨hgone,p,hp,hfile⟩ := atomicWrite_leaves (Prog.exec_mapError_eq_ok hone)
    rintro n (_ | ⟨_,hn⟩)
    swap
    · exact hih n hn
    constructor
    · by_cases hdraft : ∃ n ∈ ns, store.draft x m = store.draft x n
      · obtain ⟨n,hn,he⟩ := hdraft
        rw [he]
        exact (hih n hn).1
      · rcases hputs.files _ hdraft with hsame | ⟨⟨n,hn,he⟩,-⟩
        · exact hsame.trans hgone
        · exact absurd he (hapart n (List.mem_cons_of_mem m hn) m List.mem_cons_self)
    · refine ⟨p,hp,?_⟩
      have hdraft : ¬∃ n ∈ ns, p = store.draft x n := by
        rintro ⟨n,hn,rfl⟩
        exact hapart m List.mem_cons_self n (List.mem_cons_of_mem m hn) hp
      rcases hputs.files p hdraft with hsame | ⟨-,hnew⟩
      · exact hsame.trans hfile
      · exact hnew

/-- The ways to the sentinels are there. -/
theorem writeSentinels_ways {u : Unit} (h : (store.writeSentinels x seq ns).exec fs = .ok (u,fs')) :
    ∀ n ∈ ns, ∀ p ∈ walk [] (components (join (store.paymentsDir x) n)).dropLast,
      fs'.isDir p = true := by
  induction ns generalizing fs with
  | nil => exact fun n hn => absurd hn List.not_mem_nil
  | cons m ns ih =>
    rw [FilesystemX402Store.writeSentinels] at h
    obtain ⟨_,fs1,hone,hrest⟩ := Prog.exec_bind_eq_ok h
    rintro n (_ | ⟨_,hn⟩) p hp
    · have hdir := atomicWrite_resolves (Prog.exec_mapError_eq_ok hone)
      exact (writeSentinels_puts.exec hrest).dirs p ((resolveDir_eq_some_iff.mp hdir).2 p hp)
    · exact ih hrest n hn p hp

/-- Each draft was first empty and then half written. -/
theorem writeSentinels_visits {u : Unit} (h : (store.writeSentinels x seq ns).exec fs = .ok (u,fs'))
    (hn : n ∈ ns) :
    (∃ t ∈ (store.writeSentinels x seq ns fs).visited,
      t.fileAt (store.draft x n) = some Contents.empty) ∧
    ∃ t ∈ (store.writeSentinels x seq ns fs).visited,
      t.fileAt (store.draft x n) = some Contents.torn := by
  induction ns generalizing fs with
  | nil => cases hn
  | cons m ns ih =>
    rw [FilesystemX402Store.writeSentinels] at h ⊢
    obtain ⟨_,fs1,hone,hrest⟩ := Prog.exec_bind_eq_ok h
    rcases List.mem_cons.mp hn with rfl | hn
    · obtain ⟨⟨t,ht,hempty⟩,t',ht',htorn⟩ := atomicWrite_visits (Prog.exec_mapError_eq_ok hone)
      exact ⟨⟨t,Prog.mem_visited_bind_left ht,hempty⟩,t',Prog.mem_visited_bind_left ht',htorn⟩
    · obtain ⟨⟨t,ht,hempty⟩,t',ht',htorn⟩ := ih hrest hn
      exact ⟨⟨t,Prog.mem_visited_bind_right hone ht,hempty⟩,
        t',Prog.mem_visited_bind_right hone ht',htorn⟩

/-- A plain nullifier has its sentinel in the payments directory. -/
theorem draft_mem_paymentsArea (hn : IsPlain n) : store.draft x n ∈ paymentsArea store x := by
  rw [FilesystemX402Store.draft,hn.join_eq,staging_concat hn,paymentsArea,Set.mem_ofPred_eq,
    List.dropLast_concat]

/-- The way to a directory of an agent whose own directory is there. -/
theorem walk_subdir {d : Path} (hd : fs.resolveDir [] (components (store.agentDir x)) = some d)
    {sub : String} (hsub : IsPlain sub) {p : Path}
    (hp : p ∈ walk [] (components (store.agentDir x ++ [sub]))) :
    fs.isDir p = true ∨ p = resolved (store.agentDir x ++ [sub]) := by
  rw [walk_concat hsub,List.mem_append,List.mem_singleton] at hp
  rw [resolved_concat hsub]
  exact hp.imp_left ((resolveDir_eq_some_iff.mp hd).2 p)

theorem reserveNullifiers_made {D : Set Path} : (store.reserveNullifiers x es).Steps (MadeIn D) fs := by
  have hopen : ((openAppend (store.nullifiersWal x)).mapError ioErr).Steps (MadeIn D) fs :=
    openAppend_made.mapError ioErr
  refine hopen.bind fun p fs1 hexec => ?_
  exact appendLines_of (openAppend_notDir (Prog.exec_mapError_eq_ok hexec)) fun _ _ _ => writeFile_made

theorem atomicWriteJson_made {raw : List String} {name : String} {c : Content} (hn : IsPlain name)
    {D : Set Path} (hD : ∀ p ∈ walk [] (components raw), p ∈ D) :
    (atomicWriteJson (raw ++ [name]) c).Steps (MadeIn D) fs := by
  refine (atomicWrite_made.imp fun t ht => ht.mono ?_).mapError _
  rw [components_concat hn,List.dropLast_concat]
  exact hD

theorem writeSentinels_made {D : Set Path}
    (hD : ∀ n ∈ ns, ∀ p ∈ walk [] (components (join (store.paymentsDir x) n)).dropLast, p ∈ D) :
    (store.writeSentinels x seq ns).Steps (MadeIn D) fs := by
  induction ns generalizing fs with
  | nil => exact Prog.steps_pure ()
  | cons n ns ih =>
    rw [FilesystemX402Store.writeSentinels]
    refine Prog.Steps.bind ?_ fun _ fs1 _ => ih fun m hm => hD m (List.mem_cons_of_mem n hm)
    exact (atomicWrite_made.imp fun t ht => ht.mono (hD n List.mem_cons_self)).mapError _

/-- The way to the sentinel of a plain nullifier. -/
theorem walk_sentinel {d : Path} (hd : fs.resolveDir [] (components (store.agentDir x)) = some d)
    (hn : IsPlain n) {p : Path}
    (hp : p ∈ walk [] (components (join (store.paymentsDir x) n)).dropLast) :
    p ∈ paymentDirs store x fs := by
  rw [hn.join_eq,components_concat hn,List.dropLast_concat] at hp
  rcases walk_subdir hd (by decide) hp with hold | rfl
  · exact Or.inl hold
  · exact Or.inr (Or.inr List.prefix_rfl)

/-- What the handler does once the nullifiers are reserved. -/
theorem afterReserve_steps {R : Files → Files → Prop} [Std.Refl R] [IsTrans Files R]
    (hadvance : ∀ fs, (store.advancePendingState x (newPending pending payload)).Steps R fs)
    (hrecord : ∀ fs, (atomicWriteJson (store.queueFile x (pending.lastAcceptedSeq + 1))
      (.queued (queuedTx pending payload ns now))).Steps R fs)
    (hsentinels : ∀ fs, (store.writeSentinels x (pending.lastAcceptedSeq + 1) ns).Steps R fs)
    {sign : Files → Except FacilitatorError String} {ack : String → AckResponse} :
    (do store.advancePendingState x (newPending pending payload)
        store.enqueue x (queuedTx pending payload ns now)
        let signature ← Prog.read sign
        return ack signature : StoreOp AckResponse).Steps R fs := by
  refine (hadvance fs).bind fun _ fs1 _ => ?_
  have henqueue : (store.enqueue x (queuedTx pending payload ns now)).Steps R fs1 :=
    (hrecord fs1).bind fun _ fs2 _ => hsentinels fs2
  refine henqueue.bind fun _ fs2 _ => ?_
  exact (Prog.steps_read sign).bind fun _ _ _ => Prog.steps_pure _

/-- What holds of each of the four writes of the handler holds of the handler. -/
theorem postPayment_steps {R : Files → Files → Prop} [Std.Refl R] [IsTrans Files R]
    (haccept : accept M store x payload fs = .ok (pending,ns))
    (hreserve : ∀ fs, (store.reserveNullifiers x (walEntries pending ns now)).Steps R fs)
    (hadvance : ∀ fs, (store.advancePendingState x (newPending pending payload)).Steps R fs)
    (hrecord : ∀ fs, (atomicWriteJson (store.queueFile x (pending.lastAcceptedSeq + 1))
      (.queued (queuedTx pending payload ns now))).Steps R fs)
    (hsentinels : ∀ fs, (store.writeSentinels x (pending.lastAcceptedSeq + 1) ns).Steps R fs) :
    (postPayment M store x payload now).Steps R fs := by
  rw [postPayment]
  refine (Prog.steps_read (accept M store x payload)).bind ?_
  rintro ⟨pending',ns'⟩ fs0 hread
  obtain ⟨haccept',rfl⟩ := Prog.exec_read_eq_ok hread
  obtain ⟨rfl,rfl⟩ := Prod.mk.inj (Except.ok.inj (haccept.symm.trans haccept'))
  exact (hreserve fs).bind fun _ fs1 _ => afterReserve_steps hadvance hrecord hsentinels

/-- The handler makes the queue and the payments directory, or what is below it. -/
theorem postPayment_made (haccept : accept M store x payload fs = .ok (pending,ns))
    (hns : ∀ n ∈ ns, ∀ p ∈ walk [] (components (join (store.paymentsDir x) n)).dropLast,
      p ∈ paymentDirs store x fs) :
    (postPayment M store x payload now).Steps (MadeIn (paymentDirs store x fs)) fs := by
  obtain ⟨_,_,_,hrecord,-⟩ := accept_eq_ok_iff.mp haccept
  obtain ⟨d,hd⟩ := loadAgent_resolves hrecord
  refine postPayment_steps haccept (fun _ => reserveNullifiers_made) (fun _ => ?_) (fun _ => ?_)
    fun _ => writeSentinels_made hns
  · refine atomicWriteJson_made isPlain_pendingState fun p hp => ?_
    exact Or.inl ((resolveDir_eq_some_iff.mp hd).2 p hp)
  · refine atomicWriteJson_made (isPlain_seqFile _) fun p hp => ?_
    exact (walk_subdir hd (by decide) hp).imp_right Or.inl

/-- An acknowledged payment went through its four writes. -/
theorem postPayment_stages {ack : AckResponse}
    (h : (postPayment M store x payload now).exec fs = .ok (ack,fs')) :
    ∃ pending fs1 fs2 fs3, accept M store x payload fs = .ok (pending,ack.reservedNullifiers) ∧
      ack.seq = pending.lastAcceptedSeq + 1 ∧
      (store.reserveNullifiers x (walEntries pending ack.reservedNullifiers now)).exec fs =
        .ok ((),fs1) ∧
      (store.advancePendingState x (newPending pending payload)).exec fs1 = .ok ((),fs2) ∧
      (atomicWriteJson (store.queueFile x (pending.lastAcceptedSeq + 1))
        (.queued (queuedTx pending payload ack.reservedNullifiers now))).exec fs2 = .ok ((),fs3) ∧
      (store.writeSentinels x (pending.lastAcceptedSeq + 1) ack.reservedNullifiers).exec fs3 =
        .ok ((),fs') := by
  obtain ⟨⟨pending,ns⟩,fs0,hread,h⟩ := Prog.exec_bind_eq_ok h
  obtain ⟨haccept,rfl⟩ := Prog.exec_read_eq_ok hread
  obtain ⟨_,fs1,hreserve,h⟩ := Prog.exec_bind_eq_ok h
  obtain ⟨_,fs2,hadvance,h⟩ := Prog.exec_bind_eq_ok h
  obtain ⟨_,fs4,henqueue,h⟩ := Prog.exec_bind_eq_ok h
  obtain ⟨signature,fs5,hsign,h⟩ := Prog.exec_bind_eq_ok h
  obtain ⟨-,rfl⟩ := Prog.exec_read_eq_ok hsign
  obtain ⟨rfl,rfl⟩ := Prod.mk.inj (Except.ok.inj h)
  obtain ⟨_,fs3,hrecord,hsentinels⟩ := Prog.exec_bind_eq_ok henqueue
  exact ⟨pending,fs1,fs2,fs3,haccept,rfl,hreserve,hadvance,hrecord,hsentinels⟩

end Stages

section Acknowledged
variable {M : Miden} {store : FilesystemX402Store} {x : String} {payload : AgenticPayload}
  {now seq : ℕ} {fs fs' : Files} {pending : PendingState} {ns : List String} {es : List WalEntry}

/-- What the files of the agent hold once its payment is acknowledged. -/
structure Stored (store : FilesystemX402Store) (x : String) (payload : AgenticPayload) (now : ℕ)
    (p : PendingState) (ns : List String) (fs fs' : Files) : Prop where
  wal : fs'.fileAt (agentPlace store x "nullifiers.wal") =
    some ((walEntries p ns now).foldl Content.append
      ((fs.fileAt (agentPlace store x "nullifiers.wal")).getD Contents.empty))
  pending : fs'.fileAt (agentPlace store x "pending_state.json") = some (.pending (newPending p payload))
  record : fs'.fileAt (resolved (store.queueDir x) ++ [seqFile (p.lastAcceptedSeq + 1)]) =
    some (.queued (queuedTx p payload ns now))
  pendingTmp : fs'.fileAt (agentPlace store x ("." ++ "pending_state.json" ++ ".tmp")) = none
  recordTmp : fs'.fileAt
    (resolved (store.queueDir x) ++ ["." ++ seqFile (p.lastAcceptedSeq + 1) ++ ".tmp"]) = none
  queueDir : fs'.resolveDir [] (components (store.queueDir x)) = some (resolved (store.queueDir x))
  others : ∀ name, name ∉ ["nullifiers.wal","pending_state.json","." ++ "pending_state.json" ++ ".tmp"] →
    fs'.fileAt (agentPlace store x name) = fs.fileAt (agentPlace store x name)
  dirs : ∀ p, fs.isDir p = true → fs'.isDir p = true

theorem agentPlace_inj {name name' : String} (h : agentPlace store x name = agentPlace store x name') :
    name = name' := List.singleton_inj.mp (List.append_cancel_left h)

theorem agentPlace_ne_record (name name' : String) :
    agentPlace store x name ≠ resolved (store.queueDir x) ++ [name'] := by
  intro h
  have hlen := congrArg List.length h
  rw [FilesystemX402Store.queueDir,resolved_concat (by decide)] at hlen
  simp [agentPlace] at hlen

theorem agentPlace_notMem_recordPair (name file : String) :
    agentPlace store x name ∉ filePair (resolved (store.queueDir x)) file := by
  rintro (h | h)
  · exact agentPlace_ne_record _ _ h
  · exact agentPlace_ne_record _ _ h

theorem stored_of_stages {fs1 fs2 fs3 : Files}
    (hns : ∀ n ∈ ns, store.draft x n ∈ paymentsArea store x)
    (hreserve : (store.reserveNullifiers x (walEntries pending ns now)).exec fs = .ok ((),fs1))
    (hadvance : (store.advancePendingState x (newPending pending payload)).exec fs1 = .ok ((),fs2))
    (hrecord : (atomicWriteJson (store.queueFile x (pending.lastAcceptedSeq + 1))
      (.queued (queuedTx pending payload ns now))).exec fs2 = .ok ((),fs3))
    (hsentinels : (store.writeSentinels x (pending.lastAcceptedSeq + 1) ns).exec fs3 = .ok ((),fs')) :
    Stored store x payload now pending ns fs fs' := by
  have f1 := reserveNullifiers_frame.exec hreserve
  have f2 := advancePendingState_frame.exec hadvance
  have f3 := writeRecord_frame.exec hrecord
  have f4 := (writeSentinels_frame hns).exec hsentinels
  obtain ⟨hpending,-⟩ := atomicWriteJson_concat isPlain_pendingState hadvance
  obtain ⟨hrecord,hdir⟩ := atomicWriteJson_concat (isPlain_seqFile _) hrecord
  refine ⟨?_,?_,?_,?_,?_,resolveDir_mono f4.dirs hdir,?_,
    fun p hp => f4.dirs p (f3.dirs p (f2.dirs p (f1.dirs p hp)))⟩
  · rw [f4.files _ (agentPlace_notMem_paymentsArea _),f3.files _ (agentPlace_notMem_recordPair _ _),
      f2.files]
    · exact (reserveNullifiers_appends hreserve).2
    · rintro (h | h)
      · exact absurd (agentPlace_inj h) (by decide)
      · exact absurd (agentPlace_inj h) (by decide)
  · rw [f4.files _ (agentPlace_notMem_paymentsArea _),f3.files _ (agentPlace_notMem_recordPair _ _)]
    exact hpending.self
  · rw [f4.files _ (record_notMem_paymentsArea _)]
    exact hrecord.self
  · rw [f4.files _ (agentPlace_notMem_paymentsArea _),f3.files _ (agentPlace_notMem_recordPair _ _)]
    exact hpending.tmp
  · rw [f4.files _ (record_notMem_paymentsArea _)]
    exact hrecord.tmp
  · intro name hname
    simp only [List.mem_cons,List.not_mem_nil,or_false,not_or] at hname
    rw [f4.files _ (agentPlace_notMem_paymentsArea _),f3.files _ (agentPlace_notMem_recordPair _ _),
      f2.files,f1.files]
    · exact fun h => hname.1 (agentPlace_inj h)
    · rintro (h | h)
      · exact hname.2.1 (agentPlace_inj h)
      · exact hname.2.2 (agentPlace_inj h)

/-- The files after an acknowledged payment whose sentinels stay below the payments directory. -/
theorem postPayment_stored {ack : AckResponse}
    (hns : ∀ n ∈ ack.reservedNullifiers, store.draft x n ∈ paymentsArea store x)
    (h : (postPayment M store x payload now).exec fs = .ok (ack,fs')) :
    ∃ pending, accept M store x payload fs = .ok (pending,ack.reservedNullifiers) ∧
      ack.seq = pending.lastAcceptedSeq + 1 ∧
      Stored store x payload now pending ack.reservedNullifiers fs fs' := by
  obtain ⟨pending,fs1,fs2,fs3,haccept,hseq,hreserve,hadvance,hrecord,hsentinels⟩ :=
    postPayment_stages h
  exact ⟨pending,haccept,hseq,stored_of_stages hns hreserve hadvance hrecord hsentinels⟩

end Acknowledged

end MidenX402.Facilitator
