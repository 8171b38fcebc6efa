import MidenX402.Facilitator.Handler
import MidenX402.Facilitator.Payments

/-!
# Agents are kept apart

The layout gives each agent a directory named after it and each nullifier a file named after it.
Agent ids and nullifiers are joined to paths without a check; where they lead decides whether a payment
touches nothing but the files of its own agent.
-/

namespace MidenX402.Facilitator
open Disk KeyedLock Rust

section Layout

/-- The files that belong to the agent whose directory this is: those in it, its records, and those
below its payments directory. -/
def layout (home : Path) : Set Path :=
  {p | (∃ name, p = home ++ [name]) ∨ (∃ sub ∈ recordDirs, ∃ name, p = home ++ [sub,name]) ∨
    home ++ ["payments"] <+: p.dropLast}

/-- The two directories differ, and neither is a directory of records of the other or lies in the
payments directory of the other. -/
def Separate (D E : Path) : Prop :=
  D ≠ E ∧ (∀ sub ∈ recordDirs, D ≠ E ++ [sub] ∧ E ≠ D ++ [sub]) ∧
    ¬E ++ ["payments"] <+: D ∧ ¬D ++ ["payments"] <+: E

instance (D E : Path) : Decidable (Separate D E) :=
  inferInstanceAs (Decidable (_ ∧ _ ∧ _ ∧ _))

variable {D E p : Path}

theorem Separate.symm (h : Separate D E) : Separate E D :=
  ⟨h.1.symm,fun sub hsub => (h.2.1 sub hsub).symm,h.2.2.2,h.2.2.1⟩

theorem exists_of_mem_layout (h : p ∈ layout D) : ∃ rest, rest ≠ [] ∧ p = D ++ rest := by
  rcases h with ⟨name,rfl⟩ | ⟨sub,-,name,rfl⟩ | hbelow
  · exact ⟨[name],by simp,rfl⟩
  · exact ⟨[sub,name],by simp,rfl⟩
  · obtain ⟨rest,hrest⟩ := hbelow
    have hp : p ≠ [] := by
      rintro rfl
      simp at hrest
    have hlast := (List.dropLast_append_getLast hp).symm
    rw [← hrest,List.append_assoc,List.append_assoc] at hlast
    exact ⟨["payments"] ++ (rest ++ [p.getLast hp]),by simp,hlast⟩

/-- A directory below that of an agent that could hold one of its files. -/
theorem not_mem_both (h : Separate D E) {rest : Path} (hE : E = D ++ rest) (hp : p ∈ layout D)
    (hp' : p ∈ layout E) : False := by
  obtain ⟨tail,htail,rfl⟩ := exists_of_mem_layout hp'
  subst hE
  cases rest with
  | nil => exact h.1 (List.append_nil D).symm
  | cons s rest =>
    rw [List.append_assoc] at hp
    rcases hp with ⟨name,he⟩ | ⟨sub,hsub,name,he⟩ | hbelow
    · have hlen := congrArg List.length (List.append_cancel_left he)
      simp only [List.length_append,List.length_cons,List.length_nil] at hlen
      have := List.length_pos_iff.mpr htail
      omega
    · have he := List.append_cancel_left he
      rw [List.cons_append] at he
      obtain ⟨rfl,he⟩ := List.cons.inj he
      have hrest : rest = [] := by
        have hlen := congrArg List.length he
        simp only [List.length_append,List.length_cons,List.length_nil] at hlen
        have := List.length_pos_iff.mpr htail
        exact List.eq_nil_of_length_eq_zero (by omega)
      subst hrest
      exact (h.2.1 s hsub).2 rfl
    · rw [List.dropLast_append_of_ne_nil (by simp),List.prefix_append_right_inj] at hbelow
      rw [List.cons_append,List.dropLast_cons_of_ne_nil (by simp [htail]),List.cons_prefix_cons] at hbelow
      apply h.2.2.2
      rw [List.prefix_append_right_inj,hbelow.1]
      exact List.cons_prefix_cons.mpr ⟨rfl,List.nil_prefix⟩

/-- Two agents share no file exactly when neither directory is in the way of the other. -/
theorem layout_inter_eq_empty_iff : layout D ∩ layout E = ∅ ↔ Separate D E := by
  constructor
  · intro h
    have hno : ∀ p, p ∈ layout D → p ∈ layout E → False := fun p hp hp' =>
      Set.eq_empty_iff_forall_notMem.mp h p ⟨hp,hp'⟩
    have hfile : ∀ D : Path, D ++ ["agent.json"] ∈ layout D := fun D => Or.inl ⟨_,rfl⟩
    have hsub : ∀ D : Path, ∀ sub ∈ recordDirs, D ++ [sub] ++ ["agent.json"] ∈ layout D := by
      intro D sub hsub
      rw [List.append_assoc]
      exact Or.inr (Or.inl ⟨sub,hsub,_,rfl⟩)
    have hbelow : ∀ D E : Path, D ++ ["payments"] <+: E → E ++ ["agent.json"] ∈ layout D := by
      intro D E hpre
      right
      right
      rw [List.dropLast_concat]
      exact hpre
    refine ⟨?_,fun sub hmem => ⟨?_,?_⟩,fun hpre => hno _ (hfile D) (hbelow E D hpre),
      fun hpre => hno _ (hbelow D E hpre) (hfile E)⟩
    · rintro rfl
      exact hno _ (hfile D) (hfile D)
    · rintro rfl
      exact hno _ (hfile _) (hsub E sub hmem)
    · rintro rfl
      exact hno _ (hsub D sub hmem) (hfile _)
  · intro h
    refine Set.eq_empty_iff_forall_notMem.mpr ?_
    rintro p ⟨hp,hp'⟩
    obtain ⟨rest,-,he⟩ := exists_of_mem_layout hp
    obtain ⟨rest',-,he'⟩ := exists_of_mem_layout hp'
    rcases List.prefix_or_prefix_of_prefix ⟨rest,he.symm⟩ ⟨rest',he'.symm⟩ with ⟨t,ht⟩ | ⟨t,ht⟩
    · exact not_mem_both h ht.symm hp hp'
    · exact not_mem_both h.symm ht.symm hp' hp

end Layout

section Property
variable (M : Miden) (store : FilesystemX402Store)

/-- The files a payment creates, replaces or appends to. -/
def paymentFiles (x : String) (seq : ℕ) (ns : List String) : Set Path :=
  {p | p = agentPlace store x "nullifiers.wal" ∨ p = agentPlace store x "pending_state.json" ∨
    p = resolved (store.queueDir x) ++ [seqFile seq] ∨
    p ∈ paymentsArea store x ∧ ∃ n ∈ ns, store.sentinel x n = some p}

/-- The temporary files of a payment; in the payments directory they are new files. -/
def paymentTemporaries (x : String) (seq : ℕ) (fs : Files) : Set Path :=
  {p | p = agentPlace store x ("." ++ "pending_state.json" ++ ".tmp") ∨
    p = resolved (store.queueDir x) ++ ["." ++ seqFile seq ++ ".tmp"] ∨
    p ∈ paymentsArea store x ∧ fs.fileAt p = none}

/-- Handling a payment for `x` stays with the files of `x`, seen from another agent `y`.  At every
point only files of the payment differ from before, a sentinel is as before or complete, and no
directory is made but the queue, the payments directory and ones below it.  In the end no temporary
file is left and everything is in its place, and the log has only been appended to. -/
structure Isolated (x y : String) (payload : AgenticPayload) (now : ℕ) (fs : Files) : Prop where
  touched : ∀ t ∈ (postPayment M store x payload now fs).visited, ∀ p, t.fileAt p ≠ fs.fileAt p →
    ∃ pending ns, accept M store x payload fs = .ok (pending,ns) ∧
      p ∈ paymentFiles store x (pending.lastAcceptedSeq + 1) ns ∪
        paymentTemporaries store x (pending.lastAcceptedSeq + 1) fs
  replaced : ∀ t ∈ (postPayment M store x payload now fs).visited, ∀ pending ns,
    accept M store x payload fs = .ok (pending,ns) → ∀ n ∈ ns, ∀ p, store.sentinel x n = some p →
      t.fileAt p = fs.fileAt p ∨ t.fileAt p = some (.lookup (pending.lastAcceptedSeq + 1))
  made : ∀ t ∈ (postPayment M store x payload now fs).visited, ∀ p, t.isDir p = true →
    p ∈ paymentDirs store x fs
  complete : ∀ ack fs', (postPayment M store x payload now).exec fs = .ok (ack,fs') →
    ∀ p c, p ∉ paymentFiles store x ack.seq ack.reservedNullifiers →
      fs'.fileAt p = some c → fs.fileAt p = some c
  placed : ∀ ack fs', (postPayment M store x payload now).exec fs = .ok (ack,fs') → ∃ pending,
    Stored store x payload now pending ack.reservedNullifiers fs fs' ∧
    ∀ n ∈ ack.reservedNullifiers, ∃ p ∈ paymentsArea store x, store.sentinel x n = some p ∧
      fs'.fileAt p = some (.lookup ack.seq)
  kept : ∀ t ∈ (postPayment M store x payload now fs).visited, ∀ name ∈ ["agent.json","mandate.json"],
    t.fileAt (agentPlace store x name) = fs.fileAt (agentPlace store x name)
  log : ∀ es, fs.fileAt (agentPlace store x "nullifiers.wal") = some (.lines es) →
    ∃ es', ((postPayment M store x payload now fs).last fs).fileAt
      (agentPlace store x "nullifiers.wal") = some (.lines es') ∧ es <+: es'
  others : ∀ t ∈ (postPayment M store x payload now fs).visited,
    ∀ p ∈ layout (resolved (store.agentDir y)), t.fileAt p = fs.fileAt p
  apart : layout (resolved (store.agentDir x)) ∩ layout (resolved (store.agentDir y)) = ∅

/-- The sentinels of the nullifiers lie below the payments directory, on ways that are there or lead
through it, and where they are written beforehand there is neither a file nor another of them. -/
structure ClearSentinels (x : String) (ns : List String) (fs : Files) : Prop where
  inside : ∀ n ∈ ns, store.draft x n ∈ paymentsArea store x
  way : ∀ n ∈ ns, ∀ p ∈ walk [] (components (join (store.paymentsDir x) n)).dropLast,
    p ∈ paymentDirs store x fs
  unused : ∀ n ∈ ns, fs.fileAt (store.draft x n) = none
  apart : ∀ m ∈ ns, ∀ n ∈ ns, store.sentinel x m ≠ some (store.draft x n)

/-- The directories of the two agents are not in the way of each other, and neither are the sentinels of
the payment, unless the checks refuse it. -/
def Contained (x y : String) (payload : AgenticPayload) (fs : Files) : Prop :=
  Separate (resolved (store.agentDir x)) (resolved (store.agentDir y)) ∧
    ((∃ r, accept M store x payload fs = .ok r) →
      ClearSentinels store x (payloadNullifiers M payload) fs)

end Property

section Frames
variable {M : Miden} {store : FilesystemX402Store} {x y : String} {payload : AgenticPayload}
  {now seq : ℕ} {fs fs' : Files} {pending : PendingState} {ns : List String} {name : String} {p : Path}

theorem accept_nullifiers (h : accept M store x payload fs = .ok (pending,ns)) :
    ns = payloadNullifiers M payload := by
  obtain ⟨_,_,_,-,-,-,hcheck,-⟩ := accept_eq_ok_iff.mp h
  exact checkPayload_nullifiers hcheck

theorem Contained.clear (h : Contained M store x y payload fs)
    (haccept : accept M store x payload fs = .ok (pending,ns)) : ClearSentinels store x ns fs := by
  rw [accept_nullifiers haccept]
  exact h.2 ⟨_,haccept⟩

/-- A payment that the checks refuse goes through no state. -/
theorem visited_of_mem {t : Files} (ht : t ∈ (postPayment M store x payload now fs).visited) :
    ∃ pending ns, accept M store x payload fs = .ok (pending,ns) := by
  cases haccept : accept M store x payload fs with
  | error e =>
    have hrun : postPayment M store x payload now fs = ⟨[],.error e⟩ :=
      Prog.run_read_bind_of_error haccept
    rw [hrun] at ht
    cases ht
  | ok r => exact ⟨r.1,r.2,rfl⟩

theorem postPayment_frame (haccept : accept M store x payload fs = .ok (pending,ns))
    (hclear : ClearSentinels store x ns fs) : (postPayment M store x payload now).Steps
      (Frame (paymentFiles store x (pending.lastAcceptedSeq + 1) ns ∪
        paymentTemporaries store x (pending.lastAcceptedSeq + 1) fs)) fs := by
  refine postPayment_steps haccept (fun _ => reserveNullifiers_frame.imp fun _ ht => ht.mono ?_)
    (fun _ => advancePendingState_frame.imp fun _ ht => ht.mono ?_)
    (fun _ => writeRecord_frame.imp fun _ ht => ht.mono ?_)
    fun _ => writeSentinels_puts.imp fun _ ht => ht.frame.mono ?_
  · rintro p rfl
    exact Or.inl (Or.inl rfl)
  · rintro p (rfl | rfl)
    · exact Or.inl (Or.inr (Or.inl rfl))
    · exact Or.inr (Or.inl rfl)
  · rintro p (rfl | rfl)
    · exact Or.inl (Or.inr (Or.inr (Or.inl rfl)))
    · exact Or.inr (Or.inr (Or.inl rfl))
  · rintro p (⟨n,hn,hp⟩ | ⟨n,hn,rfl⟩)
    · exact Or.inl (Or.inr (Or.inr (Or.inr
        ⟨sentinel_mem_paymentsArea (hclear.inside n hn) hp,n,hn,hp⟩)))
    · exact Or.inr (Or.inr (Or.inr ⟨hclear.inside n hn,hclear.unused n hn⟩))

/-- A file outside of the payments directory is not written with the sentinels. -/
theorem replaced_of_notMem {S : Set Path} {c : Content} {t : Files} (h : Frame S fs t)
    (hS : ∀ q ∈ S, q ∉ paymentsArea store x) (hp : p ∈ paymentsArea store x) : Replaced p c fs t :=
  replaced_of_frame h fun hmem => hS p hmem hp

theorem postPayment_replaced (haccept : accept M store x payload fs = .ok (pending,ns))
    (hclear : ClearSentinels store x ns fs) {n : String} (hn : n ∈ ns)
    (hp : store.sentinel x n = some p) : (postPayment M store x payload now).Steps
      (Replaced p (.lookup (pending.lastAcceptedSeq + 1))) fs := by
  have harea := sentinel_mem_paymentsArea (hclear.inside n hn) hp
  refine postPayment_steps haccept
    (fun _ => reserveNullifiers_frame.imp fun _ ht => replaced_of_notMem ht ?_ harea)
    (fun _ => advancePendingState_frame.imp fun _ ht => replaced_of_notMem ht ?_ harea)
    (fun _ => writeRecord_frame.imp fun _ ht => replaced_of_notMem ht ?_ harea)
    fun _ => writeSentinels_puts.imp fun _ ht => ?_
  · rintro q rfl
    exact agentPlace_notMem_paymentsArea _
  · rintro q (rfl | rfl)
    · exact agentPlace_notMem_paymentsArea _
    · exact agentPlace_notMem_paymentsArea _
  · rintro q (rfl | rfl)
    · exact record_notMem_paymentsArea _
    · exact record_notMem_paymentsArea _
  · refine (ht.files p ?_).imp_right And.right
    rintro ⟨m,hm,rfl⟩
    exact hclear.apart n hn m hm hp

/-- All that a payment writes belongs to its agent. -/
theorem payment_subset_layout :
    paymentFiles store x seq ns ∪ paymentTemporaries store x seq fs ⊆
      layout (resolved (store.agentDir x)) := by
  have hqueue : ∀ name, resolved (store.queueDir x) ++ [name] ∈ layout (resolved (store.agentDir x)) := by
    intro name
    rw [FilesystemX402Store.queueDir,resolved_concat (by decide),List.append_assoc]
    exact Or.inr (Or.inl ⟨"pending_queue",by decide,name,rfl⟩)
  have harea : ∀ p ∈ paymentsArea store x, p ∈ layout (resolved (store.agentDir x)) := by
    intro p hp
    rw [paymentsArea,FilesystemX402Store.paymentsDir,resolved_concat (by decide)] at hp
    exact Or.inr (Or.inr hp)
  rintro p ((rfl | rfl | rfl | ⟨hp,-⟩) | (rfl | rfl | ⟨hp,-⟩))
  · exact Or.inl ⟨_,rfl⟩
  · exact Or.inl ⟨_,rfl⟩
  · exact hqueue _
  · exact harea p hp
  · exact Or.inl ⟨_,rfl⟩
  · exact hqueue _
  · exact harea p hp

/-- The registration of the agent is none of the files of a payment. -/
theorem registration_notMem (hname : name ∈ ["agent.json","mandate.json"]) :
    agentPlace store x name ∉
      paymentFiles store x seq ns ∪ paymentTemporaries store x seq fs := by
  have hall : ∀ name ∈ ["agent.json","mandate.json"], name ≠ "nullifiers.wal" ∧
      name ≠ "pending_state.json" ∧ name ≠ "." ++ "pending_state.json" ++ ".tmp" := by decide
  obtain ⟨hwal,hpending,htmp⟩ := hall name hname
  rintro ((h | h | h | ⟨h,-⟩) | (h | h | ⟨h,-⟩))
  · exact hwal (agentPlace_inj h)
  · exact hpending (agentPlace_inj h)
  · exact agentPlace_ne_record _ _ h
  · exact agentPlace_notMem_paymentsArea _ h
  · exact htmp (agentPlace_inj h)
  · exact agentPlace_ne_record _ _ h
  · exact agentPlace_notMem_paymentsArea _ h

end Frames

section Characterization
variable {M : Miden} {store : FilesystemX402Store} {x y : String} {payload : AgenticPayload}
  {now : ℕ} {fs fs' : Files} {pending : PendingState} {ns : List String} {ack : AckResponse}
  {es : List WalEntry}

/-- What is written for an acknowledged payment, with its temporary files gone. -/
theorem ClearSentinels.complete (hclear : ClearSentinels store x ack.reservedNullifiers fs)
    (h : (postPayment M store x payload now).exec fs = .ok (ack,fs')) {p : Path} {c : Content}
    (hp : p ∉ paymentFiles store x ack.seq ack.reservedNullifiers) (hc : fs'.fileAt p = some c) :
    fs.fileAt p = some c := by
  obtain ⟨pending,fs1,fs2,fs3,-,hseq,hreserve,hadvance,hrecord,hsentinels⟩ := postPayment_stages h
  have hstored := stored_of_stages hclear.inside hreserve hadvance hrecord hsentinels
  rw [hseq] at hp
  have hdraft : ¬∃ n ∈ ack.reservedNullifiers, p = store.draft x n := by
    rintro ⟨n,hn,rfl⟩
    rw [(writeSentinels_leaves hclear.apart hsentinels n hn).1] at hc
    cases hc
  have hpending : p ∉ filePair (resolved (store.agentDir x)) "pending_state.json" := by
    rintro (rfl | rfl)
    · exact hp (Or.inr (Or.inl rfl))
    · exact absurd (hc.symm.trans hstored.pendingTmp) (Option.some_ne_none c)
  have hqueued : p ∉ filePair (resolved (store.queueDir x)) (seqFile (pending.lastAcceptedSeq + 1)) := by
    rintro (rfl | rfl)
    · exact hp (Or.inr (Or.inr (Or.inl rfl)))
    · exact absurd (hc.symm.trans hstored.recordTmp) (Option.some_ne_none c)
  rcases (writeSentinels_puts.exec hsentinels).files p hdraft with hsame | ⟨⟨n,hn,hsentinel⟩,-⟩
  · rw [← (reserveNullifiers_frame.exec hreserve).files p fun he => hp (Or.inl he),
      ← (advancePendingState_frame.exec hadvance).files p hpending,
      ← (writeRecord_frame.exec hrecord).files p hqueued,← hsame]
    exact hc
  · exact absurd (Or.inr (Or.inr (Or.inr
      ⟨sentinel_mem_paymentsArea (hclear.inside n hn) hsentinel,n,hn,hsentinel⟩))) hp

theorem ClearSentinels.placed (hclear : ClearSentinels store x ack.reservedNullifiers fs)
    (h : (postPayment M store x payload now).exec fs = .ok (ack,fs')) : ∃ pending,
      Stored store x payload now pending ack.reservedNullifiers fs fs' ∧
      ∀ n ∈ ack.reservedNullifiers, ∃ p ∈ paymentsArea store x, store.sentinel x n = some p ∧
        fs'.fileAt p = some (.lookup ack.seq) := by
  obtain ⟨pending,fs1,fs2,fs3,-,hseq,hreserve,hadvance,hrecord,hsentinels⟩ := postPayment_stages h
  refine ⟨pending,stored_of_stages hclear.inside hreserve hadvance hrecord hsentinels,?_⟩
  intro n hn
  obtain ⟨p,hp,hfile⟩ := (writeSentinels_leaves hclear.apart hsentinels n hn).2
  rw [hseq]
  exact ⟨p,sentinel_mem_paymentsArea (hclear.inside n hn) hp,hp,hfile⟩

theorem exec_appendLines {p : Path} (new : List WalEntry) (hfile : fs.fileAt p = some (.lines es)) :
    ∃ fs', (appendLines p new).exec fs = .ok ((),fs') ∧ fs'.fileAt p = some (.lines (es ++ new)) := by
  induction new generalizing fs es with
  | nil =>
    refine ⟨fs,Prog.exec_pure () fs,?_⟩
    rw [List.append_nil]
    exact hfile
  | cons e new ih =>
    have hself : ((fs.set p (some (.file .torn))).set p
        (some (.file (.lines (es ++ [e]))))).fileAt p = some (.lines (es ++ [e])) :=
      (FileSystem.fileAt_set ..).trans (if_pos rfl)
    obtain ⟨fs',hexec,hlast⟩ := ih hself
    refine ⟨fs',?_,?_⟩
    · rw [appendLines,Prog.exec_bind,exec_appendLine e hfile]
      exact hexec
    · rw [hlast,List.append_assoc,List.singleton_append]

/-- Where the log is there, reserving succeeds and appends to it. -/
theorem exec_reserveNullifiers (new : List WalEntry)
    (hdir : fs.resolveDir [] (components (store.agentDir x)) = some (resolved (store.agentDir x)))
    (hlog : fs.fileAt (agentPlace store x "nullifiers.wal") = some (.lines es)) :
    ∃ fs', (store.reserveNullifiers x new).exec fs = .ok ((),fs') ∧
      fs'.fileAt (agentPlace store x "nullifiers.wal") = some (.lines (es ++ new)) := by
  have hlocate : fs.locate (store.nullifiersWal x) = some (agentPlace store x "nullifiers.wal") := by
    rw [FilesystemX402Store.nullifiersWal,locate_concat isPlain_wal,hdir]
    rfl
  have hnot : fs.isDir (agentPlace store x "nullifiers.wal") = false := by
    rw [← Bool.not_eq_true]
    intro hisdir
    have hne : agentPlace store x "nullifiers.wal" ≠ [] := by simp [agentPlace]
    rw [FileSystem.fileAt_eq_none_of_isDir hne hisdir] at hlog
    cases hlog
  have hends : FileSystem.endsPlain (store.nullifiersWal x) = true := endsPlain_concat isPlain_wal
  have hopen : ((openAppend (store.nullifiersWal x)).mapError ioErr).exec fs =
      .ok (agentPlace store x "nullifiers.wal",fs) := by
    rw [Prog.exec_mapError]
    simp only [Prog.exec,openAppend,hlocate,hnot,hends,hlog]
    rfl
  obtain ⟨fs',hexec,hfile⟩ := exec_appendLines new hlog
  refine ⟨fs',?_,hfile⟩
  rw [FilesystemX402Store.reserveNullifiers,Prog.exec_bind,hopen]
  exact hexec

theorem ClearSentinels.log (haccept : accept M store x payload fs = .ok (pending,ns))
    (hclear : ClearSentinels store x ns fs)
    (hlog : fs.fileAt (agentPlace store x "nullifiers.wal") = some (.lines es)) :
    ∃ es', ((postPayment M store x payload now fs).last fs).fileAt
      (agentPlace store x "nullifiers.wal") = some (.lines es') ∧ es <+: es' := by
  obtain ⟨_,_,_,hrecord,-⟩ := accept_eq_ok_iff.mp haccept
  obtain ⟨d,hd⟩ := loadAgent_resolves hrecord
  obtain rfl : d = resolved (store.agentDir x) := resolveDir_eq_normalize hd
  obtain ⟨fs1,hreserve,hfile⟩ := exec_reserveNullifiers (walEntries pending ns now) hd hlog
  have hread : (Prog.read (accept M store x payload)).exec fs = .ok ((pending,ns),fs) := by
    rw [Prog.exec_read,haccept]
    rfl
  refine ⟨es ++ walEntries pending ns now,?_,List.prefix_append ..⟩
  rw [postPayment,Prog.last_bind_of_ok hread]
  dsimp only
  rw [Prog.last_bind_of_ok hreserve]
  -- nothing after the reservation writes to the log
  have hadvance : ∀ fs, (store.advancePendingState x (newPending pending payload)).Steps
      (Frame {p | p ≠ agentPlace store x "nullifiers.wal"}) fs := by
    refine fun _ => advancePendingState_frame.imp fun _ ht => ht.mono ?_
    rintro p (rfl | rfl) he
    · exact absurd (agentPlace_inj he) (by decide)
    · exact absurd (agentPlace_inj he) (by decide)
  have hrecord : ∀ fs, (atomicWriteJson (store.queueFile x (pending.lastAcceptedSeq + 1))
      (.queued (queuedTx pending payload ns now))).Steps
        (Frame {p | p ≠ agentPlace store x "nullifiers.wal"}) fs := by
    refine fun _ => writeRecord_frame.imp fun _ ht => ht.mono ?_
    rintro p (rfl | rfl) he
    · exact agentPlace_ne_record _ _ he.symm
    · exact agentPlace_ne_record _ _ he.symm
  have hsentinels : ∀ fs, (store.writeSentinels x (pending.lastAcceptedSeq + 1) ns).Steps
      (Frame {p | p ≠ agentPlace store x "nullifiers.wal"}) fs := by
    refine fun _ => (writeSentinels_frame hclear.inside).imp fun _ ht => ht.mono ?_
    rintro p hp rfl
    exact agentPlace_notMem_paymentsArea _ hp
  refine (Frame.files (Prog.Steps.last (afterReserve_steps hadvance hrecord hsentinels)) _ ?_).trans
    hfile
  exact fun hp => hp rfl

/-- Under the condition the payment stays with the files of its agent. -/
theorem Contained.isolated (h : Contained M store x y payload fs) :
    Isolated M store x y payload now fs := by
  have hapart := layout_inter_eq_empty_iff.mpr h.1
  have htouched : ∀ t ∈ (postPayment M store x payload now fs).visited, ∀ p,
      t.fileAt p ≠ fs.fileAt p → ∃ pending ns, accept M store x payload fs = .ok (pending,ns) ∧
        p ∈ paymentFiles store x (pending.lastAcceptedSeq + 1) ns ∪
          paymentTemporaries store x (pending.lastAcceptedSeq + 1) fs := by
    intro t ht p hp
    obtain ⟨pending,ns,haccept⟩ := visited_of_mem ht
    refine ⟨pending,ns,haccept,?_⟩
    by_contra hnot
    exact hp ((postPayment_frame haccept (h.clear haccept) t ht).files p hnot)
  have hacked : ∀ ack fs', (postPayment M store x payload now).exec fs = .ok (ack,fs') →
      ClearSentinels store x ack.reservedNullifiers fs := by
    intro ack fs' hexec
    obtain ⟨pending,_,_,_,haccept,-⟩ := postPayment_stages hexec
    exact h.clear haccept
  refine ⟨htouched,?_,?_,fun ack fs' hexec p c => (hacked ack fs' hexec).complete hexec,
    fun ack fs' hexec => (hacked ack fs' hexec).placed hexec,?_,?_,?_,hapart⟩
  · intro t ht pending ns haccept n hn p hp
    exact postPayment_replaced haccept (h.clear haccept) hn hp t ht
  · intro t ht p hp
    obtain ⟨pending,ns,haccept⟩ := visited_of_mem ht
    rcases postPayment_made haccept (h.clear haccept).way t ht p hp with hold | hmem
    · exact Or.inl hold
    · exact hmem
  · intro t ht name hname
    by_contra hne
    obtain ⟨pending,ns,-,hmem⟩ := htouched t ht _ hne
    exact registration_notMem hname hmem
  · intro es hlog
    cases haccept : accept M store x payload fs with
    | error e =>
      have hrun : postPayment M store x payload now fs = ⟨[],.error e⟩ :=
        Prog.run_read_bind_of_error haccept
      rw [hrun]
      exact ⟨es,hlog,List.prefix_rfl⟩
    | ok r => exact (h.clear haccept).log haccept hlog
  · intro t ht p hp
    by_contra hne
    obtain ⟨pending,ns,-,hmem⟩ := htouched t ht _ hne
    exact Set.eq_empty_iff_forall_notMem.mp hapart p ⟨payment_subset_layout hmem,hp⟩

/-- The states of the last stage are states of the payment. -/
theorem sentinels_visited {fs1 fs2 fs3 : Files} {u v w : Unit}
    (haccept : accept M store x payload fs = .ok (pending,ns))
    (hreserve : (store.reserveNullifiers x (walEntries pending ns now)).exec fs = .ok (u,fs1))
    (hadvance : (store.advancePendingState x (newPending pending payload)).exec fs1 = .ok (v,fs2))
    (hrecord : (atomicWriteJson (store.queueFile x (pending.lastAcceptedSeq + 1))
      (.queued (queuedTx pending payload ns now))).exec fs2 = .ok (w,fs3)) :
    ∀ t ∈ (store.writeSentinels x (pending.lastAcceptedSeq + 1) ns fs3).visited,
      t ∈ (postPayment M store x payload now fs).visited := by
  intro t ht
  have hread : (Prog.read (accept M store x payload)).exec fs = .ok ((pending,ns),fs) := by
    rw [Prog.exec_read,haccept]
    rfl
  apply Prog.mem_visited_bind_right hread
  apply Prog.mem_visited_bind_right hreserve
  apply Prog.mem_visited_bind_right hadvance
  exact Prog.mem_visited_bind_left (Prog.mem_visited_bind_right hrecord ht)

/-- A draft is first empty and then half written, so it does not stay as it was. -/
theorem exists_draft_changed {seq : ℕ} {n : String} {u : Unit} {fs3 : Files}
    (hsentinels : (store.writeSentinels x seq ns).exec fs3 = .ok (u,fs')) (hn : n ∈ ns) :
    ∃ t ∈ (store.writeSentinels x seq ns fs3).visited,
      t.fileAt (store.draft x n) ≠ fs.fileAt (store.draft x n) := by
  obtain ⟨⟨t,ht,hempty⟩,t',ht',htorn⟩ := writeSentinels_visits hsentinels hn
  by_cases hold : t.fileAt (store.draft x n) = fs.fileAt (store.draft x n)
  · refine ⟨t',ht',?_⟩
    rw [← hold,hempty,htorn]
    simp [Contents.empty,Contents.torn]
  · exact ⟨t,ht,hold⟩

/-- An acknowledged payment that stays with the files of its agent has its sentinels clear. -/
theorem Isolated.clear (h : Isolated M store x y payload now fs)
    (hexec : (postPayment M store x payload now).exec fs = .ok (ack,fs')) :
    ClearSentinels store x ack.reservedNullifiers fs := by
  obtain ⟨pending,fs1,fs2,fs3,haccept,hseq,hreserve,hadvance,hrecord,hsentinels⟩ :=
    postPayment_stages hexec
  have hvisited := sentinels_visited haccept hreserve hadvance hrecord
  -- a draft is first empty and then half written, so it is neither an old file nor a sentinel
  have happart : ∀ m ∈ ack.reservedNullifiers, ∀ n ∈ ack.reservedNullifiers,
      store.sentinel x m ≠ some (store.draft x n) := by
    intro m hm n hn he
    obtain ⟨⟨t,ht,hempty⟩,t',ht',htorn⟩ := writeSentinels_visits hsentinels hn
    have hfirst := h.replaced t (hvisited t ht) pending _ haccept m hm _ he
    have hsecond := h.replaced t' (hvisited t' ht') pending _ haccept m hm _ he
    rw [hempty] at hfirst
    rw [htorn] at hsecond
    rcases hfirst with hold | hnew
    · rcases hsecond with hold' | hnew
      · exact absurd (hold.trans hold'.symm) (by simp [Contents.empty,Contents.torn])
      · exact absurd hnew (by simp [Contents.torn])
    · exact absurd hnew (by simp [Contents.empty])
  have hinside : ∀ n ∈ ack.reservedNullifiers, store.draft x n ∈ paymentsArea store x := by
    intro n hn
    obtain ⟨_,-,hplaced⟩ := h.placed ack fs' hexec
    obtain ⟨p,hp,hsentinel,-⟩ := hplaced n hn
    rw [paymentsArea,Set.mem_ofPred_eq,← dropLast_sentinel hsentinel]
    exact hp
  refine ⟨hinside,?_,?_,happart⟩
  · intro n hn p hp
    obtain ⟨⟨t,ht,-⟩,-⟩ := writeSentinels_visits hsentinels hn
    exact h.made fs' (Prog.last_mem hexec (hvisited t ht)) p (writeSentinels_ways hsentinels n hn p hp)
  · intro n hn
    by_contra hfile
    obtain ⟨t,ht,hne⟩ := exists_draft_changed hsentinels hn
    obtain ⟨pending',ns',haccept',hmem⟩ := h.touched t (hvisited t ht) _ hne
    obtain ⟨rfl,rfl⟩ := Prod.mk.inj (Except.ok.inj (haccept.symm.trans haccept'))
    have harea := hinside n hn
    rcases hmem with (he | he | he | ⟨-,m,hm,he⟩) | (he | he | ⟨-,he⟩)
    · exact agentPlace_notMem_paymentsArea _ (he ▸ harea)
    · exact agentPlace_notMem_paymentsArea _ (he ▸ harea)
    · exact record_notMem_paymentsArea _ (he ▸ harea)
    · exact happart m hm n hn he
    · exact agentPlace_notMem_paymentsArea _ (he ▸ harea)
    · exact record_notMem_paymentsArea _ (he ▸ harea)
    · exact hfile he

end Characterization

section Mutex
variable {M : Miden} {store : FilesystemX402Store} {maxSize : ℕ} {s : Server}

/-- Requests that hold a mutex and share a file are the same request. -/
def OneInside (store : FilesystemX402Store) (s : Server) : Prop :=
  ∀ t t' r r' m m' σ σ', s.request t = some r → r.phase = .inside m σ →
    s.request t' = some r' → r'.phase = .inside m' σ' →
    (layout (resolved (store.agentDir r.agentId)) ∩
      layout (resolved (store.agentDir r'.agentId))).Nonempty → t = t'

/-- The agent a payment arrives for. -/
def Action.payer : Action → Option String
  | .arrive a _ => some a
  | _ => none

/-- Different agents that payments arrive for have directories out of each other's way. -/
def SeparatePayers (store : FilesystemX402Store) (acts : List Action) : Prop :=
  ∀ a ∈ acts.filterMap Action.payer, ∀ b ∈ acts.filterMap Action.payer, a ≠ b →
    Separate (resolved (store.agentDir a)) (resolved (store.agentDir b))

theorem exists_inside {r : Request} (h : r.isInside = true) : ∃ m σ, r.phase = .inside m σ := by
  rw [Request.isInside] at h
  split at h
  · exact ⟨_,_,‹_›⟩
  · cases h

theorem run_oneInside {fs : Files} {acts : List Action} (hacts : SeparatePayers store acts)
    (hrun : (Server.start fs).run M store maxSize acts = some s) : OneInside store s := by
  have hinv : LockInv s ∧ ∀ t r, s.request t = some r → r.agentId ∈ acts.filterMap Action.payer := by
    refine run_invariant
      (P := fun s => LockInv s ∧ ∀ t r, s.request t = some r → r.agentId ∈ acts.filterMap Action.payer)
      (Q := fun act => act ∈ acts) ?_ ?_ (fun _ h => h) hrun
    · intro s s' act h hact hmove
      refine ⟨h.1.move hmove,hmove.requests_all
        (P := fun a _ => a ∈ acts.filterMap Action.payer) h.2 ?_⟩
      rintro a payload rfl
      exact List.mem_filterMap.mpr ⟨_,hact,rfl⟩
    · refine ⟨lockInv_of_empty rfl rfl,?_⟩
      intro t r hr
      cases hr
  intro t t' r r' m m' σ σ' hr hp hr' hp' hshared
  have ha : r.agentId = r'.agentId := by
    by_contra hne
    exact hshared.ne_empty (layout_inter_eq_empty_iff.mpr
      (hacts _ (hinv.2 t r hr) _ (hinv.2 t' r' hr') hne))
  exact hinv.1.exclusive hr hp hr' hp' ha

/-- A payment leaves every other agent alone when the directories of the two agents and the sentinels
of the payment are out of the way; for a payment that is refused by the checks or acknowledged, only
then.  And while payments arrive for such agents only, no two requests that share a file hold a mutex at
once. -/
theorem payment_isolated_iff (M : Miden) (store : FilesystemX402Store) (x y : String)
    (payload : AgenticPayload) (now maxSize : ℕ) (fs : Files) :
    (Contained M store x y payload fs → Isolated M store x y payload now fs) ∧
      ((∀ r, accept M store x payload fs ≠ .ok r) ∨
          (∃ ack, (postPayment M store x payload now fs).result = .ok ack) →
        (Isolated M store x y payload now fs ↔ Contained M store x y payload fs)) ∧
      ∀ acts s, SeparatePayers store acts →
        (Server.start fs).run M store maxSize acts = some s → OneInside store s := by
  refine ⟨Contained.isolated,fun hanswer => ⟨fun h => ?_,Contained.isolated⟩,
    fun acts s hacts hrun => run_oneInside hacts hrun⟩
  refine ⟨layout_inter_eq_empty_iff.mp h.apart,?_⟩
  rintro ⟨⟨pending,ns⟩,haccept⟩
  rcases hanswer with hrefused | ⟨ack,hack⟩
  · exact absurd haccept (hrefused _)
  · have hexec := (Prog.exec_eq_ok_iff _ fs _ _).mpr ⟨hack,rfl⟩
    obtain ⟨_,_,_,_,haccept',-⟩ := postPayment_stages hexec
    rw [← accept_nullifiers haccept']
    exact h.clear hexec

theorem payment_isolated_neighbours :
    Isolated sampleMiden sampleStore "a" "b" (samplePayload "0xs0" "0xs1" ["0x01"]) 7 neighbours ∧
      (postPayment sampleMiden sampleStore "a" (samplePayload "0xs0" "0xs1" ["0x01"]) 7
        neighbours).result = .ok ⟨7,"0xs1",["0x01"],1,"0xack"⟩ := by
  have hdir : neighbours.resolveDir [] (components (sampleStore.agentDir "a")) =
      some ["data","agents","a"] := by decide +kernel
  have hone : payloadNullifiers sampleMiden (samplePayload "0xs0" "0xs1" ["0x01"]) = ["0x01"] := by
    decide
  have hclear : ClearSentinels sampleStore "a" ["0x01"] neighbours := by
    refine ⟨?_,?_,by decide +kernel,by decide +kernel⟩
    · exact List.forall_mem_singleton.mpr (draft_mem_paymentsArea (by decide))
    · exact List.forall_mem_singleton.mpr fun _ hp => walk_sentinel hdir (by decide) hp
  have hcontained : Contained sampleMiden sampleStore "a" "b"
      (samplePayload "0xs0" "0xs1" ["0x01"]) neighbours :=
    ⟨by decide +kernel,fun _ => hone ▸ hclear⟩
  exact ⟨(payment_isolated_iff sampleMiden sampleStore "a" "b" (samplePayload "0xs0" "0xs1" ["0x01"])
    7 1 neighbours).1 hcontained,by decide +kernel⟩

/-- A nullifier leads from the sentinels of one agent to the registration of another, which the
sentinel replaces; a sentinel is written beforehand where an earlier one is, which is then gone; and two
ids lead to one directory, with a mutex each. -/
theorem payment_not_isolated :
    (let payload := samplePayload "0xs0" "0xs1" ["../../b/agent.json"]
     (postPayment sampleMiden sampleStore "a" payload 7 neighbours).result =
        .ok ⟨7,"0xs1",["../../b/agent.json"],1,"0xack"⟩ ∧
      (sampleStore.loadAgent "b" neighbours).isOk ∧
      ¬ (sampleStore.loadAgent "b"
        ((postPayment sampleMiden sampleStore "a" payload 7 neighbours).last neighbours)).isOk ∧
      ¬ Isolated sampleMiden sampleStore "a" "b" payload 7 neighbours) ∧
    (let paid := (postPayment sampleMiden sampleStore "a" (samplePayload "0xs0" "0xs1" [".x.tmp"]) 7
        neighbours).last neighbours
     let run := postPayment sampleMiden sampleStore "a" (samplePayload "0xs1" "0xs2" ["x"]) 8 paid
     run.result = .ok ⟨8,"0xs2",["x"],2,"0xack"⟩ ∧
      (sampleStore.lookupPayment "a" ".x.tmp" paid).isOk ∧
      ¬ (sampleStore.lookupPayment "a" ".x.tmp" (run.last paid)).isOk) ∧
    resolved (sampleStore.agentFile "a") = resolved (sampleStore.agentFile "./a") ∧
    ∃ s, (Server.start registeredFiles).run sampleMiden sampleStore 1
        (samplePay 0 3 "a" (samplePayload "0xs0" "0xs1" ["0x01"]) ++
          samplePay 1 3 "./a" (samplePayload "0xs0" "0xs2" ["0x02"])) = some s ∧
      ¬ OneInside sampleStore s := by
  refine ⟨?_,⟨by decide +kernel,by decide +kernel,by decide +kernel⟩,by decide +kernel,?_⟩
  · intro payload
    have hack : (postPayment sampleMiden sampleStore "a" payload 7 neighbours).result =
        .ok ⟨7,"0xs1",["../../b/agent.json"],1,"0xack"⟩ := by decide +kernel
    refine ⟨hack,by decide +kernel,by decide +kernel,?_⟩
    intro h
    have hclear := h.clear ((Prog.exec_eq_ok_iff _ neighbours _ _).mpr ⟨hack,rfl⟩)
    have hpre : resolved (sampleStore.paymentsDir "a") <+:
        (sampleStore.draft "a" "../../b/agent.json").dropLast :=
      hclear.inside _ List.mem_cons_self
    exact absurd hpre (by decide +kernel)
  · obtain ⟨s,hs,hpair⟩ : ∃ s, (Server.start registeredFiles).run sampleMiden sampleStore 1
        (samplePay 0 3 "a" (samplePayload "0xs0" "0xs1" ["0x01"]) ++
          samplePay 1 3 "./a" (samplePayload "0xs0" "0xs2" ["0x02"])) = some s ∧
        ((s.request 0).map fun r => (r.agentId,r.isInside),
          (s.request 1).map fun r => (r.agentId,r.isInside)) = (some ("a",true),some ("./a",true)) :=
      Option.map_eq_some_iff.mp (by decide +kernel)
    refine ⟨s,hs,?_⟩
    obtain ⟨h0,h1⟩ := Prod.mk.inj hpair
    obtain ⟨r,hr,hfacts⟩ := Option.map_eq_some_iff.mp h0
    obtain ⟨r',hr',hfacts'⟩ := Option.map_eq_some_iff.mp h1
    simp only [Prod.mk.injEq] at hfacts hfacts'
    obtain ⟨m,σ,hp⟩ := exists_inside hfacts.2
    obtain ⟨m',σ',hp'⟩ := exists_inside hfacts'.2
    intro hone
    have hshared : (layout (resolved (sampleStore.agentDir r.agentId)) ∩
        layout (resolved (sampleStore.agentDir r'.agentId))).Nonempty := by
      rw [Set.nonempty_iff_ne_empty,Ne,layout_inter_eq_empty_iff,hfacts.1,hfacts'.1]
      decide +kernel
    exact absurd (hone 0 1 r r' m m' σ σ' hr hp hr' hp' hshared) Nat.zero_ne_one

end Mutex

end MidenX402.Facilitator
