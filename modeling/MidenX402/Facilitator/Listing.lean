import MidenX402.Disk.Writers
import MidenX402.Facilitator.Effects
import MidenX402.Facilitator.Sample

/-!
# Listing the queue while it is written

The queue of an agent is listed by the worker and by the state handler while payments are enqueued and
records are updated.  Temporary files are made in the directory that is listed, and the iteration may
return them.  The directories of a registered agent are there and stay.
-/

namespace MidenX402.Facilitator
open Disk Rust

inductive ListingStage where
  | iterating
  | entry (name : String)
  | opened (name : String) (inode : ℕ)
  | finished (result : Except FacilitatorError (List QueuedTx))

/-- A call of `list_queued`.  `pending` are the names that the iteration may still return: those that
were there when it began, and those that came later. -/
structure Listing where
  pending : String → Bool
  out : List QueuedTx
  stage : ListingStage

/-- One listing beside the calls that write.  Listings only read, so another one makes no difference. -/
structure QueueState where
  writers : Writers Content
  listing : Option Listing

inductive QueueAction where
  | enqueue (tx : QueuedTx)
  | upsert (tx : QueuedTx)
  | write (act : WriterAction Content)
  | moveToFailed (seq : ℕ)
  | begin
  | next (name : String)
  | openFile
  | readFile
  | stop
  | crash

namespace Listing

def start (dir : Path) (files : Inodes Content) : Listing where
  pending name := (files.names (dir ++ [name])).isSome
  out := []
  stage := .iterating

/-- The iteration may return a name that has come into being. -/
def notice (l : Listing) (dir : Path) (files files' : Inodes Content) : Listing :=
  { l with
    pending := fun name => l.pending name ||
      ((files.names (dir ++ [name])).isNone && (files'.names (dir ++ [name])).isSome) }

def result (l : Listing) : Option (Except FacilitatorError (List QueuedTx)) :=
  match l.stage with
  | .finished r => some r
  | _ => none

end Listing

namespace FilesystemX402Store
variable (store : FilesystemX402Store) (a : String)

/-- The files `enqueue` replaces, one after another. -/
def enqueueWrites (tx : QueuedTx) : List (Write Content) :=
  ⟨store.queueFile a tx.seq,.queued tx⟩ ::
    tx.nullifiers.map fun n => ⟨join (store.paymentsDir a) n,.lookup tx.seq⟩

/-- The file `upsert_queued` replaces. -/
def upsertWrite (files : Inodes Content) (tx : QueuedTx) : Write Content :=
  ⟨((store.recordFiles a tx.seq).find? fun raw => (files.fileAt (resolved raw)).isSome).getD
    (store.queueFile a tx.seq),.queued tx⟩

/-- The directory that is listed. -/
def queued : Path := resolved (store.queueDir a)

def queuedFile (seq : ℕ) : Path := store.queued a ++ [seqFile seq]

def movedFile (seq : ℕ) : Path := resolved (store.failedDir a) ++ [seqFile seq]

end FilesystemX402Store

namespace QueueState
variable (store : FilesystemX402Store) (a : String)

def start : QueueState := ⟨Writers.idle Inodes.empty,none⟩

def result (s : QueueState) : Option (Except FacilitatorError (List QueuedTx)) :=
  s.listing.bind Listing.result

/-- The listing goes on. -/
def list (s : QueueState) (l : Listing) : Option QueueState := some { s with listing := some l }

/-- A record is moved out of the queue between two listings. -/
def step (s : QueueState) : QueueAction → Option QueueState
  | .enqueue tx => some { s with writers := s.writers.call (store.enqueueWrites a tx) }
  | .upsert tx => some { s with writers := s.writers.call [store.upsertWrite a s.writers.files tx] }
  | .write act => (s.writers.step act).map fun w =>
      ⟨w,s.listing.map fun l => l.notice (store.queued a) s.writers.files w.files⟩
  | .moveToFailed seq =>
    if (s.writers.files.names (store.queuedFile a seq)).isSome ∧ s.listing.all (·.result.isSome) then
      some ⟨s.writers.withFiles (s.writers.files.rename (store.queuedFile a seq) (store.movedFile a seq)),
        none⟩
    else none
  | .begin => s.list (.start (store.queued a) s.writers.files)
  | .next name =>
    match s.listing with
    | some ⟨pending,out,.iterating⟩ =>
      if pending name then s.list ⟨Function.update pending name false,out,.entry name⟩ else none
    | _ => none
  | .openFile =>
    match s.listing with
    | some ⟨pending,out,.entry name⟩ =>
      match s.writers.files.names (store.queued a ++ [name]) with
      | none => s.list ⟨pending,out,.finished (.error (ioErr .notFound))⟩
      | some i => s.list ⟨pending,out,.opened name i⟩
    | _ => none
  | .readFile =>
    match s.listing with
    | some ⟨pending,out,.opened name i⟩ =>
      match (s.writers.files.contents i).toQueued with
      | none => s.list ⟨pending,out,
          .finished (.error (.internal ("read " ++ display (store.queueDir a ++ [name]))))⟩
      | some tx => s.list ⟨pending,out ++ [tx],.iterating⟩
    | _ => none
  | .stop =>
    match s.listing with
    | some ⟨pending,out,.iterating⟩ =>
      s.list ⟨pending,out,.finished (.ok (out.insertionSort fun x y => x.seq ≤ y.seq))⟩
    | _ => none
  | .crash => some ⟨s.writers.crash,none⟩

def run (s : QueueState) : List QueueAction → Option QueueState
  | [] => some s
  | act :: acts => (s.step store a act).bind fun s' => s'.run acts

/-- A step that keeps to what the listing needs: a record nests no deeper than it can be read back, a
sentinel does not lead into the queue, no temporary file of the queue is created while another call is
at it, and the iteration returns no temporary file. -/
def Meets (s : QueueState) : QueueAction → Prop
  | .enqueue tx => tx.Readable ∧ ∀ w ∈ (store.enqueueWrites a tx).tail, w.dir ≠ store.queued a
  | .upsert tx => tx.Readable
  | .write (.create t) => ∀ call ∈ s.writers.calls[t]?, ∀ w ∈ call.todo.head?,
      w.dir = store.queued a → s.writers.busy w.tmp = false
  | .next name => isTemporary name = false
  | _ => True

def Careful (s : QueueState) : List QueueAction → Prop
  | [] => True
  | act :: acts => s.Meets store a act ∧ ∀ s' ∈ s.step store a act, s'.Careful acts

instance (s : QueueState) (act : QueueAction) : Decidable (s.Meets store a act) :=
  match act with
  | .enqueue tx =>
    inferInstanceAs (Decidable (tx.Readable ∧
      ∀ w ∈ (store.enqueueWrites a tx).tail, w.dir ≠ store.queued a))
  | .upsert tx => inferInstanceAs (Decidable tx.Readable)
  | .write (.create t) => inferInstanceAs (Decidable (∀ call ∈ s.writers.calls[t]?,
      ∀ w ∈ call.todo.head?, w.dir = store.queued a → s.writers.busy w.tmp = false))
  | .next name => inferInstanceAs (Decidable (isTemporary name = false))
  | .write (.put ..) | .write (.finish ..) | .write (.sync _) | .write (.move _) | .write (.fail _)
  | .moveToFailed _ | .begin | .openFile | .readFile | .stop | .crash => .isTrue trivial

instance decidableCareful (s : QueueState) : (acts : List QueueAction) →
    Decidable (s.Careful store a acts)
  | [] => .isTrue trivial
  | act :: acts =>
    have (s' : QueueState) : Decidable (s'.Careful store a acts) := decidableCareful s' acts
    inferInstanceAs (Decidable (_ ∧ ∀ s' ∈ s.step store a act, s'.Careful store a acts))

end QueueState

/-- What a listing should return, given the state in which it began and the steps taken since then. -/
def ListsQueue (store : FilesystemX402Store) (a : String) (s : QueueState) (during : List QueueAction)
    (r : Except FacilitatorError (List QueuedTx)) : Prop :=
  ∃ txs, r = .ok txs ∧ (txs.map QueuedTx.seq).Pairwise (· < ·) ∧
    ∀ tx ∈ txs, ∃ before, before <+: during ∧ ∃ t, s.run store a before = some t ∧
      t.writers.files.fileAt (store.queuedFile a tx.seq) = some (.queued tx)

/-- Every listing that begins after some steps and is done after some more. -/
def SeesQueue (store : FilesystemX402Store) (a : String) (before during : List QueueAction) : Prop :=
  ∀ s s' r, QueueState.start.run store a (before ++ [.begin]) = some s →
    s.run store a during = some s' → .begin ∉ during → s'.result = some r →
      ListsQueue store a s during r

section Names
variable {store : FilesystemX402Store} {a : String}

theorem isTemporary_seqFile (seq : ℕ) : isTemporary (seqFile seq) = false := by
  obtain ⟨c,cs,hc,hdigit⟩ := head_seqFile seq
  have hne : c ≠ '.' := by
    rintro rfl
    exact absurd hdigit (by decide)
  rw [isTemporary,hc]
  simp [hne]

theorem resolved_sub {sub : String} (hsub : IsPlain sub) :
    resolved (store.agentDir a ++ [sub]) = resolved (store.agentDir a) ++ [sub] := by
  rw [resolved,components_concat hsub,normalize_append]
  exact normalize_of_plain _ fun s hs => List.mem_singleton.mp hs ▸ hsub

theorem moved_ne_queued (seq : ℕ) : (store.movedFile a seq).dropLast ≠ store.queued a := by
  rw [FilesystemX402Store.movedFile,List.dropLast_concat,FilesystemX402Store.queued,
    FilesystemX402Store.failedDir,FilesystemX402Store.queueDir,resolved_sub (by decide),
    resolved_sub (by decide)]
  intro heq
  exact absurd (List.singleton_inj.mp (List.append_cancel_left heq)) (by decide)

/-- What belongs into the queue: a record under its number that reads back. -/
def IsRecord (name : String) (c : Content) : Prop :=
  ∃ tx : QueuedTx, tx.Readable ∧ name = seqFile tx.seq ∧ c = .queued tx

theorem placed_record (sub : String) {tx : QueuedTx} (hread : tx.Readable) :
    Placed (store.queued a) IsRecord ⟨store.agentDir a ++ [sub,seqFile tx.seq],.queued tx⟩ := by
  intro hdir
  refine ⟨seqFile tx.seq,isTemporary_seqFile tx.seq,?_,tx,hread,rfl,rfl⟩
  rw [Write.target,hdir,sub_split,if_pos (endsPlain_concat (isPlain_seqFile tx.seq)),
    fileName_concat (isPlain_seqFile tx.seq)]
  rfl

theorem placed_enqueue {tx : QueuedTx} (hread : tx.Readable)
    (h : ∀ w ∈ (store.enqueueWrites a tx).tail, w.dir ≠ store.queued a) :
    ∀ w ∈ store.enqueueWrites a tx, Placed (store.queued a) IsRecord w := by
  intro w hw
  rcases List.mem_cons.mp hw with rfl | hw
  · rw [queueFile_split]
    exact placed_record "pending_queue" hread
  · intro hdir
    exact absurd hdir (h w hw)

theorem placed_upsert (files : Inodes Content) {tx : QueuedTx} (hread : tx.Readable) :
    Placed (store.queued a) IsRecord (store.upsertWrite a files tx) := by
  rw [FilesystemX402Store.upsertWrite]
  cases hfind : (store.recordFiles a tx.seq).find? fun raw => (files.fileAt (resolved raw)).isSome with
  | none =>
    rw [Option.getD_none,queueFile_split]
    exact placed_record "pending_queue" hread
  | some raw =>
    obtain ⟨sub,-,rfl⟩ := List.mem_map.mp (List.mem_of_find?_eq_some hfind)
    exact placed_record sub hread

end Names

section Moves
variable {store : FilesystemX402Store} {a : String} {s s' : QueueState} {act : QueueAction}

/-- What a step of the listing does. -/
inductive ListingMove (store : FilesystemX402Store) (a : String) (files : Inodes Content) :
    QueueAction → Option Listing → Listing → Prop
  | begun {l} : ListingMove store a files .begin l (.start (store.queued a) files)
  | returned {pending out name} (hpending : pending name = true) :
      ListingMove store a files (.next name) (some ⟨pending,out,.iterating⟩)
        ⟨Function.update pending name false,out,.entry name⟩
  | vanished {pending out name} (hname : files.names (store.queued a ++ [name]) = none) :
      ListingMove store a files .openFile (some ⟨pending,out,.entry name⟩)
        ⟨pending,out,.finished (.error (ioErr .notFound))⟩
  | opened {pending out name i} (hname : files.names (store.queued a ++ [name]) = some i) :
      ListingMove store a files .openFile (some ⟨pending,out,.entry name⟩) ⟨pending,out,.opened name i⟩
  | unreadable {pending out name i} (hread : (files.contents i).toQueued = none) :
      ListingMove store a files .readFile (some ⟨pending,out,.opened name i⟩) ⟨pending,out,
        .finished (.error (.internal ("read " ++ display (store.queueDir a ++ [name]))))⟩
  | taken {pending out name i tx} (hread : (files.contents i).toQueued = some tx) :
      ListingMove store a files .readFile (some ⟨pending,out,.opened name i⟩)
        ⟨pending,out ++ [tx],.iterating⟩
  | stopped {pending out} : ListingMove store a files .stop (some ⟨pending,out,.iterating⟩)
      ⟨pending,out,.finished (.ok (out.insertionSort fun x y => x.seq ≤ y.seq))⟩

/-- What a step does. -/
inductive QueueMove (store : FilesystemX402Store) (a : String) (s : QueueState) :
    QueueAction → QueueState → Prop
  | called {act : QueueAction} {ws : List (Write Content)}
      (hws : s.Meets store a act → ∀ w ∈ ws, Placed (store.queued a) IsRecord w) :
      QueueMove store a s act ⟨s.writers.call ws,s.listing⟩
  | wrote {wact : WriterAction Content} {w : Writers Content} (hw : s.writers.step wact = some w) : QueueMove store a s (.write wact)
      ⟨w,s.listing.map fun l => l.notice (store.queued a) s.writers.files w.files⟩
  | moved {act : QueueAction} {seq : ℕ} : QueueMove store a s act ⟨s.writers.withFiles
      (s.writers.files.rename (store.queuedFile a seq) (store.movedFile a seq)),none⟩
  | listed {act : QueueAction} {l : Listing} (hl : ListingMove store a s.writers.files act s.listing l) :
      QueueMove store a s act ⟨s.writers,some l⟩
  | crashed {act : QueueAction} : QueueMove store a s act ⟨s.writers.crash,none⟩

theorem queueMove_of_step (h : s.step store a act = some s') : QueueMove store a s act s' := by
  obtain ⟨writers,listing⟩ := s
  cases act with
  | enqueue tx =>
    obtain rfl := Option.some.inj h
    exact .called fun hmeets => placed_enqueue hmeets.1 hmeets.2
  | upsert tx =>
    obtain rfl := Option.some.inj h
    apply QueueMove.called
    intro hmeets w hw
    rw [List.mem_singleton.mp hw]
    exact placed_upsert _ hmeets
  | write wact =>
    obtain ⟨w,hw,rfl⟩ := Option.map_eq_some_iff.mp h
    exact .wrote hw
  | moveToFailed seq =>
    rw [QueueState.step] at h
    split at h
    · obtain rfl := Option.some.inj h
      exact .moved
    · cases h
  | begin =>
    obtain rfl := Option.some.inj h
    exact .listed .begun
  | next name =>
    rw [QueueState.step] at h
    split at h
    · rename_i pending out heq
      obtain rfl : listing = _ := heq
      split at h
      · rename_i hpending
        obtain rfl := Option.some.inj h
        exact .listed (.returned hpending)
      · cases h
    · cases h
  | openFile =>
    rw [QueueState.step] at h
    split at h
    · rename_i pending out name heq
      obtain rfl : listing = _ := heq
      split at h
      · rename_i hname
        obtain rfl := Option.some.inj h
        exact .listed (.vanished hname)
      · rename_i i hname
        obtain rfl := Option.some.inj h
        exact .listed (.opened hname)
    · cases h
  | readFile =>
    rw [QueueState.step] at h
    split at h
    · rename_i pending out name i heq
      obtain rfl : listing = _ := heq
      split at h
      · rename_i hread
        obtain rfl := Option.some.inj h
        exact .listed (.unreadable hread)
      · rename_i tx hread
        obtain rfl := Option.some.inj h
        exact .listed (.taken hread)
    · cases h
  | stop =>
    rw [QueueState.step] at h
    split at h
    · rename_i pending out heq
      obtain rfl : listing = _ := heq
      obtain rfl := Option.some.inj h
      exact .listed .stopped
    · cases h
  | crash =>
    obtain rfl := Option.some.inj h
    exact .crashed

/-- Apart from temporary files, the queue holds records under their numbers, and nobody writes to them. -/
def QueueState.Sound (store : FilesystemX402Store) (a : String) (s : QueueState) : Prop :=
  Orderly (store.queued a) IsRecord s.writers

theorem sound_start : QueueState.start.Sound store a := by
  apply orderly_idle
  intro name i h
  cases h

theorem QueueState.Sound.step (h : s.Sound store a) (hmeets : s.Meets store a act)
    (hstep : s.step store a act = some s') : s'.Sound store a := by
  cases queueMove_of_step hstep with
  | called hws => exact Orderly.call h (hws hmeets)
  | wrote hw =>
    apply Orderly.step h hw
    rintro t v vs rfl hcall hdir
    exact hmeets ⟨v :: vs,.start⟩ hcall v rfl hdir
  | moved => exact Orderly.renameOut h (isTemporary_seqFile _) (moved_ne_queued _)
  | listed hl => exact h
  | crashed => exact Orderly.crash h

end Moves

section Listed
variable {store : FilesystemX402Store} {a : String} {s s' : QueueState} {act : QueueAction}
  {acts : List QueueAction} {l l' : Listing} {files files' : Inodes Content}
  {Seen Seen' : String → Content → Prop}

/-- A file that is in the queue and will not be returned again. -/
def Listing.Past (l : Listing) (dir : Path) (files : Inodes Content) (name : String) : Prop :=
  (files.names (dir ++ [name])).isSome = true ∧ l.pending name = false

/-- An entry that is being read. -/
structure Listing.Current (l : Listing) (dir : Path) (files : Inodes Content) (name : String) : Prop where
  plain : isTemporary name = false
  past : l.Past dir files name
  fresh : ∀ tx ∈ l.out, seqFile tx.seq ≠ name

/-- What is known at each stage, where `Seen` holds of the files there were during the call. -/
def Listing.StageInv (l : Listing) (Seen : String → Content → Prop) (dir : Path) (w : Writers Content) :
    Prop :=
  match l.stage with
  | .iterating => True
  | .entry name => l.Current dir w.files name
  | .opened name i => l.Current dir w.files name ∧ Settled w i ∧ IsRecord name (w.files.contents i) ∧
      Seen name (w.files.contents i)
  | .finished r => ∃ txs, r = .ok txs ∧ (txs.map QueuedTx.seq).Pairwise (· < ·) ∧
      ∀ tx ∈ txs, Seen (seqFile tx.seq) (.queued tx)

structure Listing.Inv (l : Listing) (Seen : String → Content → Prop) (dir : Path) (w : Writers Content) :
    Prop where
  pending : ∀ name, isTemporary name = false → l.pending name = true →
    (w.files.names (dir ++ [name])).isSome = true
  past : ∀ tx ∈ l.out, l.Past dir w.files (seqFile tx.seq) ∧ Seen (seqFile tx.seq) (.queued tx)
  distinct : (l.out.map QueuedTx.seq).Nodup
  stage : l.StageInv Seen dir w

variable {dir : Path} {w w' : Writers Content}

theorem Listing.Inv.see (h : l.Inv Seen dir w) (hseen : ∀ name c, Seen name c → Seen' name c) :
    l.Inv Seen' dir w := by
  obtain ⟨pending,out,stage⟩ := l
  refine ⟨h.pending,fun tx htx => ⟨(h.past tx htx).1,hseen _ _ (h.past tx htx).2⟩,h.distinct,?_⟩
  have hstage := h.stage
  cases stage with
  | iterating => trivial
  | entry name => exact hstage
  | opened name i =>
    obtain ⟨hcurrent,hsettled,hrecord,hold⟩ := hstage
    exact ⟨hcurrent,hsettled,hrecord,hseen _ _ hold⟩
  | finished r =>
    obtain ⟨txs,hr,hsorted,htxs⟩ := hstage
    exact ⟨txs,hr,hsorted,fun tx htx => hseen _ _ (htxs tx htx)⟩

theorem Listing.pending_notice (name : String) : (l.notice dir files files').pending name =
    (l.pending name ||
      ((files.names (dir ++ [name])).isNone && (files'.names (dir ++ [name])).isSome)) := rfl

theorem Listing.notice_self : l.notice dir files files = l := by
  obtain ⟨pending,out,stage⟩ := l
  rw [notice,Listing.mk.injEq]
  refine ⟨?_,rfl,rfl⟩
  funext name
  cases files.names (dir ++ [name]) <;> simp

/-- The files that were moved into the queue stay there, and nobody writes to them. -/
theorem Listing.Inv.notice (h : l.Inv Seen dir w)
    (hkept : ∀ name, isTemporary name = false → (w.files.names (dir ++ [name])).isSome = true →
      (w'.files.names (dir ++ [name])).isSome = true)
    (hsettled : ∀ i, Settled w i → Settled w' i ∧ w'.files.contents i = w.files.contents i) :
    (l.notice dir w.files w'.files).Inv Seen dir w' := by
  have hpast : ∀ name, isTemporary name = false → l.Past dir w.files name →
      (l.notice dir w.files w'.files).Past dir w'.files name := by
    intro name htmp hname
    have hthere : (w.files.names (dir ++ [name])).isNone = false :=
      Option.isNone_eq_false_iff.mpr hname.1
    refine ⟨hkept name htmp hname.1,?_⟩
    rw [Listing.pending_notice,hname.2,hthere]
    rfl
  have hcurrent : ∀ name, l.Current dir w.files name →
      (l.notice dir w.files w'.files).Current dir w'.files name := fun name hc =>
    ⟨hc.plain,hpast name hc.plain hc.past,hc.fresh⟩
  refine ⟨?_,?_,h.distinct,?_⟩
  · intro name htmp hpending
    rw [Listing.pending_notice,Bool.or_eq_true,Bool.and_eq_true] at hpending
    rcases hpending with hold | ⟨-,hnew⟩
    · exact hkept name htmp (h.pending name htmp hold)
    · exact hnew
  · intro tx htx
    exact ⟨hpast _ (isTemporary_seqFile _) (h.past tx htx).1,(h.past tx htx).2⟩
  · have hstage := h.stage
    obtain ⟨pending,out,stage⟩ := l
    cases stage with
    | iterating => trivial
    | entry name => exact hcurrent name hstage
    | opened name i =>
      obtain ⟨hc,hs,hrecord,hseen⟩ := hstage
      obtain ⟨hs',hcontents⟩ := hsettled i hs
      rw [← hcontents] at hrecord hseen
      exact ⟨hcurrent name hc,hs',hrecord,hseen⟩
    | finished r => exact hstage

/-- A step of the listing itself, where the files there are now count as seen. -/
theorem ListingMove.inv {o : Option Listing} (h : ListingMove store a w.files act o l')
    (hinv : ∀ l ∈ o, l.Inv Seen (store.queued a) w) (hsound : Orderly (store.queued a) IsRecord w)
    (hmeets : ∀ name, act = .next name → isTemporary name = false)
    (hnow : ∀ name c, w.files.fileAt (store.queued a ++ [name]) = some c → Seen name c) :
    l'.Inv Seen (store.queued a) w := by
  cases h with
  | begun =>
    refine ⟨fun name _ hname => hname,?_,List.nodup_nil,trivial⟩
    intro tx htx
    exact absurd htx List.not_mem_nil
  | @returned pending out name hpending =>
    have hl := hinv _ rfl
    have hplain := hmeets name rfl
    have hlater : ∀ name', pending name' = false → Function.update pending name false name' = false := by
      intro name' hname'
      by_cases heq : name' = name
      · rw [heq,Function.update_self]
      · rw [Function.update_of_ne heq]
        exact hname'
    refine ⟨?_,?_,hl.distinct,hplain,⟨hl.pending name hplain hpending,Function.update_self ..⟩,?_⟩
    · intro name' hplain' hname'
      apply hl.pending name' hplain'
      by_contra hnot
      have hfalse := hlater name' (Bool.eq_false_iff.mpr hnot)
      dsimp only at hname'
      rw [hfalse] at hname'
      cases hname'
    · intro tx htx
      obtain ⟨⟨hthere,hpast⟩,hseen⟩ := hl.past tx htx
      exact ⟨⟨hthere,hlater _ hpast⟩,hseen⟩
    · intro tx htx heq
      have hpast : pending (seqFile tx.seq) = false := (hl.past tx htx).1.2
      rw [heq] at hpast
      rw [hpast] at hpending
      cases hpending
  | @vanished pending out name hname =>
    have hcurrent : Listing.Current _ _ _ name := (hinv _ rfl).stage
    have hthere := hcurrent.past.1
    rw [hname] at hthere
    cases hthere
  | @opened pending out name i hname =>
    have hl := hinv _ rfl
    have hcurrent : Listing.Current _ _ _ name := hl.stage
    refine ⟨hl.pending,hl.past,hl.distinct,⟨hcurrent.plain,hcurrent.past,hcurrent.fresh⟩,?_,?_,?_⟩
    · exact hsound.settled hcurrent.plain hname
    · exact hsound.good hcurrent.plain hname
    · apply hnow
      rw [Inodes.fileAt,hname]
      rfl
  | @unreadable pending out name i hread =>
    obtain ⟨-,-,⟨tx,hdepth,-,hcontent⟩,-⟩ := (hinv _ rfl).stage
    rw [hcontent,Content.toQueued_eq_some.mpr ⟨rfl,hdepth⟩] at hread
    cases hread
  | @taken pending out name i tx hread =>
    have hl := hinv _ rfl
    obtain ⟨hcurrent,-,⟨tx',-,rfl,hcontent⟩,hseen⟩ := hl.stage
    rw [hcontent] at hread hseen
    obtain rfl := Content.queued.inj (Content.toQueued_eq_some.mp hread).1
    refine ⟨hl.pending,?_,?_,trivial⟩
    · intro tx htx
      rcases List.mem_append.mp htx with hold | hnew
      · exact hl.past tx hold
      · rw [List.mem_singleton.mp hnew]
        exact ⟨hcurrent.past,hseen⟩
    · rw [List.map_append,List.map_singleton,List.nodup_append]
      refine ⟨hl.distinct,List.nodup_singleton _,?_⟩
      intro q hq q' hq' heq
      obtain ⟨tx,htx,rfl⟩ := List.mem_map.mp hq
      rw [List.mem_singleton.mp hq'] at heq
      exact hcurrent.fresh tx htx (congrArg seqFile heq)
  | @stopped pending out =>
    have hl := hinv _ rfl
    refine ⟨hl.pending,hl.past,hl.distinct,_,rfl,seqs_insertionSort hl.distinct,?_⟩
    intro tx htx
    exact (hl.past tx ((List.mem_insertionSort _).mp htx)).2

/-- Every step keeps what is known of the listing, where the files there were before it count as seen. -/
theorem QueueState.inv_step (hsound : s.Sound store a)
    (hinv : ∀ l ∈ s.listing, l.Inv Seen (store.queued a) s.writers) (hmeets : s.Meets store a act)
    (hstep : s.step store a act = some s')
    (hnow : ∀ name c, s.writers.files.fileAt (store.queued a ++ [name]) = some c → Seen name c) :
    ∀ l ∈ s'.listing, l.Inv Seen (store.queued a) s'.writers := by
  cases queueMove_of_step hstep with
  | @called _ ws _ =>
    intro l hl
    have hcall : (l.notice (store.queued a) s.writers.files (s.writers.call ws).files).Inv Seen
        (store.queued a) (s.writers.call ws) :=
      (hinv l hl).notice (fun _ _ h => h) fun i hi => ⟨hi.call ws,rfl⟩
    change (l.notice _ s.writers.files s.writers.files).Inv _ _ _ at hcall
    rw [Listing.notice_self] at hcall
    exact hcall
  | wrote hw =>
    intro l hl
    obtain ⟨l0,hl0,rfl⟩ := Option.mem_map.mp hl
    exact (hinv l0 hl0).notice (fun _ hname => Writers.isSome_of_step hw hname) fun i hi => hi.step hw
  | moved =>
    intro l hl
    cases hl
  | listed hl =>
    intro l' hl'
    obtain rfl := Option.some.inj hl'
    apply hl.inv hinv hsound ?_ hnow
    rintro name rfl
    exact hmeets
  | crashed =>
    intro l hl
    cases hl

/-- A run of steps that keep to what the listing needs. -/
theorem QueueState.Sound.run (h : s.Sound store a) (hcareful : s.Careful store a acts)
    (hrun : s.run store a acts = some s') : s'.Sound store a := by
  induction acts generalizing s with
  | nil =>
    obtain rfl := Option.some.inj hrun
    exact h
  | cons act acts ih =>
    obtain ⟨s1,hstep,hrest⟩ := Option.bind_eq_some_iff.mp hrun
    exact ih (h.step hcareful.1 hstep) (hcareful.2 s1 hstep) hrest

/-- A file in the queue in some state of the run. -/
def QueueState.Shows (store : FilesystemX402Store) (a : String) (s : QueueState)
    (acts : List QueueAction) (name : String) (c : Content) : Prop :=
  ∃ before, before <+: acts ∧ ∃ t, s.run store a before = some t ∧
    t.writers.files.fileAt (store.queued a ++ [name]) = some c

theorem QueueState.inv_run (hsound : s.Sound store a)
    (hinv : ∀ l ∈ s.listing, l.Inv Seen (store.queued a) s.writers) (hcareful : s.Careful store a acts)
    (hrun : s.run store a acts = some s') : ∀ l ∈ s'.listing,
      l.Inv (fun name c => Seen name c ∨ s.Shows store a acts name c) (store.queued a) s'.writers := by
  induction acts generalizing s Seen with
  | nil =>
    obtain rfl := Option.some.inj hrun
    exact fun l hl => (hinv l hl).see fun name c hseen => Or.inl hseen
  | cons act acts ih =>
    obtain ⟨s1,hstep,hrest⟩ := Option.bind_eq_some_iff.mp hrun
    have hinv' : ∀ l ∈ s.listing, l.Inv (fun name c => Seen name c ∨
        s.writers.files.fileAt (store.queued a ++ [name]) = some c) (store.queued a) s.writers :=
      fun l hl => (hinv l hl).see fun name c hseen => Or.inl hseen
    have hinv1 := inv_step hsound hinv' hcareful.1 hstep fun name c hc => Or.inr hc
    intro l hl
    apply (ih (hsound.step hcareful.1 hstep) hinv1 (hcareful.2 s1 hstep) hrest l hl).see
    rintro name c ((hseen | hfile) | ⟨before,hbefore,t,ht,hfile⟩)
    · exact Or.inl hseen
    · exact Or.inr ⟨[], List.nil_prefix,s,rfl,hfile⟩
    · refine Or.inr ⟨act :: before,List.cons_prefix_cons.mpr ⟨rfl,hbefore⟩,t,?_,hfile⟩
      rw [QueueState.run,hstep]
      exact ht

theorem Listing.Inv.result {r : Except FacilitatorError (List QueuedTx)} (h : l.Inv Seen dir w)
    (hr : l.result = some r) : ∃ txs, r = .ok txs ∧ (txs.map QueuedTx.seq).Pairwise (· < ·) ∧
      ∀ tx ∈ txs, Seen (seqFile tx.seq) (.queued tx) := by
  obtain ⟨pending,out,stage⟩ := l
  cases stage with
  | finished r' =>
    obtain rfl := Option.some.inj hr
    exact h.stage
  | _ => cases hr

theorem QueueState.run_append (xs ys : List QueueAction) (s : QueueState) :
    s.run store a (xs ++ ys) = (s.run store a xs).bind fun t => t.run store a ys := by
  induction xs generalizing s with
  | nil => rfl
  | cons x xs ih =>
    rw [List.cons_append,QueueState.run,QueueState.run]
    cases s.step store a x with
    | none => rfl
    | some t => exact ih t

theorem QueueState.Careful.split {xs ys : List QueueAction} (h : s.Careful store a (xs ++ ys)) :
    s.Careful store a xs ∧ ∀ t ∈ s.run store a xs, t.Careful store a ys := by
  induction xs generalizing s with
  | nil =>
    refine ⟨trivial,?_⟩
    rintro t ht
    obtain rfl := Option.some.inj ht
    exact h
  | cons x xs ih =>
    refine ⟨⟨h.1,fun t ht => (ih (h.2 t ht)).1⟩,?_⟩
    intro t ht
    obtain ⟨u,hu,hrest⟩ := Option.bind_eq_some_iff.mp ht
    exact (ih (h.2 u hu)).2 t hrest

theorem QueueState.inv_begin (h : s.step store a .begin = some s') :
    ∀ l ∈ s'.listing, l.Inv Seen (store.queued a) s'.writers := by
  obtain rfl := Option.some.inj h
  intro l hl
  obtain rfl := Option.some.inj hl
  refine ⟨fun _ _ hname => hname,?_,List.nodup_nil,trivial⟩
  intro tx htx
  exact absurd htx List.not_mem_nil

theorem list_queued_sees_queue {before during : List QueueAction}
    (h : QueueState.start.Careful store a (before ++ .begin :: during)) :
    SeesQueue store a before during := by
  intro s s' r hbefore hduring _ hr
  obtain ⟨hcareful,hlater⟩ := h.split
  rw [QueueState.run_append] at hbefore
  obtain ⟨s0,hs0,hbegin⟩ := Option.bind_eq_some_iff.mp hbefore
  obtain ⟨s1,hstep,hnil⟩ := Option.bind_eq_some_iff.mp hbegin
  obtain rfl : s1 = s := Option.some.inj hnil
  have hsound := (sound_start.run hcareful hs0).step (hlater s0 hs0).1 hstep
  -- Nothing has been seen when the call begins.
  have hinv : ∀ l ∈ s1.listing, l.Inv (fun _ _ => False) (store.queued a) s1.writers :=
    QueueState.inv_begin hstep
  obtain ⟨l,hl,hresult⟩ := Option.bind_eq_some_iff.mp hr
  have hfinal := QueueState.inv_run hsound hinv ((hlater s0 hs0).2 s1 hstep) hduring l hl
  obtain ⟨txs,rfl,hsorted,hseen⟩ := hfinal.result hresult
  refine ⟨txs,rfl,hsorted,?_⟩
  intro tx htx
  rcases hseen tx htx with hfalse | hshown
  · exact hfalse.elim
  · exact hshown

end Listed

section Alone
variable {store : FilesystemX402Store} {a : String} {w : Writers Content}

/-- The entries of a directory, read one after another. -/
theorem QueueState.run_entries {entries : List (String × Node Content)} (pending : String → Bool)
    (out : List QueuedTx) (hnodup : (entries.map Prod.fst).Nodup)
    (hfiles : ∀ name c, (name,Node.file c) ∈ entries →
      pending name = true ∧ w.files.fileAt (store.queued a ++ [name]) = some c) :
    ∃ acts s', QueueState.run store a ⟨w,some ⟨pending,out,.iterating⟩⟩ acts = some s' ∧
      s'.result = some ((FilesystemX402Store.readRecords (store.queueDir a) entries).map fun txs =>
        (out ++ txs).insertionSort fun x y => x.seq ≤ y.seq) := by
  induction entries generalizing pending out with
  | nil =>
    refine ⟨[.stop],_,rfl,?_⟩
    rw [FilesystemX402Store.readRecords]
    simp only [Except.map,List.append_nil]
    rfl
  | cons entry entries ih =>
    obtain ⟨name,node⟩ := entry
    obtain ⟨hnot,hrest⟩ := List.nodup_cons.mp hnodup
    cases node with
    | dir =>
      rw [FilesystemX402Store.readRecords]
      exact ih pending out hrest fun name' c hmem => hfiles name' c (List.mem_cons_of_mem _ hmem)
    | file c =>
      obtain ⟨hpending,hfile⟩ := hfiles name c List.mem_cons_self
      obtain ⟨i,hi,hc⟩ := Option.map_eq_some_iff.mp hfile
      have hopened : QueueState.run store a ⟨w,some ⟨pending,out,.iterating⟩⟩ [.next name,.openFile] =
          some ⟨w,some ⟨Function.update pending name false,out,.opened name i⟩⟩ := by
        simp [QueueState.run,QueueState.step,QueueState.list,hpending,hi]
      cases hread : c.toQueued with
      | none =>
        refine ⟨[.next name,.openFile] ++ [.readFile],⟨w,some ⟨Function.update pending name false,out,
          .finished (.error (.internal ("read " ++ display (store.queueDir a ++ [name]))))⟩⟩,?_,?_⟩
        · rw [QueueState.run_append,hopened]
          simp [QueueState.run,QueueState.step,QueueState.list,hc,hread]
        · simp only [FilesystemX402Store.readRecords,hread]
          rfl
      | some tx =>
        have hread' : QueueState.run store a
            ⟨w,some ⟨Function.update pending name false,out,.opened name i⟩⟩ [.readFile] =
              some ⟨w,some ⟨Function.update pending name false,out ++ [tx],.iterating⟩⟩ := by
          simp [QueueState.run,QueueState.step,QueueState.list,hc,hread]
        have hlater : ∀ name' c, (name',Node.file c) ∈ entries →
            Function.update pending name false name' = true ∧
              w.files.fileAt (store.queued a ++ [name']) = some c := by
          intro name' c' hmem
          obtain ⟨hp,hf⟩ := hfiles name' c' (List.mem_cons_of_mem _ hmem)
          have hne : name' ≠ name := by
            rintro rfl
            exact hnot (List.mem_map.mpr ⟨_,hmem,rfl⟩)
          rw [Function.update_of_ne hne]
          exact ⟨hp,hf⟩
        obtain ⟨acts,s',hrun,hresult⟩ := ih _ (out ++ [tx]) hrest hlater
        refine ⟨[.next name,.openFile] ++ ([.readFile] ++ acts),s',?_,?_⟩
        · rw [QueueState.run_append,hopened,Option.bind_some,QueueState.run_append,hread']
          exact hrun
        · rw [hresult]
          simp only [FilesystemX402Store.readRecords,hread]
          cases FilesystemX402Store.readRecords (store.queueDir a) entries with
          | error e => rfl
          | ok txs =>
            simp only [Except.map,List.append_assoc,List.singleton_append]
            rfl

/-- A listing that nothing comes between returns what the store lists. -/
theorem QueueState.run_listing {fs : Files} {s : QueueState} (hdir : fs.locate (store.queueDir a) =
      some (store.queued a) ∧ fs.isDir (store.queued a) = true)
    (hsame : ∀ p, fs.fileAt p = s.writers.files.fileAt p) :
    ∃ acts s', s.run store a (.begin :: acts) = some s' ∧ s'.result = some (store.listQueued a fs) := by
  have hfiles : ∀ name c, (name,Node.file c) ∈ fs.entries (store.queued a) →
      (Listing.start (store.queued a) s.writers.files).pending name = true ∧
        s.writers.files.fileAt (store.queued a ++ [name]) = some c := by
    intro name c hmem
    have hfile := FileSystem.fileAt_of_node (FileSystem.mem_entries.mp hmem).1
    rw [hsame] at hfile
    obtain ⟨i,hi,-⟩ := Option.map_eq_some_iff.mp hfile
    refine ⟨?_,hfile⟩
    change (s.writers.files.names (store.queued a ++ [name])).isSome = true
    rw [hi]
    rfl
  obtain ⟨acts,s',hrun,hresult⟩ := run_entries _ [] (FileSystem.nodup_entries _ _) hfiles
  refine ⟨acts,s',hrun,?_⟩
  rw [hresult,FilesystemX402Store.listQueued,hdir.1]
  simp only [hdir.2,if_true,List.nil_append]

end Alone

section Exactness

def sampleTx (status : PaymentStatus) : QueuedTx :=
  ⟨1,7,["0x01"],status,samplePayload "0xs0" "0xs1" ["0x01"],none,none,none,none⟩

/-- All steps of a call's first write. -/
def sampleWrite (t : ℕ) : List QueueAction :=
  [.write (.create t),.write (.put t .torn),.write (.finish t .torn),.write (.sync t),.write (.move t)]

/-- A record is replaced between the opening and the reading of its file. -/
def sampleListing : List QueueAction :=
  [.next "1.json",.openFile,.upsert (sampleTx .proving)] ++ sampleWrite 1 ++ [.readFile,.stop]

theorem list_queued_sees_queue_sample :
    SeesQueue sampleStore "a" (.enqueue (sampleTx .accepted) :: sampleWrite 0) sampleListing ∧
    (QueueState.start.run sampleStore "a" (.enqueue (sampleTx .accepted) :: sampleWrite 0 ++
      .begin :: sampleListing)).bind QueueState.result = some (.ok [sampleTx .accepted]) :=
  ⟨list_queued_sees_queue (by decide +kernel),by decide +kernel⟩

/-- A record whose summary nests as deep as a request may. -/
def deepTx : QueuedTx :=
  { sampleTx .accepted with
    payload := { samplePayload "0xs0" "0xs1" ["0x01"] with
      txSummary := { (samplePayload "0xs0" "0xs1" ["0x01"]).txSummary with depth := 126 } } }

theorem SeesQueue.result {store : FilesystemX402Store} {a : String} {before during : List QueueAction}
    {r : Except FacilitatorError (List QueuedTx)} (h : SeesQueue store a before during)
    (hno : .begin ∉ during) (hr : (QueueState.start.run store a (before ++ [.begin] ++ during)).bind
      QueueState.result = some r) :
    ∃ txs, r = .ok txs ∧ (txs.map QueuedTx.seq).Pairwise (· < ·) := by
  obtain ⟨s',hrun,hresult⟩ := Option.bind_eq_some_iff.mp hr
  rw [QueueState.run_append] at hrun
  obtain ⟨s,hs,hduring⟩ := Option.bind_eq_some_iff.mp hrun
  obtain ⟨txs,hok,hsorted,-⟩ := h s s' r hs hduring hno hresult
  exact ⟨txs,hok,hsorted⟩

/-- A crash leaves a temporary file behind, and no listing reads past it.  A temporary file that is
complete counts beside the record it is about to replace.  One that has been moved away when the listing
gets to it is missing.  And a record that nests too deep is not read back. -/
theorem list_queued_reads_temporary :
    ¬ SeesQueue sampleStore "a" [.enqueue (sampleTx .accepted),.write (.create 0),.write (.put 0 .torn),
        .crash] [.next ".1.json.tmp",.openFile,.readFile] ∧
    ¬ SeesQueue sampleStore "a" (.enqueue (sampleTx .accepted) :: sampleWrite 0 ++
        [.upsert (sampleTx .proving),.write (.create 1),.write (.finish 1 .torn)])
      [.next "1.json",.openFile,.readFile,.next ".1.json.tmp",.openFile,.readFile,.stop] ∧
    ¬ SeesQueue sampleStore "a" [.enqueue (sampleTx .accepted),.write (.create 0)]
      [.next ".1.json.tmp",.write (.finish 0 .torn),.write (.sync 0),.write (.move 0),.openFile] ∧
    ¬ SeesQueue sampleStore "a" (.enqueue deepTx :: sampleWrite 0) [.next "1.json",.openFile,.readFile] := by
  refine ⟨?_,?_,?_,?_⟩
  · intro h
    obtain ⟨txs,hok,-⟩ := h.result (r := .error (.internal
      "read /data/agents/a/pending_queue/.1.json.tmp")) (by simp) (by decide +kernel)
    cases hok
  · intro h
    obtain ⟨txs,hok,hsorted⟩ := h.result (r := .ok [sampleTx .accepted,sampleTx .proving]) (by simp)
      (by decide +kernel)
    obtain rfl := Except.ok.inj hok
    exact absurd hsorted (by decide)
  · intro h
    obtain ⟨txs,hok,-⟩ := h.result (r := .error (ioErr .notFound)) (by simp) (by decide +kernel)
    cases hok
  · intro h
    obtain ⟨txs,hok,-⟩ := h.result (r := .error (.internal "read /data/agents/a/pending_queue/1.json"))
      (by simp) (by decide +kernel)
    cases hok

end Exactness

end MidenX402.Facilitator
