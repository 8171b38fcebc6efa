import MidenX402.Disk.Inodes

/-!
# Concurrent replacement of files

Calls that replace files one after another, each file by writing beside its place, syncing and
renaming.  Their steps interleave, any of them can fail, and a crash ends all of them.  A file that
two calls have open at once can come to hold anything.
-/

namespace Disk

/-- Replacing the file at a path. -/
structure Write (α : Type) where
  raw : List String
  data : α

/-- The names under which files are written before they are moved. -/
def isTemporary (name : String) : Bool :=
  name.toList.head? = some '.' && decide (".tmp".toList <:+ name.toList)

theorem isTemporary_tmp (name : String) : isTemporary ("." ++ name ++ ".tmp") = true := by
  rw [isTemporary,String.toList_append,String.toList_append,Bool.and_eq_true]
  constructor
  · rfl
  · exact decide_eq_true (List.suffix_append ..)

namespace Write
variable {α : Type}

def dir (w : Write α) : Path := normalize [] (components w.raw).dropLast

def tmp (w : Write α) : Path := w.dir ++ ["." ++ (fileName w.raw).getD "write" ++ ".tmp"]

def target (w : Write α) : Option Path :=
  if FileSystem.endsPlain w.raw then (fileName w.raw).map fun name => w.dir ++ [name] else none

/-- A temporary file is told apart by its name. -/
theorem tmp_eq (w : Write α) : ∃ name, isTemporary name = true ∧ w.tmp = w.dir ++ [name] :=
  ⟨_,isTemporary_tmp _,rfl⟩

theorem isTemporary_of_tmp {w : Write α} {d : Path} {name : String} (h : w.tmp = d ++ [name]) :
    isTemporary name = true := by
  obtain ⟨name',hname',htmp⟩ := w.tmp_eq
  rw [htmp] at h
  have hnames := (List.append_inj' h rfl).2
  rw [← List.singleton_inj.mp hnames]
  exact hname'

theorem tmp_ne (w : Write α) {d : Path} {name : String} (h : isTemporary name = false) :
    w.tmp ≠ d ++ [name] := by
  intro heq
  rw [isTemporary_of_tmp heq] at h
  cases h

theorem dropLast_tmp (w : Write α) : w.tmp.dropLast = w.dir := List.dropLast_concat ..

theorem target_eq {w : Write α} {q : Path} (h : w.target = some q) : ∃ name, q = w.dir ++ [name] := by
  rw [target] at h
  split at h
  · obtain ⟨name,-,rfl⟩ := Option.map_eq_some_iff.mp h
    exact ⟨name,rfl⟩
  · cases h

end Write

inductive WriteStage where
  | start
  | opened (inode : ℕ)
  | written (inode : ℕ)
  | synced (inode : ℕ)

/-- The temporary file that is being written. -/
def WriteStage.file : WriteStage → Option ℕ
  | .start => none
  | .opened i | .written i | .synced i => some i

/-- A call with the files it has still to replace; it has ended when there are none. -/
structure Call (α : Type) where
  todo : List (Write α)
  stage : WriteStage

/-- The steps of the calls, by position.  `put` and `finish` come with the contents a file gets that
another call has open too. -/
inductive WriterAction (α : Type) where
  | create (t : ℕ)
  | put (t : ℕ) (mixed : α)
  | finish (t : ℕ) (mixed : α)
  | sync (t : ℕ)
  | move (t : ℕ)
  | fail (t : ℕ)

structure Writers (α : Type) where
  files : Inodes α
  calls : List (Call α)
  /-- The files that more than one call has written to. -/
  shared : ℕ → Bool

namespace Writers
variable {α : Type} [Contents α]

def idle (files : Inodes α) : Writers α := ⟨files,[],fun _ => false⟩

/-- A call begins. -/
def call (s : Writers α) (ws : List (Write α)) : Writers α :=
  { s with calls := s.calls ++ [⟨ws,.start⟩] }

/-- A crash: the files stay as they are. -/
def crash (s : Writers α) : Writers α := idle s.files

/-- A call goes on to a stage of the write it is at. -/
def enter (s : Writers α) (t : ℕ) (w : Write α) (ws : List (Write α)) (stage : WriteStage) : Writers α :=
  { s with calls := s.calls.set t ⟨w :: ws,stage⟩ }

/-- A call is done with a write. -/
def leave (s : Writers α) (t : ℕ) (ws : List (Write α)) : Writers α :=
  { s with calls := s.calls.set t ⟨ws,.start⟩ }

def withFiles (s : Writers α) (files : Inodes α) : Writers α := { s with files := files }

/-- Another call has the file at a path open, or is about to move it. -/
def busy (s : Writers α) (p : Path) : Bool :=
  s.calls.any fun call => call.stage.file = some (s.files.opened p)

def openFile (s : Writers α) (p : Path) : Writers α where
  files := s.files.create p
  calls := s.calls
  shared := Function.update s.shared (s.files.opened p) (s.busy p)

def step (s : Writers α) : WriterAction α → Option (Writers α)
  | .create t =>
    match s.calls[t]? with
    | some ⟨w :: ws,.start⟩ =>
      if components w.raw = [] then some (s.leave t [])
      else some ((s.openFile w.tmp).enter t w ws (.opened (s.files.opened w.tmp)))
    | _ => none
  | .put t mixed =>
    match s.calls[t]? with
    | some ⟨w :: ws,.opened i⟩ =>
      some ((s.withFiles (s.files.write i (if s.shared i then mixed else Contents.torn))).enter t w ws
        (.opened i))
    | _ => none
  | .finish t mixed =>
    match s.calls[t]? with
    | some ⟨w :: ws,.opened i⟩ =>
      some ((s.withFiles (s.files.write i (if s.shared i then mixed else w.data))).enter t w ws
        (.written i))
    | _ => none
  | .sync t =>
    match s.calls[t]? with
    | some ⟨w :: ws,.written i⟩ => some (s.enter t w ws (.synced i))
    | _ => none
  | .move t =>
    match s.calls[t]? with
    | some ⟨w :: ws,.synced _⟩ =>
      match s.files.names w.tmp, w.target with
      | some _, some q => some ((s.withFiles (s.files.rename w.tmp q)).leave t ws)
      | _, _ => some (s.leave t [])
    | _ => none
  | .fail t => if t < s.calls.length then some (s.leave t []) else none

/-- What a step does. -/
inductive Effect (s : Writers α) : WriterAction α → Writers α → Prop
  | opens {t w ws} (hcall : s.calls[t]? = some ⟨w :: ws,.start⟩) :
      Effect s (.create t) ((s.openFile w.tmp).enter t w ws (.opened (s.files.opened w.tmp)))
  | writes {act t w ws i c stage} (hcall : s.calls[t]? = some ⟨w :: ws,.opened i⟩)
      (hstage : stage = .opened i ∨ stage = .written i ∧ (s.shared i = false → c = w.data)) :
      Effect s act ((s.withFiles (s.files.write i c)).enter t w ws stage)
  | syncs {act t w ws i} (hcall : s.calls[t]? = some ⟨w :: ws,.written i⟩) :
      Effect s act (s.enter t w ws (.synced i))
  | moves {act t w ws i j q} (hcall : s.calls[t]? = some ⟨w :: ws,.synced i⟩)
      (hj : s.files.names w.tmp = some j) (hq : w.target = some q) :
      Effect s act ((s.withFiles (s.files.rename w.tmp q)).leave t ws)
  | ends {act t} : Effect s act (s.leave t [])

theorem effect_of_step {s s' : Writers α} {act : WriterAction α} (h : s.step act = some s') :
    Effect s act s' := by
  cases act with
  | create t =>
    rw [step] at h
    split at h
    · rename_i w ws hcall
      split at h
      · obtain rfl := Option.some.inj h
        exact .ends
      · obtain rfl := Option.some.inj h
        exact .opens hcall
    · cases h
  | put t mixed =>
    rw [step] at h
    split at h
    · rename_i w ws i hcall
      obtain rfl := Option.some.inj h
      exact .writes hcall (Or.inl rfl)
    · cases h
  | finish t mixed =>
    rw [step] at h
    split at h
    · rename_i w ws i hcall
      obtain rfl := Option.some.inj h
      refine .writes hcall (Or.inr ⟨rfl,fun hshared => ?_⟩)
      rw [hshared]
      rfl
    · cases h
  | sync t =>
    rw [step] at h
    split at h
    · rename_i w ws i hcall
      obtain rfl := Option.some.inj h
      exact .syncs hcall
    · cases h
  | move t =>
    rw [step] at h
    split at h
    · rename_i w ws i hcall
      split at h
      · rename_i j q hj hq
        obtain rfl := Option.some.inj h
        exact .moves hcall hj hq
      · obtain rfl := Option.some.inj h
        exact .ends
    · cases h
  | fail t =>
    rw [step] at h
    split at h
    · obtain rfl := Option.some.inj h
      exact .ends
    · cases h

end Writers

section Directory
variable {α : Type} (Q : Path) (Good : String → α → Prop)

/-- A call is at a write, with its temporary file open or about to be moved. -/
def Writers.At (s : Writers α) (t : ℕ) (w : Write α) (stage : WriteStage) (i : ℕ) : Prop :=
  ∃ ws, s.calls[t]? = some ⟨w :: ws,stage⟩ ∧ stage.file = some i

/-- A write into the directory leads to a name and contents that belong there. -/
def Placed (w : Write α) : Prop :=
  w.dir = Q → ∃ name, isTemporary name = false ∧ w.target = some (Q ++ [name]) ∧ Good name w.data

/-- What is known of a temporary file that a call is at: if it is in the directory it is there under its
name, no other call has touched it, and once written it is whole. -/
structure Holds (s : Writers α) (w : Write α) (stage : WriteStage) (i : ℕ) : Prop where
  lt : i < s.files.fresh
  own : w.dir = Q → s.files.names w.tmp = some i ∧ s.shared i = false
  apart : ∀ p, s.files.names p = some i → p.dropLast = Q → w.dir = Q
  whole : w.dir = Q → stage ≠ .opened i → s.files.contents i = w.data

/-- No two calls are at one temporary file of the directory, and every other file there is whole. -/
structure Orderly (s : Writers α) : Prop where
  placed : ∀ call ∈ s.calls, ∀ w ∈ call.todo, Placed Q Good w
  held : ∀ t w stage i, s.At t w stage i → Holds Q s w stage i
  alone : ∀ t t' w w' stage stage' i, s.At t w stage i → s.At t' w' stage' i → t' ≠ t → w.dir ≠ Q
  entries : ∀ name i, s.files.names (Q ++ [name]) = some i →
    isTemporary name = true ∨ Good name (s.files.contents i)

end Directory

section Steps
variable {α : Type} {Q : Path} {Good : String → α → Prop} {s s' : Writers α} {t t' i i' : ℕ}
  {w w' : Write α} {ws : List (Write α)} {stage stage' : WriteStage}

theorem getElem?_set_cases {β : Type} {l : List β} {x y : β} (h : (l.set t x)[t']? = some y) :
    t' = t ∧ y = x ∨ t' ≠ t ∧ l[t']? = some y := by
  by_cases ht : t' = t
  · subst ht
    have hlt := (List.getElem?_eq_some_iff.mp h).1
    rw [List.length_set] at hlt
    rw [List.getElem?_set_self hlt] at h
    exact Or.inl ⟨rfl,(Option.some.inj h).symm⟩
  · rw [List.getElem?_set_ne (Ne.symm ht)] at h
    exact Or.inr ⟨ht,h⟩

theorem Writers.At.of_enter (h : (s.enter t w ws stage).At t' w' stage' i) :
    t' = t ∧ w' = w ∧ stage' = stage ∧ stage.file = some i ∨ t' ≠ t ∧ s.At t' w' stage' i := by
  obtain ⟨ws',hcall,hfile⟩ := h
  rcases getElem?_set_cases hcall with ⟨ht,heq⟩ | ⟨ht,hcall⟩
  · obtain ⟨htodo,rfl⟩ := Call.mk.inj heq
    exact Or.inl ⟨ht,(List.cons.inj htodo).1,rfl,hfile⟩
  · exact Or.inr ⟨ht,ws',hcall,hfile⟩

theorem Writers.At.of_leave (h : (s.leave t ws).At t' w' stage' i) :
    t' ≠ t ∧ s.At t' w' stage' i := by
  obtain ⟨ws',hcall,hfile⟩ := h
  rcases getElem?_set_cases hcall with ⟨ht,heq⟩ | ⟨ht,hcall⟩
  · obtain ⟨-,rfl⟩ := Call.mk.inj heq
    cases hfile
  · exact ⟨ht,ws',hcall,hfile⟩

theorem Writers.At.of_call (h : (s.call ws).At t w stage i) : s.At t w stage i := by
  obtain ⟨ws',hcall,hfile⟩ := h
  change (s.calls ++ [⟨ws,.start⟩])[t]? = _ at hcall
  rw [List.getElem?_append] at hcall
  split at hcall
  · exact ⟨ws',hcall,hfile⟩
  · obtain ⟨-,rfl⟩ := Call.mk.inj (List.mem_singleton.mp (List.mem_of_getElem? hcall))
    cases hfile

theorem placed_set {call : Call α} (h : ∀ call ∈ s.calls, ∀ w ∈ call.todo, Placed Q Good w)
    (hnew : ∀ w ∈ call.todo, Placed Q Good w) :
    ∀ call' ∈ s.calls.set t call, ∀ w ∈ call'.todo, Placed Q Good w := by
  intro call' hmem
  rcases List.mem_or_eq_of_mem_set hmem with hold | rfl
  · exact h call' hold
  · exact hnew

theorem Orderly.placed_at (h : Orderly Q Good s) (hcall : s.calls[t]? = some ⟨ws,stage⟩) :
    ∀ w ∈ ws, Placed Q Good w := h.placed _ (List.mem_of_getElem? hcall)

/-- The files stay as they are, and calls get no further than their files are whole. -/
theorem Orderly.of_files (h : Orderly Q Good s) (hfiles : s'.files = s.files)
    (hshared : ∀ i, s.shared i = false → s'.shared i = false)
    (hplaced : ∀ call ∈ s'.calls, ∀ w ∈ call.todo, Placed Q Good w)
    (hat : ∀ t w stage i, s'.At t w stage i →
      ∃ stage', s.At t w stage' i ∧ (stage ≠ .opened i → stage' ≠ .opened i)) : Orderly Q Good s' := by
  refine ⟨hplaced,?_,?_,?_⟩
  · intro t w stage i h'
    obtain ⟨stage',hold,hstage⟩ := hat t w stage i h'
    have hholds := h.held t w stage' i hold
    refine ⟨?_,?_,?_,?_⟩
    · rw [hfiles]
      exact hholds.lt
    · intro hw
      rw [hfiles]
      exact ⟨(hholds.own hw).1,hshared i (hholds.own hw).2⟩
    · rw [hfiles]
      exact hholds.apart
    · intro hw hne
      rw [hfiles]
      exact hholds.whole hw (hstage hne)
  · intro t t' w w' stage stage' i h1 h2
    obtain ⟨st,h1,-⟩ := hat _ _ _ _ h1
    obtain ⟨st',h2,-⟩ := hat _ _ _ _ h2
    exact h.alone t t' w w' st st' i h1 h2
  · rw [hfiles]
    exact h.entries

theorem orderly_idle {files : Inodes α}
    (h : ∀ name i, files.names (Q ++ [name]) = some i →
      isTemporary name = true ∨ Good name (files.contents i)) : Orderly Q Good (Writers.idle files) := by
  have hno : ∀ t w stage i, ¬ (Writers.idle files).At t w stage i := by
    rintro t w stage i ⟨ws,hcall,-⟩
    cases hcall
  refine ⟨?_,?_,?_,h⟩
  · intro call hmem
    exact absurd hmem List.not_mem_nil
  · intro t w stage i hat
    exact absurd hat (hno t w stage i)
  · intro t t' w w' stage stage' i hat
    exact absurd hat (hno t w stage i)

theorem Orderly.crash (h : Orderly Q Good s) : Orderly Q Good s.crash := orderly_idle h.entries

theorem Orderly.call (h : Orderly Q Good s) (hws : ∀ w ∈ ws, Placed Q Good w) :
    Orderly Q Good (s.call ws) := by
  refine h.of_files rfl (fun _ hi => hi) ?_ ?_
  · intro call hmem
    rcases List.mem_append.mp hmem with hold | hnew
    · exact h.placed call hold
    · rw [List.mem_singleton.mp hnew]
      exact hws
  · intro t w stage i hat
    exact ⟨stage,hat.of_call,fun hne => hne⟩

theorem Orderly.ends (h : Orderly Q Good s) : Orderly Q Good (s.leave t []) := by
  refine h.of_files rfl (fun _ hi => hi) ?_ ?_
  · exact placed_set h.placed fun _ hw => by cases hw
  · intro t' w stage i hat
    exact ⟨stage,hat.of_leave.2,fun hne => hne⟩

theorem Orderly.syncs (h : Orderly Q Good s) (hcall : s.calls[t]? = some ⟨w :: ws,.written i⟩) :
    Orderly Q Good (s.enter t w ws (.synced i)) := by
  refine h.of_files rfl (fun _ hi => hi) ?_ ?_
  · exact placed_set h.placed (h.placed_at hcall)
  · intro t' w' stage i' hat
    rcases hat.of_enter with ⟨rfl,rfl,rfl,hfile⟩ | ⟨-,hold⟩
    · refine ⟨.written i,⟨ws,hcall,hfile⟩,fun _ hst => ?_⟩
      cases hst
    · exact ⟨stage,hold,fun hne => hne⟩

theorem holds_opened [Contents α] (hbusy : w.dir = Q → s.busy w.tmp = false) :
    Holds Q ((s.openFile w.tmp).enter t w ws (.opened (s.files.opened w.tmp))) w
      (.opened (s.files.opened w.tmp)) (s.files.opened w.tmp) where
  lt := Nat.lt_of_lt_of_le (Nat.lt_succ_self _) (Nat.le_max_right ..)
  own hw := ⟨Inodes.names_create_self,(Function.update_self ..).trans (hbusy hw)⟩
  apart p hp hpQ := by
    by_cases heq : p = w.tmp
    · rw [heq,Write.dropLast_tmp] at hpQ
      exact hpQ
    · exact absurd (Inodes.eq_of_names_opened ((Inodes.names_create_of_ne heq).symm.trans hp)) heq
  whole _ hne := absurd rfl hne

theorem Orderly.opens [Contents α] (h : Orderly Q Good s)
    (hcall : s.calls[t]? = some ⟨w :: ws,.start⟩) (hbusy : w.dir = Q → s.busy w.tmp = false) :
    Orderly Q Good ((s.openFile w.tmp).enter t w ws (.opened (s.files.opened w.tmp))) := by
  -- Nobody else is at the file when it is in the directory.
  have hfree : w.dir = Q → ∀ t' w' stage', ¬ s.At t' w' stage' (s.files.opened w.tmp) := by
    rintro hw t' w' stage' ⟨ws',hcall',hfile⟩
    have hany := List.any_eq_false.mp (hbusy hw) _ (List.mem_of_getElem? hcall')
    exact hany (decide_eq_true hfile)
  -- A file of the directory that another call is at is not the one that is opened.
  have hother : ∀ t' w' stage' i, w'.dir = Q → s.At t' w' stage' i → i ≠ s.files.opened w.tmp := by
    rintro t' w' stage' i hw' hat rfl
    have hname := ((h.held _ _ _ _ hat).own hw').1
    have htmp := congrArg List.dropLast (Inodes.eq_of_names_opened hname)
    rw [Write.dropLast_tmp,Write.dropLast_tmp,hw'] at htmp
    exact hfree htmp.symm t' w' stage' hat
  refine ⟨placed_set h.placed (h.placed_at hcall),?_,?_,?_⟩
  · intro t' w' stage i hat
    rcases hat.of_enter with ⟨rfl,rfl,rfl,hfile⟩ | ⟨-,hold⟩
    · obtain rfl := Option.some.inj hfile
      exact holds_opened hbusy
    · have hholds := h.held t' w' stage i hold
      refine ⟨Nat.lt_of_lt_of_le hholds.lt (Nat.le_max_left ..),?_,?_,?_⟩
      · intro hw'
        obtain ⟨hname,hshared⟩ := hholds.own hw'
        have hne : w'.tmp ≠ w.tmp := by
          intro heq
          rw [heq] at hname
          exact hother t' w' stage i hw' hold (Inodes.opened_of_some hname).symm
        exact ⟨(Inodes.names_create_of_ne hne).trans hname,
          (Function.update_of_ne (hother t' w' stage i hw' hold) ..).trans hshared⟩
      · intro p hp hpQ
        by_cases heq : p = w.tmp
        · subst heq
          rw [Write.dropLast_tmp] at hpQ
          obtain rfl := Option.some.inj (Inodes.names_create_self.symm.trans hp)
          exact absurd hold (hfree hpQ t' w' stage)
        · exact hholds.apart p ((Inodes.names_create_of_ne heq).symm.trans hp) hpQ
      · intro hw' hne
        exact (Inodes.contents_create_of_ne (hother t' w' stage i hw' hold)).trans (hholds.whole hw' hne)
  · intro t1 t2 w1 w2 stage1 stage2 i hat1 hat2 hne hw1
    rcases hat1.of_enter with ⟨rfl,rfl,-,hfile⟩ | ⟨-,hold1⟩
    · obtain rfl := Option.some.inj hfile
      rcases hat2.of_enter with ⟨ht,-⟩ | ⟨-,hold2⟩
      · exact hne ht
      · exact hfree hw1 t2 w2 stage2 hold2
    · rcases hat2.of_enter with ⟨-,-,-,hfile⟩ | ⟨-,hold2⟩
      · exact hother t1 w1 stage1 i hw1 hold1 (Option.some.inj hfile).symm
      · exact h.alone t1 t2 w1 w2 stage1 stage2 i hold1 hold2 hne hw1
  · intro name i hname
    by_cases heq : Q ++ [name] = w.tmp
    · exact Or.inl (Write.isTemporary_of_tmp heq.symm)
    · replace hname := (Inodes.names_create_of_ne heq).symm.trans hname
      have hne : i ≠ s.files.opened w.tmp := by
        rintro rfl
        exact heq (Inodes.eq_of_names_opened hname)
      change _ ∨ Good name ((s.files.create w.tmp).contents i)
      rw [Inodes.contents_create_of_ne hne]
      exact h.entries name i hname

theorem Orderly.writes {c : α} (h : Orderly Q Good s)
    (hcall : s.calls[t]? = some ⟨w :: ws,.opened i⟩)
    (hstage : stage = .opened i ∨ stage = .written i ∧ (s.shared i = false → c = w.data)) :
    Orderly Q Good ((s.withFiles (s.files.write i c)).enter t w ws stage) := by
  have hat0 : s.At t w (.opened i) i := ⟨ws,hcall,rfl⟩
  have hholds0 := h.held t w _ i hat0
  have hfile0 : stage.file = some i := by
    rcases hstage with rfl | ⟨rfl,-⟩ <;> rfl
  refine ⟨placed_set h.placed (h.placed_at hcall),?_,?_,?_⟩
  · intro t' w' stage' i' hat
    rcases hat.of_enter with ⟨rfl,rfl,rfl,hfile⟩ | ⟨ht,hold⟩
    · obtain rfl := Option.some.inj (hfile0.symm.trans hfile)
      refine ⟨hholds0.lt,hholds0.own,hholds0.apart,?_⟩
      intro hw hne
      rcases hstage with rfl | ⟨-,hc⟩
      · exact absurd rfl hne
      · exact Inodes.contents_write_self.trans (hc (hholds0.own hw).2)
    · have hholds := h.held t' w' stage' i' hold
      refine ⟨hholds.lt,hholds.own,hholds.apart,?_⟩
      intro hw' hne
      have hi : i' ≠ i := by
        rintro rfl
        exact h.alone t' t w' w stage' _ i' hold hat0 (Ne.symm ht) hw'
      exact (Inodes.contents_write_of_ne hi).trans (hholds.whole hw' hne)
  · have hback : ∀ t' w' stage' i', ((s.withFiles (s.files.write i c)).enter t w ws stage).At t' w' stage' i' →
        ∃ stage'', s.At t' w' stage'' i' := by
      intro t' w' stage' i' hat
      rcases hat.of_enter with ⟨rfl,rfl,-,hfile⟩ | ⟨-,hold⟩
      · obtain rfl := Option.some.inj (hfile0.symm.trans hfile)
        exact ⟨_,hat0⟩
      · exact ⟨stage',hold⟩
    intro t1 t2 w1 w2 stage1 stage2 i' hat1 hat2
    obtain ⟨st1,hold1⟩ := hback _ _ _ _ hat1
    obtain ⟨st2,hold2⟩ := hback _ _ _ _ hat2
    exact h.alone t1 t2 w1 w2 st1 st2 i' hold1 hold2
  · intro name k hname
    by_cases hk : k = i
    · subst hk
      -- The file is the temporary file of the call, so the name is that of a temporary file.
      have hw := hholds0.apart _ hname (List.dropLast_concat ..)
      exact Or.inl (Write.isTemporary_of_tmp (s.files.inj _ _ k (hholds0.own hw).1 hname))
    · change _ ∨ Good name ((s.files.write i c).contents k)
      rw [Inodes.contents_write_of_ne hk]
      exact h.entries name k hname

theorem Orderly.moves {q : Path} (h : Orderly Q Good s)
    (hcall : s.calls[t]? = some ⟨w :: ws,.synced i⟩) (hq : w.target = some q) :
    Orderly Q Good ((s.withFiles (s.files.rename w.tmp q)).leave t ws) := by
  have hat0 : s.At t w (.synced i) i := ⟨ws,hcall,rfl⟩
  have hholds0 := h.held t w _ i hat0
  have hqdir : q.dropLast = w.dir := by
    obtain ⟨name,rfl⟩ := Write.target_eq hq
    exact List.dropLast_concat ..
  have hplace : w.dir = Q → ∃ name, isTemporary name = false ∧ q = Q ++ [name] ∧ Good name w.data := by
    intro hw
    obtain ⟨name,htmp,htarget,hgood⟩ := h.placed_at hcall w List.mem_cons_self hw
    exact ⟨name,htmp,Option.some.inj (hq.symm.trans htarget),hgood⟩
  -- What the names of the directory lead to afterwards.
  have hnames : ∀ r k, r.dropLast = Q → (s.files.rename w.tmp q).names r = some k →
      r = q ∧ w.dir = Q ∧ k = i ∨ s.files.names r = some k := by
    intro r k hrQ hr
    by_cases hrq : r = q
    · subst hrq
      have hw : w.dir = Q := hqdir.symm.trans hrQ
      rw [Inodes.names_rename_self,(hholds0.own hw).1] at hr
      exact Or.inl ⟨rfl,hw,(Option.some.inj hr).symm⟩
    · right
      by_cases hrt : r = w.tmp
      · subst hrt
        rw [Inodes.names_rename_gone hrq] at hr
        cases hr
      · exact (Inodes.names_rename_of_ne hrt hrq).symm.trans hr
  refine ⟨?_,?_,?_,?_⟩
  · apply placed_set h.placed
    intro v hv
    exact h.placed_at hcall v (List.mem_cons_of_mem w hv)
  · intro t' w' stage i' hat
    obtain ⟨ht,hold⟩ := hat.of_leave
    have hholds := h.held t' w' stage i' hold
    refine ⟨hholds.lt,?_,?_,hholds.whole⟩
    · intro hw'
      obtain ⟨hname,hshared⟩ := hholds.own hw'
      refine ⟨?_,hshared⟩
      have hq' : w'.tmp ≠ q := by
        rintro rfl
        obtain ⟨name,htmp,hqeq,-⟩ := hplace (hqdir.symm.trans ((Write.dropLast_tmp w').trans hw'))
        exact w'.tmp_ne htmp hqeq
      have htmp' : w'.tmp ≠ w.tmp := by
        intro heq
        have hw : w.dir = Q := by
          rw [← Write.dropLast_tmp,← heq,Write.dropLast_tmp,hw']
        rw [heq,(hholds0.own hw).1] at hname
        obtain rfl := Option.some.inj hname
        exact h.alone t t' w w' _ stage i hat0 hold ht hw
      exact (Inodes.names_rename_of_ne htmp' hq').trans hname
    · intro p hp hpQ
      rcases hnames p i' hpQ hp with ⟨-,hw,rfl⟩ | hname
      · exact absurd hw (h.alone t t' w w' _ stage i' hat0 hold ht)
      · exact hholds.apart p hname hpQ
  · intro t1 t2 w1 w2 stage1 stage2 i' hat1 hat2
    exact h.alone t1 t2 w1 w2 stage1 stage2 i' hat1.of_leave.2 hat2.of_leave.2
  · intro name k hname
    rcases hnames _ k (List.dropLast_concat ..) hname with ⟨hqeq,hw,rfl⟩ | hold
    · obtain ⟨name',-,hqeq',hgood⟩ := hplace hw
      rw [hqeq'] at hqeq
      obtain rfl := List.singleton_inj.mp (List.append_cancel_left hqeq)
      right
      change Good name (s.files.contents k)
      rw [hholds0.whole hw (by intro hst; cases hst)]
      exact hgood
    · exact h.entries name k hold

/-- A file may be moved out of the directory. -/
theorem Orderly.renameOut {name : String} {q : Path} (h : Orderly Q Good s)
    (hname : isTemporary name = false) (hq : q.dropLast ≠ Q) :
    Orderly Q Good (s.withFiles (s.files.rename (Q ++ [name]) q)) := by
  have hnames : ∀ r k, r.dropLast = Q → (s.files.rename (Q ++ [name]) q).names r = some k →
      s.files.names r = some k := by
    intro r k hrQ hr
    have hrq : r ≠ q := by
      rintro rfl
      exact hq hrQ
    by_cases hrp : r = Q ++ [name]
    · subst hrp
      rw [Inodes.names_rename_gone hrq] at hr
      cases hr
    · exact (Inodes.names_rename_of_ne hrp hrq).symm.trans hr
  refine ⟨h.placed,?_,h.alone,?_⟩
  · intro t w stage i hat
    have hholds := h.held t w stage i hat
    refine ⟨hholds.lt,?_,?_,hholds.whole⟩
    · intro hw
      have htq : w.tmp ≠ q := by
        rintro rfl
        exact hq (w.dropLast_tmp.trans hw)
      exact ⟨(Inodes.names_rename_of_ne (w.tmp_ne hname) htq).trans (hholds.own hw).1,(hholds.own hw).2⟩
    · intro r hr hrQ
      exact hholds.apart r (hnames r i hrQ hr) hrQ
  · intro name' k hk
    exact h.entries name' k (hnames _ k (List.dropLast_concat ..) hk)

/-- Every step keeps the directory in order, as long as no temporary file is created while another call is
at it. -/
theorem Orderly.step [Contents α] {act : WriterAction α} (h : Orderly Q Good s)
    (hstep : s.step act = some s')
    (hbusy : ∀ t w ws, act = .create t → s.calls[t]? = some ⟨w :: ws,.start⟩ → w.dir = Q →
      s.busy w.tmp = false) : Orderly Q Good s' := by
  cases Writers.effect_of_step hstep with
  | opens hcall => exact h.opens hcall (hbusy _ _ _ rfl hcall)
  | writes hcall hstage => exact h.writes hcall hstage
  | syncs hcall => exact h.syncs hcall
  | moves hcall _ hq => exact h.moves hcall hq
  | ends => exact h.ends

end Steps

section Reading
variable {α : Type} {Q : Path} {Good : String → α → Prop} {s s' : Writers α} {t i : ℕ} {name : String}

/-- A file that no call writes to, now or later. -/
structure Settled (s : Writers α) (i : ℕ) : Prop where
  lt : i < s.files.fresh
  free : ∀ t w stage, ¬ s.At t w stage i
  named : ∀ w : Write α, s.files.names w.tmp ≠ some i

theorem Orderly.settled (h : Orderly Q Good s) (hname : isTemporary name = false)
    (hi : s.files.names (Q ++ [name]) = some i) : Settled s i := by
  have hnamed : ∀ w : Write α, s.files.names w.tmp ≠ some i := by
    intro w hw
    exact w.tmp_ne hname (s.files.inj _ _ i hw hi)
  refine ⟨s.files.lt_fresh _ i hi,?_,hnamed⟩
  intro t w stage hat
  have hholds := h.held t w stage i hat
  exact hnamed w (hholds.own (hholds.apart _ hi (List.dropLast_concat ..))).1

theorem Orderly.good (h : Orderly Q Good s) (hname : isTemporary name = false)
    (hi : s.files.names (Q ++ [name]) = some i) : Good name (s.files.contents i) := by
  rcases h.entries name i hi with htmp | hgood
  · rw [hname] at htmp
    cases htmp
  · exact hgood

theorem Settled.call (h : Settled s i) (ws : List (Write α)) : Settled (s.call ws) i :=
  ⟨h.lt,fun t w stage hat => h.free t w stage hat.of_call,h.named⟩

/-- What a file holds stays readable through an open file. -/
theorem Settled.step [Contents α] {act : WriterAction α} (h : Settled s i)
    (hstep : s.step act = some s') : Settled s' i ∧ s'.files.contents i = s.files.contents i := by
  cases Writers.effect_of_step hstep with
  | @opens t w ws hcall =>
    have hne : i ≠ s.files.opened w.tmp := by
      intro heq
      cases hp : s.files.names w.tmp with
      | none =>
        rw [Inodes.opened_of_none hp] at heq
        exact absurd h.lt (heq ▸ Nat.lt_irrefl _)
      | some j =>
        rw [Inodes.opened_of_some hp] at heq
        exact h.named w (heq ▸ hp)
    refine ⟨⟨Nat.lt_of_lt_of_le h.lt (Nat.le_max_left ..),?_,?_⟩,Inodes.contents_create_of_ne hne⟩
    · intro t' w' stage' hat
      rcases hat.of_enter with ⟨-,-,-,hfile⟩ | ⟨-,hold⟩
      · exact hne (Option.some.inj hfile).symm
      · exact h.free t' w' stage' hold
    · intro w' hw'
      by_cases heq : w'.tmp = w.tmp
      · rw [heq] at hw'
        exact hne (Option.some.inj (Inodes.names_create_self.symm.trans hw')).symm
      · exact h.named w' ((Inodes.names_create_of_ne heq).symm.trans hw')
  | @writes _ t w ws j c stage hcall hstage =>
    have hat : s.At t w (.opened j) j := ⟨ws,hcall,rfl⟩
    have hne : i ≠ j := by
      rintro rfl
      exact h.free _ _ _ hat
    refine ⟨⟨h.lt,?_,h.named⟩,Inodes.contents_write_of_ne hne⟩
    intro t' w' stage' hat'
    rcases hat'.of_enter with ⟨-,-,-,hfile⟩ | ⟨-,hold⟩
    · have hj : stage.file = some j := by
        rcases hstage with rfl | ⟨rfl,-⟩ <;> rfl
      exact hne (Option.some.inj (hfile.symm.trans hj))
    · exact h.free t' w' stage' hold
  | @syncs _ t w ws j hcall =>
    refine ⟨⟨h.lt,?_,h.named⟩,rfl⟩
    intro t' w' stage' hat
    rcases hat.of_enter with ⟨-,-,-,hfile⟩ | ⟨-,hold⟩
    · exact h.free t w (.written j) ⟨ws,hcall,hfile⟩
    · exact h.free t' w' stage' hold
  | @moves _ t w ws j k q hcall hk hq =>
    refine ⟨⟨h.lt,fun t' w' stage' hat => h.free t' w' stage' hat.of_leave.2,?_⟩,rfl⟩
    intro w' hw'
    by_cases hw'q : w'.tmp = q
    · subst hw'q
      exact h.named w (Inodes.names_rename_self.symm.trans hw')
    · by_cases hw't : w'.tmp = w.tmp
      · rw [hw't] at hw' hw'q
        have hgone : (s.files.rename w.tmp q).names w.tmp = none := Inodes.names_rename_gone hw'q
        cases hgone.symm.trans hw'
      · exact h.named w' ((Inodes.names_rename_of_ne hw't hw'q).symm.trans hw')
  | ends =>
    exact ⟨⟨h.lt,fun t' w' stage' hat => h.free t' w' stage' hat.of_leave.2,h.named⟩,rfl⟩

/-- A file that has been moved to its place stays there, itself or a later one. -/
theorem Writers.isSome_of_step [Contents α] {act : WriterAction α} {d : Path}
    (hstep : s.step act = some s') (hname : isTemporary name = false)
    (h : (s.files.names (d ++ [name])).isSome = true) :
    (s'.files.names (d ++ [name])).isSome = true := by
  cases effect_of_step hstep with
  | @opens t w ws hcall =>
    change ((s.files.create w.tmp).names (d ++ [name])).isSome = true
    rw [Inodes.names_create_of_ne (w.tmp_ne hname).symm]
    exact h
  | writes hcall hstage => exact h
  | syncs hcall => exact h
  | @moves _ t w ws j k q hcall hk hq =>
    change ((s.files.rename w.tmp q).names (d ++ [name])).isSome = true
    by_cases heq : d ++ [name] = q
    · rw [heq,Inodes.names_rename_self,hk]
      rfl
    · rw [Inodes.names_rename_of_ne (w.tmp_ne hname).symm heq]
      exact h
  | ends => exact h

end Reading

section Alone
variable {α : Type} [Contents α] {s : Writers α} {t : ℕ} {w : Write α} {ws : List (Write α)}

def Writers.run (s : Writers α) : List (WriterAction α) → Option (Writers α)
  | [] => some s
  | act :: acts => (s.step act).bind fun s' => s'.run acts

theorem components_ne_nil {raw : List String} {name : String} (h : fileName raw = some name) :
    components raw ≠ [] := by
  intro hnil
  rw [fileName,hnil] at h
  cases h

/-- The files after a write: its file in place, its temporary file gone, the others as they were. -/
theorem Inodes.fileAt_replaced {fs : Inodes α} {p q r : Path} {c : α} (hpq : p ≠ q) :
    (((fs.create p).write (fs.opened p) c).rename p q).fileAt r =
      if r = q then some c else if r = p then none else fs.fileAt r := by
  rw [fileAt,contents_rename]
  by_cases hrq : r = q
  · rw [if_pos hrq,hrq,names_rename_self,names_write,names_create_self,Option.map_some,
      contents_write_self]
  · rw [if_neg hrq]
    by_cases hrp : r = p
    · rw [if_pos hrp,hrp,names_rename_gone hpq]
      rfl
    · rw [if_neg hrp,names_rename_of_ne hrp hrq,names_write,names_create_of_ne hrp,fileAt]
      cases hr : fs.names r with
      | none => rfl
      | some i =>
        have hne : i ≠ fs.opened p := by
          rintro rfl
          exact hrp (eq_of_names_opened hr)
        rw [Option.map_some,Option.map_some,contents_write_of_ne hne,contents_create_of_ne hne]

/-- A write whose steps nothing comes between replaces the file as one operation does. -/
theorem Writers.run_write {q : Path} (hcall : s.calls[t]? = some ⟨w :: ws,.start⟩)
    (hbusy : s.busy w.tmp = false) (hq : w.target = some q) {fs fs' : FileSystem α}
    (hsame : ∀ p, fs.fileAt p = s.files.fileAt p)
    (h : (atomicWrite w.raw w.data).exec fs = .ok ((),fs')) :
    ∃ s', s.run [.create t,.finish t Contents.torn,.sync t,.move t] = some s' ∧
      ∀ p, fs'.fileAt p = s'.files.fileAt p := by
  obtain ⟨name,hname,hwritten⟩ := atomicWrite_spec h
  have hlt := (List.getElem?_eq_some_iff.mp hcall).1
  have hset : ∀ (calls : List (Call α)) stage, calls.length = s.calls.length →
      (calls.set t ⟨w :: ws,stage⟩)[t]? = some ⟨w :: ws,stage⟩ := by
    intro calls stage hlen
    rw [← hlen] at hlt
    exact List.getElem?_set_self hlt
  let i := s.files.opened w.tmp
  let s1 := (s.openFile w.tmp).enter t w ws (.opened i)
  let s2 := (s1.withFiles (s1.files.write i w.data)).enter t w ws (.written i)
  let s3 := s2.enter t w ws (.synced i)
  let s4 := (s3.withFiles (s3.files.rename w.tmp q)).leave t ws
  have h1 : s.step (.create t) = some s1 := by
    rw [step,hcall]
    exact if_neg (components_ne_nil hname)
  have h2 : s1.step (.finish t Contents.torn) = some s2 := by
    have hc1 : s1.calls[t]? = some ⟨w :: ws,.opened i⟩ := hset _ _ rfl
    have hshared : s1.shared i = false := (Function.update_self ..).trans hbusy
    rw [step,hc1]
    simp only [hshared,Bool.false_eq_true,if_false]
    rfl
  have h3 : s2.step (.sync t) = some s3 := by
    have hc2 : s2.calls[t]? = some ⟨w :: ws,.written i⟩ := hset _ _ (List.length_set ..)
    rw [step,hc2]
  have h4 : s3.step (.move t) = some s4 := by
    have hc3 : s3.calls[t]? = some ⟨w :: ws,.synced i⟩ :=
      hset _ _ ((List.length_set ..).trans (List.length_set ..))
    have hthere : s3.files.names w.tmp = some i := Inodes.names_create_self
    rw [step,hc3]
    simp only [hthere,hq]
    rfl
  refine ⟨s4,?_,?_⟩
  · simp only [run,h1,h2,h3,h4,Option.bind_some]
  · intro p
    have htmp : w.tmp = w.dir ++ ["." ++ name ++ ".tmp"] := by
      rw [Write.tmp,hname,Option.getD_some]
    have hqeq : q = w.dir ++ [name] := by
      rw [Write.target,hname] at hq
      split at hq
      · exact (Option.some.inj hq).symm
      · cases hq
    have hne : w.tmp ≠ q := by
      rw [htmp,hqeq]
      exact tmp_ne _ _
    change _ = (((s.files.create w.tmp).write i w.data).rename w.tmp q).fileAt p
    rw [Inodes.fileAt_replaced hne]
    by_cases hp : p = q
    · rw [if_pos hp,hp,hqeq]
      exact hwritten.self
    · rw [if_neg hp]
      by_cases hpt : p = w.tmp
      · rw [if_pos hpt,hpt,htmp]
        exact hwritten.tmp
      · rw [if_neg hpt,← hsame]
        rw [hqeq] at hp
        rw [htmp] at hpt
        exact hwritten.others p hp hpt

end Alone

end Disk
