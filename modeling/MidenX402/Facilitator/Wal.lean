import MidenX402.Facilitator.Store
import MidenX402.Json.Reader
import MidenX402.Rust.Lines

/-!
# The nullifier logs, byte by byte

A log is a file of lines, one JSON object each.  An append that is cut off can leave any part of its
bytes.  Reading fails when a line is cut; when only a newline is missing, the next append ends up on
the same line and reading fails from then on.
-/

namespace MidenX402.Facilitator
open Rust

section Writing

def WalEntry.jsonFields (e : WalEntry) : List (List Char × List Char) :=
  [("nullifier".toList,Json.quote e.nullifier.toList),("seq".toList,Json.number e.seq),
    ("ts_unix_micros".toList,Json.number e.tsUnixMicros)]

/-- `serde_json::to_string` of an entry. -/
def WalEntry.toJson (e : WalEntry) : List Char := Json.object e.jsonFields

/-- Both numbers are of type `u64`. -/
def WalEntry.Fits (e : WalEntry) : Prop := e.seq < 2 ^ 64 ∧ e.tsUnixMicros < 2 ^ 64

/-- What is written for some entries. -/
def walBytes (entries : List WalEntry) : List UInt8 :=
  entries.flatMap fun e => asBytes e.toJson ++ [newline]

inductive LogFile where
  | wal
  | spent
deriving DecidableEq

/-- The two logs of an agent, where they exist. -/
structure NullifierLogs where
  wal : Option (List UInt8)
  spent : Option (List UInt8)

/-- Append to a log, creating it when it is missing. -/
def NullifierLogs.append (l : NullifierLogs) (file : LogFile) (bytes : List UInt8) : NullifierLogs :=
  match file with
  | .wal => { l with wal := some (l.wal.getD [] ++ bytes) }
  | .spent => { l with spent := some (l.spent.getD [] ++ bytes) }

def NullifierLogs.appendEntries (file : LogFile) (entries : List WalEntry) (l : NullifierLogs) :
    NullifierLogs := l.append file (walBytes entries)

def NullifierLogs.reserveNullifiers (l : NullifierLogs) (entries : List WalEntry) : NullifierLogs :=
  l.appendEntries .wal entries

def NullifierLogs.markSpent (l : NullifierLogs) (entries : List WalEntry) : NullifierLogs :=
  l.appendEntries .spent entries

inductive LogCall where
  | reserveNullifiers (entries : List WalEntry)
  | markSpent (entries : List WalEntry)

def LogCall.entries : LogCall → List WalEntry
  | .reserveNullifiers es | .markSpent es => es

def LogCall.file : LogCall → LogFile
  | .reserveNullifiers _ => .wal
  | .markSpent _ => .spent

def NullifierLogs.call (l : NullifierLogs) : LogCall → NullifierLogs
  | .reserveNullifiers es => l.reserveNullifiers es
  | .markSpent es => l.markSpent es

end Writing

section Reading
variable (fromStr : String → Option WalEntry)

/-- The lines of a log; `fromStr` is `serde_json::from_str`. -/
def readWalLines : List (Option (List Char)) → Except FacilitatorError (Finset String)
  | [] => .ok ∅
  | none :: _ => .error (.internal "io: stream did not contain valid UTF-8")
  | some line :: rest =>
    if isBlank (String.ofList line) then readWalLines rest
    else match fromStr (String.ofList line) with
      | none => .error (.internal "corrupt WAL entry")
      | some e => (readWalLines rest).map (insert e.nullifier)

def readWalFile : Option (List UInt8) → Except FacilitatorError (Finset String)
  | none => .ok ∅
  | some bytes => readWalLines fromStr (lines bytes)

def NullifierLogs.nullifierView (l : NullifierLogs) : Except FacilitatorError NullifierView := do
  let reserved ← readWalFile fromStr l.wal
  let spent ← readWalFile fromStr l.spent
  return ⟨reserved,spent⟩

/-- What the log relies on: an entry is read back, and a text that is read is one JSON value. -/
structure ReadsEntries (fromStr : String → Option WalEntry) : Prop where
  back : ∀ e : WalEntry, e.Fits → fromStr (String.ofList e.toJson) = some e
  single : ∀ line e, fromStr (String.ofList line) = some e → Json.Single line

/-- After the calls that completed and one that was cut off, the view can be read, holds what it
should and nothing else, and goes on so after the next reservation. -/
structure Recovers (done : List LogCall) (cut : LogCall) (l : NullifierLogs) : Prop where
  view : ∃ v, l.nullifierView fromStr = .ok v ∧
    (∀ c ∈ done, ∀ e ∈ c.entries, v.contains e.nullifier = true) ∧
    ∀ n, v.contains n = true → ∃ c ∈ done ++ [cut], ∃ e ∈ c.entries, e.nullifier = n
  again : ∀ entries : List WalEntry, (∀ e ∈ entries, e.Fits) →
    ∃ v, (l.reserveNullifiers entries).nullifierView fromStr = .ok v ∧
      ∀ e ∈ entries, v.contains e.nullifier = true

end Reading

section Lines
variable {fromStr : String → Option WalEntry} {e e' : WalEntry} {es : List WalEntry}
  {part missing tail : List UInt8}

theorem nested_jsonFields (e : WalEntry) : ∀ f ∈ e.jsonFields, Json.Nested f.2 := by
  simp [WalEntry.jsonFields,Json.nested_quote,Json.nested_number]

theorem newline_notMem_toJson (e : WalEntry) : '\n' ∉ e.toJson := by
  apply Json.newline_notMem_object
  simp [WalEntry.jsonFields,Json.newline_notMem_quote,Json.newline_notMem_number]

theorem getLast?_toJson (e : WalEntry) : e.toJson.getLast? = some '}' := by
  rw [WalEntry.toJson,Json.object,← List.cons_append,List.getLast?_concat]

/-- An entry that has been begun is not blank. -/
theorem not_isBlank_of_starts {u : List Char} (hu : u <+: e.toJson) (hne : u ≠ []) :
    ¬ isBlank (String.ofList u) = true := by
  rcases List.prefix_cons_iff.mp hu with rfl | ⟨v,rfl,-⟩
  · exact absurd rfl hne
  · rw [isBlank,String.toList_ofList,List.all_cons,show isWhitespace '{' = false by decide]
    simp

theorem toJson_ne_nil (e : WalEntry) : e.toJson ≠ [] := List.cons_ne_nil _ _

@[simp] theorem walBytes_cons (e : WalEntry) (es : List WalEntry) :
    walBytes (e :: es) = asBytes e.toJson ++ newline :: walBytes es := by
  simp [walBytes]

@[simp] theorem walBytes_append (es es' : List WalEntry) :
    walBytes (es ++ es') = walBytes es ++ walBytes es' := List.flatMap_append

theorem newline_notMem_asBytes (e : WalEntry) : newline ∉ asBytes e.toJson :=
  fun h => newline_notMem_toJson e (newline_mem_asBytes.mp h)

/-- A complete line comes back as its entry. -/
theorem readWalLines_cons (hserde : ReadsEntries fromStr) (he : e.Fits) (tail : List UInt8) :
    readWalLines fromStr (lines (asBytes e.toJson ++ newline :: tail)) =
      (readWalLines fromStr (lines tail)).map (insert e.nullifier) := by
  have hsplit : asBytes e.toJson ++ newline :: tail = asBytes (e.toJson ++ ['\n']) ++ tail := by
    simp
  have hr : e.toJson.getLast? ≠ some '\r' := by
    rw [getLast?_toJson]
    decide
  rw [hsplit,lines_append (newline_notMem_toJson e) hr,readWalLines,hserde.back e he]
  exact if_neg (not_isBlank_of_starts (List.prefix_refl _) (toJson_ne_nil e))

/-- Complete lines are read before anything that follows them. -/
theorem readWalLines_append (hserde : ReadsEntries fromStr) (hfits : ∀ e ∈ es, e.Fits) :
    readWalLines fromStr (lines (walBytes es ++ tail)) =
      (readWalLines fromStr (lines tail)).map fun s => (es.map WalEntry.nullifier).toFinset ∪ s := by
  induction es with
  | nil =>
    change readWalLines fromStr (lines tail) = _
    cases readWalLines fromStr (lines tail) with
    | error err => rfl
    | ok s => simp [Except.map]
  | cons e es ih =>
    rw [walBytes_cons,List.append_assoc,List.cons_append,
      readWalLines_cons hserde (hfits e List.mem_cons_self),
      ih fun e' he' => hfits e' (List.mem_cons_of_mem e he')]
    cases readWalLines fromStr (lines tail) with
    | error err => rfl
    | ok s => simp [Except.map]

theorem readWalLines_walBytes (hserde : ReadsEntries fromStr) (hfits : ∀ e ∈ es, e.Fits) :
    readWalLines fromStr (lines (walBytes es)) = .ok (es.map WalEntry.nullifier).toFinset := by
  rw [← List.append_nil (walBytes es),readWalLines_append hserde hfits,lines_nil]
  simp [readWalLines,Except.map]

/-- A cut line is an entry only if all of it is there. -/
theorem readWalLines_cut (hserde : ReadsEntries fromStr) (he : e.Fits) (hpart : part ≠ [])
    (hcut : part ++ missing = asBytes e.toJson) :
    (missing = [] → readWalLines fromStr (lines part) = .ok {e.nullifier}) ∧
      (missing ≠ [] → ∃ err, readWalLines fromStr (lines part) = .error err) := by
  have hno : newline ∉ part := by
    intro hmem
    apply newline_notMem_asBytes e
    rw [← hcut]
    exact List.mem_append_left _ hmem
  rw [lines_of_notMem hno hpart]
  constructor
  · rintro rfl
    rw [List.append_nil] at hcut
    rw [hcut,fromUtf8_asBytes,readWalLines,hserde.back e he]
    exact if_neg (not_isBlank_of_starts (List.prefix_refl _) (toJson_ne_nil e))
  · intro hmissing
    cases hcs : fromUtf8 part with
    | none => exact ⟨_,rfl⟩
    | some cs =>
      have hbytes := fromUtf8_eq_some hcs
      rw [hbytes] at hcut
      have hpre : cs <+: e.toJson := prefix_of_asBytes hcut
      have hne : cs ≠ [] := by
        rintro rfl
        exact hpart hbytes
      have hproper : cs ≠ e.toJson := by
        rintro rfl
        exact hmissing (List.append_right_eq_self.mp hcut)
      have hnone : fromStr (String.ofList cs) = none := by
        rw [Option.eq_none_iff_forall_ne_some]
        intro e' hread
        exact Json.not_single_of_starts (nested_jsonFields e) hpre hne hproper
          (hserde.single cs e' hread)
      rw [readWalLines,if_neg (not_isBlank_of_starts hpre hne),hnone]
      exact ⟨_,rfl⟩

/-- An entry appended to a line that lacks its newline spoils the line. -/
theorem readWalLines_glued (hserde : ReadsEntries fromStr) (e e' : WalEntry) (tail : List UInt8) :
    ∃ err, readWalLines fromStr (lines (asBytes e.toJson ++ (asBytes e'.toJson ++ newline :: tail))) =
      .error err := by
  have hsplit : asBytes e.toJson ++ (asBytes e'.toJson ++ newline :: tail) =
      asBytes (e.toJson ++ e'.toJson ++ ['\n']) ++ tail := by
    simp
  have hno : '\n' ∉ e.toJson ++ e'.toJson := by
    rw [List.mem_append,not_or]
    exact ⟨newline_notMem_toJson e,newline_notMem_toJson e'⟩
  have hr : (e.toJson ++ e'.toJson).getLast? ≠ some '\r' := by
    rw [List.getLast?_append,getLast?_toJson e',Option.some_or]
    decide
  have hnone : fromStr (String.ofList (e.toJson ++ e'.toJson)) = none := by
    rw [Option.eq_none_iff_forall_ne_some]
    intro e'' hread
    exact Json.not_single_of_glued (nested_jsonFields e) (hserde.single _ e'' hread)
  have hblank : ¬ isBlank (String.ofList (e.toJson ++ e'.toJson)) = true := by
    rw [WalEntry.toJson,Json.object,List.cons_append,isBlank,String.toList_ofList,List.all_cons,
      show isWhitespace '{' = false by decide]
    simp
  rw [hsplit,lines_append hno hr,readWalLines,if_neg hblank,hnone]
  exact ⟨_,rfl⟩

/-- Where an append can be cut off: between two lines, or inside or right after an entry. -/
inductive CutAt (es : List WalEntry) (left rest : List UInt8) : Prop
  | between (whole later : List WalEntry) (hes : es = whole ++ later) (hleft : left = walBytes whole)
  | within (whole : List WalEntry) (e : WalEntry) (later : List WalEntry) (part missing : List UInt8)
      (hes : es = whole ++ e :: later)
      (hleft : left = walBytes whole ++ part) (hpart : part ≠ [])
      (hcut : part ++ missing = asBytes e.toJson) (hrest : rest = missing ++ newline :: walBytes later)

theorem cut_of_prefix {left rest : List UInt8} (h : walBytes es = left ++ rest) : CutAt es left rest := by
  induction es generalizing left with
  | nil =>
    have hnil : left = [] := (List.append_eq_nil_iff.mp h.symm).1
    exact .between [] [] rfl hnil
  | cons e es ih =>
    rw [walBytes_cons] at h
    rcases List.append_eq_append_iff.mp h with ⟨m,hleft,hm⟩ | ⟨m,hjson,hm⟩
    · cases m with
      | nil =>
        rw [List.append_nil] at hleft
        have hne : left ≠ [] := by
          rw [hleft]
          exact asBytes_ne_nil (toJson_ne_nil e)
        exact .within [] e es left [] rfl rfl hne (by rw [List.append_nil,hleft]) hm.symm
      | cons b m =>
        rw [List.cons_append] at hm
        obtain ⟨hb,hrest⟩ := List.cons.inj hm
        rw [← hb] at hleft
        cases ih hrest with
        | between whole later hes hm' =>
          refine .between (e :: whole) later (congrArg (e :: ·) hes) ?_
          rw [hleft,walBytes_cons,hm']
        | within whole e' later part missing hes hm' hpart hcut hrest' =>
          refine .within (e :: whole) e' later part missing (congrArg (e :: ·) hes) ?_ hpart hcut hrest'
          rw [hleft,walBytes_cons,hm',List.append_assoc,List.cons_append]
    · by_cases hnil : left = []
      · exact .between [] (e :: es) rfl hnil
      · exact .within [] e es left m rfl rfl hnil hjson.symm hm

/-- Complete lines end with a newline. -/
theorem getLast?_walBytes (h : es ≠ []) : (walBytes es).getLast? = some newline := by
  rw [← List.dropLast_append_getLast h,walBytes_append,walBytes_cons]
  simp [walBytes]

/-- A log of complete lines reads as the store reads the entries in it. -/
theorem readWalSet_eq_lines {raw : List String} {fs : Files} (hserde : ReadsEntries fromStr)
    (hfits : ∀ e ∈ es, e.Fits) (hfile : fs.readFile raw = some (.lines es)) :
    readWalSet raw fs = readWalLines fromStr (lines (walBytes es)) := by
  have hexists : fs.pathExists raw = true := by
    simp [Disk.FileSystem.pathExists,hfile]
  rw [readWalLines_walBytes hserde hfits,readWalSet,hexists,hfile]
  rfl

end Lines

section Logs
variable {fromStr : String → Option WalEntry} {l start : NullifierLogs} {done : List LogCall}
  {cut : LogCall} {left rest : List UInt8}

def NullifierLogs.bytes (l : NullifierLogs) : LogFile → List UInt8
  | .wal => l.wal.getD []
  | .spent => l.spent.getD []

theorem readWalFile_eq (file : Option (List UInt8)) :
    readWalFile fromStr file = readWalLines fromStr (lines (file.getD [])) := by
  cases file <;> rfl

theorem NullifierLogs.nullifierView_eq_ok {v : NullifierView} : l.nullifierView fromStr = .ok v ↔
    readWalLines fromStr (lines (l.bytes .wal)) = .ok v.reserved ∧
      readWalLines fromStr (lines (l.bytes .spent)) = .ok v.spent := by
  rw [NullifierLogs.nullifierView,readWalFile_eq,readWalFile_eq,NullifierLogs.bytes,
    NullifierLogs.bytes]
  obtain ⟨reserved,spent⟩ := v
  cases readWalLines fromStr (lines (l.wal.getD [])) with
  | error err => simp [bind,Except.bind]
  | ok s =>
    cases readWalLines fromStr (lines (l.spent.getD [])) with
    | error err => simp [bind,Except.bind]
    | ok s' => simp [bind,Except.bind,pure,Except.pure]

@[simp] theorem bytes_append (l : NullifierLogs) (file file' : LogFile) (bytes : List UInt8) :
    (l.append file bytes).bytes file' =
      if file' = file then l.bytes file' ++ bytes else l.bytes file' := by
  cases file <;> cases file' <;> rfl

theorem call_eq (l : NullifierLogs) (c : LogCall) : l.call c = l.append c.file (walBytes c.entries) := by
  cases c <;> rfl

/-- The entries the calls put into a log. -/
def logged (done : List LogCall) (file : LogFile) : List WalEntry :=
  (done.filter fun c => c.file = file).flatMap LogCall.entries

theorem bytes_calls (done : List LogCall) (l : NullifierLogs) (file : LogFile) :
    (done.foldl NullifierLogs.call l).bytes file = l.bytes file ++ walBytes (logged done file) := by
  induction done generalizing l with
  | nil => exact (List.append_nil _).symm
  | cons c done ih =>
    rw [List.foldl_cons,ih,call_eq,bytes_append]
    by_cases hc : c.file = file
    · simp [logged,hc]
    · simp [logged,hc,Ne.symm hc]

theorem mem_logged {file : LogFile} {e : WalEntry} :
    e ∈ logged done file ↔ ∃ c ∈ done, c.file = file ∧ e ∈ c.entries := by
  simp [logged,and_assoc]

/-- The logs as `register_agent` leaves them, or not there at all. -/
def NullifierLogs.IsEmpty (l : NullifierLogs) : Prop := ∀ file, l.bytes file = []

def names (es : List WalEntry) : Finset String := (es.map WalEntry.nullifier).toFinset

theorem mem_names {es : List WalEntry} {n : String} : n ∈ names es ↔ ∃ e ∈ es, e.nullifier = n := by
  simp [names]

theorem contains_names {reserved spent : List WalEntry} {n : String} :
    NullifierView.contains ⟨names reserved,names spent⟩ n = true ↔
      ∃ e ∈ reserved ++ spent, e.nullifier = n := by
  simp only [NullifierView.contains,Bool.or_eq_true,decide_eq_true_eq,mem_names,List.mem_append,
    or_and_right,exists_or]

/-- Logs that read as these entries, of which the first one can be appended to. -/
theorem recovers_of_reads {kept : LogFile → List WalEntry} (hserde : ReadsEntries fromStr)
    (hread : readWalLines fromStr (lines (l.bytes .spent)) = .ok (names (kept .spent)))
    (hwal : l.bytes .wal = walBytes (kept .wal)) (hfits : ∀ e ∈ kept .wal, e.Fits)
    (hdone : ∀ c ∈ done, ∀ e ∈ c.entries, e ∈ kept c.file)
    (honly : ∀ file, ∀ e ∈ kept file, ∃ c ∈ done ++ [cut], e ∈ c.entries) :
    Recovers fromStr done cut l := by
  constructor
  · refine ⟨⟨names (kept .wal),names (kept .spent)⟩,NullifierLogs.nullifierView_eq_ok.mpr ⟨?_,hread⟩,?_,?_⟩
    · rw [hwal]
      exact readWalLines_walBytes hserde hfits
    · intro c hc e he
      have hkept := hdone c hc e he
      refine contains_names.mpr ⟨e,?_,rfl⟩
      cases hfile : c.file with
      | wal => exact List.mem_append_left _ (hfile ▸ hkept)
      | spent => exact List.mem_append_right _ (hfile ▸ hkept)
    · intro n hn
      obtain ⟨e,he,hname⟩ := contains_names.mp hn
      rcases List.mem_append.mp he with hreserved | hspent
      · obtain ⟨c,hc,hec⟩ := honly .wal e hreserved
        exact ⟨c,hc,e,hec,hname⟩
      · obtain ⟨c,hc,hec⟩ := honly .spent e hspent
        exact ⟨c,hc,e,hec,hname⟩
  · intro entries hentries
    have hall : ∀ e ∈ kept .wal ++ entries, e.Fits := by
      intro e he
      exact (List.mem_append.mp he).elim (hfits e) (hentries e)
    refine ⟨⟨names (kept .wal ++ entries),names (kept .spent)⟩,NullifierLogs.nullifierView_eq_ok.mpr ⟨?_,hread⟩,?_⟩
    · have hbytes : (l.reserveNullifiers entries).bytes .wal = walBytes (kept .wal ++ entries) := by
        rw [walBytes_append,← hwal]
        rfl
      rw [hbytes]
      exact readWalLines_walBytes hserde hall
    · intro e he
      exact contains_names.mpr ⟨e,List.mem_append_left _ (List.mem_append_right _ he),rfl⟩

/-- The bytes of the cut append end at the end of a line; in the log of spent nullifiers, which is
not appended to next, the newline may be missing. -/
def AtLineEnd (cut : LogCall) (left rest : List UInt8) : Prop :=
  left = [] ∨ left.getLast? = some newline ∨ cut.file = .spent ∧ rest.head? = some newline

/-- The entries in a log when these entries of the cut append are complete. -/
def keptWith (done : List LogCall) (cut : LogCall) (whole : List WalEntry) (file : LogFile) :
    List WalEntry := logged done file ++ if file = cut.file then whole else []

theorem bytes_cut (hempty : start.IsEmpty) (file : LogFile) :
    ((done.foldl NullifierLogs.call start).append cut.file left).bytes file =
      walBytes (logged done file) ++ if file = cut.file then left else [] := by
  rw [bytes_append,bytes_calls,hempty file,List.nil_append]
  split
  · rfl
  · exact (List.append_nil _).symm

theorem mem_of_keptWith {whole : List WalEntry} (hwhole : whole <+: cut.entries) :
    ∀ file, ∀ e ∈ keptWith done cut whole file, ∃ c ∈ done ++ [cut], e ∈ c.entries := by
  intro file e he
  rcases List.mem_append.mp he with hlogged | hcut
  · obtain ⟨c,hc,-,hec⟩ := mem_logged.mp hlogged
    exact ⟨c,List.mem_append_left _ hc,hec⟩
  · split at hcut
    · exact ⟨cut,List.mem_append_right _ List.mem_cons_self,hwhole.subset hcut⟩
    · cases hcut

theorem mem_keptWith {whole : List WalEntry} :
    ∀ c ∈ done, ∀ e ∈ c.entries, e ∈ keptWith done cut whole c.file :=
  fun c hc _ he => List.mem_append_left _ (mem_logged.mpr ⟨c,hc,rfl,he⟩)

/-- A cut between two lines leaves logs of complete lines. -/
theorem recovers_between {whole : List WalEntry} (hserde : ReadsEntries fromStr)
    (hempty : start.IsEmpty) (hfits : ∀ c ∈ done ++ [cut], ∀ e ∈ c.entries, e.Fits)
    (hwhole : whole <+: cut.entries) : Recovers fromStr done cut
      ((done.foldl NullifierLogs.call start).append cut.file (walBytes whole)) := by
  have hbytes : ∀ file, ((done.foldl NullifierLogs.call start).append cut.file
      (walBytes whole)).bytes file = walBytes (keptWith done cut whole file) := by
    intro file
    rw [bytes_cut hempty,keptWith,walBytes_append]
    split <;> rfl
  have hkept : ∀ file, ∀ e ∈ keptWith done cut whole file, e.Fits := by
    intro file e he
    obtain ⟨c,hc,hec⟩ := mem_of_keptWith hwhole file e he
    exact hfits c hc e hec
  refine recovers_of_reads hserde ?_ (hbytes .wal) (hkept .wal) mem_keptWith (mem_of_keptWith hwhole)
  rw [hbytes]
  exact readWalLines_walBytes hserde (hkept .spent)

/-- A log of spent nullifiers whose last newline is missing is read all the same, and reservations
go elsewhere. -/
theorem recovers_unterminated {whole : List WalEntry} {e : WalEntry} (hserde : ReadsEntries fromStr)
    (hempty : start.IsEmpty) (hfits : ∀ c ∈ done ++ [cut], ∀ e ∈ c.entries, e.Fits)
    (hwhole : whole ++ [e] <+: cut.entries) (hfile : cut.file = .spent) : Recovers fromStr done cut
      ((done.foldl NullifierLogs.call start).append cut.file (walBytes whole ++ asBytes e.toJson)) := by
  have hkept : ∀ file, ∀ e' ∈ keptWith done cut (whole ++ [e]) file, e'.Fits := by
    intro file e' he'
    obtain ⟨c,hc,hec⟩ := mem_of_keptWith hwhole file e' he'
    exact hfits c hc e' hec
  refine recovers_of_reads hserde ?_ ?_ (hkept .wal) mem_keptWith (mem_of_keptWith hwhole)
  · have hspent := hkept .spent
    rw [keptWith,if_pos hfile.symm,← List.append_assoc] at hspent ⊢
    have he : e.Fits := hspent e (List.mem_append_right _ List.mem_cons_self)
    rw [bytes_cut hempty,if_pos hfile.symm,← List.append_assoc,← walBytes_append,
      readWalLines_append hserde fun e' he' => hspent e' (List.mem_append_left _ he'),
      (readWalLines_cut hserde he (asBytes_ne_nil (toJson_ne_nil e)) (List.append_nil _)).1 rfl]
    simp [names,Except.map,Finset.union_comm]
  · have hne : LogFile.wal ≠ cut.file := by
      rw [hfile]
      decide
    rw [bytes_cut hempty,keptWith,if_neg hne,if_neg hne,List.append_nil,List.append_nil]

/-- Complete lines do not make up for what follows them. -/
theorem readWalLines_error {es : List WalEntry} {tail : List UInt8} (hserde : ReadsEntries fromStr)
    (hfits : ∀ e ∈ es, e.Fits) (htail : ∃ err, readWalLines fromStr (lines tail) = .error err)
    (s : Finset String) : readWalLines fromStr (lines (walBytes es ++ tail)) ≠ .ok s := by
  obtain ⟨err,herr⟩ := htail
  rw [readWalLines_append hserde hfits,herr]
  simp [Except.map]

theorem readWalLines_ok_of_view {v : NullifierView} (h : l.nullifierView fromStr = .ok v)
    (file : LogFile) : ∃ s, readWalLines fromStr (lines (l.bytes file)) = .ok s := by
  obtain ⟨hwal,hspent⟩ := NullifierLogs.nullifierView_eq_ok.mp h
  cases file with
  | wal => exact ⟨_,hwal⟩
  | spent => exact ⟨_,hspent⟩

/-- Nothing is read past a line that is cut inside its entry, nor past an entry that the next
reservation is glued to. -/
theorem not_recovers_within {whole later : List WalEntry} {e : WalEntry} {part missing : List UInt8}
    (hserde : ReadsEntries fromStr) (hempty : start.IsEmpty)
    (hfits : ∀ c ∈ done ++ [cut], ∀ e ∈ c.entries, e.Fits) (hwhole : cut.entries = whole ++ e :: later)
    (hpart : part ≠ []) (hcut : part ++ missing = asBytes e.toJson)
    (hbad : missing ≠ [] ∨ cut.file = .wal) : ¬ Recovers fromStr done cut
      ((done.foldl NullifierLogs.call start).append cut.file (walBytes whole ++ part)) := by
  intro hrec
  have hlines : ∀ e' ∈ logged done cut.file ++ whole, e'.Fits := by
    intro e' he'
    rcases List.mem_append.mp he' with hlogged | hmem
    · obtain ⟨c,hc,-,hec⟩ := mem_logged.mp hlogged
      exact hfits c (List.mem_append_left _ hc) e' hec
    · apply hfits cut (List.mem_append_right _ List.mem_cons_self)
      rw [hwhole]
      exact List.mem_append_left _ hmem
  have he : e.Fits := by
    apply hfits cut (List.mem_append_right _ List.mem_cons_self)
    rw [hwhole]
    exact List.mem_append_right _ List.mem_cons_self
  have hbytes : ((done.foldl NullifierLogs.call start).append cut.file
      (walBytes whole ++ part)).bytes cut.file = _ := bytes_cut hempty cut.file
  rw [if_pos rfl,← List.append_assoc,← walBytes_append] at hbytes
  by_cases hmissing : missing = []
  · have hfile : cut.file = .wal := hbad.resolve_left (not_not.mpr hmissing)
    rw [hmissing,List.append_nil] at hcut
    obtain ⟨v,hv,-⟩ := hrec.again [⟨"",0,0⟩] (by simp [WalEntry.Fits])
    obtain ⟨s,hs⟩ := readWalLines_ok_of_view hv .wal
    rw [hfile] at hbytes
    rw [NullifierLogs.reserveNullifiers,NullifierLogs.appendEntries,bytes_append,if_pos rfl,hfile,
      hbytes,hcut,List.append_assoc,walBytes_cons] at hs
    rw [hfile] at hlines
    exact readWalLines_error hserde hlines (readWalLines_glued hserde e _ _) s hs
  · obtain ⟨v,hv,-⟩ := hrec.view
    obtain ⟨s,hs⟩ := readWalLines_ok_of_view hv cut.file
    rw [hbytes] at hs
    exact readWalLines_error hserde hlines ((readWalLines_cut hserde he hpart hcut).2 hmissing) s hs

/-- The logs recover from an append that was cut off exactly if it was cut off at the end of a
line. -/
theorem recovers_iff (hserde : ReadsEntries fromStr) (hempty : start.IsEmpty)
    (hfits : ∀ c ∈ done ++ [cut], ∀ e ∈ c.entries, e.Fits)
    (hpre : walBytes cut.entries = left ++ rest) :
    Recovers fromStr done cut ((done.foldl NullifierLogs.call start).append cut.file left) ↔
      AtLineEnd cut left rest := by
  cases cut_of_prefix hpre with
  | between whole later hes hleft =>
    rw [hleft]
    refine iff_of_true (recovers_between hserde hempty hfits ⟨later,hes.symm⟩) ?_
    by_cases hwhole : whole = []
    · exact Or.inl (by rw [hwhole]; rfl)
    · exact Or.inr (Or.inl (getLast?_walBytes hwhole))
  | within whole e later part missing hes hleft hpart hcut hrest =>
    have hno : newline ∉ part ++ missing := by
      rw [hcut]
      exact newline_notMem_asBytes e
    rw [List.mem_append,not_or] at hno
    have hend : AtLineEnd cut left rest ↔ cut.file = .spent ∧ missing = [] := by
      have hne : left ≠ [] := by
        rw [hleft]
        exact fun h => hpart (List.append_eq_nil_iff.mp h).2
      have hlast : left.getLast? ≠ some newline := by
        rw [hleft,List.getLast?_append_of_ne_nil _ hpart]
        exact fun h => hno.1 (List.mem_of_getLast? h)
      have hhead : rest.head? = some newline ↔ missing = [] := by
        rw [hrest]
        cases missing with
        | nil => simp
        | cons b bs =>
          refine iff_of_false ?_ (List.cons_ne_nil b bs)
          intro h
          exact hno.2 (List.mem_of_mem_head? h)
      rw [AtLineEnd,hhead]
      exact ⟨fun h => (h.resolve_left hne).resolve_left hlast,fun h => Or.inr (Or.inr h)⟩
    rw [hend,hleft]
    constructor
    · intro hrec
      by_contra hbad
      refine not_recovers_within hserde hempty hfits hes hpart hcut ?_ hrec
      by_cases hmissing : missing = []
      · refine Or.inr ?_
        cases hfile : cut.file with
        | wal => rfl
        | spent => exact absurd ⟨hfile,hmissing⟩ hbad
      · exact Or.inl hmissing
    · rintro ⟨hfile,rfl⟩
      rw [List.append_nil] at hcut
      rw [hcut]
      refine recovers_unterminated hserde hempty hfits ⟨later,?_⟩ hfile
      rw [hes,List.append_assoc,List.singleton_append]

end Logs

section Strict

/-- A number and what follows it. -/
def readNumber (cs : List Char) : Option (ℕ × List Char) :=
  (fromStrRadix 10 (2 ^ 64) (cs.takeWhile Char.isDigit)).map fun n => (n,cs.dropWhile Char.isDigit)

def beforeNullifier : List Char :=
  '{' :: (Json.quote "nullifier".toList ++ [':',Json.quotationMark])

def beforeSeq : List Char := ',' :: (Json.quote "seq".toList ++ [':'])

def beforeTs : List Char := ',' :: (Json.quote "ts_unix_micros".toList ++ [':'])

/-- A reader that takes entries in exactly the form in which they are written. -/
def strictFromStr (line : String) : Option WalEntry := do
  let (nullifier,rest) ← Json.readString (line.toList.drop beforeNullifier.length)
  let (seq,rest) ← readNumber (rest.drop beforeSeq.length)
  let (ts,_) ← readNumber (rest.drop beforeTs.length)
  if WalEntry.toJson ⟨String.ofList nullifier,seq,ts⟩ = line.toList then
    some ⟨String.ofList nullifier,seq,ts⟩
  else none

theorem toJson_split (e : WalEntry) : e.toJson = beforeNullifier ++
    (e.nullifier.toList.flatMap Json.escapeChar ++ Json.quotationMark ::
      (beforeSeq ++ (Json.number e.seq ++ (beforeTs ++ (Json.number e.tsUnixMicros ++ ['}']))))) := by
  simp [WalEntry.toJson,WalEntry.jsonFields,Json.object,Json.fields,Json.field,beforeNullifier,
    beforeSeq,beforeTs,Json.quote]

theorem readNumber_append {n : ℕ} {c : Char} {rest : List Char} (hn : n < 2 ^ 64)
    (hc : c.isDigit = false) : readNumber (Json.number n ++ c :: rest) = some (n,c :: rest) := by
  have hdigits : ∀ c ∈ Json.number n, c.isDigit = true :=
    fun c hc => Nat.isDigit_of_mem_toDigits (by decide) le_rfl hc
  have htake : (Json.number n ++ c :: rest).takeWhile Char.isDigit = Json.number n := by
    rw [List.takeWhile_append_of_pos hdigits,List.takeWhile_cons_of_neg (by simp [hc]),List.append_nil]
  have hdrop : (Json.number n ++ c :: rest).dropWhile Char.isDigit = c :: rest := by
    rw [List.dropWhile_append_of_pos hdigits,List.dropWhile_cons_of_neg (by simp [hc])]
  rw [readNumber,htake,hdrop,Json.number,fromStrRadix_toDigits (by decide) (by decide) n hn]
  rfl

theorem strictFromStr_toJson {e : WalEntry} (he : e.Fits) :
    strictFromStr (String.ofList e.toJson) = some e := by
  obtain ⟨nullifier,seq,ts⟩ := e
  have hname := Json.readString_escaped nullifier.toList
    (beforeSeq ++ (Json.number seq ++ (beforeTs ++ (Json.number ts ++ ['}']))))
  have hseq : readNumber (Json.number seq ++ (beforeTs ++ (Json.number ts ++ ['}']))) =
      some (seq,beforeTs ++ (Json.number ts ++ ['}'])) := readNumber_append he.1 (by decide)
  have hts : readNumber (Json.number ts ++ ['}']) = some (ts,['}']) :=
    readNumber_append he.2 (by decide)
  rw [strictFromStr,String.toList_ofList]
  nth_rewrite 1 [toJson_split]
  rw [List.drop_left,hname]
  simp only [bind,Option.bind_some,List.drop_left,hseq,hts,String.ofList_toList,if_pos]

theorem strictFromStr_readsEntries : ReadsEntries strictFromStr := by
  refine ⟨fun e he => strictFromStr_toJson he,?_⟩
  intro line e h
  rw [strictFromStr] at h
  obtain ⟨⟨nullifier,rest⟩,-,h⟩ := Option.bind_eq_some_iff.mp h
  obtain ⟨⟨seq,rest⟩,-,h⟩ := Option.bind_eq_some_iff.mp h
  obtain ⟨⟨ts,rest⟩,-,h⟩ := Option.bind_eq_some_iff.mp h
  simp only at h
  split at h
  · rename_i heq
    rw [String.toList_ofList] at heq
    rw [← heq]
    exact Json.single_object (nested_jsonFields _)
  · cases h

def freshLogs : NullifierLogs := ⟨some [],some []⟩

theorem freshLogs_isEmpty : freshLogs.IsEmpty := by
  intro file
  cases file <;> rfl

def sampleEntry (nullifier : String) (seq : ℕ) : WalEntry := ⟨nullifier,seq,7⟩

/-- A reservation of two nullifiers that is cut off after the first line. -/
theorem recovers_iff_sample : Recovers strictFromStr [.reserveNullifiers [sampleEntry "0x01" 1]]
    (.reserveNullifiers [sampleEntry "0x02" 2,sampleEntry "0x03" 2])
    (([LogCall.reserveNullifiers [sampleEntry "0x01" 1]].foldl NullifierLogs.call freshLogs).append
      .wal (walBytes [sampleEntry "0x02" 2])) := by
  have hfits : ∀ c ∈ [LogCall.reserveNullifiers [sampleEntry "0x01" 1]] ++
      [LogCall.reserveNullifiers [sampleEntry "0x02" 2,sampleEntry "0x03" 2]],
      ∀ e ∈ c.entries, e.Fits := by
    simp [WalEntry.Fits,LogCall.entries,sampleEntry]
  refine (recovers_iff strictFromStr_readsEntries freshLogs_isEmpty hfits
    (walBytes_append [sampleEntry "0x02" 2] [sampleEntry "0x03" 2])).mpr (Or.inr (Or.inl ?_))
  exact getLast?_walBytes (List.cons_ne_nil _ _)

/-- A reservation of one nullifier that is cut off after its first byte, and one that is cut off
before its newline. -/
theorem torn_append_spoils_log : ∃ left rest left' rest',
    walBytes [sampleEntry "0x02" 1] = left ++ rest ∧ walBytes [sampleEntry "0x02" 1] = left' ++ rest' ∧
    ¬ Recovers strictFromStr [] (.reserveNullifiers [sampleEntry "0x02" 1])
      (freshLogs.append .wal left) ∧
    ¬ Recovers strictFromStr [] (.reserveNullifiers [sampleEntry "0x02" 1])
      (freshLogs.append .wal left') := by
  set e := sampleEntry "0x02" 1 with he
  have hfits : ∀ c ∈ [] ++ [LogCall.reserveNullifiers [e]], ∀ e ∈ c.entries, e.Fits := by
    simp [he,sampleEntry,WalEntry.Fits,LogCall.entries]
  have hfirst : asBytes e.toJson = 123 :: asBytes (Json.fields e.jsonFields ++ ['}']) := rfl
  have hline : walBytes [e] = asBytes e.toJson ++ [newline] := walBytes_cons e []
  refine ⟨[123],asBytes (Json.fields e.jsonFields ++ ['}']) ++ [newline],asBytes e.toJson,[newline],
    ?_,hline,?_,?_⟩
  · rw [hline,hfirst]
    rfl
  · refine not_recovers_within strictFromStr_readsEntries freshLogs_isEmpty hfits
      (show _ = [] ++ e :: [] from rfl) (List.cons_ne_nil 123 []) hfirst.symm (Or.inr rfl)
  · refine not_recovers_within strictFromStr_readsEntries freshLogs_isEmpty hfits
      (show _ = [] ++ e :: [] from rfl) (asBytes_ne_nil (toJson_ne_nil e)) (List.append_nil _)
      (Or.inr rfl)

end Strict

end MidenX402.Facilitator
