import MidenX402.Disk.Program
import Mathlib.Data.List.Dedup

/-!
# A file system with Unix paths

Paths are built by joining strings that may come from anyone, so a joined string can hold slashes,
dots and an absolute path of its own.  Raw paths are the segments between slashes; they are resolved
against the directories that exist.  There are no symbolic links, and the root is always a
directory.  Names are taken to be ones the operating system accepts: its limit on their length and its
refusal of the NUL character are left out.
-/

namespace Disk

/-- A resolved absolute path. -/
abbrev Path := List String

inductive Node (α : Type) where
  | dir
  | file (content : α)

structure FileSystem (α : Type) where
  node : Path → Option (Node α)
  paths : List Path
  nodup : paths.Nodup
  mem_paths : ∀ p n, node p = some n → p ∈ paths

section Names

def splitSlash : List Char → List (List Char)
  | [] => [[]]
  | c :: cs =>
    if c = '/' then [] :: splitSlash cs
    else match splitSlash cs with
      | [] => [[c]]
      | w :: ws => (c :: w) :: ws

def segments (s : String) : List String := (splitSlash s.toList).map String.ofList

/-- `Path::join`: an absolute string replaces what stands before it. -/
def join (base : List String) (s : String) : List String :=
  if s.toList.head? = some '/' then (segments s).tail else base ++ segments s

/-- The text of an absolute path. -/
def display (raw : List String) : String := "/" ++ "/".intercalate raw

/-- The components of an absolute path: empty segments and single dots are skipped. -/
def components (raw : List String) : List String := raw.filter fun s => s ≠ "" ∧ s ≠ "."

/-- `Path::file_name`. -/
def fileName (raw : List String) : Option String :=
  (components raw).getLast?.filter fun s => s ≠ ".."

/-- A string that names an entry of the directory it is joined to. -/
structure IsPlain (s : String) : Prop where
  ne_empty : s ≠ ""
  ne_dot : s ≠ "."
  ne_dots : s ≠ ".."
  no_slash : '/' ∉ s.toList

instance (s : String) : Decidable (IsPlain s) :=
  decidable_of_iff (s ≠ "" ∧ s ≠ "." ∧ s ≠ ".." ∧ '/' ∉ s.toList)
    ⟨fun ⟨a,b,c,d⟩ => ⟨a,b,c,d⟩,fun ⟨a,b,c,d⟩ => ⟨a,b,c,d⟩⟩

theorem splitSlash_of_notMem {cs : List Char} (h : '/' ∉ cs) : splitSlash cs = [cs] := by
  induction cs with
  | nil => rfl
  | cons c cs ih =>
    rw [List.mem_cons,not_or] at h
    rw [splitSlash,if_neg (Ne.symm h.1),ih h.2]

theorem IsPlain.segments_eq {s : String} (h : IsPlain s) : segments s = [s] := by
  rw [segments,splitSlash_of_notMem h.no_slash,List.map_singleton,String.ofList_toList]

theorem IsPlain.join_eq {s : String} (h : IsPlain s) (base : List String) :
    join base s = base ++ [s] := by
  have hhead : s.toList.head? ≠ some '/' := by
    intro he
    exact h.no_slash (List.mem_of_head? he)
  rw [join,if_neg hhead,h.segments_eq]

theorem components_of_plain {raw : List String} (h : ∀ s ∈ raw, IsPlain s) : components raw = raw := by
  rw [components,List.filter_eq_self]
  intro s hs
  simp [(h s hs).ne_empty,(h s hs).ne_dot]

end Names

namespace FileSystem
variable {α : Type}

def set (fs : FileSystem α) (p : Path) (n : Option (Node α)) : FileSystem α where
  node := Function.update fs.node p n
  paths := fs.paths.insert p
  nodup := fs.nodup.insert
  mem_paths q m h := by
    by_cases hq : q = p
    · subst hq
      exact List.mem_insert_self
    · rw [Function.update_of_ne hq] at h
      exact List.mem_insert_of_mem (fs.mem_paths q m h)

def fileAt (fs : FileSystem α) (p : Path) : Option α :=
  match fs.node p with
  | some (.file c) => some c
  | _ => none

def isDir (fs : FileSystem α) (p : Path) : Bool :=
  match fs.node p with
  | some .dir => true
  | _ => p = []

/-- The entry at a path, when it is one of the directory.  Names are plain; the entries for the
directory itself and its parent are skipped. -/
def entry (fs : FileSystem α) (dir p : Path) : Option (String × Node α) :=
  match p.getLast?, fs.node p with
  | some name, some n => if p.dropLast = dir ∧ IsPlain name then some (name,n) else none
  | _, _ => none

/-- `fs::read_dir`: the entries of a directory with what they are. -/
def entries (fs : FileSystem α) (dir : Path) : List (String × Node α) :=
  fs.paths.filterMap (fs.entry dir)

/-- The directory a list of components leads to, when each step exists. -/
def resolveDir (fs : FileSystem α) (start : Path) : List String → Option Path
  | [] => some start
  | s :: rest =>
    if s = ".." then fs.resolveDir start.dropLast rest
    else if fs.isDir (start ++ [s]) then fs.resolveDir (start ++ [s]) rest
    else none

/-- Where a raw path points, when the directory it lies in exists. -/
def locate (fs : FileSystem α) (raw : List String) : Option Path :=
  match (components raw).getLast? with
  | none => some []
  | some s => (fs.resolveDir [] (components raw).dropLast).map fun d =>
      if s = ".." then d.dropLast else d ++ [s]

/-- A path that ends in a slash, a dot or two dots can only name a directory. -/
def endsPlain (raw : List String) : Bool := raw.getLast? = fileName raw ∧ raw ≠ []

def readFile (fs : FileSystem α) (raw : List String) : Option α :=
  if endsPlain raw then (fs.locate raw).bind fs.fileAt else none

/-- `Path::is_dir`. -/
def dirExists (fs : FileSystem α) (raw : List String) : Bool :=
  (fs.locate raw).any fs.isDir

/-- `Path::exists`. -/
def pathExists (fs : FileSystem α) (raw : List String) : Bool :=
  fs.dirExists raw || (fs.readFile raw).isSome

@[simp] theorem node_set_self (fs : FileSystem α) (p : Path) (n : Option (Node α)) :
    (fs.set p n).node p = n := Function.update_self ..

theorem node_set_of_ne (fs : FileSystem α) {p q : Path} (n : Option (Node α)) (h : q ≠ p) :
    (fs.set p n).node q = fs.node q := Function.update_of_ne h ..

theorem fileAt_set (fs : FileSystem α) (p q : Path) (n : Option (Node α)) :
    (fs.set p n).fileAt q =
      if q = p then (match n with | some (.file c) => some c | _ => none) else fs.fileAt q := by
  by_cases h : q = p
  · subst h
    rw [if_pos rfl,fileAt,node_set_self]
  · rw [if_neg h,fileAt,fileAt,node_set_of_ne fs n h]

theorem fileAt_of_node {fs : FileSystem α} {p : Path} {c : α} (h : fs.node p = some (.file c)) :
    fs.fileAt p = some c := by
  rw [fileAt,h]

theorem node_of_fileAt {fs : FileSystem α} {p : Path} {c : α} (h : fs.fileAt p = some c) :
    fs.node p = some (.file c) := by
  rw [fileAt] at h
  split at h
  · rename_i c' hc'
    rw [hc',Option.some.inj h]
  · cases h

theorem isDir_set_of_ne (fs : FileSystem α) {p q : Path} (n : Option (Node α)) (h : q ≠ p) :
    (fs.set p n).isDir q = fs.isDir q := by
  rw [isDir,isDir,node_set_of_ne fs n h]

theorem isDir_set_dir (fs : FileSystem α) {p q : Path} (h : fs.isDir q = true) :
    (fs.set p (some .dir)).isDir q = true := by
  by_cases hq : q = p
  · subst hq
    rw [isDir,node_set_self]
  · rw [isDir_set_of_ne fs _ hq]
    exact h

theorem fileAt_eq_none_of_isDir {fs : FileSystem α} {p : Path} (hne : p ≠ [])
    (h : fs.isDir p = true) : fs.fileAt p = none := by
  rw [isDir] at h
  rw [fileAt]
  cases hn : fs.node p with
  | none => rfl
  | some n =>
    cases n with
    | dir => rfl
    | file c =>
      rw [hn] at h
      exact absurd (of_decide_eq_true h) hne

theorem entry_eq_some_iff {fs : FileSystem α} {dir p : Path} {name : String} {n : Node α} :
    fs.entry dir p = some (name,n) ↔ p = dir ++ [name] ∧ fs.node p = some n ∧ IsPlain name := by
  rw [entry]
  constructor
  · intro h
    cases hl : p.getLast? with
    | none =>
      simp only [hl] at h
      cases h
    | some name' =>
      cases hn : fs.node p with
      | none =>
        simp only [hl,hn] at h
        cases h
      | some n' =>
        simp only [hl,hn] at h
        split at h
        · rename_i hdir
          obtain ⟨rfl,rfl⟩ := Prod.mk.inj (Option.some.inj h)
          refine ⟨?_,rfl,hdir.2⟩
          rw [← hdir.1]
          exact (List.dropLast_append_getLast? name' hl).symm
        · cases h
  · rintro ⟨rfl,hn,hplain⟩
    rw [List.getLast?_concat,List.dropLast_concat,hn]
    exact if_pos ⟨rfl,hplain⟩

theorem mem_entries {fs : FileSystem α} {dir : Path} {name : String} {n : Node α} :
    (name,n) ∈ fs.entries dir ↔ fs.node (dir ++ [name]) = some n ∧ IsPlain name := by
  rw [entries,List.mem_filterMap]
  constructor
  · rintro ⟨p,-,hp⟩
    obtain ⟨rfl,hn,hplain⟩ := entry_eq_some_iff.mp hp
    exact ⟨hn,hplain⟩
  · rintro ⟨hn,hplain⟩
    exact ⟨dir ++ [name],fs.mem_paths _ n hn,entry_eq_some_iff.mpr ⟨rfl,hn,hplain⟩⟩

theorem nodup_entries (fs : FileSystem α) (dir : Path) : ((fs.entries dir).map Prod.fst).Nodup := by
  have hentries : (fs.entries dir).Nodup := by
    apply fs.nodup.filterMap
    rintro p q ⟨name,n⟩ hp hq
    rw [(entry_eq_some_iff.mp hp).1,(entry_eq_some_iff.mp hq).1]
  apply hentries.map_on
  rintro ⟨name,n⟩ hx ⟨name',n'⟩ hy heq
  obtain rfl : name = name' := heq
  have hnode := (mem_entries.mp hx).1
  rw [(mem_entries.mp hy).1] at hnode
  rw [Option.some.inj hnode]

end FileSystem

end Disk
