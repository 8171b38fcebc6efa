import Mathlib.Data.List.Infix
import Mathlib.Data.Nat.Notation

/-!
# JSON texts

Compact objects as a serializer writes them, and the scan by which a reader knows where a bracketed
value ends.  An object is not closed before its last brace, whatever strings it holds.
-/

namespace Json

section Writing

def quotationMark : Char := Char.ofNat 34

def backslash : Char := Char.ofNat 92

/-- A character inside a string literal. -/
def escapeChar (c : Char) : List Char :=
  if c = quotationMark ∨ c = backslash then [backslash,c]
  else if c.toNat = 8 then [backslash,'b']
  else if c.toNat = 9 then [backslash,'t']
  else if c.toNat = 10 then [backslash,'n']
  else if c.toNat = 12 then [backslash,'f']
  else if c.toNat = 13 then [backslash,'r']
  else if c.toNat < 32 then
    [backslash,'u','0','0',Nat.digitChar (c.toNat / 16),Nat.digitChar (c.toNat % 16)]
  else [c]

def quote (cs : List Char) : List Char := quotationMark :: (cs.flatMap escapeChar ++ [quotationMark])

def number (n : ℕ) : List Char := Nat.toDigits 10 n

def field (name value : List Char) : List Char := quote name ++ ':' :: value

def fields : List (List Char × List Char) → List Char
  | [] => []
  | [(name,value)] => field name value
  | (name,value) :: rest => field name value ++ ',' :: fields rest

def object (fs : List (List Char × List Char)) : List Char := '{' :: (fields fs ++ ['}'])

end Writing

section Scanning

/-- Outside of strings at some depth of brackets, inside a string, or after a backslash. -/
inductive Scan where
  | outside (depth : ℕ)
  | inside (depth : ℕ)
  | escaped (depth : ℕ)
deriving DecidableEq

def Scan.next : Scan → Char → Scan
  | .outside d, c =>
    if c = quotationMark then .inside d
    else if c = '{' ∨ c = '[' then .outside (d + 1)
    else if c = '}' ∨ c = ']' then .outside (d - 1)
    else .outside d
  | .inside d, c =>
    if c = backslash then .escaped d else if c = quotationMark then .outside d else .inside d
  | .escaped d, _ => .inside d

def Scan.run (q : Scan) (cs : List Char) : Scan := cs.foldl Scan.next q

def isBlank (c : Char) : Bool := c = ' ' || c = '\t' || c = '\n' || c = '\r'

/-- One bracketed value, with nothing but blanks around it. -/
def Single (cs : List Char) : Prop :=
  (Scan.outside 0).run cs = .outside 0 ∧
    ∀ u v, cs = u ++ v → (Scan.outside 0).run u = .outside 0 →
      u.all isBlank = true ∨ v.all isBlank = true

/-- The scan is back in its state at the end and the value around the text is open throughout. -/
structure Stays (q : Scan) (cs : List Char) : Prop where
  back : q.run cs = q
  ajar : ∀ u, u <+: cs → q.run u ≠ .outside 0

/-- A text that may stand inside a bracketed value. -/
def Nested (cs : List Char) : Prop := ∀ d, Stays (.outside (d + 1)) cs

end Scanning

section Stays
variable {q q' : Scan} {cs ds : List Char} {c : Char}

@[simp] theorem Scan.run_nil (q : Scan) : q.run [] = q := rfl

@[simp] theorem Scan.run_cons (q : Scan) (c : Char) (cs : List Char) :
    q.run (c :: cs) = (q.next c).run cs := rfl

@[simp] theorem Scan.run_append (q : Scan) (cs ds : List Char) :
    q.run (cs ++ ds) = (q.run cs).run ds := List.foldl_append

theorem prefix_append_cases {α : Type} {us xs ys : List α} (h : us <+: xs ++ ys) :
    us <+: xs ∨ ∃ vs, us = xs ++ vs ∧ vs <+: ys := by
  obtain ⟨ws,hws⟩ := h
  rcases List.append_eq_append_iff.mp hws with ⟨vs,hxs,-⟩ | ⟨vs,hus,hys⟩
  · exact Or.inl ⟨vs,hxs.symm⟩
  · exact Or.inr ⟨vs,hus,ws,hys.symm⟩

theorem stays_nil (hq : q ≠ .outside 0) : Stays q [] := by
  refine ⟨rfl,?_⟩
  intro u hu
  rw [List.prefix_nil.mp hu]
  exact hq

theorem Stays.append (h : Stays q cs) (h' : Stays q ds) : Stays q (cs ++ ds) := by
  refine ⟨by rw [Scan.run_append,h.back,h'.back],?_⟩
  intro u hu
  rcases prefix_append_cases hu with hu | ⟨v,rfl,hv⟩
  · exact h.ajar u hu
  · rw [Scan.run_append,h.back]
    exact h'.ajar v hv

theorem stays_singleton (hnext : q.next c = q) (hq : q ≠ .outside 0) : Stays q [c] := by
  refine ⟨hnext,?_⟩
  intro u hu
  rcases List.prefix_cons_iff.mp hu with rfl | ⟨v,rfl,hv⟩
  · exact hq
  · rw [List.prefix_nil.mp hv,Scan.run_cons,hnext]
    exact hq

/-- A text between two characters that open and close it. -/
theorem Stays.between {first last : Char} (h : Stays q' cs) (hq : q ≠ .outside 0)
    (hfirst : q.next first = q') (hlast : q'.next last = q) : Stays q (first :: (cs ++ [last])) := by
  refine ⟨by simp [hfirst,h.back,hlast],?_⟩
  intro u hu
  rcases List.prefix_cons_iff.mp hu with rfl | ⟨v,rfl,hv⟩
  · exact hq
  · rw [Scan.run_cons,hfirst]
    rcases prefix_append_cases hv with hv | ⟨w,rfl,hw⟩
    · exact h.ajar v hv
    · rw [Scan.run_append,h.back]
      rcases List.prefix_cons_iff.mp hw with rfl | ⟨x,rfl,hx⟩
      · rw [Scan.run_nil,← h.back]
        exact h.ajar cs (List.prefix_refl cs)
      · rw [List.prefix_nil.mp hx,Scan.run_cons,hlast]
        exact hq

end Stays

section Nesting
variable {cs ds : List Char} {d : ℕ}

/-- A character that means nothing to the scan outside of strings. -/
def isPlain (c : Char) : Bool := c ∉ [quotationMark,'{','[','}',']']

theorem Nested.append (h : Nested cs) (h' : Nested ds) : Nested (cs ++ ds) :=
  fun d => (h d).append (h' d)

theorem nested_singleton {c : Char} (h : isPlain c = true) : Nested [c] := by
  intro d
  simp only [isPlain,List.mem_cons,List.not_mem_nil,or_false,not_or,decide_eq_true_eq] at h
  apply stays_singleton
  · simp [Scan.next,h]
  · simp

theorem nested_of_plain (h : ∀ c ∈ cs, isPlain c = true) : Nested cs := by
  induction cs with
  | nil => exact fun d => stays_nil (by simp)
  | cons c cs ih =>
    have hc : Nested [c] := nested_singleton (h c List.mem_cons_self)
    exact hc.append (ih fun c' hc' => h c' (List.mem_cons_of_mem c hc'))

/-- Inside a string the scan stays inside, whatever character was escaped. -/
theorem stays_escapeChar (d : ℕ) (c : Char) : Stays (.inside d) (escapeChar c) := by
  have hstart : Scan.inside d ≠ .outside 0 := by simp
  have hescape : ∀ e : Char, Stays (.inside d) [backslash,e] := by
    intro e
    refine ⟨by simp [Scan.next],?_⟩
    intro u hu
    rcases List.prefix_cons_iff.mp hu with rfl | ⟨v,rfl,hv⟩
    · exact hstart
    · rcases List.prefix_cons_iff.mp hv with rfl | ⟨w,rfl,hw⟩
      · simp [Scan.next]
      · rw [List.prefix_nil.mp hw]
        simp [Scan.next]
  have hplain : ∀ e : Char, e ≠ quotationMark → e ≠ backslash → Stays (.inside d) [e] := by
    intro e hq hb
    exact stays_singleton (by simp [Scan.next,hq,hb]) hstart
  have hdigit : ∀ n < 16, Nat.digitChar n ≠ quotationMark ∧ Nat.digitChar n ≠ backslash := by
    decide
  unfold escapeChar
  split
  · exact hescape c
  rename_i hne
  rw [not_or] at hne
  iterate 5
    split
    · exact hescape _
  split
  · have hhigh := hdigit (c.toNat / 16) (by omega)
    have hlow := hdigit (c.toNat % 16) (by omega)
    have hzero : Stays (.inside d) ['0'] := hplain '0' (by decide) (by decide)
    exact ((((hescape 'u').append hzero).append hzero).append (hplain _ hhigh.1 hhigh.2)).append
      (hplain _ hlow.1 hlow.2)
  · exact hplain c hne.1 hne.2

theorem stays_escaped (d : ℕ) (cs : List Char) : Stays (.inside d) (cs.flatMap escapeChar) := by
  induction cs with
  | nil => exact stays_nil (by simp)
  | cons c cs ih =>
    rw [List.flatMap_cons]
    exact (stays_escapeChar d c).append ih

theorem nested_quote (cs : List Char) : Nested (quote cs) := by
  intro d
  apply (stays_escaped (d + 1) cs).between
  · simp
  · simp [Scan.next]
  · simp [Scan.next,show quotationMark ≠ backslash by decide]

theorem nested_number (n : ℕ) : Nested (number n) := by
  have hspecial : ∀ c ∈ [quotationMark,'{','[','}',']'], c.isDigit = false := by
    simp only [List.mem_cons,List.not_mem_nil,or_false]
    rintro c (rfl | rfl | rfl | rfl | rfl) <;> rfl
  apply nested_of_plain
  intro c hc
  have hdigit : c.isDigit = true := Nat.isDigit_of_mem_toDigits (by decide) le_rfl hc
  rw [isPlain,decide_eq_true_iff]
  intro hmem
  rw [hspecial c hmem] at hdigit
  cases hdigit

theorem nested_field {name value : List Char} (h : Nested value) : Nested (field name value) := by
  have hcolon : Nested [':'] := nested_singleton (by decide)
  exact (nested_quote name).append (hcolon.append h)

theorem nested_fields {fs : List (List Char × List Char)} (h : ∀ f ∈ fs, Nested f.2) :
    Nested (fields fs) := by
  induction fs with
  | nil => exact nested_of_plain fun c hc => absurd hc List.not_mem_nil
  | cons f fs ih =>
    obtain ⟨name,value⟩ := f
    have hfield : Nested (field name value) := nested_field (h _ List.mem_cons_self)
    cases fs with
    | nil => exact hfield
    | cons g gs =>
      have hcomma : Nested [','] := nested_singleton (by decide)
      exact hfield.append (hcomma.append (ih fun f hf => h f (List.mem_cons_of_mem _ hf)))

end Nesting

section Objects
variable {fs gs : List (List Char × List Char)} {u v : List Char}

theorem run_object (h : ∀ f ∈ fs, Nested f.2) : (Scan.outside 0).run (object fs) = .outside 0 := by
  have hback := (nested_fields h 0).back
  rw [object,Scan.run_cons,Scan.run_append]
  change ((Scan.outside 1).run (fields fs)).run ['}'] = _
  rw [hback]
  rfl

/-- An object that has been begun is open until its last brace. -/
theorem object_open (h : ∀ f ∈ fs, Nested f.2) (hu : u <+: object fs) (hne : u ≠ [])
    (hproper : u ≠ object fs) : (Scan.outside 0).run u ≠ .outside 0 := by
  rcases List.prefix_cons_iff.mp hu with rfl | ⟨v,rfl,hv⟩
  · exact absurd rfl hne
  · rcases prefix_append_cases hv with hv | ⟨w,rfl,hw⟩
    · exact (nested_fields h 0).ajar v hv
    · rcases List.prefix_cons_iff.mp hw with rfl | ⟨x,rfl,hx⟩
      · rw [List.append_nil]
        exact (nested_fields h 0).ajar _ (List.prefix_refl _)
      · rw [List.prefix_nil.mp hx] at hproper
        exact absurd rfl hproper

theorem single_object (h : ∀ f ∈ fs, Nested f.2) : Single (object fs) := by
  refine ⟨run_object h,?_⟩
  intro u v heq hu
  by_cases hne : u = []
  · rw [hne]
    exact Or.inl rfl
  by_cases hproper : u = object fs
  · have hv : v = [] := by
      rw [hproper] at heq
      exact List.append_right_eq_self.mp heq.symm
    rw [hv]
    exact Or.inr rfl
  · exact absurd hu (object_open h ⟨v,heq.symm⟩ hne hproper)

/-- A part of an object is no value. -/
theorem not_single_of_starts (h : ∀ f ∈ fs, Nested f.2) (hu : u <+: object fs) (hne : u ≠ [])
    (hproper : u ≠ object fs) : ¬ Single u :=
  fun hsingle => object_open h hu hne hproper hsingle.1

/-- Two objects with nothing between them are no value. -/
theorem not_single_of_glued (h : ∀ f ∈ fs, Nested f.2) : ¬ Single (object fs ++ object gs) := by
  intro hsingle
  rcases hsingle.2 _ _ rfl (run_object h) with hblank | hblank
  · cases hblank
  · cases hblank

end Objects

section Newlines
variable {cs : List Char} {fs : List (List Char × List Char)}

theorem newline_notMem_escapeChar (c : Char) : '\n' ∉ escapeChar c := by
  have hdigit : ∀ n < 16, '\n' ≠ Nat.digitChar n := by
    decide
  intro hmem
  unfold escapeChar at hmem
  split at hmem
  · rename_i hc
    rcases hc with rfl | rfl <;> revert hmem <;> decide
  iterate 5
    split at hmem
    · revert hmem
      decide
  split at hmem
  · have hhigh := hdigit (c.toNat / 16) (by omega)
    have hlow := hdigit (c.toNat % 16) (by omega)
    have hrest : '\n' ∉ [backslash,'u','0','0'] := by decide
    simp only [List.mem_cons,List.not_mem_nil,or_false,not_or] at hmem hrest
    simp [hrest,hhigh,hlow] at hmem
  · rename_i hten _ _ _
    rw [List.mem_singleton] at hmem
    subst hmem
    exact hten rfl

/-- Newlines in strings are escaped. -/
theorem newline_notMem_quote (cs : List Char) : '\n' ∉ quote cs := by
  have hends : '\n' ≠ quotationMark := by decide
  simp [quote,hends,newline_notMem_escapeChar]

theorem newline_notMem_number (n : ℕ) : '\n' ∉ number n := by
  intro h
  have hdigit : ('\n').isDigit = true := Nat.isDigit_of_mem_toDigits (by decide) le_rfl h
  cases hdigit

theorem newline_notMem_object (h : ∀ f ∈ fs, '\n' ∉ f.2) : '\n' ∉ object fs := by
  have hfield : ∀ {name value : List Char}, '\n' ∉ value → '\n' ∉ field name value := by
    intro name value hv
    simp [field,newline_notMem_quote,hv]
  have hfields : '\n' ∉ fields fs := by
    induction fs with
    | nil => exact List.not_mem_nil
    | cons f fs ih =>
      obtain ⟨name,value⟩ := f
      have hfirst : '\n' ∉ field name value := hfield (h _ List.mem_cons_self)
      cases fs with
      | nil => exact hfirst
      | cons g gs =>
        have hrest := ih fun f hf => h f (List.mem_cons_of_mem _ hf)
        simp [fields,hfirst,hrest]
  simp [object,hfields]

end Newlines

end Json
