import Mathlib.Data.List.Basic

/-!
# Lines of a byte stream

Text is written as UTF-8.  `BufRead::lines` cuts the bytes after each newline, checks that a piece is
UTF-8 and drops the newline, with a carriage return before it.
-/

namespace Rust

def newline : UInt8 := 10

/-- `str::as_bytes`. -/
def asBytes (cs : List Char) : List UInt8 := cs.flatMap String.utf8EncodeChar

/-- `str::from_utf8`. -/
def fromUtf8 (bytes : List UInt8) : Option (List Char) :=
  bytes.toByteArray.utf8Decode?.map Array.toList

/-- The pieces `read_until` returns for the newline, one after the other. -/
def readPieces : List UInt8 → List (List UInt8)
  | [] => []
  | b :: bs =>
    if b = newline then [b] :: readPieces bs
    else match readPieces bs with
      | [] => [[b]]
      | p :: ps => (b :: p) :: ps

/-- A piece without its line ending. -/
def chomp (cs : List Char) : List Char :=
  if cs.getLast? = some '\n' then
    if cs.dropLast.getLast? = some '\r' then cs.dropLast.dropLast else cs.dropLast
  else cs

/-- `BufRead::lines`; a piece that is not UTF-8 is an error. -/
def lines (bytes : List UInt8) : List (Option (List Char)) :=
  (readPieces bytes).map fun p => (fromUtf8 p).map chomp

section Utf8
variable {cs ds : List Char} {bytes rest : List UInt8}

@[simp] theorem asBytes_append (cs ds : List Char) : asBytes (cs ++ ds) = asBytes cs ++ asBytes ds :=
  List.flatMap_append

@[simp] theorem fromUtf8_asBytes (cs : List Char) : fromUtf8 (asBytes cs) = some cs := by
  change (cs.utf8Encode.utf8Decode?).map Array.toList = some cs
  simp

theorem toByteArray_inj {xs ys : List UInt8} (h : xs.toByteArray = ys.toByteArray) : xs = ys := by
  have hdata := congrArg (fun b : ByteArray => b.data.toList) h
  simpa using hdata

theorem asBytes_inj {cs ds : List Char} : asBytes cs = asBytes ds ↔ cs = ds := by
  constructor
  · intro h
    have hread := congrArg fromUtf8 h
    rw [fromUtf8_asBytes,fromUtf8_asBytes] at hread
    exact Option.some.inj hread
  · exact congrArg asBytes

/-- The bytes of an array from a position on, after those already taken. -/
theorem toList_loop (b : ByteArray) (i : ℕ) (r : List UInt8) :
    ByteArray.toList.loop b i r = r.reverse ++ b.data.toList.drop i := by
  fun_induction ByteArray.toList.loop b i r with
  | case1 i r h ih =>
    have hi : i < b.data.size := h
    have hget : b.get! i = b.data[i] := by
      cases b
      exact getElem!_pos _ i hi
    have hdrop : b.data.toList.drop i = b.data[i] :: b.data.toList.drop (i + 1) :=
      List.drop_eq_getElem_cons (by simpa using hi)
    rw [ih,hget,hdrop]
    simp
  | case2 i r h =>
    have hlen : b.data.toList.length ≤ i := by simpa using h
    simp [List.drop_eq_nil_of_le hlen]

/-- The bytes of a string, as `toUTF8` gives them. -/
@[simp] theorem toList_toByteArray (s : String) : s.toByteArray.toList = asBytes s.toList := by
  rw [ByteArray.toList,toList_loop,← String.utf8Encode_toList]
  simp [List.utf8Encode,asBytes]

theorem fromUtf8_eq_some (h : fromUtf8 bytes = some cs) : bytes = asBytes cs := by
  obtain ⟨a,ha,rfl⟩ := Option.map_eq_some_iff.mp h
  have hsome : bytes.toByteArray.utf8Decode?.isSome = true := by rw [ha]; rfl
  have hback := ByteArray.utf8Encode_get_utf8Decode? (h := hsome)
  simp only [ha,Option.get_some] at hback
  exact (toByteArray_inj hback).symm

theorem asBytes_ne_nil (h : cs ≠ []) : asBytes cs ≠ [] := by
  intro hnil
  have hread := fromUtf8_asBytes cs
  rw [hnil,show ([] : List UInt8) = asBytes [] from rfl,fromUtf8_asBytes] at hread
  exact h (Option.some.inj hread).symm

/-- Of two texts, one whose bytes are a prefix is a prefix. -/
theorem prefix_of_asBytes (h : asBytes cs ++ rest = asBytes ds) : cs <+: ds := by
  apply List.isPrefix_of_utf8Encode_append_eq_utf8Encode rest.toByteArray
  change (asBytes cs).toByteArray ++ rest.toByteArray = (asBytes ds).toByteArray
  rw [← h]
  simp

theorem newline_eq_ofNat {n : ℕ} (h : n < 256) : newline = UInt8.ofNat n ↔ n = 10 := by
  rw [← UInt8.toNat_inj,UInt8.toNat_ofNat_of_lt' h]
  exact eq_comm

/-- The bytes of the longer encodings are all at least 128. -/
theorem newline_notMem_of_high (ns : List ℕ) (h : ∀ n ∈ ns, 128 ≤ n ∧ n < 256) :
    newline ∉ ns.map UInt8.ofNat := by
  rw [List.mem_map]
  rintro ⟨n,hn,he⟩
  have hten := (newline_eq_ofNat (h n hn).2).mp he.symm
  have hhigh := (h n hn).1
  omega

theorem newline_mem_utf8EncodeChar {c : Char} : newline ∈ String.utf8EncodeChar c ↔ c = '\n' := by
  have hchar : c = '\n' ↔ c.val.toNat = 10 := by
    rw [← Char.toNat_inj]
    rfl
  rw [hchar,String.utf8EncodeChar]
  split
  · rw [List.mem_singleton,newline_eq_ofNat (by omega)]
  · rename_i hlong
    have hten : c.val.toNat ≠ 10 := by omega
    split
    · refine iff_of_false (newline_notMem_of_high [_,_] ?_) hten
      simp only [List.forall_mem_cons,List.not_mem_nil,false_imp_iff,implies_true,and_true]
      omega
    · split
      · refine iff_of_false (newline_notMem_of_high [_,_,_] ?_) hten
        simp only [List.forall_mem_cons,List.not_mem_nil,false_imp_iff,implies_true,and_true]
        omega
      · refine iff_of_false (newline_notMem_of_high [_,_,_,_] ?_) hten
        simp only [List.forall_mem_cons,List.not_mem_nil,false_imp_iff,implies_true,and_true]
        omega

/-- The newline byte stands for the newline only. -/
theorem newline_mem_asBytes : newline ∈ asBytes cs ↔ '\n' ∈ cs := by
  simp only [asBytes,List.mem_flatMap,newline_mem_utf8EncodeChar]
  exact ⟨fun ⟨c,hc,he⟩ => he ▸ hc,fun h => ⟨'\n',h,rfl⟩⟩

@[simp] theorem asBytes_newline : asBytes ['\n'] = [newline] := rfl

end Utf8

section Lines
variable {cs : List Char} {bytes rest : List UInt8}

theorem readPieces_append (h : newline ∉ bytes) (rest : List UInt8) :
    readPieces (bytes ++ newline :: rest) = (bytes ++ [newline]) :: readPieces rest := by
  induction bytes with
  | nil => rw [List.nil_append,readPieces,if_pos rfl,List.nil_append]
  | cons b bs ih =>
    rw [List.mem_cons,not_or] at h
    rw [List.cons_append,readPieces,if_neg (Ne.symm h.1),ih h.2]
    rfl

theorem readPieces_of_notMem (h : newline ∉ bytes) (hne : bytes ≠ []) : readPieces bytes = [bytes] := by
  induction bytes with
  | nil => exact absurd rfl hne
  | cons b bs ih =>
    rw [List.mem_cons,not_or] at h
    rw [readPieces,if_neg (Ne.symm h.1)]
    by_cases hbs : bs = []
    · rw [hbs]
      rfl
    · rw [ih h.2 hbs]

theorem chomp_concat (h : cs.getLast? ≠ some '\r') : chomp (cs ++ ['\n']) = cs := by
  rw [chomp,List.getLast?_concat,if_pos rfl,List.dropLast_concat,if_neg h]

theorem chomp_of_notMem (h : '\n' ∉ cs) : chomp cs = cs := by
  rw [chomp,if_neg]
  intro hlast
  exact h (List.mem_of_getLast? hlast)

/-- A line that was written with its newline comes first. -/
theorem lines_append (h : '\n' ∉ cs) (hr : cs.getLast? ≠ some '\r') (rest : List UInt8) :
    lines (asBytes (cs ++ ['\n']) ++ rest) = some cs :: lines rest := by
  have hno : newline ∉ asBytes cs := fun hmem => h (newline_mem_asBytes.mp hmem)
  have hsplit : asBytes (cs ++ ['\n']) ++ rest = asBytes cs ++ newline :: rest := by
    rw [asBytes_append,asBytes_newline,List.append_assoc,List.singleton_append]
  have hpiece : asBytes cs ++ [newline] = asBytes (cs ++ ['\n']) := by
    rw [asBytes_append,asBytes_newline]
  rw [lines,hsplit,readPieces_append hno,List.map_cons,hpiece,fromUtf8_asBytes,Option.map_some,
    chomp_concat hr]
  rfl

/-- What was written without a newline is one line. -/
theorem lines_of_notMem (h : newline ∉ bytes) (hne : bytes ≠ []) : lines bytes = [fromUtf8 bytes] := by
  rw [lines,readPieces_of_notMem h hne,List.map_singleton]
  cases hcs : fromUtf8 bytes with
  | none => rfl
  | some cs =>
    rw [fromUtf8_eq_some hcs] at h
    rw [Option.map_some,chomp_of_notMem fun hmem => h (newline_mem_asBytes.mpr hmem)]

@[simp] theorem lines_nil : lines [] = [] := rfl

end Lines

end Rust
