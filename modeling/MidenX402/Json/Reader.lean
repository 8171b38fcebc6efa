import MidenX402.Json.Text
import MidenX402.Rust.Parse

/-!
# A reader of JSON texts

Values are read with a limit on how deep brackets nest.  `Denotes` says that a text is read as a
value wherever it stands; every kind of text that a serializer writes has a rule for it.
-/

namespace Json

/-- A number as it was classified by its spelling. -/
inductive Number where
  | natural (n : ℕ)
  | negative (n : ℕ)
  /-- written with a fraction or an exponent -/
  | decimal (digits : List Char)
deriving DecidableEq

inductive Value where
  | null
  | bool (b : Bool)
  | number (n : Number)
  | string (cs : List Char)
  | array (vs : List Value)
  | object (fs : List (List Char × Value))

section Strings

/-- The four digits after `\u`. -/
def hexCode (a b c d : Char) : Option ℕ := do
  let w ← Rust.toDigit 16 a
  let x ← Rust.toDigit 16 b
  let y ← Rust.toDigit 16 c
  let z ← Rust.toDigit 16 d
  some (((w * 16 + x) * 16 + y) * 16 + z)

def isHighSurrogate (n : ℕ) : Bool := 0xd800 ≤ n && n < 0xdc00

def isLowSurrogate (n : ℕ) : Bool := 0xdc00 ≤ n && n < 0xe000

/-- What a backslash and one more character stand for. -/
def simpleEscape (c : Char) : Option Char :=
  if c = quotationMark ∨ c = backslash ∨ c = '/' then some c
  else if c = 'b' then some (Char.ofNat 8)
  else if c = 't' then some (Char.ofNat 9)
  else if c = 'n' then some (Char.ofNat 10)
  else if c = 'f' then some (Char.ofNat 12)
  else if c = 'r' then some (Char.ofNat 13)
  else none

/-- A string literal from after its opening mark, and what follows it.  Control characters must be
escaped, and a surrogate stands only before or after its other half. -/
def readString : List Char → Option (List Char × List Char)
  | [] => none
  | c :: rest =>
    if c = quotationMark then some ([],rest)
    else if c = backslash then
      match rest with
      | 'u' :: a :: b :: c :: d :: rest =>
        match hexCode a b c d with
        | none => none
        | some n =>
          if isHighSurrogate n then
            match rest with
            | e :: 'u' :: a' :: b' :: c' :: d' :: rest =>
              match hexCode a' b' c' d' with
              | none => none
              | some n' =>
                if e = backslash ∧ isLowSurrogate n' then
                  (readString rest).map fun r =>
                    (Char.ofNat (0x10000 + (n - 0xd800) * 0x400 + (n' - 0xdc00)) :: r.1,r.2)
                else none
            | _ => none
          else if isLowSurrogate n then none
          else (readString rest).map fun r => (Char.ofNat n :: r.1,r.2)
      | e :: rest =>
        match simpleEscape e with
        | none => none
        | some ch => (readString rest).map fun r => (ch :: r.1,r.2)
      | [] => none
    else if c.toNat < 32 then none
    else (readString rest).map fun r => (c :: r.1,r.2)

end Strings

section Numbers

/-- The digits at the head of a text, and what follows them. -/
def spanDigits (cs : List Char) : List Char × List Char := (cs.takeWhile (·.isDigit),cs.dropWhile (·.isDigit))

def readFraction : List Char → Option (List Char × List Char)
  | '.' :: rest =>
    let (ds,rest) := spanDigits rest
    if ds = [] then none else some ('.' :: ds,rest)
  | cs => some ([],cs)

def readExponent (cs : List Char) : Option (List Char × List Char) :=
  match cs with
  | e :: rest =>
    if e = 'e' ∨ e = 'E' then
      let (sign,rest) := match rest with
        | '+' :: rest => (['+'],rest)
        | '-' :: rest => (['-'],rest)
        | rest => ([],rest)
      let (ds,rest) := spanDigits rest
      if ds = [] then none else some (e :: sign ++ ds,rest)
    else some ([],cs)
  | [] => some ([],[])

/-- A number without its sign: no zero before other digits. -/
def readUnsigned (negative : Bool) (cs : List Char) : Option (Number × List Char) := do
  let (ds,rest) := spanDigits cs
  if ds = [] ∨ (ds.head? = some '0' ∧ ds ≠ ['0']) then none
  else
    let (fraction,rest) ← readFraction rest
    let (exponent,rest) ← readExponent rest
    if fraction = [] ∧ exponent = [] then
      let n := Nat.ofDigitChars 10 ds 0
      some (if negative then .negative n else .natural n,rest)
    else some (.decimal ((if negative then ['-'] else []) ++ ds ++ fraction ++ exponent),rest)

def readNumber : List Char → Option (Number × List Char)
  | '-' :: rest => readUnsigned true rest
  | cs => readUnsigned false cs

end Numbers

section Values

def skipBlanks (cs : List Char) : List Char := cs.dropWhile isBlank

/-- Items with commas between them, up to the closing bracket; `n` bounds their number. -/
def separated {β : Type} (item : List Char → Option (β × List Char)) (close : Char) :
    ℕ → List Char → Option (List β × List Char)
  | 0, _ => none
  | n + 1, cs => do
    let (b,cs) ← item cs
    match skipBlanks cs with
    | [] => none
    | c :: rest =>
      if c = ',' then (separated item close n rest).map fun r => (b :: r.1,r.2)
      else if c = close then some ([b],rest)
      else none

/-- The inside of brackets; no more items than characters fit in. -/
def bracketed {β : Type} (item : List Char → Option (β × List Char)) (close : Char) (cs : List Char) :
    Option (List β × List Char) :=
  match skipBlanks cs with
  | [] => none
  | c :: rest => if c = close then some ([],rest) else separated item close cs.length (c :: rest)

def readScalar : List Char → Option (Value × List Char)
  | 'n' :: 'u' :: 'l' :: 'l' :: rest => some (.null,rest)
  | 't' :: 'r' :: 'u' :: 'e' :: rest => some (.bool true,rest)
  | 'f' :: 'a' :: 'l' :: 's' :: 'e' :: rest => some (.bool false,rest)
  | c :: rest =>
    if c = quotationMark then (readString rest).map fun r => (.string r.1,r.2)
    else (readNumber (c :: rest)).map fun r => (.number r.1,r.2)
  | [] => none

/-- A member of an object, its value read by `item`. -/
def readMember (item : List Char → Option (Value × List Char)) (cs : List Char) :
    Option ((List Char × Value) × List Char) :=
  match skipBlanks cs with
  | [] => none
  | c :: rest =>
    if c = quotationMark then do
      let (name,rest) ← readString rest
      match skipBlanks rest with
      | ':' :: rest => (item rest).map fun r => ((name,r.1),r.2)
      | _ => none
    else none

/-- A value and what follows it, with at most `depth` brackets inside of each other. -/
def readValue : ℕ → List Char → Option (Value × List Char)
  | 0, cs => readScalar (skipBlanks cs)
  | depth + 1, cs =>
    match skipBlanks cs with
    | '[' :: rest => (bracketed (readValue depth) ']' rest).map fun r => (.array r.1,r.2)
    | '{' :: rest =>
      (bracketed (readMember (readValue depth)) '}' rest).map fun r => (.object r.1,r.2)
    | cs => readScalar cs

/-- A whole text: one value and nothing but blanks after it. -/
def read (depth : ℕ) (cs : List Char) : Option Value :=
  match readValue depth cs with
  | some (v,rest) => if rest.all isBlank then some v else none
  | none => none

end Values

section Writing

/-- Texts with commas between them. -/
def items : List (List Char) → List Char
  | [] => []
  | [x] => x
  | x :: rest => x ++ ',' :: items rest

def array (xs : List (List Char)) : List Char := '[' :: (items xs ++ [']'])

theorem fields_eq_items (fs : List (List Char × List Char)) :
    fields fs = items (fs.map fun f => field f.1 f.2) := by
  induction fs with
  | nil => rfl
  | cons f rest ih =>
    cases rest with
    | nil => rfl
    | cons g rest => simp only [fields,List.map_cons,items,ih]

theorem length_le_items (xs : List (List Char)) : xs.length ≤ (items xs).length + 1 := by
  induction xs with
  | nil => simp
  | cons x rest ih =>
    cases rest with
    | nil => simp
    | cons y rest =>
      simp only [items,List.length_append,List.length_cons] at ih ⊢
      omega

end Writing

section Denoting
variable {depth : ℕ} {cs rest : List Char} {v : Value}

/-- What may follow a number without becoming a part of it. -/
def Ends (rest : List Char) : Prop :=
  ∀ c, rest.head? = some c → c.isDigit = false ∧ c ≠ '.' ∧ c ≠ 'e' ∧ c ≠ 'E'

/-- The text begins with no blank and no bracket that closes. -/
def Starts (cs : List Char) : Prop :=
  ∃ c t, cs = c :: t ∧ isBlank c = false ∧ c ≠ ']' ∧ c ≠ '}'

/-- Wherever the text stands it is read as the value. -/
structure Denotes (depth : ℕ) (cs : List Char) (v : Value) : Prop where
  starts : Starts cs
  reads : ∀ rest, Ends rest → readValue depth (cs ++ rest) = some (v,rest)

theorem ends_nil : Ends [] := by
  simp [Ends]

theorem ends_cons {c : Char} (hdigit : c.isDigit = false) (hdot : c ≠ '.') (he : c ≠ 'e')
    (hE : c ≠ 'E') (rest : List Char) : Ends (c :: rest) := by
  intro d hd
  obtain rfl := Option.some.inj hd
  exact ⟨hdigit,hdot,he,hE⟩

theorem skipBlanks_cons {c : Char} (h : isBlank c = false) (rest : List Char) :
    skipBlanks (c :: rest) = c :: rest := by
  simp [skipBlanks,h]

/-- A text that opens no bracket is read as a scalar at every depth. -/
theorem readValue_scalar {c : Char} (hc : isBlank c = false) (harray : c ≠ '[') (hobject : c ≠ '{')
    (rest : List Char) : readValue depth (c :: rest) = readScalar (c :: rest) := by
  cases depth with
  | zero => rw [readValue,skipBlanks_cons hc]
  | succ depth =>
    rw [readValue,skipBlanks_cons hc]
    split
    · rename_i heq
      exact absurd (List.cons.inj heq).1 harray
    · rename_i heq
      exact absurd (List.cons.inj heq).1 hobject
    · rfl

theorem denotes_null : Denotes depth ['n','u','l','l'] .null where
  starts := ⟨'n',_,rfl,rfl,by decide,by decide⟩
  reads rest _ := readValue_scalar rfl (by decide) (by decide) _

theorem denotes_true : Denotes depth ['t','r','u','e'] (.bool true) where
  starts := ⟨'t',_,rfl,rfl,by decide,by decide⟩
  reads rest _ := readValue_scalar rfl (by decide) (by decide) _

theorem denotes_false : Denotes depth ['f','a','l','s','e'] (.bool false) where
  starts := ⟨'f',_,rfl,rfl,by decide,by decide⟩
  reads rest _ := readValue_scalar rfl (by decide) (by decide) _

end Denoting

section Literals
variable {depth : ℕ} {rest : List Char}

theorem readString_simple {e ch : Char} (hu : e ≠ 'u') (he : simpleEscape e = some ch)
    (rest : List Char) :
    readString (backslash :: e :: rest) = (readString rest).map fun r => (ch :: r.1,r.2) := by
  rw [readString.eq_def]
  simp only [if_neg (show backslash ≠ quotationMark by decide),if_pos]
  split
  · rename_i heq
    exact absurd (List.cons.inj heq).1 hu
  · rename_i heq
    obtain ⟨rfl,rfl⟩ := List.cons.inj heq
    rw [he]
  · rename_i heq
    cases heq

/-- A character is read back from its escaped form. -/
theorem readString_escapeChar (c : Char) (rest : List Char) :
    readString (escapeChar c ++ rest) = (readString rest).map fun r => (c :: r.1,r.2) := by
  have hcode : ∀ {n : ℕ}, c.toNat = n → Char.ofNat n = c := by
    rintro n rfl
    exact Char.ofNat_toNat c
  unfold escapeChar
  split
  · rename_i hc
    have hu : c ≠ 'u' ∧ simpleEscape c = some c := by rcases hc with rfl | rfl <;> decide
    exact readString_simple hu.1 hu.2 rest
  rename_i hne
  rw [not_or] at hne
  iterate 5
    split
    · rename_i hc
      rw [← hcode hc]
      exact readString_simple (by decide) (by decide) rest
  split
  · rename_i hlt
    have hhex : ∀ n < 32, hexCode '0' '0' (Nat.digitChar (n / 16)) (Nat.digitChar (n % 16)) = some n := by
      decide
    have hhigh : isHighSurrogate c.toNat = false := by
      simp [isHighSurrogate]
      omega
    have hlow : isLowSurrogate c.toNat = false := by
      simp [isLowSurrogate]
      omega
    simp only [List.cons_append,List.nil_append]
    rw [readString.eq_def]
    simp only [if_neg (show backslash ≠ quotationMark by decide),if_pos,hhex _ hlt,hhigh,hlow,
      Char.ofNat_toNat,Bool.false_eq_true,if_false]
  · rename_i hctrl
    rw [List.singleton_append,readString.eq_def]
    simp only [if_neg hne.1,if_neg hne.2,if_neg hctrl]

theorem readString_escaped (cs rest : List Char) :
    readString (cs.flatMap escapeChar ++ quotationMark :: rest) = some (cs,rest) := by
  induction cs with
  | nil =>
    rw [List.flatMap_nil,List.nil_append,readString.eq_def]
    simp only [if_pos]
  | cons c cs ih =>
    rw [List.flatMap_cons,List.append_assoc,readString_escapeChar,ih,Option.map_some]

theorem quote_append (cs rest : List Char) :
    quote cs ++ rest = quotationMark :: (cs.flatMap escapeChar ++ quotationMark :: rest) := by
  simp [quote]

theorem denotes_quote (cs : List Char) : Denotes depth (quote cs) (.string cs) where
  starts := ⟨quotationMark,_,rfl,rfl,by decide,by decide⟩
  reads rest _ := by
    rw [quote_append,readValue_scalar rfl (by decide) (by decide)]
    change (readString _).map _ = _
    rw [readString_escaped,Option.map_some]

theorem spanDigits_append {ds : List Char} (hds : ∀ c ∈ ds, c.isDigit = true) (hr : Ends rest) :
    spanDigits (ds ++ rest) = (ds,rest) := by
  induction ds with
  | nil =>
    cases rest with
    | nil => rfl
    | cons c rest => simp [spanDigits,(hr c rfl).1]
  | cons d ds ih =>
    have hd := hds d List.mem_cons_self
    have hrest := ih fun c hc => hds c (List.mem_cons_of_mem _ hc)
    simp only [spanDigits,Prod.mk.injEq] at hrest ⊢
    simp [hd,hrest]

/-- No number is written with a zero before other digits. -/
theorem toDigits_head (n : ℕ) (h : (Nat.toDigits 10 n).head? = some '0') :
    Nat.toDigits 10 n = ['0'] := by
  have hdigit : ∀ d < 10, Nat.digitChar d = '0' → d = 0 := by
    decide
  induction n using Nat.strongRecOn with
  | ind n ih =>
    by_cases hlt : n < 10
    · rw [Nat.toDigits_of_lt_base hlt] at h ⊢
      rw [hdigit n hlt (Option.some.inj h)]
      rfl
    · rw [Nat.toDigits_of_base_le (by decide) (by omega)] at h
      have hhead : (Nat.toDigits 10 (n / 10)).head? = some '0' := by
        cases hds : Nat.toDigits 10 (n / 10) with
        | nil => exact absurd hds Nat.toDigits_ne_nil
        | cons c cs =>
          rw [hds] at h
          exact h
      have hzero := congrArg (Nat.ofDigitChars 10 · 0) (ih (n / 10) (by omega) hhead)
      simp only [Nat.ofDigitChars_ten_toDigits] at hzero
      rw [show Nat.ofDigitChars 10 ['0'] 0 = 0 from rfl] at hzero
      omega

theorem readFraction_of_ends (hr : Ends rest) : readFraction rest = some ([],rest) := by
  unfold readFraction
  split
  · exact absurd rfl (hr '.' rfl).2.1
  · rfl

theorem readExponent_of_ends (hr : Ends rest) : readExponent rest = some ([],rest) := by
  cases rest with
  | nil => rfl
  | cons c rest =>
    obtain ⟨-,-,he,hE⟩ := hr c rfl
    simp [readExponent,he,hE]

theorem readNumber_number (n : ℕ) (hr : Ends rest) :
    readNumber (number n ++ rest) = some (.natural n,rest) := by
  have hdigits : ∀ c ∈ number n, c.isDigit = true :=
    fun c hc => Nat.isDigit_of_mem_toDigits (by decide) le_rfl hc
  have hunsigned : readNumber (number n ++ rest) = readUnsigned false (number n ++ rest) := by
    unfold readNumber
    split
    · rename_i heq
      have hminus : '-' ∈ number n := by
        cases hn : number n with
        | nil => exact absurd hn Nat.toDigits_ne_nil
        | cons c cs =>
          rw [hn] at heq
          rw [(List.cons.inj heq).1]
          exact List.mem_cons_self
      exact absurd (hdigits _ hminus) (by decide)
    · rfl
  have hhead : ¬(number n = [] ∨ (number n).head? = some '0' ∧ number n ≠ ['0']) := by
    rintro (hnil | ⟨hzero,hne⟩)
    · exact Nat.toDigits_ne_nil hnil
    · exact hne (toDigits_head n hzero)
  rw [hunsigned,readUnsigned,spanDigits_append hdigits hr]
  simp only [if_neg hhead,readFraction_of_ends hr,readExponent_of_ends hr,Option.bind_eq_bind,
    Option.bind_some,and_self,if_true,Bool.false_eq_true,if_false]
  rw [number,Nat.ofDigitChars_ten_toDigits]

theorem denotes_number (n : ℕ) : Denotes depth (number n) (.number (.natural n)) := by
  have hdigits : ∀ c ∈ number n, c.isDigit = true :=
    fun c hc => Nat.isDigit_of_mem_toDigits (by decide) le_rfl hc
  have hnot : ∀ {c d : Char}, c.isDigit = true → d.isDigit = false → c ≠ d := by
    rintro c d hc hd rfl
    rw [hc] at hd
    cases hd
  cases hn : number n with
  | nil => exact absurd hn Nat.toDigits_ne_nil
  | cons c cs =>
    have hc : c.isDigit = true := hdigits c (by rw [hn]; exact List.mem_cons_self)
    have hblank : isBlank c = false := by
      simp [isBlank,hnot hc (show (' ').isDigit = false by rfl),
        hnot hc (show ('\t').isDigit = false by rfl),hnot hc (show ('\n').isDigit = false by rfl),
        hnot hc (show ('\r').isDigit = false by rfl)]
    refine ⟨⟨c,cs,rfl,hblank,hnot hc rfl,hnot hc rfl⟩,?_⟩
    intro rest hr
    have hread := readNumber_number n hr
    rw [hn] at hread
    rw [List.cons_append,readValue_scalar hblank (hnot hc rfl) (hnot hc rfl),readScalar.eq_def]
    split
    · exact absurd (List.cons.inj ‹_›).1 (hnot hc rfl)
    · exact absurd (List.cons.inj ‹_›).1 (hnot hc rfl)
    · exact absurd (List.cons.inj ‹_›).1 (hnot hc rfl)
    · rename_i heq
      obtain ⟨rfl,rfl⟩ := List.cons.inj heq
      rw [if_neg (hnot hc (show quotationMark.isDigit = false by rfl)),← List.cons_append,hread]
      rfl
    · exact absurd ‹_› (by simp)

end Literals

section Brackets
variable {depth : ℕ} {β : Type} {item : List Char → Option (β × List Char)} {close : Char}

/-- A closing bracket, as the reader of items needs it. -/
def Closes (close : Char) : Prop :=
  close ≠ ',' ∧ isBlank close = false ∧ ∀ rest, Ends (close :: rest)

/-- Every text of the list is read as what it is paired with. -/
def ReadsAll (item : List Char → Option (β × List Char)) (xs : List (List Char × β)) : Prop :=
  ∀ x ∈ xs, Starts x.1 ∧ ∀ rest, Ends rest → item (x.1 ++ rest) = some (x.2,rest)

theorem separated_items (hclose : Closes close) {xs : List (List Char × β)} (hne : xs ≠ [])
    (hxs : ReadsAll item xs) {n : ℕ} (hn : xs.length ≤ n) (rest : List Char) :
    separated item close n (items (xs.map Prod.fst) ++ close :: rest) =
      some (xs.map Prod.snd,rest) := by
  obtain ⟨hcomma,hblank,hends⟩ := hclose
  have hcommaEnds : ∀ rest, Ends (',' :: rest) :=
    ends_cons rfl (by decide) (by decide) (by decide)
  induction xs generalizing n with
  | nil => exact absurd rfl hne
  | cons x xs ih =>
    obtain ⟨-,hx⟩ := hxs x List.mem_cons_self
    cases n with
    | zero => simp at hn
    | succ n =>
      cases xs with
      | nil =>
        simp only [List.map_cons,List.map_nil,items,separated,hx _ (hends rest),Option.bind_eq_bind,
          Option.bind_some,skipBlanks_cons hblank,if_neg hcomma,if_true]
      | cons y ys =>
        have hrest := ih (by simp) (fun z hz => hxs z (List.mem_cons_of_mem _ hz)) (n := n)
          (by simpa using hn)
        simp only [List.map_cons] at hrest ⊢
        simp only [items,List.append_assoc,List.cons_append,separated,hx _ (hcommaEnds _),
          Option.bind_eq_bind,Option.bind_some,skipBlanks_cons (show isBlank ',' = false by rfl),
          if_true,hrest,Option.map_some]

theorem bracketed_items (hclose : Closes close) {xs : List (List Char × β)}
    (hxs : ReadsAll item xs) (hstart : ∀ x ∈ xs, x.1.head? ≠ some close) (rest : List Char) :
    bracketed item close (items (xs.map Prod.fst) ++ close :: rest) = some (xs.map Prod.snd,rest) := by
  cases xs with
  | nil => simp [items,bracketed,skipBlanks_cons hclose.2.1]
  | cons x xs =>
    have hlong : (x :: xs).length ≤ (items ((x :: xs).map Prod.fst) ++ close :: rest).length := by
      have hle := length_le_items ((x :: xs).map Prod.fst)
      simp only [List.length_append,List.length_cons,List.length_map] at hle ⊢
      omega
    obtain ⟨c,t,hx,hc,-,-⟩ := (hxs x List.mem_cons_self).1
    obtain ⟨u,hu⟩ : ∃ u, items ((x :: xs).map Prod.fst) ++ close :: rest = c :: u := by
      cases xs with
      | nil => exact ⟨_,by rw [List.map_cons,hx]; rfl⟩
      | cons y ys => exact ⟨_,by rw [List.map_cons,hx]; rfl⟩
    have hne : c ≠ close := by
      rintro rfl
      exact hstart x List.mem_cons_self (by rw [hx]; rfl)
    have hread := separated_items hclose (by simp) hxs hlong rest
    rw [hu] at hread ⊢
    simp only [bracketed,skipBlanks_cons hc,if_neg hne]
    exact hread

theorem closes_array : Closes ']' :=
  ⟨by decide,rfl,ends_cons rfl (by decide) (by decide) (by decide)⟩

theorem closes_object : Closes '}' :=
  ⟨by decide,rfl,ends_cons rfl (by decide) (by decide) (by decide)⟩

theorem denotes_array {xs : List (List Char × Value)} (h : ∀ x ∈ xs, Denotes depth x.1 x.2) :
    Denotes (depth + 1) (array (xs.map Prod.fst)) (.array (xs.map Prod.snd)) where
  starts := ⟨'[',_,rfl,rfl,by decide,by decide⟩
  reads rest _ := by
    have hstart : ∀ x ∈ xs, x.1.head? ≠ some ']' := by
      intro x hx heq
      obtain ⟨c,t,ht,-,hc,-⟩ := (h x hx).starts
      rw [ht] at heq
      exact hc (Option.some.inj heq)
    have hread := bracketed_items closes_array (fun x hx => ⟨(h x hx).starts,(h x hx).reads⟩) hstart rest
    rw [array,List.cons_append,List.append_assoc,readValue,skipBlanks_cons rfl]
    exact congrArg (Option.map _) hread

theorem readMember_field (name : List Char) {text : List Char} {v : Value}
    (h : Denotes depth text v) {rest : List Char} (hr : Ends rest) :
    readMember (readValue depth) (field name text ++ rest) = some ((name,v),rest) := by
  have hfield : field name text ++ rest =
      quotationMark :: (name.flatMap escapeChar ++ quotationMark :: ':' :: (text ++ rest)) := by
    simp [field,quote]
  rw [hfield,readMember,skipBlanks_cons rfl]
  simp only [if_true,readString_escaped,Option.bind_eq_bind,Option.bind_some,
    skipBlanks_cons (show isBlank ':' = false by rfl),h.reads rest hr,Option.map_some]

/-- An object whose members are read: the names with their values, in the order of the text. -/
theorem denotes_object {fs : List (List Char × List Char × Value)}
    (h : ∀ f ∈ fs, Denotes depth f.2.1 f.2.2) :
    Denotes (depth + 1) (object (fs.map fun f => (f.1,f.2.1))) (.object (fs.map fun f => (f.1,f.2.2))) where
  starts := ⟨'{',_,rfl,rfl,by decide,by decide⟩
  reads rest _ := by
    let xs : List (List Char × List Char × Value) := fs.map fun f => (field f.1 f.2.1,f.1,f.2.2)
    have hmem : ∀ x ∈ xs, ∃ f ∈ fs, x = (field f.1 f.2.1,f.1,f.2.2) := by
      intro x hx
      obtain ⟨f,hf,rfl⟩ := List.mem_map.mp hx
      exact ⟨f,hf,rfl⟩
    have hreads : ReadsAll (readMember (readValue depth)) xs := by
      intro x hx
      obtain ⟨f,hf,rfl⟩ := hmem x hx
      refine ⟨⟨quotationMark,_,rfl,rfl,by decide,by decide⟩,?_⟩
      intro rest hr
      exact readMember_field f.1 (h f hf) hr
    have hstart : ∀ x ∈ xs, x.1.head? ≠ some '}' := by
      intro x hx
      obtain ⟨f,-,rfl⟩ := hmem x hx
      change some quotationMark ≠ _
      decide
    have hread := bracketed_items closes_object hreads hstart rest
    simp only [xs,List.map_map] at hread
    rw [object,fields_eq_items,List.map_map,List.cons_append,List.append_assoc,readValue,
      skipBlanks_cons rfl]
    exact congrArg (Option.map _) hread

/-- What denotes a value is read as that value when it is the whole text. -/
theorem Denotes.read {cs : List Char} {v : Value} (h : Denotes depth cs v) : read depth cs = some v := by
  have hread := h.reads [] ends_nil
  rw [List.append_nil] at hread
  simp [Json.read,hread]

end Brackets

end Json
