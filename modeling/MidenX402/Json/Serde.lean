import MidenX402.Json.Reader
import Mathlib.Data.List.Nodup

/-!
# Typed values as JSON

How a derived serializer writes a value and a derived deserializer takes it out of what was read.  A
type that is `Faithful` comes back from its own text, at every depth that its own brackets leave.
-/

namespace Json

class Serialize (α : Type) where
  serialize : α → List Char

class Deserialize (α : Type) where
  deserialize : Value → Option α
  /-- what a struct gets where the field is missing -/
  missing : Option α

open Serialize Deserialize

/-- The text of a value is read back, inside of as many brackets as `height` leaves. -/
class Faithful (α : Type) extends Serialize α, Deserialize α where
  height : ℕ
  faithful : ∀ a : α, ∃ v, deserialize v = some a ∧ ∀ d, Denotes (d + height) (serialize a) v

/-- The type has no value that is written as `null`. -/
class NotNull (α : Type) [Deserialize α] : Prop where
  null : deserialize (.null : Value) = (none : Option α)

section Scalars

instance : Faithful String where
  serialize s := quote s.toList
  deserialize
    | .string cs => some (String.ofList cs)
    | _ => none
  missing := none
  height := 0
  faithful s := ⟨.string s.toList,by simp,fun d => denotes_quote s.toList⟩

instance : NotNull String := ⟨rfl⟩

instance : Faithful Bool where
  serialize b := if b then ['t','r','u','e'] else ['f','a','l','s','e']
  deserialize
    | .bool b => some b
    | _ => none
  missing := none
  height := 0
  faithful b := ⟨.bool b,rfl,fun d => by
    cases b
    · exact denotes_false
    · exact denotes_true⟩

/-- A number that fits in `bound` values. -/
def toUnsigned (bound : ℕ) : Value → Option ℕ
  | .number (.natural n) => if n < bound then some n else none
  | _ => none

theorem toUnsigned_natural {bound n : ℕ} (h : n < bound) :
    toUnsigned bound (.number (.natural n)) = some n :=
  if_pos h

instance : Faithful UInt32 where
  serialize n := number n.toNat
  deserialize v := (toUnsigned (2 ^ 32) v).map UInt32.ofNat
  missing := none
  height := 0
  faithful n := ⟨.number (.natural n.toNat),
    by rw [toUnsigned_natural n.toNat_lt,Option.map_some,UInt32.ofNat_toNat],
    fun d => denotes_number n.toNat⟩

instance : Faithful UInt64 where
  serialize n := number n.toNat
  deserialize v := (toUnsigned (2 ^ 64) v).map UInt64.ofNat
  missing := none
  height := 0
  faithful n := ⟨.number (.natural n.toNat),
    by rw [toUnsigned_natural n.toNat_lt,Option.map_some,UInt64.ofNat_toNat],
    fun d => denotes_number n.toNat⟩

end Scalars

section Containers
variable {α : Type}

instance [Serialize α] : Serialize (Option α) where
  serialize
    | none => ['n','u','l','l']
    | some a => serialize a

/-- A missing field reads as `None`. -/
instance [Deserialize α] : Deserialize (Option α) where
  deserialize
    | .null => some none
    | v => (deserialize v).map some
  missing := some none

instance [Faithful α] [NotNull α] : Faithful (Option α) where
  height := Faithful.height α
  faithful a := by
    cases a with
    | none => exact ⟨.null,rfl,fun d => denotes_null⟩
    | some a =>
      obtain ⟨v,hv,hd⟩ := Faithful.faithful a
      refine ⟨v,?_,hd⟩
      cases v with
      | null => exact absurd (hv.symm.trans NotNull.null) (by simp)
      | _ => exact congrArg (Option.map some) hv

instance [Serialize α] : Serialize (List α) where
  serialize as := array (as.map serialize)

instance [Deserialize α] : Deserialize (List α) where
  deserialize
    | .array vs => vs.mapM deserialize
    | _ => none
  missing := none

/-- The values of a list, element by element. -/
theorem exists_values [Faithful α] (as : List α) : ∃ xs : List (List Char × Value),
    xs.map Prod.fst = as.map serialize ∧ (xs.map Prod.snd).mapM deserialize = some as ∧
      ∀ x ∈ xs, ∀ d, Denotes (d + Faithful.height α) x.1 x.2 := by
  induction as with
  | nil => exact ⟨[],rfl,rfl,by simp⟩
  | cons a as ih =>
    obtain ⟨xs,htexts,hvalues,hd⟩ := ih
    obtain ⟨v,hv,hav⟩ := Faithful.faithful a
    refine ⟨(serialize a,v) :: xs,by rw [List.map_cons,List.map_cons,htexts],?_,?_⟩
    · rw [List.map_cons,List.mapM_cons,hv,hvalues]
      rfl
    · exact List.forall_mem_cons.mpr ⟨hav,hd⟩

instance [Faithful α] : Faithful (List α) where
  height := Faithful.height α + 1
  faithful as := by
    obtain ⟨xs,htexts,hvalues,hd⟩ := exists_values as
    refine ⟨.array (xs.map Prod.snd),hvalues,?_⟩
    intro d
    have harray := denotes_array fun x hx => hd x hx d
    rw [htexts] at harray
    exact harray

end Containers

section Structs

/-- The text of a struct: every field under its name. -/
def structText (names : List (List Char)) (texts : List (List Char)) : List Char :=
  object (names.zip texts)

/-- What the input has for each field of a struct.  An object may have further members, but no field
twice; an array has the fields in their order. -/
def structValues (names : List (List Char)) : Value → Option (List (Option Value))
  | .object fs =>
    if ((fs.map Prod.fst).filter (· ∈ names)).Nodup then
      some (names.map fun name => fs.lookup name)
    else none
  | .array vs => if vs.length = names.length then some (vs.map some) else none
  | _ => none

def fieldValue {α : Type} [Deserialize α] : Option Value → Option α
  | some v => deserialize v
  | none => missing

/-- Underscores are dropped and capitalise the letter after them. -/
def pascalCase (capitalize : Bool) : List Char → List Char
  | [] => []
  | c :: cs =>
    if c = '_' then pascalCase true cs
    else (if capitalize then c.toUpper else c) :: pascalCase false cs

/-- `#[serde(rename_all = "camelCase")]`. -/
def camelCase (name : List Char) : List Char :=
  match pascalCase true name with
  | [] => []
  | c :: cs => c.toLower :: cs

theorem lookup_zip {names : List (List Char)} (hnames : names.Nodup) {vs : List Value}
    (hlen : names.length = vs.length) :
    (names.map fun name => (names.zip vs).lookup name) = vs.map some := by
  induction names generalizing vs with
  | nil =>
    cases vs with
    | nil => rfl
    | cons v vs => simp at hlen
  | cons name names ih =>
    cases vs with
    | nil => simp at hlen
    | cons v vs =>
      obtain ⟨hname,hrest⟩ := List.nodup_cons.mp hnames
      have htail := ih hrest (by simpa using hlen)
      have hskip : ∀ other ∈ names, ((name,v) :: names.zip vs).lookup other =
          (names.zip vs).lookup other := by
        intro other hother
        have hne : (other == name) = false := by
          rw [beq_eq_false_iff_ne]
          rintro rfl
          exact hname hother
        rw [List.lookup_cons,hne]
      rw [List.zip_cons_cons,List.map_cons,List.map_cons,List.map_congr_left hskip,htail]
      rw [List.lookup_cons_self]

theorem structValues_zip {names : List (List Char)} (hnames : names.Nodup) {vs : List Value}
    (hlen : names.length = vs.length) :
    structValues names (.object (names.zip vs)) = some (vs.map some) := by
  have hfst : (names.zip vs).map Prod.fst = names := List.map_fst_zip (le_of_eq hlen)
  rw [structValues,hfst,if_pos (hnames.filter _),lookup_zip hnames hlen]

theorem denotes_struct {depth : ℕ} {names : List (List Char)} {xs : List (List Char × Value)}
    (h : ∀ x ∈ xs, Denotes depth x.1 x.2) : Denotes (depth + 1)
      (structText names (xs.map Prod.fst)) (.object (names.zip (xs.map Prod.snd))) := by
  have hobject := @denotes_object depth (names.zip xs) fun f hf => h f.2 (List.of_mem_zip hf).2
  have htexts : names.zip (xs.map Prod.fst) = (names.zip xs).map fun f => (f.1,f.2.1) := by
    rw [List.zip_map_right]
    rfl
  have hvalues : names.zip (xs.map Prod.snd) = (names.zip xs).map fun f => (f.1,f.2.2) := by
    rw [List.zip_map_right]
    rfl
  rw [structText,htexts,hvalues]
  exact hobject

/-- The object that is written for a struct has each field's value under its name. -/
theorem struct_faithful {names : List (List Char)} (hnames : names.Nodup) {k : ℕ}
    {xs : List (List Char × Value)} (hlen : names.length = xs.length)
    (h : ∀ x ∈ xs, ∀ d, Denotes (d + k) x.1 x.2) :
    structValues names (.object (names.zip (xs.map Prod.snd))) = some (xs.map fun x => some x.2) ∧
      ∀ d, Denotes (d + (k + 1)) (structText names (xs.map Prod.fst))
        (.object (names.zip (xs.map Prod.snd))) := by
  refine ⟨?_,fun d => denotes_struct fun x hx => h x hx d⟩
  rw [structValues_zip hnames (by rw [hlen,List.length_map]),List.map_map]
  rfl

/-- A value among others that are nested deeper. -/
theorem faithful_within {α : Type} [Faithful α] (a : α) {k : ℕ} (h : Faithful.height α ≤ k) :
    ∃ v, deserialize v = some a ∧ ∀ d, Denotes (d + k) (serialize a) v := by
  obtain ⟨v,hv,hd⟩ := Faithful.faithful a
  refine ⟨v,hv,?_⟩
  intro d
  have hk := hd (d + (k - Faithful.height α))
  rwa [Nat.add_assoc,Nat.sub_add_cancel h] at hk

end Structs

section Records

/-- The fields of a struct, as a product that ends with `Unit`. -/
class FieldList (α : Type) where
  count : ℕ
  texts : α → List (List Char)
  values : List (Option Value) → Option α
  height : ℕ
  faithful : ∀ {k : ℕ}, height ≤ k → ∀ a : α, ∃ xs : List (List Char × Value), xs.length = count ∧
    xs.map Prod.fst = texts a ∧ values (xs.map fun x => some x.2) = some a ∧
      ∀ x ∈ xs, ∀ d, Denotes (d + k) x.1 x.2

instance : FieldList Unit where
  count := 0
  texts _ := []
  values
    | [] => some ()
    | _ => none
  height := 0
  faithful _ _ := ⟨[],rfl,rfl,rfl,by simp⟩

instance {α β : Type} [Faithful α] [FieldList β] : FieldList (α × β) where
  count := FieldList.count β + 1
  texts a := serialize a.1 :: FieldList.texts a.2
  values
    | v :: vs => do return (← fieldValue v,← FieldList.values vs)
    | [] => none
  height := max (Faithful.height α) (FieldList.height β)
  faithful hk a := by
    obtain ⟨v,hv,hd⟩ := faithful_within a.1 (le_trans (le_max_left _ _) hk)
    obtain ⟨xs,hlen,htexts,hvalues,hds⟩ := FieldList.faithful (le_trans (le_max_right _ _) hk) a.2
    refine ⟨(serialize a.1,v) :: xs,by rw [List.length_cons,hlen],by rw [List.map_cons,htexts],?_,?_⟩
    · simp only [List.map_cons,fieldValue,hv,hvalues]
      rfl
    · exact List.forall_mem_cons.mpr ⟨hd,hds⟩

/-- A struct that is made of its fields and nothing else. -/
@[reducible] def Faithful.ofFields {σ α : Type} [FieldList α] (names : List (List Char)) (toFields : σ → α)
    (ofFields : α → σ) (hnames : names.Nodup) (hcount : names.length = FieldList.count α)
    (hback : ∀ s, ofFields (toFields s) = s) : Faithful σ where
  serialize s := structText names (FieldList.texts (toFields s))
  deserialize v := (structValues names v).bind fun vs => (FieldList.values vs).map ofFields
  missing := none
  height := FieldList.height α + 1
  faithful s := by
    obtain ⟨xs,hlen,htexts,hvalues,hds⟩ := FieldList.faithful le_rfl (toFields s)
    obtain ⟨hread,hd⟩ := struct_faithful hnames (hcount.trans hlen.symm) hds
    refine ⟨_,?_,fun d => htexts ▸ hd d⟩
    rw [hread,Option.bind_some,hvalues,Option.map_some,hback]

end Records

end Json
