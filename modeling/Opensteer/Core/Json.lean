import Mathlib.Data.Rat.Defs
import Opensteer.Core.Live

/-!
# JSON values

A value as `JSON.parse` gives it. Its strings are lists of UTF-16 units, and its
numbers the rationals they stand for. An object is the list `Object.entries`
gives; a field it lacks is `none`, as `undefined` is.
-/

namespace Opensteer

/-- The UTF-16 units of a string. -/
def units (s : String) : Text :=
  s.toList.flatMap fun c =>
    let n := c.toNat
    if n < 0x10000 then [UInt16.ofNat n]
    else [UInt16.ofNat (0xd800 + (n - 0x10000) / 0x400), UInt16.ofNat (0xdc00 + (n - 0x10000) % 0x400)]

theorem units_append (s t : String) : units (s ++ t) = units s ++ units t := by
  rw [units, String.toList_append, List.flatMap_append]
  rfl

/-- A unit that is no surrogate, and is none of the characters of a string. -/
theorem notMem_units {u : UInt16} {l : List Char} (hu : u < 0xd800) (h : l.all (fun c => c.toNat != u.toNat) = true) :
    u ∉ units (String.ofList l) := by
  rw [units, String.toList_ofList]
  intro hin
  obtain ⟨c, hc, hunit⟩ := List.mem_flatMap.mp hin
  have hlt : c.toNat < 0x110000 := by
    have : c.val.toNat = c.toNat := rfl
    rcases c.valid with hv | hv <;> omega
  have hu' : u.toNat < 0xd800 := UInt16.lt_iff_toNat_lt.mp hu
  dsimp only at hunit
  split at hunit
  · rename_i hbmp
    have hcode := congrArg UInt16.toNat (List.mem_singleton.mp hunit)
    rw [UInt16.toNat_ofNat_of_lt' (by simpa using hbmp)] at hcode
    have hne := List.all_eq_true.mp h c hc
    rw [hcode, bne_self_eq_false] at hne
    exact Bool.false_ne_true hne
  · rename_i hbmp
    simp only [List.mem_cons, List.not_mem_nil, or_false] at hunit
    rcases hunit with hunit | hunit <;>
    · have hcode := congrArg UInt16.toNat hunit
      rw [UInt16.toNat_ofNat_of_lt' (by rw [UInt16.size]; omega)] at hcode
      omega

theorem units_ofList_cons (c : Char) (l : List Char) : units (String.ofList (c :: l)) =
    (if c.toNat < 0x10000 then [UInt16.ofNat c.toNat]
    else [UInt16.ofNat (0xd800 + (c.toNat - 0x10000) / 0x400), UInt16.ofNat (0xdc00 + (c.toNat - 0x10000) % 0x400)]) ++
      units (String.ofList l) := by
  rw [units, units, String.toList_ofList, String.toList_ofList, List.flatMap_cons]

theorem char_toNat_lt (c : Char) : c.toNat < 0xd800 ∨ 0xdfff < c.toNat ∧ c.toNat < 0x110000 := c.valid

theorem units_ofList_injective : ∀ {l m : List Char}, units (String.ofList l) = units (String.ofList m) → l = m
  | [], [], _ => rfl
  | [], c :: m, h => by
    rw [units_ofList_cons] at h
    split at h <;> cases h
  | c :: l, [], h => by
    rw [units_ofList_cons] at h
    split at h <;> cases h
  | c :: l, d :: m, h => by
    rw [units_ofList_cons, units_ofList_cons] at h
    have hc := char_toNat_lt c
    have hd := char_toNat_lt d
    have hofNat : ∀ {n k : Nat}, n < 65536 → k < 65536 → UInt16.ofNat n = UInt16.ofNat k → n = k := fun hn hk heq => by
      have hcode := congrArg UInt16.toNat heq
      rwa [UInt16.toNat_ofNat_of_lt' hn, UInt16.toNat_ofNat_of_lt' hk] at hcode
    have hchar : c.toNat = d.toNat → units (String.ofList l) = units (String.ofList m) →
        c :: l = d :: m := fun hcd hlm => by
      rw [Char.toNat_inj.mp hcd, units_ofList_injective hlm]
    split at h
    · split at h
      · obtain ⟨hhead, htail⟩ := List.cons.inj h
        exact hchar (hofNat (by omega) (by omega) hhead) htail
      · have := hofNat (by omega) (by omega) (List.cons.inj h).1
        omega
    · split at h
      · have := hofNat (by omega) (by omega) (List.cons.inj h).1
        omega
      · obtain ⟨hhigh, hrest⟩ := List.cons.inj h
        obtain ⟨hlow, htail⟩ := List.cons.inj hrest
        have hhigh := hofNat (by omega) (by omega) hhigh
        have hlow := hofNat (by omega) (by omega) hlow
        exact hchar (by omega) htail

inductive Json
  | null
  | bool (b : Bool)
  | number (n : Rat)
  | string (s : Text)
  | array (items : List Json)
  | object (fields : List (Text × Json))

abbrev Fields := List (Text × Json)

namespace Json

mutual
/-- How many values there are in a value, itself included. -/
def nodes : Json → Nat
  | .array items => 1 + nodesOfItems items
  | .object fields => 1 + nodesOfFields fields
  | _ => 1

def nodesOfItems : List Json → Nat
  | [] => 0
  | v :: vs => v.nodes + nodesOfItems vs

def nodesOfFields : Fields → Nat
  | [] => 0
  | (_, v) :: fields => v.nodes + nodesOfFields fields
end

theorem nodes_pos (v : Json) : 0 < v.nodes := by
  cases v <;> simp only [nodes] <;> omega

end Json

namespace Fields

/-- `record[key]`. -/
def get? (fields : Fields) (key : Text) : Option Json := (fields.find? fun e => e.1 = key).map Prod.snd

/-- `delete record[key]`. -/
def delete (fields : Fields) (key : Text) : Fields := fields.filter fun e => e.1 ≠ key

/-- `{ ...record, [key]: value }`. -/
def set (fields : Fields) (key : Text) (value : Json) : Fields :=
  if (fields.get? key).isSome then fields.map fun e => if e.1 = key then (key, value) else e
  else fields ++ [(key, value)]

theorem mem_of_get? {fields : Fields} {key : Text} {v : Json} (h : fields.get? key = some v) :
    (key, v) ∈ fields := by
  obtain ⟨e, he, rfl⟩ := Option.map_eq_some_iff.mp h
  have hkey : e.1 = key := by simpa using List.find?_some he
  rw [← hkey]
  exact List.mem_of_find?_eq_some he

theorem mem_set {fields : Fields} {key : Text} {value : Json} {e : Text × Json}
    (h : e ∈ fields.set key value) : e ∈ fields ∨ e = (key, value) := by
  unfold set at h
  split at h
  · obtain ⟨e', he, rfl⟩ := List.mem_map.mp h
    split
    · exact .inr rfl
    · exact .inl he
  · simpa using h

end Fields

/-- `asRecord`. -/
def asRecord : Option Json → Fields
  | some (.object fields) => fields
  | _ => []

/-- `readString`. -/
def readString (fields : Fields) (key : Text) : Option Text :=
  match fields.get? key with
  | some (.string s) => if s.length ≤ 512 then some s else none
  | _ => none

end Opensteer
