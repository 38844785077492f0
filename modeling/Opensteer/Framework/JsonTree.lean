import Mathlib.Data.List.Forall2
import Mathlib.Data.List.Perm.Basic
import Opensteer.Framework.Distinct

/-!
# JSON values as trees

Values over any keys and numbers, an object being the list of its fields, and the writers that put them
down in some alphabet (`Script`). Objects with their fields in another order are the same value
(`Reordered`); a writer that arranges the fields of each object is one that does not, after the fields
are arranged (`write_eq_spell`), and fields with distinct keys are arranged in one way by a total order
of the keys, however they come (`Reordered.arranged_eq`, `arranged_concat`). The values that a reader
takes are those of which each number is safe, the keys of each object are distinct, and that are nested
no deeper than it allows (`Fits`).
-/

open scoped List

namespace Opensteer

inductive JsonTree (κ ν : Type)
  | null
  | bool (b : Bool)
  | number (n : ν)
  | string (s : κ)
  | array (items : List (JsonTree κ ν))
  | object (fields : List (κ × JsonTree κ ν))

namespace JsonTree

variable {α κ ν ε β γ : Type} {v w : JsonTree κ ν} {safe : ν → Prop} {bottom : Prop} {d : Nat}

/-- Induction with the items and the fields of a value by their membership. -/
@[elab_as_elim]
theorem inductionOn {motive : JsonTree κ ν → Prop} (v : JsonTree κ ν) (null : motive .null)
    (bool : ∀ b, motive (.bool b)) (number : ∀ n, motive (.number n)) (string : ∀ s, motive (.string s))
    (array : ∀ items, (∀ v ∈ items, motive v) → motive (.array items))
    (object : ∀ fields, (∀ f ∈ fields, motive f.2) → motive (.object fields)) : motive v :=
  JsonTree.rec (motive_1 := motive) (motive_2 := fun items => ∀ v ∈ items, motive v)
    (motive_3 := fun fields => ∀ f ∈ fields, motive f.2) (motive_4 := fun f => motive f.2) null bool number string array
    object (fun _ h => (nomatch h)) (fun _ _ hv hvs => List.forall_mem_cons.mpr ⟨hv, hvs⟩) (fun _ h => (nomatch h))
    (fun _ _ hf hfs => List.forall_mem_cons.mpr ⟨hf, hfs⟩) (fun _ _ hv => hv) v

/-! ## Values that a reader takes -/

/-- Numbers are safe, keys are distinct, and no value is nested deeper than `d`; whether an empty array or
object may stand at the bottom is `bottom`. -/
def Fits (safe : ν → Prop) (bottom : Prop) : Nat → JsonTree κ ν → Prop
  | _, .null => True
  | _, .bool _ => True
  | _, .number n => safe n
  | _, .string _ => True
  | 0, .array items => bottom ∧ items = []
  | 0, .object fields => bottom ∧ fields = []
  | d + 1, .array items => ∀ v ∈ items, Fits safe bottom d v
  | d + 1, .object fields => (fields.map Prod.fst).Nodup ∧ ∀ f ∈ fields, Fits safe bottom d f.2

instance decidableFits [DecidableEq κ] [DecidablePred safe] [Decidable bottom] :
    ∀ (d : Nat) (v : JsonTree κ ν), Decidable (Fits safe bottom d v)
  | 0, .null | _ + 1, .null | 0, .bool _ | _ + 1, .bool _ | 0, .string _ | _ + 1, .string _ => isTrue trivial
  | 0, .number n | _ + 1, .number n => inferInstanceAs (Decidable (safe n))
  | 0, .array items => match items with
    | [] => decidable_of_iff bottom ⟨fun h => ⟨h, rfl⟩, And.left⟩
    | _ :: _ => isFalse fun h => (nomatch h.2)
  | 0, .object fields => match fields with
    | [] => decidable_of_iff bottom ⟨fun h => ⟨h, rfl⟩, And.left⟩
    | _ :: _ => isFalse fun h => (nomatch h.2)
  | d + 1, .array items =>
    have : ∀ v, Decidable (Fits safe bottom d v) := decidableFits d
    inferInstanceAs (Decidable (∀ v ∈ items, Fits safe bottom d v))
  | d + 1, .object fields =>
    have : ∀ v, Decidable (Fits safe bottom d v) := decidableFits d
    inferInstanceAs (Decidable ((fields.map Prod.fst).Nodup ∧ ∀ f ∈ fields, Fits safe bottom d f.2))

theorem Fits.number {n : ν} (h : Fits (κ := κ) safe bottom d (.number n)) : safe n := by
  cases d <;> exact h

/-- What an array or an object holds fits one level less, if it holds anything. -/
theorem Fits.item {items : List (JsonTree κ ν)} (h : Fits safe bottom d (.array items)) (hv : v ∈ items) :
    ∃ e, d = e + 1 ∧ Fits safe bottom e v := by
  cases d with
  | zero => cases h.2 ▸ hv
  | succ e => exact ⟨e, rfl, h v hv⟩

theorem Fits.field {fields : List (κ × JsonTree κ ν)} (h : Fits safe bottom d (.object fields)) {f : κ × JsonTree κ ν}
    (hf : f ∈ fields) : ∃ e, d = e + 1 ∧ Fits safe bottom e f.2 := by
  cases d with
  | zero => cases h.2 ▸ hf
  | succ e => exact ⟨e, rfl, h.2 f hf⟩

theorem Fits.nodup {fields : List (κ × JsonTree κ ν)} (h : Fits safe bottom d (.object fields)) :
    (fields.map Prod.fst).Nodup := by
  cases d with
  | zero =>
    rw [h.2]
    exact List.nodup_nil
  | succ e => exact h.1

/-! ## Orders of fields -/

/-- One value, with the fields of its objects in another order. -/
inductive Reordered : JsonTree κ ν → JsonTree κ ν → Prop
  | refl (u : JsonTree κ ν) : Reordered u u
  | trans {t u u' : JsonTree κ ν} : Reordered t u → Reordered u u' → Reordered t u'
  | item (before after : List (JsonTree κ ν)) {u u' : JsonTree κ ν} : Reordered u u' →
      Reordered (.array (before ++ u :: after)) (.array (before ++ u' :: after))
  | field (before after : List (κ × JsonTree κ ν)) (key : κ) {u u' : JsonTree κ ν} : Reordered u u' →
      Reordered (.object (before ++ (key, u) :: after)) (.object (before ++ (key, u') :: after))
  | fields {l l' : List (κ × JsonTree κ ν)} : l ~ l' → Reordered (.object l) (.object l')

theorem Reordered.symm (h : Reordered v w) : Reordered w v := by
  induction h with
  | refl => exact .refl _
  | trans _ _ ih ih' => exact ih'.trans ih
  | item before after _ ih => exact ih.item before after
  | field before after key _ ih => exact ih.field before after key
  | fields h => exact .fields h.symm

/-- The rest of an array, its first items being as they are. -/
theorem Reordered.array_of {before items items' : List (JsonTree κ ν)} (h : List.Forall₂ Reordered items items') :
    Reordered (.array (before ++ items)) (.array (before ++ items')) := by
  induction h generalizing before with
  | nil => exact .refl _
  | cons hv _ ih =>
    rename_i v w items items' _
    have hrest := @ih (before ++ [w])
    rw [List.append_assoc, List.append_assoc] at hrest
    exact (hv.item before items).trans hrest

theorem Reordered.object_of {before fields fields' : List (κ × JsonTree κ ν)}
    (h : List.Forall₂ (fun f g => f.1 = g.1 ∧ Reordered f.2 g.2) fields fields') :
    Reordered (.object (before ++ fields)) (.object (before ++ fields')) := by
  induction h generalizing before with
  | nil => exact .refl _
  | cons hf _ ih =>
    rename_i f g fields fields' _
    obtain ⟨key, v⟩ := f
    obtain ⟨key', w⟩ := g
    obtain ⟨rfl, hv⟩ := hf
    have hrest := @ih (before ++ [(key, w)])
    rw [List.append_assoc, List.append_assoc] at hrest
    exact (hv.field before fields key).trans hrest

theorem Fits.reordered (h : Fits safe bottom d v) (hvw : Reordered v w) : Fits safe bottom d w := by
  induction hvw generalizing d with
  | refl => exact h
  | trans _ _ ih ih' => exact ih' (ih h)
  | item before after hvw ih =>
    rename_i v w
    obtain ⟨e, rfl, hv⟩ := h.item (v := v) (by simp)
    refine List.forall_mem_append.mpr ⟨(List.forall_mem_append.mp h).1, List.forall_mem_cons.mpr ⟨ih hv, ?_⟩⟩
    exact (List.forall_mem_cons.mp (List.forall_mem_append.mp h).2).2
  | field before after key hvw ih =>
    rename_i v w
    obtain ⟨e, rfl, hv⟩ := h.field (f := (key, v)) (by simp)
    refine ⟨by simpa using h.1, List.forall_mem_append.mpr ⟨(List.forall_mem_append.mp h.2).1, ?_⟩⟩
    exact List.forall_mem_cons.mpr ⟨ih hv, (List.forall_mem_cons.mp (List.forall_mem_append.mp h.2).2).2⟩
  | fields hperm =>
    cases d with
    | zero => exact ⟨h.1, (h.2 ▸ hperm).nil_eq.symm⟩
    | succ e => exact ⟨(hperm.map Prod.fst).nodup_iff.mp h.1, fun f hf => h.2 f (hperm.mem_iff.mpr hf)⟩

/-- Entries put in one order of their keys after the other; each sort is stable. -/
def arrange (orders : List (κ → κ → Bool)) (entries : List (κ × β)) : List (κ × β) :=
  orders.foldl (fun entries le => entries.mergeSort fun f g => le f.1 g.1) entries

theorem arrange_perm (orders : List (κ → κ → Bool)) (entries : List (κ × β)) : arrange orders entries ~ entries := by
  induction orders generalizing entries with
  | nil => exact .refl _
  | cons le orders ih => exact (ih _).trans (List.mergeSort_perm _ _)

theorem arrange_map (orders : List (κ → κ → Bool)) (entries : List (κ × β)) (f : β → γ) :
    arrange orders (entries.map fun e => (e.1, f e.2)) = (arrange orders entries).map fun e => (e.1, f e.2) := by
  induction orders generalizing entries with
  | nil => rfl
  | cons le orders ih =>
    show arrange orders ((entries.map fun e => (e.1, f e.2)).mergeSort fun e e' => le e.1 e'.1) = _
    have hsort : (entries.map fun e => (e.1, f e.2)).mergeSort (fun e e' => le e.1 e'.1) =
        (entries.mergeSort fun e e' => le e.1 e'.1).map fun e => (e.1, f e.2) :=
      (List.map_mergeSort (r := fun e e' : κ × β => le e.1 e'.1) (f := fun e => (e.1, f e.2)) fun _ _ _ _ => rfl).symm
    rw [hsort]
    exact ih _

mutual
/-- A value with the fields of each object arranged. -/
def arranged (orders : List (κ → κ → Bool)) : JsonTree κ ν → JsonTree κ ν
  | .array items => .array (arrangedItems orders items)
  | .object fields => .object (arrange orders (arrangedFields orders fields))
  | .null => .null
  | .bool b => .bool b
  | .number n => .number n
  | .string s => .string s

def arrangedItems (orders : List (κ → κ → Bool)) : List (JsonTree κ ν) → List (JsonTree κ ν)
  | [] => []
  | v :: vs => v.arranged orders :: arrangedItems orders vs

def arrangedFields (orders : List (κ → κ → Bool)) : List (κ × JsonTree κ ν) → List (κ × JsonTree κ ν)
  | [] => []
  | (key, v) :: fields => (key, v.arranged orders) :: arrangedFields orders fields
end

variable {orders : List (κ → κ → Bool)} {items : List (JsonTree κ ν)} {fields : List (κ × JsonTree κ ν)}

@[simp] theorem arrangedItems_eq : arrangedItems orders items = items.map (arranged orders) := by
  induction items with
  | nil => rfl
  | cons v vs ih => rw [arrangedItems, ih, List.map_cons]

@[simp] theorem arrangedFields_eq : arrangedFields orders fields = fields.map fun f => (f.1, f.2.arranged orders) := by
  induction fields with
  | nil => rfl
  | cons f fields ih => rw [arrangedFields, ih, List.map_cons]

@[simp] theorem arranged_array : (array items).arranged orders = .array (items.map (arranged orders)) := by
  rw [arranged, arrangedItems_eq]

@[simp] theorem arranged_object : (object fields).arranged orders =
    .object (arrange orders (fields.map fun f => (f.1, f.2.arranged orders))) := by
  rw [arranged, arrangedFields_eq]

theorem reordered_arranged (orders : List (κ → κ → Bool)) (v : JsonTree κ ν) : Reordered v (v.arranged orders) := by
  induction v using inductionOn with
  | null | bool | number | string => exact .refl _
  | array items ih =>
    rw [arranged_array]
    exact (@Reordered.array_of _ _ []) (List.forall₂_map_right_iff.mpr (List.forall₂_same.mpr ih))
  | object fields ih =>
    rw [arranged_object]
    refine .trans ((@Reordered.object_of _ _ []) ?_) (.fields (arrange_perm orders _).symm)
    exact List.forall₂_map_right_iff.mpr (List.forall₂_same.mpr fun f hf => ⟨rfl, ih f hf⟩)

theorem Fits.arranged (h : Fits safe bottom d v) : Fits safe bottom d (v.arranged orders) :=
  h.reordered (reordered_arranged orders v)

/-! ## One order that tells the keys apart -/

section Total

variable {le : κ → κ → Bool}

/-- An order of keys. -/
structure IsOrder (le : κ → κ → Bool) : Prop where
  trans : ∀ a b c, le a b → le b c → le a c
  total : ∀ a b, le a b || le b a
  antisymm : ∀ a b, le a b → le b a → a = b

theorem IsOrder.mergeSort_eq (h : IsOrder le) {entries entries' : List (κ × β)} (hkeys : (entries.map Prod.fst).Nodup)
    (hperm : entries' ~ entries) : (entries'.mergeSort fun f g => le f.1 g.1) = entries.mergeSort fun f g => le f.1 g.1 := by
  refine mergeSort_eq_of_perm (fun a b c => h.trans a.1 b.1 c.1) (fun a b => h.total a.1 b.1) ?_ hperm
  intro a ha b hb hab hba
  exact List.inj_on_of_nodup_map hkeys ha hb (h.antisymm _ _ hab hba)

/-- The orders before the last one do not matter. -/
theorem arranged_concat (hle : IsOrder le) (h : Fits safe bottom d v) :
    v.arranged (orders ++ [le]) = v.arranged [le] := by
  induction v using inductionOn generalizing d with
  | null | bool | number | string => rfl
  | array items ih =>
    rw [arranged_array, arranged_array]
    refine congrArg array (List.map_congr_left fun v hv => ?_)
    obtain ⟨e, rfl, hfits⟩ := h.item hv
    exact ih v hv hfits
  | object fields ih =>
    rw [arranged_object, arranged_object]
    have hfields : (fields.map fun f => (f.1, f.2.arranged (orders ++ [le]))) = fields.map fun f => (f.1, f.2.arranged [le]) :=
      List.map_congr_left fun f hf => by
        obtain ⟨e, rfl, hfits⟩ := h.field hf
        rw [ih f hf hfits]
    rw [hfields, arrange, List.foldl_append]
    refine congrArg object (hle.mergeSort_eq ?_ (arrange_perm orders _))
    rw [List.map_map]
    exact h.nodup

/-- Values that differ in the order of fields only are arranged the same. -/
theorem Reordered.arranged_eq (hle : IsOrder le) (hvw : Reordered v w) (h : Fits safe bottom d v) :
    v.arranged [le] = w.arranged [le] := by
  induction hvw generalizing d with
  | refl => rfl
  | trans huv _ ih ih' => exact (ih h).trans (ih' (h.reordered huv))
  | item before after _ ih =>
    rename_i v w _
    obtain ⟨e, rfl, hv⟩ := h.item (v := v) (by simp)
    simp [ih hv]
  | field before after key _ ih =>
    rename_i v w _
    obtain ⟨e, rfl, hv⟩ := h.field (f := (key, v)) (by simp)
    simp [ih hv]
  | fields hperm =>
    rw [arranged_object, arranged_object]
    refine congrArg object (hle.mergeSort_eq ?_ (hperm.map _))
    rw [List.map_map]
    exact (hperm.map Prod.fst).nodup_iff.mp h.nodup

/-- And no others are. -/
theorem reordered_of_arranged_eq (h : v.arranged orders = w.arranged orders) : Reordered v w :=
  (reordered_arranged orders v).trans (h ▸ (reordered_arranged orders w).symm)

end Total

/-! ## Numbers -/

mutual
def mapNumbers (f : ν → ν) : JsonTree κ ν → JsonTree κ ν
  | .number n => .number (f n)
  | .array items => .array (mapNumbersItems f items)
  | .object fields => .object (mapNumbersFields f fields)
  | .null => .null
  | .bool b => .bool b
  | .string s => .string s

def mapNumbersItems (f : ν → ν) : List (JsonTree κ ν) → List (JsonTree κ ν)
  | [] => []
  | v :: vs => v.mapNumbers f :: mapNumbersItems f vs

def mapNumbersFields (f : ν → ν) : List (κ × JsonTree κ ν) → List (κ × JsonTree κ ν)
  | [] => []
  | (key, v) :: fields => (key, v.mapNumbers f) :: mapNumbersFields f fields
end

variable {f : ν → ν}

@[simp] theorem mapNumbers_array : (array items).mapNumbers f = .array (items.map (mapNumbers f)) := by
  rw [mapNumbers]
  refine congrArg array ?_
  induction items with
  | nil => rfl
  | cons v vs ih => rw [mapNumbersItems, ih, List.map_cons]

@[simp] theorem mapNumbers_object :
    (object fields).mapNumbers f = .object (fields.map fun e => (e.1, e.2.mapNumbers f)) := by
  rw [mapNumbers]
  refine congrArg object ?_
  induction fields with
  | nil => rfl
  | cons e fields ih => rw [mapNumbersFields, ih, List.map_cons]

theorem arranged_mapNumbers (orders : List (κ → κ → Bool)) (v : JsonTree κ ν) :
    (v.mapNumbers f).arranged orders = (v.arranged orders).mapNumbers f := by
  induction v using inductionOn with
  | null | bool | number | string => rfl
  | array items ih =>
    rw [mapNumbers_array, arranged_array, arranged_array, mapNumbers_array, List.map_map, List.map_map]
    exact congrArg array (List.map_congr_left ih)
  | object fields ih =>
    rw [mapNumbers_object, arranged_object, arranged_object, mapNumbers_object, List.map_map, ← arrange_map, List.map_map]
    refine congrArg (fun fields => object (arrange orders fields)) (List.map_congr_left fun e he => ?_)
    exact congrArg (Prod.mk e.1) (ih e he)

theorem Fits.mapNumbers (hf : ∀ n, safe n → safe (f n)) (h : Fits safe bottom d v) :
    Fits safe bottom d (v.mapNumbers f) := by
  induction v using inductionOn generalizing d with
  | null | bool | string => exact h
  | number n =>
    have hn := hf n h.number
    cases d <;> exact hn
  | array items ih =>
    rw [mapNumbers_array]
    cases d with
    | zero => exact ⟨h.1, by rw [h.2, List.map_nil]⟩
    | succ d => exact List.forall_mem_map.mpr fun v hv => ih v hv (h v hv)
  | object fields ih =>
    rw [mapNumbers_object]
    cases d with
    | zero => exact ⟨h.1, by rw [h.2, List.map_nil]⟩
    | succ d =>
      refine ⟨?_, List.forall_mem_map.mpr fun e he => ih e he (h.2 e he)⟩
      rw [List.map_map]
      exact h.1

/-! ## Sizes -/

mutual
/-- How many values there are in a value, itself included. -/
def count : JsonTree κ ν → Nat
  | .array items => 1 + countItems items
  | .object fields => 1 + countFields fields
  | .null => 1
  | .bool _ => 1
  | .number _ => 1
  | .string _ => 1

def countItems : List (JsonTree κ ν) → Nat
  | [] => 0
  | v :: vs => v.count + countItems vs

def countFields : List (κ × JsonTree κ ν) → Nat
  | [] => 0
  | (_, v) :: fields => v.count + countFields fields
end

mutual
/-- The length of the longest array in a value. -/
def widest : JsonTree κ ν → Nat
  | .array items => max items.length (widestItem items)
  | .object fields => widestField fields
  | .null => 0
  | .bool _ => 0
  | .number _ => 0
  | .string _ => 0

def widestItem : List (JsonTree κ ν) → Nat
  | [] => 0
  | v :: vs => max v.widest (widestItem vs)

def widestField : List (κ × JsonTree κ ν) → Nat
  | [] => 0
  | (_, v) :: fields => max v.widest (widestField fields)
end

/-! ## Writers -/

/-- How the marks, the strings and the numbers of a value are spelled. -/
structure Script (α κ ν : Type) where
  mark : Char → α
  quote : κ → List α
  digits : ν → List α

namespace Script

variable (S : Script α κ ν)

def word (s : String) : List α := s.toList.map S.mark

/-- Parts with commas between them. -/
def join : List (List α) → List α
  | [] => []
  | part :: parts => part ++ parts.flatMap (S.mark ',' :: ·)

@[simp] theorem join_singleton (part : List α) : S.join [part] = part := List.append_nil part

theorem join_cons_cons (part part' : List α) (parts : List (List α)) :
    S.join (part :: part' :: parts) = part ++ S.mark ',' :: S.join (part' :: parts) := rfl

def brackets (parts : List (List α)) : List α := S.mark '[' :: (S.join parts ++ [S.mark ']'])

def braces (parts : List (List α)) : List α := S.mark '{' :: (S.join parts ++ [S.mark '}'])

def pair (key : κ) (part : List α) : List α := S.quote key ++ S.mark ':' :: part

end Script

mutual
/-- A value with its fields as they come. -/
def spell (S : Script α κ ν) : JsonTree κ ν → List α
  | .null => S.word "null"
  | .bool b => S.word (if b then "true" else "false")
  | .number n => S.digits n
  | .string s => S.quote s
  | .array items => S.brackets (spellItems S items)
  | .object fields => S.braces (spellFields S fields)

def spellItems (S : Script α κ ν) : List (JsonTree κ ν) → List (List α)
  | [] => []
  | v :: vs => v.spell S :: spellItems S vs

def spellFields (S : Script α κ ν) : List (κ × JsonTree κ ν) → List (List α)
  | [] => []
  | (key, v) :: fields => S.pair key (v.spell S) :: spellFields S fields
end

mutual
/-- A value with the fields of each object put in order, if every number passes a check. The fields are put
in order before any of them is written, which matters to what is thrown. -/
def write (S : Script α κ ν) (check : ν → Except ε Unit) (orders : List (κ → κ → Bool)) : JsonTree κ ν → Except ε (List α)
  | .null => .ok (S.word "null")
  | .bool b => .ok (S.word (if b then "true" else "false"))
  | .number n => (check n).map fun _ => S.digits n
  | .string s => .ok (S.quote s)
  | .array items => ((writeItems S check orders items).mapM id).map S.brackets
  | .object fields =>
    ((arrange orders (writeFields S check orders fields)).mapM fun (e : κ × Except ε (List α)) =>
      e.2.map (S.pair e.1)).map S.braces

def writeItems (S : Script α κ ν) (check : ν → Except ε Unit) (orders : List (κ → κ → Bool)) :
    List (JsonTree κ ν) → List (Except ε (List α))
  | [] => []
  | v :: vs => write S check orders v :: writeItems S check orders vs

def writeFields (S : Script α κ ν) (check : ν → Except ε Unit) (orders : List (κ → κ → Bool)) :
    List (κ × JsonTree κ ν) → List (κ × Except ε (List α))
  | [] => []
  | (key, v) :: fields => (key, write S check orders v) :: writeFields S check orders fields
end

variable {S : Script α κ ν} {check : ν → Except ε Unit}

@[simp] theorem spell_array : (array items).spell S = S.brackets (items.map (spell S)) := by
  rw [spell]
  refine congrArg S.brackets ?_
  induction items with
  | nil => rfl
  | cons v vs ih => rw [spellItems, ih, List.map_cons]

@[simp] theorem spell_object : (object fields).spell S = S.braces (fields.map fun f => S.pair f.1 (f.2.spell S)) := by
  rw [spell]
  refine congrArg S.braces ?_
  induction fields with
  | nil => rfl
  | cons f fields ih => rw [spellFields, ih, List.map_cons]

theorem writeItems_eq : writeItems S check orders items = items.map (write S check orders) := by
  induction items with
  | nil => rfl
  | cons v vs ih => rw [writeItems, ih, List.map_cons]

theorem writeFields_eq : writeFields S check orders fields = fields.map fun f => (f.1, write S check orders f.2) := by
  induction fields with
  | nil => rfl
  | cons f fields ih => rw [writeFields, ih, List.map_cons]

theorem mapM_ok (f : β → Except ε γ) (g : β → γ) {l : List β} (h : ∀ b ∈ l, f b = .ok (g b)) :
    l.mapM f = .ok (l.map g) := by
  induction l with
  | nil => rfl
  | cons b l ih =>
    rw [List.mapM_cons, h b List.mem_cons_self, ih fun b hb => h b (List.mem_cons_of_mem _ hb)]
    rfl

/-- Where every number passes, what is written is the value arranged. -/
theorem write_eq_spell (hcheck : ∀ n, safe n → check n = .ok ()) (h : Fits safe bottom d v) :
    write S check orders v = .ok ((v.arranged orders).spell S) := by
  induction v using inductionOn generalizing d with
  | null | bool | string => rfl
  | number n =>
    rw [write, hcheck n h.number]
    rfl
  | array items ih =>
    have hitems : (writeItems S check orders items).mapM id = .ok ((items.map (arranged orders)).map (spell S)) := by
      rw [writeItems_eq, List.mapM_map, List.map_map]
      refine mapM_ok _ _ fun v hv => ?_
      obtain ⟨e, rfl, hfits⟩ := h.item hv
      exact ih v hv hfits
    rw [write, hitems, arranged_array, spell_array]
    rfl
  | object fields ih =>
    have hfields : writeFields S check orders fields =
        (fields.map fun f => (f.1, f.2.arranged orders)).map fun f => (f.1, Except.ok (f.2.spell S)) := by
      rw [writeFields_eq, List.map_map]
      refine List.map_congr_left fun f hf => ?_
      obtain ⟨e, rfl, hfits⟩ := h.field hf
      exact congrArg (Prod.mk f.1) (ih f hf hfits)
    rw [write, hfields, arrange_map orders _ fun v : JsonTree κ ν => (Except.ok (v.spell S) : Except ε (List α)),
      List.mapM_map, arranged_object, spell_object]
    have hparts := mapM_ok (l := arrange orders (fields.map fun f => (f.1, f.2.arranged orders)))
      ((fun e : κ × Except ε (List α) => e.2.map (S.pair e.1)) ∘ fun f => (f.1, .ok (f.2.spell S)))
      (fun f => S.pair f.1 (f.2.spell S)) fun f _ => rfl
    rw [hparts]
    rfl

theorem spell_mapNumbers (hf : ∀ n, S.digits (f n) = S.digits n) (v : JsonTree κ ν) :
    (v.mapNumbers f).spell S = v.spell S := by
  induction v using inductionOn with
  | null | bool | string => rfl
  | number n => exact hf n
  | array items ih =>
    rw [mapNumbers_array, spell_array, spell_array, List.map_map]
    exact congrArg S.brackets (List.map_congr_left ih)
  | object fields ih =>
    rw [mapNumbers_object, spell_object, spell_object, List.map_map]
    refine congrArg S.braces (List.map_congr_left fun f hf => ?_)
    exact congrArg (S.pair f.1) (ih f hf)

end JsonTree

end Opensteer
