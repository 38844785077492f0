import Mathlib.Data.List.Forall2
import Opensteer.Core.Origins

/-!
# What a loopback hostname is

Texts of addresses, as relations to what they denote: a dotted quad (`Dotted`), and the groups of
an IPv6 literal (`Full`, `Compressed`), of which only the last two may be a dotted quad.
`isLoopbackHostname` also takes a literal with a dotted quad ahead of its `::`, and drops a bracket
that has no other; `isLoopbackHostname_iff` says of which hostnames that makes a difference.
-/

namespace Opensteer

namespace Origins

/-- One to three digits, of at most 255. -/
def Octet (text : Text) (n : Nat) : Prop :=
  1 ≤ text.length ∧ text.length ≤ 3 ∧ (∀ unit ∈ text, Decimal.isDigit unit) ∧
    Decimal.value text = n ∧ n ≤ 255

def Dotted (text : Text) (a b c d : Nat) : Prop :=
  ∃ ta tb tc td, text = ta ++ dot :: (tb ++ dot :: (tc ++ dot :: td)) ∧
    Octet ta a ∧ Octet tb b ∧ Octet tc c ∧ Octet td d

/-- One to four hexadecimal digits. -/
def Group (text : Text) (n : Nat) : Prop :=
  1 ≤ text.length ∧ text.length ≤ 4 ∧ (∀ unit ∈ text, isHexDigit unit) ∧ parseHex text = n

/-- Groups with colons between them, the last two of which may be a dotted quad. -/
inductive Groups : Bool → Text → List Nat → Prop
  | group {text : Text} {n : Nat} : Group text n → Groups false text [n]
  | quad {text : Text} {a b c d : Nat} : Dotted text a b c d →
      Groups true text [256 * a + b, 256 * c + d]
  | cons {quad : Bool} {text rest : Text} {n : Nat} {ns : List Nat} : Group text n →
      Groups quad rest ns → Groups quad (text ++ colon :: rest) (n :: ns)

/-- A side of `::`. -/
inductive Half : Bool → Text → List Nat → Prop
  | empty : Half false [] []
  | groups {quad : Bool} {text : Text} {ns : List Nat} : Groups quad text ns → Half quad text ns

/-- A literal of all its groups. -/
def Full (text : Text) (ns : List Nat) : Prop :=
  ∃ quad, Groups quad text ns ∧ ns.length = ipv6GroupCount

/-- A literal with `::` for one zero group or more; `early` is that there is a dotted quad ahead of
it, which no literal has. -/
def Compressed (early : Bool) (text : Text) (ns : List Nat) : Prop :=
  ∃ quad before after heads tails, text = before ++ colon :: colon :: after ∧
    Half early before heads ∧ Half quad after tails ∧
    heads.length + tails.length + 1 ≤ ipv6GroupCount ∧
    ns = heads ++ List.replicate (ipv6GroupCount - heads.length - tails.length) 0 ++ tails

/-- The number of 128 bits. -/
def address (ns : List Nat) : Nat := ns.foldl (fun n group => 65536 * n + group) 0

/-- `::1`, or one of `::ffff:127.0.0.0/104`. -/
def LoopbackAddress (ns : List Nat) : Prop := address ns = 1 ∨ address ns / 2 ^ 24 = 0xffff7f

/-- A literal of a loopback address, IPv4 or IPv6. -/
def LoopbackLiteral (host : Text) : Prop :=
  (∃ b c d, Dotted host 127 b c d) ∨
    ∃ ns, (Full host ns ∨ Compressed false host ns) ∧ LoopbackAddress ns

/-- A host that is this computer. -/
def Loopback (host : Text) : Prop :=
  host = localhost ∨ (∃ name, name ≠ [] ∧ host = name ++ dot :: localhost) ∨ LoopbackLiteral host

/-- What reads as a loopback address with a dotted quad ahead of `::`. -/
def EarlyQuad (host : Text) : Prop := ∃ ns, Compressed true host ns ∧ LoopbackAddress ns

/-- A hostname without one trailing dot, enclosing brackets and letter case. -/
def bare (lower : LowerCase) (hostname : Text) : Text :=
  let hostname := withoutDot hostname
  lower.toLowerCase
    (if hostname.head? = some openBracket ∧ hostname.getLast? = some closeBracket then
      hostname.tail.dropLast
    else hostname)

/-! ## Dotted quads -/

theorem dot_notMem {text : Text} (h : ∀ unit ∈ text, Decimal.isDigit unit) : dot ∉ text :=
  fun hmem => absurd (h dot hmem) (by decide)

theorem isHexDigit_of_isDigit {unit : UInt16} (h : Decimal.isDigit unit) : isHexDigit unit := by
  simp [isHexDigit, h]

theorem Octet.isDigit {text : Text} {n : Nat} (h : Octet text n) :
    ∀ unit ∈ text, Decimal.isDigit unit := h.2.2.1

theorem splitOn_dotted {text : Text} {ta tb tc td : Text}
    (h : text = ta ++ dot :: (tb ++ dot :: (tc ++ dot :: td))) (ha : dot ∉ ta) (hb : dot ∉ tb)
    (hc : dot ∉ tc) (hd : dot ∉ td) : text.splitOn dot = [ta, tb, tc, td] := by
  rw [h, List.splitOn_append_cons_self_of_not_mem ha, List.splitOn_append_cons_self_of_not_mem hb,
    List.splitOn_append_cons_self_of_not_mem hc, List.splitOn_eq_singleton hd]

/-- What is captured of at most 255 is a dotted quad. -/
theorem octets_eq_some {text : Text} {ns : List Nat} :
    octets text = some ns ∧ (∀ n ∈ ns, n ≤ 255) ↔
      ∃ a b c d, ns = [a, b, c, d] ∧ Dotted text a b c d := by
  constructor
  · rintro ⟨hoctets, hle⟩
    obtain ⟨parts, hparts, rfl⟩ := Option.map_eq_some_iff.mp hoctets
    dsimp only [ipv4Pattern] at hparts
    split at hparts
    · rename_i hpattern
      simp only [Bool.and_eq_true, decide_eq_true_eq, List.all_eq_true, and_assoc] at hpattern
      obtain ⟨hlength, hall⟩ := hpattern
      have hjoin : [dot].intercalate (text.splitOn dot) = text := List.intercalate_splitOn dot
      obtain rfl := Option.some.inj hparts
      match h : text.splitOn dot, hlength with
      | [ta, tb, tc, td], _ =>
        rw [h] at hle hall hjoin
        simp only [List.map_cons, List.map_nil, List.forall_mem_cons] at hle hall ⊢
        refine ⟨_, _, _, _, rfl, ta, tb, tc, td, ?_, ?_⟩
        · rw [← hjoin]
          simp
        · exact ⟨⟨hall.1.1, hall.1.2.1, hall.1.2.2, rfl, hle.1⟩,
            ⟨hall.2.1.1, hall.2.1.2.1, hall.2.1.2.2, rfl, hle.2.1⟩,
            ⟨hall.2.2.1.1, hall.2.2.1.2.1, hall.2.2.1.2.2, rfl, hle.2.2.1⟩,
            ⟨hall.2.2.2.1.1, hall.2.2.2.1.2.1, hall.2.2.2.1.2.2, rfl, hle.2.2.2.1⟩⟩
    · cases hparts
  · rintro ⟨a, b, c, d, rfl, ta, tb, tc, td, htext, ha, hb, hc, hd⟩
    have hsplit := splitOn_dotted htext (dot_notMem ha.isDigit) (dot_notMem hb.isDigit)
      (dot_notMem hc.isDigit) (dot_notMem hd.isDigit)
    obtain ⟨ha₁, ha₂, ha₃, rfl, ha₄⟩ := ha
    obtain ⟨hb₁, hb₂, hb₃, rfl, hb₄⟩ := hb
    obtain ⟨hc₁, hc₂, hc₃, rfl, hc₄⟩ := hc
    obtain ⟨hd₁, hd₂, hd₃, rfl, hd₄⟩ := hd
    refine ⟨?_, by simp [ha₄, hb₄, hc₄, hd₄]⟩
    rw [octets, ipv4Pattern, hsplit, if_pos]
    · rfl
    · simp only [Bool.and_eq_true, decide_eq_true_eq, List.all_eq_true, and_assoc]
      simp only [List.length_cons, List.length_nil, List.forall_mem_cons, List.not_mem_nil,
        false_imp_iff, implies_true, and_true]
      exact ⟨trivial, ⟨ha₁, ha₂, ha₃⟩, ⟨hb₁, hb₂, hb₃⟩, ⟨hc₁, hc₂, hc₃⟩, hd₁, hd₂, hd₃⟩

theorem quadGroups_eq {a b c d : Nat} (hb : b ≤ 255) (hd : d ≤ 255) :
    quadGroups [a, b, c, d] = [256 * a + b, 256 * c + d] := by
  have hshift : ∀ x y : Nat, y ≤ 255 → x <<< 8 ||| y = 256 * x + y := by
    intro x y hy
    rw [← Nat.shiftLeft_add_eq_or_of_lt (by omega), Nat.shiftLeft_eq]
    omega
  rw [quadGroups, hshift a b hb, hshift c d hd]

/-! ## Groups -/

theorem Dotted.dot_mem {text : Text} {a b c d : Nat} (h : Dotted text a b c d) : dot ∈ text := by
  obtain ⟨ta, tb, tc, td, rfl, -⟩ := h
  simp

theorem Dotted.isDigit {text : Text} {a b c d : Nat} (h : Dotted text a b c d) :
    ∀ unit ∈ text, Decimal.isDigit unit ∨ unit = dot := by
  obtain ⟨ta, tb, tc, td, rfl, ha, hb, hc, hd⟩ := h
  intro unit hunit
  simp only [List.mem_append, List.mem_cons] at hunit
  obtain hunit | rfl | hunit | rfl | hunit | rfl | hunit := hunit
  · exact .inl (ha.isDigit unit hunit)
  · exact .inr rfl
  · exact .inl (hb.isDigit unit hunit)
  · exact .inr rfl
  · exact .inl (hc.isDigit unit hunit)
  · exact .inr rfl
  · exact .inl (hd.isDigit unit hunit)

theorem Dotted.colon_notMem {text : Text} {a b c d : Nat} (h : Dotted text a b c d) :
    colon ∉ text := by
  intro hmem
  obtain hdigit | heq := h.isDigit colon hmem
  · exact absurd hdigit (by decide)
  · exact absurd heq (by decide)

theorem Group.colon_notMem {text : Text} {n : Nat} (h : Group text n) : colon ∉ text :=
  fun hmem => absurd (h.2.2.1 colon hmem) (by decide)

theorem Group.dot_notMem {text : Text} {n : Nat} (h : Group text n) : dot ∉ text :=
  fun hmem => absurd (h.2.2.1 dot hmem) (by decide)

theorem ipv6GroupPattern_iff {part : Text} {n : Nat} :
    (if ipv6GroupPattern part then some (parseHex part) else none) = some n ↔ Group part n := by
  rw [Option.ite_none_right_eq_some, Option.some.injEq]
  simp only [ipv6GroupPattern, Bool.and_eq_true, decide_eq_true_eq, List.all_eq_true, Group,
    and_assoc]

theorem mapM_eq_some {α β : Type} {f : α → Option β} {xs : List α} {ys : List β} :
    xs.mapM f = some ys ↔ List.Forall₂ (fun x y => f x = some y) xs ys := by
  induction xs generalizing ys with
  | nil => simp [eq_comm]
  | cons x xs ih =>
    cases ys with
    | nil => simp [List.mapM_cons, Option.bind_eq_some_iff]
    | cons y ys => simp [List.mapM_cons, Option.bind_eq_some_iff, ih]

theorem mapM_group {parts : List Text} {ns : List Nat} :
    parts.mapM (fun part => if ipv6GroupPattern part then some (parseHex part) else none) =
      some ns ↔ List.Forall₂ Group parts ns := by
  rw [mapM_eq_some]
  simp only [ipv6GroupPattern_iff]

theorem exists_of_mem {α β : Type} {r : α → β → Prop} {xs : List α} {ys : List β} {x : α}
    (h : List.Forall₂ r xs ys) (hx : x ∈ xs) : ∃ y, r x y := by
  induction h with
  | nil => cases hx
  | cons hr _ ih =>
    obtain rfl | hx := List.mem_cons.mp hx
    · exact ⟨_, hr⟩
    · exact ih hx

/-- Without a dotted quad each part is a group. -/
theorem groups_false_iff {text : Text} {ns : List Nat} :
    Groups false text ns ↔ List.Forall₂ Group (text.splitOn colon) ns := by
  constructor
  · intro h
    generalize hquad : false = quad at h
    induction h with
    | group h =>
      rw [List.splitOn_eq_singleton h.colon_notMem]
      exact .cons h .nil
    | quad => cases hquad
    | cons h _ ih =>
      rw [List.splitOn_append_cons_self_of_not_mem h.colon_notMem]
      exact .cons h (ih hquad)
  · intro h
    have hjoin : [colon].intercalate (text.splitOn colon) = text :=
      List.intercalate_splitOn colon
    have hne := List.splitOn_ne_nil colon text
    generalize text.splitOn colon = parts at h hjoin hne
    subst hjoin
    induction h with
    | nil => exact absurd rfl hne
    | @cons part n parts ns hgroup hparts ih =>
      cases parts with
      | nil =>
        cases hparts
        simpa using Groups.group hgroup
      | cons part' parts =>
        rw [List.intercalate_cons_cons, List.append_assoc, List.singleton_append]
        exact .cons hgroup (ih (List.cons_ne_nil _ _))

/-- With a dotted quad the last part is it, and each other one a group. -/
theorem groups_true_iff {text : Text} {ns : List Nat} :
    Groups true text ns ↔ ∃ parts last gs a b c d, text.splitOn colon = parts ++ [last] ∧
      List.Forall₂ Group parts gs ∧ Dotted last a b c d ∧
      ns = gs ++ [256 * a + b, 256 * c + d] := by
  constructor
  · intro h
    generalize hquad : true = quad at h
    induction h with
    | group => cases hquad
    | quad h =>
      exact ⟨[], _, [], _, _, _, _, List.splitOn_eq_singleton h.colon_notMem, .nil, h, rfl⟩
    | cons h _ ih =>
      obtain ⟨parts, last, gs, a, b, c, d, hsplit, hparts, hlast, rfl⟩ := ih hquad
      refine ⟨_ :: parts, last, _ :: gs, a, b, c, d, ?_, .cons h hparts, hlast, rfl⟩
      rw [List.splitOn_append_cons_self_of_not_mem h.colon_notMem, hsplit, List.cons_append]
  · rintro ⟨parts, last, gs, a, b, c, d, hsplit, hparts, hlast, rfl⟩
    have hjoin : [colon].intercalate (text.splitOn colon) = text :=
      List.intercalate_splitOn colon
    rw [hsplit] at hjoin
    subst hjoin
    clear hsplit
    induction hparts with
    | nil => simpa using Groups.quad hlast
    | @cons part n parts ns hgroup hparts ih =>
      rw [List.cons_append, List.intercalate_cons_of_ne_nil (by simp), List.append_assoc,
        List.singleton_append]
      exact .cons hgroup ih

theorem Groups.length_pos {quad : Bool} {text : Text} {ns : List Nat} (h : Groups quad text ns) :
    0 < text.length := by
  cases h with
  | group h => exact h.1
  | quad h => exact List.length_pos_of_mem h.dot_mem
  | cons h => simp

/-- A side whose last part has a dot ends in a dotted quad. -/
theorem half_iff_of_dot {half last : Text} {init : List Text} {ns : List Nat}
    (hsplit : half.splitOn colon = init ++ [last]) (hdot : dot ∈ last) :
    (∃ quad, Half quad half ns) ↔ ∃ gs a b c d, List.Forall₂ Group init gs ∧
      Dotted last a b c d ∧ ns = gs ++ [256 * a + b, 256 * c + d] := by
  constructor
  · rintro ⟨quad, hhalf⟩
    cases hhalf with
    | empty =>
      have hlast : last = [] := by
        have hnil : ([] : Text).splitOn colon = [] ++ [[]] := rfl
        exact (List.append_inj_right' (hsplit.symm.trans hnil) rfl |> List.singleton_inj.mp)
      rw [hlast] at hdot
      cases hdot
    | groups h =>
      cases quad with
      | false =>
        have hparts := groups_false_iff.mp h
        rw [hsplit] at hparts
        obtain ⟨n, hgroup⟩ := exists_of_mem hparts (List.mem_append_right _ List.mem_cons_self)
        exact absurd hdot hgroup.dot_notMem
      | true =>
        obtain ⟨parts, last', gs, a, b, c, d, hsplit', hparts, hlast, rfl⟩ := groups_true_iff.mp h
        obtain ⟨rfl, hlasts⟩ := List.append_inj' (hsplit.symm.trans hsplit') rfl
        obtain rfl := List.singleton_inj.mp hlasts
        exact ⟨gs, a, b, c, d, hparts, hlast, rfl⟩
  · rintro ⟨gs, a, b, c, d, hparts, hlast, rfl⟩
    exact ⟨true, .groups (groups_true_iff.mpr ⟨init, last, gs, a, b, c, d, hsplit, hparts, hlast, rfl⟩)⟩

theorem half_iff_of_not_dot {half last : Text} {init : List Text} {ns : List Nat}
    (hne : half ≠ []) (hsplit : half.splitOn colon = init ++ [last]) (hdot : dot ∉ last) :
    (∃ quad, Half quad half ns) ↔ List.Forall₂ Group (init ++ [last]) ns := by
  rw [← hsplit, ← groups_false_iff]
  constructor
  · rintro ⟨quad, hhalf⟩
    cases hhalf with
    | empty => exact absurd rfl hne
    | groups h =>
      cases quad with
      | false => exact h
      | true =>
        obtain ⟨parts, last', gs, a, b, c, d, hsplit', -, hlast, -⟩ := groups_true_iff.mp h
        obtain ⟨-, hlasts⟩ := List.append_inj' (hsplit.symm.trans hsplit') rfl
        obtain rfl := List.singleton_inj.mp hlasts
        exact absurd hlast.dot_mem hdot
  · exact fun h => ⟨false, .groups h⟩

theorem parseIpv6Groups_eq_some {half : Text} {ns : List Nat} :
    parseIpv6Groups half = some ns ↔ ns.length ≤ ipv6GroupCount ∧ ∃ quad, Half quad half ns := by
  by_cases hne : half = []
  · subst hne
    have hhalf : (∃ quad, Half quad [] ns) ↔ ns = [] := by
      constructor
      · rintro ⟨quad, hhalf⟩
        cases hhalf with
        | empty => rfl
        | groups h => exact absurd h.length_pos (Nat.lt_irrefl 0)
      · rintro rfl
        exact ⟨false, .empty⟩
    rw [hhalf, parseIpv6Groups, if_pos rfl, Option.some.injEq]
    constructor
    · rintro rfl
      exact ⟨Nat.zero_le _, rfl⟩
    · rintro ⟨-, rfl⟩
      rfl
  obtain hnil | ⟨init, last, hsplit⟩ := List.eq_nil_or_concat' (half.splitOn colon)
  · exact absurd hnil (List.splitOn_ne_nil _ _)
  simp only [parseIpv6Groups, if_neg hne, hsplit, List.getLast?_append, List.getLast?_singleton,
    Option.some_or, Option.getD_some, List.dropLast_concat]
  by_cases hdot : dot ∈ last
  · rw [half_iff_of_dot hsplit hdot]
    have hcontains : last.contains dot = true := by simpa using hdot
    simp only [hcontains, if_true, Bool.true_and]
    split
    · rename_i hnone
      constructor
      · exact nofun
      · rintro ⟨-, gs, a, b, c, d, -, hlast, -⟩
        obtain ⟨hoctets, hle⟩ := octets_eq_some.mpr ⟨a, b, c, d, rfl, hlast⟩
        simp only [hoctets, Option.all_some, List.any_eq_true, decide_eq_true_eq] at hnone
        obtain ⟨n, hn, hlt⟩ := hnone
        exact absurd (hle n hn) (by omega)
    · rename_i hsome
      obtain ⟨octets', hoctets⟩ : ∃ octets', octets last = some octets' := by
        cases h : octets last with
        | none => simp [h] at hsome
        | some octets' => exact ⟨octets', rfl⟩
      have hle : ∀ n ∈ octets', n ≤ 255 := by simpa [hoctets] using hsome
      obtain ⟨a, b, c, d, rfl, hdotted⟩ := octets_eq_some.mp ⟨hoctets, hle⟩
      simp only [List.forall_mem_cons] at hle
      rw [hoctets, Option.map_some, Option.getD_some, quadGroups_eq hle.2.1 hle.2.2.2.1]
      simp only [Option.bind_eq_some_iff, mapM_group, Option.ite_none_right_eq_some, Option.some.injEq]
      constructor
      · rintro ⟨gs, hgs, hlength, rfl⟩
        exact ⟨hlength, gs, a, b, c, d, hgs, hdotted, rfl⟩
      · rintro ⟨hlength, gs, a', b', c', d', hgs, hlast, rfl⟩
        have hsame := (octets_eq_some.mpr ⟨a', b', c', d', rfl, hlast⟩).1
        obtain ⟨rfl, rfl, rfl, rfl⟩ : a = a' ∧ b = b' ∧ c = c' ∧ d = d' := by
          simpa using hoctets.symm.trans hsame
        exact ⟨gs, hgs, hlength, rfl⟩
  · rw [half_iff_of_not_dot hne hsplit hdot]
    have hcontains : last.contains dot = false := by simpa using hdot
    simp only [hcontains, Bool.false_eq_true, if_false, Bool.false_and, Option.map_none,
      Option.getD_none, List.append_nil, Option.bind_eq_some_iff, mapM_group,
      Option.ite_none_right_eq_some, Option.some.injEq]
    constructor
    · rintro ⟨gs, hgs, hlength, rfl⟩
      exact ⟨hlength, hgs⟩
    · rintro ⟨hlength, hgs⟩
      exact ⟨ns, hgs, hlength, rfl⟩

/-! ## Sides of `::` -/

theorem splitPairs_pair (rest : Text) :
    splitPairs (colon :: colon :: rest) = [] :: splitPairs rest := by
  rw [splitPairs, if_pos ⟨rfl, rfl⟩]

theorem splitPairs_cons {unit : UInt16} {rest : Text}
    (h : ¬(unit = colon ∧ rest.head? = some colon)) :
    splitPairs (unit :: rest) = (splitPairs rest).modifyHead (unit :: ·) := by
  cases rest with
  | nil => rfl
  | cons next rest =>
    rw [splitPairs, if_neg]
    simpa using h

theorem splitPairs_append {part : Text} (h : colon ∉ part) (rest : Text) :
    splitPairs (part ++ rest) = (splitPairs rest).modifyHead (part ++ ·) := by
  induction part with
  | nil =>
    rw [List.nil_append]
    cases splitPairs rest <;> rfl
  | cons unit part ih =>
    obtain ⟨hunit, hpart⟩ := not_or.mp (mt List.mem_cons.mpr h)
    rw [List.cons_append, splitPairs_cons fun hcolon => hunit hcolon.1.symm, ih hpart]
    cases splitPairs rest <;> rfl

theorem splitPairs_ne_nil (text : Text) : splitPairs text ≠ [] := by
  fun_induction splitPairs text with
  | case1 => exact List.cons_ne_nil _ _
  | case2 => exact List.cons_ne_nil _ _
  | case3 => exact List.cons_ne_nil _ _
  | case4 unit next rest _ ih => simpa using ih

theorem splitPairs_join (text : Text) : [colon, colon].intercalate (splitPairs text) = text := by
  fun_induction splitPairs text with
  | case1 => rfl
  | case2 => rfl
  | case3 unit next rest hpair ih =>
    obtain ⟨rfl, rfl⟩ := hpair
    rw [List.intercalate_cons_of_ne_nil (splitPairs_ne_nil rest), ih]
    rfl
  | case4 unit next rest _ ih =>
    have hne := splitPairs_ne_nil (next :: rest)
    generalize splitPairs (next :: rest) = sides at ih hne
    rw [← ih]
    match sides, hne with
    | [side], _ => rfl
    | side :: side' :: sides, _ => rfl

theorem Groups.head_ne {quad : Bool} {text : Text} {ns : List Nat} (h : Groups quad text ns) :
    text.head? ≠ some colon := by
  have hhead : ∀ {part : Text} (rest : Text), 0 < part.length → colon ∉ part →
      (part ++ rest).head? ≠ some colon := by
    intro part rest hpos hpart
    cases part with
    | nil => cases hpos
    | cons unit part =>
      rintro hunit
      exact hpart (Option.some.inj hunit ▸ List.mem_cons_self)
  cases h with
  | group h => simpa using hhead [] h.1 h.colon_notMem
  | quad h => simpa using hhead [] (List.length_pos_of_mem h.dot_mem) h.colon_notMem
  | cons h => exact hhead _ h.1 h.colon_notMem

/-- No side of `::` holds `::`, nor ends in a colon. -/
theorem Groups.splitPairs {quad : Bool} {text : Text} {ns : List Nat} (h : Groups quad text ns) :
    Origins.splitPairs text = [text] ∧ ∀ rest,
      Origins.splitPairs (text ++ colon :: colon :: rest) = text :: Origins.splitPairs rest := by
  have hpart : ∀ {part : Text}, colon ∉ part → Origins.splitPairs part = [part] ∧ ∀ rest,
      Origins.splitPairs (part ++ colon :: colon :: rest) = part :: Origins.splitPairs rest := by
    intro part hcolon
    constructor
    · have happend := splitPairs_append hcolon []
      rw [List.append_nil] at happend
      rw [happend]
      exact congrArg (fun side => [side]) (List.append_nil part)
    · intro rest
      rw [splitPairs_append hcolon, splitPairs_pair, List.modifyHead_cons, List.append_nil]
  induction h with
  | group h => exact hpart h.colon_notMem
  | quad h => exact hpart h.colon_notMem
  | @cons _ part text _ _ h hrest ih =>
    have hcolon : ∀ rest, ¬(colon = colon ∧ (text ++ rest).head? = some colon) := by
      rintro rest ⟨-, hhead⟩
      rw [List.head?_append_of_ne_nil _ (List.ne_nil_of_length_pos hrest.length_pos)] at hhead
      exact hrest.head_ne hhead
    constructor
    · have hcolon' := hcolon []
      rw [List.append_nil] at hcolon'
      rw [splitPairs_append h.colon_notMem, splitPairs_cons hcolon', ih.1]
      rfl
    · intro rest
      rw [List.append_assoc, List.cons_append, splitPairs_append h.colon_notMem,
        splitPairs_cons (hcolon _), ih.2]
      rfl

theorem Half.splitPairs {quad : Bool} {text : Text} {ns : List Nat} (h : Half quad text ns) :
    Origins.splitPairs text = [text] ∧ ∀ rest,
      Origins.splitPairs (text ++ colon :: colon :: rest) = text :: Origins.splitPairs rest := by
  cases h with
  | empty => exact ⟨rfl, splitPairs_pair⟩
  | groups h => exact h.splitPairs

theorem splitPairs_compressed {early : Bool} {text : Text} {ns : List Nat}
    (h : Compressed early text ns) : ∃ before after heads, splitPairs text = [before, after] ∧
      Half early before heads := by
  obtain ⟨quad, before, after, heads, tails, rfl, hbefore, hafter, -⟩ := h
  exact ⟨before, after, heads, by rw [hbefore.splitPairs.2, hafter.splitPairs.1], hbefore⟩

theorem ipv6Groups_eq_some {text : Text} {ns : List Nat} :
    ipv6Groups text = some ns ↔ Full text ns ∨ ∃ early, Compressed early text ns := by
  unfold ipv6Groups
  constructor
  · intro h
    split at h
    · cases h
    split at h
    · rename_i only hsplit
      have hjoin := splitPairs_join text
      rw [hsplit] at hjoin
      obtain rfl : only = text := by simpa using hjoin
      obtain ⟨head, hparse, hhead⟩ := Option.bind_eq_some_iff.mp h
      obtain ⟨-, quad, hhalf⟩ := parseIpv6Groups_eq_some.mp hparse
      obtain ⟨hlength, heq⟩ := Option.ite_none_left_eq_some.mp hhead
      obtain rfl := Option.some.inj heq
      cases hhalf with
      | empty => exact absurd (by decide) hlength
      | groups hgroups => exact .inl ⟨quad, hgroups, (not_not.mp hlength).symm⟩
    · rename_i before after hsplit
      have hjoin := splitPairs_join text
      rw [hsplit] at hjoin
      obtain ⟨head, hparse, h⟩ := Option.bind_eq_some_iff.mp h
      obtain ⟨tail, hparse', h⟩ := Option.bind_eq_some_iff.mp h
      obtain ⟨-, early, hbefore⟩ := parseIpv6Groups_eq_some.mp hparse
      obtain ⟨-, quad, hafter⟩ := parseIpv6Groups_eq_some.mp hparse'
      obtain ⟨hlength, heq⟩ := Option.ite_none_left_eq_some.mp h
      obtain rfl := Option.some.inj heq
      exact .inr ⟨early, quad, before, after, head, tail, by simpa using hjoin.symm, hbefore,
        hafter, not_lt.mp hlength, rfl⟩
    · cases h
  · rintro (⟨quad, hgroups, hlength⟩ | ⟨early, quad, before, after, heads, tails, rfl, hbefore,
      hafter, hlength, rfl⟩)
    · have hcolon : text.contains colon = true := by
        cases hgroups with
        | group => cases hlength
        | quad => cases hlength
        | cons => simp
      have hparse := parseIpv6Groups_eq_some.mpr ⟨hlength.le, quad, .groups hgroups⟩
      rw [if_neg (not_not.mpr hcolon), hgroups.splitPairs.1]
      simp [hparse, hlength]
    · have hcolon : (before ++ colon :: colon :: after).contains colon = true := by simp
      have hsplit : splitPairs (before ++ colon :: colon :: after) = [before, after] := by
        rw [hbefore.splitPairs.2, hafter.splitPairs.1]
      have hparse := parseIpv6Groups_eq_some.mpr ⟨by omega, early, hbefore⟩
      have hparse' := parseIpv6Groups_eq_some.mpr ⟨by omega, quad, hafter⟩
      rw [if_neg (not_not.mpr hcolon), hsplit]
      simp only [hparse, hparse', Option.bind_some, if_neg (not_lt.mpr hlength)]

/-! ## What the groups denote -/

theorem Octet.lt {text : Text} {n : Nat} (h : Octet text n) : n < 256 := by
  have hle := h.2.2.2.2
  omega

theorem hexDigit_lt {unit : UInt16} (h : isHexDigit unit) : hexDigit unit < 16 := by
  simp only [isHexDigit, Decimal.isDigit, Bool.or_eq_true, Bool.and_eq_true, decide_eq_true_eq,
    UInt16.le_iff_toNat_le] at h
  simp only [hexDigit, Decimal.isDigit, Bool.and_eq_true, decide_eq_true_eq]
  have h61 : (0x61 : UInt16).toNat = 0x61 := rfl
  have h66 : (0x66 : UInt16).toNat = 0x66 := rfl
  split <;> omega

theorem parseHex_lt {text : Text} (h : ∀ unit ∈ text, isHexDigit unit) :
    parseHex text < 16 ^ text.length := by
  have hfold : ∀ n, text.foldl (fun n unit => 16 * n + hexDigit unit) n <
      (n + 1) * 16 ^ text.length := by
    induction text with
    | nil => simp
    | cons unit text ih =>
      intro n
      have hunit := hexDigit_lt (h unit List.mem_cons_self)
      have hrest := ih (fun u hu => h u (List.mem_cons_of_mem _ hu)) (16 * n + hexDigit unit)
      rw [List.foldl_cons, List.length_cons, Nat.pow_succ]
      calc _ < (16 * n + hexDigit unit + 1) * 16 ^ text.length := hrest
        _ ≤ ((n + 1) * 16) * 16 ^ text.length := Nat.mul_le_mul_right _ (by omega)
        _ = (n + 1) * (16 ^ text.length * 16) := by ring
  rw [parseHex]
  simpa using hfold 0

theorem Group.lt {text : Text} {n : Nat} (h : Group text n) : n < 65536 := by
  obtain ⟨-, hlength, hdigits, rfl⟩ := h
  exact (parseHex_lt hdigits).trans_le (Nat.pow_le_pow_right (by decide) hlength)

theorem Groups.lt {quad : Bool} {text : Text} {ns : List Nat} (h : Groups quad text ns) :
    ∀ n ∈ ns, n < 65536 := by
  induction h with
  | group h => simpa using h.lt
  | quad h =>
    obtain ⟨ta, tb, tc, td, -, ha, hb, hc, hd⟩ := h
    have := ha.lt
    have := hb.lt
    have := hc.lt
    have := hd.lt
    simp only [List.mem_cons, List.not_mem_nil, or_false, forall_eq_or_imp, forall_eq]
    omega
  | cons h _ ih => exact List.forall_mem_cons.mpr ⟨h.lt, ih⟩

theorem Half.lt {quad : Bool} {text : Text} {ns : List Nat} (h : Half quad text ns) :
    ∀ n ∈ ns, n < 65536 := by
  cases h with
  | empty => exact nofun
  | groups h => exact h.lt

/-- Eight groups of 16 bits. -/
theorem groups_bounded {text : Text} {ns : List Nat}
    (h : Full text ns ∨ ∃ early, Compressed early text ns) :
    ns.length = ipv6GroupCount ∧ ∀ n ∈ ns, n < 65536 := by
  obtain ⟨quad, hgroups, hlength⟩ | ⟨early, quad, before, after, heads, tails, -, hbefore, hafter,
    hlength, rfl⟩ := h
  · exact ⟨hlength, hgroups.lt⟩
  · refine ⟨by simp; omega, fun n hn => ?_⟩
    simp only [List.mem_append, List.mem_replicate] at hn
    obtain (hn | ⟨-, rfl⟩) | hn := hn
    · exact hbefore.lt n hn
    · decide
    · exact hafter.lt n hn

theorem isLoopbackGroups_iff {ns : List Nat} (hlength : ns.length = ipv6GroupCount)
    (hlt : ∀ n ∈ ns, n < 65536) : isLoopbackGroups ns = true ↔ LoopbackAddress ns := by
  match ns, hlength with
  | [a, b, c, d, e, f, g, h], _ =>
    simp only [List.forall_mem_cons] at hlt
    simp only [isLoopbackGroups, LoopbackAddress, address, List.zipIdx_cons, List.zipIdx_nil,
      List.all_cons, List.all_nil, List.foldl_cons, List.foldl_nil, ipv6GroupCount,
      ipv4MappedIpv6Marker, loopbackIpv4Prefix, Nat.shiftRight_eq_div_pow]
    simp
    omega

/-! ## Hosts -/

/-- What literals are written with. -/
def IsMark (unit : UInt16) : Prop := isHexDigit unit ∨ unit = colon ∨ unit = dot

instance : DecidablePred IsMark := fun _ => inferInstanceAs (Decidable (_ ∨ _ ∨ _))

theorem Dotted.isMark {text : Text} {a b c d : Nat} (h : Dotted text a b c d) :
    ∀ unit ∈ text, IsMark unit := fun unit hunit =>
  (h.isDigit unit hunit).imp isHexDigit_of_isDigit .inr

theorem Groups.isMark {quad : Bool} {text : Text} {ns : List Nat} (h : Groups quad text ns) :
    ∀ unit ∈ text, IsMark unit := by
  induction h with
  | group h => exact fun unit hunit => .inl (h.2.2.1 unit hunit)
  | quad h => exact h.isMark
  | cons h _ ih =>
    intro unit hunit
    obtain hunit | rfl | hunit := by simpa using hunit
    · exact .inl (h.2.2.1 unit hunit)
    · exact .inr (.inl rfl)
    · exact ih unit hunit

theorem Half.isMark {quad : Bool} {text : Text} {ns : List Nat} (h : Half quad text ns) :
    ∀ unit ∈ text, IsMark unit := by
  cases h with
  | empty => exact nofun
  | groups h => exact h.isMark

theorem isMark_of_ipv6 {text : Text} {ns : List Nat}
    (h : Full text ns ∨ ∃ early, Compressed early text ns) : ∀ unit ∈ text, IsMark unit := by
  obtain ⟨quad, hgroups, -⟩ | ⟨early, quad, before, after, heads, tails, rfl, hbefore, hafter, -⟩ := h
  · exact hgroups.isMark
  · intro unit hunit
    obtain hunit | rfl | hunit := by simpa using hunit
    · exact hbefore.isMark unit hunit
    · exact .inr (.inl rfl)
    · exact hafter.isMark unit hunit

theorem colon_mem_of_ipv6 {text : Text} {ns : List Nat}
    (h : Full text ns ∨ ∃ early, Compressed early text ns) : colon ∈ text := by
  obtain ⟨quad, hgroups, hlength⟩ | ⟨early, quad, before, after, heads, tails, rfl, -⟩ := h
  · cases hgroups with
    | group => cases hlength
    | quad => cases hlength
    | cons => simp
  · simp

theorem isMark_of_literal {host : Text} (h : LoopbackLiteral host ∨ EarlyQuad host) :
    ∀ unit ∈ host, IsMark unit := by
  obtain (⟨b, c, d, h⟩ | ⟨ns, h | h, -⟩) | ⟨ns, h, -⟩ := h
  · exact h.isMark
  · exact isMark_of_ipv6 (.inl h)
  · exact isMark_of_ipv6 (.inr ⟨_, h⟩)
  · exact isMark_of_ipv6 (.inr ⟨_, h⟩)

/-- The last unit of `localhost` is in no literal. -/
theorem not_name_of_isMark {host : Text} (h : ∀ unit ∈ host, IsMark unit) :
    ¬(host = localhost ∨ (dot :: localhost) <:+ host) := by
  have hlast : ¬IsMark 0x74 := by decide
  rintro (rfl | hsuffix)
  · exact hlast (h _ (by decide))
  · exact hlast (h _ (hsuffix.subset (by decide)))

theorem isLoopbackIpv4_iff {host : Text} :
    isLoopbackIpv4 host = true ↔ ∃ b c d, Dotted host 127 b c d := by
  unfold isLoopbackIpv4
  constructor
  · intro h
    split at h
    · cases h
    · rename_i ns hoctets
      simp only [Bool.and_eq_true, List.all_eq_true, decide_eq_true_eq] at h
      obtain ⟨a, b, c, d, rfl, hdotted⟩ := octets_eq_some.mp ⟨hoctets, h.1⟩
      obtain rfl : a = 127 := by simpa [loopbackIpv4Prefix] using h.2
      exact ⟨b, c, d, hdotted⟩
  · rintro ⟨b, c, d, hdotted⟩
    obtain ⟨hoctets, hle⟩ := octets_eq_some.mpr ⟨127, b, c, d, rfl, hdotted⟩
    simp only [hoctets, Bool.and_eq_true, List.all_eq_true, decide_eq_true_eq]
    exact ⟨hle, rfl⟩

/-- What is answered of a host made bare. -/
theorem isLoopbackHost_iff {host : Text} :
    isLoopbackHost host = true ↔ Loopback host ∨ EarlyQuad host := by
  unfold isLoopbackHost
  by_cases hname : host = localhost ∨ (dot :: localhost) <:+ host
  · have hnot : ¬(LoopbackLiteral host ∨ EarlyQuad host) := fun h =>
      not_name_of_isMark (isMark_of_literal h) hname
    rw [if_pos hname, decide_eq_true_eq]
    constructor
    · intro hne
      obtain hlocal | ⟨name, rfl⟩ := hname
      · exact .inl (.inl hlocal)
      · refine .inl (.inr (.inl ⟨name, ?_, rfl⟩))
        rintro rfl
        exact hne rfl
    · rintro ((rfl | ⟨name, hne, rfl⟩ | hliteral) | hearly)
      · decide
      · exact fun heq => hne (List.append_cancel_right (heq.trans (List.nil_append _).symm))
      · exact absurd (.inl hliteral) hnot
      · exact absurd (.inr hearly) hnot
  · rw [if_neg hname]
    have hloopback : Loopback host ↔ LoopbackLiteral host := by
      refine ⟨fun h => ?_, fun h => .inr (.inr h)⟩
      obtain hlocal | ⟨name, -, rfl⟩ | hliteral := h
      · exact absurd (.inl hlocal) hname
      · exact absurd (.inr (List.suffix_append ..)) hname
      · exact hliteral
    rw [hloopback]
    cases hgroups : ipv6Groups host with
    | some ns =>
      have hread := ipv6Groups_eq_some.mp hgroups
      obtain ⟨hlength, hlt⟩ := groups_bounded hread
      simp only
      rw [isLoopbackGroups_iff hlength hlt]
      constructor
      · intro haddress
        obtain hfull | ⟨early, hcompressed⟩ := hread
        · exact .inl (.inr ⟨ns, .inl hfull, haddress⟩)
        · cases early with
          | false => exact .inl (.inr ⟨ns, .inr hcompressed, haddress⟩)
          | true => exact .inr ⟨ns, hcompressed, haddress⟩
      · have hsame : ∀ ms, (Full host ms ∨ ∃ early, Compressed early host ms) → ms = ns :=
          fun ms h => Option.some.inj ((ipv6Groups_eq_some.mpr h).symm.trans hgroups)
        rintro ((⟨b, c, d, hdotted⟩ | ⟨ms, hms, haddress⟩) | ⟨ms, hms, haddress⟩)
        · exact absurd (colon_mem_of_ipv6 hread) hdotted.colon_notMem
        · exact hsame ms (hms.imp id fun h => ⟨_, h⟩) ▸ haddress
        · exact hsame ms (.inr ⟨_, hms⟩) ▸ haddress
    | none =>
      have hnot : ∀ ns, ¬(Full host ns ∨ ∃ early, Compressed early host ns) := fun ns h => by
        rw [ipv6Groups_eq_some.mpr h] at hgroups
        cases hgroups
      simp only
      rw [isLoopbackIpv4_iff]
      constructor
      · exact fun h => .inl (.inl h)
      · rintro ((hdotted | ⟨ns, h, -⟩) | ⟨ns, h, -⟩)
        · exact hdotted
        · exact absurd (h.imp id fun h => ⟨_, h⟩) (hnot ns)
        · exact absurd (.inr ⟨_, h⟩) (hnot ns)

theorem Groups.dot_iff {quad : Bool} {text : Text} {ns : List Nat} (h : Groups quad text ns) :
    dot ∈ text ↔ quad = true := by
  induction h with
  | group h => simpa using h.dot_notMem
  | quad h => simpa using h.dot_mem
  | cons h _ ih =>
    have hne : dot ≠ colon := by decide
    simp [h.dot_notMem, hne, ih]

theorem Half.dot_iff {quad : Bool} {text : Text} {ns : List Nat} (h : Half quad text ns) :
    dot ∈ text ↔ quad = true := by
  cases h with
  | empty => simp
  | groups h => exact h.dot_iff

/-- A text with a dotted quad ahead of `::` is no literal. -/
theorem not_loopback_of_early {host : Text} (h : EarlyQuad host) : ¬Loopback host := by
  obtain ⟨ns, hearly, -⟩ := id h
  obtain ⟨before, after, heads, hsplit, hbefore⟩ := splitPairs_compressed hearly
  rintro (hlocal | ⟨name, -, rfl⟩ | ⟨b, c, d, hdotted⟩ | ⟨ms, ⟨quad, hgroups, -⟩ | hms, -⟩)
  · exact not_name_of_isMark (isMark_of_literal (.inr h)) (.inl hlocal)
  · exact not_name_of_isMark (isMark_of_literal (.inr h)) (.inr (List.suffix_append ..))
  · exact hdotted.colon_notMem (colon_mem_of_ipv6 (.inr ⟨_, hearly⟩))
  · have hone := hgroups.splitPairs.1.symm.trans hsplit
    simp at hone
  · obtain ⟨before', after', heads', hsplit', hbefore'⟩ := splitPairs_compressed hms
    obtain ⟨rfl, -⟩ := List.cons.inj (hsplit.symm.trans hsplit')
    exact Bool.false_ne_true (hbefore'.dot_iff.mp (hbefore.dot_iff.mpr rfl))

/-! ## Hostnames -/

/-- The hostnames of which `isLoopbackHostname` is wrong: those it reads as a loopback address with
a dotted quad ahead of `::`, and those with one bracket where that bracket makes a difference. -/
def Misread (lower : LowerCase) (hostname : Text) : Prop :=
  let host := lower.toLowerCase (withoutBrackets (withoutDot hostname))
  let opens := (withoutDot hostname).head? = some openBracket
  let closes := (withoutDot hostname).getLast? = some closeBracket
  EarlyQuad host ∨ opens ∧ ¬closes ∧ (host = localhost ∨ host = dot :: localhost ∨
    LoopbackLiteral host) ∨ ¬opens ∧ closes ∧ Loopback host

/-- A host with a bracket before it is a name, if it is this computer. -/
theorem loopback_openBracket_iff {host : Text} :
    Loopback (openBracket :: host) ↔ (dot :: localhost) <:+ host := by
  have hmark : ¬IsMark openBracket := by decide
  constructor
  · rintro (hlocal | ⟨name, hne, heq⟩ | hliteral)
    · cases hlocal
    · obtain ⟨unit, name, rfl⟩ := List.exists_cons_of_ne_nil hne
      exact ⟨name, (List.cons.inj heq).2.symm⟩
    · exact absurd (isMark_of_literal (.inl hliteral) _ List.mem_cons_self) hmark
  · rintro ⟨name, rfl⟩
    exact .inr (.inl ⟨openBracket :: name, List.cons_ne_nil _ _, rfl⟩)

theorem not_loopback_closeBracket (host : Text) : ¬Loopback (host ++ [closeBracket]) := by
  have hmark : ¬IsMark closeBracket := by decide
  rintro (hlocal | ⟨name, -, heq⟩ | hliteral)
  · have hlast := congrArg List.getLast? hlocal
    rw [List.getLast?_concat] at hlast
    exact absurd hlast (by decide)
  · have hlast := congrArg List.getLast? heq
    rw [List.getLast?_concat, List.getLast?_append_of_ne_nil _ (List.cons_ne_nil _ _)] at hlast
    exact absurd hlast (by decide)
  · exact hmark (isMark_of_literal (.inl hliteral) _ (by simp))

theorem withoutBrackets_cons {hostname : Text} (hopens : hostname.head? = some openBracket) :
    hostname = openBracket :: hostname.tail ∧
      (hostname.getLast? = some closeBracket ↔ hostname.tail.getLast? = some closeBracket) := by
  cases hostname with
  | nil => cases hopens
  | cons unit rest =>
    obtain rfl := Option.some.inj hopens
    refine ⟨rfl, ?_⟩
    cases rest with
    | nil => decide
    | cons unit rest => rw [List.getLast?_cons_cons, List.tail_cons]

/-- With one bracket that comes first, the host without it has to end in `.localhost`. -/
theorem answer_open_iff {host : Text} :
    (Loopback host ∨ EarlyQuad host ↔ (dot :: localhost) <:+ host) ↔
      ¬(EarlyQuad host ∨ host = localhost ∨ host = dot :: localhost ∨ LoopbackLiteral host) := by
  have hshort : ¬(dot :: localhost) <:+ localhost := by decide
  by_cases hsuffix : (dot :: localhost) <:+ host
  · have hnot : ¬(LoopbackLiteral host ∨ EarlyQuad host) := fun h =>
      not_name_of_isMark (isMark_of_literal h) (.inr hsuffix)
    obtain ⟨hliteral, hearly⟩ := not_or.mp hnot
    have hlocal : host ≠ localhost := by
      rintro rfl
      exact hshort hsuffix
    simp only [hsuffix, iff_true, hearly, or_false, false_or, hlocal, hliteral, Loopback]
    constructor
    · rintro ⟨name, hne, heq⟩ rfl
      exact hne (List.append_cancel_right (heq.symm.trans (List.nil_append _).symm))
    · intro hne
      obtain ⟨name, rfl⟩ := hsuffix
      refine ⟨name, ?_, rfl⟩
      rintro rfl
      exact hne rfl
  · have hname : ¬∃ name, name ≠ [] ∧ host = name ++ dot :: localhost := by
      rintro ⟨name, -, rfl⟩
      exact hsuffix (List.suffix_append ..)
    have hdot : host ≠ dot :: localhost := by
      rintro rfl
      exact hsuffix (List.suffix_refl _)
    simp only [hsuffix, iff_false, Loopback, hname, false_or, hdot]
    tauto

/-- `isLoopbackHostname` answers true of the hostnames that are this computer, but of those that it
misreads. -/
theorem isLoopbackHostname_iff (lower : LowerCase) (hostname : Text) :
    (isLoopbackHostname lower hostname = true ↔ Loopback (bare lower hostname)) ↔
      ¬Misread lower hostname := by
  simp only [isLoopbackHostname, isLoopbackHost_iff, bare, Misread]
  generalize withoutDot hostname = h
  have hearly : ∀ host, (Loopback host ∨ EarlyQuad host ↔ Loopback host) ↔ ¬EarlyQuad host :=
    fun host => ⟨fun hiff he => not_loopback_of_early he (hiff.mp (.inr he)), or_iff_left⟩
  by_cases hopens : h.head? = some openBracket
  · obtain ⟨heq, hlast⟩ := withoutBrackets_cons hopens
    by_cases hcloses : h.getLast? = some closeBracket
    · rw [withoutBrackets, if_pos hopens, if_pos (hlast.mp hcloses), if_pos ⟨hopens, hcloses⟩]
      simp only [hopens, hcloses, not_true_eq_false, false_and, and_false, or_false, hearly]
    · rw [withoutBrackets, if_pos hopens, if_neg (mt hlast.mpr hcloses),
        if_neg (fun hboth => hcloses hboth.2)]
      simp only [hopens, hcloses, not_true_eq_false, not_false_eq_true, true_and, false_and,
        or_false]
      rw [heq, lower.openBracket, loopback_openBracket_iff, List.tail_cons]
      exact answer_open_iff
  · by_cases hcloses : h.getLast? = some closeBracket
    · obtain ⟨rest, rfl⟩ := List.getLast?_eq_some_iff.mp hcloses
      rw [withoutBrackets, if_neg hopens, if_pos hcloses, if_neg (fun hboth => hopens hboth.1),
        List.dropLast_concat, lower.closeBracket]
      have hnot := not_loopback_closeBracket (lower.toLowerCase rest)
      simp only [hnot, iff_false, hopens, hcloses, not_false_eq_true, true_and, false_and, false_or]
      tauto
    · rw [withoutBrackets, if_neg hopens, if_neg hcloses, if_neg (fun hboth => hopens hboth.1)]
      simp only [hopens, hcloses, false_and, and_false, or_false, hearly]

/-- ASCII letters in lower case. -/
def asciiLower : LowerCase where
  toLowerCase := List.map fun unit => if 0x41 ≤ unit && unit ≤ 0x5a then unit + 0x20 else unit
  openBracket := fun _ => rfl
  closeBracket := fun text => by simp [closeBracket]

theorem earlyQuad_zero : EarlyQuad (units "0.0.0.0::1") := by
  have hoctet : Octet (units "0") 0 := by
    refine ⟨by decide, by decide, List.all_eq_true.mp (by decide), by decide, by decide⟩
  have hgroup : Group (units "1") 1 := by
    refine ⟨by decide, by decide, List.all_eq_true.mp (by decide), by decide⟩
  have hdotted : Dotted (units "0.0.0.0") 0 0 0 0 :=
    ⟨units "0", units "0", units "0", units "0", by decide, hoctet, hoctet, hoctet, hoctet⟩
  exact ⟨[0, 0, 0, 0, 0, 0, 0, 1],
    ⟨false, units "0.0.0.0", units "1", [0, 0], [1], by decide, .groups (.quad hdotted),
      .groups (.group hgroup), by decide, rfl⟩, .inl rfl⟩

/-- `0.0.0.0::1`, which is no address. -/
theorem not_isLoopbackHostname_exact : ¬∀ (lower : LowerCase) (hostname : Text),
    isLoopbackHostname lower hostname = true ↔ Loopback (bare lower hostname) := by
  intro h
  have hanswer : isLoopbackHostname asciiLower (units "0.0.0.0::1") = true := by decide +kernel
  have hhost : bare asciiLower (units "0.0.0.0::1") = units "0.0.0.0::1" := by decide +kernel
  have hloopback := (h asciiLower (units "0.0.0.0::1")).mp hanswer
  rw [hhost] at hloopback
  exact not_loopback_of_early earlyQuad_zero hloopback

end Origins

end Opensteer
