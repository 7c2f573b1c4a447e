/- digest: The compact text of a JSON value parses back to it. -/

import Cosmix.Lib.Json

namespace Cosmix.Lib.Json

open List
open Nat (digitChar toDigits)
open Option (bind_eq_bind bind_some)

theorem hexValue_digitChar {d : Nat} (h : d < 16) : hexValue (digitChar d) = some d := by
  revert d
  decide

variable {c : Char} {fuel limit : Nat} {rest : List Char} {items : List Json}
  {members : List (String × Json)}

theorem unicodeEscape_control (h : c.toNat < 0x20) (rest : List Char) :
    unicodeEscape ('0' :: '0' :: digitChar (c.toNat / 16) :: digitChar (c.toNat % 16) :: rest)
      = some (c, rest) := by
  have hzero : hexValue '0' = some 0 := rfl
  have hhigh := hexValue_digitChar (show c.toNat / 16 < 16 by omega)
  have hlow := hexValue_digitChar (show c.toNat % 16 < 16 by omega)
  have hfour : hexFour ('0' :: '0' :: digitChar (c.toNat / 16) :: digitChar (c.toNat % 16)
      :: rest) = some (c.toNat, rest) := by
    simp only [hexFour, hzero, hhigh, hlow, bind_eq_bind, bind_some]
    rw [show ((0 * 16 + 0) * 16 + c.toNat / 16) * 16 + c.toNat % 16 = c.toNat by omega]
  simp only [unicodeEscape, hfour, bind_eq_bind, bind_some]
  rw [if_neg (by omega), if_neg (by omega), Char.ofNat_toNat]

theorem parseChars_escape (fuel : Nat) (c : Char) (rest : List Char) :
    parseChars (fuel + 1) (escape c ++ rest) =
      (parseChars fuel rest).map fun p => (c :: p.1, p.2) := by
  have hback : ∀ e d tail, unescape (e :: tail) = some (d, rest) →
      parseChars (fuel + 1) ('\\' :: e :: tail) =
        (parseChars fuel rest).map fun p => (d :: p.1, p.2) := by
    intro e d tail hun
    simp only [parseChars, hun, bind_eq_bind, bind_some]
    cases parseChars fuel rest <;> rfl
  unfold escape
  split
  · next h => exact h ▸ hback '"' '"' rest rfl
  split
  · next h => exact h ▸ hback '\\' '\\' rest rfl
  split
  · next h => exact h ▸ hback 'n' '\n' rest rfl
  split
  · next h => exact h ▸ hback 'r' '\r' rest rfl
  split
  · next h => exact h ▸ hback 't' '\t' rest rfl
  split
  · next h => exact h ▸ hback 'b' '\x08' rest rfl
  split
  · next h => exact h ▸ hback 'f' '\x0c' rest rfl
  split
  · next h => exact hback 'u' c _ (unicodeEscape_control h rest)
  next hquote hslash _ _ _ _ _ hplain =>
  simp only [cons_append, nil_append, parseChars, if_neg hquote, if_neg hslash, if_neg hplain]
  cases parseChars fuel rest <;> rfl

theorem parseChars_quoted (cs rest : List Char) (h : cs.length < fuel) :
    parseChars fuel (cs.flatMap escape ++ '"' :: rest) = some (cs, rest) := by
  induction cs generalizing fuel with
  | nil =>
    obtain ⟨fuel, rfl⟩ := Nat.exists_eq_succ_of_ne_zero (ne_of_gt h)
    rfl
  | cons c cs ih =>
    obtain ⟨_, rfl⟩ := Nat.exists_eq_succ_of_ne_zero (Nat.ne_zero_of_lt h)
    rw [flatMap_cons, append_assoc, parseChars_escape, ih (Nat.lt_of_succ_lt_succ h)]
    rfl

theorem escape_ne_nil (c : Char) : escape c ≠ [] := by
  unfold escape
  repeat' split
  all_goals simp

theorem length_le_escaped (cs : List Char) : cs.length ≤ (cs.flatMap escape).length := by
  induction cs with
  | nil => exact Nat.le_refl 0
  | cons c =>
    have := length_pos_iff.mpr (escape_ne_nil c)
    rw [flatMap_cons, length_append, length_cons]
    omega

theorem parseString_quoted (s : String) (rest : List Char) :
    parseString (s.toList.flatMap escape ++ '"' :: rest) = some (s, rest) := by
  have hlen := length_le_escaped s.toList
  have hfuel : s.toList.length + 1 ≤ (s.toList.flatMap escape ++ '"' :: rest).length := by
    rw [length_append, length_cons]
    omega
  have h := parseChars_quoted s.toList rest hfuel
  simp only [parseString, h, bind_eq_bind, bind_some, String.ofList_toList]

/-- What can follow a number without going on with it. -/
def ends : List Char → Bool
  | [] => true
  | c :: cs => !c.isDigit && !fractional (c :: cs)

theorem takeWhile_digits {ds : List Char} (hd : ∀ c ∈ ds, c.isDigit = true)
    (hr : ends rest = true) :
    (ds ++ rest).takeWhile Char.isDigit = ds ∧ (ds ++ rest).dropWhile Char.isDigit = rest := by
  have hstop : rest.takeWhile Char.isDigit = [] ∧ rest.dropWhile Char.isDigit = rest := by
    cases rest with
    | nil => exact ⟨rfl, rfl⟩
    | cons c =>
      have hc : c.isDigit = false := by
        rw [ends, Bool.and_eq_true, Bool.not_eq_true'] at hr
        exact hr.1
      exact ⟨takeWhile_cons_of_neg (by rw [hc]; simp),
        dropWhile_cons_of_neg (by rw [hc]; simp)⟩
  rw [takeWhile_append_of_pos hd, dropWhile_append_of_pos hd, hstop.1, hstop.2]
  exact ⟨append_nil _, rfl⟩

theorem head_toDigits {n : Nat} (h : 0 < n) : (toDigits 10 n).head? ≠ some '0' := by
  induction n using Nat.strongRecOn with
  | ind n ih =>
    rcases Nat.lt_or_ge n 10 with hlt | hge
    · rw [Nat.toDigits_of_lt_base hlt]
      intro hh
      have : digitChar n = '0' := Option.some.inj hh
      rw [Nat.digitChar_eq_zero] at this
      omega
    · rw [Nat.toDigits_of_base_le (by decide) hge]
      have hne : toDigits 10 (n / 10) ≠ [] := Nat.toDigits_ne_nil
      rw [head?_append_of_ne_nil _ hne]
      exact ih (n / 10) (by omega) (by omega)

theorem fractional_of_ends (h : ends rest = true) : fractional rest = false := by
  cases rest with
  | nil => rfl
  | cons =>
    rw [ends, Bool.and_eq_true, Bool.not_eq_true', Bool.not_eq_true'] at h
    exact h.2

theorem parseDigits_toDigits (n : Nat) (h : ends rest = true) :
    parseDigits (toDigits 10 n ++ rest) = some (n, rest) := by
  have hdigits : ∀ c ∈ toDigits 10 n, c.isDigit = true := fun c hc =>
    Nat.isDigit_of_mem_toDigits (by decide) (by decide) hc
  obtain ⟨htake, hdrop⟩ := takeWhile_digits hdigits h
  have hzero : ((toDigits 10 n).head? == some '0' && decide (1 < (toDigits 10 n).length)) =
      false := by
    rcases Nat.eq_zero_or_pos n with rfl | hpos
    · rfl
    · rw [Bool.and_eq_false_iff]
      exact .inl (beq_eq_false_iff_ne.mpr (head_toDigits hpos))
  have hempty : (toDigits 10 n).isEmpty = false :=
    isEmpty_eq_false_iff.mpr Nat.toDigits_ne_nil
  simp only [parseDigits, htake, hdrop, hempty, hzero, fractional_of_ends h, Bool.or_false,
    Bool.false_eq_true, if_false, Nat.ofDigitChars_ten_toDigits]

theorem toDigits_cons (n : Nat) : ∃ c cs, toDigits 10 n = c :: cs ∧ c.isDigit = true := by
  cases h : toDigits 10 n with
  | nil => exact absurd h Nat.toDigits_ne_nil
  | cons c cs =>
    refine ⟨c, cs, rfl, Nat.isDigit_of_mem_toDigits (b := 10) (n := n) (by decide) (by decide) ?_⟩
    rw [h]
    exact mem_cons_self

theorem ne_of_isDigit {d : Char} (h : c.isDigit = true) (hd : d.isDigit = false) : c ≠ d := by
  rintro rfl
  rw [h] at hd
  cases hd

theorem parseNumber_decimal {n : Int} (hfits : Fits n) (h : ends rest = true) :
    parseNumber (decimal n ++ rest) = some (.number n, rest) := by
  unfold decimal
  by_cases hn : 0 ≤ n
  · rw [if_pos hn]
    obtain ⟨c, cs, hcs, hc⟩ := toDigits_cons n.toNat
    have hparse := parseDigits_toDigits n.toNat h
    rw [hcs, cons_append] at hparse ⊢
    have hfits' : Fits (n.toNat : Int) := by rwa [Int.toNat_of_nonneg hn]
    rw [parseNumber, if_neg (ne_of_isDigit hc (show '-'.isDigit = false from rfl)), hparse,
      bind_eq_bind, bind_some]
    dsimp only
    rw [if_pos hfits', Int.toNat_of_nonneg hn]
  · rw [if_neg hn, cons_append]
    have hparse := parseDigits_toDigits n.natAbs h
    have hneg : -(n.natAbs : Int) = n := by omega
    have hcond : n.natAbs ≠ 0 ∧ Fits (-(n.natAbs : Int)) := ⟨by omega, by rwa [hneg]⟩
    rw [parseNumber, if_pos rfl, hparse, bind_eq_bind, bind_some]
    dsimp only
    rw [if_pos hcond, hneg]

theorem skipBlank_cons (h : blank c = false) (cs : List Char) : skipBlank (c :: cs) = c :: cs :=
  dropWhile_cons_of_neg (by rw [h]; simp)

theorem blank_of_isDigit (h : c.isDigit = true) : blank c = false := by
  simp only [blank, Bool.or_eq_false_iff, beq_eq_false_iff_ne]
  exact ⟨⟨⟨ne_of_isDigit h rfl, ne_of_isDigit h rfl⟩, ne_of_isDigit h rfl⟩, ne_of_isDigit h rfl⟩

theorem decimal_cons (n : Int) : ∃ c cs, decimal n = c :: cs ∧ (c = '-' ∨ c.isDigit = true) := by
  unfold decimal
  split
  · obtain ⟨c, cs, hcs, hc⟩ := toDigits_cons n.toNat
    exact ⟨c, cs, hcs, .inr hc⟩
  · exact ⟨'-', _, rfl, .inl rfl⟩

theorem print_array (items : List Json) :
    print (.array items) = '[' :: (commas (items.map print) ++ [']']) :=
  fold_array textCases items

def printMember (m : String × Json) : List Char := quote m.1 ++ ':' :: print m.2

theorem print_object (members : List (String × Json)) :
    print (.object members) = '{' :: (commas (members.map printMember) ++ ['}']) := by
  have h : print (.object members) =
      textCases.object (members.map fun m => (m.1, print m.2)) := fold_object textCases members
  rw [h]
  show '{' :: (commas (List.map _ (List.map _ members)) ++ ['}']) = _
  rw [map_map]
  rfl

theorem depth_array (items : List Json) :
    depth (.array items) = (items.map depth).foldr max 0 + 1 :=
  fold_array depthCases items

theorem depth_object (members : List (String × Json)) :
    depth (.object members) = (members.map fun m => depth m.2).foldr max 0 + 1 := by
  have h : depth (.object members) =
      depthCases.object (members.map fun m => (m.1, depth m.2)) := fold_object depthCases members
  rw [h]
  show (List.map _ (List.map _ members)).foldr max 0 + 1 = _
  rw [map_map]
  rfl

/-- A text starts with a char that is no blank and closes nothing. -/
theorem print_cons (v : Json) :
    ∃ c cs, print v = c :: cs ∧ blank c = false ∧ c ≠ ']' ∧ c ≠ '}' := by
  cases v with
  | null => exact ⟨'n', _, rfl, rfl, by decide, by decide⟩
  | bool b =>
    cases b with
    | true => exact ⟨'t', _, rfl, rfl, by decide, by decide⟩
    | false => exact ⟨'f', _, rfl, rfl, by decide, by decide⟩
  | number n =>
    obtain ⟨c, cs, hcs, rfl | hc⟩ := decimal_cons n
    · exact ⟨'-', cs, hcs, rfl, by decide, by decide⟩
    · exact ⟨c, cs, hcs, blank_of_isDigit hc, ne_of_isDigit hc rfl, ne_of_isDigit hc rfl⟩
  | string => exact ⟨'"', _, rfl, rfl, by decide, by decide⟩
  | array items => exact ⟨'[', _, print_array items, rfl, by decide, by decide⟩
  | object members => exact ⟨'{', _, print_object members, rfl, by decide, by decide⟩

theorem commas_cons (t : List Char) (ts : List (List Char)) :
    ∃ more, commas (t :: ts) = t ++ more := by
  cases ts with
  | nil => exact ⟨[], (append_nil t).symm⟩
  | cons => exact ⟨_, rfl⟩

theorem le_foldr_max {l : List Nat} {n : Nat} (h : n ∈ l) : n ≤ l.foldr max 0 := by
  induction l with
  | nil => cases h
  | cons m l ih =>
    rcases mem_cons.mp h with rfl | h
    · exact le_max_left _ _
    · exact (ih h).trans (le_max_right _ _)

@[simp] theorem inRange_array (items : List Json) :
    InRange (.array items) ↔ ∀ v ∈ items, InRange v := by
  have h : InRange (.array items) = ∀ p ∈ items.map InRange, p := fold_array rangeCases items
  rw [h]
  exact forall_mem_map

@[simp] theorem inRange_object (members : List (String × Json)) :
    InRange (.object members) ↔ ∀ m ∈ members, InRange m.2 := by
  have h : InRange (.object members) =
      ∀ p ∈ members.map fun m => (m.1, InRange m.2), p.2 := fold_object rangeCases members
  rw [h]
  exact forall_mem_map

/-- A value's text, and a rest that does not go on with a number, parse to the value and the rest.
-/
def ReadsBack (v : Json) : Prop :=
  ∀ fuel limit rest, (print v).length ≤ fuel → depth v ≤ limit → InRange v → ends rest = true →
    parseValue fuel limit (print v ++ rest) = some (v, rest)

theorem parseItems_commas (hne : items ≠ [])
    (hitems : ∀ v ∈ items, ReadsBack v ∧ depth v ≤ limit ∧ InRange v) (rest : List Char)
    (hfuel : (commas (items.map print)).length + 1 ≤ fuel) :
    parseItems fuel limit (commas (items.map print) ++ ']' :: rest) = some (items, rest) := by
  induction items generalizing fuel with
  | nil => exact absurd rfl hne
  | cons v items ih =>
    obtain ⟨fuel, rfl⟩ := Nat.exists_eq_succ_of_ne_zero (Nat.ne_zero_of_lt hfuel)
    obtain ⟨hv, hd, hr⟩ := hitems v mem_cons_self
    cases items with
    | nil =>
      have hlen : (print v).length ≤ fuel := Nat.le_of_succ_le_succ hfuel
      have hparse := hv fuel limit (']' :: rest) hlen hd hr rfl
      simp (disch := decide) only [map_cons, map_nil, commas, parseItems, hparse, bind_eq_bind,
        bind_some, skipBlank_cons]
      rfl
    | cons w items =>
      rw [map_cons, map_cons, commas, ← map_cons] at hfuel ⊢
      rw [length_append, length_cons] at hfuel
      have hparse := hv fuel limit (',' :: (commas ((w :: items).map print) ++ ']' :: rest))
        (by omega) hd hr rfl
      have hmore := ih (by simp) (fun u hu => hitems u (mem_cons_of_mem _ hu))
        (show (commas ((w :: items).map print)).length + 1 ≤ fuel by omega)
      rw [append_assoc, cons_append]
      simp (disch := decide) only [parseItems, hparse, bind_eq_bind, bind_some, skipBlank_cons,
        if_true, hmore]

theorem printMember_append (m : String × Json) (rest : List Char) : printMember m ++ rest =
      '"' :: (m.1.toList.flatMap escape ++ '"' :: ':' :: (print m.2 ++ rest)) := by
  simp [printMember, quote]

theorem parseMembers_commas (hne : members ≠ [])
    (hmembers : ∀ m ∈ members, ReadsBack m.2 ∧ depth m.2 ≤ limit ∧ InRange m.2) (rest : List Char)
    (hfuel : (commas (members.map printMember)).length + 1 ≤ fuel) :
    parseMembers fuel limit (commas (members.map printMember) ++ '}' :: rest) =
      some (members, rest) := by
  induction members generalizing fuel with
  | nil => exact absurd rfl hne
  | cons m members ih =>
    obtain ⟨fuel, rfl⟩ := Nat.exists_eq_succ_of_ne_zero (Nat.ne_zero_of_lt hfuel)
    obtain ⟨k, v⟩ := m
    obtain ⟨hv, hd, hr⟩ : ReadsBack v ∧ depth v ≤ limit ∧ InRange v := hmembers _ mem_cons_self
    have hshort : (print v).length ≤ (printMember (k, v)).length := by
      simp only [printMember, length_append, length_cons]
      omega
    cases members with
    | nil =>
      have hlen : (printMember (k, v)).length ≤ fuel := Nat.le_of_succ_le_succ hfuel
      have hparse := hv fuel limit ('}' :: rest) (hshort.trans hlen) hd hr rfl
      simp (disch := decide) only [map_cons, map_nil, commas, printMember_append, parseMembers,
        skipBlank_cons, if_true, parseString_quoted, bind_eq_bind, bind_some, hparse]
      rfl
    | cons w members =>
      rw [map_cons, map_cons, commas, ← map_cons] at hfuel ⊢
      rw [length_append, length_cons] at hfuel
      have hparse := hv fuel limit (',' :: (commas ((w :: members).map printMember) ++ '}' :: rest))
        (by omega) hd hr rfl
      have hmore := ih (by simp) (fun u hu => hmembers u (mem_cons_of_mem _ hu))
        (show (commas ((w :: members).map printMember)).length + 1 ≤ fuel by omega)
      rw [append_assoc, cons_append, printMember_append]
      simp (disch := decide) only [parseMembers, skipBlank_cons, if_true, parseString_quoted,
        bind_eq_bind, bind_some, hparse, hmore]

theorem readsBack_array (hback : ∀ v ∈ items, ReadsBack v) : ReadsBack (.array items) := by
  intro fuel limit rest hlen hdepth hrange _
  rw [print_array] at hlen ⊢
  rw [depth_array] at hdepth
  rw [inRange_array] at hrange
  simp only [length_cons, length_append] at hlen
  obtain ⟨fuel, rfl⟩ := Nat.exists_eq_succ_of_ne_zero (Nat.ne_zero_of_lt hlen)
  have hlimit : limit ≠ 0 := by omega
  rw [cons_append, append_assoc, cons_append, nil_append, Nat.succ_eq_add_one,
    parseValue, skipBlank_cons (show blank '[' = false from rfl)]
  dsimp only
  rw [if_neg (show ¬('[' : Char) = '"' by decide), if_pos rfl, if_neg hlimit]
  cases items with
  | nil => rfl
  | cons v items =>
    obtain ⟨c, cs, hcs, hblank, hclose, -⟩ := print_cons v
    obtain ⟨more, hmore⟩ := commas_cons (print v) (items.map print)
    have hhead : (skipBlank (commas ((v :: items).map print) ++ ']' :: rest)).head? ≠ some ']' := by
      rw [map_cons, hmore, hcs, append_assoc, cons_append, skipBlank_cons hblank]
      intro hh
      exact hclose (Option.some.inj hh)
    have hinside : ∀ w ∈ v :: items, ReadsBack w ∧ depth w ≤ limit - 1 ∧ InRange w := by
      intro w hw
      have := le_foldr_max (mem_map_of_mem (f := depth) hw)
      exact ⟨hback w hw, by omega, hrange w hw⟩
    have hparse := parseItems_commas (cons_ne_nil v items) hinside rest
      (show (commas ((v :: items).map print)).length + 1 ≤ fuel by omega)
    rw [if_neg hhead, hparse, bind_eq_bind, bind_some]

theorem readsBack_object (hback : ∀ m ∈ members, ReadsBack m.2) : ReadsBack (.object members) := by
  intro fuel limit rest hlen hdepth hrange _
  rw [print_object] at hlen ⊢
  rw [depth_object] at hdepth
  rw [inRange_object] at hrange
  simp only [length_cons, length_append] at hlen
  obtain ⟨fuel, rfl⟩ := Nat.exists_eq_succ_of_ne_zero (Nat.ne_zero_of_lt hlen)
  have hlimit : limit ≠ 0 := by omega
  rw [cons_append, append_assoc, cons_append, nil_append, Nat.succ_eq_add_one,
    parseValue, skipBlank_cons (show blank '{' = false from rfl)]
  dsimp only
  rw [if_neg (show ¬('{' : Char) = '"' by decide), if_neg (show ¬('{' : Char) = '[' by decide),
    if_pos rfl, if_neg hlimit]
  cases members with
  | nil => rfl
  | cons m members =>
    obtain ⟨more, hmore⟩ := commas_cons (printMember m) (members.map printMember)
    have hhead : (skipBlank (commas ((m :: members).map printMember) ++ '}' :: rest)).head? ≠
        some '}' := by
      rw [map_cons, hmore]
      intro hh
      exact absurd (Option.some.inj hh) (by decide)
    have hinside : ∀ w ∈ m :: members, ReadsBack w.2 ∧ depth w.2 ≤ limit - 1 ∧ InRange w.2 := by
      intro w hw
      have := le_foldr_max (mem_map_of_mem (f := fun m : String × Json => depth m.2) hw)
      exact ⟨hback w hw, by omega, hrange w hw⟩
    have hparse := parseMembers_commas (cons_ne_nil m members) hinside rest
      (show (commas ((m :: members).map printMember)).length + 1 ≤ fuel by omega)
    rw [if_neg hhead, hparse, bind_eq_bind, bind_some]

theorem readsBack (v : Json) : ReadsBack v := by
  induction v using nested with
  | null =>
    intro fuel limit rest hlen _ _ _
    obtain ⟨fuel, rfl⟩ := Nat.exists_eq_succ_of_ne_zero (Nat.ne_zero_of_lt hlen)
    rfl
  | bool b =>
    intro fuel limit rest hlen _ _ _
    cases b <;>
      obtain ⟨fuel, rfl⟩ := Nat.exists_eq_succ_of_ne_zero (Nat.ne_zero_of_lt hlen) <;> rfl
  | number n =>
    intro fuel limit rest hlen _ hrange hends
    have htext : print (.number n) = decimal n := rfl
    rw [htext] at hlen ⊢
    have hparse := parseNumber_decimal (show Fits n from hrange) hends
    obtain ⟨c, _, hcs, hc⟩ := decimal_cons n
    have hnot : ∀ d : Char, d.isDigit = false → d ≠ '-' → c ≠ d := by
      intro d hd hne
      rcases hc with rfl | hc
      · exact hne.symm
      · exact ne_of_isDigit hc hd
    have hblank : blank c = false := by
      rcases hc with rfl | hc
      · rfl
      · exact blank_of_isDigit hc
    rw [hcs, cons_append] at hparse ⊢
    rw [hcs] at hlen
    obtain ⟨fuel, rfl⟩ := Nat.exists_eq_succ_of_ne_zero (Nat.ne_zero_of_lt hlen)
    rw [parseValue, skipBlank_cons hblank]
    dsimp only
    rw [if_neg (hnot '"' rfl (by decide)), if_neg (hnot '[' rfl (by decide)),
      if_neg (hnot '{' rfl (by decide)), if_pos hc, hparse]
  | string s =>
    intro fuel limit rest hlen _ _ _
    have htext : print (.string s) ++ rest = '"' :: (s.toList.flatMap escape ++ '"' :: rest) := by
      simp [print, textCases, quote]
    obtain ⟨_, rfl⟩ := Nat.exists_eq_succ_of_ne_zero (Nat.ne_zero_of_lt hlen)
    rw [htext, parseValue, skipBlank_cons (show blank '"' = false from rfl)]
    dsimp only
    rw [if_pos rfl, parseString_quoted, bind_eq_bind, bind_some]
  | array items hback => exact readsBack_array hback
  | object members hback => exact readsBack_object hback

/-- The text of a value whose numbers fit parses to the value, where the limit on nesting allows
it. -/
theorem parse_print {v : Json} (hrange : InRange v) (hdepth : depth v ≤ limit) :
    parse limit (print v) = some v := by
  have h := readsBack v (print v).length limit [] le_rfl hdepth hrange rfl
  rw [append_nil] at h
  rw [parse, h]
  rfl

def isHex (c : Char) : Prop := (hexValue c).isSome = true

/-- One char of a string as it stands in a text. -/
inductive CharText : List Char → Prop
  | plain {c : Char} (high : 0x20 ≤ c.toNat) (quote : c ≠ '"') (slash : c ≠ '\\') : CharText [c]
  | short {c : Char} (known : c ∈ ['"', '\\', '/', 'b', 'f', 'n', 'r', 't']) : CharText ['\\', c]
  | unicode {a b c d : Char} (ha : isHex a) (hb : isHex b) (hc : isHex c) (hd : isHex d) :
      CharText ['\\', 'u', a, b, c, d]

inductive StringText : List Char → Prop
  | mk {parts : List (List Char)} (chars : ∀ t ∈ parts, CharText t) :
      StringText ('"' :: (parts.flatten ++ ['"']))

inductive DigitsText : List Char → Prop
  | zero : DigitsText ['0']
  | mk {c : Char} {cs : List Char} (first : c ≠ '0') (digits : ∀ d ∈ c :: cs, d.isDigit = true) :
      DigitsText (c :: cs)

mutual

inductive ValueText : List Char → Prop
  | null : ValueText "null".toList
  | true : ValueText "true".toList
  | false : ValueText "false".toList
  | nat {cs : List Char} (digits : DigitsText cs) : ValueText cs
  | neg {cs : List Char} (digits : DigitsText cs) : ValueText ('-' :: cs)
  | string {cs : List Char} (text : StringText cs) : ValueText cs
  | emptyArray : ValueText ['[', ']']
  | array {cs : List Char} (items : ItemsText cs) : ValueText ('[' :: (cs ++ [']']))
  | emptyObject : ValueText ['{', '}']
  | object {cs : List Char} (members : MembersText cs) : ValueText ('{' :: (cs ++ ['}']))

inductive ItemsText : List Char → Prop
  | one {cs : List Char} (value : ValueText cs) : ItemsText cs
  | more {cs ds : List Char} (value : ValueText cs) (items : ItemsText ds) :
      ItemsText (cs ++ ',' :: ds)

inductive MembersText : List Char → Prop
  | one {ks cs : List Char} (key : StringText ks) (value : ValueText cs) :
      MembersText (ks ++ ':' :: cs)
  | more {ks cs ds : List Char} (key : StringText ks) (value : ValueText cs)
      (members : MembersText ds) : MembersText ((ks ++ ':' :: cs) ++ ',' :: ds)

end

theorem charText_escape (c : Char) : CharText (escape c) := by
  have hex : ∀ d, d < 16 → isHex (digitChar d) := fun d hd => by
    rw [isHex, hexValue_digitChar hd]
    rfl
  unfold escape
  iterate 7
    split
    · exact .short (by decide)
  split
  · exact .unicode rfl rfl (hex _ (by omega)) (hex _ (by omega))
  · next hquote hslash _ _ _ _ _ hplain => exact .plain (Nat.le_of_not_lt hplain) hquote hslash

theorem stringText_quote (s : String) : StringText (quote s) := by
  have h : StringText ('"' :: ((s.toList.map escape).flatten ++ ['"'])) := by
    refine .mk fun t ht => ?_
    obtain ⟨c, -, rfl⟩ := mem_map.mp ht
    exact charText_escape c
  rwa [← flatMap_def] at h

theorem digitsText_toDigits (n : Nat) : DigitsText (toDigits 10 n) := by
  rcases Nat.eq_zero_or_pos n with rfl | hpos
  · exact .zero
  have hhead := head_toDigits hpos
  have hdigits : ∀ d ∈ toDigits 10 n, d.isDigit = true := fun d hd =>
    Nat.isDigit_of_mem_toDigits (by decide) (by decide) hd
  cases hcs : toDigits 10 n with
  | nil => exact absurd hcs Nat.toDigits_ne_nil
  | cons =>
    rw [hcs] at hhead hdigits
    exact .mk (fun hc => hhead (congrArg some hc)) hdigits

theorem itemsText_commas (hne : items ≠ []) (h : ∀ v ∈ items, ValueText (print v)) :
    ItemsText (commas (items.map print)) := by
  induction items with
  | nil => exact absurd rfl hne
  | cons v items ih =>
    have hv := h v mem_cons_self
    cases items with
    | nil => exact .one hv
    | cons w items =>
      exact .more hv (ih (cons_ne_nil w items) fun u hu => h u (mem_cons_of_mem _ hu))

theorem membersText_commas (hne : members ≠ []) (h : ∀ m ∈ members, ValueText (print m.2)) :
    MembersText (commas (members.map printMember)) := by
  induction members with
  | nil => exact absurd rfl hne
  | cons m members ih =>
    have hm := h m mem_cons_self
    cases members with
    | nil => exact .one (stringText_quote m.1) hm
    | cons w members =>
      exact .more (stringText_quote m.1) hm
        (ih (cons_ne_nil w members) fun u hu => h u (mem_cons_of_mem _ hu))

theorem valueText_print (v : Json) : ValueText (print v) := by
  induction v using nested with
  | null => exact .null
  | bool b =>
    cases b with
    | true => exact .true
    | false => exact .false
  | number n =>
    show ValueText (decimal n)
    unfold decimal
    split
    · exact .nat (digitsText_toDigits _)
    · exact .neg (digitsText_toDigits _)
  | string s => exact .string (stringText_quote s)
  | array items h =>
    rw [print_array]
    cases items with
    | nil => exact .emptyArray
    | cons v items => exact .array (itemsText_commas (cons_ne_nil v items) h)
  | object members h =>
    rw [print_object]
    cases members with
    | nil => exact .emptyObject
    | cons m members => exact .object (membersText_commas (cons_ne_nil m members) h)

end Cosmix.Lib.Json
