/- source: cosmix-edit-core/src/text.rs
   digest: A range read piece by piece, whatever the gap buffer gives at a time. -/

import Cosmix.EditCore.Text

namespace Cosmix.EditCore

open Cosmix.Lib.Coding Cosmix.Lib.Weave List

def utf8Len (lead : UInt8) : Nat :=
  if lead ≤ 0x7f then 1
  else if 0xc0 ≤ lead ∧ lead ≤ 0xdf then 2
  else if 0xe0 ≤ lead ∧ lead ≤ 0xef then 3
  else 4

instance : DecidablePred (Coded utf8) := fun bs =>
  decidable_of_iff bs.toByteArray.IsValidUTF8
    ⟨fun ⟨cs, h⟩ => ⟨cs, List.toByteArray_inj.mp h⟩, fun ⟨cs, h⟩ => ⟨cs, h ▸ rfl⟩⟩

/-- The greatest index up to which the bytes are valid, as errors of `str::from_utf8` say. -/
def validUpTo (bs : List UInt8) : Nat :=
  Nat.findGreatest (fun n => Coded utf8 (bs.take n)) bs.length

def fromUtf8 (bs : List UInt8) : Except Nat Str :=
  if h : Coded utf8 bs then .ok ⟨bs, h⟩ else .error (validUpTo bs)

/-- The valid front of what is left of a chunk, and the tail behind it. -/
def splitValid (rest : List UInt8) : Str × List UInt8 :=
  match fromUtf8 rest with
  | .ok s => (s, [])
  | .error n => ((fromUtf8 (rest.take n)).toOption.getD default, rest.drop n)

def cutRest (rest : List UInt8) : List Str × List UInt8 :=
  let (valid, tail) := splitValid rest
  (if valid.isEmpty then [] else [valid], tail.take 4)

/-- The pieces of one round, and the bytes carried on; the carried scalar value is completed first.
-/
def cut (carry rest : List UInt8) : List Str × List UInt8 :=
  match carry with
  | [] => cutRest rest
  | lead :: _ =>
    let want := utf8Len lead
    let take := min (want - carry.length) rest.length
    let carry := carry ++ rest.take take
    if carry.length < want then ([], carry)
    else
      let (pieces, tail) := cutRest (rest.drop take)
      ((fromUtf8 carry).toOption.toList ++ pieces, tail)

/-- Hands out pieces until the callback, which may look at all it was given, answers false. -/
def offer (f : List Str → Bool) : List Str → List Str → List Str × Bool
  | handed, [] => (handed, true)
  | handed, s :: pieces =>
    if f (handed ++ [s]) then offer f (handed ++ [s]) pieces else (handed ++ [s], false)

/-- The loop of `for_each_str`, with the pieces handed out so far; none without fuel. -/
def forEachFrom (readForward : Nat → List UInt8) (f : List Str → Bool) (stop : Nat) :
    Nat → Nat → List UInt8 → List Str → Option (List Str)
  | fuel, off, carry, handed =>
    if stop ≤ off then some handed
    else
      match fuel with
      | 0 => none
      | fuel + 1 =>
        let rest := (readForward off).take (stop - off)
        let (pieces, carry) := cut carry rest
        match offer f handed pieces with
        | (handed, true) => forEachFrom readForward f stop fuel (off + rest.length) carry handed
        | (handed, false) => some handed

def Str.forEachStr (text : Str) (readForward : Nat → List UInt8) (r : Range)
    (f : List Str → Bool) (fuel : Nat) : Option (List Str) :=
  let stop := min r.stop text.len
  forEachFrom readForward f stop fuel (min r.start stop) [] []

theorem utf8Len_encode (c : Char) :
    ∃ lead tl, utf8.encode c = lead :: tl ∧ (utf8.encode c).length = utf8Len lead := by
  change ∃ lead tl, String.utf8EncodeChar c = lead :: tl ∧
    (String.utf8EncodeChar c).length = utf8Len lead
  unfold String.utf8EncodeChar
  dsimp only
  generalize c.val.toNat = v
  split_ifs <;> refine ⟨_, _, rfl, ?_⟩ <;> simp [utf8Len, UInt8.le_iff_toNat_le] <;> split_ifs <;>
    omega

theorem encode_length_le (c : Char) : (utf8.encode c).length ≤ 4 :=
  (String.length_utf8EncodeChar c).trans_le c.utf8Size_le_four

theorem encode_prefix {c d : Char} (h : utf8.encode d <+: utf8.encode c) :
    (utf8.encode d).length = (utf8.encode c).length := by
  obtain ⟨lead, tl, hd, hlen⟩ := utf8Len_encode d
  obtain ⟨lead', tl', hc, hlen'⟩ := utf8Len_encode c
  rw [hd, hc, cons_prefix_cons] at h
  rw [hlen, hlen', h.1]

/-- The carry is the front of the first scalar value of what is left. -/
def Begun (carry left : List UInt8) : Prop :=
  ∃ cs : List Char, carry ++ left = cs.flatMap utf8.encode ∧
    ∀ c ∈ cs.head?, carry.length < (utf8.encode c).length

section

variable {carry left rest : List UInt8}

theorem begun_nil (h : Coded utf8 left) : Begun [] left := by
  obtain ⟨cs, rfl⟩ := h
  refine ⟨cs, rfl, fun c _ => ?_⟩
  obtain ⟨_, _, hc, -⟩ := utf8.lead c
  simp [hc]

theorem Begun.eq_nil (h : Begun carry []) : carry = [] := by
  obtain ⟨cs, hcs, hlt⟩ := h
  cases cs with
  | nil => simpa using hcs
  | cons c cs =>
    have hlong := hlt c rfl
    rw [append_nil] at hcs
    rw [hcs, flatMap_cons, length_append] at hlong
    omega

/-- Nothing of an incomplete scalar value is valid, after whatever valid text. -/
theorem Begun.eq_nil_of_coded (h : Begun carry left) {u front : List UInt8}
    (hfront : front <+: carry) (hcoded : Coded utf8 (u ++ front)) : front = [] := by
  obtain ⟨cs, hcs, hlt⟩ := h
  cases cs with
  | nil =>
    obtain ⟨rfl, -⟩ := append_eq_nil_iff.mp hcs
    exact prefix_nil.mp hfront
  | cons c cs =>
    have hc : front <+: utf8.encode c :=
      hfront.trans (prefix_of_prefix_length_le (hcs ▸ prefix_append _ _)
        (flatMap_cons ▸ prefix_append _ _) (hlt c rfl).le)
    -- a first byte stands where the valid text before it ends
    have hbound : boundary utf8 (u ++ front) u.length = true := by
      obtain ⟨b, tl, hlead, hb, -⟩ := utf8.lead c
      rw [hlead, prefix_cons_iff] at hc
      obtain rfl | ⟨_, rfl, -⟩ := hc
      · simp [boundary]
      · simp [boundary, hb]
    obtain ⟨ds, hds⟩ := (coded_split hcoded hbound).2
    rw [drop_left] at hds
    cases ds with
    | nil => exact hds
    | cons d ds =>
      have hd : utf8.encode d <+: front := hds ▸ prefix_append _ _
      have hlen := encode_prefix (hd.trans hc)
      have hshort := hlt c rfl
      have hle := (hd.trans hfront).length_le
      omega

theorem Begun.splitValid_eq (h : Begun carry left) (s : Str) :
    splitValid (s.bytes ++ carry) = (s, carry) := by
  have hupTo : validUpTo (s.bytes ++ carry) = s.bytes.length := by
    rw [validUpTo, Nat.findGreatest_eq_iff]
    refine ⟨by simp, fun _ => ?_, fun n hlt hle hn => ?_⟩
    · rw [take_left]
      exact s.valid
    · rw [take_append, take_of_length_le hlt.le] at hn
      have hnil := congrArg length (h.eq_nil_of_coded ( take_prefix _ _) hn)
      rw [length_take, length_nil] at hnil
      rw [length_append] at hle
      omega
  rw [splitValid, fromUtf8]
  split_ifs with hcoded
  · have hnil := h.eq_nil_of_coded (prefix_refl _) hcoded
    simp [hnil]
  · rw [hupTo]
    simp [fromUtf8, s.valid, Except.toOption]

/-- A chunk ends in whole scalar values and the front of one more. -/
theorem exists_chars {cs : List Char} (h : rest ++ left = cs.flatMap utf8.encode) :
    ∃ s : Str, ∃ tail, rest = s.bytes ++ tail ∧ Begun tail left := by
  induction cs generalizing rest with
  | nil =>
    obtain ⟨rfl, rfl⟩ := append_eq_nil_iff.mp h
    exact ⟨.empty, [], rfl, begun_nil coded_nil⟩
  | cons c cs ih =>
    by_cases hlt : rest.length < (utf8.encode c).length
    · refine ⟨.empty, rest, rfl, c :: cs, h, fun d hd => ?_⟩
      cases hd
      exact hlt
    · obtain ⟨more, rfl⟩ : utf8.encode c <+: rest :=
        prefix_of_prefix_length_le (flatMap_cons ▸ prefix_append _ _) (h ▸ prefix_append _ _)
          (Nat.le_of_not_lt hlt)
      rw [flatMap_cons, append_assoc] at h
      obtain ⟨s, tail, rfl, htail⟩ := ih (append_cancel_left h)
      refine ⟨⟨utf8.encode c ++ s.bytes, coded_append ⟨[c], by simp⟩ s.valid⟩, tail, ?_, htail⟩
      rw [append_assoc]

theorem Begun.length_le (h : Begun carry left) : carry.length ≤ 4 := by
  obtain ⟨cs, hcs, hlt⟩ := h
  cases cs with
  | nil =>
    obtain ⟨rfl, -⟩ := append_eq_nil_iff.mp hcs
    exact Nat.zero_le 4
  | cons c cs => exact (hlt c rfl).le.trans (encode_length_le c)

theorem cutRest_spec (h : Coded utf8 (rest ++ left)) :
    rest = (cutRest rest).1.flatMap Str.bytes ++ (cutRest rest).2 ∧
      Begun (cutRest rest).2 left := by
  obtain ⟨cs, hcs⟩ := h
  obtain ⟨s, tail, rfl, htail⟩ := exists_chars hcs
  rw [cutRest, htail.splitValid_eq s]
  dsimp only
  rw [take_of_length_le htail.length_le]
  refine ⟨?_, htail⟩
  split_ifs with hempty
  · rw [Str.isEmpty_iff.mp hempty]
    rfl
  · simp

/-- One round loses and doubles no byte, and carries no more than the front of a scalar value. -/
theorem cut_spec (h : Begun carry (rest ++ left)) :
    carry ++ rest = (cut carry rest).1.flatMap Str.bytes ++ (cut carry rest).2 ∧
      Begun (cut carry rest).2 left := by
  obtain ⟨cs, hcs, hlt⟩ := h
  cases carry with
  | nil => exact cutRest_spec ⟨cs, hcs⟩
  | cons lead more =>
    cases cs with
    | nil => cases hcs
    | cons c cs =>
      have hlong := hlt c rfl
      obtain ⟨first, _, hc, hwant⟩ := utf8Len_encode c
      rw [flatMap_cons] at hcs
      obtain rfl : lead = first := by
        rw [hc] at hcs
        exact (cons.inj hcs).1
      rw [cut]
      dsimp only
      rw [← hwant]
      by_cases hshort : (lead :: more).length + rest.length < (utf8.encode c).length
      · rw [min_eq_right (by omega), take_length, if_pos (by rwa [length_append])]
        refine ⟨rfl, c :: cs, ?_, fun d hd => ?_⟩
        · rw [append_assoc, flatMap_cons, hcs]
        · cases hd
          rwa [length_append]
      · -- the chunk has all that the carried scalar value lacks
        obtain ⟨after, hafter⟩ : utf8.encode c <+: (lead :: more) ++ rest :=
          prefix_of_prefix_length_le (hcs ▸ prefix_append _ _)
            (append_assoc (lead :: more) rest left ▸ prefix_append _ _)
            (by rw [length_append]; omega)
        have hcarry := congrArg (take (utf8.encode c).length) hafter
        have hrest := congrArg (drop (utf8.encode c).length) hafter
        rw [take_left, take_append, take_of_length_le hlong.le] at hcarry
        rw [drop_left, drop_append, drop_eq_nil_of_le hlong.le, nil_append] at hrest
        rw [← append_assoc, ← hafter, append_assoc] at hcs
        rw [min_eq_left (by omega), ← hcarry, ← hrest, if_neg (Nat.lt_irrefl _)]
        obtain ⟨hjoined, hbegun⟩ := cutRest_spec ⟨cs, append_cancel_left hcs⟩
        have hvalid : Coded utf8 (utf8.encode c) := ⟨[c], by simp⟩
        refine ⟨?_, hbegun⟩
        rw [← hafter, fromUtf8, dif_pos hvalid]
        simp only [Except.toOption, Option.toList_some, flatMap_append, flatMap_singleton,
          append_assoc]
        rw [← hjoined]

end

/-- The callback answered true to every piece. -/
def Agreed (f : List Str → Bool) (handed : List Str) : Prop :=
  ∀ calls, calls <+: handed → calls ≠ [] → f calls = true

/-- After an answer of false there is no other call; without one the pieces are the whole. -/
structure Served (f : List Str → Bool) (whole : List UInt8) (handed : List Str) : Prop where
  heeded : Agreed f handed.dropLast
  front : handed.flatMap Str.bytes <+: whole
  complete : Agreed f handed → handed.flatMap Str.bytes = whole

section

variable {f : List Str → Bool} {handed : List Str}

theorem offer_cases (h : Agreed f handed) (pieces : List Str) :
    offer f handed pieces = (handed ++ pieces, true) ∧ Agreed f (handed ++ pieces) ∨
      ∃ given, offer f handed pieces = (given, false) ∧ given <+: handed ++ pieces ∧
        Agreed f given.dropLast ∧ ¬Agreed f given := by
  induction pieces generalizing handed with
  | nil =>
    rw [append_nil]
    exact .inl ⟨rfl, h⟩
  | cons s pieces ih =>
    rw [offer]
    split_ifs with hs
    · have hagreed : Agreed f (handed ++ [s]) := by
        intro calls hcalls hne
        obtain rfl | hcalls := prefix_concat_iff.mp hcalls
        · exact hs
        · exact h calls hcalls hne
      have hrest := ih hagreed
      rwa [append_assoc, singleton_append] at hrest
    · refine .inr ⟨_, rfl, ⟨pieces, by simp⟩, ?_, fun hall => ?_⟩
      · rwa [dropLast_concat]
      · exact hs (hall _ (prefix_refl _) (by simp))

variable {text : Str} {carry : List UInt8} {stop off : Nat}

theorem Served.of_done (hdone : stop ≤ off) (hbegun : Begun carry (seg text.bytes off stop))
    (hagreed : Agreed f handed) :
    Served f (handed.flatMap Str.bytes ++ (carry ++ seg text.bytes off stop)) handed := by
  have hnone : seg text.bytes off stop = [] := by simp [seg, Nat.sub_eq_zero_of_le hdone]
  rw [hnone] at hbegun ⊢
  rw [hbegun.eq_nil, append_nil, append_nil]
  refine ⟨fun calls hcalls => ?_, prefix_refl _, fun _ => rfl⟩
  exact hagreed calls (hcalls.trans ( dropLast_prefix _))

variable {readForward : Nat → List UInt8}
  (hread : ∀ off < text.len, readForward off ≠ [] ∧ readForward off <+: text.bytes.drop off)
include hread

theorem forEachFrom_served {fuel : Nat} (hstop : stop ≤ text.len) (hfuel : stop - off ≤ fuel)
    (hbegun : Begun carry (seg text.bytes off stop)) (hagreed : Agreed f handed) :
    ∃ out, forEachFrom readForward f stop fuel off carry handed = some out ∧
      Served f (handed.flatMap Str.bytes ++ (carry ++ seg text.bytes off stop)) out := by
  induction fuel generalizing off carry handed with
  | zero =>
    have hdone : stop ≤ off := by omega
    exact ⟨handed, by rw [forEachFrom, if_pos hdone], .of_done hdone hbegun hagreed⟩
  | succ fuel ih =>
    by_cases hdone : stop ≤ off
    · exact ⟨handed, by rw [forEachFrom, if_pos hdone], .of_done hdone hbegun hagreed⟩
    rw [forEachFrom, if_neg hdone]
    obtain ⟨hne, hfront⟩ := hread off (by omega)
    have hpos := length_pos_iff.mpr hne
    have hchunk := prefix_iff_eq_take.mp (( take_prefix (stop - off) _).trans hfront)
    have hlen := length_take (i := stop - off) (l := readForward off)
    generalize (readForward off).take (stop - off) = rest at hchunk hlen ⊢
    have hwithin : off + rest.length ≤ stop := by omega
    have hleft := seg_append_seg text.bytes (Nat.le_add_right off rest.length) hwithin
    rw [seg, Nat.add_sub_cancel_left, ← hchunk] at hleft
    rw [← hleft] at hbegun ⊢
    obtain ⟨hjoined, hnext⟩ := cut_spec hbegun
    have hwhole : ∀ left, handed.flatMap Str.bytes ++ (carry ++ (rest ++ left)) =
        (handed ++ (cut carry rest).1).flatMap Str.bytes ++ ((cut carry rest).2 ++ left) := by
      intro left
      rw [flatMap_append, append_assoc, ← append_assoc carry, hjoined, append_assoc]
    rw [hwhole]
    obtain ⟨hoffer, hagreed⟩ | ⟨given, hoffer, ⟨more, hmore⟩, hheeded, hfalse⟩ :=
      offer_cases hagreed (cut carry rest).1
    · dsimp only
      rw [hoffer]
      exact ih (by omega) hnext hagreed
    · dsimp only
      rw [hoffer]
      refine ⟨given, rfl, hheeded, ?_, fun hall => absurd hall hfalse⟩
      rw [← hmore, flatMap_append, append_assoc]
      exact prefix_append _ _

/-- However the gap cuts the bytes, every call returns; its pieces are strings, until the callback
answers false, and together the range. -/
theorem forEachStr_serves_range {r : Range} (hstart : text.isCharBoundary r.start = true)
    (hstop : text.isCharBoundary r.stop = true) (f : List Str → Bool) {fuel : Nat}
    (hfuel : r.stop - r.start ≤ fuel) :
    ∃ handed, text.forEachStr readForward r f fuel = some handed ∧
      Served f (seg text.bytes r.start r.stop) handed := by
  have hlen : r.stop ≤ text.len := boundary_le hstop
  -- a range that ends before it starts is read as the empty one at its end
  have hoff : text.isCharBoundary (min r.start r.stop) = true := by
    obtain hmin | hmin := min_choice r.start r.stop <;> rwa [hmin]
  have hrange : seg text.bytes (min r.start r.stop) r.stop = seg text.bytes r.start r.stop := by
    rw [seg, seg]
    obtain hle | hle := le_total r.start r.stop
    · rw [min_eq_left hle]
    · rw [min_eq_right hle, Nat.sub_self, Nat.sub_eq_zero_of_le hle, take_zero, take_zero]
  have hbegun := begun_nil (coded_seg text.valid hoff hstop (min_le_right _ _))
  rw [Str.forEachStr, min_eq_left hlen, ← hrange]
  refine forEachFrom_served hread hlen (by omega) hbegun fun calls hcalls hne => ?_
  exact absurd (prefix_nil.mp hcalls) hne

end

theorem forEachStr_serves_range_bytewise :
    ∃ handed, (Str.ofChars ['é']).forEachStr (fun off => ((Str.ofChars ['é']).bytes.drop off).take 1)
        ⟨0, 2⟩ (fun _ => true) 2 = some handed ∧
      Served (fun _ => true) (seg (Str.ofChars ['é']).bytes 0 2) handed := by
  refine forEachStr_serves_range (fun off hoff => ⟨?_, take_prefix _ _⟩) (by decide) (by decide) _
    (Nat.le_refl 2)
  rw [ne_eq, take_eq_nil_iff, drop_eq_nil_iff]
  exact fun hnone => hnone.elim nofun hoff.not_ge

end Cosmix.EditCore
