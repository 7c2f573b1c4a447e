/- digest: Splitting, lines and trimming of texts, and texts of framed parts. -/

import Mathlib.Algebra.Order.Ring.Int
import Mathlib.Data.String.Basic
import Mathlib.Data.List.DropRight

namespace Cosmix.Lib.Text

open List

/-- What stands before and after the first place where a pattern occurs. -/
def splitOnce (pat : List Char) : List Char → Option (List Char × List Char)
  | [] => if pat.isEmpty then some ([], []) else none
  | c :: cs =>
    if pat.isPrefixOf (c :: cs) then some ([], (c :: cs).drop pat.length)
    else (splitOnce pat cs).map fun p => (c :: p.1, p.2)

def stripPrefix (pat s : List Char) : Option (List Char) :=
  if pat.isPrefixOf s then some (s.drop pat.length) else none

def stripSuffix (pat s : List Char) : Option (List Char) :=
  if pat.isSuffixOf s then some (s.take (s.length - pat.length)) else none

def dropReturn (line : List Char) : List Char :=
  if line.getLast? = some '\r' then line.dropLast else line

/-- The lines of a text, the first of them begun already. -/
def linesFrom (begun : List Char) : List Char → List (List Char)
  | [] => if begun.isEmpty then [] else [begun]
  | c :: cs =>
    if c = '\n' then dropReturn begun :: linesFrom [] cs else linesFrom (begun ++ [c]) cs

/-- The lines of a text. A return belongs to a line ending only before a newline. -/
def lines (s : List Char) : List (List Char) := linesFrom [] s

/-- The chars with the Unicode property of white space. -/
def whitespace (c : Char) : Bool :=
  let n := c.toNat
  (9 ≤ n && n ≤ 13) || n == 0x20 || n == 0x85 || n == 0xA0 || n == 0x1680 ||
    (0x2000 ≤ n && n ≤ 0x200A) || n == 0x2028 || n == 0x2029 || n == 0x202F || n == 0x205F ||
    n == 0x3000

def trimEnd (s : List Char) : List Char := s.rdropWhile whitespace

def trim (s : List Char) : List Char := trimEnd (s.dropWhile whitespace)

def joinLines : List (List Char) → List Char
  | [] => []
  | [l] => l
  | l :: m :: ls => l ++ '\n' :: joinLines (m :: ls)

variable {s l : List Char} {c : Char}

theorem splitOnce_some {pat a b : List Char} (h : splitOnce pat s = some (a, b)) :
    s = a ++ (pat ++ b) := by
  induction s generalizing a with
  | nil =>
    rw [splitOnce] at h
    split at h
    · next hpat =>
      cases h
      rw [List.isEmpty_iff.mp hpat]
      rfl
    · cases h
  | cons c cs ih =>
    rw [splitOnce] at h
    split at h
    · next hpat =>
      cases h
      obtain ⟨_, hrest⟩ := isPrefixOf_iff_prefix.mp hpat
      rw [← hrest, drop_left, nil_append]
    · obtain ⟨p, hp, heq⟩ := Option.map_eq_some_iff.mp h
      cases heq
      rw [ih hp]
      rfl

theorem splitOnce_skip {x : Char} (p : List Char) (h : x ∉ l) (rest : List Char) :
    splitOnce (x :: p) (l ++ rest) = (splitOnce (x :: p) rest).map fun q => (l ++ q.1, q.2) := by
  induction l with
  | nil => simp
  | cons c l ih =>
    obtain ⟨hc, hl⟩ := not_or.mp (mt mem_cons.mpr h)
    have hne : (x :: p).isPrefixOf (c :: (l ++ rest)) = false := by
      rw [isPrefixOf, beq_eq_false_iff_ne.mpr hc, Bool.false_and]
    rw [cons_append, splitOnce, hne, ih hl, Option.map_map]
    rfl

theorem splitOnce_here {pat rest : List Char} (h : pat ≠ []) :
    splitOnce pat (pat ++ rest) = some ([], rest) := by
  cases pat with
  | nil => exact absurd rfl h
  | cons c p =>
    have hpre : (c :: p).isPrefixOf (c :: (p ++ rest)) = true :=
      isPrefixOf_iff_prefix.mpr ⟨rest, rfl⟩
    rw [cons_append, splitOnce, hpre, if_pos rfl, ← cons_append, drop_left]

theorem newline_not_mem_linesFrom {begun : List Char} (hb : '\n' ∉ begun)
    (h : l ∈ linesFrom begun s) : '\n' ∉ l := by
  induction s generalizing begun with
  | nil =>
    rw [linesFrom] at h
    split at h
    · cases h
    · rwa [mem_singleton.mp h]
  | cons c cs ih =>
    rw [linesFrom] at h
    split at h
    · rcases mem_cons.mp h with rfl | h
      · unfold dropReturn
        split
        · exact fun hmem => hb (dropLast_subset begun hmem)
        · exact hb
      · exact ih not_mem_nil h
    · next hc =>
      refine ih (fun hmem => ?_) h
      rcases mem_append.mp hmem with hmem | hmem
      · exact hb hmem
      · exact hc (mem_singleton.mp hmem).symm

theorem linesFrom_append (h : '\n' ∉ l) (begun rest : List Char) :
    linesFrom begun (l ++ rest) = linesFrom (begun ++ l) rest := by
  induction l generalizing begun with
  | nil => simp
  | cons c l ih =>
    obtain ⟨hc, hl⟩ := not_or.mp (mt mem_cons.mpr h)
    rw [cons_append, linesFrom, if_neg (Ne.symm hc), ih hl, append_assoc, singleton_append]

theorem lines_cons (h : '\n' ∉ l) (rest : List Char) :
    lines (l ++ '\n' :: rest) = dropReturn l :: lines rest := by
  rw [lines, linesFrom_append h, nil_append, linesFrom, if_pos rfl, lines]

theorem lines_last (h : '\n' ∉ l) (hne : l ≠ []) : lines l = [l] := by
  have := linesFrom_append h [] []
  rw [append_nil, nil_append] at this
  rw [lines, this, linesFrom, if_neg (by rwa [List.isEmpty_iff])]

variable {ls : List (List Char)}

theorem lines_joinLines (hnew : ∀ l ∈ ls, '\n' ∉ l)
    (hret : ∀ l ∈ ls, l.getLast? ≠ some '\r') (hne : ∀ l ∈ ls, l ≠ []) :
    lines (joinLines ls) = ls := by
  induction ls with
  | nil => rfl
  | cons l ls ih =>
    cases ls with
    | nil => exact lines_last (hnew l mem_cons_self) (hne l mem_cons_self)
    | cons =>
      rw [joinLines, lines_cons (hnew l mem_cons_self), dropReturn, if_neg (hret l mem_cons_self),
        ih (fun a ha => hnew a (mem_cons_of_mem _ ha))
          (fun a ha => hret a (mem_cons_of_mem _ ha))
          fun a ha => hne a (mem_cons_of_mem _ ha)]

/-- Lines framed by a marker line come apart at the marker, unless one of them is the marker. -/
theorem splitOnce_framed {marker : List Char} (hmarker : '\n' ∉ marker)
    (hls : ls ≠ []) (hnew : ∀ l ∈ ls, '\n' ∉ l) (hother : ∀ l ∈ ls, l ≠ marker) (tail : List Char) :
    splitOnce ('\n' :: (marker ++ ['\n']))
        (ls.flatMap (fun l => l ++ ['\n']) ++ (marker ++ '\n' :: tail)) =
      some (joinLines ls, tail) := by
  induction ls with
  | nil => exact absurd rfl hls
  | cons l ls ih =>
    have hl := hnew l mem_cons_self
    rw [flatMap_cons, append_assoc, append_assoc, splitOnce_skip _ hl]
    cases ls with
    | nil =>
      have hhere : splitOnce ('\n' :: (marker ++ ['\n'])) (('\n' :: (marker ++ ['\n'])) ++ tail) =
          some ([], tail) := splitOnce_here (cons_ne_nil _ _)
      have htext : ['\n'] ++ (flatMap (fun l => l ++ ['\n']) [] ++ (marker ++ '\n' :: tail)) =
          ('\n' :: (marker ++ ['\n'])) ++ tail := by simp
      rw [htext, hhere, Option.map_some, append_nil, joinLines]
    | cons m ls =>
      have hm := hnew m (mem_cons_of_mem _ mem_cons_self)
      have hmm := hother m (mem_cons_of_mem _ mem_cons_self)
      have hrest := ih (cons_ne_nil m ls) (fun a ha => hnew a (mem_cons_of_mem _ ha))
        fun a ha => hother a (mem_cons_of_mem _ ha)
      -- the next line is not the marker
      have hno : ('\n' :: (marker ++ ['\n'])).isPrefixOf
          ('\n' :: ((m :: ls).flatMap (fun l => l ++ ['\n']) ++ (marker ++ '\n' :: tail))) =
            false := by
        rw [Bool.eq_false_iff]
        intro hpre
        obtain ⟨r, hr⟩ := isPrefixOf_iff_prefix.mp hpre
        rw [cons_append, cons.injEq] at hr
        have hr := hr.2
        rw [flatMap_cons, append_assoc, append_assoc, append_assoc] at hr
        exact hmm (append_newline_inj hmarker hm hr).symm
      rw [singleton_append, splitOnce, hno, if_neg Bool.false_ne_true, hrest, Option.map_some,
        Option.map_some, joinLines]
where
  append_newline_inj {a b r r' : List Char} (ha : '\n' ∉ a) (hb : '\n' ∉ b)
      (h : a ++ '\n' :: r = b ++ '\n' :: r') : a = b := by
    induction a generalizing b with
    | nil =>
      cases b with
      | nil => rfl
      | cons =>
        obtain ⟨hc, -⟩ := cons.inj h
        exact absurd (hc ▸ mem_cons_self) hb
    | cons c a ih =>
      cases b with
      | nil =>
        obtain ⟨hc, -⟩ := cons.inj h
        exact absurd (hc ▸ mem_cons_self) ha
      | cons =>
        obtain ⟨hc, hrest⟩ := cons.inj h
        rw [hc, ih (mt (mem_cons_of_mem _) ha) (mt (mem_cons_of_mem _) hb) hrest]

theorem mem_of_mem_trim (h : c ∈ trim s) : c ∈ s :=
  (dropWhile_suffix whitespace).subset ((List.rdropWhile_prefix whitespace _).subset h)

theorem getLast?_trimEnd (h : (trimEnd s).getLast? = some c) : whitespace c = false := by
  have hne : trimEnd s ≠ [] := by
    intro hnil
    rw [hnil] at h
    cases h
  rw [getLast?_eq_some_getLast hne] at h
  rw [← Option.some.inj h]
  exact Bool.eq_false_iff.mpr (rdropWhile_last_not whitespace s hne)

theorem trimEnd_of_getLast? (h : ∀ c, s.getLast? = some c → whitespace c = false) :
    trimEnd s = s := by
  rw [trimEnd, rdropWhile_eq_self_iff]
  intro hne
  rw [h _ (getLast?_eq_some_getLast hne)]
  exact Bool.false_ne_true

theorem trim_eq_self (hhead : ∀ c, s.head? = some c → whitespace c = false)
    (hlast : ∀ c, s.getLast? = some c → whitespace c = false) : trim s = s := by
  have hstart : s.dropWhile whitespace = s := by
    cases s with
    | nil => rfl
    | cons c => rw [dropWhile_cons, hhead c rfl, if_neg Bool.false_ne_true]
  rw [trim, hstart, trimEnd_of_getLast? hlast]

theorem head?_trim (h : (trim s).head? = some c) : whitespace c = false := by
  obtain ⟨r, hr⟩ := rdropWhile_prefix whitespace (s.dropWhile whitespace)
  have hhead : (s.dropWhile whitespace).head? = some c := by
    rw [← hr, head?_append]
    exact congrArg (Option.or · r.head?) h
  have hnot := head?_dropWhile_not whitespace s
  rw [hhead] at hnot
  exact Bool.eq_false_iff.mpr (by simpa using hnot)

end Cosmix.Lib.Text

namespace Cosmix.Lib.Framing

open Cosmix.Lib.Text

def segment (s : String) : String := toString s.utf8ByteSize ++ ":" ++ s

theorem append_left_cancel {a b c : String} (h : a ++ b = a ++ c) : b = c := by
  have hl : a.toList ++ b.toList = a.toList ++ c.toList := by
    rw [← String.toList_append, ← String.toList_append, h]
  exact String.toList_injective (List.append_cancel_left hl)

private theorem eq_nil_of_size {a c : String} {x : List Char} (h : c.toList = a.toList ++ x)
    (hs : a.utf8ByteSize = c.utf8ByteSize) : x = [] := by
  have hc : c = a ++ String.ofList x := by
    apply String.toList_injective
    rw [h, String.toList_append, String.toList_ofList]
  rw [hc, String.utf8ByteSize_append] at hs
  have hx : String.ofList x = "" := String.utf8ByteSize_eq_zero_iff.mp (by omega)
  simpa using congrArg String.toList hx

theorem append_inj_of_size {a b c d : String} (h : a ++ b = c ++ d)
    (hs : a.utf8ByteSize = c.utf8ByteSize) : a = c ∧ b = d := by
  have hl : a.toList ++ b.toList = c.toList ++ d.toList := by
    rw [← String.toList_append, ← String.toList_append, h]
  have hac : a = c := by
    rcases List.append_eq_append_iff.mp hl with ⟨x, hx, _⟩ | ⟨x, hx, _⟩
    · rw [eq_nil_of_size hx hs, List.append_nil] at hx
      exact String.toList_injective hx.symm
    · rw [eq_nil_of_size hx hs.symm, List.append_nil] at hx
      exact String.toList_injective hx
  subst hac
  exact ⟨rfl, append_left_cancel h⟩

theorem span_inj {p : Char → Bool} {ds es r r' : List Char} {c c' : Char}
    (hd : ∀ x ∈ ds, p x = true) (he : ∀ x ∈ es, p x = true) (hc : p c = false) (hc' : p c' = false)
    (h : ds ++ c :: r = es ++ c' :: r') : ds = es ∧ c = c' ∧ r = r' := by
  have htake : ∀ {xs : List Char} {y : Char} (ys : List Char), (∀ x ∈ xs, p x = true) →
      p y = false → (xs ++ y :: ys).takeWhile p = xs := by
    intro xs y ys hxs hy
    rw [List.takeWhile_append_of_pos hxs, List.takeWhile_cons_of_neg (by simp [hy]), List.append_nil]
  have hds : ds = es := by
    rw [← htake r hd hc, h, htake r' he hc']
  subst hds
  have hrest := List.append_cancel_left h
  exact ⟨rfl, List.head_eq_of_cons_eq hrest, List.tail_eq_of_cons_eq hrest⟩

theorem toList_segment_append (s x : String) :
    (segment s ++ x).toList = Nat.toDigits 10 s.utf8ByteSize ++ ':' :: (s ++ x).toList := by
  simp [segment]

theorem segment_append_inj {s t x y : String} (h : segment s ++ x = segment t ++ y) :
    s = t ∧ x = y := by
  have hl := congrArg String.toList h
  rw [toList_segment_append, toList_segment_append] at hl
  have hdigits : ∀ n : Nat, ∀ c ∈ Nat.toDigits 10 n, c.isDigit = true := fun n c hc =>
    Nat.isDigit_of_mem_toDigits (by decide) (by decide) hc
  obtain ⟨hds, -, hrest⟩ := span_inj (hdigits _) (hdigits _) (by decide) (by decide) hl
  have hsize : s.utf8ByteSize = t.utf8ByteSize := by
    rw [← Nat.ofDigitChars_ten_toDigits (n := s.utf8ByteSize), hds, Nat.ofDigitChars_ten_toDigits]
  exact append_inj_of_size (String.toList_injective hrest) hsize

/-- A pair of colons after the text is the first pair: it has none and ends in no colon. -/
def delimitable (s : String) : Bool := (splitOnce [':', ':'] (s.toList ++ [':'])).isNone

theorem splitOnce_of_delimitable {cs : List Char} (h : splitOnce [':', ':'] (cs ++ [':']) = none)
    (rest : List Char) : splitOnce [':', ':'] (cs ++ ':' :: ':' :: rest) = some (cs, rest) := by
  induction cs with
  | nil =>
    have hne : [':', ':'] ≠ [] := List.cons_ne_nil _ _
    exact splitOnce_here hne
  | cons c cs ih =>
    rw [List.cons_append, splitOnce] at h
    split at h
    · cases h
    next hno =>
    have htail : splitOnce [':', ':'] (cs ++ [':']) = none := Option.map_eq_none_iff.mp h
    -- the two chars the pattern is compared with are the same ones
    have hno' : ¬[':', ':'].isPrefixOf (c :: (cs ++ ':' :: ':' :: rest)) = true := by
      cases cs with
      | nil | cons => simpa using hno
    rw [List.cons_append, splitOnce, if_neg hno', ih htail, Option.map_some]

theorem delimited_inj {s t x y : String} (hs : delimitable s = true) (ht : delimitable t = true)
    (h : s ++ "::" ++ x = t ++ "::" ++ y) : s = t ∧ x = y := by
  have hframe : ∀ {u v : String}, delimitable u = true →
      splitOnce [':', ':'] (u ++ "::" ++ v).toList = some (u.toList, v.toList) := by
    intro u v hu
    have := splitOnce_of_delimitable (Option.isNone_iff_eq_none.mp hu) v.toList
    simpa using this
  have heq : some (s.toList, x.toList) = some (t.toList, y.toList) := by
    rw [← hframe hs, h, hframe ht]
  obtain ⟨hst, hxy⟩ := Prod.mk.inj (Option.some.inj heq)
  exact ⟨String.toList_injective hst, String.toList_injective hxy⟩

end Cosmix.Lib.Framing
