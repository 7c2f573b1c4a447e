/- source: cosmix-lib-bus/src/bus.rs
   digest: The slice of a rejected frame in its error; targets and their printed form. -/

import Cosmix.Bus.Message

namespace Cosmix.Bus

open Cosmix.Lib.Text List

variable (s : List Char)

def byteLen : Nat := (s.map Char.utf8Size).sum

/-- The slice up to a byte offset; none is the panic past the end or inside a char. -/
def sliceTo : List Char → Nat → Option (List Char)
  | _, 0 => some []
  | [], _ + 1 => none
  | c :: s, n + 1 =>
    if c.utf8Size ≤ n + 1 then (sliceTo s (n + 1 - c.utf8Size)).map (c :: ·) else none

def quoteLen : Nat := 40

/-- What the error of a rejected frame quotes. -/
def quotedStart (raw : String) : Option (List Char) :=
  sliceTo raw.toList (min (byteLen raw.toList) quoteLen)

section

variable (wellFormed : String → Bool)

/-- `parse_lenient` with its panics: only the quote is sliced at a byte offset of its own. -/
def tryParseLenient (raw : String) : Option (Except ParseError (BusMessage × ParseReport)) :=
  match parseLenient wellFormed raw with
  | .error e => (quotedStart raw).map fun _ => .error e
  | .ok r => some (.ok r)

def tryParseStrict (raw : String) : Option (Except ParseError BusMessage) :=
  (tryParseLenient wellFormed raw).map fun _ => parseStrict wellFormed raw

def tryParse (raw : String) : Option (Except ParseError BusMessage) :=
  (tryParseLenient wellFormed raw).map fun r => r.map Prod.fst

end

theorem byteLen_cons (c : Char) (s : List Char) : byteLen (c :: s) = c.utf8Size + byteLen s := by
  simp [byteLen]

theorem isSome_sliceTo (n : Nat) : (sliceTo s n).isSome ↔ ∃ a b, s = a ++ b ∧ byteLen a = n := by
  fun_induction sliceTo s n with
  | case1 s => exact iff_of_true rfl ⟨[], s, rfl, rfl⟩
  | case2 =>
    refine iff_of_false nofun ?_
    rintro ⟨a, b, h, hn⟩
    rw [(append_eq_nil_iff.mp h.symm).1] at hn
    cases hn
  | case3 c s n hle ih =>
    rw [Option.isSome_map, ih]
    constructor
    · rintro ⟨a, b, rfl, ha⟩
      exact ⟨c :: a, b, rfl, by rw [byteLen_cons, ha, Nat.add_sub_cancel' hle]⟩
    · rintro ⟨a, b, h, ha⟩
      cases a with
      | nil => cases ha
      | cons d a =>
        obtain ⟨rfl, rfl⟩ := cons.inj h
        rw [byteLen_cons] at ha
        exact ⟨a, b, rfl, by omega⟩
  | case4 =>
    refine iff_of_false nofun ?_
    rintro ⟨a, b, h, ha⟩
    cases a with
    | nil => cases ha
    | cons =>
      obtain ⟨rfl, -⟩ := cons.inj h
      rw [byteLen_cons] at ha
      omega

/-- The frame begins as a message, or the place where the quote ends lies between two chars. -/
def Quotable (raw : String) : Prop :=
  "---\n".toList <+: raw.toList ∨
    ∃ a b, raw.toList = a ++ b ∧ byteLen a = min (byteLen raw.toList) quoteLen

theorem isSome_tryParseLenient (wellFormed : String → Bool) (raw : String) :
    (tryParseLenient wellFormed raw).isSome ↔ Quotable raw := by
  unfold tryParseLenient parseLenient stripPrefix Quotable
  by_cases h : "---\n".toList.isPrefixOf raw.toList = true
  · rw [if_pos h]
    exact iff_of_true rfl (.inl (List.isPrefixOf_iff_prefix.mp h))
  · rw [if_neg h, or_iff_right (mt isPrefixOf_iff_prefix.mpr h)]
    simp only [Option.isSome_map]
    exact isSome_sliceTo _ _

/-- The parsers return on a frame just when it can be quoted. -/
theorem parsers_return_iff (wellFormed : String → Bool) (raw : String) :
    ((tryParseLenient wellFormed raw).isSome ↔ Quotable raw) ∧
      ((tryParse wellFormed raw).isSome ↔ Quotable raw) ∧
      ((tryParseStrict wellFormed raw).isSome ↔ Quotable raw) := by
  have h := isSome_tryParseLenient wellFormed raw
  exact ⟨h, by rw [tryParse, Option.isSome_map, h], by rw [tryParseStrict, Option.isSome_map, h]⟩

/-- The last char of this frame has its 40th and 41st byte. -/
theorem rejected_frame_panics :
    tryParseLenient (fun _ => true) (String.ofList (replicate 39 'a' ++ ['é'])) = none := by
  rfl

structure BusAddress where
  (sub service : Option (List Char))
  node : List Char
  deriving DecidableEq

inductive BusTarget
  | onMesh (address : BusAddress)
  | crossMesh (address : BusAddress) (meshFqdn : List Char)
  deriving DecidableEq

def maxLabelLen : Nat := 63
def maxAddressLen : Nat := 253

def isLabelChar (c : Char) : Bool := ('a' ≤ c && c ≤ 'z') || ('0' ≤ c && c ≤ '9') || c == '-'

def isValidLabel (label : List Char) : Bool :=
  !label.isEmpty && byteLen label ≤ maxLabelLen && label.head? != some '-' &&
    label.getLast? != some '-' && label.all isLabelChar

def busSuffix : List Char := ['.', 'b', 'u', 's']

/-- The address that labels name, the single one only with the suffix. -/
def BusAddress.ofParts : List (List Char) → Bool → Option BusAddress
  | [node], true => some ⟨none, none, node⟩
  | [service, node], _ => some ⟨none, some service, node⟩
  | [sub, service, node], _ => some ⟨some sub, some service, node⟩
  | _, _ => none

def parseLocal : Option BusAddress :=
  if s.isEmpty || s.contains '@' then none
  else
    let (stem, hadBusSuffix) := match stripSuffix busSuffix s with
      | some stripped => (stripped, true)
      | none => (s, false)
    let parts := stem.splitOn '.'
    if stem.isEmpty || parts.any isEmpty || parts.length > 3 || !parts.all isValidLabel then none
    else BusAddress.ofParts parts hadBusSuffix

def validateMeshFqdn (fqdn : List Char) : Option (List Char) :=
  if fqdn.isEmpty || byteLen fqdn > maxAddressLen then none
  else if !fqdn.contains '.' || fqdn.getLast? == some '.' then none
  else if (fqdn.splitOn '.').all fun label =>
    isValidLabel label && !(['x', 'n', '-', '-'].isPrefixOf label) then some fqdn
  else none

def parseParts : Option BusTarget :=
  match splitOnce ['@'] s with
  | some (l, r) =>
    if r.contains '@' || r.isEmpty || l.isEmpty then none
    else do
      let address ← parseLocal l
      let fqdn ← validateMeshFqdn r
      some (.crossMesh address fqdn)
  | none => (parseLocal s).map .onMesh

def BusTarget.parse : Option BusTarget :=
  if s.isEmpty || byteLen s > maxAddressLen then none else parseParts s

def BusAddress.display (a : BusAddress) : List Char :=
  (a.sub.map (· ++ ['.'])).getD [] ++ ((a.service.map (· ++ ['.'])).getD [] ++ (a.node ++ busSuffix))

def BusTarget.display : BusTarget → List Char
  | .onMesh a => a.display
  | .crossMesh a fqdn => a.display ++ ('@' :: fqdn)

theorem isValidLabel_mem {label : List Char} (h : isValidLabel label = true) {c : Char}
    (hc : c ∈ label) : c ≠ '.' ∧ c ≠ '@' := by
  simp only [isValidLabel, Bool.and_eq_true] at h
  have := all_eq_true.mp h.2 c hc
  constructor <;> rintro rfl <;> exact absurd this (by decide)

def BusAddress.labels (a : BusAddress) : List (List Char) :=
  a.sub.toList ++ (a.service.toList ++ [a.node])

structure BusAddress.Valid (a : BusAddress) : Prop where
  labels : ∀ l ∈ a.labels, isValidLabel l = true
  service : a.sub.isSome → a.service.isSome

theorem BusAddress.display_eq (a : BusAddress) :
    a.display = ['.'].intercalate a.labels ++ busSuffix := by
  obtain ⟨sub, service, _⟩ := a
  cases sub <;> cases service <;> simp [display, labels, intercalate, intersperse]

variable {a : BusAddress} {s : List Char}

theorem valid_of_parseLocal (h : parseLocal s = some a) : a.Valid := by
  unfold parseLocal at h
  dsimp only at h
  split_ifs at h with hempty hparts
  simp only [Bool.or_eq_true, not_or, Bool.not_eq_true, Bool.not_eq_false'] at hparts
  have hall := all_eq_true.mp hparts.2
  unfold BusAddress.ofParts at h
  split at h
  all_goals
    cases h
  · exact ⟨by simpa [BusAddress.labels, ‹_ = [_]›] using hall, nofun⟩
  · exact ⟨by simpa [BusAddress.labels, ‹_ = [_, _]›] using hall, nofun⟩
  · exact ⟨by simpa [BusAddress.labels, ‹_ = [_, _, _]›] using hall, fun _ => rfl⟩

theorem stripSuffix_append (pat s : List Char) : stripSuffix pat (s ++ pat) = some s := by
  rw [stripSuffix, if_pos (isSuffixOf_iff_suffix.mpr (suffix_append s pat)),
    length_append, Nat.add_sub_cancel, take_left]

theorem BusAddress.Valid.at_not_mem (h : a.Valid) : '@' ∉ a.display := by
  have hlabel := fun l hl hc => (isValidLabel_mem (h.labels l hl) hc).2 rfl
  obtain ⟨sub, service, node⟩ := a
  cases sub <;> cases service <;>
    simp_all [BusAddress.labels, BusAddress.display, busSuffix]

theorem parseLocal_display (h : a.Valid) : parseLocal a.display = some a := by
  have hsplit : (['.'].intercalate a.labels).splitOn '.' = a.labels :=
    splitOn_intercalate '.' (fun l hl hc => (isValidLabel_mem (h.labels l hl) hc).1 rfl)
      (by simp [BusAddress.labels])
  have hparts : [] ∉ a.labels := fun hl => absurd (h.labels [] hl) (by decide)
  have hstem : ['.'].intercalate a.labels ≠ [] := by
    intro hnil
    rw [hnil] at hsplit
    exact hparts (by simp [← hsplit])
  have hlength : a.labels.length ≤ 3 := by
    obtain ⟨sub, service, node⟩ := a
    cases sub <;> cases service <;> simp [BusAddress.labels]
  have hne : a.display ≠ [] := by simp [a.display_eq, busSuffix]
  unfold parseLocal
  rw [if_neg (by simp [h.at_not_mem, hne]), a.display_eq, stripSuffix_append]
  dsimp only
  rw [hsplit, if_neg (by simpa [hstem, hlength, all_eq_true.mpr h.labels] using hparts)]
  obtain ⟨sub, service, node⟩ := a
  cases sub <;> cases service
  case some.none => exact absurd (h.service rfl) (by simp)
  all_goals rfl

theorem splitOnce_at {l : List Char} (h : '@' ∉ l) (r : List Char) :
    splitOnce ['@'] (l ++ '@' :: r) = some (l, r) := by
  have hhere : splitOnce ['@'] ('@' :: r) = some ([], r) :=
    splitOnce_here (cons_ne_nil '@' [])
  rw [splitOnce_skip [] h, hhere, Option.map_some, append_nil]

/-- What the parser makes of a text, its limit apart, it makes of the printed form too. -/
theorem parseParts_display {t : BusTarget} (h : parseParts s = some t) :
    parseParts t.display = some t := by
  unfold parseParts at h
  split at h
  · split_ifs at h with hat
    obtain ⟨a, ha, h⟩ := Option.bind_eq_some_iff.mp h
    obtain ⟨fqdn, hfqdn, h⟩ := Option.bind_eq_some_iff.mp h
    cases h
    unfold validateMeshFqdn at hfqdn
    split_ifs at hfqdn
    have hvalid := valid_of_parseLocal ha
    have hne : a.display ≠ [] := by simp [a.display_eq, busSuffix]
    rw [BusTarget.display, parseParts, splitOnce_at hvalid.at_not_mem]
    simp_all [parseLocal_display hvalid]
  · obtain ⟨a, ha, rfl⟩ := Option.map_eq_some_iff.mp h
    have hvalid := valid_of_parseLocal ha
    have hnone := splitOnce_skip [] hvalid.at_not_mem []
    rw [append_nil] at hnone
    rw [BusTarget.display, parseParts, hnone, parseLocal_display hvalid]
    rfl

/-- A parsed target reads back from its printed form exactly when that is within the limit, and no
other target has the form. -/
theorem target_reads_back_iff {t : BusTarget} (h : BusTarget.parse s = some t) :
    (BusTarget.parse t.display = some t ↔ byteLen t.display ≤ maxAddressLen) ∧
      ∀ s' t', BusTarget.parse s' = some t' → t.display = t'.display → t = t' := by
  have hparts : ∀ {s t}, BusTarget.parse s = some t → parseParts t.display = some t := by
    intro s t h
    unfold BusTarget.parse at h
    split_ifs at h
    exact parseParts_display h
  have hne : t.display.isEmpty = false := by
    cases t <;> simp [BusTarget.display, BusAddress.display_eq, busSuffix]
  refine ⟨?_, fun s' t' h' heq => ?_⟩
  · rw [BusTarget.parse, hparts h, hne]
    simp
  · have hsame := hparts h
    rw [heq, hparts h'] at hsame
    exact (Option.some.inj hsame).symm

/-- A node and a service named as the suffix. -/
theorem target_reads_back_iff_bus :
    BusTarget.parse "bus.bus".toList = some (.onMesh ⟨none, none, "bus".toList⟩) ∧
      BusTarget.parse (BusTarget.onMesh ⟨none, none, "bus".toList⟩).display =
        some (.onMesh ⟨none, none, "bus".toList⟩) := by
  have h : BusTarget.parse "bus.bus".toList = some (.onMesh ⟨none, none, "bus".toList⟩) := by
    decide +kernel
  exact ⟨h, (target_reads_back_iff h).1.mpr (by decide +kernel)⟩

/-- A target of 253 bytes, without the suffix that its printed form has. -/
theorem long_target_does_not_read_back :
    let label := replicate 63 'a'
    let fqdn := label ++ '.' :: (label ++ '.' :: (label ++ '.' :: replicate 57 'a'))
    let t := BusTarget.crossMesh ⟨none, some ['a'], ['b']⟩ fqdn
    BusTarget.parse ("a.b@".toList ++ fqdn) = some t ∧ BusTarget.parse t.display = none := by
  decide +kernel

end Cosmix.Bus
