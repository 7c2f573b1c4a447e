/- source: cosmix-lib-bus/src/bus.rs
   digest: What the strict parser accepts reads back from its wire form. -/

import Cosmix.Bus.Message
import Cosmix.Lib.Maps

namespace Cosmix.Bus

open Cosmix.Lib.Text List

variable {wellFormed : String → Bool}

/-- A header that the strict parser can have taken from a line. -/
structure HeaderOk (wellFormed : String → Bool) (k v : String) : Prop where
  key : k.toList ≠ []
  solid : ∀ c ∈ k.toList, whitespace c = false
  trimmed : trim v.toList = v.toList
  oneLine : '\n' ∉ v.toList
  json : brokenJson wellFormed v.toList = false

@[simp] theorem ParseReport.isEmpty_skip (r : ParseReport) (l : List (Nat × String)) (x : Nat × String) :
    ({ r with skippedLines := l ++ [x] } : ParseReport).isEmpty = false := by
  simp [isEmpty]

@[simp] theorem ParseReport.isEmpty_broken (r : ParseReport) (l : List (String × String))
    (x : String × String) :
    ({ r with jsonParseErrors := l ++ [x] } : ParseReport).isEmpty = false := by
  simp [isEmpty]

variable {idx n : Nat} {ls : List (List Char)} {hs : Headers} {r : ParseReport} {m : BusMessage}

theorem parseHeaders_report (h : (parseHeaders wellFormed idx n ls hs r).2.isEmpty = true) :
    r.isEmpty = true := by
  induction ls generalizing idx n hs r with
  | nil => exact h
  | cons line ls ih =>
    rw [parseHeaders] at h
    split at h
    · exact ih h
    split at h
    · simp at h
    split at h <;> have hr := ih h
    · split at hr
      · simp at hr
      split at hr
      · simp at hr
      · exact hr
    · simp at hr

theorem parseHeaders_cons {line : List Char} (hnew : '\n' ∉ line)
    (h : (parseHeaders wellFormed idx n (line :: ls) hs r).2.isEmpty = true) :
    (line = [] ∧ parseHeaders wellFormed idx n (line :: ls) hs r =
      parseHeaders wellFormed (idx + 1) n ls hs r) ∨
    ∃ k v, HeaderOk wellFormed k v ∧ n < maxHeaders ∧ line ≠ [] ∧
      parseHeaders wellFormed idx n (line :: ls) hs r =
        parseHeaders wellFormed (idx + 1) (n + 1) ls (hs.insert k v) r := by
  rw [parseHeaders] at h ⊢
  split at h
  · next hline => exact .inl ⟨List.isEmpty_iff.mp hline, if_pos hline⟩
  next hline =>
  rw [if_neg hline]
  split at h
  · simp at h
  next hcount =>
  rw [if_neg hcount]
  split at h
  · next k v hsplit =>
    dsimp only at h ⊢
    have hreport := parseHeaders_report h
    have hjson : brokenJson wellFormed (trim v) = false := by
      refine eq_false_of_ne_true fun hb => ?_
      simp [hb] at hreport
    rw [hjson, if_neg Bool.false_ne_true] at hreport ⊢
    have hregular : irregular line (trim k) = false := by
      refine eq_false_of_ne_true fun hb => ?_
      simp [hb] at hreport
    rw [hregular]
    refine .inr ⟨String.ofList (trim k), String.ofList (trim v), ?_, Nat.lt_of_not_le hcount,
      fun hnil => hline (List.isEmpty_iff.mpr hnil), rfl⟩
    simp only [irregular, Bool.or_eq_false_iff, any_eq_false, Bool.not_eq_true] at hregular
    have hmem : ∀ c, c ∈ trim v → c ∈ line := by
      intro c hc
      rw [splitOnce_some hsplit]
      exact mem_append_right _ (mem_append_right _ (mem_of_mem_trim hc))
    constructor <;> rw [String.toList_ofList]
    · exact fun hnil => by rw [hnil] at hregular; cases hregular.1.2
    · exact hregular.2
    · exact trim_eq_self (fun _ => head?_trim) fun _ => getLast?_trimEnd
    · exact fun hc => hnew (hmem _ hc)
    · exact hjson
  · have hreport := parseHeaders_report h
    simp at hreport

/-- What an accepted header block is. -/
structure Accepted (wellFormed : String → Bool) (n : Nat) (ls : List (List Char))
    (hs hs' : Headers) : Prop where
  ok : ∀ k v, hs'[k]? = some v → hs[k]? = some v ∨ HeaderOk wellFormed k v
  size : hs'.size ≤ hs.size + (maxHeaders - n)
  grows : ∀ k, k ∈ hs → k ∈ hs'
  blank : (∀ l ∈ ls, l = []) → hs' = hs
  some : (∃ l ∈ ls, l ≠ []) → ∃ k, k ∈ hs'

theorem parseHeaders_accepted {hs' : Headers} {r' : ParseReport} (hnew : ∀ l ∈ ls, '\n' ∉ l)
    (h : parseHeaders wellFormed idx n ls hs r = (hs', r')) (hr' : r'.isEmpty = true) :
    Accepted wellFormed n ls hs hs' := by
  induction ls generalizing idx n hs r with
  | nil =>
    cases h
    exact ⟨fun k v hv => .inl hv, Nat.le_add_right _ _, fun _ hk => hk, fun _ => rfl,
      fun ⟨l, hl, _⟩ => by cases hl⟩
  | cons line ls ih =>
    obtain ⟨hfirst, hls⟩ := forall_mem_cons.mp hnew
    have hempty : (parseHeaders wellFormed idx n (line :: ls) hs r).2.isEmpty = true := by
      rw [h]
      exact hr'
    rcases parseHeaders_cons hfirst hempty with ⟨rfl, heq⟩ | ⟨k, v, hok, hn, hline, heq⟩ <;>
      have hrest := ih hls (heq.symm.trans h)
    · refine ⟨hrest.ok, hrest.size, hrest.grows, ?_, ?_⟩
      · exact fun hall => hrest.blank (forall_mem_cons.mp hall).2
      · rintro ⟨l, hl, hne⟩
        exact hrest.some ⟨l, mem_of_ne_of_mem hne hl, hne⟩
    · have hk : k ∈ hs' := hrest.grows k Std.ExtTreeMap.mem_insert_self
      refine ⟨?_, ?_, ?_, ?_, fun _ => ⟨k, hk⟩⟩
      · intro k' v' hv'
        rcases hrest.ok k' v' hv' with hins | hok'
        · rw [Lib.Maps.getElem?_insert_eq] at hins
          split at hins
          · next heq =>
            cases hins
            exact .inr (heq ▸ hok)
          · exact .inl hins
        · exact .inr hok'
      · have hsize := hrest.size
        have hone := Std.ExtTreeMap.size_insert_le (t := hs) (k := k) (v := v)
        omega
      · exact fun k' hk' => hrest.grows k' (Std.ExtTreeMap.mem_insert.mpr (.inr hk'))
      · exact fun hall => absurd (hall line mem_cons_self) hline

open BusMessage (headerLine)

theorem splitOnce_header {k : List Char} (hk : ' ' ∉ k) (v : List Char) :
    splitOnce [':', ' '] (k ++ ':' :: ' ' :: v) = some (k, v) := by
  induction k with
  | nil => exact splitOnce_here (show [':', ' '] ≠ [] by decide)
  | cons c k ih =>
    obtain ⟨-, hk'⟩ := not_or.mp (mt mem_cons.mpr hk)
    -- a blank can only follow the last colon
    have hno : ([':', ' '] : List Char).isPrefixOf (c :: (k ++ ':' :: ' ' :: v)) = false := by
      cases k with
      | nil => simp [List.isPrefixOf]
      | cons =>
        obtain ⟨hd, -⟩ := not_or.mp (mt mem_cons.mpr hk')
        simp [List.isPrefixOf, hd]
    rw [cons_append, splitOnce, hno, if_neg Bool.false_ne_true, ih hk', Option.map_some]

theorem colon_mem_headerLine (h : String × String) : ':' ∈ headerLine h := by simp [headerLine]

theorem headerLine_ne_nil (h : String × String) : headerLine h ≠ [] :=
  ne_nil_of_mem (colon_mem_headerLine h)

theorem headerLine_ne_marker (h : String × String) : headerLine h ≠ "---".toList := by
  intro heq
  have hmem := colon_mem_headerLine h
  rw [heq] at hmem
  revert hmem
  decide

section

variable {k v : String} (h : HeaderOk wellFormed k v)
include h

theorem HeaderOk.not_mem_of_whitespace {c : Char} (hc : whitespace c = true) : c ∉ k.toList :=
  fun hmem => by
    rw [h.solid c hmem] at hc
    cases hc

theorem HeaderOk.newline_not_mem : '\n' ∉ headerLine (k, v) :=
  not_mem_append (h.not_mem_of_whitespace rfl)
    (not_mem_cons_of_ne_of_not_mem (by decide)
      (not_mem_cons_of_ne_of_not_mem (by decide) h.oneLine))

theorem HeaderOk.getLast?_line : (headerLine (k, v)).getLast? ≠ some '\r' := by
  have hline : headerLine (k, v) = (k.toList ++ [':', ' ']) ++ v.toList := by
    simp [headerLine]
  intro hlast
  rw [hline, getLast?_append, getLast?_append] at hlast
  cases hv : v.toList.getLast? with
  | none =>
    rw [hv] at hlast
    cases hlast
  | some =>
    rw [hv] at hlast
    cases hlast
    have htrim : (trimEnd (v.toList.dropWhile whitespace)).getLast? = some '\r' := by
      rw [show trimEnd (v.toList.dropWhile whitespace) = v.toList from h.trimmed]
      exact hv
    exact absurd (getLast?_trimEnd htrim) (by decide)

theorem HeaderOk.parseHeaders_line {idx n : Nat} (hn : n < maxHeaders) (ls : List (List Char))
    (hs : Headers) (r : ParseReport) :
    parseHeaders wellFormed idx n (headerLine (k, v) :: ls) hs r =
      parseHeaders wellFormed (idx + 1) (n + 1) ls (hs.insert k v) r := by
  have hkey : trim k.toList = k.toList := by
    refine trim_eq_self (fun c hc => ?_) fun c hc => ?_
    · exact h.solid c (mem_of_mem_head? hc)
    · exact h.solid c (mem_of_getLast? hc)
  have hregular : irregular (headerLine (k, v)) k.toList = false := by
    have hhead : ∃ c cs, k.toList = c :: cs := exists_cons_of_ne_nil h.key
    obtain ⟨c, _, hc⟩ := hhead
    have hsolid : whitespace c = false := h.solid c (hc ▸ mem_cons_self)
    have hany : k.toList.any whitespace = false := by
      rw [any_eq_false]
      exact fun d hd => by rw [h.solid d hd]; exact Bool.false_ne_true
    simp only [irregular, hany]
    simp [headerLine, hc, hsolid]
  rw [parseHeaders, if_neg (by rw [List.isEmpty_iff]; exact headerLine_ne_nil _),
    if_neg (Nat.not_le_of_lt hn)]
  have hsplit : splitOnce [':', ' '] (headerLine (k, v)) = some (k.toList, v.toList) :=
    splitOnce_header (h.not_mem_of_whitespace rfl) _
  rw [hsplit]
  dsimp only
  rw [hkey, h.trimmed, hregular, h.json, if_neg Bool.false_ne_true, if_neg Bool.false_ne_true, String.ofList_toList, String.ofList_toList]

end

theorem parseHeaders_lines {l : List (String × String)} (hok : ∀ h ∈ l, HeaderOk wellFormed h.1 h.2)
    (hn : n + l.length ≤ maxHeaders) (hs : Headers) (r : ParseReport) :
    parseHeaders wellFormed idx n (l.map headerLine) hs r =
      (l.foldl (fun hs h => hs.insert h.1 h.2) hs, r) := by
  induction l generalizing idx n hs with
  | nil => rfl
  | cons h l ih =>
    rw [length_cons] at hn
    rw [map_cons, (hok h mem_cons_self).parseHeaders_line (by omega),
      ih (fun h' hh' => hok h' (mem_cons_of_mem _ hh')) (by omega), foldl_cons]

theorem foldl_insert_toList (hs : Headers) :
    hs.toList.foldl (fun acc h => acc.insert h.1 h.2) ∅ = hs := by
  rw [← Std.ExtTreeMap.ofList_eq_foldl]
  refine Std.ExtTreeMap.ext_getElem? fun k => ?_
  cases hk : hs[k]? with
  | some =>
    exact Std.ExtTreeMap.getElem?_ofList_of_mem Std.ReflCmp.compare_self
      Std.ExtTreeMap.distinct_keys_toList (Std.ExtTreeMap.mem_toList_iff_getElem?_eq_some.mpr hk)
  | none =>
    refine Std.ExtTreeMap.getElem?_ofList_of_contains_eq_false ?_
    rw [contains_eq_mem, decide_eq_false_iff_not]
    intro hmem
    obtain ⟨p, hp, hpk⟩ := mem_map.mp hmem
    have := Std.ExtTreeMap.mem_toList_iff_getElem?_eq_some.mp hp
    rw [hpk, hk] at this
    cases this

/-- A message that the strict parser can have returned. -/
structure Canonical (wellFormed : String → Bool) (m : BusMessage) : Prop where
  headers : ∀ k v, m.headers[k]? = some v → HeaderOk wellFormed k v
  size : m.headers.size ≤ maxHeaders
  body : trimEnd m.body.toList = m.body.toList

def bodyText (m : BusMessage) : List Char :=
  if m.body.isEmpty then []
  else m.body.toList ++ if m.body.toList.getLast? = some '\n' then [] else ['\n']

theorem Canonical.trimEnd_bodyText (h : Canonical wellFormed m) :
    trimEnd (bodyText m) = m.body.toList := by
  unfold bodyText
  split
  · next hempty =>
    rw [String.isEmpty_iff.mp hempty]
    rfl
  split
  · rw [append_nil, h.body]
  · rw [trimEnd, rdropWhile_concat_pos whitespace _ _ rfl]
    exact h.body

def afterOpening (m : BusMessage) : List Char :=
  (m.headers.toList.flatMap fun h => headerLine h ++ ['\n']) ++ ("---".toList ++ '\n' :: bodyText m)

theorem parseStrict_of_content {raw : String} {content : List Char}
    (h : stripPrefix "---\n".toList raw.toList = some content) :
    parseStrict wellFormed raw =
      let parsed := parseHeaders wellFormed 0 0 (lines (frame content).1) ∅ ⟨[], []⟩
      if parsed.2.isEmpty then .ok ⟨parsed.1, String.ofList (trimEnd (frame content).2)⟩
      else .error (.nonCompliant parsed.2) := by
  rw [parseStrict, parseLenient, h]

theorem stripPrefix_toWire (m : BusMessage) :
    stripPrefix "---\n".toList m.toWire.toList = some (afterOpening m) := by
  have hchars : m.toWire.toList = "---\n".toList ++ afterOpening m := by
    rw [BusMessage.toWire, BusMessage.toWireChars, afterOpening, bodyText]
    simp
  rw [hchars, stripPrefix, if_pos (List.isPrefixOf_iff_prefix.mpr ⟨_, rfl⟩), drop_left]

theorem Canonical.parseStrict_toWire (h : Canonical wellFormed m) (hne : m.headers.toList ≠ []) :
    parseStrict wellFormed m.toWire = .ok m := by
  have hok : ∀ p ∈ m.headers.toList, HeaderOk wellFormed p.1 p.2 := fun p hp =>
    h.headers p.1 p.2 (Std.ExtTreeMap.mem_toList_iff_getElem?_eq_some.mp hp)
  have hnew : ∀ l ∈ m.headers.toList.map headerLine, '\n' ∉ l :=
    forall_mem_map.mpr fun p hp => (hok p hp).newline_not_mem
  have hframe : frame (afterOpening m) =
      (joinLines (m.headers.toList.map headerLine), bodyText m) := by
    have hmarker : '\n' ∉ "---".toList := by decide
    have hsplit := splitOnce_framed hmarker (show m.headers.toList.map headerLine ≠ [] by
      simpa using hne) hnew (forall_mem_map.mpr fun p _ => headerLine_ne_marker p) (bodyText m)
    rw [flatMap_map] at hsplit
    rw [frame, show splitOnce separator (afterOpening m) = _ from hsplit]
  have hlines : lines (joinLines (m.headers.toList.map headerLine)) =
      m.headers.toList.map headerLine :=
    lines_joinLines hnew (forall_mem_map.mpr fun p hp => (hok p hp).getLast?_line)
      (forall_mem_map.mpr fun p _ => headerLine_ne_nil p)
  have hcount : 0 + m.headers.toList.length ≤ maxHeaders := by
    rw [Nat.zero_add, Std.ExtTreeMap.length_toList]
    exact h.size
  rw [parseStrict_of_content (stripPrefix_toWire m), hframe]
  simp only [hlines, parseHeaders_lines hok hcount, foldl_insert_toList, h.trimEnd_bodyText,
    String.ofList_toList]
  rfl

theorem lines_of_dashes {block rest : List Char} (h₁ : block <+: '-' :: '-' :: '-' :: '\n' :: rest)
    (hne : block ≠ []) : ∃ l ls, lines block = l :: ls ∧ l ≠ [] ∧ ':' ∉ l := by
  rcases block with _ | ⟨_, block⟩
  · exact absurd rfl hne
  obtain ⟨rfl, h₂⟩ := cons_prefix_cons.mp h₁
  rcases block with _ | ⟨_, block⟩
  · exact ⟨['-'], [], rfl, by decide, by decide⟩
  obtain ⟨rfl, h₃⟩ := cons_prefix_cons.mp h₂
  rcases block with _ | ⟨_, block⟩
  · exact ⟨['-', '-'], [], rfl, by decide, by decide⟩
  obtain ⟨rfl, h₄⟩ := cons_prefix_cons.mp h₃
  rcases block with _ | ⟨_, block⟩
  · exact ⟨['-', '-', '-'], [], rfl, by decide, by decide⟩
  obtain ⟨rfl, -⟩ := cons_prefix_cons.mp h₄
  have hline : '\n' ∉ ['-', '-', '-'] := by decide
  exact ⟨['-', '-', '-'], lines block, lines_cons hline block, by decide, by decide⟩

theorem stripSuffix_some {pat s h : List Char} (hs : stripSuffix pat s = some h) :
    h <+: s ∧ h.length = s.length - pat.length := by
  unfold stripSuffix at hs
  split at hs
  · cases hs
    refine ⟨List.take_prefix _ _, ?_⟩
    rw [length_take]
    omega
  · cases hs

theorem frame_prefix {content : List Char} (hlen : 5 < content.length)
    (hhead : content.head? ≠ some '\n') :
    (frame content).1 <+: content ∧ (frame content).1 ≠ [] := by
  unfold frame
  split
  · next hp =>
    have htext := splitOnce_some hp
    refine ⟨⟨_, htext.symm⟩, fun hnil => hhead ?_⟩
    rw [htext, hnil]
    rfl
  · have hstrip {pat h : List Char} (hs : stripSuffix pat content = some h)
        (hpat : pat.length ≤ 5) : h <+: content ∧ h ≠ [] := by
      obtain ⟨hpre, hl⟩ := stripSuffix_some hs
      refine ⟨hpre, ne_nil_of_length_pos ?_⟩
      omega
    rcases h₁ : stripSuffix separator content with _ | h
    rcases h₂ : stripSuffix "\n---".toList content with _ | h
    rcases h₃ : stripSuffix "---\n".toList content with _ | h
    rcases h₄ : stripSuffix "---".toList content with _ | h
    · exact ⟨prefix_refl _, ne_nil_of_length_pos (by show 0 < content.length; omega)⟩
    all_goals exact hstrip ‹_› (by decide)

theorem parseHeaders_no_colon {l : List Char} (hne : l ≠ []) (hcolon : ':' ∉ l)
    (ls : List (List Char)) (hs : Headers) (r : ParseReport) :
    (parseHeaders wellFormed 0 0 (l :: ls) hs r).2.isEmpty = false := by
  have hsplit : splitOnce [':', ' '] l = none := by
    have := splitOnce_skip [' '] hcolon []
    rwa [append_nil] at this
  rw [Bool.eq_false_iff]
  intro h
  rw [parseHeaders, if_neg (by rwa [List.isEmpty_iff]), hsplit] at h
  have := parseHeaders_report h
  rw [ParseReport.isEmpty_skip] at this
  cases this

theorem Canonical.getLast?_body (h : Canonical wellFormed m) :
    m.body.toList.getLast? ≠ some '\n' := by
  intro hlast
  rw [← h.body] at hlast
  exact absurd (getLast?_trimEnd hlast) (by decide)

/-- Without headers, the closing marker of a wire form is read as a header line. -/
theorem Canonical.parseStrict_headerless (h : Canonical wellFormed m)
    (hheaders : m.headers.toList = []) (hbody : m.body.isEmpty = false) :
    ∃ e, parseStrict wellFormed m.toWire = .error e := by
  have hlong : 1 < (bodyText m).length := by
    have hpos : 0 < m.body.toList.length := by
      rw [length_pos_iff]
      intro hnil
      rw [String.toList_eq_nil_iff.mp hnil] at hbody
      cases hbody
    rw [bodyText, hbody, if_neg Bool.false_ne_true, if_neg h.getLast?_body, length_append,
      length_singleton]
    omega
  have hlen : 5 < ('-' :: '-' :: '-' :: '\n' :: bodyText m).length := by
    simp only [length_cons]
    omega
  have hhead : ('-' :: '-' :: '-' :: '\n' :: bodyText m).head? ≠ some '\n' := by
    rw [head?_cons]
    decide
  obtain ⟨hpre, hblock⟩ := frame_prefix hlen hhead
  obtain ⟨l, ls, hlines, hne, hcolon⟩ := lines_of_dashes hpre hblock
  have hreport : (parseHeaders wellFormed 0 0 (l :: ls) ∅ ⟨[], []⟩).2.isEmpty = false :=
    parseHeaders_no_colon hne hcolon ls ∅ ⟨[], []⟩
  have hcontent : afterOpening m = '-' :: '-' :: '-' :: '\n' :: bodyText m := by
    rw [afterOpening, hheaders]
    rfl
  rw [parseStrict_of_content (stripPrefix_toWire m), hcontent, hlines]
  dsimp only
  rw [hreport]
  exact ⟨_, rfl⟩

theorem eq_empty_of_toList (h : hs.toList = []) : hs = ∅ := by
  have := foldl_insert_toList hs
  rw [h] at this
  exact this.symm

theorem parseStrict_empty (hheaders : m.headers.toList = []) (hbody : m.body.isEmpty = true) :
    parseStrict wellFormed m.toWire = .ok m := by
  obtain ⟨headers, body⟩ := m
  cases eq_empty_of_toList hheaders
  cases String.isEmpty_iff.mp hbody
  rfl

def headerless (raw : String) : Bool :=
  match stripPrefix "---\n".toList raw.toList with
  | none => false
  | some content =>
    match splitOnce separator content with
    | some (block, body) => (lines block).all List.isEmpty && body.any fun c => !whitespace c
    | none => false

theorem any_solid_iff (s : List Char) : (s.any fun c => !whitespace c) = true ↔ trimEnd s ≠ [] := by
  rw [trimEnd, Ne, rdropWhile_eq_nil_iff, any_eq_true]
  push Not
  exact exists_congr fun c => and_congr_right' (by simp)

theorem parseStrict_ok {raw : String} (h : parseStrict wellFormed raw = .ok m) :
    Canonical wellFormed m ∧
      (headerless raw = true ↔ m.headers.toList = [] ∧ m.body.isEmpty = false) := by
  cases hcontent : stripPrefix "---\n".toList raw.toList with
  | none =>
    rw [parseStrict, parseLenient, hcontent] at h
    cases h
  | some content =>
    rw [parseStrict_of_content hcontent] at h
    dsimp only at h
    split at h
    · next hreport =>
      cases h
      have hacc := parseHeaders_accepted (fun l (hl : l ∈ lines (frame content).1) =>
        newline_not_mem_linesFrom not_mem_nil hl) rfl hreport
      have hblank : (parseHeaders wellFormed 0 0 (lines (frame content).1) ∅ ⟨[], []⟩).1.toList =
          [] ↔ ∀ l ∈ lines (frame content).1, l = [] := by
        constructor
        · intro hnil l hl
          by_contra hne
          obtain ⟨k, hk⟩ := hacc.some ⟨l, hl, hne⟩
          rw [eq_empty_of_toList hnil] at hk
          exact Std.ExtTreeMap.not_mem_empty hk
        · intro hall
          rw [hacc.blank hall]
          rfl
      refine ⟨⟨fun k v hv => (hacc.ok k v hv).resolve_left (by simp), by simpa using hacc.size, ?_⟩,
        ?_⟩
      · rw [String.toList_ofList]
        exact rdropWhile_idempotent whitespace _
      · have hbody : (String.ofList (trimEnd (frame content).2)).isEmpty = false ↔
            trimEnd (frame content).2 ≠ [] := by
          rw [← Bool.not_eq_true, String.isEmpty_iff, ← String.toList_eq_nil_iff,
            String.toList_ofList]
        rw [hblank, hbody, headerless, hcontent]
        dsimp only
        cases hsplit : splitOnce separator content with
        | some p =>
          have hframe : frame content = p := by rw [frame, hsplit]
          rw [hframe, Bool.and_eq_true, any_solid_iff, all_eq_true]
          exact and_congr_left' (forall₂_congr fun l _ => List.isEmpty_iff)
        | none =>
          have hframe : (frame content).2 = [] := by rw [frame, hsplit]
          rw [hframe]
          exact iff_of_false Bool.false_ne_true fun hh => hh.2 rfl
    · cases h

/-- What the strict parser accepts reads back from its wire form, unless it is a body without header
lines. -/
theorem strict_wire_round_trip (wellFormed : String → Bool) (raw : String) (m : BusMessage)
    (h : parseStrict wellFormed raw = .ok m) :
    parseStrict wellFormed m.toWire = .ok m ↔ headerless raw = false := by
  obtain ⟨hm, hiff⟩ := parseStrict_ok h
  cases hraw : headerless raw with
  | true =>
    obtain ⟨hheaders, hbody⟩ := hiff.mp hraw
    obtain ⟨e, he⟩ := hm.parseStrict_headerless hheaders hbody
    rw [he]
    exact iff_of_false nofun nofun
  | false =>
    refine iff_of_true ?_ rfl
    by_cases hheaders : m.headers.toList = []
    · cases hbody : m.body.isEmpty with
      | true => exact parseStrict_empty hheaders hbody
      | false =>
        rw [hiff.mpr ⟨hheaders, hbody⟩] at hraw
        cases hraw
    · exact hm.parseStrict_toWire hheaders

private def greeting : BusMessage := ⟨(∅ : Headers).insert "command" "get", "hello"⟩

private theorem greeting_parsed :
    parseStrict (fun _ => true) "---\ncommand: get\n---\nhello" = .ok greeting := rfl

theorem strict_wire_round_trip_greeting :
    parseStrict (fun _ => true) greeting.toWire = .ok greeting :=
  (strict_wire_round_trip _ _ _ greeting_parsed).mpr rfl

/-- A body under an empty header line is accepted, and its wire form is not. -/
theorem headerless_body_lost :
    parseStrict (fun _ => true) "---\n\n---\nbody" = .ok ⟨∅, "body"⟩ ∧
      parseStrict (fun _ => true) (BusMessage.mk ∅ "body").toWire ≠ .ok ⟨∅, "body"⟩ := by
  refine ⟨rfl, ?_⟩
  have hm : Canonical (fun _ => true) ⟨∅, "body"⟩ := by
    refine ⟨fun k v hv => ?_, by decide, by decide⟩
    simp at hv
  obtain ⟨e, he⟩ := hm.parseStrict_headerless rfl rfl
  exact nofun

end Cosmix.Bus
