/- source: maild/src/smtp/delivery.rs, maild/src/smtp/session.rs
   digest: A message written after the 354 reply and read back gains an empty line. -/

import Cosmix.Maild.Smtp

namespace Cosmix.Maild.Smtp

open Lib List

def dotStuffed (piece : Bytes) : Bytes :=
  (if piece.head? = some 46 then [46] else []) ++ piece ++
    (if piece.getLast? = some 13 then [] else [13]) ++ [10]

/-- What `deliver_message` writes after the 354 reply. -/
def dataWritten (data : Bytes) : Bytes := (data.splitOn 10).flatMap dotStuffed ++ [46, 13, 10]

def crlfLines (lines : List Bytes) : Bytes := lines.flatMap (· ++ [13, 10])

/-- The text of a line that is short and has no end of line in it. -/
structure LineText (line : Bytes) : Prop where
  cr : 13 ∉ line
  lf : 10 ∉ line
  short : line.length < 1000000

variable {t : Texts} {port : Port} {s : Session} {line : Bytes} {lines : List Bytes}

/-- The data ends at the last line that is written for a message, and what arrived is handed over. -/
def Delivered (t : Texts) (port : Port) (s : Session) (env : Nat → Env) (data arrived : Bytes) :
    Prop :=
  ∃ read last, script env (dataWritten data) = read ++ [last] ∧ Unended port read ∧
    isTerminator port last.1 = true ∧ s.after t port read = { s with mode := .data arrived false } ∧
    (s.after t port read).receive t port last.2 last.1 =
      ({ s.resetTransaction with mode := .command }, s.handOver last.2 arrived)

def wire (line : Bytes) : Bytes := (if line.head? = some 46 then [46] else []) ++ line ++ [13]

theorem dotStuffed_concat (line : Bytes) : dotStuffed (line ++ [13]) = wire line ++ [10] := by
  rw [dotStuffed, getLast?_concat, if_pos rfl, wire]
  cases line <;> simp

theorem unstuffed_wire (line : Bytes) : unstuffed (wire line ++ [10]) = line ++ [13, 10] := by
  cases line with
  | nil => rfl
  | cons b rest => by_cases hb : b = 46 <;> simp [wire, unstuffed, hb]

theorem wire_unended (port : Port) (line : Bytes) : isTerminator port (wire line ++ [10]) = false := by
  cases line with
  | nil => simp [wire, isTerminator]
  | cons b rest => by_cases hb : b = 46 <;> simp [wire, isTerminator, hb]

namespace LineText

variable (h : LineText line)
include h

theorem strict : dataLineCrlfStrict (wire line ++ [10]) = true := by
  have hbody : 13 ∉ (line.reverse ++ (if line.head? = some 46 then [46] else []).reverse : Bytes) := by
    split <;> simp [h.cr]
  rw [dataLineCrlfStrict, wire, reverse_append, reverse_append, reverse_append]
  simpa using hbody

theorem wire_shape : 10 ∉ wire line ∧ (wire line).length ≤ 1024 * 1024 := by
  have hlf := h.lf
  have hshort := h.short
  rw [wire]
  split
  all_goals
    simp [hlf]
    omega

end LineText

theorem readLines_line {body : Bytes} (hlf : 10 ∉ body) (buf rest : Bytes)
    (hshort : buf.length + body.length ≤ 1024 * 1024) :
    readLines buf (body ++ 10 :: rest) = (buf ++ body ++ [10]) :: readLines [] rest := by
  induction body generalizing buf with
  | nil => simp [readLines]
  | cons b body ih =>
    rw [mem_cons, not_or] at hlf
    rw [length_cons] at hshort
    rw [cons_append, readLines, if_neg (Ne.symm hlf.1), if_neg (by omega),
      ih hlf.2 _ (by simp only [length_append, length_singleton]; omega), append_assoc buf]
    rfl

theorem readLines_written (h : ∀ line ∈ lines, LineText line) :
    readLines [] (lines.flatMap (fun line => wire line ++ [10]) ++ [46, 13, 10]) =
      lines.map (fun line => wire line ++ [10]) ++ [[46, 13, 10]] := by
  induction lines with
  | nil => decide +kernel
  | cons line lines ih =>
    rw [forall_mem_cons] at h
    obtain ⟨hlf, hshort⟩ := h.1.wire_shape
    rw [flatMap_cons, append_assoc, append_assoc, singleton_append,
      readLines_line hlf [] _ (by simpa using hshort), ih h.2]
    rfl

/-- Splitting leaves an empty piece behind the last line, and it is written as a line too. -/
theorem dataWritten_crlfLines (h : ∀ line ∈ lines, LineText line) : dataWritten (crlfLines lines) =
      (lines ++ [[]]).flatMap (fun line => wire line ++ [10]) ++ [46, 13, 10] := by
  have hsplit : (crlfLines lines).splitOn 10 = lines.map (· ++ [13]) ++ [[]] := by
    induction lines with
    | nil => rfl
    | cons line lines ih =>
      rw [forall_mem_cons] at h
      have hlf : 10 ∉ line ++ [13] := by simp [h.1.lf]
      have hcons : crlfLines (line :: lines) = (line ++ [13]) ++ 10 :: crlfLines lines := by
        simp [crlfLines]
      rw [hcons, splitOn_append_cons_self_of_not_mem hlf, ih h.2]
      rfl
  rw [dataWritten, hsplit, flatMap_append, flatMap_append, flatMap_map]
  simp only [dotStuffed_concat]
  rfl

theorem after_strict {read : List (Bytes × Env)} (hmode : s.mode = .data [] false)
    (hopen : Unended port read) (hstrict : ∀ x ∈ read, dataLineCrlfStrict x.1 = true)
    (hfits : (read.flatMap fun x => unstuffed x.1).length ≤ port.maxMessageSize) :
    s.after t port read = { s with mode := .data (read.flatMap fun x => unstuffed x.1) false } := by
  induction read using reverseRecOn with
  | nil =>
    rw [flatMap_nil, ← hmode]
    rfl
  | append_singleton read x ih =>
    rw [flatMap_append, flatMap_singleton] at hfits ⊢
    have hbefore := ih (fun y hy => hopen y (mem_append_left _ hy))
      (fun y hy => hstrict y (mem_append_left _ hy))
      (Nat.le_trans (sublist_append_left _ _).length_le hfits)
    rw [Session.after_snoc, hbefore]
    refine (congrArg Prod.fst
      (Session.receiveData_fits _ x.2 _ false (hopen x mem_concat_self) hfits)).trans ?_
    rw [hstrict x mem_concat_self, Bool.not_true, Bool.and_false]
    rfl

theorem Delivered.unique {env : Nat → Env} {data a b : Bytes} (ha : Delivered t port s env data a)
    (hb : Delivered t port s env data b) : a = b := by
  obtain ⟨_, _, hread, -, -, ha, -⟩ := ha
  obtain ⟨_, _, hread', -, -, hb, -⟩ := hb
  obtain ⟨rfl, -⟩ := append_inj' (hread.symm.trans hread') rfl
  have hmode := congrArg Session.mode (ha.symm.trans hb)
  exact (Mode.data.inj hmode).1

variable (t) (env : Nat → Env)

theorem delivered_append (hmode : s.mode = .data [] false) (hlines : ∀ line ∈ lines, LineText line)
    (hsize : (crlfLines lines).length + 4 ≤ port.maxMessageSize) :
    Delivered t port s env (crlfLines lines) (crlfLines lines ++ [13, 10]) := by
  have hall : ∀ line ∈ lines ++ [[]], LineText line := by
    rw [forall_mem_append, forall_mem_singleton]
    exact ⟨hlines, not_mem_nil, not_mem_nil, Nat.zero_lt_succ _⟩
  set written := (lines ++ [[]]).map fun line => wire line ++ [10] with hwritten
  set read := written.zipIdx.map fun x => (x.1, env x.2) with hread
  have hfst : read.map Prod.fst = written := by simp [hread, Function.comp_def]
  have hmem : ∀ x ∈ read, ∃ line ∈ lines ++ [[]], wire line ++ [10] = x.1 := fun x hx =>
    mem_map.mp (hwritten ▸ hfst ▸ mem_map_of_mem hx)
  have hopen : Unended port read := fun x hx => by
    obtain ⟨line, -, heq⟩ := hmem x hx
    rw [← heq, wire_unended]
  have hdata : (read.flatMap fun x => unstuffed x.1) = crlfLines lines ++ [13, 10] := by
    rw [← flatMap_map Prod.fst unstuffed, hfst, hwritten, flatMap_map]
    simp only [unstuffed_wire, flatMap_append, crlfLines]
    rfl
  have hafter : s.after t port read =
      { s with mode := .data (crlfLines lines ++ [13, 10]) false } := by
    rw [← hdata]
    refine after_strict hmode hopen (fun x hx => ?_) ?_
    · obtain ⟨line, hline, heq⟩ := hmem x hx
      rw [← heq, (hall line hline).strict]
    · rw [hdata, length_append]
      exact Nat.le_trans (Nat.add_le_add_left (by decide) _) hsize
  refine ⟨read, ([46, 13, 10], env written.length), ?_, hopen, rfl, hafter, ?_⟩
  · rw [script, dataWritten_crlfLines hlines, readLines_written hall, zipIdx_append, map_append,
      Nat.zero_add]
    rfl
  · rw [hafter]
    rfl

/-- A message of lines never arrives as it was: an empty line more is handed over. -/
theorem delivered_message_longer (t : Texts) (port : Port) (s : Session) (env : Nat → Env)
    (lines : List Bytes) (hmode : s.mode = .data [] false) (hlines : ∀ line ∈ lines, LineText line)
    (hsize : (crlfLines lines).length + 4 ≤ port.maxMessageSize) :
    ¬Delivered t port s env (crlfLines lines) (crlfLines lines) ∧
      Delivered t port s env (crlfLines lines) (crlfLines lines ++ [13, 10]) := by
  have hlonger := delivered_append t env hmode hlines hsize
  exact ⟨fun hsame => cons_ne_nil _ _ (append_right_eq_self.mp (hlonger.unique hsame)), hlonger⟩

private def opened : Session :=
  { Session.new true with
    mailFrom := some "ann@here".toList, rcptTo := ["bob@there".toList], mode := .data [] false }

theorem delivered_dot_longer :
    ¬Delivered ascii submission opened (fun _ => agreeable) (crlfLines [[46]]) (crlfLines [[46]]) :=
  (delivered_message_longer ascii submission opened (fun _ => agreeable) [[46]] rfl
    (forall_mem_singleton.mpr ⟨by decide, by decide, by decide⟩) (by decide)).1

theorem delivered_empty_message :
    opened.mode = .data [] false ∧ (crlfLines []).length + 4 ≤ submission.maxMessageSize ∧
      ¬Delivered ascii submission opened (fun _ => agreeable) (crlfLines []) (crlfLines []) := by
  have hline : Delivered ascii submission opened (fun _ => agreeable) (crlfLines []) [13, 10] :=
    delivered_append ascii (fun _ => agreeable) rfl nofun (by decide)
  exact ⟨rfl, by decide, fun hsame => cons_ne_nil _ _ (hline.unique hsame)⟩

end Cosmix.Maild.Smtp
