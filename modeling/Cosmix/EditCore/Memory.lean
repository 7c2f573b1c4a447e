/- source: cosmix-edit-core/src/buffer.rs, text.rs
   digest: A refused call changes nothing, also when memory runs out; previews refuse as the calls do. -/

import Cosmix.EditCore.Undo

namespace Cosmix.EditCore

/-- What of the memory that a commit reserves is there. -/
structure Memory where
  /-- The bytes asked for and the error of the system, when the text cannot grow. -/
  text : Option (Nat × String)
  (lineIndex lineScratch opLog undoStack redoStack : Bool)

/-- The reservations of phase 1 for the text and its lines. -/
def Memory.prepare (m : Memory) : Except CoreError Unit :=
  match m.text with
  | some (bytes, error) => .error (oom s!"text commit of {bytes} bytes: {error}")
  | none =>
    if !m.lineIndex then .error (oom "line index")
    else if !m.lineScratch then .error (oom "line scratch")
    else .ok ()

def Memory.ample : Memory := ⟨none, true, true, true, true, true⟩

/-- Where a refusal comes from: cursor and limit on selecting origins, memory, or all else. -/
inductive Cause
  | cursor | memory | request
  deriving DecidableEq

abbrev Outcome (α : Type) := Buffer × Except (Cause × CoreError) α

namespace Buffer

variable (b : Buffer)

/-- The entry of a lane as it stands while its stacks are reserved. -/
def enterLane (lane : Origin) : Buffer :=
  { b with log := { b.log with lanes := b.log.lanes.insertIfNew lane Lane.empty } }

variable (m : Memory)

/-- `commitTxn` with the memory it needs and the buffer it leaves when it is refused. -/
def commitIn (b : Buffer) (items : List Resolved) (c : Commit) : Outcome Applied :=
  let seq := sequenceOf items
  match b.text.simulate seq with
  | .error e => (b, .error (.request, e))
  | .ok sim =>
    match b.placeCursor c seq sim.finalLines with
    | .error e => (b, .error (.cursor, e))
    | .ok cursor =>
      match b.text.prepare seq, m.prepare with
      | .error e, _ => (b, .error (.request, e))
      | .ok _, .error e => (b, .error (.memory, e))
      | .ok prepared, .ok () =>
        if !m.opLog then (b, .error (.memory, oom "op log"))
        else if !m.undoStack then (b.enterLane c.lane, .error (.memory, oom "undo stack"))
        else if !m.redoStack then (b.enterLane c.lane, .error (.memory, oom "redo stack"))
        else
          -- phase 2 writes the lane's entry, whether it was there before or not
          let r := b.record c (deletedOf b.text items) prepared cursor
          (r.1, .ok r.2)

def applyIn (b : Buffer) (req : TxnRequest) (origin : Origin) (via : Via) (nowMs : Nat) :
    Outcome Applied :=
  match b.resolveTxn req with
  | .error e => (b, .error (.request, e))
  | .ok items => b.commitIn m items (b.applyCommit req origin via nowMs)

def undoRedoIn (b : Buffer) (sel : LaneSel) (caller : Origin) (via : Via) (nowMs : Nat)
    (redo : Bool) (opId : Option OpId) : Outcome Applied :=
  match b.undoPlan sel caller redo with
  | .error e => (b, .error (.request, e))
  | .ok (lane, group, resolved) =>
    b.commitIn m resolved (undoCommit lane group caller via nowMs redo opId)

def reloadIn (b : Buffer) (newText : Str) (via : Via) (nowMs : Nat) : Outcome (Option Applied) :=
  match differing b.text newText with
  | none => (b, .ok none)
  | some item => (b.commitIn m [item] (reloadCommit via nowMs)).map id (·.map some)

/-- Peak growth of text and log text. -/
def costOf (items : List Resolved) : Except CoreError Nat := do
  let seq := sequenceOf items
  let sim ← b.text.simulate seq
  .ok (sim.peakLen - b.len + (seq.map fun e => e.insert.len + e.delete).sum)

def applyCost (req : TxnRequest) : Except CoreError Nat := do
  let items ← b.resolveTxn req
  b.costOf items

def undoCost (sel : LaneSel) (caller : Origin) (redo : Bool) : Except CoreError Nat := do
  let (_, _, resolved) ← b.undoPlan sel caller redo
  b.costOf resolved

/-- Two buffers that no caller can tell apart. A lane without groups may have an entry or not. -/
structure Same (b b' : Buffer) : Prop where
  text : b'.text = b.text
  rev : b'.rev = b.rev
  savedRev : b'.savedRev = b.savedRev
  entries : b'.log.entries = b.log.entries
  base : b'.log.base = b.log.base
  textBytes : b'.log.textBytes = b.log.textBytes
  groups : ∀ o, b'.log.lane o = b.log.lane o
  anchors : b'.anchors = b.anchors
  selections : b'.selections = b.selections

variable {m : Memory} {b : Buffer} {items : List Resolved} {c : Commit}

theorem Same.refl (b : Buffer) : Same b b :=
  ⟨rfl, rfl, rfl, rfl, rfl, rfl, fun _ => rfl, rfl, rfl⟩

theorem same_enterLane (lane : Origin) : Same b (b.enterLane lane) where
  __ := Same.refl b
  groups o := by
    rw [enterLane, OpLog.lane, OpLog.lane, Std.ExtTreeMap.getElem?_insertIfNew]
    split
    · rename_i hnew
      rw [← Std.LawfulEqCmp.eq_of_compare hnew.1, Std.ExtTreeMap.getElem?_eq_none hnew.2]
      rfl
    · rfl

/-- Where all memory is there the commit is the one without it. -/
theorem commitIn_ample : (b.commitIn .ample items c).2.mapError Prod.snd =
      (b.commitTxn items c).map Prod.snd ∧
    ∀ r, b.commitTxn items c = .ok r → (b.commitIn .ample items c).1 = r.1 := by
  unfold commitIn commitTxn
  dsimp only
  cases b.text.simulate (sequenceOf items) with
  | error => exact ⟨rfl, nofun⟩
  | ok sim =>
    simp only [bind, Except.bind]
    cases b.placeCursor c (sequenceOf items) sim.finalLines with
    | error => exact ⟨rfl, nofun⟩
    | ok =>
      cases b.text.prepare (sequenceOf items) with
      | error => exact ⟨rfl, nofun⟩
      | ok =>
        refine ⟨rfl, fun r hr => ?_⟩
        cases hr
        rfl

theorem commitIn_same : (∃ a, (b.commitIn m items c).2 = .ok a) ∨ Same b (b.commitIn m items c).1 := by
  unfold commitIn
  dsimp only
  split
  · exact .inr (.refl b)
  split
  · exact .inr (.refl b)
  split
  · exact .inr (.refl b)
  · exact .inr (.refl b)
  split
  · exact .inr (.refl b)
  split
  · exact .inr (same_enterLane c.lane)
  split
  · exact .inr (same_enterLane c.lane)
  · exact .inl ⟨_, rfl⟩

theorem costOf_error_iff {e : CoreError} :
    b.costOf items = .error e ↔ (b.commitIn m items c).2 = .error (.request, e) := by
  unfold costOf commitIn
  dsimp only
  cases hsim : b.text.simulate (sequenceOf items) with
  | error => simp [bind, Except.bind]
  | ok =>
    obtain ⟨p, hp⟩ := Text.prepare_of_simulate hsim
    simp only [bind, Except.bind, reduceCtorEq, false_iff, hp]
    split
    · simp
    split
    · simp_all
    · simp
    · split_ifs <;> simp

/-- A call that is not answered changes nothing a caller sees; previews refuse what calls refuse
before cursor and memory. -/
theorem refused_call_changes_nothing (m : Memory) (b : Buffer) :
    (∀ req origin via nowMs, ((∃ a, (b.applyIn m req origin via nowMs).2 = .ok a) ∨
        Same b (b.applyIn m req origin via nowMs).1) ∧
      ∀ e, b.applyCost req = .error e ↔
        (b.applyIn m req origin via nowMs).2 = .error (.request, e)) ∧
    (∀ sel caller via nowMs redo opId,
      ((∃ a, (b.undoRedoIn m sel caller via nowMs redo opId).2 = .ok a) ∨
        Same b (b.undoRedoIn m sel caller via nowMs redo opId).1) ∧
      ∀ e, b.undoCost sel caller redo = .error e ↔
        (b.undoRedoIn m sel caller via nowMs redo opId).2 = .error (.request, e)) ∧
    ∀ newText via nowMs, (∃ a, (b.reloadIn m newText via nowMs).2 = .ok a) ∨
      Same b (b.reloadIn m newText via nowMs).1 := by
  refine ⟨fun req origin via nowMs => ?_, fun sel caller via nowMs redo opId => ?_,
    fun newText via nowMs => ?_⟩
  · unfold applyIn applyCost
    cases b.resolveTxn req with
    | error => exact ⟨.inr (.refl b), fun e' => by simp [bind, Except.bind]⟩
    | ok => exact ⟨commitIn_same, fun e => costOf_error_iff⟩
  · unfold undoRedoIn undoCost
    cases b.undoPlan sel caller redo with
    | error => exact ⟨.inr (.refl b), fun e' => by simp [bind, Except.bind]⟩
    | ok => exact ⟨commitIn_same, fun e => costOf_error_iff⟩
  · unfold reloadIn
    cases differing b.text newText with
    | none => exact .inl ⟨none, rfl⟩
    | some item =>
      have hsame : (∃ a, (b.commitIn m [item] (reloadCommit via nowMs)).2 = .ok a) ∨ _ :=
        commitIn_same
      exact hsame.imp_left fun ⟨a, ha⟩ => ⟨some a, congrArg (Except.map some) ha⟩

end Buffer

end Cosmix.EditCore
