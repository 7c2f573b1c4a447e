/- source: cosmix-edit-core/src/history.rs, cosmix-editd/src/actor.rs
   digest: Replies to `edit.history`; a reader that follows them has the texts of the buffer. -/

import Cosmix.EditCore.RebaseBoundary

namespace Cosmix.EditCore

open List

def historyEntryTextMax : Nat := 64 * 1024

/-- An entry as it is shown: the edits of a large one are elided. -/
structure HistoryEntryW where
  rev : Nat
  (origin lane : Origin)
  kind : EntryKind
  opId : Option OpId
  timeMs : Nat
  via : Via
  edits : Option (List Edit)
  textBytes : Nat

def LogEntry.shown (e : LogEntry) : HistoryEntryW :=
  ⟨e.rev, e.origin, e.lane, e.kind, e.opId, e.timeMs, e.via,
    if entryTextBytes e > historyEntryTextMax then none else some e.edits, entryTextBytes e⟩

def OpLog.since (log : OpLog) (sinceRev limit : Nat) : List LogEntry :=
  (log.after sinceRev).take limit

namespace Buffer

def history (b : Buffer) (sinceRev limit : Nat) : List LogEntry := b.log.since sinceRev limit

variable (encodedLen : HistoryEntryW → Nat)

end Buffer
end Cosmix.EditCore
