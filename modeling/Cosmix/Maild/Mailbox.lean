/- source: maild/src/imap/op/{select,fetch,store,copy,mv,expunge,idle}.rs, maild/src/imap/session.rs,
     maild/src/imap/seq.rs, maild/src/mailstore/mod.rs, cosmix-mds/src/notifier.rs
   digest: One mailbox shared by sessions, what each client has been told, and what a number stands for. -/

import Cosmix.Lib.Maps
import Mathlib.Data.List.Destutter
import Cosmix.Lib.Machine
import Mathlib.Data.Finset.Card

namespace Cosmix.Maild

open Cosmix.Lib

abbrev ItemId := Nat

inductive Endpoint where
  | number (n : Nat)
  | star
  deriving DecidableEq

inductive Element where
  | single (e : Endpoint)
  | range (lower upper : Endpoint)
  deriving DecidableEq

structure SeqSet where
  elements : List Element
  deriving DecidableEq

def Endpoint.resolve (largest : Nat) : Endpoint → Nat
  | .number n => n
  | .star => largest

/-- The numbers of an element that the mailbox has; none when it lies wholly above them. -/
def elementEndpointsMsn (el : Element) (total : Nat) : Option (Nat × Nat) :=
  let (a, b) := match el with
    | .single e => (e.resolve total, e.resolve total)
    | .range lower upper => (lower.resolve total, upper.resolve total)
  let (lo, hi) := if a ≤ b then (a, b) else (b, a)
  if total < lo then none else some (max lo 1, min hi total)

/-- The range of UIDs of an element. A range with a star always has the largest UID. -/
def elementEndpointsUid (el : Element) (largest : Nat) : Nat × Nat :=
  match el with
  | .single e => (e.resolve largest, e.resolve largest)
  | .range lower upper =>
    let a := lower.resolve largest
    let b := upper.resolve largest
    let (lo, hi) := if a ≤ b then (a, b) else (b, a)
    if lower = .star ∨ upper = .star then (min lo largest, max hi largest) else (lo, hi)

structure Resolved where
  (msn uid : Nat)
  itemId : ItemId
  deriving DecidableEq

/-- Entries in ascending order of their UIDs: the entry at an index has the next number. -/
structure SequenceMap where
  entries : List (Nat × ItemId)

def SequenceMap.fromEntries (entries : List (Nat × ItemId)) : SequenceMap :=
  ⟨(sortByKey Prod.fst entries).destutter fun a b => a.1 ≠ b.1⟩

def insertHit (r : Resolved) : List Resolved → List Resolved
  | [] => [r]
  | h :: hits =>
    if r.msn < h.msn then r :: h :: hits
    else if r.msn = h.msn then r :: hits
    else h :: insertHit r hits

namespace SequenceMap

variable (m : SequenceMap)

def hitAt (hits : List Resolved) (msn : Nat) : List Resolved :=
  match m.entries[msn - 1]? with
  | some (uid, itemId) => insertHit ⟨msn, uid, itemId⟩ hits
  | none => hits

def resolveMsn (set : SeqSet) : List Resolved :=
  set.elements.foldl (fun hits el =>
    match elementEndpointsMsn el m.entries.length with
    | none => hits
    | some (a, b) => (List.range' a (b + 1 - a)).foldl m.hitAt hits) []

def resolveUid (set : SeqSet) (uidNext : Nat) : List Resolved :=
  let largest := (m.entries.getLast?.map Prod.fst).getD (uidNext - 1)
  set.elements.foldl (fun hits el =>
    let (lo, hi) := elementEndpointsUid el largest
    if hi < lo then hits
    else m.entries.zipIdx.foldl (fun hits x =>
      if lo ≤ x.1.1 ∧ x.1.1 ≤ hi then insertHit ⟨x.2 + 1, x.1.1, x.1.2⟩ hits else hits) hits) []

end SequenceMap

structure RowOf (entries : List (Nat × ItemId)) (r : Resolved) : Prop where
  pos : 1 ≤ r.msn
  entry : entries[r.msn - 1]? = some (r.uid, r.itemId)

/-- Rows of the entries, each number once and in ascending order. -/
structure Hits (entries : List (Nat × ItemId)) (hits : List Resolved) : Prop where
  rows : ∀ r ∈ hits, RowOf entries r
  ascending : hits.Pairwise fun a b => a.msn < b.msn

section

variable {entries : List (Nat × ItemId)} {r x : Resolved} {hits : List Resolved}

theorem mem_insertHit (h : x ∈ insertHit r hits) : x = r ∨ x ∈ hits := by
  induction hits with
  | nil => exact .inl (List.mem_singleton.mp h)
  | cons =>
    rw [insertHit] at h
    split_ifs at h <;> grind

theorem Hits.insert (h : Hits entries hits) (hr : RowOf entries r) :
    Hits entries (insertHit r hits) := by
  refine ⟨fun x hx => (mem_insertHit hx).elim (fun e => e ▸ hr) (h.rows x), ?_⟩
  obtain ⟨-, hasc⟩ := h
  induction hits with
  | nil => exact List.pairwise_singleton _ _
  | cons y hits ih =>
    obtain ⟨hy, hrest⟩ := List.pairwise_cons.mp hasc
    rw [insertHit]
    split_ifs with hlt heq
    · refine List.pairwise_cons.mpr ⟨fun x hx => ?_, hasc⟩
      obtain rfl | hx := List.mem_cons.mp hx
      · exact hlt
      · exact hlt.trans (hy x hx)
    · exact List.pairwise_cons.mpr ⟨fun x hx => heq ▸ hy x hx, hrest⟩
    · refine List.pairwise_cons.mpr ⟨fun x hx => ?_, ih hrest⟩
      obtain rfl | hx := mem_insertHit hx
      · omega
      · exact hy x hx

theorem hits_nil : Hits entries [] := ⟨nofun, .nil⟩

variable {m : SequenceMap} {set : SeqSet}

theorem resolveMsn_hits : Hits m.entries (m.resolveMsn set) := by
  refine List.foldlRecOn _ _ hits_nil fun hits h el _ => ?_
  cases hends : elementEndpointsMsn el m.entries.length with
  | none => exact h
  | some ends =>
    refine List.foldlRecOn _ _ h fun hits h msn hmsn => ?_
    rw [SequenceMap.hitAt]
    split
    · rename_i hentry
      refine h.insert ⟨?_, hentry⟩
      simp only [elementEndpointsMsn] at hends
      grind
    · exact h

theorem resolveUid_hits (uidNext : Nat) : Hits m.entries (m.resolveUid set uidNext) := by
  refine List.foldlRecOn _ _ hits_nil fun hits h el _ => ?_
  dsimp only
  split_ifs
  · exact h
  refine List.foldlRecOn _ _ h fun hits h x hx => ?_
  split_ifs
  · have hentry := List.mem_zipIdx' hx
    exact h.insert ⟨Nat.le_add_left 1 x.2, by simp [hentry.2]⟩
  · exact h

end

theorem SequenceMap.fromEntries_eq {entries : List (Nat × ItemId)}
    (h : entries.Pairwise fun a b => a.1 < b.1) : (SequenceMap.fromEntries entries).entries = entries := by
  have hsort : sortByKey Prod.fst entries = entries :=
    List.Pairwise.insertionSort_eq (h.imp le_of_lt)
  rw [fromEntries, hsort]
  exact List.destutter_of_isChain _ _ (h.imp ne_of_lt).isChain

abbrev Flags := BitVec 32

namespace Flags

def seen : Flags := 0x01
def deleted : Flags := 0x10
def allAllocated : Flags := 0x1f

end Flags

def maxKeywordsPerMessage : Nat := 64

structure EmailHandle where
  id : ItemId
  uid : Nat
  keywords : Flags
  tags : Finset String
  deriving DecidableEq

inductive ContainerEvent where
  | itemAdded (seq : Nat)
  | itemRemoved (seq : Nat)
  | flagsChanged
  | itemMoved
  deriving DecidableEq

/-- Memberships in ascending order of UIDs. `given` records the message of each UID; nothing reads
it. -/
structure Mailbox where
  members : List EmailHandle
  nextSeq : Nat
  given : Nat → Option ItemId

namespace Mailbox

variable (b : Mailbox)

def uids : List Nat := b.members.map EmailHandle.uid

def membership (item : ItemId) : Option EmailHandle := b.members.find? fun h => h.id = item

/-- `insert_membership`; refused while the item has a membership. -/
def insertMembership (item : ItemId) (keywords : Flags) (tags : Finset String) :
    Option (Mailbox × List ContainerEvent) :=
  if (b.membership item).isSome then none
  else some (⟨b.members ++ [⟨item, b.nextSeq, keywords, tags⟩], b.nextSeq + 1,
    Function.update b.given b.nextSeq (some item)⟩, [.itemAdded b.nextSeq])

/-- `remove_membership` for each item; a membership that is gone is skipped. -/
def removeMemberships (items : List ItemId) : Mailbox × List ContainerEvent :=
  ({ b with members := b.members.filter fun h => h.id ∉ items },
    (b.members.filter fun h => h.id ∈ items).map fun h => .itemRemoved h.uid)

/-- `store_membership_keywords` on a membership that is there. -/
def storeKeywords (item : ItemId) (keywords : Flags) (tags : Finset String) :
    Mailbox × List ContainerEvent :=
  ({ b with members := b.members.map fun h =>
      if h.id = item then { h with keywords := keywords, tags := tags } else h }, [.flagsChanged])

def sequenceMap : SequenceMap := .fromEntries (b.members.map fun h => (h.uid, h.id))

end Mailbox

/-- An EXISTS line comes with the UIDs of the mailbox it reports on. -/
inductive Line where
  | existsCount (n : Nat) (uids : List Nat)
  | expunge (n : Nat)
  deriving DecidableEq

/-- The client's list, and whether every EXPUNGE number so far lay within it. -/
structure Client where
  list : List Nat
  within : Bool
  deriving DecidableEq

/-- A new last message is taken to be the next higher UID of the mailbox. -/
def Client.hear (c : Client) : Line → Client
  | .expunge n => ⟨c.list.eraseIdx (n - 1), c.within && decide (1 ≤ n ∧ n ≤ c.list.length)⟩
  | .existsCount n uids =>
    ⟨c.list ++ (uids.filter fun u => c.list.all (· < u)).take (n - c.list.length), c.within⟩

def Client.hearAll (c : Client) (lines : List Line) : Client := lines.foldl Client.hear c

inductive StoreOp where
  | replace
  | add
  | remove
  deriving DecidableEq

def applyOp (current : Flags) (op : StoreOp) (named : Flags) : Flags :=
  match op with
  | .replace => (current &&& ~~~Flags.allAllocated) ||| named
  | .add => current ||| named
  | .remove => current &&& ~~~named

def applyOpTags (current : Finset String) (op : StoreOp) (named : Finset String) : Finset String :=
  match op with
  | .replace => named
  | .add => current ∪ named
  | .remove => current \ named

/-- The commands that act message by message; FETCH may set the seen flag. -/
inductive Verb where
  | fetch (setsSeen : Bool)
  | store (op : StoreOp) (flags : Flags) (tags : Finset String)
  | copy
  | move
  deriving DecidableEq

/-- Whether EXAMINE forbids the command. -/
def Verb.writes : Verb → Bool
  | .store _ _ _ => true
  | .move => true
  | _ => false

structure Row where
  hit : Resolved
  handle : EmailHandle
  deriving DecidableEq

/-- A notifier event, with the UIDs of the mailbox right after its commit. -/
abbrev Queue := List (ContainerEvent × List Nat)

inductive Job where
  | ready
  /-- Rows still to be done; for MOVE the numbers and source UIDs moved so far. -/
  | rows (verb : Verb) (byNumber : Bool) (left : List Row) (moved : List (Nat × Nat))
  /-- Numbers, items and UIDs about to be expunged. -/
  | expunging (targets : List (Nat × ItemId × Nat))
  | subscribed (queue : Queue)
  | idle (queue : Queue) (lagged : Bool)
  deriving DecidableEq

structure Session where
  (selected readOnly : Bool)
  viewUids : List Nat
  client : Client
  job : Job
  deriving DecidableEq

structure World where
  box : Mailbox
  sessions : Nat → Session

/-- The outcome of a step: the mailbox, what it published, and the session that took it. -/
abbrev Turn := Mailbox × List ContainerEvent × Session

/-- `diff_lines`: EXPUNGEs in descending order, then EXISTS when something was added. -/
def diffLines (old new : List Nat) : List Line :=
  (old.zipIdx.reverse.filter fun x => x.1 ∉ new).map (fun x => .expunge (x.2 + 1)) ++
    if new.any (· ∉ old) then [.existsCount new.length new] else []

/-- `translate_event`. The view is ascending, so the binary search finds a UID at its index. -/
def translateEvent (note : ContainerEvent × List Nat) (view : List Nat) : List Nat × List Line :=
  match note.1 with
  | .itemAdded uid =>
    let pos := (view.takeWhile (· < uid)).length
    if view[pos]? = some uid then (view, [])
    else (view.insertIdx pos uid, [.existsCount (view.length + 1) note.2])
  | .itemRemoved uid =>
    match view.idxOf? uid with
    | some idx => (view.eraseIdx idx, [.expunge (idx + 1)])
    | none => (view, [])
  | .flagsChanged => (view, [])
  | .itemMoved => (view, [])

def expungeLines (numbers : List Nat) : List Line := (sortByKey id numbers).reverse.map .expunge

namespace Session

variable (s : Session)

/-- The lines for the numbers are sent, and the UIDs pruned from the view. -/
def expunged (numbers uids : List Nat) : Session :=
  { s with client := s.client.hearAll (expungeLines numbers)
           viewUids := s.viewUids.filter (· ∉ uids), job := .ready }

/-- The view is brought to a fresh snapshot; the lines of the difference are sent. -/
def realigned (uids : List Nat) (queue : Queue) : Session :=
  { s with client := s.client.hearAll (diffLines s.viewUids uids), viewUids := uids
           job := .idle queue false }

def notify (notes : Queue) : Session :=
  { s with job := match s.job with
      | .subscribed queue => .subscribed (queue ++ notes)
      | .idle queue lagged => .idle (queue ++ notes) lagged
      | job => job }

variable (b : Mailbox)

def select (readOnly : Bool) : Session :=
  { s with selected := true, readOnly := readOnly, viewUids := b.uids, client := ⟨b.uids, true⟩ }

def command (verb : Verb) (byNumber : Bool) (set : SeqSet) : Session :=
  let hits := if byNumber then b.sequenceMap.resolveMsn set else b.sequenceMap.resolveUid set 0
  let rows := hits.filterMap fun r => (b.membership r.itemId).map (Row.mk r)
  { s with job := .rows verb byNumber rows [] }

def finish (verb : Verb) (moved : List (Nat × Nat)) : Session :=
  if verb = .move then s.expunged (moved.map Prod.fst) (moved.map Prod.snd)
  else { s with job := .ready }

/-- One row. `accepted` is what a destination mailbox answers to COPY and MOVE. -/
def doRow (verb : Verb) (byNumber : Bool) (row : Row) (left : List Row)
    (moved : List (Nat × Nat)) (accepted : Bool) : Turn :=
  let next : Session := { s with job := .rows verb byNumber left moved }
  match verb, b.membership row.hit.itemId with
  | .fetch true, some h =>
    if h.keywords ||| Flags.seen = h.keywords then (b, [], next)
    else
      let (b', events) := b.storeKeywords h.id (h.keywords ||| Flags.seen) h.tags
      (b', events, next)
  | .fetch _, _ => (b, [], next)
  | .store op flags tags, found =>
    let newFlags := applyOp row.handle.keywords op flags
    let newTags := applyOpTags row.handle.tags op tags
    if newTags.card > maxKeywordsPerMessage then (b, [], s.finish verb moved)
    else if newFlags = row.handle.keywords ∧ newTags = row.handle.tags then (b, [], next)
    else if found.isSome then
      let (b', events) := b.storeKeywords row.hit.itemId newFlags newTags
      (b', events, next)
    else (b, [], s.finish verb moved)
  | .copy, some _ => if accepted then (b, [], next) else (b, [], s.finish verb moved)
  | .move, some h =>
    if accepted then
      let (b', events) := b.removeMemberships [h.id]
      (b', events ++ [.itemMoved],
        { s with job := .rows verb byNumber left (moved ++ [(row.hit.msn, h.uid)]) })
    else (b, [], s.finish verb moved)
  | verb, none => (b, [], s.finish verb moved)

/-- EXPUNGE reads the mailbox and picks the deleted messages, those in the UID set if there is one. -/
def expunge (set : Option SeqSet) : Session :=
  let allowed := fun uid => set.all fun set =>
    ((b.sequenceMap.resolveUid set 0).map Resolved.uid).contains uid
  let targets := (b.members.zipIdx.filter fun x =>
    x.1.keywords &&& Flags.deleted ≠ 0 ∧ allowed x.1.uid).map fun x => (x.2 + 1, x.1.id, x.1.uid)
  { s with job := if targets.isEmpty then .ready else .expunging targets }

end Session

inductive SessionAct where
  | select (readOnly : Bool)
  | command (verb : Verb) (byNumber : Bool) (set : SeqSet)
  | row (accepted : Bool)
  | expunge (set : Option SeqSet)
  | expungeWrite
  | idle
  | snapshot
  | event
  /-- The oldest events are overwritten in the channel. -/
  | lose (count : Nat)
  | resync
  | done
  deriving DecidableEq

def sessionStep (b : Mailbox) (s : Session) : SessionAct → Option Turn
  | .select readOnly => if s.job = .ready then some (b, [], s.select b readOnly) else none
  | .command verb byNumber set =>
    if s.job = .ready ∧ s.selected = true ∧ (verb.writes && s.readOnly) = false then
      some (b, [], s.command b verb byNumber set)
    else none
  | .row accepted => match s.job with
    | .rows verb _ [] moved => some (b, [], s.finish verb moved)
    | .rows verb byNumber (row :: left) moved => some (s.doRow b verb byNumber row left moved accepted)
    | _ => none
  | .expunge set =>
    if s.job = .ready ∧ s.selected = true ∧ s.readOnly = false then some (b, [], s.expunge b set)
    else none
  | .expungeWrite => match s.job with
    | .expunging targets =>
      let (b', events) := b.removeMemberships (targets.map fun t => t.2.1)
      some (b', events, s.expunged (targets.map Prod.fst) (targets.map fun t => t.2.2))
    | _ => none
  | .idle =>
    if s.job = .ready ∧ s.selected = true then some (b, [], { s with job := .subscribed [] }) else none
  | .snapshot => match s.job with
    | .subscribed queue => some (b, [], s.realigned b.uids queue)
    | _ => none
  | .event => match s.job with
    | .idle (note :: queue) false =>
      let (view, lines) := translateEvent note s.viewUids
      some (b, [], { s with viewUids := view, client := s.client.hearAll lines, job := .idle queue false })
    | _ => none
  | .lose count => match s.job with
    | .idle queue _ =>
      if 0 < count ∧ count ≤ queue.length then
        some (b, [], { s with job := .idle (queue.drop count) true })
      else none
    | _ => none
  | .resync => match s.job with
    | .idle queue true => some (b, [], s.realigned b.uids queue)
    | _ => none
  | .done => match s.job with
    | .idle _ _ => some (b, [], { s with job := .ready })
    | _ => none

/-- Steps of sessions on this mailbox, and changes from elsewhere. -/
inductive Act where
  | session (i : Nat) (a : SessionAct)
  | deliver (item : ItemId) (keywords : Flags) (tags : Finset String)
  | remove (item : ItemId)
  | setKeywords (item : ItemId) (keywords : Flags) (tags : Finset String)
  deriving DecidableEq

variable (w : World)

/-- A commit publishes before the store's lock is released, so no listing comes in between. -/
def World.commit (b : Mailbox) (events : List ContainerEvent) : World where
  box := b
  sessions := fun i => (w.sessions i).notify (events.map fun e => (e, b.uids))

def World.withSession (i : Nat) (s : Session) : World :=
  { w with sessions := Function.update w.sessions i s }

def step : Act → Option World
  | .session i a => (sessionStep w.box (w.sessions i) a).map fun (b, events, s) =>
    (w.withSession i s).commit b events
  | .deliver item keywords tags => (w.box.insertMembership item keywords tags).map fun (b, events) =>
    w.commit b events
  | .remove item =>
    let (b, events) := w.box.removeMemberships [item]
    some (w.commit b events)
  | .setKeywords item keywords tags =>
    let (b, events) := w.box.storeKeywords item keywords tags
    some (w.commit b events)

/-- UIDs ascend and are given out once; a message has one membership. -/
structure Mailbox.Sound (b : Mailbox) : Prop where
  ascending : b.uids.Pairwise (· < ·)
  below : ∀ u ∈ b.uids, u < b.nextSeq
  given : ∀ h ∈ b.members, b.given h.uid = some h.id
  unused : ∀ u, b.nextSeq ≤ u → b.given u = none

/-- What one commit can do to the mailbox, with the events it publishes. -/
inductive Mailbox.Commits (b : Mailbox) : List ContainerEvent → Mailbox → Prop
  | same : Commits b [] b
  | stored (item : ItemId) (keywords : Flags) (tags : Finset String) :
    Commits b (b.storeKeywords item keywords tags).2 (b.storeKeywords item keywords tags).1
  | removed (items : List ItemId) (moves : List ContainerEvent) (h : ∀ e ∈ moves, e = .itemMoved) :
    Commits b ((b.removeMemberships items).2 ++ moves) (b.removeMemberships items).1
  | inserted (item : ItemId) (keywords : Flags) (tags : Finset String) {b' : Mailbox}
    {events : List ContainerEvent} (h : b.insertMembership item keywords tags = some (b', events)) :
    Commits b events b'

namespace Mailbox

variable {b b' : Mailbox} {events : List ContainerEvent} {item : ItemId} {keywords : Flags}
  {tags : Finset String}

theorem commits_remove (b : Mailbox) (items : List ItemId) :
    b.Commits (b.removeMemberships items).2 (b.removeMemberships items).1 := by
  simpa only [List.append_nil] using Commits.removed (b := b) items [] nofun

theorem uids_storeKeywords : (b.storeKeywords item keywords tags).1.uids = b.uids := by
  rw [uids, storeKeywords, List.map_map]
  exact List.map_congr_left fun h _ => by dsimp only [Function.comp]; split_ifs <;> rfl

theorem insertMembership_eq (h : b.insertMembership item keywords tags = some (b', events)) :
    b' = ⟨b.members ++ [⟨item, b.nextSeq, keywords, tags⟩], b.nextSeq + 1,
      Function.update b.given b.nextSeq (some item)⟩ ∧ events = [.itemAdded b.nextSeq] := by
  rw [insertMembership] at h
  split_ifs at h
  cases h
  exact ⟨rfl, rfl⟩

theorem Commits.given_mono (h : b.Commits events b') (hb : b.Sound) {u : Nat}
    (hu : b.given u = some item) : b'.given u = some item := by
  cases h with
  | same | stored | removed => exact hu
  | inserted _ _ _ h =>
    rw [(insertMembership_eq h).1]
    refine (Function.update_of_ne ?_ _ _).trans hu
    rintro rfl
    exact nomatch hu.symm.trans (hb.unused _ le_rfl)

theorem Commits.sound (h : b.Commits events b') (hb : b.Sound) : b'.Sound := by
  have hgrow : ∀ u item, b.given u = some item → b'.given u = some item := fun _ _ => h.given_mono hb
  cases h with
  | same => exact hb
  | stored =>
    refine ⟨by rw [uids_storeKeywords]; exact hb.ascending, by rw [uids_storeKeywords]; exact hb.below,
      fun h hh => ?_, hb.unused⟩
    obtain ⟨old, hold, rfl⟩ := List.mem_map.mp hh
    have := hb.given old hold
    split_ifs <;> exact this
  | removed items =>
    have hsub : (b.removeMemberships items).1.members.Sublist b.members := List.filter_sublist
    exact ⟨hb.ascending.sublist (hsub.map _), fun u hu => hb.below u ((hsub.map _).subset hu),
      fun h hh => hb.given h (hsub.subset hh), hb.unused⟩
  | inserted item keywords tags h =>
    obtain ⟨rfl, -⟩ := insertMembership_eq h
    constructor
    · simpa [uids, List.pairwise_append] using ⟨hb.ascending, fun h hh =>
        hb.below _ (List.mem_map_of_mem hh)⟩
    · have := hb.below
      simp only [uids, List.map_append, List.mem_append, List.map_cons, List.map_nil,
        List.mem_singleton]
      rintro u (hu | rfl)
      · exact (this u hu).trans (Nat.lt_succ_self _)
      · exact Nat.lt_succ_self _
    · intro h hh
      obtain hh | hh := List.mem_append.mp hh
      · exact hgrow _ _ (hb.given h hh)
      · rw [List.mem_singleton.mp hh]
        exact Function.update_self ..
    · intro u hu
      have hlt : b.nextSeq < u := hu
      exact (Function.update_of_ne hlt.ne' _ _).trans (hb.unused u hlt.le)

theorem Sound.entries (hb : b.Sound) :
    b.sequenceMap.entries = b.members.map fun h => (h.uid, h.id) :=
  SequenceMap.fromEntries_eq (by
    have := hb.ascending
    rw [uids, List.pairwise_map] at this
    rwa [List.pairwise_map])

theorem Sound.row (hb : b.Sound) {r : Resolved} (hr : RowOf b.sequenceMap.entries r) :
    b.uids[r.msn - 1]? = some r.uid ∧ b.given r.uid = some r.itemId := by
  have hentry := hr.entry
  rw [hb.entries, List.getElem?_map] at hentry
  obtain ⟨h, hh, heq⟩ := Option.map_eq_some_iff.mp hentry
  obtain ⟨huid, hid⟩ := Prod.mk.inj heq
  rw [← huid, ← hid, uids, List.getElem?_map, hh]
  exact ⟨rfl, hb.given h (List.mem_of_getElem? hh)⟩

end Mailbox

section

variable {b b' : Mailbox} {s s' : Session} {events : List ContainerEvent}

theorem commits_doRow (b : Mailbox) (s : Session) (verb : Verb) (byNumber : Bool) (row : Row)
    (left : List Row) (moved : List (Nat × Nat)) (accepted : Bool) :
    b.Commits (s.doRow b verb byNumber row left moved accepted).2.1
      (s.doRow b verb byNumber row left moved accepted).1 := by
  unfold Session.doRow
  split
  · split_ifs
    · exact .same
    · exact .stored ..
  · exact .same
  · dsimp only
    split_ifs
    · exact .same
    · exact .same
    · exact .stored ..
    · exact .same
  · split_ifs <;> exact .same
  · split_ifs
    · exact .removed [_] [.itemMoved] (by simp)
    · exact .same
  · exact .same

theorem sessionStep_commits {a : SessionAct} (h : sessionStep b s a = some (b', events, s')) :
    b.Commits events b' := by
  cases a <;> simp only [sessionStep] at h
  case row accepted =>
    split at h
    · cases h
      exact .same
    · obtain rfl := congrArg Prod.fst (Option.some.inj h)
      obtain rfl := congrArg (·.2.1) (Option.some.inj h)
      exact commits_doRow ..
    · cases h
  case expungeWrite =>
    split at h
    · cases h
      exact b.commits_remove _
    · cases h
  all_goals
    split at h
    · first
        | cases h; exact .same
        | obtain ⟨-, h⟩ := of_guarded h; cases h; exact .same
    · cases h

end

variable {a : Act}

/-- A step commits once, and every session is notified of what it published. -/
theorem step_effect {w w' : World} (h : step w a = some w') :
    ∃ events, w.box.Commits events w'.box ∧
      ((∃ i sa s, a = .session i sa ∧ sessionStep w.box (w.sessions i) sa = some (w'.box, events, s) ∧
          w' = (w.withSession i s).commit w'.box events) ∨
        (∀ i sa, a ≠ .session i sa) ∧ w' = w.commit w'.box events) := by
  cases a with
  | session i sa =>
    obtain ⟨⟨b, events, s⟩, hs, rfl⟩ := Option.map_eq_some_iff.mp h
    exact ⟨events, sessionStep_commits hs, .inl ⟨i, sa, s, rfl, hs, rfl⟩⟩
  | deliver item keywords tags =>
    obtain ⟨⟨b, events⟩, hs, rfl⟩ := Option.map_eq_some_iff.mp h
    exact ⟨events, .inserted item keywords tags hs, .inr ⟨fun _ _ => nofun, rfl⟩⟩
  | remove item =>
    cases h
    exact ⟨_, w.box.commits_remove [item], .inr ⟨fun _ _ => nofun, rfl⟩⟩
  | setKeywords item keywords tags =>
    cases h
    exact ⟨_, .stored item keywords tags, .inr ⟨fun _ _ => nofun, rfl⟩⟩

end Cosmix.Maild
