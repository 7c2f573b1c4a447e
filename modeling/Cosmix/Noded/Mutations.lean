/- source: cosmix-noded/src/session.rs, cosmix-lib-bus/src/native_session/bootstrap.rs
   digest: A session mutation is dispatched once, whatever the cache still knows of it. -/

import Cosmix.Noded.Broker
import Mathlib.Algebra.Order.BigOperators.Group.List

/-! The records, grants and routes of the session table are a state `S`: what a command with
arguments `A` does to them, the value `V` it answers, and what a sweep does are arbitrary. None of
it touches the cached results or the marks. The id of a connection is drawn anew for each. -/

namespace Cosmix.Noded.Mutations

open List

def maxPerConnection : Nat := 1024
def maxResults : Nat := 8192
def maxResultBytes : Nat := 16 * 1024 * 1024
def retentionMs : Nat := 900000

inductive CommandName where
  | hello | allocate | grantCreate | grantFetch | challenge | prove | renew | revoke | list
  | selfRecord | leaseCheck
  deriving DecidableEq

structure SessionCommand (A : Type) where
  name : CommandName
  args : A
  deriving DecidableEq

def SessionCommand.retainedMutation {A : Type} (c : SessionCommand A) : Bool :=
  match c.name with
  | .allocate | .grantCreate | .revoke => true
  | _ => false

structure Cached (I A V : Type) where
  connection : I
  id : Nat
  command : SessionCommand A
  result : Except SessionError V
  (expires bytes : Nat)

structure Request (I A : Type) where
  connection : I
  id : Nat
  command : SessionCommand A
  bodyLen : Nat

/-- The part of the session table that the cache does not read. -/
structure Table (I A V S : Type) where
  dispatch : S → I → SessionCommand A → Nat → S × Except SessionError V
  maintain : S → Nat → S
  failClock : S → S
  disconnect : S → I → Option Nat → S
  jsonLen : Except SessionError V → Nat

structure Sessions (I A V S : Type) where
  results : List (Cached I A V) := []
  highWater : I → Nat := fun _ => 0
  clockFailed : Bool := false
  table : S
  /-- The mutations that were dispatched so far. The program keeps no such list. -/
  dispatched : List (Cached I A V) := []

def clockUnavailable : SessionError := ⟨.unavailable, some "clock_unavailable"⟩
def requestMismatch : SessionError := ⟨.other "CONFLICT", some "request_mismatch"⟩
def unknownOutcome : SessionError := ⟨.other "CONFLICT", some "unknown_outcome"⟩

variable {I A V S : Type}

def Cached.key (r : Cached I A V) : I × Nat := (r.connection, r.id)

/-- A clock that failed once is not asked again. -/
def Sessions.maintainNow (t : Table I A V S) (s : Sessions I A V S)
    (clock : Option Nat) : Sessions I A V S × Option Nat :=
  match if s.clockFailed then none else clock with
  | none => ({ s with clockFailed := true, table := t.failClock s.table }, none)
  | some now =>
    ({ s with results := s.results.filter fun r => now < r.expires, table := t.maintain s.table now },
      some now)

section

variable [DecidableEq I]

def count (cid : I) (results : List (Cached I A V)) : Nat :=
  results.countP fun r => r.connection = cid

/-- The oldest results of a connection go while it has too many. -/
def evictOwn (cid : I) : List (Cached I A V) → List (Cached I A V)
  | [] => []
  | r :: rest =>
    if r.connection = cid ∧ maxPerConnection ≤ count cid (r :: rest) then evictOwn cid rest
    else r :: evictOwn cid rest

def totalBytes (results : List (Cached I A V)) : Nat := (results.map Cached.bytes).sum

def evictOldest (bytes : Nat) : List (Cached I A V) → List (Cached I A V)
  | [] => []
  | r :: rest =>
    if maxResults ≤ (r :: rest).length ∨ maxResultBytes < totalBytes (r :: rest) + bytes then
      evictOldest bytes rest
    else r :: rest

/-- The results with one more, if it fits at all. -/
def retain (r : Cached I A V) (results : List (Cached I A V)) : List (Cached I A V) :=
  let kept := evictOldest r.bytes (evictOwn r.connection results)
  if maxResultBytes < r.bytes then kept else kept ++ [r]

variable [DecidableEq A] (t : Table I A V S)

def Sessions.execute (s : Sessions I A V S) (q : Request I A) (clock : Option Nat) :
    Sessions I A V S × Except SessionError V :=
  match s.maintainNow t clock with
  | (s, none) => (s, .error clockUnavailable)
  | (s, some now) =>
    if q.command.retainedMutation then
      match s.results.find? fun r => r.connection = q.connection ∧ r.id = q.id with
      | some cached =>
        (s, if cached.command = q.command then cached.result else .error requestMismatch)
      | none =>
        if q.id ≤ s.highWater q.connection then (s, .error unknownOutcome)
        else
          let (table, result) := t.dispatch s.table q.connection q.command now
          let r : Cached I A V :=
            ⟨q.connection, q.id, q.command, result, now + retentionMs, t.jsonLen result + q.bodyLen⟩
          ({ s with
              table
              highWater := Function.update s.highWater q.connection q.id
              results := retain r s.results
              dispatched := s.dispatched ++ [r] }, result)
    else
      let (table, result) := t.dispatch s.table q.connection q.command now
      ({ s with table }, result)

inductive Act (I A : Type) where
  | execute (request : Request I A) (clock : Option Nat)
  | maintain (clock : Option Nat)
  | disconnect (connection : I) (clock : Option Nat)

def Sessions.step (s : Sessions I A V S) : Act I A → Sessions I A V S
  | .execute q clock => (s.execute t q clock).1
  | .maintain clock => (s.maintainNow t clock).1
  | .disconnect cid clock =>
    let (s, now) := s.maintainNow t clock
    { s with table := t.disconnect s.table cid now
             results := s.results.filter fun r => r.connection ≠ cid }

end

section

variable {cid : I} {results kept : List (Cached I A V)} {bytes : Nat}

theorem evictOldest_sublist (bytes : Nat) (results : List (Cached I A V)) :
    evictOldest bytes results <+ results := by
  induction results with
  | nil => exact .refl _
  | cons r rest ih =>
    rw [evictOldest]
    split
    · exact ih.cons r
    · exact .refl _

theorem evictOldest_fits (results : List (Cached I A V)) (h : bytes ≤ maxResultBytes) :
    (evictOldest bytes results).length < maxResults ∧
      totalBytes (evictOldest bytes results) + bytes ≤ maxResultBytes := by
  induction results with
  | nil => exact ⟨Nat.zero_lt_succ _, (Nat.zero_add _).trans_le h⟩
  | cons r rest ih =>
    rw [evictOldest]
    split
    · exact ih
    · next hfits => exact (not_or.mp hfits).imp not_le.mp not_lt.mp

variable [DecidableEq I]

theorem evictOwn_sublist (cid : I) (results : List (Cached I A V)) :
    evictOwn cid results <+ results := by
  induction results with
  | nil => exact .refl _
  | cons r rest ih =>
    rw [evictOwn]
    split
    · exact ih.cons r
    · exact ih.cons_cons r

theorem count_evictOwn (cid : I) (results : List (Cached I A V)) :
    count cid (evictOwn cid results) < maxPerConnection := by
  induction results with
  | nil => exact Nat.zero_lt_succ _
  | cons r rest ih =>
    rw [evictOwn]
    split
    · exact ih
    · next hkept =>
      have hle : count cid (evictOwn cid rest) ≤ count cid rest := (evictOwn_sublist cid rest).countP_le
      simp only [count, countP_cons, decide_eq_true_eq] at hkept hle ih ⊢
      by_cases hcid : r.connection = cid
      · have hfew := not_le.mp fun hmany => hkept ⟨hcid, hmany⟩
        omega
      · rwa [if_neg hcid]

structure Bounded (results : List (Cached I A V)) : Prop where
  perConnection : ∀ cid, count cid results ≤ maxPerConnection
  length : results.length ≤ maxResults
  bytes : totalBytes results ≤ maxResultBytes

theorem Bounded.sublist (h : Bounded results) (hsub : kept <+ results) : Bounded kept where
  perConnection cid := hsub.countP_le.trans (h.perConnection cid)
  length := hsub.length_le.trans h.length
  bytes := ((hsub.map Cached.bytes).sum_le_sum fun _ _ => Nat.zero_le _).trans h.bytes

variable (r : Cached I A V)

theorem kept_sublist : evictOldest r.bytes (evictOwn r.connection results) <+ results :=
  (evictOldest_sublist _ _).trans (evictOwn_sublist _ _)

theorem retain_sublist : retain r results <+ results ++ [r] := by
  rw [retain]
  split
  · exact (kept_sublist r).trans (sublist_append_left _ _)
  · exact (kept_sublist r).append (.refl _)

theorem Bounded.retain (h : Bounded results) : Bounded (retain r results) := by
  have hkept := h.sublist (kept_sublist r)
  rw [Mutations.retain]
  split
  · exact hkept
  · next hfits =>
    obtain ⟨hlength, hbytes⟩ :=
      evictOldest_fits (evictOwn r.connection results) (not_lt.mp hfits)
    refine ⟨fun cid => ?_, ?_, by simpa [totalBytes] using hbytes⟩
    · rw [count, countP_append, countP_singleton]
      split
      · next hcid =>
        rw [← of_decide_eq_true hcid]
        exact (evictOldest_sublist _ _).countP_le.trans_lt (count_evictOwn _ _)
      · exact hkept.perConnection cid
    · rw [length_append]
      exact hlength

end

variable {t : Table I A V S} {s s' : Sessions I A V S}

/-- Only results go: the marks and what was dispatched stay. -/
structure Thinned (s s' : Sessions I A V S) : Prop where
  results : s'.results <+ s.results
  highWater : s'.highWater = s.highWater
  dispatched : s'.dispatched = s.dispatched

theorem maintainNow_thinned (s : Sessions I A V S) (clock : Option Nat) :
    Thinned s (s.maintainNow t clock).1 := by
  unfold Sessions.maintainNow
  split
  · exact ⟨.refl _, rfl, rfl⟩
  · exact ⟨filter_sublist, rfl, rfl⟩

variable [DecidableEq I]

/-- No mutation was dispatched twice or is above the mark; a cached result is one of those
dispatched. -/
structure Inv (s : Sessions I A V S) : Prop where
  once : (s.dispatched.map Cached.key).Nodup
  marked : ∀ r ∈ s.dispatched, r.id ≤ s.highWater r.connection
  cached : s.results ⊆ s.dispatched
  bounded : Bounded s.results

theorem Inv.thinned (h : Inv s) (hs : Thinned s s') : Inv s' := by
  refine ⟨?_, ?_, ?_, h.bounded.sublist hs.results⟩
  · exact hs.dispatched ▸ h.once
  · rw [hs.dispatched, hs.highWater]
    exact h.marked
  · rw [hs.dispatched]
    exact Subset.trans hs.results.subset h.cached

theorem Inv.ran (h : Inv s) (table : S) {r : Cached I A V}
    (hnew : s.highWater r.connection < r.id) :
    Inv { s with table, highWater := Function.update s.highWater r.connection r.id,
                 results := retain r s.results, dispatched := s.dispatched ++ [r] } where
  once := by
    rw [map_append, nodup_append]
    refine ⟨h.once, pairwise_singleton _ _, fun key hkey key' hkey' heq => ?_⟩
    obtain ⟨r', hr', rfl⟩ := mem_map.mp hkey
    have hsame := Prod.mk.inj (heq.trans (mem_singleton.mp hkey'))
    have hle := h.marked r' hr'
    rw [hsame.1, hsame.2] at hle
    omega
  marked := by
    refine forall_mem_append.mpr ⟨fun r' hr' => ?_, forall_mem_singleton.mpr ?_⟩
    · have hle := h.marked r' hr'
      dsimp only
      rw [Function.update_apply]
      split
      · next heq =>
        rw [heq] at hle
        omega
      · exact hle
    · exact (Function.update_self r.connection r.id s.highWater).ge
  cached := by
    intro r' hr'
    rcases mem_append.mp ((retain_sublist r).subset hr') with hr' | hr'
    · exact mem_append_left _ (h.cached hr')
    · exact mem_append_right _ hr'
  bounded := h.bounded.retain r

variable [DecidableEq A]

theorem Inv.execute (h : Inv s) (q : Request I A) (clock : Option Nat) :
    Inv (s.execute t q clock).1 := by
  have hswept := h.thinned (maintainNow_thinned (t := t) s clock)
  unfold Sessions.execute
  split
  · next heq =>
    rw [heq] at hswept
    exact hswept
  · next heq =>
    rw [heq] at hswept
    split
    · split
      · exact hswept
      · split
        · exact hswept
        · next hnew => exact hswept.ran _ (not_le.mp hnew)
    · exact hswept.thinned ⟨.refl _, rfl, rfl⟩

theorem Inv.step (h : Inv s) (a : Act I A) : Inv (s.step t a) := by
  cases a with
  | execute q clock => exact h.execute q clock
  | maintain clock => exact h.thinned (maintainNow_thinned s clock)
  | disconnect cid clock =>
    exact (h.thinned (maintainNow_thinned (t := t) s clock)).thinned ⟨filter_sublist, rfl, rfl⟩

theorem Inv.run (table : S) (acts : List (Act I A)) :
    Inv (acts.foldl (Sessions.step t) { table }) := by
  have hstart : Inv ({ table } : Sessions I A V S) :=
    ⟨.nil, forall_mem_nil _, nil_subset _, fun _ => Nat.zero_le _, Nat.zero_le _, Nat.zero_le _⟩
  exact foldlRecOn acts _ hstart fun s h a _ => h.step a

/-- What a request for a mutation that was dispatched may be answered: nothing is dispatched for it. -/
def Known (t : Table I A V S) (s : Sessions I A V S) (r : Cached I A V) (q : Request I A)
    (clock : Option Nat) : Prop :=
  (s.execute t q clock).1.dispatched = s.dispatched ∧
  ((s.execute t q clock).2 = (if r.command = q.command then r.result else .error requestMismatch) ∨
    (s.execute t q clock).2 = .error unknownOutcome ∨
    (s.clockFailed = true ∨ clock = none) ∧ (s.execute t q clock).2 = .error clockUnavailable)

theorem Inv.known (h : Inv s) {r : Cached I A V} (hr : r ∈ s.dispatched) {q : Request I A}
    (hkey : (q.connection, q.id) = r.key) (hq : q.command.retainedMutation = true)
    (clock : Option Nat) : Known t s r q clock := by
  have hthin := maintainNow_thinned (t := t) s clock
  have hswept := h.thinned hthin
  unfold Known Sessions.execute
  split
  · next heq =>
    rw [heq] at hthin
    refine ⟨hthin.dispatched, .inr (.inr ⟨?_, rfl⟩)⟩
    unfold Sessions.maintainNow at heq
    split at heq
    · next hclock => simpa [or_iff_not_imp_left] using hclock
    · cases heq
  · next s' now heq =>
    rw [heq] at hthin hswept
    rw [if_pos hq]
    have hr' : r ∈ s'.dispatched := by rwa [hthin.dispatched]
    split
    · next cached hcached =>
      -- the entry found has the key of the mutation, so it is the mutation
      have hmem := hswept.cached (mem_of_find?_eq_some hcached)
      have hfound := find?_some hcached
      simp only [decide_eq_true_eq] at hfound
      have hsame : cached = r := inj_on_of_nodup_map hswept.once hmem hr'
        ((Prod.ext hfound.1 hfound.2).trans hkey)
      rw [hsame]
      exact ⟨hthin.dispatched, .inl rfl⟩
    · have hle := hswept.marked r hr'
      obtain ⟨hc, hi⟩ := Prod.mk.inj hkey
      rw [← hc, ← hi] at hle
      rw [if_pos hle]
      exact ⟨hthin.dispatched, .inr (.inl rfl)⟩

/-- In every interleaving no mutation is dispatched twice. Asked again, it is answered with its
first result or as an unknown outcome, and another one under its id is refused, unless the clock has
failed. -/
theorem mutation_dispatched_once (t : Table I A V S) (table : S) (acts : List (Act I A)) :
    let s := acts.foldl (Sessions.step t) { table }
    (s.dispatched.map Cached.key).Nodup ∧
    (∀ r ∈ s.dispatched, ∀ q clock, (q.connection, q.id) = r.key →
      q.command.retainedMutation = true → Known t s r q clock) ∧
    (∀ cid, count cid s.results ≤ 1024) ∧ s.results.length ≤ 8192 ∧
    totalBytes s.results ≤ 16 * 1024 * 1024 := by
  intro s
  have hinv : Inv s := Inv.run table acts
  refine ⟨hinv.once, fun r hr q clock hkey hq => hinv.known hr hkey hq clock, ?_⟩
  exact ⟨hinv.bounded.perConnection, hinv.bounded.length, hinv.bounded.bytes⟩

private def revokes : Table Unit Unit Nat Nat where
  dispatch n _ _ _ := (n + 1, .ok n)
  maintain n _ := n
  failClock n := n
  disconnect n _ _ := n
  jsonLen _ := 1

private def revoke : Request Unit Unit := ⟨(), 7, ⟨.revoke, ()⟩, 0⟩

theorem mutation_dispatched_once_revoke :
    let s := (Sessions.step revokes { table := 0 } (.execute revoke (some 5)))
    s.dispatched.length = 1 ∧ (s.execute revokes revoke (some 6)).1.dispatched = s.dispatched := by
  refine ⟨rfl, ?_⟩
  exact ((mutation_dispatched_once revokes 0 [.execute revoke (some 5)]).2.1 _ mem_cons_self
    revoke (some 6) rfl rfl).1

/-- A repeat after the clock has failed is answered with neither, and a command that is no mutation
may carry the same id. -/
theorem repeat_after_clock_failure :
    let s := (Sessions.execute revokes { table := 0 } revoke (some 5))
    s.2 = .ok 0 ∧ (s.1.execute revokes revoke none).2 = .error clockUnavailable ∧
      clockUnavailable ≠ unknownOutcome ∧
      (s.1.execute revokes { revoke with command := ⟨.list, ()⟩ } (some 6)).2 = .ok 1 := by
  exact ⟨rfl, rfl, by decide, rfl⟩

end Cosmix.Noded.Mutations
