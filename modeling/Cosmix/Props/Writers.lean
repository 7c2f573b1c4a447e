/- source: cosmix-lib-props-store/src/runtime.rs, memory.rs
   digest: Where a saga's outcome lands, and which objects of a collection carry their key. -/

import Cosmix.Props.Runtime

namespace Cosmix.Props

open MemoryStore (SameRow row_accepted complete_accepted commit_accepted)
open List

/-- A set or a delete of a row. -/
def Commit.displaces (key : RecordKey) : Commit → Prop
  | .set op => SameRow op.key key
  | .delete op => SameRow op.key key
  | .complete _ => False
  | .reconcile _ => False

namespace System

/-- Between a call's set and its completion nobody else set or deleted the row. -/
def OwnOutcome (s : System) : Prop :=
  ∀ i pre op mid op' post,
    s.trace = pre ++ (i, .set op) :: (mid ++ (i, .complete op') :: post) →
      SameRow op'.key op.key ∧ ∀ x ∈ mid, ¬x.2.displaces op.key

/-- A set call that commits writes a version that no other unfinished set call on the row is
pinned to. -/
def Unpinned (s : System) : Act → Prop
  | .advance i _ => ∀ call actor, s.procs[i]? = some (.set call (.commitSet actor)) →
      ∀ (j : Nat) (p : Proc) (key : RecordKey) (v : Nat), j ≠ i → s.procs[j]? = some p →
        p.pin = some (key, v) → SameRow key call.key →
        v ≠ MemoryStore.prevVersion (s.store.row call.key) + 1
  | _ => True

/-- What is known of each call's set in the trace. -/
structure Pinned (s : System) : Prop where
  known : ∀ i c, (i, c) ∈ s.trace → i < s.procs.length
  fresh : ∀ i p, s.procs[i]? = some p → p.fresh = true → ∀ op, (i, Commit.set op) ∉ s.trace
  pinned : ∀ i p key v, s.procs[i]? = some p → p.pin = some (key, v) →
    ∀ pre op mid, s.trace = pre ++ (i, .set op) :: mid → SameRow op.key key ∧
      ((∀ x ∈ mid, ¬x.2.displaces op.key) ∨
        ∀ r, s.store.row key = some r → ¬(r.version = v ∧ r.lifecycle = some .provisioning))
  own : s.OwnOutcome

theorem concat_split {α : Type} {xs pre mid : List α} {a y : α} (h : xs ++ [y] = pre ++ a :: mid) :
    (mid = [] ∧ a = y ∧ xs = pre) ∨ ∃ mid', mid = mid' ++ [y] ∧ xs = pre ++ a :: mid' := by
  rcases eq_nil_or_concat mid with rfl | ⟨mid', z, rfl⟩
  · obtain ⟨hpre, hlast⟩ := append_inj' h rfl
    exact .inl ⟨rfl, (cons.inj hlast).1.symm, hpre⟩
  rw [concat_eq_append, ← cons_append, ← append_assoc] at h
  obtain ⟨hpre, hlast⟩ := append_inj' h rfl
  rw [concat_eq_append, (cons.inj hlast).1]
  exact .inr ⟨mid', rfl, hpre⟩

variable {s : System} {i : Nat} {p : Proc} {store' : MemoryStore} {event : RecordEvent}

theorem procs_after (hp : s.procs[i]? = some p) (e : Effect) (j : Nat) :
    (s.after i e).procs[j]? = if j = i then some e.proc else s.procs[j]? := by
  have hlt : i < s.procs.length := (List.getElem?_eq_some_iff.mp hp).1
  by_cases h : j = i
  · rw [if_pos h, h]
    exact getElem?_set_self hlt
  · rw [if_neg h]
    exact getElem?_set_ne (Ne.symm h)

theorem known_after (h : s.Pinned) (hp : s.procs[i]? = some p) (e : Effect) (j : Nat) (c : Commit)
    (hmem : (j, c) ∈ (s.after i e).trace) : j < (s.after i e).procs.length := by
  have hlt : i < s.procs.length := (List.getElem?_eq_some_iff.mp hp).1
  have hlen : (s.after i e).procs.length = s.procs.length := length_set
  rw [hlen]
  rcases mem_append.mp hmem with hmem | hmem
  · exact h.known j c hmem
  · obtain ⟨_, -, heq⟩ := Option.map_eq_some_iff.mp (Option.mem_toList.mp hmem)
    rw [← (Prod.mk.inj heq).1]
    exact hlt

theorem fresh_after (h : s.Pinned) (hp : s.procs[i]? = some p) {e : Effect}
    (hold : e.proc.fresh = false) (j : Nat) (q : Proc) (hq : (s.after i e).procs[j]? = some q)
    (hf : q.fresh = true) (op : SetCommit) : (j, .set op) ∉ (s.after i e).trace := by
  intro hmem
  rw [procs_after hp] at hq
  split at hq
  · cases hq
    cases hold.symm.trans hf
  next hne =>
  rcases mem_append.mp hmem with hmem | hmem
  · exact h.fresh j q hq hf op hmem
  · obtain ⟨_, -, heq⟩ := Option.map_eq_some_iff.mp (Option.mem_toList.mp hmem)
    exact hne (Prod.mk.inj heq).1.symm

theorem Pinned.still (h : s.Pinned) (hp : s.procs[i]? = some p) {e : Effect}
    (hnone : e.committed = none) (hsame : ∀ ns, e.store.state ns = s.store.state ns)
    (hpin : e.proc.pin = none ∨ e.proc.pin = p.pin)
    (hfresh : e.proc.fresh = true → p.fresh = true) : (s.after i e).Pinned := by
  have htrace : (s.after i e).trace = s.trace := by
    show s.trace ++ (e.committed.map (i, ·)).toList = s.trace
    rw [hnone]
    exact append_nil _
  have hrow : ∀ key, (s.after i e).store.row key = s.store.row key := fun key => by
    show (e.store.state key.ns).records[key.key]? = (s.store.state key.ns).records[key.key]?
    rw [hsame]
  refine ⟨known_after h hp e, ?_, ?_, ?_⟩
  · intro j q hq hf op
    rw [procs_after hp] at hq
    rw [htrace]
    split at hq
    · next hj =>
      cases hq
      exact hj ▸ h.fresh i p hp (hfresh hf) op
    · exact h.fresh j q hq hf op
  · intro j q key v hq hpin' pre op mid heq
    rw [procs_after hp] at hq
    rw [htrace] at heq
    rw [hrow]
    split at hq
    · next hj =>
      subst hj
      cases hq
      rcases hpin with hpin | hpin
      · rw [hpin] at hpin'
        cases hpin'
      · exact h.pinned j p key v hp (hpin ▸ hpin') pre op mid heq
    · exact h.pinned j q key v hq hpin' pre op mid heq
  · intro j pre op mid op' post heq
    rw [htrace] at heq
    exact h.own j pre op mid op' post heq

theorem pinned_other (h : s.Pinned) {j : Nat} (hne : j ≠ i) {q : Proc} (hq : s.procs[j]? = some q)
    {key : RecordKey} {v : Nat} (hpin : q.pin = some (key, v)) {c : Commit} {row : Option Record}
    {ev : RecordEvent} (hc : s.store.commit c = (.ok (row, ev), store'))
    (hdis : ∀ k, c.displaces k → SameRow c.key k) (hnew : SameRow key c.key → ∀ r, row = some r →
      ¬(r.version = v ∧ r.lifecycle = some .provisioning)) {pre mid : List (Nat × Commit)}
    {op : SetCommit} (heq : s.trace ++ [(i, c)] = pre ++ (j, .set op) :: mid) :
    SameRow op.key key ∧ ((∀ x ∈ mid, ¬x.2.displaces op.key) ∨
      ∀ r, store'.row key = some r → ¬(r.version = v ∧ r.lifecycle = some .provisioning)) := by
  rcases concat_split heq with ⟨-, hcall, -⟩ | ⟨mid', rfl, htrace⟩
  · exact absurd (Prod.mk.inj hcall).1 hne
  obtain ⟨hsame, hor⟩ := h.pinned j q key v hq hpin pre op mid' htrace
  refine ⟨hsame, ?_⟩
  by_cases hkey : SameRow key c.key
  · right
    intro r hr
    rw [row_accepted hc, if_pos hkey] at hr
    exact hnew hkey r hr
  · rcases hor with hmid | hrow
    · left
      refine forall_mem_append.mpr ⟨hmid, forall_mem_singleton.mpr fun hd => ?_⟩
      have hk := hdis _ hd
      exact hkey ⟨hsame.1.symm.trans hk.1.symm, hsame.2.symm.trans hk.2.symm⟩
    · right
      intro r hr
      rw [row_accepted hc, if_neg hkey] at hr
      exact hrow r hr

theorem own_concat (h : s.OwnOutcome) {c : Commit}
    (hlast : ∀ pre op mid op', c = .complete op' → s.trace = pre ++ (i, .set op) :: mid →
      SameRow op'.key op.key ∧ ∀ x ∈ mid, ¬x.2.displaces op.key) {j : Nat}
    {pre mid post : List (Nat × Commit)} {op : SetCommit} {op' : CompleteCommit}
    (heq : s.trace ++ [(i, c)] = pre ++ (j, .set op) :: (mid ++ (j, .complete op') :: post)) :
    SameRow op'.key op.key ∧ ∀ x ∈ mid, ¬x.2.displaces op.key := by
  rw [← cons_append, ← append_assoc] at heq
  rcases concat_split heq with ⟨-, hcall, htrace⟩ | ⟨post', rfl, htrace⟩
  · obtain ⟨rfl, hc⟩ := Prod.mk.inj hcall
    exact hlast pre op mid op' hc.symm htrace
  · rw [append_assoc] at htrace
    exact h j pre op mid op' post' htrace

theorem Pinned.set (h : s.Pinned) {rt : Runtime} {call : SetCall} {actor : Option Actor}
    (hp : s.procs[i]? = some (.set call (.commitSet actor)))
    (hun : ∀ (j : Nat) (p : Proc) (key : RecordKey) (v : Nat), j ≠ i → s.procs[j]? = some p →
      p.pin = some (key, v) → SameRow key call.key →
      v ≠ MemoryStore.prevVersion (s.store.row call.key) + 1) {record : Record}
    (hc : s.store.commit (.set (rt.setCommit call)) = (.ok (some record, event), store')) :
    (s.after i ⟨.set call (.notifySet actor record event), store', false,
      some (.set (rt.setCommit call))⟩).Pinned := by
  have hversion : record.version = MemoryStore.prevVersion (s.store.row call.key) + 1 := by
    obtain ⟨_, -, happ⟩ := commit_accepted hc
    rw [(happ.matched record rfl).1, happ.version]
    rfl
  refine ⟨known_after h hp _, fresh_after h hp rfl, ?_, ?_⟩
  · intro j q key v hq hpin pre op mid heq
    rw [procs_after hp] at hq
    split at hq
    · next hj =>
      -- the call's own set is the last write
      subst hj
      cases hq
      cases hpin
      rcases concat_split heq with ⟨rfl, hcall, -⟩ | ⟨_, -, htrace⟩
      · obtain ⟨-, hop⟩ := Prod.mk.inj hcall
        cases hop
        exact ⟨⟨rfl, rfl⟩, .inl nofun⟩
      · refine absurd ?_ (h.fresh j _ hp rfl op)
        rw [htrace]
        simp
    · next hne =>
      apply pinned_other h hne hq hpin hc (fun k hk => hk) ?_ heq
      rintro hkey r ⟨⟩ ⟨hv, -⟩
      exact hun j q key v hne hq hpin hkey (hv.symm.trans hversion)
  · intro j pre op mid op' post heq
    exact own_concat h.own (fun _ _ _ _ hop => by cases hop) heq

theorem Pinned.delete (h : s.Pinned) {call : DeleteCall}
    (hp : s.procs[i]? = some (.delete call .commitDelete))
    (hc : s.store.commit (.delete (Runtime.deleteCommit call)) = (.ok (none, event), store')) :
    (s.after i ⟨.delete call (.notifyDelete event), store', false,
      some (.delete (Runtime.deleteCommit call))⟩).Pinned := by
  refine ⟨known_after h hp _, fresh_after h hp rfl, ?_, ?_⟩
  · intro j q key v hq hpin pre op mid heq
    rw [procs_after hp] at hq
    split at hq
    · cases hq
      cases hpin
    · next hne => exact pinned_other h hne hq hpin hc (fun k hk => hk) nofun heq
  · intro j pre op mid op' post heq
    exact own_concat h.own (fun _ _ _ _ hop => by cases hop) heq

theorem Pinned.complete (h : s.Pinned) {call : SetCall} {actor : Actor} {record : Record}
    {lifecycle : Lifecycle}
    (hp : s.procs[i]? = some (.set call (.commitComplete (some actor) record event lifecycle)))
    {row : Record} {event' : RecordEvent}
    (hc : s.store.commit (.complete (Runtime.completeCommit call record lifecycle actor)) =
      (.ok (some row, event'), store')) :
    (s.after i ⟨.set call (.notifyComplete event event'), store', false,
      some (.complete (Runtime.completeCommit call record lifecycle actor))⟩).Pinned := by
  obtain ⟨there, hthere, hversion, hprov, r, hr, -, hended⟩ := complete_accepted hc
  refine ⟨known_after h hp _, fresh_after h hp rfl, ?_, ?_⟩
  · intro j q key v hq hpin pre op mid heq
    rw [procs_after hp] at hq
    split at hq
    · cases hq
      cases hpin
    next hne =>
    apply pinned_other h hne hq hpin hc nofun ?_ heq
    intro _ r' hr' hh
    rw [hr] at hr'
    cases hr'
    exact hended hh.2
  · intro j pre op mid op' post heq
    refine own_concat h.own ?_ heq
    intro pre op mid op' hop htrace
    cases hop
    obtain ⟨hsame, hor⟩ := h.pinned i _ call.key record.version hp rfl pre op mid htrace
    refine ⟨⟨hsame.1.symm, hsame.2.symm⟩, ?_⟩
    exact hor.resolve_right fun hright => hright there hthere ⟨hversion, hprov⟩

theorem Pinned.add (h : s.Pinned) (hpin : p.pin = none) : (s.add p).Pinned := by
  have hold : ∀ j q, (s.add p).procs[j]? = some q →
      s.procs[j]? = some q ∨ (j = s.procs.length ∧ q = p) := by
    intro j q hq
    rcases Nat.lt_or_ge j s.procs.length with hlt | hge
    · exact .inl ((getElem?_append_left hlt).symm.trans hq)
    have hq' : [p][j - s.procs.length]? = some q := (getElem?_append_right hge).symm.trans hq
    rw [getElem?_singleton] at hq'
    split at hq'
    · exact .inr ⟨by omega, (Option.some.inj hq').symm⟩
    · cases hq'
  refine ⟨?_, ?_, ?_, h.own⟩
  · intro j c hmem
    have := h.known j c hmem
    simp only [System.add, length_append]
    omega
  · intro j q hq hf op hmem
    rcases hold j q hq with hq | ⟨rfl, rfl⟩
    · exact h.fresh j q hq hf op hmem
    · exact absurd (h.known _ _ hmem) (Nat.lt_irrefl _)
  · intro j q key v hq hpin' pre op mid heq
    rcases hold j q hq with hq | ⟨rfl, rfl⟩
    · exact h.pinned j q key v hq hpin' pre op mid heq
    · rw [hpin] at hpin'
      cases hpin'

theorem Pinned.step {rt : Runtime} {s' : System} {a : Act} (h : s.Pinned) (hun : s.Unpinned a)
    (hstep : s.step rt a = some s') : s'.Pinned := by
  rcases step_cases hstep with ⟨p, rfl, -, hpin, -⟩ | ⟨i, hook, p, e, rfl, hp, hmoved, rfl⟩
  · exact h.add hpin
  cases hmoved with
  | quiet same due due' pin fresh => exact h.still hp rfl same pin fresh
  | notify due due' pin fresh =>
    exact h.still hp rfl (fun _ => rfl) pin fun hf => absurd hf (by rw [fresh]; simp)
  | set accepted => exact h.set hp (hun _ _ hp) accepted
  | delete accepted => exact h.delete hp accepted
  | complete accepted => exact h.complete hp accepted

end System

namespace System

end System

/-- Every object of the namespace carries its key. -/
def CarriesKey (rt : Runtime) (store : MemoryStore) : Prop :=
  ∀ f, rt.spec.cardinality = .collection f → ∀ key, key.ns = rt.spec.name →
    ∀ r obj, store.row key = some r → r.value = .object obj →
      Fields.get obj f = some (.string key.key)

namespace System

/-- A patch that leaves the key out, when it commits, finds an object to merge into. -/
def FindsObject (rt : Runtime) (s : System) : Act → Prop
  | .advance i _ => ∀ call actor, s.procs[i]? = some (.set call (.commitSet actor)) →
      ∀ f obj, rt.spec.cardinality = .collection f → call.value = .object obj →
        Fields.get obj f = none → ∃ r o, s.store.row call.key = some r ∧ r.value = .object o
  | _ => True

variable {rt : Runtime} {store store' : MemoryStore} {event : RecordEvent}

theorem carriesKey_set {call : SetCall} (h : CarriesKey rt store) (hpassed : Proc.Passed rt call)
    (hfinds : ∀ f obj, rt.spec.cardinality = .collection f → call.value = .object obj →
      Fields.get obj f = none → ∃ r o, store.row call.key = some r ∧ r.value = .object o)
    {record : Record}
    (hc : store.commit (.set (rt.setCommit call)) = (.ok (some record, event), store')) :
    CarriesKey rt store' := by
  intro f hcard key hns r obj hr hobj
  rw [row_accepted hc] at hr
  split at hr
  · next hkey =>
    cases hr
    have hvalue : some record.value =
        (Commit.set (rt.setCommit call)).replay ((store.row call.key).map Record.value) := by
      obtain ⟨_, -, happ⟩ := commit_accepted hc
      exact happ.value
    have hkey' : key.key = call.key.key := hkey.2
    rw [hobj] at hvalue
    simp only [Commit.replay, Runtime.setCommit] at hvalue
    split at hvalue
    · next hold =>
      -- a patch of a row that is there
      obtain ⟨r, hrow, rfl⟩ := Option.map_eq_some_iff.mp hold
      obtain ⟨n, hn⟩ : ∃ n, call.value = .object n := by
        cases hv : call.value with
        | object n => exact ⟨n, rfl⟩
        | _ =>
          rw [hv] at hvalue
          cases hr : r.value <;> rw [hr] at hvalue <;> cases hvalue
      rw [hn] at hvalue
      cases hrv : r.value with
      | object o =>
        rw [hrv] at hvalue
        cases hvalue
        rw [Fields.get_insertAll, hkey']
        rcases hpassed.primaryKey f n hcard hn with hget | ⟨hget, -⟩
        · rw [hget]
          rfl
        · rw [hget]
          exact h f hcard call.key hpassed.ns r o hrow hrv
      | _ =>
        rw [hrv] at hvalue
        cases hvalue
        rcases hpassed.primaryKey f obj hcard hn with hget | ⟨hget, -⟩
        · rw [hget, hkey']
        obtain ⟨r', o, hrow', ho⟩ := hfinds f obj hcard hn hget
        rw [hrow] at hrow'
        cases hrow'
        rw [hrv] at ho
        cases ho
    · next hnot =>
      -- the value stands as it came
      have hn : call.value = .object obj := (Option.some.inj hvalue).symm
      rcases hpassed.primaryKey f obj hcard hn with hget | ⟨hget, hmerge⟩
      · rw [hget, hkey']
      · obtain ⟨_, o, hrow', -⟩ := hfinds f obj hcard hn hget
        exact absurd (congrArg (Option.map Record.value) hrow') (hnot _ hmerge)
  · exact h f hcard key hns r obj hr hobj

theorem carriesKey_delete {op : DeleteCommit} (h : CarriesKey rt store)
    (hc : store.commit (.delete op) = (.ok (none, event), store')) : CarriesKey rt store' := by
  intro f hcard key hns r obj hr
  rw [row_accepted hc] at hr
  split at hr
  · cases hr
  · exact h f hcard key hns r obj hr

theorem carriesKey_complete {op : CompleteCommit} (h : CarriesKey rt store) {row : Record}
    (hc : store.commit (.complete op) = (.ok (some row, event), store')) :
    CarriesKey rt store' := by
  obtain ⟨there, hthere, -, -, _, hr', hvalue, -⟩ := complete_accepted hc
  intro f hcard key hns r obj hr hobj
  rw [row_accepted hc] at hr
  split at hr
  · next hkey =>
    rw [hr'] at hr
    cases hr
    exact h f hcard key hns there obj ((SameRow.row_eq hkey store).trans hthere) (hvalue ▸ hobj)
  · exact h f hcard key hns r obj hr hobj

/-- Every call has passed its checks, and every object carries its key. -/
structure Keyed (rt : Runtime) (s : System) : Prop where
  checked : ∀ (i : Nat) (p : Proc), s.procs[i]? = some p → p.Checked rt
  carries : CarriesKey rt s.store

theorem Keyed.after {s : System} (h : Keyed rt s) {i : Nat} {p : Proc} (hp : s.procs[i]? = some p)
    {e : Effect} (hchecked : e.proc.Checked rt) (hcarries : CarriesKey rt e.store) :
    Keyed rt (s.after i e) := by
  refine ⟨?_, hcarries⟩
  intro j q hq
  rw [procs_after hp] at hq
  split at hq
  · cases hq
    exact hchecked
  · exact h.checked j q hq

theorem Keyed.step {s s' : System} {a : Act} (h : Keyed rt s) (hfinds : s.FindsObject rt a)
    (hstep : s.step rt a = some s') : Keyed rt s' := by
  rcases step_cases hstep with ⟨p, rfl, -, -, hp⟩ | ⟨i, hook, p, e, rfl, hp, hmoved, rfl⟩
  · refine ⟨?_, h.carries⟩
    intro j q hq
    refine forall_mem_append.mpr ⟨?_, forall_mem_singleton.mpr hp⟩ q (mem_of_getElem? hq)
    intro q hmem
    obtain ⟨k, hk⟩ := mem_iff_getElem?.mp hmem
    exact h.checked k q hk
  · have hcheck := h.checked i p hp
    cases hmoved with
    | quiet same due due' pin fresh checked =>
      refine h.after hp (checked hcheck) ?_
      intro f hcard key hns r obj hr
      rw [MemoryStore.row, same] at hr
      exact h.carries f hcard key hns r obj hr
    | notify due due' pin fresh checked => exact h.after hp (checked hcheck) h.carries
    | set accepted =>
      exact h.after hp hcheck (carriesKey_set h.carries hcheck (hfinds _ _ hp) accepted)
    | delete accepted => exact h.after hp trivial (carriesKey_delete h.carries accepted)
    | complete accepted => exact h.after hp trivial (carriesKey_complete h.carries accepted)

end System

end Cosmix.Props
