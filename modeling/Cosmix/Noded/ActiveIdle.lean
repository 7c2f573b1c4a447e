/- source: cosmix-noded/src/subscription.rs
   digest: Sequential runs after a publish: the notices alternate and end as the subscriptions say. -/

import Cosmix.Noded.Alternation

namespace Cosmix.Noded

open Cosmix.Bus Cosmix.Lib List

/-- An act of a sequential run in which one publisher, whose channel stays open, has the topic; the
broker has the topic before each section, and a subscribe is evicted at its replay only when it had
found no subscription or leaves another one. -/
structure Lawful (json : JsonReader) (name peer : String) (tx : Chan) (s : System) (a : Act) :
    Prop where
  sequential : ∀ c, a = .call c → ∀ p ∈ s.procs, p.returned = true
  lawful : ∀ c, a = .call c → c.lawful name peer tx
  opened : ∀ s', s.step json a = some s' → s'.broker.outbound.closed tx = false
  kept : ∀ i env, a = .advance i env → s.broker.topics[name]? ≠ none
  evicted : ∀ i env c preCount m seq active, a = .advance i env →
    s.procs[i]? = some (.subscribe c (.send preCount m seq active)) → c.name = name →
    (s.broker.outbound.visit env c.subscription).closed c.tx = true →
    preCount = 0 ∨ Accompanied name s.broker.inner c.id

section

variable {name peer : String} {b : Broker} {n : Nat} {p : Proc}

theorem Due.settled (h : Due name peer b n p) (hp : p.returned = true) : Settled name b.inner n := by
  cases p with
  | publish call pc | unsubscribe topic q pc | removePeer q owner pc | janitorTick now pc
  | clear topic notify pc =>
    cases pc with
    | done => exact h
    | _ => cases hp
  | subscribe c pc =>
    cases pc with
    | done =>
      rw [Due] at h
      split at h
      · next hname => exact hname ▸ h
      · exact h.1
    | _ => cases hp
  | subscribeUiEvent | unsubscribeUiEvent => exact h

theorem due_start (c : Call) (h : Settled name b.inner n) : Due name peer b n c.start := by
  cases c with
  | subscribe =>
    rw [Call.start, Due]
    split
    · next hname =>
      rw [← hname] at h
      exact h
    · exact ⟨h, trivial⟩
  | _ => exact h

theorem notes_start (c : Call) : c.start.notes = [] := by
  cases c <;> rfl

theorem stepProc_returned {json : JsonReader} {env : Env} (hp : p.returned = true) :
    b.stepProc json env p = none := by
  cases p with
  | publish call pc | subscribe c pc | unsubscribe topic q pc | removePeer q owner pc
  | janitorTick now pc | clear topic notify pc =>
    cases pc with
    | done => rfl
    | _ => cases hp
  | subscribeUiEvent | unsubscribeUiEvent =>
    cases hp
    rfl

theorem Due.close (h : Due name peer b n p) (c : Chan) :
    Due name peer { b with outbound := b.outbound.close c } n p := by
  cases p with
  | subscribe call pc =>
    rw [Due] at h ⊢
    split
    · next hname =>
      rw [if_pos hname] at h
      cases pc with
      | prune => exact ⟨h.1, Bool.or_eq_true_iff.mpr (.inl h.2.1), h.2.2⟩
      | _ => exact h
    · next hname =>
      rw [if_neg hname] at h
      exact h
  | publish call pc | unsubscribe topic q pc | clear topic notify pc | removePeer q owner pc
  | janitorTick now pc => cases pc <;> exact h
  | subscribeUiEvent | unsubscribeUiEvent => exact h

end

/-- A sequential run: all calls but the last have returned, and the notices are counted. -/
structure System.Tracked (name peer : String) (tx : Chan) (s : System) (front : List Proc) (p : Proc)
    (n : Nat) : Prop where
  procs : s.procs = front ++ [p]
  returned : ∀ q ∈ front, q.returned = true
  lawful : p.call.lawful name peer tx
  keyed : Keyed name s.broker.inner
  owned : OwnedAt name peer tx s.broker.topics
  notices : s.notices peer name = alternating n
  due : Due name peer s.broker n p

theorem System.Tracked.step {json : JsonReader} {name peer : String} {tx : Chan} {s s' : System}
    {front : List Proc} {p : Proc} {n : Nat} {a : Act} (h : s.Tracked name peer tx front p n)
    (ha : Lawful json name peer tx s a) (hstep : s.step json a = some s') :
    ∃ front' p' n', s'.Tracked name peer tx front' p' n' := by
  cases a with
  | call c =>
    have hreturned := ha.sequential c rfl
    have hlast : p.returned = true := hreturned p (by rw [h.procs]; simp)
    cases hstep
    refine ⟨front ++ [p], c.start, n, ?_, ?_, ?_, h.keyed, h.owned, ?_,
      due_start c (h.due.settled hlast)⟩
    · rw [← h.procs]
    · rw [← h.procs]
      exact hreturned
    · rw [c.call_start]
      exact ha.lawful c rfl
    · rw [← h.notices]
      simp [System.notices, notes_start]
  | close c =>
    cases hstep
    exact ⟨front, p, n, h.procs, h.returned, h.lawful, h.keyed, h.owned, h.notices, h.due.close c⟩
  | advance i env =>
    have hopen := ha.opened s' hstep
    obtain ⟨q, hq, hstep'⟩ := Option.bind_eq_some_iff.mp hstep
    obtain ⟨⟨b', p'⟩, hmove, rfl⟩ := Option.map_eq_some_iff.mp hstep'
    -- only the last call can move
    have hi : i = front.length := by
      rw [h.procs, List.getElem?_append] at hq
      split at hq
      · have hret := h.returned q (mem_of_getElem? hq)
        rw [stepProc_returned hret] at hmove
        cases hmove
      · have hlt := (List.getElem?_eq_some_iff.mp hq).1
        rw [length_singleton] at hlt
        omega
    have hqp : q = p := by
      rw [h.procs, hi, List.getElem?_append_right le_rfl, Nat.sub_self] at hq
      exact (Option.some.inj hq).symm
    subst hqp
    obtain ⟨state, hstate⟩ := Option.ne_none_iff_exists'.mp (ha.kept i env rfl)
    obtain ⟨notes, n', hnotes, hemits, hdue⟩ := h.due.step h.keyed hstate (h.owned state hstate)
      hopen h.lawful (fun c preCount m seq active hc => by
        rw [hc] at hq
        exact ha.evicted i env c preCount m seq active rfl hq) hmove
    have hprocs : s.procs.set i p' = front ++ [p'] := by
      rw [h.procs, hi, set_append_right _ _ le_rfl, Nat.sub_self]
      rfl
    refine ⟨front, p', n', hprocs, h.returned, ?_, h.keyed.moved (Broker.stepProc_inner hmove),
      h.owned.moved h.lawful (Broker.stepProc_topics hmove), ?_, hdue⟩
    · rw [Broker.stepProc_call hmove]
      exact h.lawful
    · have hbefore := h.notices
      rw [System.notices, h.procs, flatMap_append, noticesFor_append] at hbefore
      change noticesFor peer name ((s.procs.set i p').flatMap Proc.notes) = alternating n'
      rw [hprocs, flatMap_append, noticesFor_append, ← hemits.alternating, ← hbefore]
      simp [hnotes]

theorem getElem?_alternating {n i : Nat} {c : Option String} (h : (alternating n)[i]? = some c) :
    c = some (if i % 2 = 0 then "topic.active" else "topic.idle") := by
  unfold alternating at h
  rw [List.getElem?_map] at h
  obtain ⟨j, hj, heq⟩ := Option.map_eq_some_iff.mp h
  obtain ⟨hlt, hij⟩ := List.getElem?_eq_some_iff.mp hj
  rw [getElem_range] at hij
  rw [← heq, hij]

theorem getLast?_alternating (n : Nat) :
    (alternating n).getLast? = some (some "topic.active") ↔ n % 2 = 1 := by
  cases n with
  | zero => simp [alternating]
  | succ n =>
    unfold alternating
    rw [range_succ, map_append, map_singleton, List.getLast?_concat]
    by_cases heven : n % 2 = 0
    · rw [if_pos heven]
      exact ⟨fun _ => by omega, fun _ => rfl⟩
    · rw [if_neg heven]
      refine ⟨fun hc => absurd (Option.some.inj (Option.some.inj hc)) (by decide), fun hc => ?_⟩
      omega

/-- After a cached publish, in a lawful sequential run: whenever all calls have returned, the
notices are active and idle in turn, and the last is active exactly when there is a subscription. -/
theorem notices_alternate {json : JsonReader} {name peer : String} {tx : Chan} {b : Broker}
    (hnone : b.inner.topicCount name = 0) {call : PublishCall} (hname : call.name = name)
    (hpeer : call.fromPeer = peer) (htx : call.fromTx = tx) {env : Env} {m₀ m : BusMessage}
    {ns : Option String} {seq : Nat} {topics : Topics}
    (hcache : call.cache env m₀ ns b.topics = .ok (seq, m, topics)) {acts : List Act}
    (hlaw : Guarded (System.step json) (Lawful json name peer tx)
      ⟨{ b with topics := topics }, [.publish call (.fanOut seq m ns)]⟩ acts)
    {s : System}
    (hrun : System.run json ⟨{ b with topics := topics }, [.publish call (.fanOut seq m ns)]⟩ acts =
      some s)
    (hreturned : ∀ p ∈ s.procs, p.returned = true) :
    (∀ (i : Nat) (c : Option String), (s.notices peer name)[i]? = some c →
      c = some (if i % 2 = 0 then "topic.active" else "topic.idle")) ∧
    ((s.notices peer name).getLast? = some (some "topic.active") ↔
      0 < s.broker.inner.topicCount name) := by
  have hnot := topicCount_eq_zero_iff.mp hnone
  obtain ⟨state, hstate, howned⟩ : ∃ state, topics[name]? = some state ∧ OwnedBy peer tx state := by
    rcases call.cache_cases env m₀ ns b.topics with ⟨e, he, -⟩ | ⟨_, -, -, hok⟩
    · rw [hcache] at he
      cases he
    rw [hcache] at hok
    cases hok
    refine ⟨call.cached (b.topics[call.name]?.getD .new) m ns, ?_, ?_, ?_⟩
    · rw [hname]
      exact Std.ExtTreeMap.getElem?_insert_self
    · exact congrArg some hpeer
    · exact congrArg some htx
  have hstart : System.Tracked name peer tx
      ⟨{ b with topics := topics }, [.publish call (.fanOut seq m ns)]⟩ []
      (.publish call (.fanOut seq m ns)) 0 := by
    refine ⟨rfl, nofun, fun _ => ⟨hpeer, htx⟩, fun k sub hsub htopic => ?_, fun st hst => ?_, rfl,
      nofun, fun hc => absurd hc hnot⟩
    · exact absurd ⟨k, sub, hsub, htopic⟩ hnot
    · rw [hstate] at hst
      cases hst
      exact howned
  obtain ⟨front, p, n, hend⟩ : ∃ front p n, s.Tracked name peer tx front p n :=
    runFrom_guarded (P := fun s : System => ∃ front p n, s.Tracked name peer tx front p n)
      (fun _ _ _ ⟨_, _, _, h⟩ ha hs => h.step ha hs) ⟨_, _, _, hstart⟩ hlaw hrun
  have hlast : p.returned = true := hreturned p (by rw [hend.procs]; simp)
  have hsettled := hend.due.settled hlast
  rw [hend.notices]
  refine ⟨fun i c hc => getElem?_alternating hc, ?_⟩
  rw [getLast?_alternating, Nat.pos_iff_ne_zero, ne_eq, topicCount_eq_zero_iff, Classical.not_not]
  exact hsettled

private def radioPublish (retain : Bool) : PublishCall :=
  ⟨"radio", "---\ncommand: tune\n---\n", "tuner", 1, .localNode, retain, none⟩

private def radioSubscribe (peer : String) (tx : Chan) : SubscribeCall := ⟨"radio", peer, tx, none, false⟩

-- a listener comes and goes, another comes
private def radioActs : List Act :=
  [.advance 0 .calm, .call (.subscribe (radioSubscribe "kitchen" 2)), .advance 1 .calm,
    .advance 1 .calm, .advance 1 .calm, .advance 1 .calm, .call (.unsubscribe "radio" "kitchen"),
    .advance 2 .calm, .advance 2 .calm, .call (.subscribe (radioSubscribe "garden" 3)),
    .advance 3 .calm, .advance 3 .calm, .advance 3 .calm, .advance 3 .calm]

private def radioQuiet (s : System) : Act → Bool
  | .call (.subscribe _) => s.procs.all Proc.returned && !s.broker.outbound.closed 1
  | .call (.unsubscribe _ _) => s.procs.all Proc.returned && !s.broker.outbound.closed 1
  | .advance i env =>
    s.broker.topics["radio"]?.isSome &&
      (((s.step .lenient (.advance i env)).all fun s' => !s'.broker.outbound.closed 1) &&
        match s.procs[i]? with
        | some (.subscribe c (.send ..)) => !(s.broker.outbound.visit env c.subscription).closed c.tx
        | _ => true)
  | _ => false

private theorem radio_lawful (s : System) (a : Act) (h : radioQuiet s a = true) :
    Lawful .lenient "radio" "tuner" 1 s a := by
  cases a with
  | call c =>
    have hc : (s.procs.all Proc.returned = true ∧ s.broker.outbound.closed 1 = false) ∧
        c.lawful "radio" "tuner" 1 := by
      cases c with
      | subscribe | unsubscribe =>
        obtain ⟨hall, hopen⟩ := Bool.and_eq_true_iff.mp h
        exact ⟨⟨hall, by simpa using hopen⟩, trivial⟩
      | _ => cases h
    refine ⟨fun _ _ => all_eq_true.mp hc.1.1, ?_, ?_, nofun, nofun⟩
    · rintro _ ⟨⟩
      exact hc.2
    · rintro s' ⟨⟩
      exact hc.1.2
  | advance =>
    obtain ⟨hkept, hrest⟩ := Bool.and_eq_true_iff.mp h
    obtain ⟨hopen, hsend⟩ := Bool.and_eq_true_iff.mp hrest
    refine ⟨nofun, nofun, fun s' hs' => ?_, fun _ _ _ => ?_, ?_⟩
    · rw [hs'] at hopen
      simpa using hopen
    · exact Option.isSome_iff_ne_none.mp hkept
    · rintro j env' c preCount m seq active ⟨⟩ hproc hname hclosed
      rw [hproc] at hsend
      simp [hclosed] at hsend
  | close => cases h

theorem notices_alternate_radio : ∃ s : System, s.broker.inner.topicCount "radio" = 1 ∧
    (s.notices "tuner" "radio").getLast? = some (some "topic.active") := by
  have hend : ((radioPublish true).cache .calm .new none ∅).toOption.bind (fun r =>
      let start : System := ⟨⟨.new, r.2.2, ⟨fun _ => false, []⟩⟩,
        [.publish (radioPublish true) (.fanOut r.1 r.2.1 none)]⟩
      (System.run .lenient start radioActs).map fun s =>
        (checkRun (System.step .lenient) radioQuiet start radioActs,
          s.procs.all Proc.returned, s.broker.inner.topicCount "radio")) =
      some (true, true, 1) := by decide +kernel
  obtain ⟨⟨seq, m, topics⟩, hcache, hrest⟩ := Option.bind_eq_some_iff.mp hend
  obtain ⟨s, hrun, hs⟩ := Option.map_eq_some_iff.mp hrest
  obtain ⟨hcheck, hmore⟩ := Prod.mk.inj hs
  obtain ⟨hreturned, hcount⟩ := Prod.mk.inj hmore
  have hok : (radioPublish true).cache .calm .new none ∅ = .ok (seq, m, topics) := by
    cases hr : (radioPublish true).cache .calm .new none ∅ with
    | error =>
      rw [hr] at hcache
      cases hcache
    | ok =>
      rw [hr] at hcache
      exact congrArg Except.ok (Option.some.inj hcache)
  have hall := notices_alternate (b := .new) rfl (rfl : _ = "radio") (rfl : _ = "tuner") rfl hok
    (guarded_of_checkRun radio_lawful hcheck) hrun (all_eq_true.mp hreturned)
  have hpos : 0 < s.broker.inner.topicCount "radio" := by
    rw [hcount]
    exact Nat.one_pos
  exact ⟨s, hcount, hall.2.mpr hpos⟩

/-- A topic without a value is forgotten with its publisher, who hears of no later listener. -/
theorem forgotten_topic_is_silent : ∃ s, System.run .lenient .new
    [.call (.publish (radioPublish false)), .advance 0 .calm, .advance 0 .calm, .advance 0 .calm,
      .call (.subscribe (radioSubscribe "kitchen" 2)), .advance 1 .calm, .advance 1 .calm,
      .advance 1 .calm, .call (.unsubscribe "radio" "kitchen"), .advance 2 .calm, .advance 2 .calm,
      .call (.subscribe (radioSubscribe "garden" 3)), .advance 3 .calm, .advance 3 .calm,
      .advance 3 .calm] = some s ∧ (∀ p ∈ s.procs, p.returned = true) ∧
    s.notices "tuner" "radio" = [some "topic.active", some "topic.idle"] ∧
    s.broker.inner.topicCount "radio" = 1 := by
  have hend : (System.run .lenient .new
      [.call (.publish (radioPublish false)), .advance 0 .calm, .advance 0 .calm, .advance 0 .calm,
        .call (.subscribe (radioSubscribe "kitchen" 2)), .advance 1 .calm, .advance 1 .calm,
        .advance 1 .calm, .call (.unsubscribe "radio" "kitchen"), .advance 2 .calm, .advance 2 .calm,
        .call (.subscribe (radioSubscribe "garden" 3)), .advance 3 .calm, .advance 3 .calm,
        .advance 3 .calm]).map (fun s =>
      (s.procs.all Proc.returned, s.notices "tuner" "radio", s.broker.inner.topicCount "radio")) =
      some (true, [some "topic.active", some "topic.idle"], 1) := by decide +kernel
  obtain ⟨s, hrun, hs⟩ := Option.map_eq_some_iff.mp hend
  obtain ⟨hreturned, hmore⟩ := Prod.mk.inj hs
  obtain ⟨hnotices, hcount⟩ := Prod.mk.inj hmore
  exact ⟨s, hrun, all_eq_true.mp hreturned, hnotices, hcount⟩

end Cosmix.Noded
