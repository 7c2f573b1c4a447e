/- source: cosmix-noded/src/subscription.rs
   digest: A new subscriber gets a message at least as new as every publish fanned out. -/

import Cosmix.Noded.Publishing

namespace Cosmix.Noded

open Cosmix.Bus Cosmix.Lib List

/-- The message is of the topic and has at least the number. -/
def Covers (name : String) (seq : Nat) (m : BusMessage) : Prop :=
  topicOf m = some name ∧ ∃ k, topicSeq m = some k ∧ seq ≤ k

variable {seq : Nat} {c : SubscribeCall}

theorem Covers.alike {name : String} {m m' : BusMessage} (h : Covers name seq m)
    (ha : Alike m m') : Covers name seq m' := by
  obtain ⟨htopic, k, hk, hle⟩ := h
  exact ⟨ha.topic.trans htopic, k, ha.seq.trans hk, hle⟩

/-- The subscriber's channel got a message of the topic with at least the number. -/
def Got (c : SubscribeCall) (sent : List Delivery) (seq : Nat) : Prop :=
  ∃ d ∈ sent, d.tx = c.tx ∧ Covers c.name seq d.message

theorem Got.append {sent : List Delivery} (h : Got c sent seq)
    (ds : List Delivery) : Got c (sent ++ ds) seq := by
  obtain ⟨d, hd, hgot⟩ := h
  exact ⟨d, mem_append_left ds hd, hgot⟩

/-- The topic's snapshot is at least as new as the number. -/
def Kept (name : String) (topics : Topics) (seq : Nat) : Prop :=
  ∃ state snap, topics[name]? = some state ∧ state.snapshot = some snap ∧
    topicOf snap.body = some name ∧ topicSeq snap.body = some snap.seq ∧ seq ≤ snap.seq ∧
    snap.seq ≤ state.nextSeq

/-- What a subscribe has to show for a publish fanned out: nothing until the snapshot is read, then
it or its replay. -/
def Owed (c : SubscribeCall) (sent : List Delivery) (seq : Nat) : SubscribePc → Prop
  | .check => True
  | .register => True
  | .read _ => True
  | .send _ m _ _ => Got c sent seq ∨ Covers c.name seq m
  | .done .. => Got c sent seq
  | .prune _ => False
  | .confirm _ => False

theorem Owed.append {sent : List Delivery} {pc : SubscribePc}
    (h : Owed c sent seq pc) (ds : List Delivery) : Owed c (sent ++ ds) seq pc := by
  cases pc with
  | check | register | read => trivial
  | send => exact h.imp_left fun h => Got.append h ds
  | done => exact Got.append h ds
  | prune | confirm => exact h

/-- Where the subscription is in the registry. -/
def Placed (c : SubscribeCall) (inner : BrokerInner) : SubscribePc → Prop
  | .check => inner.subscriptions[c.id]? = none
  | .register => True
  | .prune _ => False
  | .confirm _ => False
  | _ => inner.subscriptions[c.id]? = some c.subscription

/-- A publish next to the subscribe: the snapshot covers it once cached, and the subscribe owes it
once fanned out. -/
structure Followed (c : SubscribeCall) (b : Broker) (pc : SubscribePc) (p : Proc) : Prop where
  publishing : p.publishing c.name
  pending : ∀ call seq m ns, p = .publish call (.fanOut seq m ns) →
    topicOf m = some c.name ∧ topicSeq m = some seq
  kept : ∀ seq, p.cachedSeq = some seq → Kept c.name b.topics seq
  owed : ∀ seq, p.fannedSeq = some seq → Owed c b.outbound.sent seq pc

variable {p : Proc}

theorem Followed.uncached {b : Broker} {pc : SubscribePc}
    (hp : p.publishing c.name) (hseq : p.cachedSeq = none) : Followed c b pc p where
  publishing := hp
  pending := by
    rintro call seq m ns rfl
    cases hseq
  kept := by
    intro seq h
    rw [hseq] at h
    cases h
  owed := by
    intro seq h
    rw [Proc.cachedSeq_of_fanned h] at hseq
    cases hseq

/-- A subscribe among publishes. -/
structure Watched (c : SubscribeCall) (b : Broker) (pc : SubscribePc) (pubs : List Proc) : Prop where
  opened : b.outbound.Open
  placed : Placed c b.inner pc
  followed : ∀ p ∈ pubs, Followed c b pc p

namespace Watched

variable {c : SubscribeCall} {b b' : Broker} {pc pc' : SubscribePc} {pubs : List Proc} {env : Env}
  (h : Watched c b pc pubs)
include h

theorem moveOn (hopen : b'.outbound.Open) (htopics : b'.topics = b.topics)
    (hplaced : Placed c b'.inner pc')
    (howed : ∀ p ∈ pubs, ∀ seq, p.fannedSeq = some seq → Owed c b'.outbound.sent seq pc') :
    Watched c b' pc' pubs where
  opened := hopen
  placed := hplaced
  followed := by
    intro p hp
    have hf := h.followed p hp
    exact ⟨hf.publishing, hf.pending, fun seq hseq => htopics ▸ hf.kept seq hseq, howed p hp⟩

/-- A cached publish is in the snapshot, which the subscription admits and replays. -/
theorem replay_covers (hfilter : c.filter = none) (hp : p ∈ pubs)
    {seq : Nat} (hseq : p.fannedSeq = some seq) (closed : Chan → Bool) (preCount : Nat) :
    ∃ m, (c.readTopic b.topics closed preCount).1 = some m ∧ Covers c.name seq m := by
  obtain ⟨_, snap, hstate, hsnap, htopic, hnum, hle, -⟩ :=
    (h.followed p hp).kept seq (Proc.cachedSeq_of_fanned hseq)
  have hbody : Covers c.name seq snap.body := ⟨htopic, snap.seq, hnum, hle⟩
  have hadmits : c.subscription.admits snap.bodyNamespace = true := by
    unfold Subscription.admits SubscribeCall.subscription
    rw [hfilter]
  rw [SubscribeCall.readTopic, hstate]
  dsimp only
  rw [SubscribeCall.replay, hsnap]
  dsimp only
  rw [hadmits]
  refine ⟨_, rfl, ?_⟩
  split
  · exact hbody.alike (.set _ _ (by decide) (by decide))
  · exact hbody

/-- It reads the snapshot after it is registered, so a publish is fanned out to it or was cached
before. -/
theorem subscribe (hfilter : c.filter = none) (henv : env.Smooth)
    (hstep : b.stepSubscribe env c pc = some (b', pc')) : Watched c b' pc' pubs := by
  cases pc with
  | check =>
    have hnone : b.inner.subscriptions[c.id]? = none := h.placed
    rw [Broker.stepSubscribe, hnone] at hstep
    cases hstep
    exact h.moveOn h.opened rfl trivial fun _ _ _ _ => trivial
  | register =>
    cases hstep
    refine h.moveOn h.opened rfl ?_ fun _ _ _ _ => trivial
    exact (b.inner.getElem?_register c.subscription c.id).trans (if_pos rfl)
  | read preCount =>
    rw [Broker.stepSubscribe] at hstep
    split at hstep
    · next hread =>
      cases hstep
      refine h.moveOn h.opened rfl h.placed fun p hp n hn => ?_
      obtain ⟨m, hm, -⟩ := h.replay_covers hfilter hp hn b.outbound.closed preCount
      rw [hread] at hm
      cases hm
    · next hread =>
      cases hstep
      refine h.moveOn h.opened rfl h.placed fun p hp n hn => ?_
      obtain ⟨_, hm', hcovers⟩ := h.replay_covers hfilter hp hn b.outbound.closed preCount
      rw [hread] at hm'
      cases hm'
      exact .inr hcovers
  | send preCount m =>
    obtain ⟨d, ⟨-, htx, halike⟩, hsend⟩ :=
      Outbound.sendSnapshot_smooth henv h.opened c.subscription m
    rw [Broker.stepSubscribe, Outbound.visit_smooth henv, hsend] at hstep
    cases hstep
    refine h.moveOn h.opened rfl h.placed fun p hp n hn => ?_
    rcases (h.followed p hp).owed n hn with hgot | hcovers
    · exact hgot.append [d]
    · exact ⟨d, mem_append_right _ mem_cons_self, htx, hcovers.alike halike⟩
  | prune | confirm => exact h.placed.elim
  | done => cases hstep

theorem put (hopen : b'.outbound.Open) (hinner : b'.inner = b.inner)
    (hkept : ∀ seq, Kept c.name b.topics seq → Kept c.name b'.topics seq)
    (howed : ∀ seq, Owed c b.outbound.sent seq pc → Owed c b'.outbound.sent seq pc)
    (hp : Followed c b' pc p) (i : Nat) : Watched c b' pc (pubs.set i p) where
  opened := hopen
  placed := hinner ▸ h.placed
  followed := by
    intro q hq
    rcases mem_or_eq_of_mem_set hq with hq | rfl
    · have hf := h.followed q hq
      exact ⟨hf.publishing, hf.pending, fun seq hseq => hkept seq (hf.kept seq hseq),
        fun seq hseq => howed seq (hf.owed seq hseq)⟩
    · exact hp

/-- A fan-out pays the subscribe's debt when the subscription is in the registry. -/
theorem owed_fanned (hfilter : c.filter = none) (henv : env.Smooth)
    {call : PublishCall} (hname : call.name = c.name) {m : BusMessage} {seq : Nat}
    (hm : Covers c.name seq m) (ns : Option String) :
    Owed c (call.fanOut env b.inner b.outbound ns m).outbound.sent seq pc := by
  have hgot : b.inner.subscriptions[c.id]? = some c.subscription →
      Got c (call.fanOut env b.inner b.outbound ns m).outbound.sent seq := by
    intro hsub
    have htopic : c.subscription.isTopic call.name = true := by
      rw [hname]
      exact decide_eq_true rfl
    obtain ⟨ds, d, hwent, hd, htx, halike, -⟩ :=
      call.fanOut_received henv h.opened ns m hsub htopic hfilter
    rw [hwent.outbound]
    exact ⟨d, mem_append_right _ hd, htx, hm.alike halike⟩
  cases pc with
  | check | register | read => trivial
  | send => exact .inl (hgot h.placed)
  | done => exact hgot h.placed
  | prune | confirm => exact h.placed.elim

theorem publish (hfilter : c.filter = none) (henv : env.Smooth)
    {call : PublishCall} {ppc ppc' : PublishPc} (hmem : .publish call ppc ∈ pubs)
    (hmove : PublishMoved env b call ppc b' ppc') (i : Nat) :
    Watched c b' pc (pubs.set i (.publish call ppc')) := by
  have hf := h.followed _ hmem
  obtain ⟨hname, hretain, -⟩ := hf.publishing
  cases hmove with
  | refused e he =>
    have hp : (Proc.publish call (.done (.error e))).publishing c.name := ⟨hname, hretain, rfl⟩
    exact h.put h.opened rfl (fun _ hk => hk) (fun _ ho => ho) (.uncached hp he) i
  | accepted m ns =>
    have hp : (Proc.publish call (.cache m ns)).publishing c.name := ⟨hname, hretain, rfl⟩
    exact h.put h.opened rfl (fun _ hk => hk) (fun _ ho => ho) (.uncached hp rfl) i
  | cached m m' ns state hstate htopic hnum =>
    have hget : (b.topics.insert call.name (call.cached state m' ns))[c.name]? =
        some (call.cached state m' ns) := by
      rw [hname]
      exact Std.ExtTreeMap.getElem?_insert_self
    rw [hname] at htopic hstate
    have hnew : ∀ seq, seq ≤ state.nextSeq + 1 →
        Kept c.name (b.topics.insert call.name (call.cached state m' ns)) seq := fun seq hle =>
      ⟨_, _, hget, call.cached_retained hretain state m' ns, htopic, hnum, hle, le_rfl⟩
    refine h.put ?_ ?_ (fun seq hk => ?_) (fun _ ho => ?_) ?_ i
    · exact h.opened
    · rfl
    · -- the numbers given so far are not above the topic's counter
      obtain ⟨old, snap, hold, -, -, -, hle, hnext⟩ := hk
      rw [hold] at hstate
      subst hstate
      exact hnew seq (by omega)
    · exact ho
    · refine ⟨⟨hname, hretain, rfl⟩, ?_, ?_, nofun⟩
      · intro call' seq m'' ns' heq
        cases heq
        exact ⟨htopic, hnum⟩
      · intro seq hseq
        cases hseq
        exact hnew _ le_rfl
  | fanned seq m ns outcome hseq =>
    obtain ⟨htopic, hnum⟩ := hf.pending call seq m ns rfl
    have hcovers : Covers c.name seq m := ⟨htopic, seq, hnum, le_rfl⟩
    obtain ⟨ds, -, hwent⟩ := call.fanOut_smooth henv h.opened b.inner ns m
    refine h.put ?_ ?_ (fun _ hk => ?_) (fun n ho => ?_) ?_ i
    · rw [hwent.outbound]
      exact h.opened
    · rfl
    · exact hk
    · rw [hwent.outbound]
      exact ho.append ds
    · refine ⟨⟨hname, hretain, rfl⟩, nofun, ?_, ?_⟩
      · intro n hn
        rw [← hseq] at hf
        exact hf.kept n hn
      · intro n hn
        have heq : outcome.seq = n := Option.some.inj hn
        rw [← heq, hseq]
        exact h.owed_fanned hfilter henv hname hcovers ns

omit h

end Watched

/-- The system of one subscribe and the publishes that came. -/
def System.Subscribing (c : SubscribeCall) (s : System) : Prop :=
  ∃ pc pubs, s.procs = .subscribe c pc :: pubs ∧ Watched c s.broker pc pubs

theorem System.Subscribing.step {json : JsonReader} {c : SubscribeCall} (hfilter : c.filter = none)
    {s s' : System} {a : Act} (h : s.Subscribing c) (ha : a.publishing c.name)
    (hstep : s.step json a = some s') : s'.Subscribing c := by
  obtain ⟨pc, pubs, hprocs, hw⟩ := h
  cases a with
  | call call =>
    cases hstep
    cases call with
    | publish call =>
      refine ⟨pc, pubs ++ [.publish call .start], ?_, hw.opened, hw.placed, fun p hp => ?_⟩
      · rw [hprocs]
        rfl
      · rcases mem_append.mp hp with hp | hp
        · exact hw.followed p hp
        · rw [mem_singleton.mp hp]
          exact .uncached ⟨ha.1, ha.2, rfl⟩ rfl
    | _ => exact False.elim ha
  | close => exact ha.elim
  | advance i =>
    obtain ⟨p, hp, hstep⟩ := Option.bind_eq_some_iff.mp hstep
    obtain ⟨⟨_, _⟩, hmove, rfl⟩ := Option.map_eq_some_iff.mp hstep
    rw [hprocs] at hp
    cases i with
    | zero =>
      cases hp
      obtain ⟨⟨b'', pc'⟩, hsub, heq⟩ := Option.map_eq_some_iff.mp hmove
      cases heq
      refine ⟨pc', pubs, ?_, hw.subscribe hfilter ha hsub⟩
      rw [hprocs]
      rfl
    | succ i =>
      have hmem : p ∈ pubs := mem_of_getElem? hp
      obtain ⟨call, _, rfl, -, -, hpc⟩ := Proc.publishing_cases (hw.followed p hmem).publishing
      obtain ⟨⟨_, ppc'⟩, hpub, heq⟩ := Option.map_eq_some_iff.mp hmove
      cases heq
      have hmoved := Broker.stepPublish_smooth ha hw.opened hpc hpub
      refine ⟨pc, pubs.set i (.publish call ppc'), ?_, hw.publish hfilter ha hmem hmoved i⟩
      rw [hprocs]
      rfl

end Cosmix.Noded
