/- source: cosmix-noded/src/subscription.rs
   digest: The broker's calls cut at their locks, in any interleaving; subscription ids. -/

import Cosmix.Lib.Machine
import Cosmix.Noded.Broker

namespace Cosmix.Noded

open Cosmix.Bus

/-- What the locks guard, and the channels. -/
structure Broker where
  inner : BrokerInner
  topics : Topics
  outbound : Outbound

protected def Broker.new : Broker := ⟨.new, ∅, ⟨fun _ => false, []⟩⟩

/-! Where a call stands. A place with data is before the section that reads it. -/

inductive PublishPc
  | start
  | cache (message : BusMessage) (ns : Option String)
  | fanOut (seq : Nat) (message : BusMessage) (ns : Option String)
  | prune (outcome : PublishResult) (failure : Option PublishError) (ids : List String)
  | idle (outcome : PublishResult) (failure : Option PublishError) (names : IdSet)
  | done (result : Except PublishError PublishResult)

inductive SubscribePc
  | check
  | register
  | read (preCount : Nat)
  | send (preCount : Nat) (replay : BusMessage) (seq : Nat) (active : Option Notification)
  | prune (active : Option Notification)
  | confirm (active : Option Notification)
  | done (id : String) (replayed : Bool) (seq : Nat) (notifications : List Notification)

inductive UnsubscribePc
  | remove
  | idle
  | done (notifications : List Notification)

inductive ClearPc
  | start
  | fanOut (message : BusMessage) (ns : Option String)
  | prune (delivered : Nat) (ids : List String)
  | idle (delivered : Nat) (names : IdSet)
  | done (delivered : Nat) (notifications : List Notification)

inductive RemovePeerPc
  | remove
  | disown (names : IdSet)
  | idle (names : IdSet)
  | done (notifications : List Notification)

inductive JanitorPc
  | collect
  | prune (ids : List String)
  | idle (names : IdSet)
  | count (notifications : List Notification)
  | retain (counts : String → Nat) (notifications : List Notification)
  | done (notifications : List Notification)

/-- A call of the broker with its arguments; the janitor's is the time it starts at. -/
inductive Call
  | publish (call : PublishCall)
  | subscribe (call : SubscribeCall)
  | unsubscribe (name peer : String)
  | clear (name : String) (notify : Bool)
  | subscribeUiEvent (peer source : String) (action : Option String) (tx : Chan)
  | unsubscribeUiEvent (peer source : String) (action : Option String)
  | removePeer (peer : String) (owner : Chan)
  | janitorTick (now : Nat)

inductive Proc
  | publish (call : PublishCall) (pc : PublishPc)
  | subscribe (call : SubscribeCall) (pc : SubscribePc)
  | unsubscribe (name peer : String) (pc : UnsubscribePc)
  | clear (name : String) (notify : Bool) (pc : ClearPc)
  | subscribeUiEvent (peer source : String) (action : Option String) (tx : Chan) (done : Bool)
  | unsubscribeUiEvent (peer source : String) (action : Option String) (done : Bool)
  | removePeer (peer : String) (owner : Chan) (pc : RemovePeerPc)
  | janitorTick (now : Nat) (pc : JanitorPc)

def Call.start : Call → Proc
  | .publish call => .publish call .start
  | .subscribe call => .subscribe call .check
  | .unsubscribe name peer => .unsubscribe name peer .remove
  | .clear name notify => .clear name notify .start
  | .subscribeUiEvent peer source action tx => .subscribeUiEvent peer source action tx false
  | .unsubscribeUiEvent peer source action => .unsubscribeUiEvent peer source action false
  | .removePeer peer owner => .removePeer peer owner .remove
  | .janitorTick now => .janitorTick now .collect

def Proc.returned : Proc → Bool
  | .publish _ (.done _) => true
  | .subscribe _ (.done ..) => true
  | .unsubscribe _ _ (.done _) => true
  | .clear _ _ (.done ..) => true
  | .subscribeUiEvent _ _ _ _ done => done
  | .unsubscribeUiEvent _ _ _ done => done
  | .removePeer _ _ (.done _) => true
  | .janitorTick _ (.done _) => true
  | _ => false

/-- The outcome of a publish, or the failure it was interrupted by. -/
def PublishResult.finish (outcome : PublishResult) :
    Option PublishError → Except PublishError PublishResult
  | none => .ok outcome
  | some cause => .error (.interrupted cause outcome)

/-- The subscription a UI event call registers. -/
def uiEventSubscription (peer source : String) (action : Option String) (tx : Chan) : Subscription :=
  ⟨false, uiEventSubId peer source action, peer, .uiEvent source action, tx, none⟩

namespace Broker

def prune (b : Broker) (env : Env) (ids : List String) : IdSet × Broker :=
  let p := pruneDeadSubscriptions env b.inner b.outbound ids
  (p.affected, { b with inner := p.inner, outbound := p.outbound })

/-- The idle notices of some topics, on the broker as a whole. -/
def idleNotices (b : Broker) (env : Env) (names : IdSet) : List Notification × Broker :=
  let r := idleNotificationsForPrunedTopics env b.inner b.topics b.outbound names
  (r.1, { b with outbound := r.2 })

def stepPublish (json : JsonReader) (env : Env) (b : Broker) (call : PublishCall) :
    PublishPc → Option (Broker × PublishPc)
  | .start =>
    match call.accept json with
    | .error e => some (b, .done (.error e))
    | .ok (m, ns) => some (b, .cache m ns)
  | .cache m ns =>
    match call.cache env m ns b.topics with
    | .error e => some (b, .done (.error e))
    | .ok (seq, m, topics) => some ({ b with topics := topics }, .fanOut seq m ns)
  | .fanOut seq m ns =>
    let fan := call.fanOut env b.inner b.outbound ns m
    let outcome : PublishResult :=
      ⟨seq, fan.delivered, fan.refused, fan.dropped, call.eligible b.inner ns, []⟩
    some ({ b with outbound := fan.outbound },
      if fan.toPrune.isEmpty then .done (outcome.finish fan.failure)
      else .prune outcome fan.failure fan.toPrune)
  | .prune outcome failure ids =>
    let p := b.prune env ids
    some (p.2,
      if p.1.isEmpty then .done (outcome.finish failure) else .idle outcome failure p.1)
  | .idle outcome failure names =>
    let r := b.idleNotices env names
    some (r.2, .done ({ outcome with notifications := r.1 }.finish failure))
  | .done _ => none

variable (env : Env)

def stepSubscribe (b : Broker) (call : SubscribeCall) : SubscribePc → Option (Broker × SubscribePc)
  | .check =>
    match b.inner.subscriptions[call.id]? with
    | some existing =>
      if b.outbound.closed existing.tx then some (b, .register)
      else some (b, .done call.id false 0 [])
    | none => some (b, .register)
  | .register =>
    some ({ b with inner := b.inner.register call.subscription },
      .read (b.inner.topicCount call.name))
  | .read preCount =>
    match call.readTopic b.topics b.outbound.closed preCount with
    | (none, seq, active) => some (b, .done call.id false seq active.toList)
    | (some m, seq, active) => some (b, .send preCount m seq active)
  | .send _ m seq active =>
    let r := (b.outbound.visit env call.subscription).sendSnapshot env call.subscription m
    some ({ b with outbound := r.2 },
      if r.1 = .closed then .prune active else .done call.id true seq active.toList)
  | .prune active => some ((b.prune env [call.id]).2, .confirm active)
  | .confirm active =>
    let entryLive :=
      match b.inner.subscriptions[call.id]? with
      | some s => !b.outbound.closed s.tx
      | none => false
    some (b, .done call.id false 0 (if entryLive then active.toList else []))
  | .done .. => none

def stepUnsubscribe (b : Broker) (name peer : String) :
    UnsubscribePc → Option (Broker × UnsubscribePc)
  | .remove =>
    let ids := b.inner.idsOn name peer
    if ids.isEmpty then some (b, .done [])
    else
      let inner := b.inner.drop peer ids
      some ({ b with inner := inner }, if inner.topicCount name = 0 then .idle else .done [])
  | .idle =>
    let r := unsubscribeTopics b.topics b.outbound.closed name
    some ({ b with topics := r.2 }, .done r.1)
  | .done _ => none

def stepClear (b : Broker) (name : String) (notify : Bool) : ClearPc → Option (Broker × ClearPc)
  | .start =>
    match clearTopic b.topics name notify with
    | (none, topics) => some ({ b with topics := topics }, .done 0 [])
    | (some (m, ns), topics) => some ({ b with topics := topics }, .fanOut m ns)
  | .fanOut m ns =>
    let fan := clearFanOut env b.inner b.outbound name ns m
    some ({ b with outbound := fan.outbound },
      if fan.toPrune.isEmpty then .done fan.delivered [] else .prune fan.delivered fan.toPrune)
  | .prune delivered ids =>
    let p := b.prune env ids
    some (p.2, if p.1.isEmpty then .done delivered [] else .idle delivered p.1)
  | .idle delivered names =>
    let r := b.idleNotices env names
    some (r.2, .done delivered r.1)
  | .done .. => none

def stepRemovePeer (b : Broker) (peer : String) (owner : Chan) :
    RemovePeerPc → Option (Broker × RemovePeerPc)
  | .remove =>
    some ({ b with inner := b.inner.removeOwned peer owner },
      .disown (b.inner.topicsOf (b.inner.idsOwned peer owner)))
  | .disown names =>
    some ({ b with topics := disownTopics b.topics peer owner env.now }, .idle names)
  | .idle names =>
    let r := b.idleNotices env names
    let dead := deadTopics b.inner b.topics names
    some ({ r.2 with topics := dead.foldl (fun m name => m.erase name) b.topics }, .done r.1)
  | .done _ => none

def stepJanitor (b : Broker) (now : Nat) : JanitorPc → Option (Broker × JanitorPc)
  | .collect =>
    let r := collectDead env b.inner b.outbound
    some ({ b with outbound := r.2 }, if r.1.isEmpty then .count [] else .prune r.1)
  | .prune ids =>
    let p := b.prune env ids
    some (p.2, if p.1.isEmpty then .count [] else .idle p.1)
  | .idle names =>
    let r := b.idleNotices env names
    some (r.2, .count r.1)
  | .count notifications => some (b, .retain b.inner.topicCount notifications)
  | .retain counts notifications =>
    some ({ b with topics := retainTopics b.topics now counts }, .done notifications)
  | .done _ => none

def stepProc (json : JsonReader) (env : Env) (b : Broker) : Proc → Option (Broker × Proc)
  | .publish call pc => (b.stepPublish json env call pc).map fun r => (r.1, .publish call r.2)
  | .subscribe call pc => (b.stepSubscribe env call pc).map fun r => (r.1, .subscribe call r.2)
  | .unsubscribe name peer pc =>
    (b.stepUnsubscribe name peer pc).map fun r => (r.1, .unsubscribe name peer r.2)
  | .clear name notify pc =>
    (b.stepClear env name notify pc).map fun r => (r.1, .clear name notify r.2)
  | .subscribeUiEvent peer source action tx false =>
    some ({ b with inner := b.inner.register (uiEventSubscription peer source action tx) },
      .subscribeUiEvent peer source action tx true)
  | .subscribeUiEvent _ _ _ _ true => none
  | .unsubscribeUiEvent peer source action false =>
    let id := uiEventSubId peer source action
    some ((if b.inner.subscriptions.contains id then { b with inner := b.inner.drop peer [id] } else b),
      .unsubscribeUiEvent peer source action true)
  | .unsubscribeUiEvent _ _ _ true => none
  | .removePeer peer owner pc =>
    (b.stepRemovePeer env peer owner pc).map fun r => (r.1, .removePeer peer owner r.2)
  | .janitorTick now pc => (b.stepJanitor env now pc).map fun r => (r.1, .janitorTick now r.2)

end Broker

structure System where
  broker : Broker
  procs : List Proc

/-- A call is made, one runs its next section, or a channel closes. -/
inductive Act
  | call (call : Call)
  | advance (i : Nat) (env : Env)
  | close (tx : Chan)

namespace System

protected def new : System := ⟨.new, []⟩

def step (json : JsonReader) (s : System) : Act → Option System
  | .call call => some { s with procs := s.procs ++ [call.start] }
  | .advance i env =>
    (s.procs[i]?).bind fun p =>
      (s.broker.stepProc json env p).map fun r => ⟨r.1, s.procs.set i r.2⟩
  | .close tx => some { s with broker := { s.broker with outbound := s.broker.outbound.close tx } }

def run (json : JsonReader) (s : System) (acts : List Act) : Option System :=
  Lib.runFrom (step json) s acts

end System

open Cosmix.Lib.Framing List
open Option (map_eq_some_iff)

/-- What a subscription is asked for. -/
inductive Request
  | topic (peer name : String) (filter : Option BodyFilter)
  | uiEvent (peer source : String) (action : Option String)
  deriving DecidableEq

namespace Request

def peer : Request → String
  | topic peer _ _ => peer
  | uiEvent peer _ _ => peer

def id : Request → String
  | topic peer name filter => topicSubId peer name filter
  | uiEvent peer source action => uiEventSubId peer source action

/-- The first char that is no digit exists and is no colon, so the text does not begin as a
segment. -/
def unnumbered (s : String) : Bool :=
  match s.toList.dropWhile Char.isDigit with
  | [] => false
  | c :: _ => c != ':'

/-- A request whose id can be read back: the fields of a UI event do not run into the delimiters,
lengths or the text for none. -/
def plain : Request → Bool
  | topic .. => true
  | uiEvent peer source action =>
    delimitable peer && unnumbered peer && delimitable source && action != some "*"

end Request

def Subscription.request (sub : Subscription) : Request :=
  match sub.kind with
  | .topic name => .topic sub.peer name sub.filter
  | .uiEvent source action => .uiEvent sub.peer source action

theorem Subscription.peer_request (sub : Subscription) : sub.request.peer = sub.peer := by
  unfold Subscription.request
  split <;> rfl

def filterTail : Option BodyFilter → String
  | none => ""
  | some f => "::ns::" ++ segment f.ns

theorem topicSubId_eq (peer name : String) (filter : Option BodyFilter) :
    topicSubId peer name filter =
      segment peer ++ ("::topic::" ++ (segment name ++ filterTail filter)) := by
  cases filter <;> simp [topicSubId, filterTail, Lib.Framing.segment, String.append_assoc]

theorem filterTail_inj {f g : Option BodyFilter} (h : filterTail f = filterTail g) : f = g := by
  have hne : ∀ f : BodyFilter, filterTail none ≠ filterTail (some f) := by
    intro f heq
    have := congrArg (fun s => s.toList.length) heq
    simp [filterTail] at this
  cases f with
  | none =>
    cases g with
    | none => rfl
    | some g => exact absurd h (hne g)
  | some f =>
    cases g with
    | none => exact absurd h.symm (hne f)
    | some g =>
      have hseg : segment f.ns ++ "" = segment g.ns ++ "" := by
        rw [String.append_empty, String.append_empty]
        exact append_left_cancel h
      have hns := (segment_append_inj hseg).1
      cases f
      cases hns
      rfl

variable {peer peer' : String} {name : String}

theorem topicSubId_inj {name' : String} {filter filter' : Option BodyFilter}
    (h : topicSubId peer name filter = topicSubId peer' name' filter') :
    peer = peer' ∧ name = name' ∧ filter = filter' := by
  rw [topicSubId_eq, topicSubId_eq] at h
  obtain ⟨hpeer, hrest⟩ := segment_append_inj h
  obtain ⟨hname, htail⟩ := segment_append_inj (append_left_cancel hrest)
  exact ⟨hpeer, hname, filterTail_inj htail⟩

theorem uiEventSubId_eq (peer source : String) (action : Option String) :
    uiEventSubId peer source action =
      peer ++ "::" ++ ("ui::" ++ (source ++ "::" ++ action.getD "*")) := by
  have hdelim : "::ui::" = "::" ++ "ui::" := rfl
  have hstar : "::*" = "::" ++ "*" := rfl
  cases action with
  | none => rw [uiEventSubId, hdelim, hstar, Option.getD_none]; simp only [String.append_assoc]
  | some => rw [uiEventSubId, hdelim, Option.getD_some]; simp only [String.append_assoc]

theorem uiEventSubId_inj {source source' : String} {action action' : Option String}
    (hr : (Request.uiEvent peer source action).plain = true)
    (hr' : (Request.uiEvent peer' source' action').plain = true)
    (h : uiEventSubId peer source action = uiEventSubId peer' source' action') :
    peer = peer' ∧ source = source' ∧ action = action' := by
  simp only [Request.plain, Bool.and_eq_true, bne_iff_ne] at hr hr'
  rw [uiEventSubId_eq, uiEventSubId_eq] at h
  obtain ⟨hpeer, hrest⟩ := delimited_inj hr.1.1.1 hr'.1.1.1 h
  obtain ⟨hsource, haction⟩ := delimited_inj hr.1.2 hr'.1.2 (append_left_cancel hrest)
  refine ⟨hpeer, hsource, ?_⟩
  -- an absent action and a star would share a text
  cases action with
  | none =>
    cases action' with
    | none => rfl
    | some => exact absurd (congrArg some haction.symm) hr'.2
  | some =>
    cases action' with
    | none => exact absurd (congrArg some haction) hr.2
    | some => exact congrArg some haction

/-- A topic's id begins with a length, which the id of a plain UI event never does. -/
theorem topicSubId_ne_uiEventSubId {filter : Option BodyFilter}
    {source : String} {action : Option String}
    (hr : (Request.uiEvent peer' source action).plain = true) :
    topicSubId peer name filter ≠ uiEventSubId peer' source action := by
  intro h
  simp only [Request.plain, Bool.and_eq_true] at hr
  have hnum : Request.unnumbered peer' = true := hr.1.1.2
  rw [topicSubId_eq, uiEventSubId_eq, String.append_assoc] at h
  have hl := congrArg String.toList h
  rw [toList_segment_append, String.toList_append (s := peer')] at hl
  -- the peer is digits, a char that is no digit, and the rest
  unfold Request.unnumbered at hnum
  split at hnum
  · cases hnum
  next c cs hdrop =>
  have hc : c.isDigit = false := by
    have hhead := List.head?_dropWhile_not Char.isDigit peer'.toList
    rw [hdrop] at hhead
    simpa using hhead
  have hsplit : peer'.toList = peer'.toList.takeWhile Char.isDigit ++ c :: cs := by
    rw [← hdrop, takeWhile_append_dropWhile]
  rw [hsplit, append_assoc] at hl
  obtain ⟨-, hcolon, -⟩ := span_inj
    (fun x hx => Nat.isDigit_of_mem_toDigits (by decide) (by decide) hx)
    (fun x hx => mem_takeWhile_imp hx) (by decide) hc hl
  rw [← hcolon] at hnum
  exact absurd rfl (bne_iff_ne.mp hnum)

theorem Request.id_inj {r r' : Request} (hr : r.plain = true) (hr' : r'.plain = true)
    (h : r.id = r'.id) : r = r' := by
  cases r with
  | topic =>
    cases r' with
    | topic =>
      obtain ⟨rfl, rfl, rfl⟩ := topicSubId_inj h
      rfl
    | uiEvent => exact absurd h (topicSubId_ne_uiEventSubId hr')
  | uiEvent =>
    cases r' with
    | topic => exact absurd h.symm (topicSubId_ne_uiEventSubId hr)
    | uiEvent =>
      obtain ⟨rfl, rfl, rfl⟩ := uiEventSubId_inj hr hr' h
      rfl

open Cosmix.Lib

namespace BrokerInner

variable (inner : BrokerInner)

theorem getElem?_register (sub : Subscription) (k : String) :
    (inner.register sub).subscriptions[k]? =
      if k = sub.id then some sub else inner.subscriptions[k]? :=
  Maps.getElem?_insert_eq _ _ _ _

theorem getElem?_drop (peer : String) (ids : List String) (k : String) :
    (inner.drop peer ids).subscriptions[k]? =
      if k ∈ ids then none else inner.subscriptions[k]? :=
  getElem?_eraseIds _ _ _

theorem drop_eq_some_iff {peer : String} {ids : List String} {k : String} {sub : Subscription} :
    (inner.drop peer ids).subscriptions[k]? = some sub ↔
      k ∉ ids ∧ inner.subscriptions[k]? = some sub := by
  rw [getElem?_drop]
  split <;> simp [*]

theorem mem_values {sub : Subscription} :
    sub ∈ inner.values ↔ inner.subscriptions[sub.id]? = some sub := by
  constructor
  · intro h
    obtain ⟨⟨k, s⟩, hk, rfl⟩ := mem_map.mp h
    have hget := Std.ExtTreeMap.mem_toList_iff_getElem?_eq_some.mp hk
    rw [inner.keyed k s hget]
    exact hget
  · intro h
    exact mem_map.mpr ⟨(sub.id, sub), Std.ExtTreeMap.mem_toList_iff_getElem?_eq_some.mpr h, rfl⟩

theorem values_ids_nodup : (inner.values.map Subscription.id).Nodup := by
  have hkeys := Std.ExtTreeMap.distinct_keys_toList (t := inner.subscriptions)
  rw [values, map_map, List.Nodup, pairwise_map]
  refine hkeys.imp_of_mem ?_
  intro a b ha hb hne
  have hida := inner.keyed a.1 a.2 (Std.ExtTreeMap.mem_toList_iff_getElem?_eq_some.mp ha)
  have hidb := inner.keyed b.1 b.2 (Std.ExtTreeMap.mem_toList_iff_getElem?_eq_some.mp hb)
  rw [Function.comp_apply, Function.comp_apply, hida, hidb]
  exact fun h => hne (Std.LawfulEqCmp.compare_eq_iff_eq.mpr h)

theorem topicCount_eq_zero :
    inner.topicCount name = 0 ↔
      ∀ (k : String) (sub : Subscription), inner.subscriptions[k]? = some sub →
        sub.isTopic name = false := by
  rw [topicCount, countP_eq_zero]
  constructor
  · intro h k sub hk
    have hmem : sub ∈ inner.values := by
      rw [mem_values, inner.keyed k sub hk]
      exact hk
    exact Bool.eq_false_iff.mpr (h sub hmem)
  · intro h sub hsub
    rw [h sub.id sub (inner.mem_values.mp hsub)]
    exact Bool.false_ne_true

end BrokerInner

/-- The peer's set has the id. -/
def Holds (byPeer : ByPeer) (peer id : String) : Prop :=
  ∃ ids, byPeer[peer]? = some ids ∧ id ∈ ids

variable {byPeer : ByPeer}

theorem holds_enlist {peer id p i : String} :
    Holds (enlist byPeer peer id) p i ↔ (p = peer ∧ i = id) ∨ Holds byPeer p i := by
  unfold Holds enlist
  rw [Maps.getElem?_insert_eq]
  by_cases hp : p = peer
  · subst hp
    rw [if_pos rfl]
    have hheld : i ∈ byPeer[p]?.getD ∅ ↔ ∃ ids, byPeer[p]? = some ids ∧ i ∈ ids := by
      cases byPeer[p]? with
      | none | some => simp
    rw [← hheld]
    constructor
    · rintro ⟨_, hids, hi⟩
      cases Option.some.inj hids
      exact ((Maps.mem_insert_eq _ _ _).mp hi).imp_left fun h => ⟨rfl, h⟩
    · intro h
      exact ⟨_, rfl, (Maps.mem_insert_eq _ _ _).mpr (h.imp_left fun h => h.2)⟩
  · rw [if_neg hp]
    exact ⟨.inr, fun h => h.resolve_left fun h => hp h.1⟩

theorem holds_unlist {peer p i : String} {ids : List String} :
    Holds (unlist byPeer peer ids) p i ↔ Holds byPeer p i ∧ ¬(p = peer ∧ i ∈ ids) := by
  unfold Holds unlist
  cases hheld : byPeer[peer]? with
  | none =>
    refine ⟨?_, fun h => h.1⟩
    rintro ⟨held, hget, hi⟩
    refine ⟨⟨held, hget, hi⟩, ?_⟩
    rintro ⟨rfl, -⟩
    rw [hheld] at hget
    cases hget
  | some held =>
    dsimp only
    have hmem := Maps.mem_eraseAll held ids i
    by_cases hp : p = peer
    · subst hp
      rw [hheld]
      have hgoal : (∃ s, some held = some s ∧ i ∈ s) ∧ ¬(p = p ∧ i ∈ ids) ↔
          i ∈ ids.foldl (fun m i => m.erase i) held := by
        rw [hmem]
        constructor
        · rintro ⟨⟨s, hs, hi⟩, hids⟩
          cases Option.some.inj hs
          exact ⟨hi, fun h => hids ⟨rfl, h⟩⟩
        · rintro ⟨hi, hids⟩
          exact ⟨⟨held, rfl, hi⟩, fun h => hids h.2⟩
      rw [hgoal]
      split
      · next hempty =>
        rw [Std.ExtTreeMap.getElem?_erase_self]
        refine ⟨fun ⟨_, h, _⟩ => (nomatch h), fun h => ?_⟩
        rw [Std.ExtTreeSet.isEmpty_iff] at hempty
        rw [hempty] at h
        exact absurd h Std.ExtTreeSet.not_mem_empty
      · rw [Std.ExtTreeMap.getElem?_insert_self]
        exact ⟨fun ⟨_, h, hi⟩ => Option.some.inj h ▸ hi, fun h => ⟨_, rfl, h⟩⟩
    · have hread : (if (ids.foldl (fun m i => m.erase i) held).isEmpty then byPeer.erase peer
          else byPeer.insert peer (ids.foldl (fun m i => m.erase i) held))[p]? = byPeer[p]? := by
        split
        · rw [Maps.getElem?_erase_eq, if_neg hp]
        · rw [Maps.getElem?_insert_eq, if_neg hp]
      rw [hread]
      exact ⟨fun h => ⟨h, fun hk => hp hk.1⟩, fun h => h.1⟩

def NoneEmpty (byPeer : ByPeer) : Prop :=
  ∀ (p : String) (ids : IdSet), byPeer[p]? = some ids → ids.isEmpty = false

theorem NoneEmpty.enlist (h : NoneEmpty byPeer) (peer id : String) :
    NoneEmpty (enlist byPeer peer id) := by
  intro p ids hp
  unfold Noded.enlist at hp
  rw [Std.ExtTreeMap.getElem?_insert] at hp
  split at hp
  · cases hp
    rw [Std.ExtTreeSet.isEmpty_eq_false_iff]
    intro hempty
    have hmem : id ∈ (byPeer[peer]?.getD ∅).insert id := Std.ExtTreeSet.mem_insert_self
    rw [hempty] at hmem
    exact Std.ExtTreeSet.not_mem_empty hmem
  · exact h p ids hp

theorem NoneEmpty.unlist (h : NoneEmpty byPeer) (peer : String)
    (ids : List String) : NoneEmpty (unlist byPeer peer ids) := by
  intro p held hp
  unfold Noded.unlist at hp
  split at hp
  · exact h p held hp
  dsimp only at hp
  split at hp
  · rw [Std.ExtTreeMap.getElem?_erase] at hp
    split at hp
    · cases hp
    · exact h p held hp
  · next hne =>
    rw [Std.ExtTreeMap.getElem?_insert] at hp
    split at hp
    · cases hp
      exact Bool.eq_false_iff.mpr hne
    · exact h p held hp

/-- The index lists each subscription under its peer and nothing else. -/
structure Exact (inner : BrokerInner) : Prop where
  listed : ∀ p id, Holds inner.byPeer p id ↔
    ∃ sub : Subscription, inner.subscriptions[id]? = some sub ∧ sub.peer = p
  noneEmpty : NoneEmpty inner.byPeer

namespace Exact

theorem new : Exact .new where
  listed := by
    intro p id
    constructor
    · rintro ⟨ids, hids, -⟩
      cases hids
    · rintro ⟨_, hsub, -⟩
      cases hsub
  noneEmpty := by
    intro p ids h
    cases h

variable {inner : BrokerInner}

theorem register (h : Exact inner) {sub : Subscription}
    (hpeer : ∀ old, inner.subscriptions[sub.id]? = some old → old.peer = sub.peer) :
    Exact (inner.register sub) where
  listed := by
    intro p id
    change Holds (enlist inner.byPeer sub.peer sub.id) p id ↔ _
    rw [holds_enlist, inner.getElem?_register, h.listed]
    by_cases hid : id = sub.id
    · rw [if_pos hid]
      constructor
      · rintro (⟨hp, -⟩ | ⟨old, hold, hp⟩)
        · exact ⟨sub, rfl, hp.symm⟩
        · rw [hid] at hold
          exact ⟨sub, rfl, (hpeer old hold).symm.trans hp⟩
      · rintro ⟨s, hs, hp⟩
        cases Option.some.inj hs
        exact .inl ⟨hp.symm, hid⟩
    · rw [if_neg hid]
      exact ⟨fun hh => hh.resolve_left fun hc => hid hc.2, .inr⟩
  noneEmpty := h.noneEmpty.enlist _ _

variable {peer : String}

theorem drop (h : Exact inner) {ids : List String}
    (hpeer : ∀ id ∈ ids, ∀ old, inner.subscriptions[id]? = some old → old.peer = peer) :
    Exact (inner.drop peer ids) where
  listed := by
    intro p id
    change Holds (unlist inner.byPeer peer ids) p id ↔ _
    rw [holds_unlist, inner.getElem?_drop, h.listed]
    by_cases hid : id ∈ ids
    · rw [if_pos hid]
      constructor
      · rintro ⟨⟨old, hold, hp⟩, hnot⟩
        exact absurd ⟨hp.symm.trans (hpeer id hid old hold), hid⟩ hnot
      · rintro ⟨s, hs, -⟩
        cases hs
    · rw [if_neg hid]
      exact ⟨fun hh => hh.1, fun hh => ⟨hh, fun hc => hid hc.2⟩⟩
  noneEmpty := h.noneEmpty.unlist _ _

theorem mem_idsOn (h : Exact inner) {id : String} (hid : id ∈ inner.idsOn name peer) :
    ∀ old, inner.subscriptions[id]? = some old → old.peer = peer := by
  unfold BrokerInner.idsOn at hid
  split at hid
  · cases hid
  next ids hids =>
  intro old hold
  have hmem : id ∈ ids := Std.ExtTreeSet.mem_toList.mp (mem_filter.mp hid).1
  obtain ⟨_, hsub, hp⟩ := (h.listed peer id).mp ⟨ids, hids, hmem⟩
  rw [hold] at hsub
  cases Option.some.inj hsub
  exact hp

theorem mem_idsOwned (h : Exact inner) {id : String} {owner : Chan} :
    id ∈ inner.idsOwned peer owner ↔
      ∃ sub, inner.subscriptions[id]? = some sub ∧ sub.peer = peer ∧ sub.tx = owner := by
  have hlisted := h.listed peer id
  unfold BrokerInner.idsOwned
  split
  · next hnone =>
    constructor
    · intro hid
      cases hid
    · rintro ⟨sub, hsub, hp, -⟩
      obtain ⟨ids, hids, -⟩ := hlisted.mpr ⟨sub, hsub, hp⟩
      rw [hnone] at hids
      cases hids
  · next ids hids =>
    rw [mem_filter, Std.ExtTreeSet.mem_toList]
    constructor
    · rintro ⟨hmem, htx⟩
      obtain ⟨sub, hsub, hp⟩ := hlisted.mp ⟨ids, hids, hmem⟩
      rw [hsub] at htx
      exact ⟨sub, hsub, hp, of_decide_eq_true htx⟩
    · rintro ⟨sub, hsub, hp, htx⟩
      obtain ⟨ids', hids', hmem⟩ := hlisted.mpr ⟨sub, hsub, hp⟩
      rw [hids] at hids'
      cases Option.some.inj hids'
      rw [hsub]
      exact ⟨hmem, decide_eq_true htx⟩

end Exact

/-- What pruning one id does to the registry: nothing, or the subscription under it goes. -/
theorem Pruning.one_cases (env : Env) (p : Pruning) (id : String) :
    (p.one env id).inner = p.inner ∧ (p.one env id).affected = p.affected ∨
      ∃ sub, p.inner.subscriptions[id]? = some sub ∧ (p.outbound.visit env sub).closed sub.tx = true ∧
        (p.one env id).inner = p.inner.drop sub.peer [id] ∧
        (p.one env id).affected = sub.noteTopic p.affected := by
  unfold Pruning.one
  split
  · exact .inl ⟨rfl, rfl⟩
  next sub hsub =>
  dsimp only
  split
  · next hclosed => exact .inr ⟨sub, hsub, hclosed, rfl, rfl⟩
  · exact .inl ⟨rfl, rfl⟩

theorem prune_keeps {P : BrokerInner → Prop}
    (hdrop : ∀ inner id sub, P inner → inner.subscriptions[id]? = some sub →
      P (inner.drop sub.peer [id])) (env : Env) (ids : List String) {p : Pruning} (h : P p.inner) :
    P (ids.foldl (Pruning.one env) p).inner := by
  induction ids generalizing p with
  | nil => exact h
  | cons id ids ih =>
    apply ih
    rcases p.one_cases env id with ⟨hinner, -⟩ | ⟨sub, hsub, -, hinner, -⟩
    · rw [hinner]
      exact h
    · rw [hinner]
      exact hdrop p.inner id sub h hsub

/-- The ways a section leaves the registry. -/
inductive InnerMoved (env : Env) (b : Broker) : Proc → BrokerInner → Prop
  | same (p : Proc) : InnerMoved env b p b.inner
  | register (call : SubscribeCall) :
    InnerMoved env b (.subscribe call .register) (b.inner.register call.subscription)
  | registerUi (peer source : String) (action : Option String) (tx : Chan) :
    InnerMoved env b (.subscribeUiEvent peer source action tx false)
      (b.inner.register (uiEventSubscription peer source action tx))
  | prune (p : Proc) (ids : List String) :
    InnerMoved env b p (pruneDeadSubscriptions env b.inner b.outbound ids).inner
  | unsubscribe (name peer : String) :
    InnerMoved env b (.unsubscribe name peer .remove) (b.inner.drop peer (b.inner.idsOn name peer))
  | unsubscribeUi (peer source : String) (action : Option String) :
    InnerMoved env b (.unsubscribeUiEvent peer source action false)
      (b.inner.drop peer [uiEventSubId peer source action])
  | removeOwned (peer : String) (owner : Chan) :
    InnerMoved env b (.removePeer peer owner .remove) (b.inner.removeOwned peer owner)

namespace Broker

variable {json : JsonReader} {env : Env} {b b' : Broker}

theorem stepPublish_inner {call : PublishCall} {pc pc' : PublishPc}
    (h : b.stepPublish json env call pc = some (b', pc')) :
    InnerMoved env b (.publish call pc) b'.inner := by
  cases pc with
  | start | cache =>
    rw [stepPublish] at h
    split at h <;> cases h <;> exact .same _
  | fanOut | idle => cases h; exact .same _
  | prune outcome failure ids => cases h; exact .prune _ ids
  | done => cases h

theorem stepSubscribe_inner {call : SubscribeCall} {pc pc' : SubscribePc}
    (h : b.stepSubscribe env call pc = some (b', pc')) :
    InnerMoved env b (.subscribe call pc) b'.inner := by
  cases pc with
  | check =>
    rw [stepSubscribe] at h
    split at h
    · split at h <;> cases h <;> exact .same _
    · cases h; exact .same _
  | register => cases h; exact .register call
  | read =>
    rw [stepSubscribe] at h
    split at h <;> cases h <;> exact .same _
  | send | confirm => cases h; exact .same _
  | prune => cases h; exact .prune _ [call.id]
  | done => cases h

theorem stepUnsubscribe_inner {peer : String} {pc pc' : UnsubscribePc}
    (h : b.stepUnsubscribe name peer pc = some (b', pc')) :
    InnerMoved env b (.unsubscribe name peer pc) b'.inner := by
  cases pc with
  | remove =>
    rw [stepUnsubscribe] at h
    split at h
    · cases h; exact .same _
    · cases h; exact .unsubscribe name peer
  | idle => cases h; exact .same _
  | done => cases h

theorem stepClear_inner {notify : Bool} {pc pc' : ClearPc}
    (h : b.stepClear env name notify pc = some (b', pc')) :
    InnerMoved env b (.clear name notify pc) b'.inner := by
  cases pc with
  | start =>
    rw [stepClear] at h
    split at h <;> cases h <;> exact .same _
  | fanOut | idle => cases h; exact .same _
  | prune delivered ids => cases h; exact .prune _ ids
  | done => cases h

theorem stepProc_inner {p p' : Proc} (h : b.stepProc json env p = some (b', p')) :
    InnerMoved env b p b'.inner := by
  cases p with
  | publish =>
    obtain ⟨r, hr, heq⟩ := map_eq_some_iff.mp h
    cases heq
    exact stepPublish_inner hr
  | subscribe =>
    obtain ⟨r, hr, heq⟩ := map_eq_some_iff.mp h
    cases heq
    exact stepSubscribe_inner hr
  | unsubscribe =>
    obtain ⟨r, hr, heq⟩ := map_eq_some_iff.mp h
    cases heq
    exact stepUnsubscribe_inner hr
  | clear =>
    obtain ⟨r, hr, heq⟩ := map_eq_some_iff.mp h
    cases heq
    exact stepClear_inner hr
  | subscribeUiEvent peer source action tx done =>
    cases done with
    | true => cases h
    | false => cases h; exact .registerUi peer source action tx
  | unsubscribeUiEvent peer source action done =>
    cases done with
    | true => cases h
    | false =>
      have heq := Option.some.inj h
      split at heq
      · cases heq; exact .unsubscribeUi peer source action
      · cases heq; exact .same _
  | removePeer =>
    obtain ⟨r, hr, heq⟩ := map_eq_some_iff.mp h
    cases heq
    rename_i peer owner pc
    cases pc with
    | remove => cases hr; exact .removeOwned peer owner
    | disown | idle => cases hr; exact .same _
    | done => cases hr
  | janitorTick =>
    obtain ⟨r, hr, heq⟩ := map_eq_some_iff.mp h
    cases heq
    rename_i pc
    cases pc with
    | collect | idle | count | retain => cases hr; exact .same _
    | prune ids => cases hr; exact .prune _ ids
    | done => cases hr

end Broker

end Cosmix.Noded
