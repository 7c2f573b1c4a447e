/- source: cosmix-noded/src/subscription.rs
   digest: The active and idle notices of a publisher in sequential runs. -/

import Cosmix.Noded.Publishing

namespace Cosmix.Noded

open Cosmix.Bus Cosmix.Lib List
open Option (map_eq_some_iff)

/-- The commands of the notices about a topic that go to a peer. -/
def noticesFor (peer name : String) (notes : List Notification) : List (Option String) :=
  (notes.filter fun n => n.targetPeer = peer && n.message.get "name" = some name).map
    fun n => n.message.get "command"

theorem noticesFor_append (peer name : String) (xs ys : List Notification) :
    noticesFor peer name (xs ++ ys) = noticesFor peer name xs ++ noticesFor peer name ys := by
  rw [noticesFor, filter_append, map_append]
  rfl

theorem get_name_notice (command name : String) (n : Nat) :
    (buildTopicNotice command name n).get "name" = some name := by
  unfold buildTopicNotice
  rw [get_set, if_neg (by decide), get_set, if_pos rfl]

theorem get_command_notice (command name : String) (n : Nat) :
    (buildTopicNotice command name n).get "command" = some command := by
  unfold buildTopicNotice
  rw [get_set, if_neg (by decide), get_set, if_neg (by decide), get_set, if_neg (by decide), get_set,
    if_pos rfl]

variable {peer name : String} {tx c : Chan} {state : TopicState} {json : JsonReader} {env : Env}
  {topics : Topics} {inner : BrokerInner} {b : Broker} {p : Proc} {topic : String}

theorem noticesFor_notice_ne (h : topic ≠ name) (state : TopicState)
    (closed : Chan → Bool) (command : String) (n : Nat) :
    noticesFor peer name (state.notice closed command topic n).toList = [] := by
  unfold TopicState.notice
  split
  · split
    · rfl
    · simp [noticesFor, get_name_notice, h]
  · rfl

/-- The topic is the publisher's: its notices go to it, on its channel. -/
def OwnedBy (peer : String) (tx : Chan) (state : TopicState) : Prop :=
  state.lastPublisher = some peer ∧ state.lastPublisherTx = some tx

theorem noticesFor_notice (h : OwnedBy peer tx state) {closed : Chan → Bool}
    (hopen : closed tx = false) (command name : String) (n : Nat) :
    noticesFor peer name (state.notice closed command name n).toList = [some command] := by
  rw [TopicState.notice, h.1, h.2]
  dsimp only
  rw [hopen]
  simp [noticesFor, get_name_notice, get_command_notice]

/-- Active and idle in turn. -/
def alternating (n : Nat) : List (Option String) :=
  (range n).map fun i => some (if i % 2 = 0 then "topic.active" else "topic.idle")

/-- The notices that may come after so many, and how many there are then. -/
inductive Emits (n : Nat) : List (Option String) → Nat → Prop
  | nothing : Emits n [] n
  | active (h : n % 2 = 0) : Emits n [some "topic.active"] (n + 1)
  | idle (h : n % 2 = 1) : Emits n [some "topic.idle"] (n + 1)

theorem Emits.alternating {n n' : Nat} {notes : List (Option String)} (h : Emits n notes n') :
    alternating n ++ notes = alternating n' := by
  cases h with
  | nothing => exact append_nil _
  | active h =>
    unfold Noded.alternating
    rw [range_succ, map_append, map_singleton, if_pos h]
  | idle =>
    unfold Noded.alternating
    rw [range_succ, map_append, map_singleton, if_neg (by omega)]

namespace Proc

/-- The notices a call returned, or has collected so far. -/
def notes : Proc → List Notification
  | .publish _ (.done (.ok outcome)) => outcome.notifications
  | .publish _ (.done (.error e)) => e.notifications
  | .subscribe _ (.done _ _ _ notifications) => notifications
  | .unsubscribe _ _ (.done notifications) => notifications
  | .clear _ _ (.done _ notifications) => notifications
  | .removePeer _ _ (.done notifications) => notifications
  | .janitorTick _ (.count notifications) => notifications
  | .janitorTick _ (.retain _ notifications) => notifications
  | .janitorTick _ (.done notifications) => notifications
  | _ => []

end Proc

theorem notes_finish (call : PublishCall) (outcome : PublishResult) (failure : Option PublishError) :
    (Proc.publish call (.done (outcome.finish failure))).notes = outcome.notifications := by
  cases failure <;> rfl

theorem cache_error_notes {call : PublishCall} {m : BusMessage} {ns : Option String}
    {e : PublishError} (h : call.cache env m ns topics = .error e) : e.notifications = [] := by
  rcases call.cache_cases env m ns topics with ⟨_, he, hseq⟩ | ⟨_, -, -, hok⟩
  · rw [h] at he
    cases he
    exact PublishError.notifications_of_seq hseq
  · rw [h] at hok
    cases hok

/-- The commands of the notices about the topic that all calls returned for the peer, in order. -/
def System.notices (s : System) (peer name : String) : List (Option String) :=
  noticesFor peer name (s.procs.flatMap Proc.notes)

def Subscribed (name : String) (inner : BrokerInner) : Prop :=
  ∃ (k : String) (sub : Subscription), inner.subscriptions[k]? = some sub ∧ sub.isTopic name = true

theorem topicCount_eq_zero_iff : inner.topicCount name = 0 ↔ ¬Subscribed name inner := by
  rw [inner.topicCount_eq_zero]
  constructor
  · rintro h ⟨k, sub, hsub, htopic⟩
    rw [h k sub hsub] at htopic
    cases htopic
  · intro h k sub hsub
    exact Bool.eq_false_iff.mpr fun htopic => h ⟨k, sub, hsub, htopic⟩

/-- Every subscription to the topic stands under an id of the topic. -/
def Keyed (name : String) (inner : BrokerInner) : Prop :=
  ∀ (k : String) (sub : Subscription), inner.subscriptions[k]? = some sub →
    sub.isTopic name = true → ∃ peer filter, k = topicSubId peer name filter

/-- Nothing under the ids is a subscription to the topic. -/
def Foreign (name : String) (inner : BrokerInner) (ids : List String) : Prop :=
  ∀ id ∈ ids, ∀ sub, inner.subscriptions[id]? = some sub → sub.isTopic name = false

section

variable {name : String} {inner : BrokerInner}

theorem Keyed.drop (h : Keyed name inner) (peer : String) (ids : List String) :
    Keyed name (inner.drop peer ids) := by
  intro k sub hsub htopic
  exact h k sub (inner.drop_eq_some_iff.mp hsub).2 htopic

variable {sub : Subscription}

theorem Keyed.register (h : Keyed name inner)
    (hsub : sub.isTopic name = true → ∃ peer filter, sub.id = topicSubId peer name filter) :
    Keyed name (inner.register sub) := by
  intro k s hs htopic
  rw [inner.getElem?_register] at hs
  split at hs
  · next hk =>
    cases hs
    rw [hk]
    exact hsub htopic
  · exact h k s hs htopic

variable {id : String}

theorem Keyed.foreign (h : Keyed name inner)
    (hid : ∀ peer filter, id ≠ topicSubId peer name filter) : Foreign name inner [id] := by
  intro i hi sub hsub
  rw [mem_singleton.mp hi] at hsub
  refine Bool.eq_false_iff.mpr fun htopic => ?_
  obtain ⟨peer, filter, heq⟩ := h id sub hsub htopic
  exact hid peer filter heq

variable {ids : List String}

theorem subscribed_of_drop {peer : String}
    (h : Subscribed name (inner.drop peer ids)) : Subscribed name inner := by
  obtain ⟨k, sub, hsub, htopic⟩ := h
  exact ⟨k, sub, (inner.drop_eq_some_iff.mp hsub).2, htopic⟩

theorem subscribed_drop (peer : String) (h : Foreign name inner ids) :
    Subscribed name (inner.drop peer ids) ↔ Subscribed name inner := by
  refine ⟨subscribed_of_drop, ?_⟩
  rintro ⟨k, sub, hsub, htopic⟩
  refine ⟨k, sub, inner.drop_eq_some_iff.mpr ⟨fun hk => ?_, hsub⟩, htopic⟩
  rw [h k hk sub hsub] at htopic
  cases htopic

theorem subscribed_register (hsub : sub.isTopic name = false) (h : Foreign name inner [sub.id]) :
    Subscribed name (inner.register sub) ↔ Subscribed name inner := by
  constructor
  · rintro ⟨k, s, hs, htopic⟩
    rw [inner.getElem?_register] at hs
    split at hs
    · cases hs
      rw [hsub] at htopic
      cases htopic
    · exact ⟨k, s, hs, htopic⟩
  · rintro ⟨k, s, hs, htopic⟩
    refine ⟨k, s, ?_, htopic⟩
    rw [inner.getElem?_register, if_neg, hs]
    rintro rfl
    rw [h _ mem_cons_self s hs] at htopic
    cases htopic

theorem mem_noteTopic {names : IdSet} :
    name ∈ sub.noteTopic names ↔ sub.isTopic name = true ∨ name ∈ names := by
  unfold Subscription.noteTopic Subscription.isTopic
  split
  · next topic hkind =>
    rw [Maps.mem_insert_eq, hkind, decide_eq_true_iff, SubKind.topic.injEq, @eq_comm _ name topic]
  · next hkind =>
    rw [hkind]
    simp

theorem subscribed_drop_one (hsub : inner.subscriptions[id]? = some sub) (peer : String) :
    Subscribed name (inner.drop peer [id]) ∨ sub.isTopic name = true ↔ Subscribed name inner := by
  constructor
  · rintro (hleft | htopic)
    · exact subscribed_of_drop hleft
    · exact ⟨id, sub, hsub, htopic⟩
  · rintro ⟨k, s, hs, htopic⟩
    by_cases hk : k = id
    · subst hk
      rw [hsub] at hs
      cases hs
      exact .inr htopic
    · exact .inl ⟨k, s, inner.drop_eq_some_iff.mpr ⟨by simpa using hk, hs⟩, htopic⟩

theorem subscribed_prune (env : Env) (ids : List String) (p : Pruning) :
    Subscribed name (ids.foldl (Pruning.one env) p).inner ∨
        name ∈ (ids.foldl (Pruning.one env) p).affected ↔
      Subscribed name p.inner ∨ name ∈ p.affected := by
  induction ids generalizing p with
  | nil => rfl
  | cons id ids ih =>
    rw [foldl_cons, ih]
    rcases p.one_cases env id with ⟨hinner, haff⟩ | ⟨_, hsub, -, hinner, haff⟩
    · rw [hinner, haff]
    · rw [hinner, haff, mem_noteTopic, ← or_assoc, subscribed_drop_one hsub]

theorem mem_topicsOf : name ∈ inner.topicsOf ids ↔
      ∃ id ∈ ids, ∃ sub, inner.subscriptions[id]? = some sub ∧ sub.isTopic name = true := by
  have hfold : name ∈ inner.topicsOf ids ↔ name ∈ (∅ : IdSet) ∨
      ∃ id ∈ ids, ∃ sub, inner.subscriptions[id]? = some sub ∧ sub.isTopic name = true := by
    unfold BrokerInner.topicsOf
    generalize (∅ : IdSet) = names
    induction ids generalizing names with
    | nil => simp
    | cons id ids ih =>
      rw [foldl_cons, ih]
      cases hget : inner.subscriptions[id]? with
      | none => simp [hget]
      | some sub =>
        simp only [mem_noteTopic, mem_cons, exists_eq_or_imp, hget, Option.some.injEq,
          exists_eq_left']
        rw [or_comm (a := sub.isTopic name = true), or_assoc]
  exact hfold.trans ⟨fun h => h.resolve_left Std.ExtTreeSet.not_mem_empty, .inr⟩

theorem subscribed_removeOwned (peer : String) (owner : Chan) :
    Subscribed name (inner.removeOwned peer owner) ∨
        name ∈ inner.topicsOf (inner.idsOwned peer owner) ↔ Subscribed name inner := by
  rw [mem_topicsOf]
  constructor
  · rintro (hleft | ⟨id, -, sub, hsub, htopic⟩)
    · exact subscribed_of_drop hleft
    · exact ⟨id, sub, hsub, htopic⟩
  · rintro ⟨k, s, hs, htopic⟩
    by_cases hk : k ∈ inner.idsOwned peer owner
    · exact .inr ⟨k, hk, s, hs, htopic⟩
    · exact .inl ⟨k, s, inner.drop_eq_some_iff.mpr ⟨hk, hs⟩, htopic⟩

theorem exists_of_mem_idsOn {peer : String} (h : id ∈ inner.idsOn name peer) :
    ∃ sub, inner.subscriptions[id]? = some sub ∧ sub.isTopic name = true := by
  unfold BrokerInner.idsOn at h
  split at h
  · cases h
  have htopic := (mem_filter.mp h).2
  split at htopic
  · next sub hsub => exact ⟨sub, hsub, htopic⟩
  · cases htopic

theorem foreign_idsOn (h : topic ≠ name) (peer : String) :
    Foreign name inner (inner.idsOn topic peer) := by
  intro id hid sub hsub
  obtain ⟨sub', hsub', htopic⟩ := exists_of_mem_idsOn hid
  cases hsub.symm.trans hsub'
  have hkind : sub.kind = .topic topic := of_decide_eq_true htopic
  refine decide_eq_false fun heq => h ?_
  exact SubKind.topic.inj (hkind.symm.trans heq)

end

theorem closed_visitPublisher {out : Outbound} (env : Env) (topic : String) (state : TopicState)
    (h : (out.visitPublisher env topic state).closed c = false) : out.closed c = false := by
  unfold Outbound.visitPublisher at h
  split at h
  · split at h
    · exact (Bool.or_eq_false_iff.mp h).1
    · exact h
  · exact h

variable {acc : List Notification × Outbound}

theorem closed_idleOne
    (h : (idleOne env inner topics acc topic).2.closed c = false) : acc.2.closed c = false := by
  unfold idleOne at h
  split at h
  · split at h
    · exact closed_visitPublisher env _ _ h
    · exact h
  · exact h

theorem closed_foldl_idleOne {names : List String}
    (h : (names.foldl (idleOne env inner topics) acc).2.closed c = false) :
    acc.2.closed c = false := by
  induction names generalizing acc with
  | nil => exact h
  | cons topic names ih => exact closed_idleOne (ih h)

section

variable {name peer : String} {tx : Chan} {env : Env} {inner : BrokerInner} {topics : Topics}
  {state : TopicState} (hstate : topics[name]? = some state) (howned : OwnedBy peer tx state)

include hstate howned

theorem noticesFor_idleOne (hopen : (idleOne env inner topics acc topic).2.closed tx = false) :
    noticesFor peer name (idleOne env inner topics acc topic).1 = noticesFor peer name acc.1 ++
        if topic = name ∧ inner.topicCount name = 0 then [some "topic.idle"] else [] := by
  unfold idleOne at hopen ⊢
  by_cases htopic : topic = name
  · subst htopic
    by_cases hcount : inner.topicCount topic = 0
    · rw [if_pos hcount, hstate] at hopen
      rw [if_pos hcount, if_pos ⟨rfl, hcount⟩, hstate]
      exact (noticesFor_append _ _ _ _).trans
        (congrArg _ (noticesFor_notice howned hopen "topic.idle" topic 0))
    · rw [if_neg hcount, if_neg fun h => hcount h.2, append_nil]
  · rw [if_neg (fun h => htopic h.1 : ¬(topic = name ∧ inner.topicCount name = 0)), append_nil]
    split
    · split
      · next other _ =>
        exact (noticesFor_append _ _ _ _).trans
          ((congrArg _ (noticesFor_notice_ne htopic other _ _ _)).trans (append_nil _))
      · rfl
    · rfl

theorem noticesFor_foldl_idleOne {names : List String} (hnodup : names.Nodup)
    (hopen : (names.foldl (idleOne env inner topics) acc).2.closed tx = false) :
    noticesFor peer name (names.foldl (idleOne env inner topics) acc).1 =
      noticesFor peer name acc.1 ++
        if name ∈ names ∧ inner.topicCount name = 0 then [some "topic.idle"] else [] := by
  induction names generalizing acc with
  | nil => simp
  | cons topic names ih =>
    rw [nodup_cons] at hnodup
    rw [foldl_cons] at hopen ⊢
    rw [ih hnodup.2 hopen, noticesFor_idleOne hstate howned (closed_foldl_idleOne hopen)]
    by_cases hcount : inner.topicCount name = 0
    · by_cases htopic : topic = name
      · subst htopic
        simp [hnodup.1]
      · simp [htopic, @eq_comm _ name topic]
    · simp [hcount]

end

/-- The publisher gets an idle notice when the topic is among those named and has no subscription. -/
theorem noticesFor_idleNotices (hstate : b.topics[name]? = some state)
    (howned : OwnedBy peer tx state) {names : IdSet}
    (hopen : (b.idleNotices env names).2.outbound.closed tx = false) :
    noticesFor peer name (b.idleNotices env names).1 =
      if name ∈ names ∧ b.inner.topicCount name = 0 then [some "topic.idle"] else [] := by
  have hperm := env.topicOrder_perm names.toList
  have hnodup : (env.topicOrder names.toList).Nodup := by
    rw [hperm.nodup_iff]
    exact Std.ExtTreeSet.distinct_toList.imp fun h heq =>
      h (Std.LawfulEqCmp.compare_eq_iff_eq.mpr heq)
  have hall := noticesFor_foldl_idleOne hstate howned hnodup hopen
  simp only [hperm.mem_iff, Std.ExtTreeSet.mem_toList] at hall
  exact hall

/-- If the topic has a state, it is the publisher's. -/
def OwnedAt (name peer : String) (tx : Chan) (topics : Topics) : Prop :=
  ∀ state, topics[name]? = some state → OwnedBy peer tx state

/-- The ways a section leaves the topics. -/
inductive TopicsMoved (b : Broker) : Proc → Topics → Prop
  | same (p : Proc) : TopicsMoved b p b.topics
  | cached (call : PublishCall) (pc : PublishPc) (state : TopicState) (m : BusMessage)
    (ns : Option String) :
    TopicsMoved b (.publish call pc) (b.topics.insert call.name (call.cached state m ns))
  | forgot (topic peer : String) (pc : UnsubscribePc) :
    TopicsMoved b (.unsubscribe topic peer pc) (forgetTopic b.topics topic)
  | cleared (topic : String) (notify : Bool) (pc : ClearPc) :
    TopicsMoved b (.clear topic notify pc) (clearTopic b.topics topic notify).2
  | disowned (peer : String) (owner : Chan) (pc : RemovePeerPc) (now : Nat) :
    TopicsMoved b (.removePeer peer owner pc) (disownTopics b.topics peer owner now)
  | buried (p : Proc) (dead : List String) :
    TopicsMoved b p (dead.foldl (fun m topic => m.erase topic) b.topics)
  | retained (p : Proc) (now : Nat) (counts : String → Nat) :
    TopicsMoved b p (retainTopics b.topics now counts)

theorem Broker.stepProc_topics {b' : Broker} {p' : Proc}
    (h : b.stepProc json env p = some (b', p')) : TopicsMoved b p b'.topics := by
  cases p with
  | publish call pc =>
    obtain ⟨r, hr, heq⟩ := map_eq_some_iff.mp h
    cases heq
    cases pc with
    | start =>
      rw [stepPublish] at hr
      split at hr <;> cases hr <;> exact .same _
    | cache m =>
      rw [stepPublish, PublishCall.cache] at hr
      cases hm : call.restamp env m with
      | error =>
        rw [hm] at hr
        cases hr
        exact .same _
      | ok =>
        rw [hm] at hr
        cases hr
        exact .cached _ _ _ _ _
    | fanOut | prune | idle => cases hr; exact .same _
    | done => cases hr
  | subscribe call pc =>
    obtain ⟨r, hr, heq⟩ := map_eq_some_iff.mp h
    cases heq
    cases pc with
    | check =>
      rw [stepSubscribe] at hr
      split at hr
      · split at hr <;> cases hr <;> exact .same _
      · cases hr; exact .same _
    | read =>
      rw [stepSubscribe] at hr
      split at hr <;> cases hr <;> exact .same _
    | register | send | prune | confirm => cases hr; exact .same _
    | done => cases hr
  | unsubscribe topic peer pc =>
    obtain ⟨r, hr, heq⟩ := map_eq_some_iff.mp h
    cases heq
    cases pc with
    | remove =>
      rw [stepUnsubscribe] at hr
      split at hr <;> cases hr <;> exact .same _
    | idle => cases hr; exact .forgot _ _ _
    | done => cases hr
  | clear topic notify pc =>
    obtain ⟨r, hr, heq⟩ := map_eq_some_iff.mp h
    cases heq
    cases pc with
    | start =>
      have hcleared := TopicsMoved.cleared (b := b) topic notify .start
      rw [stepClear] at hr
      split at hr
      all_goals
        next hclear =>
        cases hr
        rw [hclear] at hcleared
        exact hcleared
    | fanOut | prune | idle => cases hr; exact .same _
    | done => cases hr
  | subscribeUiEvent peer source action tx done =>
    cases done with
    | true => cases h
    | false => cases h; exact .same _
  | unsubscribeUiEvent peer source action done =>
    cases done with
    | true => cases h
    | false =>
      have heq := Option.some.inj h
      split at heq <;> cases heq <;> exact .same _
  | removePeer peer owner pc =>
    obtain ⟨r, hr, heq⟩ := map_eq_some_iff.mp h
    cases heq
    cases pc with
    | remove => cases hr; exact .same _
    | disown => cases hr; exact .disowned _ _ _ _
    | idle => cases hr; exact .buried _ _
    | done => cases hr
  | janitorTick now pc =>
    obtain ⟨r, hr, heq⟩ := map_eq_some_iff.mp h
    cases heq
    cases pc with
    | collect | prune | idle | count => cases hr; exact .same _
    | retain => cases hr; exact .retained _ _ _
    | done => cases hr

namespace Call

/-- Only the publisher publishes, its connection stays, and no UI event has an id of the topic. -/
def lawful (name peer : String) (tx : Chan) : Call → Prop
  | .publish call => call.name = name → call.fromPeer = peer ∧ call.fromTx = tx
  | .removePeer p owner => ¬(p = peer ∧ owner = tx)
  | .subscribeUiEvent p source action _ =>
    ∀ q filter, uiEventSubId p source action ≠ topicSubId q name filter
  | .unsubscribeUiEvent p source action =>
    ∀ q filter, uiEventSubId p source action ≠ topicSubId q name filter
  | _ => True

end Call

def Proc.call : Proc → Call
  | .publish call _ => .publish call
  | .subscribe call _ => .subscribe call
  | .unsubscribe topic peer _ => .unsubscribe topic peer
  | .clear topic notify _ => .clear topic notify
  | .subscribeUiEvent peer source action tx _ => .subscribeUiEvent peer source action tx
  | .unsubscribeUiEvent peer source action _ => .unsubscribeUiEvent peer source action
  | .removePeer peer owner _ => .removePeer peer owner
  | .janitorTick now _ => .janitorTick now

theorem Call.call_start (c : Call) : c.start.call = c := by
  cases c <;> rfl

theorem Broker.stepProc_call {b' : Broker} {p' : Proc} (h : b.stepProc json env p = some (b', p')) :
    p'.call = p.call := by
  cases p with
  | subscribeUiEvent peer source action tx done | unsubscribeUiEvent peer source action done =>
    cases done with
    | true => cases h
    | false => cases h; rfl
  | _ =>
    obtain ⟨r, -, heq⟩ := map_eq_some_iff.mp h
    cases heq
    rfl

theorem retain_owner {state' : TopicState} {now subs : Nat}
    (h : state.retain now subs = some state') :
    state'.lastPublisher = state.lastPublisher ∧ state'.lastPublisherTx = state.lastPublisherTx := by
  refine Yields.elim h ?_
  unfold TopicState.retain
  dsimp only
  split
  · split
    · split
      · trivial
      · exact ⟨rfl, rfl⟩
    · split
      · trivial
      · exact ⟨rfl, rfl⟩
  · split
    · trivial
    · exact ⟨rfl, rfl⟩

theorem OwnedAt.moved {topics' : Topics} (h : OwnedAt name peer tx b.topics)
    (hlaw : p.call.lawful name peer tx) (hmove : TopicsMoved b p topics') :
    OwnedAt name peer tx topics' := by
  intro state' hstate'
  cases hmove with
  | same => exact h state' hstate'
  | cached =>
    rw [Maps.getElem?_insert_eq] at hstate'
    split at hstate'
    · next hname =>
      cases hstate'
      obtain ⟨hpeer, htx⟩ := hlaw hname.symm
      exact ⟨congrArg some hpeer, congrArg some htx⟩
    · exact h state' hstate'
  | forgot =>
    unfold forgetTopic at hstate'
    split at hstate'
    · split at hstate'
      · rw [Maps.getElem?_erase_eq] at hstate'
        split at hstate'
        · cases hstate'
        · exact h state' hstate'
      · exact h state' hstate'
    · exact h state' hstate'
  | cleared topic =>
    unfold clearTopic at hstate'
    split at hstate'
    · exact h state' hstate'
    next state hstate =>
    have hinsert : (b.topics.insert topic { state with snapshot := none })[name]? =
        some state' := by
      split at hstate'
      · split at hstate' <;> exact hstate'
      · exact hstate'
    rw [Maps.getElem?_insert_eq] at hinsert
    split at hinsert
    · next hname =>
      cases hinsert
      exact h state (hname ▸ hstate)
    · exact h state' hinsert
  | disowned =>
    unfold disownTopics at hstate'
    rw [Std.ExtTreeMap.getElem?_map] at hstate'
    obtain ⟨state, hstate, heq⟩ := map_eq_some_iff.mp hstate'
    have howned := h state hstate
    rw [TopicState.disown, if_neg] at heq
    · exact heq ▸ howned
    · rintro ⟨hq, howner⟩
      rw [howned.1] at hq
      rw [howned.2] at howner
      exact hlaw ⟨(Option.some.inj hq).symm, (Option.some.inj howner).symm⟩
  | buried =>
    rw [Maps.getElem?_eraseAll] at hstate'
    split at hstate'
    · cases hstate'
    · exact h state' hstate'
  | retained =>
    unfold retainTopics at hstate'
    rw [Std.ExtTreeMap.getElem?_filterMap'] at hstate'
    obtain ⟨state, hstate, heq⟩ := Option.bind_eq_some_iff.mp hstate'
    obtain ⟨hpeer, htx⟩ := retain_owner heq
    obtain ⟨hpeer', htx'⟩ := h state hstate
    exact ⟨hpeer.trans hpeer', htx.trans htx'⟩

end Cosmix.Noded
