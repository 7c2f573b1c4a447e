/- source: cosmix-noded/src/subscription.rs
   digest: What each place of a call knows about the notices sent so far. -/

import Cosmix.Noded.Notices

namespace Cosmix.Noded

open Cosmix.Bus Cosmix.Lib

variable (name : String) (inner : BrokerInner)

/-- After so many notices the publisher knows whether the topic has a subscription. -/
def Settled (n : Nat) : Prop :=
  n % 2 = 1 ↔ Subscribed name inner

/-- The publisher still has to hear of the topics named. -/
def Owing (n : Nat) (names : IdSet) : Prop :=
  n % 2 = 1 ↔ Subscribed name inner ∨ name ∈ names

def Alone (id : String) : Prop :=
  ∀ (k : String) (sub : Subscription), inner.subscriptions[k]? = some sub →
    sub.isTopic name = true → k = id

def Accompanied (id : String) : Prop :=
  ∃ (k : String) (sub : Subscription), k ≠ id ∧ inner.subscriptions[k]? = some sub ∧
    sub.isTopic name = true

/-- What the count before the registration says of the notices so far. -/
def Found (id : String) (n preCount : Nat) : Prop :=
  (n % 2 = 1 ↔ preCount ≠ 0) ∧ (preCount = 0 → Alone name inner id)

/-- What a subscribe to the topic knows at each place. -/
def DueJoin (peer : String) (b : Broker) (n : Nat) (c : SubscribeCall) : SubscribePc → Prop
  | .read preCount =>
    b.inner.subscriptions[c.id]? = some c.subscription ∧ Found c.name b.inner c.id n preCount
  | .send preCount _ _ active =>
    b.inner.subscriptions[c.id]? = some c.subscription ∧ Found c.name b.inner c.id n preCount ∧
      noticesFor peer c.name active.toList = if preCount = 0 then [some "topic.active"] else []
  | .prune _ =>
    b.inner.subscriptions[c.id]? = some c.subscription ∧ b.outbound.closed c.tx = true ∧
      (n % 2 = 0 ∧ Alone c.name b.inner c.id ∨ n % 2 = 1 ∧ Accompanied c.name b.inner c.id)
  | .confirm _ => Settled c.name b.inner n ∧ b.inner.subscriptions[c.id]? = none
  | _ => Settled c.name b.inner n

/-- A subscribe to another topic has no notice for this one. -/
def Silent (name peer : String) : SubscribePc → Prop
  | .send _ _ _ active => noticesFor peer name active.toList = []
  | .prune active => noticesFor peer name active.toList = []
  | .confirm active => noticesFor peer name active.toList = []
  | _ => True

/-- What a call knows of the notices sent so far at each place. -/
def Due (name peer : String) (b : Broker) (n : Nat) : Proc → Prop
  | .publish _ (.prune outcome _ _) => outcome.notifications = [] ∧ Settled name b.inner n
  | .publish _ (.idle _ _ names) => Owing name b.inner n names
  | .clear _ _ (.idle _ names) => Owing name b.inner n names
  | .removePeer _ _ (.disown names) => Owing name b.inner n names
  | .removePeer _ _ (.idle names) => Owing name b.inner n names
  | .janitorTick _ (.idle names) => Owing name b.inner n names
  | .unsubscribe topic _ .idle =>
    if topic = name then n % 2 = 1 ∧ ¬Subscribed name b.inner else Settled name b.inner n
  | .subscribe c pc =>
    if c.name = name then DueJoin peer b n c pc else Settled name b.inner n ∧ Silent name peer pc
  | _ => Settled name b.inner n

/-- What a step of a call must show: notices as they should be, and what the next place knows. -/
def Advances (name peer : String) (n : Nat) (p : Proc) (b' : Broker) (p' : Proc) : Prop :=
  ∃ notes n', noticesFor peer name p'.notes = noticesFor peer name p.notes ++ notes ∧
    Emits n notes n' ∧ Due name peer b' n' p'

theorem Advances.silent {name peer : String} {n : Nat} {p p' : Proc} {b' : Broker}
    (hnotes : noticesFor peer name p'.notes = noticesFor peer name p.notes)
    (hdue : Due name peer b' n p') : Advances name peer n p b' p' :=
  ⟨[], n, by rw [hnotes, List.append_nil], .nothing, hdue⟩

section

variable {name peer : String} {tx : Chan} {env : Env} {b b' : Broker} {state : TopicState} {n : Nat}

theorem Owing.prune (h : Settled name b.inner n) (env : Env) (ids : List String) :
    Owing name (b.prune env ids).2.inner n (b.prune env ids).1 := by
  have hprune : Subscribed name (b.prune env ids).2.inner ∨ name ∈ (b.prune env ids).1 ↔
      Subscribed name b.inner ∨ name ∈ (∅ : IdSet) :=
    subscribed_prune env ids ⟨b.inner, b.outbound, ∅⟩
  unfold Owing
  unfold Settled at h
  rw [hprune, h]
  exact ⟨.inl, fun hc => hc.resolve_right Std.ExtTreeSet.not_mem_empty⟩

variable {inner : BrokerInner} {q : String} {sub : Subscription} {c : SubscribeCall}

theorem Owing.settled {names : IdSet} (h : Owing name inner n names)
    (hnames : names.isEmpty = true) : Settled name inner n := by
  rw [Std.ExtTreeSet.isEmpty_iff] at hnames
  subst hnames
  unfold Owing at h
  unfold Settled
  rw [h]
  exact ⟨fun hc => hc.resolve_right Std.ExtTreeSet.not_mem_empty, .inl⟩

variable (hstate : b.topics[name]? = some state)
include hstate

variable (howned : OwnedBy peer tx state)
include howned

theorem Owing.idle {names : IdSet} (h : Owing name b.inner n names)
    (hopen : (b.idleNotices env names).2.outbound.closed tx = false) :
    ∃ n', Emits n (noticesFor peer name (b.idleNotices env names).1) n' ∧
      Settled name b.inner n' := by
  rw [noticesFor_idleNotices hstate howned hopen]
  by_cases hcount : b.inner.topicCount name = 0
  · have hnot := topicCount_eq_zero_iff.mp hcount
    by_cases hmem : name ∈ names
    · have hodd : n % 2 = 1 := h.mpr (.inr hmem)
      rw [if_pos ⟨hmem, hcount⟩]
      refine ⟨n + 1, .idle hodd, fun hc => ?_, fun hc => absurd hc hnot⟩
      omega
    · rw [if_neg fun hc => hmem hc.1]
      exact ⟨n, .nothing, fun hc => (h.mp hc).resolve_right hmem, fun hc => absurd hc hnot⟩
  · have hsub : Subscribed name b.inner := Classical.not_not.mp fun hc =>
      hcount (topicCount_eq_zero_iff.mpr hc)
    rw [if_neg fun hc => hcount hc.2]
    exact ⟨n, .nothing, fun _ => hsub, fun _ => h.mpr (.inl hsub)⟩

variable (hopen : b'.outbound.closed tx = false)
include hopen

theorem Due.publish {json : JsonReader} {call : PublishCall} {pc pc' : PublishPc}
    (h : Due name peer b n (.publish call pc))
    (hstep : b.stepPublish json env call pc = some (b', pc')) :
    Advances name peer n (.publish call pc) b' (.publish call pc') := by
  cases pc with
  | start =>
    rw [Broker.stepPublish] at hstep
    split at hstep
    · next e he =>
      cases hstep
      refine .silent ?_ h
      rw [show (Proc.publish call (.done (.error e))).notes = [] from 
        PublishError.notifications_of_seq (PublishCall.accept_error he)]
      rfl
    · cases hstep
      exact .silent rfl h
  | cache =>
    rw [Broker.stepPublish] at hstep
    split at hstep
    · next e he =>
      cases hstep
      refine .silent ?_ h
      rw [show (Proc.publish call (.done (.error e))).notes = [] from cache_error_notes he]
      rfl
    · cases hstep
      exact .silent rfl h
  | fanOut =>
    cases hstep
    split
    · refine .silent ?_ h
      rw [notes_finish]
      rfl
    · exact .silent rfl ⟨rfl, h⟩
  | prune outcome failure ids =>
    cases hstep
    have howing := Owing.prune h.2 env ids
    split
    · next hempty =>
      refine .silent ?_ (howing.settled hempty)
      rw [notes_finish, h.1]
      rfl
    · exact .silent rfl howing
  | idle =>
    cases hstep
    obtain ⟨n', hemits, hsettled⟩ := Owing.idle hstate howned h hopen
    refine ⟨_, n', ?_, hemits, hsettled⟩
    rw [notes_finish]
    rfl
  | done => cases hstep

theorem Due.clear {topic : String} {notify : Bool} {pc pc' : ClearPc}
    (h : Due name peer b n (.clear topic notify pc))
    (hstep : b.stepClear env topic notify pc = some (b', pc')) :
    Advances name peer n (.clear topic notify pc) b' (.clear topic notify pc') := by
  cases pc with
  | start =>
    rw [Broker.stepClear] at hstep
    split at hstep <;> cases hstep <;> exact .silent rfl h
  | fanOut =>
    cases hstep
    split <;> exact .silent rfl h
  | prune delivered ids =>
    cases hstep
    have howing := Owing.prune h env ids
    split
    · next hempty => exact .silent rfl (howing.settled hempty)
    · exact .silent rfl howing
  | idle =>
    cases hstep
    obtain ⟨n', hemits, hsettled⟩ := Owing.idle hstate howned h hopen
    exact ⟨_, n', rfl, hemits, hsettled⟩
  | done => cases hstep

theorem Due.removePeer {owner : Chan} {pc pc' : RemovePeerPc}
    (h : Due name peer b n (.removePeer q owner pc))
    (hstep : b.stepRemovePeer env q owner pc = some (b', pc')) :
    Advances name peer n (.removePeer q owner pc) b' (.removePeer q owner pc') := by
  cases pc with
  | remove =>
    cases hstep
    exact .silent rfl (Iff.trans h (subscribed_removeOwned q owner).symm)
  | disown =>
    cases hstep
    exact .silent rfl h
  | idle =>
    cases hstep
    obtain ⟨n', hemits, hsettled⟩ := Owing.idle hstate howned h hopen
    exact ⟨_, n', rfl, hemits, hsettled⟩
  | done => cases hstep

theorem Due.janitor {now : Nat} {pc pc' : JanitorPc} (h : Due name peer b n (.janitorTick now pc))
    (hstep : b.stepJanitor env now pc = some (b', pc')) :
    Advances name peer n (.janitorTick now pc) b' (.janitorTick now pc') := by
  cases pc with
  | collect =>
    cases hstep
    split <;> exact .silent rfl h
  | prune ids =>
    cases hstep
    have howing := Owing.prune h env ids
    split
    · next hempty => exact .silent rfl (howing.settled hempty)
    · exact .silent rfl howing
  | idle =>
    cases hstep
    obtain ⟨n', hemits, hsettled⟩ := Owing.idle hstate howned h hopen
    exact ⟨_, n', rfl, hemits, hsettled⟩
  | count | retain =>
    cases hstep
    exact .silent rfl h
  | done => cases hstep

theorem Due.unsubscribe {topic : String} {pc pc' : UnsubscribePc}
    (h : Due name peer b n (.unsubscribe topic q pc))
    (hstep : b.stepUnsubscribe topic q pc = some (b', pc')) :
    Advances name peer n (.unsubscribe topic q pc) b' (.unsubscribe topic q pc') := by
  cases pc with
  | remove =>
    have hsettled : Settled name b.inner n := h
    rw [Broker.stepUnsubscribe] at hstep
    split at hstep
    · cases hstep
      exact .silent rfl hsettled
    next hids =>
    cases hstep
    by_cases htopic : topic = name
    · subst htopic
      -- something was taken, so the topic had a subscription
      obtain ⟨id, hid⟩ := List.exists_mem_of_ne_nil (b.inner.idsOn topic q)
        fun hnil => hids (List.isEmpty_iff.mpr hnil)
      have hodd : n % 2 = 1 := hsettled.mpr ⟨id, exists_of_mem_idsOn hid⟩
      split
      · next hcount =>
        refine .silent rfl ?_
        rw [Due, if_pos rfl]
        exact ⟨hodd, topicCount_eq_zero_iff.mp hcount⟩
      · next hcount =>
        refine .silent rfl ⟨fun _ => ?_, fun _ => hodd⟩
        exact Classical.not_not.mp fun hc => hcount (topicCount_eq_zero_iff.mpr hc)
    · have hsame : Settled name (b.inner.drop q (b.inner.idsOn topic q)) n :=
        hsettled.trans (subscribed_drop q (foreign_idsOn htopic q)).symm
      split
      · refine .silent rfl ?_
        rw [Due, if_neg htopic]
        exact hsame
      · exact .silent rfl hsame
  | idle =>
    cases hstep
    rw [Due] at h
    by_cases htopic : topic = name
    · subst htopic
      rw [if_pos rfl] at h
      refine ⟨_, n + 1, ?_, .idle h.1, fun hc => ?_, fun hc => absurd hc h.2⟩
      · rw [unsubscribeTopics, hstate]
        exact noticesFor_notice howned hopen _ _ _
      · omega
    · rw [if_neg htopic] at h
      refine .silent ?_ h
      rw [unsubscribeTopics]
      split
      · exact noticesFor_notice_ne htopic _ _ _ _
      · rfl
  | done => cases hstep

omit hopen howned hstate

theorem Due.registerUi (hkeyed : Keyed name b.inner) {source : String} {action : Option String}
    {c : Chan} (hlaw : ∀ r filter, uiEventSubId q source action ≠ topicSubId r name filter)
    (h : Settled name b.inner n) :
    Settled name (b.inner.register (uiEventSubscription q source action c)) n := by
  have hnot : (uiEventSubscription q source action c).isTopic name = false :=
    decide_eq_false nofun
  exact h.trans (subscribed_register hnot (hkeyed.foreign hlaw)).symm

variable {id : String}

theorem Alone.not_subscribed (h : Alone name inner id) (p : String) :
    ¬Subscribed name (inner.drop p [id]) := by
  rintro ⟨k, sub, hsub, htopic⟩
  obtain ⟨hk, hsub⟩ := inner.drop_eq_some_iff.mp hsub
  exact hk (List.mem_singleton.mpr (h k sub hsub htopic))

theorem Accompanied.subscribed (h : Accompanied name inner id) (p : String) :
    Subscribed name (inner.drop p [id]) := by
  obtain ⟨k, sub, hk, hsub, htopic⟩ := h
  exact ⟨k, sub, inner.drop_eq_some_iff.mpr ⟨by simpa using hk, hsub⟩, htopic⟩

theorem prune_dead (env : Env) (hsub : b.inner.subscriptions[id]? = some sub)
    (hclosed : b.outbound.closed sub.tx = true) :
    (b.prune env [id]).2.inner = b.inner.drop sub.peer [id] := by
  have hvisit : (b.outbound.visit env sub).closed sub.tx = true := by
    unfold Outbound.visit
    split
    · exact Bool.or_eq_true_iff.mpr (.inl hclosed)
    · exact hclosed
  change (Pruning.one env ⟨b.inner, b.outbound, ∅⟩ id).inner = _
  unfold Pruning.one
  rw [hsub]
  dsimp only
  rw [if_pos hvisit]

theorem Found.emits {preCount : Nat} (hjoined : b.inner.subscriptions[c.id]? = some c.subscription)
    (h : Found c.name b.inner c.id n preCount) :
    ∃ n', Emits n (if preCount = 0 then [some "topic.active"] else []) n' ∧
      Settled c.name b.inner n' := by
  have hsub : Subscribed c.name b.inner := ⟨c.id, c.subscription, hjoined, decide_eq_true rfl⟩
  by_cases hpre : preCount = 0
  · rw [if_pos hpre]
    have heven : n % 2 = 0 := by
      have hno : ¬n % 2 = 1 := fun hodd => h.1.mp hodd hpre
      omega
    exact ⟨n + 1, .active heven, fun _ => hsub, fun _ => by omega⟩
  · rw [if_neg hpre]
    exact ⟨n, .nothing, fun _ => hsub, fun _ => h.1.mpr hpre⟩

theorem DueJoin.step (hstate : b.topics[c.name]? = some state) (howned : OwnedBy peer tx state)
    (hopen : b'.outbound.closed tx = false) {pc pc' : SubscribePc}
    (hevict : ∀ preCount m seq active, pc = .send preCount m seq active →
      (b.outbound.visit env c.subscription).closed c.tx = true →
      preCount = 0 ∨ Accompanied c.name b.inner c.id) (h : DueJoin peer b n c pc)
    (hstep : b.stepSubscribe env c pc = some (b', pc')) :
    ∃ notes n', noticesFor peer c.name (Proc.subscribe c pc').notes = notes ∧ Emits n notes n' ∧
      DueJoin peer b' n' c pc' := by
  cases pc with
  | check =>
    rw [Broker.stepSubscribe] at hstep
    split at hstep
    · split at hstep <;> cases hstep <;> exact ⟨[], n, rfl, .nothing, h⟩
    · cases hstep
      exact ⟨[], n, rfl, .nothing, h⟩
  | register =>
    cases hstep
    have hread : ∀ k : String, (b.inner.register c.subscription).subscriptions[k]? =
        if k = c.id then some c.subscription else b.inner.subscriptions[k]? :=
      b.inner.getElem?_register c.subscription
    refine ⟨[], n, rfl, .nothing, (hread c.id).trans (if_pos rfl), ?_, fun hpre => ?_⟩
    · have hsettled : n % 2 = 1 ↔ Subscribed c.name b.inner := h
      rw [hsettled, ne_eq, topicCount_eq_zero_iff, Classical.not_not]
    · intro k sub hsub htopic
      by_cases hk : k = c.id
      · exact hk
      · rw [hread, if_neg hk] at hsub
        exact absurd ⟨k, sub, hsub, htopic⟩ (topicCount_eq_zero_iff.mp hpre)
  | read preCount =>
    obtain ⟨hjoined, hfound⟩ := h
    have hactive : noticesFor peer c.name
        (c.readTopic b.topics b.outbound.closed preCount).2.2.toList =
        if preCount = 0 then [some "topic.active"] else [] := by
      rw [SubscribeCall.readTopic, hstate]
      dsimp only
      split
      · refine noticesFor_notice howned ?_ _ _ _
        rw [Broker.stepSubscribe] at hstep
        split at hstep <;> cases hstep <;> exact hopen
      · rfl
    rw [Broker.stepSubscribe] at hstep
    split at hstep
    · next hread =>
      cases hstep
      rw [hread] at hactive
      obtain ⟨n', hemits, hsettled⟩ := hfound.emits hjoined
      exact ⟨_, n', hactive, hemits, hsettled⟩
    · next hread =>
      cases hstep
      rw [hread] at hactive
      exact ⟨[], n, rfl, .nothing, hjoined, hfound, hactive⟩
  | send preCount m seq active =>
    obtain ⟨hjoined, hfound, hactive⟩ := h
    cases hstep
    split
    · next hsend =>
      have hclosed : (b.outbound.visit env c.subscription).closed c.tx = true := by
        unfold Outbound.sendSnapshot Outbound.trySend at hsend
        split at hsend
        · assumption
        · split at hsend <;> cases hsend
      refine ⟨[], n, rfl, .nothing, hjoined, ?_, ?_⟩
      · unfold Outbound.sendSnapshot Outbound.trySend
        rwa [if_pos]
        exact hclosed
      · rcases hevict preCount m seq active rfl hclosed with hpre | hothers
        · refine .inl ⟨?_, hfound.2 hpre⟩
          have hno : ¬n % 2 = 1 := fun hodd => hfound.1.mp hodd hpre
          omega
        · by_cases hpre : preCount = 0
          · refine .inl ⟨?_, hfound.2 hpre⟩
            have hno : ¬n % 2 = 1 := fun hodd => hfound.1.mp hodd hpre
            omega
          · exact .inr ⟨hfound.1.mpr hpre, hothers⟩
    · obtain ⟨n', hemits, hsettled⟩ := hfound.emits hjoined
      exact ⟨_, n', hactive, hemits, hsettled⟩
  | prune =>
    obtain ⟨hjoined, hclosed, hcase⟩ := h
    cases hstep
    have hdead := prune_dead env hjoined hclosed
    refine ⟨[], n, rfl, .nothing, ?_, ?_⟩
    · rw [hdead]
      rcases hcase with ⟨heven, halone⟩ | ⟨hodd, hothers⟩
      · refine ⟨fun hodd => ?_, fun hsub => absurd hsub (halone.not_subscribed _)⟩
        omega
      · exact ⟨fun _ => hothers.subscribed _, fun _ => hodd⟩
    · rw [hdead, b.inner.getElem?_drop, if_pos List.mem_cons_self]
  | confirm =>
    obtain ⟨hsettled, hgone⟩ := h
    rw [Broker.stepSubscribe, hgone] at hstep
    cases hstep
    exact ⟨[], n, rfl, .nothing, hsettled⟩
  | done => cases hstep

theorem Due.subscribeOther (hkeyed : Keyed name b.inner) (hname : c.name ≠ name)
    {pc pc' : SubscribePc} (h : Settled name b.inner n) (hsilent : Silent name peer pc)
    (hstep : b.stepSubscribe env c pc = some (b', pc')) :
    noticesFor peer name (Proc.subscribe c pc').notes = [] ∧ Settled name b'.inner n ∧
      Silent name peer pc' := by
  have hforeign : Foreign name b.inner [c.id] := hkeyed.foreign fun _ _ heq =>
    hname (topicSubId_inj heq).2.1
  cases pc with
  | check =>
    rw [Broker.stepSubscribe] at hstep
    split at hstep
    · split at hstep <;> cases hstep <;> exact ⟨rfl, h, trivial⟩
    · cases hstep
      exact ⟨rfl, h, trivial⟩
  | register =>
    cases hstep
    have hnot : c.subscription.isTopic name = false :=
      decide_eq_false fun heq => hname (SubKind.topic.inj heq)
    exact ⟨rfl, h.trans (subscribed_register hnot hforeign).symm, trivial⟩
  | read preCount =>
    have hactive : noticesFor peer name
        (c.readTopic b.topics b.outbound.closed preCount).2.2.toList = [] := by
      unfold SubscribeCall.readTopic
      split
      · rfl
      · split
        · exact noticesFor_notice_ne hname _ _ _ _
        · rfl
    rw [Broker.stepSubscribe] at hstep
    split at hstep
    · next hread =>
      cases hstep
      rw [hread] at hactive
      exact ⟨hactive, h, trivial⟩
    · next hread =>
      cases hstep
      rw [hread] at hactive
      exact ⟨rfl, h, hactive⟩
  | send =>
    cases hstep
    split
    · exact ⟨rfl, h, hsilent⟩
    · exact ⟨hsilent, h, trivial⟩
  | prune =>
    cases hstep
    refine ⟨rfl, ?_, hsilent⟩
    rcases Pruning.one_cases env ⟨b.inner, b.outbound, ∅⟩ c.id with ⟨hsame, -⟩ | ⟨sub, -, -, hdrop, -⟩
    · rw [show (b.prune env [c.id]).2.inner = b.inner from hsame]
      exact h
    · rw [show (b.prune env [c.id]).2.inner = b.inner.drop sub.peer [c.id] from hdrop]
      exact h.trans (subscribed_drop sub.peer hforeign).symm
  | confirm active =>
    cases hstep
    have hany : ∀ live : Bool,
        noticesFor peer name (if live then active.toList else []) = [] := by
      intro live
      cases live
      · rfl
      · exact hsilent
    exact ⟨hany _, h, trivial⟩
  | done => cases hstep

theorem Due.step {json : JsonReader} (hkeyed : Keyed name b.inner)
    (hstate : b.topics[name]? = some state) (howned : OwnedBy peer tx state)
    (hopen : b'.outbound.closed tx = false) {p p' : Proc} (hlaw : p.call.lawful name peer tx)
    (hevict : ∀ c preCount m seq active, p = .subscribe c (.send preCount m seq active) →
      c.name = name → (b.outbound.visit env c.subscription).closed c.tx = true →
      preCount = 0 ∨ Accompanied name b.inner c.id)
    (h : Due name peer b n p) (hstep : b.stepProc json env p = some (b', p')) :
    Advances name peer n p b' p' := by
  cases p with
  | publish =>
    obtain ⟨r, hr, heq⟩ := Option.map_eq_some_iff.mp hstep
    cases heq
    exact h.publish hstate howned hopen hr
  | subscribe c pc =>
    obtain ⟨⟨_, _⟩, hr, heq⟩ := Option.map_eq_some_iff.mp hstep
    cases heq
    have hnone : noticesFor peer name (Proc.subscribe c pc).notes = [] := by
      cases pc with
      | done => cases hr
      | _ => rfl
    rw [Due] at h
    by_cases hname : c.name = name
    · subst hname
      rw [if_pos rfl] at h
      obtain ⟨notes, n', hnotes, hemits, hdue⟩ := h.step hstate howned hopen
        (fun preCount m seq active hpc => hevict c preCount m seq active (by rw [hpc]) rfl) hr
      refine ⟨notes, n', by rw [hnotes, hnone, List.nil_append], hemits, ?_⟩
      rw [Due, if_pos rfl]
      exact hdue
    · rw [if_neg hname] at h
      obtain ⟨hnotes, hsettled, hsilent⟩ := Due.subscribeOther hkeyed hname h.1 h.2 hr
      refine .silent (hnotes.trans hnone.symm) ?_
      rw [Due, if_neg hname]
      exact ⟨hsettled, hsilent⟩
  | unsubscribe =>
    obtain ⟨r, hr, heq⟩ := Option.map_eq_some_iff.mp hstep
    cases heq
    exact h.unsubscribe hstate howned hopen hr
  | clear =>
    obtain ⟨r, hr, heq⟩ := Option.map_eq_some_iff.mp hstep
    cases heq
    exact h.clear hstate howned hopen hr
  | subscribeUiEvent q source action c done =>
    cases done with
    | true => cases hstep
    | false =>
      cases hstep
      exact .silent rfl (Due.registerUi hkeyed hlaw h)
  | unsubscribeUiEvent q source action done =>
    cases done with
    | true => cases hstep
    | false =>
      have heq := Option.some.inj hstep
      split at heq
      · cases heq
        exact .silent rfl (Iff.trans h (subscribed_drop q (hkeyed.foreign hlaw)).symm)
      · cases heq
        exact .silent rfl h
  | removePeer =>
    obtain ⟨r, hr, heq⟩ := Option.map_eq_some_iff.mp hstep
    cases heq
    exact h.removePeer hstate howned hopen hr
  | janitorTick =>
    obtain ⟨r, hr, heq⟩ := Option.map_eq_some_iff.mp hstep
    cases heq
    exact h.janitor hstate howned hopen hr

theorem Keyed.moved {p : Proc} {inner' : BrokerInner} (h : Keyed name b.inner)
    (hmove : InnerMoved env b p inner') : Keyed name inner' := by
  cases hmove with
  | same => exact h
  | register call =>
    refine h.register fun htopic => ⟨call.peer, call.filter, ?_⟩
    have hkind : call.name = name := SubKind.topic.inj (of_decide_eq_true htopic)
    rw [← hkind]
    rfl
  | registerUi => exact h.register fun htopic => nomatch of_decide_eq_true htopic
  | prune _ ids =>
    exact prune_keeps (P := Keyed name) (fun _ id sub hi _ => hi.drop sub.peer [id]) env ids h
  | unsubscribe | unsubscribeUi | removeOwned => exact h.drop _ _

end

end Cosmix.Noded
