/- source: cosmix-noded/src/subscription.rs, cosmix-noded/src/props_reservation.rs,
     cosmix-lib-bus/src/native_session/principal.rs
   digest: The subscription broker's registry and topics, and what each locked section does. -/

import Cosmix.Bus.Message
import Cosmix.Lib.Maps

namespace Cosmix.Noded

open Cosmix.Bus Cosmix.Lib.Text

/-- A connection's outbound channel. All clones of its sender are the same channel. -/
abbrev Chan := Nat

def maxSnapshotBytes : Nat := 1024 * 1024

def staleSnapshotTtl : Nat := 60 * 1000000000

inductive BrokerOrigin
  | localNode
  | mesh
  deriving DecidableEq

def BrokerOrigin.asStr : BrokerOrigin → String
  | .localNode => "local"
  | .mesh => "mesh"

inductive SubKind
  | topic (name : String)
  | uiEvent (source : String) (action : Option String)
  deriving DecidableEq

structure BodyFilter where
  ns : String
  deriving DecidableEq

structure Subscription where
  verifiedDestination : Bool
  (id peer : String)
  kind : SubKind
  tx : Chan
  filter : Option BodyFilter
  deriving DecidableEq

namespace Subscription

def isTopic (name : String) (s : Subscription) : Bool := s.kind = .topic name

def admits (ns : Option String) (s : Subscription) : Bool :=
  match s.filter with
  | none => true
  | some f => ns = some f.ns

end Subscription

inductive ErrorCode
  | resourceLimit
  | unavailable
  | other (code : String)
  deriving DecidableEq

structure SessionError where
  errorCode : ErrorCode
  reason : Option String
  deriving DecidableEq

/-- The broker asks for a notice to be delivered. -/
structure Notification where
  targetPeer : String
  targetTx : Chan
  message : BusMessage

structure PublishResult where
  (seq delivered refused dropped eligible : Nat)
  notifications : List Notification

inductive PublishError
  | session (error : SessionError)
  | interrupted (cause : PublishError) (outcome : PublishResult)
  | reservedName
  | payloadTooLarge (size limit : Nat)
  | malformedPayload

namespace PublishError

def recipientScoped : PublishError → Bool
  | .session e =>
    (e.errorCode = .resourceLimit && e.reason = some "recipient_dependency_limit") ||
      (e.errorCode = .unavailable && e.reason = some "recipient_missing")
  | _ => false

def notifications : PublishError → List Notification
  | .interrupted _ outcome => outcome.notifications
  | _ => []

end PublishError

def eqIgnoreAsciiCase (a b : String) : Bool :=
  a.toList.map Char.toLower = b.toList.map Char.toLower

def reservedHeaders : List String :=
  ["topic", "topic_seq", "topic_stale", "topic_op", "broker_origin", "broker_peer",
    "broker_service", "mesh_from"]

variable (m : BusMessage)

def stripBrokerOrigin : BusMessage :=
  { m with headers := m.headers.filter fun name _ =>
      !(["broker_origin", "broker_peer", "broker_service", "mesh_from"].any (eqIgnoreAsciiCase name)) }

def stampBrokerOrigin (origin : BrokerOrigin) : BusMessage :=
  (stripBrokerOrigin m).set "broker_origin" origin.asStr

def principalHeader : String := "broker_principal"

/-- A publisher's session as its stamp sees it: the header text, none when it is refused. -/
structure BrokerPrincipal where
  header : Option String

def stripPrincipal : BusMessage :=
  { m with headers := m.headers.filter fun name _ => !eqIgnoreAsciiCase name principalHeader }

def stampPrincipal : Option BrokerPrincipal → Except PublishError BusMessage
  | none => .ok (stripPrincipal m)
  | some p =>
    match p.header with
    | none => .error .malformedPayload
    | some text => .ok ((stripPrincipal m).set principalHeader text)

/-- The owner a topic's name gives when it ends in the suffix. -/
def ownerBefore (suffix name : String) : Option String :=
  match stripSuffix suffix.toList name.toList with
  | some (c :: cs) => some (String.ofList (c :: cs))
  | _ => none

def publisherOwner (name : String) : Option String :=
  ownerBefore ".props.records.changed" name <|> ownerBefore ".props.audit" name <|>
    ownerBefore ".pointer.changed" name <|> ownerBefore ".props.changed" name

def buildTopicNotice (command name : String) (subscribers : Nat) : BusMessage :=
  (((BusMessage.new.set "command" command).set "from" "noded").set "name" name).set
    "subscribers" (toString subscribers)

def topicSubId (peer topic : String) : Option BodyFilter → String
  | none =>
    toString peer.utf8ByteSize ++ ":" ++ peer ++ "::topic::" ++ toString topic.utf8ByteSize ++ ":" ++
      topic
  | some f =>
    toString peer.utf8ByteSize ++ ":" ++ peer ++ "::topic::" ++ toString topic.utf8ByteSize ++ ":" ++
      topic ++ "::ns::" ++ toString f.ns.utf8ByteSize ++ ":" ++ f.ns

def uiEventSubId (peer source : String) : Option String → String
  | some a => peer ++ "::ui::" ++ source ++ "::" ++ a
  | none => peer ++ "::ui::" ++ source ++ "::*"

abbrev Subscriptions := Std.ExtTreeMap String Subscription compare

abbrev IdSet := Std.ExtTreeSet String compare

abbrev ByPeer := Std.ExtTreeMap String IdSet compare

def Subscription.noteTopic (sub : Subscription) (names : IdSet) : IdSet :=
  match sub.kind with
  | .topic name => names.insert name
  | .uiEvent .. => names

def eraseIds (subs : Subscriptions) (ids : List String) : Subscriptions :=
  ids.foldl (fun m id => m.erase id) subs

theorem getElem?_eraseIds (subs : Subscriptions) (ids : List String) (k : String) :
    (eraseIds subs ids)[k]? = if k ∈ ids then none else subs[k]? :=
  Lib.Maps.getElem?_eraseAll subs ids k

/-- The subscriptions by their ids, and the ids by the peers that hold them. -/
structure BrokerInner where
  subscriptions : Subscriptions
  byPeer : ByPeer
  keyed : ∀ (k : String) (s : Subscription), subscriptions[k]? = some s → s.id = k

def enlist (byPeer : ByPeer) (peer id : String) : ByPeer :=
  byPeer.insert peer ((byPeer[peer]?.getD ∅).insert id)

def unlist (byPeer : ByPeer) (peer : String) (ids : List String) : ByPeer :=
  match byPeer[peer]? with
  | none => byPeer
  | some held =>
    let rest := ids.foldl (fun m id => m.erase id) held
    if rest.isEmpty then byPeer.erase peer else byPeer.insert peer rest

namespace BrokerInner

protected def new : BrokerInner where
  subscriptions := ∅
  byPeer := ∅
  keyed := by simp

variable (inner : BrokerInner)

def values : List Subscription := inner.subscriptions.toList.map Prod.snd

def topicCount (name : String) : Nat :=
  inner.values.countP (Subscription.isTopic name)

def register (sub : Subscription) : BrokerInner where
  subscriptions := inner.subscriptions.insert sub.id sub
  byPeer := enlist inner.byPeer sub.peer sub.id
  keyed := by
    intro k s h
    rw [Lib.Maps.getElem?_insert_eq] at h
    split at h
    · next hk =>
      cases h
      exact hk.symm
    · exact inner.keyed k s h

def drop (peer : String) (ids : List String) : BrokerInner where
  subscriptions := eraseIds inner.subscriptions ids
  byPeer := unlist inner.byPeer peer ids
  keyed := by
    intro k s h
    rw [getElem?_eraseIds] at h
    split at h
    · cases h
    · exact inner.keyed k s h

def idsOn (name peer : String) : List String :=
  match inner.byPeer[peer]? with
  | none => []
  | some ids => ids.toList.filter fun id =>
    match inner.subscriptions[id]? with
    | some sub => sub.isTopic name
    | none => false

def idsOwned (peer : String) (owner : Chan) : List String :=
  match inner.byPeer[peer]? with
  | none => []
  | some ids => ids.toList.filter fun id =>
    match inner.subscriptions[id]? with
    | some sub => sub.tx = owner
    | none => false

def topicsOf (ids : List String) : IdSet :=
  ids.foldl (fun names id =>
    match inner.subscriptions[id]? with
    | some sub => sub.noteTopic names
    | none => names) ∅

end BrokerInner

structure CachedSnapshot where
  body : BusMessage
  seq : Nat
  publishedBy : String
  staleSince : Option Nat
  bodyNamespace : Option String

structure TopicState where
  snapshot : Option CachedSnapshot
  lastPublisher : Option String
  lastPublisherTx : Option Chan
  nextSeq : Nat

abbrev Topics := Std.ExtTreeMap String TopicState compare

namespace TopicState

protected def new : TopicState := ⟨none, none, none, 0⟩

/-- A notice to the last publisher, when its channel is known and open. -/
def notice (state : TopicState) (closed : Chan → Bool) (command name : String) (subscribers : Nat) :
    Option Notification :=
  match state.lastPublisher, state.lastPublisherTx with
  | some peer, some tx =>
    if closed tx then none else some ⟨peer, tx, buildTopicNotice command name subscribers⟩
  | _, _ => none

end TopicState

/-- Around a locked section: full or closing channels, sessions, the clock, the order of walks. -/
structure Env where
  (full closing : Subscription → Bool)
  closingPublisher : String → Bool
  publisherNow : Option (Except SessionError (Option BrokerPrincipal))
  deliveryNow : Subscription → Except SessionError (Option (Option BrokerPrincipal))
  now : Nat
  order : List Subscription → List Subscription
  topicOrder : List String → List String
  order_perm : ∀ l, (order l).Perm l
  topicOrder_perm : ∀ l, (topicOrder l).Perm l

def Env.calm : Env where
  full := fun _ => false
  closing := fun _ => false
  closingPublisher := fun _ => false
  publisherNow := none
  deliveryNow := fun _ => .ok none
  now := 0
  order := fun l => l
  topicOrder := fun l => l
  order_perm := fun _ => .refl _
  topicOrder_perm := fun _ => .refl _

structure Delivery where
  id : String
  tx : Chan
  message : BusMessage

/-- The channels: which are closed, and what was put into them. -/
structure Outbound where
  closed : Chan → Bool
  sent : List Delivery

inductive TrySend
  | ok
  | full
  | closed
  deriving DecidableEq

namespace Outbound

variable (out : Outbound)

def close (tx : Chan) : Outbound :=
  { out with closed := fun c => out.closed c || c == tx }

variable (env : Env) (sub : Subscription)

/-- The channels when the section comes to the subscription. -/
def visit : Outbound :=
  if env.closing sub then out.close sub.tx else out

def trySend (m : BusMessage) : TrySend × Outbound :=
  if out.closed sub.tx then (.closed, out)
  else if env.full sub then (.full, out)
  else (.ok, { out with sent := out.sent ++ [⟨sub.id, sub.tx, m⟩] })

/-- An unverified destination never sees a principal. -/
def sendSnapshot (m : BusMessage) : TrySend × Outbound :=
  out.trySend env sub (if sub.verifiedDestination then m else stripPrincipal m)

/-- Live delivery asks the native sessions first, when there are any and the message has a
principal. -/
def sendLiveSnapshot (m : BusMessage) : Except PublishError (TrySend × Outbound) :=
  match env.deliveryNow sub with
  | .error e => .error (.session e)
  | .ok none => .ok (out.sendSnapshot env sub m)
  | .ok (some fresh) => (stampPrincipal m fresh).map (out.sendSnapshot env sub)

end Outbound

/-- Of JSON texts: which are well formed, and the string of a top-level namespace field. -/
structure JsonReader where
  wellFormed : String → Bool
  bodyNamespace : String → Option String

/-- Every text is well formed and no body has a namespace. -/
def JsonReader.lenient : JsonReader := ⟨fun _ => true, fun _ => none⟩

structure PublishCall where
  (name innerBody fromPeer : String)
  fromTx : Chan
  origin : BrokerOrigin
  retain : Bool
  principal : Option BrokerPrincipal

namespace PublishCall

/-- The checks before any lock: the inner message, and the namespace of its body. -/
def accept (json : JsonReader) (call : PublishCall) :
    Except PublishError (BusMessage × Option String) :=
  if "$".toList.isPrefixOf call.name.toList then .error .reservedName
  else if maxSnapshotBytes < call.innerBody.utf8ByteSize then
    .error (.payloadTooLarge call.innerBody.utf8ByteSize maxSnapshotBytes)
  else if !"---\n".toList.isPrefixOf call.innerBody.toList then .error .malformedPayload
  else
    match parse json.wellFormed call.innerBody with
    | .error _ => .error .malformedPayload
    | .ok inner =>
      if inner.commandName = some "noded.session.lifecycle" ∨
          inner.commandName = some "noded.session.lifecycle.gap" then .error .reservedName
      else (stampPrincipal inner call.principal).map fun m => (m, json.bodyNamespace m.body)

variable (call : PublishCall)

def annotate (seq : Nat) (m : BusMessage) : BusMessage :=
  let m := { m with headers := reservedHeaders.foldl (fun hs h => hs.erase h) m.headers }
  let m := stampBrokerOrigin m call.origin
  let m := if publisherOwner call.name = some call.fromPeer then
    m.set "broker_service" call.fromPeer else m
  (m.set "topic" call.name).set "topic_seq" (toString seq)

def restamp (env : Env) (m : BusMessage) : Except PublishError BusMessage :=
  match call.principal, env.publisherNow with
  | some _, some (.error e) => .error (.session e)
  | some _, some (.ok fresh) => stampPrincipal m fresh
  | _, _ => .ok m

/-- The topic's state after a publish with the given number. -/
def cached (state : TopicState) (m : BusMessage) (ns : Option String) : TopicState where
  snapshot :=
    if call.retain then some ⟨m, state.nextSeq + 1, call.fromPeer, none, ns⟩
    else state.snapshot.map fun snap =>
      if snap.publishedBy = call.fromPeer then { snap with staleSince := none } else snap
  lastPublisher := some call.fromPeer
  lastPublisherTx := some call.fromTx
  nextSeq := state.nextSeq + 1

/-- The section under the topics' write lock: number, stamp and cache. -/
def cache (env : Env) (m : BusMessage) (ns : Option String) (topics : Topics) :
    Except PublishError (Nat × BusMessage × Topics) :=
  (call.restamp env m).map fun m =>
    let state := topics[call.name]?.getD .new
    let seq := state.nextSeq + 1
    let m := call.annotate seq m
    (seq, m, topics.insert call.name (call.cached state m ns))

end PublishCall

structure FanOut where
  outbound : Outbound
  (delivered refused dropped : Nat)
  toPrune : List String
  failure : Option PublishError

namespace FanOut

protected def new (out : Outbound) : FanOut := ⟨out, 0, 0, 0, [], none⟩

/-- The channels as they are now, and the subscription marked when its channel is closed. -/
def reap (acc : FanOut) (out : Outbound) (sub : Subscription) : FanOut :=
  { acc with
    outbound := out
    toPrune := if out.closed sub.tx then acc.toPrune ++ [sub.id] else acc.toPrune }

def deliver (env : Env) (ns : Option String) (m : BusMessage) (acc : FanOut) (sub : Subscription) :
    FanOut :=
  -- a failure has left the loop
  if acc.failure.isSome then acc
  else
    let out := acc.outbound.visit env sub
    if !sub.admits ns then acc.reap out sub
    else
      match out.sendLiveSnapshot env sub m with
      | .error e =>
        if e.recipientScoped then { acc.reap out sub with refused := acc.refused + 1 }
        else { acc with outbound := out, failure := some e }
      | .ok (.ok, out) => { acc with outbound := out, delivered := acc.delivered + 1 }
      | .ok (.full, out) => { acc with outbound := out, dropped := acc.dropped + 1 }
      | .ok (.closed, out) => { acc.reap out sub with dropped := acc.dropped + 1 }

def deliverDelete (env : Env) (ns : Option String) (m : BusMessage) (acc : FanOut)
    (sub : Subscription) : FanOut :=
  let out := acc.outbound.visit env sub
  if !sub.admits ns then acc.reap out sub
  else
    match out.trySend env sub m with
    | (.ok, out) => { acc with outbound := out, delivered := acc.delivered + 1 }
    | (.full, out) => { acc with outbound := out }
    | (.closed, out) => acc.reap out sub

end FanOut

variable (inner : BrokerInner)

def BrokerInner.topicSubs (env : Env) (name : String) : List Subscription :=
  (env.order inner.values).filter (Subscription.isTopic name)

/-- Under the registry lock the session is looked at again, then every subscription gets the
message. -/
def PublishCall.fanOut (call : PublishCall) (env : Env) (inner : BrokerInner) (out : Outbound)
    (ns : Option String) (m : BusMessage) : FanOut :=
  match call.principal, env.publisherNow with
  | some _, some (.error e) => { FanOut.new out with failure := some (.session e) }
  | _, _ => (inner.topicSubs env call.name).foldl (FanOut.deliver env ns m) (.new out)

def PublishCall.eligible (call : PublishCall) (inner : BrokerInner) (ns : Option String) : Nat :=
  inner.values.countP fun sub => sub.isTopic call.name && sub.admits ns

structure Pruning where
  inner : BrokerInner
  outbound : Outbound
  affected : IdSet

variable (env : Env)

def Pruning.one (p : Pruning) (id : String) : Pruning :=
  match p.inner.subscriptions[id]? with
  | none => p
  | some sub =>
    let out := p.outbound.visit env sub
    if out.closed sub.tx then
      ⟨p.inner.drop sub.peer [id], out, sub.noteTopic p.affected⟩
    else { p with outbound := out }

def pruneDeadSubscriptions (inner : BrokerInner) (out : Outbound) (ids : List String) : Pruning :=
  ids.foldl (Pruning.one env) ⟨inner, out, ∅⟩

def collectDead (inner : BrokerInner) (out : Outbound) : List String × Outbound :=
  (env.order inner.values).foldl (fun acc sub =>
    let out := acc.2.visit env sub
    (if out.closed sub.tx then acc.1 ++ [sub.id] else acc.1, out)) ([], out)

/-- The channels when a section comes to the publisher of a topic. -/
def Outbound.visitPublisher (out : Outbound) (env : Env) (name : String) (state : TopicState) :
    Outbound :=
  match state.lastPublisherTx with
  | some tx => if env.closingPublisher name then out.close tx else out
  | none => out

/-- The idle notice of one topic that has no subscription left. -/
def idleOne (inner : BrokerInner) (topics : Topics)
    (acc : List Notification × Outbound) (name : String) : List Notification × Outbound :=
  if inner.topicCount name = 0 then
    match topics[name]? with
    | some state =>
      let out := acc.2.visitPublisher env name state
      (acc.1 ++ (state.notice out.closed "topic.idle" name 0).toList, out)
    | none => acc
  else acc

def idleNotificationsForPrunedTopics (inner : BrokerInner) (topics : Topics)
    (out : Outbound) (names : IdSet) : List Notification × Outbound :=
  (env.topicOrder names.toList).foldl (idleOne env inner topics) ([], out)

structure SubscribeCall where
  (name peer : String)
  tx : Chan
  filter : Option BodyFilter
  verifiedDestination : Bool

namespace SubscribeCall

variable (call : SubscribeCall)

def id : String := topicSubId call.peer call.name call.filter

def subscription : Subscription :=
  ⟨call.verifiedDestination, call.id, call.peer, .topic call.name, call.tx, call.filter⟩

def replay (state : TopicState) : Option BusMessage :=
  match state.snapshot with
  | none => none
  | some snap =>
    if !call.subscription.admits snap.bodyNamespace then none
    else some (if snap.staleSince.isSome then snap.body.set "topic_stale" "true" else snap.body)

/-- Under the topics lock: what to replay, its number, and the notice when there was no
subscription. -/
def readTopic (topics : Topics) (closed : Chan → Bool) (preCount : Nat) :
    Option BusMessage × Nat × Option Notification :=
  match topics[call.name]? with
  | none => (none, 0, none)
  | some state =>
    (call.replay state, (state.snapshot.map CachedSnapshot.seq).getD 0,
      if preCount = 0 then state.notice closed "topic.active" call.name 1 else none)

end SubscribeCall

variable (topics : Topics)

/-- A topic that has lost its last subscription is forgotten unless it has a snapshot. -/
def forgetTopic (name : String) : Topics :=
  match topics[name]? with
  | some state => if state.snapshot.isNone then topics.erase name else topics
  | none => topics

/-- The second section of an unsubscribe that left no subscription. -/
def unsubscribeTopics (closed : Chan → Bool) (name : String) : List Notification × Topics :=
  (match topics[name]? with
    | some state => (state.notice closed "topic.idle" name 0).toList
    | none => [],
    forgetTopic topics name)

def deleteMessage (name : String) (nextSeq : Nat) : BusMessage :=
  (((BusMessage.new.set "command" "ui.noop").set "topic" name).set "topic_op" "delete").set
    "topic_seq" (toString nextSeq)

/-- The first section of a clear, with what it has to fan out. -/
def clearTopic (name : String) (notify : Bool) : Option (BusMessage × Option String) × Topics :=
  match topics[name]? with
  | none => (none, topics)
  | some state =>
    let topics' := topics.insert name { state with snapshot := none }
    match state.snapshot with
    | some snap =>
      if notify then (some (deleteMessage name state.nextSeq, snap.bodyNamespace), topics')
      else (none, topics')
    | none => (none, topics')

def clearFanOut (inner : BrokerInner) (out : Outbound) (name : String)
    (ns : Option String) (m : BusMessage) : FanOut :=
  (inner.topicSubs env name).foldl (FanOut.deliverDelete env ns m) (.new out)

/-- The first section of a teardown: the connection's own subscriptions go. -/
def BrokerInner.removeOwned (peer : String) (owner : Chan) : BrokerInner :=
  inner.drop peer (inner.idsOwned peer owner)

/-- A topic the connection published last is stale and loses its publisher's channel. -/
def TopicState.disown (peer : String) (owner : Chan) (now : Nat) (state : TopicState) : TopicState :=
  if state.lastPublisher = some peer ∧ state.lastPublisherTx = some owner then
    { state with
      snapshot := state.snapshot.map fun snap =>
        if snap.staleSince.isNone then { snap with staleSince := some now } else snap
      lastPublisherTx := none }
  else state

def disownTopics (peer : String) (owner : Chan) (now : Nat) : Topics :=
  topics.map fun _ state => state.disown peer owner now

def deadTopics (topics : Topics) (names : IdSet) : List String :=
  names.toList.filter fun name =>
    inner.topicCount name = 0 &&
      match topics[name]? with
      | some state => state.snapshot.isNone
      | none => false

/-- A state the janitor keeps, with its snapshot purged when it was stale too long. -/
def TopicState.retain (now : Nat) (subs : Nat) (state : TopicState) : Option TopicState :=
  let state :=
    match state.snapshot with
    | some ⟨_, _, _, some since, _⟩ =>
      if staleSnapshotTtl < now - since then { state with snapshot := none } else state
    | _ => state
  if state.snapshot.isNone && subs = 0 then none else some state

def retainTopics (now : Nat) (counts : String → Nat) : Topics :=
  topics.filterMap fun name state => state.retain now (counts name)

end Cosmix.Noded
