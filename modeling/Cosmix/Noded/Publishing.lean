/- source: cosmix-noded/src/subscription.rs
   digest: What a fan-out through open channels delivers, and what a publish does meanwhile. -/

import Std.Data.String.ToNat
import Cosmix.Noded.Registry

namespace Cosmix.Noded

open Cosmix.Bus Cosmix.Lib List
open Subscription (admits)

variable (m : BusMessage)

theorem get_set (k v j : String) : (m.set k v).get j = if j = k then some v else m.get j :=
  Maps.getElem?_insert_eq _ _ _ _

theorem get_stripPrincipal {j : String}
    (h : eqIgnoreAsciiCase j principalHeader = false) : (stripPrincipal m).get j = m.get j := by
  have hread : (stripPrincipal m).get j =
      (m.headers[j]?).filter fun _ => !eqIgnoreAsciiCase j principalHeader :=
    Std.ExtTreeMap.getElem?_filter'
  rw [hread, h]
  unfold BusMessage.get
  cases m.headers[j]? <;> rfl

def topicOf : Option String := m.get "topic"

def topicSeq : Option Nat := (m.get "topic_seq").bind String.toNat?

/-- Two messages of one topic and number, with one body. -/
structure Alike (m m' : BusMessage) : Prop where
  topic : topicOf m' = topicOf m
  seq : topicSeq m' = topicSeq m
  body : m'.body = m.body

namespace Alike

theorem refl (m : BusMessage) : Alike m m := ⟨rfl, rfl, rfl⟩

theorem trans {m m' m'' : BusMessage} (h : Alike m m') (h' : Alike m' m'') : Alike m m'' :=
  ⟨h'.topic.trans h.topic, h'.seq.trans h.seq, h'.body.trans h.body⟩

theorem strip (m : BusMessage) : Alike m (stripPrincipal m) where
  topic := get_stripPrincipal m (by decide)
  seq := by
    unfold topicSeq
    rw [get_stripPrincipal m (by decide)]
  body := rfl

theorem set (m : BusMessage) {k : String} (v : String) (ht : "topic" ≠ k) (hs : "topic_seq" ≠ k) :
    Alike m (m.set k v) where
  topic := by
    unfold topicOf
    rw [get_set, if_neg ht]
  seq := by
    unfold topicSeq
    rw [get_set, if_neg hs]
  body := rfl

theorem stamp {m m' : BusMessage} {p : Option BrokerPrincipal} (h : stampPrincipal m p = .ok m') :
    Alike m m' := by
  cases p with
  | none =>
    cases h
    exact strip m
  | some =>
    rw [stampPrincipal] at h
    split at h
    · cases h
    · cases h
      exact (strip m).trans (set _ _ (by decide) (by decide))

end Alike

theorem topicOf_annotate (call : PublishCall) (seq : Nat) (m : BusMessage) :
    topicOf (call.annotate seq m) = some call.name := by
  unfold topicOf PublishCall.annotate
  rw [get_set, if_neg (by decide), get_set, if_pos rfl]

theorem topicSeq_annotate (call : PublishCall) (seq : Nat) (m : BusMessage) :
    topicSeq (call.annotate seq m) = some seq := by
  unfold topicSeq PublishCall.annotate
  rw [get_set, if_pos rfl]
  exact Nat.toNat?_repr seq

/-- A section during which no channel is full or closes and no session objects. -/
structure Env.Smooth (env : Env) : Prop where
  full : ∀ sub, env.full sub = false
  closing : ∀ sub, env.closing sub = false
  publisher : ∀ e, env.publisherNow ≠ some (.error e)
  delivery : ∀ sub, ∃ fresh, env.deliveryNow sub = .ok fresh ∧
    ∀ p, fresh = some (some p) → p.header ≠ none

def Outbound.Open (out : Outbound) : Prop := ∀ tx, out.closed tx = false

/-- A delivery of a message alike to a subscription. -/
def Reaches (sub : Subscription) (d : Delivery) : Prop :=
  d.id = sub.id ∧ d.tx = sub.tx ∧ Alike m d.message

namespace Outbound

variable {out : Outbound} {env : Env}

theorem visit_smooth (henv : env.Smooth) (sub : Subscription) : out.visit env sub = out := by
  unfold visit
  rw [henv.closing sub, if_neg Bool.false_ne_true]

theorem sendSnapshot_smooth (henv : env.Smooth) (hopen : out.Open) (sub : Subscription)
    (m : BusMessage) :
    ∃ d, Reaches m sub d ∧ out.sendSnapshot env sub m = (.ok, { out with sent := out.sent ++ [d] }) := by
  have halike : Alike m (if sub.verifiedDestination then m else stripPrincipal m) := by
    split
    · exact .refl m
    · exact .strip m
  refine ⟨⟨sub.id, sub.tx, if sub.verifiedDestination then m else stripPrincipal m⟩,
    ⟨rfl, rfl, halike⟩, ?_⟩
  unfold sendSnapshot trySend
  rw [hopen, if_neg Bool.false_ne_true, henv.full, if_neg Bool.false_ne_true]

theorem sendLiveSnapshot_smooth (henv : env.Smooth) (hopen : out.Open) (sub : Subscription)
    (m : BusMessage) :
    ∃ d, Reaches m sub d ∧
      out.sendLiveSnapshot env sub m = .ok (.ok, { out with sent := out.sent ++ [d] }) := by
  obtain ⟨fresh, hfresh, hheader⟩ := henv.delivery sub
  unfold sendLiveSnapshot
  rw [hfresh]
  cases fresh with
  | none =>
    obtain ⟨d, hd, hsend⟩ := sendSnapshot_smooth henv hopen sub m
    exact ⟨d, hd, congrArg Except.ok hsend⟩
  | some p =>
    have hstamp : ∃ m', stampPrincipal m p = .ok m' := by
      cases p with
      | none => exact ⟨_, rfl⟩
      | some p =>
        obtain ⟨text, htext⟩ := Option.ne_none_iff_exists'.mp (hheader p rfl)
        exact ⟨(stripPrincipal m).set principalHeader text, by rw [stampPrincipal, htext]⟩
    obtain ⟨m', hm'⟩ := hstamp
    obtain ⟨d, ⟨hid, htx, halike⟩, hsend⟩ := sendSnapshot_smooth henv hopen sub m'
    refine ⟨d, ⟨hid, htx, (Alike.stamp hm').trans halike⟩, ?_⟩
    dsimp only
    rw [hm', Except.map, hsend]

end Outbound

namespace FanOut

/-- What a smooth fan-out has done so far: nothing failed or is to be pruned, and the channels got
some deliveries more. -/
structure Went (out : Outbound) (ds : List Delivery) (acc : FanOut) : Prop where
  failure : acc.failure = none
  toPrune : acc.toPrune = []
  outbound : acc.outbound = { out with sent := out.sent ++ ds }

theorem Went.new (out : Outbound) : Went out [] (.new out) where
  failure := rfl
  toPrune := rfl
  outbound := by rw [append_nil]; rfl

variable {env : Env} {out : Outbound} {ds : List Delivery} {acc : FanOut}

theorem Went.deliver (henv : env.Smooth) (hopen : out.Open) (h : Went out ds acc)
    (ns : Option String) (m : BusMessage) (sub : Subscription) :
    sub.admits ns = false ∧ Went out ds (acc.deliver env ns m sub) ∨
      sub.admits ns = true ∧ ∃ d, Reaches m sub d ∧
        Went out (ds ++ [d]) (acc.deliver env ns m sub) := by
  have hopen' : acc.outbound.Open := by
    rw [h.outbound]
    exact hopen
  unfold FanOut.deliver
  rw [h.failure, Option.isSome_none, if_neg Bool.false_ne_true, Outbound.visit_smooth henv]
  cases hadmits : sub.admits ns with
  | false =>
    refine .inl ⟨rfl, ?_⟩
    rw [Bool.not_false, if_pos rfl]
    refine ⟨h.failure, ?_, h.outbound⟩
    unfold reap
    rw [hopen', if_neg Bool.false_ne_true, h.toPrune]
  | true =>
    obtain ⟨d, hd, hsend⟩ := Outbound.sendLiveSnapshot_smooth henv hopen' sub m
    refine .inr ⟨rfl, d, hd, ?_⟩
    rw [Bool.not_true, if_neg Bool.false_ne_true, hsend]
    refine ⟨rfl, h.toPrune, ?_⟩
    rw [h.outbound, append_assoc]

/-- Each subscription that admits the body gets one delivery, in the order they are walked. -/
theorem Went.deliverAll (henv : env.Smooth) (hopen : out.Open) (ns : Option String) (m : BusMessage)
    (subs : List Subscription) (h : Went out ds acc) :
    ∃ es, List.Forall₂ (Reaches m) (subs.filter (admits ns)) es ∧
      Went out (ds ++ es) (subs.foldl (FanOut.deliver env ns m) acc) := by
  induction subs generalizing ds acc with
  | nil =>
    refine ⟨[], .nil, ?_⟩
    rw [append_nil]
    exact h
  | cons sub subs ih =>
    rcases h.deliver henv hopen ns m sub with ⟨hno, hstep⟩ | ⟨hyes, d, hd, hstep⟩
    · obtain ⟨es, hes, hall⟩ := ih hstep
      refine ⟨es, ?_, hall⟩
      rw [filter_cons_of_neg (by rw [hno]; exact Bool.false_ne_true)]
      exact hes
    · obtain ⟨es, hes, hall⟩ := ih hstep
      refine ⟨d :: es, ?_, ?_⟩
      · rw [filter_cons_of_pos hyes]
        exact .cons hd hes
      · rw [append_cons]
        exact hall

end FanOut

variable {env : Env}

theorem PublishCall.fanOut_smooth (henv : env.Smooth) {out : Outbound} (hopen : out.Open)
    (call : PublishCall) (inner : BrokerInner) (ns : Option String) (m : BusMessage) :
    ∃ ds, List.Forall₂ (Reaches m)
        ((inner.topicSubs env call.name).filter (admits ns)) ds ∧
      FanOut.Went out ds (call.fanOut env inner out ns m) := by
  have hloop := (FanOut.Went.new out).deliverAll henv hopen ns m (inner.topicSubs env call.name)
  unfold PublishCall.fanOut
  split
  · next e _ he => exact absurd he (henv.publisher e)
  · exact hloop

def received (id : String) (sent : List Delivery) : List BusMessage :=
  (sent.filter fun d => d.id = id).map Delivery.message

theorem received_append (id : String) (ds es : List Delivery) :
    received id (ds ++ es) = received id ds ++ received id es := by
  rw [received, filter_append, map_append]
  rfl

variable {id : String}

theorem received_cons_self {d : Delivery} (h : d.id = id) (ds : List Delivery) :
    received id (d :: ds) = d.message :: received id ds := by
  simp [received, h]

theorem received_cons_ne {d : Delivery} (h : d.id ≠ id) (ds : List Delivery) :
    received id (d :: ds) = received id ds := by
  simp [received, h]

variable {m : BusMessage} {subs : List Subscription}

theorem received_eq_nil {ds : List Delivery} (h : List.Forall₂ (Reaches m) subs ds)
    (hid : id ∉ subs.map Subscription.id) : received id ds = [] := by
  induction h with
  | nil => rfl
  | cons hd _ ih =>
    rw [map_cons, mem_cons, not_or] at hid
    rw [received_cons_ne fun h => hid.1 (h.symm.trans hd.1)]
    exact ih hid.2

theorem received_one {ds : List Delivery}
    (h : List.Forall₂ (Reaches m) subs ds) (hnodup : (subs.map Subscription.id).Nodup)
    {sub : Subscription} (hsub : sub ∈ subs) :
    ∃ d ∈ ds, d.tx = sub.tx ∧ Alike m d.message ∧ received sub.id ds = [d.message] := by
  induction h with
  | nil => cases hsub
  | @cons s d subs ds hd hrest ih =>
    rw [map_cons, nodup_cons] at hnodup
    rcases mem_cons.mp hsub with rfl | hmem
    · refine ⟨d, mem_cons_self, hd.2.1, hd.2.2, ?_⟩
      rw [received_cons_self hd.1, received_eq_nil hrest hnodup.1]
    obtain ⟨e, he, htx, halike, hone⟩ := ih hnodup.2 hmem
    refine ⟨e, mem_cons_of_mem _ he, htx, halike, ?_⟩
    have hne : d.id ≠ sub.id := by
      rw [hd.1]
      exact fun heq => hnodup.1 (heq ▸ mem_map_of_mem hmem)
    rw [received_cons_ne hne]
    exact hone

/-- An unfiltered subscription to the topic gets a publish's message exactly once. -/
theorem PublishCall.fanOut_received (henv : env.Smooth) {out : Outbound}
    (hopen : out.Open) (call : PublishCall) {inner : BrokerInner} (ns : Option String)
    (m : BusMessage) {sub : Subscription} (hsub : inner.subscriptions[sub.id]? = some sub)
    (htopic : sub.isTopic call.name = true) (hfilter : sub.filter = none) :
    ∃ ds d, FanOut.Went out ds (call.fanOut env inner out ns m) ∧ d ∈ ds ∧ d.tx = sub.tx ∧
      Alike m d.message ∧ received sub.id ds = [d.message] := by
  obtain ⟨ds, hds, hwent⟩ := call.fanOut_smooth henv hopen inner ns m
  have hadmits : sub.admits ns = true := by
    unfold admits
    rw [hfilter]
  have hmem : sub ∈ (inner.topicSubs env call.name).filter (admits ns) := by
    refine mem_filter.mpr ⟨mem_filter.mpr ⟨?_, htopic⟩, hadmits⟩
    exact (env.order_perm _).mem_iff.mpr (inner.mem_values.mpr hsub)
  have hnodup : (((inner.topicSubs env call.name).filter
      (admits ns)).map Subscription.id).Nodup := by
    have hall : ((env.order inner.values).map Subscription.id).Nodup :=
      ((env.order_perm _).map _).nodup_iff.mpr inner.values_ids_nodup
    exact (hall.sublist ((filter_sublist.trans filter_sublist).map _))
  obtain ⟨d, hd, htx, halike, hone⟩ := received_one hds hnodup hmem
  exact ⟨ds, d, hwent, hd, htx, halike, hone⟩

def PublishError.seq : PublishError → Option Nat
  | .interrupted _ outcome => some outcome.seq
  | _ => none

variable {e : PublishError}

theorem PublishError.notifications_of_seq (h : e.seq = none) : e.notifications = [] := by
  cases e with
  | interrupted => cases h
  | _ => rfl

namespace PublishPc

/-- The number of a publish that is cached and not fanned out yet. -/
def pendingSeq : PublishPc → Option Nat
  | .fanOut seq _ _ => some seq
  | _ => none

def fannedSeq : PublishPc → Option Nat
  | .prune outcome _ _ => some outcome.seq
  | .idle outcome _ _ => some outcome.seq
  | .done (.ok outcome) => some outcome.seq
  | .done (.error e) => e.seq
  | _ => none

def cachedSeq (pc : PublishPc) : Option Nat := pc.pendingSeq <|> pc.fannedSeq

theorem cachedSeq_eq_none {pc : PublishPc} (h : pc.cachedSeq = none) :
    pc.pendingSeq = none ∧ pc.fannedSeq = none := by
  unfold cachedSeq at h
  cases hp : pc.pendingSeq with
  | none =>
    rw [hp] at h
    exact ⟨rfl, h⟩
  | some =>
    rw [hp] at h
    cases h

def unpruned : PublishPc → Bool
  | .prune .. => false
  | .idle .. => false
  | _ => true

end PublishPc

theorem stampPrincipal_error {p : Option BrokerPrincipal}
    (h : stampPrincipal m p = .error e) : e.seq = none := by
  cases p with
  | none => cases h
  | some =>
    rw [stampPrincipal] at h
    split at h
    · cases h
      rfl
    · cases h

namespace PublishCall

theorem accept_error {json : JsonReader} {call : PublishCall}
    (h : call.accept json = .error e) : e.seq = none := by
  unfold accept at h
  iterate 5
    split at h
    · cases h; rfl
  cases hstamp : stampPrincipal _ call.principal with
  | ok =>
    rw [hstamp] at h
    cases h
  | error =>
    rw [hstamp] at h
    cases h
    exact stampPrincipal_error hstamp

theorem restamp_error {call : PublishCall} (h : call.restamp env m = .error e) : e.seq = none := by
  unfold restamp at h
  split at h
  · cases h; rfl
  · exact stampPrincipal_error h
  · cases h

/-- The cache section refuses, or numbers and annotates the message and stores it. -/
theorem cache_cases (call : PublishCall) (env : Env) (m : BusMessage) (ns : Option String)
    (topics : Topics) :
    (∃ e, call.cache env m ns topics = .error e ∧ e.seq = none) ∨
      ∃ m', topicOf m' = some call.name ∧
        topicSeq m' = some ((topics[call.name]?.getD .new).nextSeq + 1) ∧
        call.cache env m ns topics = .ok ((topics[call.name]?.getD .new).nextSeq + 1, m',
          topics.insert call.name (call.cached (topics[call.name]?.getD .new) m' ns)) := by
  unfold cache
  cases hm : call.restamp env m with
  | error e => exact .inl ⟨e, rfl, restamp_error hm⟩
  | ok m₀ =>
    exact .inr ⟨call.annotate _ m₀, topicOf_annotate _ _ _, topicSeq_annotate _ _ _, rfl⟩

end PublishCall

/-- The sections of a publish while every channel is open. -/
inductive PublishMoved (env : Env) (b : Broker) (call : PublishCall) :
    PublishPc → Broker → PublishPc → Prop
  | refused {pc : PublishPc} (e : PublishError) (he : e.seq = none) (hpc : pc.cachedSeq = none) :
    PublishMoved env b call pc b (.done (.error e))
  | accepted (m : BusMessage) (ns : Option String) :
    PublishMoved env b call .start b (.cache m ns)
  | cached (m m' : BusMessage) (ns : Option String) (state : TopicState)
    (hstate : state = b.topics[call.name]?.getD .new) (htopic : topicOf m' = some call.name)
    (hseq : topicSeq m' = some (state.nextSeq + 1)) :
    PublishMoved env b call (.cache m ns)
      { b with topics := b.topics.insert call.name (call.cached state m' ns) }
      (.fanOut (state.nextSeq + 1) m' ns)
  | fanned (seq : Nat) (m : BusMessage) (ns : Option String) (outcome : PublishResult)
    (hseq : outcome.seq = seq) :
    PublishMoved env b call (.fanOut seq m ns)
      { b with outbound := (call.fanOut env b.inner b.outbound ns m).outbound } (.done (.ok outcome))

theorem Broker.stepPublish_smooth {json : JsonReader} (henv : env.Smooth)
    {b b' : Broker} (hopen : b.outbound.Open) {call : PublishCall} {pc pc' : PublishPc}
    (hpc : pc.unpruned = true) (h : b.stepPublish json env call pc = some (b', pc')) :
    PublishMoved env b call pc b' pc' := by
  cases pc with
  | start =>
    rw [stepPublish] at h
    split at h
    · next e he =>
      cases h
      exact .refused e (PublishCall.accept_error he) rfl
    · cases h
      exact .accepted _ _
  | cache m ns =>
    rw [stepPublish] at h
    rcases call.cache_cases env m ns b.topics with ⟨e, hcache, he⟩ | ⟨m', htopic, hseq, hcache⟩
    · rw [hcache] at h
      cases h
      exact .refused e he rfl
    · rw [hcache] at h
      cases h
      exact .cached m m' ns _ rfl htopic hseq
  | fanOut seq m ns =>
    obtain ⟨_, -, hwent⟩ := call.fanOut_smooth henv hopen b.inner ns m
    rw [stepPublish] at h
    rw [hwent.toPrune, hwent.failure] at h
    cases h
    exact .fanned seq m ns _ rfl
  | prune | idle => cases hpc
  | done => cases h

theorem PublishCall.cached_retained {call : PublishCall} (h : call.retain = true)
    (state : TopicState) (m : BusMessage) (ns : Option String) :
    (call.cached state m ns).snapshot = some ⟨m, state.nextSeq + 1, call.fromPeer, none, ns⟩ :=
  if_pos h

/-- A publish to the topic that keeps its message, or a smooth step. -/
def Act.publishing (name : String) : Act → Prop
  | .call (.publish c) => c.name = name ∧ c.retain = true
  | .advance _ env => env.Smooth
  | _ => False

/-- A call that publishes to the topic and keeps its message, with nothing to prune. -/
def Proc.publishing (name : String) : Proc → Prop
  | .publish call pc => call.name = name ∧ call.retain = true ∧ pc.unpruned = true
  | _ => False

namespace Proc

def pendingSeq : Proc → Option Nat
  | .publish _ pc => pc.pendingSeq
  | _ => none

def fannedSeq : Proc → Option Nat
  | .publish _ pc => pc.fannedSeq
  | _ => none

def cachedSeq : Proc → Option Nat
  | .publish _ pc => pc.cachedSeq
  | _ => none

variable {p : Proc} {seq : Nat}

theorem cachedSeq_of_fanned (h : p.fannedSeq = some seq) : p.cachedSeq = some seq := by
  cases p with
  | publish call pc =>
    have hpc : pc.fannedSeq = some seq := h
    cases pc with
    | fanOut => cases hpc
    | _ => exact hpc
  | _ => cases h

theorem cachedSeq_of_pending (h : p.pendingSeq = some seq) : p.cachedSeq = some seq := by
  cases p with
  | publish call pc =>
    change (pc.pendingSeq <|> pc.fannedSeq) = some seq
    rw [show pc.pendingSeq = some seq from h]
    rfl
  | _ => cases h

theorem publishing_cases {name : String} (h : p.publishing name) :
    ∃ call pc, p = .publish call pc ∧ call.name = name ∧ call.retain = true ∧
      pc.unpruned = true := by
  cases p with
  | publish call pc => exact ⟨call, pc, rfl, h⟩
  | _ => exact False.elim h

end Proc

end Cosmix.Noded
