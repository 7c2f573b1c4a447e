/- source: cosmix-noded/src/subscription.rs
   digest: A subscriber gets each concurrent publish once, in the order of the fan-outs. -/

import Cosmix.Noded.Publishing

namespace Cosmix.Noded

open Cosmix.Bus Cosmix.Lib List

def receivedSeqs (id : String) (sent : List Delivery) : List Nat :=
  (received id sent).filterMap topicSeq

theorem pairwise_append_single {l : List Nat} {n : Nat} :
    (l ++ [n]).Pairwise (· < ·) ↔ l.Pairwise (· < ·) ∧ ∀ m ∈ l, m < n := by
  simp [pairwise_append]

/-- Another slot has the value. -/
def Elsewhere {α : Type} (l : List α) (i : Nat) (f : α → Option Nat) (k : Nat) : Prop :=
  ∃ j x, j ≠ i ∧ l[j]? = some x ∧ f x = some k

section

variable {α : Type} {l : List α} {i : Nat} {old : α} (h : l[i]? = some old)

include h

theorem getElem?_set_cases {new x : α} {j : Nat} (hj : (l.set i new)[j]? = some x) :
    (j = i ∧ x = new) ∨ (j ≠ i ∧ l[j]? = some x) := by
  rw [getElem?_set] at hj
  split at hj
  · next hij =>
    rw [if_pos (List.getElem?_eq_some_iff.mp h).1] at hj
    exact .inl ⟨hij.symm, (Option.some.inj hj).symm⟩
  · next hij => exact .inr ⟨fun heq => hij heq.symm, hj⟩

theorem exists_mem_set_iff (new : α) (f : α → Option Nat) (k : Nat) :
    (∃ x ∈ l.set i new, f x = some k) ↔ f new = some k ∨ Elsewhere l i f k := by
  constructor
  · rintro ⟨x, hx, hk⟩
    obtain ⟨j, hj⟩ := mem_iff_getElem?.mp hx
    rcases getElem?_set_cases h hj with ⟨-, rfl⟩ | ⟨hji, hj⟩
    · exact .inl hk
    · exact .inr ⟨j, x, hji, hj, hk⟩
  · have hlt := (List.getElem?_eq_some_iff.mp h).1
    rintro (hk | ⟨j, x, hji, hj, hk⟩)
    · exact ⟨new, mem_set hlt new, hk⟩
    · refine ⟨x, mem_iff_getElem?.mpr ⟨j, ?_⟩, hk⟩
      rw [getElem?_set, if_neg fun heq => hji heq.symm, hj]

theorem exists_mem_iff (f : α → Option Nat) (k : Nat) :
    (∃ x ∈ l, f x = some k) ↔ f old = some k ∨ Elsewhere l i f k := by
  have hsame : l.set i old = l := by
    obtain ⟨hlt, rfl⟩ := List.getElem?_eq_some_iff.mp h
    exact set_getElem_self hlt
  rw [← exists_mem_set_iff h old, hsame]

omit h

theorem exists_mem_concat_iff {f : α → Option Nat} {x : α} {k : Nat} (hx : f x = none) :
    (∃ y ∈ l ++ [x], f y = some k) ↔ ∃ y ∈ l, f y = some k := by
  simp [or_and_right, exists_or, hx]

end

namespace System

/-- The number of the publish whose fan-out the act runs. -/
def fanning (s : System) : Act → Option Nat
  | .advance i _ => s.procs[i]?.bind Proc.pendingSeq
  | _ => none

/-- A publish with the number is cached and not fanned out yet. -/
def Pending (s : System) (k : Nat) : Prop := ∃ p ∈ s.procs, p.pendingSeq = some k

/-- A fan-out comes only when no publish that was cached before is still to be fanned out. -/
def InOrder (s : System) (a : Act) : Prop := ∀ n, s.fanning a = some n → ∀ k, s.Pending k → n ≤ k

/-- The topic's snapshot is the publish with the highest number, and it is one of the run's. -/
structure Latest (name : String) (id : String) (s : System) (state : TopicState)
    (snap : CachedSnapshot) : Prop where
  current : s.broker.topics[name]? = some state
  snapshot : state.snapshot = some snap
  seq : snap.seq = state.nextSeq
  cached : ∃ p ∈ s.procs, p.cachedSeq = some snap.seq
  pendingBody : ∀ call m ns, .publish call (.fanOut snap.seq m ns) ∈ s.procs →
    m.body = snap.body.body
  receivedBody : ∀ m ∈ received id s.broker.outbound.sent, topicSeq m = some snap.seq →
    m.body = snap.body.body

/-- Publishes to a topic one subscription is registered for. -/
structure Streamed (name : String) (sub : Subscription) (s : System) : Prop where
  opened : s.broker.outbound.Open
  registered : s.broker.inner.subscriptions[sub.id]? = some sub
  publishing : ∀ p ∈ s.procs, p.publishing name
  pending : ∀ call seq m ns, .publish call (.fanOut seq m ns) ∈ s.procs → topicSeq m = some seq
  distinct : ∀ (i j : Nat) (p q : Proc) n, s.procs[i]? = some p → s.procs[j]? = some q →
    p.cachedSeq = some n → q.cachedSeq = some n → i = j
  latest : ∀ p ∈ s.procs, ∀ n, p.cachedSeq = some n →
    ∃ state snap, Latest name sub.id s state snap ∧ n ≤ state.nextSeq
  numbered : ∀ m ∈ received sub.id s.broker.outbound.sent, ∃ n, topicSeq m = some n
  fanned : ∀ n, n ∈ receivedSeqs sub.id s.broker.outbound.sent ↔
    ∃ p ∈ s.procs, p.fannedSeq = some n

/-- What an act does to the numbers received and to those pending. -/
inductive Streaming (id : String) (s : System) (a : Act) (s' : System) : Prop
  | quiet (hfan : s.fanning a = none)
    (hseqs : receivedSeqs id s'.broker.outbound.sent = receivedSeqs id s.broker.outbound.sent)
    (hpending : ∀ k, s'.Pending k ↔ s.Pending k)
  | cached (n : Nat) (hfan : s.fanning a = none)
    (hseqs : receivedSeqs id s'.broker.outbound.sent = receivedSeqs id s.broker.outbound.sent)
    (habove : ∀ m ∈ receivedSeqs id s.broker.outbound.sent, m < n)
    (hpending : ∀ k, s'.Pending k ↔ s.Pending k ∨ k = n)
  | fanned (n : Nat) (hfan : s.fanning a = some n)
    (hseqs : receivedSeqs id s'.broker.outbound.sent =
      receivedSeqs id s.broker.outbound.sent ++ [n])
    (hpending : ∀ k, s'.Pending k ↔ s.Pending k ∧ k ≠ n)

namespace Streamed

variable {name : String} {sub : Subscription} {b b' : Broker} {procs : List Proc} {i : Nat}
  {call : PublishCall} {pc pc' : PublishPc} {env : Env}

theorem start (name : String) {inner : BrokerInner} (topics : Topics)
    (hsub : inner.subscriptions[sub.id]? = some sub) :
    Streamed name sub ⟨⟨inner, topics, ⟨fun _ => false, []⟩⟩, []⟩ where
  opened := fun _ => rfl
  registered := hsub
  publishing := fun _ hp => absurd hp not_mem_nil
  pending := fun _ _ _ _ hp => absurd hp not_mem_nil
  distinct := by
    intro i j p q n hp
    cases hp
  latest := fun _ hp => absurd hp not_mem_nil
  numbered := fun _ hm => absurd hm not_mem_nil
  fanned := fun n => ⟨fun hn => absurd hn not_mem_nil,
    fun ⟨_, hp, _⟩ => absurd hp not_mem_nil⟩

variable (h : Streamed name sub ⟨b, procs⟩)
include h

/-- No number is given: the topic's state stays, and so does the latest publish. -/
theorem carry {procs' : List Proc} (hopen : b'.outbound.Open) (hinner : b'.inner = b.inner)
    (htopics : b'.topics = b.topics) (hpublishing : ∀ p ∈ procs', p.publishing name)
    (hpending : ∀ {call : PublishCall} {seq : Nat} {m : BusMessage} {ns : Option String},
      .publish call (.fanOut seq m ns) ∈ procs' → .publish call (.fanOut seq m ns) ∈ procs)
    (hslot : ∀ {j : Nat} {p : Proc} {n : Nat}, procs'[j]? = some p → p.cachedSeq = some n →
      ∃ p₀, procs[j]? = some p₀ ∧ p₀.cachedSeq = some n)
    (hkept : ∀ n, (∃ p ∈ procs, p.cachedSeq = some n) → ∃ p ∈ procs', p.cachedSeq = some n)
    (hbody : ∀ state snap, Latest name sub.id ⟨b, procs⟩ state snap →
      ∀ m ∈ received sub.id b'.outbound.sent, topicSeq m = some snap.seq → m.body = snap.body.body)
    (hnumbered : ∀ m ∈ received sub.id b'.outbound.sent, ∃ n, topicSeq m = some n)
    (hfanned : ∀ n, n ∈ receivedSeqs sub.id b'.outbound.sent ↔ ∃ p ∈ procs', p.fannedSeq = some n) :
    Streamed name sub ⟨b', procs'⟩ := by
  refine ⟨hopen, hinner ▸ h.registered, hpublishing, ?_, ?_, ?_, hnumbered, hfanned⟩
  · intro call seq m ns hp
    exact h.pending call seq m ns (hpending hp)
  · intro j j' p q n hp hq hpn hqn
    obtain ⟨p₀, hp₀, hpn₀⟩ := hslot hp hpn
    obtain ⟨q₀, hq₀, hqn₀⟩ := hslot hq hqn
    exact h.distinct j j' p₀ q₀ n hp₀ hq₀ hpn₀ hqn₀
  · intro p hp n hn
    obtain ⟨j, hj⟩ := mem_iff_getElem?.mp hp
    obtain ⟨p₀, hp₀, hn₀⟩ := hslot hj hn
    obtain ⟨state, snap, hl, hle⟩ := h.latest p₀ (mem_of_getElem? hp₀) n hn₀
    exact ⟨state, snap, ⟨htopics ▸ hl.current, hl.snapshot, hl.seq, hkept _ hl.cached,
      fun call m ns hp => hl.pendingBody call m ns (hpending hp), hbody state snap hl⟩, hle⟩

theorem addCall (hname : call.name = name) (hretain : call.retain = true) :
    Streamed name sub ⟨b, procs ++ [.publish call .start]⟩ := by
  refine h.carry h.opened rfl rfl ?_ ?_ ?_ ?_ (fun _ _ hl => hl.receivedBody) h.numbered fun n => ?_
  · exact forall_mem_append.mpr ⟨h.publishing, forall_mem_singleton.mpr ⟨hname, hretain, rfl⟩⟩
  · intro call' seq m ns hp
    refine (mem_append.mp hp).resolve_right fun heq => ?_
    cases mem_singleton.mp heq
  · intro j p n hj hn
    rw [getElem?_append] at hj
    split at hj
    · exact ⟨p, hj, hn⟩
    · rw [mem_singleton.mp (mem_of_getElem? hj)] at hn
      cases hn
  · exact fun n => (exists_mem_concat_iff rfl).mpr
  · exact (h.fanned n).trans (exists_mem_concat_iff rfl).symm

theorem publishing_set (hi : procs[i]? = some (.publish call pc)) (hunpruned : pc'.unpruned = true) :
    ∀ p ∈ procs.set i (.publish call pc'), p.publishing name := by
  obtain ⟨hname, hretain, -⟩ := h.publishing _ (mem_of_getElem? hi)
  intro p hp
  rcases mem_or_eq_of_mem_set hp with hp | rfl
  · exact h.publishing p hp
  · exact ⟨hname, hretain, hunpruned⟩

theorem keepNumber (hi : procs[i]? = some (.publish call pc)) (hopen : b'.outbound.Open)
    (hinner : b'.inner = b.inner) (htopics : b'.topics = b.topics)
    (hunpruned : pc'.unpruned = true) (hnot : pc'.pendingSeq = none)
    (hcached : pc'.cachedSeq = pc.cachedSeq)
    (hbody : ∀ state snap, Latest name sub.id ⟨b, procs⟩ state snap →
      ∀ m ∈ received sub.id b'.outbound.sent, topicSeq m = some snap.seq → m.body = snap.body.body)
    (hnumbered : ∀ m ∈ received sub.id b'.outbound.sent, ∃ n, topicSeq m = some n)
    (hfanned : ∀ n, n ∈ receivedSeqs sub.id b'.outbound.sent ↔
      pc'.fannedSeq = some n ∨ Elsewhere procs i Proc.fannedSeq n) :
    Streamed name sub ⟨b', procs.set i (.publish call pc')⟩ := by
  refine h.carry hopen hinner htopics (h.publishing_set hi hunpruned) ?_ ?_ ?_ hbody hnumbered ?_
  · intro call' seq m ns hp
    rcases mem_or_eq_of_mem_set hp with hp | heq
    · exact hp
    · cases heq
      cases hnot
  · -- the slot's number is what it was
    intro j p n hj hn
    rcases getElem?_set_cases hi hj with ⟨rfl, rfl⟩ | ⟨-, hj⟩
    · exact ⟨_, hi, hcached.symm.trans hn⟩
    · exact ⟨p, hj, hn⟩
  · intro n hold
    rw [exists_mem_iff hi, show (Proc.publish call pc).cachedSeq = pc'.cachedSeq from
      hcached.symm] at hold
    exact (exists_mem_set_iff hi (.publish call pc') Proc.cachedSeq n).mpr hold
  · intro n
    rw [hfanned]
    exact (exists_mem_set_iff hi (.publish call pc') Proc.fannedSeq n).symm

theorem fanned_elsewhere
    (hi : procs[i]? = some (.publish call pc)) (hpc : pc.fannedSeq = none) (n : Nat) :
    n ∈ receivedSeqs sub.id b.outbound.sent ↔ Elsewhere procs i Proc.fannedSeq n := by
  refine (h.fanned n).trans ((exists_mem_iff hi Proc.fannedSeq n).trans ?_)
  refine ⟨fun hc => hc.resolve_left fun hn => ?_, .inr⟩
  rw [show (Proc.publish call pc).fannedSeq = pc.fannedSeq from rfl, hpc] at hn
  cases hn

theorem quiet (hi : procs[i]? = some (.publish call pc))
    (hpc : pc.cachedSeq = none) (hpc' : pc'.cachedSeq = none) (hunpruned : pc'.unpruned = true) :
    Streamed name sub ⟨b, procs.set i (.publish call pc')⟩ ∧
      Streaming sub.id ⟨b, procs⟩ (.advance i env) ⟨b, procs.set i (.publish call pc')⟩ := by
  obtain ⟨hpend, hfan⟩ := PublishPc.cachedSeq_eq_none hpc
  obtain ⟨hpend', hfan'⟩ := PublishPc.cachedSeq_eq_none hpc'
  refine ⟨h.keepNumber hi h.opened rfl rfl hunpruned hpend' (hpc'.trans hpc.symm)
    (fun _ _ hl => hl.receivedBody) h.numbered fun n => ?_, .quiet ?_ rfl fun k => ?_⟩
  · rw [h.fanned_elsewhere hi hfan, hfan']
    exact ⟨.inr, fun hc => hc.resolve_left nofun⟩
  · rw [fanning, hi]
    exact hpend
  · refine (exists_mem_set_iff hi _ Proc.pendingSeq k).trans
      (Iff.trans ?_ (exists_mem_iff hi Proc.pendingSeq k).symm)
    rw [show (Proc.publish call pc).pendingSeq = pc.pendingSeq from rfl,
      show (Proc.publish call pc').pendingSeq = pc'.pendingSeq from rfl, hpend, hpend']

theorem cached_le {p : Proc} (hp : p ∈ procs) {n : Nat}
    (hn : p.cachedSeq = some n) : n ≤ (b.topics[name]?.getD .new).nextSeq := by
  obtain ⟨_, _, hl, hle⟩ := h.latest p hp n hn
  rw [hl.current]
  exact hle

theorem received_le {n : Nat}
    (hn : n ∈ receivedSeqs sub.id b.outbound.sent) : n ≤ (b.topics[name]?.getD .new).nextSeq := by
  obtain ⟨p, hp, hfan⟩ := (h.fanned n).mp hn
  exact h.cached_le hp (Proc.cachedSeq_of_fanned hfan)

variable {m : BusMessage}

theorem cache {m' : BusMessage} {ns : Option String}
    {state : TopicState} (hi : procs[i]? = some (.publish call (.cache m ns)))
    (hstate : state = b.topics[call.name]?.getD .new)
    (hseq : topicSeq m' = some (state.nextSeq + 1)) : Streamed name sub
      ⟨{ b with topics := b.topics.insert call.name (call.cached state m' ns) },
        procs.set i (.publish call (.fanOut (state.nextSeq + 1) m' ns))⟩ ∧
      Streaming sub.id ⟨b, procs⟩ (.advance i env)
        ⟨{ b with topics := b.topics.insert call.name (call.cached state m' ns) },
          procs.set i (.publish call (.fanOut (state.nextSeq + 1) m' ns))⟩ := by
  obtain ⟨hname, hretain, -⟩ := h.publishing _ (mem_of_getElem? hi)
  rw [hname] at hstate
  have hold : ∀ p ∈ procs, ∀ n, p.cachedSeq = some n → n ≤ state.nextSeq := fun p hp n hn =>
    hstate ▸ h.cached_le hp hn
  have hget : (b.topics.insert call.name (call.cached state m' ns))[name]? =
      some (call.cached state m' ns) := by
    rw [← hname]
    exact Std.ExtTreeMap.getElem?_insert_self
  refine ⟨⟨h.opened, h.registered, ?_, ?_, ?_, ?_, h.numbered, ?_⟩,
    .cached (state.nextSeq + 1) ?_ rfl ?_ ?_⟩
  · exact h.publishing_set hi rfl
  · intro call' seq m'' ns' hp
    rcases mem_or_eq_of_mem_set hp with hp | heq
    · exact h.pending call' seq m'' ns' hp
    · cases heq
      exact hseq
  · intro j j' p q n hp hq hpn hqn
    rcases getElem?_set_cases hi hp with ⟨rfl, rfl⟩ | ⟨-, hj⟩
    · rcases getElem?_set_cases hi hq with ⟨rfl, -⟩ | ⟨-, hj'⟩
      · rfl
      · have hle := hold q (mem_of_getElem? hj') n hqn
        cases hpn
        omega
    · rcases getElem?_set_cases hi hq with ⟨rfl, rfl⟩ | ⟨-, hj'⟩
      · have hle := hold p (mem_of_getElem? hj) n hpn
        cases hqn
        omega
      · exact h.distinct j j' p q n hj hj' hpn hqn
  · intro p hp n hn
    refine ⟨_, _, ⟨hget, call.cached_retained hretain state m' ns, rfl, ?_, ?_, ?_⟩, ?_⟩
    · exact ⟨_, mem_set (List.getElem?_eq_some_iff.mp hi).1 _, rfl⟩
    · intro call' m'' ns' hp'
      rcases mem_or_eq_of_mem_set hp' with hp' | heq
      · have hle := hold _ hp' (state.nextSeq + 1) rfl
        omega
      · cases heq
        rfl
    · intro m'' hm'' hnum
      have hmem : state.nextSeq + 1 ∈ receivedSeqs sub.id b.outbound.sent :=
        mem_filterMap.mpr ⟨m'', hm'', hnum⟩
      have hle := h.received_le hmem
      rw [← hstate] at hle
      omega
    · change n ≤ state.nextSeq + 1
      rcases mem_or_eq_of_mem_set hp with hp | rfl
      · have hle := hold p hp n hn
        omega
      · cases hn
        exact Nat.le_refl _
  · intro n
    refine (h.fanned_elsewhere hi rfl n).trans
      (Iff.trans ?_ (exists_mem_set_iff hi _ Proc.fannedSeq n).symm)
    exact ⟨.inr, fun hc => hc.resolve_left nofun⟩
  · rw [fanning, hi]
    rfl
  · intro n hn
    have hle := h.received_le hn
    rw [← hstate] at hle
    omega
  · intro k
    refine (exists_mem_set_iff hi _ Proc.pendingSeq k).trans ?_
    have hrest : (⟨b, procs⟩ : System).Pending k ↔ Elsewhere procs i Proc.pendingSeq k := by
      refine (exists_mem_iff hi Proc.pendingSeq k).trans ?_
      exact ⟨fun hc => hc.resolve_left nofun, .inr⟩
    rw [hrest, or_comm]
    refine or_congr_right ⟨fun hk => (Option.some.inj hk).symm, fun hk => congrArg some hk.symm⟩

/-- A publish is fanned out: the subscription gets its message, and the publish is pending no more. -/
theorem fanOut (htopic : sub.isTopic name = true)
    (hfilter : sub.filter = none) (henv : env.Smooth) {seq : Nat}
    {ns : Option String} (hi : procs[i]? = some (.publish call (.fanOut seq m ns)))
    {outcome : PublishResult} (hseq : outcome.seq = seq) : Streamed name sub
      ⟨{ b with outbound := (call.fanOut env b.inner b.outbound ns m).outbound },
        procs.set i (.publish call (.done (.ok outcome)))⟩ ∧
      Streaming sub.id ⟨b, procs⟩ (.advance i env)
        ⟨{ b with outbound := (call.fanOut env b.inner b.outbound ns m).outbound },
          procs.set i (.publish call (.done (.ok outcome)))⟩ := by
  have hmem := mem_of_getElem? hi
  obtain ⟨hname, -, -⟩ := h.publishing _ hmem
  have hnum := h.pending call seq m ns hmem
  obtain ⟨ds, d, hwent, -, -, halike, hone⟩ :=
    call.fanOut_received henv h.opened ns m h.registered (hname ▸ htopic) hfilter
  have hreceived : received sub.id (call.fanOut env b.inner b.outbound ns m).outbound.sent =
      received sub.id b.outbound.sent ++ [d.message] := by
    rw [hwent.outbound]
    exact (received_append sub.id b.outbound.sent ds).trans (by rw [hone])
  have hdnum : topicSeq d.message = some seq := halike.seq.trans hnum
  have hseqs : receivedSeqs sub.id (call.fanOut env b.inner b.outbound ns m).outbound.sent =
      receivedSeqs sub.id b.outbound.sent ++ [seq] := by
    rw [receivedSeqs, hreceived, filterMap_append, filterMap_cons, hdnum]
    rfl
  refine ⟨h.keepNumber hi ?_ rfl rfl rfl rfl ?_ ?_ (fun m' hm' => ?_) fun n => ?_,
    .fanned seq ?_ hseqs fun k => ?_⟩
  · rw [hwent.outbound]
    exact h.opened
  · exact congrArg some hseq
  · intro state snap hl m' hm' hn
    rw [hreceived] at hm'
    rcases mem_append.mp hm' with hm' | hm'
    · exact hl.receivedBody m' hm' hn
    rw [mem_singleton.mp hm'] at hn ⊢
    rw [hdnum] at hn
    cases hn
    exact halike.body.trans (hl.pendingBody call m ns hmem)
  · rw [hreceived] at hm'
    rcases mem_append.mp hm' with hm' | hm'
    · exact h.numbered m' hm'
    · rw [mem_singleton.mp hm']
      exact ⟨seq, hdnum⟩
  · rw [hseqs, mem_append, h.fanned_elsewhere hi rfl, or_comm, mem_singleton]
    refine or_congr_left ⟨fun hn => ?_, fun hn => ?_⟩
    · rw [hn, ← hseq]
      rfl
    · rw [← hseq]
      exact (Option.some.inj hn).symm
  · rw [fanning, hi]
    rfl
  · refine (exists_mem_set_iff hi _ Proc.pendingSeq k).trans ?_
    have hnew : ¬(Proc.publish call (.done (.ok outcome))).pendingSeq = some k := nofun
    rw [or_iff_right hnew, Pending, exists_mem_iff hi]
    constructor
    · rintro ⟨j, p, hji, hj, hk⟩
      refine ⟨.inr ⟨j, p, hji, hj, hk⟩, ?_⟩
      rintro rfl
      exact hji (h.distinct j i p _ k hj hi (Proc.cachedSeq_of_pending hk) rfl)
    · rintro ⟨hk | helse, hne⟩
      · exact absurd (Option.some.inj hk).symm hne
      · exact helse

omit h

/-- Every act of a run of publishes keeps the stream, and does one of three things to it. -/
theorem step {json : JsonReader} (htopic : sub.isTopic name = true) (hfilter : sub.filter = none)
    {s s' : System} {a : Act} (h : Streamed name sub s) (ha : a.publishing name)
    (hstep : s.step json a = some s') : Streamed name sub s' ∧ Streaming sub.id s a s' := by
  cases a with
  | call call =>
    cases hstep
    cases call with
    | publish =>
      exact ⟨h.addCall ha.1 ha.2, .quiet rfl rfl fun k => exists_mem_concat_iff rfl⟩
    | _ => exact False.elim ha
  | close => exact ha.elim
  | advance =>
    obtain ⟨p, hp, hstep⟩ := Option.bind_eq_some_iff.mp hstep
    obtain ⟨⟨_, _⟩, hmove, rfl⟩ := Option.map_eq_some_iff.mp hstep
    obtain ⟨_, _, rfl, -, -, hpc⟩ :=
      Proc.publishing_cases (h.publishing p (mem_of_getElem? hp))
    obtain ⟨⟨_, _⟩, hpub, heq⟩ := Option.map_eq_some_iff.mp hmove
    cases heq
    have hmoved := Broker.stepPublish_smooth ha h.opened hpc hpub
    cases hmoved with
    | refused e he hnone => exact h.quiet hp hnone he rfl
    | accepted => exact h.quiet hp rfl rfl rfl
    | cached m m' ns state hstate _ hseq => exact h.cache hp hstate hseq
    | fanned seq m ns outcome hseq => exact h.fanOut htopic hfilter ha hp hseq

end Streamed

/-- The numbers received ascend, and what is pending is above them. -/
def Ascending (id : String) (s : System) : Prop :=
  (receivedSeqs id s.broker.outbound.sent).Pairwise (· < ·) ∧
    ∀ n ∈ receivedSeqs id s.broker.outbound.sent, ∀ k, s.Pending k → n < k

/-- A number received is above one still pending, or the numbers received do not ascend. -/
def Overtaken (id : String) (s : System) : Prop :=
  ¬(receivedSeqs id s.broker.outbound.sent).Pairwise (· < ·) ∨
    ∃ n ∈ receivedSeqs id s.broker.outbound.sent, ∃ k, s.Pending k ∧ k < n

variable {id : String} {s s' : System} {a : Act}

theorem pending_of_fanning {n : Nat} (h : s.fanning a = some n) : s.Pending n := by
  cases a with
  | advance =>
    obtain ⟨p, hp, hn⟩ := Option.bind_eq_some_iff.mp h
    exact ⟨p, mem_of_getElem? hp, hn⟩
  | call | close => cases h

theorem Ascending.step (h : Ascending id s) (hord : s.InOrder a) (hstep : Streaming id s a s') :
    Ascending id s' := by
  obtain ⟨hasc, habove⟩ := h
  cases hstep with
  | quiet _ hseqs hpending =>
    refine ⟨hseqs ▸ hasc, fun n hn k hk => ?_⟩
    rw [hseqs] at hn
    exact habove n hn k ((hpending k).mp hk)
  | cached n₀ _ hseqs hn₀ hpending =>
    refine ⟨hseqs ▸ hasc, fun n hn k hk => ?_⟩
    rw [hseqs] at hn
    rcases (hpending k).mp hk with hk | rfl
    · exact habove n hn k hk
    · exact hn₀ n hn
  | fanned n₀ hfan hseqs hpending =>
    have hlow : ∀ n ∈ receivedSeqs id s.broker.outbound.sent, n < n₀ := fun n hn =>
      habove n hn n₀ (pending_of_fanning hfan)
    refine ⟨?_, fun n hn k hk => ?_⟩
    · rw [hseqs]
      exact pairwise_append_single.mpr ⟨hasc, hlow⟩
    · obtain ⟨hk, hne⟩ := (hpending k).mp hk
      have hle := hord n₀ hfan k hk
      rw [hseqs] at hn
      rcases mem_append.mp hn with hn | hn
      · have := hlow n hn
        omega
      · rw [mem_singleton.mp hn]
        omega

theorem Overtaken.step (h : Overtaken id s) (hstep : Streaming id s a s') : Overtaken id s' := by
  cases hstep with
  | quiet _ hseqs hpending =>
    unfold Overtaken
    simp only [hseqs, hpending]
    exact h
  | cached n₀ _ hseqs _ hpending =>
    unfold Overtaken
    simp only [hseqs, hpending]
    exact h.imp_right fun ⟨n, hn, k, hk, hlt⟩ => ⟨n, hn, k, .inl hk, hlt⟩
  | fanned n₀ hfan hseqs hpending =>
    unfold Overtaken
    simp only [hseqs, hpending, pairwise_append_single]
    rcases h with hnot | ⟨n, hn, k, hk, hlt⟩
    · exact .inl fun hc => hnot hc.1
    by_cases hkn : k = n₀
    · refine .inl fun hc => ?_
      have := hc.2 n hn
      omega
    · exact .inr ⟨n, mem_append_left _ hn, k, ⟨hk, hkn⟩, hlt⟩

end System

section

variable {json : JsonReader} {name : String} {sub : Subscription} (htopic : sub.isTopic name = true)
  (hfilter : sub.filter = none) {acts : List Act} (hacts : ∀ a ∈ acts, a.publishing name)
  {s s' : System}

include htopic hfilter hacts

variable (h : s.Streamed name sub)
include h

theorem System.Streamed.run (hrun : System.run json s acts = some s') : s'.Streamed name sub :=
  runFrom_guarded (fun _ _ _ h ha hs => (h.step htopic hfilter ha hs).1) h
    (guarded_of_forall _ hacts) hrun

theorem System.Ascending.run (hasc : s.Ascending sub.id)
    (hord : Guarded (System.step json) System.InOrder s acts)
    (hrun : System.run json s acts = some s') : s'.Ascending sub.id := by
  refine (runFrom_guarded (P := fun s => s.Streamed name sub ∧ s.Ascending sub.id) ?_ ⟨h, hasc⟩
    ((guarded_of_forall _ hacts).and hord) hrun).2
  intro s a s' hs ha ht
  obtain ⟨hstream, hstep⟩ := hs.1.step htopic hfilter ha.1 ht
  exact ⟨hstream, hs.2.step ha.2 hstep⟩

theorem System.Overtaken.run (hover : s.Overtaken sub.id)
    (hrun : System.run json s acts = some s') : s'.Overtaken sub.id := by
  refine (runFrom_guarded (P := fun s => s.Streamed name sub ∧ s.Overtaken sub.id) ?_ ⟨h, hover⟩
    (guarded_of_forall _ hacts) hrun).2
  intro s a s' hs ha ht
  obtain ⟨hstream, hstep⟩ := hs.1.step htopic hfilter ha ht
  exact ⟨hstream, hs.2.step hstep⟩

omit h

end

end Cosmix.Noded
