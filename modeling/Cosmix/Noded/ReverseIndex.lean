/- source: cosmix-noded/src/subscription.rs
   digest: In runs of plain requests the reverse index is exact; colliding ids break it. -/

import Cosmix.Noded.Registry

namespace Cosmix.Noded

open Cosmix.Lib List

/-- What a call asks a subscription for, or asks to end one by. -/
def Call.request : Call → Option Request
  | .subscribe call => some (.topic call.peer call.name call.filter)
  | .subscribeUiEvent peer source action _ => some (.uiEvent peer source action)
  | .unsubscribeUiEvent peer source action => some (.uiEvent peer source action)
  | _ => none

def Proc.request : Proc → Option Request
  | .subscribe call _ => some (.topic call.peer call.name call.filter)
  | .subscribeUiEvent peer source action _ _ => some (.uiEvent peer source action)
  | .unsubscribeUiEvent peer source action _ => some (.uiEvent peer source action)
  | _ => none

def Act.request : Act → Option Request
  | .call c => c.request
  | _ => none

theorem Call.request_start (call : Call) : call.start.request = call.request := by
  cases call <;> rfl

variable {env : Env}

theorem Broker.stepProc_request {json : JsonReader} {b b' : Broker} {p p' : Proc}
    (h : b.stepProc json env p = some (b', p')) : p'.request = p.request := by
  cases p with
  | subscribeUiEvent peer source action tx done | unsubscribeUiEvent peer source action done =>
    cases done with
    | true => cases h
    | false => cases h; rfl
  | _ =>
    obtain ⟨r, -, heq⟩ := Option.map_eq_some_iff.mp h
    cases heq
    rfl

/-- The index is exact, and every subscription stands under the id of the plain request it was
registered for. -/
structure Indexed (inner : BrokerInner) : Prop extends Exact inner where
  requested : ∀ (k : String) (sub : Subscription), inner.subscriptions[k]? = some sub →
    sub.request.plain = true ∧ sub.request.id = k

namespace Indexed

variable {inner : BrokerInner}

theorem new : Indexed .new where
  toExact := .new
  requested := by
    intro k sub h
    cases h

variable (h : Indexed inner)
include h

theorem peer_eq {r : Request} (hr : r.plain = true) {old : Subscription}
    (hold : inner.subscriptions[r.id]? = some old) : old.peer = r.peer := by
  obtain ⟨hplain, hid⟩ := h.requested _ _ hold
  rw [← Request.id_inj hplain hr hid, old.peer_request]

theorem register {sub : Subscription} (hplain : sub.request.plain = true)
    (hid : sub.request.id = sub.id) : Indexed (inner.register sub) where
  toExact := by
    refine h.toExact.register fun old hold => ?_
    rw [← hid] at hold
    rw [h.peer_eq hplain hold, sub.peer_request]
  requested := by
    intro k s hs
    rw [inner.getElem?_register] at hs
    split at hs
    · next hk =>
      cases hs
      exact ⟨hplain, hid.trans hk.symm⟩
    · exact h.requested k s hs

theorem drop {peer : String} {ids : List String}
    (hpeer : ∀ id ∈ ids, ∀ old, inner.subscriptions[id]? = some old → old.peer = peer) :
    Indexed (inner.drop peer ids) where
  toExact := h.toExact.drop hpeer
  requested := by
    intro k s hs
    exact h.requested k s (inner.drop_eq_some_iff.mp hs).2

omit h

theorem moved {b : Broker} {p : Proc} {inner' : BrokerInner} (h : Indexed b.inner)
    (hp : ∀ r, p.request = some r → r.plain = true) (hmove : InnerMoved env b p inner') :
    Indexed inner' := by
  cases hmove with
  | same => exact h
  | register => exact h.register rfl rfl
  | registerUi => exact h.register (hp _ rfl) rfl
  | prune _ ids =>
    exact prune_keeps (P := Indexed) (fun _ _ _ hi hsub => hi.drop fun i hmem old hold => by
      rw [mem_singleton.mp hmem, hsub] at hold
      cases hold
      rfl) env ids h
  | unsubscribe => exact h.drop fun id hid => h.toExact.mem_idsOn hid
  | unsubscribeUi =>
    refine h.drop fun id hid old hold => ?_
    rw [mem_singleton.mp hid] at hold
    exact h.peer_eq (hp _ rfl) hold
  | removeOwned =>
    refine h.drop fun id hid old hold => ?_
    obtain ⟨_, hsub, hpeer, -⟩ := h.toExact.mem_idsOwned.mp hid
    rw [hold] at hsub
    cases hsub
    exact hpeer

end Indexed

namespace System

/-- The registry is indexed and every call made has a plain request. -/
structure Tidy (s : System) : Prop where
  indexed : Indexed s.broker.inner
  calls : ∀ p ∈ s.procs, ∀ r, p.request = some r → r.plain = true

theorem Tidy.new : Tidy .new where
  indexed := .new
  calls := by
    intro p hp
    cases hp

variable {json : JsonReader} {s s' : System} {peer : String} {tx : Chan}

theorem Tidy.step {a : Act} (h : Tidy s) (ha : ∀ r, a.request = some r → r.plain = true)
    (hstep : s.step json a = some s') : Tidy s' := by
  cases a with
  | call call =>
    cases hstep
    refine ⟨h.indexed, fun p hp r hr => ?_⟩
    rcases mem_append.mp hp with hp | hp
    · exact h.calls p hp r hr
    · rw [mem_singleton.mp hp, call.request_start] at hr
      exact ha r hr
  | advance =>
    obtain ⟨p, hp, hstep⟩ := Option.bind_eq_some_iff.mp hstep
    obtain ⟨⟨_, _⟩, hmove, rfl⟩ := Option.map_eq_some_iff.mp hstep
    have hcall := h.calls p (mem_of_getElem? hp)
    refine ⟨h.indexed.moved hcall (Broker.stepProc_inner hmove), fun q hq r hr => ?_⟩
    rcases mem_or_eq_of_mem_set hq with hq | hq
    · exact h.calls q hq r hr
    · rw [hq, Broker.stepProc_request hmove] at hr
      exact hcall r hr
  | close =>
    cases hstep
    exact ⟨h.indexed, h.calls⟩

/-- The act is the registering section of a call by the peer on the channel. -/
def registers (peer : String) (tx : Chan) (s : System) : Act → Prop
  | .advance i _ =>
    (∃ call : SubscribeCall, s.procs[i]? = some (.subscribe call .register) ∧ call.peer = peer ∧
      call.tx = tx) ∨
    ∃ source action, s.procs[i]? = some (.subscribeUiEvent peer source action tx false)
  | _ => False

/-- No subscription of the peer is on the channel. -/
def Gone (peer : String) (tx : Chan) (inner : BrokerInner) : Prop :=
  ∀ (id : String) (sub : Subscription), inner.subscriptions[id]? = some sub →
    ¬(sub.peer = peer ∧ sub.tx = tx)

theorem Gone.drop {inner : BrokerInner} (h : Gone peer tx inner) (p : String) (ids : List String) :
    Gone peer tx (inner.drop p ids) := by
  intro id sub hsub
  exact h id sub (inner.drop_eq_some_iff.mp hsub).2

theorem Gone.register {inner : BrokerInner} (h : Gone peer tx inner) {sub : Subscription}
    (hsub : ¬(sub.peer = peer ∧ sub.tx = tx)) : Gone peer tx (inner.register sub) := by
  intro id s hs
  rw [inner.getElem?_register] at hs
  split at hs
  · cases hs
    exact hsub
  · exact h id s hs

/-- What is gone stays gone until the peer registers on the channel again. -/
theorem Gone.step {a : Act} (h : Gone peer tx s.broker.inner) (ha : ¬registers peer tx s a)
    (hstep : s.step json a = some s') : Gone peer tx s'.broker.inner := by
  cases a with
  | call | close => cases hstep; exact h
  | advance i env =>
    obtain ⟨p, hp, hstep⟩ := Option.bind_eq_some_iff.mp hstep
    obtain ⟨⟨b', _⟩, hmove, rfl⟩ := Option.map_eq_some_iff.mp hstep
    have hmoved := Broker.stepProc_inner hmove
    generalize b'.inner = inner' at hmoved
    cases hmoved with
    | same => exact h
    | register call => exact h.register fun hc => ha (.inl ⟨call, hp, hc.1, hc.2⟩)
    | registerUi p source action =>
      refine h.register fun hc => ha (.inr ⟨source, action, ?_⟩)
      obtain ⟨rfl, rfl⟩ := hc
      exact hp
    | prune _ ids =>
      exact prune_keeps (P := Gone peer tx) (fun _ id sub hi _ => hi.drop sub.peer [id]) env ids h
    | unsubscribe | unsubscribeUi | removeOwned => exact h.drop _ _

end System

end Cosmix.Noded
