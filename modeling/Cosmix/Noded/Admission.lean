/- source: cosmix-noded/src/admission.rs, cosmix-noded/src/noded.rs
   digest: Outstanding challenges; an admission proof admits its session, once. -/

import Cosmix.MeshTrust.Admission
import Cosmix.Noded.Authority
import Std.Data.String.ToNat
import Cosmix.Lib.Text

namespace Cosmix.Noded.Admission

open Cosmix.Lib Cosmix.Lib.Maps Cosmix.MeshTrust List
open Cosmix.Noded.Authority (Accepted)

def originOnlyZero : Bytes := List.replicate 32 0

/-- A challenge in flight. Instants are in nanoseconds. -/
structure OutstandingChallenge where
  (sessionId serverNonce : Bytes)
  epoch : UInt64
  issuedAt : Nat
deriving DecidableEq

def maxOutstanding : Nat := 4096

def challengeTtl : Nat := 10000000000

def live (now : Nat) (challenge : OutstandingChallenge) : Bool :=
  decide (now - challenge.issuedAt < challengeTtl)

abbrev ChallengeMap := Std.ExtTreeMap String OutstandingChallenge compare

/-- The id that the n-th call of `issue` gives. -/
def challengeId (n : Nat) : String := "adm-" ++ toString n

variable (c : Crypto)

def decodeB64 (body : Json) (field : String) : Option Bytes :=
  ((body.get field).bind Json.asStr).bind c.decode64

structure ReconstructedProof where
  transcript : AdmissionTranscript
  claimedSourceNode : String
  signature : Bytes
deriving DecidableEq

/-- None stands for a response of the wrong shape. -/
def reconstructProof (challenge : OutstandingChallenge) (body : Json)
    (meshFqdn verifyingBrokerNode : String) : Option ReconstructedProof := do
  let claimed ← (body.get "claimed_source_node").bind Json.asStr
  let signature ← decodeB64 c body "signature"
  let clientEphemeral ← decodeB64 c body "client_ephemeral"
  let channelBindingHash ← decodeB64 c body "channel_binding_hash"
  if clientEphemeral ≠ originOnlyZero ∨ channelBindingHash ≠ originOnlyZero then none
  else some {
    transcript := {
      meshFqdn, verifyingBrokerNode, clientEphemeral, channelBindingHash
      claimedSourceNode := claimed
      inventoryEpoch := challenge.epoch
      sessionId := challenge.sessionId
      serverNonce := challenge.serverNonce }
    claimedSourceNode := claimed
    signature }

def verdictDetail : AdmissionError → String
  | .sourceTombstoned _ => "source-tombstoned"
  | .sourceBusFalse _ => "source-bus-false"
  | .nameMismatch _ _ => "name-mismatch"
  | .epochMismatch _ _ => "epoch-mismatch"
  | .noCurrentD2Credential _ => "no-current-d2-credential"
  | .badCredentialSignature _ => "bad-credential-signature"
  | .malformedMember _ => "malformed-member"

inductive AdmitOutcome
  | admits (node : String)
  | refuse (detail : String)
deriving DecidableEq

variable (nodeName : String)

/-- The verdict on a taken challenge; none is the panic of a transcript that cannot be encoded. -/
def verdict (posture : Option Accepted)
    (challenge : OutstandingChallenge) (body : Json) : Option AdmitOutcome :=
  match posture with
  | none => some (.refuse "no-verified-trust-root")
  | some a =>
    match reconstructProof c challenge body a.mesh nodeName with
    | none => some (.refuse "malformed-response")
    | some proof =>
      -- the digest for the event is made of the same bytes before the gate is asked
      proof.transcript.canonicalBytes.bind fun _ =>
        match a.membersFull[proof.claimedSourceNode]? with
        | none => some (.refuse "no-current-d2-credential")
        | some member =>
          (admits c member proof.transcript proof.signature a.epoch).map fun
            | .ok () => .admits proof.claimedSourceNode
            | .error e => .refuse (verdictDetail e)

/-- What `issue` has drawn before it takes the lock. -/
structure Draw where
  (session number : Nat)
  (sessionId serverNonce : Bytes)
  epoch : UInt64
deriving DecidableEq

/-- A challenge that was taken for a response whose verdict is still to come. -/
structure Answer where
  id : String
  challenge : OutstandingChallenge
  takenAt : Nat
  body : Json

structure Session where
  ownChallengeId : Option String
  drawn : Option Draw
  answering : Option Answer

structure Grant where
  session : Nat
  answer : Answer
  /-- The accepted authority that the verdict was made from. -/
  accepted : Accepted
  claimed : String

/-- The broker, and draws of `issue`, challenges recorded and taken, messages signed, admissions. -/
structure System where
  nodeName : String
  (now nextId : Nat)
  map : ChallengeMap
  posture : Option Accepted
  sessions : Nat → Session
  draws : List Draw
  issued : List (Nat × String × OutstandingChallenge)
  answered : List (String × Nat)
  signed : List (Bytes × Bytes)
  admitted : List Grant

def System.start : System where
  nodeName := nodeName
  now := 0
  nextId := 1
  map := ∅
  posture := none
  sessions _ := ⟨none, none, none⟩
  draws := []
  issued := []
  answered := []
  signed := []
  admitted := []

inductive Act
  | pass (nanoseconds : Nat)
  | reload (posture : Option Accepted)
  | sign (pubkey message : Bytes)
  /-- `issue` on a fresh socket at some epoch: random bytes and the next id, before the lock. -/
  | draw (k : Nat) (epoch : UInt64) (sessionId serverNonce : Bytes)
  | record (k : Nat)
  | respond (k : Nat) (id : Option String) (body : Json)
  | judge (k : Nat)
  | reap (id : String)

namespace System

def setSession (s : System) (k : Nat) (session : Session) : System :=
  { s with sessions := Function.update s.sessions k session }

/-- The entries that the retain of `issue` leaves. -/
def retained (s : System) : ChallengeMap := s.map.filter fun _ challenge => live s.now challenge

end System

def step (s : System) : Act → Option System
  | .pass nanoseconds => some { s with now := s.now + nanoseconds }
  | .reload posture => some { s with posture }
  | .sign pubkey message => some { s with signed := s.signed ++ [(pubkey, message)] }
  | .draw k epoch sessionId serverNonce =>
    match s.sessions k with
    | ⟨none, none, none⟩ =>
      let d : Draw := ⟨k, s.nextId, sessionId, serverNonce, epoch⟩
      some { s.setSession k ⟨none, some d, none⟩ with nextId := s.nextId + 1, draws := s.draws ++ [d] }
    | _ => none
  | .record k =>
    match s.sessions k with
    | ⟨none, some d, none⟩ =>
      if maxOutstanding ≤ s.retained.size then
        some { s.setSession k ⟨none, none, none⟩ with map := s.retained }
      else
        let challenge : OutstandingChallenge := ⟨d.sessionId, d.serverNonce, d.epoch, s.now⟩
        some { s.setSession k ⟨some (challengeId d.number), none, none⟩ with
          map := s.retained.insert (challengeId d.number) challenge
          issued := s.issued ++ [(k, challengeId d.number, challenge)] }
    | _ => none
  | .respond k id body =>
    match s.sessions k with
    | ⟨own, none, none⟩ =>
      match id with
      | none => some s
      | some id =>
        if own ≠ some id then some s
        else match s.map[id]? with
          | none => some s
          | some challenge =>
            if live s.now challenge then
              some { s.setSession k ⟨own, none, some ⟨id, challenge, s.now, body⟩⟩ with
                map := s.map.erase id
                answered := s.answered ++ [(id, s.now)] }
            else some { s with map := s.map.erase id }
    | _ => none
  | .judge k =>
    match s.sessions k with
    | ⟨own, none, some answer⟩ =>
      match s.posture, verdict c s.nodeName s.posture answer.challenge answer.body with
      | some a, some (.admits claimed) =>
        some { s.setSession k ⟨own, none, none⟩ with
          admitted := s.admitted ++ [⟨k, answer, a, claimed⟩] }
      | _, _ => some (s.setSession k ⟨own, none, none⟩)
    | _ => none
  | .reap id => some { s with map := s.map.erase id }

inductive Step (c : Crypto) (s : System) : Act → System → Prop
  | passed (n : Nat) : Step c s (.pass n) { s with now := s.now + n }
  | reloaded (posture : Option Accepted) : Step c s (.reload posture) { s with posture }
  | signed (pubkey message : Bytes) :
      Step c s (.sign pubkey message) { s with signed := s.signed ++ [(pubkey, message)] }
  | drew {k : Nat} {epoch : UInt64} {sessionId serverNonce : Bytes}
      (hsession : s.sessions k = ⟨none, none, none⟩) :
      Step c s (.draw k epoch sessionId serverNonce)
        { s.setSession k ⟨none, some ⟨k, s.nextId, sessionId, serverNonce, epoch⟩, none⟩ with
          nextId := s.nextId + 1
          draws := s.draws ++ [⟨k, s.nextId, sessionId, serverNonce, epoch⟩] }
  | full {k : Nat} {d : Draw} (hsession : s.sessions k = ⟨none, some d, none⟩)
      (hsize : maxOutstanding ≤ s.retained.size) :
      Step c s (.record k) { s.setSession k ⟨none, none, none⟩ with map := s.retained }
  | recorded {k : Nat} {d : Draw} (hsession : s.sessions k = ⟨none, some d, none⟩)
      (hsize : s.retained.size < maxOutstanding) :
      Step c s (.record k)
        { s.setSession k ⟨some (challengeId d.number), none, none⟩ with
          map := s.retained.insert (challengeId d.number) ⟨d.sessionId, d.serverNonce, d.epoch, s.now⟩
          issued := s.issued ++
            [(k, challengeId d.number, ⟨d.sessionId, d.serverNonce, d.epoch, s.now⟩)] }
  | ignored {k : Nat} {id : Option String} {body : Json} : Step c s (.respond k id body) s
  | took {k : Nat} {id : String} {body : Json} {challenge : OutstandingChallenge}
      (hsession : s.sessions k = ⟨some id, none, none⟩) (hfound : s.map[id]? = some challenge)
      (hlive : live s.now challenge = true) :
      Step c s (.respond k (some id) body)
        { s.setSession k ⟨some id, none, some ⟨id, challenge, s.now, body⟩⟩ with
          map := s.map.erase id
          answered := s.answered ++ [(id, s.now)] }
  | dropped {a : Act} (id : String) : Step c s a { s with map := s.map.erase id }
  | refused {k : Nat} {own : Option String} {answer : Answer}
      (hsession : s.sessions k = ⟨own, none, some answer⟩) :
      Step c s (.judge k) (s.setSession k ⟨own, none, none⟩)
  | granted {k : Nat} {own : Option String} {answer : Answer} {a : Accepted} {claimed : String}
      (hsession : s.sessions k = ⟨own, none, some answer⟩) (hposture : s.posture = some a)
      (hverdict : verdict c s.nodeName (some a) answer.challenge answer.body =
        some (.admits claimed)) :
      Step c s (.judge k)
        { s.setSession k ⟨own, none, none⟩ with
          admitted := s.admitted ++ [⟨k, answer, a, claimed⟩] }

variable {act : Act} {k : Nat} {x : Session} {challenge : OutstandingChallenge} {body : Json}

theorem step_cases {c : Crypto} {s s' : System} (h : step c s act = some s') : Step c s act s' := by
  refine Yields.elim h ?_
  cases act with simp only [step]
  | pass n => exact .passed n
  | reload posture => exact .reloaded posture
  | sign pubkey message => exact .signed pubkey message
  | draw =>
    split
    · next hsession => exact .drew hsession
    · trivial
  | record =>
    split
    · next hsession =>
      split
      · next hsize => exact .full hsession hsize
      · next hsize => exact .recorded hsession (not_le.mp hsize)
    · trivial
  | respond =>
    split
    · next hsession =>
      split
      · exact .ignored
      split
      · exact .ignored
      · next hown =>
        rw [not_not.mp hown] at hsession ⊢
        split
        · exact .ignored
        next hfound =>
        split
        · next hlive => exact .took hsession hfound hlive
        · exact .dropped _
    · trivial
  | judge =>
    split
    · next hsession =>
      split
      · next hposture hverdict =>
        rw [hposture] at hverdict
        exact .granted hsession hposture hverdict
      · exact .refused hsession
    · trivial
  | reap id => exact .dropped id

theorem challengeId_inj {m n : Nat} (h : challengeId m = challengeId n) : m = n := by
  have htext : toString m = toString n := Framing.append_left_cancel h
  have hread := congrArg String.toNat? htext
  simpa using hread

/-- The transcript that a challenge asks for, with the accepted mesh and the claimed name. -/
def transcriptOf (g : Grant) : AdmissionTranscript where
  meshFqdn := g.accepted.mesh
  claimedSourceNode := g.claimed
  verifyingBrokerNode := nodeName
  inventoryEpoch := g.answer.challenge.epoch
  sessionId := g.answer.challenge.sessionId
  serverNonce := g.answer.challenge.serverNonce
  clientEphemeral := originOnlyZero
  channelBindingHash := originOnlyZero

/-- Behind an admission: a challenge recorded for the session, taken in time, signed with a current
key of an active member on the bus. -/
structure Granted (c : Crypto) (s : System) (g : Grant) : Prop where
  issued : (g.session, g.answer.id, g.answer.challenge) ∈ s.issued
  answered : (g.answer.id, g.answer.takenAt) ∈ s.answered
  inTime : g.answer.takenAt - g.answer.challenge.issuedAt < challengeTtl
  atEpoch : g.answer.challenge.epoch = g.accepted.epoch
  proof : ∃ member pubkey cred bytes, g.accepted.membersFull[g.claimed]? = some member ∧
    (member.get "name").bind Json.asStr = some g.claimed ∧
    (member.get "status").bind Json.asStr = some "active" ∧
    (member.get "bus").bind Json.asBool = some true ∧
    CurrentD2 c member g.accepted.epoch pubkey cred ∧
    (transcriptOf s.nodeName g).canonicalBytes = some bytes ∧ (pubkey, bytes) ∈ s.signed

/-- The draw that a recorded challenge was made from. -/
def Draw.Made (d : Draw) (e : Nat × String × OutstandingChallenge) : Prop :=
  d.session = e.1 ∧ challengeId d.number = e.2.1 ∧ d.serverNonce = e.2.2.serverNonce

/-- What a session knows. -/
structure Session.Ok (s : System) (k : Nat) (x : Session) : Prop where
  drawn : ∀ d, x.drawn = some d → d ∈ s.draws ∧ d.session = k ∧
    ∀ e ∈ s.issued, e.2.1 ≠ challengeId d.number
  own : ∀ id, x.ownChallengeId = some id → ∃ challenge, (k, id, challenge) ∈ s.issued
  answering : ∀ a, x.answering = some a → x.ownChallengeId = some a.id ∧
    (k, a.id, a.challenge) ∈ s.issued ∧ (a.id, a.takenAt) ∈ s.answered ∧
    a.takenAt - a.challenge.issuedAt < challengeTtl ∧ a.id ∉ s.admitted.map fun g => g.answer.id

structure Inv (c : Crypto) (s : System) : Prop where
  size : s.map.size ≤ maxOutstanding
  numbers : ∀ d ∈ s.draws, d.number < s.nextId
  distinct : s.draws.Pairwise fun d d' => d.number ≠ d'.number ∧ d.serverNonce ≠ d'.serverNonce
  made : ∀ e ∈ s.issued, ∃ d ∈ s.draws, d.Made e
  once : (s.issued.map fun e => e.2.1).Nodup
  listed : ∀ id challenge, s.map[id]? = some challenge →
    (∃ k, (k, id, challenge) ∈ s.issued) ∧ id ∉ s.answered.map Prod.fst
  known : ∀ e ∈ s.answered, ∃ i ∈ s.issued, i.2.1 = e.1
  single : (s.answered.map Prod.fst).Nodup
  sessions : ∀ k, (s.sessions k).Ok s k
  grants : ∀ g ∈ s.admitted, Granted c s g
  grantedOnce : (s.admitted.map fun g => g.answer.id).Nodup

/-- Nonces are new, and a signature that verifies was made before by the holder of the key. -/
def Ideal (s : System) : Act → Prop
  | .draw _ _ _ serverNonce => ∀ d ∈ s.draws, d.serverNonce ≠ serverNonce
  | .judge k => ∀ answer signature, (s.sessions k).answering = some answer →
    decodeB64 c answer.body "signature" = some signature →
    ∀ pubkey message, c.verifyEd25519 pubkey signature ⟨message.toArray⟩ = true →
      (pubkey, message) ∈ s.signed
  | _ => True

variable {c : Crypto} {s s' : System}

theorem Granted.mono {g : Grant} (h : Granted c s g) (hname : s'.nodeName = s.nodeName)
    (hissued : s.issued ⊆ s'.issued) (hanswered : s.answered ⊆ s'.answered)
    (hsigned : s.signed ⊆ s'.signed) : Granted c s' g := by
  obtain ⟨member, pubkey, cred, bytes, hmember, hn, hs, hb, hcred, hbytes, hsig⟩ := h.proof
  refine ⟨hissued h.issued, hanswered h.answered, h.inTime, h.atEpoch, member, pubkey, cred, bytes,
    hmember, hn, hs, hb, hcred, ?_, hsigned hsig⟩
  rwa [hname]

theorem Session.Ok.mono (h : x.Ok s k) (hdraws : s.draws ⊆ s'.draws)
    (hissued : s.issued ⊆ s'.issued) (hanswered : s.answered ⊆ s'.answered)
    (hnew : ∀ e ∈ s'.issued, e ∈ s.issued ∨ ∀ d, x.drawn = some d → e.2.1 ≠ challengeId d.number)
    (hgrants : ∀ g ∈ s'.admitted, g ∈ s.admitted ∨ ∀ a, x.answering = some a → g.answer.id ≠ a.id) :
    x.Ok s' k := by
  constructor
  · intro d hd
    obtain ⟨hmem, hk, hids⟩ := h.drawn d hd
    refine ⟨hdraws hmem, hk, fun e he => ?_⟩
    rcases hnew e he with hold | hother
    · exact hids e hold
    · exact hother d hd
  · intro id hid
    obtain ⟨challenge, hmem⟩ := h.own id hid
    exact ⟨challenge, hissued hmem⟩
  · intro a ha
    obtain ⟨hown, hmem, htaken, htime, hfresh⟩ := h.answering a ha
    refine ⟨hown, hissued hmem, hanswered htaken, htime, fun hin => ?_⟩
    obtain ⟨g, hg, hid⟩ := mem_map.mp hin
    rcases hgrants g hg with hold | hother
    · exact hfresh (mem_map.mpr ⟨g, hold, hid⟩)
    · exact hother a ha hid

theorem Session.Ok.same (h : x.Ok s k) (hdraws : s.draws ⊆ s'.draws)
    (hissued : s'.issued = s.issued) (hanswered : s.answered ⊆ s'.answered)
    (hgrants : s'.admitted = s.admitted) : x.Ok s' k := by
  refine h.mono hdraws (hissued ▸ .refl _) hanswered ?_ ?_
  · intro e he
    exact .inl (hissued ▸ he)
  · intro g hg
    exact .inl (hgrants ▸ hg)

theorem ok_empty (s : System) (k : Nat) : Session.Ok s k ⟨none, none, none⟩ := ⟨nofun, nofun, nofun⟩

theorem nodup_map_concat {α β : Type} {f : α → β} {l : List α} {a : α} (h : (l.map f).Nodup)
    (hnew : f a ∉ l.map f) : ((l ++ [a]).map f).Nodup := by
  rw [map_append]
  exact h.append (nodup_singleton _) (disjoint_singleton.mpr hnew)

namespace Inv

theorem unique (h : Inv c s) {k k' : Nat} {id : String} {x y : OutstandingChallenge}
    (hx : (k, id, x) ∈ s.issued) (hy : (k', id, y) ∈ s.issued) : k = k' ∧ x = y := by
  have heq : (k, id, x) = (k', id, y) := inj_on_of_nodup_map h.once hx hy rfl
  simp only [Prod.mk.injEq, true_and] at heq
  exact heq

theorem draw_eq (h : Inv c s) {d d' : Draw} (hd : d ∈ s.draws) (hd' : d' ∈ s.draws)
    (hnumber : d.number = d'.number) : d = d' := by
  have hnodup : (s.draws.map Draw.number).Nodup := pairwise_map.mpr (h.distinct.imp And.left)
  exact inj_on_of_nodup_map hnodup hd hd' hnumber

/-- The logs of draws, issues, answers and grants stay, and the map holds no new challenge. -/
theorem keep (h : Inv c s) {m : ChallengeMap} {x : Nat → Session} {now : Nat}
    {posture : Option Accepted} {signed : List (Bytes × Bytes)} (hsize : m.size ≤ s.map.size)
    (hsub : ∀ (id : String) (challenge : OutstandingChallenge), m[id]? = some challenge →
      s.map[id]? = some challenge) (hx : ∀ k, (x k).Ok s k) (hsigned : s.signed ⊆ signed) :
    Inv c { s with map := m, sessions := x, now, posture, signed } := by
  refine ⟨hsize.trans h.size, h.numbers, h.distinct, h.made, h.once, ?_, h.known, h.single, ?_, ?_,
    h.grantedOnce⟩
  · intro id challenge hfound
    exact h.listed id challenge (hsub id challenge hfound)
  · intro k
    exact (hx k).same (.refl _) rfl (.refl _) rfl
  · intro g hg
    exact (h.grants g hg).mono rfl (.refl _) (.refl _) hsigned

end Inv

variable {id : String}

theorem retained_sub (h : s.retained[id]? = some challenge) : s.map[id]? = some challenge := by
  rw [System.retained, Std.ExtTreeMap.getElem?_filter'] at h
  exact (Option.filter_eq_some_iff.mp h).1

theorem erase_sub {m : ChallengeMap} {id' : String} (h : (m.erase id)[id']? = some challenge) :
    id' ≠ id ∧ m[id']? = some challenge := by
  rw [getElem?_erase_eq] at h
  split at h
  · cases h
  · next hne => exact ⟨hne, h⟩

theorem inv_drew (h : Inv c s) {epoch : UInt64} {sessionId serverNonce : Bytes}
    (hnonce : ∀ d ∈ s.draws, d.serverNonce ≠ serverNonce) :
    Inv c { s.setSession k ⟨none, some ⟨k, s.nextId, sessionId, serverNonce, epoch⟩, none⟩ with
      nextId := s.nextId + 1
      draws := s.draws ++ [⟨k, s.nextId, sessionId, serverNonce, epoch⟩] } := by
  have hgrow : s.draws ⊆ s.draws ++ [⟨k, s.nextId, sessionId, serverNonce, epoch⟩] :=
    subset_append_left _ _
  refine ⟨h.size, ?_, ?_, ?_, h.once, h.listed, h.known, h.single, ?_, ?_, h.grantedOnce⟩
  · refine forall_mem_append.mpr ⟨fun d hd => Nat.lt_succ_of_lt (h.numbers d hd), ?_⟩
    exact forall_mem_singleton.mpr (Nat.lt_succ_self _)
  · refine pairwise_append.mpr ⟨h.distinct, pairwise_singleton _ _, ?_⟩
    intro d hd
    exact forall_mem_singleton.mpr ⟨ne_of_lt (h.numbers d hd), hnonce d hd⟩
  · intro e he
    obtain ⟨d, hd, hmade⟩ := h.made e he
    exact ⟨d, hgrow hd, hmade⟩
  · refine (Function.forall_update_iff _ (Session.Ok _)).mpr ⟨⟨?_, nofun, nofun⟩, fun j _ =>
      (h.sessions j).same hgrow rfl (.refl _) rfl⟩
    rintro d ⟨⟩
    refine ⟨mem_append_right _ mem_cons_self, rfl, ?_⟩
    -- the number is new, so no challenge has its id
    intro e he heq
    obtain ⟨d, hd, -, hid, -⟩ := h.made e he
    have hnumber : d.number = s.nextId := challengeId_inj (hid.trans heq)
    exact lt_irrefl _ (hnumber ▸ h.numbers d hd)
  · intro g hg
    exact (h.grants g hg).mono rfl (.refl _) (.refl _) (.refl _)

theorem inv_recorded (h : Inv c s) {d : Draw} (hsession : s.sessions k = ⟨none, some d, none⟩)
    (hsize : s.retained.size < maxOutstanding) :
    Inv c { s.setSession k ⟨some (challengeId d.number), none, none⟩ with
      map := s.retained.insert (challengeId d.number) ⟨d.sessionId, d.serverNonce, d.epoch, s.now⟩
      issued := s.issued ++
        [(k, challengeId d.number, ⟨d.sessionId, d.serverNonce, d.epoch, s.now⟩)] } := by
  obtain ⟨hdraw, hk, hnew⟩ := (h.sessions k).drawn d (by rw [hsession])
  have hgrow : s.issued ⊆ s.issued ++
      [(k, challengeId d.number, ⟨d.sessionId, d.serverNonce, d.epoch, s.now⟩)] :=
    subset_append_left _ _
  refine ⟨?_, h.numbers, h.distinct, ?_, ?_, ?_, ?_, h.single, ?_, ?_, h.grantedOnce⟩
  · exact Std.ExtTreeMap.size_insert_le.trans hsize
  · exact forall_mem_append.mpr ⟨h.made, forall_mem_singleton.mpr ⟨d, hdraw, hk, rfl, rfl⟩⟩
  · refine nodup_map_concat h.once fun hin => ?_
    obtain ⟨e, he, hid⟩ := mem_map.mp hin
    exact hnew e he hid
  · intro id challenge hfound
    rw [getElem?_insert_eq] at hfound
    split at hfound
    · next heq =>
      cases hfound
      refine ⟨⟨k, mem_append_right _ (heq ▸ mem_cons_self)⟩, fun hin => ?_⟩
      obtain ⟨e, he, hid⟩ := mem_map.mp hin
      obtain ⟨i, hi, hie⟩ := h.known e he
      exact hnew i hi (hie.trans (hid.trans heq))
    · obtain ⟨⟨j, hj⟩, hnot⟩ := h.listed id challenge (retained_sub hfound)
      exact ⟨⟨j, hgrow hj⟩, hnot⟩
  · intro e he
    obtain ⟨i, hi, hie⟩ := h.known e he
    exact ⟨i, hgrow hi, hie⟩
  · refine (Function.forall_update_iff _ (Session.Ok _)).mpr ⟨⟨nofun, ?_, nofun⟩, fun j hj => ?_⟩
    · rintro id ⟨⟩
      exact ⟨_, mem_append_right _ mem_cons_self⟩
    · refine (h.sessions j).mono (.refl _) hgrow (.refl _) ?_
        fun g hg => .inl hg
      intro e he
      rcases mem_append.mp he with he | he
      · exact .inl he
      -- two sessions draw different numbers
      right
      intro d' hd' heq
      rw [mem_singleton.mp he] at heq
      obtain ⟨hdraw', hj', -⟩ := (h.sessions j).drawn d' hd'
      have hsame := h.draw_eq hdraw hdraw' (challengeId_inj heq)
      exact hj (hj'.symm.trans (hsame ▸ hk))
  · intro g hg
    exact (h.grants g hg).mono rfl hgrow (.refl _) (.refl _)

theorem inv_took (h : Inv c s) (hsession : s.sessions k = ⟨some id, none, none⟩)
    (hfound : s.map[id]? = some challenge) (hlive : live s.now challenge = true) :
    Inv c { s.setSession k ⟨some id, none, some ⟨id, challenge, s.now, body⟩⟩ with
      map := s.map.erase id
      answered := s.answered ++ [(id, s.now)] } := by
  have hgrow : s.answered ⊆ s.answered ++ [(id, s.now)] := subset_append_left _ _
  obtain ⟨⟨j, hj⟩, hnot⟩ := h.listed id challenge hfound
  obtain ⟨_, hother⟩ := (h.sessions k).own id (by rw [hsession])
  obtain ⟨rfl, rfl⟩ := h.unique hj hother
  refine ⟨?_, h.numbers, h.distinct, h.made, h.once, ?_, ?_, ?_, ?_, ?_, h.grantedOnce⟩
  · exact Std.ExtTreeMap.size_erase_le.trans h.size
  · intro id' challenge' hfound'
    obtain ⟨hne, hfound'⟩ := erase_sub hfound'
    obtain ⟨hissued, hnot'⟩ := h.listed id' challenge' hfound'
    refine ⟨hissued, fun hin => ?_⟩
    rw [map_append, mem_append] at hin
    rcases hin with hin | hin
    · exact hnot' hin
    · exact hne (mem_singleton.mp hin)
  · exact forall_mem_append.mpr ⟨h.known, forall_mem_singleton.mpr ⟨_, hj, rfl⟩⟩
  · exact nodup_map_concat h.single hnot
  · refine (Function.forall_update_iff _ (Session.Ok _)).mpr ⟨⟨nofun, ?_, ?_⟩, fun i _ =>
      (h.sessions i).same (.refl _) rfl hgrow rfl⟩
    · rintro _ ⟨⟩
      exact ⟨_, hj⟩
    · rintro _ ⟨⟩
      refine ⟨rfl, hj, mem_append_right _ mem_cons_self, of_decide_eq_true hlive, ?_⟩
      intro hin
      obtain ⟨g, hg, hid⟩ := mem_map.mp hin
      have hanswered := (h.grants g hg).answered
      exact hnot (mem_map.mpr ⟨_, hanswered, hid⟩)
  · intro g hg
    exact (h.grants g hg).mono rfl (.refl _) hgrow (.refl _)

variable {nodeName : String}

theorem verdict_admits {a : Accepted} {claimed : String}
    (h : verdict c nodeName (some a) challenge body = some (.admits claimed)) :
    ∃ proof member, reconstructProof c challenge body a.mesh nodeName = some proof ∧
      proof.claimedSourceNode = claimed ∧ a.membersFull[claimed]? = some member ∧
      Admitted c member proof.transcript proof.signature a.epoch := by
  simp only [verdict] at h
  split at h
  · cases h
  next proof hproof =>
  obtain ⟨_, -, h⟩ := Option.bind_eq_some_iff.mp h
  split at h
  · cases h
  next member hmember =>
  obtain ⟨_, hadmit, hresult⟩ := Option.map_eq_some_iff.mp h
  split at hresult
  · cases hresult
    exact ⟨proof, member, hproof, rfl, hmember, admitted_of_admits hadmit⟩
  · cases hresult

theorem reconstructProof_some {meshFqdn : String} {proof : ReconstructedProof}
    (h : reconstructProof c challenge body meshFqdn nodeName = some proof) :
    decodeB64 c body "signature" = some proof.signature ∧
    proof.transcript = ⟨meshFqdn, proof.claimedSourceNode, nodeName, challenge.epoch,
      challenge.sessionId, challenge.serverNonce, originOnlyZero, originOnlyZero⟩ := by
  obtain ⟨_, -, h⟩ := Option.bind_eq_some_iff.mp h
  obtain ⟨_, hsignature, h⟩ := Option.bind_eq_some_iff.mp h
  obtain ⟨_, -, h⟩ := Option.bind_eq_some_iff.mp h
  obtain ⟨_, -, h⟩ := Option.bind_eq_some_iff.mp h
  split at h
  · cases h
  next hzero =>
  rw [not_or, not_not, not_not] at hzero
  cases h
  exact ⟨hsignature, by rw [hzero.1, hzero.2]⟩

theorem inv_granted (h : Inv c s) {own : Option String} {answer : Answer} {a : Accepted}
    {claimed : String} (hideal : Ideal c s (.judge k))
    (hsession : s.sessions k = ⟨own, none, some answer⟩)
    (hverdict : verdict c s.nodeName (some a) answer.challenge answer.body =
      some (.admits claimed)) : Inv c { s.setSession k ⟨own, none, none⟩ with
      admitted := s.admitted ++ [⟨k, answer, a, claimed⟩] } := by
  obtain ⟨-, hissued, hanswered, htime, hfresh⟩ :=
    (h.sessions k).answering answer (by rw [hsession])
  have hgranted : Granted c s ⟨k, answer, a, claimed⟩ := by
    obtain ⟨proof, member, hproof, rfl, hmember, hadmitted⟩ := verdict_admits hverdict
    obtain ⟨hsignature, htranscript⟩ := reconstructProof_some hproof
    obtain ⟨pubkey, cred, bytes, hcred, hbytes, hverify⟩ := hadmitted.signed
    have hsigned := hideal answer proof.signature (by rw [hsession]) hsignature pubkey bytes hverify
    have hname := hadmitted.name
    have hepoch := hadmitted.atEpoch
    rw [htranscript] at hname hepoch hbytes
    exact ⟨hissued, hanswered, htime, hepoch, member, pubkey, cred, bytes, hmember, hname,
      hadmitted.active, hadmitted.bus, hcred, hbytes, hsigned⟩
  refine ⟨h.size, h.numbers, h.distinct, h.made, h.once, h.listed, h.known, h.single, ?_, ?_, ?_⟩
  · refine (Function.forall_update_iff _ (Session.Ok _)).mpr ⟨⟨nofun, ?_, nofun⟩, fun j hj => ?_⟩
    · intro id hid
      exact (h.sessions k).own id (by rw [hsession]; exact hid)
    · refine (h.sessions j).mono (.refl _) (.refl _) (.refl _)
        (fun e he => .inl he) ?_
      intro g hg
      rcases mem_append.mp hg with hg | hg
      · exact .inl hg
      -- the other session answers a challenge of its own
      right
      intro a' ha' heq
      rw [mem_singleton.mp hg] at heq
      have hother := ((h.sessions j).answering a' ha').2.1
      rw [← show answer.id = a'.id from heq] at hother
      exact hj (h.unique hother hissued).1
  · intro g hg
    have hgranted' : Granted c s g :=
      forall_mem_append.mpr ⟨h.grants, forall_mem_singleton.mpr hgranted⟩ g hg
    exact hgranted'.mono rfl (.refl _) (.refl _) (.refl _)
  · exact nodup_map_concat h.grantedOnce hfresh

theorem inv_step (h : Inv c s) (hideal : Ideal c s act) (hstep : Step c s act s') : Inv c s' := by
  cases hstep with
  | passed | reloaded =>
    exact h.keep le_rfl (fun _ _ hfound => hfound) h.sessions (.refl _)
  | signed =>
    exact h.keep le_rfl (fun _ _ hfound => hfound) h.sessions (subset_append_left _ _)
  | drew => exact inv_drew h hideal
  | @full k d hsession hsize =>
    refine h.keep Std.ExtTreeMap.size_filter_le_size (fun _ _ => retained_sub) ?_ (.refl _)
    exact (Function.forall_update_iff _ (Session.Ok s)).mpr ⟨ok_empty s k, fun j _ => h.sessions j⟩
  | recorded hsession hsize => exact inv_recorded h hsession hsize
  | ignored => exact h
  | took hsession hfound hlive => exact inv_took h hsession hfound hlive
  | dropped =>
    exact h.keep Std.ExtTreeMap.size_erase_le (fun _ _ hfound => (erase_sub hfound).2) h.sessions
      (.refl _)
  | @refused k own answer hsession =>
    refine h.keep le_rfl (fun _ _ hfound => hfound) ?_ (.refl _)
    refine (Function.forall_update_iff _ (Session.Ok s)).mpr
      ⟨⟨nofun, fun id hid => ?_, nofun⟩, fun j _ => h.sessions j⟩
    exact (h.sessions k).own id (by rw [hsession]; exact hid)
  | granted hsession hposture hverdict => exact inv_granted h hideal hsession hverdict

theorem inv_start (nodeName : String) : Inv c (System.start nodeName) := by
  refine ⟨?_, nofun, .nil, nofun, .nil, ?_, nofun, .nil,
    fun k => ok_empty _ k, nofun, .nil⟩
  · exact Nat.zero_le _
  · intro id challenge hfound
    simp [System.start] at hfound

theorem Inv.eq_of_nonce (h : Inv c s) {e e' : Nat × String × OutstandingChallenge} (he : e ∈ s.issued)
    (he' : e' ∈ s.issued) (hnonce : e.2.2.serverNonce = e'.2.2.serverNonce) : e = e' := by
  obtain ⟨d, hd, -, hid, hn⟩ := h.made e he
  obtain ⟨d', hd', -, hid', hn'⟩ := h.made e' he'
  have hnodup : (s.draws.map Draw.serverNonce).Nodup :=
    pairwise_map.mpr (h.distinct.imp And.right)
  have hdraw : d = d' :=
    inj_on_of_nodup_map hnodup hd hd' (hn.trans (hnonce.trans hn'.symm))
  exact inj_on_of_nodup_map h.once he he' (hid.symm.trans (hdraw ▸ hid'))

/-- In every interleaving the table stays within its cap, no challenge is answered or admitted
twice, and an admitted session answered, in time, the challenge recorded for it, with a signature by
a current key of the claimed member. -/
theorem admission_only_for_its_session {acts : List Act}
    (hideal : Guarded (step c) (Ideal c) (System.start nodeName) acts)
    (hrun : runFrom (step c) (System.start nodeName) acts = some s) :
    s.map.size ≤ maxOutstanding ∧ (s.answered.map Prod.fst).Nodup ∧
    (s.admitted.map fun g => g.answer.id).Nodup ∧ ∀ g ∈ s.admitted,
      (g.session, g.answer.id, g.answer.challenge) ∈ s.issued ∧
      (∀ e ∈ s.issued, e.2.2.serverNonce = g.answer.challenge.serverNonce →
        e = (g.session, g.answer.id, g.answer.challenge)) ∧
      (g.answer.id, g.answer.takenAt) ∈ s.answered ∧
      g.answer.takenAt - g.answer.challenge.issuedAt < challengeTtl ∧
      g.answer.challenge.epoch = g.accepted.epoch ∧
      ∃ member pubkey cred bytes, g.accepted.membersFull[g.claimed]? = some member ∧
        (member.get "name").bind Json.asStr = some g.claimed ∧
        (member.get "status").bind Json.asStr = some "active" ∧
        (member.get "bus").bind Json.asBool = some true ∧
        CurrentD2 c member g.accepted.epoch pubkey cred ∧ (pubkey, bytes) ∈ s.signed ∧
        ∀ t : AdmissionTranscript, t.canonicalBytes = some bytes ↔ t = transcriptOf nodeName g := by
  have hinv : Inv c s := by
    refine runFrom_guarded (P := Inv c) ?_ (inv_start nodeName) hideal hrun
    intro s act s' h hok hstep
    exact inv_step h hok (step_cases hstep)
  have hname : s.nodeName = nodeName := by
    refine runFrom_invariant (P := fun s => s.nodeName = nodeName) ?_ rfl hrun
    intro s act s' h hstep
    cases step_cases hstep <;> exact h
  refine ⟨hinv.size, hinv.single, hinv.grantedOnce, fun g hg => ?_⟩
  have hgranted := hinv.grants g hg
  obtain ⟨member, pubkey, cred, bytes, hmember, hn, hs, hb, hcred, hbytes, hsigned⟩ := hgranted.proof
  rw [hname] at hbytes
  refine ⟨hgranted.issued, fun e he hnonce => hinv.eq_of_nonce he hgranted.issued hnonce,
    hgranted.answered, hgranted.inTime, hgranted.atEpoch, member, pubkey, cred, bytes, hmember, hn, hs,
    hb, hcred, hsigned, fun t => ⟨fun ht => canonicalBytes_inj ht hbytes, ?_⟩⟩
  rintro rfl
  exact hbytes

private def deltaRecord : Json :=
  .object [("name", .string "delta"), ("bus", .bool true), ("status", .string "active"),
    ("credentials", .array [.object [("kind", .string "d2"), ("pubkey", .string "D"),
      ("from_epoch", .number 1), ("until_epoch", .null)]])]

private def meshPosture : Accepted where
  epoch := 7
  recoveryGeneration := 0
  viaRecovery := false
  mesh := "bus"
  hash := ""
  verifiedBy := []
  verifyKeys := []
  membersFull := Authority.membersByName (.array [deltaRecord])

private def deltaTranscript : AdmissionTranscript where
  meshFqdn := "bus"
  claimedSourceNode := "delta"
  verifyingBrokerNode := "beta"
  inventoryEpoch := 7
  sessionId := [1]
  serverNonce := [2]
  clientEphemeral := originOnlyZero
  channelBindingHash := originOnlyZero

private def deltaMessage : Bytes := deltaTranscript.canonicalBytes.getD []

/-- One key, and one signature of it over one message. -/
private def deltaCrypto : Crypto where
  decode64 t :=
    if t = "D" then some (List.replicate 32 4)
    else if t = "S" then some (List.replicate 64 5)
    else if t = "0" then some originOnlyZero
    else none
  verifyStrict pubkey signature message := pubkey == List.replicate 32 4 &&
    signature == List.replicate 64 5 && message.data.toList == deltaMessage
  blake3 _ := ""

private def deltaActs : List Act :=
  [.reload (some meshPosture), .draw 0 7 [1] [2], .record 0,
    .sign (List.replicate 32 4) deltaMessage, .pass 5,
    .respond 0 (some "adm-1") (.object [("claimed_source_node", .string "delta"),
      ("signature", .string "S"), ("client_ephemeral", .string "0"),
      ("channel_binding_hash", .string "0")]), .judge 0]

private def deltaTest (s : System) : Act → Bool
  | .draw _ _ _ nonce => s.draws.all fun d => d.serverNonce != nonce
  | .judge _ => decide ((List.replicate 32 4, deltaMessage) ∈ s.signed)
  | _ => true

private theorem deltaActs_ideal :
    Guarded (step deltaCrypto) (Ideal deltaCrypto) (System.start "beta") deltaActs := by
  refine guarded_of_checkRun (?_ : ∀ s act, deltaTest s act = true → Ideal deltaCrypto s act)
    (by decide +kernel)
  intro s act htest
  cases act with
  | draw =>
    intro d hd
    exact bne_iff_ne.mp (all_eq_true.mp htest d hd)
  | judge =>
    intro answer signature _ _ pubkey message hverify
    simp only [Crypto.verifyEd25519, deltaCrypto, Bool.and_eq_true, beq_iff_eq] at hverify
    obtain ⟨-, ⟨hkey, -⟩, hmessage⟩ := hverify
    have hmessage' : message = deltaMessage := hmessage
    rw [hkey, hmessage']
    exact of_decide_eq_true htest
  | _ => trivial

theorem admission_only_for_its_session_delta :
    ∃ s g, runFrom (step deltaCrypto) (System.start "beta") deltaActs = some s ∧
      s.admitted = [g] ∧ g.claimed = "delta" ∧ (0, "adm-1", g.answer.challenge) ∈ s.issued := by
  have hcount : (runFrom (step deltaCrypto) (System.start "beta") deltaActs).map (fun s =>
      s.admitted.map fun g => (g.session, g.answer.id, g.claimed)) = some [(0, "adm-1", "delta")] := by
    decide +kernel
  obtain ⟨s, hrun, hs⟩ := Option.map_eq_some_iff.mp hcount
  obtain ⟨g, grants, hadmitted, hg, hnil⟩ := map_eq_cons_iff.mp hs
  have hgrants : grants = [] := map_eq_nil_iff.mp hnil
  simp only [Prod.mk.injEq] at hg
  obtain ⟨-, -, -, hall⟩ := admission_only_for_its_session deltaActs_ideal hrun
  have hissued := (hall g (hadmitted ▸ mem_cons_self)).1
  rw [hg.1, hg.2.1] at hissued
  exact ⟨s, g, hrun, hgrants ▸ hadmitted, hg.2.2, hissued⟩

end Cosmix.Noded.Admission
