/- source: cosmix-noded/src/authority.rs
   digest: The baseline only goes forward, whatever processes load and whenever they die. -/

import Mathlib.Data.List.Pairwise
import Cosmix.Noded.Authority

namespace Cosmix.Noded.Authority

open Cosmix.Lib Cosmix.MeshTrust List

def CollisionFree (c : Crypto) : Prop := ∀ x y, c.blake3 x = c.blake3 y → x = y

/-- The place of a baseline: the generation, then the epoch. -/
def Baseline.pair (b : Baseline) : Nat ×ₗ Nat := toLex (b.recoveryGeneration.toNat, b.epoch.toNat)

def Accepted.baseline (a : Accepted) : Baseline := ⟨a.epoch, a.recoveryGeneration, some a.hash⟩

/-- A baseline that may come after another: further on, or the same unless nothing was pinned. -/
def Follows (b b' : Baseline) : Prop :=
  b.pair < b'.pair ∨ b.pair = b'.pair ∧ (b.hash = none ∨ b.hash = b'.hash)

/-- The pinned hash, if any, is of a payload at the baseline's place: as the code writes it, or as
an old file of two fields. -/
def Sound (c : Crypto) (b : Baseline) : Prop :=
  ∀ h, b.hash = some h → ∃ p : InventoryPayload, p.canonicalBlake3 c = h ∧ p.epoch = b.epoch ∧
    p.recoveryGeneration.getD 0 = b.recoveryGeneration

namespace Follows

theorem refl (b : Baseline) : Follows b b := .inr ⟨rfl, .inr rfl⟩

variable {b : Baseline}

theorem trans {a d : Baseline} (h : Follows a b) (h' : Follows b d) : Follows a d := by
  rcases h with hlt | ⟨heq, hhash⟩
  · rcases h' with hlt' | ⟨heq', -⟩
    · exact .inl (hlt.trans hlt')
    · exact .inl (heq' ▸ hlt)
  rcases h' with hlt' | ⟨heq', hhash'⟩
  · exact .inl (heq ▸ hlt')
  · refine .inr ⟨heq.trans heq', ?_⟩
    rcases hhash with hnone | hsame
    · exact .inl hnone
    · exact hsame ▸ hhash'

theorem hash_eq {b' : Baseline} (h : Follows b b') (hpair : b.pair = b'.pair) {x : String}
    (hx : b.hash = some x) : b'.hash = some x := by
  rcases h with hlt | ⟨-, hnone | hsame⟩
  · exact absurd hpair hlt.ne
  · rw [hnone] at hx
    cases hx
  · exact hsame ▸ hx

end Follows

variable {c : Crypto} {strictRoutingView : Json → String → Bool} {b : Baseline}
  {inv : SignedInventory} {accepted : AcceptedInventory} {s s' : System} {a : Act}

theorem pair_eq_of_hash (hfree : CollisionFree c) {b' : Baseline} (hb : Sound c b)
    (hb' : Sound c b') {h : String} (hh : b.hash = some h) (hh' : b'.hash = some h) :
    b.pair = b'.pair := by
  obtain ⟨p, hp, hpe, hpg⟩ := hb h hh
  obtain ⟨q, hq, hqe, hqg⟩ := hb' h hh'
  obtain ⟨hepoch, hgeneration⟩ :=
    InventoryPayload.fold_of_canonicalBytes (hfree _ _ (hp.trans hq.symm))
  rw [Baseline.pair, Baseline.pair, ← hpe, ← hpg, ← hqe, ← hqg, hepoch, hgeneration]

theorem sound_next {state : NodeTrustState} (h : Passed c inv state accepted) :
    Sound c (nextBaseline c inv accepted) := by
  intro x hx
  cases hx
  exact ⟨inv.payload, rfl, h.epoch.symm, h.generation⟩

theorem follows_next (hfree : CollisionFree c) {genesisPub : Bytes} (hb : Sound c b)
    (h : Passed c inv (trustState genesisPub b) accepted) :
    Follows b (nextBaseline c inv accepted) := by
  rcases h.place with hlt | ⟨heq, hlt⟩ | ⟨heq, hepoch, hnone⟩ | ⟨-, hsome⟩
  · left
    exact Prod.Lex.toLex_lt_toLex.mpr (.inl (UInt64.lt_iff_toNat_lt.mp hlt))
  · left
    exact Prod.Lex.toLex_lt_toLex.mpr (.inr ⟨congrArg UInt64.toNat heq, UInt64.lt_iff_toNat_lt.mp hlt⟩)
  · right
    refine ⟨?_, .inl hnone⟩
    exact congrArg toLex (Prod.ext (congrArg UInt64.toNat heq) (congrArg UInt64.toNat hepoch))
  · right
    exact ⟨pair_eq_of_hash hfree hb (sound_next h) hsome rfl, .inr hsome⟩

/-- What the acts do to a state. -/
inductive Step (c : Crypto) (s : System) : Act → System → Prop
  | entered {a : Act} {p : Nat} {phase : Phase} (hold : (s.phase p).holds = false)
      (hnew : phase.holds = false) : Step c s a (s.setPhase p phase)
  | left {a : Act} (p : Nat) : Step c s a (s.leave p)
  | acquired {p : Nat} {genesisPub : Bytes} {inv : SignedInventory} (hfree : s.lock = none) :
      Step c s (.acquire p) { s.setPhase p (.locked genesisPub inv) with lock := some p }
  | ratified {p : Nat} {genesisPub : Bytes} {inv : SignedInventory} {accepted : AcceptedInventory}
      (hphase : s.phase p = .locked genesisPub inv)
      (hpassed : Passed c inv (trustState genesisPub s.disk.visible) accepted) :
      Step c s (.recheck p) (s.setPhase p (.ratified inv accepted))
  | wrote {p : Nat} {inv : SignedInventory} {accepted : AcceptedInventory}
      (hphase : s.phase p = .ratified inv accepted) :
      Step c s (.writeTemp p) (s.setPhase p (.written inv accepted))
  | renamed {p : Nat} {inv : SignedInventory} {accepted : AcceptedInventory}
      (hphase : s.phase p = .written inv accepted) :
      Step c s (.rename p) { s.setPhase p (.replaced inv accepted) with
        disk := { s.disk with renamed := s.disk.renamed ++ [nextBaseline c inv accepted] } }
  | synced {p : Nat} {inv : SignedInventory} {accepted : AcceptedInventory}
      (hphase : s.phase p = .replaced inv accepted) :
      Step c s (.syncDirectory p)
        { s.setPhase p (.synced inv accepted) with disk := ⟨s.disk.visible, []⟩ }
  | finished {p : Nat} {inv : SignedInventory} {accepted : AcceptedInventory}
      (hphase : s.phase p = .synced inv accepted) :
      Step c s (.finish p)
        { s.leave p with verified := s.verified ++ [acceptedOf c inv accepted] }
  | cut (kept : Nat) :
      Step c s (.powerCut kept)
        { s with
          disk := ⟨(Disk.mk s.disk.durable (s.disk.renamed.take kept)).visible, []⟩
          lock := none
          phase := fun _ => .idle }

theorem step_cases (h : step c strictRoutingView s a = some s') : Step c s a s' := by
  refine Yields.elim h ?_
  cases a with simp only [step]
  | begin =>
    split
    · next hphase => exact .entered (by rw [hphase]; rfl) rfl
    · trivial
  | check p =>
    split
    · next hphase =>
      split
      · split
        · exact .entered (by rw [hphase]; rfl) rfl
        · exact .left p
      · exact .left p
    · trivial
  | acquire =>
    split
    · next hlock => exact .acquired hlock
    · trivial
  | recheck p =>
    split
    · next hphase =>
      split
      · next hverify =>
        exact .ratified hphase ((verify_ok_iff c _ _ _).mp hverify)
      · exact .left p
    · trivial
  | writeTemp =>
    split
    · next hphase => exact .wrote hphase
    · trivial
  | rename =>
    split
    · next hphase => exact .renamed hphase
    · trivial
  | syncDirectory =>
    split
    · next hphase => exact .synced hphase
    · trivial
  | finish =>
    split
    · next hphase => exact .finished hphase
    · trivial
  | abandon p => exact .left p
  | powerCut kept => exact .cut kept

/-- What a call that holds the lock knows of the file. -/
def Phase.Agrees (c : Crypto) (disk : Disk) : Phase → Prop
  | .ratified inv accepted | .written inv accepted =>
    Follows disk.visible (nextBaseline c inv accepted) ∧ Sound c (nextBaseline c inv accepted)
  | .replaced inv accepted => disk.visible = nextBaseline c inv accepted
  | .synced inv accepted => disk = ⟨nextBaseline c inv accepted, []⟩
  | _ => True

/-- The baselines that the file may hold after a power cut, in order, all sound. -/
structure Disk.Ordered (c : Crypto) (d : Disk) : Prop where
  chain : (d.durable :: d.renamed).Pairwise Follows
  sound : ∀ b ∈ d.durable :: d.renamed, Sound c b

structure Inv (c : Crypto) (s : System) : Prop where
  disk : s.disk.Ordered c
  holder : ∀ p, (s.phase p).holds = true → s.lock = some p
  agrees : ∀ p, (s.phase p).Agrees c s.disk
  logged : ∀ a ∈ s.verified, Follows a.baseline s.disk.durable ∧ Sound c a.baseline
  ordered : s.verified.Pairwise fun a a' => Follows a.baseline a'.baseline

theorem agrees_of_not_holds {disk : Disk} {phase : Phase} (h : phase.holds = false) :
    phase.Agrees c disk := by
  cases phase <;> trivial

theorem visible_eq (d : Disk) : d.visible = (d.durable :: d.renamed).getLast (cons_ne_nil _ _) := by
  have hlast := getLast?_eq_some_getLast (cons_ne_nil d.durable d.renamed)
  rw [getLast?_cons] at hlast
  exact Option.some.inj hlast

theorem visible_mem (d : Disk) : d.visible ∈ d.durable :: d.renamed := by
  rw [visible_eq]
  exact getLast_mem _

theorem visible_take_mem (d : Disk) (kept : Nat) :
    Disk.visible { d with renamed := d.renamed.take kept } ∈ d.durable :: d.renamed :=
  cons_subset_cons _ (take_subset _ _) (visible_mem _)

namespace Disk.Ordered

variable {d : Disk}

theorem durable_follows (h : d.Ordered c) : ∀ b ∈ d.durable :: d.renamed, Follows d.durable b :=
  forall_mem_cons.mpr ⟨Follows.refl _, (pairwise_cons.mp h.chain).1⟩

theorem follows_visible (h : d.Ordered c) (hb : b ∈ d.durable :: d.renamed) : Follows b d.visible := by
  rw [visible_eq]
  exact h.chain.rel_getLast_of_rel_getLast_getLast hb (Follows.refl _)

theorem single (h : Sound c b) : Disk.Ordered c ⟨b, []⟩ :=
  ⟨pairwise_singleton _ _, forall_mem_singleton.mpr h⟩

theorem append (h : d.Ordered c) (hfollows : Follows d.visible b)
    (hsound : Sound c b) : Disk.Ordered c { d with renamed := d.renamed ++ [b] } := by
  constructor
  · refine pairwise_append.mpr ⟨h.chain, pairwise_singleton _ _, ?_⟩
    intro x hx
    exact forall_mem_singleton.mpr ((h.follows_visible hx).trans hfollows)
  · exact forall_mem_append.mpr ⟨h.sound, forall_mem_singleton.mpr hsound⟩

end Disk.Ordered

theorem visible_append (d : Disk) (b : Baseline) :
    Disk.visible { d with renamed := d.renamed ++ [b] } = b := by
  rw [Disk.visible, getLast?_append]
  rfl

namespace Inv

variable {s : System} {p : Nat} {phase : Phase}

theorem agrees_at (h : Inv c s) (hphase : s.phase p = phase) : phase.Agrees c s.disk :=
  hphase ▸ h.agrees p

theorem locked_at (h : Inv c s) (hphase : s.phase p = phase) (hholds : phase.holds = true) :
    s.lock = some p :=
  h.holder p (hphase ▸ hholds)

theorem move (h : Inv c s) {d : Disk} {lock : Option Nat} (hd : d.Ordered c)
    (hdurable : Follows s.disk.durable d.durable) (hlock : phase.holds = true → lock = some p)
    (hagrees : phase.Agrees c d)
    (hothers : ∀ q, q ≠ p → ((s.phase q).holds = true → lock = some q) ∧ (s.phase q).Agrees c d) :
    Inv c { s.setPhase p phase with disk := d, lock } := by
  refine ⟨hd, ?_, ?_, ?_, h.ordered⟩
  · exact (Function.forall_update_iff s.phase fun q x => x.holds = true → lock = some q).mpr
      ⟨hlock, fun q hq => (hothers q hq).1⟩
  · exact (Function.forall_update_iff s.phase fun _ x => x.Agrees c d).mpr
      ⟨hagrees, fun q hq => (hothers q hq).2⟩
  · intro a ha
    obtain ⟨hfollows, hsound⟩ := h.logged a ha
    exact ⟨hfollows.trans hdurable, hsound⟩

theorem setPhase (h : Inv c s) (hlock : phase.holds = true → s.lock = some p)
    (hagrees : phase.Agrees c s.disk) : Inv c (s.setPhase p phase) :=
  h.move h.disk (Follows.refl _) hlock hagrees fun q _ => ⟨h.holder q, h.agrees q⟩

theorem leave (h : Inv c s) (p : Nat) : Inv c (s.leave p) := by
  refine h.move h.disk (Follows.refl _) nofun trivial fun q hne => ⟨fun hq => ?_, h.agrees q⟩
  rw [h.holder q hq, if_neg fun heq => hne (Option.some.inj heq)]

/-- The holder of the lock changes the file: no other call knows anything of it. -/
theorem rewrite (h : Inv c s) {d : Disk} (hp : s.lock = some p) (hd : d.Ordered c)
    (hdurable : Follows s.disk.durable d.durable) (hagrees : phase.Agrees c d) :
    Inv c { s.setPhase p phase with disk := d } := by
  refine h.move hd hdurable (fun _ => hp) hagrees fun q hne => ⟨h.holder q, ?_⟩
  refine agrees_of_not_holds (Bool.not_eq_true _ ▸ fun hq => hne ?_)
  exact Option.some.inj ((h.holder q hq).symm.trans hp)

end Inv

theorem inv_step (hfree : CollisionFree c) (h : Inv c s) (hstep : Step c s a s') : Inv c s' := by
  cases hstep with
  | entered hold hnew =>
    refine h.setPhase (fun hholds => ?_) (agrees_of_not_holds hnew)
    rw [hnew] at hholds
    cases hholds
  | left p => exact h.leave p
  | @acquired p genesisPub inv hlock =>
    refine h.move h.disk (Follows.refl _) (fun _ => rfl) trivial fun q _ => ⟨fun hq => ?_, h.agrees q⟩
    have hholder := h.holder q hq
    rw [hlock] at hholder
    cases hholder
  | @ratified p genesisPub inv accepted hphase hpassed =>
    have hsound := h.disk.sound _ (visible_mem s.disk)
    exact h.setPhase (fun _ => h.locked_at hphase rfl)
      ⟨follows_next hfree hsound hpassed, sound_next hpassed⟩
  | wrote hphase =>
    have hagrees := h.agrees_at hphase
    exact h.setPhase (fun _ => h.locked_at hphase rfl) hagrees
  | renamed hphase =>
    obtain ⟨hfollows, hsound⟩ := h.agrees_at hphase
    exact h.rewrite (h.locked_at hphase rfl) (h.disk.append hfollows hsound) (Follows.refl _)
      (visible_append _ _)
  | synced hphase =>
    have hmem := visible_mem s.disk
    refine h.rewrite (h.locked_at hphase rfl) (.single (h.disk.sound _ hmem))
      (h.disk.durable_follows _ hmem) ?_
    exact congrArg (fun b => Disk.mk b []) (h.agrees_at hphase)
  | @finished p inv accepted hphase =>
    have hdurable : s.disk.durable = (acceptedOf c inv accepted).baseline :=
      congrArg Disk.durable (h.agrees_at hphase)
    have hsound : Sound c (acceptedOf c inv accepted).baseline :=
      hdurable ▸ h.disk.sound _ mem_cons_self
    have hleft := h.leave p
    refine ⟨hleft.disk, hleft.holder, hleft.agrees, ?_, ?_⟩
    · refine forall_mem_append.mpr ⟨h.logged, forall_mem_singleton.mpr ⟨?_, hsound⟩⟩
      rw [← hdurable]
      exact Follows.refl _
    · refine pairwise_append.mpr ⟨h.ordered, pairwise_singleton _ _, ?_⟩
      intro a ha
      exact forall_mem_singleton.mpr (hdurable ▸ (h.logged a ha).1)
  | cut kept =>
    have hmem := visible_take_mem s.disk kept
    refine ⟨.single (h.disk.sound _ hmem), nofun, fun _ => trivial, ?_, h.ordered⟩
    intro a ha
    obtain ⟨hfollows, hsound⟩ := h.logged a ha
    exact ⟨hfollows.trans (h.disk.durable_follows _ hmem), hsound⟩

theorem inv_start (hb : Sound c b) : Inv c (System.start b) :=
  ⟨Disk.Ordered.single hb, nofun, fun _ => trivial, nofun, .nil⟩

/-- The file has gone forward for whoever looks, and what was verified on the way may follow what
was seen. -/
structure Advances (c : Crypto) (look : Disk → Baseline) (s s' : System) : Prop where
  seen : Follows (look s.disk) (look s'.disk)
  results : ∃ new, s'.verified = s.verified ++ new ∧
    ∀ a ∈ new, Follows (look s.disk) a.baseline ∧ Sound c a.baseline

namespace Advances

variable {look : Disk → Baseline}

theorem quiet {s s' : System} (h : Follows (look s.disk) (look s'.disk))
    (hv : s'.verified = s.verified) : Advances c look s s' :=
  ⟨h, [], by rw [hv, append_nil], nofun⟩

theorem trans {s s' s'' : System} (h : Advances c look s s') (h' : Advances c look s' s'') :
    Advances c look s s'' := by
  obtain ⟨new, hnew, hnew'⟩ := h.results
  obtain ⟨more, hmore, hmore'⟩ := h'.results
  refine ⟨h.seen.trans h'.seen, new ++ more, ?_, ?_⟩
  · rw [hmore, hnew, append_assoc]
  · refine forall_mem_append.mpr ⟨hnew', fun a ha => ?_⟩
    exact ⟨h.seen.trans (hmore' a ha).1, (hmore' a ha).2⟩

end Advances

variable {look : Disk → Baseline}

theorem inv_run (hfree : CollisionFree c) {acts : List Act} (h : Inv c s)
    (hrun : runFrom (step c strictRoutingView) s acts = some s') : Inv c s' :=
  runFrom_invariant (fun _ _ _ hinv hstep => inv_step hfree hinv (step_cases hstep)) h hrun

end Cosmix.Noded.Authority
