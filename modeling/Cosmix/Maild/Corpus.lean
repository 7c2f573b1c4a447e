/- source: maild-bayesian/src/storage.rs, tokens.rs
   digest: The trained counts are the sum of the messages that carry a label. -/

import Cosmix.Lib.Maps
import Mathlib.Algebra.Order.BigOperators.Group.Finset

namespace Cosmix.Maild.Bayesian

open Function

inductive Label
  | spam | ham
  deriving DecidableEq

inductive Error
  | storage (message : String)
  | sqlite

/-- The tables of one account. The tokens' rows and the two totals are counts of each label. -/
structure Corpus where
  counts : Label → String → Nat
  totals : Label → Nat
  labels : String → Option Label
  labelMeta : String → Option (Nat × String)

/-- Header evidence is kept before body evidence, and that before URLs. -/
def applyTokenCap (tokens : List String) (cap : Nat) : List String :=
  if cap = 0 ∨ tokens.length ≤ cap then tokens
  else
    (Lib.sortByKey (fun token : String =>
      if token.startsWith "u:" then 2 else if token.startsWith "b:" then 1 else 0) tokens).take cap

namespace Corpus

def empty : Corpus := ⟨fun _ _ => 0, fun _ => 0, fun _ => none, fun _ => none⟩

variable (c : Corpus)

def tally (op : Nat → Nat → Nat) (tokens : List String) (label : Label) : Corpus :=
  { c with
    counts := update c.counts label fun t => op (c.counts label t) (tokens.count t)
    totals := update c.totals label (op (c.totals label) 1) }

def train : List String → Label → Corpus := c.tally (· + ·)

def untrain : List String → Label → Corpus := c.tally (· - ·)

variable (stampId : String) (tokens : List String)

/-- What a label is taken back with. The tokens of a row from before the caps are not known. -/
def recordedSet : Except Error (List String) :=
  match c.labelMeta stampId with
  | some (cap, mode) =>
    if mode = "priority" then .ok (applyTokenCap tokens cap)
    else .error (.storage ("unknown label_meta cap_mode " ++ mode.quote))
  | none => .ok []

def setLabel (label : Option Label) (row : Option (Nat × String)) : Corpus :=
  { c with labels := update c.labels stampId label, labelMeta := update c.labelMeta stampId row }

def recordLabel (label : Label) (cap : Nat) : Except Error (Option Nat × Corpus) :=
  let currentSet := applyTokenCap tokens cap
  let trained := fun c : Corpus =>
    (some currentSet.length, (c.train currentSet label).setLabel stampId label (cap, "priority"))
  match c.labels stampId with
  | none => .ok (trained c)
  | some prior =>
    if prior = label then .ok (none, c)
    else do
      let priorSet ← c.recordedSet stampId tokens
      .ok (trained (c.untrain priorSet prior))

def forgetLabel : Except Error (Option Label × Corpus) :=
  match c.labels stampId with
  | none => .ok (none, c)
  | some prior => do
    let recordedSet ← c.recordedSet stampId tokens
    .ok (some prior, (c.untrain recordedSet prior).setLabel stampId none none)

end Corpus

inductive Call
  | recordLabel (stampId : String) (label : Label) (cap : Nat)
  | forgetLabel (stampId : String)
  | reset

def Call.stampId : Call → Option String
  | .recordLabel stampId _ _ | .forgetLabel stampId => stampId
  | .reset => none

section

variable (tokensOf : String → List String)

def Corpus.answer (c : Corpus) : Call → Except Error Corpus
  | .recordLabel stampId label cap => Prod.snd <$> c.recordLabel stampId (tokensOf stampId) label cap
  | .forgetLabel stampId => Prod.snd <$> c.forgetLabel stampId (tokensOf stampId)
  | .reset => .ok .empty

/-- One transaction. It is rolled back when the call fails or the database reports an error. -/
def Corpus.step (c : Corpus) (call : Call × Option Error) : Except Error Unit × Corpus :=
  match call.2, c.answer tokensOf call.1 with
  | some e, _ | none, .error e => (.error e, c)
  | none, .ok c' => (.ok (), c')

def run (calls : List (Call × Option Error)) : Corpus :=
  calls.foldl (fun c call => (c.step tokensOf call).2) .empty

/-- The tokens of a stamp, cut by the cap recorded for it. -/
def Corpus.trainedSet (c : Corpus) (s : String) : List String :=
  applyTokenCap (tokensOf s) (((c.labelMeta s).map Prod.fst).getD 0)

end

/-- What one message adds to the count of a token, or to the number of messages. -/
def weight (tokens : List String) : Option String → Nat
  | some t => tokens.count t
  | none => 1

def Corpus.amount (c : Corpus) (label : Label) : Option String → Nat
  | some t => c.counts label t
  | none => c.totals label

variable (tokensOf : String → List String)

def Corpus.share (c : Corpus) (label : Label) (k : Option String) (s : String) : Nat :=
  if c.labels s = some label then weight (c.trainedSet tokensOf s) k else 0

structure Balanced (tokensOf : String → List String) (stamps : Finset String) (c : Corpus) :
    Prop where
  known : ∀ s, c.labels s ≠ none → s ∈ stamps
  capped : ∀ s, c.labels s ≠ none → ∃ cap, c.labelMeta s = some (cap, "priority")
  amounts : ∀ label k, c.amount label k = ∑ s ∈ stamps, c.share tokensOf label k s

section

variable {tokensOf : String → List String} {stamps : Finset String} {c : Corpus} {s : String}
  {prior : Label}

theorem amount_tally (op : Nat → Nat → Nat) (tokens : List String) (l label : Label)
    (k : Option String) : (c.tally op tokens l).amount label k =
      if label = l then op (c.amount label k) (weight tokens k) else c.amount label k := by
  by_cases h : label = l
  · subst h
    cases k <;> simp [Corpus.tally, Corpus.amount, weight]
  · cases k <;> simp [Corpus.tally, Corpus.amount, h]

theorem share_setLabel (lab : Option Label) (row : Option (Nat × String)) (label : Label)
    (k : Option String) : (c.setLabel s lab row).share tokensOf label k s = if lab = some label then
        weight (applyTokenCap (tokensOf s) ((row.map Prod.fst).getD 0)) k else 0 := by
  simp [Corpus.share, Corpus.setLabel, Corpus.trainedSet]

theorem balanced_empty : Balanced tokensOf stamps .empty :=
  ⟨fun _ hs => absurd rfl hs, fun _ hs => absurd rfl hs, fun label k => by
    cases k <;> simp [Corpus.amount, Corpus.share, Corpus.empty]⟩

variable (h : Balanced tokensOf stamps c)
include h

/-- What a labelled stamp is taken back with has all been counted. -/
theorem Balanced.covers (hs : c.labels s = some prior) :
    c.recordedSet s (tokensOf s) = .ok (c.trainedSet tokensOf s) ∧
      ∀ k, weight (c.trainedSet tokensOf s) k ≤ c.amount prior k := by
  have hsome : c.labels s ≠ none := by simp [hs]
  obtain ⟨cap, hcap⟩ := h.capped s hsome
  refine ⟨by simp [Corpus.recordedSet, Corpus.trainedSet, hcap], fun k => ?_⟩
  have hle : c.share tokensOf prior k s ≤ ∑ x ∈ stamps, c.share tokensOf prior k x :=
    Finset.single_le_sum (fun _ _ => Nat.zero_le _) (h.known s hsome)
  rw [h.amounts]
  rwa [Corpus.share, if_pos hs] at hle

/-- Another row for one stamp, and counts that move by what the stamp has more or less. -/
theorem Balanced.setLabel (hs : s ∈ stamps) {op : Nat → Nat → Nat} {tokens : List String} {l : Label}
    {lab : Option Label} {row : Option (Nat × String)}
    (hrow : lab ≠ none → ∃ cap, row = some (cap, "priority"))
    (hamount : ∀ label k, (c.tally op tokens l).amount label k + c.share tokensOf label k s =
      c.amount label k + (c.setLabel s lab row).share tokensOf label k s) :
    Balanced tokensOf stamps ((c.tally op tokens l).setLabel s lab row) := by
  have hother : ∀ x ≠ s, (c.setLabel s lab row).labels x = c.labels x ∧
      (c.setLabel s lab row).labelMeta x = c.labelMeta x :=
    fun x hx => ⟨update_of_ne hx _ _, update_of_ne hx _ _⟩
  have hself : (c.setLabel s lab row).labels s = lab ∧ (c.setLabel s lab row).labelMeta s = row :=
    ⟨update_self _ _ _, update_self _ _ _⟩
  refine ⟨fun x hx => ?_, fun x hx => ?_, fun label k => ?_⟩
  · by_cases heq : x = s
    · rwa [heq]
    · exact h.known x ((hother x heq).1 ▸ hx)
  · by_cases heq : x = s
    · subst heq
      exact hself.2.symm ▸ hrow (hself.1 ▸ hx)
    · exact (hother x heq).2.symm ▸ h.capped x ((hother x heq).1 ▸ hx)
  · have hrest : ∑ x ∈ stamps.erase s, (c.setLabel s lab row).share tokensOf label k x =
        ∑ x ∈ stamps.erase s, c.share tokensOf label k x := by
      refine Finset.sum_congr rfl fun x hx => ?_
      have hx := hother x (Finset.ne_of_mem_erase hx)
      simp only [Corpus.share, Corpus.trainedSet, hx]
    have hold := h.amounts label k
    have hmove := hamount label k
    rw [← Finset.add_sum_erase _ _ hs] at hold
    change (c.tally op tokens l).amount label k =
      ∑ x ∈ stamps, (c.setLabel s lab row).share tokensOf label k x
    rw [← Finset.add_sum_erase _ _ hs, hrest]
    omega

theorem Balanced.forget (hs : c.labels s = some prior) : Balanced tokensOf stamps
    ((c.untrain (c.trainedSet tokensOf s) prior).setLabel s none none) := by
  refine h.setLabel (h.known s (by simp [hs])) (absurd rfl) fun label k => ?_
  have hcovers := (h.covers hs).2 k
  rw [amount_tally, share_setLabel, Corpus.share, hs]
  by_cases hlabel : label = prior
  · subst hlabel
    simpa using Nat.sub_add_cancel hcovers
  · simp [hlabel, Ne.symm hlabel]

theorem Balanced.record (hs : s ∈ stamps) (hnone : c.labels s = none) (label : Label) (cap : Nat) :
    Balanced tokensOf stamps
      ((c.train (applyTokenCap (tokensOf s) cap) label).setLabel s label (some (cap, "priority"))) := by
  refine h.setLabel hs (fun _ => ⟨cap, rfl⟩) fun label' k => ?_
  rw [amount_tally, share_setLabel, Corpus.share, hnone]
  by_cases hlabel : label' = label
  · simp [hlabel]
  · simp [hlabel, Ne.symm hlabel]

theorem Balanced.answer {call : Call} (hs : ∀ s ∈ call.stampId, s ∈ stamps) {c' : Corpus}
    (hok : c.answer tokensOf call = .ok c') : Balanced tokensOf stamps c' := by
  cases call with
  | recordLabel s label cap =>
    rw [Corpus.answer, Corpus.recordLabel] at hok
    cases hlabel : c.labels s with
    | none =>
      rw [hlabel] at hok
      cases hok
      exact h.record (hs s rfl) hlabel label cap
    | some prior =>
      rw [hlabel] at hok
      dsimp only at hok
      split at hok
      · cases hok
        exact h
      · rw [(h.covers hlabel).1] at hok
        cases hok
        -- as if the stamp had been forgotten first
        have hagain := (h.forget hlabel).record (hs s rfl) (update_self ..) label cap
        simpa only [Corpus.setLabel, Corpus.train, Corpus.tally, update_idem] using hagain
  | forgetLabel s =>
    rw [Corpus.answer, Corpus.forgetLabel] at hok
    cases hlabel : c.labels s with
    | none =>
      rw [hlabel] at hok
      cases hok
      exact h
    | some prior =>
      rw [hlabel] at hok
      dsimp only at hok
      rw [(h.covers hlabel).1] at hok
      cases hok
      exact h.forget hlabel
  | reset =>
    cases hok
    exact balanced_empty

theorem Balanced.step (call : Call × Option Error) (hs : ∀ s ∈ call.1.stampId, s ∈ stamps) :
    Balanced tokensOf stamps (c.step tokensOf call).2 := by
  rw [Corpus.step]
  split
  · exact h
  · exact h
  · next hok => exact h.answer hs hok

end

theorem balanced_run (calls : List (Call × Option Error)) :
    Balanced tokensOf (calls.filterMap fun call => call.1.stampId).toFinset (run tokensOf calls) := by
  refine List.foldlRecOn calls _ balanced_empty fun c h call hcall => h.step call fun s hs => ?_
  exact List.mem_toFinset.mpr (List.mem_filterMap.mpr ⟨call, hcall, hs⟩)

/-- After any calls the counts of a label are those of the stamps that carry it, under the recorded
caps; untraining subtracts no more than was counted. -/
theorem corpus_sums_labelled (calls : List (Call × Option Error)) :
    let c := run tokensOf calls
    let stamps := (calls.filterMap fun call => call.1.stampId).toFinset
    (∀ s, c.labels s ≠ none → s ∈ stamps) ∧
    (∀ label t, c.counts label t =
      ∑ s ∈ stamps with c.labels s = some label, (c.trainedSet tokensOf s).count t) ∧
    (∀ label, c.totals label = (stamps.filter fun s => c.labels s = some label).card) ∧
    (∀ s prior, c.labels s = some prior →
      c.recordedSet s (tokensOf s) = .ok (c.trainedSet tokensOf s) ∧
      (∀ t, (c.trainedSet tokensOf s).count t ≤ c.counts prior t) ∧ 1 ≤ c.totals prior) ∧
    ∀ call e, (c.step tokensOf call).1 = .error e → (c.step tokensOf call).2 = c := by
  have h := balanced_run tokensOf calls
  refine ⟨h.known, fun label t => ?_, fun label => ?_, fun s prior hs => ?_, fun call e he => ?_⟩
  · rw [Finset.sum_filter]
    exact h.amounts label (some t)
  · rw [Finset.card_eq_sum_ones, Finset.sum_filter]
    exact h.amounts label none
  · obtain ⟨hset, hcovers⟩ := h.covers hs
    exact ⟨hset, fun t => hcovers (some t), hcovers none⟩
  · rw [Corpus.step] at he ⊢
    split at he
    · rfl
    · rfl
    · cases he

end Cosmix.Maild.Bayesian
