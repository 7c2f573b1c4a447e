/- source: cosmix-lib-props-core/src/tree.rs, redact.rs
   digest: Redaction shows nothing of a sensitive value but its shape. -/

import Cosmix.Props.Value

namespace Cosmix.Props

open List

mutual

/-- A value with each scalar replaced. -/
def mapScalars (f : PropValue → PropValue) : PropValue → PropValue
  | .list items => .list (mapItems f items)
  | .object m => .object (mapMembers f m)
  | v => f v

def mapItems (f : PropValue → PropValue) : List PropValue → List PropValue
  | [] => []
  | v :: items => mapScalars f v :: mapItems f items

def mapMembers (f : PropValue → PropValue) : List (String × PropValue) → List (String × PropValue)
  | [] => []
  | (k, v) :: m => (k, mapScalars f v) :: mapMembers f m

end

def redactScalar : PropValue → PropValue
  | .string _ => .string "***"
  | _ => .null

def redact : PropValue → PropValue := mapScalars redactScalar

def Fields.modify (m : Fields) (k : String) (f : PropValue → PropValue) : Fields :=
  m.map fun a => (a.1, if a.1 = k then f a.2 else a.2)

def redactAtSegs : List String → PropValue → PropValue
  | head :: rest, .object m =>
    .object (Fields.modify m head (if rest.isEmpty then redact else redactAtSegs rest))
  | _, node => node

/-- A description, as far as redaction reads it. -/
structure PropDescribe where
  sensitive : Bool

structure PropTree where
  snapshot : PropValue
  list : List PropPath
  describe : PropPath → Option PropDescribe

namespace PropTree

def hides (t : PropTree) (path : PropPath) : Bool := (t.describe path).any PropDescribe.sensitive

def redactedSnapshot (t : PropTree) : PropValue :=
  t.list.foldl (fun snap path => if t.hides path then redactAtSegs path.segments snap else snap)
    t.snapshot

end PropTree

def scalarKind : PropValue → PropValue
  | .bool _ => .bool false
  | .int _ => .int 0
  | .uint _ => .uint 0
  | .float _ => .float 0
  | .string _ => .string ""
  | v => v

/-- What is left of a value without its scalars: nesting, keys and kinds. -/
def kinds : PropValue → PropValue := mapScalars scalarKind

mutual

/-- The values are equal except at or below the hidden places, where their kinds are. -/
inductive Alike : (List String → Prop) → PropValue → PropValue → Prop
  | hidden {hidden : List String → Prop} {v w : PropValue} :
    hidden [] → kinds v = kinds w → Alike hidden v w
  | same {hidden : List String → Prop} {v : PropValue} : Alike hidden v v
  | object {hidden : List String → Prop} {m n : Fields} :
    AlikeMembers hidden m n → Alike hidden (.object m) (.object n)

inductive AlikeMembers : (List String → Prop) → Fields → Fields → Prop
  | nil {hidden : List String → Prop} : AlikeMembers hidden [] []
  | cons {hidden : List String → Prop} {k : String} {v w : PropValue} {m n : Fields} :
    Alike (fun rest => hidden (k :: rest)) v w → AlikeMembers hidden m n →
      AlikeMembers hidden ((k, v) :: m) ((k, w) :: n)

end

mutual

theorem redact_kinds : ∀ v : PropValue, redact (kinds v) = redact v
  | .list items => congrArg PropValue.list (redactItems_kinds items)
  | .object m => congrArg PropValue.object (redactMembers_kinds m)
  | .null | .bool _ | .int _ | .uint _ | .float _ | .string _ => rfl

theorem redactItems_kinds : ∀ items : List PropValue,
    mapItems redactScalar (mapItems scalarKind items) = mapItems redactScalar items
  | [] => rfl
  | v :: items => congrArg₂ cons (redact_kinds v) (redactItems_kinds items)

theorem redactMembers_kinds : ∀ m : List (String × PropValue),
    mapMembers redactScalar (mapMembers scalarKind m) = mapMembers redactScalar m
  | [] => rfl
  | (k, v) :: m => congrArg₂ (fun v m => (k, v) :: m) (redact_kinds v) (redactMembers_kinds m)

end

theorem redact_eq_of_kinds {v w : PropValue} (h : kinds v = kinds w) : redact v = redact w := by
  rw [← redact_kinds v, h, redact_kinds]

variable {f : PropValue → PropValue}

theorem mapMembers_modify
    (hf : ∀ {v w}, kinds v = kinds w → kinds (f v) = kinds (f w)) (k : String) :
    ∀ {m n : Fields}, mapMembers scalarKind m = mapMembers scalarKind n →
      mapMembers scalarKind (m.modify k f) = mapMembers scalarKind (n.modify k f)
  | [], [], _ => rfl
  | (j, v) :: m, (j', w) :: n, h => by
    obtain ⟨hhead, hm⟩ := cons.inj h
    obtain ⟨rfl, hv⟩ := Prod.mk.inj hhead
    simp only [Fields.modify, map_cons, mapMembers]
    refine cons_eq_cons.mpr ⟨congrArg (Prod.mk j) ?_, mapMembers_modify hf k hm⟩
    split
    · exact hf hv
    · exact hv

theorem kinds_redactAtSegs (p : List String) {v w : PropValue} (h : kinds v = kinds w) :
    kinds (redactAtSegs p v) = kinds (redactAtSegs p w) := by
  induction p generalizing v w with
  | nil => exact h
  | cons k p ih =>
    cases v <;> cases w
    case object.object m n =>
      refine congrArg PropValue.object (mapMembers_modify ?_ k (PropValue.object.inj h))
      intro v w h
      split
      · rw [redact_eq_of_kinds h]
      · exact ih h
    all_goals first | exact h | cases h

mutual

theorem Alike.kinds_eq {hidden : List String → Prop} {v w : PropValue} :
    Alike hidden v w → kinds v = kinds w
  | .hidden _ h => h
  | .same => rfl
  | .object h => congrArg PropValue.object h.kinds_eq

theorem AlikeMembers.kinds_eq {hidden : List String → Prop} {m n : Fields} :
    AlikeMembers hidden m n → mapMembers scalarKind m = mapMembers scalarKind n
  | .nil => rfl
  | .cons hv hm => congrArg₂ (fun v m => (_, v) :: m) hv.kinds_eq hm.kinds_eq

end

mutual

theorem Alike.eq {v w : PropValue} : Alike (fun _ => False) v w → v = w
  | .same => rfl
  | .object h => congrArg PropValue.object h.eq

theorem AlikeMembers.eq {m n : Fields} : AlikeMembers (fun _ => False) m n → m = n
  | .nil => rfl
  | .cons hv hm => congrArg₂ (fun v m => (_, v) :: m) hv.eq hm.eq

end

variable {hidden : List String → Prop}

theorem AlikeMembers.modify {k : String} {p : List String}
    (hf : ∀ {v w}, Alike (fun q => q = p ∨ hidden (k :: q)) v w →
      Alike (fun q => hidden (k :: q)) (f v) (f w)) {m n : Fields} :
    AlikeMembers (fun q => q = k :: p ∨ hidden q) m n →
      AlikeMembers hidden (m.modify k f) (n.modify k f)
  | .nil => .nil
  | .cons (k := j) hv hm => by
    simp only [Fields.modify, map_cons]
    by_cases hjk : j = k
    · subst hjk
      rw [if_pos rfl, if_pos rfl]
      exact .cons (hf (by simpa using hv)) (modify hf hm)
    · rw [if_neg hjk, if_neg hjk]
      exact .cons (by simpa [hjk] using hv) (modify hf hm)

/-- Redacting at one of the hidden places brings what it hides in line. -/
theorem Alike.redactAtSegs {v w : PropValue} {p : List String}
    (hp : p ≠ []) (h : Alike (fun q => q = p ∨ hidden q) v w) :
    Alike hidden (redactAtSegs p v) (redactAtSegs p w) := by
  induction p generalizing hidden v w with
  | nil => exact absurd rfl hp
  | cons k p ih =>
    cases h with
    | hidden hh hk => exact .hidden (hh.resolve_left nofun) (kinds_redactAtSegs _ hk)
    | same => exact .same
    | object h =>
      refine .object (AlikeMembers.modify ?_ h)
      intro v w hvw
      split
      · rw [redact_eq_of_kinds hvw.kinds_eq]
        exact .same
      · next hne => exact ih (mt List.isEmpty_iff.mpr hne) hvw

theorem Fields.get_modify (m : Fields) (k j : String) (f : PropValue → PropValue) :
    (m.modify k f).get j = if j = k then (m.get j).map f else m.get j := by
  induction m with
  | nil => simp [modify, get]
  | cons a m ih =>
    rw [modify, map_cons, get_cons, get_cons, ← modify, ih]
    by_cases hja : j = a.1
    · rw [if_pos hja, if_pos hja, ← hja]
      split <;> rfl
    · rw [if_neg hja, if_neg hja]

/-- Redaction at a path leaves a value that is neither at or below it nor an object above it. -/
theorem getAt_redactAtSegs {p q : List String} (hpq : ¬ p <+: q) {v : PropValue}
    (hqp : ¬ q <+: p ∨ ∃ w, getAt v q = some w ∧ ∀ m, w ≠ .object m) :
    getAt (redactAtSegs p v) q = getAt v q := by
  induction p generalizing q v with
  | nil => exact absurd nil_prefix hpq
  | cons k p ih =>
    cases v
    case object m =>
      cases q with
      | nil =>
        obtain hqp | ⟨w, hw, hobj⟩ := hqp
        · exact absurd nil_prefix hqp
        · cases hw
          exact absurd rfl (hobj m)
      | cons j =>
        rw [redactAtSegs, getAt, getAt, Fields.get_modify]
        split
        · next hjk =>
          subst hjk
          cases hget : Fields.get m j with
          | none => rfl
          | some =>
            have hne : p ≠ [] := fun hp => hpq (hp ▸ cons_prefix_cons.mpr ⟨rfl, nil_prefix⟩)
            rw [if_neg (mt List.isEmpty_iff.mp hne)]
            refine ih (mt (prefix_cons_inj j).mpr hpq) ?_
            rw [getAt, hget, prefix_cons_inj] at hqp
            exact hqp
        · rfl
    all_goals rfl

namespace PropTree

/-- The segments of a path that is listed and described as sensitive. -/
def Sensitive (t : PropTree) (q : List String) : Prop := ∃ p ∈ t.list, t.hides p ∧ q = p.segments

section

variable {hides : PropPath → Bool} {paths : List PropPath} {v w : PropValue}

theorem foldl_eq (h : Alike (fun q => ∃ p ∈ paths, hides p ∧ q = p.segments) v w) :
    paths.foldl (fun snap path => if hides path then redactAtSegs path.segments snap else snap) v =
      paths.foldl (fun snap path => if hides path then redactAtSegs path.segments snap else snap) w := by
  induction paths generalizing v w with
  | nil => exact Alike.eq (by simpa using h)
  | cons p paths ih =>
    rw [foldl_cons, foldl_cons]
    cases hp : hides p with
    | true => exact ih (Alike.redactAtSegs p.segments_ne_nil (by simpa [hp] using h))
    | false => exact ih (by simpa [hp] using h)

theorem getAt_foldl {q : List String} (hbelow : ∀ p ∈ paths, hides p → ¬ p.segments <+: q)
    (habove : (∀ p ∈ paths, hides p → ¬ q <+: p.segments) ∨
      ∃ w, getAt v q = some w ∧ ∀ m, w ≠ .object m) : getAt (paths.foldl (fun snap path =>
      if hides path then redactAtSegs path.segments snap else snap) v) q = getAt v q := by
  induction paths generalizing v with
  | nil => rfl
  | cons p paths ih =>
    have hstep : getAt (if hides p then redactAtSegs p.segments v else v) q = getAt v q := by
      split
      · next hp =>
        exact getAt_redactAtSegs (hbelow p (.head _) hp) (habove.imp_left fun h => h p (.head _) hp)
      · rfl
    rw [foldl_cons, ih (fun p' hp' => hbelow p' (.tail _ hp')), hstep]
    rw [hstep]
    exact habove.imp_left fun h p' hp' => h p' (.tail _ hp')

end

/-- Trees that differ in sensitive scalars only redact alike, and what is not sensitive stays. -/
theorem redaction_hides (t t' : PropTree) (hlist : t'.list = t.list)
    (hdescribe : ∀ p ∈ t.list, t'.describe p = t.describe p)
    (halike : Alike t.Sensitive t.snapshot t'.snapshot) : t'.redactedSnapshot = t.redactedSnapshot ∧
      ∀ q, (∀ p, t.Sensitive p → ¬ p <+: q) → (∀ p, t.Sensitive p → ¬ q <+: p) ∨
          (∃ v, getAt t.snapshot q = some v ∧ ∀ m, v ≠ .object m) →
        getAt t.redactedSnapshot q = getAt t.snapshot q := by
  constructor
  · rw [redactedSnapshot, hlist, redactedSnapshot, foldl_eq halike]
    refine foldl_ext _ _ _ fun snap p hp => ?_
    rw [hides, hides, hdescribe p hp]
  · intro q hbelow habove
    refine getAt_foldl (fun p hp hh => hbelow _ ⟨p, hp, hh, rfl⟩) ?_
    exact habove.imp_left fun h p hp hh => h _ ⟨p, hp, hh, rfl⟩

private theorem check_ab : PropPath.check "a.b" = none := by decide +kernel

private def hiddenPath : PropPath := ⟨"a.b", check_ab⟩

private def token (secret : String) : PropTree :=
  ⟨.object [("a", .object [("b", .string secret)])], [hiddenPath], fun _ => some ⟨true⟩⟩

theorem redaction_hides_token : (token "x").redactedSnapshot = (token "y").redactedSnapshot := by
  refine (redaction_hides (token "y") (token "x") rfl (fun _ _ => rfl) ?_).1
  exact .object (.cons (.object (.cons (.hidden ⟨hiddenPath, .head _, rfl, rfl⟩ rfl) .nil)) .nil)

end PropTree

end Cosmix.Props
