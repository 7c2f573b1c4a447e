/- source: cosmix-lib-props-core/src/value.rs, cosmix-lib-props-store/src/record.rs, sqlite.rs
   digest: Values and paths as JSON text, and the SQLite store over them. -/

import Cosmix.Lib.JsonRoundTrip
import Cosmix.Props.Runtime

namespace Cosmix.Props

open Cosmix.Lib (Json)
open List

/-- How the store turns what it keeps into text and back. -/
structure JsonCodec where
  writeValue : PropValue → String
  readValue : String → Option PropValue
  writePath : List FieldPathSegment → String
  readPath : String → Option (List FieldPathSegment)
  writeNames : List String → String
  readNames : String → Option (List String)
  /-- What is said of a text that does not read. -/
  describe : String → String

/-- A value that its text gives back: no floats, unsigned only where signed will not do, members in
key order, bounded depth. -/
inductive Storable : Nat → PropValue → Prop
  | null (n : Nat) : Storable n .null
  | bool (n : Nat) (b : Bool) : Storable n (.bool b)
  | int (n : Nat) (i : Int64) : Storable n (.int i)
  | uint (n : Nat) (u : UInt64) (h : 2 ^ 63 ≤ u.toNat) : Storable n (.uint u)
  | string (n : Nat) (s : String) : Storable n (.string s)
  | list (n : Nat) (items : List PropValue) (h : ∀ v ∈ items, Storable n v) :
      Storable (n + 1) (.list items)
  | object (n : Nat) (fields : Fields) (ordered : fields.Pairwise fun f g => f.1 < g.1)
      (h : ∀ f ∈ fields, Storable n f.2) : Storable (n + 1) (.object fields)

def recursionLimit : Nat := 127

structure JsonCodec.Faithful (c : JsonCodec) : Prop where
  value : ∀ v, Storable recursionLimit v → c.readValue (c.writeValue v) = some v
  path : ∀ p, c.readPath (c.writePath p) = some p
  names : ∀ l, c.readNames (c.writeNames l) = some l

mutual

/-- The derived form of a value; that of a float is not given here. -/
def PropValue.toJson : PropValue → Option Json
  | .null => some .null
  | .bool b => some (.bool b)
  | .int n => some (.number n.toInt)
  | .uint n => some (.number n.toNat)
  | .float _ => none
  | .string s => some (.string s)
  | .list items => (itemsToJson items).map Json.array
  | .object fields => (fieldsToJson fields).map Json.object

def itemsToJson : List PropValue → Option (List Json)
  | [] => some []
  | v :: items => do
    let j ← v.toJson
    let js ← itemsToJson items
    some (j :: js)

def fieldsToJson : List (String × PropValue) → Option (List (String × Json))
  | [] => some []
  | (k, v) :: fields => do
    let j ← v.toJson
    let js ← fieldsToJson fields
    some ((k, j) :: js)

end

/-- The first kind of value that a JSON value can be read as. -/
def ofJsonCases : Json.Cases PropValue where
  null := .null
  bool := .bool
  number n := if n < 2 ^ 63 then .int (Int64.ofInt n) else .uint (UInt64.ofNat n.toNat)
  string := .string
  array := .list
  object members := .object (members.foldl (fun m f => Fields.insert m f.1 f.2) [])

def PropValue.ofJson : Json → PropValue := Json.fold ofJsonCases

def FieldPathSegment.toJson : FieldPathSegment → Json
  | .field s => .string s
  | .index i => .number i.toNat

def FieldPathSegment.ofJson : Json → Option FieldPathSegment
  | .string s => some (.field s)
  | .number n => if 0 ≤ n then some (.index (UInt64.ofNat n.toNat)) else none
  | _ => none

def nameOfJson : Json → Option String
  | .string s => some s
  | _ => none

def readItems {α : Type} (read : Json → Option α) (text : String) : Option (List α) :=
  match Json.parse recursionLimit text.toList with
  | some (.array items) => items.mapM read
  | _ => none

def writeItems {α : Type} (write : α → Json) (items : List α) : String :=
  String.ofList (Json.print (.array (items.map write)))

variable (writeFloats : PropValue → String) (readFloats : String → Option PropValue)

/-- The codec, given what becomes of values and texts with floats. -/
def serdeJson (describe : String → String) : JsonCodec where
  writeValue v :=
    match v.toJson with
    | some j => String.ofList (Json.print j)
    | none => writeFloats v
  readValue text :=
    match Json.parse recursionLimit text.toList with
    | some j => some (PropValue.ofJson j)
    | none => readFloats text
  writePath := writeItems FieldPathSegment.toJson
  readPath := readItems FieldPathSegment.ofJson
  writeNames := writeItems Json.string
  readNames := readItems nameOfJson
  describe := describe

variable {n : Nat} {m : Fields}

theorem foldr_max_le {l : List Nat} (h : ∀ a ∈ l, a ≤ n) : l.foldr max 0 ≤ n := by
  induction l with
  | nil => exact Nat.zero_le n
  | cons a l ih =>
    exact max_le (h a mem_cons_self) (ih fun b hb => h b (mem_cons_of_mem _ hb))

theorem mapM_map_some {α : Type} {write : α → Json} {read : Json → Option α}
    (h : ∀ a, read (write a) = some a) (items : List α) :
    (items.map write).mapM read = some items := by
  induction items with
  | nil => rfl
  | cons a items ih =>
    rw [map_cons, mapM_cons, h, ih]
    rfl

theorem readItems_writeItems {α : Type} {write : α → Json} {read : Json → Option α}
    (hread : ∀ a, read (write a) = some a) (hrange : ∀ a, (write a).InRange)
    (hdepth : ∀ a, (write a).depth = 0) (items : List α) :
    readItems read (writeItems write items) = some items := by
  have hin : (Json.array (items.map write)).InRange := by
    rw [Json.inRange_array]
    exact forall_mem_map.mpr fun a _ => hrange a
  have hdeep : (Json.array (items.map write)).depth ≤ recursionLimit := by
    rw [Json.depth_array]
    have hflat : ∀ d ∈ (items.map write).map Json.depth, d ≤ 0 :=
      forall_mem_map.mpr (forall_mem_map.mpr fun a _ => (hdepth a).le)
    exact (Nat.succ_le_succ (foldr_max_le hflat)).trans (by decide)
  rw [readItems, writeItems, String.toList_ofList, Json.parse_print hin hdeep]
  exact mapM_map_some hread items

theorem Fields.insert_last {k : String} (h : ∀ f ∈ m, f.1 < k) (v : PropValue) :
    m.insert k v = m ++ [(k, v)] := by
  induction m with
  | nil => rfl
  | cons f m ih =>
    obtain ⟨k', v'⟩ := f
    have hk : k' < k := h (k', v') mem_cons_self
    have hne : k ≠ k' := (ne_of_lt hk).symm
    rw [Fields.insert, if_neg hne, if_neg (lt_asymm hk),
      ih fun f hf => h f (mem_cons_of_mem _ hf), cons_append]

theorem Fields.foldl_insert {l : Fields} (h : (m ++ l).Pairwise fun f g => f.1 < g.1) :
    l.foldl (fun m f => Fields.insert m f.1 f.2) m = m ++ l := by
  induction l generalizing m with
  | nil => exact (append_nil m).symm
  | cons f l ih =>
    have hlast : ∀ g ∈ m, g.1 < f.1 := fun g hg =>
      (pairwise_append.mp h).2.2 g hg f mem_cons_self
    rw [foldl_cons, Fields.insert_last hlast, ih]
    · rw [append_assoc, singleton_append]
    · rwa [append_assoc]

/-- The JSON form of a value: in range, no deeper, and read back as the value. -/
def PropValue.Forms (n : Nat) (v : PropValue) (j : Json) : Prop :=
  v.toJson = some j ∧ j.InRange ∧ j.depth ≤ n ∧ PropValue.ofJson j = v

theorem itemsToJson_forms {items : List PropValue} (h : ∀ v ∈ items, ∃ j, v.Forms n j) :
    ∃ js, itemsToJson items = some js ∧ (∀ j ∈ js, j.InRange ∧ j.depth ≤ n) ∧
      js.map PropValue.ofJson = items := by
  induction items with
  | nil => exact ⟨[], rfl, nofun, rfl⟩
  | cons v items ih =>
    obtain ⟨j, hj, hin, hdeep, hback⟩ := h v mem_cons_self
    obtain ⟨js, hjs, hall, hmap⟩ := ih fun w hw => h w (mem_cons_of_mem _ hw)
    refine ⟨j :: js, ?_, forall_mem_cons.mpr ⟨⟨hin, hdeep⟩, hall⟩, ?_⟩
    · rw [itemsToJson, hj, hjs]
      rfl
    · rw [map_cons, hback, hmap]

theorem fieldsToJson_forms {fields : Fields} (h : ∀ f ∈ fields, ∃ j, f.2.Forms n j) :
    ∃ js, fieldsToJson fields = some js ∧ (∀ m ∈ js, m.2.InRange ∧ m.2.depth ≤ n) ∧
      js.map (fun m => (m.1, PropValue.ofJson m.2)) = fields := by
  induction fields with
  | nil => exact ⟨[], rfl, nofun, rfl⟩
  | cons f fields ih =>
    obtain ⟨k, v⟩ := f
    obtain ⟨j, hj, hin, hdeep, hback⟩ := h (k, v) mem_cons_self
    obtain ⟨js, hjs, hall, hmap⟩ := ih fun g hg => h g (mem_cons_of_mem _ hg)
    refine ⟨(k, j) :: js, ?_, forall_mem_cons.mpr ⟨⟨hin, hdeep⟩, hall⟩, ?_⟩
    · rw [fieldsToJson, hj, hjs]
      rfl
    · rw [map_cons, hback, hmap]

theorem Storable.forms {v : PropValue} (h : Storable n v) : ∃ j, v.Forms n j := by
  induction h with
  | null n => exact ⟨.null, rfl, trivial, Nat.zero_le n, rfl⟩
  | bool n b => exact ⟨.bool b, rfl, trivial, Nat.zero_le n, rfl⟩
  | string n s => exact ⟨.string s, rfl, trivial, Nat.zero_le n, rfl⟩
  | int n i =>
    have hlt : i.toInt < 2 ^ 63 := Int64.toInt_lt i
    have hle : -2 ^ 63 ≤ i.toInt := Int64.le_toInt i
    refine ⟨.number i.toInt, rfl, ?_, Nat.zero_le n, ?_⟩
    · constructor <;> omega
    · rw [PropValue.ofJson, Json.fold_number, ofJsonCases]
      dsimp only
      rw [if_pos hlt, Int64.ofInt_toInt]
  | uint n u =>
    have hlt : u.toNat < 2 ^ 64 := u.toNat_lt
    refine ⟨.number u.toNat, rfl, ?_, Nat.zero_le n, ?_⟩
    · constructor <;> omega
    · have hnlt : ¬(u.toNat : Int) < 2 ^ 63 := by omega
      rw [PropValue.ofJson, Json.fold_number, ofJsonCases]
      dsimp only
      rw [if_neg hnlt, Int.toNat_natCast, UInt64.ofNat_toNat]
  | list n items _ ih =>
    obtain ⟨js, hjs, hall, hmap⟩ := itemsToJson_forms ih
    refine ⟨.array js, ?_, ?_, ?_, ?_⟩
    · rw [PropValue.toJson, hjs]
      rfl
    · rw [Json.inRange_array]
      exact fun j hj => (hall j hj).1
    · rw [Json.depth_array]
      exact Nat.succ_le_succ (foldr_max_le (forall_mem_map.mpr fun j hj => (hall j hj).2))
    · exact (Json.fold_array ofJsonCases js).trans (congrArg PropValue.list hmap)
  | object n fields ordered _ ih =>
    obtain ⟨js, hjs, hall, hmap⟩ := fieldsToJson_forms ih
    refine ⟨.object js, ?_, ?_, ?_, ?_⟩
    · rw [PropValue.toJson, hjs]
      rfl
    · rw [Json.inRange_object]
      exact fun m hm => (hall m hm).1
    · rw [Json.depth_object]
      exact Nat.succ_le_succ (foldr_max_le (forall_mem_map.mpr fun m hm => (hall m hm).2))
    · have hfold : PropValue.ofJson (.object js) = .object ((js.map fun m =>
          (m.1, PropValue.ofJson m.2)).foldl (fun m f => Fields.insert m f.1 f.2) []) :=
        Json.fold_object ofJsonCases js
      have hsame : fields.foldl (fun m f => Fields.insert m f.1 f.2) [] = fields :=
        Fields.foldl_insert (m := []) ordered
      rw [hfold, hmap, hsame]

variable (p : FieldPathSegment)

theorem FieldPathSegment.ofJson_toJson : ofJson p.toJson = some p := by
  cases p with
  | field => rfl
  | index i =>
    have hpos : (0 : Int) ≤ i.toNat := Int.natCast_nonneg _
    simp only [toJson, ofJson, if_pos hpos, Int.toNat_natCast, UInt64.ofNat_toNat]

theorem FieldPathSegment.inRange_toJson : p.toJson.InRange := by
  cases p with
  | field => trivial
  | index i =>
    have hlt : i.toNat < 2 ^ 64 := i.toNat_lt
    constructor <;> omega

theorem FieldPathSegment.depth_toJson : p.toJson.depth = 0 := by
  cases p <;> rfl

theorem serdeJson_faithful (describe : String → String) :
    (serdeJson writeFloats readFloats describe).Faithful where
  value v hv := by
    obtain ⟨j, hj, hin, hdeep, hback⟩ := hv.forms
    simp only [serdeJson, hj, String.toList_ofList, Json.parse_print hin hdeep, hback]
  path := readItems_writeItems FieldPathSegment.ofJson_toJson FieldPathSegment.inRange_toJson
    FieldPathSegment.depth_toJson
  names := readItems_writeItems (fun _ => rfl) (fun _ => trivial) fun _ => rfl

theorem Fields.mem_insert {k : String} {v : PropValue} {f : String × PropValue}
    (h : f ∈ m.insert k v) : f = (k, v) ∨ f ∈ m := by
  induction m with
  | nil => exact .inl (mem_singleton.mp h)
  | cons g m ih =>
    unfold Fields.insert at h
    split at h
    · exact (mem_cons.mp h).imp_right (mem_cons_of_mem _)
    split at h
    · exact mem_cons.mp h
    · rcases mem_cons.mp h with rfl | h
      · exact .inr mem_cons_self
      · exact (ih h).imp_right (mem_cons_of_mem _)

theorem Fields.ordered_insert (h : m.Pairwise fun f g => f.1 < g.1) (k : String)
    (v : PropValue) : (m.insert k v).Pairwise fun f g => f.1 < g.1 := by
  induction m with
  | nil => exact pairwise_singleton _ _
  | cons g m ih =>
    obtain ⟨hhead, htail⟩ := pairwise_cons.mp h
    unfold Fields.insert
    split
    · next heq => exact pairwise_cons.mpr ⟨fun f hf => heq ▸ hhead f hf, htail⟩
    split
    · next hlt =>
      exact pairwise_cons.mpr
        ⟨forall_mem_cons.mpr ⟨hlt, fun f hf => hlt.trans (hhead f hf)⟩, h⟩
    · next hne hnlt =>
      refine pairwise_cons.mpr ⟨fun f hf => ?_, ih htail⟩
      rcases Fields.mem_insert hf with rfl | hf
      · exact lt_of_le_of_ne (not_lt.mp hnlt) (Ne.symm hne)
      · exact hhead f hf

theorem Storable.insertAll {o l : Fields} (ordered : o.Pairwise fun f g => f.1 < g.1)
    (ho : ∀ f ∈ o, Storable n f.2) (hl : ∀ f ∈ l, Storable n f.2) :
    (Fields.insertAll o l).Pairwise (fun f g => f.1 < g.1) ∧
      ∀ f ∈ Fields.insertAll o l, Storable n f.2 := by
  induction l with
  | nil => exact ⟨ordered, ho⟩
  | cons g l ih =>
    obtain ⟨hord, hall⟩ := ih fun f hf => hl f (mem_cons_of_mem _ hf)
    refine ⟨Fields.ordered_insert hord g.1 g.2, fun f hf => ?_⟩
    rcases Fields.mem_insert hf with rfl | hf
    · exact hl g mem_cons_self
    · exact hall f hf

theorem Storable.mergePatch {old new : PropValue} (ho : Storable n old)
    (hn : Storable n new) : Storable n (mergePatch old new) := by
  cases old with
  | object =>
    cases new with
    | object =>
      cases ho with
      | object n _ ordered ho =>
        cases hn with
        | object _ _ _ hf =>
          obtain ⟨hord, hall⟩ := Storable.insertAll ordered ho hf
          exact .object n _ hord hall
    | _ => exact hn
  | _ => cases new <;> exact hn

/-- A counter as a signed column. -/
def toColumn (n : Nat) : Int64 := Int64.ofNat n

def ofColumn (i : Int64) : Nat := i.toUInt64.toNat

def lifecycleToCols : Option Lifecycle → Option String × Option String
  | none => (none, none)
  | some .provisioning => (some "provisioning", none)
  | some .active => (some "active", none)
  | some (.failed reason) => (some "failed", some reason)

def lifecycleFromCols (texts : TextTables) (kind reason : Option String) :
    Except StoreError (Option Lifecycle) :=
  match kind with
  | none => .ok none
  | some k =>
    if k = "provisioning" then .ok (some .provisioning)
    else if k = "active" then .ok (some .active)
    else if k = "failed" then .ok (some (.failed (reason.getD "")))
    else .error (.storage ("unknown lifecycle_kind " ++ texts.debug k ++ " in __props_records"))

def kindToStr : EventKind → String
  | .created => "created"
  | .updated => "updated"
  | .deleted => "deleted"
  | .completed => "completed"
  | .reconciled => "reconciled"

def kindFromStr (texts : TextTables) (s : String) : Except StoreError EventKind :=
  if s = "created" then .ok .created
  else if s = "updated" then .ok .updated
  else if s = "deleted" then .ok .deleted
  else if s = "completed" then .ok .completed
  else if s = "reconciled" then .ok .reconciled
  else .error (.storage ("unknown event kind " ++ texts.debug s))

structure MetaCols where
  (version nseq : Int64)
  (lifecycleKind lifecycleReason : Option String)
  tombstoned : Int64

structure MetaRow where
  (version nseq : Nat)
  lifecycle : Option Lifecycle
  tombstoned : Bool

structure EventRow where
  (nseq version auditEpoch : Int64)
  (kind verb key fieldPath : String)
  (lifecycleKind lifecycleReason : Option String)
  (actor fieldsChanged : String)
  secretFieldsChangedCount : Int64
  atMs : Int
  cause : Option String
  auditDigest : String

/-- The rows of one registered namespace. -/
structure NamespaceTables where
  (nseq auditEpoch : Int64)
  records : Std.ExtTreeMap String MetaCols compare
  values : Std.ExtTreeMap String String compare
  events : List EventRow

protected def NamespaceTables.new : NamespaceTables := ⟨0, 0, ∅, ∅, []⟩

structure SqliteStore where
  service : String
  computeDigest : NamespaceName → PropValue → Nat → String
  codec : JsonCodec
  texts : TextTables
  tables : NamespaceName → Option NamespaceTables

namespace SqliteStore

protected def new (service : String) (computeDigest : NamespaceName → PropValue → Nat → String)
    (codec : JsonCodec) (texts : TextTables) : SqliteStore :=
  ⟨service, computeDigest, codec, texts, fun _ => none⟩

def put (s : SqliteStore) (ns : NamespaceName) (t : NamespaceTables) : SqliteStore :=
  { s with tables := Function.update s.tables ns (some t) }

/-- Registers a namespace for hard deletes and the JSON mapping. One that has rows keeps them. -/
def registerNamespace (s : SqliteStore) (ns : NamespaceName) : SqliteStore :=
  match s.tables ns with
  | some _ => s
  | none => s.put ns .new

variable (s : SqliteStore)

def readText (text : String) : Except StoreError PropValue :=
  match s.codec.readValue text with
  | some v => .ok v
  | none => .error (.storage (s.codec.describe text))

variable (t : NamespaceTables) (key : String)

def mappingRead : Except StoreError (Option PropValue) :=
  match t.values[key]? with
  | none => .ok none
  | some text => (s.readText text).map some

def mappingList : Except StoreError (List (String × PropValue)) :=
  t.values.toList.mapM fun row => (s.readText row.2).map fun v => (row.1, v)

def mappingUpsert (v : PropValue) : NamespaceTables :=
  { t with values := t.values.insert key (s.codec.writeValue v) }

def mappingDelete : NamespaceTables :=
  { t with values := t.values.erase key }

def readMeta : Except StoreError (Option MetaRow) :=
  match t.records[key]? with
  | none => .ok none
  | some c => do
    let lifecycle ← lifecycleFromCols s.texts c.lifecycleKind c.lifecycleReason
    .ok (some ⟨ofColumn c.version, ofColumn c.nseq, lifecycle, c.tombstoned != 0⟩)

def metaCols (version nseq : Nat) (lifecycle : Option Lifecycle) (tombstoned : Bool) : MetaCols where
  version := toColumn version
  nseq := toColumn nseq
  lifecycleKind := (lifecycleToCols lifecycle).1
  lifecycleReason := (lifecycleToCols lifecycle).2
  tombstoned := if tombstoned then 1 else 0

def upsertRecordMeta (version nseq : Nat)
    (lifecycle : Option Lifecycle) (tombstoned : Bool) : NamespaceTables :=
  { t with records := t.records.insert key (metaCols version nseq lifecycle tombstoned) }

def bumpNsNseq (nseq : Nat) : NamespaceTables :=
  { t with nseq := toColumn nseq }

def eventRow (e : RecordEvent) : EventRow where
  nseq := toColumn e.nseq
  version := toColumn e.version
  auditEpoch := toColumn e.auditEpoch
  kind := kindToStr e.kind
  verb := e.verb
  key := e.key.key
  fieldPath := s.codec.writePath e.key.fieldPath
  lifecycleKind := (lifecycleToCols e.lifecycle).1
  lifecycleReason := (lifecycleToCols e.lifecycle).2
  actor := e.actor.token
  fieldsChanged := s.codec.writeNames e.fieldsChanged
  secretFieldsChangedCount := toColumn e.secretFieldsChangedCount
  atMs := e.atMs
  cause := e.cause
  auditDigest := e.auditDigest

/-- The number of an event is unique in its namespace. -/
def insertEvent (e : RecordEvent) : Except StoreError NamespaceTables :=
  let row := s.eventRow e
  if t.events.any fun r => r.nseq == row.nseq then
    .error (.storage "UNIQUE constraint failed: __props_events.namespace, __props_events.nseq")
  else .ok { t with events := t.events ++ [row] }

/-! Calls. Each runs in one transaction: a failure leaves every table as it was. -/

def transaction {α : Type} (ns : NamespaceName)
    (body : NamespaceTables → Except StoreError (α × NamespaceTables)) :
    Except StoreError α × SqliteStore :=
  match s.tables ns with
  | none => (.error (.storage "namespace not registered"), s)
  | some t =>
    match body t with
    | .error e => (.error e, s)
    | .ok (a, t) => (.ok a, s.put ns t)

def checkVersion (expected : Option Nat) (current : Nat) : Except StoreError Unit :=
  match expected with
  | none => .ok ()
  | some e => if e ≠ current then .error (.versionMismatch e current) else .ok ()

def get (key : RecordKey) : Except StoreError (Snapshot Record) :=
  match s.tables key.ns with
  | none => .error (.storage "namespace not registered")
  | some t =>
    match t.records[key.key]? with
    | none => .error .notFound
    | some c =>
      if c.tombstoned != 0 then .error .notFound
      else do
        let lifecycle ← lifecycleFromCols s.texts c.lifecycleKind c.lifecycleReason
        match ← s.mappingRead t key.key with
        | none => .error (.storage ("mapping/record divergence: __props_records has row for " ++
            s.texts.debug key.key ++ " but mapping has none"))
        | some value =>
          .ok ⟨⟨key, value, ofColumn c.version, ofColumn c.nseq, lifecycle⟩, ofColumn t.nseq⟩

variable (ns : NamespaceName)

def listed (values : List (String × PropValue)) (row : String × MetaCols) :
    Except StoreError Record :=
  match values.lookup row.1 with
  | none => .error (.storage ("mapping/record divergence: missing value for " ++
      s.texts.debug row.1))
  | some value => do
    let lifecycle ← lifecycleFromCols s.texts row.2.lifecycleKind row.2.lifecycleReason
    .ok ⟨⟨ns, row.1, []⟩, value, ofColumn row.2.version, ofColumn row.2.nseq, lifecycle⟩

def list : Except StoreError (Snapshot (List Record)) :=
  match s.tables ns with
  | none => .error (.storage "namespace not registered")
  | some t => do
    let values ← s.mappingList t
    let rows := t.records.toList.filter fun row => row.2.tombstoned == 0
    let records ← rows.mapM (s.listed ns values)
    .ok ⟨records, ofColumn t.nseq⟩

/-- The value before a set: a live row has one in the mapping, and any other row has none. -/
def priorValue (live : Bool) : Except StoreError (Option PropValue) :=
  if live then do
    match ← s.mappingRead t key with
    | some v => .ok (some v)
    | none => .error (.storage ("mapping/record divergence: __props_records has live row for " ++
        s.texts.debug key ++ " but mapping has none"))
  else do
    match ← s.mappingRead t key with
    | some _ => .error (.storage ("mapping/record divergence: mapping holds a value for " ++
        s.texts.debug key ++ " but __props_records has no live row (route external pre-population " ++
        "through commit_reconcile)"))
    | none => .ok none

def setBody (op : SetCommit) (t : NamespaceTables) :
    Except StoreError ((Record × RecordEvent) × NamespaceTables) := do
  let row ← s.readMeta t op.key.key
  let prevVersion := (row.map MetaRow.version).getD 0
  let live := row.isSome && !(row.map MetaRow.tombstoned).getD false
  checkVersion op.expectedVersion prevVersion
  let prior ← s.priorValue t op.key.key live
  let finalValue := match op.merge, prior with
    | .replace, _ => op.newValue
    | .patch, none => op.newValue
    | .patch, some v => mergePatch v op.newValue
  let newVersion := prevVersion + 1
  let newNseq := ofColumn t.nseq + 1
  let kind := if live then EventKind.updated else EventKind.created
  let event : RecordEvent :=
    { nseq := newNseq
      version := newVersion
      auditEpoch := ofColumn t.auditEpoch
      kind := kind
      verb := kind.verbFor s.service
      key := op.key
      lifecycle := op.lifecycle
      actor := op.actor
      fieldsChanged := changedTopLevelFields prior finalValue
      secretFieldsChangedCount := 0
      atMs := tsToDt op.tsMs
      cause := op.cause
      auditDigest := s.computeDigest op.key.ns finalValue newNseq }
  let t := s.mappingUpsert t op.key.key finalValue
  let t := upsertRecordMeta t op.key.key newVersion newNseq op.lifecycle false
  let t := bumpNsNseq t newNseq
  let t ← s.insertEvent t event
  .ok ((⟨op.key, finalValue, newVersion, newNseq, op.lifecycle⟩, event), t)

def commitSet (op : SetCommit) : Except StoreError (Record × RecordEvent) × SqliteStore :=
  if !op.key.isWholeRecord then
    (.error (.validation "commit_set requires record-root key (empty field_path)"), s)
  else if MemoryStore.reserved op.newValue then
    (.error (.validation ("field \"" ++ lifecycleField ++ "\" is substrate-reserved (§6.5)")), s)
  else s.transaction op.key.ns (s.setBody op)

def deleteBody (op : DeleteCommit) (t : NamespaceTables) :
    Except StoreError (RecordEvent × NamespaceTables) := do
  match ← s.readMeta t op.key.key with
  | none => .error .notFound
  | some row =>
    if row.tombstoned then .error .notFound
    else
      checkVersion op.expectedVersion row.version
      let newNseq := ofColumn t.nseq + 1
      let tombstoneVersion := row.version + 1
      match ← s.mappingRead t op.key.key with
      | none => .error (.storage ("mapping/record divergence: __props_records has live row for " ++
          s.texts.debug op.key.key ++ " but mapping has none"))
      | some _ =>
        let event : RecordEvent :=
          { nseq := newNseq
            version := tombstoneVersion
            auditEpoch := ofColumn t.auditEpoch
            kind := .deleted
            verb := EventKind.deleted.verbFor s.service
            key := op.key
            lifecycle := none
            actor := op.actor
            fieldsChanged := []
            secretFieldsChangedCount := 0
            atMs := tsToDt op.tsMs
            cause := op.cause
            auditDigest := s.computeDigest op.key.ns MemoryStore.tombstoneValue newNseq }
        let t := mappingDelete t op.key.key
        let t := { t with records := t.records.erase op.key.key }
        let t := bumpNsNseq t newNseq
        let t ← s.insertEvent t event
        .ok (event, t)

def commitDelete (op : DeleteCommit) : Except StoreError RecordEvent × SqliteStore :=
  if !op.key.isWholeRecord then
    (.error (.validation "commit_delete requires record-root key (empty field_path)"), s)
  else s.transaction op.key.ns (s.deleteBody op)

def completeBody (op : CompleteCommit) (t : NamespaceTables) :
    Except StoreError ((Record × RecordEvent) × NamespaceTables) := do
  match ← s.readMeta t op.key.key with
  | none => .error .notFound
  | some row =>
    if row.tombstoned then .error .notFound
    else if row.version ≠ op.expectedVersion then
      .error (.versionMismatch op.expectedVersion row.version)
    else if row.lifecycle ≠ some .provisioning then
      .error (.validation "commit_complete requires record.lifecycle = Provisioning")
    else if op.lifecycle = .provisioning then
      .error (.validation "commit_complete target lifecycle MUST be Active or Failed")
    else
      let newVersion := row.version + 1
      let newNseq := ofColumn t.nseq + 1
      let t := upsertRecordMeta t op.key.key newVersion newNseq (some op.lifecycle) false
      let t := bumpNsNseq t newNseq
      match ← s.mappingRead t op.key.key with
      | none => .error (.storage "mapping/record divergence in commit_complete")
      | some value =>
        let event : RecordEvent :=
          { nseq := newNseq
            version := newVersion
            auditEpoch := ofColumn t.auditEpoch
            kind := .completed
            verb := EventKind.completed.verbFor s.service
            key := op.key
            lifecycle := some op.lifecycle
            actor := op.actor
            fieldsChanged := [lifecycleField]
            secretFieldsChangedCount := 0
            atMs := tsToDt op.tsMs
            cause := op.cause
            auditDigest := s.computeDigest op.key.ns value newNseq }
        let t ← s.insertEvent t event
        .ok ((⟨op.key, value, newVersion, newNseq, some op.lifecycle⟩, event), t)

def commitComplete (op : CompleteCommit) : Except StoreError (Record × RecordEvent) × SqliteStore :=
  s.transaction op.key.ns (s.completeBody op)

def decodeEvent (row : EventRow) : Except StoreError RecordEvent :=
  match s.codec.readPath row.fieldPath with
  | none => .error (.storage ("field_path decode: " ++ s.codec.describe row.fieldPath))
  | some fieldPath =>
    match s.codec.readNames row.fieldsChanged with
    | none => .error (.storage ("fields_changed decode: " ++ s.codec.describe row.fieldsChanged))
    | some fieldsChanged => do
      let kind ← kindFromStr s.texts row.kind
      let lifecycle ← lifecycleFromCols s.texts row.lifecycleKind row.lifecycleReason
      match Actor.new row.actor with
      | .error e => .error (.storage ("actor decode: " ++ e.display s.texts))
      | .ok actor =>
        .ok
          { nseq := ofColumn row.nseq
            version := ofColumn row.version
            auditEpoch := ofColumn row.auditEpoch
            kind := kind
            verb := row.verb
            key := ⟨ns, row.key, fieldPath⟩
            lifecycle := lifecycle
            actor := actor
            fieldsChanged := fieldsChanged
            secretFieldsChangedCount := ofColumn row.secretFieldsChangedCount % 2 ^ 32
            atMs := tsToDt row.atMs
            cause := row.cause
            auditDigest := row.auditDigest }

def byNseq (a b : EventRow) : Prop := a.nseq ≤ b.nseq

instance : DecidableRel byNseq := fun a b => inferInstanceAs (Decidable (a.nseq ≤ b.nseq))

/-- The numbers are compared as signed columns. A namespace that is not registered has no events. -/
def eventsSince (sinceNseq : Nat) : Except StoreError (List RecordEvent) :=
  match s.tables ns with
  | none => .ok []
  | some t =>
    let rows := t.events.filter fun row => toColumn sinceNseq < row.nseq
    (rows.insertionSort byNseq).mapM (s.decodeEvent ns)

end SqliteStore

end Cosmix.Props
