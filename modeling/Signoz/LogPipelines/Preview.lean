import Mathlib.Data.List.AList
import Signoz.Lib.CharLists

/-!
# The logs of a pipeline preview

`SignozLogsToPLogs` and `PLogsToSignozLogs` of `preview.go` carry log records into the simulated
collector and back. The id of a log record travels as an attribute. Trace and span ids are copied as
text into the bytes of an id, and come back as the hex digits of these bytes: a digit comes back as
two. Boolean attributes stay behind.

The log data model of the collector is a parameter: values, maps of values, and the text of an id.
-/

namespace Signoz.LogPipelines

open scoped Lib.CharLists

/-! ## Log records -/

/-- A map with its entries in the order in which they are ranged over. -/
abbrev GoMap (α : Type) := AList fun _ : String => α

/-- `model.SignozLog`, with floating point numbers in `F`. -/
structure SignozLog (F : Type) where
  timestamp : UInt64
  id : String
  traceID : String
  spanID : String
  traceFlags : UInt32
  severityText : String
  severityNumber : UInt8
  body : String
  resourcesString : GoMap String
  attributesString : GoMap String
  attributesInt64 : GoMap Int64
  attributesFloat64 : GoMap F
  attributesBool : GoMap Bool

/-- `pcommon.ValueType`. -/
inductive ValueType where
  | empty
  | str
  | bool
  | int
  | double
  | map
  | slice
  | bytes
deriving DecidableEq

/-- What the conversions use of the collector's log data model, with values in `V` and maps of
values in `M`. -/
structure Pdata (F V M : Type) where
  strValue : String → V
  intValue : Int64 → V
  doubleValue : F → V
  valueType : V → ValueType
  str : V → String
  int : V → Int64
  double : V → F
  asString : V → String
  newMap : M
  put : M → String → V → M
  get : M → String → Option V
  remove : M → String → M
  range : M → List (String × V)
  traceIDString : Vector UInt8 16 → String
  spanIDString : Vector UInt8 8 → String
  /-- Of the instant that lies some nanoseconds behind the start of 1970. -/
  newTimestampFromTime : Int64 → UInt64

/-- `plog.LogRecord`. -/
structure PLogRecord (V M : Type) where
  timestamp : UInt64
  traceID : Vector UInt8 16
  spanID : Vector UInt8 8
  flags : UInt32
  severityText : String
  severityNumber : Int32
  body : V
  attributes : M

/-- `plog.ResourceLogs`: a resource, and its log records by scope. -/
structure ResourceLogs (V M : Type) where
  resource : M
  scopeLogs : List (List (PLogRecord V M))

/-- `plog.Logs`. -/
abbrev PLogs (V M : Type) := List (ResourceLogs V M)

/-! ## Conversions -/

section Conversions

variable {F V M : Type} (pd : Pdata F V M)

def signozLogIdAttr : String := "__signoz_log_id__"

/-- `copy(buf[:], []byte(s))` into an array of zeros. -/
def idBuffer (n : Nat) (s : String) : Vector UInt8 n :=
  Vector.ofFn fun i => (s.toList.flatMap String.utf8EncodeChar)[i.val]?.getD 0

/-- The loop that puts the entries of a map. -/
def Pdata.putAll {α : Type} (value : α → V) (m : M) (entries : GoMap α) : M :=
  entries.entries.foldl (fun m e => pd.put m e.1 (value e.2)) m

/-- The attributes of a log record, with its id. -/
def Pdata.encodeAttributes (log : SignozLog F) : M :=
  let ints := pd.putAll pd.intValue pd.newMap log.attributesInt64
  let floats := pd.putAll pd.doubleValue ints log.attributesFloat64
  let strings := pd.putAll pd.strValue floats log.attributesString
  pd.put strings signozLogIdAttr (pd.strValue log.id)

def signozLogsToPLogs (logs : List (SignozLog F)) : List (PLogs V M) :=
  logs.map fun log =>
    [{ resource := pd.putAll pd.strValue pd.newMap log.resourcesString
       scopeLogs :=
         [[{ timestamp := pd.newTimestampFromTime log.timestamp.toInt64
             traceID := idBuffer 16 log.traceID
             spanID := idBuffer 8 log.spanID
             flags := log.traceFlags
             severityText := log.severityText
             severityNumber := log.severityNumber.toUInt32.toInt32
             body := pd.strValue log.body
             attributes := pd.encodeAttributes log }]] }]

def pMapToStrMap (pMap : M) : GoMap String :=
  (pd.range pMap).foldl (fun result e => result.insert e.1 (pd.asString e.2)) ∅

/-- The body of the loop over the attributes. -/
def Pdata.addAttribute (log : SignozLog F) (e : String × V) : SignozLog F :=
  match pd.valueType e.2 with
  | .double =>
    { log with attributesFloat64 := log.attributesFloat64.insert e.1 (pd.double e.2) }
  | .int => { log with attributesInt64 := log.attributesInt64.insert e.1 (pd.int e.2) }
  | _ => { log with attributesString := log.attributesString.insert e.1 (pd.asString e.2) }

/-- One log record; its id is taken out of its attributes. -/
def Pdata.decodeRecord (resource : M) (lr : PLogRecord V M) : SignozLog F :=
  let signozLogId := ((pd.get lr.attributes signozLogIdAttr).map pd.str).getD ""
  (pd.range (pd.remove lr.attributes signozLogIdAttr)).foldl pd.addAttribute
    { timestamp := lr.timestamp
      id := signozLogId
      traceID := pd.traceIDString lr.traceID
      spanID := pd.spanIDString lr.spanID
      traceFlags := lr.flags
      severityText := lr.severityText
      severityNumber := lr.severityNumber.toUInt32.toUInt8
      body := pd.asString lr.body
      resourcesString := pMapToStrMap pd resource
      attributesString := ∅
      attributesInt64 := ∅
      attributesFloat64 := ∅
      attributesBool := ∅ }

def pLogsToSignozLogs (plogs : List (PLogs V M)) : List (SignozLog F) :=
  plogs.flatMap fun pl => pl.flatMap fun rl => rl.scopeLogs.flatMap fun sl =>
    sl.map (pd.decodeRecord rl.resource)

end Conversions

/-! ## The log data model of the collector -/

/-- A digit of `encoding/hex`. -/
def hexDigit (n : Nat) : Char := "0123456789abcdef".toList.getD n '0'

/-- `hex.EncodeToString`. -/
def hexString (bytes : List UInt8) : String :=
  String.ofList (bytes.flatMap fun b => [hexDigit (b.toNat / 16), hexDigit (b.toNat % 16)])

/-- The text of an id: none when all its bytes are zero, and else their hex digits. -/
def idString {n : Nat} (id : Vector UInt8 n) : String :=
  if ∀ b ∈ id.toList, b = 0 then "" else hexString id.toList

/-- Values come back as what they were made of, a map holds the values last put, and is ranged over
once by key. -/
structure Pdata.Lawful {F V M : Type} (pd : Pdata F V M) : Prop where
  type_str : ∀ s, pd.valueType (pd.strValue s) = .str
  type_int : ∀ n, pd.valueType (pd.intValue n) = .int
  type_double : ∀ x, pd.valueType (pd.doubleValue x) = .double
  str_strValue : ∀ s, pd.str (pd.strValue s) = s
  int_intValue : ∀ n, pd.int (pd.intValue n) = n
  double_doubleValue : ∀ x, pd.double (pd.doubleValue x) = x
  asString_strValue : ∀ s, pd.asString (pd.strValue s) = s
  get_newMap : ∀ k, pd.get pd.newMap k = none
  get_put : ∀ m k v k', pd.get (pd.put m k v) k' = if k' = k then some v else pd.get m k'
  get_remove : ∀ m k k', pd.get (pd.remove m k) k' = if k' = k then none else pd.get m k'
  mem_range : ∀ m k v, (k, v) ∈ pd.range m ↔ pd.get m k = some v
  range_nodup : ∀ m, ((pd.range m).map Prod.fst).Nodup
  traceIDString_eq : ∀ id, pd.traceIDString id = idString id
  spanIDString_eq : ∀ id, pd.spanIDString id = idString id
  newTimestampFromTime_eq : ∀ n, pd.newTimestampFromTime n = n.toUInt64

/-! ## Equal logs -/

/-- The maps have the same values. -/
def SameMap {α : Type} (m m' : GoMap α) : Prop := ∀ k, m.lookup k = m'.lookup k

/-- The log records are equal, with a map that is `nil` as an empty one. -/
structure SignozLog.Same {F : Type} (log log' : SignozLog F) : Prop where
  timestamp : log.timestamp = log'.timestamp
  id : log.id = log'.id
  traceID : log.traceID = log'.traceID
  spanID : log.spanID = log'.spanID
  traceFlags : log.traceFlags = log'.traceFlags
  severityText : log.severityText = log'.severityText
  severityNumber : log.severityNumber = log'.severityNumber
  body : log.body = log'.body
  resourcesString : SameMap log.resourcesString log'.resourcesString
  attributesString : SameMap log.attributesString log'.attributesString
  attributesInt64 : SameMap log.attributesInt64 log'.attributesInt64
  attributesFloat64 : SameMap log.attributesFloat64 log'.attributesFloat64
  attributesBool : SameMap log.attributesBool log'.attributesBool

def IsHexDigit (c : Char) : Prop := c ∈ "0123456789abcdef".toList

instance (c : Char) : Decidable (IsHexDigit c) := inferInstanceAs (Decidable (_ ∈ _))

/-- Empty, or of so many lower-case hex digits. -/
def IsId (digits : Nat) (s : String) : Prop :=
  s = "" ∨ (s.toList.length = digits ∧ ∀ c ∈ s.toList, IsHexDigit c)

instance (digits : Nat) (s : String) : Decidable (IsId digits s) :=
  inferInstanceAs (Decidable (_ ∨ _))

/-- No key is in both maps. -/
def NoCommonKey {α β : Type} (m : GoMap α) (m' : GoMap β) : Prop := ∀ k ∈ m, k ∉ m'

/-- The ids are ids, and the attribute maps have no key in common, nor the key of the id. -/
structure SignozLog.WellFormed {F : Type} (log : SignozLog F) : Prop where
  traceID : IsId 32 log.traceID
  spanID : IsId 16 log.spanID
  string_int : NoCommonKey log.attributesString log.attributesInt64
  string_float : NoCommonKey log.attributesString log.attributesFloat64
  string_bool : NoCommonKey log.attributesString log.attributesBool
  int_float : NoCommonKey log.attributesInt64 log.attributesFloat64
  int_bool : NoCommonKey log.attributesInt64 log.attributesBool
  float_bool : NoCommonKey log.attributesFloat64 log.attributesBool
  string_id : signozLogIdAttr ∉ log.attributesString
  int_id : signozLogIdAttr ∉ log.attributesInt64
  float_id : signozLogIdAttr ∉ log.attributesFloat64
  bool_id : signozLogIdAttr ∉ log.attributesBool

/-! ## Maps there and back -/

section Maps

variable {F V M α : Type} {pd : Pdata F V M}

theorem lookup_cons_goMap (k k' : String) (a : α) (rest : List (Sigma fun _ : String => α)) :
    List.dlookup k' (⟨k, a⟩ :: rest) = if k' = k then some a else List.dlookup k' rest := by
  split_ifs with h
  · rw [h, List.dlookup_cons_eq]
  · rw [List.dlookup_cons_ne _ _ h]

/-- A map that the entries of another have been put into. -/
theorem Pdata.Lawful.get_putAll (hpd : pd.Lawful) (value : α → V) (m : M) (entries : GoMap α)
    (k : String) :
    pd.get (pd.putAll value m entries) k = ((entries.lookup k).map value).or (pd.get m k) := by
  obtain ⟨l, hnodup⟩ := entries
  change pd.get (l.foldl (fun m e => pd.put m e.1 (value e.2)) m) k =
    ((List.dlookup k l).map value).or (pd.get m k)
  induction l generalizing m with
  | nil => rfl
  | cons e l ih =>
    obtain ⟨key, a⟩ := e
    obtain ⟨hkey, hrest⟩ := List.nodupKeys_cons.mp hnodup
    rw [List.foldl_cons, ih _ hrest, lookup_cons_goMap, hpd.get_put]
    split_ifs with hsame
    · -- the key is not put again
      rw [hsame, List.dlookup_eq_none.mpr hkey]
      rfl
    · rfl

/-- An association list without a key twice has an entry where it says so. -/
theorem lookup_eq_some_iff {l : List (String × V)} (h : (l.map Prod.fst).Nodup) {k : String}
    {v : V} : l.lookup k = some v ↔ (k, v) ∈ l := by
  induction l with
  | nil => simp
  | cons e l ih =>
    obtain ⟨key, v'⟩ := e
    obtain ⟨hkey, hrest⟩ := List.nodup_cons.mp h
    rw [List.lookup_cons, List.mem_cons, Prod.mk.injEq]
    by_cases hsame : k = key
    · have hnot : (k, v) ∉ l := fun hmem => hkey (List.mem_map.mpr ⟨_, hmem, hsame⟩)
      have hbeq : (k == key) = true := beq_iff_eq.mpr hsame
      rw [hbeq, Option.some.injEq, or_iff_left hnot, and_iff_right hsame, eq_comm]
    · have hbeq : (k == key) = false := beq_eq_false_iff_ne.mpr hsame
      rw [hbeq, ih hrest, or_iff_right fun heq => hsame heq.1]

/-- What is ranged over under a key is what the map holds. -/
theorem Pdata.Lawful.lookup_range (hpd : pd.Lawful) (m : M) (k : String) :
    (pd.range m).lookup k = pd.get m k := by
  apply Option.ext
  intro v
  rw [lookup_eq_some_iff (hpd.range_nodup m), hpd.mem_range]

/-- A map that the entries which pass a test are inserted into. -/
theorem lookup_foldl_insert {l : List (String × V)} (h : (l.map Prod.fst).Nodup) (test : V → Bool)
    (f : V → α) (g : GoMap α) (k : String) :
    (l.foldl (fun g e => if test e.2 then g.insert e.1 (f e.2) else g) g).lookup k =
      (((l.lookup k).filter test).map f).or (g.lookup k) := by
  induction l generalizing g with
  | nil => rfl
  | cons e l ih =>
    obtain ⟨key, v⟩ := e
    obtain ⟨hkey, hrest⟩ := List.nodup_cons.mp h
    rw [List.foldl_cons, ih hrest, List.lookup_cons]
    by_cases hsame : k = key
    · -- the key is not inserted again
      have hmissing : l.lookup key = none := by
        cases hlookup : l.lookup key with
        | none => rfl
        | some v' =>
          have hmem := (lookup_eq_some_iff hrest).mp hlookup
          exact absurd (List.mem_map.mpr ⟨_, hmem, rfl⟩) hkey
      rw [hsame, hmissing, beq_self_eq_true]
      cases htest : test v with
      | true =>
        rw [if_pos rfl, AList.lookup_insert, Option.filter_some_pos htest]
        rfl
      | false =>
        rw [if_neg Bool.false_ne_true, Option.filter_some_neg htest]
        rfl
    · have hbeq : (k == key) = false := beq_eq_false_iff_ne.mpr hsame
      rw [hbeq]
      congr 1
      split_ifs
      · exact AList.lookup_insert_ne hsame
      · rfl

end Maps

/-! ## Attributes there and back -/

section Attributes

variable {F V M : Type} {pd : Pdata F V M}

/-- Which map an attribute comes back in. -/
def Pdata.isType (pd : Pdata F V M) (type : ValueType) (v : V) : Bool := pd.valueType v = type

def Pdata.isOther (pd : Pdata F V M) (v : V) : Bool :=
  !pd.isType .double v && !pd.isType .int v

/-- The loop over the attributes, map by map. -/
theorem Pdata.foldl_addAttribute (l : List (String × V)) (log : SignozLog F) :
    l.foldl pd.addAttribute log =
      { log with
        attributesString := l.foldl
          (fun g e => if pd.isOther e.2 then g.insert e.1 (pd.asString e.2) else g)
          log.attributesString
        attributesInt64 := l.foldl
          (fun g e => if pd.isType .int e.2 then g.insert e.1 (pd.int e.2) else g)
          log.attributesInt64
        attributesFloat64 := l.foldl
          (fun g e => if pd.isType .double e.2 then g.insert e.1 (pd.double e.2) else g)
          log.attributesFloat64 } := by
  induction l generalizing log with
  | nil => rfl
  | cons e l ih =>
    rw [List.foldl_cons, ih, Pdata.addAttribute]
    cases htype : pd.valueType e.2 with
    | double => simp [Pdata.isOther, Pdata.isType, htype]
    | int => simp [Pdata.isOther, Pdata.isType, htype]
    | empty => simp [Pdata.isOther, Pdata.isType, htype]
    | str => simp [Pdata.isOther, Pdata.isType, htype]
    | bool => simp [Pdata.isOther, Pdata.isType, htype]
    | map => simp [Pdata.isOther, Pdata.isType, htype]
    | slice => simp [Pdata.isOther, Pdata.isType, htype]
    | bytes => simp [Pdata.isOther, Pdata.isType, htype]

/-- The attributes of a log record that was sent, once its id is taken out. -/
theorem Pdata.Lawful.get_sent (hpd : pd.Lawful) (log : SignozLog F) (k : String) :
    pd.get (pd.remove (pd.encodeAttributes log) signozLogIdAttr) k =
      if k = signozLogIdAttr then none
      else ((log.attributesString.lookup k).map pd.strValue).or
        (((log.attributesFloat64.lookup k).map pd.doubleValue).or
          ((log.attributesInt64.lookup k).map pd.intValue)) := by
  rw [hpd.get_remove]
  split_ifs with hid
  · rfl
  · rw [Pdata.encodeAttributes, hpd.get_put, if_neg hid, hpd.get_putAll, hpd.get_putAll,
      hpd.get_putAll, hpd.get_newMap, Option.or_none]

theorem Pdata.Lawful.get_id (hpd : pd.Lawful) (log : SignozLog F) :
    pd.get (pd.encodeAttributes log) signozLogIdAttr = some (pd.strValue log.id) := by
  rw [Pdata.encodeAttributes, hpd.get_put, if_pos rfl]

variable {log : SignozLog F}

/-- An attribute that was sent is the entry of one of the maps, and of no other. -/
theorem Pdata.Lawful.sent_cases (hpd : pd.Lawful) (hlog : log.WellFormed) (k : String) :
    let sent := pd.get (pd.remove (pd.encodeAttributes log) signozLogIdAttr) k
    let string := log.attributesString.lookup k
    let float := log.attributesFloat64.lookup k
    let int := log.attributesInt64.lookup k
    (sent = none ∧ string = none ∧ float = none ∧ int = none) ∨
      (∃ s, sent = some (pd.strValue s) ∧ string = some s ∧ float = none ∧ int = none) ∨
      (∃ x, sent = some (pd.doubleValue x) ∧ string = none ∧ float = some x ∧ int = none) ∨
      (∃ n, sent = some (pd.intValue n) ∧ string = none ∧ float = none ∧ int = some n) := by
  dsimp only
  rw [hpd.get_sent]
  by_cases hid : k = signozLogIdAttr
  · rw [if_pos hid, hid]
    exact .inl ⟨rfl, AList.lookup_eq_none.mpr hlog.string_id,
      AList.lookup_eq_none.mpr hlog.float_id, AList.lookup_eq_none.mpr hlog.int_id⟩
  · rw [if_neg hid]
    cases hstring : log.attributesString.lookup k with
    | some s =>
      have hmem : k ∈ log.attributesString := AList.lookup_isSome.mp (by rw [hstring]; rfl)
      exact .inr (.inl ⟨s, rfl, rfl, AList.lookup_eq_none.mpr (hlog.string_float k hmem),
        AList.lookup_eq_none.mpr (hlog.string_int k hmem)⟩)
    | none =>
      cases hint : log.attributesInt64.lookup k with
      | some n =>
        have hmem : k ∈ log.attributesInt64 := AList.lookup_isSome.mp (by rw [hint]; rfl)
        rw [AList.lookup_eq_none.mpr (hlog.int_float k hmem)]
        exact .inr (.inr (.inr ⟨n, rfl, rfl, rfl, rfl⟩))
      | none =>
        cases log.attributesFloat64.lookup k with
        | some x => exact .inr (.inr (.inl ⟨x, rfl, rfl, rfl, rfl⟩))
        | none => exact .inl ⟨rfl, rfl, rfl, rfl⟩

/-- The strings come back as strings, and nothing else does. -/
theorem strings_back (hpd : pd.Lawful) (hlog : log.WellFormed) (k : String) :
    ((pd.get (pd.remove (pd.encodeAttributes log) signozLogIdAttr) k).filter pd.isOther).map
      pd.asString = log.attributesString.lookup k := by
  obtain ⟨hsent, hback, -⟩ | ⟨s, hsent, hback, -⟩ | ⟨x, hsent, hback, -⟩ | ⟨n, hsent, hback, -⟩ :=
    hpd.sent_cases hlog k
  · rw [hsent, hback]
    rfl
  · have htest : pd.isOther (pd.strValue s) = true := by
      simp [Pdata.isOther, Pdata.isType, hpd.type_str]
    rw [hsent, hback, Option.filter_some_pos htest, Option.map_some, hpd.asString_strValue]
  · have htest : pd.isOther (pd.doubleValue x) = false := by
      simp [Pdata.isOther, Pdata.isType, hpd.type_double]
    rw [hsent, hback, Option.filter_some_neg htest, Option.map_none]
  · have htest : pd.isOther (pd.intValue n) = false := by
      simp [Pdata.isOther, Pdata.isType, hpd.type_int]
    rw [hsent, hback, Option.filter_some_neg htest, Option.map_none]

/-- The integers come back as integers, and nothing else does. -/
theorem ints_back (hpd : pd.Lawful) (hlog : log.WellFormed) (k : String) :
    ((pd.get (pd.remove (pd.encodeAttributes log) signozLogIdAttr) k).filter
      (pd.isType .int)).map pd.int = log.attributesInt64.lookup k := by
  obtain ⟨hsent, -, -, hback⟩ | ⟨s, hsent, -, -, hback⟩ | ⟨x, hsent, -, -, hback⟩ |
    ⟨n, hsent, -, -, hback⟩ := hpd.sent_cases hlog k
  · rw [hsent, hback]
    rfl
  · have htest : pd.isType .int (pd.strValue s) = false := by simp [Pdata.isType, hpd.type_str]
    rw [hsent, hback, Option.filter_some_neg htest, Option.map_none]
  · have htest : pd.isType .int (pd.doubleValue x) = false := by
      simp [Pdata.isType, hpd.type_double]
    rw [hsent, hback, Option.filter_some_neg htest, Option.map_none]
  · have htest : pd.isType .int (pd.intValue n) = true := by simp [Pdata.isType, hpd.type_int]
    rw [hsent, hback, Option.filter_some_pos htest, Option.map_some, hpd.int_intValue]

/-- The floating point numbers come back as such, and nothing else does. -/
theorem floats_back (hpd : pd.Lawful) (hlog : log.WellFormed) (k : String) :
    ((pd.get (pd.remove (pd.encodeAttributes log) signozLogIdAttr) k).filter
      (pd.isType .double)).map pd.double = log.attributesFloat64.lookup k := by
  obtain ⟨hsent, -, hback, -⟩ | ⟨s, hsent, -, hback, -⟩ | ⟨x, hsent, -, hback, -⟩ |
    ⟨n, hsent, -, hback, -⟩ := hpd.sent_cases hlog k
  · rw [hsent, hback]
    rfl
  · have htest : pd.isType .double (pd.strValue s) = false := by
      simp [Pdata.isType, hpd.type_str]
    rw [hsent, hback, Option.filter_some_neg htest, Option.map_none]
  · have htest : pd.isType .double (pd.doubleValue x) = true := by
      simp [Pdata.isType, hpd.type_double]
    rw [hsent, hback, Option.filter_some_pos htest, Option.map_some, hpd.double_doubleValue]
  · have htest : pd.isType .double (pd.intValue n) = false := by
      simp [Pdata.isType, hpd.type_int]
    rw [hsent, hback, Option.filter_some_neg htest, Option.map_none]

/-- The resource comes back as it was. -/
theorem resources_back (hpd : pd.Lawful) (resources : GoMap String) :
    SameMap (pMapToStrMap pd (pd.putAll pd.strValue pd.newMap resources)) resources := by
  intro k
  have hfold := lookup_foldl_insert
    (hpd.range_nodup (pd.putAll pd.strValue pd.newMap resources)) (fun _ => true) pd.asString ∅ k
  simp only [if_true] at hfold
  rw [pMapToStrMap, hfold, hpd.lookup_range, hpd.get_putAll, hpd.get_newMap, AList.lookup_empty,
    Option.or_none, Option.or_none]
  cases resources.lookup k with
  | none => rfl
  | some s =>
    rw [Option.map_some, Option.filter_some_pos rfl, Option.map_some, hpd.asString_strValue]

end Attributes

/-! ## Ids there and back -/

/-- The byte of an ASCII character. -/
def byteOf (c : Char) : UInt8 := (String.utf8EncodeChar c).headD 0

def highDigit (c : Char) : Char := hexDigit ((byteOf c).toNat / 16)

def lowDigit (c : Char) : Char := hexDigit ((byteOf c).toNat % 16)

/-- A hex digit is one byte, whose first digit is `3` for a digit and `6` for a letter. -/
theorem byte_of_hexDigit {c : Char} (h : IsHexDigit c) :
    String.utf8EncodeChar c = [byteOf c] ∧ byteOf c ≠ 0 ∧
      (highDigit c = '3' ∨ highDigit c = '6') ∧
        (c = '3' → highDigit c = '3' ∧ lowDigit c = '3') ∧ (c = '6' → highDigit c = '3') := by
  revert c
  change ∀ c ∈ "0123456789abcdef".toList, _
  decide +kernel

/-- What the first `n` hex digits become in an id of `n` bytes. -/
theorem idBuffer_toList {n : Nat} {s : String} (hlength : n ≤ s.toList.length)
    (hdigits : ∀ c ∈ s.toList, IsHexDigit c) :
    (idBuffer n s).toList = (s.toList.take n).map byteOf := by
  have hbytes : s.toList.flatMap String.utf8EncodeChar = s.toList.map byteOf := by
    rw [List.map_eq_flatMap]
    exact List.flatMap_congr fun c hc => (byte_of_hexDigit (hdigits c hc)).1
  rw [idBuffer, hbytes, Vector.toList_ofFn]
  apply List.ext_getElem
  · rw [List.length_ofFn, List.length_map, List.length_take, Nat.min_eq_left hlength]
  · intro i hi hi'
    rw [List.length_ofFn] at hi
    rw [List.getElem_ofFn, List.getElem_map, List.getElem_take, List.getElem?_map,
      List.getElem?_eq_getElem (Nat.lt_of_lt_of_le hi hlength)]
    rfl

/-- The hex digits of the bytes of hex digits. -/
theorem hexString_bytes (cs : List Char) :
    (hexString (cs.map byteOf)).toList = cs.flatMap fun c => [highDigit c, lowDigit c] := by
  rw [hexString, String.toList_ofList, List.flatMap_map]
  rfl

theorem getElem?_pairs {α β : Type} (f g : α → β) (l : List α) (i : Nat) :
    (l.flatMap fun a => [f a, g a])[2 * i]? = l[i]?.map f ∧
      (l.flatMap fun a => [f a, g a])[2 * i + 1]? = l[i]?.map g := by
  induction l generalizing i with
  | nil => simp
  | cons a l ih =>
    cases i with
    | zero => exact ⟨rfl, rfl⟩
    | succ i => exact ih i

/-- Only threes are the digits of their own bytes, cut to half their number. -/
theorem threes_of_pairs {cs : List Char} {n : Nat} (hlength : cs.length = 2 * n)
    (hdigits : ∀ c ∈ cs, IsHexDigit c)
    (hpairs : ((cs.take n).flatMap fun c => [highDigit c, lowDigit c]) = cs) :
    cs = List.replicate (2 * n) '3' := by
  have hstep : ∀ i < n, ∃ c, cs[i]? = some c ∧ IsHexDigit c ∧
      cs[2 * i]? = some (highDigit c) ∧ cs[2 * i + 1]? = some (lowDigit c) := by
    intro i hi
    have hlt : i < cs.length := by omega
    have hgetElem := getElem?_pairs highDigit lowDigit (cs.take n) i
    rw [hpairs, List.getElem?_take_of_lt hi, List.getElem?_eq_getElem hlt] at hgetElem
    exact ⟨cs[i], List.getElem?_eq_getElem hlt, hdigits _ (List.getElem_mem hlt), hgetElem⟩
  have hthrees : ∀ j < 2 * n, cs[j]? = some '3' := by
    intro j
    induction j using Nat.strong_induction_on with
    | _ j ih =>
      intro hj
      obtain ⟨c, hc, hdigit, hhigh, hlow⟩ := hstep (j / 2) (by omega)
      obtain ⟨-, -, hfirst, hthree, hsix⟩ := byte_of_hexDigit hdigit
      cases j with
      | zero =>
        -- the first digit is the first one of its own byte
        rw [hc] at hhigh
        obtain rfl | rfl : c = '3' ∨ c = '6' := by
          rw [Option.some.inj hhigh]
          exact hfirst
        · exact hc
        · rw [hsix rfl] at hhigh
          exact absurd (Option.some.inj hhigh) (by decide)
      | succ j =>
        have hbefore := ih ((j + 1) / 2) (by omega) (by omega)
        rw [hc] at hbefore
        obtain ⟨hhigh', hlow'⟩ := hthree (Option.some.inj hbefore)
        obtain heven | hodd : j + 1 = 2 * ((j + 1) / 2) ∨ j + 1 = 2 * ((j + 1) / 2) + 1 := by
          omega
        · rw [heven, hhigh, hhigh']
        · rw [hodd, hlow, hlow']
  rw [List.eq_replicate_iff]
  refine ⟨hlength, fun c hc => ?_⟩
  obtain ⟨j, hj, rfl⟩ := List.getElem_of_mem hc
  have hthree := hthrees j (by omega)
  rw [List.getElem?_eq_getElem hj] at hthree
  exact Option.some.inj hthree

theorem pairs_of_threes (n : Nat) :
    ((List.replicate n '3').flatMap fun c => [highDigit c, lowDigit c]) =
      List.replicate (2 * n) '3' := by
  induction n with
  | zero => rfl
  | succ n ih =>
    rw [List.replicate_succ, List.flatMap_cons, ih]
    rfl

/-- An id comes back as it was when it is empty or all its digits are `3`. -/
theorem idString_idBuffer {n : Nat} (hn : 0 < n) {s : String} (h : IsId (2 * n) s) :
    idString (idBuffer n s) = s ↔ s = "" ∨ s = String.ofList (List.replicate (2 * n) '3') := by
  rcases h with rfl | ⟨hlength, hdigits⟩
  · have hzero : ∀ b ∈ (idBuffer n "").toList, b = 0 := by
      intro b hb
      rw [idBuffer, Vector.toList_ofFn, List.mem_ofFn] at hb
      obtain ⟨i, rfl⟩ := hb
      rfl
    rw [idString, if_pos hzero]
    exact iff_of_true rfl (.inl rfl)
  · have hbuffer : (idBuffer n s).toList = (s.toList.take n).map byteOf :=
      idBuffer_toList (by omega) hdigits
    have hne : s.toList ≠ [] := by
      intro hnil
      rw [hnil, List.length_nil] at hlength
      omega
    have hnonzero : ¬∀ b ∈ (idBuffer n s).toList, b = 0 := by
      intro hzero
      obtain ⟨c, rest, hcons⟩ := List.exists_cons_of_ne_nil hne
      obtain ⟨m, rfl⟩ := Nat.exists_eq_add_one_of_ne_zero (Nat.ne_of_gt hn)
      have hc : c ∈ s.toList := by rw [hcons]; exact List.mem_cons_self
      refine (byte_of_hexDigit (hdigits c hc)).2.1 (hzero _ ?_)
      rw [hbuffer, hcons, List.take_succ_cons]
      exact List.mem_cons_self
    have hempty : s ≠ "" := by
      rintro rfl
      exact hne rfl
    rw [idString, if_neg hnonzero, hbuffer, or_iff_right hempty, ← String.toList_inj,
      hexString_bytes, ← String.toList_inj, String.toList_ofList]
    constructor
    · exact threes_of_pairs hlength hdigits
    · intro hthrees
      rw [hthrees, List.take_replicate, Nat.min_eq_left (by omega), pairs_of_threes]

/-! ## Logs there and back -/

section Logs

variable {F V M : Type} {pd : Pdata F V M}

/-- What becomes of one log record. -/
def Pdata.previewed (pd : Pdata F V M) (log : SignozLog F) : SignozLog F :=
  pd.decodeRecord (pd.putAll pd.strValue pd.newMap log.resourcesString)
    { timestamp := pd.newTimestampFromTime log.timestamp.toInt64
      traceID := idBuffer 16 log.traceID
      spanID := idBuffer 8 log.spanID
      flags := log.traceFlags
      severityText := log.severityText
      severityNumber := log.severityNumber.toUInt32.toInt32
      body := pd.strValue log.body
      attributes := pd.encodeAttributes log }

theorem pLogsToSignozLogs_signozLogsToPLogs (logs : List (SignozLog F)) :
    pLogsToSignozLogs pd (signozLogsToPLogs pd logs) = logs.map pd.previewed := by
  rw [pLogsToSignozLogs, signozLogsToPLogs, List.flatMap_map, List.map_eq_flatMap]
  rfl

/-- What a log record becomes, field by field. -/
theorem Pdata.Lawful.previewed_eq (hpd : pd.Lawful) (log : SignozLog F) :
    pd.previewed log =
      let sent := pd.range (pd.remove (pd.encodeAttributes log) signozLogIdAttr)
      { log with
        traceID := idString (idBuffer 16 log.traceID)
        spanID := idString (idBuffer 8 log.spanID)
        resourcesString := pMapToStrMap pd (pd.putAll pd.strValue pd.newMap log.resourcesString)
        attributesString := sent.foldl
          (fun g e => if pd.isOther e.2 then g.insert e.1 (pd.asString e.2) else g) ∅
        attributesInt64 := sent.foldl
          (fun g e => if pd.isType .int e.2 then g.insert e.1 (pd.int e.2) else g) ∅
        attributesFloat64 := sent.foldl
          (fun g e => if pd.isType .double e.2 then g.insert e.1 (pd.double e.2) else g) ∅
        attributesBool := ∅ } := by
  have hseverity : log.severityNumber.toUInt32.toInt32.toUInt32.toUInt8 = log.severityNumber := by
    simp
  have htime : log.timestamp.toInt64.toUInt64 = log.timestamp := by simp
  rw [Pdata.previewed, Pdata.decodeRecord, Pdata.foldl_addAttribute]
  dsimp only
  rw [hpd.get_id, Option.map_some, Option.getD_some, hpd.str_strValue, hpd.asString_strValue,
    hpd.traceIDString_eq, hpd.spanIDString_eq, hpd.newTimestampFromTime_eq, hseverity, htime]

/-- The ids come back as they are, and there is nothing among the boolean attributes. -/
structure SignozLog.Kept (log : SignozLog F) : Prop where
  traceID : log.traceID = "" ∨ log.traceID = "33333333333333333333333333333333"
  spanID : log.spanID = "" ∨ log.spanID = "3333333333333333"
  attributesBool : ∀ k, k ∉ log.attributesBool

theorem Pdata.Lawful.same_previewed (hpd : pd.Lawful) {log : SignozLog F} (hlog : log.WellFormed) :
    (pd.previewed log).Same log ↔ log.Kept := by
  have htrace : idString (idBuffer 16 log.traceID) = log.traceID ↔
      log.traceID = "" ∨ log.traceID = "33333333333333333333333333333333" := by
    rw [idString_idBuffer (by decide) hlog.traceID]
    apply or_congr_right
    rw [← String.toList_inj, ← String.toList_inj, String.toList_ofList]
    rfl
  have hspan : idString (idBuffer 8 log.spanID) = log.spanID ↔
      log.spanID = "" ∨ log.spanID = "3333333333333333" := by
    rw [idString_idBuffer (by decide) hlog.spanID]
    apply or_congr_right
    rw [← String.toList_inj, ← String.toList_inj, String.toList_ofList]
    rfl
  have hback : ∀ {α : Type} (test : V → Bool) (f : V → α) (g : GoMap α),
      (∀ k, ((pd.get (pd.remove (pd.encodeAttributes log) signozLogIdAttr) k).filter test).map f =
        g.lookup k) →
      SameMap ((pd.range (pd.remove (pd.encodeAttributes log) signozLogIdAttr)).foldl
        (fun g e => if test e.2 then g.insert e.1 (f e.2) else g) ∅) g := by
    intro α test f g hg k
    rw [lookup_foldl_insert (hpd.range_nodup _), hpd.lookup_range, hg, AList.lookup_empty,
      Option.or_none]
  have htraceID : (pd.previewed log).traceID = idString (idBuffer 16 log.traceID) := by
    rw [hpd.previewed_eq]
  have hspanID : (pd.previewed log).spanID = idString (idBuffer 8 log.spanID) := by
    rw [hpd.previewed_eq]
  have hbool : (pd.previewed log).attributesBool = ∅ := by
    rw [hpd.previewed_eq]
  constructor
  · intro h
    refine ⟨htrace.mp (htraceID.symm.trans h.traceID), hspan.mp (hspanID.symm.trans h.spanID), ?_⟩
    intro k
    have hnone := h.attributesBool k
    rw [hbool] at hnone
    exact AList.lookup_eq_none.mp hnone.symm
  · intro h
    have htraceBack := htraceID.trans (htrace.mpr h.traceID)
    have hspanBack := hspanID.trans (hspan.mpr h.spanID)
    rw [hpd.previewed_eq] at htraceBack hspanBack ⊢
    exact
      { timestamp := rfl
        id := rfl
        traceID := htraceBack
        spanID := hspanBack
        traceFlags := rfl
        severityText := rfl
        severityNumber := rfl
        body := rfl
        resourcesString := resources_back hpd log.resourcesString
        attributesString := hback pd.isOther pd.asString _ (strings_back hpd hlog)
        attributesInt64 := hback (pd.isType .int) pd.int _ (ints_back hpd hlog)
        attributesFloat64 := hback (pd.isType .double) pd.double _ (floats_back hpd hlog)
        attributesBool := fun k => (AList.lookup_eq_none.mpr (h.attributesBool k)).symm }

/-- The logs come back as they were if and only if each has no trace id or one of threes, no span
id or one of threes, and no boolean attribute. -/
theorem preview_unchanged_iff (pd : Pdata F V M) (hpd : pd.Lawful) (logs : List (SignozLog F))
    (hlogs : ∀ log ∈ logs, log.WellFormed) :
    List.Forall₂ SignozLog.Same (pLogsToSignozLogs pd (signozLogsToPLogs pd logs)) logs ↔
      ∀ log ∈ logs, log.Kept := by
  rw [pLogsToSignozLogs_signozLogsToPLogs, List.forall₂_map_left_iff, List.forall₂_same]
  apply forall_congr'
  intro log
  apply forall_congr'
  intro hlog
  exact hpd.same_previewed (hlogs log hlog)

end Logs

/-! ## Two logs -/

/-- The values that the conversions make. -/
inductive MadeValue (F : Type) where
  | str (s : String)
  | int (n : Int64)
  | double (x : F)

/-- A log data model of the values that the conversions make. -/
def madePdata : Pdata Int (MadeValue Int) (GoMap (MadeValue Int)) where
  strValue := .str
  intValue := .int
  doubleValue := .double
  valueType
    | .str _ => .str
    | .int _ => .int
    | .double _ => .double
  str
    | .str s => s
    | _ => ""
  int
    | .int n => n
    | _ => 0
  double
    | .double x => x
    | _ => 0
  asString
    | .str s => s
    | .int n => toString n
    | .double x => toString x
  newMap := ∅
  put m k v := m.insert k v
  get m k := m.lookup k
  remove m k := m.erase k
  range m := m.entries.map fun e => (e.1, e.2)
  traceIDString := idString
  spanIDString := idString
  newTimestampFromTime n := n.toUInt64

theorem madePdata_lawful : madePdata.Lawful where
  type_str _ := rfl
  type_int _ := rfl
  type_double _ := rfl
  str_strValue _ := rfl
  int_intValue _ := rfl
  double_doubleValue _ := rfl
  asString_strValue _ := rfl
  get_newMap _ := rfl
  get_put m k v k' := by
    change (AList.insert k v m).lookup k' = if k' = k then some v else m.lookup k'
    split_ifs with h
    · rw [h, AList.lookup_insert]
    · rw [AList.lookup_insert_ne h]
  get_remove m k k' := by
    change (AList.erase k m).lookup k' = if k' = k then none else m.lookup k'
    split_ifs with h
    · rw [h, AList.lookup_erase]
    · rw [AList.lookup_erase_ne h]
  mem_range m k v := by
    change (k, v) ∈ m.entries.map (fun e => (e.1, e.2)) ↔ m.lookup k = some v
    rw [← Option.mem_def, AList.mem_lookup_iff, List.mem_map]
    constructor
    · rintro ⟨e, he, heq⟩
      obtain ⟨rfl, rfl⟩ := Prod.mk.inj heq
      exact he
    · exact fun he => ⟨_, he, rfl⟩
  range_nodup m := by
    change ((m.entries.map fun e => (e.1, e.2)).map Prod.fst).Nodup
    rw [List.map_map]
    exact m.keys_nodup
  traceIDString_eq _ := rfl
  spanIDString_eq _ := rfl
  newTimestampFromTime_eq _ := rfl

/-- A log record with two attributes and a trace id. -/
def logWithTrace (traceID : String) : SignozLog Int where
  timestamp := 1700000000000000000
  id := "2Y4DLbLBsSCGrOM4zHFqBYrhPpG"
  traceID := traceID
  spanID := ""
  traceFlags := 1
  severityText := "info"
  severityNumber := 9
  body := "GET /users"
  resourcesString := AList.singleton "service.name" "api"
  attributesString := AList.singleton "method" "GET"
  attributesInt64 := AList.singleton "status" 200
  attributesFloat64 := ∅
  attributesBool := ∅

theorem logWithTrace_wellFormed {traceID : String} (h : IsId 32 traceID) :
    (logWithTrace traceID).WellFormed := by
  have hstring : ∀ k ∈ (logWithTrace traceID).attributesString, k = "method" := by
    simp [logWithTrace, AList.mem_keys]
  have hint : ∀ k ∈ (logWithTrace traceID).attributesInt64, k = "status" := by
    simp [logWithTrace, AList.mem_keys]
  exact
    { traceID := h
      spanID := .inl rfl
      string_int := fun k hk hk' =>
        absurd ((hstring k hk).symm.trans (hint k hk')) (by decide)
      string_float := fun k _ hk' => nomatch hk'
      string_bool := fun k _ hk' => nomatch hk'
      int_float := fun k _ hk' => nomatch hk'
      int_bool := fun k _ hk' => nomatch hk'
      float_bool := fun k _ hk' => nomatch hk'
      string_id := fun hk => absurd (hstring _ hk) (by decide)
      int_id := fun hk => absurd (hint _ hk) (by decide)
      float_id := fun hk => nomatch hk
      bool_id := fun hk => nomatch hk }

/-- A log record without ids comes back as it was. -/
theorem preview_unchanged_without_ids :
    List.Forall₂ SignozLog.Same
      (pLogsToSignozLogs madePdata (signozLogsToPLogs madePdata [logWithTrace ""]))
      [logWithTrace ""] := by
  refine (preview_unchanged_iff madePdata madePdata_lawful [logWithTrace ""] ?_).mpr ?_
  · intro log hlog
    rw [List.mem_singleton.mp hlog]
    exact logWithTrace_wellFormed (.inl rfl)
  · intro log hlog
    rw [List.mem_singleton.mp hlog]
    exact ⟨.inl rfl, .inl rfl, fun k hk => nomatch hk⟩

/-- A trace id of a log comes back as another one. -/
theorem preview_changes_traceID :
    (logWithTrace "0123456789abcdef0123456789abcdef").WellFormed ∧
      (pLogsToSignozLogs madePdata
          (signozLogsToPLogs madePdata [logWithTrace "0123456789abcdef0123456789abcdef"])).map
        SignozLog.traceID = ["30313233343536373839616263646566"] ∧
      ¬List.Forall₂ SignozLog.Same
        (pLogsToSignozLogs madePdata
          (signozLogsToPLogs madePdata [logWithTrace "0123456789abcdef0123456789abcdef"]))
        [logWithTrace "0123456789abcdef0123456789abcdef"] := by
  have htrace : (pLogsToSignozLogs madePdata
      (signozLogsToPLogs madePdata [logWithTrace "0123456789abcdef0123456789abcdef"])).map
        SignozLog.traceID = ["30313233343536373839616263646566"] := by
    rw [pLogsToSignozLogs_signozLogsToPLogs, List.map_singleton, List.map_singleton,
      madePdata_lawful.previewed_eq]
    decide +kernel
  refine ⟨logWithTrace_wellFormed (by decide +kernel), htrace, fun h => ?_⟩
  rw [pLogsToSignozLogs_signozLogsToPLogs] at h htrace
  cases h with
  | cons hsame _ =>
    have hid := hsame.traceID
    rw [List.singleton_inj.mp htrace] at hid
    exact absurd hid (by decide +kernel)

end Signoz.LogPipelines
