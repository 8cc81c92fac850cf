import Signoz.FilterQuery.FieldKey
import Mathlib.Data.String.Basic
import Mathlib.Tactic.Cases

/-!
# The text of a field key

`TelemetryFieldKeyToText` prints a key as `context.name:type`, and `Normalize` reads context and
type out of the name of a key, where they are not known yet. Normalizing a key that has only a name
is reading the name as a text, and nothing is left to normalize after that. The printed text is
read back as the key it was printed from unless the context is `trace`: `fieldContexts` knows that
context as `tracefield` only, and `StringValue` prints `trace` (`fieldKeyText_stable_iff`).
-/

namespace Signoz.FilterQuery

/-! ## Printing -/

/-- `StringValue`. -/
def FieldDataType.stringValue : FieldDataType → String
  | .string => "string"
  | .bool => "bool"
  | .float64 => "float64"
  | .int64 => "int64"
  | .number => "number"
  | .unspecified => ""
  | .arrayString => "[]string"
  | .arrayFloat64 => "[]float64"
  | .arrayBool => "[]bool"
  | .arrayInt64 => "[]int64"
  | .arrayNumber => "[]number"
  | .arrayObject => "[]object"
  | .arrayDynamic => "[]dynamic"

/-- `TelemetryFieldKeyToText`, which is `Text`. -/
def FieldKey.text (key : FieldKey) : String :=
  (if key.fieldContext = .unspecified then "" else key.fieldContext.stringValue ++ ".") ++
    key.name ++
    if key.fieldDataType = .unspecified then "" else ":" ++ key.fieldDataType.stringValue

/-! ## Normalizing -/

/-- The first step of `Normalize`. -/
def FieldKey.normalizeDataType (key : FieldKey) : FieldKey :=
  if key.fieldDataType = .unspecified then
    match cutLast ':' key.name.toList with
    | none => key
    | some (before, potentialDataType) =>
      match fieldDataTypes.lookup (String.ofList potentialDataType) with
      | none => key
      | some dt =>
        if dt = .unspecified then key
        else { key with name := String.ofList before, fieldDataType := dt }
  else key

/-- The second step of `Normalize`. -/
def FieldKey.normalizeContext (key : FieldKey) : FieldKey :=
  if key.fieldContext = .unspecified then
    match cutFirst '.' key.name.toList with
    | none => key
    | some (potentialContext, after) =>
      match fieldContexts.lookup (String.ofList potentialContext) with
      | none => key
      | some fc =>
        if fc = .unspecified then key
        -- `log.body.` stands for the context `body`
        else if fc = .log ∧ bodyJSONStringSearchPrefix.toList.isPrefixOf after then
          { key with
            name := String.ofList (after.drop bodyJSONStringSearchPrefix.length)
            fieldContext := .body }
        else { key with name := String.ofList after, fieldContext := fc }
  else key

/-- `Normalize`. -/
def FieldKey.normalize (key : FieldKey) : FieldKey :=
  key.normalizeDataType.normalizeContext

/-- A key that has only a name. -/
def FieldKey.ofName (name : String) : FieldKey := ⟨name, .unspecified, .unspecified, false⟩

/-! ## Cutting -/

variable {c : Char}

theorem cutFirst_append {before : List Char} (h : c ∉ before) (after : List Char) :
    cutFirst c (before ++ c :: after) = some (before, after) := by
  have hall : ∀ a ∈ before, decide (a ≠ c) = true :=
    fun a ha => decide_eq_true fun heq => h (heq ▸ ha)
  rw [cutFirst, if_pos (by simp), List.takeWhile_append_of_pos hall,
    List.dropWhile_append_of_pos hall]
  simp

theorem cutLast_append (before : List Char) {after : List Char} (h : c ∉ after) :
    cutLast c (before ++ c :: after) = some (before, after) := by
  have hreverse : (before ++ c :: after).reverse = after.reverse ++ c :: before.reverse := by simp
  rw [cutLast, hreverse, cutFirst_append (by simpa using h)]
  simp

variable {cs : List Char}

theorem cutFirst_eq_none (h : c ∉ cs) : cutFirst c cs = none :=
  if_neg h

theorem cutLast_eq_none (h : c ∉ cs) : cutLast c cs = none := by
  rw [cutLast, cutFirst_eq_none (by simpa using h), Option.map_none]

theorem exists_cutLast (h : c ∈ cs) :
    ∃ before after, cs = before ++ c :: after ∧ c ∉ after := by
  obtain ⟨after, before, hcs, hnot⟩ := List.eq_append_cons_of_mem (List.mem_reverse.2 h)
  refine ⟨before.reverse, after.reverse, ?_, by simpa using hnot⟩
  rw [← List.reverse_reverse cs, hcs]
  simp

variable {front : List Char}

/-- What stands before the last of a character may grow. -/
theorem cutLast_append_left (h : c ∉ front) (cs : List Char) :
    cutLast c (front ++ cs) = (cutLast c cs).map fun p => (front ++ p.1, p.2) := by
  by_cases hc : c ∈ cs
  · obtain ⟨before, after, rfl, hnot⟩ := exists_cutLast hc
    rw [← List.append_assoc, cutLast_append _ hnot, cutLast_append _ hnot, Option.map_some]
  · rw [cutLast_eq_none hc, cutLast_eq_none (by simp [h, hc]), Option.map_none]

/-! ## The tables -/

variable {t : String}

theorem mem_of_lookup {V : Type} {v : V} {table : List (String × V)} (h : table.lookup t = some v) :
   (t, v) ∈ table := by
  obtain ⟨l, l', rfl, -⟩ := List.lookup_eq_some_iff.1 h
  simp

/-- Every data type is printed as a spelling of itself, in which there is no colon. -/
theorem dataType_printed {dt : FieldDataType} (h : fieldDataTypes.lookup t = some dt) :
    dt ≠ .unspecified ∧ fieldDataTypes.lookup dt.stringValue = some dt ∧
      ':' ∉ dt.stringValue.toList := by
  have htypes : ∀ p ∈ fieldDataTypes, p.2 ∈ [.string, .bool, .number, .arrayString, .arrayInt64,
      .arrayFloat64, .arrayNumber, .arrayBool] := by decide
  have hall : ∀ dt ∈ [.string, .bool, .number, .arrayString, .arrayInt64, .arrayFloat64,
      .arrayNumber, .arrayBool], dt ≠ FieldDataType.unspecified ∧
        fieldDataTypes.lookup dt.stringValue = some dt ∧ ':' ∉ dt.stringValue.toList := by decide
  exact hall _ (htypes _ (mem_of_lookup h))

/-- Every context but `trace` is printed as a spelling of itself. -/
theorem context_printed {fc : FieldContext} (h : fieldContexts.lookup t = some fc) :
    fc ≠ .unspecified ∧ '.' ∉ t.toList ∧ ':' ∉ t.toList ∧ (fc = .trace ↔ t = "tracefield") ∧
      (fc ≠ .trace → fieldContexts.lookup fc.stringValue = some fc) ∧
      '.' ∉ fc.stringValue.toList ∧ ':' ∉ fc.stringValue.toList := by
  have hall : ∀ p ∈ fieldContexts, p.2 ≠ .unspecified ∧ '.' ∉ p.1.toList ∧ ':' ∉ p.1.toList ∧
      (p.2 = .trace ↔ p.1 = "tracefield") ∧
      (p.2 ≠ .trace → fieldContexts.lookup p.2.stringValue = some p.2) ∧
      '.' ∉ p.2.stringValue.toList ∧ ':' ∉ p.2.stringValue.toList := by decide
  exact hall _ (mem_of_lookup h)

/-! ## The data type -/

theorem splitDataType_append_left (h : ':' ∉ front) (key : List Char) :
    splitDataType (front ++ key) = (front ++ (splitDataType key).1, (splitDataType key).2) := by
  rw [splitDataType, splitDataType, cutLast_append_left h]
  cases cutLast ':' key with
  | none => rfl
  | some p => cases hdt : fieldDataTypes.lookup (String.ofList p.2) <;> simp [hdt]

variable {key : List Char}

/-- A key without a data type is left as it is. -/
theorem splitDataType_of_unspecified (h : (splitDataType key).2 = .unspecified) :
   splitDataType key = (key, .unspecified) := by
  unfold splitDataType at h ⊢
  split at h
  · rfl
  · split at h
    · rfl
    · exact absurd h (dataType_printed (by assumption)).1

theorem splitDataType_front (key : List Char) : (splitDataType key).1 <+: key := by
  by_cases hcolon : ':' ∈ key
  · obtain ⟨before, after, rfl, hnot⟩ := exists_cutLast hcolon
    rw [splitDataType, cutLast_append _ hnot]
    cases hdt : fieldDataTypes.lookup (String.ofList after) with
    | none => simp [hdt]
    | some dt => simp [hdt]
  · have hnone : splitDataType key = (key, .unspecified) := by
      rw [splitDataType, cutLast_eq_none hcolon]
    exact hnone ▸ List.prefix_refl key

/-- A printed data type is read back. -/
theorem splitDataType_printed {dt : FieldDataType} (h : (splitDataType key).2 = dt)
    (hdt : dt ≠ .unspecified) (cs : List Char) :
    splitDataType (cs ++ ':' :: dt.stringValue.toList) = (cs, dt) := by
  have hlookup : ∃ t, fieldDataTypes.lookup t = some dt := by
    unfold splitDataType at h
    split at h
    · exact absurd h.symm hdt
    · split at h
      · exact absurd h.symm hdt
      · exact ⟨_, by rw [← h]; assumption⟩
  obtain ⟨t, ht⟩ := hlookup
  obtain ⟨-, hself, hcolon⟩ := dataType_printed ht
  rw [splitDataType, cutLast_append _ hcolon]
  simp [hself]

/-! ## The context -/

theorem splitContext_spelled {fc : FieldContext} (h : fieldContexts.lookup t = some fc)
    (after : List Char) :
    splitContext (t.toList ++ '.' :: after) =
      if fc = .log ∧ bodyJSONStringSearchPrefix.toList.isPrefixOf after then
        (.body, after.drop bodyJSONStringSearchPrefix.length)
      else (fc, after) := by
  obtain ⟨-, hdot, -⟩ := context_printed h
  rw [splitContext, cutFirst_append hdot]
  simp [h]

/-- A key either has no context, or starts with the spelling of one. -/
theorem splitContext_cases (key : List Char) :
    splitContext key = (.unspecified, key) ∨
      ∃ t fc after, fieldContexts.lookup t = some fc ∧ key = t.toList ++ '.' :: after := by
  by_cases hdot : '.' ∈ key
  · obtain ⟨before, after, rfl, hnot⟩ := List.eq_append_cons_of_mem hdot
    cases hfc : fieldContexts.lookup (String.ofList before) with
    | none => exact Or.inl (by simp [splitContext, cutFirst_append hnot, hfc])
    | some fc => exact Or.inr ⟨String.ofList before, fc, after, hfc, by simp⟩
  · exact Or.inl (by rw [splitContext, cutFirst_eq_none hdot])

theorem splitContext_trace (after : List Char) :
    splitContext ("tracefield.".toList ++ after) = (.trace, after) := by
  have hlookup : fieldContexts.lookup "tracefield" = some .trace := by decide
  have hspelled := splitContext_spelled hlookup after
  simpa using hspelled

/-- The context that is read, and the name that is left. -/
structure ContextCut (key : List Char) (fc : FieldContext) (name : List Char) : Prop where
  /-- Only text without a colon is cut off. -/
  front : ∃ front, key = front ++ name ∧ ':' ∉ front
  trace : fc = .trace → "tracefield.".toList <+: key
  printed : fc ≠ .trace → splitContext (fc.stringValue.toList ++ '.' :: name) = (fc, name)
  noColon : ':' ∉ fc.stringValue.toList

theorem splitContext_cut (h : (splitContext key).1 ≠ .unspecified) :
    ContextCut key (splitContext key).1 (splitContext key).2 := by
  obtain hnone | ⟨t, fc, after, hfc, rfl⟩ := splitContext_cases key
  · exact absurd (congrArg Prod.fst hnone) h
  obtain ⟨-, -, hcolon, htrace, hself, -, hprinted⟩ := context_printed hfc
  rw [splitContext_spelled hfc]
  by_cases hbody : fc = .log ∧ bodyJSONStringSearchPrefix.toList.isPrefixOf after
  · -- `log.body.` is cut off, and the printed context is `body`
    obtain ⟨rfl, hstart⟩ := hbody
    obtain ⟨name, rfl⟩ := List.isPrefixOf_iff_prefix.1 hstart
    rw [if_pos ⟨rfl, hstart⟩]
    have hdrop : (bodyJSONStringSearchPrefix.toList ++ name).drop
        bodyJSONStringSearchPrefix.length = name := List.drop_left
    rw [hdrop]
    refine ⟨⟨t.toList ++ '.' :: bodyJSONStringSearchPrefix.toList, by simp, ?_⟩, ?_, ?_, ?_⟩
    · have hfront : ':' ∉ '.' :: bodyJSONStringSearchPrefix.toList := by decide
      exact fun hmem => (List.mem_append.1 hmem).elim hcolon hfront
    · exact fun heq => FieldContext.noConfusion heq
    · intro _
      have hlookup : fieldContexts.lookup (FieldContext.stringValue .body) = some .body := by decide
      rw [splitContext_spelled hlookup]
      simp
    · show ':' ∉ FieldContext.body.stringValue.toList
      decide
  · rw [if_neg hbody]
    refine ⟨⟨t.toList ++ ['.'], by simp, by simpa using hcolon⟩, ?_, ?_, hprinted⟩
    · intro heq
      rw [htrace.1 heq]
      exact ⟨after, by simp⟩
    · intro hne
      rw [splitContext_spelled (hself hne), if_neg hbody]

theorem splitContext_of_unspecified (h : (splitContext key).1 = .unspecified) :
    splitContext key = (.unspecified, key) := by
  obtain hnone | ⟨t, fc, after, hfc, rfl⟩ := splitContext_cases key
  · exact hnone
  · rw [splitContext_spelled hfc] at h
    split at h
    · exact FieldContext.noConfusion h
    · exact absurd h (context_printed hfc).1

/-! ## Reading and printing -/

/-- No data type is left to read in the name of a key. -/
theorem splitDataType_name (h : (splitDataType key).2 = .unspecified) :
    splitDataType (splitContext key).2 = ((splitContext key).2, .unspecified) := by
  by_cases hfc : (splitContext key).1 = .unspecified
  · rw [splitContext_of_unspecified hfc]
    exact splitDataType_of_unspecified h
  · obtain ⟨front, hkey, hcolon⟩ := (splitContext_cut hfc).front
    rw [hkey, splitDataType_append_left hcolon] at h
    exact splitDataType_of_unspecified h

theorem splitDataType_fst (h : (splitDataType key).2 = .unspecified) :
    (splitDataType key).1 = key := by
  rw [splitDataType_of_unspecified h]

/-- The context of a key is `trace` where its text starts with the one spelling of that. -/
theorem context_eq_trace_iff (key : List Char) :
    (splitContext (splitDataType key).1).1 = .trace ↔ "tracefield.".toList <+: key := by
  constructor
  · intro htrace
    have hcut : "tracefield.".toList <+: (splitDataType key).1 :=
      (splitContext_cut (by rw [htrace]; decide)).trace htrace
    by_cases hdt : (splitDataType key).2 = .unspecified
    · rwa [splitDataType_fst hdt] at hcut
    · exact hcut.trans (splitDataType_front key)
  · rintro ⟨after, rfl⟩
    rw [splitDataType_append_left (by decide), splitContext_trace]

/-- The text of a key, in front of which its data type is read off again. -/
theorem splitDataType_text (key : List Char) (hfront : ':' ∉ front) {suffix : List Char}
    (hsuffix : suffix = if (splitDataType key).2 = .unspecified then []
      else ':' :: (splitDataType key).2.stringValue.toList) :
    splitDataType (front ++ (splitContext (splitDataType key).1).2 ++ suffix) =
      (front ++ (splitContext (splitDataType key).1).2, (splitDataType key).2) := by
  by_cases hdt : (splitDataType key).2 = .unspecified
  · have hname := splitDataType_name hdt
    rw [hsuffix, if_pos hdt, List.append_nil, splitDataType_append_left hfront,
      splitDataType_fst hdt, hname, hdt]
  · rw [hsuffix, if_neg hdt, splitDataType_printed rfl hdt]

theorem text_toList (key : FieldKey) :
    key.text.toList =
      (if key.fieldContext = .unspecified then [] else key.fieldContext.stringValue.toList ++ ['.'])
        ++ key.name.toList ++
        if key.fieldDataType = .unspecified then []
        else ':' :: key.fieldDataType.stringValue.toList := by
  rw [FieldKey.text]
  split <;> split <;> simp

/-- Reading the text of a key that was read gives that key, unless the context is `trace`. -/
theorem getFieldKeyFromKeyText_text (s : String) :
    getFieldKeyFromKeyText (getFieldKeyFromKeyText s).text = getFieldKeyFromKeyText s ↔
      ¬ "tracefield.".toList <+: s.toList := by
  rw [← context_eq_trace_iff]
  have hread : ∀ t : String, getFieldKeyFromKeyText t =
      ⟨String.ofList (splitContext (splitDataType t.toList).1).2,
        (splitContext (splitDataType t.toList).1).1, (splitDataType t.toList).2, false⟩ :=
    fun _ => rfl
  have htext := text_toList (getFieldKeyFromKeyText s)
  rw [hread s] at htext ⊢
  simp only [String.toList_ofList] at htext
  rw [hread]
  by_cases hfc : (splitContext (splitDataType s.toList).1).1 = .unspecified
  · -- nothing is printed in front of the name, and nothing was cut off there
    have hcut := splitContext_of_unspecified hfc
    rw [if_pos hfc] at htext
    rw [htext, splitDataType_text s.toList List.not_mem_nil rfl, List.nil_append, hcut]
    simp [hcut]
  · have hcut := splitContext_cut hfc
    rw [if_neg hfc] at htext
    rw [htext, splitDataType_text s.toList (by simpa using hcut.noColon) rfl]
    simp only [List.append_assoc, List.singleton_append]
    by_cases htrace : (splitContext (splitDataType s.toList).1).1 = .trace
    · -- `trace.` is no spelling of a context
      rw [htrace]
      have hunread : (splitContext (FieldContext.trace.stringValue.toList ++
          '.' :: (splitContext (splitDataType s.toList).1).2)).1 = .unspecified := by
        rw [splitContext, cutFirst_append (by decide)]
        rfl
      refine iff_of_false (fun heq => ?_) (fun hne => hne rfl)
      have hcontext := congrArg FieldKey.fieldContext heq
      rw [hunread] at hcontext
      exact FieldContext.noConfusion hcontext
    · rw [hcut.printed htrace]
      simpa using htrace

/-! ## Normalizing -/

theorem normalizeDataType_eq (key : FieldKey) :
    key.normalizeDataType =
      if key.fieldDataType = .unspecified then
        { key with
          name := String.ofList (splitDataType key.name.toList).1
          fieldDataType := (splitDataType key.name.toList).2 }
      else key := by
  obtain ⟨name, fc, dt, materialized⟩ := key
  rw [FieldKey.normalizeDataType, splitDataType]
  split
  · subst_vars
    cases cutLast ':' name.toList with
    | none => simp
    | some p =>
      cases hdt : fieldDataTypes.lookup (String.ofList p.2) with
      | none => simp only [hdt, String.ofList_toList]
      | some dt => simp only [hdt, if_neg (dataType_printed hdt).1]
  · rfl

theorem normalizeContext_eq (key : FieldKey) :
    key.normalizeContext =
      if key.fieldContext = .unspecified then
        { key with
          name := String.ofList (splitContext key.name.toList).2
          fieldContext := (splitContext key.name.toList).1 }
      else key := by
  obtain ⟨name, fc, dt, materialized⟩ := key
  rw [FieldKey.normalizeContext, splitContext]
  split
  · subst_vars
    cases cutFirst '.' name.toList with
    | none => simp
    | some p =>
      cases hfc : fieldContexts.lookup (String.ofList p.1) with
      | none => simp only [hfc, String.ofList_toList]
      | some fc =>
        have hne := (context_printed hfc).1
        simp only [hfc, if_neg hne]
        split <;> rfl
  · rfl

theorem normalize_ofName (name : String) :
    (FieldKey.ofName name).normalize = getFieldKeyFromKeyText name := by
  rw [FieldKey.normalize, normalizeDataType_eq, normalizeContext_eq]
  simp [FieldKey.ofName, getFieldKeyFromKeyText]

/-- Once the data type is settled, cutting off a context settles the context and keeps the type. -/
theorem normalize_normalizeContext {key : FieldKey}
    (h : key.fieldDataType = .unspecified →
      splitDataType key.name.toList = (key.name.toList, .unspecified)) :
    key.normalizeContext.normalize = key.normalizeContext := by
  obtain ⟨name, fc, dt, materialized⟩ := key
  have hname : dt = .unspecified → (splitDataType name.toList).2 = .unspecified :=
    fun hdt => congrArg Prod.snd (h hdt)
  rw [FieldKey.normalize, normalizeDataType_eq, normalizeContext_eq, normalizeContext_eq]
  by_cases hfc : fc = .unspecified
  · simp only [if_pos hfc]
    have htyped : dt = .unspecified → splitDataType (splitContext name.toList).2 =
        ((splitContext name.toList).2, .unspecified) := fun hdt => splitDataType_name (hname hdt)
    by_cases hcut : (splitContext name.toList).1 = .unspecified
    · rw [splitContext_of_unspecified hcut] at htyped ⊢
      by_cases hdt : dt = .unspecified
      · simp [hdt, htyped hdt, splitContext_of_unspecified hcut]
      · simp [hdt, splitContext_of_unspecified hcut]
    · by_cases hdt : dt = .unspecified
      · simp [hdt, htyped hdt, hcut]
      · simp [hdt, hcut]
  · by_cases hdt : dt = .unspecified
    · have hself := h hdt
      simp only at hself
      simp [hfc, hdt, hself]
    · simp [hfc, hdt]

theorem normalize_normalize (key : FieldKey) : key.normalize.normalize = key.normalize := by
  apply normalize_normalizeContext
  rw [normalizeDataType_eq]
  split
  · intro hdt
    simp only [String.toList_ofList] at hdt ⊢
    rw [splitDataType_of_unspecified hdt]
    exact splitDataType_of_unspecified hdt
  · exact fun hdt => absurd hdt (by assumption)

/-- A text is stable under reading and printing exactly where its context is not `trace`; reading
it is normalizing, and normalizing twice is normalizing once, everywhere. -/
theorem fieldKeyText_stable_iff (s : String) :
    (getFieldKeyFromKeyText (getFieldKeyFromKeyText s).text = getFieldKeyFromKeyText s ∧
      (FieldKey.ofName s).normalize = getFieldKeyFromKeyText s ∧
      ∀ key : FieldKey, key.normalize.normalize = key.normalize) ↔
      ¬ "tracefield.".toList <+: s.toList := by
  constructor
  · exact fun h => (getFieldKeyFromKeyText_text s).1 h.1
  · intro h
    refine ⟨(getFieldKeyFromKeyText_text s).2 h, normalize_ofName s, normalize_normalize⟩

/-- `tracefield.id` is printed as `trace.id`, which is a name without a context. -/
theorem tracefield_not_stable :
    getFieldKeyFromKeyText (getFieldKeyFromKeyText "tracefield.id").text ≠
      getFieldKeyFromKeyText "tracefield.id" := by
  decide +kernel

end Signoz.FilterQuery
