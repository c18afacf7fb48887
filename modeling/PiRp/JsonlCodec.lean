import PiRp.Jsonl
import PiRp.JsonTextPrefix
import PiRp.SessionNorm

/-! The line codec: a mutation whose numbers are safe integers is read back from its line up to the
sign of zeros, a strict prefix of its text is no JSON, and no text holds a newline. -/

namespace PiRp.Jsonl

open List Session Option
open Props (get?_append get?_eq_none)

/-! ### Reading properties -/

variable {key : JsStr}

theorem payload_get? (payload : Payload) (hkey : key ∈ baseKeys) : payload.props.get? key = none :=
  get?_eq_none fun entry hentry heq => (payload.keys entry hentry).1 (heq ▸ hkey)

theorem payload_filter (payload : Payload) {fields : List JsStr} (hfiel : fields ⊆ baseKeys) :
    payload.props.filter (fun entry => entry.1 ∉ fields) = payload.props :=
  filter_eq_self.mpr fun entry hentry =>
    decide_eq_true fun hmem => (payload.keys entry hentry).1 (hfiel hmem)

/-! ### Well-formed objects -/

theorem keyOrder_of_plain {other : JsStr} (hne : key ≠ other)
    (hother : arrayIndex? other = none) : KeyOrder key other := by
  refine ⟨hne, ?_⟩
  rw [keyBefore, hother]

theorem baseKeys_plain (hkey : key ∈ baseKeys) : arrayIndex? key = none := by
  have hall : ∀ key ∈ baseKeys, arrayIndex? key = none := by decide +kernel
  exact hall key hkey

variable {front back : Props Json}

theorem serializable_payload (payload : Payload) (hends : (Json.object (front ++ back)).Serializable)
    (hfront : ∀ entry ∈ front, entry.1 ∈ baseKeys) (hback : ∀ entry ∈ back, entry.1 ∈ baseKeys) :
    (Json.object (front ++ payload.props ++ back)).Serializable := by
  obtain ⟨hord, hval⟩ := Json.serializable_object_iff.mp hends
  obtain ⟨hload, hpayloadValues⟩ := Json.serializable_object_iff.mp payload.serializable
  obtain ⟨hfrontOrdered, hbackOrdered, hcross⟩ := pairwise_append.mp hord
  have hbef : ∀ left ∈ front, ∀ right ∈ payload.props, KeyOrder left.1 right.1 := by
    intro left hleft right hright
    obtain ⟨hnew, hplain⟩ := payload.keys right hright
    exact keyOrder_of_plain (fun heq => hnew (heq ▸ hfront left hleft)) hplain
  have hafter : ∀ left ∈ payload.props, ∀ right ∈ back, KeyOrder left.1 right.1 := by
    intro left hleft right hright
    obtain ⟨hnew, _⟩ := payload.keys left hleft
    exact keyOrder_of_plain (fun heq => hnew (heq ▸ hback right hright))
      (baseKeys_plain (hback right hright))
  refine .object (pairwise_append.mpr
    ⟨pairwise_append.mpr ⟨hfrontOrdered, hload, hbef⟩, hbackOrdered, ?_⟩) ?_
  · intro left hleft right hright
    rcases mem_append.mp hleft with hleft | hleft
    · exact hcross left hleft right hright
    · exact hafter left hleft right hright
  · intro entry hentry
    rcases mem_append.mp hentry with hentry | hentry
    · rcases mem_append.mp hentry with hentry | hentry
      · exact hval entry (mem_append_left _ hentry)
      · exact hpayloadValues entry hentry
    · exact hval entry (mem_append_right _ hentry)

def SerializableValues (props : Props Json) : Prop := ∀ entry ∈ props, entry.2.Serializable

@[simp] theorem serializableValues_nil : SerializableValues [] := forall_mem_nil _

@[simp] theorem serializableValues_cons (entry : JsStr × Json) (props : Props Json) :
    SerializableValues (entry :: props) ↔ entry.2.Serializable ∧ SerializableValues props :=
  forall_mem_cons

@[simp] theorem serializableValues_append (left right : Props Json) :
    SerializableValues (left ++ right) ↔ SerializableValues left ∧ SerializableValues right :=
  forall_mem_append

@[simp] theorem serializableValues_property (key : JsStr) (value : Option JsStr) :
    SerializableValues (property key (value.map Json.string)) := by
  cases value with
  | none => exact forall_mem_nil _
  | some value => exact forall_mem_singleton.mpr (.string value)

attribute [simp] Json.Serializable.string

@[simp] theorem serializable_nullable (value : Option JsStr) : (nullable value).Serializable := by
  cases value with
  | none => exact .null
  | some value => exact .string value

@[simp] theorem serializable_natural (value : Nat) : (natural value).Serializable := .number rfl

variable {props : Props Json}

theorem serializable_object (keys : List JsStr)
    (hkeys : (props.map Prod.fst).Sublist keys) (hord : keys.Pairwise KeyOrder)
    (hval : SerializableValues props) : (Json.object props).Serializable :=
  .object (pairwise_map.mp (hord.sublist hkeys)) hval

theorem property_keys (key : JsStr) (value : Option Json) : ((property key value).map Prod.fst).Sublist [key] := by
  cases value with
  | none => exact nil_sublist _
  | some value => exact List.Sublist.refl _

theorem serializable_mutationObject (mutation : SessionMutation) :
    (Json.object (mutationObject mutation)).Serializable := by
  cases mutation with
  | entry lane entry =>
    refine serializable_payload entry.payload (serializable_object
      [js "kind", js "lane", js "type", js "id", js "parentId", js "seq", js "timestamp"] ?_
      (by decide +kernel) (by simp)) ?_ ?_
    · rw [map_append, map_append, map_append]
      exact (((List.Sublist.refl _).append (property_keys _ _)).append
        (List.Sublist.refl _)).append (List.Sublist.refl _)
    · cases lane <;> simp [property, baseKeys]
    · simp [baseKeys]
  | record record =>
    refine serializable_payload record.payload (serializable_object
      [js "kind", js "type", js "id", js "lane", js "seq", js "timestamp"] (List.Sublist.refl _)
      (by decide +kernel) (by simp)) ?_ ?_
    · simp [baseKeys]
    · simp [baseKeys]
  | lane seq lane leafId =>
    exact serializable_object [js "kind", js "seq", js "lane", js "leafId"] (List.Sublist.refl _)
      (by decide +kernel) (by simp [mutationObject])
  | name seq name =>
    refine serializable_object [js "kind", js "seq", js "fact", js "name"] ?_
      (by decide +kernel) (by simp [mutationObject])
    rw [mutationObject, map_append]
    exact (List.Sublist.refl _).append (property_keys _ _)
  | label seq targetId label =>
    refine serializable_object [js "kind", js "seq", js "fact", js "targetId", js "label"] ?_
      (by decide +kernel) (by simp [mutationObject])
    rw [mutationObject, map_append]
    exact (List.Sublist.refl _).append (property_keys _ _)

theorem serializable_headerObject (header : JsonlV4Header) : (Json.object (headerObject header)).Serializable := by
  refine serializable_object [js "kind", js "version", js "id", js "createdAt", js "cwd",
    js "parentSessionId", js "legacyParentSessionPath", js "metadata"] ?_ (by decide +kernel) ?_
  · rw [headerObject, map_append, map_append, map_append]
    exact (((List.Sublist.refl _).append (property_keys _ _)).append (property_keys _ _)).append
      (property_keys _ _)
  · have hmet : SerializableValues (property (js "metadata") (header.metadata.map .object)) := by
      cases hprops : header.metadata with
      | none => exact forall_mem_nil _
      | some props => exact forall_mem_singleton.mpr (header.serializable props hprops)
    simp [headerObject, hmet]

/-! ### Decoding what was encoded -/

/-- The numbers of the mutation pass the checks of the decoder. -/
structure SafeNumbers (mutation : SessionMutation) : Prop where
  positive : 0 < mutation.seq
  seq : mutation.seq ≤ maxSafeInteger
  timestamp : ∀ timestamp, mutation.timestamp? = some timestamp → timestamp ≤ maxSafeInteger

variable {value : Nat}

theorem safeNatural?_natural (hvalue : value ≤ maxSafeInteger) :
    safeNatural? (some (natural value)) = some ⟨value, hvalue⟩ :=
  dif_pos hvalue

theorem requireSequence_natural (hpos : 0 < value)
    (hvalue : value ≤ maxSafeInteger) : requireSequence (some (natural value)) = .ok value := by
  obtain ⟨value, rfl⟩ := Nat.exists_eq_succ_of_ne_zero hpos.ne'
  rw [requireSequence, safeNatural?_natural hvalue]

theorem requireTimestamp_natural (hvalue : value ≤ maxSafeInteger) :
    requireTimestamp (some (natural value)) = .ok ⟨value, hvalue⟩ := by
  rw [requireTimestamp, safeNatural?_natural hvalue]

theorem requireString_string (value field : JsStr) : requireString (some (.string value)) field = .ok value := rfl

theorem requireNullableId_nullable (value : Option JsStr) (field : JsStr) :
    requireNullableId (some (nullable value)) field = .ok value := by
  cases value <;> rfl

theorem optionalString_string (value : Option JsStr) (field : JsStr) :
    optionalString (value.map Json.string) field = .ok value := by
  cases value <;> rfl

theorem requireName_entryType (type : EntryType) (message : JsStr) :
    requireName EntryType.name EntryType.all type.name message = .ok type := by
  cases type <;> rfl

theorem requireName_recordType (type : RecordType) (message : JsStr) :
    requireName RecordType.name RecordType.all type.name message = .ok type := by
  cases type <;> rfl

theorem requirePayload_eq (payload : Payload) {fields : List JsStr}
    (hfiel : fields ⊆ baseKeys) (hfront : front.filter (fun entry => entry.1 ∉ fields) = [])
    (hback : back.filter (fun entry => entry.1 ∉ fields) = []) :
    requirePayload (front ++ payload.props ++ back) fields = .ok payload := by
  have hrest : (front ++ payload.props ++ back).filter (fun entry => entry.1 ∉ fields) =
      payload.props := by
    rw [filter_append, filter_append, hfront, hback, payload_filter payload hfiel, nil_append, append_nil]
  have hload : (Json.object payload.props).Serializable ∧
      ∀ entry ∈ payload.props, IsPayloadKey entry.1 := ⟨payload.serializable, payload.keys⟩
  rw [requirePayload]
  simp only [hrest]
  exact dif_pos hload

theorem requireString_of_stringAt? {value : JsStr} (hvalue : stringAt? props key = some value) (field : JsStr) :
    requireString (props.get? key) field = .ok value := by
  rw [stringAt?] at hvalue
  split at hvalue
  · rename_i found hfound
    rw [hfound, ← Option.some.inj hvalue]
    rfl
  · cases hvalue

theorem stringAt?_of_get? {value : JsStr}
    (hvalue : props.get? key = some (.string value)) : stringAt? props key = some value := by
  rw [stringAt?, hvalue]

theorem get?_around (payload : Payload) (hkey : key ∈ baseKeys) :
    Props.get? (front ++ payload.props ++ back) key = Props.get? (front ++ back) key := by
  rw [get?_append, get?_append, get?_append, payload_get? payload hkey, or_none]

theorem get?_inside (payload : Payload) (hkey : Props.get? (front ++ back) key = none) :
    Props.get? (front ++ payload.props ++ back) key = payload.props.get? key := by
  rw [get?_append, or_eq_none_iff] at hkey
  rw [get?_append, get?_append, hkey.1, hkey.2, or_none, none_or]

theorem mutationObject_seq (mutation : SessionMutation) :
    (mutationObject mutation).get? (js "seq") = some (natural mutation.seq) := by
  cases mutation with
  | entry lane entry =>
    rw [mutationObject, get?_around _ (by simp [baseKeys])]
    cases lane <;> rfl
  | record record =>
    rw [mutationObject, get?_around _ (by simp [baseKeys])]
    rfl
  | lane seq lane leafId => rfl
  | name seq name => rfl
  | label seq targetId label => rfl

theorem parseEntryMutation_object {lane : Option JsStr} {entry : Entry} (htime : entry.timestamp ≤ maxSafeInteger) :
    parseEntryMutation (mutationObject (.entry lane entry)) entry.seq = .ok (.entry lane entry) := by
  obtain ⟨value, hvalue⟩ : ∃ value, value = mutationObject (.entry lane entry) := ⟨_, rfl⟩
  have hlane : value.get? (js "lane") = lane.map Json.string := by
    rw [hvalue, mutationObject, get?_around _ (by simp [baseKeys])]
    cases lane <;> rfl
  have hid : value.get? (js "id") = some (.string entry.id) := by
    rw [hvalue, mutationObject, get?_around _ (by simp [baseKeys])]
    cases lane <;> rfl
  have htype : value.get? (js "type") = some (.string entry.type.name) := by
    rw [hvalue, mutationObject, get?_around _ (by simp [baseKeys])]
    cases lane <;> rfl
  have hparentId : value.get? (js "parentId") = some (nullable entry.parentId) := by
    rw [hvalue, mutationObject, get?_around _ (by simp [baseKeys])]
    cases lane <;> rfl
  have hstamp : value.get? (js "timestamp") = some (natural entry.timestamp) := by
    rw [hvalue, mutationObject, get?_around _ (by simp [baseKeys])]
    cases lane <;> rfl
  have hcustomType : entry.type = .custom → ∃ customType,
      requireString (value.get? (js "customType")) (js "customType") = .ok customType := by
    intro hcus
    have htyped := entry.typed
    rw [hcus] at htyped
    obtain ⟨customType, hfound⟩ := isSome_iff_exists.mp htyped
    refine ⟨customType, ?_⟩
    rw [hvalue, mutationObject, get?_inside _ (by cases lane <;> rfl)]
    exact requireString_of_stringAt? hfound _
  have hload : requirePayload value
      [js "kind", js "lane", js "id", js "type", js "parentId", js "seq", js "timestamp"] =
        .ok entry.payload := by
    rw [hvalue, mutationObject]
    refine requirePayload_eq _ (by simp [baseKeys]) ?_ ?_
    · cases lane <;> rfl
    · rfl
  rw [← hvalue, parseEntryMutation, hlane, optionalString_string, hid, htype, hparentId, hstamp]
  simp only [requireString_string, ok_bind, requireName_entryType, requireNullableId_nullable,
    requireTimestamp_natural htime, hload, dif_pos entry.typed]
  split_ifs with hcus
  · obtain ⟨customType, hfound⟩ := hcustomType hcus
    rw [hfound]
    rfl
  · rfl

theorem requireRecordFields_object (record : LaneRecord) :
    requireRecordFields (mutationObject (.record record)) record.type = .ok () := by
  have htyped := record.typed
  cases htype : record.type with
  | operationStarted =>
    rw [htype] at htyped
    obtain ⟨operationKind, hfound⟩ := isSome_iff_exists.mp htyped
    rw [operationKind?, bind_eq_bind, bind_eq_some_iff] at hfound
    obtain ⟨intent, hint, hfound⟩ := hfound
    rw [bind_eq_bind, bind_eq_some_iff] at hfound
    obtain ⟨kind, hkind, hfound⟩ := hfound
    have hobj : record.payload.props.get? (js "intent") = some (.object intent) := by
      rw [objectAt?] at hint
      split at hint
      · rename_i found hget
        rw [hget, Option.some.inj hint]
      · cases hint
    rw [requireRecordFields, mutationObject, get?_inside _ rfl, hobj]
    simp only [requireString_of_stringAt? hkind, ok_bind, requireName, hfound]
    rfl
  | operationFinished =>
    rw [htype] at htyped
    obtain ⟨runId, hfound⟩ := isSome_iff_exists.mp htyped
    rw [requireRecordFields, mutationObject, get?_inside _ rfl, requireString_of_stringAt? hfound]
    rfl
  | _ => rfl

theorem parseRecordMutation_object {record : LaneRecord} (htime : record.timestamp ≤ maxSafeInteger) :
    parseRecordMutation (mutationObject (.record record)) record.seq = .ok (.record record) := by
  have hfiel := requireRecordFields_object record
  obtain ⟨value, hvalue⟩ : ∃ value, value = mutationObject (.record record) := ⟨_, rfl⟩
  have hid : value.get? (js "id") = some (.string record.id) := by
    rw [hvalue, mutationObject, get?_around _ (by simp [baseKeys])]
    rfl
  have hlane : value.get? (js "lane") = some (.string record.lane) := by
    rw [hvalue, mutationObject, get?_around _ (by simp [baseKeys])]
    rfl
  have htype : value.get? (js "type") = some (.string record.type.name) := by
    rw [hvalue, mutationObject, get?_around _ (by simp [baseKeys])]
    rfl
  have hstamp : value.get? (js "timestamp") = some (natural record.timestamp) := by
    rw [hvalue, mutationObject, get?_around _ (by simp [baseKeys])]
    rfl
  have hload : requirePayload value
      [js "kind", js "id", js "lane", js "type", js "seq", js "timestamp"] = .ok record.payload := by
    rw [hvalue, mutationObject]
    exact requirePayload_eq _ (by simp [baseKeys]) rfl rfl
  rw [← hvalue] at hfiel ⊢
  rw [parseRecordMutation, hid, hlane, htype, hstamp]
  simp only [requireString_string, ok_bind, requireName_recordType,
    requireTimestamp_natural htime, hfiel, hload, dif_pos record.typed]
  rfl

variable {mutation : SessionMutation}

/-- **A mutation is decoded from its object.** -/
theorem decodeObject_mutationObject (hsafe : SafeNumbers mutation) :
    decodeObject (mutationObject mutation) = .ok mutation := by
  have hkind : ∀ kind, (mutationObject mutation).get? (js "kind") = some (.string kind) →
      stringAt? (mutationObject mutation) (js "kind") = some kind := fun _ => stringAt?_of_get?
  rw [decodeObject, mutationObject_seq, requireSequence_natural hsafe.positive hsafe.seq, ok_bind]
  cases mutation with
  | entry lane entry =>
    rw [hkind (js "entry") rfl]
    exact parseEntryMutation_object (hsafe.timestamp _ rfl)
  | record record =>
    rw [hkind (js "record") rfl]
    exact parseRecordMutation_object (hsafe.timestamp _ rfl)
  | lane seq lane leafId =>
    have hget : (mutationObject (.lane seq lane leafId)).get? (js "leafId") =
        some (nullable leafId) := rfl
    have hobj : parseLaneMutation (mutationObject (.lane seq lane leafId)) seq =
        .ok (.lane seq lane leafId) := by
      rw [parseLaneMutation, hget, requireNullableId_nullable]
      rfl
    exact hobj
  | name seq name =>
    have hget : (mutationObject (.name seq name)).get? (js "name") = name.map Json.string := by
      cases name <;> rfl
    have hobj : parseFactMutation (mutationObject (.name seq name)) seq =
        .ok (.name seq name) := by
      rw [parseFactMutation, hget, optionalString_string]
      rfl
    exact hobj
  | label seq targetId label =>
    have hget : (mutationObject (.label seq targetId label)).get? (js "label") =
        label.map Json.string := by
      cases label <;> rfl
    have hobj : parseFactMutation (mutationObject (.label seq targetId label)) seq =
        .ok (.label seq targetId label) := by
      rw [parseFactMutation, hget, optionalString_string]
      rfl
    exact hobj

theorem requireMetadata_object {metadata : Option (Props Json)}
    (hser : ∀ props, metadata = some props → (Json.object props).Serializable) :
    requireMetadata (metadata.map Json.object) = .ok ⟨metadata, hser⟩ := by
  cases metadata with
  | none => rfl
  | some props => exact dif_pos (hser props rfl)

theorem decodeHeaderObject_headerObject (header : JsonlV4Header) :
    decodeHeaderObject (headerObject header) = .ok header := by
  obtain ⟨id, createdAt, cwd, parentSessionId, legacyParentSessionPath, metadata, oneParent, serializable⟩ := header
  obtain ⟨value, hvalue⟩ : ∃ value, value = headerObject ⟨id, createdAt, cwd, parentSessionId,
    legacyParentSessionPath, metadata, oneParent, serializable⟩ := ⟨_, rfl⟩
  have hkind : stringAt? value (js "kind") = some (js "header") := by rw [hvalue]; rfl
  have hver : numberAt? value (js "version") = some (.int 4) := by rw [hvalue]; rfl
  have hid : value.get? (js "id") = some (.string id) := by rw [hvalue]; rfl
  have hcreatedAt : value.get? (js "createdAt") = some (natural createdAt.1) := by rw [hvalue]; rfl
  have hcwd : value.get? (js "cwd") = some (.string cwd) := by rw [hvalue]; rfl
  have hpar : value.get? (js "parentSessionId") = parentSessionId.map Json.string := by
    rw [hvalue]
    cases parentSessionId <;> cases legacyParentSessionPath <;> cases metadata <;> rfl
  have hleg :
      value.get? (js "legacyParentSessionPath") = legacyParentSessionPath.map Json.string := by
    rw [hvalue]
    cases parentSessionId <;> cases legacyParentSessionPath <;> cases metadata <;> rfl
  have hmet : value.get? (js "metadata") = metadata.map Json.object := by
    rw [hvalue]
    cases parentSessionId <;> cases legacyParentSessionPath <;> cases metadata <;> rfl
  rw [← hvalue, decodeHeaderObject, hkind, hver, hid, hcreatedAt, hcwd, hpar, hleg, hmet]
  simp only [ne_eq, not_true_eq_false, if_false, optionalString_string, requireString_string,
    ok_bind, dif_pos oneParent, requireMetadata_object serializable,
    requireTimestamp_natural createdAt.2]
  rfl

/-! ### Lines -/

theorem normProps_append (left right : Props Json) :
    Json.normProps (left ++ right) = Json.normProps left ++ Json.normProps right := by
  rw [Json.normProps_eq, Json.normProps_eq, Json.normProps_eq, map_append]

theorem normProps_property (key : JsStr) (value : Option JsStr) :
    Json.normProps (property key (value.map Json.string)) = property key (value.map Json.string) := by
  cases value <;> simp [property, Json.normProps, Json.norm]

theorem norm_nullable (value : Option JsStr) : (nullable value).norm = nullable value := by
  cases value <;> simp [nullable, Json.norm]

theorem norm_natural (value : Nat) : (natural value).norm = natural value := by
  simp [natural, Json.norm]

theorem mutationObject_norm (mutation : SessionMutation) :
    Json.normProps (mutationObject mutation) = mutationObject mutation.norm := by
  cases mutation <;>
    simp only [mutationObject, SessionMutation.norm, Entry.norm, LaneRecord.norm, Payload.norm,
      normProps_append, Json.normProps, normProps_property, Json.norm, norm_nullable, norm_natural]

/-- The header with minus zero replaced by zero in its metadata. -/
def JsonlV4Header.norm (header : JsonlV4Header) : JsonlV4Header :=
  { header with
    metadata := header.metadata.map Json.normProps
    serializable := by
      intro props hprops
      obtain ⟨source, hsrc, rfl⟩ := map_eq_some_iff.mp hprops
      have hnorm := (header.serializable source hsrc).norm
      rwa [Json.norm] at hnorm }

theorem headerObject_norm (header : JsonlV4Header) :
    Json.normProps (headerObject header) = headerObject header.norm := by
  have hmet : Json.normProps (property (js "metadata") (header.metadata.map .object)) =
      property (js "metadata") ((header.metadata.map Json.normProps).map .object) := by
    cases header.metadata <;> simp [property, Json.normProps, Json.norm]
  simp only [headerObject, normProps_append, hmet, Json.normProps, normProps_property, Json.norm, norm_natural]
  rfl

theorem SafeNumbers.norm (hsafe : SafeNumbers mutation) : SafeNumbers mutation.norm where
  positive := mutation.seq_norm ▸ hsafe.positive
  seq := mutation.seq_norm ▸ hsafe.seq
  timestamp := by
    cases mutation <;> exact hsafe.timestamp

variable [JsonText.NumberText]

theorem mutationText_norm (mutation : SessionMutation) : mutationText mutation.norm = mutationText mutation := by
  have hnorm := JsonText.stringify_norm (.object (mutationObject mutation))
  rwa [Json.norm, mutationObject_norm] at hnorm

theorem headerText_norm (header : JsonlV4Header) : headerText header.norm = headerText header := by
  have hnorm := JsonText.stringify_norm (.object (headerObject header))
  rwa [Json.norm, headerObject_norm] at hnorm

theorem parseObject_stringify (hprops : (Json.object props).Serializable) :
    parseObject (JsonText.stringify (.object props)) = .ok (Json.normProps props) := by
  rw [parseObject, JsonText.parse_stringify hprops, Json.norm]

/-- **A mutation is read back from its line.** -/
theorem parseMutation_mutationText (hsafe : SafeNumbers mutation) :
    parseMutation (mutationText mutation) = .ok mutation.norm := by
  rw [parseMutation, mutationText, parseObject_stringify (serializable_mutationObject mutation),
    ok_bind, mutationObject_norm, decodeObject_mutationObject hsafe.norm]

theorem parseMutation_tooLarge (hseq : maxSafeInteger < mutation.seq) :
    parseMutation (mutationText mutation) = .error (schemaError (js "has invalid seq")) := by
  have hnat : safeNatural? (some (natural mutation.norm.seq)) = none :=
    dif_neg (mutation.seq_norm ▸ Nat.not_le.mpr hseq)
  rw [parseMutation, mutationText, parseObject_stringify (serializable_mutationObject mutation),
    ok_bind, mutationObject_norm, decodeObject, mutationObject_seq, requireSequence, hnat]
  rfl

theorem parseHeader_headerText (header : JsonlV4Header) : parseHeader (headerText header) = .ok header.norm := by
  rw [parseHeader, headerText, parseObject_stringify (serializable_headerObject header), ok_bind,
    headerObject_norm, decodeHeaderObject_headerObject]

theorem parseMutation_truncated {text rest : JsStr}
    (htext : mutationText mutation = text ++ rest) (hrest : rest ≠ []) :
    parseMutation text = .error ⟨.syntaxError, js "is not valid JSON"⟩ := by
  rw [parseMutation, parseObject, JsonText.parse_truncated (serializable_mutationObject mutation) htext hrest]
  rfl

theorem newline_not_mem_stringify {value : Json} (hvalue : value.Serializable) :
    newline ∉ JsonText.stringify value := by
  intro hmem
  have hprin := JsonText.printable_stringify hvalue newline hmem
  exact absurd hprin (by decide)

theorem newline_not_mem_mutationText (mutation : SessionMutation) : newline ∉ mutationText mutation :=
  newline_not_mem_stringify (serializable_mutationObject mutation)

theorem newline_not_mem_headerText (header : JsonlV4Header) : newline ∉ headerText header :=
  newline_not_mem_stringify (serializable_headerObject header)

theorem headerText_ne_nil (header : JsonlV4Header) : headerText header ≠ [] := by
  rw [headerText, JsonText.stringify_object]
  exact cons_ne_nil _ _

theorem mutationText_ne_nil (mutation : SessionMutation) : mutationText mutation ≠ [] := by
  rw [mutationText, JsonText.stringify_object]
  exact cons_ne_nil _ _

end PiRp.Jsonl
