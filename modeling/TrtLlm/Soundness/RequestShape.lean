import TrtLlm.Model.Wire.WorkerRequest
import TrtLlm.ToMathlib.FirstFault

/-! # What the worker lets through

Any client may post to the worker. A payload that is accepted has known fields only; every control that it gives
reaches the runtime under its own name, nothing else does, and each value is in its range. NaN passes a range.
-/

namespace TrtLlm.Wire

/-! ### The contract of the keyword arguments -/

/-- A float that no bound excludes. -/
def Within (minimum maximum : Option ℤ) (value : FloatValue) : Prop :=
  minimum.any value.below = false ∧ maximum.any value.above = false

def IsInt (minimum : ℤ) (value : JsonValue) : Prop := ∃ n : ℤ, minimum ≤ n ∧ value = .int n

def IsNumber (minimum maximum : Option ℤ) (value : JsonValue) : Prop :=
  ∃ x, Within minimum maximum x ∧ value = .float x

def IsBool (value : JsonValue) : Prop := ∃ b, value = .bool b

def IsStop (value : JsonValue) : Prop :=
  (∃ text, value = .str text) ∨ ∃ texts : List String, value = .list (texts.map .str)

def IsTokens (value : JsonValue) : Prop :=
  ∃ tokens : List ℤ, (∀ token ∈ tokens, 0 ≤ token) ∧ value = .list (tokens.map .int)

/-- What the runtime may be called with, by keyword. -/
def kwargContract : List (String × (JsonValue → Prop)) :=
  [("max_tokens", IsInt 1), ("temperature", IsNumber (some 0) none), ("top_p", IsNumber (some 0) (some 1)),
    ("top_k", fun value => value = .null ∨ IsInt 0 value), ("ignore_eos", IsBool), ("seed", IsInt 0),
    ("min_tokens", IsInt 0), ("stop", IsStop), ("stop_token_ids", IsTokens),
    ("repetition_penalty", IsNumber none none), ("presence_penalty", IsNumber none none),
    ("frequency_penalty", IsNumber none none), ("min_p", IsNumber (some 0) (some 1)),
    ("thinking_token_budget", IsInt 0), ("include_stop_str_in_output", IsBool), ("skip_special_tokens", IsBool),
    ("spaces_between_special_tokens", IsBool)]

/-- The keyword argument keeps the contract. -/
def Kept (kwarg : String × JsonValue) : Prop := ∃ rule ∈ kwargContract, rule.1 = kwarg.1 ∧ rule.2 kwarg.2

/-- What is passed on for a value that was sent: the value itself, a `float` for an integer, or `None` for the
sentinel of `top_k`. -/
def Carries (sent passed : JsonValue) : Prop :=
  passed = sent ∨ (∃ n : ℤ, sent = .int n ∧ passed = .float (.finite n)) ∨ sent = .int (-1) ∧ passed = .null

/-! ### What a check lets through -/

theorem requireObject_eq_ok {name : String} {value : JsonValue} {fields : JsonFields}
    (passed : value.requireObject name = .ok fields) : value = .object fields := by
  cases value with
  | object found => exact congrArg _ (Except.ok.inj passed)
  | _ => cases passed

theorem requireInt_eq_ok {name : String} {minimum n : ℤ} {value : JsonValue}
    (passed : value.requireInt name (some minimum) = .ok n) : minimum ≤ n ∧ value = .int n := by
  cases value with
  | int found =>
    simp only [JsonValue.requireInt, Option.any_some, decide_eq_true_eq] at passed
    split at passed
    · cases passed
    next bound =>
      cases passed
      exact ⟨not_lt.mp bound, rfl⟩
  | _ => cases passed

theorem checkRange_eq_ok {name : String} {minimum maximum : Option ℤ} {value result : FloatValue}
    (passed : JsonValue.checkRange name minimum maximum value = .ok result) :
    Within minimum maximum result ∧ value = result := by
  rw [JsonValue.checkRange] at passed
  split at passed
  · cases passed
  next low =>
    split at passed
    · cases passed
    next high =>
      cases passed
      exact ⟨⟨Bool.eq_false_iff.mpr low, Bool.eq_false_iff.mpr high⟩, rfl⟩

theorem floatOfInt_eq_ok {n : ℤ} {x : FloatValue} (passed : floatOfInt n = .ok x) : x = .finite n := by
  rw [floatOfInt] at passed
  split at passed
  · exact (Except.ok.inj passed).symm
  · cases passed

theorem requireNumber_eq_ok {name : String} {minimum maximum : Option ℤ} {value : JsonValue} {result : FloatValue}
    (passed : value.requireNumber name minimum maximum = .ok result) :
    Within minimum maximum result ∧ Carries value (.float result) := by
  cases value with
  | int found =>
    obtain ⟨x, converted, ranged⟩ := Except.bind_eq_ok.mp passed
    obtain ⟨within, rfl⟩ := checkRange_eq_ok ranged
    obtain rfl := floatOfInt_eq_ok converted
    exact ⟨within, .inr (.inl ⟨found, rfl, rfl⟩)⟩
  | float found =>
    obtain ⟨within, rfl⟩ := checkRange_eq_ok passed
    exact ⟨within, .inl rfl⟩
  | _ => cases passed

theorem requireBool_eq_ok {name : String} {value : JsonValue} {b : Bool} (passed : value.requireBool name = .ok b) :
    value = .bool b := by
  cases value with
  | bool found => exact congrArg _ (Except.ok.inj passed)
  | _ => cases passed

theorem requireTokens_eq_ok {name : String} {value : JsonValue} {tokens : List ℤ}
    (passed : value.requireTokens name = .ok tokens) :
    (∀ token ∈ tokens, 0 ≤ token) ∧ value = .list (tokens.map .int) := by
  cases value with
  | list items =>
    have each : List.Forall₂ (fun item token => JsonValue.requireInt (name ++ "[]") (some 0) item = .ok token)
        items tokens := List.forall₂_of_mapM_ok passed
    suffices both : (∀ token ∈ tokens, 0 ≤ token) ∧ items = tokens.map .int from ⟨both.1, congrArg _ both.2⟩
    clear passed
    induction each with
    | nil => exact ⟨by simp, rfl⟩
    | @cons item token items tokens here _ ih =>
      obtain ⟨positive, rfl⟩ := requireInt_eq_ok here
      exact ⟨List.forall_mem_cons.mpr ⟨positive, ih.1⟩, congrArg _ ih.2⟩
  | _ => cases passed

theorem texts_of_isStr {items : List JsonValue} (texts : items.all JsonValue.isStr = true) :
    ∃ spelled : List String, JsonValue.list items = .list (spelled.map .str) := by
  suffices ∃ spelled : List String, items = spelled.map .str from this.imp fun _ => congrArg _
  induction items with
  | nil => exact ⟨[], rfl⟩
  | cons item items ih =>
    rw [List.all_cons, Bool.and_eq_true] at texts
    obtain ⟨spelled, rfl⟩ := ih texts.2
    cases item with
    | str text => exact ⟨text :: spelled, rfl⟩
    | _ => cases texts.1

theorem requireStop_eq_ok {value result : JsonValue} (passed : value.requireStop = .ok result) :
    IsStop result ∧ result = value := by
  cases value with
  | str text =>
    cases passed
    exact ⟨.inl ⟨text, rfl⟩, rfl⟩
  | list items =>
    rw [JsonValue.requireStop] at passed
    split at passed
    next texts =>
      cases passed
      exact ⟨.inr (texts_of_isStr texts), rfl⟩
    · cases passed
  | _ => cases passed

theorem rejectUnknown_known {allowed : List String} {name code : String} {mapping : JsonFields}
    (passed : rejectUnknown allowed name code mapping = .ok ()) : ∀ field ∈ mapping, field.1 ∈ allowed := by
  rw [rejectUnknown] at passed
  split at passed
  next none =>
    intro field member
    by_contra unknown
    have listed : field.1 ∈ unknownFields allowed mapping := by
      refine (List.mem_insertionSort _).mpr (List.mem_filter.mpr ⟨List.mem_map_of_mem member, ?_⟩)
      simpa using unknown
    rw [none] at listed
    cases listed
  · cases passed

theorem rejectMissing_present {required : List String} {name : String} {mapping : JsonFields}
    (passed : rejectMissing required name mapping = .ok ()) : ∀ key ∈ required, (mapping.lookup key).isSome := by
  rw [rejectMissing] at passed
  split at passed
  next none =>
    intro key member
    by_contra absent
    have listed : key ∈ missingFields required mapping := by
      refine (List.mem_insertionSort _).mpr (List.mem_filter.mpr ⟨member, ?_⟩)
      rw [← Option.not_isSome, Bool.not_eq_eq_eq_not]
      exact Bool.eq_false_iff.mpr absent
    rw [none] at listed
    cases listed
  · cases passed

/-! ### Copied controls -/

/-- A copied control is absent, or its checked value goes on under its own name. -/
theorem copy_eq_ok {mapping : JsonFields} {control : Control} {out : Kwargs} (passed : control.copy mapping = .ok out) :
    (mapping.lookup control.1 = none ∧ out = []) ∨
      ∃ value checked, mapping.lookup control.1 = some value ∧ control.2 value = .ok checked ∧
        out = [(control.1, checked)] := by
  rw [Control.copy] at passed
  split at passed
  next absent =>
    cases passed
    exact .inl ⟨absent, rfl⟩
  next value given =>
    obtain ⟨checked, valid, same⟩ := Except.map_eq_ok.mp passed
    exact .inr ⟨value, checked, given, valid, same.symm⟩

theorem keys_of_copy {mapping : JsonFields} {control : Control} {out : Kwargs}
    (passed : control.copy mapping = .ok out) :
    out.map Prod.fst = [control.1].filter fun key => (mapping.lookup key).isSome := by
  rcases copy_eq_ok passed with ⟨absent, rfl⟩ | ⟨value, checked, given, _, rfl⟩
  · simp [absent]
  · simp [given]

/-- The controls that are given go on, in the order of the checks. -/
theorem keys_of_copies {mapping : JsonFields} {controls : List Control} {outs : List Kwargs}
    (passed : controls.mapM (Control.copy mapping) = .ok outs) :
    outs.flatten.map Prod.fst = (controls.map Prod.fst).filter fun key => (mapping.lookup key).isSome := by
  have each := List.forall₂_of_mapM_ok passed
  clear passed
  induction each with
  | nil => rfl
  | @cons control out controls outs here _ ih =>
    rw [List.flatten_cons, List.map_append, keys_of_copy here, ih, List.map_cons,
      ← List.singleton_append (l := controls.map Prod.fst), List.filter_append]

/-- The check of a control keeps the contract of its keyword and passes on what was sent. -/
def Sound (control : Control) : Prop :=
  ∀ value checked, control.2 value = .ok checked → Kept (control.1, checked) ∧ Carries value checked

theorem sound_int {key name : String} (rule : (key, IsInt 0) ∈ kwargContract) : Sound (.int key name) := by
  intro value checked passed
  obtain ⟨n, valid, rfl⟩ := Except.map_eq_ok.mp passed
  obtain ⟨bound, rfl⟩ := requireInt_eq_ok valid
  exact ⟨⟨_, rule, rfl, n, bound, rfl⟩, .inl rfl⟩

theorem sound_number {key name : String} {minimum maximum : Option ℤ}
    (rule : (key, IsNumber minimum maximum) ∈ kwargContract) : Sound (.number key name minimum maximum) := by
  intro value checked passed
  obtain ⟨x, valid, rfl⟩ := Except.map_eq_ok.mp passed
  obtain ⟨within, carries⟩ := requireNumber_eq_ok valid
  exact ⟨⟨_, rule, rfl, x, within, rfl⟩, carries⟩

theorem sound_bool {key name : String} (rule : (key, IsBool) ∈ kwargContract) : Sound (.bool key name) := by
  intro value checked passed
  obtain ⟨b, valid, rfl⟩ := Except.map_eq_ok.mp passed
  obtain rfl := requireBool_eq_ok valid
  exact ⟨⟨_, rule, rfl, b, rfl⟩, .inl rfl⟩

theorem sound_stop : Sound ("stop", JsonValue.requireStop) := by
  intro value checked passed
  obtain ⟨texts, rfl⟩ := requireStop_eq_ok passed
  exact ⟨⟨("stop", IsStop), by simp [kwargContract], rfl, texts⟩, .inl rfl⟩

theorem sound_stopTokenIds : Sound ("stop_token_ids", fun value =>
    (fun tokens => .list (tokens.map .int)) <$> value.requireTokens "sampling.extra.stop_token_ids") := by
  intro value checked passed
  obtain ⟨tokens, valid, rfl⟩ := Except.map_eq_ok.mp passed
  obtain ⟨positive, rfl⟩ := requireTokens_eq_ok valid
  exact ⟨⟨("stop_token_ids", IsTokens), by simp [kwargContract], rfl, tokens, positive, rfl⟩, .inl rfl⟩

theorem sound_extraControls : ∀ control ∈ extraControls, Sound control := by
  simp only [extraControls, List.forall_mem_cons, List.not_mem_nil, false_implies, implies_true, and_true]
  refine ⟨sound_int ?_, sound_stop, sound_stopTokenIds, sound_number ?_, sound_number ?_, sound_number ?_,
    sound_number ?_, sound_int ?_, sound_bool ?_, sound_bool ?_, sound_bool ?_⟩
  all_goals simp [kwargContract]

/-- A keyword argument that keeps the contract and comes from a field of the mapping. -/
def PassedOn (mapping : JsonFields) (kwarg : String × JsonValue) : Prop :=
  Kept kwarg ∧ ∃ sent, mapping.lookup kwarg.1 = some sent ∧ Carries sent kwarg.2

theorem passedOn_of_copy {mapping : JsonFields} {control : Control} {out : Kwargs} (sound : Sound control)
    (passed : control.copy mapping = .ok out) : ∀ kwarg ∈ out, PassedOn mapping kwarg := by
  rcases copy_eq_ok passed with ⟨_, rfl⟩ | ⟨value, checked, given, valid, rfl⟩
  · simp
  · intro kwarg member
    obtain ⟨kept, carries⟩ := sound value checked valid
    rw [List.mem_singleton.mp member]
    exact ⟨kept, value, given, carries⟩

theorem passedOn_of_copies {mapping : JsonFields} {controls : List Control} {outs : List Kwargs}
    (sound : ∀ control ∈ controls, Sound control) (passed : controls.mapM (Control.copy mapping) = .ok outs) :
    ∀ kwarg ∈ outs.flatten, PassedOn mapping kwarg := by
  intro kwarg member
  obtain ⟨out, listed, inside⟩ := List.mem_flatten.mp member
  obtain ⟨i, bound, rfl⟩ := List.getElem_of_mem listed
  have matched := List.forall₂_iff_get.mp (List.forall₂_of_mapM_ok passed)
  have bound' : i < controls.length := matched.1 ▸ bound
  exact passedOn_of_copy (sound _ (List.getElem_mem bound')) (matched.2 i bound' bound) kwarg inside

/-! ### The fields every request carries -/

theorem field_eq_some {mapping : JsonFields} {key : String} (present : (mapping.lookup key).isSome) :
    mapping.lookup key = some (field mapping key) := by
  obtain ⟨value, found⟩ := Option.isSome_iff_exists.mp present
  rw [field, found]
  rfl

theorem passedOn_of_base {sampling : JsonFields} {base : Kwargs}
    (present : ∀ key ∈ requiredSampling, (sampling.lookup key).isSome) (passed : baseKwargs sampling = .ok base) :
    base.map Prod.fst = requiredSampling ∧ ∀ kwarg ∈ base, PassedOn sampling kwarg := by
  obtain ⟨topK, topKValid, passed⟩ := Except.bind_eq_ok.mp passed
  obtain ⟨maxTokens, maxTokensValid, passed⟩ := Except.bind_eq_ok.mp passed
  obtain ⟨temperature, temperatureValid, passed⟩ := Except.bind_eq_ok.mp passed
  obtain ⟨topP, topPValid, passed⟩ := Except.bind_eq_ok.mp passed
  obtain ⟨ignoreEos, ignoreEosValid, passed⟩ := Except.bind_eq_ok.mp passed
  cases passed
  simp only [requiredSampling, List.forall_mem_cons, List.not_mem_nil, false_implies, implies_true, and_true]
    at present ⊢
  obtain ⟨hasMaxTokens, hasTemperature, hasTopP, hasTopK, hasIgnoreEos⟩ := present
  refine ⟨rfl, ⟨⟨⟨("max_tokens", IsInt 1), by simp [kwargContract], rfl, ?_⟩, _, field_eq_some hasMaxTokens, ?_⟩,
    ⟨⟨("temperature", IsNumber (some 0) none), by simp [kwargContract], rfl, ?_⟩, _, field_eq_some hasTemperature, ?_⟩,
    ⟨⟨("top_p", IsNumber (some 0) (some 1)), by simp [kwargContract], rfl, ?_⟩, _, field_eq_some hasTopP, ?_⟩,
    ⟨⟨("top_k", fun value => value = .null ∨ IsInt 0 value), by simp [kwargContract], rfl, ?_⟩, _,
      field_eq_some hasTopK, ?_⟩,
    ⟨⟨("ignore_eos", IsBool), by simp [kwargContract], rfl, ignoreEos, rfl⟩, _, field_eq_some hasIgnoreEos, ?_⟩⟩⟩
  · exact ⟨maxTokens, (requireInt_eq_ok maxTokensValid).1, rfl⟩
  · exact .inl (requireInt_eq_ok maxTokensValid).2.symm
  · exact ⟨temperature, (requireNumber_eq_ok temperatureValid).1, rfl⟩
  · exact (requireNumber_eq_ok temperatureValid).2
  · exact ⟨topP, (requireNumber_eq_ok topPValid).1, rfl⟩
  · exact (requireNumber_eq_ok topPValid).2
  · obtain ⟨bound, _⟩ := requireInt_eq_ok topKValid
    by_cases unset : topK = -1
    · exact .inl (if_pos unset)
    · exact .inr ⟨topK, by omega, if_neg unset⟩
  · obtain ⟨_, same⟩ := requireInt_eq_ok topKValid
    rw [same]
    by_cases unset : topK = -1
    · exact .inr (.inr ⟨congrArg _ unset, if_pos unset⟩)
    · exact .inl (if_neg unset)
  · exact .inl (requireBool_eq_ok ignoreEosValid).symm

/-! ### Accepted payloads -/

/-- What holds of a payload that is accepted, and of what is made of it. -/
structure Accepted (payload : JsonValue) (request sampling extra : JsonFields) (prompt : List ℤ) (kwargs : Kwargs) :
    Prop where
  request_known : payload = .object request ∧ ∀ field ∈ request, field.1 ∈ requestFields
  sampling_known : request.lookup "sampling" = some (.object sampling) ∧ ∀ field ∈ sampling, field.1 ∈ samplingFields
  extra_known : (sampling.lookup "extra").getD (.object []) = .object extra ∧ ∀ field ∈ extra, field.1 ∈ extraFields
  named : ∃ id, request.lookup "request_id" = some (.str id) ∧ id ≠ ""
  prompted : request.lookup "prompt_token_ids" = some (.list (prompt.map .int)) ∧ prompt ≠ [] ∧
    ∀ token ∈ prompt, 0 ≤ token
  /-- No keyword is set twice. -/
  distinct : (kwargs.map Prod.fst).Nodup
  /-- Nothing that the client gave is dropped. -/
  complete : ∀ field ∈ sampling ++ extra, field.1 ≠ "extra" → field.1 ∈ kwargs.map Prod.fst
  /-- Nothing goes on that the client did not give, and each value keeps the contract of its keyword. -/
  faithful : ∀ kwarg ∈ kwargs, PassedOn sampling kwarg ∨ PassedOn extra kwarg

theorem lookup_isSome_of_mem {mapping : JsonFields} {field : String × JsonValue} (member : field ∈ mapping) :
    (mapping.lookup field.1).isSome := by
  cases found : mapping.lookup field.1 with
  | some value => rfl
  | none => exact absurd rfl (bne_iff_ne.mp (List.lookup_eq_none_iff.mp found field member))

/-- The keywords in the order they are set. -/
def keywords (sampling extra : JsonFields) : List String :=
  requiredSampling ++ ["seed"].filter (fun key => (sampling.lookup key).isSome) ++
    (extraControls.map Prod.fst).filter fun key => (extra.lookup key).isSome

theorem nodup_keywords (sampling extra : JsonFields) : (keywords sampling extra).Nodup := by
  have all : (requiredSampling ++ ["seed"] ++ extraControls.map Prod.fst).Nodup := by
    simp [requiredSampling, extraControls, Control.int, Control.number, Control.bool]
  refine all.sublist (List.Sublist.append (List.Sublist.append (.refl _) ?_) ?_)
  · exact List.filter_sublist
  · exact List.filter_sublist

theorem mem_keywords_of_extra {sampling extra : JsonFields} (known : ∀ field ∈ extra, field.1 ∈ extraFields)
    {field : String × JsonValue} (member : field ∈ extra) : field.1 ∈ keywords sampling extra := by
  have listed : field.1 ∈ extraControls.map Prod.fst := by
    have spelled := known field member
    simp only [extraFields, List.mem_cons, List.not_mem_nil, or_false] at spelled
    simp only [extraControls, Control.int, Control.number, Control.bool, List.map_cons, List.map_nil, List.mem_cons,
      List.not_mem_nil, or_false]
    tauto
  exact List.mem_append_right _ (List.mem_filter.mpr ⟨listed, lookup_isSome_of_mem member⟩)

theorem mem_keywords_of_sampling {sampling extra : JsonFields} (known : ∀ field ∈ sampling, field.1 ∈ samplingFields)
    {field : String × JsonValue} (member : field ∈ sampling) (other : field.1 ≠ "extra") :
    field.1 ∈ keywords sampling extra := by
  have spelled := known field member
  have present := lookup_isSome_of_mem member
  refine List.mem_append_left _ (List.mem_append.mpr ?_)
  by_cases seed : field.1 = "seed"
  · exact .inr (List.mem_filter.mpr ⟨List.mem_singleton.mpr seed, present⟩)
  · simp only [samplingFields, List.mem_cons, List.not_mem_nil, or_false] at spelled
    simp only [requiredSampling, List.mem_cons, List.not_mem_nil, or_false]
    tauto

/-- What holds of the sampling parameters of an accepted payload. -/
theorem samplingParams_eq_ok {request : JsonFields} {kwargs : Kwargs} (passed : samplingParams request = .ok kwargs) :
    ∃ sampling extra : JsonFields, field request "sampling" = .object sampling ∧
      (∀ field ∈ sampling, field.1 ∈ samplingFields) ∧
      (sampling.lookup "extra").getD (.object []) = .object extra ∧ (∀ field ∈ extra, field.1 ∈ extraFields) ∧
      kwargs.map Prod.fst = keywords sampling extra ∧ ∀ kwarg ∈ kwargs, PassedOn sampling kwarg ∨ PassedOn extra kwarg := by
  obtain ⟨sampling, object, passed⟩ := Except.bind_eq_ok.mp passed
  obtain ⟨_, known, passed⟩ := Except.bind_eq_ok.mp passed
  obtain ⟨_, required, passed⟩ := Except.bind_eq_ok.mp passed
  obtain ⟨base, baseValid, passed⟩ := Except.bind_eq_ok.mp passed
  obtain ⟨seed, seedValid, passed⟩ := Except.bind_eq_ok.mp passed
  obtain ⟨extra, extraObject, passed⟩ := Except.bind_eq_ok.mp passed
  obtain ⟨_, extraKnown, passed⟩ := Except.bind_eq_ok.mp passed
  obtain ⟨extras, extrasValid, passed⟩ := Except.bind_eq_ok.mp passed
  cases passed
  obtain ⟨baseKeys, basePassed⟩ := passedOn_of_base (rejectMissing_present required) baseValid
  have seedSound : Sound (.int "seed" "sampling.seed") := sound_int (by simp [kwargContract])
  refine ⟨sampling, extra, requireObject_eq_ok object, rejectUnknown_known known, requireObject_eq_ok extraObject,
    rejectUnknown_known extraKnown, ?_, ?_⟩
  · rw [List.map_append, List.map_append, baseKeys, keys_of_copy seedValid, keys_of_copies extrasValid]
    rfl
  · intro kwarg member
    rcases List.mem_append.mp member with early | late
    · refine .inl ((List.mem_append.mp early).elim (basePassed kwarg) fun seeded => ?_)
      exact passedOn_of_copy seedSound seedValid kwarg seeded
    · exact .inr (passedOn_of_copies sound_extraControls extrasValid kwarg late)

theorem badRequestId_eq_false {value : JsonValue} (named : badRequestId value = false) :
    ∃ id, value = .str id ∧ id ≠ "" := by
  cases value with
  | str id => exact ⟨id, rfl, of_decide_eq_false named⟩
  | _ => cases named

/-- Every payload the worker accepts. -/
theorem parseRequest_accepted {payload : JsonValue} {prompt : List ℤ} {kwargs : Kwargs}
    (passed : parseRequest payload = .ok (prompt, kwargs)) :
    ∃ request sampling extra, Accepted payload request sampling extra prompt kwargs := by
  obtain ⟨request, object, passed⟩ := Except.bind_eq_ok.mp passed
  obtain ⟨_, known, passed⟩ := Except.bind_eq_ok.mp passed
  obtain ⟨_, required, passed⟩ := Except.bind_eq_ok.mp passed
  have present : ∀ key ∈ requestFields, request.lookup key = some (field request key) :=
    fun key member => field_eq_some (rejectMissing_present required key member)
  split at passed
  · cases passed
  next named =>
    obtain ⟨tokens, tokensValid, passed⟩ := Except.bind_eq_ok.mp passed
    split at passed
    · cases passed
    next filled =>
      obtain ⟨made, samplingValid, same⟩ := Except.bind_eq_ok.mp passed
      cases same
      obtain ⟨id, spelled, nonempty⟩ := badRequestId_eq_false (Bool.eq_false_iff.mpr named)
      obtain ⟨positive, listed⟩ := requireTokens_eq_ok tokensValid
      obtain ⟨sampling, extra, samplingObject, samplingKnown, extraObject, extraKnown, keys, faithful⟩ :=
        samplingParams_eq_ok samplingValid
      refine ⟨request, sampling, extra, ⟨requireObject_eq_ok object, rejectUnknown_known known⟩,
        ⟨?_, samplingKnown⟩, ⟨extraObject, extraKnown⟩, ⟨id, ?_, nonempty⟩, ⟨?_, filled, positive⟩, ?_, ?_, faithful⟩
      · rw [present "sampling" (by simp [requestFields]), samplingObject]
      · rw [present "request_id" (by simp [requestFields]), spelled]
      · rw [present "prompt_token_ids" (by simp [requestFields]), listed]
      · rw [keys]
        exact nodup_keywords sampling extra
      · intro field member other
        rw [keys]
        rcases List.mem_append.mp member with inSampling | inExtra
        · exact mem_keywords_of_sampling samplingKnown inSampling other
        · exact mem_keywords_of_extra extraKnown inExtra

/-- A client that is not the engine; its `top_p` is NaN. -/
theorem parseRequest_accepted_nan :
    let payload : JsonValue := .object [("request_id", .str "a"), ("prompt_token_ids", .list [.int 5]),
      ("sampling", .object [("max_tokens", .int 1), ("temperature", .float (.finite 0)), ("top_p", .float .nan),
        ("top_k", .int (-1)), ("ignore_eos", .bool true), ("extra", .object [("stop", .str "END")])])]
    ∃ request sampling extra, Accepted payload request sampling extra [5]
      [("max_tokens", .int 1), ("temperature", .float (.finite 0)), ("top_p", .float .nan), ("top_k", .null),
        ("ignore_eos", .bool true), ("stop", .str "END")] :=
  parseRequest_accepted (by rfl)

end TrtLlm.Wire
