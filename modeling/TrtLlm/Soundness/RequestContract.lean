import TrtLlm.Model.Wire.DynamoEngine
import TrtLlm.Model.Wire.WorkerRequest
import TrtLlm.ToMathlib.FirstFault

/-! # The engine's requests meet the worker's contract

What the Rust engine sends for a request that it converts, read by the Python worker. The Rust types already rule out
most of what the worker checks; the rest is the list of faults below, in the order the worker finds them. Without a
fault every control of the request reaches the runtime.
-/

namespace TrtLlm.Wire

/-! ### What the contract asks of a request -/

/-- What `_require_int` finds wrong with an integer. -/
def intFault (name : String) (minimum value : ℤ) : Option String :=
  if value < minimum then some (name ++ " must be at least " ++ toString minimum) else none

/-- What `_require_number` finds wrong with a float that went over the wire. -/
def numberFault (name : String) (minimum maximum : Option ℤ) : FloatValue → Option String
  | .finite value =>
    if minimum.any fun bound : ℤ => value < (bound : ℚ) then some (name ++ " must be at least " ++ showWhole (minimum.getD 0))
    else if maximum.any fun bound : ℤ => (bound : ℚ) < value then
      some (name ++ " must be at most " ++ showWhole (maximum.getD 0))
    else none
  | _ => some (name ++ " must be a number")

namespace PreprocessedRequest

def maxTokens (config : DynamoEngineConfig) (request : PreprocessedRequest) : ℕ :=
  request.stopConditions.maxTokens.getD config.defaultMaxTokens

def temperature (request : PreprocessedRequest) : FloatValue := request.samplingOptions.temperature.getD (.finite 0)

def topP (request : PreprocessedRequest) : FloatValue := request.samplingOptions.topP.getD (.finite 1)

def topK (request : PreprocessedRequest) : ℤ := request.samplingOptions.topK.getD (-1)

/-- What the worker may object to, in the order it looks. -/
def objections (config : DynamoEngineConfig) (request : PreprocessedRequest) : List (Option String) :=
  [if request.tokenIds = [] then some "prompt_token_ids must not be empty" else none,
    intFault "sampling.top_k" (-1) request.topK,
    intFault "sampling.max_tokens" 1 (request.maxTokens config),
    numberFault "sampling.temperature" (some 0) none request.temperature,
    numberFault "sampling.top_p" (some 0) (some 1) request.topP,
    request.samplingOptions.repetitionPenalty.bind (numberFault "sampling.extra.repetition_penalty" none none),
    request.samplingOptions.presencePenalty.bind (numberFault "sampling.extra.presence_penalty" none none),
    request.samplingOptions.frequencyPenalty.bind (numberFault "sampling.extra.frequency_penalty" none none),
    request.samplingOptions.minP.bind (numberFault "sampling.extra.min_p" (some 0) (some 1))]

def fault (config : DynamoEngineConfig) (request : PreprocessedRequest) : Option String :=
  (request.objections config).findSome? id

/-- A control the runtime is called with if the request gives it. -/
def given (key : String) (value : Option JsonValue) : Kwargs := (value.map fun value => (key, value)).toList

/-- The controls of a request, as the runtime takes them. -/
def controls (config : DynamoEngineConfig) (request : PreprocessedRequest) : Kwargs :=
  [("max_tokens", .int (request.maxTokens config)), ("temperature", .float request.temperature),
      ("top_p", .float request.topP), ("top_k", if request.topK = -1 then .null else .int request.topK),
      ("ignore_eos", .bool (request.stopConditions.ignoreEos.getD false))] ++
    given "seed" (request.samplingOptions.seed.map .int) ++
    given "min_tokens" (request.stopConditions.minTokens.map fun count : ℕ => .int count) ++
    given "stop" (request.stopConditions.stop.map fun texts => .list (texts.map .str)) ++
    given "stop_token_ids"
      (if request.wireStopTokenIds = [] then none else some (tokensToJson request.wireStopTokenIds)) ++
    given "repetition_penalty" (request.samplingOptions.repetitionPenalty.map .float) ++
    given "presence_penalty" (request.samplingOptions.presencePenalty.map .float) ++
    given "frequency_penalty" (request.samplingOptions.frequencyPenalty.map .float) ++
    given "min_p" (request.samplingOptions.minP.map .float) ++
    given "thinking_token_budget" (request.stopConditions.maxThinkingTokens.map fun count : ℕ => .int count) ++
    given "include_stop_str_in_output" (request.samplingOptions.includeStopStrInOutput.map .bool) ++
    given "skip_special_tokens" (request.outputOptions.skipSpecialTokens.map .bool)

end PreprocessedRequest

/-! ### Looking fields up -/

open JsonFields

theorem lookup_insertSome (key name : String) (value : Option JsonValue) (fields : JsonFields) :
    (insertSome key value fields).lookup name = (fields.lookup name).or (if name = key then value else none) := by
  cases value with
  | none => simp [insertSome]
  | some value =>
    rw [insertSome, List.lookup_append]
    congr 1
    by_cases same : name = key
    · simp [same]
    · simp [same, List.lookup_cons, beq_eq_false_iff_ne.mpr same]

theorem fst_mem_insertSome {key : String} {value : Option JsonValue} {fields : JsonFields} {allowed : List String}
    (known : key ∈ allowed) (before : ∀ field ∈ fields, field.1 ∈ allowed) :
    ∀ field ∈ insertSome key value fields, field.1 ∈ allowed := by
  cases value with
  | none => exact before
  | some value =>
    intro field member
    rcases List.mem_append.mp member with old | new
    · exact before field old
    · rw [List.mem_singleton.mp new]
      exact known

theorem rejectUnknown_eq_ok {allowed : List String} {mapping : JsonFields}
    (known : ∀ field ∈ mapping, field.1 ∈ allowed) (name code : String) :
    rejectUnknown allowed name code mapping = .ok () := by
  have none : unknownFields allowed mapping = [] := by
    have nothing : (mapping.map Prod.fst).filter (· ∉ allowed) = [] := by
      refine List.filter_eq_nil_iff.mpr fun key member => ?_
      obtain ⟨field, listed, rfl⟩ := List.mem_map.mp member
      simpa using known field listed
    rw [unknownFields, nothing]
    rfl
  exact if_pos none

theorem rejectMissing_eq_ok {required : List String} {mapping : JsonFields}
    (present : ∀ key ∈ required, (mapping.lookup key).isSome) (name : String) :
    rejectMissing required name mapping = .ok () := by
  have none : missingFields required mapping = [] := by
    have nothing : required.filter (fun key => (mapping.lookup key).isNone) = [] := by
      refine List.filter_eq_nil_iff.mpr fun key member => ?_
      simpa using present key member
    rw [missingFields, nothing]
    rfl
  exact if_pos none

/-! ### Checking one value -/

theorem requireNumber_toJson (name : String) (minimum maximum : Option ℤ) (value : FloatValue) :
    value.toJson.requireNumber name minimum maximum =
      .checked ((numberFault name minimum maximum value).map .invalid) value := by
  cases value with
  | finite value =>
    have low : minimum.any (FloatValue.finite value).below = minimum.any fun bound : ℤ => value < (bound : ℚ) := rfl
    have high : maximum.any (FloatValue.finite value).above = maximum.any fun bound : ℤ => (bound : ℚ) < value := rfl
    change JsonValue.checkRange name minimum maximum (.finite value) = _
    rw [JsonValue.checkRange, numberFault, low, high]
    split_ifs <;> rfl
  | infinite negative => rfl
  | nan => rfl

theorem requireInt_int (name : String) (minimum value : ℤ) :
    (JsonValue.int value).requireInt name (some minimum) =
      .checked ((intFault name minimum value).map .invalid) value := by
  rw [JsonValue.requireInt, intFault]
  simp only [Option.any_some, decide_eq_true_eq, Option.getD_some]
  split_ifs <;> rfl

theorem requireInt_natCast (name : String) (count : ℕ) :
    (JsonValue.int count).requireInt name (some 0) = .ok (count : ℤ) := by
  simp [JsonValue.requireInt]

theorem requireTokens_tokensToJson (name : String) (tokens : List TokenId) :
    (tokensToJson tokens).requireTokens name = .ok (tokens.map fun token : TokenId => (token : ℤ)) := by
  change (tokens.map fun token : TokenId => JsonValue.int token).mapM (JsonValue.requireInt (name ++ "[]") (some 0)) = _
  induction tokens with
  | nil => rfl
  | cons token tokens ih =>
    rw [List.map_cons, List.mapM_cons, ih, requireInt_natCast]
    rfl

theorem requireStop_texts (texts : List String) :
    (JsonValue.list (texts.map .str)).requireStop = .ok (.list (texts.map .str)) :=
  if_pos (List.all_eq_true.mpr fun item member => by
    obtain ⟨text, _, rfl⟩ := List.mem_map.mp member
    rfl)

/-! ### Copying the controls -/

namespace PreprocessedRequest

/-- What a copied control contributes: nothing if it is absent, else its value unless there is a fault. -/
theorem copy_of_lookup {extra : JsonFields} (control : Control) {α : Type} {sent : Option α} {spelled : α → JsonValue}
    (fault : α → Option String) {received : α → JsonValue} (found : extra.lookup control.1 = sent.map spelled)
    (check : ∀ a, control.2 (spelled a) = .checked ((fault a).map .invalid) (received a)) :
    control.copy extra = .checked ((sent.bind fault).map .invalid) (given control.1 (sent.map received)) := by
  rw [Control.copy, found]
  cases sent with
  | none => rfl
  | some a =>
    change (fun checked => [(control.1, checked)]) <$> control.2 (spelled a) = _
    rw [check, Except.map_checked]
    rfl

/-- A control that the Rust types keep free of faults. -/
theorem copy_of_lookup_ok {extra : JsonFields} (control : Control) {α : Type} {sent : Option α}
    {spelled received : α → JsonValue} (found : extra.lookup control.1 = sent.map spelled)
    (check : ∀ a, control.2 (spelled a) = .ok (received a)) :
    control.copy extra = .checked none (given control.1 (sent.map received)) := by
  rw [copy_of_lookup control (fun _ => none) found check]
  cases sent <;> rfl

variable (request : PreprocessedRequest)

theorem extra_known : ∀ field ∈ request.extra, field.1 ∈ extraFields := by
  unfold extra
  repeat' refine fst_mem_insertSome (by simp [extraFields]) ?_
  exact fun _ member => nomatch member

/-- What the worker makes of each control of `extra`, in the order of `extraControls`. -/
def extraVerdicts : List (Option RequestError × Kwargs) :=
  let stop := request.stopConditions
  let sampling := request.samplingOptions
  [(none, given "min_tokens" (stop.minTokens.map fun count : ℕ => .int count)),
    (none, given "stop" (stop.stop.map fun texts => .list (texts.map .str))),
    (none, given "stop_token_ids"
      ((if request.wireStopTokenIds = [] then none else some request.wireStopTokenIds).map tokensToJson)),
    ((sampling.repetitionPenalty.bind (numberFault "sampling.extra.repetition_penalty" none none)).map .invalid,
      given "repetition_penalty" (sampling.repetitionPenalty.map .float)),
    ((sampling.presencePenalty.bind (numberFault "sampling.extra.presence_penalty" none none)).map .invalid,
      given "presence_penalty" (sampling.presencePenalty.map .float)),
    ((sampling.frequencyPenalty.bind (numberFault "sampling.extra.frequency_penalty" none none)).map .invalid,
      given "frequency_penalty" (sampling.frequencyPenalty.map .float)),
    ((sampling.minP.bind (numberFault "sampling.extra.min_p" (some 0) (some 1))).map .invalid,
      given "min_p" (sampling.minP.map .float)),
    (none, given "thinking_token_budget" (stop.maxThinkingTokens.map fun count : ℕ => .int count)),
    (none, given "include_stop_str_in_output" (sampling.includeStopStrInOutput.map .bool)),
    (none, given "skip_special_tokens" (request.outputOptions.skipSpecialTokens.map .bool)),
    (none, [])]

theorem int_copy {extra : JsonFields} {key name : String} {sent : Option ℕ}
    (found : extra.lookup key = sent.map fun count : ℕ => .int count) :
    (Control.int key name).copy extra = .checked none (given key (sent.map fun count : ℕ => .int count)) := by
  refine copy_of_lookup_ok (.int key name) found fun count => ?_
  change JsonValue.int <$> (JsonValue.int count).requireInt name (some 0) = _
  rw [requireInt_natCast]
  rfl

theorem number_copy {extra : JsonFields} {key name : String} {minimum maximum : Option ℤ} {sent : Option FloatValue}
    (found : extra.lookup key = sent.map FloatValue.toJson) :
    (Control.number key name minimum maximum).copy extra =
      .checked ((sent.bind (numberFault name minimum maximum)).map .invalid) (given key (sent.map .float)) := by
  refine copy_of_lookup (.number key name minimum maximum) (numberFault name minimum maximum) found fun value => ?_
  change JsonValue.float <$> value.toJson.requireNumber name minimum maximum = _
  rw [requireNumber_toJson, Except.map_checked]

theorem bool_copy {extra : JsonFields} {key name : String} {sent : Option Bool}
    (found : extra.lookup key = sent.map .bool) :
    (Control.bool key name).copy extra = .checked none (given key (sent.map .bool)) :=
  copy_of_lookup_ok (.bool key name) found fun _ => rfl

theorem stop_copy {extra : JsonFields} {sent : Option (List String)}
    (found : extra.lookup "stop" = sent.map fun texts => .list (texts.map .str)) :
    Control.copy extra ("stop", JsonValue.requireStop) =
      .checked none (given "stop" (sent.map fun texts => .list (texts.map .str))) :=
  copy_of_lookup_ok ("stop", JsonValue.requireStop) found requireStop_texts

theorem tokens_copy {extra : JsonFields} {sent : Option (List TokenId)} {key name : String}
    (found : extra.lookup key = sent.map tokensToJson) :
    Control.copy extra (key, fun value => (fun tokens => .list (tokens.map .int)) <$> value.requireTokens name) =
      .checked none (given key (sent.map tokensToJson)) := by
  refine copy_of_lookup_ok (key, _) found fun tokens => ?_
  change (fun tokens => JsonValue.list (tokens.map .int)) <$> (tokensToJson tokens).requireTokens name = _
  rw [requireTokens_tokensToJson]
  change Except.ok (JsonValue.list ((tokens.map fun token : TokenId => (token : ℤ)).map .int)) = _
  rw [List.map_map]
  rfl

theorem absent_copy {extra : JsonFields} {control : Control} (absent : extra.lookup control.1 = none) :
    control.copy extra = .checked none [] := by
  rw [Control.copy, absent]
  rfl

theorem extras_checked :
    extraControls.mapM (Control.copy request.extra) =
      .checked (request.extraVerdicts.findSome? Prod.fst) (request.extraVerdicts.map Prod.snd) := by
  refine List.mapM_checked ?_
  unfold extraControls extraVerdicts
  refine .cons (int_copy ?_) (.cons (stop_copy ?_) (.cons (tokens_copy ?_) (.cons (number_copy ?_) (.cons (number_copy ?_)
    (.cons (number_copy ?_) (.cons (number_copy ?_) (.cons (int_copy ?_) (.cons (bool_copy ?_)
    (.cons (bool_copy ?_) (.cons (absent_copy ?_) .nil))))))))))
  all_goals simp [extra, lookup_insertSome, apply_ite (Option.map tokensToJson), Control.bool]

/-! ### The whole request -/

variable (config : DynamoEngineConfig) (seed : Option ℕ)

theorem lookup_extra :
    ((request.params config seed).fields.lookup "extra").getD (.object []) = .object request.extra := by
  have found : (request.params config seed).fields.lookup "extra" =
      if request.extra.isEmpty then none else some (.object request.extra) := by
    simp [SamplingParams.fields, lookup_insertSome, params, List.lookup_cons]
  rw [found]
  split
  next empty => rw [List.isEmpty_iff.mp empty, Option.getD_none]
  · rfl

theorem sampling_known : ∀ field ∈ (request.params config seed).fields, field.1 ∈ samplingFields := by
  unfold SamplingParams.fields
  refine fst_mem_insertSome (by simp [samplingFields]) (fst_mem_insertSome (by simp [samplingFields]) ?_)
  simp [samplingFields]

/-- What the worker finds wrong with the fields every request carries. -/
def baseFault : Option String :=
  (intFault "sampling.top_k" (-1) request.topK).or
    ((intFault "sampling.max_tokens" 1 (request.maxTokens config)).or
      ((numberFault "sampling.temperature" (some 0) none request.temperature).or
        (numberFault "sampling.top_p" (some 0) (some 1) request.topP)))

/-- The fields every request carries, as the runtime takes them. -/
def baseControls : Kwargs :=
  [("max_tokens", .int (request.maxTokens config)), ("temperature", .float request.temperature),
    ("top_p", .float request.topP), ("top_k", if request.topK = -1 then .null else .int request.topK),
    ("ignore_eos", .bool (request.stopConditions.ignoreEos.getD false))]

theorem base_checked :
    baseKwargs (request.params config seed).fields =
      .checked ((request.baseFault config).map .invalid) (request.baseControls config) := by
  have topK : field (request.params config seed).fields "top_k" = .int request.topK := by
    simp [field, SamplingParams.fields, lookup_insertSome, params, List.lookup_cons, PreprocessedRequest.topK]
  have maxTokens : field (request.params config seed).fields "max_tokens" = .int (request.maxTokens config) := by
    simp [field, SamplingParams.fields, lookup_insertSome, params, PreprocessedRequest.maxTokens]
  have temperature : field (request.params config seed).fields "temperature" = request.temperature.toJson := by
    simp [field, SamplingParams.fields, lookup_insertSome, params, List.lookup_cons, PreprocessedRequest.temperature]
  have topP : field (request.params config seed).fields "top_p" = request.topP.toJson := by
    simp [field, SamplingParams.fields, lookup_insertSome, params, List.lookup_cons, PreprocessedRequest.topP]
  have ignoreEos : field (request.params config seed).fields "ignore_eos" =
      .bool (request.stopConditions.ignoreEos.getD false) := by
    simp [field, SamplingParams.fields, lookup_insertSome, params, List.lookup_cons]
  rw [baseKwargs, topK, maxTokens, temperature, topP, ignoreEos, requireInt_int, requireInt_int,
    requireNumber_toJson, requireNumber_toJson, baseFault, Option.map_or, Option.map_or, Option.map_or]
  refine Except.checked_bind _ _ _ _ _ ?_
  refine Except.checked_bind _ _ _ _ _ ?_
  refine Except.checked_bind _ _ _ _ _ ?_
  cases numberFault "sampling.top_p" (some 0) (some 1) request.topP <;> rfl

/-- The controls a request may leave out, as the runtime takes them. -/
def extraKwargs : Kwargs := (request.extraVerdicts.map Prod.snd).flatten

theorem sampling_checked (fields : JsonFields)
    (found : fields.lookup "sampling" = some (request.params config seed).toJson) :
    samplingParams fields =
      .checked (((request.baseFault config).map .invalid).or (request.extraVerdicts.findSome? Prod.fst))
        (request.baseControls config ++ given "seed" (seed.map fun seed : ℕ => .int seed) ++ request.extraKwargs) := by
  have sampling : (field fields "sampling").requireObject "sampling" = .ok (request.params config seed).fields := by
    rw [field, found]
    rfl
  have required : rejectMissing requiredSampling "sampling" (request.params config seed).fields = .ok () := by
    refine rejectMissing_eq_ok ?_ _
    simp [requiredSampling, SamplingParams.fields, lookup_insertSome, List.lookup_cons]
  have seeded : (Control.int "seed" "sampling.seed").copy (request.params config seed).fields =
      .checked none (given "seed" (seed.map fun seed : ℕ => .int seed)) := by
    refine int_copy ?_
    simp [SamplingParams.fields, lookup_insertSome, params, List.lookup_cons]
  simp only [samplingParams, sampling, Except.ok_bind, rejectUnknown_eq_ok (request.sampling_known config seed), required,
    base_checked]
  refine Except.checked_bind _ _ _ _ _ ?_
  simp only [seeded, Except.checked_none, lookup_extra, JsonValue.requireObject, Except.ok_bind,
    rejectUnknown_eq_ok request.extra_known, extras_checked]
  cases request.extraVerdicts.findSome? Prod.fst <;> rfl

/-! ### The answer of the worker -/

theorem verdicts_fault :
    request.extraVerdicts.findSome? Prod.fst =
      (((request.objections config).drop 5).findSome? id).map .invalid := by
  simp only [extraVerdicts, objections, List.drop_succ_cons, List.drop_zero, List.findSome?_cons_or,
    List.findSome?_nil, Option.none_or, Option.or_none, Option.map_or, id_eq]

theorem objections_eq : request.fault config =
    (if request.tokenIds = [] then some "prompt_token_ids must not be empty" else none).or
      ((request.baseFault config).or (((request.objections config).drop 5).findSome? id)) := by
  simp only [fault, objections, baseFault, List.drop_succ_cons, List.drop_zero, List.findSome?_cons_or,
    List.findSome?_nil, Option.or_none, Option.or_assoc, id_eq]

theorem controls_eq : request.controls config =
    request.baseControls config ++ given "seed" (request.samplingOptions.seed.map .int) ++ request.extraKwargs := by
  simp only [controls, baseControls, extraKwargs, extraVerdicts, List.map_cons, List.map_nil, List.flatten_cons,
    List.flatten_nil, List.append_nil, List.append_assoc, apply_ite (Option.map tokensToJson), Option.map_none,
    Option.map_some]

theorem wireSeed_eq_ok {seed : Option ℕ} (kept : request.wireSeed = .ok seed) :
    (seed.map fun seed : ℕ => JsonValue.int seed) = request.samplingOptions.seed.map .int := by
  unfold wireSeed at kept
  split at kept
  next value given =>
    split at kept
    · cases kept
    next positive =>
      cases kept
      rw [given, Option.map_some, Option.map_some, Int.toNat_of_nonneg (not_lt.mp positive)]
  next absent =>
    cases kept
    rw [absent]
    rfl

theorem convertRequest_eq_ok {config : DynamoEngineConfig} {id : RequestId} {nowMs : Millis}
    {request : PreprocessedRequest} {converted : SampledRequest}
    (accepted : convertRequest config id nowMs request = .ok converted) :
    ∃ seed, request.wireSeed = .ok seed ∧ converted.prompt = request.tokenIds ∧ converted.id = id ∧
      converted.params = request.params config seed := by
  unfold convertRequest at accepted
  split at accepted
  · cases accepted
  · split at accepted
    · cases accepted
    next seed kept =>
      cases accepted
      exact ⟨seed, kept, rfl, rfl, rfl⟩

/-- The worker's answer to what the engine sends for a request that it converts. -/
theorem parseRequest_answers {config : DynamoEngineConfig} {id : RequestId} {nowMs : Millis}
    {request : PreprocessedRequest} {converted : SampledRequest}
    (accepted : convertRequest config id nowMs request = .ok converted) :
    parseRequest (TransportRequest.fromRequest converted).toJson =
      .checked ((request.fault config).map .invalid)
        (request.tokenIds.map fun token : TokenId => (token : ℤ), request.controls config) := by
  obtain ⟨seed, kept, prompt, -, params⟩ := convertRequest_eq_ok accepted
  obtain ⟨fields, same⟩ : ∃ fields : JsonFields, fields =
    [("request_id", .str (showRequestId converted.id)), ("prompt_token_ids", tokensToJson request.tokenIds),
      ("sampling", (request.params config seed).toJson)] := ⟨_, rfl⟩
  have body : (TransportRequest.fromRequest converted).toJson = .object fields := by
    rw [same, ← prompt, ← params]
    rfl
  have known : ∀ field ∈ fields, field.1 ∈ requestFields := by simp [same, requestFields]
  have required : rejectMissing requestFields "request" fields = .ok () :=
    rejectMissing_eq_ok (by simp [same, requestFields, List.lookup_cons]) _
  have named : badRequestId (field fields "request_id") = false := by
    simp [same, field, badRequestId, showRequestId]
  have tokens : field fields "prompt_token_ids" = tokensToJson request.tokenIds := by
    simp [same, field, List.lookup_cons]
  have sampling : fields.lookup "sampling" = some (request.params config seed).toJson := by
    simp [same, List.lookup_cons]
  rw [body]
  simp only [parseRequest, JsonValue.requireObject, Except.ok_bind, rejectUnknown_eq_ok known, required, named, tokens,
    requireTokens_tokensToJson, request.sampling_checked config seed fields sampling]
  rw [objections_eq, request.verdicts_fault config, controls_eq, wireSeed_eq_ok request kept]
  rw [if_neg Bool.false_ne_true, ← Option.map_or]
  split
  next empty =>
    rw [if_pos (List.map_eq_nil_iff.mp empty)]
    rfl
  next filled =>
    rw [if_neg fun empty => filled (List.map_eq_nil_iff.mpr empty), Option.none_or]
    generalize (request.baseFault config).or _ = fault
    cases fault <;> rfl

section

variable {fromStr : String → Except String Json} {render : Json → String} {start : List ℤ × Kwargs → Except String Unit}
  {chunks : List (Except String Bytes)} {transport : HttpTransport} {config : DynamoEngineConfig} {id : RequestId}
  {nowMs : Millis} {request : PreprocessedRequest} {converted : SampledRequest}

/-- What the worker calls the runtime with. -/
def inputs (config : DynamoEngineConfig) (request : PreprocessedRequest) : List ℤ × Kwargs :=
  (request.tokenIds.map fun token : TokenId => (token : ℤ), request.controls config)

/-- Without a fault the request is streamed if the runtime starts. -/
theorem send_started (accepted : convertRequest config id nowMs request = .ok converted)
    (idle : transport.stream = none) (faultless : request.fault config = none)
    (started : start (request.inputs config) = .ok ()) :
    transport.send fromStr (.ok (generate render start chunks (.ok (TransportRequest.fromRequest converted).toJson))) =
      (.ok (), { transport with stream := some chunks }) := by
  rw [inputs] at started
  have answer : generate render start chunks (.ok (TransportRequest.fromRequest converted).toJson) =
      ⟨"200 OK", true, .error "", chunks⟩ := by
    simp only [generate, parseRequest_answers accepted, faultless, Option.map_none, Except.checked_none, started]
  rw [answer, HttpTransport.send, idle, if_neg (by simp)]
  rfl

end

end PreprocessedRequest

end TrtLlm.Wire
