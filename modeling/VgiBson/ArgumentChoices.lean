import VgiBson.ScalarFunctions

/-! # The choices of an argument

The constant arguments of the scalar functions are checked when a call is bound. What they accept
are the advertised choices, in any case and with white space around them, and a call that is bound
finds its mode when it runs. -/

namespace VgiBson.ArgumentChoices

open ArrowColumns DocumentDecoding FieldProjection HexText ScalarColumns ScalarFunctions

/-- The text is the choice in any case, with white space around it. -/
def Spells (choice s : String) : Prop :=
  ∃ l w r : List Char, s.toList = l ++ (w ++ r) ∧ (∀ c ∈ l, isWhitespace c = true) ∧
    (∀ c ∈ r, isWhitespace c = true) ∧ w.map Char.toLower = choice.toList

/-- A text without white space. -/
def Plain (choice : String) : Prop := ∀ c ∈ choice.toList, isWhitespace c = false

/-- The spellings of a choice are the texts that are compared as it. -/
theorem normalized_eq_iff {choice s : String} (hplain : Plain choice) :
    normalized s = choice ↔ Spells choice s := by
  constructor
  · intro h
    obtain ⟨l, r, hs, hl, hr⟩ := exists_padding s
    refine ⟨l, (trim s).toList, r, hs, hl, hr, ?_⟩
    rw [← h, normalized, toAsciiLowercase, String.toList_ofList]
  · intro h
    obtain ⟨l, w, r, hs, hl, hr, hw⟩ := h
    have hword : ∀ c ∈ w, isWhitespace c = false := by
      intro c hc
      by_contra hspace
      rw [Bool.not_eq_false] at hspace
      have hmem : c.toLower ∈ choice.toList := hw ▸ List.mem_map_of_mem hc
      rw [toLower_of_isWhitespace hspace] at hmem
      rw [hplain c hmem] at hspace
      cases hspace
    rw [normalized, trim_of_padded hs hl hr hword, toAsciiLowercase, String.toList_ofList, hw,
      String.ofList_toList]

theorem normalized_mem_iff {choices : List String} {s : String}
    (hplain : ∀ choice ∈ choices, Plain choice) :
    normalized s ∈ choices ↔ ∃ choice ∈ choices, Spells choice s := by
  constructor
  · intro h
    exact ⟨_, h, (normalized_eq_iff (hplain _ h)).mp rfl⟩
  · intro h
    obtain ⟨choice, hmem, hspells⟩ := h
    rwa [(normalized_eq_iff (hplain choice hmem)).mpr hspells]

/-- The choice that is read as the mode. -/
def jsonChoice : JsonMode → String
  | .canonical => "canonical"
  | .relaxed => "relaxed"

def coerceChoice : Coerce → String
  | .infer => ""
  | .objectId => "objectid"
  | .decimal => "decimal"
  | .uuid => "uuid"
  | .timestamp => "timestamp"
  | .dateTime => "datetime"
  | .blob => "blob"
  | .json => "json"

theorem plain_jsonChoice (mode : JsonMode) : Plain (jsonChoice mode) := by
  cases mode <;> simp [Plain, jsonChoice, isWhitespace]

theorem plain_coerceChoice (mode : Coerce) : Plain (coerceChoice mode) := by
  cases mode <;> simp [Plain, coerceChoice, isWhitespace]

theorem plain_decodeModes : ∀ choice ∈ decodeModes, Plain choice := by
  simp [Plain, decodeModes, isWhitespace]

/-- Every advertised choice is that of a mode, and there are no others. -/
theorem mem_toJsonModes_iff {choice : String} :
    choice ∈ toJsonModes ↔ ∃ mode, jsonChoice mode = choice := by
  constructor
  · intro h
    simp only [toJsonModes, List.mem_cons, List.not_mem_nil, or_false] at h
    rcases h with rfl | rfl
    · exact ⟨.canonical, rfl⟩
    · exact ⟨.relaxed, rfl⟩
  · intro h
    obtain ⟨mode, rfl⟩ := h
    cases mode <;> decide

theorem mem_fieldAsModes_iff {choice : String} :
    choice ∈ "" :: fieldAsModes ↔ ∃ mode, coerceChoice mode = choice := by
  constructor
  · intro h
    simp only [fieldAsModes, List.mem_cons, List.not_mem_nil, or_false] at h
    rcases h with rfl | rfl | rfl | rfl | rfl | rfl | rfl | rfl
    · exact ⟨.infer, rfl⟩
    · exact ⟨.objectId, rfl⟩
    · exact ⟨.decimal, rfl⟩
    · exact ⟨.uuid, rfl⟩
    · exact ⟨.timestamp, rfl⟩
    · exact ⟨.dateTime, rfl⟩
    · exact ⟨.blob, rfl⟩
    · exact ⟨.json, rfl⟩
  · intro h
    obtain ⟨mode, rfl⟩ := h
    cases mode <;> decide

theorem parseJsonMode_eq_ok_iff {s : String} {mode : JsonMode} :
    JsonMode.parse s = .ok mode ↔ Spells (jsonChoice mode) s := by
  rw [← normalized_eq_iff (plain_jsonChoice mode), JsonMode.parse]
  split <;> cases mode <;> simp_all [jsonChoice]

theorem parseCoerce_eq_ok_iff {s : String} {mode : Coerce} :
    Coerce.parse s = .ok mode ↔ Spells (coerceChoice mode) s := by
  rw [← normalized_eq_iff (plain_coerceChoice mode), Coerce.parse]
  split <;> cases mode <;> simp_all [coerceChoice]

theorem validateDecodeMode_iff {s : String} :
    validateDecodeMode s = .ok () ↔ ∃ choice ∈ decodeModes, Spells choice s := by
  rw [← normalized_mem_iff plain_decodeModes, validateDecodeMode]
  split
  · next h => exact iff_of_true rfl h
  · next h => exact iff_of_false (by intro h'; cases h') h

theorem exists_mapError_iff {α ε ε' : Type} {x : Except ε α} {f : ε → ε'} :
    (∃ a, x.mapError f = .ok a) ↔ ∃ a, x = .ok a := by
  cases x <;> simp [Except.mapError]

theorem decode_onBind_iff {args : Arguments} {ty : ResultType} : Decode.onBind args = .ok ty ↔
    ty = .utf8 ∧ ∀ m, args 1 = some m → ∃ choice ∈ decodeModes, Spells choice m := by
  rw [Decode.onBind]
  cases args 1 with
  | none => simp [pure, Except.pure, eq_comm]
  | some m =>
    simp only [Option.some.injEq, forall_eq', ← validateDecodeMode_iff]
    cases validateDecodeMode m with
    | ok u => simp [eq_comm]
    | error e => simp

/-- What `to_json` binds, it finds a mode for when it runs. -/
theorem toJson_onBind_iff {args : Arguments} {ty : ResultType} :
    ToJson.onBind args = .ok ty ↔ ty = .utf8 ∧ ∃ mode, ToJson.mode args = .ok mode := by
  rw [ToJson.onBind, ToJson.mode]
  cases args 1 with
  | none => simp [pure, Except.pure, eq_comm]
  | some m =>
    dsimp only
    cases JsonMode.parse m with
    | ok mode => simp [Except.mapError, eq_comm]
    | error e => simp [Except.mapError]

theorem field_onBind_iff {args : Arguments} {ty : ResultType} :
    Field.onBind args = .ok ty ↔ ty = .utf8 ∧ ∃ mode, Field.mode args = .ok mode := by
  rw [Field.onBind, Field.mode]
  cases args 2 with
  | none => simp [pure, Except.pure, eq_comm]
  | some m =>
    dsimp only
    cases Coerce.parse m with
    | ok mode => simp [Except.mapError, eq_comm]
    | error e => simp [Except.mapError]

theorem toJson_mode_iff {args : Arguments} : (∃ mode, ToJson.mode args = .ok mode) ↔
    ∀ m, args 1 = some m → ∃ choice ∈ toJsonModes, Spells choice m := by
  rw [ToJson.mode]
  cases args 1 with
  | none => exact iff_of_true ⟨_, rfl⟩ nofun
  | some m =>
    simp only [exists_mapError_iff, parseJsonMode_eq_ok_iff, mem_toJsonModes_iff,
      Option.some.injEq, forall_eq', exists_exists_eq_and]

theorem field_mode_iff {args : Arguments} : (∃ mode, Field.mode args = .ok mode) ↔
    ∀ m, args 2 = some m → ∃ choice ∈ "" :: fieldAsModes, Spells choice m := by
  rw [Field.mode]
  cases args 2 with
  | none => exact iff_of_true ⟨_, rfl⟩ nofun
  | some m =>
    simp only [exists_mapError_iff, parseCoerce_eq_ok_iff, mem_fieldAsModes_iff,
      Option.some.injEq, forall_eq', exists_exists_eq_and]

/-- The advertised choices are what binds: an argument is accepted when it spells one of them or,
for `field`, is blank. A mode of `to_json` or `field` is parsed from its own choice only, and what
these two accept when they are bound they accept again when they run. -/
theorem advertised_choices_bind :
    (∀ s mode, JsonMode.parse s = .ok mode ↔ Spells (jsonChoice mode) s) ∧
    (∀ s mode, Coerce.parse s = .ok mode ↔ Spells (coerceChoice mode) s) ∧
    (∀ args, Decode.onBind args = .ok .utf8 ↔
      ∀ m, args 1 = some m → ∃ choice ∈ decodeModes, Spells choice m) ∧
    (∀ args, ToJson.onBind args = .ok .utf8 ↔
      ∀ m, args 1 = some m → ∃ choice ∈ toJsonModes, Spells choice m) ∧
    (∀ args, Field.onBind args = .ok .utf8 ↔
      ∀ m, args 2 = some m → ∃ choice ∈ "" :: fieldAsModes, Spells choice m) ∧
    (∀ args, ToJson.onBind args = .ok .utf8 ↔ ∃ mode, ToJson.mode args = .ok mode) ∧
    ∀ args, Field.onBind args = .ok .utf8 ↔ ∃ mode, Field.mode args = .ok mode := by
  have hbound {p : Prop} : ResultType.utf8 = .utf8 ∧ p ↔ p := and_iff_right rfl
  refine ⟨fun _ _ => parseJsonMode_eq_ok_iff, fun _ _ => parseCoerce_eq_ok_iff, ?_, ?_, ?_, ?_, ?_⟩
  · intro args
    exact decode_onBind_iff.trans hbound
  · intro args
    exact (toJson_onBind_iff.trans hbound).trans toJson_mode_iff
  · intro args
    exact (field_onBind_iff.trans hbound).trans field_mode_iff
  · intro args
    exact toJson_onBind_iff.trans hbound
  · intro args
    exact field_onBind_iff.trans hbound

end VgiBson.ArgumentChoices
