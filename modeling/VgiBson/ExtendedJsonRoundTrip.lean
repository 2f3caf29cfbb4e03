import VgiBson.LengthEquations

/-! # The Extended JSON round trip

A document leaves as canonical Extended JSON and comes back through a JSON parser that limits how
deep its input nests. Wrapped values nest deeper than the values themselves, and every document
below the limit comes back byte for byte. -/

namespace VgiBson.ExtendedJsonRoundTrip

open MachineBytes CursorWalks StructuralValidator BsonValues BsonEncoding DocumentDecoding
  LengthEquations

variable {T : Target} {crates : Crates}

mutual

/-- How many objects and arrays stand inside each other, the value itself included. -/
def nesting : Json → ℕ
  | .array items => nestingItems items + 1
  | .object members => nestingMembers members + 1
  | _ => 0

def nestingItems : List Json → ℕ
  | [] => 0
  | j :: js => max (nesting j) (nestingItems js)

def nestingMembers : List (String × Json) → ℕ
  | [] => 0
  | (_, j) :: ms => max (nesting j) (nestingMembers ms)

end

/-- The double is not zero but too small for an exponent: only its fraction is set. -/
def subnormal (bits : UInt64) : Bool := 0 < bits.toNat % 2 ^ 63 && bits.toNat % 2 ^ 63 < 2 ^ 52

mutual

/-- How deep the canonical Extended JSON of a value nests: documents and arrays count one level, and
typed values the levels of their wrappers. -/
def jsonLevels : Bson → ℕ
  -- a subnormal double is left as a bare number
  | .double bits => if subnormal bits then 0 else 1
  | .array items => jsonLevelsItems items + 1
  | .document fields => jsonLevelsFields fields + 1
  | .javaScriptCodeWithScope _ scope => jsonLevelsFields scope + 2
  | .string _ => 0
  | .boolean _ => 0
  | .null => 0
  | .regularExpression _ _ => 2
  | .timestamp _ _ => 2
  | .binary _ _ => 2
  | .dateTime _ => 2
  | .dbPointer _ _ => 3
  | _ => 1

def jsonLevelsItems : List Bson → ℕ
  | [] => 0
  | v :: vs => max (jsonLevels v) (jsonLevelsItems vs)

def jsonLevelsFields : List (String × Bson) → ℕ
  | [] => 0
  | (_, v) :: fs => max (jsonLevels v) (jsonLevelsFields fs)

end

/-- The canonical conversion keeps the tree: documents become objects and arrays become arrays, in
order, and every other value has the wrapper of its type, if it has one. -/
structure ConvertsByShape (crates : Crates) : Prop where
  array : ∀ items, crates.intoCanonicalExtjson (.array items) =
    .array (items.map crates.intoCanonicalExtjson)
  document : ∀ fields, crates.intoCanonicalExtjson (.document fields) =
    .object (fields.map fun f => (f.1, crates.intoCanonicalExtjson f.2))
  scope : ∀ code scope, crates.intoCanonicalExtjson (.javaScriptCodeWithScope code scope) =
    .object [("$code", .string code), ("$scope", crates.intoCanonicalExtjson (.document scope))]
  wrapper : ∀ v, levels v = 0 → nesting (crates.intoCanonicalExtjson v) = jsonLevels v

/-- No document in the value has a key that begins with a dollar sign. -/
def PlainKeys (v : Bson) : Prop :=
  Throughout (fun ks => ∀ k ∈ ks, k.toList.head? ≠ some '$') (fun _ => True) v

/-- `Bson::try_from` undoes the canonical conversion of a document with plain keys. -/
def ConvertsBack (crates : Crates) (doc : Document) : Prop :=
  PlainKeys (.document doc) →
    crates.tryFrom (crates.intoCanonicalExtjson (.document doc)) = .ok (.document doc)

/-- The nesting that `serde_json::from_str` does not reach. -/
def recursionLimit : ℕ := 128

/-- `serde_json::from_str` undoes the printer below its recursion limit, and rejects text that nests
up to it. -/
def ReadsBack (crates : Crates) (j : Json) : Prop :=
  (nesting j < recursionLimit → crates.jsonFromStr (crates.jsonToString j) = .ok j) ∧
    (recursionLimit ≤ nesting j → ∃ e, crates.jsonFromStr (crates.jsonToString j) = .error e)

mutual

/-- The nesting of the canonical conversion can be read off the tree. -/
theorem nesting_intoCanonicalExtjson (hshape : ConvertsByShape crates) (v : Bson) :
    nesting (crates.intoCanonicalExtjson v) = jsonLevels v := by
  cases v with
  | array items =>
    rw [hshape.array, nesting, jsonLevels, nestingItems_map hshape items]
  | document fields =>
    rw [hshape.document, nesting, jsonLevels, nestingMembers_map hshape fields]
  | javaScriptCodeWithScope code scope =>
    rw [hshape.scope, hshape.document, nesting, jsonLevels]
    simp only [nestingMembers, nesting, nestingMembers_map hshape scope]
    omega
  | _ => exact hshape.wrapper _ rfl

theorem nestingItems_map (hshape : ConvertsByShape crates) (vs : List Bson) :
    nestingItems (vs.map crates.intoCanonicalExtjson) = jsonLevelsItems vs := by
  cases vs with
  | nil => rfl
  | cons v vs =>
    rw [List.map_cons, nestingItems, jsonLevelsItems, nesting_intoCanonicalExtjson hshape v,
      nestingItems_map hshape vs]

theorem nestingMembers_map (hshape : ConvertsByShape crates) (fs : List (String × Bson)) :
    nestingMembers (fs.map fun f => (f.1, crates.intoCanonicalExtjson f.2)) =
      jsonLevelsFields fs := by
  match fs with
  | [] => rfl
  | (key, v) :: fs =>
    rw [List.map_cons, nestingMembers, jsonLevelsFields, nesting_intoCanonicalExtjson hshape v,
      nestingMembers_map hshape fs]

end

theorem toJson_of_decode {b : Bytes T} {doc : Document} (h : decodeDocument crates b = .ok doc)
    (mode : JsonMode) : toJson crates b mode = .ok (documentToExtjson crates doc mode) := by
  rw [toJson, h]
  rfl

/-- Text that the parser takes back gives the document's own bytes. -/
theorem fromJson_of_reads {text : String} {j : Json} {doc : Document} {out : List UInt8}
    (hread : crates.jsonFromStr text = .ok j) (hback : crates.tryFrom j = .ok (.document doc))
    (hwrite : crates.toWriter doc = .ok out) : fromJson crates text = .ok out := by
  simp only [fromJson, hread, Except.mapError, bind, Except.bind, hback, pure, Except.pure, hwrite]

/-- Text that the parser rejects is an error. -/
theorem fromJson_of_rejects {text e : String} (h : crates.jsonFromStr text = .error e) :
    fromJson crates text = .error s!"invalid JSON: {e}" := by
  simp only [fromJson, h, Except.mapError, bind, Except.bind]

/-- When a document survives the round trip: exactly when its canonical Extended JSON nests
below the limit of the parser. -/
theorem fromJson_toJson_iff (crates : Crates) (hshape : ConvertsByShape crates) (doc : Document)
    (b : Bytes T) (hdecode : decodeDocument crates b = .ok doc)
    (hwrite : crates.toWriter doc = .ok b.data) (hkeys : PlainKeys (.document doc))
    (hback : ConvertsBack crates doc)
    (hread : ReadsBack crates (crates.intoCanonicalExtjson (.document doc))) :
    ∃ text, toJson crates b .canonical = .ok text ∧
      (fromJson crates text = .ok b.data ↔ jsonLevels (.document doc) < recursionLimit) := by
  refine ⟨_, toJson_of_decode hdecode .canonical, ?_⟩
  have hnesting := nesting_intoCanonicalExtjson hshape (.document doc)
  obtain ⟨hbelow, habove⟩ := hread
  rw [hnesting] at hbelow habove
  constructor
  · intro h
    rcases Nat.lt_or_ge (jsonLevels (.document doc)) recursionLimit with hlt | hge
    · exact hlt
    · obtain ⟨e, he⟩ := habove hge
      have hrejects := fromJson_of_rejects he
      rw [documentToExtjson, hrejects] at h
      cases h
  · intro hlt
    exact fromJson_of_reads (hbelow hlt) (hback hkeys) hwrite

mutual

/-- The canonical conversion. The texts of doubles, decimals, identifiers and binary data, which the
chains do not hold, are left empty. -/
def canonicalExtjson : Bson → Json
  | .double bits =>
    if subnormal bits then .number "" else .object [("$numberDouble", .string "")]
  | .string s => .string s
  | .array items => .array (canonicalItems items)
  | .document fields => .object (canonicalMembers fields)
  | .boolean b => .bool b
  | .null => .null
  | .regularExpression pattern options => .object [("$regularExpression",
      .object [("pattern", .string pattern), ("options", .string options)])]
  | .javaScriptCode code => .object [("$code", .string code)]
  | .javaScriptCodeWithScope code scope =>
    .object [("$code", .string code), ("$scope", .object (canonicalMembers scope))]
  | .int32 i => .object [("$numberInt", .string (toString i.toInt))]
  | .int64 i => .object [("$numberLong", .string (toString i.toInt))]
  | .timestamp time increment => .object [("$timestamp",
      .object [("t", .number (toString time.toNat)), ("i", .number (toString increment.toNat))])]
  | .binary _ _ => .object [("$binary", .object [("base64", .string ""), ("subType", .string "")])]
  | .objectId _ => .object [("$oid", .string "")]
  | .dateTime millis =>
    .object [("$date", .object [("$numberLong", .string (toString millis.toInt))])]
  | .symbol s => .object [("$symbol", .string s)]
  | .decimal128 _ => .object [("$numberDecimal", .string "")]
  | .undefined => .object [("$undefined", .bool true)]
  | .maxKey => .object [("$maxKey", .number "1")]
  | .minKey => .object [("$minKey", .number "1")]
  | .dbPointer ns _ => .object [("$dbPointer",
      .object [("$ref", .string ns), ("$id", .object [("$oid", .string "")])])]

def canonicalItems : List Bson → List Json
  | [] => []
  | v :: vs => canonicalExtjson v :: canonicalItems vs

def canonicalMembers : List (String × Bson) → List (String × Json)
  | [] => []
  | (key, v) :: fs => (key, canonicalExtjson v) :: canonicalMembers fs

end

mutual

/-- The conversion back, of JSON without wrappers and numbers. -/
def plainBson : Json → Bson
  | .null => .null
  | .bool b => .boolean b
  | .number _ => .null
  | .string s => .string s
  | .array items => .array (plainItems items)
  | .object members => .document (plainFields members)

def plainItems : List Json → List Bson
  | [] => []
  | j :: js => plainBson j :: plainItems js

def plainFields : List (String × Json) → List (String × Bson)
  | [] => []
  | (key, j) :: ms => (key, plainBson j) :: plainFields ms

end

mutual

/-- The compact text, of JSON whose strings need no escapes. -/
def printJson : Json → String
  | .null => "null"
  | .bool b => if b then "true" else "false"
  | .number literal => literal
  | .string s => "\"" ++ s ++ "\""
  | .array items => "[" ++ printItems items ++ "]"
  | .object members => "\x7b" ++ printMembers members ++ "\x7d"

def printItems : List Json → String
  | [] => ""
  | [j] => printJson j
  | j :: js => printJson j ++ "," ++ printItems js

def printMembers : List (String × Json) → String
  | [] => ""
  | [(key, j)] => "\"" ++ key ++ "\":" ++ printJson j
  | (key, j) :: ms => "\"" ++ key ++ "\":" ++ printJson j ++ "," ++ printMembers ms

end

/-- The canonical Extended JSON of a chain of documents. -/
def nestedJson (n : ℕ) : Json := canonicalExtjson (.document (nestedDocument n))

/-- The reader of chains of documents. -/
def readChain (b : List UInt8) : Except String Document :=
  let n := (b.length - 5) / 8
  if b = documentBytes (nestedDocument n) then .ok (nestedDocument n)
  else .error "invalid document"

/-- The parser of chains of objects, which gives up at the recursion limit. -/
def parseChain (text : String) : Except String Json :=
  let n := (text.length - 2) / 6
  if text = printJson (nestedJson n) ∧ nesting (nestedJson n) < recursionLimit then
    .ok (nestedJson n)
  else .error "recursion limit exceeded"

/-- A value library and a JSON library with the behaviours above. They read chains of documents. -/
def chainCrates : Crates where
  fromReader := readChain
  toWriter doc := .ok (documentBytes doc)
  get doc key := (doc.find? (·.1 = key)).map Prod.snd
  insert doc key v := doc ++ [(key, v)]
  keys doc := doc.map Prod.fst
  display _ := ""
  intoCanonicalExtjson := canonicalExtjson
  intoRelaxedExtjson := canonicalExtjson
  tryFrom j := .ok (plainBson j)
  jsonToString := printJson
  jsonFromStr := parseChain
  toHex _ := ""
  decimalToString _ := ""
  decimalFromStr _ := .error ""
  hexEncode _ := ""
  doubleToString _ := ""

theorem canonicalItems_eq_map (vs : List Bson) : canonicalItems vs = vs.map canonicalExtjson := by
  induction vs with
  | nil => rfl
  | cons v vs ih => rw [canonicalItems, ih, List.map_cons]

theorem canonicalMembers_eq_map (fs : Document) :
    canonicalMembers fs = fs.map fun f => (f.1, canonicalExtjson f.2) := by
  induction fs with
  | nil => rfl
  | cons f fs ih =>
    obtain ⟨key, v⟩ := f
    rw [canonicalMembers, ih, List.map_cons]

theorem convertsByShape_chainCrates : ConvertsByShape chainCrates where
  array items := congrArg Json.array (canonicalItems_eq_map items)
  document fields := congrArg Json.object (canonicalMembers_eq_map fields)
  scope _ _ := rfl
  wrapper v h := by
    cases v with
    | array items => cases h
    | document fields => cases h
    | javaScriptCodeWithScope code scope => cases h
    | double bits =>
      change nesting (canonicalExtjson (.double bits)) = _
      rw [canonicalExtjson, jsonLevels]
      split <;> rfl
    | _ => rfl

theorem plainBson_nestedJson (n : ℕ) : plainBson (nestedJson n) = .document (nestedDocument n) := by
  induction n with
  | zero => rfl
  | succ n ih => exact congrArg (fun v => Bson.document [("a", v)]) ih

theorem convertsBack_nestedDocument (n : ℕ) : ConvertsBack chainCrates (nestedDocument n) :=
  fun _ => congrArg Except.ok (plainBson_nestedJson n)

theorem jsonLevels_nestedDocument (n : ℕ) : jsonLevels (.document (nestedDocument n)) = n + 1 := by
  induction n with
  | zero => rfl
  | succ n ih =>
    rw [jsonLevels, nestedDocument, jsonLevelsFields, ih, jsonLevelsFields]
    omega

theorem nesting_nestedJson (n : ℕ) : nesting (nestedJson n) = n + 1 :=
  (nesting_intoCanonicalExtjson convertsByShape_chainCrates _).trans (jsonLevels_nestedDocument n)

theorem length_printJson_nestedJson (n : ℕ) : (printJson (nestedJson n)).length = 6 * n + 2 := by
  induction n with
  | zero => rfl
  | succ n ih =>
    have hprint : printJson (nestedJson (n + 1)) =
        "\x7b" ++ ("\"" ++ "a" ++ "\":" ++ printJson (nestedJson n)) ++ "\x7d" := rfl
    have hopen : "\x7b".length = 1 := rfl
    have hkey : ("\"" ++ "a" ++ "\":").length = 4 := rfl
    have hclose : "\x7d".length = 1 := rfl
    rw [hprint, String.length_append, String.length_append, String.length_append, ih, hopen, hkey,
      hclose]
    omega

theorem readsBack_nestedJson (n : ℕ) : ReadsBack chainCrates (nestedJson n) := by
  have hn : ((printJson (nestedJson n)).length - 2) / 6 = n := by
    rw [length_printJson_nestedJson]
    omega
  constructor
  · intro hlt
    show parseChain (printJson (nestedJson n)) = _
    simp only [parseChain, hn]
    exact if_pos ⟨trivial, hlt⟩
  · intro hge
    refine ⟨"recursion limit exceeded", ?_⟩
    show parseChain (printJson (nestedJson n)) = _
    simp only [parseChain, hn]
    exact if_neg fun h => Nat.not_lt.mpr hge h.2

theorem plainKeys_nestedDocument (n : ℕ) : PlainKeys (.document (nestedDocument n)) := by
  have hkey : ∀ k ∈ ["a"], k.toList.head? ≠ some '$' := by decide
  induction n with
  | zero => exact ⟨by simp [nestedDocument], trivial⟩
  | succ n ih => exact ⟨hkey, ih, trivial⟩

theorem fits_nestedDocument {n : ℕ} (h : n ≤ maxNesting) :
    (documentBytes (nestedDocument n)).length ≤ Target.isizeMax .bits64 := by
  rw [length_nestedDocument]
  simp only [maxNesting] at h
  simp only [Target.isizeMax]
  omega

/-- The bytes of a chain of documents. -/
def chainBytes (n : ℕ) (h : n ≤ maxNesting) : Bytes .bits64 :=
  ⟨documentBytes (nestedDocument n), fits_nestedDocument h⟩

theorem data_chainBytes (n : ℕ) (h : n ≤ maxNesting) :
    (chainBytes n h).data = documentBytes (nestedDocument n) := rfl

theorem validate_chainBytes (n : ℕ) (h : n ≤ maxNesting) : validate (chainBytes n h) = .ok () := by
  have hlen : (chainBytes n h).data.length < 2 ^ 31 := by
    rw [data_chainBytes, length_nestedDocument]
    simp only [maxNesting] at h
    omega
  rw [validate_documentBytes_iff rfl (storable_nestedDocument n) hlen, levels_nestedDocument]
  omega

theorem decode_chainBytes (n : ℕ) (h : n ≤ maxNesting) :
    decodeDocument chainCrates (chainBytes n h) = .ok (nestedDocument n) := by
  refine (decodeDocument_eq_ok_iff chainCrates).mpr
    ⟨precheck_of_validate (validate_chainBytes n h), ?_⟩
  have hn : ((chainBytes n h).data.length - 5) / 8 = n := by
    rw [data_chainBytes, length_nestedDocument]
    omega
  show readChain (chainBytes n h).data = _
  simp only [readChain, hn]
  exact if_pos rfl

theorem fromJson_toJson_nestedDocument :
    ∃ text, toJson chainCrates (chainBytes 1 (by decide)) .canonical = .ok text ∧
      (fromJson chainCrates text = .ok (chainBytes 1 (by decide)).data ↔
        jsonLevels (.document (nestedDocument 1)) < recursionLimit) :=
  fromJson_toJson_iff chainCrates convertsByShape_chainCrates (nestedDocument 1) _
    (decode_chainBytes 1 (by decide)) rfl (plainKeys_nestedDocument 1)
    (convertsBack_nestedDocument 1) (readsBack_nestedJson 1)

/-- A valid chain of 128 documents, half the validator's limit, does not come back. -/
theorem fromJson_rejects_nestedDocument :
    ConvertsByShape chainCrates ∧ ConvertsBack chainCrates (nestedDocument 127) ∧
    ReadsBack chainCrates (chainCrates.intoCanonicalExtjson (.document (nestedDocument 127))) ∧
    PlainKeys (.document (nestedDocument 127)) ∧
    levels (.document (nestedDocument 127)) = 128 ∧
    validate (chainBytes 127 (by decide)) = .ok () ∧
    decodeDocument chainCrates (chainBytes 127 (by decide)) = .ok (nestedDocument 127) ∧
    chainCrates.toWriter (nestedDocument 127) = .ok (chainBytes 127 (by decide)).data ∧
    ∃ text e, toJson chainCrates (chainBytes 127 (by decide)) .canonical = .ok text ∧
      fromJson chainCrates text = .error e := by
  have hdecode := decode_chainBytes 127 (by decide)
  have hread := readsBack_nestedJson 127
  have hdeep : recursionLimit ≤ nesting (nestedJson 127) := by
    rw [nesting_nestedJson]
    decide
  obtain ⟨e, he⟩ := hread.2 hdeep
  exact ⟨convertsByShape_chainCrates, convertsBack_nestedDocument 127, hread,
    plainKeys_nestedDocument 127, levels_nestedDocument 127, validate_chainBytes 127 _, hdecode,
    rfl, _, _, toJson_of_decode hdecode .canonical, fromJson_of_rejects he⟩

end VgiBson.ExtendedJsonRoundTrip
