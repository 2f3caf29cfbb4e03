import VgiBson.FieldProjection
import VgiBson.ObjectIds
import VgiBson.ScalarColumns

/-! # The scalar functions

Each function binds its constant arguments to a result type and then maps a column to a column. A
cell that cannot be decoded is null in the result; an argument that cannot be parsed, a column of
another type or a value that cannot be encoded fails the call. -/

namespace VgiBson.ScalarFunctions

open MachineBytes CursorWalks StructuralValidator ArrowColumns BsonValues DocumentDecoding
  FieldProjection ColumnEncoding ReplicationClock HexText ObjectIds ScalarColumns

variable {α : Type} (crates : Crates) (floats : Floats) (oids : OidCrate)
  (debug : ArrayRef → String) (T : Target)

/-- The texts of the constant arguments, by position. -/
abbrev Arguments := ℕ → Option String

def decodeModes : List String := ["auto", "struct", "map", "json"]

def toJsonModes : List String := ["canonical", "relaxed"]

def fieldAsModes : List String :=
  ["objectid", "decimal", "uuid", "timestamp", "datetime", "blob", "json"]

/-- A mode as it is compared. -/
def normalized (s : String) : String := toAsciiLowercase (trim s)

def JsonMode.parse (s : String) : Except String JsonMode :=
  match normalized s with
  | "canonical" => .ok .canonical
  | "relaxed" => .ok .relaxed
  | other => .error ("unknown to_json mode '" ++ other ++ "' (expected canonical | relaxed)")

def Coerce.parse (s : String) : Except String Coerce :=
  match normalized s with
  | "" => .ok .infer
  | "objectid" => .ok .objectId
  | "decimal" => .ok .decimal
  | "uuid" => .ok .uuid
  | "timestamp" => .ok .timestamp
  | "datetime" => .ok .dateTime
  | "blob" => .ok .blob
  | "json" => .ok .json
  | other => .error ("unknown field coercion '" ++ other ++ "' (expected objectid | decimal | " ++
      "uuid | timestamp | datetime | blob | json)")

def validateDecodeMode (mode : String) : Except RpcError Unit :=
  if normalized mode ∈ decodeModes then .ok ()
  else .error (.valueError ("decode: unknown mode '" ++ normalized mode ++ "' (expected " ++
    " | ".intercalate decodeModes ++ ")"))

/-- `.ok()` on the result of a call. -/
def okOrNone : Outcome DecodeError α → Outcome RpcError (Option α)
  | .ok a => .ok (some a)
  | .error (.error _) => .ok none
  | .error .panic => .error .panic
  | .error .fuel => .error .fuel

/-- The loop over the rows of a BLOB column. -/
def mapBlobs (f : Bytes T → Outcome RpcError (Option α)) (col : ArrayRef) :
    Outcome RpcError (List (Option α)) :=
  (List.range col.len).mapM fun i => do
    match ← blobBytes debug T col i with
    | some b => f b
    | none => pure none

/-- `RecordBatch::try_new` with the bound schema. -/
def respond (schema : List ResultField) (arr : ResultColumn) : Outcome RpcError ResultBatch :=
  fallible ((ResultBatch.tryNew schema arr).mapError .arrowError)

/-- `process` of the functions that `blob_scalar` generates. -/
def blobScalar (build : List (Option (Bytes T)) → Outcome RpcError ResultColumn)
    (schema : List ResultField) (col : ArrayRef) : Outcome RpcError ResultBatch := do
  let input ← (List.range col.len).mapM (blobBytes debug T col)
  let out ← build input
  respond schema out

variable {T}

def buildIsValid (rows : List (Option (Bytes T))) : Outcome RpcError ResultColumn :=
  pure (boolOptArray (rows.map (Option.map isValid)))

/-- What a row adds to the four lists. -/
def diagnose : Option (Bytes T) →
    Outcome RpcError (Option Bool × Option String × Option String × Bool)
  | none => pure (none, none, none, false)
  | some bytes =>
    match wellFormed bytes with
    | .ok wf => pure (some wf.ok, wf.error, wf.kind, true)
    -- `well_formed` has no error to return
    | .error _ => .error .panic

def buildWellFormed (rows : List (Option (Bytes T))) : Outcome RpcError ResultColumn := do
  let cells ← rows.mapM diagnose
  wellFormedArray (cells.map (·.1)) (cells.map (·.2.1)) (cells.map (·.2.2.1))
    (cells.map (·.2.2.2))

/-- The names of a row. -/
def keysOf : Option (Bytes T) → Outcome RpcError (Option (List String))
  | none => pure none
  | some bytes => okOrNone (keys crates bytes)

def buildKeys (rows : List (Option (Bytes T))) : Outcome RpcError ResultColumn := do
  let col ← rows.mapM (keysOf crates)
  listStringArray col

variable (T)

def IsValid.onBind : Except RpcError ResultType := .ok .boolean

def IsValid.process : List ResultField → ArrayRef → Outcome RpcError ResultBatch :=
  blobScalar debug T buildIsValid

def WellFormed.onBind : Except RpcError ResultType := .ok .wellFormed

def WellFormed.process : List ResultField → ArrayRef → Outcome RpcError ResultBatch :=
  blobScalar debug T buildWellFormed

def Keys.onBind : Except RpcError ResultType := .ok .listUtf8

def Keys.process : List ResultField → ArrayRef → Outcome RpcError ResultBatch :=
  blobScalar debug T (buildKeys crates)

def ToJson.mode (args : Arguments) : Except RpcError JsonMode :=
  match args 1 with
  | some m => (JsonMode.parse m).mapError .valueError
  | none => .ok .canonical

def ToJson.onBind (args : Arguments) : Except RpcError ResultType := do
  match args 1 with
  | some m =>
    let _ ← (JsonMode.parse m).mapError RpcError.valueError
    pure .utf8
  | none => pure .utf8

def ToJson.process (args : Arguments) (schema : List ResultField) (col : ArrayRef) :
    Outcome RpcError ResultBatch := do
  let mode ← fallible (ToJson.mode args)
  let out ← mapBlobs debug T (fun b => okOrNone (toJson crates b mode)) col
  let arr ← stringArray out
  respond schema arr

def Decode.onBind (args : Arguments) : Except RpcError ResultType := do
  match args 1 with
  | some m =>
    validateDecodeMode m
    pure .utf8
  | none => pure .utf8

/-- Every mode gives the canonical text. -/
def Decode.process (schema : List ResultField) (col : ArrayRef) :
    Outcome RpcError ResultBatch := do
  let out ← mapBlobs debug T (fun b => okOrNone (toJson crates b .canonical)) col
  let arr ← stringArray out
  respond schema arr

def FromJson.onBind : Except RpcError ResultType := .ok .binary

def FromJson.process (schema : List ResultField) (col : ArrayRef) :
    Outcome RpcError ResultBatch := do
  let out ← mapBlobs debug T
    (fun b => pure ((fromUtf8 b.data).bind fun s => (fromJson crates s).toOption)) col
  let arr ← binaryArray out
  respond schema arr

def Encode.onBind : Except RpcError ResultType := .ok .binary

def Encode.process (schema : List ResultField) (col : ArrayRef) :
    Outcome RpcError ResultBatch := do
  let out ← (List.range col.len).mapM (encodeDocument crates floats col)
  let arr ← binaryArray out
  respond schema arr

def Field.mode (args : Arguments) : Except RpcError Coerce :=
  match args 2 with
  | some m => (Coerce.parse m).mapError .valueError
  | none => .ok .infer

def Field.onBind (args : Arguments) : Except RpcError ResultType := do
  match args 2 with
  | some m =>
    let _ ← (Coerce.parse m).mapError RpcError.valueError
    pure .utf8
  | none => pure .utf8

def Field.path (args : Arguments) : Except RpcError String :=
  match args 1 with
  | some path => .ok path
  | none => .error (.valueError "field: a constant path argument is required")

def Field.process (args : Arguments) (schema : List ResultField) (col : ArrayRef) :
    Outcome RpcError ResultBatch := do
  let path ← fallible (Field.path args)
  let mode ← fallible (Field.mode args)
  let out ← mapBlobs debug T (fun b => Option.join <$> okOrNone (field crates b path mode)) col
  let arr ← stringArray out
  respond schema arr

def TypeOf.onBind : Except RpcError ResultType := .ok .utf8

def TypeOf.process (args : Arguments) (schema : List ResultField) (col : ArrayRef) :
    Outcome RpcError ResultBatch := do
  let path := args 1
  let out ← mapBlobs debug T (fun b => Option.join <$> okOrNone (typeOf crates b path)) col
  let arr ← stringArray out
  respond schema arr

def ObjectIdHex.onBind : Except RpcError ResultType := .ok .utf8

def ObjectIdHex.process (schema : List ResultField) (col : ArrayRef) :
    Outcome RpcError ResultBatch := do
  let out ← mapBlobs debug T (fun b => pure (objectidHex crates b).toOption) col
  let arr ← stringArray out
  respond schema arr

def ObjectIdFromHex.onBind : Except RpcError ResultType := .ok .binary

def ObjectIdFromHex.process (schema : List ResultField) (col : ArrayRef) :
    Outcome RpcError ResultBatch := do
  let out ← (List.range col.len).mapM fun i => do
    let text ← textStr debug col i
    pure (text.bind fun s => (objectidFromHex oids s).toOption)
  let arr ← binaryArray out
  respond schema arr

def isText : ArrayRef → Bool
  | .scalar .utf8 _ _ => true
  | .scalar .largeUtf8 _ _ => true
  | _ => false

def ObjectIdTimestamp.onBind : Except RpcError ResultType := .ok (.clock .timestamptz)

/-- The id at a row of text or of bytes. -/
def ObjectIdTimestamp.cell (col : ArrayRef) (i : ℕ) : Outcome RpcError (Option ObjectId) :=
  if isText col then do
    let text ← textStr debug col i
    pure (parseObjectidAny oids text (none : Option (Bytes T)))
  else do
    let bytes ← blobBytes debug T col i
    pure (parseObjectidAny oids none bytes)

def ObjectIdTimestamp.process (schema : List ResultField) (col : ArrayRef) :
    Outcome RpcError ResultBatch := do
  let out ← (List.range col.len).mapM fun i => do
    let oid ← ObjectIdTimestamp.cell oids debug T col i
    pure (oid.map (objectidEpochMillis oids))
  respond schema (.clock (tsMillisArray out))

/-- The registered functions that read their argument as bytes. -/
inductive BlobFunction where
  | decode
  | toJson
  | fromJson
  | isValid
  | wellFormed
  | keys
  | field
  | typeOf
  | objectidHex
  deriving DecidableEq, Repr

def BlobFunction.onBind (args : Arguments) : BlobFunction → Except RpcError ResultType
  | .decode => Decode.onBind args
  | .toJson => ToJson.onBind args
  | .fromJson => FromJson.onBind
  | .isValid => IsValid.onBind
  | .wellFormed => WellFormed.onBind
  | .keys => Keys.onBind
  | .field => Field.onBind args
  | .typeOf => TypeOf.onBind
  | .objectidHex => ObjectIdHex.onBind

def BlobFunction.process (args : Arguments) :
    BlobFunction → List ResultField → ArrayRef → Outcome RpcError ResultBatch
  | .decode => Decode.process crates debug T
  | .toJson => ToJson.process crates debug T args
  | .fromJson => FromJson.process crates debug T
  | .isValid => IsValid.process debug T
  | .wellFormed => WellFormed.process debug T
  | .keys => Keys.process crates debug T
  | .field => Field.process crates debug T args
  | .typeOf => TypeOf.process crates debug T args
  | .objectidHex => ObjectIdHex.process crates debug T

end VgiBson.ScalarFunctions
