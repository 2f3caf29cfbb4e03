import VgiBson.DottedPaths
import VgiBson.ExtendedJsonRoundTrip

/-! # Projection and rendering

Going down the value tree and then converting the node gives the same JSON as converting the whole
tree and then going down in it. -/

namespace VgiBson.ProjectedJson

open MachineBytes CursorWalks StructuralValidator BsonValues BsonEncoding DocumentDecoding
  CrateAssumptions FieldProjection PathWalks DottedPaths ExtendedJsonRoundTrip

variable {T : Target} {crates : Crates}

/-- The canonical conversion maps containers part by part and keeps their order. -/
structure ConvertsContainers (crates : Crates) : Prop where
  array : ∀ items, crates.intoCanonicalExtjson (.array items) =
    .array (items.map crates.intoCanonicalExtjson)
  document : ∀ fields, crates.intoCanonicalExtjson (.document fields) =
    .object (fields.map fun f => (f.1, crates.intoCanonicalExtjson f.2))

/-- One segment down a JSON value: a member of an object or an element of an array. -/
def jsonChild (T : Target) : Json → String → Option Json
  | .object members, seg => (members.find? (·.1 = seg)).map Prod.snd
  | .array items, seg => (parseUsize T seg).bind fun i => items[i]?
  | _, _ => none

/-- The conversion of a child is the child of the conversion. -/
theorem jsonChild_of_segmentChild (hget : GetFinds crates) (hconv : ConvertsContainers crates)
    {v v' : Bson} {seg : String} (h : segmentChild crates T v seg = some v') :
    jsonChild T (crates.intoCanonicalExtjson v) seg = some (crates.intoCanonicalExtjson v') := by
  cases v with
  | document fields =>
    have hfind : (fields.find? (·.1 = seg)).map Prod.snd = some v' :=
      (hget fields seg).symm.trans h
    obtain ⟨f, hf, rfl⟩ := Option.map_eq_some_iff.mp hfind
    have hcomp : (fun m : String × Json => decide (m.1 = seg)) ∘
        (fun f : String × Bson => (f.1, crates.intoCanonicalExtjson f.2)) =
        fun f => decide (f.1 = seg) := rfl
    rw [hconv.document, jsonChild, List.find?_map, hcomp, hf]
    rfl
  | array items =>
    obtain ⟨i, hi, hv⟩ := Option.bind_eq_some_iff.mp h
    rw [hconv.array, jsonChild, hi, Option.bind_some, List.getElem?_map, hv]
    rfl
  | _ => cases h

/-- The node under a path is converted to the JSON under the path. -/
theorem follow_json_of_navigate (hget : GetFinds crates) (hconv : ConvertsContainers crates)
    {root leaf : Bson} {path : String} (h : navigate crates T root path = some leaf) :
    follow (jsonChild T) (crates.intoCanonicalExtjson root) (segments path) =
      some (crates.intoCanonicalExtjson leaf) := by
  rw [navigate_eq_follow] at h
  have hsame : List.Forall₂ Eq (segments path) (segments path) :=
    List.forall₂_same.mpr fun _ _ => rfl
  obtain ⟨j, hj, rfl⟩ := follow_simulates
    (R := fun v j => j = crates.intoCanonicalExtjson v)
    (fun v j s t v' hR hS hc => by
      subst hR hS
      exact ⟨_, jsonChild_of_segmentChild hget hconv hc, rfl⟩) hsame rfl h
  exact hj

/-- Projection commutes with rendering: the JSON of a field is the part under the same path of
the document's canonical Extended JSON. -/
theorem field_json_commutes (crates : Crates) (hget : GetFinds crates)
    (hconv : ConvertsContainers crates) (b : Bytes T) (path j : String)
    (h : field crates b path .json = .ok (some j)) :
    ∃ doc part, decodeDocument crates b = .ok doc ∧
      toJson crates b .canonical =
        .ok (crates.jsonToString (crates.intoCanonicalExtjson (.document doc))) ∧
      follow (jsonChild T) (crates.intoCanonicalExtjson (.document doc)) (segments path) =
        some part ∧
      j = crates.jsonToString part := by
  cases hdoc : decodeDocument crates b with
  | error e =>
    rw [field, hdoc] at h
    cases h
  | ok doc =>
    rw [field_of_decode hdoc] at h
    cases hleaf : navigate crates T (.document doc) path with
    | none =>
      rw [hleaf] at h
      cases h
    | some leaf =>
      rw [hleaf] at h
      cases h
      exact ⟨doc, _, rfl, toJson_of_decode hdoc .canonical,
        follow_json_of_navigate hget hconv hleaf, rfl⟩

theorem getFinds_chainCrates : GetFinds chainCrates := fun _ _ => rfl

theorem convertsContainers_chainCrates : ConvertsContainers chainCrates :=
  ⟨convertsByShape_chainCrates.array, convertsByShape_chainCrates.document⟩

/-- The inner document of a document in a document. -/
theorem field_chainBytes :
    field chainCrates (chainBytes 1 (by decide)) "a" .json = .ok (some "\x7b\x7d") := by
  rw [field_of_decode (decode_chainBytes 1 _)]
  rfl

theorem field_json_commutes_chainBytes :
    ∃ doc part, decodeDocument chainCrates (chainBytes 1 (by decide)) = .ok doc ∧
      toJson chainCrates (chainBytes 1 (by decide)) .canonical =
        .ok (chainCrates.jsonToString (chainCrates.intoCanonicalExtjson (.document doc))) ∧
      follow (jsonChild .bits64) (chainCrates.intoCanonicalExtjson (.document doc))
        (segments "a") = some part ∧
      "\x7b\x7d" = chainCrates.jsonToString part :=
  field_json_commutes chainCrates getFinds_chainCrates convertsContainers_chainCrates _ _ _
    field_chainBytes

end VgiBson.ProjectedJson
