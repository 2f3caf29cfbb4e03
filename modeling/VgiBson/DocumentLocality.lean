import VgiBson.CrateAssumptions
import VgiBson.FieldProjection
import VgiBson.ValidatorGrammar

/-! # Acceptance is local

The verdict on a document depends on its own bytes: not on what stands before it, and not on what
follows. So every reader gives for a longer blob what it gives for the document it begins with. -/

namespace VgiBson.DocumentLocality

open MachineBytes CursorWalks CursorLanguages StructuralValidator ValidatorGrammar BsonGrammar
  BsonValues BsonEncoding DocumentDecoding FieldProjection CrateAssumptions

variable {T : Target}

/-- The validator reads one language in every buffer, at every position. -/
theorem validateDoc_local {s d : Bytes T} {p t : List UInt8} (hs : s.data = p ++ d.data ++ t)
    (depth : ℕ) (checkDupes : Bool) :
    Yields (validateDoc s depth checkDupes) p.length () (p.length + d.len) ↔
      Yields (validateDoc d depth checkDupes) 0 () d.len := by
  have hlen := congrArg List.length hs
  simp only [List.length_append] at hlen
  have hat : At s p.length d.data := by
    rw [At, hs, List.append_assoc, List.drop_left]
    exact List.prefix_append _ _
  have hat' : At d 0 d.data := List.prefix_rfl
  have h := (reads_validateDoc depth checkDupes).transfer (reads_validateDoc depth checkDupes)
    (by simp only [Bytes.len]; omega) (Nat.zero_le _) hat hat' ()
  rwa [Nat.zero_add] at h

/-- A document at the front stays one when bytes are appended. -/
theorem precheck_append {b s : Bytes T} (hs : b.data <+: s.data) (h : precheck b = .ok ()) :
    precheck s = .ok () := by
  obtain ⟨d, hd, hat, -⟩ := (reads_validateDoc 0 false 0 (Nat.zero_le _) () _).mp ⟨h, rfl⟩
  have hat' : At s 0 d := List.IsPrefix.trans hat hs
  exact ((reads_validateDoc 0 false 0 (Nat.zero_le _) () _).mpr ⟨d, hd, hat', rfl⟩).1

theorem precheck_of_full {b : Bytes T} (h : Yields (validateDoc b 0 false) 0 () b.len) :
    precheck b = .ok () := h.1

/-- Behind a document that fills a blob nothing matters to the decoder. -/
theorem decodeDocument_append {crates : Crates} (hcrates : ReadsDeclaredLength crates)
    {b s : Bytes T} {t : List UInt8} (hs : s.data = b.data ++ t)
    (h : Yields (validateDoc b 0 false) 0 () b.len) :
    decodeDocument crates s = decodeDocument crates b := by
  have hb := precheck_of_full h
  have hdoc := (yields_validateDoc_full b 0 false).mp h
  rw [decodeDocument_of_ok crates (precheck_append ⟨t, hs.symm⟩ hb),
    decodeDocument_of_ok crates hb, hs, hcrates _ _ (declaresOwnLength_of_doc hdoc)]

/-- Locality of acceptance, and what it means for the readers of a blob. -/
theorem acceptance_is_local (crates : Crates) (hcrates : ReadsDeclaredLength crates) :
    (∀ (T : Target) (s d : Bytes T) (p t : List UInt8), s.data = p ++ d.data ++ t →
      ∀ (depth : ℕ) (checkDupes : Bool),
        Yields (validateDoc s depth checkDupes) p.length () (p.length + d.len) ↔
          Yields (validateDoc d depth checkDupes) 0 () d.len) ∧
    (∀ (T : Target) (b s : Bytes T) (t : List UInt8), s.data = b.data ++ t →
      precheck b = .ok () → precheck s = .ok ()) ∧
    (∀ (T : Target) (b s : Bytes T) (t : List UInt8), s.data = b.data ++ t →
      Yields (validateDoc b 0 false) 0 () b.len →
        decodeDocument crates s = decodeDocument crates b ∧
        (∀ mode, toJson crates s mode = toJson crates b mode) ∧
        keys crates s = keys crates b ∧
        (∀ path mode, field crates s path mode = field crates b path mode) ∧
        ∀ path, typeOf crates s path = typeOf crates b path) := by
  refine ⟨fun T s d p t hs => validateDoc_local hs, fun T b s t hs => ?_, fun T b s t hs h => ?_⟩
  · exact precheck_append ⟨t, hs.symm⟩
  · have hdecode := decodeDocument_append hcrates hs h
    exact ⟨hdecode, readers_congr crates hdecode⟩

/-- An array with a text in it, under the key `a`. -/
def textDocument : Bytes .bits64 := ⟨documentBytes [("a", .array [.string "b"])], by decide⟩

/-- The same with stray bytes behind it. -/
def strayBytes : Bytes .bits64 := ⟨textDocument.data ++ [0xFF, 0x00], by decide⟩

theorem acceptance_is_local_textDocument :
    (∀ path mode, field formatCrates strayBytes path mode =
      field formatCrates textDocument path mode) ∧
    keys formatCrates strayBytes = keys formatCrates textDocument := by
  have h := (acceptance_is_local formatCrates readsDeclaredLength_formatCrates).2.2 .bits64
    textDocument strayBytes [0xFF, 0x00] rfl ⟨by decide +kernel, by decide +kernel⟩
  exact ⟨h.2.2.2.1, h.2.2.1⟩

end VgiBson.DocumentLocality
