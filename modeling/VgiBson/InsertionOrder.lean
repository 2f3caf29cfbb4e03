import Mathlib.Data.List.Basic
import Mathlib.Data.List.Induction
import Mathlib.Data.List.Nodup
import Mathlib.Data.Nat.Notation

/-! # Entries in insertion order

A map as the list of its entries: an insertion replaces the value of a key in place, or adds an
entry at the end. -/

namespace VgiBson.InsertionOrder

variable {κ β : Type} [DecidableEq κ]

def insertEntry (es : List (κ × β)) (k : κ) (v : β) : List (κ × β) :=
  if k ∈ es.map Prod.fst then es.map fun e => if e.1 = k then (k, v) else e else es ++ [(k, v)]

theorem keys_insertEntry (es : List (κ × β)) (k : κ) (v : β) :
    (insertEntry es k v).map Prod.fst =
      if k ∈ es.map Prod.fst then es.map Prod.fst else es.map Prod.fst ++ [k] := by
  simp only [insertEntry]
  split
  · rw [List.map_map]
    apply List.map_congr_left
    intro e _
    by_cases he : e.1 = k <;> simp [he]
  · rw [List.map_append, List.map_singleton]

theorem mem_insertEntry {es : List (κ × β)} {k : κ} {v : β} {e : κ × β}
    (h : e ∈ insertEntry es k v) : e ∈ es ∨ e = (k, v) := by
  simp only [insertEntry] at h
  split at h
  · obtain ⟨f, hf, rfl⟩ := List.mem_map.mp h
    by_cases hk : f.1 = k
    · exact .inr (if_pos hk)
    · rw [if_neg hk]
      exact .inl hf
  · simpa using h

theorem insertEntry_of_not_mem {es : List (κ × β)} {k : κ} (h : k ∉ es.map Prod.fst) (v : β) :
    insertEntry es k v = es ++ [(k, v)] := if_neg h

/-- The entries inserted one after another. -/
def insertAll (es new : List (κ × β)) : List (κ × β) :=
  new.foldl (fun es e => insertEntry es e.1 e.2) es

theorem insertAll_cons (es new : List (κ × β)) (e : κ × β) :
    insertAll es (e :: new) = insertAll (insertEntry es e.1 e.2) new := rfl

/-- Replacing a value in place is seen at its key and nowhere else. -/
theorem find?_replace (es : List (κ × β)) (k k' : κ) (v : β) :
    (es.map fun e => if e.1 = k then (k, v) else e).find? (·.1 = k') =
      if k = k' ∧ k ∈ es.map Prod.fst then some (k, v) else es.find? (·.1 = k') := by
  induction es with
  | nil => simp
  | cons e es ih =>
    rw [List.map_cons, List.find?_cons, ih, List.find?_cons]
    by_cases he : e.1 = k
    · by_cases hk : k = k' <;> simp [he, hk]
    · by_cases hk : k = k'
      · subst hk
        have hek : k ≠ e.1 := Ne.symm he
        simp only [he, decide_false, if_false, List.map_cons, List.mem_cons, hek, false_or]
      · simp [he, hk]

theorem find?_insertEntry (es : List (κ × β)) (k k' : κ) (v : β) :
    (insertEntry es k v).find? (·.1 = k') =
      if k = k' then some (k, v) else es.find? (·.1 = k') := by
  by_cases hmem : k ∈ es.map Prod.fst
  · rw [insertEntry, if_pos hmem, find?_replace]
    simp only [hmem, and_true]
  · rw [insertEntry_of_not_mem hmem, List.find?_append, List.find?_singleton]
    by_cases hk : k = k'
    · have hnone : es.find? (·.1 = k') = none := by
        rw [List.find?_eq_none]
        intro e he hek
        exact hmem (hk ▸ of_decide_eq_true hek ▸ List.mem_map_of_mem he)
      simp [hk, hnone]
    · simp [hk]

/-- The last entry inserted with a key is found, and an older one if there is none. -/
theorem find?_insertAll (es new : List (κ × β)) (k : κ) :
    (insertAll es new).find? (·.1 = k) =
      (new.reverse.find? (·.1 = k)).or (es.find? (·.1 = k)) := by
  induction new generalizing es with
  | nil => rfl
  | cons e new ih =>
    obtain ⟨k', v⟩ := e
    rw [insertAll_cons, ih, find?_insertEntry, List.reverse_cons, List.find?_append,
      Option.or_assoc, List.find?_singleton]
    by_cases hk : k' = k <;> simp [hk]

/-- Keys are listed once, in the order of their first insertion. -/
theorem keys_insertAll (new : List (κ × β)) :
    (insertAll [] new).map Prod.fst = (new.map Prod.fst).eraseDups := by
  induction new using List.reverseRecOn with
  | nil => rfl
  | append_singleton new e ih =>
    have hlast : insertAll [] (new ++ [e]) = insertEntry (insertAll [] new) e.1 e.2 :=
      List.foldl_concat _ _ _ _
    rw [hlast, keys_insertEntry, ih, List.map_append, List.eraseDups_append]
    by_cases hmem : e.1 ∈ new.map Prod.fst
    · rw [if_pos (List.mem_eraseDups.mpr hmem)]
      simp [List.removeAll, hmem]
    · rw [if_neg (mt List.mem_eraseDups.mp hmem)]
      simp [List.removeAll, hmem, List.eraseDups_cons]

end VgiBson.InsertionOrder
