import Mathlib.Data.List.Basic

/-!
Files as sequences of items that are read, written and cut at positions. A gap behind the end
is filled with blanks.
-/

namespace ByteFile

variable {α : Type} {blank : α} {content data : List α} {offset count size index : Nat}

/-- At most `count` items from the offset. -/
def slice (content : List α) (offset count : Nat) : List α := (content.drop offset).take count

def resize (blank : α) (content : List α) (size : Nat) : List α :=
  content.take size ++ List.replicate (size - content.length) blank

/-- The data in the place of what was there. -/
def overlay (blank : α) (content : List α) (offset : Nat) (data : List α) : List α :=
  if data = [] then content
  else resize blank content offset ++ data ++ content.drop (offset + data.length)

theorem length_slice_le : (slice content offset count).length ≤ count := by
  unfold slice
  rw [List.length_take]
  exact Nat.min_le_left ..

theorem getElem?_slice :
    (slice content offset count)[index]? =
      if index < count then content[offset + index]? else none := by
  unfold slice
  rw [List.getElem?_take, List.getElem?_drop]

@[simp] theorem length_resize : (resize blank content size).length = size := by
  unfold resize
  rw [List.length_append, List.length_take, List.length_replicate]
  omega

theorem getElem?_resize_of_lt (kept : index < content.length) (inside : index < size) :
    (resize blank content size)[index]? = content[index]? := by
  unfold resize
  rw [List.getElem?_append_left (by rw [List.length_take]; omega), List.getElem?_take_of_lt inside]

theorem getElem?_overlay_inside (started : offset ≤ index)
    (within : index < offset + data.length) :
    (overlay blank content offset data)[index]? = data[index - offset]? := by
  have written : data ≠ [] := by
    rintro rfl
    simp only [List.length_nil] at within
    omega
  unfold overlay
  rw [if_neg written, List.append_assoc, List.getElem?_append_right (by rw [length_resize]; omega),
    length_resize, List.getElem?_append_left (by omega)]

theorem getElem?_overlay_outside (kept : index < content.length)
    (outside : index < offset ∨ offset + data.length ≤ index) :
    (overlay blank content offset data)[index]? = content[index]? := by
  unfold overlay
  split
  · rfl
  · rcases outside with before | behind
    · rw [List.append_assoc, List.getElem?_append_left (by rw [length_resize]; exact before)]
      exact getElem?_resize_of_lt kept before
    · have length : (resize blank content offset ++ data).length = offset + data.length := by
        rw [List.length_append, length_resize]
      rw [List.getElem?_append_right (by omega), length, List.getElem?_drop]
      congr 1
      omega

def Contains (content : List α) (offset : Nat) (data : List α) : Prop :=
  ∀ index < data.length, content[offset + index]? = data[index]?

theorem Contains.bound (holds : Contains content offset data) (inside : index < data.length) :
    offset + index < content.length := by
  have there : (content[offset + index]?).isSome := by
    rw [holds index inside, List.getElem?_eq_getElem inside]
    rfl
  exact (List.getElem?_eq_some_iff.mp (Option.some_get there).symm).1

theorem contains_overlay : Contains (overlay blank content offset data) offset data := by
  intro index inside
  rw [getElem?_overlay_inside (by omega) (by omega)]
  congr 1
  omega

theorem Contains.overlay {other : List α} {elsewhere : Nat} (holds : Contains content offset data)
    (apart : elsewhere + other.length ≤ offset ∨ offset + data.length ≤ elsewhere) :
    Contains (overlay blank content elsewhere other) offset data := by
  intro index inside
  have outside : offset + index < elsewhere ∨ elsewhere + other.length ≤ offset + index := by
    omega
  rw [getElem?_overlay_outside (holds.bound inside) outside]
  exact holds index inside

theorem Contains.resize (holds : Contains content offset data)
    (fits : offset + data.length ≤ size) :
    Contains (resize blank content size) offset data := by
  intro index inside
  rw [getElem?_resize_of_lt (holds.bound inside) (by omega)]
  exact holds index inside

/-- A reader finds the data where it reads over them. -/
theorem Contains.getElem?_read {got : List α} {start near far : Nat}
    (holds : Contains content offset data) (read : got <+: slice content start count)
    (same : offset + near = start + far) (held : near < data.length) (sent : far < got.length) :
    got[far]? = data[near]? := by
  obtain ⟨rest, whole⟩ := read
  have inside : far < count := by
    have longer : got.length ≤ (got ++ rest).length := by simp
    rw [whole] at longer
    have bound : (slice content start count).length ≤ count := length_slice_le
    omega
  have read : (got ++ rest)[far]? = got[far]? := List.getElem?_append_left sent
  rw [← read, whole, getElem?_slice, if_pos inside, ← same]
  exact holds near held

end ByteFile
