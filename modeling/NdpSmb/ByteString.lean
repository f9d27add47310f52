import Mathlib.Data.List.Basic
import Mathlib.Data.List.TakeWhile

/-!
Byte strings as C code sees them: the bytes before the terminating zero. The
cuts at a separator and the comparisons up to letter case work over any
alphabet.
-/

namespace ByteString

abbrev CString := List UInt8

def bytes (text : String) : CString := text.toList.map fun character => character.toNat.toUInt8

def backslash : UInt8 := 92

def asciiUpper (byte : UInt8) : UInt8 := if 97 ≤ byte ∧ byte ≤ 122 then byte - 32 else byte

theorem asciiUpper_backslash_iff (byte : UInt8) :
    asciiUpper byte = asciiUpper backslash ↔ byte = backslash := by
  have fixed : asciiUpper backslash = backslash := rfl
  rw [fixed]
  simp only [asciiUpper, backslash]
  split
  · rename_i lower
    grind
  · exact Iff.rfl

/-! Cutting at the first and at the last separator. -/

section Cut

variable {α : Type} [DecidableEq α] (separator : α)

def beforeFirst (text : List α) : List α := text.takeWhile fun letter => letter ≠ separator

def fromFirst (text : List α) : List α := text.dropWhile fun letter => letter ≠ separator

/-- The parts around the last separator, if there is one. -/
def cutLast : List α → Option (List α × List α)
  | [] => none
  | letter :: rest =>
      match cutLast rest with
      | some (before, after) => some (letter :: before, after)
      | none => if letter = separator then some ([], rest) else none

theorem beforeFirst_append_fromFirst (text : List α) :
    beforeFirst separator text ++ fromFirst separator text = text :=
  List.takeWhile_append_dropWhile

theorem beforeFirst_append_separator {text rest : List α} (absent : separator ∉ text) :
    beforeFirst separator (text ++ separator :: rest) = text := by
  induction text with
  | nil => simp [beforeFirst]
  | cons letter text ih =>
      simp only [List.mem_cons, not_or] at absent
      rw [List.cons_append, beforeFirst, List.takeWhile_cons, if_pos (by simp [Ne.symm absent.1])]
      exact congrArg (letter :: ·) (ih absent.2)

theorem cutLast_eq_none_iff {text : List α} :
    cutLast separator text = none ↔ separator ∉ text := by
  induction text with
  | nil => simp [cutLast]
  | cons letter rest ih =>
      cases found : cutLast separator rest with
      | some parts =>
          have present : separator ∈ rest := by
            by_contra absent
            rw [ih.mpr absent] at found
            simp at found
          simp [cutLast, found, present]
      | none =>
          have absent := ih.mp found
          by_cases same : letter = separator
          · simp [cutLast, found, same]
          · simp [cutLast, found, same, absent, Ne.symm same]

theorem cutLast_eq_some_iff {text before after : List α} :
    cutLast separator text = some (before, after) ↔
      text = before ++ separator :: after ∧ separator ∉ after := by
  induction text generalizing before with
  | nil => simp [cutLast]
  | cons letter rest ih =>
      cases found : cutLast separator rest with
      | some parts =>
          obtain ⟨left, right⟩ := parts
          simp only [cutLast, found, Option.some.injEq, Prod.mk.injEq]
          constructor
          · rintro ⟨rfl, rfl⟩
            have inner := ih.mp found
            exact ⟨by rw [inner.1]; rfl, inner.2⟩
          · rintro ⟨whole, absent⟩
            cases before with
            | nil =>
                simp only [List.nil_append, List.cons.injEq] at whole
                rw [whole.2, (cutLast_eq_none_iff separator).mpr absent] at found
                simp at found
            | cons head tail =>
                simp only [List.cons_append, List.cons.injEq] at whole
                have inner := ih.mpr ⟨whole.2, absent⟩
                rw [found] at inner
                simp only [Option.some.injEq, Prod.mk.injEq] at inner
                exact ⟨by rw [whole.1, inner.1], inner.2⟩
      | none =>
          have absent := (cutLast_eq_none_iff separator).mp found
          simp only [cutLast, found]
          constructor
          · intro cut
            split at cut
            · rename_i same
              simp only [Option.some.injEq, Prod.mk.injEq] at cut
              obtain ⟨rfl, rfl⟩ := cut
              exact ⟨by rw [same]; rfl, absent⟩
            · simp at cut
          · rintro ⟨whole, clear⟩
            cases before with
            | nil =>
                simp only [List.nil_append, List.cons.injEq] at whole
                rw [if_pos whole.1, whole.2]
            | cons head tail =>
                simp only [List.cons_append, List.cons.injEq] at whole
                rw [whole.2] at absent
                simp at absent

end Cut

section Fold

variable {α : Type} (fold : α → α)

def FoldEq (left right : List α) : Prop := left.map fold = right.map fold

instance [DecidableEq α] (left right : List α) : Decidable (FoldEq fold left right) :=
  inferInstanceAs (Decidable (left.map fold = right.map fold))

variable {fold}

@[refl, simp] theorem FoldEq.refl (text : List α) : FoldEq fold text text := rfl

@[symm] theorem FoldEq.symm {left right : List α} (equal : FoldEq fold left right) :
    FoldEq fold right left := Eq.symm equal

theorem FoldEq.trans {left middle right : List α} (first : FoldEq fold left middle)
    (second : FoldEq fold middle right) : FoldEq fold left right := Eq.trans first second

theorem FoldEq.length_eq {left right : List α} (equal : FoldEq fold left right) :
    left.length = right.length := by
  simpa using congrArg List.length equal

theorem FoldEq.mem_iff {left right : List α} {letter : α} (equal : FoldEq fold left right)
    (alone : ∀ other, fold other = fold letter ↔ other = letter) :
    letter ∈ left ↔ letter ∈ right := by
  have present (text : List α) : letter ∈ text ↔ fold letter ∈ text.map fold := by
    simp [List.mem_map, alone]
  rw [present left, present right, show left.map fold = right.map fold from equal]

end Fold

end ByteString
