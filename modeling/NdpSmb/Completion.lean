import NdpSmb.Interaction

/-!
Programs that run into no fault. Some return whatever they are answered; of the others a watch
without crashes says what they need of their environment.
-/

namespace Interaction

variable {Op : Type → Type 1} {R α β M : Type}

namespace Prog

def Completes (post : α → Prop) : Prog Op α → Prop
  | ret value => post value
  | call _ next => ∀ reply, Completes post (next reply)
  | fault => False

variable {post known : α → Prop}

@[simp] theorem completes_ret {value : α} :
    Completes post (ret value : Prog Op α) ↔ post value := Iff.rfl

theorem completes_ite {condition : Prop} [Decidable condition] {left right : Prog Op α}
    (first : condition → Completes post left) (second : ¬ condition → Completes post right) :
    Completes post (if condition then left else right) := by
  split
  · rename_i holds
    exact first holds
  · rename_i fails
    exact second fails

theorem Completes.bind {program : Prog Op α} {follow : α → Prog Op β} {post : β → Prop}
    (begun : Completes known program)
    (followed : ∀ value, known value → Completes post (follow value)) :
    Completes post (program >>= follow) := by
  induction program with
  | ret value => exact followed value begun
  | call op next ih =>
      intro reply
      apply ih
      exact begun reply
  | fault => exact False.elim begun

theorem Completes.mono {program : Prog Op α} (completes : Completes known program)
    (weaken : ∀ value, known value → post value) : Completes post program := by
  induction program with
  | ret value => exact weaken value completes
  | call op next ih =>
      intro reply
      apply ih
      exact completes reply
  | fault => exact completes

theorem Completes.returns {program : Prog Op α} (completes : Completes post program) :
    Returns post program := by
  induction program with
  | ret value => exact completes
  | call op next ih =>
      intro reply
      apply ih
      exact completes reply
  | fault => trivial

theorem Completes.run {program : Prog Op α} (completes : Completes post program)
    {trace : List (Event Op)} {outcome : Option α} (run : Run program trace outcome) :
    ∃ value, outcome = some value ∧ post value := by
  induction run with
  | ret => exact ⟨_, rfl, completes⟩
  | call _ ih => exact ih (completes _)
  | fault => exact False.elim completes

theorem Completes.run_bind {program : Prog Op α} (completes : Completes post program)
    {follow : α → Prog Op β} {trace : List (Event Op)} {outcome : Option β}
    (run : Run (program >>= follow) trace outcome) :
    ∃ first second value, trace = first ++ second ∧ Run program first (some value) ∧
      Run (follow value) second outcome := by
  induction program generalizing trace with
  | ret value => exact ⟨[], trace, value, rfl, .ret, run⟩
  | call op next ih =>
      rw [call_bind, run_call_iff] at run
      obtain ⟨reply, rest, rfl, after⟩ := run
      obtain ⟨first, second, value, rfl, returned, followed⟩ := ih reply (completes reply) after
      exact ⟨_ :: first, second, value, rfl, .call returned, followed⟩
  | fault => exact False.elim completes

end Prog

namespace Watch

variable {watch : Watch Op M} {post known : α → Prop} {program : Prog Op α}

/-- Whatever the watch remembers, the runs that it admits return what is known. -/
def Yields (watch : Watch Op M) (post : α → Prop) (program : Prog Op α) : Prop :=
  ∀ memory, watch.Ensures (fun value _ => post value) program memory

theorem yields_of_completes (completes : program.Completes post) : watch.Yields post program := by
  induction program with
  | ret value => exact fun _ => completes
  | call op next ih =>
      intro memory reply _
      apply ih
      exact completes reply
  | fault => exact False.elim completes

theorem ensures_of_completes {allowed : (R : Type) → Op R → Prop} {memory : M}
    (completes : program.Completes post) (only : program.Only allowed)
    (quiet : ∀ R op reply, allowed R op → watch.observe memory ⟨op, reply⟩ = memory) :
    watch.Ensures (fun value later => post value ∧ later = memory) program memory := by
  induction program with
  | ret value => exact ⟨completes, rfl⟩
  | call op next ih =>
      intro reply _
      rw [quiet _ op reply only.1]
      exact ih reply (completes reply) (only.2 reply)
  | fault => exact False.elim completes

theorem yields_perform_bind {op : Op R} {follow : R → Prog Op α}
    (followed : ∀ memory reply, watch.admits memory ⟨op, reply⟩ →
      watch.Yields post (follow reply)) : watch.Yields post (perform op >>= follow) := by
  intro memory reply admitted
  exact followed memory reply admitted _

theorem yields_ite {condition : Prop} [Decidable condition] {left right : Prog Op α}
    (first : condition → watch.Yields post left) (second : ¬ condition → watch.Yields post right) :
    watch.Yields post (if condition then left else right) := by
  split
  · rename_i holds
    exact first holds
  · rename_i fails
    exact second fails

theorem Yields.bind {follow : α → Prog Op β} {post : β → Prop} (begun : watch.Yields known program)
    (followed : ∀ value, known value → watch.Yields post (follow value)) :
    watch.Yields post (program >>= follow) := by
  intro memory
  apply ensures_bind.mpr
  exact (begun memory).mono fun value later holds => followed value holds later

theorem Yields.mono (yields : watch.Yields known program)
    (weaken : ∀ value, known value → post value) : watch.Yields post program := by
  intro memory
  exact (yields memory).mono fun value _ holds => weaken value holds

theorem Yields.and_returns (yields : watch.Yields post program) (returned : program.Returns known) :
    watch.Yields (fun value => post value ∧ known value) program := by
  intro memory
  exact (yields memory).and_returns returned

theorem Yields.run (yields : watch.Yields post program) (spared : ∀ memory, ¬ watch.crash memory)
    {memory : M} {trace : List (Event Op)} {outcome : Option α} (run : Run program trace outcome)
    (admitted : watch.Admits memory trace) : ∃ value, outcome = some value ∧ post value := by
  have concluded := ensures_iff_runs.mp (yields memory) trace outcome run admitted
  cases outcome with
  | none => exact absurd concluded (spared _)
  | some value => exact ⟨value, rfl, concluded⟩

end Watch

end Interaction
