import NdpSmb.Interaction

/-!
Environments with a state of their own. An answer may change the state, and one state may
have several answers; nothing here depends on which operations there are.
-/

namespace Interaction

variable {Op : Type → Type 1} {R α β E : Type}

/-- `answers state event later`: in this state the environment may exchange the event, and is in
the later state then. -/
abbrev Environment (Op : Type → Type 1) (E : Type) : Type 1 := E → Event Op → E → Prop

variable {answers : Environment Op E}

inductive Serves (answers : Environment Op E) : E → List (Event Op) → E → Prop
  | nil {state} : Serves answers state [] state
  | cons {state middle later event rest} : answers state event middle →
      Serves answers middle rest later → Serves answers state (event :: rest) later

namespace Prog

def Meets (answers : Environment Op E) (post : α → E → Prop) : Prog Op α → E → Prop
  | ret value, state => post value state
  | call op next, state => ∀ reply later, answers state ⟨op, reply⟩ later →
      Meets answers post (next reply) later
  | fault, _ => True

variable {post : α → E → Prop} {state : E}

@[simp] theorem meets_ret {value : α} :
    (ret value : Prog Op α).Meets answers post state ↔ post value state := Iff.rfl

@[simp] theorem meets_perform {op : Op R} {post : R → E → Prop} :
    (perform op).Meets answers post state ↔
      ∀ reply later, answers state ⟨op, reply⟩ later → post reply later := Iff.rfl

theorem meets_perform_bind {op : Op R} {follow : R → Prog Op α} :
    (perform op >>= follow).Meets answers post state ↔
      ∀ reply later, answers state ⟨op, reply⟩ later →
        (follow reply).Meets answers post later := Iff.rfl

@[simp] theorem meets_bind {post : β → E → Prop} {program : Prog Op α}
    {follow : α → Prog Op β} :
    (program >>= follow).Meets answers post state ↔
      program.Meets answers (fun value later => (follow value).Meets answers post later) state := by
  induction program generalizing state with
  | ret => rfl
  | call op next ih => simp [Meets, ih]
  | fault => rfl

theorem Meets.mono {weak : α → E → Prop} {program : Prog Op α}
    (meets : program.Meets answers post state)
    (weaken : ∀ value later, post value later → weak value later) :
    program.Meets answers weak state := by
  induction program generalizing state with
  | ret value => exact weaken value state meets
  | call op next ih => exact fun reply later exchanged => ih reply (meets reply later exchanged)
  | fault => trivial

theorem Meets.and_returns {known : α → Prop} {program : Prog Op α}
    (meets : program.Meets answers post state) (returned : program.Returns known) :
    program.Meets answers (fun value later => post value later ∧ known value) state := by
  induction program generalizing state with
  | ret value => exact ⟨meets, returned⟩
  | call op next ih =>
      exact fun reply later exchanged => ih reply (meets reply later exchanged) (returned reply)
  | fault => trivial

theorem Meets.run {program : Prog Op α} {trace : List (Event Op)} {value : α} {later : E}
    (meets : program.Meets answers post state) (run : Run program trace (some value))
    (served : Serves answers state trace later) : post value later := by
  generalize returned : some value = outcome at run
  induction run generalizing state with
  | ret =>
      obtain rfl := Option.some.inj returned
      cases served
      exact meets
  | call _ ih =>
      cases served with
      | cons exchanged rest => exact ih (meets _ _ exchanged) rest returned
  | fault => cases returned

/-- Operations that leave the state alone. -/
theorem meets_of_only {allowed : (R : Type) → Op R → Prop} {program : Prog Op α}
    (only : program.Only allowed)
    (quiet : ∀ R op reply later, allowed R op → answers state ⟨op, reply⟩ later → later = state) :
    program.Meets answers (fun _ later => later = state) state := by
  induction program with
  | ret value => rfl
  | call op next ih =>
      intro reply later exchanged
      rw [quiet _ op reply later only.1 exchanged]
      exact ih reply (only.2 reply)
  | fault => trivial

theorem returns_iff_runs {post : α → Prop} {program : Prog Op α} :
    program.Returns post ↔ ∀ trace value, Run program trace (some value) → post value := by
  constructor
  · exact fun returned trace value run => returned.run run
  · intro all
    induction program with
    | ret value => exact all [] value .ret
    | call op next ih =>
        exact fun reply => ih reply fun trace value run => all _ value (.call run)
    | fault => trivial

end Prog

end Interaction
