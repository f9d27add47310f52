import NdpSmb.Interaction

/-!
Two programs that ask the environment for the same operations in the same order, and
systems whose steps are such programs: every history of the one is a history of the other.
-/

namespace Interaction

variable {Op : Type → Type 1} {α β γ δ : Type}

/-- The programs differ in their results only, and these are related; one runs into undefined
behaviour where the other does. -/
inductive Related (same : α → β → Prop) : Prog Op α → Prog Op β → Prop
  | ret {left right} : same left right → Related same (.ret left) (.ret right)
  | call {R : Type} {op : Op R} {left right} : (∀ reply, Related same (left reply) (right reply)) →
      Related same (.call op left) (.call op right)
  | fault : Related same .fault .fault

namespace Related

variable {same : α → β → Prop}

theorem refl (program : Prog Op α) : Related Eq program program := by
  induction program with
  | ret value => exact .ret rfl
  | call op next ih => exact .call ih
  | fault => exact .fault

theorem of_returns {post : α → Prop} {program : Prog Op α} (returned : program.Returns post) :
    Related (fun left right => left = right ∧ post left) program program := by
  induction program with
  | ret value => exact .ret ⟨rfl, returned⟩
  | call op next ih => exact .call fun reply => ih reply (returned reply)
  | fault => exact .fault

theorem bind {first : Prog Op α} {second : Prog Op β} {follow : α → Prog Op γ}
    {after : β → Prog Op δ} {later : γ → δ → Prop} (related : Related same first second)
    (next : ∀ left right, same left right → Related later (follow left) (after right)) :
    Related later (first >>= follow) (second >>= after) := by
  induction related with
  | ret equal => exact next _ _ equal
  | call _ ih => exact .call ih
  | fault => exact .fault

theorem mono {wider : α → β → Prop} {first : Prog Op α} {second : Prog Op β}
    (related : Related same first second) (widen : ∀ left right, same left right → wider left right) :
    Related wider first second := by
  induction related with
  | ret equal => exact .ret (widen _ _ equal)
  | call _ ih => exact .call ih
  | fault => exact .fault

theorem returns {first : Prog Op α} {second : Prog Op β} (related : Related same first second) :
    first.Returns fun left => ∃ right, same left right := by
  induction related with
  | ret equal => exact ⟨_, equal⟩
  | call _ ih => exact ih
  | fault => trivial

theorem answered_eq {first second : Prog Op α} (related : Related Eq first second)
    (answers : (R : Type) → Op R → R) : answered answers first = answered answers second := by
  induction related with
  | ret equal => exact congrArg some equal
  | call _ ih => exact ih _
  | fault => rfl

end Related

/-- As `Related`, where the first program may also run into undefined behaviour on its own. -/
inductive Refines (same : α → β → Prop) : Prog Op α → Prog Op β → Prop
  | ret {left right} : same left right → Refines same (.ret left) (.ret right)
  | call {R : Type} {op : Op R} {left right} : (∀ reply, Refines same (left reply) (right reply)) →
      Refines same (.call op left) (.call op right)
  | fault {right} : Refines same .fault right

theorem Related.refines {same : α → β → Prop} {first : Prog Op α} {second : Prog Op β}
    (related : Related same first second) : Refines same first second := by
  induction related with
  | ret equal => exact .ret equal
  | call _ ih => exact .call ih
  | fault => exact .fault

namespace Refines

variable {same : α → β → Prop} {first : Prog Op α} {second : Prog Op β}

theorem refl (program : Prog Op α) : Refines Eq program program :=
  (Related.refl program).refines

theorem perform_bind {R : Type} {op : Op R} {follow : R → Prog Op α} {after : R → Prog Op β}
    (next : ∀ reply, Refines same (follow reply) (after reply)) :
    Refines same (perform op >>= follow) (perform op >>= after) :=
  .call next

theorem bind {follow : α → Prog Op γ} {after : β → Prog Op δ} {later : γ → δ → Prop}
    (refines : Refines same first second)
    (next : ∀ left right, same left right → Refines later (follow left) (after right)) :
    Refines later (first >>= follow) (second >>= after) := by
  induction refines with
  | ret equal => exact next _ _ equal
  | call _ ih => exact .call ih
  | fault => exact .fault

theorem run (refines : Refines same first second) {trace : List (Event Op)} {left : α}
    (ran : Run first trace (some left)) :
    ∃ right, Run second trace (some right) ∧ same left right := by
  induction refines generalizing trace with
  | @ret value right equal =>
      obtain ⟨rfl, returned⟩ := run_ret_iff.mp ran
      obtain rfl := Option.some.inj returned
      exact ⟨right, .ret, equal⟩
  | call _ ih =>
      obtain ⟨reply, rest, rfl, inner⟩ := run_call_iff.mp ran
      obtain ⟨right, runs, equal⟩ := ih reply inner
      exact ⟨right, .call runs, equal⟩
  | fault => simp at ran

end Refines

section System

variable {State Model Label Answer : Type} {step : State → Label → Prog Op (Answer × State)}
  {model : Model → Label → Prog Op (Answer × Model)} {allowed : State → Label → Prop}
  {permitted : Model → Label → Prop} {start : State} {origin : Model}

theorem Reaches.refined (abstracts : State → Model → Prop)
    (simulates : ∀ state image label, abstracts state image → allowed state label →
      permitted image label ∧ Refines (fun left right => left.1 = right.1 ∧
        abstracts left.2 right.2) (step state label) (model image label))
    (first : abstracts start origin) {history : List (Taken Op Label Answer)} {state : State}
    (reached : Reaches step allowed start history state) :
    ∃ image, Reaches model permitted origin history image ∧ abstracts state image := by
  induction reached with
  | start => exact ⟨origin, .start, first⟩
  | @step history state label trace answer next _ admitted run ih =>
      obtain ⟨image, before, holds⟩ := ih
      obtain ⟨allowedThere, refines⟩ := simulates state image label holds admitted
      obtain ⟨⟨answerThere, later⟩, runs, rfl, still⟩ := refines.run run
      exact ⟨later, before.step allowedThere runs, still⟩

theorem Reaches.simulated (abstracts : State → Model → Prop)
    (simulates : ∀ state image label, abstracts state image → allowed state label →
      permitted image label ∧ Related (fun left right => left.1 = right.1 ∧
        abstracts left.2 right.2) (step state label) (model image label))
    (first : abstracts start origin) {history : List (Taken Op Label Answer)} {state : State}
    (reached : Reaches step allowed start history state) :
    ∃ image, Reaches model permitted origin history image ∧ abstracts state image := by
  apply reached.refined abstracts _ first
  intro state image label holds admitted
  obtain ⟨allowedThere, related⟩ := simulates state image label holds admitted
  exact ⟨allowedThere, related.refines⟩

end System

end Interaction
