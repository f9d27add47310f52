import NdpSmb.Interaction

/-!
Two programs that ask the environment for the same operations in the same order, except for
hidden ones, which each of them may perform on its own.
-/

namespace Interaction

variable {Op : Type → Type 1} {α β γ δ : Type}

section Hidden

variable (hidden : (R : Type) → Op R → Bool) (answers : (R : Type) → Op R → R)

def visible (trace : List (Event Op)) : List (Event Op) :=
  trace.filter fun event => !hidden event.R event.op

def HiddenAnswered (trace : List (Event Op)) : Prop :=
  ∀ event ∈ trace, hidden event.R event.op = true → event.reply = answers event.R event.op

/-- Whatever the environment answers the first program, the second one does the same as seen from
outside, when its own hidden operations have the given answers. Nothing is said about a first
program that runs into undefined behaviour. -/
inductive Imitated (same : α → β → Prop) : Prog Op α → Prog Op β → Prop
  | ret {left right} : same left right → Imitated same (.ret left) (.ret right)
  | call {R : Type} {op : Op R} {left right} : hidden R op = false →
      (∀ reply, Imitated same (left reply) (right reply)) →
      Imitated same (.call op left) (.call op right)
  | first {R : Type} {op : Op R} {left right} : hidden R op = true →
      (∀ reply, Imitated same (left reply) right) → Imitated same (.call op left) right
  | second {R : Type} {op : Op R} {left right} : hidden R op = true →
      Imitated same left (right (answers R op)) → Imitated same left (.call op right)
  | fault {right} : Imitated same .fault right

end Hidden

variable {hidden : (R : Type) → Op R → Bool} {answers : (R : Type) → Op R → R}

theorem visible_cons_of_hidden {R : Type} {op : Op R} (hides : hidden R op = true) (reply : R)
    (trace : List (Event Op)) : visible hidden (⟨op, reply⟩ :: trace) = visible hidden trace :=
  List.filter_cons_of_neg (by simp [hides])

theorem visible_cons_of_shown {R : Type} {op : Op R} (shows : hidden R op = false) (reply : R)
    (trace : List (Event Op)) :
    visible hidden (⟨op, reply⟩ :: trace) = ⟨op, reply⟩ :: visible hidden trace :=
  List.filter_cons_of_pos (by simp [shows])

namespace Imitated

variable {same : α → β → Prop}

theorem refl {program : Prog Op α} (shown : program.Only fun R op => hidden R op = false) :
    Imitated hidden answers Eq program program := by
  induction program with
  | ret value => exact .ret rfl
  | call op next ih => exact .call shown.1 fun reply => ih reply (shown.2 reply)
  | fault => exact .fault

theorem bind {first : Prog Op α} {second : Prog Op β} {follow : α → Prog Op γ}
    {after : β → Prog Op δ} {later : γ → δ → Prop}
    (imitated : Imitated hidden answers same first second)
    (next : ∀ left right, same left right →
      Imitated hidden answers later (follow left) (after right)) :
    Imitated hidden answers later (first >>= follow) (second >>= after) := by
  induction imitated with
  | ret equal => exact next _ _ equal
  | call shows _ ih => exact .call shows ih
  | first hides _ ih => exact .first hides ih
  | second hides _ ih => exact .second hides ih
  | fault => exact .fault

theorem perform {R : Type} {op : Op R} {follow : R → Prog Op α} {after : R → Prog Op β}
    (shows : hidden R op = false)
    (next : ∀ reply, Imitated hidden answers same (follow reply) (after reply)) :
    Imitated hidden answers same (perform op >>= follow) (perform op >>= after) :=
  .call shows next

theorem of_hidden {first : Prog Op α} {second : Prog Op β} {result : β}
    (left : first.Only fun R op => hidden R op = true)
    (right : second.Only fun R op => hidden R op = true)
    (answer : answered answers second = some result)
    (returned : first.Returns fun value => same value result) :
    Imitated hidden answers same first second := by
  induction first with
  | ret value =>
      induction second with
      | ret other =>
          obtain rfl := Option.some.inj answer
          exact .ret returned
      | call op next ih => exact .second right.1 (ih _ (right.2 _) answer)
      | fault => cases answer
  | call op next ih => exact .first left.1 fun reply => ih reply (left.2 reply) (returned reply)
  | fault => exact .fault

theorem run {first : Prog Op α} {second : Prog Op β}
    (imitated : Imitated hidden answers same first second) {trace : List (Event Op)} {value : α}
    (ran : Run first trace (some value)) :
    ∃ other result, Run second other (some result) ∧
      visible hidden other = visible hidden trace ∧ HiddenAnswered hidden answers other ∧
      same value result := by
  induction imitated generalizing trace with
  | @ret left right equal =>
      obtain ⟨rfl, returned⟩ := run_ret_iff.mp ran
      obtain rfl := Option.some.inj returned
      exact ⟨[], right, .ret, rfl, by simp [HiddenAnswered], equal⟩
  | call shows _ ih =>
      obtain ⟨reply, rest, rfl, inner⟩ := run_call_iff.mp ran
      obtain ⟨other, result, runs, seen, told, equal⟩ := ih reply inner
      refine ⟨_, result, .call runs, ?_, ?_, equal⟩
      · rw [visible_cons_of_shown shows, visible_cons_of_shown shows, seen]
      · intro event member hides
        rcases List.mem_cons.mp member with rfl | inside
        · rw [shows] at hides
          cases hides
        · exact told event inside hides
  | first hides _ ih =>
      obtain ⟨reply, rest, rfl, inner⟩ := run_call_iff.mp ran
      obtain ⟨other, result, runs, seen, told, equal⟩ := ih reply inner
      exact ⟨other, result, runs, by rw [visible_cons_of_hidden hides, seen], told, equal⟩
  | second hides _ ih =>
      obtain ⟨other, result, runs, seen, told, equal⟩ := ih ran
      refine ⟨_, result, .call runs, ?_, ?_, equal⟩
      · rw [visible_cons_of_hidden hides, seen]
      · intro event member asked
        rcases List.mem_cons.mp member with rfl | inside
        · rfl
        · exact told event inside asked
  | fault => simp at ran

end Imitated

end Interaction
