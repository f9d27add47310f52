import NdpSmb.Completion
import Mathlib.Data.List.Forall2

/-!
Operations that are programs themselves, of a level below. A program is realized by the
program of each operation in its place, and what a watch knows of the level above is known
below when each of these programs keeps the two memories linked.
-/

namespace Interaction

variable {High Low Op : Type → Type 1} {R α β M N : Type}

namespace Prog

section Realized

variable (carry : (R : Type) → High R → Prog Low R)

def realized : Prog High α → Prog Low α
  | ret value => ret value
  | call op next => carry _ op >>= fun reply => (next reply).realized
  | fault => fault

@[simp] theorem realized_ret (value : α) :
    (ret value : Prog High α).realized carry = ret value := rfl

@[simp] theorem realized_fault : (fault : Prog High α).realized carry = fault := rfl

@[simp] theorem realized_call (op : High R) (next : R → Prog High α) :
    (call op next).realized carry = carry R op >>= fun reply => (next reply).realized carry := rfl

@[simp] theorem realized_perform (op : High R) : (perform op).realized carry = carry R op :=
  bind_ret _

theorem realized_bind (program : Prog High α) (follow : α → Prog High β) :
    (program >>= follow).realized carry =
      program.realized carry >>= fun value => (follow value).realized carry := by
  induction program with
  | ret value => rfl
  | call op next ih => simp only [call_bind, realized_call, ih, bind_assoc]
  | fault => rfl

end Realized

end Prog

/-- The exchanges below that carry those above. -/
inductive Carried (carry : (R : Type) → High R → Prog Low R) :
    List (Event High) → List (Event Low) → Prop
  | nil : Carried carry [] []
  | cons {R : Type} {op : High R} {reply first rest later} :
      Run (carry R op) first (some reply) → Carried carry rest later →
      Carried carry (⟨op, reply⟩ :: rest) (first ++ later)

theorem run_realized_iff {carry : (R : Type) → High R → Prog Low R} {program : Prog High α}
    {trace : List (Event Low)} {value : α} :
    Run (program.realized carry) trace (some value) ↔
      ∃ above, Run program above (some value) ∧ Carried carry above trace := by
  induction program generalizing trace with
  | ret returned =>
      rw [Prog.realized_ret, run_ret_iff]
      constructor
      · rintro ⟨rfl, same⟩
        exact ⟨[], run_ret_iff.mpr ⟨rfl, same⟩, .nil⟩
      · rintro ⟨above, run, carried⟩
        obtain ⟨rfl, same⟩ := run_ret_iff.mp run
        cases carried
        exact ⟨rfl, same⟩
  | call op next ih =>
      rw [Prog.realized_call, run_bind_some_iff]
      constructor
      · rintro ⟨first, later, reply, rfl, replied, rest⟩
        obtain ⟨above, run, carried⟩ := (ih reply).mp rest
        exact ⟨_, .call run, .cons replied carried⟩
      · rintro ⟨above, run, carried⟩
        obtain ⟨reply, rest, rfl, inner⟩ := run_call_iff.mp run
        cases carried with
        | cons replied carried =>
            exact ⟨_, _, reply, rfl, replied, (ih reply).mpr ⟨rest, inner, carried⟩⟩
  | fault => simp

/-- Where the programs below complete, a fault is one of the program above. -/
theorem run_realized_completes {carry : (R : Type) → High R → Prog Low R}
    (completes : ∀ R op, (carry R op).Completes fun _ => True) {program : Prog High α}
    {trace : List (Event Low)} {outcome : Option α}
    (run : Run (program.realized carry) trace outcome) :
    ∃ above, Run program above outcome ∧ Carried carry above trace := by
  induction program generalizing trace with
  | ret value =>
      obtain ⟨rfl, rfl⟩ := run_ret_iff.mp run
      exact ⟨[], .ret, .nil⟩
  | call op next ih =>
      rw [Prog.realized_call] at run
      obtain ⟨first, second, reply, rfl, replied, rest⟩ := (completes _ op).run_bind run
      obtain ⟨above, inner, carried⟩ := ih reply rest
      exact ⟨_, .call inner, .cons replied carried⟩
  | fault =>
      obtain ⟨rfl, rfl⟩ := run_fault_iff.mp run
      exact ⟨[], .fault, .nil⟩

theorem Carried.append {carry : (R : Type) → High R → Prog Low R} {first second : List (Event High)}
    {before after : List (Event Low)} (left : Carried carry first before)
    (right : Carried carry second after) : Carried carry (first ++ second) (before ++ after) := by
  induction left with
  | nil => exact right
  | cons replied _ ih =>
      rw [List.append_assoc, List.cons_append]
      exact .cons replied ih

/-- Below, whatever carries one operation is followed by the watch above. -/
structure Watch.Linked (upper : Watch High M) (lower : Watch Low N)
    (carry : (R : Type) → High R → Prog Low R) (link : M → N → Prop) : Prop where
  carried : ∀ {R : Type} (op : High R) {memory below}, link memory below →
    lower.Ensures (fun reply later => upper.admits memory ⟨op, reply⟩ ∧
      link (upper.observe memory ⟨op, reply⟩) later) (carry R op) below

theorem Carried.linked {upper : Watch High M} {lower : Watch Low N}
    {carry : (R : Type) → High R → Prog Low R} {link : M → N → Prop}
    (linked : upper.Linked lower carry link) {above : List (Event High)} {below : List (Event Low)}
    (carried : Carried carry above below) {memory : M} {under : N} (related : link memory under)
    (admitted : lower.Admits under below) :
    upper.Admits memory above ∧ link (upper.after memory above) (lower.after under below) := by
  induction carried generalizing memory under with
  | nil => exact ⟨trivial, related⟩
  | cons replied _ ih =>
      rw [Watch.admits_append] at admitted
      obtain ⟨allowed, next⟩ := (linked.carried _ related).run replied admitted.1
      obtain ⟨rest, last⟩ := ih next admitted.2
      rw [Watch.after_append]
      exact ⟨⟨allowed, rest⟩, last⟩

/-! The histories of a system, at both levels. -/

section System

variable {State Label Answer : Type} {carry : (R : Type) → High R → Prog Low R}
  {step : State → Label → Prog High (Answer × State)} {allowed : State → Label → Prop}
  {start state : State} {history : List (Taken Low Label Answer)}

structure StepCarried (carry : (R : Type) → High R → Prog Low R) (above : Taken High Label Answer)
    (below : Taken Low Label Answer) : Prop where
  label : below.label = above.label
  answer : below.answer = above.answer
  trace : Carried carry above.trace below.trace

theorem carried_exchanges {above : List (Taken High Label Answer)}
    (same : List.Forall₂ (StepCarried carry) above history) :
    Carried carry (exchanges above) (exchanges history) := by
  induction same with
  | nil => exact .nil
  | cons first _ ih => exact first.trace.append ih

theorem Reaches.above
    (reached : Reaches (fun state label => (step state label).realized carry) allowed start
      history state) :
    ∃ above, Reaches step allowed start above state ∧
      List.Forall₂ (StepCarried carry) above history := by
  induction reached with
  | start => exact ⟨[], .start, .nil⟩
  | step _ permitted run ih =>
      obtain ⟨earlier, before, same⟩ := ih
      obtain ⟨trace, ran, carried⟩ := run_realized_iff.mp run
      exact ⟨_, before.step permitted ran, List.rel_append same (.cons ⟨rfl, rfl, carried⟩ .nil)⟩

end System

/-! A watch with a test of every exchange, made when the exchange takes place. -/

section Checked

variable (watch : Watch Op M) (check : M → Event Op → Prop)

def Watch.checked : Watch Op (M × Prop) where
  observe memory event := (watch.observe memory.1 event, memory.2 ∧ check memory.1 event)
  admits memory event := watch.admits memory.1 event
  crash memory := watch.crash memory.1

variable {watch check}

theorem Watch.checked_after_fst (memory : M × Prop) (trace : List (Event Op)) :
    ((watch.checked check).after memory trace).1 = watch.after memory.1 trace := by
  induction trace generalizing memory with
  | nil => rfl
  | cons event rest ih => exact ih _

theorem Watch.checked_admits {memory : M × Prop} {trace : List (Event Op)} :
    (watch.checked check).Admits memory trace ↔ watch.Admits memory.1 trace := by
  induction trace generalizing memory with
  | nil => rfl
  | cons event rest ih => exact and_congr_right fun _ => ih

theorem Watch.checked_before {memory : M × Prop} {trace : List (Event Op)}
    (passed : ((watch.checked check).after memory trace).2) : memory.2 := by
  induction trace generalizing memory with
  | nil => exact passed
  | cons event rest ih => exact (ih passed).1

theorem Watch.checked_passed {memory : M × Prop} {before after : List (Event Op)}
    {event : Event Op}
    (passed : ((watch.checked check).after memory (before ++ event :: after)).2) :
    check (watch.after memory.1 before) event := by
  rw [Watch.after_append, Watch.after_cons] at passed
  rw [← Watch.checked_after_fst memory before]
  exact (Watch.checked_before passed).2

end Checked

end Interaction
