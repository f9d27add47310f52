import Mathlib.Data.List.Basic
import Mathlib.Logic.Basic

/-!
Programs that interact with an environment. A program either returns, asks the
environment to perform an operation and continues with its reply, or runs into
undefined behaviour. `Op R` are the operations whose reply is an `R`; nothing here
depends on which operations there are.
-/

namespace Interaction

inductive Prog (Op : Type → Type 1) (α : Type) : Type 1
  | ret (value : α)
  | call {R : Type} (op : Op R) (next : R → Prog Op α)
  | fault

variable {Op : Type → Type 1} {R α β γ M : Type}

namespace Prog

def bind : Prog Op α → (α → Prog Op β) → Prog Op β
  | ret value, follow => follow value
  | call op next, follow => call op fun reply => bind (next reply) follow
  | fault, _ => fault

instance : Monad (Prog Op) where
  pure := ret
  bind := bind

@[simp, grind =] theorem pure_eq (value : α) : (pure value : Prog Op α) = ret value := rfl

@[simp, grind =] theorem ret_bind (value : α) (follow : α → Prog Op β) :
    (ret value >>= follow) = follow value := rfl

@[simp] theorem call_bind (op : Op R) (next : R → Prog Op α) (follow : α → Prog Op β) :
    (call op next >>= follow) = call op fun reply => next reply >>= follow := rfl

@[simp] theorem fault_bind (follow : α → Prog Op β) :
    ((fault : Prog Op α) >>= follow) = fault := rfl

theorem bind_ret (program : Prog Op α) : (program >>= ret) = program := by
  induction program with
  | ret => rfl
  | call op next ih => simp [ih]
  | fault => rfl

@[grind =] theorem bind_assoc (program : Prog Op α) (follow : α → Prog Op β) (finish : β → Prog Op γ) :
    (program >>= follow >>= finish) = (program >>= fun value => follow value >>= finish) := by
  induction program with
  | ret => rfl
  | call op next ih => simp [ih]
  | fault => rfl

theorem map_eq_bind (function : α → β) (program : Prog Op α) :
    function <$> program = program >>= fun value => ret (function value) := rfl

instance : LawfulMonad (Prog Op) :=
  LawfulMonad.mk' _ bind_ret (fun _ _ => rfl) bind_assoc

end Prog

def perform (op : Op R) : Prog Op R := .call op .ret

structure Event (Op : Type → Type 1) : Type 1 where
  {R : Type}
  op : Op R
  reply : R

/-- `Run program trace outcome`: after exactly these exchanges the program returns
`some value`, or has run into undefined behaviour. -/
inductive Run : Prog Op α → List (Event Op) → Option α → Prop
  | ret {value} : Run (.ret value) [] (some value)
  | call {S : Type} {op : Op S} {next reply trace outcome} : Run (next reply) trace outcome →
      Run (.call op next) (⟨op, reply⟩ :: trace) outcome
  | fault : Run .fault [] none

@[simp] theorem run_ret_iff {value : α} {trace : List (Event Op)} {outcome : Option α} :
    Run (.ret value) trace outcome ↔ trace = [] ∧ outcome = some value := by
  constructor
  · intro run
    cases run
    exact ⟨rfl, rfl⟩
  · rintro ⟨rfl, rfl⟩
    exact .ret

@[simp] theorem run_fault_iff {trace : List (Event Op)} {outcome : Option α} :
    Run .fault trace outcome ↔ trace = [] ∧ outcome = none := by
  constructor
  · intro run
    cases run
    exact ⟨rfl, rfl⟩
  · rintro ⟨rfl, rfl⟩
    exact .fault

@[simp] theorem run_call_iff {op : Op R} {next : R → Prog Op α} {trace : List (Event Op)}
    {outcome : Option α} :
    Run (.call op next) trace outcome ↔
      ∃ reply rest, trace = ⟨op, reply⟩ :: rest ∧ Run (next reply) rest outcome := by
  constructor
  · intro run
    cases run with
    | call rest => exact ⟨_, _, rfl, rest⟩
  · rintro ⟨reply, rest, rfl, run⟩
    exact .call run

theorem run_perform_bind_iff {op : Op R} {follow : R → Prog Op α} {reply : R}
    {trace : List (Event Op)} {outcome : Option α} :
    Run (perform op >>= follow) (⟨op, reply⟩ :: trace) outcome ↔
      Run (follow reply) trace outcome := by
  constructor
  · intro run
    cases run with
    | call rest => exact rest
  · intro rest
    exact .call rest

theorem run_bind_some_iff {program : Prog Op α} {follow : α → Prog Op β}
    {trace : List (Event Op)} {value : β} :
    Run (program >>= follow) trace (some value) ↔
      ∃ first second middle, trace = first ++ second ∧
        Run program first (some middle) ∧ Run (follow middle) second (some value) := by
  induction program generalizing trace with
  | ret returned => simp
  | call op next ih =>
      simp only [Prog.call_bind, run_call_iff, ih]
      constructor
      · rintro ⟨reply, rest, rfl, first, second, middle, rfl, left, right⟩
        exact ⟨⟨op, reply⟩ :: first, second, middle, rfl, ⟨reply, first, rfl, left⟩, right⟩
      · rintro ⟨_, second, middle, rfl, ⟨reply, first, rfl, left⟩, right⟩
        exact ⟨reply, first ++ second, rfl, first, second, middle, rfl, left, right⟩
  | fault => simp

theorem Run.bind {program : Prog Op α} {follow : α → Prog Op β} {first second : List (Event Op)}
    {value : α} {outcome : Option β} (run : Run program first (some value))
    (rest : Run (follow value) second outcome) :
    Run (program >>= follow) (first ++ second) outcome := by
  generalize returned : some value = middle at run
  induction run with
  | ret =>
      obtain rfl := Option.some.inj returned
      exact rest
  | call _ ih => exact .call (ih returned)
  | fault => cases returned

theorem Run.behind {program : Prog Op α} {follow : α → Prog Op β} {first second : List (Event Op)}
    {value : α} {outcome : Option β} (run : Run program first (some value))
    (whole : Run (program >>= follow) (first ++ second) outcome) :
    Run (follow value) second outcome := by
  generalize returned : some value = middle at run
  induction run with
  | ret =>
      obtain rfl := Option.some.inj returned
      exact whole
  | call _ ih =>
      obtain ⟨reply, rest, same, inner⟩ := run_call_iff.mp whole
      obtain ⟨exchanged, rfl⟩ := List.cons.inj same
      obtain rfl := eq_of_heq (Event.mk.inj exchanged).2.2
      exact ih inner returned
  | fault => cases returned

theorem Run.unique {program : Prog Op α} {trace : List (Event Op)} {value : α} {outcome : Option α}
    (run : Run program trace (some value)) (again : Run program trace outcome) :
    outcome = some value := by
  have whole : Run (program >>= Prog.ret) (trace ++ []) outcome := by
    rwa [List.append_nil, Prog.bind_ret]
  exact (run_ret_iff.mp (run.behind whole)).2

/-- Where a run returned and what it returned is told by what was exchanged. -/
theorem Run.split {program : Prog Op α} {first other rest others : List (Event Op)}
    {value again : α} (run : Run program first (some value))
    (twin : Run program other (some again)) (same : first ++ rest = other ++ others) :
    first = other ∧ value = again ∧ rest = others := by
  induction program generalizing first other with
  | ret returned =>
      obtain ⟨rfl, returnedHere⟩ := run_ret_iff.mp run
      obtain ⟨rfl, returnedThere⟩ := run_ret_iff.mp twin
      exact ⟨rfl, Option.some.inj (returnedHere.trans returnedThere.symm), same⟩
  | call op next ih =>
      obtain ⟨reply, after, rfl, inner⟩ := run_call_iff.mp run
      obtain ⟨answer, behind, rfl, innerTwin⟩ := run_call_iff.mp twin
      obtain ⟨exchanged, left⟩ := List.cons.inj same
      obtain rfl := eq_of_heq (Event.mk.inj exchanged).2.2
      obtain ⟨rfl, equal, rest⟩ := ih reply inner innerTwin left
      exact ⟨rfl, equal, rest⟩
  | fault => simp at run

theorem Run.bind_cases {program : Prog Op α} {follow : α → Prog Op β} {trace : List (Event Op)}
    {outcome : Option β} (run : Run (program >>= follow) trace outcome) :
    Run program trace none ∨ ∃ first second value, trace = first ++ second ∧
      Run program first (some value) ∧ Run (follow value) second outcome := by
  induction program generalizing trace with
  | ret value => exact .inr ⟨[], trace, value, rfl, .ret, run⟩
  | call op next ih =>
      obtain ⟨reply, rest, rfl, tail⟩ := run_call_iff.mp run
      rcases ih reply tail with crashed | ⟨first, second, value, rfl, given, followed⟩
      · exact .inl (.call crashed)
      · exact .inr ⟨_ :: first, second, value, rfl, .call given, followed⟩
  | fault =>
      obtain ⟨rfl, -⟩ := run_fault_iff.mp run
      exact .inl .fault

/-! What a program returns, whatever its environment answers. -/

namespace Prog

def Returns (post : α → Prop) : Prog Op α → Prop
  | ret value => post value
  | call _ next => ∀ reply, Returns post (next reply)
  | fault => True

variable {post : α → Prop}

@[simp] theorem returns_ret {value : α} : Returns post (ret value : Prog Op α) ↔ post value :=
  Iff.rfl

theorem returns_pure {value : α} : Returns post (pure value : Prog Op α) ↔ post value := Iff.rfl

@[simp] theorem returns_fault : Returns post (fault : Prog Op α) := trivial

@[simp] theorem returns_perform {op : Op R} {post : R → Prop} :
    Returns post (perform op) ↔ ∀ reply, post reply := Iff.rfl

@[simp] theorem returns_bind {post : β → Prop} {program : Prog Op α} {follow : α → Prog Op β} :
    Returns post (program >>= follow) ↔ Returns (fun value => Returns post (follow value)) program := by
  induction program with
  | ret => rfl
  | call op next ih => simp [Returns, ih]
  | fault => rfl

theorem returns_perform_bind {op : Op R} {follow : R → Prog Op α} :
    Returns post (perform op >>= follow) ↔ ∀ reply, Returns post (follow reply) := Iff.rfl

@[simp] theorem returns_ite {condition : Prop} [Decidable condition] {left right : Prog Op α} :
    Returns post (if condition then left else right) ↔
      if condition then Returns post left else Returns post right := by
  split <;> rfl

theorem Returns.mono {weak : α → Prop} {program : Prog Op α} (holds : Returns post program)
    (weaken : ∀ value, post value → weak value) : Returns weak program := by
  induction program with
  | ret value => exact weaken value holds
  | call op next ih => exact fun reply => ih reply (holds reply)
  | fault => trivial

theorem Returns.and {other : α → Prop} {program : Prog Op α} (first : Returns post program)
    (second : Returns other program) : Returns (fun value => post value ∧ other value) program := by
  induction program with
  | ret value => exact ⟨first, second⟩
  | call op next ih => exact fun reply => ih reply (first reply) (second reply)
  | fault => trivial

theorem returns_of_forall {program : Prog Op α} (all : ∀ value, post value) :
    Returns post program := by
  induction program with
  | ret value => exact all value
  | call op next ih => exact fun reply => ih reply
  | fault => trivial

theorem Returns.run {program : Prog Op α} (holds : Returns post program)
    {trace : List (Event Op)} {value : α} (run : Run program trace (some value)) : post value := by
  generalize returned : some value = outcome at run
  induction run with
  | ret =>
      obtain rfl := Option.some.inj returned
      exact holds
  | call _ ih => exact ih (holds _) returned
  | fault => simp at returned

end Prog

/-! A watch follows the exchanges of a run: what it remembers of them, what it
assumes of the environment, and what it expects should the program fault. -/

structure Watch (Op : Type → Type 1) (M : Type) where
  observe : M → Event Op → M
  admits : M → Event Op → Prop := fun _ _ => True
  crash : M → Prop := fun _ => True

namespace Watch

variable (watch : Watch Op M)

def after (memory : M) (trace : List (Event Op)) : M := trace.foldl watch.observe memory

def Admits : M → List (Event Op) → Prop
  | _, [] => True
  | memory, event :: rest => watch.admits memory event ∧ Admits (watch.observe memory event) rest

@[simp] theorem after_nil (memory : M) : watch.after memory [] = memory := rfl

@[simp] theorem after_cons (memory : M) (event : Event Op) (rest : List (Event Op)) :
    watch.after memory (event :: rest) = watch.after (watch.observe memory event) rest := rfl

@[simp] theorem after_append (memory : M) (first second : List (Event Op)) :
    watch.after memory (first ++ second) = watch.after (watch.after memory first) second :=
  List.foldl_append

@[simp] theorem admits_nil (memory : M) : watch.Admits memory [] := trivial

@[simp] theorem admits_cons (memory : M) (event : Event Op) (rest : List (Event Op)) :
    watch.Admits memory (event :: rest) ↔
      watch.admits memory event ∧ watch.Admits (watch.observe memory event) rest := Iff.rfl

theorem admits_append (memory : M) (first second : List (Event Op)) :
    watch.Admits memory (first ++ second) ↔
      watch.Admits memory first ∧ watch.Admits (watch.after memory first) second := by
  induction first generalizing memory with
  | nil => simp
  | cons event rest ih => simp [ih, and_assoc]

theorem admits_of_forall {memory : M} {trace : List (Event Op)}
    (all : ∀ event ∈ trace, ∀ memory, watch.admits memory event) : watch.Admits memory trace := by
  induction trace generalizing memory with
  | nil => trivial
  | cons event rest ih =>
      exact ⟨all event List.mem_cons_self memory,
        ih fun event member => all event (List.mem_cons_of_mem _ member)⟩

instance decidableAdmits [∀ memory event, Decidable (watch.admits memory event)] :
    (memory : M) → (trace : List (Event Op)) → Decidable (watch.Admits memory trace)
  | _, [] => isTrue trivial
  | memory, event :: rest =>
      have := decidableAdmits (watch.observe memory event) rest
      inferInstanceAs (Decidable (_ ∧ _))

/-- Every admitted run that returns ends with the postcondition, and every admitted
run that faults ends with what the watch expects of a crash. -/
def Ensures (post : α → M → Prop) : Prog Op α → M → Prop
  | .ret value, memory => post value memory
  | .call op next, memory => ∀ reply, watch.admits memory ⟨op, reply⟩ →
      Ensures post (next reply) (watch.observe memory ⟨op, reply⟩)
  | .fault, memory => watch.crash memory

def Concludes (post : α → M → Prop) : Option α → M → Prop
  | some value, memory => post value memory
  | none, memory => watch.crash memory

variable {watch}

theorem ensures_iff_runs {post : α → M → Prop} {program : Prog Op α} {memory : M} :
    watch.Ensures post program memory ↔
      ∀ trace outcome, Run program trace outcome → watch.Admits memory trace →
        watch.Concludes post outcome (watch.after memory trace) := by
  induction program generalizing memory with
  | ret returned => simp [Ensures, Concludes]
  | call op next ih =>
      simp only [Ensures, run_call_iff]
      constructor
      · rintro all _ outcome ⟨reply, rest, rfl, run⟩ admitted
        rw [admits_cons] at admitted
        exact ih reply |>.mp (all reply admitted.1) rest outcome run admitted.2
      · intro all reply admitted
        rw [ih reply]
        intro rest outcome run admittedRest
        exact all _ outcome ⟨reply, rest, rfl, run⟩ ⟨admitted, admittedRest⟩
  | fault => simp [Ensures, Concludes]

theorem Ensures.run {post : α → M → Prop} {program : Prog Op α} {memory : M}
    (holds : watch.Ensures post program memory) {trace : List (Event Op)} {value : α}
    (run : Run program trace (some value)) (admitted : watch.Admits memory trace) :
    post value (watch.after memory trace) :=
  ensures_iff_runs.mp holds trace (some value) run admitted

@[simp] theorem ensures_ret {post : α → M → Prop} {value : α} {memory : M} :
    watch.Ensures post (.ret value) memory ↔ post value memory := Iff.rfl

theorem ensures_pure {post : α → M → Prop} {value : α} {memory : M} :
    watch.Ensures post (pure value) memory ↔ post value memory := Iff.rfl

@[simp] theorem ensures_call {post : α → M → Prop} {op : Op R} {next : R → Prog Op α}
    {memory : M} :
    watch.Ensures post (.call op next) memory ↔ ∀ reply, watch.admits memory ⟨op, reply⟩ →
      watch.Ensures post (next reply) (watch.observe memory ⟨op, reply⟩) := Iff.rfl

@[simp] theorem ensures_fault {post : α → M → Prop} {memory : M} :
    watch.Ensures post .fault memory ↔ watch.crash memory := Iff.rfl

@[simp] theorem ensures_perform {op : Op R} {post : R → M → Prop} {memory : M} :
    watch.Ensures post (perform op) memory ↔ ∀ reply, watch.admits memory ⟨op, reply⟩ →
      post reply (watch.observe memory ⟨op, reply⟩) := Iff.rfl

@[simp] theorem ensures_bind {post : β → M → Prop} {program : Prog Op α}
    {follow : α → Prog Op β} {memory : M} :
    watch.Ensures post (program >>= follow) memory ↔
      watch.Ensures (fun value later => watch.Ensures post (follow value) later) program memory := by
  induction program generalizing memory with
  | ret => rfl
  | call op next ih => simp [ih]
  | fault => simp

theorem ensures_perform_bind {op : Op R} {follow : R → Prog Op α} {post : α → M → Prop}
    {memory : M} :
    watch.Ensures post (perform op >>= follow) memory ↔ ∀ reply, watch.admits memory ⟨op, reply⟩ →
      watch.Ensures post (follow reply) (watch.observe memory ⟨op, reply⟩) := Iff.rfl

@[simp] theorem ensures_map {post : β → M → Prop} {program : Prog Op α}
    {function : α → β} {memory : M} :
    watch.Ensures post (function <$> program) memory ↔
      watch.Ensures (fun value later => post (function value) later) program memory := by
  rw [Prog.map_eq_bind, ensures_bind]
  rfl

@[simp] theorem ensures_ite {post : α → M → Prop} {condition : Prop} [Decidable condition]
    {left right : Prog Op α} {memory : M} :
    watch.Ensures post (if condition then left else right) memory ↔
      if condition then watch.Ensures post left memory else watch.Ensures post right memory := by
  split <;> rfl

theorem Ensures.mono {strong weak : α → M → Prop} {program : Prog Op α} {memory : M}
    (holds : watch.Ensures strong program memory)
    (weaken : ∀ value later, strong value later → weak value later) :
    watch.Ensures weak program memory := by
  induction program generalizing memory with
  | ret value => exact weaken value memory holds
  | call op next ih => exact fun reply admitted => ih reply (holds reply admitted)
  | fault => exact holds

theorem Ensures.bind {known : α → M → Prop} {post : β → M → Prop} {program : Prog Op α}
    {follow : α → Prog Op β} {memory : M} (first : watch.Ensures known program memory)
    (rest : ∀ value later, known value later → watch.Ensures post (follow value) later) :
    watch.Ensures post (program >>= follow) memory := by
  rw [ensures_bind]
  exact first.mono rest

theorem Ensures.and_returns {post : α → M → Prop} {known : α → Prop} {program : Prog Op α}
    {memory : M} (holds : watch.Ensures post program memory) (returned : program.Returns known) :
    watch.Ensures (fun value later => post value later ∧ known value) program memory := by
  induction program generalizing memory with
  | ret value => exact ⟨holds, returned⟩
  | call op next ih => exact fun reply admitted => ih reply (holds reply admitted) (returned reply)
  | fault => exact holds

theorem Ensures.and {left right : α → M → Prop} {program : Prog Op α} {memory : M}
    (first : watch.Ensures left program memory) (second : watch.Ensures right program memory) :
    watch.Ensures (fun value later => left value later ∧ right value later) program memory := by
  induction program generalizing memory with
  | ret value => exact ⟨first, second⟩
  | call op next ih =>
      exact fun reply admitted => ih reply (first reply admitted) (second reply admitted)
  | fault => exact first

end Watch

/-! The footprint of a program: the operations that it may perform. -/

namespace Prog

def Only (allowed : (R : Type) → Op R → Prop) : Prog Op α → Prop
  | ret _ => True
  | call op next => allowed _ op ∧ ∀ reply, Only allowed (next reply)
  | fault => True

variable {allowed : (R : Type) → Op R → Prop}

@[simp, grind .] theorem only_ret (value : α) : Only allowed (ret value : Prog Op α) := trivial

@[grind .] theorem only_pure (value : α) : Only allowed (pure value : Prog Op α) := trivial

@[simp, grind .] theorem only_fault : Only allowed (fault : Prog Op α) := trivial

@[simp] theorem only_call {op : Op R} {next : R → Prog Op α} :
    Only allowed (call op next) ↔ allowed R op ∧ ∀ reply, Only allowed (next reply) := Iff.rfl

@[simp, grind =] theorem only_perform {op : Op R} :
    Only allowed (perform op) ↔ allowed R op := by
  simp [perform]

@[simp, grind =] theorem only_perform_bind {op : Op R} {follow : R → Prog Op α} :
    Only allowed (perform op >>= follow) ↔ allowed R op ∧ ∀ reply, Only allowed (follow reply) :=
  Iff.rfl

@[simp] theorem only_ite {condition : Prop} [Decidable condition] {left right : Prog Op α} :
    Only allowed (if condition then left else right) ↔
      if condition then Only allowed left else Only allowed right := by
  split <;> rfl

theorem Only.ite {condition : Prop} [Decidable condition] {left right : Prog Op α}
    (first : Only allowed left) (second : Only allowed right) :
    Only allowed (if condition then left else right) := by
  split
  · exact first
  · exact second

theorem Only.bind {program : Prog Op α} {follow : α → Prog Op β}
    (first : Only allowed program) (second : ∀ value, Only allowed (follow value)) :
    Only allowed (program >>= follow) := by
  induction program with
  | ret value => exact second value
  | call op next ih => exact ⟨first.1, fun reply => ih reply (first.2 reply)⟩
  | fault => trivial

theorem Only.bind_returns {known : α → Prop} {program : Prog Op α} {follow : α → Prog Op β}
    (first : Only allowed program) (returned : program.Returns known)
    (second : ∀ value, known value → Only allowed (follow value)) :
    Only allowed (program >>= follow) := by
  induction program with
  | ret value => exact second value returned
  | call op next ih => exact ⟨first.1, fun reply => ih reply (first.2 reply) (returned reply)⟩
  | fault => trivial

theorem Only.mono {wider : (R : Type) → Op R → Prop} {program : Prog Op α}
    (narrow : Only allowed program) (widen : ∀ R op, allowed R op → wider R op) :
    Only wider program := by
  induction program with
  | ret => trivial
  | call op next ih => exact ⟨widen _ op narrow.1, fun reply => ih reply (narrow.2 reply)⟩
  | fault => trivial

theorem Only.run {program : Prog Op α} (only : Only allowed program)
    {trace : List (Event Op)} {outcome : Option α} (run : Run program trace outcome) :
    ∀ event ∈ trace, allowed event.R event.op := by
  induction run with
  | ret => simp
  | call _ ih => simpa using ⟨only.1, ih (only.2 _)⟩
  | fault => simp

end Prog

theorem Watch.ensures_of_only {watch : Watch Op M} {allowed : (R : Type) → Op R → Prop}
    {program : Prog Op α} {post : α → M → Prop} {memory : M}
    (only : program.Only allowed)
    (quiet : ∀ R op reply, allowed R op → watch.observe memory ⟨op, reply⟩ = memory)
    (crash : watch.crash memory) (done : ∀ value, post value memory) :
    watch.Ensures post program memory := by
  induction program with
  | ret value => exact done value
  | call op next ih =>
      intro reply _
      rw [quiet _ op reply only.1]
      exact ih reply (only.2 reply)
  | fault => exact crash

theorem Watch.Ensures.along {N : Type} {watch : Watch Op M} {wider : Watch Op N} {carried : N → M}
    {allowed : (R : Type) → Op R → Prop} {program : Prog Op α} {post : α → M → Prop} {memory : N}
    (ensured : watch.Ensures post program (carried memory)) (only : program.Only allowed)
    (follows : ∀ memory event, carried (wider.observe memory event) =
      watch.observe (carried memory) event)
    (admitted : ∀ R op reply, allowed R op → ∀ memory, watch.admits memory ⟨op, reply⟩)
    (crash : ∀ memory, wider.crash memory) :
    wider.Ensures (fun value later => post value (carried later)) program memory := by
  induction program generalizing memory with
  | ret value => exact ensured
  | call op next ih =>
      intro reply _
      have step := ensured reply (admitted _ op reply only.1 _)
      rw [← follows] at step
      exact ih reply step (only.2 reply)
  | fault => exact crash memory

theorem Watch.Ensures.carry {N : Type} {watch : Watch Op M} {wider : Watch Op N} {carried : N → M}
    {program : Prog Op α} {post : α → M → Prop} {known : α → N → Prop} {memory : N}
    (ensured : watch.Ensures post program (carried memory))
    (survives : wider.Ensures known program memory)
    (follows : ∀ memory event, carried (wider.observe memory event) =
      watch.observe (carried memory) event)
    (admitted : ∀ memory event, watch.admits memory event) :
    wider.Ensures (fun value later => post value (carried later) ∧ known value later) program
      memory := by
  induction program generalizing memory with
  | ret value => exact ⟨ensured, survives⟩
  | call op next ih =>
      intro reply allowed
      have step := ensured reply (admitted _ _)
      rw [← follows] at step
      exact ih reply step (survives reply allowed)
  | fault => exact survives

theorem Watch.ensures_of_forall {watch : Watch Op M} {program : Prog Op α} {post : α → M → Prop}
    {memory : M} (crash : ∀ memory, watch.crash memory) (done : ∀ value later, post value later) :
    watch.Ensures post program memory := by
  induction program generalizing memory with
  | ret value => exact done value memory
  | call op next ih => exact fun reply _ => ih reply
  | fault => exact crash memory

theorem Watch.ensures_of_returns {watch : Watch Op M} {program : Prog Op α} {known : α → Prop}
    {memory : M} (crash : ∀ memory, watch.crash memory) (returned : program.Returns known) :
    watch.Ensures (fun value _ => known value) program memory := by
  induction program generalizing memory with
  | ret value => exact returned
  | call op next ih => exact fun reply _ => ih reply (returned reply)
  | fault => exact crash memory

theorem Watch.Ensures.returns {watch : Watch Op M} {program : Prog Op α} {post : α → M → Prop}
    {memory : M} (holds : watch.Ensures post program memory)
    (unconditional : ∀ memory event, watch.admits memory event) {known : α → Prop}
    (weaken : ∀ value later, post value later → known value) : program.Returns known := by
  induction program generalizing memory with
  | ret value => exact weaken value memory holds
  | call op next ih => exact fun reply => ih reply (holds reply (unconditional memory _))
  | fault => trivial

theorem Watch.ensures_of_stable {watch : Watch Op M} {kept : M → Prop} {program : Prog Op α}
    {memory : M} (stable : ∀ memory event, kept memory → kept (watch.observe memory event))
    (crash : ∀ memory, kept memory → watch.crash memory) (holds : kept memory) :
    watch.Ensures (fun _ later => kept later) program memory := by
  induction program generalizing memory with
  | ret value => exact holds
  | call op next ih => exact fun reply _ => ih reply (stable memory _ holds)
  | fault => exact crash memory holds

theorem Watch.ensures_of_allowed {watch : Watch Op M} {kept : M → Prop}
    {allowed : (R : Type) → Op R → Prop} {program : Prog Op α} {memory : M}
    (only : program.Only allowed)
    (step : ∀ memory R (op : Op R) reply, kept memory → allowed R op →
      watch.admits memory ⟨op, reply⟩ → kept (watch.observe memory ⟨op, reply⟩))
    (crash : ∀ memory, kept memory → watch.crash memory) (holds : kept memory) :
    watch.Ensures (fun _ later => kept later) program memory := by
  induction program generalizing memory with
  | ret value => exact holds
  | call op next ih =>
      intro reply admitted
      exact ih reply (only.2 reply) (step memory _ op reply holds only.1 admitted)
  | fault => exact crash memory holds

/-- The program together with what a watch remembers of it. -/
def Prog.tallied (watch : Watch Op M) : Prog Op α → M → Prog Op (α × M)
  | ret value, memory => ret (value, memory)
  | call op next, memory => call op fun reply =>
      (next reply).tallied watch (watch.observe memory ⟨op, reply⟩)
  | fault, _ => fault

theorem run_tallied_iff {watch : Watch Op M} {program : Prog Op α} {memory : M}
    {trace : List (Event Op)} {value : α} {later : M} :
    Run (program.tallied watch memory) trace (some (value, later)) ↔
      Run program trace (some value) ∧ watch.after memory trace = later := by
  induction program generalizing memory trace with
  | ret returned =>
      simp only [Prog.tallied, run_ret_iff, Option.some.injEq, Prod.mk.injEq]
      constructor
      · rintro ⟨rfl, rfl, rfl⟩
        exact ⟨⟨rfl, rfl⟩, rfl⟩
      · rintro ⟨⟨rfl, rfl⟩, rfl⟩
        exact ⟨rfl, rfl, rfl⟩
  | call op next ih =>
      simp only [Prog.tallied, run_call_iff, ih]
      constructor
      · rintro ⟨reply, rest, rfl, run, rfl⟩
        exact ⟨⟨reply, rest, rfl, run⟩, rfl⟩
      · rintro ⟨⟨reply, rest, rfl, run⟩, rfl⟩
        exact ⟨reply, rest, rfl, run, rfl⟩
  | fault => simp [Prog.tallied]

theorem Watch.Ensures.tallied {watch : Watch Op M} {post : α → M → Prop} {program : Prog Op α}
    {memory : M} (ensures : watch.Ensures post program memory)
    (unconditional : ∀ memory event, watch.admits memory event) :
    (program.tallied watch memory).Returns fun result => post result.1 result.2 := by
  induction program generalizing memory with
  | ret value => exact ensures
  | call op next ih => exact fun reply => ih reply (ensures reply (unconditional memory _))
  | fault => trivial

/-! A system whose steps are runs of programs. -/

section System

variable {State Label Answer : Type}

/-- One step of a history: what was asked, what was exchanged meanwhile, and the answer. -/
structure Taken (Op : Type → Type 1) (Label Answer : Type) : Type 1 where
  label : Label
  trace : List (Event Op)
  answer : Answer

/-- The histories from a start by steps that are allowed where they are taken. -/
inductive Reaches (step : State → Label → Prog Op (Answer × State))
    (allowed : State → Label → Prop) (start : State) : List (Taken Op Label Answer) → State → Prop
  | start : Reaches step allowed start [] start
  | step {history state label trace answer next} : Reaches step allowed start history state →
      allowed state label → Run (step state label) trace (some (answer, next)) →
      Reaches step allowed start (history ++ [⟨label, trace, answer⟩]) next

def exchanges (history : List (Taken Op Label Answer)) : List (Event Op) :=
  history.flatMap Taken.trace

@[simp] theorem exchanges_nil : exchanges ([] : List (Taken Op Label Answer)) = [] := rfl

@[simp] theorem exchanges_snoc (history : List (Taken Op Label Answer))
    (taken : Taken Op Label Answer) :
    exchanges (history ++ [taken]) = exchanges history ++ taken.trace := by
  simp [exchanges]

variable {step : State → Label → Prog Op (Answer × State)} {allowed : State → Label → Prop}
  {start : State}

/-- What holds at the start and is kept by every step holds in every state that an
admitted history reaches. -/
theorem Watch.reaches_invariant (watch : Watch Op M) {memory : M} {invariant : State → M → Prop}
    (first : invariant start memory)
    (kept : ∀ state later label, invariant state later → allowed state label →
      watch.Ensures (fun result latest => invariant result.2 latest) (step state label) later)
    {history : List (Taken Op Label Answer)} {state : State}
    (reached : Reaches step allowed start history state)
    (admitted : watch.Admits memory (exchanges history)) :
    invariant state (watch.after memory (exchanges history)) := by
  induction reached with
  | start => exact first
  | @step history state label trace answer next _ permitted run ih =>
      rw [exchanges_snoc, admits_append] at admitted
      have before := ih admitted.1
      rw [exchanges_snoc, after_append]
      exact (kept _ _ label before permitted).run run admitted.2

theorem Reaches.invariant (invariant : State → Prop)
    {history : List (Taken Op Label Answer)} {state : State}
    (reached : Reaches step allowed start history state) (first : invariant start)
    (kept : ∀ state label, invariant state → allowed state label →
      (step state label).Returns fun result => invariant result.2) : invariant state := by
  induction reached with
  | start => exact first
  | step _ permitted run ih => exact (kept _ _ ih permitted).run run

theorem reaches_concat_iff {history : List (Taken Op Label Answer)}
    {taken : Taken Op Label Answer} {state : State} :
    Reaches step allowed start (history ++ [taken]) state ↔
      ∃ before, Reaches step allowed start history before ∧ allowed before taken.label ∧
        Run (step before taken.label) taken.trace (some (taken.answer, state)) := by
  constructor
  · intro reached
    generalize whole : history ++ [taken] = longer at reached
    cases reached with
    | start => simp at whole
    | step before permitted run =>
        obtain ⟨rfl, last⟩ := List.append_inj' whole rfl
        obtain rfl := (List.cons.inj last).1
        exact ⟨_, before, permitted, run⟩
  · rintro ⟨before, reached, permitted, run⟩
    exact reached.step permitted run

theorem Reaches.unique {history : List (Taken Op Label Answer)} {state other : State}
    {wider : State → Label → Prop} (reached : Reaches step allowed start history state)
    (again : Reaches step wider start history other) : other = state := by
  induction reached generalizing other with
  | start =>
      generalize none_taken : ([] : List (Taken Op Label Answer)) = history at again
      cases again with
      | start => rfl
      | step => simp at none_taken
  | step _ _ run ih =>
      obtain ⟨before, earlier, -, ran⟩ := reaches_concat_iff.mp again
      obtain rfl := ih earlier
      exact (Prod.mk.inj (Option.some.inj (run.unique ran))).2

/-- As `Reaches`, where what is allowed depends on the exchanges of the step as well. -/
inductive ReachesBy (step : State → Label → Prog Op (Answer × State))
    (allowed : State → Taken Op Label Answer → Prop) (start : State) :
    List (Taken Op Label Answer) → State → Prop
  | start : ReachesBy step allowed start [] start
  | step {history state taken next} : ReachesBy step allowed start history state →
      allowed state taken → Run (step state taken.label) taken.trace (some (taken.answer, next)) →
      ReachesBy step allowed start (history ++ [taken]) next

section ReachesBy

variable {met : State → Taken Op Label Answer → Prop} {history rest : List (Taken Op Label Answer)}
  {state : State}

theorem ReachesBy.invariant (holds : State → Prop)
    (reached : ReachesBy step met start history state) (first : holds start)
    (kept : ∀ state taken next, holds state → met state taken →
      Run (step state taken.label) taken.trace (some (taken.answer, next)) → holds next) :
    holds state := by
  induction reached with
  | start => exact first
  | step _ allows run ih => exact kept _ _ _ ih allows run

theorem ReachesBy.reaches (reached : ReachesBy step met start history state) :
    Reaches step (fun _ _ => True) start history state := by
  induction reached with
  | start => exact .start
  | step _ _ run ih => exact ih.step trivial run

theorem ReachesBy.behind (reached : ReachesBy step met start (history ++ rest) state) :
    ∃ between, ReachesBy step met start history between := by
  generalize whole : history ++ rest = longer at reached
  induction reached generalizing rest with
  | start =>
      obtain ⟨rfl, -⟩ := List.append_eq_nil_iff.mp whole
      exact ⟨start, .start⟩
  | @step earlier before taken next reached allows run ih =>
      rcases List.eq_nil_or_concat rest with rfl | ⟨init, last, rfl⟩
      · rw [List.append_nil] at whole
        exact ⟨next, whole ▸ reached.step allows run⟩
      · rw [List.concat_eq_append, ← List.append_assoc] at whole
        exact ih (List.append_inj' whole rfl).1

end ReachesBy

theorem Reaches.imp {wider : State → Label → Prop} {history : List (Taken Op Label Answer)}
    {state : State} (reached : Reaches step allowed start history state)
    (widen : ∀ history state label, Reaches step allowed start history state →
      allowed state label → wider state label) : Reaches step wider start history state := by
  induction reached with
  | start => exact .start
  | step before permitted run ih => exact .step ih (widen _ _ _ before permitted) run

end System

/-! A program run against an oracle that answers the operation performed at each time. -/

section Exec

variable (oracle : Nat → (R : Type) → Op R → R)

def exec (time : Nat) : Prog Op α → List (Event Op) × Option α
  | .ret value => ([], some value)
  | .call op next =>
      let reply := oracle time _ op
      let rest := exec (time + 1) (next reply)
      (⟨op, reply⟩ :: rest.1, rest.2)
  | .fault => ([], none)

theorem run_exec (program : Prog Op α) (time : Nat) :
    Run program (exec oracle time program).1 (exec oracle time program).2 := by
  induction program generalizing time with
  | ret value => exact .ret
  | call op next ih => exact .call (ih _ _)
  | fault => exact .fault

theorem exec_forall {holds : Event Op → Prop}
    (answers : ∀ time (R : Type) (op : Op R), holds ⟨op, oracle time R op⟩) (program : Prog Op α)
    (time : Nat) : ∀ event ∈ (exec oracle time program).1, holds event := by
  induction program generalizing time with
  | ret value => simp [exec]
  | call op next ih =>
      intro event member
      rcases List.mem_cons.mp member with rfl | inside
      · exact answers time _ op
      · exact ih _ _ event inside
  | fault => simp [exec]

theorem Run.extends {program : Prog Op α} {trace : List (Event Op)} {outcome : Option α}
    (run : Run program trace outcome) (answers : (R : Type) → Op R → R) (follow : α → Prog Op β) :
    ∃ more ended, Run (program >>= follow) (trace ++ more) ended := by
  induction run with
  | @ret value => exact ⟨_, _, run_exec (fun _ => answers) (follow value) 0⟩
  | call _ ih =>
      obtain ⟨more, ended, run⟩ := ih
      exact ⟨more, ended, .call run⟩
  | fault => exact ⟨[], none, .fault⟩

def answered (answers : (R : Type) → Op R → R) : Prog Op α → Option α
  | .ret value => some value
  | .call op next => answered answers (next (answers _ op))
  | .fault => none

def AnsweredBy (answers : (R : Type) → Op R → R) (trace : List (Event Op)) : Prop :=
  ∀ event ∈ trace, event.reply = answers event.R event.op

section Answered

variable {answers : (R : Type) → Op R → R}

@[simp] theorem answered_ret (value : α) : answered answers (.ret value) = some value := rfl

@[simp] theorem answered_fault : answered answers (.fault : Prog Op α) = none := rfl

@[simp] theorem answered_call (op : Op R) (next : R → Prog Op α) :
    answered answers (.call op next) = answered answers (next (answers R op)) := rfl

theorem answered_perform_bind (op : Op R) (follow : R → Prog Op α) :
    answered answers (perform op >>= follow) = answered answers (follow (answers R op)) := rfl

theorem answered_bind (program : Prog Op α) (follow : α → Prog Op β) :
    answered answers (program >>= follow) =
      (answered answers program).bind fun value => answered answers (follow value) := by
  induction program with
  | ret value => rfl
  | call op next ih => exact ih _
  | fault => rfl

theorem answered_congr {others : (R : Type) → Op R → R} {allowed : (R : Type) → Op R → Prop}
    {program : Prog Op α} (only : program.Only allowed)
    (same : ∀ R op, allowed R op → answers R op = others R op) :
    answered answers program = answered others program := by
  induction program with
  | ret value => rfl
  | call op next ih =>
      rw [answered_call, answered_call, same _ op only.1]
      exact ih _ (only.2 _)
  | fault => rfl

theorem Run.answered {program : Prog Op α} {trace : List (Event Op)} {outcome : Option α}
    (run : Run program trace outcome) (told : AnsweredBy answers trace) :
    outcome = Interaction.answered answers program := by
  induction run with
  | ret => rfl
  | @call S op next reply trace outcome _ ih =>
      have first : reply = answers S op := told _ List.mem_cons_self
      rw [answered_call, ← first]
      apply ih
      intro event member
      exact told event (List.mem_cons_of_mem _ member)
  | fault => rfl

theorem run_answered (answers : (R : Type) → Op R → R) (program : Prog Op α) :
    ∃ trace, Run program trace (answered answers program) ∧ AnsweredBy answers trace := by
  induction program with
  | ret value => exact ⟨[], .ret, by simp [AnsweredBy]⟩
  | call op next ih =>
      obtain ⟨trace, run, told⟩ := ih (answers _ op)
      refine ⟨_, .call run, ?_⟩
      intro event member
      rcases List.mem_cons.mp member with rfl | inside
      · rfl
      · exact told event inside
  | fault => exact ⟨[], .fault, by simp [AnsweredBy]⟩

end Answered

variable {State Label Answer : Type} {step : State → Label → Prog Op (Answer × State)}
  {allowed : State → Label → Prop} {start : State}

theorem Reaches.executed {history : List (Taken Op Label Answer)} {state : State}
    (reached : Reaches step allowed start history state) (label : Label) (answer : Answer)
    (next : State) (permitted : allowed state label)
    (outcome : (exec oracle 0 (step state label)).2 = some (answer, next)) :
    Reaches step allowed start
      (history ++ [⟨label, (exec oracle 0 (step state label)).1, answer⟩]) next :=
  reached.step permitted (outcome ▸ run_exec oracle _ 0)

end Exec

end Interaction
