import NdpSmb.Interaction

/-!
What a program makes of its environment, seen in its exchanges: those that count are picked out
and listed in their order, whether the program returns or not.
-/

namespace Interaction

variable {Op : Type → Type 1} {E α β R : Type}

def emitted (emit : Event Op → Option E) (trace : List (Event Op)) : List E := trace.filterMap emit

/-- All runs of the program, also those that break off, exchange so. -/
def Prog.Shows (shown : List (Event Op) → Prop) (program : Prog Op α) : Prop :=
  ∀ trace outcome, Run program trace outcome → shown trace

def Emitting (emit : Event Op → Option E) (post : List E → Prop) (trace : List (Event Op)) : Prop :=
  post (emitted emit trace)

def Prog.Emits (emit : Event Op → Option E) (post : List E → Prop) (program : Prog Op α) : Prop :=
  program.Shows (Emitting emit post)

/-- Exchanges that do not count make no difference, before and behind. -/
def Framed (emit : Event Op → Option E) (shown : List (Event Op) → Prop) : Prop :=
  ∀ before trace behind, emitted emit before = [] → emitted emit behind = [] → shown trace →
    shown (before ++ trace ++ behind)

variable {emit : Event Op → Option E} {post weak : List E → Prop} {program : Prog Op α}
  {shown : List (Event Op) → Prop}

@[simp] theorem emitted_nil : emitted emit [] = [] := rfl

@[simp] theorem emitted_append (first rest : List (Event Op)) :
    emitted emit (first ++ rest) = emitted emit first ++ emitted emit rest :=
  List.filterMap_append

theorem emitted_cons (event : Event Op) (rest : List (Event Op)) :
    emitted emit (event :: rest) = (emit event).toList ++ emitted emit rest := by
  cases picked : emit event with
  | none => simp [emitted, picked]
  | some one => simp [emitted, picked]

theorem framed_emitting : Framed emit (Emitting emit post) := by
  intro before trace behind quiet silent emits
  rwa [Emitting, emitted_append, emitted_append, quiet, silent, List.nil_append, List.append_nil]

theorem Framed.or {other : List (Event Op) → Prop} (one : Framed emit shown)
    (another : Framed emit other) : Framed emit fun trace => shown trace ∨ other trace := by
  rintro before trace behind quiet silent (first | second)
  · exact .inl (one before trace behind quiet silent first)
  · exact .inr (another before trace behind quiet silent second)

/-- What is emitted counts and, beside it, what was exchanged at some time. -/
theorem framed_exists {index : Type} {known : index → List (Event Op) → Prop}
    {made : index → List E → Prop}
    (grows : ∀ one before trace behind, known one trace → known one (before ++ trace ++ behind)) :
    Framed emit fun trace => ∃ one, known one trace ∧ made one (emitted emit trace) := by
  rintro before trace behind quiet silent ⟨one, told, emits⟩
  refine ⟨one, grows one before trace behind told, ?_⟩
  rwa [emitted_append, emitted_append, quiet, silent, List.nil_append, List.append_nil]

/-- Whether nothing has counted so far. -/
def silence (emit : Event Op → Option E) : Watch Op Prop where
  observe silent event := silent ∧ emit event = none
  crash silent := silent

theorem silence_after {silent : Prop} {trace : List (Event Op)} :
    (silence emit).after silent trace ↔ silent ∧ emitted emit trace = [] := by
  induction trace generalizing silent with
  | nil => simp
  | cons event rest ih =>
      rw [Watch.after_cons, ih, emitted_cons, List.append_eq_nil_iff, Option.toList_eq_nil_iff]
      exact and_assoc

namespace Prog

theorem shows_ret {value : α} (nothing : shown []) : Shows shown (ret value : Prog Op α) := by
  intro trace outcome run
  obtain ⟨rfl, -⟩ := run_ret_iff.mp run
  exact nothing

theorem Shows.bind {first : Prog Op α} {follow : α → Prog Op β}
    (broken : ∀ trace, Run first trace none → shown trace)
    (followed : ∀ before value, Run first before (some value) →
      Shows (fun behind => shown (before ++ behind)) (follow value)) :
    Shows shown (first >>= follow) := by
  intro trace outcome run
  rcases run.bind_cases with crashed | ⟨before, behind, value, rfl, given, tail⟩
  · exact broken trace crashed
  · exact followed before value given behind outcome tail

theorem Shows.behind {first : Prog Op α} {follow : α → Prog Op β} (framed : Framed emit shown)
    (begun : Emits emit (· = []) first) (followed : ∀ value, Shows shown (follow value))
    (nothing : shown []) : Shows shown (first >>= follow) := by
  apply Shows.bind
  · intro trace crashed
    have around := framed [] [] trace rfl (begun trace none crashed) nothing
    exact around
  · intro before value given behind outcome tail
    have around := framed before behind [] (begun before _ given) rfl
      (followed value behind outcome tail)
    rwa [List.append_nil] at around

theorem Shows.before {first : Prog Op α} {follow : α → Prog Op β} (framed : Framed emit shown)
    (begun : Shows shown first) (followed : ∀ value, Emits emit (· = []) (follow value)) :
    Shows shown (first >>= follow) := by
  apply Shows.bind
  · intro trace crashed
    exact begun trace none crashed
  · intro before value given behind outcome tail
    exact framed [] before behind rfl (followed value behind outcome tail) (begun before _ given)

theorem Emits.mono (emits : Emits emit post program) (weaken : ∀ made, post made → weak made) :
    Emits emit weak program :=
  fun trace outcome run => weaken _ (emits trace outcome run)

theorem emits_ret {value : α} (nothing : post []) : Emits emit post (ret value : Prog Op α) :=
  shows_ret nothing

theorem emits_fault (nothing : post []) : Emits emit post (fault : Prog Op α) := by
  intro trace outcome run
  obtain ⟨rfl, -⟩ := run_fault_iff.mp run
  exact nothing

theorem emits_of_only {allowed : (R : Type) → Op R → Prop} (only : program.Only allowed)
    (silent : ∀ R op reply, allowed R op → emit ⟨op, reply⟩ = none) (nothing : post []) :
    Emits emit post program := by
  intro trace outcome run
  have quiet : emitted emit trace = [] := by
    rw [emitted, List.filterMap_eq_nil_iff]
    intro event member
    exact silent _ event.op event.reply (only.run run event member)
  rwa [Emitting, quiet]

theorem emits_of_silence
    (silent : (silence emit).Ensures (fun _ later => later) program True) :
    Emits emit (· = []) program := by
  intro trace outcome run
  have admitted : (silence emit).Admits True trace :=
    Watch.admits_of_forall _ fun _ _ _ => trivial
  have ends := Watch.ensures_iff_runs.mp silent trace outcome run admitted
  cases outcome with
  | none => exact (silence_after.mp ends).2
  | some value => exact (silence_after.mp ends).2

theorem emits_perform_bind {op : Op R} {follow : R → Prog Op α}
    (rest : ∀ reply,
      Emits emit (fun made => post ((emit ⟨op, reply⟩).toList ++ made)) (follow reply)) :
    Emits emit post (perform op >>= follow) := by
  intro trace outcome run
  obtain ⟨reply, later, rfl, tail⟩ := run_call_iff.mp run
  rw [Emitting, emitted_cons]
  exact rest reply later outcome tail

/-- The program may also break off in its first part. -/
theorem Emits.bind {first rest : List E → Prop} {known : α → Prop} {follow : α → Prog Op β}
    (begun : Emits emit first program) (returned : program.Returns known)
    (followed : ∀ value, known value → Emits emit rest (follow value))
    (broken : ∀ made, first made → post made)
    (joined : ∀ made later, first made → rest later → post (made ++ later)) :
    Emits emit post (program >>= follow) := by
  intro trace outcome run
  rcases run.bind_cases with crashed | ⟨before, behind, value, rfl, given, tail⟩
  · exact broken _ (begun trace none crashed)
  · rw [Emitting, emitted_append]
    have later := followed value (returned.run given) behind outcome tail
    exact joined _ _ (begun before _ given) later

theorem Emits.behind {known : α → Prop} {follow : α → Prog Op β}
    (begun : Emits emit (· = []) program) (returned : program.Returns known)
    (followed : ∀ value, known value → Emits emit post (follow value)) (nothing : post []) :
    Emits emit post (program >>= follow) := by
  refine begun.bind returned followed ?_ ?_
  · rintro _ rfl
    exact nothing
  · rintro _ later rfl holds
    exact holds

theorem Emits.before {follow : α → Prog Op β} (begun : Emits emit post program)
    (followed : ∀ value, Emits emit (· = []) (follow value)) :
    Emits emit post (program >>= follow) := by
  refine begun.bind (returns_of_forall fun _ => trivial) (fun value _ => followed value)
    (fun _ holds => holds) ?_
  rintro made _ holds rfl
  rwa [List.append_nil]

end Prog

end Interaction
