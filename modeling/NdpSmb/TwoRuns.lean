import NdpSmb.HiddenSteps

/-!
Two programs side by side, in environments that give the same answers but to secret
operations: these come in pairs of one kind, and may carry and return different values.
-/

namespace Interaction

variable {Op : Type → Type 1} {K M α β γ δ : Type}

/-- `kind` is that of a secret operation; `observe` is what is remembered of both runs. -/
structure PairWatch (Op : Type → Type 1) (K M : Type) where
  kind : (R : Type) → Op R → Option K
  observe : M → Event Op → Event Op → M

namespace PairWatch

variable (watch : PairWatch Op K M)

def secret (R : Type) (op : Op R) : Bool := (watch.kind R op).isSome

/-- Whatever the answers, the programs go on together until both return or both run into
undefined behaviour. -/
inductive Agrees (post : α → β → M → Prop) : Prog Op α → Prog Op β → M → Prop
  | ret {left right memory} : post left right memory → Agrees post (.ret left) (.ret right) memory
  | shown {R : Type} {op : Op R} {left right memory} : watch.secret R op = false →
      (∀ reply, Agrees post (left reply) (right reply)
        (watch.observe memory ⟨op, reply⟩ ⟨op, reply⟩)) →
      Agrees post (.call op left) (.call op right) memory
  | hidden {R S : Type} {op : Op R} {other : Op S} {left right memory} :
      watch.secret R op = true → watch.kind R op = watch.kind S other →
      (∀ reply answer, Agrees post (left reply) (right answer)
        (watch.observe memory ⟨op, reply⟩ ⟨other, answer⟩)) →
      Agrees post (.call op left) (.call other right) memory
  | fault {memory} : Agrees post .fault .fault memory

inductive Paired : M → List (Event Op) → List (Event Op) → M → Prop
  | nil {memory} : Paired memory [] [] memory
  | shown {event first second memory later} : watch.secret event.R event.op = false →
      Paired (watch.observe memory event event) first second later →
      Paired memory (event :: first) (event :: second) later
  | hidden {event other first second memory later} : watch.secret event.R event.op = true →
      watch.kind event.R event.op = watch.kind other.R other.op →
      Paired (watch.observe memory event other) first second later →
      Paired memory (event :: first) (other :: second) later

variable {watch} {post : α → β → M → Prop} {memory later : M}

theorem secret_of_kind {R S : Type} {op : Op R} {other : Op S} (hides : watch.secret R op = true)
    (same : watch.kind R op = watch.kind S other) : watch.secret S other = true := by
  rwa [secret, ← same]

namespace Agrees

theorem bind {first : Prog Op α} {second : Prog Op β} {follow : α → Prog Op γ}
    {next : β → Prog Op δ} {wanted : γ → δ → M → Prop}
    (agrees : watch.Agrees post first second memory)
    (onward : ∀ left right later, post left right later →
      watch.Agrees wanted (follow left) (next right) later) :
    watch.Agrees wanted (first >>= follow) (second >>= next) memory := by
  induction agrees with
  | ret ended => exact onward _ _ _ ended
  | shown shows _ ih => exact .shown shows ih
  | hidden hides same _ ih => exact .hidden hides same ih
  | fault => exact .fault

theorem perform {R : Type} {op : Op R} {follow : R → Prog Op α} {next : R → Prog Op β}
    (shows : watch.secret R op = false)
    (onward : ∀ reply, watch.Agrees post (follow reply) (next reply)
      (watch.observe memory ⟨op, reply⟩ ⟨op, reply⟩)) :
    watch.Agrees post (perform op >>= follow) (perform op >>= next) memory :=
  .shown shows onward

theorem perform_hidden {R S : Type} {op : Op R} {other : Op S} {follow : R → Prog Op α}
    {next : S → Prog Op β} (hides : watch.secret R op = true)
    (same : watch.kind R op = watch.kind S other)
    (onward : ∀ reply answer, watch.Agrees post (follow reply) (next answer)
      (watch.observe memory ⟨op, reply⟩ ⟨other, answer⟩)) :
    watch.Agrees post (Interaction.perform op >>= follow) (Interaction.perform other >>= next)
      memory :=
  .hidden hides same onward

theorem refl {program : Prog Op α} (plain : program.Only fun R op => watch.secret R op = false ∧
    ∀ memory reply, watch.observe memory ⟨op, reply⟩ ⟨op, reply⟩ = memory) :
    watch.Agrees (fun left right later => left = right ∧ later = memory) program program memory := by
  induction program with
  | ret value => exact .ret ⟨rfl, rfl⟩
  | call op next ih =>
      refine .shown plain.1.1 fun reply => ?_
      rw [plain.1.2]
      exact ih reply (plain.2 reply)
  | fault => exact .fault

theorem runs {first : Prog Op α} {second : Prog Op β}
    (agrees : watch.Agrees post first second memory) {trace other : List (Event Op)} {left : α}
    {outcome : Option β} (run : Run first trace (some left)) (ran : Run second other outcome)
    (same : visible watch.secret trace = visible watch.secret other) :
    ∃ right later, outcome = some right ∧ watch.Paired memory trace other later ∧
      post left right later := by
  induction agrees generalizing trace other with
  | @ret value result memory ended =>
      obtain ⟨rfl, returned⟩ := run_ret_iff.mp run
      obtain rfl := Option.some.inj returned
      obtain ⟨rfl, rfl⟩ := run_ret_iff.mp ran
      exact ⟨result, memory, rfl, .nil, ended⟩
  | shown shows _ ih =>
      obtain ⟨reply, rest, rfl, inner⟩ := run_call_iff.mp run
      obtain ⟨answer, behind, rfl, after⟩ := run_call_iff.mp ran
      rw [visible_cons_of_shown shows, visible_cons_of_shown shows] at same
      obtain ⟨exchanged, still⟩ := List.cons.inj same
      obtain rfl := eq_of_heq (Event.mk.inj exchanged).2.2
      obtain ⟨right, later, rfl, paired, ended⟩ := ih reply inner after still
      exact ⟨right, later, rfl, .shown shows paired, ended⟩
  | hidden hides kinds _ ih =>
      obtain ⟨reply, rest, rfl, inner⟩ := run_call_iff.mp run
      obtain ⟨answer, behind, rfl, after⟩ := run_call_iff.mp ran
      rw [visible_cons_of_hidden hides,
        visible_cons_of_hidden (secret_of_kind hides kinds)] at same
      obtain ⟨right, later, rfl, paired, ended⟩ := ih reply answer inner after same
      exact ⟨right, later, rfl, .hidden hides kinds paired, ended⟩
  | fault => simp at run

theorem run {first : Prog Op α} {second : Prog Op β}
    (agrees : watch.Agrees post first second memory) (answers : (R : Type) → Op R → R)
    {trace : List (Event Op)} {left : α} (run : Run first trace (some left)) :
    ∃ other right later, Run second other (some right) ∧
      HiddenAnswered watch.secret answers other ∧ watch.Paired memory trace other later ∧
      post left right later := by
  induction agrees generalizing trace with
  | @ret value result memory ended =>
      obtain ⟨rfl, returned⟩ := run_ret_iff.mp run
      obtain rfl := Option.some.inj returned
      exact ⟨[], result, memory, .ret, by simp [HiddenAnswered], .nil, ended⟩
  | @shown R op _ _ _ shows _ ih =>
      obtain ⟨reply, rest, rfl, inner⟩ := run_call_iff.mp run
      obtain ⟨other, right, later, ran, told, paired, ended⟩ := ih reply inner
      refine ⟨_, right, later, .call ran, ?_, .shown shows paired, ended⟩
      intro event member hides
      rcases List.mem_cons.mp member with rfl | inside
      · rw [shows] at hides
        cases hides
      · exact told event inside hides
  | @hidden R S op other _ _ _ hides kinds _ ih =>
      obtain ⟨reply, rest, rfl, inner⟩ := run_call_iff.mp run
      obtain ⟨others, right, later, ran, told, paired, ended⟩ := ih reply (answers S other) inner
      refine ⟨_, right, later, .call ran, ?_, .hidden hides kinds paired, ended⟩
      intro event member hides
      rcases List.mem_cons.mp member with rfl | inside
      · rfl
      · exact told event inside hides
  | fault => simp at run

end Agrees

theorem Paired.visible_eq {first second : List (Event Op)}
    (paired : watch.Paired memory first second later) :
    visible watch.secret first = visible watch.secret second := by
  induction paired with
  | nil => rfl
  | shown shows _ ih => rw [visible_cons_of_shown shows, visible_cons_of_shown shows, ih]
  | hidden hides kinds _ ih =>
      rw [visible_cons_of_hidden hides, visible_cons_of_hidden (secret_of_kind hides kinds), ih]

end PairWatch

end Interaction
