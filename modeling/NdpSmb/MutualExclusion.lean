import NdpSmb.Interaction
import Mathlib.Data.List.Induction
import Mathlib.Data.Fintype.Defs

/-!
A recursive mutex among threads. What the threads do in turn is one schedule; a thread may take
the mutex while it holds it already, and only while no other thread does.
-/

namespace Interaction

variable {Op : Type → Type 1} {T : Type}

structure Mutex (Op : Type → Type 1) where
  takes : Event Op → Bool
  frees : Event Op → Bool

abbrev Schedule (T : Type) (Op : Type → Type 1) := List (T × Event Op)

namespace Mutex

variable (mutex : Mutex Op)

def step (held : Nat) (event : Event Op) : Nat :=
  if mutex.takes event then held + 1 else if mutex.frees event then held - 1 else held

def held (trace : List (Event Op)) : Nat := trace.foldl mutex.step 0

def Shelters (shared : Event Op → Prop) (trace : List (Event Op)) : Prop :=
  ∀ before event after, trace = before ++ event :: after → shared event → 0 < mutex.held before

theorem held_concat (trace : List (Event Op)) (event : Event Op) :
    mutex.held (trace ++ [event]) = mutex.step (mutex.held trace) event := by
  rw [held, List.foldl_append]
  rfl

variable {mutex}

theorem step_le (held : Nat) {event : Event Op} (taking : mutex.takes event = false) :
    mutex.step held event ≤ held := by
  unfold step
  rw [taking, if_neg Bool.false_ne_true]
  split
  · omega
  · omega

theorem Shelters.front {shared : Event Op → Prop} {first rest : List (Event Op)}
    (shelters : mutex.Shelters shared (first ++ rest)) : mutex.Shelters shared first := by
  rintro before event after rfl
  exact shelters before event (after ++ rest) (by simp)

variable [DecidableEq T]

def own (t : T) (schedule : Schedule T Op) : List (Event Op) :=
  schedule.filterMap fun moment => if moment.1 = t then some moment.2 else none

@[simp] theorem own_append (t : T) (first rest : Schedule T Op) :
    own t (first ++ rest) = own t first ++ own t rest :=
  List.filterMap_append

@[simp] theorem own_cons_self (t : T) (event : Event Op) (rest : Schedule T Op) :
    own t ((t, event) :: rest) = event :: own t rest := by
  simp [own]

theorem own_cons_other {t u : T} (other : u ≠ t) (event : Event Op) (rest : Schedule T Op) :
    own t ((u, event) :: rest) = own t rest := by
  simp [own, other]

/-- A thread takes the mutex only while no other thread holds it. -/
def Excludes (mutex : Mutex Op) (schedule : Schedule T Op) : Prop :=
  ∀ before t event after, schedule = before ++ (t, event) :: after → mutex.takes event = true →
    ∀ u, u ≠ t → mutex.held (own u before) = 0

theorem excludes_iff {schedule : Schedule T Op} :
    mutex.Excludes schedule ↔ ∀ place (inside : place < schedule.length),
      mutex.takes schedule[place].2 = true → ∀ u, u ≠ schedule[place].1 →
        mutex.held (own u (schedule.take place)) = 0 := by
  constructor
  · intro excludes place inside taking u other
    refine excludes (schedule.take place) schedule[place].1 schedule[place].2
      (schedule.drop (place + 1)) ?_ taking u other
    exact (List.take_append_drop place schedule).symm.trans
      (congrArg _ (List.drop_eq_getElem_cons inside))
  · rintro free before t event after rfl taking u other
    have inside : before.length < (before ++ (t, event) :: after).length := by simp
    have there := free before.length inside
    simp only [List.getElem_append_right le_rfl, Nat.sub_self, List.getElem_cons_zero,
      List.take_left] at there
    exact there taking u other

instance [Fintype T] (schedule : Schedule T Op) : Decidable (mutex.Excludes schedule) :=
  decidable_of_iff' _ excludes_iff

theorem Excludes.front {first rest : Schedule T Op} (excludes : mutex.Excludes (first ++ rest)) :
    mutex.Excludes first := by
  rintro before t event after rfl
  exact excludes before t event (after ++ rest) (by simp)

/-- Two threads never hold the mutex. -/
theorem Excludes.single {schedule : Schedule T Op} (excludes : mutex.Excludes schedule) {t u : T}
    (first : 0 < mutex.held (own t schedule)) (second : 0 < mutex.held (own u schedule)) :
    t = u := by
  induction schedule using List.reverseRecOn with
  | nil => exact absurd first (Nat.lt_irrefl 0)
  | append_singleton schedule moment ih =>
      obtain ⟨actor, event⟩ := moment
      have earlier := excludes.front
      -- whoever does not act holds the mutex as before
      have resting (v : T) (other : actor ≠ v) :
          own v (schedule ++ [(actor, event)]) = own v schedule := by
        rw [own_append, own_cons_other other]
        exact List.append_nil _
      have acting : own actor (schedule ++ [(actor, event)]) = own actor schedule ++ [event] := by
        rw [own_append, own_cons_self]
        rfl
      cases taking : mutex.takes event with
      | true =>
          have free (v : T) (other : v ≠ actor) : mutex.held (own v schedule) = 0 :=
            excludes schedule actor event [] rfl taking v other
          have actorOnly (v : T) (holds : 0 < mutex.held (own v (schedule ++ [(actor, event)]))) :
              v = actor := by
            by_contra other
            rw [resting v (Ne.symm other), free v other] at holds
            exact absurd holds (Nat.lt_irrefl 0)
          rw [actorOnly t first, actorOnly u second]
      | false =>
          have before (v : T) (holds : 0 < mutex.held (own v (schedule ++ [(actor, event)]))) :
              0 < mutex.held (own v schedule) := by
            by_cases same : actor = v
            · subst same
              rw [acting, held_concat] at holds
              have fewer := step_le (mutex.held (own actor schedule)) taking
              omega
            · rwa [resting v same] at holds
          exact ih earlier (before t first) (before u second)

variable {shared : Event Op → Prop} {schedule before after : Schedule T Op} {t : T}

/-- Whoever does something shared holds the mutex. -/
theorem Shelters.holds {event : Event Op}
    (shelters : mutex.Shelters shared (own t (before ++ (t, event) :: after)))
    (touched : shared event) : 0 < mutex.held (own t before) := by
  rw [own_append, own_cons_self] at shelters
  exact shelters _ event _ rfl touched

/-- While one thread holds the mutex, nothing shared is done by another. -/
theorem Excludes.undisturbed (excludes : mutex.Excludes (before ++ schedule ++ after))
    (shelters : ∀ u, mutex.Shelters shared (own u (before ++ schedule ++ after)))
    (holding : ∀ first rest, schedule = first ++ rest → 0 < mutex.held (own t (before ++ first))) :
    ∀ moment ∈ schedule, shared moment.2 → moment.1 = t := by
  rintro ⟨u, event⟩ member touched
  obtain ⟨first, rest, rfl⟩ := List.append_of_mem member
  have split : before ++ (first ++ (u, event) :: rest) ++ after =
      (before ++ first) ++ (u, event) :: (rest ++ after) := by simp
  rw [split] at excludes
  have actor := shelters u
  rw [split] at actor
  exact excludes.front.single (actor.holds touched) (holding first _ rfl)

end Mutex

end Interaction
