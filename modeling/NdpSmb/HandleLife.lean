import NdpSmb.CallRule
import Mathlib.Data.List.Perm.Basic

/-!
The handles that `smbwrp_connect` opens and `smbwrp_disconnect` gives up, over the calls on
one Resource. Every Connection should own one of them, and nothing should be asked of
another one.
-/

namespace NdpSmb

open ByteString Interaction

inductive LifeAction
  | opened (cli : Handle)
  | refused
  | closed (cli : Handle)
  | asked (cli : Handle)
  | unanswered (cli : Handle)
  | other
  deriving DecidableEq

/-- The open handles, whether a request or a disconnect went to another one, and the last
exchange. -/
structure LifeSeen where
  live : List Handle := []
  misused : Bool := false
  last : LifeAction := .other
  deriving DecidableEq

def connectAction : ConnectReply → LifeAction
  | .connected cli => .opened cli
  | .refused _ => .refused

/-- An echo that fails is a request without an answer. -/
def lifeAction : CallEvent → LifeAction
  | ⟨.smbwrpConnect .., reply⟩ => connectAction reply
  | ⟨.cliShutdown cli, _⟩ => .closed cli
  | ⟨.request cli .cliEcho, ok⟩ => if ok then .asked cli else .unanswered cli
  | ⟨.request cli _, _⟩ => .asked cli
  | _ => .other

def LifeSeen.act (seen : LifeSeen) (action : LifeAction) : LifeSeen :=
  match action with
  | .opened cli => { seen with live := cli :: seen.live, last := action }
  | .closed cli =>
      { live := seen.live.erase cli, misused := seen.misused || cli ∉ seen.live, last := action }
  | .asked cli | .unanswered cli =>
      { seen with misused := seen.misused || cli ∉ seen.live, last := action }
  | .refused | .other => { seen with last := action }

def Fresh (seen : LifeSeen) : LifeAction → Prop
  | .opened cli => cli ∉ seen.live
  | _ => True

instance (seen : LifeSeen) : (action : LifeAction) → Decidable (Fresh seen action)
  | .opened cli => inferInstanceAs (Decidable (cli ∉ seen.live))
  | .refused | .closed _ | .asked _ | .unanswered _ | .other => isTrue trivial

/-- Whether one exchange leaves the other one out: the server is not connected anew behind
an echo that failed, and is connected anew behind a disconnect. -/
def repairs : LifeAction → LifeAction → Bool
  | .unanswered _, .opened _ => false
  | .closed _, .refused => false
  | _, _ => true

def Repaired (seen : LifeSeen) (action : LifeAction) : Prop := repairs seen.last action = true

instance (seen : LifeSeen) (action : LifeAction) : Decidable (Repaired seen action) :=
  inferInstanceAs (Decidable (_ = _))

def lifeWatch (admitted : LifeSeen → LifeAction → Prop) : Watch Op LifeSeen where
  observe seen event := seen.act (lifeAction event)
  admits seen event := admitted seen (lifeAction event)

instance {admitted : LifeSeen → LifeAction → Prop}
    [decided : ∀ seen action, Decidable (admitted seen action)] (seen : LifeSeen)
    (event : CallEvent) : Decidable ((lifeWatch admitted).admits seen event) :=
  decided seen (lifeAction event)

def lifeSeen (trace : List CallEvent) : LifeSeen := (lifeWatch Fresh).after {} trace

theorem admits_lifeWatch_and {left right : LifeSeen → LifeAction → Prop} {seen : LifeSeen}
    {trace : List CallEvent} (first : (lifeWatch left).Admits seen trace)
    (second : (lifeWatch right).Admits seen trace) :
    (lifeWatch fun seen action => left seen action ∧ right seen action).Admits seen trace := by
  induction trace generalizing seen with
  | nil => trivial
  | cons event rest ih => exact ⟨⟨first.1, second.1⟩, ih first.2 second.2⟩

theorem admits_lifeWatch_imp {left right : LifeSeen → LifeAction → Prop} {seen : LifeSeen}
    {trace : List CallEvent} (wider : ∀ seen action, left seen action → right seen action)
    (admitted : (lifeWatch left).Admits seen trace) : (lifeWatch right).Admits seen trace := by
  induction trace generalizing seen with
  | nil => trivial
  | cons event rest ih => exact ⟨wider _ _ admitted.1, ih admitted.2⟩

/-- A server that was disconnected is connected anew, so that nothing goes to a handle that was
given up. -/
def reclaims : LifeAction → LifeAction → Bool
  | .closed _, .refused => false
  | _, _ => true

def Reclaimed (seen : LifeSeen) (action : LifeAction) : Prop := reclaims seen.last action = true

instance (seen : LifeSeen) (action : LifeAction) : Decidable (Reclaimed seen action) :=
  inferInstanceAs (Decidable (_ = _))

theorem Repaired.reclaimed {seen : LifeSeen} {action : LifeAction}
    (repaired : Repaired seen action) : Reclaimed seen action := by
  unfold Reclaimed reclaims
  split
  · rename_i last
    rw [Repaired, last] at repaired
    exact repaired
  · rfl

/-- A handle may leak, but not in a run that is strict. -/
abbrev reclaimWatch (strict : Prop) : Watch Op LifeSeen :=
  lifeWatch fun seen action =>
    Fresh seen action ∧ Reclaimed seen action ∧ (strict → Repaired seen action)

/-! One Connection. -/

section Connection

variable {strict : Prop} {others : List Handle} {s : Session} {seen : LifeSeen} {cli : Handle}
  {held : Nat}

/-- The open handles are the Connection's own and those of the others. -/
structure Holds (others : List Handle) (own : Option Handle) (seen : LifeSeen) : Prop where
  live : seen.live.Perm (own.toList ++ others)
  distinct : seen.live.Nodup
  careful : seen.misused = false

variable {own : Option Handle}

theorem Holds.other (holds : Holds others own seen) : Holds others own (seen.act .other) :=
  ⟨holds.live, holds.distinct, holds.careful⟩

theorem Holds.refused (holds : Holds others own seen) : Holds others own (seen.act .refused) :=
  ⟨holds.live, holds.distinct, holds.careful⟩

theorem Holds.mem (holds : Holds others (some cli) seen) : cli ∈ seen.live :=
  holds.live.mem_iff.mpr (by simp)

theorem Holds.asked (holds : Holds others (some cli) seen) :
    Holds others (some cli) (seen.act (.asked cli)) :=
  ⟨holds.live, holds.distinct, by simp [LifeSeen.act, holds.careful, holds.mem]⟩

theorem Holds.unanswered (holds : Holds others (some cli) seen) :
    Holds others (some cli) (seen.act (.unanswered cli)) :=
  ⟨holds.live, holds.distinct, by simp [LifeSeen.act, holds.careful, holds.mem]⟩

theorem Holds.closed (holds : Holds others (some cli) seen) :
    Holds others none (seen.act (.closed cli)) := by
  refine ⟨?_, holds.distinct.erase cli, by simp [LifeSeen.act, holds.careful, holds.mem]⟩
  have erased := holds.live.erase cli
  simpa [LifeSeen.act] using erased

theorem Holds.opened (holds : Holds others none seen) (fresh : cli ∉ seen.live) :
    Holds others (some cli) (seen.act (.opened cli)) :=
  ⟨holds.live.cons cli, List.nodup_cons.mpr ⟨fresh, holds.distinct⟩, holds.careful⟩

theorem Holds.lend (holds : Holds others (some cli) seen) : Holds (cli :: others) none seen :=
  ⟨holds.live, holds.distinct, holds.careful⟩

theorem Holds.exchange {new : Handle} (holds : Holds (cli :: others) (some new) seen) :
    Holds (new :: others) (some cli) seen :=
  ⟨holds.live.trans (List.Perm.swap _ _ _), holds.distinct, holds.careful⟩

theorem Holds.perm {more : List Handle} {another : Option Handle} (holds : Holds others own seen)
    (same : (own.toList ++ others).Perm (another.toList ++ more)) : Holds more another seen :=
  ⟨holds.live.trans same, holds.distinct, holds.careful⟩

theorem Holds.reclaim (holds : Holds (cli :: others) none seen) : Holds others (some cli) seen :=
  ⟨holds.live, holds.distinct, holds.careful⟩

theorem Op.ServedBy.lifeAction {R : Type} {op : Op R} {own : Option Handle} (reply : R)
    (served : Op.ServedBy own R op) :
    lifeAction ⟨op, reply⟩ = .other ∨ ∃ cli, own = some cli ∧
      (lifeAction ⟨op, reply⟩ = .asked cli ∨ lifeAction ⟨op, reply⟩ = .unanswered cli) := by
  cases op with
  | request cli ask =>
      refine .inr ⟨cli, served, ?_⟩
      cases ask with
      | cliEcho => cases reply <;> simp [NdpSmb.lifeAction]
      | _ => exact .inl rfl
  | smbwrpConnect | cliShutdown => exact absurd served id
  | _ => exact .inl rfl

theorem Holds.served {R : Type} {op : Op R} {reply : R} (holds : Holds others (some cli) seen)
    (served : Op.ServedBy (some cli) R op) :
    Holds others (some cli) (seen.act (lifeAction ⟨op, reply⟩)) := by
  rcases served.lifeAction reply with other | ⟨used, same, asked | unanswered⟩
  · rw [other]
    exact holds.other
  · obtain rfl := Option.some.inj same
    rw [asked]
    exact holds.asked
  · obtain rfl := Option.some.inj same
    rw [unanswered]
    exact holds.unanswered

structure Owns (others : List Handle) (_ : Nat) (s : Session) (seen : LifeSeen) : Prop where
  connected : s.pConn.cli ≠ none
  holds : Holds others s.pConn.cli seen

theorem Owns.elim (owns : Owns others held s seen) :
    ∃ cli, s.pConn.cli = some cli ∧ Holds others (some cli) seen := by
  obtain ⟨cli, used⟩ := Option.ne_none_iff_exists'.mp owns.connected
  exact ⟨cli, used, used ▸ owns.holds⟩

theorem Owns.intro (used : s.pConn.cli = some cli) (holds : Holds others (some cli) seen) :
    Owns others held s seen :=
  ⟨by simp [used], used ▸ holds⟩

theorem ensures_switchTo_life (tmpRes : Resource) (used : s.pConn.cli = some cli)
    (holds : Holds others (some cli) seen) :
    (reclaimWatch strict).Ensures (fun answer later => Owns others held answer.2 later)
      (switchTo s tmpRes) seen := by
  refine Watch.ensures_perform_bind.mpr fun reply admitted => ?_
  cases reply with
  | refused rc => exact .intro used holds.refused
  | connected new =>
      have opened := holds.lend.opened admitted.1
      simp only [used, smbwrpDisconnect]
      exact fun _ _ => .intro rfl opened.exchange.closed.reclaim

theorem ensures_pathparser_life (ph : Platform) (szPath : CString) (used : s.pConn.cli = some cli)
    (holds : Holds others (some cli) seen) :
    (reclaimWatch strict).Ensures (fun answer later => Owns others held answer.2.1 later)
      (pathparser ph s szPath) seen :=
  ensures_pathparser_kept (fun _ _ _ => trivial) (.intro used holds)
    fun tmpRes => ensures_switchTo_life tmpRes used holds

/-- Behind an echo without an answer the handle leaks when the server is connected anew. -/
theorem ensures_revive_life (owns : Owns others held s seen) :
    (reclaimWatch strict).Ensures
      (fun answer later => Owns others held answer.2 later ∨
        ¬ strict ∧ ∃ cli, Owns (cli :: others) held answer.2 later) (revive s) seen := by
  obtain ⟨cli, used, holds⟩ := owns.elim
  simp only [revive, used, smbwrpEcho]
  apply Watch.ensures_bind.mpr
  apply Watch.ensures_perform_bind.mpr
  intro ok _
  cases ok with
  | true => exact .inl (.intro used holds.asked)
  | false =>
      apply Watch.ensures_perform_bind.mpr
      intro reply admitted
      cases reply with
      | refused rc => exact .inl (.intro used holds.unanswered.refused)
      | connected new =>
          obtain ⟨fresh, -, repaired⟩ := admitted
          have lenient : ¬ strict := fun tight => absurd (repaired tight) Bool.noConfusion
          exact .inr ⟨lenient, cli, .intro rfl (holds.unanswered.lend.opened fresh)⟩

theorem ensures_renew_life (owns : Owns others held s seen) :
    (reclaimWatch strict).Ensures (fun answer later => Owns others held answer.2 later) (renew s)
      seen := by
  obtain ⟨cli, used, holds⟩ := owns.elim
  simp only [renew, used, smbwrpDisconnect]
  apply Watch.ensures_perform_bind.mpr
  intro _ _
  apply Watch.ensures_perform_bind.mpr
  intro reply admitted
  cases reply with
  | refused rc => exact absurd admitted.2.1 Bool.noConfusion
  | connected new => exact .intro rfl (holds.closed.opened admitted.1)

theorem kept_owns (ph : Platform) (strict : Prop) (others : List Handle) :
    Kept ph (reclaimWatch strict) (Owns others) where
  crash _ := trivial
  served owns served _ _ := by
    obtain ⟨cli, used, holds⟩ := owns.elim
    exact .intro used (holds.served (used ▸ served))
  locked owns _ := ⟨owns.connected, owns.holds.other⟩
  denied owns _ _ := ⟨owns.connected, owns.holds.other⟩
  released owns _ := ⟨owns.connected, owns.holds.other⟩
  parsed szPath owns := by
    obtain ⟨cli, used, holds⟩ := owns.elim
    exact ensures_pathparser_life ph szPath used holds
  invalidated _ owns := ⟨owns.connected, owns.holds⟩
  filed _ owns := ⟨owns.connected, owns.holds⟩

def Spared (strict : Prop) (leaked : List Handle) : Prop := strict → leaked = []

def OwnsLeaking (strict : Prop) (others : List Handle) (held : Nat) (s : Session)
    (seen : LifeSeen) : Prop :=
  ∃ leaked, Spared strict leaked ∧ Owns (leaked ++ others) held s seen

theorem keptSearching_owns (ph : Platform) (strict : Prop) (others : List Handle) :
    KeptSearching ph (reclaimWatch strict) (OwnsLeaking strict others) where
  toKept := Kept.some fun leaked => kept_owns ph strict (leaked ++ others)
  revived := by
    rintro held s memory ⟨leaked, spared, owns⟩
    apply (ensures_revive_life owns).mono
    rintro answer later (after | ⟨lenient, cli, after⟩)
    · exact ⟨leaked, spared, after⟩
    · exact ⟨cli :: leaked, fun tight => absurd tight lenient, after⟩
  renewed := by
    rintro held s memory ⟨leaked, spared, owns⟩
    apply (ensures_renew_life owns).mono
    intro answer later after
    exact ⟨leaked, spared, after⟩
  clocked := by
    rintro held s memory now ⟨leaked, spared, owns⟩ _
    exact ⟨leaked, spared, owns.connected, owns.holds.other⟩
  listed := by
    rintro held s memory state ⟨leaked, spared, owns⟩
    apply Watch.ensures_bind.mpr
    apply ((kept_owns ph strict (leaked ++ others)).onlyLists
      (fun owns _ => ⟨owns.connected, owns.holds.other⟩)
      (only_smbwrpFilelist ph s.pRes s.pConn.cli state) owns).mono
    intro answer later after
    exact ⟨leaked, spared, after.connected, after.holds⟩

end Connection

/-! All Connections of a Resource. -/

section Resource

variable {ph : Platform} {strict : Prop} {system : System} {seen : LifeSeen} {conn : Nat}
  {pConn : Connection}

def handlesOf (conns : List (Option Connection)) : List Handle :=
  conns.filterMap fun pConn => pConn.bind Connection.cli

theorem handlesOf_set {conns : List (Option Connection)}
    (present : (conns[conn]?).join = some pConn) :
    ∃ others, (handlesOf conns).Perm (pConn.cli.toList ++ others) ∧
      ∀ next : Option Connection, (handlesOf (conns.set conn next)).Perm
        ((next.bind Connection.cli).toList ++ others) := by
  have split (head : Option Connection) (rest : List (Option Connection)) :
      handlesOf (head :: rest) = (head.bind Connection.cli).toList ++ handlesOf rest := by
    cases cli : head.bind Connection.cli <;> simp [handlesOf, cli]
  induction conns generalizing conn with
  | nil => simp at present
  | cons head rest ih =>
      cases conn with
      | zero =>
          obtain rfl : head = some pConn := by simpa using present
          refine ⟨handlesOf rest, by rw [split]; rfl, fun next => ?_⟩
          rw [List.set_cons_zero, split]
      | succ conn =>
          obtain ⟨others, whole, replaced⟩ := ih (by simpa using present)
          refine ⟨(head.bind Connection.cli).toList ++ others, ?_, fun next => ?_⟩
          · rw [split]
            exact (whole.append_left _).trans (List.perm_append_comm_assoc _ _ _)
          · rw [List.set_cons_succ, split]
            exact ((replaced next).append_left _).trans (List.perm_append_comm_assoc _ _ _)

/-- Every Connection has a handle, and the open handles are those and the ones that leaked. -/
structure AllOwned (strict : Prop) (system : System) (seen : LifeSeen) : Prop where
  connected : ∀ pConn, some pConn ∈ system.conns → pConn.cli ≠ none
  holds : ∃ leaked, Spared strict leaked ∧ Holds (leaked ++ handlesOf system.conns) none seen

theorem mem_conns (present : system.connection conn = some pConn) : some pConn ∈ system.conns := by
  rw [System.connection, Option.join_eq_some_iff] at present
  exact List.mem_of_getElem? present

theorem AllOwned.borrow (owned : AllOwned strict system seen)
    (present : system.connection conn = some pConn) :
    ∃ others, OwnsLeaking strict others 0 ⟨system.pRes, pConn⟩ seen ∧
      (∀ held s later, OwnsLeaking strict others held s later →
        AllOwned strict (system.returned conn s) later) ∧
      ∀ later leaked, Spared strict leaked → Holds (leaked ++ others) none later →
        AllOwned strict (system.replaced conn none) later := by
  obtain ⟨others, whole, replaced⟩ := handlesOf_set present
  obtain ⟨leaked, spared, holds⟩ := owned.holds
  have kept {next : Option Connection} (new : ∀ pConn, next = some pConn → pConn.cli ≠ none) :
      ∀ pConn, some pConn ∈ system.conns.set conn next → pConn.cli ≠ none := by
    intro other member
    rcases List.mem_or_eq_of_mem_set member with old | same
    · exact owned.connected other old
    · exact new other same.symm
  have behind (leaked : List Handle) (next : Option Connection) :
      ((next.bind Connection.cli).toList ++ (leaked ++ others)).Perm
        (leaked ++ handlesOf (system.conns.set conn next)) :=
    (List.perm_append_comm_assoc _ _ _).trans ((replaced next).symm.append_left leaked)
  have front : (leaked ++ handlesOf system.conns).Perm (pConn.cli.toList ++ (leaked ++ others)) :=
    (whole.append_left leaked).trans (List.perm_append_comm_assoc _ _ _)
  refine ⟨others, ⟨leaked, spared, owned.connected pConn (mem_conns present), holds.perm front⟩,
    ?_, ?_⟩
  · rintro held s later ⟨leaked, spared, owns⟩
    refine ⟨kept fun other same => ?_, leaked, spared, owns.holds.perm (behind leaked (some s.pConn))⟩
    obtain rfl := Option.some.inj same
    exact owns.connected
  · intro later leaked spared holds
    exact ⟨kept (by simp), leaked, spared, holds.perm (behind leaked none)⟩

theorem AllOwned.other (owned : AllOwned strict system seen) :
    AllOwned strict system (seen.act .other) := by
  obtain ⟨leaked, spared, holds⟩ := owned.holds
  exact ⟨owned.connected, leaked, spared, holds.other⟩

theorem AllOwned.refused (owned : AllOwned strict system seen) :
    AllOwned strict system (seen.act .refused) := by
  obtain ⟨leaked, spared, holds⟩ := owned.holds
  exact ⟨owned.connected, leaked, spared, holds.refused⟩

theorem ensures_createConnection_life (owned : AllOwned strict system seen) :
    (reclaimWatch strict).Ensures (fun answer later => AllOwned strict (system.added answer.2) later)
      (ndpCreateConnection system.pRes) seen := by
  refine ensures_guarded (fun _ _ _ => owned.other) fun _ => ?_
  apply Watch.ensures_perform_bind.mpr
  intro malloced _
  split
  · exact fun _ => owned.other
  · apply Watch.ensures_perform_bind.mpr
    intro reply admitted
    cases reply with
    | refused rc => exact fun _ => owned.refused.other
    | connected cli =>
        obtain ⟨leaked, spared, holds⟩ := owned.holds
        have opened : Holds (leaked ++ handlesOf system.conns) (some cli)
            (seen.act (.opened cli)) := holds.opened admitted.1
        have added (pConn : Connection) (used : pConn.cli = some cli) :
            (leaked ++ handlesOf (system.conns ++ [some pConn])).Perm
              (cli :: (leaked ++ handlesOf system.conns)) := by
          simpa [handlesOf, used] using
            List.perm_append_singleton cli (leaked ++ handlesOf system.conns)
        intro _
        refine ⟨fun pConn member => ?_, leaked, spared, opened.other.perm (added _ rfl).symm⟩
        rcases List.mem_append.mp member with old | new
        · exact owned.connected pConn old
        · obtain rfl := Option.some.inj (List.mem_singleton.mp new)
          exact Option.some_ne_none cli

theorem ensures_smbwrpDisconnect_life {others : List Handle} {cli : Handle}
    (holds : Holds others (some cli) seen) :
    (reclaimWatch strict).Ensures (fun _ later => Holds others none later)
      (smbwrpDisconnect (some cli)) seen :=
  fun _ _ => holds.closed

theorem ensures_freeConnection_life (ph : Platform) {others : List Handle}
    (owns : Owns others 1 ⟨system.pRes, pConn⟩ seen) :
    (reclaimWatch strict).Ensures (fun _ later => Holds others none later) (freeConnection pConn)
      seen := by
  obtain ⟨cli, used, holds⟩ := owns.elim
  simp only at used
  have freed {later : LifeSeen} (after : Holds others (some cli) later) :
      (reclaimWatch strict).Ensures (fun _ latest => Holds others none latest)
        (smbwrpDisconnect pConn.cli) later := by
    rw [used]
    exact ensures_smbwrpDisconnect_life after
  unfold freeConnection
  split
  · apply Watch.ensures_bind.mpr
    apply ((kept_owns ph strict others).only (only_smbwrpClose pConn.cli pConn.file) owns).mono
    intro _ later after
    exact freed (used ▸ after.holds)
  · exact freed holds

theorem ensures_queryAllocate_life (ph : Platform) (owned : AllOwned strict system seen) :
    (reclaimWatch strict).Ensures (fun _ later => AllOwned strict system later)
      (queryAllocate system.pRes) seen := by
  apply Watch.ensures_perform_bind.mpr
  intro reply admitted
  cases reply with
  | refused rc => exact owned.refused
  | connected cli =>
      obtain ⟨leaked, spared, holds⟩ := owned.holds
      have owns : Owns (leaked ++ handlesOf system.conns) 1 ⟨system.pRes, { cli := some cli }⟩
          (seen.act (.opened cli)) := .intro rfl (holds.opened admitted.1)
      apply Watch.ensures_bind.mpr
      apply ((kept_owns ph strict _).only (only_smbwrpDskattr (some cli)) owns).mono
      intro _ later asked
      apply Watch.ensures_bind.mpr
      apply (ensures_smbwrpDisconnect_life asked.holds).mono
      intro _ latest closed
      exact ⟨owned.connected, leaked, spared, closed⟩

theorem ensures_call_life (ph : Platform) (call : Call) (owned : AllOwned strict system seen) :
    (reclaimWatch strict).Ensures (fun answer later => AllOwned strict answer.2 later)
      (system.call ph call) seen := by
  cases call with
  | createConnection =>
      apply Watch.ensures_bind.mpr
      exact (ensures_createConnection_life owned).mono fun _ _ after => after
  | freeConnection conn =>
      simp only [System.call]
      split
      · trivial
      · rename_i pConn present
        obtain ⟨others, ⟨leaked, spared, owns⟩, returned, replaced⟩ := owned.borrow present
        refine Watch.ensures_bind.mpr (ensures_guarded (fun _ _ _ => ?_) fun _ => ?_)
        · exact returned 0 ⟨system.pRes, pConn⟩ _ ⟨leaked, spared, owns.connected, owns.holds.other⟩
        · have locked : Owns (leaked ++ others) 1 ⟨system.pRes, pConn⟩ (seen.act .other) :=
            ⟨owns.connected, owns.holds.other⟩
          apply Watch.ensures_bind.mpr
          apply (ensures_freeConnection_life ph locked).mono
          intro _ later freed _
          exact replaced _ leaked spared freed.other
  | queryFSAllocate hasPfsa =>
      refine Watch.ensures_bind.mpr (ensures_guarded (fun _ _ _ => owned.other) fun _ => ?_)
      split
      · exact (ensures_queryAllocate_life ph owned.other).mono fun _ _ after _ => after.other
      · exact fun _ => owned.other.other
  | on conn ask =>
      simp only [System.call]
      split
      · trivial
      · rename_i pConn present
        obtain ⟨others, owns, returned, -⟩ := owned.borrow present
        apply Watch.ensures_bind.mpr
        apply ((keptSearching_owns ph strict others).every ask owns).mono
        rintro answer later (after | after)
        · exact returned _ _ _ after
        · exact returned _ _ _ after

theorem allOwned_reached {pRes : Resource} {history : List (Taken Op Call Int)}
    (reached : Mounted ph pRes history system)
    (admitted : (reclaimWatch strict).Admits {} (exchanges history)) :
    AllOwned strict system (lifeSeen (exchanges history)) := by
  have start : AllOwned strict { pRes } {} :=
    ⟨by simp, [], fun _ => rfl, List.Perm.refl _, List.nodup_nil, rfl⟩
  exact (reclaimWatch strict).reaches_invariant start
    (fun _ _ call owned _ => ensures_call_life ph call owned) reached admitted

/-- In every run in which a server that does not answer the echo is not connected anew, and
one that was disconnected is, the open handles are those of the Connections, one for each,
and nothing was asked of another one. -/
theorem handles_owned {pRes : Resource} {history : List (Taken Op Call Int)}
    (reached : Mounted ph pRes history system)
    (fresh : (lifeWatch Fresh).Admits {} (exchanges history))
    (repaired : (lifeWatch Repaired).Admits {} (exchanges history)) :
    (lifeSeen (exchanges history)).live.Perm (handlesOf system.conns) ∧
      (handlesOf system.conns).Nodup ∧
      (∀ pConn, some pConn ∈ system.conns → pConn.cli ≠ none) ∧
      (lifeSeen (exchanges history)).misused = false := by
  have admitted : (reclaimWatch True).Admits {} (exchanges history) := by
    apply admits_lifeWatch_imp _ (admits_lifeWatch_and fresh repaired)
    rintro seen action ⟨new, kept⟩
    exact ⟨new, kept.reclaimed, fun _ => kept⟩
  obtain ⟨connected, leaked, spared, holds⟩ := allOwned_reached reached admitted
  obtain rfl := spared trivial
  have live : (lifeSeen (exchanges history)).live.Perm (handlesOf system.conns) := holds.live
  exact ⟨live, live.nodup_iff.mp holds.distinct, connected, holds.careful⟩

end Resource

def oneShare : Resource := { rootlevel := 3 }

def opening (cli : Handle) (echo : Bool) : (R : Type) → Op R → R
  | _, .smbwrpConnect .. => .connected cli
  | _, .request _ .cliEcho => echo
  | _, op => op.usual

def oneConnection (cli : Handle) : System :=
  { pRes := oneShare, conns := [some { cli := some cli, file := { fd := -1 } }] }

def connectTrace : List CallEvent :=
  (exec (fun _ => opening 0 true) 0 (System.call asciiPlatform { pRes := oneShare } .createConnection)).1

def connectHistory : List (Taken Op Call Int) := [⟨.createConnection, connectTrace, 0⟩]

theorem reaches_oneConnection : Mounted asciiPlatform oneShare connectHistory (oneConnection 0) := by
  have mounted : Mounted asciiPlatform oneShare [] { pRes := oneShare } := .start
  exact mounted.executed (fun _ => opening 0 true) .createConnection 0 (oneConnection 0) trivial
    (by decide)

def renewing : (R : Type) → Op R → R
  | _, .smbwrpConnect .. => .connected 1
  | _, .request 0 .cliErrno => 57
  | _, .request 1 (.cliQpathinfo2 _) =>
      some { attr := 0, size := 0, btime := 0, atime := 0, mtime := 0, ctime := 0 }
  | _, op => op.usual

def serverShare : Resource :=
  { oneShare with srv := { serverName := bytes "S", shareName := bytes "D" } }

def serverConnection (cli : Handle) : System := { oneConnection cli with pRes := serverShare }

theorem handles_owned_renewed :
    ∃ history : List (Taken Op Call Int), history.map Taken.label =
        [.createConnection, .on 0 (.queryPathInfo (bytes "\\F"))] ∧
      (lifeSeen (exchanges history)).live.Perm (handlesOf (serverConnection 1).conns) ∧
      (handlesOf (serverConnection 1).conns).Nodup ∧
      (∀ pConn, some pConn ∈ (serverConnection 1).conns → pConn.cli ≠ none) ∧
      (lifeSeen (exchanges history)).misused = false := by
  have mounted : Mounted asciiPlatform serverShare [] { pRes := serverShare } := .start
  have created := mounted.executed (fun _ => opening 0 true) .createConnection noError
    (serverConnection 0) trivial (by decide)
  have renewed := created.executed (fun _ => renewing) (.on 0 (.queryPathInfo (bytes "\\F"))) noError
    (serverConnection 1) trivial (by decide)
  exact ⟨_, rfl, handles_owned renewed (by decide) (by decide)⟩

/-- The server is connected anew, and the handle that did not answer stays open. -/
theorem queryPathInfo_leaks_handle :
    ∃ history, Mounted asciiPlatform oneShare history (oneConnection 1) ∧
      (lifeWatch Fresh).Admits {} (exchanges history) ∧
      ¬ (lifeSeen (exchanges history)).live.Perm (handlesOf (oneConnection 1).conns) := by
  have lost := reaches_oneConnection.executed (fun _ => opening 1 false)
    (.on 0 (.queryPathInfo (bytes "\\F"))) noError (oneConnection 1) trivial (by decide)
  exact ⟨_, lost, by decide, by decide⟩

end NdpSmb
