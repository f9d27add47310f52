import NdpSmb.CallRule

/-!
The mutex of the plugin over one call of an entry point: how often it is held at the
end, and which answers make a call return while it still holds it.
-/

namespace NdpSmb

open ByteString Interaction

inductive EntryPoint
  | pluginLoad
  | pluginFree
  | mountResource
  | freeResource (pRes : Resource)
  | rsrcCompare (pRes pRes2 : Resource)
  | rsrcUpdate
  | rsrcQueryInfo (ifL : Bool) (pRes : Resource) (insize : Nat)
  | rsrcQueryFSAttach (ifL : Bool) (pRes : Resource) (insize : Nat)
  | rsrcQueryFSAllocate (pRes : Resource) (hasPfsa : Bool)
  | createConnection (pRes : Resource)
  | freeConnection (pConn : Connection)
  | deletePathInfo
  | discardResourceData
  | flush
  | ioctl (function : UInt32) (input : Option CString) (insize outlen : UInt32)
  | session (s : Session) (call : SessionCall)

def EntryPoint.run (ph : Platform) : EntryPoint → Program Int
  | .pluginLoad => ndpPluginLoad
  | .pluginFree => ndpPluginFree
  | .mountResource => Prod.fst <$> ndpMountResource
  | .freeResource pRes => ndpFreeResource pRes
  | .rsrcCompare pRes pRes2 => pure (ndpRsrcCompare ph pRes pRes2)
  | .rsrcUpdate => ndpRsrcUpdate
  | .rsrcQueryInfo ifL pRes insize => Prod.fst <$> ndpRsrcQueryInfo ifL pRes insize
  | .rsrcQueryFSAttach ifL pRes insize => Prod.fst <$> ndpRsrcQueryFSAttach ifL pRes insize
  | .rsrcQueryFSAllocate pRes hasPfsa => Prod.fst <$> ndpRsrcQueryFSAllocate pRes hasPfsa
  | .createConnection pRes => Prod.fst <$> ndpCreateConnection pRes
  | .freeConnection pConn => Prod.fst <$> ndpFreeConnection pConn
  | .deletePathInfo => ndpDeletePathInfo
  | .discardResourceData => ndpDiscardResourceData
  | .flush => ndpFlush
  | .ioctl function input insize outlen => Prod.fst <$> ndpIOCTL function input insize outlen
  | .session s call => Prod.fst <$> call.run ph s

/-- `held` counts from the entry, and is `none` once the mutex has been released more
often than it was taken. `refusal` is the place, among the attempts to connect, of one that
was refused and did not directly follow a shutdown. -/
structure LockSeen where
  held : Option Nat := some 0
  attempts : Nat := 0
  afterShutdown : Bool := false
  refusal : Option Nat := none
  deriving DecidableEq

inductive LockAction
  | requested (rcLock : Int)
  | released
  | connected (ok : Bool)
  | shutdown
  | other
  deriving DecidableEq

def accepted : ConnectReply → Bool
  | .connected _ => true
  | .refused _ => false

def lockAction : CallEvent → LockAction
  | ⟨.fsphRequestMutex, rcLock⟩ => .requested rcLock
  | ⟨.fsphReleaseMutex, _⟩ => .released
  | ⟨.smbwrpConnect .., reply⟩ => .connected (accepted reply)
  | ⟨.cliShutdown _, _⟩ => .shutdown
  | _ => .other

def takeOnce (held : Option Nat) (rcLock : Int) : Option Nat :=
  if rcLock = 0 then held.map (· + 1) else held

def releaseOnce : Option Nat → Option Nat
  | some (held + 1) => some held
  | _ => none

def LockSeen.act (seen : LockSeen) : LockAction → LockSeen
  | .requested rcLock => { seen with held := takeOnce seen.held rcLock, afterShutdown := false }
  | .released => { seen with held := releaseOnce seen.held, afterShutdown := false }
  | .connected ok =>
      { seen with
        attempts := seen.attempts + 1, afterShutdown := false
        refusal := if ok ∨ seen.afterShutdown then seen.refusal else some (seen.attempts + 1) }
  | .shutdown => { seen with afterShutdown := true }
  | .other => { seen with afterShutdown := false }

def lockWatch : Watch Op LockSeen where
  observe seen event := seen.act (lockAction event)
  admits _ event := Granted event

def lockSeen (trace : List CallEvent) : LockSeen := lockWatch.after {} trace

/-- The mutex is held as often as before the call, and was never released more often. -/
def Balanced (trace : List CallEvent) : Prop := (lockSeen trace).held = some 0

instance (trace : List CallEvent) : Decidable (Balanced trace) :=
  inferInstanceAs (Decidable (_ = _))

def switches (ph : Platform) (s : Session) (szPath : CString) : Bool :=
  !iftestpath szPath && ((parsePath ph s.pRes szPath).map ParsedPath.newlevel).getD false

/-- The answers that make a call return with the mutex held: a refused connection that is
not the one in the place of a lost connection, nor, for `NdpQueryPathInfo`, the one that
`pathparser` asks for. -/
def Strands (ph : Platform) (trace : List CallEvent) : EntryPoint → Prop
  | .session s (.queryPathInfo szPath) => ∃ place, (lockSeen trace).refusal = some place ∧
      ¬ (switches ph s szPath = true ∧ place = 1)
  | .session _ (.findStart ..) => (lockSeen trace).refusal ≠ none
  | _ => False

/-! Calls that do not search. -/

theorem Op.Lists.unlocked {cli : Option Handle} {R : Type} {op : Op R} (served : Op.Lists cli R op)
    (reply : R) : lockAction ⟨op, reply⟩ = .other := by
  cases op <;> first | rfl | exact absurd served id

def Op.Unlocking (R : Type) (op : Op R) : Prop := ∀ reply seen,
  (LockSeen.act seen (lockAction ⟨op, reply⟩)).held = seen.held

theorem ensures_unlocking {α : Type} {program : Program α} {seen : LockSeen}
    (unlocking : program.Only Op.Unlocking) :
    lockWatch.Ensures (fun _ later => later.held = seen.held) program seen := by
  induction program generalizing seen with
  | ret value => rfl
  | call op next ih =>
      refine fun reply _ => (ih reply (unlocking.2 reply)).mono fun _ later same => ?_
      exact same.trans (unlocking.1 reply seen)
  | fault => trivial

theorem Op.Lists.unlocking {cli : Option Handle} {R : Type} {op : Op R}
    (served : Op.Lists cli R op) : Op.Unlocking R op := by
  intro reply seen
  rw [served.unlocked reply]
  rfl

theorem unlocking_smbwrpDisconnect (cli : Option Handle) :
    (smbwrpDisconnect cli).Only Op.Unlocking :=
  only_smbwrpDisconnect cli fun _ _ _ => rfl

theorem unlocking_pathparser (ph : Platform) (s : Session) (szPath : CString) :
    (pathparser ph s szPath).Only Op.Unlocking := by
  apply only_pathparser
  · exact fun _ _ _ _ _ _ => rfl
  · exact fun _ _ _ => rfl

def HeldOnly (held : Nat) (_ : Session) (seen : LockSeen) : Prop := seen.held = some held

theorem kept_held (ph : Platform) : Kept ph lockWatch HeldOnly where
  crash _ := trivial
  served holds served _ _ := (served.lists.unlocking _ _).trans holds
  locked holds _ := by
    change takeOnce _ 0 = _
    rw [HeldOnly] at holds
    simp [takeOnce, holds]
  denied holds failed granted := absurd (granted_requestMutex.mp granted) failed
  released holds _ := by
    change releaseOnce _ = _
    rw [HeldOnly] at holds
    simp [releaseOnce, holds]
  parsed szPath holds :=
    (ensures_unlocking (unlocking_pathparser ph _ szPath)).mono fun _ _ same => same.trans holds
  invalidated _ holds := holds
  filed _ holds := holds

section Search

variable {α : Type} {ph : Platform} {s : Session} {szPath : CString} {seen : LockSeen}

structure LockSeen.Unrefused (seen : LockSeen) : Prop where
  held : seen.held = some 1
  unrefused : seen.refusal = none

structure LockSeen.Parsed (attempts : Nat) (s : Session) (seen : LockSeen) : Prop
    extends seen.Unrefused where
  counted : seen.attempts = attempts
  settled : seen.afterShutdown = true → s.pConn.cli ≠ none

structure LockSeen.Refused (place : Nat) (seen : LockSeen) : Prop where
  held : seen.held = some 1
  refused : seen.refusal = some place

theorem LockSeen.Unrefused.released (unrefused : seen.Unrefused) :
    (seen.act .released).held = some 0 ∧ (seen.act .released).refusal = none := by
  simp [LockSeen.act, releaseOnce, unrefused.held, unrefused.unrefused]

theorem ensures_unrefused {cli : Option Handle} {program : Program α}
    (served : program.Only (Op.Lists cli)) (unrefused : seen.Unrefused) :
    lockWatch.Ensures (fun _ later => later.Unrefused) program seen := by
  induction program generalizing seen with
  | ret value => exact unrefused
  | call op next ih =>
      refine fun reply _ => ih reply (served.2 reply) ?_
      change (seen.act (lockAction ⟨op, reply⟩)).Unrefused
      rw [served.1.unlocked reply]
      exact ⟨unrefused.held, unrefused.unrefused⟩
  | fault => trivial

theorem ensures_pathparser (unrefused : seen.Unrefused) (untried : seen.attempts = 0)
    (calm : seen.afterShutdown = false) :
    lockWatch.Ensures
      (fun answer later =>
        (answer.1 = 0 ∧ later.Parsed (switches ph s szPath).toNat answer.2.1) ∨
        (answer.1 ≠ 0 ∧ switches ph s szPath = true ∧ later.Refused 1))
      (pathparser ph s szPath) seen := by
  have kept : seen.Parsed 0 s := ⟨unrefused, untried, by simp [calm]⟩
  unfold pathparser
  split
  · rename_i probe
    exact .inl ⟨rfl, by simpa [switches, probe] using kept⟩
  · rename_i path
    split
    · trivial
    · rename_i parsed found
      split
      · rename_i newlevel
        have switching : switches ph s szPath = true := by simp [switches, path, found, newlevel]
        refine Watch.ensures_bind.mpr (Watch.ensures_perform_bind.mpr fun reply _ => ?_)
        cases reply with
        | refused rc =>
            refine ensures_finishPath (fun _ => trivial) fun _ => .inr ⟨rc.2, switching, unrefused.held, ?_⟩
            change (seen.act (.connected false)).refusal = _
            simp [LockSeen.act, calm, untried]
        | connected cli =>
            simp only [switching, Bool.toNat_true]
            have opened : (seen.act (.connected true)).Unrefused :=
              ⟨unrefused.held, by simpa [LockSeen.act] using unrefused.unrefused⟩
            have counted : (seen.act (.connected true)).attempts = 1 := by
              simp [LockSeen.act, untried]
            cases old : s.pConn.cli with
            | none =>
                refine ensures_finishPath (fun _ => trivial) fun _ => .inl ⟨rfl, opened, counted, ?_⟩
                simp
            | some used =>
                intro _ _
                refine ensures_finishPath (fun _ => trivial) fun _ => .inl ⟨rfl, ?_, counted, ?_⟩
                · exact ⟨opened.held, opened.unrefused⟩
                · simp
      · rename_i same
        refine ensures_finishPath (fun _ => trivial) fun _ => .inl ⟨rfl, ?_⟩
        simpa [switches, found, same] using kept

theorem ensures_reconnect {attempts : Nat} (unrefused : seen.Unrefused)
    (counted : seen.attempts = attempts) (calm : seen.afterShutdown = false) :
    lockWatch.Ensures
      (fun answer later =>
        (answer.1 = 0 ∧ later.Unrefused ∧ answer.2.pConn.cli ≠ none) ∨
        (answer.1 ≠ 0 ∧ later.Refused (attempts + 1)))
      (reconnect s) seen := by
  refine Watch.ensures_perform_bind.mpr fun reply _ => ?_
  cases reply with
  | refused rc =>
      refine .inr ⟨rc.2, unrefused.held, ?_⟩
      change (seen.act (.connected false)).refusal = _
      simp [LockSeen.act, calm, counted]
  | connected cli =>
      refine .inl ⟨rfl, ⟨unrefused.held, ?_⟩, by simp⟩
      change (seen.act (.connected true)).refusal = _
      simpa [LockSeen.act] using unrefused.unrefused

theorem ensures_revive {attempts : Nat} (parsed : seen.Parsed attempts s) :
    lockWatch.Ensures
      (fun answer later =>
        (answer.1 = 0 ∧ later.Unrefused ∧ answer.2.pConn.cli ≠ none) ∨
        (answer.1 ≠ 0 ∧ later.Refused (attempts + 1)))
      (revive s) seen := by
  cases used : s.pConn.cli with
  | none =>
      have calm : seen.afterShutdown = false :=
        Bool.eq_false_iff.mpr fun shut => parsed.settled shut used
      have failed : maperror einval ≠ 0 := by decide
      simp only [revive, used, smbwrpEcho, Prog.pure_eq, Prog.ret_bind, if_pos failed]
      exact ensures_reconnect parsed.toUnrefused parsed.counted calm
  | some cli =>
      simp only [revive, used, smbwrpEcho]
      refine Watch.ensures_bind.mpr (Watch.ensures_perform_bind.mpr fun ok _ => ?_)
      have after : (seen.act .other).Unrefused :=
        ⟨parsed.held, parsed.unrefused⟩
      cases ok with
      | true => exact .inl ⟨rfl, after, by simp [used]⟩
      | false => exact ensures_reconnect after parsed.counted rfl

theorem ensures_renew (unrefused : seen.Unrefused) (present : s.pConn.cli ≠ none) :
    lockWatch.Ensures (fun _ later => later.Unrefused) (renew s) seen := by
  obtain ⟨cli, used⟩ := Option.ne_none_iff_exists'.mp present
  simp only [renew, used, smbwrpDisconnect]
  refine Watch.ensures_perform_bind.mpr fun _ _ => Watch.ensures_perform_bind.mpr fun reply _ => ?_
  have after (ok : Bool) : ((seen.act .shutdown).act (.connected ok)).Unrefused :=
    ⟨unrefused.held, by simpa [LockSeen.act] using unrefused.unrefused⟩
  cases reply with
  | refused rc => exact after false
  | connected cli => exact after true

theorem ensures_leave {answer : α} {post : α → LockSeen → Prop}
    (released : post answer (seen.act .released)) :
    lockWatch.Ensures post (do leave; pure answer) seen :=
  fun _ _ => released

theorem ensures_queryAlive_lock (finfo : SmbwrpFileinfo) (unrefused : seen.Unrefused)
    (present : s.pConn.cli ≠ none) :
    lockWatch.Ensures (fun _ later => later.Unrefused) (queryAlive ph s finfo) seen := by
  have getattr (s : Session) (finfo : SmbwrpFileinfo) :
      (smbwrpGetattr s.pRes.srv s.pConn.cli finfo).Only (Op.Lists s.pConn.cli) :=
    (only_smbwrpGetattr _ _ _).mono fun _ _ => Op.ServedBy.lists
  have retried (finfo : SmbwrpFileinfo) (rc : Int) {seen : LockSeen} (first : seen.Unrefused) :
      lockWatch.Ensures (fun _ later => later.Unrefused) (retryGetattr s finfo rc) seen := by
    unfold retryGetattr
    split
    · apply (Watch.ensures_bind.mp (ensures_renew first present)).bind
      intro _ later renewed
      apply renewed.bind
      rintro ⟨rcCon, s⟩ latest after
      simp only
      split
      · apply (ensures_unrefused (getattr _ _) after).bind
        intro _ _ last
        exact last
      · exact after
    · exact first
  apply (ensures_unrefused (getattr _ _) unrefused).bind
  rintro ⟨rc, first⟩ later asked
  apply (retried first rc asked).bind
  rintro ⟨rc, s, second⟩ latest after
  simp only
  split
  · have given : (giveFileinfo ph s second).Only (Op.Lists s.pConn.cli) :=
      (only_giveFileinfo ph s second _).mono fun _ _ => Op.ServedBy.lists
    apply (ensures_unrefused given after).bind
    intro _ _ last
    exact last
  · split
    · have upper : (upperPath s second).Only (Op.Lists s.pConn.cli) := by
        unfold upperPath
        split
        · trivial
        · split
          · trivial
          · refine (getattr _ _).bind fun answer => ?_
            simp only
            split <;> trivial
      apply (ensures_unrefused upper after).bind
      intro _ _ last
      exact last
    · exact after

def QuerySettled (ph : Platform) (s : Session) (szPath : CString) (later : LockSeen) : Prop :=
  later.held = some 0 ↔
    ¬ ∃ place, later.refusal = some place ∧ ¬ (switches ph s szPath = true ∧ place = 1)

theorem querySettled_unrefused (unrefused : seen.Unrefused) :
    QuerySettled ph s szPath (seen.act .released) := by
  simp [QuerySettled, unrefused.released]

theorem ensures_queryNetwork_lock {finfo : SmbwrpFileinfo} (unrefused : seen.Unrefused)
    (untried : seen.attempts = 0) (calm : seen.afterShutdown = false) :
    lockWatch.Ensures (fun _ later => QuerySettled ph s szPath later)
      (queryNetwork ph s szPath finfo) seen := by
  apply (ensures_pathparser unrefused untried calm).bind
  rintro ⟨rc, t, path⟩ later (⟨rfl, parsed⟩ | ⟨failed, switching, refused⟩)
  · simp only
    rw [if_neg (show ¬ parserRc 0 ≠ 0 by decide)]
    split
    · trivial
    · rw [queryServer_eq]
      apply (ensures_revive parsed).bind
      rintro ⟨rcCon, t⟩ latest (⟨rfl, alive, present⟩ | ⟨failed, refused⟩)
      · simp only
        rw [if_neg (not_not.mpr rfl)]
        apply (ensures_queryAlive_lock _ alive present).bind
        intro answer last after
        exact ensures_leave (querySettled_unrefused after)
      · simp only
        rw [if_pos failed]
        simp [QuerySettled, refused.held, refused.refused]
  · have failedRc : parserRc rc ≠ 0 := by
      unfold parserRc
      split
      · exact failed
      · decide
    simp only
    rw [if_pos failedRc]
    refine ensures_leave ?_
    have released : (later.act .released).held = some 0 := by
      simp [LockSeen.act, releaseOnce, refused.held]
    have place : (later.act .released).refusal = some 1 := refused.refused
    simp [QuerySettled, released, place, switching]

theorem ensures_ndpQueryPathInfo_lock :
    lockWatch.Ensures (fun _ later => QuerySettled ph s szPath later)
      (ndpQueryPathInfo ph s szPath) {} := by
  refine ensures_enter (fun rcLock failed granted => ?_) fun _ => ?_
  · exact absurd (granted_requestMutex.mp granted) failed
  · have inside : (LockSeen.act {} (.requested 0)).Unrefused := ⟨rfl, rfl⟩
    change lockWatch.Ensures _ _ (LockSeen.act {} (.requested 0))
    split
    · exact ensures_leave (querySettled_unrefused inside)
    · have found : lockWatch.Ensures
          (fun _ later => later = LockSeen.act {} (.requested 0)) (dircacheFindPath ph s.pRes.pdc szPath)
          (LockSeen.act {} (.requested 0)) := by
        refine Watch.ensures_of_only (only_dircacheFindPath none ph s.pRes.pdc szPath)
          (fun R op reply served => ?_) trivial fun _ => rfl
        change LockSeen.act _ (lockAction ⟨op, reply⟩) = _
        rw [served.unlocked reply]
        rfl
      apply found.bind
      rintro (_ | ⟨finfo, ulAge⟩) _ rfl
      · exact fun finfo _ => ensures_queryNetwork_lock inside rfl rfl
      · simp only
        split
        · have given : (giveFileinfo ph s finfo).Only (Op.Lists s.pConn.cli) :=
            (only_giveFileinfo ph s finfo _).mono fun _ _ => Op.ServedBy.lists
          apply (ensures_unrefused given inside).bind
          intro _ later after
          exact ensures_leave (querySettled_unrefused after)
        · exact ensures_queryNetwork_lock inside rfl rfl

def FindSettled (later : LockSeen) : Prop := later.held = some 0 ↔ later.refusal = none

theorem LockSeen.Refused.findSettled {place : Nat} (refused : seen.Refused place) :
    FindSettled seen := by
  simp [FindSettled, refused.held, refused.refused]

theorem findSettled_unrefused (unrefused : seen.Unrefused) : FindSettled (seen.act .released) := by
  simp [FindSettled, unrefused.released]

theorem ensures_filelistOn (state : FilelistState) (unrefused : seen.Unrefused) :
    lockWatch.Ensures
      (fun answer later => later.Unrefused ∧ answer.2.pConn = s.pConn) (filelistOn ph s state)
      seen := by
  apply (ensures_unrefused (only_smbwrpFilelist ph s.pRes s.pConn.cli state)
    unrefused).bind
  exact fun answer later after => ⟨after, rfl⟩

theorem ensures_findAlive_lock (state : FilelistState) (unrefused : seen.Unrefused)
    (present : s.pConn.cli ≠ none) :
    lockWatch.Ensures (fun _ later => FindSettled later) (findAlive ph s state) seen := by
  apply (ensures_filelistOn state unrefused).bind
  rintro ⟨rc, t⟩ later ⟨first, same⟩
  simp only
  split
  · have stillPresent : t.pConn.cli ≠ none := by
      rw [show t.pConn = s.pConn from same]
      exact present
    apply (Watch.ensures_bind.mp (ensures_renew first stillPresent)).bind
    intro _ latest renewed
    apply renewed.bind
    rintro ⟨_, t⟩ _ alive
    apply (ensures_filelistOn state alive).bind
    exact fun answer last after => ensures_leave (findSettled_unrefused after.1)
  · exact ensures_leave (findSettled_unrefused first)

theorem ensures_ndpFindStart_lock (ulAttribute : UInt32) :
    lockWatch.Ensures (fun _ later => FindSettled later) (ndpFindStart ph s szPath ulAttribute)
      {} := by
  refine Watch.ensures_perform_bind.mpr fun pel _ => ?_
  change lockWatch.Ensures _ _ {}
  refine ensures_enter (fun rcLock failed granted => ?_) fun _ => ?_
  · exact absurd (granted_requestMutex.mp granted) failed
  · have inside : (LockSeen.act {} (.requested 0)).Unrefused := ⟨rfl, rfl⟩
    change lockWatch.Ensures _ _ (LockSeen.act {} (.requested 0))
    split
    · trivial
    · apply (ensures_pathparser inside rfl rfl).bind
      rintro ⟨rc, t, path⟩ later (⟨rfl, parsed⟩ | ⟨failed, -, refused⟩)
      · simp only
        rw [if_neg (not_not.mpr rfl)]
        split
        · trivial
        · rw [findServer_eq]
          apply (ensures_revive parsed).bind
          rintro ⟨rcCon, t⟩ latest (⟨rfl, alive, present⟩ | ⟨failed, refused⟩)
          · simp only
            rw [if_neg (not_not.mpr rfl)]
            exact ensures_findAlive_lock _ alive present
          · simp only
            rw [if_pos failed]
            exact refused.findSettled
      · simp only
        rw [if_pos failed]
        exact refused.findSettled

end Search

/-! The entry points that have no Connection. -/

section Resources

variable {α : Type} {pRes : Resource}

theorem ensures_guarded_unlocking {refused : Int → α} {work : Program α}
    (unlocking : work.Only Op.Unlocking) :
    lockWatch.Ensures (fun _ later => later.held = some 0) (guarded refused work) {} := by
  refine ensures_guarded (fun rcLock failed granted => ?_) fun _ => ?_
  · exact absurd (granted_requestMutex.mp granted) failed
  · refine (ensures_unlocking unlocking).mono fun _ later same _ => ?_
    change releaseOnce later.held = _
    rw [same]
    rfl

theorem Op.ServedBy.unlocking {cli : Option Handle} {R : Type} {op : Op R}
    (served : Op.ServedBy cli R op) : Op.Unlocking R op :=
  served.lists.unlocking

theorem unlocking_queryString (name : CString) : (queryString name).Only Op.Unlocking := by
  refine Prog.only_perform_bind.mpr ⟨fun _ _ => rfl, fun reply => ?_⟩
  simp only
  split
  · trivial
  · split
    · trivial
    · split <;> trivial

theorem unlocking_named {name : CString} {follow : Option CString → Program Resource}
    (after : ∀ q, (follow q).Only Op.Unlocking) :
    (queryString name >>= follow).Only Op.Unlocking :=
  (unlocking_queryString name).bind after

theorem unlocking_withUlong (name : CString) (largest : UInt32)
    (set : Resource → UInt32 → Resource) :
    (withUlong name largest set pRes).Only Op.Unlocking := by
  refine Prog.Only.bind ?_ ?_
  · refine Prog.only_perform_bind.mpr ⟨fun _ _ => rfl, fun reply => ?_⟩
    simp only
    split
    · trivial
    · split <;> trivial
  · rintro ⟨rc, _ | t⟩ <;> trivial

theorem unlocking_toSpassword : (toSpassword pRes).Only Op.Unlocking :=
  ⟨fun _ _ => rfl, fun _ => ⟨fun _ _ => rfl, fun _ => trivial⟩⟩

theorem unlocking_fromSpassword (q : CString) : (fromSpassword pRes q).Only Op.Unlocking := by
  unfold fromSpassword
  split
  · trivial
  · split
    · trivial
    · exact ⟨fun _ _ => rfl, fun _ => trivial⟩

theorem unlocking_withSpassword (defaultPassword : Bool) :
    (withSpassword pRes defaultPassword).Only Op.Unlocking := by
  refine Prog.only_perform_bind.mpr ⟨fun _ _ => rfl, fun reply => ?_⟩
  simp only
  split
  · exact unlocking_toSpassword
  · split
    · trivial
    · split
      · exact unlocking_fromSpassword _
      · exact unlocking_toSpassword

theorem unlocking_initNames : (initNames pRes).Only Op.Unlocking := by
  refine Prog.Only.bind (unlocking_named ?_) fun _ => ?_
  · rintro (_ | _) <;> trivial
  refine Prog.Only.bind (unlocking_named ?_) fun _ => ?_
  · rintro (_ | _) <;> trivial
  refine Prog.Only.bind (unlocking_named ?_) fun _ => ?_
  · rintro (_ | _) <;> trivial
  refine Prog.Only.bind (unlocking_named ?_) fun _ => ?_
  · rintro (_ | _) <;> trivial
  refine Prog.Only.bind (unlocking_named ?_) fun _ => unlocking_named ?_
  · rintro (_ | _) <;> exact unlocking_withSpassword _
  · rintro (_ | _) <;> trivial

theorem unlocking_initOptions : (initOptions pRes).Only Op.Unlocking := by
  refine (unlocking_withUlong _ _ _).bind fun _ => ?_
  refine (unlocking_withUlong _ _ _).bind fun _ => ?_
  refine (unlocking_withUlong _ _ _).bind fun _ => ?_
  refine (unlocking_withUlong _ _ _).bind fun _ => ?_
  refine (unlocking_withUlong _ _ _).bind fun _ => ?_
  exact (unlocking_withUlong _ _ _).bind fun _ => unlocking_withUlong _ _ _

theorem unlocking_dircacheCreate (ulExpirationTime : UInt32) (cMaxEntries : Nat) :
    (dircacheCreate ulExpirationTime cMaxEntries).Only Op.Unlocking := by
  refine Prog.only_perform_bind.mpr ⟨fun _ _ => rfl, fun pdc => ?_⟩
  split
  · trivial
  · refine Prog.only_perform_bind.mpr ⟨fun _ _ => rfl, fun rc => ?_⟩
    split <;> trivial

theorem unlocking_initResource : initResource.Only Op.Unlocking := by
  refine unlocking_initNames.bind fun _ => unlocking_initOptions.bind fun options => ?_
  exact (unlocking_dircacheCreate _ _).bind fun _ => trivial

theorem unlocking_checkMountResource : (checkMountResource pRes).Only Op.Unlocking := by
  refine Prog.only_perform_bind.mpr ⟨fun _ _ => rfl, fun _ => ?_⟩
  refine Prog.only_perform_bind.mpr ⟨fun _ _ => rfl, fun reply => ?_⟩
  cases reply with
  | refused rc => trivial
  | connected cli => exact (unlocking_smbwrpDisconnect _).bind fun _ => trivial

theorem unlocking_mount : mount.Only Op.Unlocking := by
  refine Prog.only_perform_bind.mpr ⟨fun _ _ => rfl, fun malloced => ?_⟩
  split
  · trivial
  · refine unlocking_initResource.bind ?_
    rintro ⟨rc, pRes⟩
    refine Prog.Only.bind ?_ fun _ => trivial
    unfold checkOffMain
    split
    · trivial
    · refine Prog.only_perform_bind.mpr ⟨fun _ _ => rfl, fun tid => ?_⟩
      split
      · exact unlocking_checkMountResource
      · trivial

theorem unlocking_queryAllocate : (queryAllocate pRes).Only Op.Unlocking := by
  refine Prog.only_perform_bind.mpr ⟨fun _ _ => rfl, fun reply => ?_⟩
  cases reply with
  | refused rc => trivial
  | connected cli =>
      refine ((only_smbwrpDskattr (some cli)).mono fun _ _ => Op.ServedBy.unlocking).bind fun _ => ?_
      exact (unlocking_smbwrpDisconnect _).bind fun _ => trivial

theorem unlocking_createConnection : (createConnection pRes).Only Op.Unlocking := by
  refine Prog.only_perform_bind.mpr ⟨fun _ _ => rfl, fun malloced => ?_⟩
  split
  · trivial
  · refine Prog.only_perform_bind.mpr ⟨fun _ _ => rfl, fun reply => ?_⟩
    cases reply <;> trivial

theorem unlocking_freeConnection (pConn : Connection) :
    (freeConnection pConn).Only Op.Unlocking := by
  unfold freeConnection
  split
  · refine ((only_smbwrpClose pConn.cli pConn.file).mono fun _ _ => Op.ServedBy.unlocking).bind ?_
    exact fun _ => unlocking_smbwrpDisconnect _
  · exact unlocking_smbwrpDisconnect _

theorem unlocking_ndpRsrcQueryInfo (ifL : Bool) (insize : Nat) :
    (ndpRsrcQueryInfo ifL pRes insize).Only Op.Unlocking := by
  simp only [ndpRsrcQueryInfo]
  split <;> trivial

theorem unlocking_ndpIOCTL (function : UInt32) (input : Option CString)
    (insize outlen : UInt32) : (ndpIOCTL function input insize outlen).Only Op.Unlocking := by
  unfold ndpIOCTL
  apply Prog.Only.ite
  · trivial
  · cases input with
    | none => trivial
    | some input =>
        simp only
        -- the length of the text is not to be computed
        generalize ioctlText function input insize outlen = text
        exact .ite trivial (.ite trivial trivial)

end Resources

theorem ensures_free {α : Type} {program : Program α} (unlocking : program.Only Op.Unlocking) :
    lockWatch.Ensures (fun _ later => later.held = some 0) program {} :=
  (ensures_unlocking unlocking).mono fun _ _ held => held

def EntryPoint.Leaves (ph : Platform) (later : LockSeen) : EntryPoint → Prop
  | .session s (.queryPathInfo szPath) => QuerySettled ph s szPath later
  | .session _ (.findStart ..) => FindSettled later
  | _ => later.held = some 0

theorem ensures_leaves (ph : Platform) (entry : EntryPoint) :
    lockWatch.Ensures (fun _ later => entry.Leaves ph later) (entry.run ph) {} := by
  cases entry with
  | pluginLoad => exact fun _ _ => rfl
  | pluginFree => exact fun _ _ => rfl
  | mountResource => exact Watch.ensures_map.mpr (ensures_guarded_unlocking unlocking_mount)
  | freeResource pRes =>
      refine ensures_guarded_unlocking (Prog.Only.bind ?_ fun _ => trivial)
      unfold dircacheDelete
      split
      · trivial
      · exact ⟨fun _ _ => rfl, fun _ => trivial⟩
  | rsrcQueryInfo ifL pRes insize =>
      exact Watch.ensures_map.mpr (ensures_free (unlocking_ndpRsrcQueryInfo ifL insize))
  | rsrcQueryFSAttach ifL pRes insize =>
      exact Watch.ensures_map.mpr (ensures_free (unlocking_ndpRsrcQueryInfo ifL insize))
  | rsrcQueryFSAllocate pRes hasPfsa =>
      refine Watch.ensures_map.mpr (ensures_guarded_unlocking ?_)
      split
      · exact unlocking_queryAllocate
      · trivial
  | createConnection pRes =>
      exact Watch.ensures_map.mpr (ensures_guarded_unlocking unlocking_createConnection)
  | freeConnection pConn =>
      exact Watch.ensures_map.mpr (ensures_guarded_unlocking
        ((unlocking_freeConnection pConn).bind fun _ => trivial))
  | ioctl function input insize outlen =>
      exact Watch.ensures_map.mpr (ensures_free (unlocking_ndpIOCTL _ _ _ _))
  | rsrcCompare | rsrcUpdate | deletePathInfo | discardResourceData | flush => rfl
  | session s call =>
      refine Watch.ensures_map.mpr ?_
      cases searching : call.searches with
      | false =>
          have start : HeldOnly 0 s {} := rfl
          refine ((kept_held ph).plain call searching start).mono ?_
          intro answer later held
          cases call with
          | queryPathInfo | findStart => simp [SessionCall.searches] at searching
          | _ => exact held
      | true =>
          cases call with
          | queryPathInfo szPath => exact ensures_ndpQueryPathInfo_lock
          | findStart szPath ulAttribute => exact ensures_ndpFindStart_lock ulAttribute
          | _ => simp [SessionCall.searches] at searching

/-- A call gives the mutex back exactly as often as it takes it, but for the exits of the
two calls that search without `LEAVE`: a path that cannot be parsed, and a server that
cannot be connected anew after its echo has failed. -/
theorem lockBalance_iff (ph : Platform) (entry : EntryPoint) {trace : List CallEvent} {rc : Int}
    (run : Run (entry.run ph) trace (some rc)) (granted : MutexGranted trace) :
    Balanced trace ↔ ¬ Strands ph trace entry := by
  have ended := (ensures_leaves ph entry).run run
    (Watch.admits_of_forall _ fun event member _ => granted event member)
  cases entry with
  | session s call =>
      cases call with
      | queryPathInfo szPath => exact ended
      | findStart szPath ulAttribute =>
          rw [Strands, not_not]
          exact ended
      | _ => exact ⟨fun _ => not_false, fun _ => ended⟩
  | _ => exact ⟨fun _ => not_false, fun _ => ended⟩

def serverGone : (R : Type) → Op R → R
  | _, .request _ .cliEcho => false
  | _, .smbwrpConnect .. => .refused ⟨1, by decide⟩
  | _, op => op.usual

def gonePath : EntryPoint :=
  .session { pRes := { rootlevel := 3 }, pConn := { cli := some 1 } } (.queryPathInfo (bytes "\\F"))

def goneRun : List CallEvent × Option Int :=
  exec (fun _ => serverGone) 0 (gonePath.run asciiPlatform)

theorem run_gonePath : Run (gonePath.run asciiPlatform) goneRun.1 (some errorPathNotFound) :=
  (show goneRun.2 = some errorPathNotFound by decide) ▸ run_exec _ _ _

theorem lockBalance_iff_gone :
    Balanced goneRun.1 ↔ ¬ Strands asciiPlatform goneRun.1 gonePath :=
  lockBalance_iff asciiPlatform gonePath run_gonePath (by decide)

/-- The call returns and holds the mutex. -/
theorem queryPathInfo_keeps_mutex :
    Run (gonePath.run asciiPlatform) goneRun.1 (some errorPathNotFound) ∧
      MutexGranted goneRun.1 ∧ (lockSeen goneRun.1).held = some 1 ∧ ¬ Balanced goneRun.1 :=
  ⟨run_gonePath, by decide, by decide, by decide⟩

end NdpSmb
