import NdpSmb.LockBalance
import NdpSmb.MutualExclusion
import NdpSmb.Realization

/-!
What several threads do with the plugin at once. Every entry point goes to a server, and to the
clock of the cache, only while it holds the mutex of the plugin.
-/

namespace NdpSmb

open ByteString Interaction

/-- The mutex is taken when the request for it is granted. -/
def pluginMutex : Mutex Op where
  takes
    | ⟨.fsphRequestMutex, rcLock⟩ => rcLock = (0 : Int)
    | _ => false
  frees
    | ⟨.fsphReleaseMutex, _⟩ => true
    | _ => false

/-- What the threads share: the sessions to the servers, and the clock of the cache. -/
def Touches : CallEvent → Prop
  | ⟨.request .., _⟩ | ⟨.smbwrpConnect .., _⟩ | ⟨.cliShutdown _, _⟩ | ⟨.timesec, _⟩ => True
  | _ => False

def heldWatch : Watch Op Nat where
  observe := pluginMutex.step

def UnderMutex (held : Nat) (event : CallEvent) : Prop := Touches event → 0 < held

def heldCheck : Watch Op (Nat × Prop) :=
  { heldWatch.checked UnderMutex with crash := Prod.snd }

/-- The mutex is held as often behind the program as before, and nothing shared is touched
without it. -/
def Sheltered {α : Type} (held : Nat) (program : Program α) : Prop :=
  heldCheck.Ensures (fun _ later => later = (held, True)) program (held, True)

def Op.Private (R : Type) (op : Op R) : Prop :=
  ∀ reply, ¬ Touches ⟨op, reply⟩ ∧ ∀ held, pluginMutex.step held ⟨op, reply⟩ = held

section Programs

variable {α R : Type} {held : Nat} {program : Program α} {op : Op R} {reply : R}

theorem step_unlocking (unlocking : Op.Unlocking R op) (reply : R) :
    pluginMutex.step held ⟨op, reply⟩ = held := by
  cases op with
  | fsphRequestMutex =>
      have taken := unlocking (0 : Int) {}
      simp [LockSeen.act, lockAction, takeOnce] at taken
  | fsphReleaseMutex =>
      have freed := unlocking () { held := some 1 }
      simp [LockSeen.act, lockAction, releaseOnce] at freed
  | _ => rfl

theorem observe_inside (unlocking : Op.Unlocking R op) :
    heldCheck.observe (held + 1, True) ⟨op, reply⟩ = (held + 1, True) := by
  apply Prod.ext
  · exact step_unlocking unlocking reply
  · apply propext
    apply and_iff_left
    intro _
    exact Nat.succ_pos held

theorem observe_outside (own : Op.Private R op) :
    heldCheck.observe (held, True) ⟨op, reply⟩ = (held, True) := by
  obtain ⟨untouched, unheld⟩ := own reply
  apply Prod.ext
  · exact unheld held
  · apply propext
    apply and_iff_left
    intro touches
    exact absurd touches untouched

theorem sheltered_pure (value : α) : Sheltered held (pure value) := by
  rfl

theorem sheltered_inside (unlocking : program.Only Op.Unlocking) :
    Sheltered (held + 1) program :=
  Watch.ensures_of_only unlocking (fun _ _ _ quiet => observe_inside quiet) trivial fun _ => rfl

theorem sheltered_outside (own : program.Only Op.Private) : Sheltered held program :=
  Watch.ensures_of_only own (fun _ _ _ quiet => observe_outside quiet) trivial fun _ => rfl

theorem observe_request (rcLock : Int) :
    heldCheck.observe (held, True) ⟨.fsphRequestMutex, rcLock⟩ =
      (if rcLock = 0 then held + 1 else held, True) := by
  refine Prod.ext ?_ (propext (and_iff_left fun touches => touches.elim))
  by_cases granted : rcLock = 0
  · simp [heldCheck, heldWatch, Watch.checked, Mutex.step, pluginMutex, granted]
  · simp [heldCheck, heldWatch, Watch.checked, Mutex.step, pluginMutex, granted]

theorem observe_release :
    heldCheck.observe (held + 1, True) ⟨.fsphReleaseMutex, ()⟩ = (held, True) :=
  Prod.ext rfl (propext (and_iff_left fun touches => touches.elim))

theorem sheltered_guarded {refused : Int → α} {work : Program α}
    (worked : Sheltered (held + 1) work) : Sheltered held (guarded refused work) := by
  apply ensures_guarded
  · intro rcLock failed _
    rw [observe_request, if_neg failed]
  · intro _
    rw [observe_request, if_pos rfl]
    apply worked.mono
    rintro answer _ rfl _
    exact observe_release

theorem Op.ServedBy.isolated (served : Op.ServedBy none R op) : Op.Private R op := by
  intro reply
  cases op with
  | request used ask => cases served
  | smbwrpConnect | cliShutdown | timesec | fsphRequestMutex | fsphReleaseMutex => cases served
  | _ => exact ⟨fun touches => touches, fun _ => rfl⟩

end Programs

section Calls

variable {ph : Platform} {s : Session}

theorem unlocking_reconnect (t : Session) : (reconnect t).Only Op.Unlocking := by
  refine Prog.only_perform_bind.mpr ⟨fun _ _ => rfl, fun reply => ?_⟩
  cases reply <;> trivial

theorem unlocking_revive : (revive s).Only Op.Unlocking := by
  refine ((only_smbwrpEcho s.pConn.cli).mono fun _ _ => Op.ServedBy.unlocking).bind fun rc => ?_
  split
  · exact unlocking_reconnect s
  · trivial

theorem unlocking_filelistOn (state : FilelistState) :
    (filelistOn ph s state).Only Op.Unlocking :=
  ((only_smbwrpFilelist ph _ _ _).mono fun _ _ => Op.Lists.unlocking).bind fun _ => trivial

/-- The mutex is held so often, and nothing shared was touched without it. -/
def HoldsMutex (held : Nat) (_ : Session) (memory : Nat × Prop) : Prop := memory = (held, True)

theorem keptSearching_holdsMutex (ph : Platform) : KeptSearching ph heldCheck HoldsMutex where
  crash := by
    rintro _ _ _ rfl
    trivial
  served := by
    rintro held _ _ _ op reply rfl served unheld _
    cases held with
    | zero => exact observe_outside (unheld rfl).isolated
    | succ held => exact observe_inside (Op.ServedBy.unlocking served)
  locked := by
    rintro _ _ _ rfl _
    exact observe_request 0
  denied := by
    rintro _ _ _ rcLock rfl failed _
    exact (observe_request rcLock).trans (by rw [if_neg failed])
  released := by
    rintro _ _ _ rfl _
    exact observe_release
  parsed := by
    rintro _ s _ szPath rfl
    exact sheltered_inside (unlocking_pathparser ph s szPath)
  invalidated _ same := same
  filed _ same := same
  revived := by
    rintro _ _ _ rfl
    exact sheltered_inside unlocking_revive
  renewed := by
    rintro _ s _ rfl
    apply sheltered_inside
    exact (unlocking_smbwrpDisconnect s.pConn.cli).bind fun _ => unlocking_reconnect s
  clocked := by
    rintro _ _ _ _ rfl _
    exact observe_inside fun _ _ => rfl
  listed := by
    rintro _ _ _ state rfl
    exact sheltered_inside (unlocking_filelistOn state)

end Calls

/-! Every entry point. -/

section Entries

variable {ph : Platform} {s : Session} {held : Nat}

theorem sheltered_ndpRsrcQueryInfo (ifL : Bool) (pRes : Resource) (insize : Nat) :
    Sheltered held (ndpRsrcQueryInfo ifL pRes insize) := by
  simp only [ndpRsrcQueryInfo]
  split
  · exact sheltered_pure _
  · exact sheltered_pure _

theorem sheltered_ndpIOCTL (function : UInt32) (input : Option CString) (insize outlen : UInt32) :
    Sheltered held (ndpIOCTL function input insize outlen) := by
  refine sheltered_outside ?_
  unfold ndpIOCTL
  apply Prog.Only.ite
  · trivial
  · cases input with
    | none => trivial
    | some input =>
        simp only
        generalize ioctlText function input insize outlen = text
        exact .ite trivial (.ite trivial trivial)

theorem Sheltered.guards {α : Type} {program : Program α}
    (sheltered : Sheltered held program) :
    heldCheck.Ensures (fun _ later => later.2) program (held, True) :=
  sheltered.mono fun _ _ same => same ▸ trivial

theorem guards_inside {α : Type} {refused : Int → α} {work : Program α}
    (unlocking : work.Only Op.Unlocking) :
    heldCheck.Ensures (fun _ later => later.2) (guarded refused work) (held, True) :=
  (sheltered_guarded (sheltered_inside unlocking)).guards

/-- The calls that search may return with the mutex held once more. -/
theorem guards_run (call : SessionCall) :
    heldCheck.Ensures (fun _ later => later.2) (call.run ph s) (held, True) := by
  have start : HoldsMutex held s (held, True) := rfl
  apply ((keptSearching_holdsMutex ph).every call start).mono
  rintro answer _ (rfl | rfl)
  · trivial
  · trivial

theorem guards_entry (ph : Platform) (entry : EntryPoint) (held : Nat) :
    heldCheck.Ensures (fun _ later => later.2) (entry.run ph) (held, True) := by
  cases entry with
  | mountResource => exact Watch.ensures_map.mpr (guards_inside unlocking_mount)
  | freeResource pRes =>
      refine guards_inside (Prog.Only.bind ?_ fun _ => trivial)
      unfold dircacheDelete
      split
      · trivial
      · exact ⟨fun _ _ => rfl, fun _ => trivial⟩
  | rsrcQueryInfo ifL pRes insize =>
      exact Watch.ensures_map.mpr (sheltered_ndpRsrcQueryInfo ifL pRes insize).guards
  | rsrcQueryFSAttach ifL pRes insize =>
      exact Watch.ensures_map.mpr (sheltered_ndpRsrcQueryInfo ifL pRes insize).guards
  | rsrcQueryFSAllocate pRes hasPfsa =>
      refine Watch.ensures_map.mpr (guards_inside ?_)
      split
      · exact unlocking_queryAllocate
      · trivial
  | createConnection pRes =>
      exact Watch.ensures_map.mpr (guards_inside unlocking_createConnection)
  | freeConnection pConn =>
      exact Watch.ensures_map.mpr (guards_inside
        ((unlocking_freeConnection pConn).bind fun _ => trivial))
  | ioctl function input insize outlen =>
      exact Watch.ensures_map.mpr (sheltered_ndpIOCTL function input insize outlen).guards
  | pluginLoad =>
      have own : ndpPluginLoad.Only Op.Private := ⟨fun _ => ⟨id, fun _ => rfl⟩, fun _ => trivial⟩
      exact (sheltered_outside own).guards
  | pluginFree =>
      have own : ndpPluginFree.Only Op.Private := ⟨fun _ => ⟨id, fun _ => rfl⟩, fun _ => trivial⟩
      exact (sheltered_outside own).guards
  | rsrcCompare | rsrcUpdate | deletePathInfo | discardResourceData | flush => trivial
  | session s call => exact Watch.ensures_map.mpr (guards_run call)

end Entries

/-! Threads that make calls in turn. -/

section Threads

variable {ph : Platform}

/-- A call among those of other threads. `NdpCreateDir` takes the mutex again for the extended
attributes, and reads its Connection anew there: `others` is what became of it in between. -/
def EntryPoint.runAmong (ph : Platform) (others : Session → Session) : EntryPoint → Program Int
  | .session s (.createDir szDirName pFEAList) =>
      Prod.fst <$> enter (fun rcLock => (rcLock, s)) do
        let (rc, s, path) ← makeDir ph (s.invalidateParent ph szDirName) szDirName
        leave
        setDirEas rc (others s) path pFEAList
  | entry => entry.run ph

theorem EntryPoint.runAmong_id (entry : EntryPoint) : entry.runAmong ph id = entry.run ph := by
  unfold EntryPoint.runAmong
  split
  · rfl
  · rfl

theorem guards_runAmong (ph : Platform) (others : Session → Session) (entry : EntryPoint)
    (held : Nat) :
    heldCheck.Ensures (fun _ later => later.2) (entry.runAmong ph others) (held, True) := by
  unfold EntryPoint.runAmong
  split
  · rename_i s szDirName pFEAList
    have kept := keptSearching_holdsMutex ph
    apply Watch.ensures_map.mpr
    refine ensures_enter (fun rcLock failed _ => ?_) fun _ => ?_
    · rw [observe_request, if_neg failed]
      trivial
    · rw [observe_request, if_pos rfl]
      have inside : HoldsMutex (held + 1) (s.invalidateParent ph szDirName) (held + 1, True) := rfl
      apply (kept.makeDir szDirName inside).bind
      rintro ⟨rc, s, path⟩ _ rfl
      refine Watch.ensures_perform_bind.mpr fun _ _ => ?_
      rw [observe_release]
      -- the mutex does not depend on what the Connection has become
      have outside : HoldsMutex held (others s) (held, True) := rfl
      apply (kept.setDirEas rc path pFEAList outside).mono
      rintro answer _ rfl
      trivial
  · exact guards_entry ph entry held

/-- What a thread has done: calls that have returned, and the begin of one more. -/
inductive ThreadTrace (ph : Platform) : List CallEvent → Prop
  | begun {entry : EntryPoint} {others : Session → Session} {first rest : List CallEvent}
      {outcome : Option Int} :
      Run (entry.runAmong ph others) (first ++ rest) outcome → ThreadTrace ph first
  | returned {entry : EntryPoint} {others : Session → Session} {first rest : List CallEvent}
      {rc : Int} :
      Run (entry.runAmong ph others) first (some rc) → ThreadTrace ph rest →
        ThreadTrace ph (first ++ rest)

theorem heldCheck_after (memory : Nat × Prop) (trace : List CallEvent) :
    heldCheck.after memory trace = (heldWatch.checked UnderMutex).after memory trace := rfl

theorem heldCheck_front {first rest : List CallEvent} {held : Nat}
    (passed : (heldCheck.after (held, True) (first ++ rest)).2) :
    (heldCheck.after (held, True) first).2 := by
  rw [Watch.after_append, heldCheck_after] at passed
  exact Watch.checked_before passed

theorem heldCheck_run {entry : EntryPoint} {others : Session → Session}
    {trace : List CallEvent} {outcome : Option Int}
    (run : Run (entry.runAmong ph others) trace outcome) (held : Nat) :
    (heldCheck.after (held, True) trace).2 := by
  have admitted : heldCheck.Admits (held, True) trace :=
    Watch.admits_of_forall _ fun _ _ _ => trivial
  have ended :=
    Watch.ensures_iff_runs.mp (guards_runAmong ph others entry held) trace outcome run admitted
  cases outcome with
  | some rc => exact ended
  | none => exact ended

theorem heldCheck_threadTrace {trace : List CallEvent} (thread : ThreadTrace ph trace)
    (held : Nat) :
    (heldCheck.after (held, True) trace).2 := by
  induction thread generalizing held with
  | begun run => exact heldCheck_front (heldCheck_run run held)
  | @returned entry others first rest rc run _ ih =>
      -- the next call starts with the mutex held as often as this one leaves it
      obtain ⟨later, left⟩ : ∃ later, heldCheck.after (held, True) first = (later, True) :=
        ⟨_, Prod.ext rfl (eq_true (heldCheck_run run held))⟩
      rw [Watch.after_append, left]
      exact ih later

theorem ThreadTrace.shelters {trace : List CallEvent} (thread : ThreadTrace ph trace) :
    pluginMutex.Shelters Touches trace := by
  rintro before event after rfl touched
  have passed := heldCheck_threadTrace thread 0
  rw [heldCheck_after] at passed
  exact Watch.checked_passed passed touched

variable {T : Type} [DecidableEq T]

/-- Whoever goes to a server holds the mutex and is alone with it. While one thread holds the
mutex, the requests of the others wait. -/
theorem entryPoints_exclusive (ph : Platform) {schedule : Schedule T Op}
    (threads : ∀ t, ThreadTrace ph (Mutex.own t schedule))
    (excludes : pluginMutex.Excludes schedule) :
    (∀ before t event after, schedule = before ++ (t, event) :: after → Touches event →
      0 < pluginMutex.held (Mutex.own t before) ∧
        ∀ u, u ≠ t → pluginMutex.held (Mutex.own u before) = 0) ∧
    ∀ before during after t, schedule = before ++ during ++ after →
      (∀ first rest, during = first ++ rest →
        0 < pluginMutex.held (Mutex.own t (before ++ first))) →
      ∀ moment ∈ during, Touches moment.2 → moment.1 = t := by
  have shelters (t : T) := (threads t).shelters
  constructor
  · rintro before t event after rfl touched
    have holds := (shelters t).holds touched
    refine ⟨holds, fun u other => ?_⟩
    by_contra held
    exact other (excludes.front.single (Nat.pos_of_ne_zero held) holds)
  · rintro before during after t rfl holding
    exact excludes.undisturbed shelters holding

end Threads

def sharedSession : Session := { pRes := { rootlevel := 3 }, pConn := { cli := some 1 } }

def deleteCall : EntryPoint := .session sharedSession (.forceDelete (bytes "\\F"))

def searchCall : EntryPoint := .session sharedSession (.findStart (bytes "\\*") 0)

def callTrace (entry : EntryPoint) : List CallEvent × Option Int :=
  exec (fun _ _ => Op.usual) 0 (entry.run asciiPlatform)

def twoThreads : Schedule Bool Op :=
  ((callTrace deleteCall).1.take 1).map (false, ·) ++
    ((callTrace searchCall).1.take 1).map (true, ·) ++
    ((callTrace deleteCall).1.drop 1).map (false, ·)

theorem threadTrace_begun (ph : Platform) (entry : EntryPoint) (n : Nat) :
    ThreadTrace ph ((exec (fun _ _ => Op.usual) 0 (entry.run ph)).1.take n) := by
  have run := run_exec (fun _ _ => Op.usual) (entry.runAmong ph id) 0
  rw [← List.take_append_drop n (exec _ 0 (entry.runAmong ph id)).1] at run
  rw [← entry.runAmong_id]
  exact .begun run

theorem entryPoints_exclusive_two :
    (∀ before t event after, twoThreads = before ++ (t, event) :: after → Touches event →
      0 < pluginMutex.held (Mutex.own t before) ∧
        ∀ u, u ≠ t → pluginMutex.held (Mutex.own u before) = 0) ∧
    ∀ before during after t, twoThreads = before ++ during ++ after →
      (∀ first rest, during = first ++ rest →
        0 < pluginMutex.held (Mutex.own t (before ++ first))) →
      ∀ moment ∈ during, Touches moment.2 → moment.1 = t :=
  entryPoints_exclusive asciiPlatform
    (fun
      | false => threadTrace_begun asciiPlatform deleteCall 3
      | true => threadTrace_begun asciiPlatform searchCall 1)
    (by decide)

end NdpSmb
