import NdpSmb.CallRule
import NdpSmb.ListingCommit
import NdpSmb.Realization

/-!
The handles of directories that a listing over SMB2 opens at the server.
-/

namespace NdpSmb

open ByteString Interaction

abbrev OpenDir := Option (Handle × UInt16)

def dirObserve : OpenDir → CallEvent → OpenDir
  | _, ⟨.request cli (.cliSmb2CreateFnum _), .ok fnum⟩ => some (cli, fnum)
  | opened, ⟨.request cli (.cliSmb2CloseFnum fnum), _⟩ =>
      if opened = some (cli, fnum) then none else opened
  | opened, _ => opened

def openedDir : CallEvent → Option (Handle × UInt16)
  | ⟨.request cli (.cliSmb2CreateFnum _), .ok fnum⟩ => some (cli, fnum)
  | _ => none

def closedDir : CallEvent → Option (Handle × UInt16)
  | ⟨.request cli (.cliSmb2CloseFnum fnum), _⟩ => some (cli, fnum)
  | _ => none

/-- `0xffff` is not the number of anything open. -/
def Numbered (event : CallEvent) : Prop := ∀ opened ∈ openedDir event, opened.2 ≠ 0xffff

instance (event : CallEvent) : Decidable (Numbered event) :=
  inferInstanceAs (Decidable (∀ opened ∈ openedDir event, opened.2 ≠ 0xffff))

/-- One directory at a time is open, it is asked about and closed under its own number and on its
own connection, and that is not shut down meanwhile. -/
def DirProper : OpenDir → CallEvent → Prop
  | opened, ⟨.request _ (.cliSmb2CreateFnum _), _⟩ => opened = none
  | opened, ⟨.request cli (.mapFnumToSmb2Handle fnum), _⟩ => opened = some (cli, fnum)
  | opened, ⟨.request cli (.smb2cliQueryDirectory _), _⟩ => ∃ fnum, opened = some (cli, fnum)
  | opened, ⟨.request cli (.cliSmb2CloseFnum fnum), _⟩ => opened = some (cli, fnum)
  | opened, ⟨.cliShutdown cli, _⟩ => ∀ fnum, opened ≠ some (cli, fnum)
  | _, _ => True

def dirWatch : Watch Op OpenDir where
  observe := dirObserve
  admits _ event := Numbered event

def dirSeen (trace : List CallEvent) : OpenDir := dirWatch.after none trace

abbrev dirCheck : Watch Op (OpenDir × Prop) := dirWatch.checked DirProper

def Op.Undirected : (R : Type) → Op R → Prop
  | _, .request _ (.cliSmb2CreateFnum _) | _, .request _ (.mapFnumToSmb2Handle _) => False
  | _, .request _ (.smb2cliQueryDirectory _) | _, .request _ (.cliSmb2CloseFnum _) => False
  | _, _ => True

def Op.Querying (cli : Handle) : (R : Type) → Op R → Prop
  | _, .request used (.smb2cliQueryDirectory _) => used = cli
  | _, .cliShutdown _ => False
  | R, op => Op.Undirected R op

theorem Op.Lists.undirected {R : Type} {op : Op R} (lists : Op.Lists none R op) :
    Op.Undirected R op := by
  cases op with
  | request used ask => cases lists
  | _ => trivial

theorem Op.ServedBy.undirected {R : Type} {op : Op R} (served : Op.ServedBy none R op) :
    Op.Undirected R op :=
  served.lists.undirected

theorem Op.ServedBy.querying {R : Type} {op : Op R} {cli : Handle}
    (served : Op.ServedBy none R op) : Op.Querying cli R op := by
  cases op with
  | request used ask => cases served
  | cliShutdown => cases served
  | _ => trivial

section Watching

variable {α R : Type} {program : Program α} {op : Op R} {passed : Prop} {cli : Handle}
  {fnum : UInt16}

theorem observe_undirected (undirected : Op.Undirected R op) (reply : R) :
    dirCheck.observe (none, passed) ⟨op, reply⟩ = (none, passed) := by
  have kept : dirObserve none ⟨op, reply⟩ = none ∧ DirProper none ⟨op, reply⟩ := by
    cases op with
    | request used ask =>
        cases ask with
        | cliSmb2CreateFnum | mapFnumToSmb2Handle | smb2cliQueryDirectory | cliSmb2CloseFnum =>
            cases undirected
        | _ => exact ⟨rfl, trivial⟩
    | cliShutdown => exact ⟨rfl, fun _ same => by cases same⟩
    | _ => exact ⟨rfl, trivial⟩
  exact Prod.ext kept.1 (propext (and_iff_left kept.2))

theorem observe_querying (querying : Op.Querying cli R op) (reply : R) :
    dirCheck.observe (some (cli, fnum), passed) ⟨op, reply⟩ = (some (cli, fnum), passed) := by
  have kept : dirObserve (some (cli, fnum)) ⟨op, reply⟩ = some (cli, fnum) ∧
      DirProper (some (cli, fnum)) ⟨op, reply⟩ := by
    cases op with
    | request used ask =>
        cases ask with
        | cliSmb2CreateFnum | mapFnumToSmb2Handle | cliSmb2CloseFnum => cases querying
        | smb2cliQueryDirectory =>
            obtain rfl := querying
            exact ⟨rfl, fnum, rfl⟩
        | _ => exact ⟨rfl, trivial⟩
    | cliShutdown => cases querying
    | _ => exact ⟨rfl, trivial⟩
  exact Prod.ext kept.1 (propext (and_iff_left kept.2))

theorem ensures_querying (querying : program.Only (Op.Querying cli)) :
    dirCheck.Ensures (fun _ later => later = (some (cli, fnum), passed)) program
      (some (cli, fnum), passed) :=
  Watch.ensures_of_only querying (fun _ _ reply quiet => observe_querying quiet reply) trivial
    fun _ => rfl

def NoneOpen (passed : Prop) (program : Program α) : Prop :=
  dirCheck.Ensures (fun _ later => later = (none, passed)) program (none, passed)

theorem NoneOpen.of_only (undirected : program.Only Op.Undirected) : NoneOpen passed program :=
  Watch.ensures_of_only undirected (fun _ _ reply quiet => observe_undirected quiet reply) trivial
    fun _ => rfl

theorem NoneOpen.bind {β : Type} {follow : α → Program β} (first : NoneOpen passed program)
    (next : ∀ value, NoneOpen passed (follow value)) : NoneOpen passed (program >>= follow) := by
  apply Watch.Ensures.bind first
  rintro value _ rfl
  exact next value

end Watching

theorem Op.Asks.undirected {R : Type} {op : Op R} {cli : Option Handle}
    (asks : Op.Asks cli R op) : Op.Undirected R op := by
  cases op with
  | request used ask =>
      cases ask with
      | cliSmb2CreateFnum | mapFnumToSmb2Handle | smb2cliQueryDirectory | cliSmb2CloseFnum =>
          exact asks.2
      | _ => trivial
  | _ => trivial

theorem allowsPaths_undirected (cli : Handle) : Op.AllowsPaths cli Op.Undirected where
  plain _ _ := Op.ServedBy.undirected
  looks _ _ looks := Op.Asks.undirected ⟨rfl, looks⟩

theorem undirected_writeBegin (ph : Platform) (pdc : Option DirectoryCache)
    (state : FilelistState) (cFiles : Nat) :
    (dircacheWriteBegin ph pdc state cFiles).Only Op.Undirected :=
  (only_dircacheWriteBegin none ph _ _ _).mono fun _ _ => Op.Lists.undirected

section Listing

variable {ph : Platform} {searchAttr : UInt32} {fn : SmbwrpFileinfo → Program UInt32}
  {pdc : Option DirectoryCache} {cli : Handle} {passed : Prop}
  (called : ∀ finfo, (fn finfo).Only (Op.ServedBy none))

include called

theorem querying_listOpened (dircachectx : Option DirectoryCacheEntry) (mask : CString) :
    (listOpened ph searchAttr fn pdc dircachectx cli mask).Only (Op.Querying cli) := by
  have within (finfo : SmbwrpFileinfo) : (fn finfo).Only (Op.Querying cli) :=
    (called finfo).mono fun _ _ => Op.ServedBy.querying
  have query : Op.Querying cli _ (.request cli (.smb2cliQueryDirectory mask)) := rfl
  refine (listReplies_only ph searchAttr within (fun _ _ => Op.ServedBy.querying) query _ _).bind ?_
  rintro ⟨status | status, progress⟩
  · trivial
  · refine Prog.Only.bind ?_ fun _ => trivial
    exact (only_dircacheWriteEnd none _ _).mono fun _ _ => Op.ServedBy.querying

theorem ensures_listMapped_dir {fnum : UInt16} (dircachectx : Option DirectoryCacheEntry)
    (mask : CString) :
    dirCheck.Ensures (fun _ later => later = (some (cli, fnum), passed))
      (listMapped ph searchAttr fn pdc dircachectx cli fnum mask) (some (cli, fnum), passed) := by
  refine Watch.ensures_perform_bind.mpr fun status _ => ?_
  have mapped : dirCheck.observe (some (cli, fnum), passed)
      ⟨.request cli (.mapFnumToSmb2Handle fnum), status⟩ = (some (cli, fnum), passed) :=
    Prod.ext rfl (propext (and_iff_left rfl))
  rw [mapped]
  split
  · rfl
  · exact ensures_querying (querying_listOpened called dircachectx mask)

theorem noneOpen_listParent (dircachectx : Option DirectoryCacheEntry) (parentDir mask : CString) :
    NoneOpen passed (listParent ph searchAttr fn pdc dircachectx cli parentDir mask) := by
  refine Watch.ensures_perform_bind.mpr fun created numbered => ?_
  cases created with
  | error status => exact Prod.ext rfl (propext (and_iff_left rfl))
  | ok fnum =>
      have opened : dirCheck.observe (none, passed)
          ⟨.request cli (.cliSmb2CreateFnum parentDir), Except.ok fnum⟩ =
          (some (cli, fnum), passed) := Prod.ext rfl (propext (and_iff_left rfl))
      rw [opened]
      apply (ensures_listMapped_dir called dircachectx mask).bind
      rintro listing _ rfl
      have number : fnum ≠ 0xffff := numbered (cli, fnum) rfl
      rw [closeFnum, if_pos number]
      intro reply _
      have closed : dirCheck.observe (some (cli, fnum), passed)
          ⟨.request cli (.cliSmb2CloseFnum fnum), reply⟩ = (none, passed) :=
        Prod.ext (if_pos rfl) (propext (and_iff_left rfl))
      rw [closed]
      rfl

theorem noneOpen_listContext (dircachectx : Option DirectoryCacheEntry) (pathname : CString) :
    NoneOpen passed (listContext ph searchAttr fn pdc dircachectx cli pathname) := by
  have asked {R : Type} (ask : Request R) (looks : ask.Looks) :
      NoneOpen passed (askServer cli ask) :=
    .of_only (Prog.only_perform.mpr ((allowsPaths_undirected cli).looks R ask looks))
  refine (asked .connHasAsyncCalls trivial).bind fun asyncCalls => ?_
  split
  · rfl
  · refine (asked .connProtocolSmb2 trivial).bind fun smb2 => ?_
    split
    · rfl
    · refine (asked (.windowsParentDirname pathname) trivial).bind fun parent => ?_
      cases parent with
      | none => rfl
      | some parent => exact noneOpen_listParent called dircachectx parent.1 parent.2

theorem noneOpen_listFilesSmb2 (state : FilelistState) (pathname : CString) :
    NoneOpen passed (listFilesSmb2 ph searchAttr fn pdc state cli pathname) :=
  NoneOpen.bind (NoneOpen.of_only (undirected_writeBegin ph pdc state 128)) fun opened =>
    noneOpen_listContext called opened.1 pathname

theorem noneOpen_listFiles (state : FilelistState) (mask : CString) :
    NoneOpen passed (listFiles ph searchAttr fn pdc state cli mask) := by
  have quiet (finfo : SmbwrpFileinfo) : (fn finfo).Only Op.Undirected :=
    (called finfo).mono fun _ _ => Op.ServedBy.undirected
  have cached : NoneOpen passed (dircacheListFiles ph pdc state fn) :=
    .of_only (only_dircacheListFiles ph trivial quiet pdc state)
  refine cached.bind ?_
  rintro ⟨_ | numFinfo, pdc⟩
  · have spoken : NoneOpen passed (askServer cli .connProtocolSmb2) :=
      .of_only (Prog.only_perform.mpr trivial)
    refine spoken.bind fun smb2 => ?_
    split
    · exact (noneOpen_listFilesSmb2 called state mask).bind fun _ => rfl
    · exact NoneOpen.of_only (only_listFilesSmb1 ph searchAttr quiet (allowsPaths_undirected cli)
        trivial pdc state mask)
  · rfl

end Listing

section FindStart

variable {ph : Platform} {s : Session} {passed : Prop}

theorem noneOpen_listTarget (pRes : Resource) (cli : Handle) (state : FilelistState) :
    NoneOpen passed (listTarget ph pRes cli state) := by
  apply listTarget_cases ph cli pRes state
  · intro program only _
    exact .of_only (only _ (allowsPaths_undirected cli))
  · have called (finfo : SmbwrpFileinfo) :
        (smbwrpDirAdd ph pRes.srv state finfo).Only (Op.ServedBy none) :=
      only_smbwrpDirAdd ph _ _ _ none
    refine (noneOpen_listFiles called state state.mask).bind fun listed => ?_
    split
    · have told := (asks_os2cliErrno cli).mono fun _ _ => Op.Asks.undirected
      exact (NoneOpen.of_only told).bind fun _ => rfl
    · rfl

theorem noneOpen_filelistOn (state : FilelistState) : NoneOpen passed (filelistOn ph s state) := by
  refine NoneOpen.bind ?_ fun _ => rfl
  unfold smbwrpFilelist
  split
  · rfl
  · split
    · rfl
    · exact noneOpen_listTarget _ _ state

theorem undirected_reconnect (t : Session) : (reconnect t).Only Op.Undirected := by
  refine Prog.only_perform_bind.mpr ⟨trivial, fun reply => ?_⟩
  cases reply <;> trivial

theorem undirected_revive : (revive s).Only Op.Undirected := by
  refine ((asks_smbwrpEcho s.pConn.cli).mono fun _ _ => Op.Asks.undirected).bind fun rc => ?_
  split
  · exact undirected_reconnect s
  · trivial

def NoDirectory (passed : Prop) (_ : Nat) (_ : Session) (memory : OpenDir × Prop) : Prop :=
  memory = (none, passed)

theorem undirected_requestMutex : Op.Undirected Int .fsphRequestMutex := trivial

theorem keptBrowsing_noDirectory (ph : Platform) (passed : Prop) :
    KeptBrowsing ph dirCheck (NoDirectory passed) where
  crash _ := trivial
  unserved := by
    rintro _ _ _ R op reply rfl served _
    exact observe_undirected served.undirected reply
  asked := by
    rintro _ _ _ R used ask reply rfl _ looks _
    have asks : Op.Asks (some used) R (.request used ask) := ⟨rfl, looks⟩
    exact observe_undirected asks.undirected reply
  locked := by
    rintro _ _ _ rfl _
    exact observe_undirected undirected_requestMutex 0
  denied := by
    rintro _ _ _ rcLock rfl _ _
    exact observe_undirected undirected_requestMutex rcLock
  released := by
    rintro _ _ _ rfl _
    have release : Op.Undirected Unit .fsphReleaseMutex := trivial
    exact observe_undirected release ()
  parsed := by
    rintro _ s _ szPath rfl
    have parsed : (pathparser ph s szPath).Only Op.Undirected :=
      only_pathparser (fun _ _ _ _ => trivial) fun _ => trivial
    exact NoneOpen.of_only parsed
  revived := by
    rintro _ _ _ rfl
    exact NoneOpen.of_only undirected_revive
  renewed := by
    rintro _ s _ rfl
    have shut : (smbwrpDisconnect s.pConn.cli).Only Op.Undirected :=
      only_smbwrpDisconnect _ fun _ => trivial
    exact NoneOpen.of_only (shut.bind fun _ => undirected_reconnect s)
  clocked := by
    rintro _ _ _ now rfl _
    have clock : Op.Undirected UInt32 .timesec := trivial
    exact observe_undirected clock now
  listed := by
    rintro _ _ _ state rfl
    exact noneOpen_filelistOn state

theorem noneOpen_ndpFindStart (szPath : CString) (ulAttribute : UInt32) :
    NoneOpen passed (ndpFindStart ph s szPath ulAttribute) := by
  have start : NoDirectory passed 0 s (none, passed) := rfl
  apply ((keptBrowsing_noDirectory ph passed).ndpFindStart szPath ulAttribute start).mono
  rintro answer later (same | same)
  · exact same
  · exact same

end FindStart

/-! What a whole call opens and closes. -/

theorem opened_closed {opened : OpenDir} {event : CallEvent} (proper : DirProper opened event) :
    opened.toList ++ (openedDir event).toList =
      (closedDir event).toList ++ (dirObserve opened event).toList := by
  obtain ⟨op, reply⟩ := event
  cases op with
  | request cli ask =>
      cases ask with
      | cliSmb2CreateFnum =>
          obtain rfl : opened = none := proper
          cases reply <;> rfl
      | cliSmb2CloseFnum fnum =>
          obtain rfl : opened = some (cli, fnum) := proper
          simp [openedDir, closedDir, dirObserve]
      | _ => simp [openedDir, closedDir, dirObserve]
  | _ => simp [openedDir, closedDir, dirObserve]

theorem opened_closed_trace {opened : OpenDir} {before : Prop} {trace : List CallEvent}
    (passed : (dirCheck.after (opened, before) trace).2) :
    opened.toList ++ trace.filterMap openedDir =
      trace.filterMap closedDir ++ (dirWatch.after opened trace).toList := by
  induction trace generalizing opened before with
  | nil => simp
  | cons event rest ih =>
      have later : (dirCheck.after (dirObserve opened event, before ∧ DirProper opened event)
          rest).2 := passed
      have proper : DirProper opened event := (Watch.checked_before later).2
      have step := opened_closed proper
      have behind := ih later
      have observed : dirWatch.after opened (event :: rest) =
          dirWatch.after (dirObserve opened event) rest := rfl
      have first (given : CallEvent → Option (Handle × UInt16)) :
          (event :: rest).filterMap given = (given event).toList ++ rest.filterMap given := by
        rw [List.filterMap_cons]
        cases given event <;> rfl
      calc opened.toList ++ (event :: rest).filterMap openedDir
          = opened.toList ++ (openedDir event).toList ++ rest.filterMap openedDir := by
            rw [first, List.append_assoc]
        _ = (closedDir event).toList ++
              ((dirObserve opened event).toList ++ rest.filterMap openedDir) := by
            rw [step, List.append_assoc]
        _ = (event :: rest).filterMap closedDir ++
              (dirWatch.after opened (event :: rest)).toList := by
            rw [behind, observed, first, List.append_assoc]

/-- A listing closes every directory that it opens, once and in the order of their opening, and
asks about a directory only while that is open. -/
theorem directories_closedOnce {ph : Platform} {s : Session} {szPath : CString}
    {ulAttribute : UInt32} {trace : List CallEvent} {answer : Int × Session}
    (run : Run (ndpFindStart ph s szPath ulAttribute) trace (some answer))
    (numbered : ∀ event ∈ trace, Numbered event) :
    trace.filterMap openedDir = trace.filterMap closedDir ∧
      ∀ before event after, trace = before ++ event :: after →
        DirProper (dirSeen before) event := by
  have admitted : dirCheck.Admits (none, True) trace :=
    Watch.checked_admits.mpr (Watch.admits_of_forall _ fun event member _ => numbered event member)
  have ended := (noneOpen_ndpFindStart szPath ulAttribute).run run admitted
  have passed : (dirCheck.after (none, True) trace).2 := by
    rw [ended]
    trivial
  constructor
  · have closed : dirWatch.after none trace = none := by
      have first : (dirCheck.after (none, True) trace).1 = dirWatch.after none trace :=
        Watch.checked_after_fst _ trace
      rw [← first, ended]
    have same := opened_closed_trace passed
    rw [closed] at same
    simpa using same
  · rintro before event after rfl
    exact Watch.checked_passed passed

def cachingSession : Session :=
  ⟨{ srv := { serverName := bytes "SRV", shareName := bytes "S" }, rootlevel := 3
     pdc := some freshCache }, { cli := some 1 }⟩

def listD : List CallEvent × Option (Int × Session) :=
  exec (fun _ => answerTwoFiles (bytes "A") 0) 0
    (ndpFindStart asciiPlatform cachingSession (bytes "\\D") 0)

theorem directories_closedOnce_two :
    listD.1.filterMap openedDir = listD.1.filterMap closedDir ∧
      ∀ before event after, listD.1 = before ++ event :: after →
        DirProper (dirSeen before) event := by
  have run : Run (ndpFindStart asciiPlatform cachingSession (bytes "\\D") 0) listD.1 listD.2 :=
    run_exec _ _ _
  obtain ⟨answer, returned⟩ : ∃ answer, listD.2 = some answer :=
    Option.isSome_iff_exists.mp (by decide)
  rw [returned] at run
  exact directories_closedOnce run (by decide)

end NdpSmb
