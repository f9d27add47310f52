import NdpSmb.DirCache
import NdpSmb.Smbwrp

/-!
The directory routines of `smbwrp.c`, and the helpers of `ndpsmb.c` that hand what
they find to NetDrive.
-/

namespace NdpSmb

open ByteString Interaction

def bitField (width : Nat) (value : Int) : Nat := (value % 2 ^ width).toNat

section Find

variable (ph : Platform)

def fsphUnixTimeToDosDate (time : UInt32) : Fdate × Ftime :=
  let gmt := ph.localtime time
  ({ day := bitField 5 gmt.tmMday, month := bitField 4 (gmt.tmMon + 1)
     year := bitField 7 (gmt.tmYear + 1900 - 1980) },
   { twosecs := bitField 5 (gmt.tmSec / 2), minutes := bitField 6 gmt.tmMin
     hours := bitField 5 gmt.tmHour })

def fsphDosDateToUnixTime (fdate : Fdate) (ftime : Ftime) : UInt32 :=
  ph.mktime {
    tmMday := fdate.day, tmMon := fdate.month - 1, tmYear := fdate.year + 1980 - 1900
    tmSec := ftime.twosecs * 2, tmMin := ftime.minutes, tmHour := ftime.hours }

def findStatus (finfo : SmbwrpFileinfo) : Filestatus3L :=
  let lastWrite := fsphUnixTimeToDosDate ph finfo.mtime
  let creation := fsphUnixTimeToDosDate ph finfo.btime
  let lastAccess := fsphUnixTimeToDosDate ph finfo.atime
  { fdateCreation := creation.1, ftimeCreation := creation.2
    fdateLastAccess := lastAccess.1, ftimeLastAccess := lastAccess.2
    fdateLastWrite := lastWrite.1, ftimeLastWrite := lastWrite.2
    cbFile := finfo.size, cbFileAlloc := finfo.size, attrFile := finfo.attr &&& attrMask }

def reportedName (srv : SmbwrpServer) (finfo : SmbwrpFileinfo) : CString :=
  if lastName finfo.fname = [] then srv.shareName else lastName finfo.fname

def passesFilter (ulAttribute : UInt32) (mask : Option CString) (name : CString)
    (finfo : SmbwrpFileinfo) : Bool :=
  match mask with
  | none => true
  | some mask => ph.fsphAttrMatch ulAttribute (finfo.attr &&& attrMask) && ph.fsphWildMatch mask name

def getfindinfoL (srv : SmbwrpServer) (finfo : SmbwrpFileinfo) (ulAttribute : UInt32)
    (mask : Option CString) : Program Int :=
  let name := reportedName srv finfo
  if passesFilter ph ulAttribute mask name finfo then do
    perform (Op.fsphAddFile32L (findStatus ph finfo) name finfo)
    pure 1
  else pure 0

/-! Callbacks of a listing. -/

/-- The copy of `st->dir` that the loops work on has `_MAX_PATH` bytes. -/
def smbwrpDirAdd (srv : SmbwrpServer) (st : FilelistState) (finfo : SmbwrpFileinfo) :
    Program UInt32 :=
  if st.dir.length ≥ maxPath then .fault else do
    let fullname := st.dir ++ finfo.fname.take (maxPath - st.dir.length - 1)
    let _ ← getfindinfoL ph srv { finfo with fname := fullname } st.ulAttribute (some st.dirMask)
    perform Op.missingReturnValue

def smbwrpSpecialAdd (srv : SmbwrpServer) (name : CString) (st : FilelistState) :
    Program Unit := do
  let _ ← smbwrpDirAdd ph srv st { fname := name.take 260, attr := aRonly ||| aDir }
  pure ()

def smbwrpShareAdd (srv : SmbwrpServer) (share : CString) (printq : Bool) (st : FilelistState) :
    Program Unit :=
  if printq ∨ share = bytes "IPC$" then pure () else do
    let _ ← smbwrpDirAdd ph srv st { fname := share.take 260, attr := aRonly ||| aDir }
    pure ()

def addShares (srv : SmbwrpServer) (st : FilelistState) : List (CString × Bool) → Program Unit
  | [] => pure ()
  | (share, printq) :: rest => do
      smbwrpShareAdd ph srv share printq st
      addShares srv st rest

/-! Listing a directory over SMB2. -/

def FileInfo.toWrp (finfo : FileInfo) : SmbwrpFileinfo :=
  { size := finfo.size, attr := finfo.mode, btime := finfo.btimeTs, atime := finfo.atimeTs
    mtime := finfo.mtimeTs, ctime := finfo.ctimeTs, easize := -1, fname := finfo.name.take 260 }

structure ListProgress where
  dircachectx : Option DirectoryCacheEntry
  processedFile : Bool

/-- How the entries of one reply end: `goto fail`, or with a status. -/
inductive RepliedEntries
  | fail (status : BadStatus)
  | status (status : UInt32)

section Smb2

variable (searchAttr : UInt32) (fn : SmbwrpFileinfo → Program UInt32)

/-- The inner loop over the entries of one reply. -/
def listEntries (failed : Option BadStatus) :
    List FileInfo → ListProgress → Program (RepliedEntries × ListProgress)
  | [], progress =>
      match failed with
      | some status => pure (.fail status, progress)
      | none => pure (.status ntStatusOk, progress)
  | finfo :: rest, progress =>
      if ph.dirCheckFtype finfo.mode searchAttr then do
        let status ← fn finfo.toWrp
        let dircachectx ← dircacheWriteEntry progress.dircachectx finfo.toWrp
        let progress := { dircachectx, processedFile := true }
        if status ≠ ntStatusOk ∧ status ≠ ntStatusWait1 then
          pure (.status status, progress)
        else listEntries failed rest progress
      else listEntries failed rest progress

inductive ListEnd
  | fail (status : UInt32)
  | done (status : UInt32)

def listReplies (cli : Handle) (mask : CString) :
    Nat → ListProgress → Program (ListEnd × ListProgress)
  | 0, _ => .fault
  | queries + 1, progress => do
      let reply ← askServer cli (.smb2cliQueryDirectory mask)
      match reply with
      | .error status =>
          if status.1 = statusNoMoreFiles then pure (.done statusNoMoreFiles, progress)
          else pure (.fail status.1, progress)
      | .ok dirData => do
          let (replied, progress) ← listEntries ph searchAttr fn dirData.failed dirData.parsed progress
          match replied with
          | .fail status => pure (.fail status.1, progress)
          | .status status =>
              if ph.msHasWild mask = false then pure (.done statusNoMoreFiles, progress)
              else if status = ntStatusOk then listReplies cli mask queries progress
              else pure (.done status, progress)

def listStatus (status : UInt32) (processedFile : Bool) : UInt32 :=
  let status := if status = statusNoMoreFiles then ntStatusOk else status
  if status = ntStatusOk ∧ processedFile = false then ntStatusNoSuchFile else status

/-- What a listing leaves: its status, the cache, and the listing that it has begun to
write when that one is left allocated without being linked. -/
structure Listed where
  status : UInt32
  pdc : Option DirectoryCache
  detached : Option DirectoryCacheEntry := none
  deriving DecidableEq

section Context

variable (pdc : Option DirectoryCache) (dircachectx : Option DirectoryCacheEntry) (cli : Handle)

/-- The loops, and the commit that every `goto fail` jumps over. -/
def listOpened (mask : CString) : Program Listed := do
  let (ended, progress) ← listReplies ph searchAttr fn cli mask ph.queryLimit
    { dircachectx, processedFile := false }
  match ended with
  | .fail status => pure { status, pdc, detached := progress.dircachectx }
  | .done status => do
      let pdc ← dircacheWriteEnd pdc progress.dircachectx
      pure { status := listStatus status progress.processedFile, pdc }

def listMapped (fnum : UInt16) (mask : CString) : Program Listed := do
  let status ← askServer cli (.mapFnumToSmb2Handle fnum)
  if status ≠ ntStatusOk then pure { status, pdc, detached := dircachectx }
  else listOpened ph searchAttr fn pdc dircachectx cli mask

def closeFnum (fnum : UInt16) (listed : Listed) : Program Listed :=
  if fnum ≠ 0xffff then do
    askServer cli (.cliSmb2CloseFnum fnum)
    pure listed
  else pure listed

def listParent (parentDir mask : CString) : Program Listed := do
  let created ← askServer cli (.cliSmb2CreateFnum parentDir)
  match created with
  | .error status => pure { status := status.1, pdc, detached := dircachectx }
  | .ok fnum => do
      let listed ← listMapped ph searchAttr fn pdc dircachectx cli fnum mask
      closeFnum cli fnum listed

def listContext (pathname : CString) : Program Listed := do
  let asyncCalls ← askServer cli .connHasAsyncCalls
  if asyncCalls then
    pure { status := ntStatusInvalidParameter, pdc, detached := dircachectx }
  else do
    let smb2 ← askServer cli .connProtocolSmb2
    if smb2 = false then
      pure { status := ntStatusInvalidParameter, pdc, detached := dircachectx }
    else do
      let parent ← askServer cli (.windowsParentDirname pathname)
      match parent with
      | none => pure { status := ntStatusNoMemory, pdc, detached := dircachectx }
      | some (parentDir, mask) => listParent ph searchAttr fn pdc dircachectx cli parentDir mask

end Context

def listFilesSmb2 (pdc : Option DirectoryCache) (state : FilelistState) (cli : Handle)
    (pathname : CString) : Program Listed := do
  let (dircachectx, pdc) ← dircacheWriteBegin ph pdc state 128
  listContext ph searchAttr fn pdc dircachectx cli pathname

/-! Listing a directory over SMB1. -/

def listReceived : List FileInfo → Option DirectoryCacheEntry →
    Program (Option DirectoryCacheEntry)
  | [], dircachectx => pure dircachectx
  | finfo :: rest, dircachectx => do
      let _ ← fn finfo.toWrp
      let dircachectx ← dircacheWriteEntry dircachectx finfo.toWrp
      listReceived rest dircachectx

/-- On failure `num_finfo` is returned as it was found. -/
def listFilesSmb1 (pdc : Option DirectoryCache) (state : FilelistState) (cli : Handle)
    (mask : CString) : Program (UInt32 × Option DirectoryCache) := do
  let numFinfo ← perform Op.uninitializedLong
  let asyncCalls ← askServer cli .connHasAsyncCalls
  if asyncCalls then pure (numFinfo, pdc) else do
    let _ ← askServer cli .connCapNtSmbs
    let sent ← askServer cli (.cliListSend mask searchAttr)
    if sent = false then pure (numFinfo, pdc) else do
      let polled ← askServer cli .teventReqPoll
      if polled = false then pure (numFinfo, pdc) else do
        let received ← askServer cli .cliListRecv
        match received with
        | none => pure (numFinfo, pdc)
        | some finfo => do
            let (dircachectx, pdc) ← dircacheWriteBegin ph pdc state finfo.length
            let dircachectx ← listReceived fn finfo dircachectx
            let pdc ← dircacheWriteEnd pdc dircachectx
            pure (UInt32.ofNat finfo.length, pdc)

/-- The value is an `NTSTATUS` or a number of entries. -/
def listFiles (pdc : Option DirectoryCache) (state : FilelistState) (cli : Handle)
    (mask : CString) : Program (UInt32 × Option DirectoryCache) := do
  let (cached, pdc) ← dircacheListFiles ph pdc state fn
  match cached with
  | some numFinfo => pure (UInt32.ofNat numFinfo, pdc)
  | none => do
      let smb2 ← askServer cli .connProtocolSmb2
      if smb2 then do
        let listed ← listFilesSmb2 ph searchAttr fn pdc state cli mask
        pure (listed.status, listed.pdc)
      else listFilesSmb1 ph searchAttr fn pdc state cli mask

end Smb2

def negative (value : UInt32) : Bool := value ≥ 0x80000000

def listAttribute : UInt32 := aHidden ||| aSystem ||| aDir

def listTarget (pRes : Resource) (cli : Handle) (state : FilelistState) :
    Program (Int × Option DirectoryCache) :=
  let srv := pRes.srv
  if srv.workgroup = [] ∧ srv.serverName = [] then do
    smbwrpSpecialAdd ph srv (bytes ".") state
    smbwrpSpecialAdd ph srv (bytes "..") state
    let domains ← askServer cli (.cliNetServerEnum srv.master true)
    addShares ph srv state domains
    pure (0, pRes.pdc)
  else if srv.serverName = [] then do
    smbwrpSpecialAdd ph srv (bytes ".") state
    smbwrpSpecialAdd ph srv (bytes "..") state
    let servers ← askServer cli (.cliNetServerEnum srv.workgroup false)
    addShares ph srv state servers
    pure (0, pRes.pdc)
  else if srv.shareName = [] ∨ isIpc srv.shareName then do
    smbwrpSpecialAdd ph srv (bytes ".") state
    smbwrpSpecialAdd ph srv (bytes "..") state
    let (shares, rpc) ← askServer cli .netShareEnumRpc
    addShares ph srv state shares
    if rpc < 0 then do
      let (shares, rap) ← askServer cli .cliRNetShareEnum
      addShares ph srv state shares
      if rap < 0 then do
        let rc ← os2cliErrno cli
        pure (rc, pRes.pdc)
      else pure (0, pRes.pdc)
    else pure (0, pRes.pdc)
  else do
    let (value, pdc) ← listFiles ph listAttribute (smbwrpDirAdd ph srv state) pRes.pdc state cli
      state.mask
    if negative value then do
      let rc ← os2cliErrno cli
      pure (rc, pdc)
    else pure (0, pdc)

def smbwrpFilelist (pRes : Resource) (cli : Option Handle) (state : FilelistState) :
    Program (Int × Option DirectoryCache) :=
  match cli with
  | none => pure (maperror einval, pRes.pdc)
  | some cli => if state.mask = [] then pure (maperror einval, pRes.pdc)
      else listTarget ph pRes cli state

/-! A listing goes to the server through its own handle only. -/

section Footprints

variable (searchAttr : UInt32) {fn : SmbwrpFileinfo → Program UInt32} (cli : Handle)

theorem only_getfindinfoL (srv : SmbwrpServer) (finfo : SmbwrpFileinfo) (ulAttribute : UInt32)
    (mask : Option CString) (cli : Option Handle) :
    (getfindinfoL ph srv finfo ulAttribute mask).Only (Op.ServedBy cli) := by
  simp only [getfindinfoL]
  split
  · exact ⟨trivial, fun _ => trivial⟩
  · trivial

theorem only_smbwrpDirAdd (srv : SmbwrpServer) (st : FilelistState) (finfo : SmbwrpFileinfo)
    (cli : Option Handle) : (smbwrpDirAdd ph srv st finfo).Only (Op.ServedBy cli) := by
  unfold smbwrpDirAdd
  split
  · trivial
  · exact (only_getfindinfoL ph srv _ _ _ cli).bind fun _ => ⟨trivial, fun _ => trivial⟩

theorem only_smbwrpSpecialAdd (srv : SmbwrpServer) (name : CString) (st : FilelistState)
    (cli : Option Handle) : (smbwrpSpecialAdd ph srv name st).Only (Op.ServedBy cli) :=
  (only_smbwrpDirAdd ph srv st _ cli).bind fun _ => trivial

theorem only_addShares (srv : SmbwrpServer) (st : FilelistState) (shares : List (CString × Bool))
    (cli : Option Handle) : (addShares ph srv st shares).Only (Op.ServedBy cli) := by
  induction shares with
  | nil => trivial
  | cons share rest ih =>
      refine Prog.Only.bind ?_ fun _ => ih
      unfold smbwrpShareAdd
      split
      · trivial
      · exact (only_smbwrpDirAdd ph srv st _ cli).bind fun _ => trivial

section Smb2

variable {cli : Handle} {allowed : (R : Type) → Op R → Prop}
  (served : ∀ finfo, (fn finfo).Only allowed)

include served

section Loops

variable (plain : ∀ R op, Op.ServedBy none R op → allowed R op)

include plain

theorem listEntries_only (failed : Option BadStatus) (infos : List FileInfo)
    (progress : ListProgress) :
    (listEntries ph searchAttr fn failed infos progress).Only allowed := by
  induction infos generalizing progress with
  | nil =>
      unfold listEntries
      split <;> trivial
  | cons finfo rest ih =>
      unfold listEntries
      split
      · refine (served _).bind fun status => ?_
        refine ((only_dircacheWriteEntry none _ _).mono plain).bind fun dircachectx => ?_
        simp only
        split
        · trivial
        · exact ih _
      · exact ih _

theorem listReplies_only {mask : CString}
    (query : allowed _ (.request cli (.smb2cliQueryDirectory mask))) (queries : Nat)
    (progress : ListProgress) :
    (listReplies ph searchAttr fn cli mask queries progress).Only allowed := by
  induction queries generalizing progress with
  | zero => trivial
  | succ queries ih =>
      refine Prog.only_perform_bind.mpr ⟨query, fun reply => ?_⟩
      cases reply with
      | error status =>
          simp only
          split <;> trivial
      | ok dirData =>
          refine (listEntries_only ph searchAttr served plain _ _ _).bind ?_
          rintro ⟨replied | status, progress⟩
          · trivial
          · simp only
            split
            · trivial
            · split
              · exact ih _
              · trivial

end Loops

section Directories

variable (allows : Op.AllowsDirectories cli allowed)

include allows

theorem only_listMapped (pdc : Option DirectoryCache) (dircachectx : Option DirectoryCacheEntry)
    (fnum : UInt16) (mask : CString) :
    (listMapped ph searchAttr fn pdc dircachectx cli fnum mask).Only allowed := by
  refine Prog.only_perform_bind.mpr ⟨allows.directs _ _ trivial, fun status => ?_⟩
  split
  · trivial
  · have query : allowed _ (.request cli (.smb2cliQueryDirectory mask)) :=
      allows.directs _ _ trivial
    refine (listReplies_only ph searchAttr served allows.plain query _ _).bind ?_
    rintro ⟨status | status, progress⟩
    · trivial
    · exact ((only_dircacheWriteEnd none _ _).mono allows.plain).bind fun _ => trivial

theorem only_listContext (pdc : Option DirectoryCache) (dircachectx : Option DirectoryCacheEntry)
    (pathname : CString) :
    (listContext ph searchAttr fn pdc dircachectx cli pathname).Only allowed := by
  refine Prog.only_perform_bind.mpr ⟨allows.looks _ _ trivial, fun asyncCalls => ?_⟩
  split
  · trivial
  · refine Prog.only_perform_bind.mpr ⟨allows.looks _ _ trivial, fun smb2 => ?_⟩
    split
    · trivial
    · refine Prog.only_perform_bind.mpr ⟨allows.looks _ _ trivial, fun parent => ?_⟩
      cases parent with
      | none => trivial
      | some parent =>
          refine Prog.only_perform_bind.mpr ⟨allows.directs _ _ trivial, fun created => ?_⟩
          cases created with
          | error status => trivial
          | ok fnum =>
              refine (only_listMapped ph searchAttr served allows _ _ _ _).bind fun listed => ?_
              unfold closeFnum
              split
              · exact ⟨allows.directs _ _ trivial, fun _ => trivial⟩
              · trivial

end Directories

variable (allows : Op.AllowsPaths cli allowed)

include allows

theorem only_listReceived (infos : List FileInfo) (dircachectx : Option DirectoryCacheEntry) :
    (listReceived fn infos dircachectx).Only allowed := by
  induction infos generalizing dircachectx with
  | nil => trivial
  | cons finfo rest ih =>
      refine (served _).bind fun _ => ?_
      exact ((only_dircacheWriteEntry none _ _).mono allows.plain).bind fun _ => ih _

theorem only_listFilesSmb1 (clock : allowed UInt32 .timesec) (pdc : Option DirectoryCache)
    (state : FilelistState) (mask : CString) :
    (listFilesSmb1 ph searchAttr fn pdc state cli mask).Only allowed := by
  refine Prog.only_perform_bind.mpr ⟨allows.plain _ _ trivial, fun numFinfo => ?_⟩
  refine Prog.only_perform_bind.mpr ⟨allows.looks _ _ trivial, fun asyncCalls => ?_⟩
  split
  · trivial
  · refine Prog.only_perform_bind.mpr ⟨allows.looks _ _ trivial, fun _ => ?_⟩
    refine Prog.only_perform_bind.mpr ⟨allows.looks _ _ trivial, fun sent => ?_⟩
    split
    · trivial
    · refine Prog.only_perform_bind.mpr ⟨allows.looks _ _ trivial, fun polled => ?_⟩
      split
      · trivial
      · refine Prog.only_perform_bind.mpr ⟨allows.looks _ _ trivial, fun received => ?_⟩
        cases received with
        | none => trivial
        | some infos =>
            refine ((only_dircacheWriteBegin none ph _ _ _).mono (allows.lists clock)).bind
              fun opened => ?_
            refine (only_listReceived served allows _ _).bind fun dircachectx => ?_
            exact ((only_dircacheWriteEnd none _ _).mono allows.plain).bind fun _ => trivial

omit allows

variable (clocked : Op.AllowsListings cli allowed)

include clocked

theorem only_listFilesSmb2 (pdc : Option DirectoryCache) (state : FilelistState)
    (pathname : CString) :
    (listFilesSmb2 ph searchAttr fn pdc state cli pathname).Only allowed :=
  ((only_dircacheWriteBegin none ph _ _ _).mono (clocked.lists clocked.clock)).bind fun _ =>
    only_listContext ph searchAttr served clocked.toAllowsDirectories _ _ _

theorem only_listFiles (pdc : Option DirectoryCache) (state : FilelistState) (mask : CString) :
    (listFiles ph searchAttr fn pdc state cli mask).Only allowed := by
  refine (only_dircacheListFiles ph clocked.clock served _ _).bind ?_
  rintro ⟨_ | numFinfo, pdc⟩
  · refine Prog.only_perform_bind.mpr ⟨clocked.looks _ _ trivial, fun smb2 => ?_⟩
    split
    · exact (only_listFilesSmb2 ph searchAttr served clocked _ _ _).bind fun _ => trivial
    · exact only_listFilesSmb1 ph searchAttr served clocked.toAllowsPaths clocked.clock _ _ _
  · trivial

end Smb2

theorem returns_addShares {α : Type} {post : α → Prop} (srv : SmbwrpServer) (st : FilelistState)
    (shares : List (CString × Bool)) {follow : Program α} (after : follow.Returns post) :
    (addShares ph srv st shares >>= fun _ => follow).Returns post :=
  Prog.returns_bind.mpr (Prog.returns_of_forall fun _ => after)

theorem returns_smbwrpSpecialAdd {α : Type} {post : α → Prop} (srv : SmbwrpServer)
    (name : CString) (st : FilelistState) {follow : Program α} (after : follow.Returns post) :
    (smbwrpSpecialAdd ph srv name st >>= fun _ => follow).Returns post :=
  Prog.returns_bind.mpr (Prog.returns_of_forall fun _ => after)

theorem listTarget_cases (pRes : Resource) (state : FilelistState)
    {motive : Program (Int × Option DirectoryCache) → Prop}
    (names : ∀ program : Program (Int × Option DirectoryCache),
      (∀ allowed, Op.AllowsPaths cli allowed → program.Only allowed) →
      (program.Returns fun answer => answer.2 = pRes.pdc) → motive program)
    (files : motive (listFiles ph listAttribute (smbwrpDirAdd ph pRes.srv state) pRes.pdc state cli
        state.mask >>= fun answer =>
      if negative answer.1 then os2cliErrno cli >>= fun rc => pure (rc, answer.2)
      else pure (0, answer.2))) :
    motive (listTarget ph pRes cli state) := by
  simp only [listTarget]
  split
  · refine names _ ?_ ?_
    · intro allowed allows
      refine ((only_smbwrpSpecialAdd _ _ _ _ none).mono allows.plain).bind fun _ => ?_
      refine ((only_smbwrpSpecialAdd _ _ _ _ none).mono allows.plain).bind fun _ => ?_
      refine Prog.only_perform_bind.mpr ⟨allows.looks _ _ trivial, fun domains => ?_⟩
      exact ((only_addShares _ _ _ _ none).mono allows.plain).bind fun _ => trivial
    · refine returns_smbwrpSpecialAdd ph _ _ _ (returns_smbwrpSpecialAdd ph _ _ _ ?_)
      exact Prog.returns_perform_bind.mpr fun domains => returns_addShares ph _ _ _ rfl
  · split
    · refine names _ ?_ ?_
      · intro allowed allows
        refine ((only_smbwrpSpecialAdd _ _ _ _ none).mono allows.plain).bind fun _ => ?_
        refine ((only_smbwrpSpecialAdd _ _ _ _ none).mono allows.plain).bind fun _ => ?_
        refine Prog.only_perform_bind.mpr ⟨allows.looks _ _ trivial, fun servers => ?_⟩
        exact ((only_addShares _ _ _ _ none).mono allows.plain).bind fun _ => trivial
      · refine returns_smbwrpSpecialAdd ph _ _ _ (returns_smbwrpSpecialAdd ph _ _ _ ?_)
        exact Prog.returns_perform_bind.mpr fun servers => returns_addShares ph _ _ _ rfl
    · split
      · refine names _ ?_ ?_
        · intro allowed allows
          refine ((only_smbwrpSpecialAdd _ _ _ _ none).mono allows.plain).bind fun _ => ?_
          refine ((only_smbwrpSpecialAdd _ _ _ _ none).mono allows.plain).bind fun _ => ?_
          refine Prog.only_perform_bind.mpr ⟨allows.looks _ _ trivial, fun rpc => ?_⟩
          refine ((only_addShares _ _ _ _ none).mono allows.plain).bind fun _ => ?_
          split
          · refine Prog.only_perform_bind.mpr ⟨allows.looks _ _ trivial, fun rap => ?_⟩
            refine ((only_addShares _ _ _ _ none).mono allows.plain).bind fun _ => ?_
            split
            · exact ⟨allows.looks _ _ trivial, fun _ => trivial⟩
            · trivial
          · trivial
        · refine returns_smbwrpSpecialAdd ph _ _ _ (returns_smbwrpSpecialAdd ph _ _ _ ?_)
          refine Prog.returns_perform_bind.mpr fun rpc => returns_addShares ph _ _ _ ?_
          split
          · refine Prog.returns_perform_bind.mpr fun rap => returns_addShares ph _ _ _ ?_
            split
            · exact fun _ => rfl
            · rfl
          · rfl
      · exact files

theorem only_listTarget {allowed : (R : Type) → Op R → Prop}
    (allows : Op.AllowsListings cli allowed) (pRes : Resource) (state : FilelistState) :
    (listTarget ph pRes cli state).Only allowed := by
  refine listTarget_cases ph cli pRes state (fun _ only _ => only _ allows.toAllowsPaths) ?_
  refine (only_listFiles ph _ (fun _ => (only_smbwrpDirAdd _ _ _ _ none).mono allows.plain) allows
    _ _ _).bind ?_
  rintro ⟨value, pdc⟩
  simp only
  split
  · exact ⟨allows.looks _ _ trivial, fun _ => trivial⟩
  · trivial

theorem only_smbwrpFilelist (pRes : Resource) (cli : Option Handle) (state : FilelistState) :
    (smbwrpFilelist ph pRes cli state).Only (Op.Lists cli) := by
  unfold smbwrpFilelist
  split
  · trivial
  · split
    · trivial
    · exact only_listTarget ph _ (allowsListings_lists _) pRes state

end Footprints

inductive Prepares (cli : Handle) : CallEvent → Prop
  | idle : Prepares cli ⟨.request cli .connHasAsyncCalls, false⟩
  | spoken : Prepares cli ⟨.request cli .connProtocolSmb2, true⟩
  | created (parentDir : CString) (fnum : UInt16) :
      Prepares cli ⟨.request cli (.cliSmb2CreateFnum parentDir), .ok fnum⟩
  | mapped (fnum : UInt16) : Prepares cli ⟨.request cli (.mapFnumToSmb2Handle fnum), ntStatusOk⟩

inductive Refuses (cli : Handle) : CallEvent → UInt32 → Prop
  | busy : Refuses cli ⟨.request cli .connHasAsyncCalls, true⟩ ntStatusInvalidParameter
  | smb1 : Refuses cli ⟨.request cli .connProtocolSmb2, false⟩ ntStatusInvalidParameter
  | unnamed (pathname : CString) :
      Refuses cli ⟨.request cli (.windowsParentDirname pathname), none⟩ ntStatusNoMemory
  | uncreated (parentDir : CString) (status : BadStatus) :
      Refuses cli ⟨.request cli (.cliSmb2CreateFnum parentDir), .error status⟩ status.1
  | unmapped (fnum : UInt16) {status : UInt32} (bad : status ≠ ntStatusOk) :
      Refuses cli ⟨.request cli (.mapFnumToSmb2Handle fnum), status⟩ status

/-- What is kept up to the first query, the mask that is then known, and what is to hold of
every end: behind a request that fails, behind the loops, and behind the close. -/
structure ContextRule {M : Type} (watch : Watch Op M) (ph : Platform) (searchAttr : UInt32)
    (fn : SmbwrpFileinfo → Program UInt32) (cli : Handle) (pdc : Option DirectoryCache)
    (dircachectx : Option DirectoryCacheEntry) (kept : M → Prop) (mask : M → CString)
    (post : Listed → M → Prop) : Prop where
  prepared : ∀ {memory event}, kept memory → Prepares cli event →
    kept (watch.observe memory event)
  sameMask : ∀ {memory event}, Prepares cli event → mask (watch.observe memory event) = mask memory
  named : ∀ {memory} pathname parent, kept memory →
    kept (watch.observe memory ⟨.request cli (.windowsParentDirname pathname), some parent⟩)
  mask_named : ∀ memory pathname (parent : CString × CString),
    mask (watch.observe memory ⟨.request cli (.windowsParentDirname pathname), some parent⟩) =
      parent.2
  refused : ∀ {memory event status}, kept memory → Refuses cli event status →
    post { status, pdc, detached := dircachectx } (watch.observe memory event)
  opened : ∀ {memory}, kept memory →
    watch.Ensures post (listOpened ph searchAttr fn pdc dircachectx cli (mask memory)) memory
  closed : ∀ {listed memory} fnum, post listed memory →
    post listed (watch.observe memory ⟨.request cli (.cliSmb2CloseFnum fnum), ()⟩)

namespace ContextRule

variable {ph} {M : Type} {watch : Watch Op M} {searchAttr : UInt32}
  {fn : SmbwrpFileinfo → Program UInt32} {cli : Handle} {pdc : Option DirectoryCache}
  {dircachectx : Option DirectoryCacheEntry} {kept : M → Prop} {mask : M → CString}
  {post : Listed → M → Prop} {memory : M}
  (rule : ContextRule watch ph searchAttr fn cli pdc dircachectx kept mask post)

include rule

theorem ensures_listMapped (before : kept memory) (fnum : UInt16) :
    watch.Ensures post
      (listMapped ph searchAttr fn pdc dircachectx cli fnum (mask memory)) memory := by
  refine Watch.ensures_perform_bind.mpr fun status _ => ?_
  split
  · rename_i bad
    exact rule.refused before (.unmapped fnum bad)
  · rename_i ok
    obtain rfl := not_not.mp ok
    have mapped := rule.opened (rule.prepared before (.mapped fnum))
    rwa [rule.sameMask (.mapped fnum)] at mapped

theorem ensures_closeFnum {fnum : UInt16} {listed : Listed} (ended : post listed memory) :
    watch.Ensures post (closeFnum cli fnum listed) memory := by
  unfold closeFnum
  split
  · exact fun _ _ => rule.closed fnum ended
  · exact ended

theorem ensures_listParent (before : kept memory) (parentDir : CString) :
    watch.Ensures post
      (listParent ph searchAttr fn pdc dircachectx cli parentDir (mask memory)) memory := by
  refine Watch.ensures_perform_bind.mpr fun created _ => ?_
  cases created with
  | error status => exact rule.refused before (.uncreated parentDir status)
  | ok fnum =>
      have created := rule.ensures_listMapped (rule.prepared before (.created parentDir fnum)) fnum
      rw [rule.sameMask (.created parentDir fnum)] at created
      apply created.bind
      exact fun listed later ended => rule.ensures_closeFnum ended

theorem ensures_listContext (before : kept memory) (pathname : CString) :
    watch.Ensures post (listContext ph searchAttr fn pdc dircachectx cli pathname) memory := by
  refine Watch.ensures_perform_bind.mpr fun asyncCalls _ => ?_
  cases asyncCalls with
  | true => exact rule.refused before .busy
  | false =>
      have idle := rule.prepared before .idle
      refine Watch.ensures_perform_bind.mpr fun smb2 _ => ?_
      cases smb2 with
      | false => exact rule.refused idle .smb1
      | true =>
          have spoken := rule.prepared idle .spoken
          refine Watch.ensures_perform_bind.mpr fun parent _ => ?_
          cases parent with
          | none => exact rule.refused spoken (.unnamed pathname)
          | some parent =>
              have named := rule.ensures_listParent (rule.named pathname parent spoken) parent.1
              rwa [rule.mask_named] at named

end ContextRule

/-- Over SMB1 these replies let the listing go on to the next request. -/
inductive Continues (cli : Handle) : CallEvent → Prop
  | idle : Continues cli ⟨.request cli .connHasAsyncCalls, false⟩
  | capable (ntSmbs : Bool) : Continues cli ⟨.request cli .connCapNtSmbs, ntSmbs⟩
  | sent (mask : CString) (searchAttr : UInt32) :
      Continues cli ⟨.request cli (.cliListSend mask searchAttr), true⟩
  | polled : Continues cli ⟨.request cli .teventReqPoll, true⟩

inductive Misses (cli : Handle) : CallEvent → Prop
  | busy : Misses cli ⟨.request cli .connHasAsyncCalls, true⟩
  | unsent (mask : CString) (searchAttr : UInt32) :
      Misses cli ⟨.request cli (.cliListSend mask searchAttr), false⟩
  | silent : Misses cli ⟨.request cli .teventReqPoll, false⟩
  | unreceived : Misses cli ⟨.request cli .cliListRecv, none⟩

structure ReceiveRule {M : Type} (watch : Watch Op M) (ph : Platform) (searchAttr : UInt32)
    (fn : SmbwrpFileinfo → Program UInt32) (cli : Handle) (pdc : Option DirectoryCache)
    (state : FilelistState) (kept : UInt32 → M → Prop)
    (post : UInt32 × Option DirectoryCache → M → Prop) : Prop where
  continued : ∀ {numFinfo memory event}, kept numFinfo memory → Continues cli event →
    kept numFinfo (watch.observe memory event)
  missed : ∀ {numFinfo memory event}, kept numFinfo memory → Misses cli event →
    post (numFinfo, pdc) (watch.observe memory event)
  received : ∀ {numFinfo memory} (infos : List FileInfo), kept numFinfo memory →
    watch.Ensures post (do
      let (dircachectx, pdc) ← dircacheWriteBegin ph pdc state infos.length
      let dircachectx ← listReceived fn infos dircachectx
      let pdc ← dircacheWriteEnd pdc dircachectx
      pure (UInt32.ofNat infos.length, pdc))
      (watch.observe memory ⟨.request cli .cliListRecv, some infos⟩)

theorem ReceiveRule.ensures_listFilesSmb1 {ph : Platform} {M : Type} {watch : Watch Op M}
    {searchAttr : UInt32} {fn : SmbwrpFileinfo → Program UInt32} {cli : Handle}
    {pdc : Option DirectoryCache} {state : FilelistState} {kept : UInt32 → M → Prop}
    {post : UInt32 × Option DirectoryCache → M → Prop} {memory : M}
    (rule : ReceiveRule watch ph searchAttr fn cli pdc state kept post)
    (before : ∀ numFinfo, kept numFinfo (watch.observe memory ⟨.uninitializedLong, numFinfo⟩))
    (mask : CString) :
    watch.Ensures post (listFilesSmb1 ph searchAttr fn pdc state cli mask) memory := by
  refine Watch.ensures_perform_bind.mpr fun numFinfo _ => ?_
  refine Watch.ensures_perform_bind.mpr fun asyncCalls _ => ?_
  cases asyncCalls with
  | true => exact rule.missed (before numFinfo) .busy
  | false =>
      have idle := rule.continued (before numFinfo) .idle
      refine Watch.ensures_perform_bind.mpr fun ntSmbs _ => ?_
      have capable := rule.continued idle (.capable ntSmbs)
      refine Watch.ensures_perform_bind.mpr fun sent _ => ?_
      cases sent with
      | false => exact rule.missed capable (.unsent mask searchAttr)
      | true =>
          have sent := rule.continued capable (.sent mask searchAttr)
          refine Watch.ensures_perform_bind.mpr fun polled _ => ?_
          cases polled with
          | false => exact rule.missed sent .silent
          | true =>
              have polled := rule.continued sent .polled
              refine Watch.ensures_perform_bind.mpr fun received _ => ?_
              cases received with
              | none => exact rule.missed polled .unreceived
              | some infos => exact rule.received infos polled

end Find

end NdpSmb
