import NdpSmb.PathParser
import NdpSmb.ListFiles
import NdpSmb.EaList

/-!
The entry points of `ndpsmb.c` that work on a path. Every one of them takes the
plugin's mutex, as in the build with `LIBSMB_THREAD_SAFE` zero.
-/

namespace NdpSmb

open ByteString Interaction

def enter {α : Type} (refused : Int → α) (body : Program α) : Program α := do
  let rcLock ← perform Op.fsphRequestMutex
  if rcLock ≠ 0 then pure (refused rcLock) else body

def leave : Program Unit := perform Op.fsphReleaseMutex

def guarded {α : Type} (refused : Int → α) (work : Program α) : Program α :=
  enter refused do
    let answer ← work
    leave
    pure answer

section Guarded

variable {M α : Type} {watch : Watch Op M} {refused : Int → α} {post : α → M → Prop} {memory : M}

theorem ensures_enter {body : Program α}
    (denied : ∀ rcLock ≠ 0, watch.admits memory ⟨.fsphRequestMutex, rcLock⟩ →
      post (refused rcLock) (watch.observe memory ⟨.fsphRequestMutex, rcLock⟩))
    (taken : watch.admits memory ⟨.fsphRequestMutex, (0 : Int)⟩ →
      watch.Ensures post body (watch.observe memory ⟨.fsphRequestMutex, (0 : Int)⟩)) :
    watch.Ensures post (enter refused body) memory := by
  refine Watch.ensures_bind.mpr fun rcLock admitted => ?_
  rw [Watch.ensures_ret]
  split
  · rename_i failed
    exact denied rcLock failed admitted
  · rename_i zero
    obtain rfl := not_not.mp zero
    exact taken admitted

theorem ensures_guarded {work : Program α}
    (denied : ∀ rcLock ≠ 0, watch.admits memory ⟨.fsphRequestMutex, rcLock⟩ →
      post (refused rcLock) (watch.observe memory ⟨.fsphRequestMutex, rcLock⟩))
    (worked : watch.admits memory ⟨.fsphRequestMutex, (0 : Int)⟩ →
      watch.Ensures (fun answer later => watch.admits later ⟨.fsphReleaseMutex, ()⟩ →
        post answer (watch.observe later ⟨.fsphReleaseMutex, ()⟩)) work
        (watch.observe memory ⟨.fsphRequestMutex, (0 : Int)⟩)) :
    watch.Ensures post (guarded refused work) memory := by
  refine ensures_enter denied fun admitted => Watch.ensures_bind.mpr ?_
  exact (worked admitted).mono fun answer later released _ allowed => released allowed

theorem ensures_of_guarded {work : Program α}
    (ensured : watch.Ensures post (guarded refused work) memory)
    (admitted : watch.admits memory ⟨.fsphRequestMutex, (0 : Int)⟩) :
    watch.Ensures (fun answer later => watch.admits later ⟨.fsphReleaseMutex, ()⟩ →
      post answer (watch.observe later ⟨.fsphReleaseMutex, ()⟩)) work
      (watch.observe memory ⟨.fsphRequestMutex, (0 : Int)⟩) := by
  have worked := Watch.ensures_perform_bind.mp ensured 0 admitted
  rw [if_neg (not_not.mpr rfl)] at worked
  exact (Watch.ensures_bind.mp worked).mono fun answer later left released => left () released

theorem returns_guarded {post : α → Prop} {work : Program α}
    (denied : ∀ rcLock ≠ 0, post (refused rcLock)) (worked : work.Returns post) :
    (guarded refused work).Returns post := by
  refine Prog.returns_perform_bind.mpr fun rcLock => ?_
  split
  · rename_i failed
    exact denied rcLock failed
  · exact Prog.returns_bind.mpr (worked.mono fun answer after _ => after)

end Guarded

/-- A list without a record is refused before the mutex is taken. -/
def helperEASet (cli : Option Handle) (pFEAList : Option (List UInt8)) (path : CString) :
    Program Int :=
  match pFEAList with
  | none => pure errorEasNotSupported
  | some pFEAList => do
      let cbList ← loadLong .feaList pFEAList 0
      if cbList ≤ sizeofLong then pure errorEasNotSupported
      else guarded id (easetRecords pFEAList (smbwrpSetea cli path))

def pluginData : Program (Option SmbwrpFileinfo) := do
  let (rc, fdata) ← perform Op.fsphGetFileInfoData
  if rc ≠ 0 then pure none else pure fdata

def cbBuffer : Nat := 64 * 1024

/-- The length that the answer carries when the server's list was not copied. -/
def setCbList (pFEAList : List UInt8) (cbList : Nat) : Program (List UInt8) :=
  storeBytes .feaList pFEAList 0 (encodeLittle 4 cbList)

def answerEas (rc : Int) (pchBuffer : List UInt8) (pGEAList : Option (List UInt8))
    (pFEAList : List UInt8) : Program (Int × List UInt8) :=
  if rc = 0 then buildFEALIST pchBuffer pGEAList pFEAList
  else if rc = errorFileNotFound ∨ rc = errorPathNotFound then do
    let pFEAList ← setCbList pFEAList sizeofLong
    pure (noError, pFEAList)
  else if rc = errorBufferOverflow then do
    let cbList ← loadLong .scratch pchBuffer 0
    let pFEAList ← setCbList pFEAList cbList
    pure (rc, pFEAList)
  else pure (errorEasNotSupported, pFEAList)

/-- The log line after `free` still reads the freed list. -/
def logFreed {α : Type} (answer : α) : Program α := do
  let lives ← perform Op.strayRead
  if lives then pure answer else .fault

def askEas (listea : List UInt8 → Nat → Program (Int × List UInt8)) (pchBuffer : List UInt8)
    (pGEAList : Option (List UInt8)) (pFEAList : List UInt8) : Program (Int × List UInt8) := do
  let (rc, pchBuffer) ← listea pchBuffer cbBuffer
  let (rc, pFEAList) ← answerEas rc pchBuffer pGEAList pFEAList
  logFreed (rc, pFEAList)

/-- Every error of the query is reported as `ERROR_EAS_NOT_SUPPORTED`. -/
def queryEas (s : Session) (fname : CString) (pGEAList : Option (List UInt8))
    (pFEAList : List UInt8) : Program (Int × Option (List UInt8)) := do
  let malloced ← perform (Op.mallocBuffer cbBuffer)
  match malloced with
  | none => pure (errorNotEnoughMemory, some pFEAList)
  | some pchBuffer => do
      let (rc, pFEAList) ← askEas (smbwrpListea s.pConn.cli fname) pchBuffer.1 pGEAList pFEAList
      pure (if rc ≠ 0 then errorEasNotSupported else rc, some pFEAList)

/-- The answer also carries what is left in the caller's list. -/
def ndpEAQuery (s : Session) (pGEAList : Option (List UInt8)) (pFEAList : Option (List UInt8)) :
    Program (Int × Option (List UInt8)) :=
  match pFEAList with
  | none => pure (errorEasNotSupported, none)
  | some pFEAList =>
      if s.pRes.easupport = 0 then pure (errorEasNotSupported, some pFEAList) else do
        let fdata ← pluginData
        match fdata with
        | none => pure (errorEasNotSupported, some pFEAList)
        | some finfo =>
            guarded (fun rcLock => (rcLock, some pFEAList))
              (queryEas s finfo.fname pGEAList pFEAList)

def ndpEASet (s : Session) (pFEAList : Option (List UInt8)) : Program Int :=
  if s.pRes.easupport = 0 then pure errorEasNotSupported else do
    let fdata ← pluginData
    match fdata with
    | none => pure errorEasNotSupported
    | some finfo => do
        let rc ← helperEASet s.pConn.cli pFEAList finfo.fname
        pure (if rc ≠ 0 then errorEasNotSupported else rc)

def answerEaSize (rc : Int) (pchBuffer : List UInt8) : Program (Int × Option Nat) :=
  if rc = errorFileNotFound ∨ rc = errorPathNotFound then do
    let pchBuffer ← storeBytes .scratch pchBuffer 0 (encodeLittle 4 sizeofLong)
    let cbList ← loadLong .scratch pchBuffer 0
    pure (noError, some cbList)
  else do
    let cbList ← loadLong .scratch pchBuffer 0
    pure (if rc = 0 ∨ rc = errorBufferOverflow then noError else errorEasNotSupported, some cbList)

def askEaSize (listea : List UInt8 → Nat → Program (Int × List UInt8)) (pchBuffer : List UInt8) :
    Program (Int × Option Nat) := do
  let (rc, pchBuffer) ← listea pchBuffer cbBuffer
  answerEaSize rc pchBuffer

def queryEaSize (s : Session) (fname : CString) : Program (Int × Option Nat) := do
  let malloced ← perform (Op.mallocBuffer cbBuffer)
  match malloced with
  | none => pure (errorNotEnoughMemory, none)
  | some pchBuffer => askEaSize (smbwrpListea s.pConn.cli fname) pchBuffer.1

/-- A size that is stored with the file is used once. -/
def sizeOfFile (s : Session) (finfo : SmbwrpFileinfo) : Program (Int × Option Nat) := do
  perform (Op.setFileInfoData { finfo with easize := -1 })
  if finfo.easize ≥ 0 then pure (noError, some finfo.easize.toNat)
  else queryEaSize s finfo.fname

def ndpEASize (s : Session) : Program (Int × Option Nat) :=
  if s.pRes.easupport = 0 then pure (errorEasNotSupported, none) else do
    let fdata ← pluginData
    match fdata with
    | none => pure (errorEasNotSupported, none)
    | some finfo => guarded (fun rcLock => (rcLock, none)) (sizeOfFile s finfo)

section Paths

variable (ph : Platform)

def Session.invalidateParent (s : Session) (path : CString) : Session :=
  { s with pRes := { s.pRes with pdc := dircacheInvalidate ph path s.pRes.pdc true } }

def onPath (s : Session) (szPath : CString) (act : Session → CString → Program Int) :
    Program (Int × Session) := do
  let (rc, s, path) ← pathparser ph s szPath
  if rc ≠ 0 then pure (rc, s) else do
    let rc ← act s path
    pure (rc, s)

def pathCall (s : Session) (szPath : CString) (act : Session → CString → Program Int) :
    Program (Int × Session) :=
  guarded (fun rcLock => (rcLock, s)) (onPath ph s szPath act)

def mutatingCall (s : Session) (szPath : CString) (act : Session → CString → Program Int) :
    Program (Int × Session) :=
  guarded (fun rcLock => (rcLock, s)) (onPath ph (s.invalidateParent ph szPath) szPath act)

def ndpSetPathInfo (s : Session) (stat : Filestatus3L) (szPathName : CString) :
    Program (Int × Session) :=
  mutatingCall ph s szPathName fun s path => smbwrpSetattr s.pConn.cli {
    fname := path.take 260
    mtime := fsphDosDateToUnixTime ph stat.fdateLastWrite stat.ftimeLastWrite
    attr := stat.attrFile &&& attrMask }

/-- The cached listing of the parent is kept. -/
def ndpSetFileAttribute (s : Session) (szFileName : CString) (usAttr : UInt32) :
    Program (Int × Session) :=
  pathCall ph s szFileName fun s path => smbwrpSetattr s.pConn.cli {
    fname := path.take 260, attr := usAttr &&& attrMask }

def ndpSetCurrentDir (s : Session) (szPath : CString) : Program (Int × Session) :=
  pathCall ph s szPath fun s path => smbwrpChdir s.pRes.srv s.pConn.cli path

def ndpForceDelete (s : Session) (szFile : CString) : Program (Int × Session) :=
  mutatingCall ph s szFile fun s path => smbwrpUnlink s.pConn.cli path

def ndpDeleteDir (s : Session) (szDir : CString) : Program (Int × Session) :=
  mutatingCall ph s szDir fun s path => smbwrpRmdir s.pConn.cli path

/-- The path is also wanted after the directory could not be created. -/
def makeDir (s : Session) (szDirName : CString) : Program (Int × Session × CString) := do
  let (rc, s, path) ← pathparser ph s szDirName
  if rc ≠ 0 then pure (rc, s, path) else do
    let rc ← smbwrpMkdir s.pConn.cli path
    pure (rc, s, path)

/-- The attributes are set after `LEAVE`, whether or not the directory was created. -/
def setDirEas (rc : Int) (s : Session) (path : CString) (pFEAList : Option (List UInt8)) :
    Program (Int × Session) :=
  let answer := (if rc ≠ 0 then errorNetworkAccessDenied else rc, s)
  if s.pRes.easupport ≠ 0 then do
    let _ ← helperEASet s.pConn.cli pFEAList path
    pure answer
  else pure answer

def ndpCreateDir (s : Session) (szDirName : CString) (pFEAList : Option (List UInt8)) :
    Program (Int × Session) :=
  enter (fun rcLock => (rcLock, s)) do
    let (rc, s, path) ← makeDir ph (s.invalidateParent ph szDirName) szDirName
    leave
    setDirEas rc s path pFEAList

/-- The part of `szDst` that is passed to the server, when the components that choose
the share are those of `szSrc`; `none` when it starts behind the terminator. -/
def moveTarget (szSrc szDst src : CString) : Option (Except Int CString) :=
  if szSrc.length > src.length then
    let taken := szSrc.length - src.length
    if ph.SameName (szSrc.take taken) (szDst.take taken) then
      if szDst.length < taken + 1 then none else some (.ok (szDst.drop (taken + 1)))
    else some (.error errorWriteProtect)
  else some (.ok szDst)

def renameOn (szSrc szDst : CString) (s : Session) (src : CString) : Program Int :=
  match moveTarget ph szSrc szDst src with
  | none => .fault
  | some (.error rc) => pure rc
  | some (.ok p) => smbwrpRename s.pConn.cli src p

def ndpMove (s : Session) (szDst szSrc : CString) : Program (Int × Session) :=
  guarded (fun rcLock => (rcLock, s)) <|
    onPath ph ((s.invalidateParent ph szSrc).invalidateParent ph szDst) szSrc
      (renameOn ph szSrc szDst)

def ndpRename (s : Session) (szDst szSrc : CString) : Program (Int × Session) :=
  ndpMove ph s szDst szSrc

def ndpChangeCase (s : Session) (szDst szSrc : CString) : Program (Int × Session) :=
  ndpMove ph s szDst szSrc

/-- Connect anew; a handle that is refused leaves the old one where it was. -/
def reconnect (s : Session) : Program (Int × Session) := do
  let reply ← perform s.pRes.connect
  match reply with
  | .refused rc => pure (rc.1, s)
  | .connected cli => pure (0, { s with pConn := { s.pConn with cli := some cli } })

def giveFileinfo (s : Session) (finfo : SmbwrpFileinfo) : Program Unit := do
  let _ ← getfindinfoL ph s.pRes.srv { finfo with easize := -1 } 0 none
  pure ()

def parserRc (rc : Int) : Int :=
  if rc = noError ∨ rc = errorFileNotFound ∨ rc = errorPathNotFound ∨ rc = errorAccessDenied ∨
    rc = errorInvalidParameter then rc else errorPathNotFound

def getattrRc (rc : Int) : Int :=
  if rc = errorRemNotList then rc else parserRc rc

def retryGetattr (s : Session) (finfo : SmbwrpFileinfo) (rc : Int) :
    Program (Int × Session × SmbwrpFileinfo) :=
  if rc = errorRemNotList then do
    smbwrpDisconnect s.pConn.cli
    let (rcCon, s) ← reconnect s
    if rcCon = 0 then do
      let (rc, finfo) ← smbwrpGetattr s.pRes.srv s.pConn.cli finfo
      pure (getattrRc rc, s, finfo)
    else pure (getattrRc rc, s, finfo)
  else pure (getattrRc rc, s, finfo)

def upperPath (s : Session) (finfo : SmbwrpFileinfo) : Program Int :=
  match cutLast backslash finfo.fname with
  | none => pure errorFileNotFound
  | some (upper, _) =>
      if upper = [] then pure errorFileNotFound else do
        let (rc, finfo) ← smbwrpGetattr s.pRes.srv s.pConn.cli { finfo with fname := upper }
        if rc = noError then
          pure (if finfo.attr &&& aDir ≠ 0 then errorFileNotFound else errorPathNotFound)
        else pure (if rc = errorRemNotList then rc else errorPathNotFound)

def queryAlive (s : Session) (finfo : SmbwrpFileinfo) : Program (Int × Session) := do
  let (rc, finfo) ← smbwrpGetattr s.pRes.srv s.pConn.cli finfo
  let (rc, s, finfo) ← retryGetattr s finfo rc
  if rc = noError then do
    giveFileinfo ph s finfo
    pure (rc, s)
  else if rc = errorFileNotFound then do
    let rc ← upperPath s finfo
    pure (rc, s)
  else pure (rc, s)

/-- The echo before the question. When it fails and the server cannot be connected
anew, the function returns without `LEAVE`. -/
def queryServer (s : Session) (finfo : SmbwrpFileinfo) : Program (Int × Session) := do
  let rc ← smbwrpEcho s.pConn.cli
  if rc ≠ 0 then do
    let (rcCon, s) ← reconnect s
    if rcCon ≠ 0 then pure (errorPathNotFound, s) else do
      let answer ← queryAlive ph s finfo
      leave
      pure answer
  else do
    let answer ← queryAlive ph s finfo
    leave
    pure answer

/-- The branch that asks the server; `finfo` still holds what was on the stack, so that
a path without room for its terminator has no end there. -/
def queryNetwork (s : Session) (szPath : CString) (finfo : SmbwrpFileinfo) :
    Program (Int × Session) := do
  let (rc, s, path) ← pathparser ph s szPath
  if parserRc rc ≠ 0 then do
    leave
    pure (parserRc rc, s)
  else if path.length ≥ 260 then .fault
  else queryServer ph s { finfo with fname := path }

def queryUncached (s : Session) (szPath : CString) (cached : Option SmbwrpFileinfo) :
    Program (Int × Session) :=
  match cached with
  | some finfo => queryNetwork ph s szPath finfo
  | none => do
      let finfo ← perform Op.uninitializedFileinfo
      queryNetwork ph s szPath finfo

def ndpQueryPathInfo (s : Session) (szPath : CString) : Program (Int × Session) :=
  enter (fun rcLock => (rcLock, s)) do
    if hasWildcard szPath then do
      leave
      pure (errorFileNotFound, s)
    else do
      let found ← dircacheFindPath ph s.pRes.pdc szPath
      match found with
      | some (finfo, ulAge) =>
          if ulAge ≤ 15 then do
            giveFileinfo ph s finfo
            leave
            pure (noError, s)
          else queryUncached ph s szPath (some finfo)
      | none => queryUncached ph s szPath none

def isSlash (letter : UInt8) : Bool := letter = backslash ∨ letter = 47

def getlastslash (path : CString) : Option Nat :=
  (path.reverse.findIdx? isSlash).map fun index => path.length - 1 - index

def lastIsBackslash (path : CString) : Bool := path.getLast? = some backslash

def findDirectory (szPath : CString) (pel : Option Ndpathelement) : Option CString :=
  let dir := szPath.take cchmaxpath
  let cut := match pel with
    | none => some dir
    | some pel =>
        if pel.length > szPath.length ∨ szPath.length - pel.length > cchmaxpath then none
        else some (dir.take (szPath.length - pel.length))
  match cut with
  | none => none
  | some [] => none
  | some dir => some (if lastIsBackslash dir then dir.dropLast else dir)

def serverMask (mask : CString) : Option CString :=
  match getlastslash mask with
  | some index => if index + 2 ≥ maxPath then none else some (mask.take (index + 1) ++ [42])
  | none => some (bytes "\\*")

/-- The structure handed to the listing; `none` where one of its buffers overflows. -/
def findState (szPath path mask : CString) (ulAttribute : UInt32) : Option FilelistState :=
  let dir := if lastIsBackslash path then path else path ++ [backslash]
  let full := dir ++ mask.take cchmaxpath
  if dir.length ≥ maxPath ∨ full.length ≥ maxPath ∨ mask.length ≥ maxPath then none
  else (serverMask full).map fun search =>
    { mask := search, dir, dirMask := mask, ulAttribute, fullpath := szPath }

def Session.withCache (s : Session) (pdc : Option DirectoryCache) : Session :=
  { s with pRes := { s.pRes with pdc := pdc } }

def filelistOn (s : Session) (state : FilelistState) : Program (Int × Session) := do
  let (rc, pdc) ← smbwrpFilelist ph s.pRes s.pConn.cli state
  pure (rc, s.withCache pdc)

/-- After a lost connection the listing is tried again, connected or not. -/
def findAlive (s : Session) (state : FilelistState) : Program (Int × Session) := do
  let (rc, s) ← filelistOn ph s state
  if rc = errorRemNotList then do
    smbwrpDisconnect s.pConn.cli
    let (_, s) ← reconnect s
    let (rc, s) ← filelistOn ph s state
    leave
    pure (rc, s)
  else do
    leave
    pure (rc, s)

/-- When the echo fails and the server cannot be connected anew, the function returns
without `LEAVE`. -/
def findServer (s : Session) (state : FilelistState) : Program (Int × Session) := do
  let rc ← smbwrpEcho s.pConn.cli
  if rc ≠ 0 then do
    let (rcCon, s) ← reconnect s
    if rcCon ≠ 0 then pure (errorPathNotFound, s) else findAlive ph s state
  else findAlive ph s state

def findMask (pel : Option Ndpathelement) : CString :=
  match pel with
  | some pel => pel.name
  | none => bytes "*"

/-- A path that cannot be parsed is answered without `LEAVE`. -/
def ndpFindStart (s : Session) (szPath : CString) (ulAttribute : UInt32) :
    Program (Int × Session) := do
  let pel ← perform Op.fsphNameElem
  enter (fun rcLock => (rcLock, s)) do
    match findDirectory szPath pel with
    | none => .fault
    | some dir => do
        let (rc, s, path) ← pathparser ph s dir
        if rc ≠ 0 then pure (rc, s) else
        match findState szPath path (findMask pel) ulAttribute with
        | none => .fault
        | some state => findServer ph s state

end Paths

/-! Entry points that do nothing or refuse. -/

def ndpCopy : Program Int := pure errorCannotCopy

def ndpCopy2 : Program Int := pure errorCannotCopy

def ndpMove2 : Program Int := pure errorWriteProtect

def ndpDeletePathInfo : Program Int := pure noError

def ndpRefresh : Program Int := pure noError

def ndpDiscardResourceData : Program Int := pure noError

def ndpFlush : Program Int := pure errorNotSupported

end NdpSmb
