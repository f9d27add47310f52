import NdpSmb.PathCalls

/-! The entry points of `ndpsmb.c` that open a file or work on the open one. -/

namespace NdpSmb

open ByteString Interaction

def setOpenEas (s : Session) (pFEAList : List UInt8) : Program Int :=
  if s.pConn.file.fd < 0 then pure errorInvalidHandle
  else easetRecords pFEAList (smbwrpFsetea s.pConn.cli s.pConn.file)

def ndpFileEASet (s : Session) (pFEAList : Option (List UInt8)) : Program Int :=
  match pFEAList with
  | none => pure errorEasNotSupported
  | some pFEAList => do
      let cbList ← loadLong .feaList pFEAList 0
      if cbList ≤ sizeofLong then pure errorEasNotSupported
      else if s.pRes.easupport = 0 then pure errorEasNotSupported
      else guarded id (setOpenEas s pFEAList)

section Open

variable (ph : Platform)

/-- `ulOpenMode & 3` as flags of `open`; a file to be written is opened for reading too. -/
def accessFlags (ulOpenMode : UInt32) : UInt32 :=
  if ulOpenMode &&& 3 = 0 then oRdonly else oRdwr

def SmbwrpFile.opening (file : SmbwrpFile) (szFileName path : CString)
    (flags ulOpenMode ulAttribute : UInt32) : SmbwrpFile :=
  { file with
    fullname := szFileName.take 260, fname := path.take 260
    openmode := flags ||| oBinary ||| accessFlags ulOpenMode
    openattr := ulAttribute &&& attrMask
    denymode := (ulOpenMode &&& 0x70) >>> 4 }

/-- A handle of zero does not count as an open file. -/
def openPath (s : Session) (szFileName : CString) (flags ulOpenMode ulAttribute : UInt32) :
    Program (Int × Session) :=
  if s.pConn.file.fd > 0 then pure (errorTooManyOpenFiles, s) else do
    let (rc, s, path) ← pathparser ph s szFileName
    if rc ≠ 0 then pure (rc, s) else do
      let (rc, file) ← smbwrpOpen s.pConn.cli
        (s.pConn.file.opening szFileName path flags ulOpenMode ulAttribute)
      pure (rc, { s with pConn := { s.pConn with file } })

/-- The attributes of a file that has been opened, in a nested call. -/
def easOnOpen (rc : Int) (s : Session) (pFEAList : Option (List UInt8)) : Program Unit :=
  if rc = 0 ∧ pFEAList.isSome then do
    let _ ← ndpFileEASet s pFEAList
    pure ()
  else pure ()

/-- Only `O_CREAT` drops the listing of the parent. -/
def smbopen (s : Session) (szFileName : CString) (flags ulOpenMode ulAttribute : UInt32)
    (pFEAList : Option (List UInt8)) : Program (Int × Session) :=
  guarded (fun rcLock => (rcLock, s)) do
    let (rc, s) ← openPath ph (if flags &&& oCreat ≠ 0 then s.invalidateParent ph szFileName else s)
      szFileName flags ulOpenMode ulAttribute
    easOnOpen rc s pFEAList
    pure (rc, s)

def ndpOpenReplace (s : Session) (szFileName : CString) (ulOpenMode ulAttribute : UInt32)
    (pFEAList : Option (List UInt8)) : Program (Int × Session) :=
  smbopen ph s szFileName oTrunc ulOpenMode ulAttribute pFEAList

def ndpOpenReplaceL (s : Session) (szFileName : CString) (ulOpenMode ulAttribute : UInt32)
    (pFEAList : Option (List UInt8)) : Program (Int × Session) :=
  smbopen ph s szFileName oTrunc ulOpenMode ulAttribute pFEAList

def ndpOpenCreate (s : Session) (szFileName : CString) (ulOpenMode ulAttribute : UInt32)
    (pFEAList : Option (List UInt8)) : Program (Int × Session) :=
  smbopen ph s szFileName (oCreat ||| oExcl) ulOpenMode ulAttribute pFEAList

def ndpOpenCreateL (s : Session) (szFileName : CString) (ulOpenMode ulAttribute : UInt32)
    (pFEAList : Option (List UInt8)) : Program (Int × Session) :=
  smbopen ph s szFileName (oCreat ||| oExcl) ulOpenMode ulAttribute pFEAList

def ndpOpenExisting (s : Session) (szFileName : CString) (ulOpenMode : UInt32) :
    Program (Int × Session) :=
  smbopen ph s szFileName 0 ulOpenMode 0 none

def Session.withFile (s : Session) (file : SmbwrpFile) : Session :=
  { s with pConn := { s.pConn with file } }

def queryOpenInfo (s : Session) : Program Int :=
  if s.pConn.file.fd < 0 ∨ s.pConn.file.fname = [] then pure errorInvalidHandle else do
    let finfo ← perform Op.uninitializedFileinfo
    if s.pConn.file.fname.length ≥ 260 then .fault else do
      let (rc, finfo) ← smbwrpFgetattr s.pConn.cli s.pConn.file
        { finfo with fname := s.pConn.file.fname }
      if rc = 0 then do
        giveFileinfo ph s finfo
        pure rc
      else pure rc

def ndpFileQueryInfo (s : Session) : Program Int := guarded id (queryOpenInfo ph s)

/-- Without an open file the log line reads through a pointer that was never set. -/
def queryOpenEas (s : Session) (pchBuffer : List UInt8) (pGEAList : Option (List UInt8))
    (pFEAList : List UInt8) : Program (Int × Option (List UInt8)) :=
  if s.pConn.file.fd < 0 then logFreed (errorInvalidHandle, some pFEAList) else do
    let (rc, pFEAList) ← askEas (smbwrpFlistea s.pConn.cli s.pConn.file) pchBuffer pGEAList pFEAList
    pure (rc, some pFEAList)

def ndpFileEAQuery (s : Session) (pGEAList pFEAList : Option (List UInt8)) :
    Program (Int × Option (List UInt8)) :=
  match pFEAList with
  | none => pure (errorEasNotSupported, none)
  | some pFEAList =>
      if s.pRes.easupport = 0 then pure (errorEasNotSupported, some pFEAList) else do
        let malloced ← perform (Op.mallocBuffer cbBuffer)
        match malloced with
        | none => pure (errorNotEnoughMemory, some pFEAList)
        | some pchBuffer =>
            guarded (fun rcLock => (rcLock, some pFEAList))
              (queryOpenEas s pchBuffer.1 pGEAList pFEAList)

def ndpFileEASize (s : Session) : Program (Int × Option Nat) :=
  if s.pRes.easupport = 0 then pure (errorEasNotSupported, none) else do
    let malloced ← perform (Op.mallocBuffer cbBuffer)
    match malloced with
    | none => pure (errorNotEnoughMemory, none)
    | some pchBuffer =>
        guarded (fun rcLock => (rcLock, none))
          (if s.pConn.file.fd < 0 then pure (errorInvalidHandle, none)
          else askEaSize (smbwrpFlistea s.pConn.cli s.pConn.file) pchBuffer.1)

/-- Attributes and time are deferred until the file is closed. -/
def ndpFileSetInfo (s : Session) (stat : Filestatus3L) : Program (Int × Session) :=
  let dropped := s.invalidateParent ph s.pConn.file.fullname
  guarded (fun rcLock => (rcLock, s)) <|
    if s.pConn.file.fd < 0 ∨ s.pConn.file.fname = [] then pure (noError, dropped)
    else pure (noError, dropped.withFile { s.pConn.file with
      openattr := stat.attrFile
      mtime := fsphDosDateToUnixTime ph stat.fdateLastWrite stat.ftimeLastWrite
      updatetime := 2 })

def seekOpen (s : Session) (llOffset : Int) (ulMethod : UInt32) :
    Program (Int × Session × Option UInt64) :=
  if s.pConn.file.fd < 0 then pure (errorInvalidHandle, s, none) else do
    let (rc, file) ← smbwrpLseek s.pConn.cli s.pConn.file ulMethod llOffset
    pure (rc, s.withFile file, if rc = 0 then some file.offset else none)

def ndpFileSetFilePtrL (s : Session) (llOffset : Int) (ulMethod : UInt32) :
    Program (Int × Session × Option UInt64) :=
  guarded (fun rcLock => (rcLock, s, none)) (seekOpen s llOffset ulMethod)

/-- `llActual` is read even where it was not set. -/
def ndpFileSetFilePtr (s : Session) (lOffset : Int) (ulMethod : UInt32) :
    Program (Int × Session × UInt32) := do
  let unset ← perform Op.uninitializedLong
  let (rc, s, actual) ← ndpFileSetFilePtrL s lOffset ulMethod
  pure (rc, s, match actual with | some offset => offset.toUInt32 | none => unset)

/-- The file counts as closed whatever the server answers. -/
def closeOpen (s : Session) : Program (Int × Session) :=
  if s.pConn.file.fd < 0 then pure (errorInvalidHandle, s.withFile { s.pConn.file with fd := -1 })
  else do
    let (rc, file) ← smbwrpClose s.pConn.cli s.pConn.file
    pure (rc, s.withFile { file with fd := -1 })

def ndpFileClose (s : Session) : Program (Int × Session) :=
  guarded (fun rcLock => (rcLock, s)) (closeOpen s)

def ndpFileCommit : Program Int := pure noError

/-- The listing of the parent is kept. -/
def ndpFileNewSizeL (s : Session) (llLen : Int) : Program Int :=
  guarded id
    (if s.pConn.file.fd < 0 then pure errorInvalidHandle
    else smbwrpSetfilesize s.pConn.cli s.pConn.file llLen)

def ndpFileNewSize (s : Session) (ulLen : UInt32) : Program Int := ndpFileNewSizeL s ulLen.toNat

/-- The number of bytes that `smbwrp_read` reports, or what was on the stack. -/
def readActual (data : Option (List UInt8)) : Program UInt32 :=
  match data with
  | some data => pure (UInt32.ofNat data.length)
  | none => perform Op.uninitializedLong

/-- Data that was read counts as success; the count is given only then. -/
def readOpen (s : Session) (hasBuffer : Bool) (ulRead : UInt32) :
    Program (Int × Session × Option UInt32 × Option (List UInt8)) := do
  let (rc, file, data) ← smbwrpRead s.pConn.cli s.pConn.file hasBuffer ulRead
  let ulActual ← readActual data
  let rc := if ulActual > 0 then noError else rc
  pure (rc, s.withFile file, if rc = noError then some ulActual else none, data)

def ndpFileRead (s : Session) (hasBuffer : Bool) (ulRead : UInt32) :
    Program (Int × Session × Option UInt32 × Option (List UInt8)) :=
  guarded (fun rcLock => (rcLock, s, none, none)) (readOpen s hasBuffer ulRead)

def writeOpen (s : Session) (pBuffer : Option (List UInt8)) :
    Program (Int × Session × Option UInt32) :=
  if s.pConn.file.fd < 0 then pure (errorInvalidHandle, s, none) else do
    let (rc, file, done) ← smbwrpWrite s.pConn.cli s.pConn.file pBuffer
    pure (rc, s.withFile file, done)

def ndpFileWrite (s : Session) (pBuffer : Option (List UInt8)) :
    Program (Int × Session × Option UInt32) :=
  guarded (fun rcLock => (rcLock, s, none))
    (writeOpen (s.invalidateParent ph s.pConn.file.fullname) pBuffer)

end Open

end NdpSmb
