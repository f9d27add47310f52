import NdpSmb.FileCalls

/-! The entry points of `ndpsmb.c` for the plugin itself, its resources and its connections. -/

namespace NdpSmb

open ByteString Interaction

def fromhex (c : UInt8) : UInt8 :=
  if 48 ≤ c ∧ c ≤ 57 then c - 48
  else if 65 ≤ c ∧ c ≤ 70 then c - 65 + 0xA
  else if 97 ≤ c ∧ c ≤ 102 then c - 97 + 0xA
  else 0

def tohex (b : UInt8) : UInt8 :=
  let b := b &&& 0xF
  if b ≤ 9 then b + 48 else 65 + (b - 0xA)

/-- The two digits of a byte, the first one first; `none` when the loop steps over the
terminator. -/
def decryptBytes : CString → Option (List UInt8)
  | [] => some []
  | [_] => none
  | first :: second :: rest =>
      (decryptBytes rest).map fun plain => ((fromhex first <<< 4) + fromhex second) :: plain

def decryptPassword (pszCrypt : CString) : Option CString :=
  match decryptBytes pszCrypt with
  | none => none
  | some plain => if plain.length ≥ 1024 then none else some (beforeFirst 0 plain)

def encryptPassword (pszPlain : CString) : CString :=
  pszPlain.flatMap fun (letter : UInt8) => [tohex (letter >>> 4), tohex letter]

/-! Reading the properties of a resource. -/

/-- A string property that is set and not empty, cut to its field. -/
def queryString (name : CString) : Program (Option CString) := do
  let (rc, q, t) ← perform (Op.fsphQueryStringProperty name)
  if rc ≠ 0 ∨ t = 0 then pure none else
  match q with
  | none => .fault
  | some q => if q = [] then pure none else pure (some (q.take 255))

def queryUlong (name : CString) (largest : UInt32) : Program (Int × Option UInt32) := do
  let (rc, t) ← perform (Op.fsphQueryUlongProperty name)
  if rc ≠ 0 then pure (rc, none)
  else if t > largest then pure (errorInvalidParameter, none)
  else pure (rc, some t)

def withWorkgroup (pRes : Resource) : Program Resource := do
  let q ← queryString (bytes "WORKGROUP")
  match q with
  | none => pure pRes
  | some workgroup => pure { pRes with srv := { pRes.srv with workgroup }, rootlevel := 1 }

def withServer (pRes : Resource) : Program Resource := do
  let q ← queryString (bytes "SERVER")
  match q with
  | none => pure pRes
  | some serverName => pure { pRes with srv := { pRes.srv with serverName }, rootlevel := 2 }

def withShare (pRes : Resource) : Program Resource := do
  let q ← queryString (bytes "SHARE")
  match q with
  | none => pure pRes
  | some shareName => pure { pRes with srv := { pRes.srv with shareName }, rootlevel := 3 }

def withUser (pRes : Resource) : Program Resource := do
  let q ← queryString (bytes "USER")
  match q with
  | none => pure pRes
  | some username => pure { pRes with srv := { pRes.srv with username } }

def withMaster (pRes : Resource) : Program Resource := do
  let q ← queryString (bytes "MASTER")
  match q with
  | none => pure pRes
  | some master => pure { pRes with srv := { pRes.srv with master } }

/-- An encrypted password is used when there is no plain one. -/
def fromSpassword (pRes : Resource) (q : CString) : Program Resource :=
  match decryptPassword q with
  | none => .fault
  | some p =>
      if p = [] then pure pRes else do
        perform (Op.fsphSetProperty (bytes "PASSWORD") [])
        pure { pRes with srv := { pRes.srv with password := p.take 255 } }

def toSpassword (pRes : Resource) : Program Resource := do
  perform (Op.fsphSetProperty (bytes "SPASSWORD") (encryptPassword pRes.srv.password))
  perform (Op.fsphSetProperty (bytes "PASSWORD") [])
  pure pRes

def withSpassword (pRes : Resource) (defaultPassword : Bool) : Program Resource := do
  let (rc, q, _) ← perform (Op.fsphQueryStringProperty (bytes "SPASSWORD"))
  if rc ≠ 0 then toSpassword pRes else
  match q with
  | none => .fault
  | some q => if q ≠ [] ∧ defaultPassword then fromSpassword pRes q else toSpassword pRes

def withPassword (pRes : Resource) : Program Resource := do
  let q ← queryString (bytes "PASSWORD")
  match q with
  | none => withSpassword pRes true
  | some password => withSpassword { pRes with srv := { pRes.srv with password } } false

def withUlong (name : CString) (largest : UInt32) (set : Resource → UInt32 → Resource)
    (pRes : Resource) : Program (Int × Resource) := do
  let (rc, t) ← queryUlong name largest
  match t with
  | none => pure (rc, pRes)
  | some t => pure (rc, set pRes t)

def withMastertype : Resource → Program (Int × Resource) :=
  withUlong (bytes "MASTERTYPE") 1 fun pRes t =>
    { pRes with srv := { pRes.srv with ifmastergroup := t } }

def withEasupport : Resource → Program (Int × Resource) :=
  withUlong (bytes "EASUPPORT") 1 fun pRes t => { pRes with easupport := t }

def withKrb5support : Resource → Program (Int × Resource) :=
  withUlong (bytes "KRB5SUPPORT") 1 fun pRes t => { pRes with krb5support := t }

def withNtlmv1support : Resource → Program (Int × Resource) :=
  withUlong (bytes "NTLMv1SUPPORT") 1 fun pRes t => { pRes with ntlmv1support := t }

def withEncryptionsupport : Resource → Program (Int × Resource) :=
  withUlong (bytes "ENCRYPTIONSUPPORT") 1 fun pRes t => { pRes with encryptionsupport := t }

def withCto : Resource → Program (Int × Resource) :=
  withUlong (bytes "CTO") 600 fun pRes t => { pRes with cachetimeout := t }

def withCld : Resource → Program (Int × Resource) :=
  withUlong (bytes "CLD") 96 fun pRes t => { pRes with cachedepth := t }

/-- Every query overwrites the return code of the one before it. -/
def initOptions (pRes : Resource) : Program (Int × Resource) := do
  let (_, pRes) ← withMastertype pRes
  let (_, pRes) ← withEasupport pRes
  let (_, pRes) ← withKrb5support pRes
  let (_, pRes) ← withNtlmv1support pRes
  let (_, pRes) ← withEncryptionsupport pRes
  let (_, pRes) ← withCto pRes
  withCld pRes

def initNames (pRes : Resource) : Program Resource := do
  let pRes ← withWorkgroup pRes
  let pRes ← withServer pRes
  let pRes ← withShare pRes
  let pRes ← withUser pRes
  let pRes ← withPassword pRes
  withMaster pRes

/-- The Resource comes zeroed; the result of `dircache_create` is not looked at. -/
def initResource : Program (Int × Resource) := do
  let pRes ← initNames { easupport := 1 }
  let (rc, pRes) ← initOptions pRes
  let (_, pdc) ← dircacheCreate pRes.cachetimeout pRes.cachedepth.toNat
  pure (rc, { pRes with pdc })

def ndpPluginLoad : Program Int := do
  let _ ← perform Op.fsphCreateMutex
  pure noError

def ndpPluginFree : Program Int := do
  perform Op.fsphCloseMutex
  pure noError

def mountRc (rc : Int) : Int :=
  match rc with
  | 0 => noError
  | 1 => errorBadNetName
  | 10 => errorBadNetName
  | 11 => errorBadNetName
  | 2 => errorInitRoutineFailed
  | 3 => errorBadNetResp
  | 4 => errorNetworkBusy
  | 6 => errorNetworkAccessDenied
  | 7 => errorBadNetpath
  | _ => errorUnexpNetErr

/-- The connection is only a test. -/
def checkMountResource (pRes : Resource) : Program Int := do
  let _ ← perform Op.gettid
  let reply ← perform pRes.connect
  match reply with
  | .refused rc => pure (mountRc rc)
  | .connected cli => do
      smbwrpDisconnect (some cli)
      pure (mountRc 0)

def checkOffMain (rc : Int) (pRes : Resource) : Program Int :=
  if rc ≠ 0 then pure rc else do
    let tid ← perform Op.gettid
    if tid ≠ 1 then checkMountResource pRes else pure rc

def sizeofResource : Nat := 1838

def sizeofConnection : Nat := 574

def mount : Program (Int × Option Resource) := do
  let malloced ← perform (Op.malloc sizeofResource)
  if malloced = false then pure (errorNotEnoughMemory, none) else do
    let (rc, pRes) ← initResource
    let rc ← checkOffMain rc pRes
    pure (rc, if rc = 0 then some pRes else none)

def ndpMountResource : Program (Int × Option Resource) :=
  guarded (fun rcLock => (rcLock, none)) mount

/-- With the resource its directory cache goes. -/
def ndpFreeResource (pRes : Resource) : Program Int :=
  guarded id do
    dircacheDelete pRes.pdc
    pure noError

def ndRsrcEqual : Int := 0
def ndRsrcDifferent : Int := 1

def ndpRsrcCompare (ph : Platform) (pRes pRes2 : Resource) : Int :=
  if ph.SameName pRes.srv.serverName pRes2.srv.serverName ∧
      ph.SameName pRes.srv.shareName pRes2.srv.shareName ∧
      ph.SameName pRes.srv.username pRes2.srv.username ∧
      ph.SameName pRes.srv.workgroup pRes2.srv.workgroup then ndRsrcEqual
  else ndRsrcDifferent

def ndpRsrcUpdate : Program Int := pure noError

def resourceInfo (ifL : Bool) (pRes : Resource) : CString :=
  let srv := pRes.srv
  let label := bytes "SMBFS" ++ bytes (if ifL then "64" else "32")
  let user := bytes "@" ++ srv.username
  let server := bytes " \\\\" ++ srv.workgroup ++ (if srv.workgroup = [] then [] else bytes ":") ++
    srv.serverName
  match pRes.rootlevel with
  | 0 => label ++ bytes " \\\\" ++ user
  | 1 => label ++ bytes " " ++ srv.workgroup ++ bytes ": \\\\" ++ user
  | 2 => label ++ server ++ user
  | _ => label ++ server ++ backslash :: srv.shareName ++ user

def ndpRsrcQueryInfo (ifL : Bool) (pRes : Resource) (insize : Nat) :
    Program (Int × Nat × Option CString) :=
  let s := (resourceInfo ifL pRes).take 4094
  if s.length + 1 > insize then pure (errorBufferOverflow, s.length + 1, none)
  else pure (noError, s.length + 1, some s)

def ndpRsrcQueryFSAttach (ifL : Bool) (pRes : Resource) (insize : Nat) :
    Program (Int × Nat × Option CString) :=
  ndpRsrcQueryInfo ifL pRes insize

def ndPlInitThread : UInt32 := 0xFFFF0000

def decimal (value : UInt32) : CString := bytes (toString value.toInt32.toInt)

def ioctlText (function : UInt32) (input : CString) (insize outlen : UInt32) : CString :=
  bytes "SAMBA IOCTL function = " ++ decimal function ++ bytes ", parms [" ++ input ++
    bytes "] insize = " ++ decimal insize ++ bytes ", *poutlen = " ++ decimal outlen

/-- The text is built in 4096 bytes; `input` is `none` where `in` is NULL. -/
def ndpIOCTL (function : UInt32) (input : Option CString) (insize outlen : UInt32) :
    Program (Int × Option CString) :=
  if function = ndPlInitThread then pure (noError, none) else
  match input with
  | none => pure (errorNotSupported, none)
  | some input =>
      if insize ≤ 4096 then pure (errorNotSupported, none)
      else if (ioctlText function input insize outlen).length ≥ 4096 then .fault
      else pure (noError, some (ioctlText function input insize outlen))

def unknownAllocate : Ndfsallocate :=
  { cSectorUnit := 1, cUnit := 123456, cUnitAvail := 123456, cbSector := 2048 }

def allocateOf (pfsa : Option Ndfsallocate) : Ndfsallocate := pfsa.getD unknownAllocate

/-- A connection of its own, given up again at the end. -/
def queryAllocate (pRes : Resource) : Program (Int × Option Ndfsallocate) := do
  let reply ← perform pRes.connect
  match reply with
  | .refused rc =>
      pure (if rc.1 = 7 then errorBadDevType else errorAccessDenied, some unknownAllocate)
  | .connected cli => do
      let (rc, pfsa) ← smbwrpDskattr (some cli)
      smbwrpDisconnect (some cli)
      pure (rc, some (allocateOf (if rc = 0 then pfsa else none)))

def ndpRsrcQueryFSAllocate (pRes : Resource) (hasPfsa : Bool) :
    Program (Int × Option Ndfsallocate) :=
  guarded (fun rcLock => (rcLock, none))
    (if hasPfsa then queryAllocate pRes else pure (noError, none))

def createConnection (pRes : Resource) : Program (Int × Option Connection) := do
  let malloced ← perform (Op.malloc sizeofConnection)
  if malloced = false then pure (errorNotEnoughMemory, none) else do
    let reply ← perform pRes.connect
    match reply with
    | .refused rc => pure (if rc.1 = 7 then errorBadDevType else errorInvalidParameter, none)
    | .connected cli => pure (0, some { cli := some cli, file := { fd := -1 } })

def ndpCreateConnection (pRes : Resource) : Program (Int × Option Connection) :=
  guarded (fun rcLock => (rcLock, none)) (createConnection pRes)

def freeConnection (pConn : Connection) : Program Unit :=
  if pConn.file.fd ≥ 0 then do
    let _ ← smbwrpClose pConn.cli pConn.file
    smbwrpDisconnect pConn.cli
  else smbwrpDisconnect pConn.cli

/-- The Connection is gone unless the mutex could not be taken. -/
def ndpFreeConnection (pConn : Connection) : Program (Int × Option Connection) :=
  guarded (fun rcLock => (rcLock, some pConn)) do
    freeConnection pConn
    pure (noError, none)

end NdpSmb
