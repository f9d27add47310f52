import NdpSmb.Calls

/-! `smbwrp.c`: the wrappers over libsmb, the directory routines apart. -/

namespace NdpSmb

open ByteString Interaction

/-- `stricmp` of the C library, in its default locale. -/
def isIpc (shareName : CString) : Bool := FoldEq asciiUpper shareName (bytes "IPC$")

def os2cliErrno (cli : Handle) : Program Int := do
  let errno ← askServer cli .cliErrno
  return maperror errno

def requestRc (cli : Handle) (ok : Bool) : Program Int :=
  if ok then pure 0 else os2cliErrno cli

def wrapped (cli : Option Handle) (issue : Handle → Program Bool) : Program Int :=
  match cli with
  | none => pure (maperror einval)
  | some cli => do
      let ok ← issue cli
      requestRc cli ok

def smbwrpDisconnect (cli : Option Handle) : Program Unit :=
  match cli with
  | none => pure ()
  | some cli => perform (Op.cliShutdown cli)

def smbwrpOpen (cli : Option Handle) (file : SmbwrpFile) : Program (Int × SmbwrpFile) :=
  match cli with
  | none => pure (maperror einval, file)
  | some cli =>
      if file.fname = [] then pure (maperror einval, file) else do
        let file := if file.denymode < denyAll ∨ file.denymode > denyNone then
          { file with denymode := denyNone } else file
        let opened ← askServer cli (.cliOpen file.fname file.openmode file.denymode)
        match opened with
        | none => return (← os2cliErrno cli, file)
        | some fd => return (0, { file with fd := fd.toNat, updatetime := 0, offset := 0 })

/-- Also returns the bytes read, `none` where `*result` is not written. -/
def smbwrpRead (cli : Option Handle) (file : SmbwrpFile) (hasBuffer : Bool) (count : UInt32) :
    Program (Int × SmbwrpFile × Option (List UInt8)) :=
  match cli, hasBuffer with
  | none, _ => pure (maperror einval, file, none)
  | _, false => pure (maperror einval, file, none)
  | some cli, true => do
      let status ← askServer cli (.cliRead file.fd file.offset count)
      match status with
      | none => return (← os2cliErrno cli, file, some [])
      | some data =>
          return (0, { file with offset := file.offset + UInt64.ofNat data.length }, some data)

def smbwrpWrite (cli : Option Handle) (file : SmbwrpFile) (buffer : Option (List UInt8)) :
    Program (Int × SmbwrpFile × Option UInt32) :=
  match cli, buffer with
  | none, _ => pure (maperror einval, file, none)
  | _, none => pure (maperror einval, file, none)
  | some cli, some buffer => do
      let status ← askServer cli (.cliWriteall file.fd buffer file.offset)
      match status with
      | none => return (← os2cliErrno cli, file, some 0)
      | some ret =>
          return (0, { file with updatetime := 1, offset := file.offset + ret.toUInt64 }, some ret)

/-- The times that `smbwrp_close` will set: after a write, the current one. -/
def closeTimes (file : SmbwrpFile) : Program SmbwrpFile :=
  if file.updatetime = 1 then do
    let now ← perform Op.time
    return { file with btime := 0, mtime := now, atime := 0, ctime := 0 }
  else pure file

/-- The deferred attributes and times; a refusal is only logged. -/
def setOnClose (cli : Handle) (rc : Int) (file : SmbwrpFile) : Program Unit :=
  if rc = 0 ∧ (file.openattr ≠ 0 ∨ file.mtime ≠ 0 ∨ file.ctime ≠ 0) then do
    let _ ← askServer cli (.cliSetpathinfoBasic file.fname file.btime file.atime file.mtime
      file.ctime file.openattr)
    pure ()
  else pure ()

def smbwrpClose (cli : Option Handle) (file : SmbwrpFile) : Program (Int × SmbwrpFile) :=
  match cli with
  | none => pure (maperror einval, file)
  | some cli => do
      let file ← closeTimes file
      let closed ← askServer cli (.cliClose file.fd)
      let rc ← requestRc cli closed
      setOnClose cli rc file
      return (rc, { file with
        openattr := 0, btime := 0, atime := 0, mtime := 0, ctime := 0, updatetime := 0
        fd := -1, offset := 0, fname := [] })

/-- A refused `cli_ftruncate` is logged with its errno and reported as success. -/
def smbwrpSetfilesize (cli : Option Handle) (file : SmbwrpFile) (newsize : Int) : Program Int :=
  match cli with
  | none => pure (maperror einval)
  | some cli => do
      let ok ← askServer cli (.cliFtruncate file.fd newsize)
      if ok then pure 0 else do
        let _ ← askServer cli .cliErrno
        return 0

def smbwrpRename (cli : Option Handle) (oldname newname : CString) : Program Int :=
  wrapped cli fun cli => askServer cli (.cliRename oldname newname)

def smbwrpSetattr (cli : Option Handle) (finfo : SmbwrpFileinfo) : Program Int :=
  match cli with
  | none => pure (maperror einval)
  | some cli =>
      if finfo.fname = [] then pure (maperror einval) else do
        let first ← askServer cli (.cliSetatr finfo.fname finfo.attr finfo.mtime)
        if first then pure 0 else do
          let second ← askServer cli (.cliSetatr finfo.fname finfo.attr 0)
          requestRc cli second

def smbwrpUnlink (cli : Option Handle) (fname : CString) : Program Int :=
  wrapped cli fun cli => askServer cli (.cliUnlink fname (aSystem ||| aHidden))

def smbwrpLseek (cli : Option Handle) (file : SmbwrpFile) (whence : UInt32) (offset : Int) :
    Program (Int × SmbwrpFile) :=
  match cli with
  | none => pure (maperror einval, file)
  | some cli =>
      if whence = 0 then
        if offset < 0 then pure (maperror einval, file)
        else pure (0, { file with offset := UInt64.ofInt offset })
      else if whence = 1 then
        pure (0, { file with offset := file.offset + UInt64.ofInt offset })
      else if whence = 2 then
        if offset > 0 then pure (maperror einval, file) else do
          let basic ← askServer cli (.cliQfileinfoBasic file.fd)
          match basic with
          | some info => return (0, { file with offset := info.size + UInt64.ofInt offset })
          | none =>
              let legacy ← askServer cli (.cliGetattrE file.fd)
              match legacy with
              | some info => return (0, { file with offset := info.size + UInt64.ofInt offset })
              | none => return (← os2cliErrno cli, file)
      else pure (maperror einval, file)

/-- A store through `(unsigned short *)&finfo->attr`. -/
def storeAttr (attr : UInt32) (low : UInt16) : UInt32 := (attr &&& 0xFFFF0000) ||| low.toUInt32

theorem storeAttr_and {mask : UInt32} (within : 0xFFFF0000 &&& mask = 0) (attr : UInt32)
    (low : UInt16) : storeAttr attr low &&& mask = low.toUInt32 &&& mask := by
  have distributed (left right : UInt32) :
      (left ||| right) &&& mask = (left &&& mask) ||| (right &&& mask) :=
    UInt32.toBitVec_inj.mp BitVec.and_or_distrib_right
  rw [storeAttr, distributed, UInt32.and_assoc, within, UInt32.and_zero, UInt32.zero_or]

def SmbwrpFileinfo.fill (finfo : SmbwrpFileinfo) (info : BasicInfo) : SmbwrpFileinfo :=
  { finfo with
    size := info.size, attr := storeAttr finfo.attr info.attr &&& 0x7F
    btime := info.btime, atime := info.atime, mtime := info.mtime, ctime := info.ctime }

def smbwrpGetattr (srv : SmbwrpServer) (cli : Option Handle) (finfo : SmbwrpFileinfo) :
    Program (Int × SmbwrpFileinfo) :=
  match cli with
  | none => pure (maperror einval, finfo)
  | some cli =>
      if finfo.fname = [] then pure (maperror einval, finfo) else do
        let first ← askServer cli (.cliQpathinfo2 finfo.fname)
        match first with
        | some info => return (0, finfo.fill info)
        | none =>
        let second ← askServer cli (.cliQpathinfo3 finfo.fname)
        match second with
        | some info => return (0, finfo.fill info)
        | none =>
        if srv.serverName = [] ∨ srv.shareName = [] ∨ isIpc srv.shareName then do
          let btime ← perform Op.time
          let atime ← perform Op.time
          let mtime ← perform Op.time
          let ctime ← perform Op.time
          return (0, { finfo with btime, atime, mtime, ctime, size := 0, easize := 0, attr := aDir })
        else do
          let nt ← askServer cli .connCapNtSmbs
          if nt then do
            let ret ← askServer cli .cliErrno
            return (maperror (if ret = einval then enotdir else ret), finfo)
          else do
            let legacy ← askServer cli (.cliGetatr finfo.fname)
            match legacy with
            | some info =>
                let zone ← perform (Op.getTimeZone info.mtime)
                return (0, { finfo with
                  attr := storeAttr finfo.attr info.attr, size := info.size
                  mtime := info.mtime - zone })
            | none => return (← os2cliErrno cli, finfo)

def smbwrpFgetattr (cli : Option Handle) (file : SmbwrpFile) (finfo : SmbwrpFileinfo) :
    Program (Int × SmbwrpFileinfo) :=
  match cli with
  | none => pure (maperror einval, finfo)
  | some cli => do
      let finfo := { finfo with fname := file.fname }
      let basic ← askServer cli (.cliQfileinfoBasic file.fd)
      match basic with
      | some info =>
          return (0, { finfo with
            attr := storeAttr finfo.attr info.attr, size := info.size
            btime := info.btime, mtime := info.mtime, atime := info.atime, ctime := info.ctime })
      | none =>
          let legacy ← askServer cli (.cliGetattrE file.fd)
          match legacy with
          | none => return (← os2cliErrno cli, finfo)
          | some info =>
              let changeZone ← perform (Op.getTimeZone info.ctime)
              let accessZone ← perform (Op.getTimeZone info.atime)
              let writeZone ← perform (Op.getTimeZone info.mtime)
              return (0, { finfo with
                attr := storeAttr finfo.attr info.attr, size := info.size
                ctime := info.ctime - changeZone, atime := info.atime - accessZone
                mtime := info.mtime - writeZone })

def smbwrpChdir (srv : SmbwrpServer) (cli : Option Handle) (fname : CString) : Program Int :=
  match cli with
  | none => pure (maperror einval)
  | some handle => do
      let (rc, finfo) ← smbwrpGetattr srv cli { fname := fname.take 260 }
      if rc ≠ 0 then os2cliErrno handle
      else if finfo.attr &&& aDir = 0 then pure (maperror enotdir)
      else pure 0

def smbwrpMkdir (cli : Option Handle) (fname : CString) : Program Int :=
  wrapped cli fun cli => askServer cli (.cliMkdir fname)

def smbwrpRmdir (cli : Option Handle) (fname : CString) : Program Int :=
  wrapped cli fun cli => askServer cli (.cliRmdir fname)

def smbwrpSetea (cli : Option Handle) (fname name : CString) (value : Option (List UInt8))
    (size : UInt16) : Program Int :=
  wrapped cli fun cli => askServer cli (.cliSetEaPath fname name value size)

def smbwrpFsetea (cli : Option Handle) (file : SmbwrpFile) (name : CString)
    (value : Option (List UInt8)) (size : UInt16) : Program Int :=
  wrapped cli fun cli => askServer cli (.cliSetEaFnum file.fd name value size)

def smbwrpDskattr (cli : Option Handle) : Program (Int × Option Ndfsallocate) :=
  match cli with
  | none => pure (maperror einval, none)
  | some cli => do
      let status ← askServer cli .cliDiskSize
      match status with
      | none => return (← os2cliErrno cli, none)
      | some (bsize, total, avail) =>
          if bsize ≥ 65536 then
            return (0, some ⟨1, (total * 1024).toUInt32, (avail * 1024).toUInt32,
              (bsize / 1024).toUInt16⟩)
          else if total > 4294967295 then
            -- `ceil` of an integer quotient is that quotient
            let scale := total / 4294967295
            if scale ≥ 0x80000000 then .fault
            else return (0, some ⟨1, (total / scale).toUInt32, (avail / scale).toUInt32,
              (bsize * scale).toUInt16⟩)
          else
            return (0, some ⟨1, total.toUInt32, avail.toUInt32, bsize.toUInt16⟩)

def smbwrpEcho (cli : Option Handle) : Program Int :=
  match cli with
  | none => pure (maperror einval)
  | some cli => do
      let ok ← askServer cli .cliEcho
      return if ok then 0 else -1

/-! Each wrapper goes to the server through its own handle only. -/

section Footprints

variable (cli : Option Handle)

@[simp, grind .] theorem only_os2cliErrno (cli : Handle) :
    (os2cliErrno cli).Only (Op.ServedBy (some cli)) := by
  simp [os2cliErrno]

@[simp, grind =] theorem only_os2cliErrno_bind {α : Type} {cli : Handle}
    {follow : Int → Program α} :
    (os2cliErrno cli >>= follow).Only (Op.ServedBy (some cli)) ↔
      ∀ errno, (follow (maperror errno)).Only (Op.ServedBy (some cli)) := by
  simp [os2cliErrno]

@[simp, grind .] theorem only_requestRc (cli : Handle) (ok : Bool) :
    (requestRc cli ok).Only (Op.ServedBy (some cli)) := by
  unfold requestRc
  split <;> simp

theorem asks_os2cliErrno (cli : Handle) : (os2cliErrno cli).Only (Op.Asks (some cli)) :=
  ⟨⟨rfl, trivial⟩, fun _ => trivial⟩

theorem pathed_requestRc (cli : Handle) (ok : Bool) :
    (requestRc cli ok).Only (Op.Pathed (some cli)) := by
  unfold requestRc
  split
  · trivial
  · exact (asks_os2cliErrno cli).mono (Op.Asks.through fun _ _ looks => looks.fileless)

theorem pathed_wrapped {ask : Request Bool} (pathwise : ask.Fileless) :
    (wrapped cli fun cli => askServer cli ask).Only (Op.Pathed cli) := by
  cases cli with
  | none => trivial
  | some cli =>
      refine Prog.only_perform_bind.mpr ⟨⟨rfl, pathwise⟩, fun ok => ?_⟩
      exact pathed_requestRc cli ok

theorem only_smbwrpOpen (file : SmbwrpFile) :
    (smbwrpOpen cli file).Only (Op.ServedBy cli) := by
  cases cli with
  | none => trivial
  | some cli =>
      simp only [smbwrpOpen]
      grind

theorem consults_os2cliErrno (cli : Handle) : (os2cliErrno cli).Only (Op.Consults (some cli)) :=
  (asks_os2cliErrno cli).mono fun _ _ => Op.Asks.consults

theorem consults_smbwrpRead (file : SmbwrpFile) (hasBuffer : Bool) (count : UInt32) :
    (smbwrpRead cli file hasBuffer count).Only (Op.Consults cli) := by
  unfold smbwrpRead
  split
  · trivial
  · trivial
  · rename_i cli
    refine Prog.only_perform_bind.mpr ⟨⟨rfl, trivial⟩, fun status => ?_⟩
    cases status with
    | none => exact (consults_os2cliErrno cli).bind fun _ => trivial
    | some data => trivial

theorem only_smbwrpWrite (file : SmbwrpFile) (buffer : Option (List UInt8)) :
    (smbwrpWrite cli file buffer).Only (Op.ServedBy cli) := by
  unfold smbwrpWrite
  grind

theorem only_smbwrpClose (file : SmbwrpFile) :
    (smbwrpClose cli file).Only (Op.ServedBy cli) := by
  cases cli with
  | none => trivial
  | some cli =>
      have times : (closeTimes file).Only (Op.ServedBy (some cli)) := by
        unfold closeTimes
        split <;> simp
      refine times.bind fun file => Prog.only_perform_bind.mpr ⟨rfl, fun closed => ?_⟩
      refine (only_requestRc cli closed).bind fun rc => Prog.Only.bind ?_ fun _ => trivial
      unfold setOnClose
      split <;> simp

theorem only_smbwrpSetfilesize (file : SmbwrpFile) (newsize : Int) :
    (smbwrpSetfilesize cli file newsize).Only (Op.ServedBy cli) := by
  unfold smbwrpSetfilesize
  grind

theorem pathed_smbwrpRename (oldname newname : CString) :
    (smbwrpRename cli oldname newname).Only (Op.Pathed cli) := pathed_wrapped cli trivial

theorem pathed_smbwrpSetattr (finfo : SmbwrpFileinfo) :
    (smbwrpSetattr cli finfo).Only (Op.Pathed cli) := by
  unfold smbwrpSetattr
  split
  · trivial
  · split
    · trivial
    · refine Prog.only_perform_bind.mpr ⟨⟨rfl, trivial⟩, fun first => ?_⟩
      split
      · trivial
      · refine Prog.only_perform_bind.mpr ⟨⟨rfl, trivial⟩, fun second => ?_⟩
        exact pathed_requestRc _ second

theorem pathed_smbwrpUnlink (fname : CString) :
    (smbwrpUnlink cli fname).Only (Op.Pathed cli) := pathed_wrapped cli trivial

theorem consults_smbwrpLseek (file : SmbwrpFile) (whence : UInt32) (offset : Int) :
    (smbwrpLseek cli file whence offset).Only (Op.Consults cli) := by
  cases cli with
  | none => trivial
  | some cli =>
      simp only [smbwrpLseek]
      split
      · split <;> trivial
      · split
        · trivial
        · split
          · split
            · trivial
            · refine Prog.only_perform_bind.mpr ⟨⟨rfl, trivial⟩, fun basic => ?_⟩
              cases basic with
              | some info => trivial
              | none =>
                  refine Prog.only_perform_bind.mpr ⟨⟨rfl, trivial⟩, fun legacy => ?_⟩
                  cases legacy with
                  | some info => trivial
                  | none => exact (consults_os2cliErrno cli).bind fun _ => trivial
          · trivial

theorem asks_smbwrpGetattr (srv : SmbwrpServer) (finfo : SmbwrpFileinfo) :
    (smbwrpGetattr srv cli finfo).Only (Op.Asks cli) := by
  cases cli with
  | none => trivial
  | some cli =>
      have looks {R : Type} {ask : Request R} (pathwise : ask.Looks) :
          Op.Asks (some cli) R (.request cli ask) := ⟨rfl, pathwise⟩
      simp only [smbwrpGetattr]
      split
      · trivial
      · refine Prog.only_perform_bind.mpr ⟨looks trivial, fun first => ?_⟩
        cases first with
        | some info => trivial
        | none =>
            refine Prog.only_perform_bind.mpr ⟨looks trivial, fun second => ?_⟩
            cases second with
            | some info => trivial
            | none =>
                simp only
                split
                · exact ⟨trivial, fun _ => ⟨trivial, fun _ => ⟨trivial, fun _ => ⟨trivial,
                    fun _ => trivial⟩⟩⟩⟩
                · refine Prog.only_perform_bind.mpr ⟨looks trivial, fun nt => ?_⟩
                  split
                  · exact Prog.only_perform_bind.mpr ⟨looks trivial, fun _ => trivial⟩
                  · refine Prog.only_perform_bind.mpr ⟨looks trivial, fun legacy => ?_⟩
                    cases legacy with
                    | some info => exact Prog.only_perform_bind.mpr ⟨trivial, fun _ => trivial⟩
                    | none => exact (asks_os2cliErrno cli).bind fun _ => trivial

theorem only_smbwrpGetattr (srv : SmbwrpServer) (finfo : SmbwrpFileinfo) :
    (smbwrpGetattr srv cli finfo).Only (Op.ServedBy cli) :=
  (asks_smbwrpGetattr cli srv finfo).mono fun _ _ => Op.Asks.servedBy

theorem consults_smbwrpFgetattr (file : SmbwrpFile) (finfo : SmbwrpFileinfo) :
    (smbwrpFgetattr cli file finfo).Only (Op.Consults cli) := by
  cases cli with
  | none => trivial
  | some cli =>
      refine Prog.only_perform_bind.mpr ⟨⟨rfl, trivial⟩, fun basic => ?_⟩
      cases basic with
      | some info => trivial
      | none =>
          refine Prog.only_perform_bind.mpr ⟨⟨rfl, trivial⟩, fun legacy => ?_⟩
          cases legacy with
          | none => exact (consults_os2cliErrno cli).bind fun _ => trivial
          | some info => exact ⟨trivial, fun _ => ⟨trivial, fun _ => ⟨trivial, fun _ => trivial⟩⟩⟩

theorem asks_smbwrpChdir (srv : SmbwrpServer) (fname : CString) :
    (smbwrpChdir srv cli fname).Only (Op.Asks cli) := by
  cases cli with
  | none => trivial
  | some cli =>
      refine (asks_smbwrpGetattr _ _ _).bind fun answer => ?_
      simp only
      split
      · exact asks_os2cliErrno cli
      · split <;> trivial

theorem pathed_smbwrpMkdir (fname : CString) :
    (smbwrpMkdir cli fname).Only (Op.Pathed cli) := pathed_wrapped cli trivial

theorem pathed_smbwrpRmdir (fname : CString) :
    (smbwrpRmdir cli fname).Only (Op.Pathed cli) := pathed_wrapped cli trivial

theorem pathed_smbwrpSetea (fname name : CString) (value : Option (List UInt8)) (size : UInt16) :
    (smbwrpSetea cli fname name value size).Only (Op.Pathed cli) := pathed_wrapped cli trivial

theorem only_smbwrpFsetea (file : SmbwrpFile) (name : CString) (value : Option (List UInt8))
    (size : UInt16) : (smbwrpFsetea cli file name value size).Only (Op.ServedBy cli) := by
  cases cli with
  | none => trivial
  | some cli => exact Prog.only_perform_bind.mpr ⟨rfl, fun ok => only_requestRc cli ok⟩

theorem asks_smbwrpDskattr : (smbwrpDskattr cli).Only (Op.Asks cli) := by
  cases cli with
  | none => trivial
  | some cli =>
      refine Prog.only_perform_bind.mpr ⟨⟨rfl, trivial⟩, fun status => ?_⟩
      cases status with
      | none => exact (asks_os2cliErrno cli).bind fun _ => trivial
      | some sizes =>
          simp only
          split
          · trivial
          · split
            · split <;> trivial
            · trivial

theorem only_smbwrpDskattr : (smbwrpDskattr cli).Only (Op.ServedBy cli) :=
  (asks_smbwrpDskattr cli).mono fun _ _ => Op.Asks.servedBy

theorem asks_smbwrpEcho : (smbwrpEcho cli).Only (Op.Asks cli) := by
  cases cli with
  | none => trivial
  | some cli => exact ⟨⟨rfl, trivial⟩, fun _ => trivial⟩

theorem only_smbwrpEcho : (smbwrpEcho cli).Only (Op.ServedBy cli) :=
  (asks_smbwrpEcho cli).mono fun _ _ => Op.Asks.servedBy

end Footprints

end NdpSmb
