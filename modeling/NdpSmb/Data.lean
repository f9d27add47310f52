import Mathlib.Algebra.Group.Nat.Defs
import Mathlib.Algebra.Group.Int.Defs
import NdpSmb.ByteString

/-!
The records of `smbwrp.h` and `dircache.c`, and the functions outside the
repository that only compute a value.
-/

namespace NdpSmb

open ByteString

/-- A `cli_state` pointer other than NULL. -/
abbrev Handle := Nat

def aRonly : UInt32 := 0x01
def aHidden : UInt32 := 0x02
def aSystem : UInt32 := 0x04
def aDir : UInt32 := 0x10
def attrMask : UInt32 := 0x37

def oRdonly : UInt32 := 0x00
def oRdwr : UInt32 := 0x02
def oBinary : UInt32 := 0x0100
def oCreat : UInt32 := 0x0200
def oTrunc : UInt32 := 0x0400
def oExcl : UInt32 := 0x0800

def denyAll : UInt32 := 1
def denyNone : UInt32 := 4

def cchmaxpath : Nat := 260
def maxPath : Nat := 260
def nameField : Nat := 256

structure SmbwrpServer where
  serverName : CString := []
  shareName : CString := []
  workgroup : CString := []
  username : CString := []
  password : CString := []
  master : CString := []
  ifmastergroup : UInt32 := 0
  deriving DecidableEq

structure SmbwrpFile where
  fd : Int := 0
  offset : UInt64 := 0
  openmode : UInt32 := 0
  openattr : UInt32 := 0
  denymode : UInt32 := 0
  btime : UInt32 := 0
  mtime : UInt32 := 0
  atime : UInt32 := 0
  ctime : UInt32 := 0
  updatetime : Nat := 0
  fullname : CString := []
  fname : CString := []
  deriving DecidableEq

structure SmbwrpFileinfo where
  size : UInt64 := 0
  attr : UInt32 := 0
  btime : UInt32 := 0
  mtime : UInt32 := 0
  atime : UInt32 := 0
  ctime : UInt32 := 0
  easize : Int := 0
  fname : CString := []
  deriving DecidableEq

structure DirectoryCacheEntry where
  aInfos : List SmbwrpFileinfo
  cInfosAllocated : Nat
  pszPath : CString
  ulHash : UInt32
  ulLastUpdateTime : UInt32
  fInvalid : Bool := false
  deriving DecidableEq

/-- The linked listings are in the order of `pNext` from `pEntriesHead`. -/
structure DirectoryCache where
  entries : List DirectoryCacheEntry := []
  fEnabled : Bool := false
  ulExpirationTime : UInt32
  cMaxEntries : Nat
  deriving DecidableEq

structure Resource where
  rootlevel : Nat := 0
  srv : SmbwrpServer := {}
  easupport : UInt32 := 0
  krb5support : UInt32 := 0
  ntlmv1support : UInt32 := 0
  encryptionsupport : UInt32 := 0
  cachetimeout : UInt32 := 0
  cachedepth : UInt32 := 0
  pdc : Option DirectoryCache := none
  deriving DecidableEq

structure Connection where
  cli : Option Handle := none
  file : SmbwrpFile := {}
  deriving DecidableEq

structure Session where
  pRes : Resource
  pConn : Connection
  deriving DecidableEq

structure FilelistState where
  mask : CString
  dir : CString
  dirMask : CString
  ulAttribute : UInt32
  fullpath : CString

/-! The calendar records of the C library and of the OS/2 file system calls. -/

structure Tm where
  tmSec : Int
  tmMin : Int
  tmHour : Int
  tmMday : Int
  tmMon : Int
  tmYear : Int
  deriving DecidableEq

structure Fdate where
  day : Nat
  month : Nat
  year : Nat
  deriving DecidableEq

structure Ftime where
  twosecs : Nat
  minutes : Nat
  hours : Nat
  deriving DecidableEq

structure Filestatus3L where
  fdateCreation : Fdate
  ftimeCreation : Ftime
  fdateLastAccess : Fdate
  ftimeLastAccess : Ftime
  fdateLastWrite : Fdate
  ftimeLastWrite : Ftime
  cbFile : UInt64
  cbFileAlloc : UInt64
  attrFile : UInt32
  deriving DecidableEq

structure Ndfsallocate where
  cSectorUnit : UInt32
  cUnit : UInt32
  cUnitAvail : UInt32
  cbSector : UInt16
  deriving DecidableEq

structure Ndpathelement where
  length : Nat
  name : CString
  deriving DecidableEq

/-- The functions of NetDrive, the C library and libsmb that only compute a value. -/
structure Platform where
  toUpper : UInt8 → UInt8
  /-- Letter case never makes or hides a path separator. -/
  toUpper_backslash : ∀ byte, toUpper byte = toUpper backslash ↔ byte = backslash
  fsphWildMatch : CString → CString → Bool
  fsphAttrMatch : UInt32 → UInt32 → Bool
  localtime : UInt32 → Tm
  mktime : Tm → UInt32
  dirCheckFtype : UInt32 → UInt32 → Bool
  msHasWild : CString → Bool
  /-- A directory that takes more replies than this is not followed to its end. -/
  queryLimit : Nat

def attrWithin (wanted attr : UInt32) : Bool :=
  attr &&& (aHidden ||| aSystem ||| aDir) &&& ~~~wanted = 0

/-- A platform without national letters, for times of the epoch. -/
def asciiPlatform : Platform where
  toUpper := asciiUpper
  toUpper_backslash := asciiUpper_backslash_iff
  fsphWildMatch mask name := mask = bytes "*" ∨ FoldEq asciiUpper mask name
  fsphAttrMatch := attrWithin
  localtime _ := { tmSec := 0, tmMin := 0, tmHour := 0, tmMday := 1, tmMon := 0, tmYear := 70 }
  mktime _ := 0
  dirCheckFtype mode searched := attrWithin searched mode
  msHasWild mask := mask.contains 42 || mask.contains 63
  queryLimit := 4

def Platform.SameName (ph : Platform) (left right : CString) : Prop :=
  FoldEq ph.toUpper left right

instance (ph : Platform) (left right : CString) : Decidable (ph.SameName left right) :=
  inferInstanceAs (Decidable (FoldEq _ _ _))

end NdpSmb
