import NdpSmb.Data
import NdpSmb.ReturnCodes
import NdpSmb.Interaction

/-! The calls that the plugin makes: to libsmb, to NetDrive and to the C library. -/

namespace NdpSmb

open ByteString Interaction

/-- An NTSTATUS that is not OK. -/
abbrev BadStatus := { status : UInt32 // status ≠ ntStatusOk }

structure BasicInfo where
  attr : UInt16
  size : UInt64
  btime : UInt32
  atime : UInt32
  mtime : UInt32
  ctime : UInt32
  deriving DecidableEq, Inhabited

structure EaStruct where
  name : CString
  value : List UInt8
  deriving DecidableEq

structure FileInfo where
  size : UInt64
  mode : UInt32
  btimeTs : UInt32
  atimeTs : UInt32
  mtimeTs : UInt32
  ctimeTs : UInt32
  name : CString
  deriving DecidableEq

/-- What one reply of `smb2cli_query_directory` unpacks to: the entries in the order of
`next_offset`, and the status with which unpacking one more failed, if it did. -/
structure DirData where
  parsed : List FileInfo
  failed : Option BadStatus
  /-- The first entry is parsed before its offset says whether there is another. -/
  progress : parsed ≠ [] ∨ failed ≠ none

/-- A call of libsmb on an open `cli_state`, with the type of its reply. A `Bool` is
whether the status is OK, and `none` is a status that is not. -/
inductive Request : Type → Type
  | cliEcho : Request Bool
  | cliOpen (fname : CString) (openmode denymode : UInt32) : Request (Option UInt16)
  | cliRead (fd : Int) (offset : UInt64) (count : UInt32) : Request (Option (List UInt8))
  | cliWriteall (fd : Int) (buffer : List UInt8) (offset : UInt64) : Request (Option UInt32)
  | cliClose (fd : Int) : Request Bool
  | cliSetpathinfoBasic (fname : CString) (btime atime mtime ctime openattr : UInt32) :
      Request Bool
  | cliFtruncate (fd : Int) (newsize : Int) : Request Bool
  | cliRename (oldname newname : CString) : Request Bool
  | cliSetatr (fname : CString) (attr mtime : UInt32) : Request Bool
  | cliUnlink (fname : CString) (attr : UInt32) : Request Bool
  | cliQfileinfoBasic (fd : Int) : Request (Option BasicInfo)
  | cliGetattrE (fd : Int) : Request (Option BasicInfo)
  | cliQpathinfo2 (fname : CString) : Request (Option BasicInfo)
  | cliQpathinfo3 (fname : CString) : Request (Option BasicInfo)
  | cliGetatr (fname : CString) : Request (Option BasicInfo)
  | cliMkdir (fname : CString) : Request Bool
  | cliRmdir (fname : CString) : Request Bool
  | cliSetEaPath (fname name : CString) (value : Option (List UInt8)) (size : UInt16) :
      Request Bool
  | cliSetEaFnum (fd : Int) (name : CString) (value : Option (List UInt8)) (size : UInt16) :
      Request Bool
  | cliGetEaListPath (fname : CString) : Request (Option (List EaStruct))
  | cliDiskSize : Request (Option (UInt64 × UInt64 × UInt64))
  | cliErrno : Request Int
  | connCapNtSmbs : Request Bool
  | connProtocolSmb2 : Request Bool
  | connHasAsyncCalls : Request Bool
  | cliNetServerEnum (name : CString) (domains : Bool) : Request (List (CString × Bool))
  | netShareEnumRpc : Request (List (CString × Bool) × Int)
  | cliRNetShareEnum : Request (List (CString × Bool) × Int)
  | cliListSend (mask : CString) (attr : UInt32) : Request Bool
  | teventReqPoll : Request Bool
  | cliListRecv : Request (Option (List FileInfo))
  | windowsParentDirname (pathname : CString) : Request (Option (CString × CString))
  | cliSmb2CreateFnum (parentDir : CString) : Request (Except BadStatus UInt16)
  | mapFnumToSmb2Handle (fnum : UInt16) : Request UInt32
  | smb2cliQueryDirectory (mask : CString) : Request (Except BadStatus DirData)
  | cliSmb2CloseFnum (fnum : UInt16) : Request Unit

/-- `smbwrp_connect` stores a handle exactly when it returns zero. -/
inductive ConnectReply
  | connected (cli : Handle)
  | refused (rc : { rc : Int // rc ≠ 0 })
  deriving DecidableEq

/-- The records of extended attributes that the plugin reads and writes byte by byte. -/
inductive Buffer
  | feaList
  | geaList
  | scratch
  deriving DecidableEq

/-- A call to the environment, with the type of its reply. What C leaves undefined but
goes on from is asked for here as well: the content of fresh memory, the value of a
missing return, and whether a read through a pointer that is not valid lets the plugin live. -/
inductive Op : Type → Type 1
  | fsphCreateMutex : Op Int
  | fsphCloseMutex : Op Unit
  | fsphRequestMutex : Op Int
  | fsphReleaseMutex : Op Unit
  | smbwrpConnect (srv : SmbwrpServer) (krb5support ntlmv1support encryptionsupport : UInt32) :
      Op ConnectReply
  | cliShutdown (cli : Handle) : Op Unit
  | request {R : Type} (cli : Handle) (ask : Request R) : Op R
  | load (buffer : Buffer) (offset count : Nat) : Op Unit
  | store (buffer : Buffer) (offset : Nat) (data : List UInt8) : Op Unit
  | fsphNameElem : Op (Option Ndpathelement)
  | fsphAddFile32L (stat : Filestatus3L) (name : CString) (finfo : SmbwrpFileinfo) : Op Unit
  | fsphGetFileInfoData : Op (Int × Option SmbwrpFileinfo)
  | setFileInfoData (finfo : SmbwrpFileinfo) : Op Unit
  | fsphQueryStringProperty (name : CString) : Op (Int × Option CString × UInt32)
  | fsphQueryUlongProperty (name : CString) : Op (Int × UInt32)
  | fsphSetProperty (name value : CString) : Op Unit
  | time : Op UInt32
  | getTimeZone (time : UInt32) : Op UInt32
  | timesec : Op UInt32
  | gettid : Op Int
  | malloc (size : Nat) : Op Bool
  | mallocBuffer (size : Nat) : Op (Option { content : List UInt8 // content.length = size })
  | realloc (size : Nat) : Op Bool
  | uninitializedFileinfo : Op SmbwrpFileinfo
  | uninitializedLong : Op UInt32
  | missingReturnValue : Op UInt32
  | strayRead : Op Bool

def Request.usual : {R : Type} → Request R → R
  | _, .cliEcho | _, .cliClose .. | _, .cliSetpathinfoBasic .. | _, .cliFtruncate .. => true
  | _, .cliRename .. | _, .cliSetatr .. | _, .cliUnlink .. | _, .cliMkdir .. => true
  | _, .cliRmdir .. | _, .cliSetEaPath .. | _, .cliSetEaFnum .. | _, .cliListSend .. => true
  | _, .connCapNtSmbs | _, .connProtocolSmb2 | _, .connHasAsyncCalls | _, .teventReqPoll => true
  | _, .cliOpen .. => none
  | _, .cliRead .. => none
  | _, .cliWriteall .. => none
  | _, .cliQfileinfoBasic .. | _, .cliGetattrE .. | _, .cliGetatr .. => none
  | _, .cliQpathinfo2 .. | _, .cliQpathinfo3 .. => none
  | _, .cliGetEaListPath .. => none
  | _, .cliDiskSize => none
  | _, .cliListRecv => none
  | _, .windowsParentDirname .. => none
  | _, .cliErrno => 0
  | _, .cliNetServerEnum .. => []
  | _, .netShareEnumRpc | _, .cliRNetShareEnum => ([], 0)
  | _, .cliSmb2CreateFnum .. => .ok 0
  | _, .mapFnumToSmb2Handle .. => ntStatusOk
  | _, .smb2cliQueryDirectory .. => .error ⟨statusNoMoreFiles, by decide⟩
  | _, .cliSmb2CloseFnum .. => ()

def Op.usual : {R : Type} → Op R → R
  | _, .fsphCreateMutex | _, .fsphRequestMutex | _, .gettid => 0
  | _, .fsphCloseMutex | _, .fsphReleaseMutex | _, .cliShutdown .. | _, .load .. => ()
  | _, .store .. | _, .fsphAddFile32L .. | _, .setFileInfoData .. | _, .fsphSetProperty .. => ()
  | _, .smbwrpConnect .. => .connected 0
  | _, .request _ ask => ask.usual
  | _, .fsphNameElem => none
  | _, .fsphGetFileInfoData => (0, none)
  | _, .fsphQueryStringProperty .. => (0, some [], 0)
  | _, .fsphQueryUlongProperty .. => (0, 0)
  | _, .time | _, .getTimeZone .. | _, .timesec => 0
  | _, .uninitializedLong | _, .missingReturnValue => 0
  | _, .malloc .. | _, .realloc .. | _, .strayRead => true
  | _, .mallocBuffer size => some ⟨List.replicate size 0, List.length_replicate⟩
  | _, .uninitializedFileinfo => {}

abbrev Program (α : Type) : Type 1 := Prog Op α

abbrev CallEvent : Type 1 := Event Op

abbrev askServer {R : Type} (cli : Handle) (ask : Request R) : Program R :=
  perform (.request cli ask)

/-- The answer to a mutex request. -/
def mutexReply : CallEvent → Option Int
  | ⟨.fsphRequestMutex, rcLock⟩ => some rcLock
  | _ => none

def Granted (event : CallEvent) : Prop := ∀ rcLock, mutexReply event = some rcLock → rcLock = 0

instance (event : CallEvent) : Decidable (Granted event) :=
  match reply : mutexReply event with
  | none => isTrue fun _ given => by simp [reply] at given
  | some rcLock =>
      if zero : rcLock = 0 then isTrue fun _ given => by
        rw [reply, zero] at given
        exact (Option.some.inj given).symm
      else isFalse fun granted => zero (granted rcLock reply)

def MutexGranted (trace : List CallEvent) : Prop := ∀ event ∈ trace, Granted event

instance (trace : List CallEvent) : Decidable (MutexGranted trace) :=
  inferInstanceAs (Decidable (∀ event ∈ trace, Granted event))

theorem granted_requestMutex {rcLock : Int} :
    Granted ⟨.fsphRequestMutex, rcLock⟩ ↔ rcLock = 0 := by
  simp [Granted, mutexReply]

/-- The calls that neither take a mutex nor open or close a connection nor read the clock of
the cache, and go to the server only through the given handle. -/
def Op.ServedBy (cli : Option Handle) : (R : Type) → Op R → Prop
  | _, fsphCreateMutex | _, fsphCloseMutex | _, fsphRequestMutex | _, fsphReleaseMutex => False
  | _, smbwrpConnect .. | _, cliShutdown .. | _, timesec => False
  | _, request used _ => cli = some used
  | _, _ => True

/-- The same with the clock of the cache. -/
def Op.Lists (cli : Option Handle) : (R : Type) → Op R → Prop
  | _, timesec => True
  | _, op => Op.ServedBy cli _ op

/-- The request neither opens a file nor carries the number of one. -/
def Request.Fileless : {R : Type} → Request R → Prop
  | _, .cliOpen .. | _, .cliRead .. | _, .cliWriteall .. | _, .cliClose .. => False
  | _, .cliFtruncate .. | _, .cliQfileinfoBasic .. | _, .cliGetattrE .. => False
  | _, .cliSetEaFnum .. => False
  | _, _ => True

def Request.Directs : {R : Type} → Request R → Prop
  | _, .cliSmb2CreateFnum .. | _, .mapFnumToSmb2Handle .. => True
  | _, .smb2cliQueryDirectory .. | _, .cliSmb2CloseFnum .. => True
  | _, _ => False

/-- The request only asks, about a path or about the connection. -/
def Request.Looks : {R : Type} → Request R → Prop
  | _, .cliOpen .. | _, .cliRead .. | _, .cliWriteall .. | _, .cliClose .. => False
  | _, .cliFtruncate .. | _, .cliQfileinfoBasic .. | _, .cliGetattrE .. => False
  | _, .cliSetEaFnum .. | _, .cliSetEaPath .. => False
  | _, .cliSetatr .. | _, .cliSetpathinfoBasic .. | _, .cliRename .. => False
  | _, .cliUnlink .. | _, .cliMkdir .. | _, .cliRmdir .. => False
  | _, .cliSmb2CreateFnum .. | _, .mapFnumToSmb2Handle .. => False
  | _, .smb2cliQueryDirectory .. | _, .cliSmb2CloseFnum .. => False
  | _, _ => True

theorem Request.Looks.fileless {R : Type} {ask : Request R} (looks : ask.Looks) : ask.Fileless := by
  cases ask <;> first | exact looks | trivial

theorem Request.Directs.fileless {R : Type} {ask : Request R} (directs : ask.Directs) :
    ask.Fileless := by
  cases ask <;> first | exact absurd directs id | trivial

/-- The calls of the wrappers that only ask: requests through one handle, and the time of day. -/
def Op.Asks (cli : Option Handle) : (R : Type) → Op R → Prop
  | _, request used ask => cli = some used ∧ ask.Looks
  | _, time | _, getTimeZone .. => True
  | _, _ => False

/-- The request asks about a path or about an open file, and changes nothing. -/
def Request.Consults : {R : Type} → Request R → Prop
  | _, .cliRead .. | _, .cliQfileinfoBasic .. | _, .cliGetattrE .. => True
  | _, ask => ask.Looks

/-- Requests of a kind through one handle, and all that needs no server. -/
def Op.Through (cli : Option Handle) (permits : (R : Type) → Request R → Prop) :
    (R : Type) → Op R → Prop
  | _, request used ask => cli = some used ∧ permits _ ask
  | _, op => Op.ServedBy none _ op

abbrev Op.Looks (cli : Option Handle) : (R : Type) → Op R → Prop :=
  Op.Through cli fun _ ask => ask.Looks

abbrev Op.Consults (cli : Option Handle) : (R : Type) → Op R → Prop :=
  Op.Through cli fun _ ask => ask.Consults

abbrev Op.Pathed (cli : Option Handle) : (R : Type) → Op R → Prop :=
  Op.Through cli fun _ ask => ask.Fileless

/-- A footprint with room for all that asks about paths through the handle, -/
structure Op.AllowsPaths (cli : Handle) (allowed : (R : Type) → Op R → Prop) : Prop where
  plain : ∀ R op, Op.ServedBy none R op → allowed R op
  looks : ∀ R (ask : Request R), ask.Looks → allowed R (.request cli ask)

/-- about directories by their numbers, -/
structure Op.AllowsDirectories (cli : Handle) (allowed : (R : Type) → Op R → Prop) : Prop
    extends Op.AllowsPaths cli allowed where
  directs : ∀ R (ask : Request R), ask.Directs → allowed R (.request cli ask)

/-- and for the clock of the cache. -/
structure Op.AllowsListings (cli : Handle) (allowed : (R : Type) → Op R → Prop) : Prop
    extends Op.AllowsDirectories cli allowed where
  clock : allowed UInt32 .timesec

section ServedBy

variable {cli : Option Handle}

theorem Op.ServedBy.ofNone {R : Type} {op : Op R} (served : Op.ServedBy none R op) :
    Op.ServedBy cli R op := by
  cases op with
  | request used ask => exact absurd served (Option.some_ne_none used).symm
  | _ => exact served

theorem Op.ServedBy.through {permits : (R : Type) → Request R → Prop} (R : Type) (op : Op R)
    (served : Op.ServedBy none R op) : Op.Through cli permits R op := by
  cases op with
  | request used ask => exact absurd served (Option.some_ne_none used).symm
  | _ => exact served

theorem Op.Through.widen {permits wider : (R : Type) → Request R → Prop}
    (widens : ∀ R (ask : Request R), permits R ask → wider R ask) (R : Type) (op : Op R)
    (through : Op.Through cli permits R op) : Op.Through cli wider R op := by
  cases op with
  | request used ask => exact ⟨through.1, widens R ask through.2⟩
  | _ => exact through

theorem Op.Through.servedBy {permits : (R : Type) → Request R → Prop} {R : Type} {op : Op R}
    (through : Op.Through cli permits R op) : Op.ServedBy cli R op := by
  cases op with
  | request used ask => exact through.1
  | _ => exact through

theorem allowsDirectories_servedBy (cli : Handle) :
    Op.AllowsDirectories cli (Op.ServedBy (some cli)) :=
  ⟨⟨fun _ _ => Op.ServedBy.ofNone, fun _ _ _ => rfl⟩, fun _ _ _ => rfl⟩

theorem Op.Asks.servedBy {R : Type} {op : Op R} (asks : Op.Asks cli R op) :
    Op.ServedBy cli R op := by
  cases op with
  | request used ask => exact asks.1
  | time | getTimeZone => trivial
  | _ => exact absurd asks id

theorem Op.Asks.through {permits : (R : Type) → Request R → Prop}
    (looks : ∀ R (ask : Request R), ask.Looks → permits R ask) (R : Type) (op : Op R)
    (asks : Op.Asks cli R op) : Op.Through cli permits R op := by
  cases op with
  | request used ask => exact ⟨asks.1, looks R ask asks.2⟩
  | time | getTimeZone => trivial
  | _ => exact absurd asks id

theorem Request.Looks.consults (R : Type) (ask : Request R) (looks : ask.Looks) :
    ask.Consults := by
  cases ask <;> trivial

theorem Op.Asks.looks {R : Type} {op : Op R} (asks : Op.Asks cli R op) : Op.Looks cli R op :=
  Op.Asks.through (fun _ _ looks => looks) R op asks

theorem Op.Asks.consults {R : Type} {op : Op R} (asks : Op.Asks cli R op) : Op.Consults cli R op :=
  Op.Asks.through Request.Looks.consults R op asks

theorem Op.AllowsPaths.asked {used : Handle} {allowed : (R : Type) → Op R → Prop}
    (allows : Op.AllowsPaths used allowed) (R : Type) (op : Op R)
    (asks : Op.Asks (some used) R op) : allowed R op := by
  cases op with
  | request other ask =>
      obtain ⟨same, looks⟩ := asks
      obtain rfl := Option.some.inj same
      exact allows.looks R ask looks
  | time | getTimeZone => exact allows.plain _ _ trivial
  | _ => exact absurd asks id

theorem Op.ServedBy.lists {R : Type} {op : Op R} (served : Op.ServedBy cli R op) :
    Op.Lists cli R op := by
  cases op <;> first | exact served | trivial

theorem Op.AllowsPaths.lists {cli : Handle} {allowed : (R : Type) → Op R → Prop}
    (allows : Op.AllowsPaths cli allowed) (clock : allowed UInt32 .timesec) (R : Type) (op : Op R)
    (lists : Op.Lists none R op) : allowed R op := by
  cases op with
  | timesec => exact clock
  | _ => exact allows.plain _ _ lists

theorem allowsListings_lists (cli : Handle) : Op.AllowsListings cli (Op.Lists (some cli)) :=
  ⟨⟨⟨fun _ _ served => served.ofNone.lists, fun _ _ _ => rfl⟩, fun _ _ _ => rfl⟩, trivial⟩

theorem only_lists {α : Type} {program : Program α} (served : program.Only (Op.ServedBy cli)) :
    program.Only (Op.Lists cli) :=
  served.mono fun _ _ => Op.ServedBy.lists

@[simp, grind =] theorem lists_request {R : Type} {used : Handle} {ask : Request R} :
    Op.Lists cli R (.request used ask) ↔ cli = some used := Iff.rfl

@[simp, grind .] theorem lists_timesec : Op.Lists cli UInt32 .timesec := trivial

@[simp, grind .] theorem lists_malloc {size : Nat} : Op.Lists cli Bool (.malloc size) := trivial

@[simp, grind .] theorem lists_realloc {size : Nat} : Op.Lists cli Bool (.realloc size) := trivial

@[simp, grind =] theorem asks_request {R : Type} {used : Handle} {ask : Request R} :
    Op.Asks cli R (.request used ask) ↔ cli = some used ∧ ask.Looks := Iff.rfl

@[simp, grind .] theorem asks_time : Op.Asks cli UInt32 .time := trivial

@[simp, grind .] theorem asks_getTimeZone {time : UInt32} :
    Op.Asks cli UInt32 (.getTimeZone time) := trivial

@[simp, grind =] theorem servedBy_request {R : Type} {used : Handle} {ask : Request R} :
    Op.ServedBy cli R (.request used ask) ↔ cli = some used := Iff.rfl

@[simp, grind .] theorem servedBy_time : Op.ServedBy cli UInt32 .time := trivial

@[simp, grind .] theorem servedBy_getTimeZone {time : UInt32} :
    Op.ServedBy cli UInt32 (.getTimeZone time) := trivial

@[simp, grind .] theorem servedBy_malloc {size : Nat} :
    Op.ServedBy cli Bool (.malloc size) := trivial

@[simp, grind .] theorem servedBy_mallocBuffer {size : Nat} :
    Op.ServedBy cli (Option { content : List UInt8 // content.length = size })
      (.mallocBuffer size) := trivial

@[simp, grind .] theorem servedBy_strayRead : Op.ServedBy cli Bool .strayRead := trivial

@[simp, grind .] theorem servedBy_realloc {size : Nat} :
    Op.ServedBy cli Bool (.realloc size) := trivial

@[simp, grind .] theorem servedBy_load {buffer : Buffer} {offset count : Nat} :
    Op.ServedBy cli Unit (.load buffer offset count) := trivial

@[simp, grind .] theorem servedBy_store {buffer : Buffer} {offset : Nat} {data : List UInt8} :
    Op.ServedBy cli Unit (.store buffer offset data) := trivial

@[simp, grind .] theorem servedBy_addFile32L {stat : Filestatus3L} {name : CString}
    {finfo : SmbwrpFileinfo} : Op.ServedBy cli Unit (.fsphAddFile32L stat name finfo) := trivial

@[simp, grind .] theorem servedBy_missingReturnValue :
    Op.ServedBy cli UInt32 .missingReturnValue := trivial

@[simp, grind .] theorem servedBy_fsphNameElem :
    Op.ServedBy cli (Option Ndpathelement) .fsphNameElem := trivial

@[simp, grind .] theorem servedBy_uninitializedFileinfo :
    Op.ServedBy cli SmbwrpFileinfo .uninitializedFileinfo := trivial

@[simp, grind .] theorem servedBy_uninitializedLong :
    Op.ServedBy cli UInt32 .uninitializedLong := trivial

end ServedBy

end NdpSmb
