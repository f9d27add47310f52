import NdpSmb.AcceptedChange
import NdpSmb.ByteFile
import NdpSmb.Environment

/-!
The data of an open file, over its seeks, reads, writes and changes of size.
-/

namespace NdpSmb

open Interaction ByteFile

def TellsSize (content : List UInt8) (info : Option BasicInfo) : Prop :=
  ∀ told ∈ info, told.size.toNat = content.length

/-- What a write leaves: all that was accepted, or whatever a refused one got through. -/
def Written (content buffer : List UInt8) (offset : Nat) : Option UInt32 → List UInt8 → Prop
  | some ret, later => ret.toNat ≤ buffer.length ∧
      later = overlay 0 content offset (buffer.take ret.toNat)
  | none, later => ∃ done, later = overlay 0 content offset (buffer.take done)

def SizeChanged (content : List UInt8) (newsize : Int) (ok : Bool) (later : List UInt8) : Prop :=
  if ok then ∃ size : Nat, newsize = size ∧ later = resize 0 content size else later = content

/-- Nobody else changes the file. A read may stop short. -/
def Stores (cli : Handle) (fd : Int) : Environment Op (List UInt8)
  | content, ⟨.request used (.cliRead number offset count), data⟩, later =>
      later = content ∧ (used = cli → number = fd →
        ∀ got ∈ data, got <+: slice content offset.toNat count.toNat)
  | content, ⟨.request used (.cliWriteall number buffer offset), ret⟩, later =>
      if used = cli ∧ number = fd then Written content buffer offset.toNat ret later
      else later = content
  | content, ⟨.request used (.cliFtruncate number newsize), ok⟩, later =>
      if used = cli ∧ number = fd then SizeChanged content newsize ok later else later = content
  | content, ⟨.request used (.cliQfileinfoBasic number), info⟩, later =>
      later = content ∧ (used = cli → number = fd → TellsSize content info)
  | content, ⟨.request used (.cliGetattrE number), info⟩, later =>
      later = content ∧ (used = cli → number = fd → TellsSize content info)
  | content, event, later => later = content ∧ TellsErrno event

inductive FileCall
  | setFilePtrL (llOffset : Int) (ulMethod : UInt32)
  | setFilePtr (lOffset : Int) (ulMethod : UInt32)
  | read (ulRead : UInt32)
  | write (buffer : List UInt8)
  | newSizeL (llLen : Int)
  | newSize (ulLen : UInt32)
  | queryInfo
  | setInfo (stat : Filestatus3L)
  | eaQuery (pGEAList pFEAList : Option (List UInt8))
  | eaSize
  | eaSet (pFEAList : Option (List UInt8))
  | commit

structure FileTold where
  rc : Int
  actual : Option Nat := none
  data : Option (List UInt8) := none
  deriving DecidableEq

def FileCall.run (ph : Platform) (s : Session) : FileCall → Program (FileTold × Session)
  | .setFilePtrL llOffset ulMethod => do
      let (rc, s, actual) ← ndpFileSetFilePtrL s llOffset ulMethod
      pure ({ rc, actual := actual.map UInt64.toNat }, s)
  | .setFilePtr lOffset ulMethod => do
      let (rc, s, actual) ← ndpFileSetFilePtr s lOffset ulMethod
      pure ({ rc, actual := some actual.toNat }, s)
  | .read ulRead => do
      let (rc, s, actual, data) ← ndpFileRead s true ulRead
      pure ({ rc, actual := actual.map UInt32.toNat, data }, s)
  | .write buffer => do
      let (rc, s, actual) ← ndpFileWrite ph s (some buffer)
      pure ({ rc, actual := actual.map UInt32.toNat }, s)
  | .newSizeL llLen => do
      let rc ← ndpFileNewSizeL s llLen
      pure ({ rc }, s)
  | .newSize ulLen => do
      let rc ← ndpFileNewSize s ulLen
      pure ({ rc }, s)
  | .queryInfo => do
      let rc ← ndpFileQueryInfo ph s
      pure ({ rc }, s)
  | .setInfo stat => do
      let (rc, s) ← ndpFileSetInfo ph s stat
      pure ({ rc }, s)
  | .eaQuery pGEAList pFEAList => do
      let (rc, data) ← ndpFileEAQuery s pGEAList pFEAList
      pure ({ rc, data }, s)
  | .eaSize => do
      let (rc, actual) ← ndpFileEASize s
      pure ({ rc, actual }, s)
  | .eaSet pFEAList => do
      let rc ← ndpFileEASet s pFEAList
      pure ({ rc }, s)
  | .commit => do
      let rc ← ndpFileCommit
      pure ({ rc }, s)

/-! What the calls are for: a sequence of bytes behind a 64-bit pointer. -/

structure OpenData where
  content : List UInt8
  position : UInt64

def OpenData.target (data : OpenData) (distance : Int) (method : UInt32) : Option UInt64 :=
  if method = 0 then if distance < 0 then none else some (UInt64.ofInt distance)
  else if method = 1 then some (data.position + UInt64.ofInt distance)
  else if method = 2 then
    if distance > 0 then none
    else some (UInt64.ofNat data.content.length + UInt64.ofInt distance)
  else none

def FileCall.seek : FileCall → Option (Int × UInt32)
  | .setFilePtrL llOffset ulMethod => some (llOffset, ulMethod)
  | .setFilePtr lOffset ulMethod => some (lOffset, ulMethod)
  | _ => none

def FileCall.shown (position : UInt64) : FileCall → Nat
  | .setFilePtr .. => position.toUInt32.toNat
  | _ => position.toNat

def FileCall.size : FileCall → Option Int
  | .newSizeL llLen => some llLen
  | .newSize ulLen => some ulLen.toNat
  | _ => none

/-- The call leaves the data and the pointer alone. -/
def FileCall.Quiet : FileCall → Prop
  | .queryInfo | .setInfo _ | .eaQuery .. | .eaSize | .eaSet _ | .commit => True
  | _ => False

inductive Does (data : OpenData) : FileCall → FileTold → OpenData → Prop
  | failed {call told} : told.rc ≠ 0 → Does data call told data
  | torn {buffer told} (done : Nat) : told.rc ≠ 0 → Does data (.write buffer) told
      { data with content := overlay 0 data.content data.position.toNat (buffer.take done) }
  | sought {call distance method position} : call.seek = some (distance, method) →
      data.target distance method = some position →
      Does data call { rc := 0, actual := some (call.shown position) } { data with position }
  | read {ulRead got} : got <+: slice data.content data.position.toNat ulRead.toNat →
      Does data (.read ulRead) { rc := 0, actual := some got.length, data := some got }
        { data with position := data.position + UInt64.ofNat got.length }
  | wrote {buffer count} : count ≤ buffer.length →
      Does data (.write buffer) { rc := 0, actual := some count }
        { content := overlay 0 data.content data.position.toNat (buffer.take count)
          position := data.position + UInt64.ofNat count }
  | resized {call} {size : Nat} : call.size = some (size : Int) →
      Does data call { rc := 0 } { data with content := resize 0 data.content size }
  /-- A size that the server refuses is not reported. -/
  | unsized {call size} : call.size = some size → Does data call { rc := 0 } data
  | quiet {call told} : call.Quiet → Does data call told data

def Session.data (s : Session) (content : List UInt8) : OpenData :=
  ⟨content, s.pConn.file.offset⟩

/-- The call does what it is for, and the file stays open under its number. -/
def Carries (s : Session) (content : List UInt8) (call : FileCall) (answer : FileTold × Session)
    (later : List UInt8) : Prop :=
  answer.2.pConn.cli = s.pConn.cli ∧ answer.2.pConn.file.fd = s.pConn.file.fd ∧
    Does (s.data content) call answer.1 (answer.2.data later)

section Requests

variable {cli : Handle} {file : SmbwrpFile} {content : List UInt8}

theorem meets_os2cliErrno :
    (os2cliErrno cli).Meets (Stores cli file.fd)
      (fun rc later => rc ≠ 0 ∧ later = content) content := by
  rintro errno later ⟨rfl, tells⟩
  exact ⟨tells errno rfl, rfl⟩

theorem meets_smbwrpLseek {distance : Int} {method : UInt32} :
    (smbwrpLseek (some cli) file method distance).Meets (Stores cli file.fd)
      (fun answer later => later = content ∧ answer.2.fd = file.fd ∧
        (answer.1 = 0 ∧ OpenData.target ⟨content, file.offset⟩ distance method =
            some answer.2.offset ∨
          answer.1 ≠ 0 ∧ answer.2.offset = file.offset)) content := by
  have refused : maperror einval ≠ 0 := by decide
  unfold OpenData.target smbwrpLseek
  by_cases fromStart : method = 0
  · simp only [if_pos fromStart]
    by_cases negative : distance < 0
    · simp only [if_pos negative]
      exact ⟨rfl, rfl, .inr ⟨refused, rfl⟩⟩
    · simp only [if_neg negative]
      exact ⟨rfl, rfl, .inl ⟨rfl, rfl⟩⟩
  · simp only [if_neg fromStart]
    by_cases fromHere : method = 1
    · simp only [if_pos fromHere]
      exact ⟨rfl, rfl, .inl ⟨rfl, rfl⟩⟩
    · simp only [if_neg fromHere]
      by_cases fromEnd : method = 2
      · simp only [if_pos fromEnd]
        by_cases beyond : distance > 0
        · simp only [if_pos beyond]
          exact ⟨rfl, rfl, .inr ⟨refused, rfl⟩⟩
        · simp only [if_neg beyond]
          have told {info : BasicInfo} (size : info.size.toNat = content.length) :
              some (UInt64.ofNat content.length + UInt64.ofInt distance) =
                some (info.size + UInt64.ofInt distance) := by
            rw [← size, UInt64.ofNat_toNat]
          refine Prog.meets_perform_bind.mpr ?_
          rintro basic _ ⟨rfl, sizes⟩
          cases basic with
          | some info => exact ⟨rfl, rfl, .inl ⟨rfl, told (sizes rfl rfl info rfl)⟩⟩
          | none =>
              refine Prog.meets_perform_bind.mpr ?_
              rintro legacy _ ⟨rfl, sizesLegacy⟩
              cases legacy with
              | some info => exact ⟨rfl, rfl, .inl ⟨rfl, told (sizesLegacy rfl rfl info rfl)⟩⟩
              | none =>
                  refine Prog.meets_bind.mpr (meets_os2cliErrno.mono ?_)
                  rintro rc later ⟨failed, rfl⟩
                  exact ⟨rfl, rfl, .inr ⟨failed, rfl⟩⟩
      · simp only [if_neg fromEnd]
        exact ⟨rfl, rfl, .inr ⟨refused, rfl⟩⟩

theorem meets_smbwrpRead {ulRead : UInt32} :
    (smbwrpRead (some cli) file true ulRead).Meets (Stores cli file.fd)
      (fun answer later => later = content ∧ answer.2.1.fd = file.fd ∧
        (answer.1 ≠ 0 ∧ answer.2.1 = file ∧ answer.2.2 = some [] ∨
          ∃ got, answer = (0, { file with offset := file.offset + UInt64.ofNat got.length },
              some got) ∧
            got <+: slice content file.offset.toNat ulRead.toNat)) content := by
  refine Prog.meets_perform_bind.mpr ?_
  rintro status _ ⟨rfl, found⟩
  cases status with
  | none =>
      refine Prog.meets_bind.mpr (meets_os2cliErrno.mono ?_)
      rintro rc later ⟨failed, rfl⟩
      exact ⟨rfl, rfl, .inl ⟨failed, rfl, rfl⟩⟩
  | some got => exact ⟨rfl, rfl, .inr ⟨got, rfl, found rfl rfl got rfl⟩⟩

theorem meets_smbwrpWrite {buffer : List UInt8} :
    (smbwrpWrite (some cli) file (some buffer)).Meets (Stores cli file.fd)
      (fun answer later => answer.2.1.fd = file.fd ∧
        (answer.1 ≠ 0 ∧ answer.2.1 = file ∧ Written content buffer file.offset.toNat none later ∨
          ∃ ret, answer.1 = 0 ∧ answer.2.2 = some ret ∧
            answer.2.1.offset = file.offset + ret.toUInt64 ∧
            Written content buffer file.offset.toNat (some ret) later)) content := by
  refine Prog.meets_perform_bind.mpr ?_
  intro status later stored
  have written : Written content buffer file.offset.toNat status later := by
    simpa only [Stores, and_self, if_true] using stored
  cases status with
  | none =>
      refine Prog.meets_bind.mpr (meets_os2cliErrno.mono ?_)
      rintro rc _ ⟨failed, rfl⟩
      exact ⟨rfl, .inl ⟨failed, rfl, written⟩⟩
  | some ret => exact ⟨rfl, .inr ⟨ret, rfl, rfl, rfl, written⟩⟩

theorem meets_smbwrpSetfilesize {newsize : Int} :
    (smbwrpSetfilesize (some cli) file newsize).Meets (Stores cli file.fd)
      (fun rc later => rc = 0 ∧ (later = content ∨ SizeChanged content newsize true later))
      content := by
  refine Prog.meets_perform_bind.mpr ?_
  intro ok later stored
  have changed : SizeChanged content newsize ok later := by
    simpa only [Stores, and_self, if_true] using stored
  cases ok with
  | true => exact ⟨rfl, .inr changed⟩
  | false =>
      rintro errno _ ⟨rfl, -⟩
      exact ⟨rfl, .inl changed⟩

end Requests

/-! What leaves the data alone. -/

def Op.LeavesData : (R : Type) → Op R → Prop
  | _, .request _ (.cliWriteall ..) | _, .request _ (.cliFtruncate ..) => False
  | _, _ => True

theorem Op.LeavesData.stores {cli : Handle} {fd : Int} {R : Type} {op : Op R}
    (leaves : Op.LeavesData R op) {content later : List UInt8} {reply : R}
    (stored : Stores cli fd content ⟨op, reply⟩ later) : later = content := by
  cases op with
  | request used ask =>
      cases ask with
      | cliWriteall | cliFtruncate => exact leaves.elim
      | _ => exact stored.1
  | _ => exact stored.1

theorem meets_of_leavesData {α : Type} {cli : Handle} {fd : Int} {content : List UInt8}
    {program : Program α} (leaves : program.Only Op.LeavesData) :
    program.Meets (Stores cli fd) (fun _ later => later = content) content :=
  Prog.meets_of_only leaves fun _ _ _ _ quiet stored => quiet.stores stored

section Guard

variable {α E : Type} {answers : Environment Op E} {refused : Int → α} {work : Program α}
  {post : α → E → Prop} {state : E}

theorem meets_guarded (asked : ∀ rcLock later, answers state ⟨.fsphRequestMutex, rcLock⟩ later →
      later = state)
    (released : ∀ state later, answers state ⟨.fsphReleaseMutex, ()⟩ later → later = state)
    (denied : ∀ rcLock ≠ 0, post (refused rcLock) state)
    (worked : work.Meets answers post state) : (guarded refused work).Meets answers post state := by
  refine Prog.meets_perform_bind.mpr fun rcLock later exchanged => ?_
  rw [asked rcLock later exchanged]
  split
  · rename_i failed
    exact denied rcLock failed
  · refine Prog.meets_bind.mpr (worked.mono ?_)
    intro value middle held reply final left
    rw [released middle final left]
    exact held

end Guard

section Calls

variable {ph : Platform} {s : Session} {cli : Handle} {content : List UInt8}

theorem meets_guarded_data {α : Type} {refused : Int → α} {work : Program α} {fd : Int}
    {post : α → List UInt8 → Prop} (denied : ∀ rcLock ≠ 0, post (refused rcLock) content)
    (worked : work.Meets (Stores cli fd) post content) :
    (guarded refused work).Meets (Stores cli fd) post content :=
  meets_guarded (fun _ _ stored => stored.1) (fun _ _ stored => stored.1) denied worked

theorem carries_failed {call : FileCall} {told : FileTold} (failed : told.rc ≠ 0) :
    Carries s content call (told, s) content :=
  ⟨rfl, rfl, .failed failed⟩

/-- The pointer behind a seek, which is told where it moved. -/
def SoughtTo (s : Session) (content : List UInt8) (distance : Int) (method : UInt32)
    (answer : Int × Session × Option UInt64) : Prop :=
  answer.1 = 0 ∧ answer.2.2 = some answer.2.1.pConn.file.offset ∧
      (s.data content).target distance method = some answer.2.1.pConn.file.offset ∨
    answer.1 ≠ 0 ∧ answer.2.1.pConn.file.offset = s.pConn.file.offset

theorem meets_ndpFileSetFilePtrL {distance : Int} {method : UInt32}
    (opened : 0 ≤ s.pConn.file.fd) (connected : s.pConn.cli = some cli) :
    (ndpFileSetFilePtrL s distance method).Meets (Stores cli s.pConn.file.fd)
      (fun answer later => later = content ∧ answer.2.1.pConn.cli = s.pConn.cli ∧
        answer.2.1.pConn.file.fd = s.pConn.file.fd ∧
        SoughtTo s content distance method answer) content := by
  refine meets_guarded_data (fun rcLock failed => ⟨rfl, rfl, rfl, .inr ⟨failed, rfl⟩⟩) ?_
  unfold seekOpen
  rw [if_neg (by omega), connected]
  refine Prog.meets_bind.mpr (meets_smbwrpLseek.mono ?_)
  rintro ⟨rc, file⟩ later ⟨rfl, sameFd, sought | kept⟩
  · obtain ⟨rfl, reached⟩ := sought
    exact ⟨rfl, connected, sameFd, .inl ⟨rfl, rfl, reached⟩⟩
  · exact ⟨rfl, connected, sameFd, .inr kept⟩

theorem SoughtTo.does {call : FileCall} {distance : Int} {method : UInt32} {rc : Int} {t : Session}
    {actual : Option UInt64} {given : Option Nat}
    (sought : SoughtTo s content distance method (rc, t, actual))
    (seek : call.seek = some (distance, method))
    (shown : ∀ position, actual = some position → given = some (call.shown position)) :
    Does (s.data content) call { rc, actual := given } (t.data content) := by
  rcases sought with ⟨zero, told, reached⟩ | ⟨failed, kept⟩
  · dsimp only at zero told reached
    rw [zero, shown _ told]
    exact .sought seek reached
  · have unmoved : t.data content = s.data content := congrArg (OpenData.mk content) kept
    rw [unmoved]
    exact .failed failed

theorem carries_setFilePtrL {distance : Int} {method : UInt32} (opened : 0 ≤ s.pConn.file.fd)
    (connected : s.pConn.cli = some cli) :
    ((FileCall.setFilePtrL distance method).run ph s).Meets (Stores cli s.pConn.file.fd)
      (Carries s content (.setFilePtrL distance method)) content := by
  refine Prog.meets_bind.mpr ((meets_ndpFileSetFilePtrL opened connected).mono ?_)
  rintro ⟨rc, t, actual⟩ later ⟨rfl, sameCli, sameFd, sought⟩
  refine ⟨sameCli, sameFd, sought.does rfl ?_⟩
  rintro position rfl
  rfl

theorem carries_setFilePtr {distance : Int} {method : UInt32} (opened : 0 ≤ s.pConn.file.fd)
    (connected : s.pConn.cli = some cli) :
    ((FileCall.setFilePtr distance method).run ph s).Meets (Stores cli s.pConn.file.fd)
      (Carries s content (.setFilePtr distance method)) content := by
  refine Prog.meets_bind.mpr (Prog.meets_perform_bind.mpr ?_)
  rintro unset _ ⟨rfl, -⟩
  refine Prog.meets_bind.mpr ((meets_ndpFileSetFilePtrL opened connected).mono ?_)
  rintro ⟨rc, t, actual⟩ later ⟨rfl, sameCli, sameFd, sought⟩
  refine ⟨sameCli, sameFd, sought.does rfl ?_⟩
  rintro position rfl
  rfl

/-- The bytes of a read are counted in full. -/
theorem toNat_ofNat_length {got : List UInt8} {ulRead : UInt32} {offset : Nat}
    (found : got <+: slice content offset ulRead.toNat) :
    (UInt32.ofNat got.length).toNat = got.length := by
  have short := found.length_le.trans length_slice_le
  have bounded := ulRead.toNat_lt
  rw [UInt32.toNat_ofNat']
  omega

theorem carries_read {ulRead : UInt32} (connected : s.pConn.cli = some cli) :
    ((FileCall.read ulRead).run ph s).Meets (Stores cli s.pConn.file.fd)
      (Carries s content (.read ulRead)) content := by
  refine Prog.meets_bind.mpr (meets_guarded_data (fun rcLock failed => carries_failed failed) ?_)
  unfold readOpen
  rw [connected]
  refine Prog.meets_bind.mpr (meets_smbwrpRead.mono ?_)
  rintro ⟨rc, file, data⟩ later ⟨rfl, sameFd, ⟨failed, rfl, rfl⟩ | ⟨got, answered, found⟩⟩
  · have none_read : ¬ (UInt32.ofNat ([] : List UInt8).length > 0) := by decide
    exact ⟨rfl, rfl, .failed (by simpa [none_read] using failed)⟩
  · obtain ⟨rfl, rest⟩ := Prod.mk.inj answered
    obtain ⟨rfl, rfl⟩ := Prod.mk.inj rest
    have counted := toNat_ofNat_length found
    have reads : Does (s.data later) (.read ulRead)
        { rc := 0, actual := some got.length, data := some got }
        ((s.withFile { s.pConn.file with
          offset := s.pConn.file.offset + UInt64.ofNat got.length }).data later) := .read found
    refine ⟨rfl, rfl, ?_⟩
    simpa [counted, noError] using reads

theorem carries_write {buffer : List UInt8} (opened : 0 ≤ s.pConn.file.fd)
    (connected : s.pConn.cli = some cli) :
    ((FileCall.write buffer).run ph s).Meets (Stores cli s.pConn.file.fd)
      (Carries s content (.write buffer)) content := by
  refine Prog.meets_bind.mpr (meets_guarded_data (fun rcLock failed => carries_failed failed) ?_)
  have same : (s.invalidateParent ph s.pConn.file.fullname).pConn = s.pConn := rfl
  unfold writeOpen
  rw [same, if_neg (by omega), connected]
  refine Prog.meets_bind.mpr (meets_smbwrpWrite.mono ?_)
  rintro ⟨rc, file, done⟩ later
    ⟨sameFd, ⟨failed, rfl, through, rfl⟩ | ⟨ret, rfl, rfl, moved, written⟩⟩
  · exact ⟨rfl, rfl, .torn through failed⟩
  · obtain ⟨within, rfl⟩ := written
    have counted : ret.toUInt64 = UInt64.ofNat ret.toNat := by
      apply UInt64.toNat_inj.mp
      have bounded := ret.toNat_lt
      rw [UInt32.toNat_toUInt64, UInt64.toNat_ofNat']
      omega
    refine ⟨rfl, sameFd, ?_⟩
    have wrote : Does (s.data content) (.write buffer) _ _ := .wrote within
    rw [← counted] at wrote
    have position : file.offset = (s.data content).position + ret.toUInt64 := moved
    rw [← position] at wrote
    exact wrote

theorem does_newSize {call : FileCall} {newsize : Int} {rc : Int} {later : List UInt8}
    (sized : call.size = some newsize)
    (done : rc = 0 ∧ (later = content ∨ SizeChanged content newsize true later)) :
    Does (s.data content) call { rc } (s.data later) := by
  obtain ⟨rfl, rfl | ⟨size, rfl, rfl⟩⟩ := done
  · exact .unsized sized
  · exact .resized sized

theorem meets_ndpFileNewSizeL {call : FileCall} {llLen : Int} (sized : call.size = some llLen)
    (opened : 0 ≤ s.pConn.file.fd) (connected : s.pConn.cli = some cli) :
    (ndpFileNewSizeL s llLen).Meets (Stores cli s.pConn.file.fd)
      (fun rc later => Does (s.data content) call { rc } (s.data later)) content := by
  refine meets_guarded_data (fun rcLock failed => .failed failed) ?_
  rw [if_neg (by omega), connected]
  exact meets_smbwrpSetfilesize.mono fun _ _ => does_newSize sized

theorem Op.ServedBy.leavesData {R : Type} {op : Op R} (served : Op.ServedBy none R op) :
    Op.LeavesData R op := by
  cases op with
  | request used ask => cases served
  | _ => trivial

theorem Op.SetsEas.leavesData {R : Type} {op : Op R} (sets : Op.SetsEas R op) :
    Op.LeavesData R op := by
  cases op with
  | request used ask =>
      cases ask with
      | cliWriteall | cliFtruncate => cases sets
      | _ => trivial
  | _ => trivial

theorem Op.Consults.leavesData {R : Type} {op : Op R} {cli : Option Handle}
    (consults : Op.Consults cli R op) : Op.LeavesData R op := by
  cases op with
  | request used ask =>
      cases ask with
      | cliWriteall | cliFtruncate => cases consults.2
      | _ => trivial
  | _ => trivial

theorem leavesData_guarded {α : Type} {refused : Int → α} {work : Program α}
    (consults : work.Only (Op.Consults s.pConn.cli)) :
    (guarded refused work).Only Op.LeavesData :=
  only_guarded trivial trivial (consults.mono fun _ _ => Op.Consults.leavesData)

theorem leavesData_looking {α : Type} {refused : Int → α} {work : Program α}
    (looks : work.Only (Op.Looks s.pConn.cli)) : (guarded refused work).Only Op.LeavesData :=
  leavesData_guarded (looks.mono (Op.Through.widen Request.Looks.consults))

theorem leavesData_ndpFileEAQuery (pGEAList pFEAList : Option (List UInt8)) :
    (ndpFileEAQuery s pGEAList pFEAList).Only Op.LeavesData := by
  cases pFEAList with
  | none => trivial
  | some pFEAList =>
      simp only [ndpFileEAQuery]
      split
      · trivial
      · refine Prog.only_perform_bind.mpr ⟨trivial, fun malloced => ?_⟩
        cases malloced with
        | none => trivial
        | some pchBuffer =>
            apply leavesData_looking
            exact only_queryOpenEas Op.ServedBy.through s looks_smbwrpListea _ _ _

theorem leavesData_ndpFileEASize : (ndpFileEASize s).Only Op.LeavesData := by
  unfold ndpFileEASize
  split
  · trivial
  · refine Prog.only_perform_bind.mpr ⟨trivial, fun malloced => ?_⟩
    cases malloced with
    | none => trivial
    | some pchBuffer =>
        apply leavesData_looking
        exact only_queryOpenEaSize Op.ServedBy.through s looks_smbwrpListea _

theorem leavesData_quiet {call : FileCall} (quiet : call.Quiet) :
    (call.run ph s).Only Op.LeavesData := by
  cases call with
  | queryInfo =>
      exact (leavesData_guarded (consults_queryOpenInfo ph s)).bind fun _ => trivial
  | setInfo stat =>
      refine (only_guarded trivial trivial ?_).bind fun _ => trivial
      split <;> trivial
  | eaQuery pGEAList pFEAList =>
      refine Prog.Only.bind ?_ fun _ => trivial
      exact leavesData_ndpFileEAQuery pGEAList pFEAList
  | eaSize =>
      refine Prog.Only.bind ?_ fun _ => trivial
      exact leavesData_ndpFileEASize
  | eaSet pFEAList =>
      refine Prog.Only.bind ?_ fun _ => trivial
      exact (setsEas_ndpFileEASet s pFEAList).mono fun _ _ => Op.SetsEas.leavesData
  | commit => trivial
  | _ => cases quiet

theorem returns_quiet {call : FileCall} (quiet : call.Quiet) :
    (call.run ph s).Returns fun answer => answer.2.pConn.cli = s.pConn.cli ∧
      answer.2.pConn.file.fd = s.pConn.file.fd ∧
      answer.2.pConn.file.offset = s.pConn.file.offset := by
  cases call with
  | setInfo stat =>
      refine Prog.returns_bind.mpr (returns_guarded (fun _ _ => ⟨rfl, rfl, rfl⟩) ?_)
      split
      · exact ⟨rfl, rfl, rfl⟩
      · exact ⟨rfl, rfl, rfl⟩
  | queryInfo | eaQuery | eaSize | eaSet =>
      exact Prog.returns_bind.mpr (Prog.returns_of_forall fun _ => ⟨rfl, rfl, rfl⟩)
  | commit => exact ⟨rfl, rfl, rfl⟩
  | _ => cases quiet

theorem carries_call (call : FileCall) (opened : 0 ≤ s.pConn.file.fd)
    (connected : s.pConn.cli = some cli) :
    (call.run ph s).Meets (Stores cli s.pConn.file.fd) (Carries s content call) content := by
  by_cases quiet : call.Quiet
  · refine Prog.Meets.mono (Prog.Meets.and_returns
      (meets_of_leavesData (leavesData_quiet quiet)) (returns_quiet quiet)) ?_
    rintro ⟨told, t⟩ later ⟨rfl, sameCli, sameFd, kept⟩
    have unmoved : t.data later = s.data later := congrArg (OpenData.mk later) kept
    refine ⟨sameCli, sameFd, ?_⟩
    rw [unmoved]
    exact .quiet quiet
  · cases call with
    | setFilePtrL => exact carries_setFilePtrL opened connected
    | setFilePtr => exact carries_setFilePtr opened connected
    | read => exact carries_read connected
    | write => exact carries_write opened connected
    | newSizeL llLen =>
        have sized : (FileCall.newSizeL llLen).size = some llLen := rfl
        refine Prog.meets_bind.mpr ((meets_ndpFileNewSizeL sized opened connected).mono ?_)
        exact fun rc later does => ⟨rfl, rfl, does⟩
    | newSize ulLen =>
        have sized : (FileCall.newSize ulLen).size = some (ulLen.toNat : Int) := rfl
        refine Prog.meets_bind.mpr ((meets_ndpFileNewSizeL sized opened connected).mono ?_)
        exact fun rc later does => ⟨rfl, rfl, does⟩
    | _ => exact absurd trivial quiet

end Calls

/-! Sequences of calls on an open file. -/

structure FileStep where
  before : OpenData
  call : FileCall
  told : FileTold
  after : OpenData

/-- A sequence of calls against a server that keeps the data, while others may change the
Resource. -/
inductive Uses (ph : Platform) (cli : Handle) :
    Session → List UInt8 → List FileStep → Session → List UInt8 → Prop
  | nil {s content} : Uses ph cli s content [] s content
  | cons {s content call trace told t later steps u final} (pRes : Resource) :
      Run (FileCall.run ph s call) trace (some (told, t)) →
      Serves (Stores cli s.pConn.file.fd) content trace later →
      Uses ph cli { t with pRes } later steps u final →
      Uses ph cli s content (⟨s.data content, call, told, t.data later⟩ :: steps) u final

def FileStep.Sound (step : FileStep) : Prop :=
  Does step.before step.call step.told step.after

def Follow : OpenData → List FileStep → OpenData → Prop
  | first, [], last => first = last
  | first, step :: rest, last => step.before = first ∧ Follow step.after rest last

section Sequences

variable {ph : Platform} {s t : Session} {cli : Handle} {content later : List UInt8}
  {steps : List FileStep}

/-- Whatever is called on an open file, it is a sequence of bytes behind a pointer. -/
theorem openFile_refines (uses : Uses ph cli s content steps t later)
    (opened : 0 ≤ s.pConn.file.fd) (connected : s.pConn.cli = some cli) :
    (∀ step ∈ steps, step.Sound) ∧ Follow (s.data content) steps (t.data later) ∧
      t.pConn.cli = some cli ∧ t.pConn.file.fd = s.pConn.file.fd := by
  induction uses with
  | nil => exact ⟨by simp, rfl, connected, rfl⟩
  | @cons s content call trace told t later steps u final pRes run served rest ih =>
      obtain ⟨sameCli, sameFd, does⟩ := (carries_call call opened connected).run run served
      have openedLater : 0 ≤ t.pConn.file.fd := by
        rw [sameFd]
        exact opened
      obtain ⟨sound, follow, sameLast, lastFd⟩ := ih openedLater (sameCli.trans connected)
      refine ⟨?_, ⟨rfl, follow⟩, sameLast, lastFd.trans sameFd⟩
      exact List.forall_mem_cons.mpr ⟨does, sound⟩

theorem follow_append {first last : OpenData} {before behind : List FileStep} :
    Follow first (before ++ behind) last ↔
      ∃ middle, Follow first before middle ∧ Follow middle behind last := by
  induction before generalizing first with
  | nil => simp [Follow]
  | cons step rest ih => simp [Follow, ih, and_assoc]

structure OpenData.Spares (data : OpenData) (call : FileCall) (offset length : Nat) : Prop where
  writes : ∀ buffer, call = .write buffer →
    data.position.toNat + buffer.length ≤ offset ∨ offset + length ≤ data.position.toNat
  cuts : ∀ size, call.size = some size → ((offset + length : Nat) : Int) ≤ size

section Kept

variable {data after : OpenData} {call : FileCall} {told : FileTold}

theorem Does.contains {offset : Nat} {bytes : List UInt8} (does : Does data call told after)
    (spares : data.Spares call offset bytes.length) (holds : Contains data.content offset bytes) :
    Contains after.content offset bytes := by
  have overlaid {buffer : List UInt8} (same : call = .write buffer) (done : Nat) :
      Contains (overlay 0 data.content data.position.toNat (buffer.take done)) offset bytes := by
    have apart := spares.writes buffer same
    have shorter := List.length_take_le' done buffer
    exact holds.overlay (by omega)
  cases does with
  | failed | sought | read | unsized | quiet => exact holds
  | torn done => exact overlaid rfl done
  | wrote => exact overlaid rfl _
  | resized sized =>
      have fits := spares.cuts _ sized
      exact holds.resize (by omega)

theorem Does.written {buffer : List UInt8} {count : Nat}
    (does : Does data (.write buffer) told after) (success : told.rc = 0)
    (actual : told.actual = some count) :
    count ≤ buffer.length ∧ Contains after.content data.position.toNat (buffer.take count) := by
  cases does with
  | failed failed | torn _ failed => exact absurd success failed
  | sought seek => cases seek
  | wrote within =>
      obtain rfl := Option.some.inj actual
      exact ⟨within, contains_overlay⟩
  | resized sized | unsized sized => cases sized
  | quiet quiet => cases quiet

theorem Does.found {ulRead : UInt32} {got : List UInt8} (does : Does data (.read ulRead) told after)
    (success : told.rc = 0) (given : told.data = some got) :
    got <+: slice data.content data.position.toNat ulRead.toNat := by
  cases does with
  | failed failed => exact absurd success failed
  | sought seek => cases seek
  | read found =>
      obtain rfl := Option.some.inj given
      exact found
  | resized sized | unsized sized => cases sized
  | quiet quiet => cases quiet

end Kept

theorem contains_along {first last : OpenData} {offset : Nat} {data : List UInt8}
    (sound : ∀ step ∈ steps, step.Sound) (follow : Follow first steps last)
    (spares : ∀ step ∈ steps, step.before.Spares step.call offset data.length)
    (holds : Contains first.content offset data) : Contains last.content offset data := by
  induction steps generalizing first with
  | nil =>
      obtain rfl := follow
      exact holds
  | cons step rest ih =>
      obtain ⟨rfl, behind⟩ := follow
      have kept :=
        Does.contains (sound step List.mem_cons_self) (spares step List.mem_cons_self) holds
      exact ih (fun other member => sound other (List.mem_cons_of_mem _ member)) behind
        (fun other member => spares other (List.mem_cons_of_mem _ member)) kept

/-- What was told to be written is read back, wherever the server sends it, until it is written
over or cut off. -/
theorem written_readBack {before between behind : List FileStep} {writing reading : FileStep}
    {data got : List UInt8} {count : Nat} {ulRead : UInt32}
    (uses : Uses ph cli s content (before ++ writing :: between ++ reading :: behind) t later)
    (opened : 0 ≤ s.pConn.file.fd) (connected : s.pConn.cli = some cli)
    (write : writing.call = .write data)
    (wrote : writing.told.rc = 0 ∧ writing.told.actual = some count)
    (spared : ∀ step ∈ between,
      step.before.Spares step.call writing.before.position.toNat count)
    (read : reading.call = .read ulRead)
    (answered : reading.told.rc = 0 ∧ reading.told.data = some got) :
    count ≤ data.length ∧ ∀ near far,
      writing.before.position.toNat + near = reading.before.position.toNat + far →
      near < count → far < got.length → got[far]? = data[near]? := by
  obtain ⟨sound, follow, -⟩ := openFile_refines uses opened connected
  obtain ⟨reached, earlier, next, -⟩ := follow_append.mp follow
  obtain ⟨written, -, -, path⟩ := follow_append.mp earlier
  have writes : Does writing.before (.write data) writing.told writing.after := by
    rw [← write]
    exact sound writing (by simp)
  have reads : Does reading.before (.read ulRead) reading.told reading.after := by
    rw [← read]
    exact sound reading (by simp)
  obtain ⟨within, holds⟩ := writes.written wrote.1 wrote.2
  have length : (data.take count).length = count := List.length_take_of_le within
  have kept := contains_along (fun step member => sound step (by simp [member])) path
    (by rwa [length]) holds
  rw [← next] at kept
  have found := reads.found answered.1 answered.2
  refine ⟨within, fun near far same held sent => ?_⟩
  have there := kept.getElem?_read found same (by rwa [length]) sent
  rw [there, List.getElem?_take_of_lt held]

end Sequences

def threeBytes : (R : Type) → Op R → R
  | _, .request _ (.cliWriteall ..) => some 3
  | _, .request _ (.cliRead ..) => some [1, 2, 3]
  | _, op => op.usual

def fileRun (answers : (R : Type) → Op R → R) (s : Session) (call : FileCall) :
    List CallEvent × Option (FileTold × Session) :=
  exec (fun _ => answers) 0 (FileCall.run asciiPlatform s call)

def threeBytesStart : Session := leftBy 0 true 5 openF freshSession

def threeBytesAt (offset : UInt64) (updatetime : Nat) : Session :=
  threeBytesStart.withFile { threeBytesStart.pConn.file with offset, updatetime }

theorem run_fileRun (answers : (R : Type) → Op R → R) (s t : Session) (call : FileCall)
    (told : FileTold) (returned : (fileRun answers s call).2 = some (told, t)) :
    Run (FileCall.run asciiPlatform s call) (fileRun answers s call).1 (some (told, t)) := by
  rw [← returned]
  exact run_exec _ _ _

def writingThree : FileStep :=
  ⟨⟨[], 0⟩, .write [1, 2, 3], { rc := 0, actual := some 3 }, ⟨[1, 2, 3], 3⟩⟩

def seekingStart : FileStep :=
  ⟨⟨[1, 2, 3], 3⟩, .setFilePtrL 0 0, { rc := 0, actual := some 0 }, ⟨[1, 2, 3], 0⟩⟩

def readingThree : FileStep :=
  ⟨⟨[1, 2, 3], 0⟩, .read 3, { rc := 0, actual := some 3, data := some [1, 2, 3] }, ⟨[1, 2, 3], 3⟩⟩

theorem uses_threeBytes :
    Uses asciiPlatform 0 threeBytesStart []
      ([] ++ writingThree :: [seekingStart] ++ readingThree :: []) (threeBytesAt 3 1) [1, 2, 3] := by
  have quiet : ∀ errno ∈ (none : Option Int), maperror errno ≠ noError := by simp
  have written := run_fileRun threeBytes threeBytesStart (threeBytesAt 3 1) writingThree.call
    writingThree.told (by decide)
  have sought := run_fileRun threeBytes (threeBytesAt 3 1) (threeBytesAt 0 1) seekingStart.call
    seekingStart.told (by decide)
  have read := run_fileRun threeBytes (threeBytesAt 0 1) (threeBytesAt 3 1) readingThree.call
    readingThree.told (by decide)
  have stored : Stores 0 5 [] ⟨.request 0 (.cliWriteall 5 [1, 2, 3] 0), some (3 : UInt32)⟩
      [1, 2, 3] := by
    simp only [Stores, and_self, if_true]
    exact ⟨by decide, by decide⟩
  have given : Stores 0 5 [1, 2, 3] ⟨.request 0 (.cliRead 5 0 3), some [(1 : UInt8), 2, 3]⟩
      [1, 2, 3] := by
    refine ⟨rfl, fun _ _ got same => ?_⟩
    obtain rfl := Option.some.inj same
    decide
  refine .cons threeBytesStart.pRes written
    (.cons ⟨rfl, quiet⟩ (.cons stored (.cons ⟨rfl, quiet⟩ .nil))) ?_
  refine .cons threeBytesStart.pRes sought (.cons ⟨rfl, quiet⟩ (.cons ⟨rfl, quiet⟩ .nil)) ?_
  exact .cons threeBytesStart.pRes read
    (.cons ⟨rfl, quiet⟩ (.cons given (.cons ⟨rfl, quiet⟩ .nil))) .nil

theorem openFile_refines_threeBytes :
    ∃ steps, (∀ step ∈ steps, FileStep.Sound step) ∧
      Follow (threeBytesStart.data []) steps ((threeBytesAt 3 1).data [1, 2, 3]) ∧
      (threeBytesAt 3 1).pConn.cli = some 0 ∧
      (threeBytesAt 3 1).pConn.file.fd = threeBytesStart.pConn.file.fd :=
  ⟨_, openFile_refines uses_threeBytes (by decide) (by decide)⟩

def twoBytes : (R : Type) → Op R → R
  | _, .request _ (.cliWriteall ..) => some 2
  | _, .request _ (.cliRead ..) => some [2]
  | _, op => op.usual

def writingTwo : FileStep :=
  ⟨⟨[], 0⟩, .write [1, 2, 3], { rc := 0, actual := some 2 }, ⟨[1, 2], 2⟩⟩

def seekingSecond : FileStep :=
  ⟨⟨[1, 2], 2⟩, .setFilePtrL 1 0, { rc := 0, actual := some 1 }, ⟨[1, 2], 1⟩⟩

def readingSecond : FileStep :=
  ⟨⟨[1, 2], 1⟩, .read 8, { rc := 0, actual := some 1, data := some [2] }, ⟨[1, 2], 2⟩⟩

theorem uses_twoBytes :
    Uses asciiPlatform 0 threeBytesStart []
      ([] ++ writingTwo :: [seekingSecond] ++ readingSecond :: []) (threeBytesAt 2 1) [1, 2] := by
  have quiet : ∀ errno ∈ (none : Option Int), maperror errno ≠ noError := by simp
  have written := run_fileRun twoBytes threeBytesStart (threeBytesAt 2 1) writingTwo.call
    writingTwo.told (by decide)
  have sought := run_fileRun twoBytes (threeBytesAt 2 1) (threeBytesAt 1 1) seekingSecond.call
    seekingSecond.told (by decide)
  have read := run_fileRun twoBytes (threeBytesAt 1 1) (threeBytesAt 2 1) readingSecond.call
    readingSecond.told (by decide)
  have stored : Stores 0 5 [] ⟨.request 0 (.cliWriteall 5 [1, 2, 3] 0), some (2 : UInt32)⟩
      [1, 2] := by
    simp only [Stores, and_self, if_true]
    exact ⟨by decide, by decide⟩
  have given : Stores 0 5 [1, 2] ⟨.request 0 (.cliRead 5 1 8), some [(2 : UInt8)]⟩ [1, 2] := by
    refine ⟨rfl, fun _ _ got same => ?_⟩
    obtain rfl := Option.some.inj same
    decide
  refine .cons threeBytesStart.pRes written
    (.cons ⟨rfl, quiet⟩ (.cons stored (.cons ⟨rfl, quiet⟩ .nil))) ?_
  refine .cons threeBytesStart.pRes sought (.cons ⟨rfl, quiet⟩ (.cons ⟨rfl, quiet⟩ .nil)) ?_
  exact .cons threeBytesStart.pRes read
    (.cons ⟨rfl, quiet⟩ (.cons given (.cons ⟨rfl, quiet⟩ .nil))) .nil

theorem written_readBack_twoBytes : 2 ≤ [(1 : UInt8), 2, 3].length ∧ ∀ near far,
    (0 : UInt64).toNat + near = (1 : UInt64).toNat + far → near < 2 → far < [(2 : UInt8)].length →
      [(2 : UInt8)][far]? = [(1 : UInt8), 2, 3][near]? := by
  refine written_readBack uses_twoBytes (by decide) (by decide) rfl ⟨rfl, rfl⟩ ?_ rfl ⟨rfl, rfl⟩
  intro step member
  obtain rfl := List.mem_singleton.mp member
  constructor
  · intro buffer writes
    cases writes
  · intro size cuts
    cases cuts

end NdpSmb
