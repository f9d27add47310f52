import NdpSmb.AcceptedChange
import NdpSmb.CloseOnce

/-!
Attributes and times that are kept with the open file until it is closed: what the calls since
the open have asked for, and what the close sends.
-/

namespace NdpSmb

open ByteString Interaction

/-- The last successful event that concerns the modification time. -/
inductive LastChange
  | none
  | written
  | set (mtime : UInt32)
  deriving DecidableEq

structure Deferred where
  attr : UInt32
  change : LastChange := .none
  deriving DecidableEq

/-- The modification time to be set, zero for none. -/
def Deferred.time (asked : Deferred) (now : Option UInt32) : UInt32 :=
  match asked.change with
  | .none => 0
  | .written => now.getD 0
  | .set mtime => mtime

def SessionCall.handlesFile : SessionCall → Bool
  | .fileWrite _ | .fileSetInfo _ | .fileSetFilePtrL .. | .fileSetFilePtr .. => true
  | .fileRead .. | .fileNewSize _ | .fileNewSizeL _ => true
  | _ => false

def SessionCall.openAttribute : SessionCall → UInt32
  | .openReplace _ _ ulAttribute _ | .openReplaceL _ _ ulAttribute _ => ulAttribute
  | .openCreate _ _ ulAttribute _ | .openCreateL _ _ ulAttribute _ => ulAttribute
  | _ => 0

def Deferred.after (ph : Platform) (asked : Deferred) (call : SessionCall) (rc : Int) : Deferred :=
  match call with
  | .fileWrite _ => if rc = noError then { asked with change := .written } else asked
  | .fileSetInfo stat =>
      if rc = noError then {
        attr := stat.attrFile
        change := .set (fsphDosDateToUnixTime ph stat.fdateLastWrite stat.ftimeLastWrite) }
      else asked
  | _ => asked

def TellsAll (exchanged : List CallEvent) : Prop := ∀ event ∈ exchanged, TellsErrno event

instance (exchanged : List CallEvent) : Decidable (TellsAll exchanged) :=
  inferInstanceAs (Decidable (∀ event ∈ exchanged, TellsErrno event))

/-- What has been asked since the file was opened by the call in `s₀`, while others may change
the Resource. -/
inductive Since (ph : Platform) (s₀ : Session) : Session → Deferred → Prop
  | opened {call : SessionCall} {exchanged t} : call.opensFile = true →
      Run (call.run ph s₀) exchanged (some (noError, t)) → TellsAll exchanged →
      Since ph s₀ t { attr := call.openAttribute &&& attrMask }
  | shared {s asked} (pRes : Resource) : Since ph s₀ s asked → Since ph s₀ { s with pRes } asked
  | handled {s t asked} {call : SessionCall} {exchanged rc} : Since ph s₀ s asked → call.handlesFile = true →
      Run (call.run ph s) exchanged (some (rc, t)) → TellsAll exchanged →
      Since ph s₀ t (asked.after ph call rc)

def FileCalls (_ : Session) (call : SessionCall) (exchanged : List CallEvent) : Prop :=
  (call.opensFile = true ∨ call.handlesFile = true ∨ call = .fileClose) ∧ TellsAll exchanged

/-! What a call makes of the open file. -/

/-- Only what is deferred has changed, and the position. -/
def Handles (ph : Platform) (call : SessionCall) (before : Connection) (rc : Int)
    (after : Connection) : Prop :=
  after.cli = before.cli ∧
    match call with
    | .fileWrite _ =>
        if rc = noError then
          after.file = { before.file with updatetime := 1, offset := after.file.offset }
        else after.file = before.file
    | .fileSetInfo stat =>
        if rc = noError ∧ 0 ≤ before.file.fd ∧ before.file.fname ≠ [] then
          after.file = { before.file with
            openattr := stat.attrFile
            mtime := fsphDosDateToUnixTime ph stat.fdateLastWrite stat.ftimeLastWrite
            updatetime := 2 }
        else after.file = before.file
    | _ => after.file = { before.file with offset := after.file.offset }

def errnoWatch : Watch Op Unit where
  observe _ _ := ()
  admits _ event := TellsErrno event

theorem admits_errnoWatch {exchanged : List CallEvent} (tells : TellsAll exchanged) :
    errnoWatch.Admits () exchanged :=
  Watch.admits_of_forall _ fun event member _ => tells event member

section Wrappers

variable {cli : Option Handle} {file : SmbwrpFile}

theorem errno_os2cliErrno (cli : Handle) :
    errnoWatch.Ensures (fun rc _ => rc ≠ noError) (os2cliErrno cli) () :=
  fun errno tells => tells errno rfl

theorem returns_smbwrpLseek (whence : UInt32) (offset : Int) :
    (smbwrpLseek cli file whence offset).Returns fun answer =>
      answer.2 = { file with offset := answer.2.offset } := by
  unfold smbwrpLseek
  split
  · rfl
  · split
    · split <;> rfl
    · split
      · rfl
      · split
        · split
          · rfl
          · refine Prog.returns_perform_bind.mpr fun basic => ?_
            cases basic with
            | some info => rfl
            | none =>
                refine Prog.returns_perform_bind.mpr fun legacy => ?_
                cases legacy with
                | some info => rfl
                | none => exact fun _ => rfl
        · rfl

theorem returns_smbwrpRead (hasBuffer : Bool) (count : UInt32) :
    (smbwrpRead cli file hasBuffer count).Returns fun answer =>
      answer.2.1 = { file with offset := answer.2.1.offset } := by
  unfold smbwrpRead
  split
  · rfl
  · rfl
  · refine Prog.returns_perform_bind.mpr fun status => ?_
    cases status with
    | none => exact fun _ => rfl
    | some data => rfl

theorem errno_smbwrpWrite (buffer : Option (List UInt8)) :
    errnoWatch.Ensures
      (fun answer _ => if answer.1 = noError then
          answer.2.1 = { file with updatetime := 1, offset := answer.2.1.offset }
        else answer.2.1 = file)
      (smbwrpWrite cli file buffer) () := by
  unfold smbwrpWrite
  split
  · exact rfl
  · exact rfl
  · refine Watch.ensures_perform_bind.mpr fun status _ => ?_
    cases status with
    | none =>
        apply (errno_os2cliErrno _).bind
        intro rc _ failed
        exact (if_neg failed).mpr rfl
    | some ret => exact rfl

theorem errno_smbwrpOpen (connected : cli ≠ none) :
    errnoWatch.Ensures
      (fun answer _ => answer.2.btime = file.btime ∧ answer.2.mtime = file.mtime ∧
        answer.2.atime = file.atime ∧ answer.2.ctime = file.ctime ∧
        if answer.1 = noError then answer.2.openattr = file.openattr ∧ answer.2.updatetime = 0 ∧
          0 ≤ answer.2.fd ∧ answer.2.fname ≠ []
        else answer.2.fd = file.fd)
      (smbwrpOpen cli file) () := by
  obtain ⟨used, rfl⟩ := Option.ne_none_iff_exists'.mp connected
  simp only [smbwrpOpen]
  split
  · exact ⟨rfl, rfl, rfl, rfl, rfl⟩
  · rename_i named
    generalize checked : (if file.denymode < denyAll ∨ file.denymode > denyNone then
      { file with denymode := denyNone } else file) = given
    obtain ⟨denymode, rfl⟩ : ∃ denymode, given = { file with denymode } := by
      rw [← checked]
      split
      · exact ⟨_, rfl⟩
      · exact ⟨file.denymode, rfl⟩
    refine Watch.ensures_perform_bind.mpr fun opened _ => ?_
    cases opened with
    | none =>
        apply (errno_os2cliErrno used).bind
        intro rc _ failed
        exact ⟨rfl, rfl, rfl, rfl, (if_neg failed).mpr rfl⟩
    | some fd => exact ⟨rfl, rfl, rfl, rfl, rfl, rfl, Int.natCast_nonneg _, named⟩

end Wrappers

section Calls

variable {ph : Platform} {s : Session}

theorem handles_fileWrite (pBuffer : Option (List UInt8)) :
    errnoWatch.Ensures
      (fun answer _ => Handles ph (.fileWrite pBuffer) s.pConn answer.1 answer.2.1.pConn)
      (ndpFileWrite ph s pBuffer) () := by
  refine ensures_guarded (fun rcLock failed _ => ⟨rfl, (if_neg failed).mpr rfl⟩) fun _ => ?_
  unfold writeOpen
  split
  · exact fun _ => ⟨rfl, rfl⟩
  · apply (errno_smbwrpWrite pBuffer).bind
    intro _ _ wrote _
    exact ⟨rfl, wrote⟩

theorem handles_fileSetInfo (stat : Filestatus3L) :
    (ndpFileSetInfo ph s stat).Returns fun answer =>
      Handles ph (.fileSetInfo stat) s.pConn answer.1 answer.2.pConn := by
  refine returns_guarded (fun rcLock failed => ⟨rfl, ?_⟩) ?_
  · exact (if_neg fun holds => failed holds.1).mpr rfl
  · split
    · rename_i closed
      refine ⟨rfl, (if_neg ?_).mpr rfl⟩
      rintro ⟨-, opened, named⟩
      exact closed.elim (by omega) named
    · rename_i opened
      rw [not_or] at opened
      exact ⟨rfl, (if_pos ⟨rfl, by omega, opened.2⟩).mpr rfl⟩

theorem returns_ndpFileSetFilePtrL (llOffset : Int) (ulMethod : UInt32) :
    (ndpFileSetFilePtrL s llOffset ulMethod).Returns fun answer =>
      answer.2.1.pConn.cli = s.pConn.cli ∧
        answer.2.1.pConn.file = { s.pConn.file with offset := answer.2.1.pConn.file.offset } := by
  refine returns_guarded (fun _ _ => ⟨rfl, rfl⟩) ?_
  unfold seekOpen
  split
  · exact ⟨rfl, rfl⟩
  · exact Prog.returns_bind.mpr ((returns_smbwrpLseek ulMethod llOffset).mono
      fun _ moved => ⟨rfl, moved⟩)

theorem returns_ndpFileRead (hasBuffer : Bool) (ulRead : UInt32) :
    (ndpFileRead s hasBuffer ulRead).Returns fun answer =>
      answer.2.1.pConn.cli = s.pConn.cli ∧
        answer.2.1.pConn.file = { s.pConn.file with offset := answer.2.1.pConn.file.offset } := by
  refine returns_guarded (fun _ _ => ⟨rfl, rfl⟩) ?_
  refine Prog.returns_bind.mpr ((returns_smbwrpRead hasBuffer ulRead).mono fun answer moved => ?_)
  exact Prog.returns_bind.mpr (Prog.returns_of_forall fun _ => ⟨rfl, moved⟩)

theorem handles_call {call : SessionCall} (handles : call.handlesFile = true) :
    errnoWatch.Ensures (fun answer _ => Handles ph call s.pConn answer.1 answer.2.pConn)
      (call.run ph s) () := by
  cases call with
  | fileWrite pBuffer => exact Watch.ensures_bind.mpr ((handles_fileWrite pBuffer).mono fun _ _ => id)
  | fileSetInfo stat => exact Watch.ensures_of_returns (fun _ => trivial) (handles_fileSetInfo stat)
  | fileSetFilePtrL llOffset ulMethod =>
      refine Watch.ensures_of_returns (fun _ => trivial) ?_
      exact Prog.returns_bind.mpr ((returns_ndpFileSetFilePtrL llOffset ulMethod).mono fun _ => id)
  | fileSetFilePtr lOffset ulMethod =>
      refine Watch.ensures_of_returns (fun _ => trivial) ?_
      refine Prog.returns_bind.mpr (Prog.returns_perform_bind.mpr fun unset => ?_)
      exact Prog.returns_bind.mpr ((returns_ndpFileSetFilePtrL lOffset ulMethod).mono fun _ => id)
  | fileRead hasBuffer ulRead =>
      refine Watch.ensures_of_returns (fun _ => trivial) ?_
      exact Prog.returns_bind.mpr ((returns_ndpFileRead hasBuffer ulRead).mono fun _ => id)
  | fileNewSize | fileNewSizeL =>
      refine Watch.ensures_of_returns (fun _ => trivial) ?_
      exact Prog.returns_bind.mpr (Prog.returns_of_forall fun _ => ⟨rfl, rfl⟩)
  | _ => simp [SessionCall.handlesFile] at handles

/-- What `smbopen` leaves of the file, and on success makes of it. -/
structure Opens (ulAttribute : UInt32) (before : Connection) (rc : Int) (after : Connection) :
    Prop where
  connected : after.cli ≠ none
  btime : after.file.btime = before.file.btime
  mtime : after.file.mtime = before.file.mtime
  atime : after.file.atime = before.file.atime
  ctime : after.file.ctime = before.file.ctime
  failed : rc ≠ noError → after.file.fd = before.file.fd
  opened : rc = noError → before.file.fd ≤ 0 ∧ 0 ≤ after.file.fd ∧ after.file.updatetime = 0 ∧
    after.file.openattr = ulAttribute &&& attrMask ∧ after.file.fname ≠ []

theorem Opens.refused {ulAttribute : UInt32} {pConn : Connection} {rc : Int}
    (connected : pConn.cli ≠ none) (failed : rc ≠ noError) : Opens ulAttribute pConn rc pConn :=
  ⟨connected, rfl, rfl, rfl, rfl, fun _ => rfl, fun done => absurd done failed⟩

theorem opens_openPath (szFileName : CString) (flags ulOpenMode ulAttribute : UInt32)
    (connected : s.pConn.cli ≠ none) :
    errnoWatch.Ensures (fun answer _ => Opens ulAttribute s.pConn answer.1 answer.2.pConn)
      (openPath ph s szFileName flags ulOpenMode ulAttribute) () := by
  unfold openPath
  split
  · have failed : errorTooManyOpenFiles ≠ noError := by decide
    exact .refused connected failed
  · rename_i untested
    have parsed : (pathparser ph s szFileName).Returns fun answer =>
        answer.2.1.pConn.cli ≠ none ∧ s.Moved answer.2.1 :=
      (pathparser_connected szFileName connected).and (pathparser_moved szFileName)
    apply (Watch.ensures_of_returns (fun _ => trivial) parsed).bind
    rintro ⟨rc, t, path⟩ _ ⟨present, moved⟩
    have same : t.pConn.file = s.pConn.file := moved.file
    simp only
    split
    · rename_i failed
      refine ⟨present, ?_, ?_, ?_, ?_, ?_, fun done => absurd done failed⟩
      all_goals rw [same]
      exact fun _ => rfl
    · apply (errno_smbwrpOpen present).bind
      rintro ⟨rc, file⟩ _ ⟨btime, mtime, atime, ctime, opened⟩
      rw [same] at btime mtime atime ctime opened
      refine ⟨present, btime, mtime, atime, ctime, ?_, ?_⟩
      · intro failed
        exact (if_neg failed).mp opened
      · intro done
        obtain ⟨attr, untimed, valid, named⟩ := (if_pos done).mp opened
        exact ⟨by omega, valid, untimed, attr, named⟩

theorem opens_smbopen (szFileName : CString) (flags ulOpenMode ulAttribute : UInt32)
    (pFEAList : Option (List UInt8)) (connected : s.pConn.cli ≠ none) :
    errnoWatch.Ensures (fun answer _ => Opens ulAttribute s.pConn answer.1 answer.2.pConn)
      (smbopen ph s szFileName flags ulOpenMode ulAttribute pFEAList) () := by
  have work : errnoWatch.Ensures (fun answer _ => Opens ulAttribute s.pConn answer.1 answer.2.pConn)
      (openPath ph (if flags &&& oCreat ≠ 0 then s.invalidateParent ph szFileName else s)
        szFileName flags ulOpenMode ulAttribute) () := by
    split
    · exact opens_openPath (s := s.invalidateParent ph szFileName) _ _ _ _ connected
    · exact opens_openPath _ _ _ _ connected
  refine ensures_guarded (fun _ failed _ => .refused connected failed) fun _ => ?_
  apply work.bind
  intro answer _ opens
  exact Watch.ensures_bind.mpr
    (Watch.ensures_of_forall (fun _ => trivial) fun _ _ _ => opens)

theorem opens_call {call : SessionCall} (opens : call.opensFile = true)
    (connected : s.pConn.cli ≠ none) :
    errnoWatch.Ensures
      (fun answer _ => Opens call.openAttribute s.pConn answer.1 answer.2.pConn)
      (call.run ph s) () := by
  cases call with
  | openReplace | openReplaceL | openCreate | openCreateL | openExisting =>
      exact opens_smbopen _ _ _ _ _ connected
  | _ => simp [SessionCall.opensFile] at opens

end Calls

/-! What holds of the file record over the life of a Connection. -/

/-- No time but that of the last write is ever kept, and none without an open file. -/
structure FileSettled (pConn : Connection) : Prop where
  connected : pConn.cli ≠ none
  btime : pConn.file.btime = 0
  atime : pConn.file.atime = 0
  ctime : pConn.file.ctime = 0
  closed : pConn.file.fd < 0 → pConn.file.mtime = 0

section Lives

variable {ph : Platform} {s t : Session} {before after : Connection} {rc : Int}

theorem FileSettled.timed (settled : FileSettled before) (connected : after.cli = before.cli)
    {file : SmbwrpFile} (moved : after.file = file) (btime : file.btime = before.file.btime)
    (atime : file.atime = before.file.atime) (ctime : file.ctime = before.file.ctime)
    (closed : file.fd < 0 → file.mtime = 0) : FileSettled after := by
  subst moved
  refine ⟨?_, btime.trans settled.btime, atime.trans settled.atime, ctime.trans settled.ctime,
    closed⟩
  rw [connected]
  exact settled.connected

theorem FileSettled.handled {call : SessionCall} (settled : FileSettled before)
    (handles : call.handlesFile = true) (left : Handles ph call before rc after) :
    FileSettled after := by
  have moved (same : after.file = { before.file with offset := after.file.offset }) :
      FileSettled after := settled.timed left.1 same rfl rfl rfl settled.closed
  have kept (same : after.file = before.file) : FileSettled after := moved (by rw [same])
  cases call with
  | fileWrite pBuffer =>
      by_cases wrote : rc = noError
      · exact settled.timed left.1 ((if_pos wrote).mp left.2) rfl rfl rfl settled.closed
      · exact kept ((if_neg wrote).mp left.2)
  | fileSetInfo stat =>
      by_cases deferred : rc = noError ∧ 0 ≤ before.file.fd ∧ before.file.fname ≠ []
      · refine settled.timed left.1 ((if_pos deferred).mp left.2) rfl rfl rfl ?_
        intro closed
        have opened := deferred.2.1
        simp only at closed
        omega
      · exact kept ((if_neg deferred).mp left.2)
  | fileSetFilePtrL | fileSetFilePtr | fileRead | fileNewSize | fileNewSizeL => exact moved left.2
  | _ => simp [SessionCall.handlesFile] at handles

theorem FileSettled.opens {ulAttribute : UInt32} (settled : FileSettled before)
    (opens : Opens ulAttribute before rc after) : FileSettled after := by
  refine ⟨opens.connected, ?_, ?_, ?_, ?_⟩
  · exact opens.btime.trans settled.btime
  · exact opens.atime.trans settled.atime
  · exact opens.ctime.trans settled.ctime
  · intro closed
    rw [opens.mtime]
    apply settled.closed
    by_cases done : rc = noError
    · have valid := (opens.opened done).2.1
      omega
    · rw [← opens.failed done]
      exact closed

theorem settled_closeOpen (settled : FileSettled s.pConn) :
    (closeOpen s).Returns fun answer => FileSettled answer.2.pConn := by
  unfold closeOpen
  split
  · rename_i closed
    exact ⟨settled.connected, settled.btime, settled.atime, settled.ctime,
      fun _ => settled.closed closed⟩
  · obtain ⟨cli, used⟩ := Option.ne_none_iff_exists'.mp settled.connected
    refine Prog.returns_bind.mpr ?_
    rw [used]
    refine Prog.returns_bind.mpr (Prog.returns_of_forall fun _ => ?_)
    refine Prog.returns_perform_bind.mpr fun _ => ?_
    refine Prog.returns_bind.mpr (Prog.returns_of_forall fun _ => ?_)
    refine Prog.returns_bind.mpr (Prog.returns_of_forall fun _ => ?_)
    exact ⟨settled.connected, rfl, rfl, rfl, fun _ => rfl⟩

theorem settled_ndpCreateConnection (pRes : Resource) :
    (ndpCreateConnection pRes).Returns fun answer =>
      ∀ pConn, answer.2 = some pConn → FileSettled pConn := by
  refine returns_guarded (fun _ _ => by simp) ?_
  refine Prog.returns_perform_bind.mpr fun malloced => ?_
  split
  · simp
  · refine Prog.returns_perform_bind.mpr fun reply => ?_
    cases reply with
    | refused rc => simp
    | connected cli =>
        rintro pConn ⟨⟩
        exact ⟨Option.some_ne_none cli, rfl, rfl, rfl, fun _ => rfl⟩

theorem FileSettled.called {call : SessionCall} {exchanged : List CallEvent}
    (settled : FileSettled s.pConn) (among : FileCalls s call exchanged)
    (run : Run (call.run ph s) exchanged (some (rc, t))) : FileSettled t.pConn := by
  have admitted := admits_errnoWatch among.2
  rcases among.1 with opens | handles | rfl
  · exact settled.opens ((opens_call opens settled.connected).run run admitted)
  · exact settled.handled handles ((handles_call handles).run run admitted)
  · have closed : (ndpFileClose s).Returns fun answer => FileSettled answer.2.pConn :=
      returns_guarded (fun _ _ => settled) (settled_closeOpen settled)
    exact closed.run run

theorem Lived.settled {trace : List CallEvent} (lived : Lived ph FileCalls s trace) :
    FileSettled s.pConn := by
  induction lived with
  | @created pRes rc pConn trace run => exact (settled_ndpCreateConnection pRes).run run pConn rfl
  | shared pRes _ ih => exact ih
  | called _ run among ih => exact ih.called among run
  | @kept s pConn trace exchanged rc _ run ih =>
      have same : (ndpFreeConnection s.pConn).Returns fun answer =>
          ∀ kept, answer.2 = some kept → kept = s.pConn := by
        refine returns_guarded (fun _ _ => ?_) ?_
        · rintro kept ⟨⟩
          rfl
        · exact Prog.returns_bind.mpr (Prog.returns_of_forall fun _ => by simp)
      obtain rfl := same.run run pConn rfl
      exact ih

/-- What is kept with the open file is what was asked for, and where nothing was, the time that
it was opened with. -/
structure Awaits (stale : UInt32) (file : SmbwrpFile) (asked : Deferred) : Prop where
  opened : 0 ≤ file.fd
  named : file.fname ≠ []
  attr : file.openattr = asked.attr
  change : match asked.change with
    | .none => file.updatetime = 0 ∧ file.mtime = stale
    | .written => file.updatetime = 1
    | .set mtime => file.updatetime = 2 ∧ file.mtime = mtime

theorem Awaits.handled {stale : UInt32} {asked : Deferred} {call : SessionCall}
    (awaits : Awaits stale before.file asked) (handles : call.handlesFile = true)
    (left : Handles ph call before rc after) :
    Awaits stale after.file (asked.after ph call rc) := by
  have moved (same : after.file = { before.file with offset := after.file.offset }) :
      Awaits stale after.file asked := by
    rw [same]
    exact ⟨awaits.opened, awaits.named, awaits.attr, awaits.change⟩
  cases call with
  | fileWrite pBuffer =>
      by_cases wrote : rc = noError
      · rw [Deferred.after, if_pos wrote, (if_pos wrote).mp left.2]
        exact ⟨awaits.opened, awaits.named, awaits.attr, rfl⟩
      · rw [Deferred.after, if_neg wrote]
        exact moved (by rw [(if_neg wrote).mp left.2])
  | fileSetInfo stat =>
      by_cases deferred : rc = noError
      · rw [Deferred.after, if_pos deferred,
          (if_pos ⟨deferred, awaits.opened, awaits.named⟩).mp left.2]
        exact ⟨awaits.opened, awaits.named, rfl, rfl, rfl⟩
      · rw [Deferred.after, if_neg deferred]
        exact moved (by rw [(if_neg fun holds => deferred holds.1).mp left.2])
  | fileSetFilePtrL | fileSetFilePtr | fileRead | fileNewSize | fileNewSizeL => exact moved left.2
  | _ => simp [SessionCall.handlesFile] at handles

theorem Since.awaits {s₀ : Session} {asked : Deferred} (since : Since ph s₀ s asked)
    (settled : FileSettled s₀.pConn) :
    FileSettled s.pConn ∧ Awaits s₀.pConn.file.mtime s.pConn.file asked := by
  induction since with
  | opened opens run tells =>
      have left := (opens_call opens settled.connected).run run (admits_errnoWatch tells)
      obtain ⟨-, valid, untimed, attr, named⟩ := left.opened rfl
      exact ⟨settled.opens left, valid, named, attr, untimed, left.mtime⟩
  | shared pRes _ ih => exact ih
  | handled _ handles run tells ih =>
      have left := (handles_call handles).run run (admits_errnoWatch tells)
      exact ⟨ih.1.handled handles left, ih.2.handled handles left⟩

theorem Since.untested {s₀ : Session} {asked : Deferred} (since : Since ph s₀ s asked)
    (settled : FileSettled s₀.pConn) : s₀.pConn.file.fd ≤ 0 := by
  induction since with
  | opened opens run tells =>
      have left := (opens_call opens settled.connected).run run (admits_errnoWatch tells)
      exact (left.opened rfl).1
  | shared _ _ ih => exact ih
  | handled _ _ _ _ ih => exact ih

end Lives

structure PathInfo where
  fname : CString
  btime : UInt32
  atime : UInt32
  mtime : UInt32
  ctime : UInt32
  attr : UInt32
  deriving DecidableEq

structure CloseSeen where
  now : Option UInt32 := none
  closed : Option Bool := none
  sent : List PathInfo := []
  deriving DecidableEq

def closeWatch : Watch Op CloseSeen where
  observe seen event := match event with
    | ⟨.time, now⟩ => { seen with now := some now }
    | ⟨.request _ (.cliClose _), ok⟩ => { seen with closed := some ok }
    | ⟨.request _ (.cliSetpathinfoBasic fname btime atime mtime ctime attr), _⟩ =>
        { seen with sent := seen.sent ++ [⟨fname, btime, atime, mtime, ctime, attr⟩] }
    | _ => seen
  admits _ event := TellsErrno event
  crash _ := False

def closeSeen (exchanged : List CallEvent) : CloseSeen := closeWatch.after {} exchanged

def Closes (s : Session) (exchanged : List CallEvent) : Prop :=
  (∃ outcome, Run (ndpFileClose s) exchanged outcome) ∨
    ∃ outcome, Run (ndpFreeConnection s.pConn) exchanged outcome

/-- The close reads the clock where it needs it, and sets what was asked for once the file is
closed, or nothing where there is nothing to set. -/
structure SendsDeferred (asked : Deferred) (fname : CString) (exchanged : List CallEvent) :
    Prop where
  clocked : asked.change = .written → (closeSeen exchanged).closed ≠ none →
    (closeSeen exchanged).now ≠ none
  sent : (closeSeen exchanged).sent =
    let mtime := asked.time (closeSeen exchanged).now
    if (closeSeen exchanged).closed = some true ∧ (asked.attr ≠ 0 ∨ mtime ≠ 0)
    then [⟨fname, 0, 0, mtime, 0, asked.attr⟩] else []

section Close

variable {s : Session} {file : SmbwrpFile} {seen : CloseSeen}

def SmbwrpFile.timed (file : SmbwrpFile) (now : Option UInt32) : SmbwrpFile :=
  if file.updatetime = 1 then { file with btime := 0, mtime := now.getD 0, atime := 0, ctime := 0 }
  else file

def SmbwrpFile.sent (file : SmbwrpFile) (closed : Bool) : List PathInfo :=
  if closed = true ∧ (file.openattr ≠ 0 ∨ file.mtime ≠ 0 ∨ file.ctime ≠ 0) then
    [⟨file.fname, file.btime, file.atime, file.mtime, file.ctime, file.openattr⟩]
  else []

def ClosesFile (file : SmbwrpFile) (seen : CloseSeen) : Prop :=
  ∃ now closed, (file.updatetime = 1 → now ≠ none) ∧
    seen = { now, closed := some closed, sent := (file.timed now).sent closed }

theorem seen_requestRc (cli : Handle) (ok : Bool) :
    closeWatch.Ensures (fun rc later => later = seen ∧ (rc = 0 ↔ ok = true)) (requestRc cli ok)
      seen := by
  unfold requestRc
  split
  · rename_i closed
    exact ⟨rfl, iff_of_true rfl closed⟩
  · rename_i refused
    exact fun errno tells => ⟨rfl, iff_of_false (tells errno rfl) refused⟩

theorem seen_setOnClose (cli : Handle) (rc : Int) (unsent : seen.sent = []) :
    closeWatch.Ensures
      (fun _ later => later = { seen with sent := file.sent (decide (rc = 0)) })
      (setOnClose cli rc file) seen := by
  unfold setOnClose SmbwrpFile.sent
  simp only [decide_eq_true_eq]
  split
  · refine Watch.ensures_perform_bind.mpr fun _ _ => ?_
    simp [closeWatch, unsent]
  · rw [← unsent]
    exact rfl

theorem seen_smbwrpClose {cli : Handle} :
    closeWatch.Ensures (fun _ later => ClosesFile file later) (smbwrpClose (some cli) file) {} := by
  have timed : closeWatch.Ensures
      (fun timed later => ∃ now, (file.updatetime = 1 → now ≠ none) ∧ timed = file.timed now ∧
        later = { now }) (closeTimes file) {} := by
    unfold closeTimes SmbwrpFile.timed
    split
    · exact fun now _ => ⟨some now, fun _ => Option.some_ne_none now, rfl, rfl⟩
    · rename_i untimed
      exact ⟨none, fun written => absurd written untimed, rfl, rfl⟩
  apply timed.bind
  rintro _ _ ⟨now, clocked, rfl, rfl⟩
  refine Watch.ensures_perform_bind.mpr fun closed _ => ?_
  apply (seen_requestRc cli closed).bind
  rintro rc _ ⟨rfl, answered⟩
  apply (seen_setOnClose cli rc rfl).bind
  rintro _ _ rfl
  have same : decide (rc = 0) = closed := by
    cases closed with
    | true => exact decide_eq_true (answered.mpr rfl)
    | false => exact decide_eq_false fun zero => absurd (answered.mp zero) Bool.false_ne_true
  rw [same]
  exact ⟨now, closed, clocked, rfl⟩

theorem seen_ndpFileClose {cli : Handle} (connected : s.pConn.cli = some cli)
    (opened : 0 ≤ s.pConn.file.fd) :
    closeWatch.Ensures (fun _ later => later = {} ∨ ClosesFile s.pConn.file later)
      (ndpFileClose s) {} := by
  refine ensures_guarded (fun _ _ _ => .inl rfl) fun _ => ?_
  rw [closeOpen, if_neg (by omega), connected]
  apply seen_smbwrpClose.bind
  intro _ _ closes _
  exact .inr closes

theorem seen_ndpFreeConnection {cli : Handle} (connected : s.pConn.cli = some cli)
    (opened : 0 ≤ s.pConn.file.fd) :
    closeWatch.Ensures (fun _ later => later = {} ∨ ClosesFile s.pConn.file later)
      (ndpFreeConnection s.pConn) {} := by
  refine ensures_guarded (fun _ _ _ => .inl rfl) fun _ => ?_
  rw [freeConnection, if_pos opened, connected]
  refine Watch.ensures_bind.mpr (Watch.ensures_bind.mpr (seen_smbwrpClose.mono ?_))
  exact fun _ later closes _ _ _ => .inr closes

theorem seen_closes (connected : s.pConn.cli ≠ none) (opened : 0 ≤ s.pConn.file.fd)
    {exchanged : List CallEvent} (closes : Closes s exchanged) (tells : TellsAll exchanged) :
    closeSeen exchanged = {} ∨ ClosesFile s.pConn.file (closeSeen exchanged) := by
  obtain ⟨cli, used⟩ := Option.ne_none_iff_exists'.mp connected
  have admitted : closeWatch.Admits {} exchanged :=
    Watch.admits_of_forall _ fun event member _ => tells event member
  rcases closes with ⟨outcome, run⟩ | ⟨outcome, run⟩
  · have concluded := Watch.ensures_iff_runs.mp (seen_ndpFileClose used opened) exchanged outcome
      run admitted
    cases outcome with
    | some answer => exact concluded
    | none => exact absurd concluded id
  · have concluded := Watch.ensures_iff_runs.mp (seen_ndpFreeConnection used opened) exchanged
      outcome run admitted
    cases outcome with
    | some answer => exact concluded
    | none => exact absurd concluded id

end Close

/-- The file with the number zero is open with a time that its close is to set. -/
def LeavesTime (s : Session) : Prop := s.pConn.file.fd = 0 ∧ s.pConn.file.mtime ≠ 0

section Sends

variable {s₀ s : Session} {file : SmbwrpFile} {asked : Deferred} {stale : UInt32}

theorem Awaits.timed_eq (awaits : Awaits stale file asked) (btime : file.btime = 0)
    (atime : file.atime = 0) (ctime : file.ctime = 0) (now : Option UInt32) :
    (file.timed now).btime = 0 ∧ (file.timed now).atime = 0 ∧ (file.timed now).ctime = 0 ∧
      (file.timed now).openattr = asked.attr ∧ (file.timed now).fname = file.fname ∧
      (file.timed now).mtime = if asked.change = .none then stale else asked.time now := by
  have attr := awaits.attr
  have change := awaits.change
  unfold SmbwrpFile.timed Deferred.time
  cases changed : asked.change with
  | none =>
      rw [changed] at change
      obtain ⟨untimed, time⟩ := change
      rw [if_neg (by omega)]
      exact ⟨btime, atime, ctime, attr, rfl, time⟩
  | written =>
      rw [changed] at change
      rw [if_pos change]
      exact ⟨rfl, rfl, rfl, attr, rfl, rfl⟩
  | set mtime =>
      rw [changed] at change
      obtain ⟨untimed, time⟩ := change
      rw [if_neg (by omega)]
      exact ⟨btime, atime, ctime, attr, rfl, time⟩

theorem sent_eq_iff {closed : Prop} [Decidable closed] {fname : CString} {attr mtime other : UInt32} :
    ((if closed ∧ (attr ≠ 0 ∨ mtime ≠ 0) then [PathInfo.mk fname 0 0 mtime 0 attr] else []) =
      if closed ∧ (attr ≠ 0 ∨ other ≠ 0) then [PathInfo.mk fname 0 0 other 0 attr] else []) ↔
      (closed → mtime = other) := by
  by_cases done : closed
  · by_cases set : attr ≠ 0
    · simp [done, set]
    · by_cases timed : mtime ≠ 0
      · by_cases changed : other ≠ 0
        · simp [done, timed, changed]
        · rw [ne_eq, not_not] at changed
          simp [done, set, timed, changed]
      · rw [ne_eq, not_not] at timed
        by_cases changed : other ≠ 0
        · simp [done, set, timed, changed, Ne.symm changed]
        · rw [ne_eq, not_not] at changed
          simp [done, set, timed, changed]
  · simp [done]

theorem sendsDeferred_iff {exchanged : List CallEvent} (settled : FileSettled s.pConn)
    (awaits : Awaits stale s.pConn.file asked)
    (seen : closeSeen exchanged = {} ∨ ClosesFile s.pConn.file (closeSeen exchanged)) :
    SendsDeferred asked s.pConn.file.fname exchanged ↔
      (asked.change = .none → (closeSeen exchanged).closed = some true → stale = 0) := by
  rcases seen with nothing | ⟨now, closed, clocked, seen⟩
  · refine iff_of_true ⟨?_, ?_⟩ ?_
    · rw [nothing]
      exact fun _ unclosed => absurd rfl unclosed
    · rw [nothing]
      rfl
    · rw [nothing]
      intro _ answered
      cases answered
  · obtain ⟨btime, atime, ctime, attr, fname, mtime⟩ :=
      awaits.timed_eq settled.btime settled.atime settled.ctime now
    have read : asked.change = .written → now ≠ none := by
      intro written
      have change := awaits.change
      rw [written] at change
      exact clocked change
    have sent : SendsDeferred asked s.pConn.file.fname exchanged ↔
        (some closed = some true → (s.pConn.file.timed now).mtime = asked.time now) := by
      rw [← @sent_eq_iff _ _ s.pConn.file.fname asked.attr]
      constructor
      · rintro ⟨-, sends⟩
        rw [seen] at sends
        simpa [SmbwrpFile.sent, btime, atime, ctime, attr, fname] using sends
      · intro sends
        refine ⟨fun written _ => ?_, ?_⟩
        · rw [seen]
          exact read written
        · rw [seen]
          simpa [SmbwrpFile.sent, btime, atime, ctime, attr, fname] using sends
    rw [sent, seen, mtime]
    by_cases unchanged : asked.change = .none
    · have untimed : asked.time now = 0 := by rw [Deferred.time, unchanged]
      rw [if_pos unchanged, untimed]
      exact ⟨fun holds _ => holds, fun holds => holds unchanged⟩
    · rw [if_neg unchanged]
      exact iff_of_true (fun _ => rfl) fun absent => absurd absent unchanged

end Sends

/-- Between a successful open and the close of the file, the close sends the time of the last
write or set-info and the attributes of the last set-info or of the open, or nothing when it
fails or has nothing to send, exactly when the open did not take the place of the file with the
number zero that had a time to be set; or a time was set or written since; or the close fails. -/
theorem deferredInfo_sent_iff {ph : Platform} {s₀ s : Session} {trace : List CallEvent}
    (lived : Lived ph FileCalls s₀ trace) {asked : Deferred} (since : Since ph s₀ s asked)
    {exchanged : List CallEvent} (closes : Closes s exchanged) (tells : TellsAll exchanged) :
    SendsDeferred asked s.pConn.file.fname exchanged ↔
      (asked.change = .none → (closeSeen exchanged).closed = some true → ¬ LeavesTime s₀) := by
  have start := lived.settled
  obtain ⟨settled, awaits⟩ := since.awaits start
  have seen := seen_closes settled.connected awaits.opened closes tells
  have fresh : s₀.pConn.file.mtime = 0 ↔ ¬ LeavesTime s₀ := by
    constructor
    · exact fun zero leaves => leaves.2 zero
    · intro leaves
      by_contra timed
      have opened : s₀.pConn.file.fd ≤ 0 := since.untested start
      by_cases closed : s₀.pConn.file.fd < 0
      · exact timed (start.closed closed)
      · exact leaves ⟨by omega, timed⟩
  rw [sendsDeferred_iff settled awaits seen, fresh]

def numberedRun (fd : UInt16) (call : SessionCall) (s : Session) :
    List CallEvent × Option (Int × Session) :=
  exec (fun _ => givingFile 0 true fd) 0 (call.run clockPlatform s)

def numberedLeft (fd : UInt16) (call : SessionCall) (s : Session) : Session :=
  (numberedRun fd call s).2.elim s Prod.snd

section Numbered

variable {s : Session} {fd : UInt16} {call : SessionCall}

theorem run_numbered {rc : Int} (answered : (numberedRun fd call s).2.map Prod.fst = some rc) :
    Run (call.run clockPlatform s) (numberedRun fd call s).1
      (some (rc, numberedLeft fd call s)) := by
  obtain ⟨⟨code, t⟩, outcome, rfl⟩ := Option.map_eq_some_iff.mp answered
  have left : numberedLeft fd call s = t := by
    rw [numberedLeft, outcome]
    rfl
  rw [left, ← outcome]
  exact run_exec _ _ _

theorem closes_numbered : Closes s (numberedRun fd .fileClose s).1 :=
  .inl ⟨_, run_exec _ (ndpFileClose s) _⟩

end Numbered

def setTime : SessionCall := .fileSetInfo plainStatus

theorem lived_clock : Lived clockPlatform FileCalls freshSession createTrace := by
  have outcome : (exec (fun _ => givingFile 0 true 0) 0 (ndpCreateConnection mountedShare)).2 =
      some (0, some freshSession.pConn) := by decide
  exact .created (outcome ▸ run_exec _ _ _)

theorem since_opened : Since clockPlatform freshSession (numberedLeft 5 openF freshSession)
    { attr := openF.openAttribute &&& attrMask } :=
  .opened rfl (run_numbered (by decide)) (by decide)

def datedSession : Session := numberedLeft 5 setTime (numberedLeft 5 openF freshSession)

theorem deferredInfo_sent_iff_set :
    Since clockPlatform freshSession datedSession
        (Deferred.after clockPlatform { attr := openF.openAttribute &&& attrMask } setTime noError) ∧
      SendsDeferred
        (Deferred.after clockPlatform { attr := openF.openAttribute &&& attrMask } setTime noError)
        datedSession.pConn.file.fname (numberedRun 5 .fileClose datedSession).1 := by
  have since : Since clockPlatform freshSession datedSession
      (Deferred.after clockPlatform { attr := openF.openAttribute &&& attrMask } setTime noError) :=
    .handled since_opened rfl (run_numbered (by decide)) (by decide)
  refine ⟨since, (deferredInfo_sent_iff lived_clock since closes_numbered (by decide)).mpr ?_⟩
  intro unchanged
  exact absurd unchanged (by decide)

/-- A file with the number zero, the time that is set for it, and the file opened in its place. -/
def zeroSession : Session := numberedLeft 0 openF freshSession

def timedSession : Session := numberedLeft 0 setTime zeroSession

/-- The time that was set for the first file is sent for the second. -/
theorem time_leaks :
    ∃ s₀ trace s asked exchanged, Lived clockPlatform FileCalls s₀ trace ∧
      Since clockPlatform s₀ s asked ∧ Closes s exchanged ∧ TellsAll exchanged ∧
      ¬ SendsDeferred asked s.pConn.file.fname exchanged := by
  have opened : Lived clockPlatform FileCalls zeroSession _ :=
    .called lived_clock (run_numbered (by decide : _ = some noError)) ⟨.inl rfl, by decide⟩
  have timed : Lived clockPlatform FileCalls timedSession _ :=
    .called opened (run_numbered (by decide : _ = some noError)) ⟨.inr (.inl rfl), by decide⟩
  have since : Since clockPlatform timedSession (numberedLeft 5 openF timedSession)
      { attr := openF.openAttribute &&& attrMask } :=
    .opened rfl (run_numbered (by decide)) (by decide)
  refine ⟨_, _, _, _, _, timed, since, @closes_numbered _ 5, by decide, fun sends => ?_⟩
  exact absurd sends.sent (by decide)

end NdpSmb
