import NdpSmb.OpenFile

/-!
What every call does with the open file: the requests with its number go to the connection it
was opened on, and none is sent while no file is open.
-/

namespace NdpSmb

open ByteString Interaction

def Request.Carries (fd : Int) : {R : Type} → Request R → Prop
  | _, .cliRead used .. | _, .cliWriteall used .. | _, .cliFtruncate used .. => used = fd
  | _, .cliQfileinfoBasic used | _, .cliGetattrE used | _, .cliSetEaFnum used .. => used = fd
  | _, _ => False

def Op.OnFile (cli : Option Handle) (fd : Int) : (R : Type) → Op R → Prop
  | _, .smbwrpConnect .. | _, .cliShutdown .. => False
  | _, .request used ask => ask.Fileless ∨ cli = some used ∧ ask.Carries fd
  | _, _ => True

section OnFile

variable {α : Type} {ph : Platform} {s : Session} {seen : FileSeen} {cli : Option Handle}
  {excused : Nat → Nat → Prop}
  {fd : Int} {file : SmbwrpFile}

theorem Op.Fileless.onFile {R : Type} {op : Op R} (fileless : Op.Fileless R op) :
    Op.OnFile cli fd R op := by
  cases op with
  | request used ask => exact .inl fileless
  | _ => exact fileless

theorem fileAction_carries {R : Type} {ask : Request R} {used : Handle} {reply : R}
    (carries : ask.Carries fd) : fileAction ⟨.request used ask, reply⟩ = .used used fd := by
  cases ask <;> first | exact absurd carries id | (obtain rfl := carries; rfl)

theorem quiet_of_onFile {program : Program α} (onFile : program.Only (Op.OnFile cli fd))
    (owned : ∀ used, cli = some used → (used, fd) ∈ seen.opened) (careful : seen.stray = false) :
    (fileWatch excused).Ensures (fun _ later => later = seen) program seen := by
  refine Watch.ensures_of_only onFile (fun R op reply allowed => ?_) (.inl careful) fun _ => rfl
  cases op with
  | request used ask =>
      rcases allowed with fileless | ⟨same, carries⟩
      · have plain : Op.Fileless R (.request used ask) := fileless
        exact congrArg seen.act (fileAction_fileless plain)
      · refine (congrArg seen.act (fileAction_carries carries)).trans ?_
        simp [FileSeen.act, owned used same]
  | smbwrpConnect | cliShutdown => exact absurd allowed id
  | _ => rfl

theorem onFile_os2cliErrno (used : Handle) : (os2cliErrno used).Only (Op.OnFile cli fd) :=
  (fileless_os2cliErrno used).mono fun _ _ => Op.Fileless.onFile

theorem onFile_smbwrpRead (hasBuffer : Bool) (count : UInt32) :
    (smbwrpRead cli file hasBuffer count).Only (Op.OnFile cli file.fd) := by
  unfold smbwrpRead
  split
  · trivial
  · trivial
  · refine Prog.only_perform_bind.mpr ⟨.inr ⟨rfl, rfl⟩, fun status => ?_⟩
    cases status with
    | none => exact (onFile_os2cliErrno _).bind fun _ => trivial
    | some data => trivial

theorem onFile_smbwrpWrite (buffer : Option (List UInt8)) :
    (smbwrpWrite cli file buffer).Only (Op.OnFile cli file.fd) := by
  unfold smbwrpWrite
  split
  · trivial
  · trivial
  · refine Prog.only_perform_bind.mpr ⟨.inr ⟨rfl, rfl⟩, fun status => ?_⟩
    cases status with
    | none => exact (onFile_os2cliErrno _).bind fun _ => trivial
    | some ret => trivial

theorem onFile_smbwrpSetfilesize (newsize : Int) :
    (smbwrpSetfilesize cli file newsize).Only (Op.OnFile cli file.fd) := by
  unfold smbwrpSetfilesize
  split
  · trivial
  · refine Prog.only_perform_bind.mpr ⟨.inr ⟨rfl, rfl⟩, fun ok => ?_⟩
    split
    · trivial
    · exact ⟨.inl trivial, fun _ => trivial⟩

theorem onFile_smbwrpLseek (whence : UInt32) (offset : Int) :
    (smbwrpLseek cli file whence offset).Only (Op.OnFile cli file.fd) := by
  cases cli with
  | none => trivial
  | some cli =>
      simp only [smbwrpLseek]
      split
      · split
        · trivial
        · trivial
      · split
        · trivial
        · split
          · split
            · trivial
            · refine Prog.only_perform_bind.mpr ⟨.inr ⟨rfl, rfl⟩, fun basic => ?_⟩
              cases basic with
              | some info => trivial
              | none =>
                  refine Prog.only_perform_bind.mpr ⟨.inr ⟨rfl, rfl⟩, fun legacy => ?_⟩
                  cases legacy with
                  | some info => trivial
                  | none => exact (onFile_os2cliErrno _).bind fun _ => trivial
          · trivial

theorem onFile_smbwrpFgetattr (finfo : SmbwrpFileinfo) :
    (smbwrpFgetattr cli file finfo).Only (Op.OnFile cli file.fd) := by
  cases cli with
  | none => trivial
  | some cli =>
      refine Prog.only_perform_bind.mpr ⟨.inr ⟨rfl, rfl⟩, fun basic => ?_⟩
      cases basic with
      | some info => trivial
      | none =>
          refine Prog.only_perform_bind.mpr ⟨.inr ⟨rfl, rfl⟩, fun legacy => ?_⟩
          cases legacy with
          | none => exact (onFile_os2cliErrno _).bind fun _ => trivial
          | some info => exact ⟨trivial, fun _ => ⟨trivial, fun _ => ⟨trivial, fun _ => trivial⟩⟩⟩

theorem onFile_smbwrpFsetea (name : CString) (value : Option (List UInt8)) (size : UInt16) :
    (smbwrpFsetea cli file name value size).Only (Op.OnFile cli file.fd) := by
  cases cli with
  | none => trivial
  | some cli =>
      refine Prog.only_perform_bind.mpr ⟨.inr ⟨rfl, rfl⟩, fun ok => ?_⟩
      exact (fileless_requestRc cli ok).mono fun _ _ => Op.Fileless.onFile

end OnFile

/-! What a call does with the open file. -/

section Calls

variable {α : Type} {ph : Platform} {s t : Session} {seen later : FileSeen}
  {excused : Nat → Nat → Prop}

theorem FileSeen.Owns.member (owns : seen.Owns s.pConn) (valid : 0 ≤ s.pConn.file.fd) (used : Handle)
    (same : s.pConn.cli = some used) : (used, s.pConn.file.fd) ∈ seen.opened := by
  obtain ⟨cli, present, member⟩ := owns valid
  obtain rfl := Option.some.inj (same.symm.trans present)
  exact member

/-- A connection that is dropped while a file is open is dropped for one that opens a file. -/
def Replaced (s : Session) (seen later : FileSeen) : Prop :=
  0 ≤ s.pConn.file.fd → seen.drops < later.drops → seen.opens < later.opens

/-- The number of the file is good behind a call exactly when the file was kept or replaced,
and then nothing has strayed. -/
structure Handled (s : Session) (seen : FileSeen) (t : Session) (later : FileSeen) : Prop where
  careful : Replaced s seen later → later.stray = false
  owns_iff : later.Owns t.pConn ↔ Replaced s seen later

theorem LeftAlone.handled (alone : LeftAlone s seen t later) (owns : seen.Owns s.pConn) :
    Handled s seen t later := by
  refine ⟨fun _ => alone.careful, ?_⟩
  rcases alone.link with ⟨cli, opened, drops⟩ | ⟨nothing, drops⟩
  · constructor
    · intro _ _ dropped
      omega
    · intro _ valid
      rw [alone.fd] at valid ⊢
      rw [cli, opened]
      exact owns valid
  · constructor
    · intro owned valid dropped
      rw [← alone.fd] at valid
      obtain ⟨used, -, member⟩ := owned valid
      simp [nothing] at member
    · intro reopened valid
      rw [alone.fd] at valid
      have more := reopened valid drops
      have same := alone.opens
      omega

theorem handled_of_same (careful : seen.stray = false) (owns : seen.Owns s.pConn)
    (cli : t.pConn.cli = s.pConn.cli) (fd : t.pConn.file.fd = s.pConn.file.fd) :
    Handled s seen t seen := by
  refine ⟨fun _ => careful, fun _ _ dropped => absurd dropped (lt_irrefl _), fun _ valid => ?_⟩
  rw [fd] at valid ⊢
  rw [cli]
  exact owns valid

theorem handled_onFile {program : Program α} (left : α → Session) (careful : seen.stray = false)
    (owns : seen.Owns s.pConn) (valid : 0 ≤ s.pConn.file.fd)
    (onFile : program.Only (Op.OnFile s.pConn.cli s.pConn.file.fd))
    (cli : program.Returns fun answer => (left answer).pConn.cli = s.pConn.cli ∧
      (left answer).pConn.file.fd = s.pConn.file.fd) :
    (fileWatch excused).Ensures (fun answer later => Handled s seen (left answer) later) program seen := by
  refine ((quiet_of_onFile onFile (owns.member valid) careful).and_returns cli).mono ?_
  rintro answer _ ⟨rfl, cli, fd⟩
  exact handled_of_same careful owns cli fd

theorem handled_guarded (left : α → Session) {refused : Int → α} {work : Program α}
    (careful : seen.stray = false) (owns : seen.Owns s.pConn)
    (unchanged : ∀ rcLock, left (refused rcLock) = s)
    (worked : (fileWatch excused).Ensures (fun answer later => Handled s seen (left answer) later) work
      seen) :
    (fileWatch excused).Ensures (fun answer later => Handled s seen (left answer) later)
      (guarded refused work) seen := by
  refine ensures_guarded (fun rcLock _ _ => ?_) fun _ => ?_
  · rw [unchanged]
    exact handled_of_same careful owns rfl rfl
  · exact worked.mono fun _ _ after _ => after

theorem handled_ifOpen (left : α → Session) {refused : α} {work : Program α}
    (careful : seen.stray = false) (owns : seen.Owns s.pConn)
    (unchanged : (left refused).pConn.cli = s.pConn.cli ∧
      (left refused).pConn.file.fd = s.pConn.file.fd)
    (onFile : work.Only (Op.OnFile s.pConn.cli s.pConn.file.fd))
    (kept : work.Returns fun answer => (left answer).pConn.cli = s.pConn.cli ∧
      (left answer).pConn.file.fd = s.pConn.file.fd) :
    (fileWatch excused).Ensures (fun answer later => Handled s seen (left answer) later)
      (if s.pConn.file.fd < 0 then pure refused else work) seen := by
  split
  · exact handled_of_same careful owns unchanged.1 unchanged.2
  · exact handled_onFile left careful owns (by omega) onFile kept

theorem fd_smbwrpRead (cli : Option Handle) (file : SmbwrpFile) (hasBuffer : Bool)
    (count : UInt32) :
    (smbwrpRead cli file hasBuffer count).Returns fun answer => answer.2.1.fd = file.fd := by
  unfold smbwrpRead
  split
  · rfl
  · rfl
  · refine Prog.returns_perform_bind.mpr fun status => ?_
    cases status with
    | none => exact fun _ => rfl
    | some data => rfl

theorem fd_smbwrpWrite (cli : Option Handle) (file : SmbwrpFile)
    (buffer : Option (List UInt8)) :
    (smbwrpWrite cli file buffer).Returns fun answer => answer.2.1.fd = file.fd := by
  unfold smbwrpWrite
  split
  · rfl
  · rfl
  · refine Prog.returns_perform_bind.mpr fun status => ?_
    cases status with
    | none => exact fun _ => rfl
    | some ret => rfl

theorem fd_smbwrpLseek (cli : Option Handle) (file : SmbwrpFile) (whence : UInt32)
    (offset : Int) :
    (smbwrpLseek cli file whence offset).Returns fun answer => answer.2.fd = file.fd := by
  cases cli with
  | none => rfl
  | some cli =>
      simp only [smbwrpLseek]
      split
      · split
        · rfl
        · rfl
      · split
        · rfl
        · split
          · split
            · rfl
            · refine Prog.returns_perform_bind.mpr fun basic => ?_
              cases basic with
              | some info => rfl
              | none =>
                  refine Prog.returns_perform_bind.mpr fun legacy => ?_
                  cases legacy with
                  | some info => rfl
                  | none => exact fun _ => rfl
          · rfl

/-! The operations on the open file. -/

theorem onFile_setOpenEas (pFEAList : List UInt8) :
    (easetRecords pFEAList (smbwrpFsetea s.pConn.cli s.pConn.file)).Only
      (Op.OnFile s.pConn.cli s.pConn.file.fd) :=
  only_easetLoop _ (fun _ _ served => served.lists.fileless.onFile)
    (fun name value size => onFile_smbwrpFsetea name value size) _ _ _

theorem onFile_ndpFileEASet (pFEAList : Option (List UInt8)) :
    (ndpFileEASet s pFEAList).Only (Op.OnFile s.pConn.cli s.pConn.file.fd) := by
  cases pFEAList with
  | none => trivial
  | some pFEAList =>
      refine Prog.Only.bind (Prog.Only.mono (only_loadLong none .feaList pFEAList 0)
        fun _ _ served => (fileless_plain _ _ served).onFile) fun cbList => ?_
      split
      · trivial
      · split
        · trivial
        · refine Prog.only_perform_bind.mpr ⟨trivial, fun rcLock => ?_⟩
          split
          · trivial
          · refine Prog.Only.bind ?_ fun _ => ⟨trivial, fun _ => trivial⟩
            unfold setOpenEas
            split
            · trivial
            · exact onFile_setOpenEas pFEAList

theorem fileless_ndpFileEASet (pFEAList : Option (List UInt8)) (closed : s.pConn.file.fd < 0) :
    (ndpFileEASet s pFEAList).Only Op.Fileless := by
  cases pFEAList with
  | none => trivial
  | some pFEAList =>
      refine Prog.Only.bind (Prog.Only.mono (only_loadLong none .feaList pFEAList 0)
        fileless_plain) fun cbList => ?_
      split
      · trivial
      · split
        · trivial
        · apply fileless_guarded
          unfold setOpenEas
          rw [if_pos closed]
          trivial

theorem quiet_ndpFileEASet (pFEAList : Option (List UInt8)) (careful : seen.stray = false)
    (owns : seen.Owns s.pConn) :
    (fileWatch excused).Ensures (fun _ later => later = seen) (ndpFileEASet s pFEAList) seen := by
  by_cases closed : s.pConn.file.fd < 0
  · exact quiet_of_fileless (fileless_ndpFileEASet pFEAList closed) careful
  · exact quiet_of_onFile (onFile_ndpFileEASet pFEAList) (owns.member (by omega)) careful

theorem handled_ndpFileQueryInfo (careful : seen.stray = false) (owns : seen.Owns s.pConn) :
    (fileWatch excused).Ensures (fun _ later => Handled s seen s later) (ndpFileQueryInfo ph s) seen := by
  refine handled_guarded (fun _ => s) careful owns (fun _ => rfl) ?_
  unfold queryOpenInfo
  split
  · exact handled_of_same careful owns rfl rfl
  · rename_i opened
    have valid : 0 ≤ s.pConn.file.fd := by
      rw [not_or] at opened
      omega
    refine handled_onFile (fun _ => s) careful owns valid ?_
      (Prog.returns_of_forall fun _ => ⟨rfl, rfl⟩)
    refine Prog.only_perform_bind.mpr ⟨trivial, fun finfo => ?_⟩
    split
    · trivial
    · refine (onFile_smbwrpFgetattr _).bind fun answer => ?_
      simp only
      split
      · refine Prog.Only.bind ?_ fun _ => trivial
        exact (fileless_giveFileinfo _).mono fun _ _ => Op.Fileless.onFile
      · trivial

theorem handled_ndpFileSetFilePtrL (llOffset : Int) (ulMethod : UInt32)
    (careful : seen.stray = false) (owns : seen.Owns s.pConn) :
    (fileWatch excused).Ensures (fun answer later => Handled s seen answer.2.1 later)
      (ndpFileSetFilePtrL s llOffset ulMethod) seen := by
  refine handled_guarded (fun answer : Int × Session × Option UInt64 => answer.2.1) careful owns
    (fun _ => rfl) ?_
  refine handled_ifOpen (fun answer : Int × Session × Option UInt64 => answer.2.1)
    careful owns ⟨rfl, rfl⟩ ((onFile_smbwrpLseek _ _).bind fun _ => trivial) ?_
  refine Prog.returns_bind.mpr ((fd_smbwrpLseek _ _ _ _).mono ?_)
  rintro ⟨rc, file⟩ same
  exact ⟨rfl, same⟩

theorem handled_ndpFileNewSizeL (llLen : Int) (careful : seen.stray = false)
    (owns : seen.Owns s.pConn) :
    (fileWatch excused).Ensures (fun _ later => Handled s seen s later) (ndpFileNewSizeL s llLen) seen := by
  refine handled_guarded (fun _ => s) careful owns (fun _ => rfl) ?_
  exact handled_ifOpen (fun _ => s) careful owns ⟨rfl, rfl⟩
    (onFile_smbwrpSetfilesize llLen) (Prog.returns_of_forall fun _ => ⟨rfl, rfl⟩)

theorem handled_ndpFileRead (hasBuffer : Bool) (ulRead : UInt32) (careful : seen.stray = false)
    (owns : seen.Owns s.pConn) (valid : 0 ≤ s.pConn.file.fd) :
    (fileWatch excused).Ensures (fun answer later => Handled s seen answer.2.1 later)
      (ndpFileRead s hasBuffer ulRead) seen := by
  refine handled_guarded
    (fun answer : Int × Session × Option UInt32 × Option (List UInt8) => answer.2.1)
    careful owns (fun _ => rfl) ?_
  refine handled_onFile
    (fun answer : Int × Session × Option UInt32 × Option (List UInt8) => answer.2.1)
    careful owns valid ?_ ?_
  · refine (onFile_smbwrpRead hasBuffer ulRead).bind ?_
    rintro ⟨rc, file, data⟩
    refine Prog.Only.bind ?_ fun _ => trivial
    unfold readActual
    split
    · trivial
    · exact ⟨trivial, fun _ => trivial⟩
  · refine Prog.returns_bind.mpr ((fd_smbwrpRead _ _ _ _).mono ?_)
    rintro ⟨rc, file, data⟩ same
    exact Prog.returns_bind.mpr (Prog.returns_of_forall fun _ => ⟨rfl, same⟩)

theorem handled_ndpFileWrite (pBuffer : Option (List UInt8)) (careful : seen.stray = false)
    (owns : seen.Owns s.pConn) :
    (fileWatch excused).Ensures (fun answer later => Handled s seen answer.2.1 later)
      (ndpFileWrite ph s pBuffer) seen := by
  refine handled_guarded (fun answer : Int × Session × Option UInt32 => answer.2.1) careful owns
    (fun _ => rfl) ?_
  refine handled_ifOpen (fun answer : Int × Session × Option UInt32 => answer.2.1)
    careful owns ⟨rfl, rfl⟩ ((onFile_smbwrpWrite pBuffer).bind fun _ => trivial) ?_
  refine Prog.returns_bind.mpr ((fd_smbwrpWrite _ _ _).mono ?_)
  rintro ⟨rc, file, done⟩ same
  exact ⟨rfl, same⟩

theorem handled_ndpFileSetInfo (stat : Filestatus3L) (careful : seen.stray = false)
    (owns : seen.Owns s.pConn) :
    (fileWatch excused).Ensures (fun answer later => Handled s seen answer.2 later)
      (ndpFileSetInfo ph s stat) seen := by
  refine handled_guarded Prod.snd careful owns (fun _ => rfl) ?_
  split
  · exact handled_of_same careful owns rfl rfl
  · exact handled_of_same careful owns rfl rfl

theorem fileless_closeTimes (file : SmbwrpFile) : (closeTimes file).Only Op.Fileless := by
  unfold closeTimes
  split
  · exact ⟨trivial, fun _ => trivial⟩
  · trivial

theorem fd_closeTimes (file : SmbwrpFile) :
    (closeTimes file).Returns fun closing => closing.fd = file.fd := by
  unfold closeTimes
  split
  · exact fun _ => rfl
  · rfl

theorem fileless_setOnClose (cli : Handle) (rc : Int) (file : SmbwrpFile) :
    (setOnClose cli rc file).Only Op.Fileless := by
  unfold setOnClose
  split
  · exact ⟨trivial, fun _ => trivial⟩
  · trivial

theorem closed_smbwrpClose (file : SmbwrpFile) {cli : Option Handle} (careful : seen.stray = false)
    (owned : ∀ used, cli = some used → (used, file.fd) ∈ seen.opened) :
    (fileWatch excused).Ensures (fun _ later => later.stray = false ∧ later.drops = seen.drops)
      (smbwrpClose cli file) seen := by
  cases cli with
  | none => exact ⟨careful, rfl⟩
  | some cli =>
      apply ((quiet_of_fileless (fileless_closeTimes file)
        careful).and_returns (fd_closeTimes file)).bind
      rintro closing later ⟨quiet, same⟩
      rw [quiet]
      refine Watch.ensures_perform_bind.mpr fun closed _ => ?_
      have member : (cli, closing.fd) ∈ seen.opened := by
        rw [same]
        exact owned cli rfl
      have still : (seen.act (.closed cli closing.fd)).stray = false := by
        simp [FileSeen.act, member, careful]
      apply (quiet_of_fileless (fileless_requestRc cli closed)
        still).bind
      rintro rc _ rfl
      apply (quiet_of_fileless (fileless_setOnClose cli rc closing)
        still).bind
      rintro _ _ rfl
      exact ⟨still, rfl⟩

theorem handled_closed (careful : later.stray = false) (drops : later.drops = seen.drops)
    (fd : t.pConn.file.fd = -1) : Handled s seen t later := by
  refine ⟨fun _ => careful, fun _ _ dropped => ?_, fun _ valid => ?_⟩
  · omega
  · omega

theorem handled_ndpFileClose (careful : seen.stray = false) (owns : seen.Owns s.pConn) :
    (fileWatch excused).Ensures (fun answer later => Handled s seen answer.2 later) (ndpFileClose s)
      seen := by
  refine handled_guarded Prod.snd careful owns (fun _ => rfl) ?_
  unfold closeOpen
  split
  · exact handled_closed careful rfl rfl
  · rename_i valid
    apply (closed_smbwrpClose s.pConn.file careful
      (owns.member (by omega))).bind
    rintro answer later ⟨still, drops⟩
    exact handled_closed still drops rfl

theorem careful_ndpFreeConnection (careful : seen.stray = false) (owns : seen.Owns s.pConn) :
    (fileWatch excused).Ensures
      (fun answer later => later.stray = false ∧
        ∀ pConn, answer.2 = some pConn → pConn = s.pConn ∧ later = seen)
      (ndpFreeConnection s.pConn) seen := by
  have disconnected {later : FileSeen} (still : later.stray = false) :
      (fileWatch excused).Ensures (fun _ latest => latest.stray = false) (smbwrpDisconnect s.pConn.cli)
        later :=
    ensures_smbwrpDisconnect (fun _ => still) fun _ _ => still
  refine ensures_guarded (fun _ _ _ => ?_) fun _ => Watch.ensures_bind.mpr ?_
  · refine ⟨careful, ?_⟩
    rintro pConn ⟨⟩
    exact ⟨rfl, rfl⟩
  unfold freeConnection
  split
  · rename_i valid
    apply (closed_smbwrpClose s.pConn.file careful
      (owns.member (by omega))).bind
    exact fun _ later closed => (disconnected closed.1).mono fun _ _ still _ => ⟨still, by simp⟩
  · exact (disconnected careful).mono fun _ _ still _ => ⟨still, by simp⟩

structure Reopened (seen : FileSeen) (t : Session) (later : FileSeen) : Prop where
  careful : later.stray = false
  owns : later.Owns t.pConn
  opens : seen.opens < later.opens

theorem Reopened.handled (reopened : Reopened seen t later) : Handled s seen t later :=
  ⟨fun _ => reopened.careful, fun _ _ _ => reopened.opens, fun _ => reopened.owns⟩

theorem LeftAlone.filed {file : SmbwrpFile} (alone : LeftAlone s seen t later)
    (fd : file.fd = t.pConn.file.fd) :
    LeftAlone s seen { t with pConn := { t.pConn with file } } later :=
  ⟨fd.trans alone.fd, alone.careful, alone.opens, alone.link⟩

theorem opened_smbwrpOpen {file : SmbwrpFile} (fd : file.fd = t.pConn.file.fd)
    (alone : LeftAlone s seen t later) :
    (fileWatch excused).Ensures
      (fun answer latest =>
        LeftAlone s seen { t with pConn := { t.pConn with file := answer.2 } } latest ∨
        Reopened seen { t with pConn := { t.pConn with file := answer.2 } } latest)
      (smbwrpOpen t.pConn.cli file) later := by
  cases used : t.pConn.cli with
  | none => exact .inl (alone.filed fd)
  | some cli =>
      simp only [smbwrpOpen]
      split
      · exact .inl (alone.filed fd)
      · refine Watch.ensures_perform_bind.mpr fun opened _ => ?_
        cases opened with
        | none =>
            apply (alone.only (fileless_os2cliErrno cli)).bind
            refine fun _ _ after => .inl (after.filed ?_)
            split
            · exact fd
            · exact fd
        | some opened =>
            refine .inr ⟨alone.careful, fun _ => ⟨cli, used, List.mem_cons_self⟩, ?_⟩
            have counted : (later.act (.opened cli opened.toNat)).opens = later.opens + 1 := rfl
            have same := alone.opens
            change seen.opens < (later.act (.opened cli opened.toNat)).opens
            omega

theorem opened_openPath (szFileName : CString) (flags ulOpenMode ulAttribute : UInt32)
    (alone : LeftAlone s seen t later) :
    (fileWatch excused).Ensures
      (fun answer latest => LeftAlone s seen answer.2 latest ∨
        Reopened seen answer.2 latest)
      (openPath ph t szFileName flags ulOpenMode ulAttribute) later := by
  unfold openPath
  split
  · exact .inl alone
  · apply (alone.pathparser szFileName).bind
    rintro ⟨rc, t, path⟩ latest after
    simp only
    split
    · exact .inl after
    · exact Watch.ensures_bind.mpr (opened_smbwrpOpen rfl after)

def Unreplaced (s : Session) (seen : FileSeen) (drops opens : Nat) : Prop :=
  0 ≤ s.pConn.file.fd ∧ seen.drops < drops ∧ opens ≤ seen.opens

theorem not_replaced_iff :
    ¬ Replaced s seen later ↔ Unreplaced s seen later.drops later.opens := by
  unfold Replaced Unreplaced
  constructor
  · intro missing
    by_contra other
    apply missing
    intro valid dropped
    by_contra fewer
    exact other ⟨valid, dropped, by omega⟩
  · rintro ⟨valid, dropped, fewer⟩ replaced
    have more := replaced valid dropped
    omega

/-- As far as the numbers and the open files go, work on a file does not show. -/
structure SameFiles (seen later : FileSeen) : Prop where
  opened : later.opened = seen.opened
  drops : later.drops = seen.drops
  opens : later.opens = seen.opens

theorem SameFiles.observe {R : Type} {op : Op R} {reply : R} {cli : Option Handle} {fd : Int}
    (same : SameFiles seen later) (onFile : Op.OnFile cli fd R op) :
    SameFiles seen (later.act (fileAction ⟨op, reply⟩)) := by
  cases op with
  | request used ask =>
      rcases onFile with fileless | ⟨-, carries⟩
      · have plain : Op.Fileless R (.request used ask) := fileless
        rw [fileAction_fileless plain]
        exact ⟨same.opened, same.drops, same.opens⟩
      · rw [fileAction_carries carries]
        exact ⟨same.opened, same.drops, same.opens⟩
  | smbwrpConnect | cliShutdown => exact absurd onFile id
  | _ => exact same

theorem sameFiles_of_onFile {program : Program α} {cli : Option Handle} {fd : Int}
    (onFile : program.Only (Op.OnFile cli fd)) (excuse : excused seen.drops seen.opens)
    (same : SameFiles seen later) :
    (fileWatch excused).Ensures (fun _ latest => SameFiles seen latest) program later := by
  induction program generalizing later with
  | ret value => exact same
  | call op next ih => exact fun reply _ => ih reply (onFile.2 reply) (same.observe onFile.1)
  | fault =>
      refine .inr ?_
      rw [same.drops, same.opens]
      exact excuse

theorem handled_easOnOpen {rc : Int} (pFEAList : Option (List UInt8))
    (careful : later.stray = false) (handled : Handled s seen t later) :
    (fileWatch (Unreplaced s seen)).Ensures (fun _ latest => Handled s seen t latest)
      (easOnOpen rc t pFEAList) later := by
  unfold easOnOpen
  split
  · refine Watch.ensures_bind.mpr ?_
    by_cases owns : later.Owns t.pConn
    · refine (quiet_ndpFileEASet pFEAList careful owns).mono ?_
      rintro _ _ rfl
      exact handled
    · have unreplaced := fun replaced => owns (handled.owns_iff.mpr replaced)
      refine (sameFiles_of_onFile (onFile_ndpFileEASet pFEAList) (not_replaced_iff.mp unreplaced)
        ⟨rfl, rfl, rfl⟩).mono ?_
      intro _ latest same
      have still : ¬ Replaced s seen latest := by
        unfold Replaced
        rw [same.drops, same.opens]
        exact unreplaced
      refine ⟨fun replaced => absurd replaced still, ?_⟩
      unfold FileSeen.Owns
      rw [same.opened]
      exact iff_of_false owns still
  · exact handled

theorem handled_smbopen (szFileName : CString) (flags ulOpenMode ulAttribute : UInt32)
    (pFEAList : Option (List UInt8)) (careful : seen.stray = false) (owns : seen.Owns s.pConn) :
    (fileWatch (Unreplaced s seen)).Ensures (fun answer later => Handled s seen answer.2 later)
      (smbopen ph s szFileName flags ulOpenMode ulAttribute pFEAList) seen := by
  refine handled_guarded Prod.snd careful owns (fun _ => rfl) ?_
  have alone : LeftAlone s seen
      (if flags &&& oCreat ≠ 0 then s.invalidateParent ph szFileName else s) seen := by
    split
    · exact (LeftAlone.refl careful).resource _
    · exact LeftAlone.refl careful
  apply (opened_openPath szFileName flags ulOpenMode ulAttribute alone).bind
  rintro ⟨rc, t⟩ later after
  have still : later.stray = false := after.elim LeftAlone.careful Reopened.careful
  have handled : Handled s seen t later :=
    after.elim (fun alone => alone.handled owns) Reopened.handled
  exact Watch.ensures_bind.mpr (handled_easOnOpen pFEAList still handled)

theorem handled_call (call : SessionCall) (careful : seen.stray = false)
    (owns : seen.Owns s.pConn)
    (reads : ∀ hasBuffer ulRead, call = .fileRead hasBuffer ulRead → 0 ≤ s.pConn.file.fd) :
    (fileWatch (Unreplaced s seen)).Ensures (fun answer later => Handled s seen answer.2 later)
      (call.run ph s) seen := by
  have start : LeftAlone s seen s seen := .refl careful
  have alone {program : Program (Int × Session)}
      (left : (fileWatch (Unreplaced s seen)).Ensures
        (fun answer later => LeftAlone s seen answer.2 later) program seen) :
      (fileWatch (Unreplaced s seen)).Ensures (fun answer later => Handled s seen answer.2 later)
        program seen := left.mono fun _ _ after => after.handled owns
  have keeping {program : Program Int}
      (handled : (fileWatch (Unreplaced s seen)).Ensures (fun _ later => Handled s seen s later)
        program seen) :
      (fileWatch (Unreplaced s seen)).Ensures (fun answer later => Handled s seen answer.2 later)
        (keeping s program) seen := Watch.ensures_bind.mpr handled
  have dropping {α : Type} {program : Program (Int × Session × α)}
      (handled : (fileWatch (Unreplaced s seen)).Ensures
        (fun answer later => Handled s seen answer.2.1 later) program seen) :
      (fileWatch (Unreplaced s seen)).Ensures (fun answer later => Handled s seen answer.2 later)
        (dropping program) seen := by
    apply handled.bind
    rintro ⟨rc, t, rest⟩ later after
    exact after
  have changing := keptChanging_fileAlone ph (Unreplaced s seen) s seen
  have browsing := keptBrowsing_fileAlone ph (Unreplaced s seen) s seen
  have untouched : FileAlone s seen 0 s seen := start
  cases call with
  | queryPathInfo szPath =>
      refine alone ((browsing.ndpQueryPathInfo szPath untouched).mono ?_)
      exact fun answer later after => after.elim id id
  | findStart szPath ulAttribute =>
      refine alone ((browsing.ndpFindStart szPath ulAttribute untouched).mono ?_)
      exact fun answer later after => after.elim id id
  | openReplace => exact handled_smbopen _ _ _ _ _ careful owns
  | openReplaceL => exact handled_smbopen _ _ _ _ _ careful owns
  | openCreate => exact handled_smbopen _ _ _ _ _ careful owns
  | openCreateL => exact handled_smbopen _ _ _ _ _ careful owns
  | openExisting => exact handled_smbopen _ _ _ _ _ careful owns
  | fileQueryInfo => exact keeping (handled_ndpFileQueryInfo careful owns)
  | fileEASet pFEAList =>
      refine keeping ((quiet_ndpFileEASet pFEAList careful owns).mono ?_)
      rintro _ _ rfl
      exact start.handled owns
  | fileSetInfo stat => exact handled_ndpFileSetInfo stat careful owns
  | fileSetFilePtrL llOffset ulMethod =>
      exact dropping (handled_ndpFileSetFilePtrL llOffset ulMethod careful owns)
  | fileSetFilePtr lOffset ulMethod =>
      refine dropping (LeftAlone.perform trivial fun unset => ?_)
      exact Watch.ensures_bind.mpr (handled_ndpFileSetFilePtrL lOffset ulMethod careful owns)
  | fileClose => exact handled_ndpFileClose careful owns
  | fileNewSize ulLen => exact keeping (handled_ndpFileNewSizeL _ careful owns)
  | fileNewSizeL llLen => exact keeping (handled_ndpFileNewSizeL llLen careful owns)
  | fileRead hasBuffer ulRead =>
      exact dropping (handled_ndpFileRead hasBuffer ulRead careful owns (reads _ _ rfl))
  | fileWrite pBuffer => exact dropping (handled_ndpFileWrite pBuffer careful owns)
  | _ => exact alone (changing.pathwise _ rfl untouched)

end Calls

/-! While no file is open. -/

def SessionCall.worksOnFile : SessionCall → Bool
  | .fileQueryInfo | .fileEASet .. | .fileSetFilePtrL .. | .fileSetFilePtr .. => true
  | .fileClose | .fileNewSize .. | .fileNewSizeL .. | .fileRead .. | .fileWrite .. => true
  | _ => false

/-- EAs are set where they are supported and the list has a record. -/
def Attempts (s : Session) : SessionCall → Prop
  | .fileEASet pFEAList => s.pRes.easupport ≠ 0 ∧ ∃ list, pFEAList = some list ∧
      4 ≤ list.length ∧ sizeofLong < littleEndian (list.take 4)
  | _ => True

def asksServer : CallEvent → Bool
  | ⟨.request .., _⟩ | ⟨.smbwrpConnect .., _⟩ | ⟨.cliShutdown .., _⟩ => true
  | _ => false

def Op.Offline (R : Type) (op : Op R) : Prop := ∀ reply, asksServer ⟨op, reply⟩ = false

def grantedWatch : Watch Op Unit where
  observe memory _ := memory
  admits _ event := Granted event

section Closed

variable {α : Type} {ph : Platform} {s t : Session} {answer : α} {refused : Int → α}

theorem offline_refused (answer : α) : (guarded refused (pure answer)).Only Op.Offline := by
  refine Prog.only_perform_bind.mpr ⟨fun _ => rfl, fun rcLock => ?_⟩
  split
  · trivial
  · exact ⟨fun _ => rfl, fun _ => trivial⟩

theorem granted_refused {post : α → Unit → Prop} {memory : Unit} (known : post answer ()) :
    grantedWatch.Ensures post (guarded refused (pure answer)) memory := by
  refine ensures_guarded (fun rcLock failed admitted => ?_) fun _ _ => known
  exact absurd (granted_requestMutex.mp admitted) failed

theorem Op.ServedBy.offline {R : Type} {op : Op R} (served : Op.ServedBy none R op) :
    Op.Offline R op := by
  intro reply
  cases op with
  | request used ask => exact absurd served (Option.some_ne_none used).symm
  | smbwrpConnect | cliShutdown => exact absurd served id
  | _ => rfl

theorem granted_loadLong {list : List UInt8} (long : 4 ≤ list.length) :
    grantedWatch.Ensures (fun cbList _ => cbList = littleEndian (list.take 4))
      (loadLong .feaList list 0) () := by
  refine Watch.ensures_bind.mpr (Watch.ensures_perform_bind.mpr fun _ _ => ?_)
  rw [if_pos (by omega)]
  rfl

theorem refused_ndpFileEASet (closed : s.pConn.file.fd < 0) (pFEAList : Option (List UInt8)) :
    (ndpFileEASet s pFEAList).Only Op.Offline ∧
      (Attempts s (.fileEASet pFEAList) →
        grantedWatch.Ensures (fun rc _ => rc = errorInvalidHandle) (ndpFileEASet s pFEAList) ()) := by
  cases pFEAList with
  | none =>
      refine ⟨trivial, ?_⟩
      rintro ⟨-, list, absent, -⟩
      simp at absent
  | some pFEAList =>
      simp only [ndpFileEASet, setOpenEas, if_pos closed]
      constructor
      · refine Prog.Only.bind (Prog.Only.mono (only_loadLong none .feaList pFEAList 0)
          fun _ _ => Op.ServedBy.offline) fun cbList => ?_
        split
        · trivial
        · split
          · trivial
          · exact offline_refused errorInvalidHandle
      · rintro ⟨supported, list, same, long, content⟩
        obtain rfl := Option.some.inj same
        apply (granted_loadLong long).bind
        rintro cbList _ rfl
        rw [if_neg (by omega), if_neg supported]
        exact granted_refused rfl

theorem refused_call (closed : s.pConn.file.fd < 0) {call : SessionCall}
    (works : call.worksOnFile = true)
    (reads : ∀ hasBuffer ulRead, call ≠ .fileRead hasBuffer ulRead) :
    (call.run ph s).Only Op.Offline ∧ (Attempts s call →
      grantedWatch.Ensures (fun answer _ => answer.1 = errorInvalidHandle) (call.run ph s) ()) := by
  cases call with
  | fileQueryInfo =>
      have refused : queryOpenInfo ph s = pure errorInvalidHandle := if_pos (.inl closed)
      simp only [SessionCall.run, ndpFileQueryInfo, refused]
      exact ⟨(offline_refused _).bind fun _ => trivial,
        fun _ => Watch.ensures_bind.mpr (granted_refused rfl)⟩
  | fileEASet pFEAList =>
      obtain ⟨offline, answered⟩ := refused_ndpFileEASet closed pFEAList
      exact ⟨offline.bind fun _ => trivial,
        fun attempts => Watch.ensures_bind.mpr (answered attempts)⟩
  | fileSetFilePtrL llOffset ulMethod =>
      have refused : seekOpen s llOffset ulMethod = pure (errorInvalidHandle, s, none) :=
        if_pos closed
      simp only [SessionCall.run, ndpFileSetFilePtrL, refused]
      exact ⟨(offline_refused _).bind fun _ => trivial,
        fun _ => Watch.ensures_bind.mpr (granted_refused rfl)⟩
  | fileSetFilePtr lOffset ulMethod =>
      have refused : seekOpen s lOffset ulMethod = pure (errorInvalidHandle, s, none) :=
        if_pos closed
      simp only [SessionCall.run, ndpFileSetFilePtr, ndpFileSetFilePtrL, refused]
      constructor
      · refine Prog.Only.bind (Prog.only_perform_bind.mpr ⟨fun _ => rfl, fun unset => ?_⟩)
          fun _ => trivial
        exact (offline_refused _).bind fun _ => trivial
      · intro _
        refine Watch.ensures_bind.mpr (Watch.ensures_perform_bind.mpr fun unset _ => ?_)
        exact Watch.ensures_bind.mpr (granted_refused rfl)
  | fileClose =>
      have refused : closeOpen s =
          pure (errorInvalidHandle, s.withFile { s.pConn.file with fd := -1 }) := if_pos closed
      simp only [SessionCall.run, ndpFileClose, refused]
      exact ⟨offline_refused _, fun _ => granted_refused rfl⟩
  | fileNewSize ulLen =>
      simp only [SessionCall.run, ndpFileNewSize, ndpFileNewSizeL, if_pos closed]
      exact ⟨(offline_refused _).bind fun _ => trivial,
        fun _ => Watch.ensures_bind.mpr (granted_refused rfl)⟩
  | fileNewSizeL llLen =>
      simp only [SessionCall.run, ndpFileNewSizeL, if_pos closed]
      exact ⟨(offline_refused _).bind fun _ => trivial,
        fun _ => Watch.ensures_bind.mpr (granted_refused rfl)⟩
  | fileRead hasBuffer ulRead => exact absurd rfl (reads hasBuffer ulRead)
  | fileWrite pBuffer =>
      have refused : writeOpen (s.invalidateParent ph s.pConn.file.fullname) pBuffer =
          pure (errorInvalidHandle, s.invalidateParent ph s.pConn.file.fullname, none) :=
        if_pos closed
      simp only [SessionCall.run, ndpFileWrite, refused]
      exact ⟨(offline_refused _).bind fun _ => trivial,
        fun _ => Watch.ensures_bind.mpr (granted_refused rfl)⟩
  | _ => simp [SessionCall.worksOnFile] at works

end Closed

end NdpSmb
