import NdpSmb.FileLife

/-!
What a call that reports success has changed on the server.
-/

namespace NdpSmb

open ByteString Interaction

inductive ServerChange
  | attributes
  | name
  | noFile
  | directory
  | noDirectory
  | file
  | data
  | size
  | pathEas
  | fileEas
  | deferred
  deriving DecidableEq

def changeAnswer : CallEvent → Option (ServerChange × Bool)
  | ⟨.request _ (.cliSetatr ..), ok⟩ => some (.attributes, ok)
  | ⟨.request _ (.cliRename ..), ok⟩ => some (.name, ok)
  | ⟨.request _ (.cliUnlink ..), ok⟩ => some (.noFile, ok)
  | ⟨.request _ (.cliMkdir _), ok⟩ => some (.directory, ok)
  | ⟨.request _ (.cliRmdir _), ok⟩ => some (.noDirectory, ok)
  | ⟨.request _ (.cliOpen ..), fd⟩ => some (.file, Option.isSome fd)
  | ⟨.request _ (.cliWriteall ..), ret⟩ => some (.data, Option.isSome ret)
  | ⟨.request _ (.cliFtruncate ..), ok⟩ => some (.size, ok)
  | ⟨.request _ (.cliSetEaPath ..), ok⟩ => some (.pathEas, ok)
  | ⟨.request _ (.cliSetEaFnum ..), ok⟩ => some (.fileEas, ok)
  | _ => none

def ChangeAnswered (kind : ServerChange) (ok : Bool) (trace : List CallEvent) : Prop :=
  ∃ event ∈ trace, changeAnswer event = some (kind, ok)

instance (kind : ServerChange) (ok : Bool) (trace : List CallEvent) :
    Decidable (ChangeAnswered kind ok trace) :=
  inferInstanceAs (Decidable (∃ event ∈ trace, changeAnswer event = some (kind, ok)))

def errnoReply : CallEvent → Option Int
  | ⟨.request _ .cliErrno, errno⟩ => some errno
  | _ => none

/-- Behind a failed request `os2cli_errno` is not zero. -/
def TellsErrno (event : CallEvent) : Prop :=
  ∀ errno ∈ errnoReply event, maperror errno ≠ noError

instance (event : CallEvent) : Decidable (TellsErrno event) :=
  inferInstanceAs (Decidable (∀ errno ∈ errnoReply event, maperror errno ≠ noError))

structure ChangeSeen where
  accepted : Bool := false
  refused : Bool := false
  deriving DecidableEq

def ChangeSeen.answered (seen : ChangeSeen) (ok : Bool) : ChangeSeen :=
  { accepted := seen.accepted || ok, refused := seen.refused || !ok }

def changeWatch (kind : ServerChange) : Watch Op ChangeSeen where
  observe seen event :=
    if changeAnswer event = some (kind, true) then seen.answered true
    else if changeAnswer event = some (kind, false) then seen.answered false
    else seen
  admits _ event := TellsErrno event

def made : ChangeSeen := { accepted := true }

section Watching

variable {α : Type} {kind : ServerChange} {seen : ChangeSeen} {trace : List CallEvent}

theorem seen_after :
    (((changeWatch kind).after seen trace).accepted = true ↔
        seen.accepted = true ∨ ChangeAnswered kind true trace) ∧
      (((changeWatch kind).after seen trace).refused = true ↔
        seen.refused = true ∨ ChangeAnswered kind false trace) := by
  induction trace generalizing seen with
  | nil => simp [ChangeAnswered]
  | cons event rest ih =>
      obtain ⟨accepted, refused⟩ := @ih ((changeWatch kind).observe seen event)
      rw [Watch.after_cons, accepted, refused]
      unfold ChangeAnswered changeWatch
      by_cases accepts : changeAnswer event = some (kind, true)
      · simp [accepts, ChangeSeen.answered]
      · by_cases refuses : changeAnswer event = some (kind, false)
        · simp [refuses, ChangeSeen.answered]
        · simp [accepts, refuses]

theorem accepted_after :
    ((changeWatch kind).after seen trace).accepted = true ↔
      seen.accepted = true ∨ ChangeAnswered kind true trace :=
  seen_after.1

theorem refused_after :
    ((changeWatch kind).after seen trace).refused = true ↔
      seen.refused = true ∨ ChangeAnswered kind false trace :=
  seen_after.2

def Op.Unchanging (kind : ServerChange) (R : Type) (op : Op R) : Prop :=
  ∀ reply ok, changeAnswer ⟨op, reply⟩ ≠ some (kind, ok)

theorem quiet_of_unchanging {program : Program α} (unchanging : program.Only (Op.Unchanging kind)) :
    (changeWatch kind).Ensures (fun _ later => later = seen) program seen := by
  apply Watch.ensures_of_only unchanging
  · intro R op reply unchanging
    exact (if_neg (unchanging reply true)).trans (if_neg (unchanging reply false))
  · trivial
  · exact fun _ => rfl

theorem Op.ServedBy.unchanging {R : Type} {op : Op R} (served : Op.ServedBy none R op) :
    Op.Unchanging kind R op := by
  intro reply ok
  cases op with
  | request used ask => exact absurd served (Option.some_ne_none used).symm
  | _ => simp [changeAnswer]

theorem unchanging_pathparser (ph : Platform) (s : Session) (szPath : CString) :
    (pathparser ph s szPath).Only (Op.Unchanging kind) := by
  apply only_pathparser
  · intro srv krb5 ntlmv1 encryption reply ok
    simp [changeAnswer]
  · intro cli reply ok
    simp [changeAnswer]

end Watching

/-! The wrappers. -/

/-- Success is reported only where the change was made. -/
def Faithful (rc : Int) (seen : ChangeSeen) : Prop := rc = noError → seen = made

theorem faithful_of_ne {rc : Int} {seen : ChangeSeen} (failed : rc ≠ noError) : Faithful rc seen :=
  fun zero => absurd zero failed

theorem faithful_einval {seen : ChangeSeen} : Faithful (maperror einval) seen :=
  faithful_of_ne (by decide)

section Wrappers

variable {kind : ServerChange} {seen : ChangeSeen} {cli : Option Handle}

theorem ensures_os2cliErrno_change {cli : Handle} {post : Int → ChangeSeen → Prop}
    (failed : ∀ rc ≠ noError, post rc seen) :
    (changeWatch kind).Ensures post (os2cliErrno cli) seen := by
  intro errno tells
  exact failed _ (tells errno rfl)

theorem observe_answered {R : Type} {op : Op R} {reply : R} {ok : Bool}
    (answers : changeAnswer ⟨op, reply⟩ = some (kind, ok)) :
    (changeWatch kind).observe seen ⟨op, reply⟩ = seen.answered ok := by
  cases ok <;> simp [changeWatch, answers]

theorem answered_true (clean : seen.refused = false) : seen.answered true = made := by
  simp [ChangeSeen.answered, made, clean]

theorem faithful_wrapped {ask : Request Bool}
    (asks : ∀ used ok, changeAnswer ⟨.request used ask, ok⟩ = some (kind, ok))
    (clean : seen.refused = false) :
    (changeWatch kind).Ensures Faithful (wrapped cli fun cli => askServer cli ask) seen := by
  cases cli with
  | none => exact faithful_einval
  | some cli =>
      refine Watch.ensures_perform_bind.mpr fun ok _ => ?_
      rw [observe_answered (asks cli ok)]
      cases ok with
      | true => exact fun _ => answered_true clean
      | false => exact ensures_os2cliErrno_change fun rc => faithful_of_ne

theorem faithful_smbwrpOpen (file : SmbwrpFile) (clean : seen.refused = false) :
    (changeWatch .file).Ensures (fun answer later => Faithful answer.1 later)
      (smbwrpOpen cli file) seen := by
  unfold smbwrpOpen
  split
  · exact faithful_einval
  · rename_i cli
    split
    · exact faithful_einval
    · refine Watch.ensures_perform_bind.mpr fun opened _ => ?_
      rw [observe_answered rfl]
      cases opened with
      | none =>
          refine Watch.ensures_bind.mpr (ensures_os2cliErrno_change fun rc failed => ?_)
          exact faithful_of_ne failed
      | some fd => exact fun _ => answered_true clean

theorem faithful_smbwrpWrite (file : SmbwrpFile) (buffer : Option (List UInt8))
    (clean : seen.refused = false) :
    (changeWatch .data).Ensures (fun answer later => Faithful answer.1 later)
      (smbwrpWrite cli file buffer) seen := by
  unfold smbwrpWrite
  split
  · exact faithful_einval
  · exact faithful_einval
  · refine Watch.ensures_perform_bind.mpr fun status _ => ?_
    rw [observe_answered rfl]
    cases status with
    | none =>
        refine Watch.ensures_bind.mpr (ensures_os2cliErrno_change fun rc failed => ?_)
        exact faithful_of_ne failed
    | some ret => exact fun _ => answered_true clean

theorem ensures_smbwrpSetattr (finfo : SmbwrpFileinfo) :
    (changeWatch .attributes).Ensures (fun rc later => rc = noError ↔ later.accepted = true)
      (smbwrpSetattr cli finfo) {} := by
  unfold smbwrpSetattr
  split
  · exact iff_of_false (by decide) (by decide)
  · split
    · exact iff_of_false (by decide) (by decide)
    · refine Watch.ensures_perform_bind.mpr fun first _ => ?_
      rw [observe_answered rfl]
      cases first with
      | true => exact iff_of_true rfl rfl
      | false =>
          refine Watch.ensures_perform_bind.mpr fun second _ => ?_
          rw [observe_answered rfl]
          cases second with
          | true => exact iff_of_true rfl rfl
          | false =>
              apply ensures_os2cliErrno_change
              exact fun rc failed => iff_of_false failed (by decide)

theorem ensures_smbwrpSetfilesize (file : SmbwrpFile) (newsize : Int) :
    (changeWatch .size).Ensures
      (fun rc later => if rc = noError then later.accepted = !later.refused else later = {})
      (smbwrpSetfilesize cli file newsize) {} := by
  unfold smbwrpSetfilesize
  split
  · exact rfl
  · refine Watch.ensures_perform_bind.mpr fun ok _ => ?_
    rw [observe_answered rfl]
    cases ok with
    | true => exact rfl
    | false => exact fun _ _ => rfl

end Wrappers

def cbListIn (list : List UInt8) : Nat := littleEndian (list.take 4)

section Lists

variable {kind : ServerChange} {seen : ChangeSeen} {list : List UInt8}
  {setea : CString → Option (List UInt8) → UInt16 → Program Int}

theorem ensures_loadCbListIn {post : Nat → ChangeSeen → Prop} (found : post (cbListIn list) seen) :
    (changeWatch kind).Ensures post (loadLong .feaList list 0) seen := by
  refine Watch.ensures_bind.mpr (Watch.ensures_perform_bind.mpr fun _ _ => ?_)
  split
  · exact found
  · trivial

theorem ensures_served {α : Type} {program : Program α} {post : α → ChangeSeen → Prop}
    (served : program.Only (Op.ServedBy none)) (all : ∀ answer, post answer seen) :
    (changeWatch kind).Ensures post program seen := by
  refine (quiet_of_unchanging (served.mono fun _ _ => Op.ServedBy.unchanging)).mono ?_
  rintro answer _ rfl
  exact all answer

theorem faithful_easetLoop (fuel : Nat) :
    ∀ (pfea done : Nat) (seen : ChangeSeen), seen.refused = false →
    (∀ name value size (before : ChangeSeen), before.refused = false →
      (changeWatch kind).Ensures Faithful (setea name value size) before) →
    (seen = made ∨ done < cbListIn list) →
    (changeWatch kind).Ensures Faithful (easetLoop list setea fuel pfea done) seen := by
  induction fuel with
  | zero => exact fun _ _ _ _ _ _ => trivial
  | succ fuel ih =>
      intro pfea done seen clean sets started
      apply Watch.ensures_bind.mpr
      apply ensures_loadCbListIn
      split
      · refine Watch.ensures_bind.mpr (ensures_served (only_loadFea none _ _ _) fun record => ?_)
        apply (sets _ _ _ seen clean).bind
        intro rc later set
        split
        · rename_i failed
          exact faithful_of_ne failed
        · rename_i zero
          have set := set (not_not.mp zero)
          refine Watch.ensures_bind.mpr (ensures_served (only_loadDataSize none _ _ _) fun _ => ?_)
          refine Watch.ensures_bind.mpr (ensures_served (only_loadDataSize none _ _ _) fun _ => ?_)
          exact ih _ _ _ (by rw [set]; rfl) sets (.inl set)
      · rename_i finished
        exact fun _ => started.resolve_right finished

theorem faithful_easetRecords (clean : seen.refused = false)
    (sets : ∀ name value size (before : ChangeSeen), before.refused = false →
      (changeWatch kind).Ensures Faithful (setea name value size) before)
    (records : sizeofLong < cbListIn list) :
    (changeWatch kind).Ensures Faithful (easetRecords list setea) seen :=
  faithful_easetLoop _ _ _ _ clean sets (.inr records)

theorem faithful_guarded {program : Program Int}
    (faithful : (changeWatch kind).Ensures Faithful program seen) :
    (changeWatch kind).Ensures Faithful (guarded id program) seen := by
  apply ensures_guarded
  · exact fun rcLock failed _ => faithful_of_ne failed
  · exact fun _ => faithful.mono fun _ _ after _ => after

theorem faithful_helperEASet (cli : Option Handle) (pFEAList : Option (List UInt8))
    (path : CString) (clean : seen.refused = false) :
    (changeWatch .pathEas).Ensures Faithful (helperEASet cli pFEAList path) seen := by
  cases pFEAList with
  | none => exact faithful_of_ne (by decide)
  | some list =>
      apply Watch.ensures_bind.mpr
      apply ensures_loadCbListIn
      split
      · exact faithful_of_ne (by decide)
      · rename_i records
        apply faithful_guarded
        apply faithful_easetRecords clean _ (not_le.mp records)
        exact fun name value size before => faithful_wrapped fun _ _ => rfl

theorem faithful_ndpFileEASet (s : Session) (pFEAList : Option (List UInt8))
    (clean : seen.refused = false) :
    (changeWatch .fileEas).Ensures Faithful (ndpFileEASet s pFEAList) seen := by
  cases pFEAList with
  | none => exact faithful_of_ne (by decide)
  | some list =>
      apply Watch.ensures_bind.mpr
      apply ensures_loadCbListIn
      split
      · exact faithful_of_ne (by decide)
      · rename_i records
        split
        · exact faithful_of_ne (by decide)
        · apply faithful_guarded
          unfold setOpenEas
          split
          · exact faithful_of_ne (by decide)
          · apply faithful_easetRecords clean _ (not_le.mp records)
            exact fun name value size before => faithful_wrapped fun _ _ => rfl

end Lists

def Op.SetsEas : (R : Type) → Op R → Prop
  | _, .fsphRequestMutex | _, .fsphReleaseMutex => True
  | _, .request _ (.cliSetEaPath ..) | _, .request _ (.cliSetEaFnum ..) => True
  | _, .request _ .cliErrno => True
  | _, op => Op.ServedBy none _ op

section Eas

variable {cli : Option Handle}

theorem Op.ServedBy.setsEas {R : Type} {op : Op R} (served : Op.ServedBy none R op) :
    Op.SetsEas R op := by
  cases op with
  | request used ask => exact absurd served (Option.some_ne_none used).symm
  | fsphRequestMutex | fsphReleaseMutex => trivial
  | _ => exact served

theorem Op.SetsEas.unchanging {kind : ServerChange} {R : Type} {op : Op R}
    (sets : Op.SetsEas R op) (other : kind ≠ .pathEas ∧ kind ≠ .fileEas) :
    Op.Unchanging kind R op := by
  intro reply ok answers
  cases op with
  | request used ask =>
      cases ask with
      | cliSetEaPath =>
          simp only [changeAnswer, Option.some.injEq, Prod.mk.injEq] at answers
          exact other.1 answers.1.symm
      | cliSetEaFnum =>
          simp only [changeAnswer, Option.some.injEq, Prod.mk.injEq] at answers
          exact other.2 answers.1.symm
      | cliErrno => simp [changeAnswer] at answers
      | _ => exact absurd sets (Option.some_ne_none used).symm
  | _ => simp [changeAnswer] at answers

theorem setsEas_wrapped {ask : Request Bool} (sets : ∀ used, Op.SetsEas Bool (.request used ask)) :
    (wrapped cli fun cli => askServer cli ask).Only Op.SetsEas := by
  cases cli with
  | none => trivial
  | some cli =>
      refine Prog.only_perform_bind.mpr ⟨sets cli, fun ok => ?_⟩
      unfold requestRc
      split
      · trivial
      · exact ⟨trivial, fun _ => trivial⟩

theorem setsEas_helperEASet (pFEAList : Option (List UInt8)) (path : CString) :
    (helperEASet cli pFEAList path).Only Op.SetsEas := by
  cases pFEAList with
  | none => trivial
  | some list =>
      refine Prog.Only.bind (Prog.Only.mono (only_loadLong none .feaList list 0)
        fun _ _ => Op.ServedBy.setsEas) fun cbList => ?_
      split
      · trivial
      · apply only_guarded trivial trivial
        apply only_easetLoop list fun _ _ => Op.ServedBy.setsEas
        exact fun name value size => setsEas_wrapped fun _ => trivial

theorem setsEas_ndpFileEASet (s : Session) (pFEAList : Option (List UInt8)) :
    (ndpFileEASet s pFEAList).Only Op.SetsEas := by
  cases pFEAList with
  | none => trivial
  | some list =>
      refine Prog.Only.bind (Prog.Only.mono (only_loadLong none .feaList list 0)
        fun _ _ => Op.ServedBy.setsEas) fun cbList => ?_
      split
      · trivial
      · split
        · trivial
        · apply only_guarded trivial trivial
          unfold setOpenEas
          split
          · trivial
          · apply only_easetLoop list fun _ _ => Op.ServedBy.setsEas
            exact fun name value size => setsEas_wrapped fun _ => trivial

end Eas

/-! The calls. -/

def SessionCall.change : SessionCall → Option ServerChange
  | .setPathInfo .. | .setFileAttribute .. => some .attributes
  | .forceDelete _ => some .noFile
  | .createDir .. => some .directory
  | .deleteDir _ => some .noDirectory
  | .move .. | .rename .. | .changeCase .. => some .name
  | .openReplace .. | .openReplaceL .. | .openCreate .. | .openCreateL .. => some .file
  | .openExisting .. => some .file
  | .fileWrite _ => some .data
  | .fileNewSize _ | .fileNewSizeL _ => some .size
  | .fileSetInfo _ => some .deferred
  | .eaSet _ => some .pathEas
  | .fileEASet _ => some .fileEas
  | _ => none

def Session.HasFile (s : Session) : Prop := 0 ≤ s.pConn.file.fd ∧ s.pConn.file.fname ≠ []

instance (s : Session) : Decidable s.HasFile :=
  inferInstanceAs (Decidable (_ ∧ _))

/-- The change that the call is asked for was made: recorded with the open file, or accepted by
the server without a refusal, with a file open where the call works on one. -/
def Accepted (ph : Platform) (s : Session) (exchanged : List CallEvent) (t : Session)
    (kind : ServerChange) : SessionCall → Prop
  | .fileSetInfo stat => s.HasFile ∧ t.pConn.file = { s.pConn.file with
      openattr := stat.attrFile
      mtime := fsphDosDateToUnixTime ph stat.fdateLastWrite stat.ftimeLastWrite
      updatetime := 2 }
  | call => (ChangeAnswered kind true exchanged ∧ ¬ ChangeAnswered kind false exchanged) ∧
      (call.worksOnFile = true → 0 ≤ s.pConn.file.fd)

/-- No size is refused, no attributes are refused before they are accepted without the time, and
the deferred attributes are those of an open file. -/
def NothingSwallowed (s : Session) (exchanged : List CallEvent) : ServerChange → Prop
  | .attributes => ¬ (ChangeAnswered .attributes false exchanged ∧ ChangeAnswered .attributes true exchanged)
  | .size => ¬ ChangeAnswered .size false exchanged
  | .deferred => MutexGranted exchanged → s.HasFile
  | _ => True

def ChangeSeen.Sound (seen : ChangeSeen) : ServerChange → Prop
  | .attributes => ¬ (seen.refused = true ∧ seen.accepted = true)
  | .size => seen.refused = false
  | _ => True

/-- Success goes with the change where nothing is swallowed. -/
def Candid (kind : ServerChange) (rc : Int) (seen : ChangeSeen) : Prop :=
  Faithful rc seen ↔ seen.Sound kind

section Calls

variable {ph : Platform} {s t : Session} {kind : ServerChange} {seen : ChangeSeen}
  {exchanged : List CallEvent}

theorem candid_failed {rc : Int} (failed : rc ≠ noError) : Candid kind rc {} := by
  refine iff_of_true (faithful_of_ne failed) ?_
  cases kind <;> simp [ChangeSeen.Sound]

theorem candid_of_faithful {rc : Int} (faithful : Faithful rc seen)
    (swallows : kind ≠ .attributes ∧ kind ≠ .size) : Candid kind rc seen := by
  refine iff_of_true faithful ?_
  cases kind with
  | attributes => exact absurd rfl swallows.1
  | size => exact absurd rfl swallows.2
  | _ => trivial

theorem made_iff : seen = made ↔ seen.accepted = true ∧ seen.refused = false := by
  cases seen
  simp [made]

theorem candid_attributes {rc : Int} (told : rc = noError ↔ seen.accepted = true) :
    Candid .attributes rc seen := by
  unfold Candid Faithful ChangeSeen.Sound
  rw [told, made_iff]
  cases seen.accepted <;> cases seen.refused <;> decide

theorem candid_size {rc : Int}
    (told : if rc = noError then seen.accepted = !seen.refused else seen = {}) :
    Candid .size rc seen := by
  unfold Candid Faithful ChangeSeen.Sound
  rw [made_iff]
  split at told
  · rename_i zero
    rw [told]
    cases seen.refused <;> simp [zero]
  · rename_i failed
    rw [told]
    simp [failed]

theorem candid_onPath {szPath : CString} {act : Session → CString → Program Int}
    (candid : ∀ t path, (changeWatch kind).Ensures (Candid kind) (act t path) {}) :
    (changeWatch kind).Ensures (fun answer later => Candid kind answer.1 later)
      (onPath ph s szPath act) {} := by
  apply (quiet_of_unchanging (unchanging_pathparser ph s szPath)).bind
  rintro ⟨rc, t, path⟩ _ rfl
  simp only
  split
  · rename_i failed
    exact candid_failed failed
  · apply (candid t path).bind
    intro _ _ after
    exact after

theorem candid_guarded {program : Program (Int × Session)}
    (candid : (changeWatch kind).Ensures (fun answer later => Candid kind answer.1 later)
      program {}) :
    (changeWatch kind).Ensures (fun answer later => Candid kind answer.1 later)
      (guarded (fun rcLock => (rcLock, s)) program) {} := by
  apply ensures_guarded
  · exact fun rcLock failed _ => candid_failed failed
  · exact fun _ => candid.mono fun _ _ after _ => after

theorem candid_wrapped {cli : Option Handle} {ask : Request Bool}
    (asks : ∀ used ok, changeAnswer ⟨.request used ask, ok⟩ = some (kind, ok))
    (swallows : kind ≠ .attributes ∧ kind ≠ .size) :
    (changeWatch kind).Ensures (Candid kind) (wrapped cli fun cli => askServer cli ask) {} :=
  (faithful_wrapped asks rfl).mono fun _ _ faithful => candid_of_faithful faithful swallows

theorem candid_smbwrpSetattr (cli : Option Handle) (finfo : SmbwrpFileinfo) :
    (changeWatch .attributes).Ensures (Candid .attributes) (smbwrpSetattr cli finfo) {} :=
  (ensures_smbwrpSetattr finfo).mono fun _ _ => candid_attributes

theorem moveTarget_error {szSrc szDst src : CString} {rc : Int}
    (refused : moveTarget ph szSrc szDst src = some (.error rc)) : rc = errorWriteProtect := by
  simp only [moveTarget] at refused
  split at refused
  · split at refused
    · split at refused
      · cases refused
      · cases refused
    · cases refused
      rfl
  · cases refused

theorem candid_renameOn (szSrc szDst : CString) (t : Session) (src : CString) :
    (changeWatch .name).Ensures (Candid .name) (renameOn ph szSrc szDst t src) {} := by
  unfold renameOn
  split
  · trivial
  · rename_i rc refused
    apply candid_failed
    rw [moveTarget_error refused]
    decide
  · exact candid_wrapped (fun _ _ => rfl) (by decide)

theorem candid_ndpCreateDir (szDirName : CString) (pFEAList : Option (List UInt8)) :
    (changeWatch .directory).Ensures (fun answer later => Candid .directory answer.1 later)
      (ndpCreateDir ph s szDirName pFEAList) {} := by
  apply ensures_enter
  · exact fun rcLock failed _ => candid_failed failed
  · intro _
    have dir : (changeWatch .directory).Ensures (fun answer later => Faithful answer.1 later)
        (makeDir ph (s.invalidateParent ph szDirName) szDirName) {} := by
      apply (quiet_of_unchanging (unchanging_pathparser ph _ szDirName)).bind
      rintro ⟨rc, t, path⟩ _ rfl
      simp only
      split
      · rename_i failed
        exact faithful_of_ne failed
      · apply (faithful_wrapped (fun _ _ => rfl) rfl).bind
        intro _ _ after
        exact after
    apply dir.bind
    rintro ⟨rc, t, path⟩ later faithful
    refine Watch.ensures_perform_bind.mpr fun _ _ => ?_
    have candid : Candid .directory (if rc ≠ 0 then errorNetworkAccessDenied else rc) later := by
      refine candid_of_faithful ?_ (by decide)
      split
      · exact faithful_of_ne (by decide)
      · exact faithful
    simp only [setDirEas]
    split
    · have quiet : (helperEASet t.pConn.cli pFEAList path).Only (Op.Unchanging .directory) :=
        (setsEas_helperEASet pFEAList path).mono fun _ _ sets => sets.unchanging (by decide)
      apply (quiet_of_unchanging quiet).bind
      rintro _ _ rfl
      exact candid
    · exact candid

theorem faithful_openPath (szFileName : CString) (flags ulOpenMode ulAttribute : UInt32) :
    (changeWatch .file).Ensures (fun answer later => Faithful answer.1 later)
      (openPath ph s szFileName flags ulOpenMode ulAttribute) {} := by
  unfold openPath
  split
  · exact faithful_of_ne (by decide : errorTooManyOpenFiles ≠ noError)
  · apply (quiet_of_unchanging (unchanging_pathparser ph s szFileName)).bind
    rintro ⟨rc, t, path⟩ _ rfl
    simp only
    split
    · rename_i failed
      exact faithful_of_ne failed
    · apply (faithful_smbwrpOpen _ rfl).bind
      intro _ _ after
      exact after

theorem candid_smbopen (szFileName : CString) (flags ulOpenMode ulAttribute : UInt32)
    (pFEAList : Option (List UInt8)) :
    (changeWatch .file).Ensures (fun answer later => Candid .file answer.1 later)
      (smbopen ph s szFileName flags ulOpenMode ulAttribute pFEAList) {} := by
  apply candid_guarded
  apply (faithful_openPath szFileName flags ulOpenMode ulAttribute).bind
  rintro ⟨rc, t⟩ later faithful
  have eas : (easOnOpen rc t pFEAList).Only (Op.Unchanging .file) := by
    unfold easOnOpen
    split
    · refine Prog.Only.bind ?_ fun _ => trivial
      exact (setsEas_ndpFileEASet t pFEAList).mono fun _ _ sets => sets.unchanging (by decide)
    · trivial
  apply (quiet_of_unchanging eas).bind
  rintro _ _ rfl
  exact candid_of_faithful faithful (by decide)

theorem candid_ndpFileNewSizeL (llLen : Int) :
    (changeWatch .size).Ensures (Candid .size) (ndpFileNewSizeL s llLen) {} := by
  apply ensures_guarded
  · exact fun rcLock failed _ => candid_failed failed
  · intro _
    split
    · exact fun _ => candid_failed (by decide)
    · exact (ensures_smbwrpSetfilesize _ _).mono fun _ _ told _ => candid_size told

theorem candid_ndpFileWrite (pBuffer : Option (List UInt8)) :
    (changeWatch .data).Ensures (fun answer later => Candid .data answer.1 later)
      (ndpFileWrite ph s pBuffer) {} := by
  apply ensures_guarded
  · exact fun rcLock failed _ => candid_failed failed
  · intro _
    unfold writeOpen
    split
    · exact fun _ => candid_failed (by decide : errorInvalidHandle ≠ noError)
    · apply (faithful_smbwrpWrite _ _ rfl).bind
      rintro ⟨rc, file, done⟩ later faithful _
      exact candid_of_faithful faithful (by decide)

theorem candid_ndpEASet (pFEAList : Option (List UInt8)) :
    (changeWatch .pathEas).Ensures (Candid .pathEas) (ndpEASet s pFEAList) {} := by
  unfold ndpEASet
  split
  · exact candid_failed (by decide)
  · have data : (pluginData).Only (Op.Unchanging .pathEas) := by
      refine Prog.only_perform_bind.mpr ⟨by intro reply ok; simp [changeAnswer], ?_⟩
      rintro ⟨rc, fdata⟩
      simp only
      split <;> trivial
    apply (quiet_of_unchanging data).bind
    rintro fdata _ rfl
    cases fdata with
    | none => exact candid_failed (by decide)
    | some finfo =>
        apply (faithful_helperEASet _ _ _ rfl).bind
        intro rc later faithful
        refine candid_of_faithful ?_ (by decide)
        split
        · exact faithful_of_ne (by decide)
        · exact faithful

theorem candid_call {call : SessionCall} (changes : call.change = some kind)
    (now : kind ≠ .deferred) :
    (changeWatch kind).Ensures (fun answer later => Candid kind answer.1 later) (call.run ph s)
      {} := by
  have keeping {program : Program Int}
      (candid : (changeWatch kind).Ensures (Candid kind) program {}) :
      (changeWatch kind).Ensures (fun answer later => Candid kind answer.1 later)
        (keeping s program) {} :=
    Watch.ensures_bind.mpr (candid.mono fun _ _ after => after)
  cases call with
  | setPathInfo =>
      cases changes
      exact candid_guarded (candid_onPath fun _ _ => candid_smbwrpSetattr _ _)
  | setFileAttribute =>
      cases changes
      exact candid_guarded (candid_onPath fun _ _ => candid_smbwrpSetattr _ _)
  | forceDelete =>
      cases changes
      exact candid_guarded (candid_onPath fun _ _ => candid_wrapped (fun _ _ => rfl) (by decide))
  | createDir =>
      cases changes
      exact candid_ndpCreateDir _ _
  | deleteDir =>
      cases changes
      exact candid_guarded (candid_onPath fun _ _ => candid_wrapped (fun _ _ => rfl) (by decide))
  | move | rename | changeCase =>
      cases changes
      exact candid_guarded (candid_onPath fun _ _ => candid_renameOn _ _ _ _)
  | openReplace | openReplaceL | openCreate | openCreateL | openExisting =>
      cases changes
      exact candid_smbopen _ _ _ _ _
  | fileWrite =>
      cases changes
      apply (candid_ndpFileWrite _).bind
      intro _ _ after
      exact after
  | fileNewSize | fileNewSizeL =>
      cases changes
      exact keeping (candid_ndpFileNewSizeL _)
  | fileSetInfo =>
      cases changes
      exact absurd rfl now
  | eaSet =>
      cases changes
      exact keeping (candid_ndpEASet _)
  | fileEASet =>
      cases changes
      exact keeping ((faithful_ndpFileEASet s _ rfl).mono
        fun _ _ faithful => candid_of_faithful faithful (by decide))
  | _ => cases changes

def changesSeen (kind : ServerChange) (exchanged : List CallEvent) : ChangeSeen :=
  (changeWatch kind).after {} exchanged

theorem accepted_seen :
    (changesSeen kind exchanged).accepted = true ↔ ChangeAnswered kind true exchanged := by
  rw [changesSeen, accepted_after]
  simp

theorem refused_seen :
    (changesSeen kind exchanged).refused = false ↔ ¬ ChangeAnswered kind false exchanged := by
  rw [← Bool.not_eq_true, changesSeen, refused_after]
  simp

theorem sound_iff (now : kind ≠ .deferred) :
    (changesSeen kind exchanged).Sound kind ↔ NothingSwallowed s exchanged kind := by
  cases kind with
  | attributes =>
      unfold ChangeSeen.Sound NothingSwallowed
      rw [accepted_seen, ← Bool.not_eq_false, refused_seen, not_not]
  | size => exact refused_seen
  | deferred => exact absurd rfl now
  | _ => exact Iff.rfl

theorem accepted_iff {call : SessionCall} (changes : call.change = some kind)
    (now : kind ≠ .deferred) :
    Accepted ph s exchanged t kind call ↔
      (ChangeAnswered kind true exchanged ∧ ¬ ChangeAnswered kind false exchanged) ∧
        (call.worksOnFile = true → 0 ≤ s.pConn.file.fd) := by
  cases call with
  | fileSetInfo =>
      cases changes
      exact absurd rfl now
  | _ => exact Iff.rfl

/-! The file that a call works on. -/

theorem refused_closed {work : Program Int} (closed : s.pConn.file.fd < 0) :
    (guarded id (if s.pConn.file.fd < 0 then pure errorInvalidHandle else work)).Returns
      fun rc => rc ≠ noError := by
  rw [if_pos closed]
  apply returns_guarded
  · exact fun rcLock failed => failed
  · exact (by decide : errorInvalidHandle ≠ noError)

theorem failed_ndpFileEASet (pFEAList : Option (List UInt8)) (closed : s.pConn.file.fd < 0) :
    (ndpFileEASet s pFEAList).Returns fun rc => rc ≠ noError := by
  cases pFEAList with
  | none => exact (by decide : errorEasNotSupported ≠ noError)
  | some list =>
      refine Prog.returns_bind.mpr (Prog.returns_of_forall fun cbList => ?_)
      split
      · exact (by decide : errorEasNotSupported ≠ noError)
      · split
        · exact (by decide : errorEasNotSupported ≠ noError)
        · exact refused_closed closed

theorem valid_call {call : SessionCall} {rc : Int} (changes : call.change = some kind)
    (now : kind ≠ .deferred) (works : call.worksOnFile = true)
    (run : Run (call.run ph s) exchanged (some (rc, t))) (zero : rc = noError) :
    0 ≤ s.pConn.file.fd := by
  by_contra negative
  have closed : s.pConn.file.fd < 0 := by omega
  have failed : (call.run ph s).Returns fun answer => answer.1 ≠ noError := by
    cases call with
    | fileEASet pFEAList =>
        exact Prog.returns_bind.mpr ((failed_ndpFileEASet pFEAList closed).mono fun _ failed => failed)
    | fileNewSize ulLen =>
        exact Prog.returns_bind.mpr ((refused_closed closed).mono fun _ failed => failed)
    | fileNewSizeL llLen =>
        exact Prog.returns_bind.mpr ((refused_closed closed).mono fun _ failed => failed)
    | fileWrite pBuffer =>
        apply Prog.returns_bind.mpr
        apply returns_guarded
        · exact fun rcLock failed => failed
        · rw [writeOpen, if_pos (show (s.invalidateParent ph _).pConn.file.fd < 0 from closed)]
          exact (by decide : errorInvalidHandle ≠ noError)
    | fileSetInfo stat =>
        cases changes
        exact absurd rfl now
    | fileQueryInfo | fileSetFilePtrL | fileSetFilePtr | fileClose | fileRead => cases changes
    | _ => cases works
  exact failed.run run zero

theorem run_guarded_pure {α : Type} {refused : Int → α} {answer value : α}
    (run : Run (guarded refused (pure answer)) exchanged (some value)) :
    MutexGranted exchanged ∧ value = answer ∨
      ¬ MutexGranted exchanged ∧ ∃ rcLock ≠ 0, value = refused rcLock := by
  cases run with
  | @call _ _ _ rcLock trace _ run =>
      have entered : Run (if rcLock ≠ 0 then pure (refused rcLock) else leave >>= fun _ =>
        pure answer) trace (some value) := run
      split at entered
      · rename_i failed
        cases entered
        refine .inr ⟨fun granted => failed ?_, rcLock, failed, rfl⟩
        exact granted_requestMutex.mp (granted _ List.mem_cons_self)
      · rename_i zero
        obtain rfl : rcLock = 0 := not_not.mp zero
        cases entered with
        | call left =>
            cases left
            refine .inl ⟨?_, rfl⟩
            intro event member
            rcases List.mem_pair.mp member with rfl | rfl
            · exact granted_requestMutex.mpr rfl
            · simp [Granted, mutexReply]

theorem ndpFileSetInfo_eq (ph : Platform) (s : Session) (stat : Filestatus3L) :
    ∃ u : Session, ndpFileSetInfo ph s stat =
        guarded (fun rcLock => (rcLock, s)) (pure (noError, u)) ∧
      (s.HasFile → u.pConn.file = { s.pConn.file with
        openattr := stat.attrFile
        mtime := fsphDosDateToUnixTime ph stat.fdateLastWrite stat.ftimeLastWrite
        updatetime := 2 }) := by
  unfold ndpFileSetInfo
  split
  · rename_i closed
    refine ⟨_, rfl, fun file => ?_⟩
    rcases closed with closed | nameless
    · exact absurd file.1 (by omega)
    · exact absurd nameless file.2
  · exact ⟨_, rfl, fun _ => rfl⟩

end Calls

/-- A call that reports success has made the change it was asked for exactly where nothing is
swallowed on the way up: the refusal of a size, the refusal of attributes that are then accepted
without the time, and that there is no file whose attributes could be deferred. -/
theorem success_accepted_iff {ph : Platform} {s t : Session} {call : SessionCall}
    {kind : ServerChange} {exchanged : List CallEvent} {rc : Int}
    (changes : call.change = some kind) (tells : ∀ event ∈ exchanged, TellsErrno event)
    (run : Run (call.run ph s) exchanged (some (rc, t))) :
    (rc = noError → Accepted ph s exchanged t kind call) ↔ NothingSwallowed s exchanged kind := by
  by_cases later : kind = .deferred
  · obtain ⟨stat, rfl⟩ : ∃ stat, call = .fileSetInfo stat := by
      subst later
      cases call with
      | fileSetInfo stat => exact ⟨stat, rfl⟩
      | _ => cases changes
    subst later
    obtain ⟨u, same, recorded⟩ := ndpFileSetInfo_eq ph s stat
    change Run (ndpFileSetInfo ph s stat) exchanged (some (rc, t)) at run
    rw [same] at run
    rcases run_guarded_pure run with ⟨granted, answer⟩ | ⟨refused, rcLock, failed, answer⟩
    · cases answer
      constructor
      · exact fun accepted _ => (accepted rfl).1
      · intro file _
        exact ⟨file granted, recorded (file granted)⟩
    · cases answer
      exact iff_of_true (fun zero => absurd zero failed) fun granted => absurd granted refused
  · have candid : Candid kind rc (changesSeen kind exchanged) :=
      (candid_call changes later).run run
        (Watch.admits_of_forall _ fun event member _ => tells event member)
    unfold Candid at candid
    have valid := fun works zero => valid_call changes later works run zero
    rw [accepted_iff changes later, ← sound_iff later, ← candid, Faithful, made_iff, accepted_seen,
      refused_seen]
    constructor
    · exact fun accepted zero => (accepted zero).1
    · exact fun faithful zero => ⟨faithful zero, fun works => valid works zero⟩

theorem success_accepted_iff_deleted :
    (noError = noError → Accepted asciiPlatform freshSession
      (callRun 0 true 5 (.forceDelete (bytes "\\F")) freshSession).1 freshSession .noFile
      (.forceDelete (bytes "\\F"))) ↔
    NothingSwallowed freshSession
      (callRun 0 true 5 (.forceDelete (bytes "\\F")) freshSession).1 .noFile := by
  have outcome : (callRun 0 true 5 (.forceDelete (bytes "\\F")) freshSession).2 =
      some (noError, freshSession) := by decide
  exact success_accepted_iff rfl (by decide) (outcome ▸ run_exec _ _ _)

def refusing : (R : Type) → Op R → R
  | _, .request _ (.cliFtruncate ..) => false
  | _, .request _ (.cliSetatr _ _ mtime) => mtime = 0
  | _, .request _ .cliErrno => 13
  | _, op => op.usual

def clockPlatform : Platform := { asciiPlatform with mktime := fun _ => 1 }

def plainStatus : Filestatus3L := findStatus clockPlatform {}

def Swallows (s : Session) (kind : ServerChange) (call : SessionCall) : Prop :=
  ∃ exchanged t, Run (call.run clockPlatform s) exchanged (some (noError, t)) ∧
    (∀ event ∈ exchanged, TellsErrno event) ∧ ¬ Accepted clockPlatform s exchanged t kind call

theorem swallows_of_exec {s : Session} (t : Session) {kind : ServerChange} {call : SessionCall}
    (outcome : (exec (fun _ => refusing) 0 (call.run clockPlatform s)).2 = some (noError, t))
    (tells : ∀ event ∈ (exec (fun _ => refusing) 0 (call.run clockPlatform s)).1, TellsErrno event)
    (lost : ¬ Accepted clockPlatform s (exec (fun _ => refusing) 0 (call.run clockPlatform s)).1 t
      kind call) : Swallows s kind call :=
  ⟨_, t, outcome ▸ run_exec _ _ _, tells, lost⟩

/-- A size that is refused, attributes for no file, and a time that is refused. -/
theorem changes_swallowed :
    Swallows (leftBy 0 true 5 openF freshSession) .size (.fileNewSizeL 0) ∧
      Swallows freshSession .deferred (.fileSetInfo plainStatus) ∧
      Swallows freshSession .attributes (.setPathInfo plainStatus (bytes "\\F")) := by
  refine ⟨?_, ?_, ?_⟩
  · apply swallows_of_exec (leftBy 0 true 5 openF freshSession) (by decide) (by decide)
    exact fun accepted => absurd accepted.1.2 (by decide)
  · apply swallows_of_exec freshSession (by decide) (by decide)
    exact fun accepted => absurd accepted.1 (by decide)
  · apply swallows_of_exec freshSession (by decide) (by decide)
    exact fun accepted => absurd accepted.1.2 (by decide)

end NdpSmb
