import NdpSmb.CreateEas
import NdpSmb.FindRequest
import NdpSmb.MountKept
import NdpSmb.ReadingCalls

/-!
What the calls change on the servers: at most one change a call, to the file that its path or its
Connection names, and the extended attributes of a list.
-/

namespace NdpSmb

open ByteString Interaction

def AtMostOnce (edit : Edit) (made : List (Edit × Bool)) : Prop :=
  made = [] ∨ ∃ ok, made = [(edit, ok)]

def EachOf (wanted : Edit → Prop) (made : List (Edit × Bool)) : Prop := ∀ one ∈ made, wanted one.1

/-- Without the time only where the server has refused to set it too. -/
def SetsAttributes (fname : CString) (attr mtime : UInt32) (made : List (Edit × Bool)) : Prop :=
  made = [] ∨ made = [(.setAttributes fname attr mtime, true)] ∨
    ∃ ok, made = [(.setAttributes fname attr mtime, false), (.setAttributes fname attr 0, ok)]

def SetsPathEa (fname : CString) : Edit → Prop
  | .setPathEa path .. => path = fname
  | _ => False

def SetsFileEa (fd : Int) : Edit → Prop
  | .setFileEa number .. => number = fd
  | _ => False

def SetsEas (eas : Edit → Prop) (asked : Prop) (made : List (Edit × Bool)) : Prop :=
  EachOf eas made ∧ (made ≠ [] → asked)

def OnceWithEas (edit : Edit) (eas : Edit → Prop) (asked : Prop) (made : List (Edit × Bool)) :
    Prop :=
  ∃ first rest, made = first ++ rest ∧ AtMostOnce edit first ∧ SetsEas eas asked rest

def MovesTo (ph : Platform) (szSrc szDst src : CString) (made : List (Edit × Bool)) : Prop :=
  made = [] ∨ ∃ newname ok,
    moveTarget ph szSrc szDst src = some (.ok newname) ∧ made = [(.rename src newname, ok)]

/-- The times that are set when the file is closed; a written file gets the time of the clock. -/
def ClosesWith (file closed : SmbwrpFile) (trace : List CallEvent) : Prop :=
  if file.updatetime = 1 then
    ∃ now, ⟨.time, now⟩ ∈ trace ∧
      closed = { file with btime := 0, mtime := now, atime := 0, ctime := 0 }
  else closed = file

def SetsTimes (closed : SmbwrpFile) (made : List (Edit × Bool)) : Prop :=
  ∃ ok, made =
    [(.setTimes closed.fname closed.btime closed.atime closed.mtime closed.ctime closed.openattr,
      ok)]

def SetsOnClose (file : SmbwrpFile) (trace : List CallEvent) : Prop :=
  edits trace = [] ∨ ∃ closed, ClosesWith file closed trace ∧ SetsTimes closed (edits trace)

def Writes (file : SmbwrpFile) (pBuffer : Option (List UInt8)) (made : List (Edit × Bool)) : Prop :=
  made = [] ∨ ∃ buffer ok, pBuffer = some buffer ∧ made = [(.write file.fd buffer file.offset, ok)]

/-- A share mode that is not known counts as the weakest. -/
def knownShare (denymode : UInt32) : UInt32 :=
  if denymode < denyAll ∨ denymode > denyNone then denyNone else denymode

/-- The path on the server, as it is stored for one request. -/
def Resource.askedName (pRes : Resource) (szPath : CString) : CString :=
  (pRes.askedPath szPath).take 260

def EasAsked (pRes : Resource) (pFEAList : Option (List UInt8)) : Prop :=
  pRes.easupport ≠ 0 ∧ pFEAList ≠ none

def ToldFile (fname : CString) (trace : List CallEvent) : Prop :=
  ∃ finfo, ⟨.fsphGetFileInfoData, (0, some finfo)⟩ ∈ trace ∧ finfo.fname = fname

def SetsToldEas (pRes : Resource) (pFEAList : Option (List UInt8)) (trace : List CallEvent) :
    Prop :=
  edits trace = [] ∨ ∃ fname, ToldFile fname trace ∧
    SetsEas (SetsPathEa fname) (EasAsked pRes pFEAList) (edits trace)

def openRequest (pRes : Resource) (flags : UInt32) (szFileName : CString) (ulOpenMode : UInt32) :
    Request (Option UInt16) :=
  .cliOpen (pRes.askedName szFileName) (flags ||| oBinary ||| accessFlags ulOpenMode)
    (knownShare ((ulOpenMode &&& 0x70) >>> 4))

/-- The number that the server gave for the file, or the one that was there before, should a
server be asked for an error number and have none behind a refusal. -/
def OpenedAs (ask : Request (Option UInt16)) (old fd : Int) (trace : List CallEvent) : Prop :=
  (∃ cli number, ⟨.request cli ask, some number⟩ ∈ trace ∧ fd = number.toNat) ∨
    fd = old ∧ ∃ event ∈ trace, ¬ TellsErrno event

def creation (pRes : Resource) (flags : UInt32) (szFileName : CString) (ulOpenMode : UInt32) :
    Edit :=
  .create (pRes.askedName szFileName) (flags ||| oBinary ||| accessFlags ulOpenMode)
    (knownShare ((ulOpenMode &&& 0x70) >>> 4))

def OpensWith (pRes : Resource) (file : SmbwrpFile) (flags : UInt32) (szFileName : CString)
    (ulOpenMode : UInt32) (pFEAList : Option (List UInt8)) (trace : List CallEvent) : Prop :=
  AtMostOnce (creation pRes flags szFileName ulOpenMode) (edits trace) ∨
    ∃ fd, OpenedAs (openRequest pRes flags szFileName ulOpenMode) file.fd fd trace ∧
      OnceWithEas (creation pRes flags szFileName ulOpenMode) (SetsFileEa fd)
        (EasAsked pRes pFEAList) (edits trace)

/-- The changes that a call may ask for, with the file that is open on its Connection. -/
def SessionCall.Edits (ph : Platform) (pRes : Resource) (file : SmbwrpFile) :
    SessionCall → List CallEvent → Prop
  | .setPathInfo stat szPathName => Edited (SetsAttributes (pRes.askedName szPathName)
      (stat.attrFile &&& attrMask)
      (fsphDosDateToUnixTime ph stat.fdateLastWrite stat.ftimeLastWrite))
  | .setFileAttribute szFileName usAttr =>
      Edited (SetsAttributes (pRes.askedName szFileName) (usAttr &&& attrMask) 0)
  | .forceDelete szFile => Edited (AtMostOnce (.unlink (pRes.askedPath szFile) (aSystem ||| aHidden)))
  | .deleteDir szDir => Edited (AtMostOnce (.rmdir (pRes.askedPath szDir)))
  | .createDir szDirName pFEAList => Edited (OnceWithEas (.mkdir (pRes.askedPath szDirName))
      (SetsPathEa (pRes.askedPath szDirName)) (EasAsked pRes pFEAList))
  | .move szDst szSrc => Edited (MovesTo ph szSrc szDst (pRes.askedPath szSrc))
  | .rename szDst szSrc => Edited (MovesTo ph szSrc szDst (pRes.askedPath szSrc))
  | .changeCase szDst szSrc => Edited (MovesTo ph szSrc szDst (pRes.askedPath szSrc))
  | .eaSet pFEAList => SetsToldEas pRes pFEAList
  | .openReplace szFileName ulOpenMode _ pFEAList =>
      OpensWith pRes file oTrunc szFileName ulOpenMode pFEAList
  | .openReplaceL szFileName ulOpenMode _ pFEAList =>
      OpensWith pRes file oTrunc szFileName ulOpenMode pFEAList
  | .openCreate szFileName ulOpenMode _ pFEAList =>
      OpensWith pRes file (oCreat ||| oExcl) szFileName ulOpenMode pFEAList
  | .openCreateL szFileName ulOpenMode _ pFEAList =>
      OpensWith pRes file (oCreat ||| oExcl) szFileName ulOpenMode pFEAList
  | .fileEASet pFEAList => Edited (SetsEas (SetsFileEa file.fd) (EasAsked pRes pFEAList))
  | .fileClose => SetsOnClose file
  | .fileNewSize ulLen => Edited (AtMostOnce (.resize file.fd ulLen.toNat))
  | .fileNewSizeL llLen => Edited (AtMostOnce (.resize file.fd llLen))
  | .fileWrite pBuffer => Edited (Writes file pBuffer)
  | _ => Edited (· = [])

/-! The wrappers. -/

section Wrappers

variable {α : Type} {post : List (Edit × Bool) → Prop} {cli : Option Handle}

def Op.Makes (wanted : Edit → Prop) (R : Type) (op : Op R) : Prop :=
  ∀ edit ∈ op.edit, wanted edit

theorem Op.Reads.makes {wanted : Edit → Prop} {R : Type} {op : Op R} (reads : Op.Reads R op) :
    Op.Makes wanted R op := by
  intro edit member
  rw [reads] at member
  cases member

theorem edits_of_makes {wanted : Edit → Prop} {program : Program α}
    (makes : program.Only (Op.Makes wanted)) : Edits (EachOf wanted) program := by
  rintro trace outcome run one member
  obtain ⟨event, among, picked⟩ := List.mem_filterMap.mp member
  obtain ⟨edit, asked, rfl⟩ := Option.map_eq_some_iff.mp picked
  exact makes.run run event among edit asked

theorem edits_leave (answer : α) : Edits (· = []) (leave >>= fun _ => pure answer) :=
  edits_of_reads (reads_leave answer) rfl

section Frames

variable {shown : List CallEvent → Prop} (framed : Framed editOf shown)

include framed

theorem shows_enter {refused : Int → α} {body : Program α} (worked : body.Shows shown)
    (nothing : shown []) : (enter refused body).Shows shown := by
  have quiet : Edits (· = []) (perform Op.fsphRequestMutex) :=
    edits_of_reads ⟨rfl, fun _ => trivial⟩ rfl
  apply Prog.Shows.behind framed quiet _ nothing
  intro rcLock
  split
  · exact Prog.shows_ret nothing
  · exact worked

theorem shows_guarded {refused : Int → α} {work : Program α} (worked : work.Shows shown)
    (nothing : shown []) : (guarded refused work).Shows shown :=
  shows_enter framed (worked.before framed edits_leave) nothing

end Frames

theorem edits_enter {refused : Int → α} {body : Program α} (worked : Edits post body)
    (nothing : post []) : Edits post (enter refused body) :=
  shows_enter framed_emitting worked nothing

theorem edits_guarded {refused : Int → α} {work : Program α} (worked : Edits post work)
    (nothing : post []) : Edits post (guarded refused work) :=
  shows_guarded framed_emitting worked nothing

theorem edits_wrapped {edit : Edit} {ask : Request Bool} (asks : ask.edit = some edit) :
    Edits (AtMostOnce edit) (wrapped cli fun cli => askServer cli ask) := by
  cases cli with
  | none => exact Prog.emits_ret (.inl rfl)
  | some cli =>
      refine Prog.emits_perform_bind fun ok => edits_of_reads (reads_requestRc cli ok) ?_
      have picked :
          editOf ⟨.request cli ask, ok⟩ = some (edit, accepts ⟨.request cli ask, ok⟩) := by
        simp [editOf, Op.edit, asks]
      rw [picked]
      exact .inr ⟨_, rfl⟩

theorem edits_smbwrpSetattr (finfo : SmbwrpFileinfo) :
    Edits (SetsAttributes finfo.fname finfo.attr finfo.mtime) (smbwrpSetattr cli finfo) := by
  have none : SetsAttributes finfo.fname finfo.attr finfo.mtime [] := .inl rfl
  cases cli with
  | none => exact Prog.emits_ret none
  | some cli =>
      simp only [smbwrpSetattr]
      split
      · exact Prog.emits_ret none
      · refine Prog.emits_perform_bind fun first => ?_
        cases first with
        | true => exact Prog.emits_ret (.inr (.inl rfl))
        | false =>
            refine Prog.emits_perform_bind fun second => ?_
            exact edits_of_reads (reads_requestRc cli second) (.inr (.inr ⟨second, rfl⟩))

theorem shared_file (file : SmbwrpFile) :
    (if file.denymode < denyAll ∨ file.denymode > denyNone then { file with denymode := denyNone }
      else file) = { file with denymode := knownShare file.denymode } := by
  unfold knownShare
  split
  · rfl
  · rfl

theorem edits_smbwrpOpen (file : SmbwrpFile) :
    Edits (fun made =>
      AtMostOnce (.create file.fname file.openmode (knownShare file.denymode)) made ∧
      (file.openmode &&& (oCreat ||| oTrunc) = 0 → made = [])) (smbwrpOpen cli file) := by
  have none (edit : Edit) (plain : Prop) :
      AtMostOnce edit [] ∧ (plain → ([] : List (Edit × Bool)) = []) := ⟨.inl rfl, fun _ => rfl⟩
  cases cli with
  | none => exact Prog.emits_ret (none _ _)
  | some cli =>
      simp only [smbwrpOpen]
      split
      · exact Prog.emits_ret (none _ _)
      · rw [shared_file]
        refine Prog.emits_perform_bind fun opened => ?_
        have answered (ok : Bool) :
            AtMostOnce (.create file.fname file.openmode (knownShare file.denymode))
              (((Request.cliOpen file.fname file.openmode (knownShare file.denymode)).edit.map
                (·, ok)).toList ++ []) ∧
            (file.openmode &&& (oCreat ||| oTrunc) = 0 →
              ((Request.cliOpen file.fname file.openmode (knownShare file.denymode)).edit.map
                (·, ok)).toList ++ [] = []) := by
          by_cases plain : file.openmode &&& (oCreat ||| oTrunc) = 0
          · simp [Request.edit, plain, AtMostOnce]
          · simp [Request.edit, plain, AtMostOnce]
        cases opened with
        | none =>
            exact edits_of_reads ((reads_os2cliErrno cli).bind fun _ => trivial) (answered false)
        | some fd => exact Prog.emits_ret (answered true)

theorem ClosesWith.frame {file closed : SmbwrpFile} {trace : List CallEvent}
    (closes : ClosesWith file closed trace) (before behind : List CallEvent) :
    ClosesWith file closed (before ++ trace ++ behind) := by
  unfold ClosesWith at closes ⊢
  split at closes
  · rename_i written
    obtain ⟨now, told, same⟩ := closes
    rw [if_pos written]
    exact ⟨now, List.mem_append_left _ (List.mem_append_right _ told), same⟩
  · rename_i unwritten
    rwa [if_neg unwritten]

theorem framed_setsOnClose (file : SmbwrpFile) : Framed editOf (SetsOnClose file) := by
  have plain : Framed editOf (Edited (· = [])) := framed_emitting
  apply plain.or
  apply framed_exists
  intro closed before trace behind closes
  exact closes.frame before behind

theorem closesWith_of_run {file closed : SmbwrpFile} {trace : List CallEvent}
    (run : Run (closeTimes file) trace (some closed)) : ClosesWith file closed trace := by
  unfold closeTimes at run
  unfold ClosesWith
  split at run
  · rename_i written
    obtain ⟨now, rest, rfl, tail⟩ := run_call_iff.mp run
    obtain ⟨rfl, same⟩ := run_ret_iff.mp tail
    rw [if_pos written]
    exact ⟨now, List.mem_cons_self, Option.some.inj same⟩
  · rename_i unwritten
    obtain ⟨rfl, same⟩ := run_ret_iff.mp run
    rw [if_neg unwritten]
    exact Option.some.inj same

theorem edits_setTimes (cli : Handle) (closed : SmbwrpFile) :
    Edits (fun made => made = [] ∨ SetsTimes closed made) (do
      let ok ← askServer cli (.cliClose closed.fd)
      let rc ← requestRc cli ok
      setOnClose cli rc closed
      return (rc, { closed with
        openattr := 0, btime := 0, atime := 0, mtime := 0, ctime := 0, updatetime := 0
        fd := -1, offset := 0, fname := [] })) := by
  refine Prog.emits_perform_bind fun ok => ?_
  have asked : Edits (· = []) (requestRc cli ok) := edits_of_reads (reads_requestRc cli ok) rfl
  apply Prog.Shows.behind framed_emitting asked _ (.inl rfl)
  intro rc
  apply Prog.Shows.before framed_emitting _ fun _ => Prog.emits_ret rfl
  unfold setOnClose
  split
  · exact Prog.emits_perform_bind fun ok => Prog.emits_ret (.inr ⟨ok, rfl⟩)
  · exact Prog.emits_ret (.inl rfl)

theorem shows_smbwrpClose (cli : Option Handle) (file : SmbwrpFile) :
    (smbwrpClose cli file).Shows (SetsOnClose file) := by
  cases cli with
  | none => exact Prog.shows_ret (.inl rfl)
  | some cli =>
      have timed : (closeTimes file).Only Op.Reads := by
        unfold closeTimes
        split
        · exact ⟨rfl, fun _ => trivial⟩
        · trivial
      have quiet : Edits (· = []) (closeTimes file) := edits_of_reads timed rfl
      apply Prog.Shows.bind
      · intro trace crashed
        exact .inl (quiet trace _ crashed)
      · intro before closed run
        have times := closesWith_of_run run
        have silent : edits before = [] := quiet before _ run
        intro behind outcome tail
        have whole : edits (before ++ behind) = edits behind := by
          rw [edits_append, silent, List.nil_append]
        rcases edits_setTimes cli closed behind outcome tail with nothing | set
        · exact .inl (whole.trans nothing)
        · refine .inr ⟨closed, times.frame [] behind, ?_⟩
          rwa [whole]

theorem edits_smbwrpWrite (file : SmbwrpFile) (buffer : Option (List UInt8)) :
    Edits (Writes file buffer) (smbwrpWrite cli file buffer) := by
  have none : Writes file buffer [] := .inl rfl
  cases cli with
  | none => exact Prog.emits_ret none
  | some cli =>
      cases buffer with
      | none => exact Prog.emits_ret none
      | some buffer =>
          refine Prog.emits_perform_bind fun status => ?_
          have asked : Writes file (some buffer)
              [(.write file.fd buffer file.offset, Option.isSome status)] :=
            .inr ⟨buffer, _, rfl, rfl⟩
          cases status with
          | none => exact edits_of_reads ((reads_os2cliErrno cli).bind fun _ => trivial) asked
          | some ret => exact Prog.emits_ret asked

theorem edits_smbwrpSetfilesize (file : SmbwrpFile) (newsize : Int) :
    Edits (AtMostOnce (.resize file.fd newsize)) (smbwrpSetfilesize cli file newsize) := by
  cases cli with
  | none => exact Prog.emits_ret (.inl rfl)
  | some cli =>
      refine Prog.emits_perform_bind fun ok => ?_
      cases ok with
      | true => exact Prog.emits_ret (.inr ⟨true, rfl⟩)
      | false => exact Prog.emits_perform_bind fun _ => Prog.emits_ret (.inr ⟨false, rfl⟩)

theorem makes_wrapped {wanted : Edit → Prop} {edit : Edit} {ask : Request Bool}
    (asks : ask.edit = some edit) (wants : wanted edit) :
    (wrapped cli fun cli => askServer cli ask).Only (Op.Makes wanted) := by
  cases cli with
  | none => trivial
  | some cli =>
      refine Prog.only_perform_bind.mpr ⟨?_, fun ok => ?_⟩
      · intro other member
        rw [Op.edit, asks] at member
        obtain rfl := Option.mem_some.mp member
        exact wants
      · exact (reads_requestRc cli ok).mono fun _ _ => Op.Reads.makes

theorem makes_helperEASet (pFEAList : Option (List UInt8)) (path : CString) :
    (helperEASet cli pFEAList path).Only (Op.Makes (SetsPathEa path)) := by
  have mutex : ∀ edit ∈ (none : Option Edit), SetsPathEa path edit :=
    fun _ member => by cases member
  cases pFEAList with
  | none => trivial
  | some list =>
      refine Prog.Only.bind ((only_loadLong none .feaList list 0).mono fun _ _ served =>
        served.reads.makes) fun cbList => ?_
      split
      · trivial
      · apply only_guarded mutex mutex
        refine only_easetLoop list (fun _ _ served => served.reads.makes) ?_ _ _ _
        exact fun name value size => makes_wrapped rfl rfl

theorem makes_ndpFileEASet (s : Session) (pFEAList : Option (List UInt8)) :
    (ndpFileEASet s pFEAList).Only (Op.Makes (SetsFileEa s.pConn.file.fd)) := by
  have mutex : ∀ edit ∈ (none : Option Edit), SetsFileEa s.pConn.file.fd edit :=
    fun _ member => by cases member
  cases pFEAList with
  | none => trivial
  | some list =>
      refine Prog.Only.bind ((only_loadLong none .feaList list 0).mono fun _ _ served =>
        served.reads.makes) fun cbList => ?_
      split
      · trivial
      · split
        · trivial
        · apply only_guarded mutex mutex
          unfold setOpenEas
          split
          · trivial
          · refine only_easetLoop list (fun _ _ served => served.reads.makes) ?_ _ _ _
            exact fun name value size => makes_wrapped rfl rfl

theorem reads_ndpFileEASet {s : Session} {pFEAList : Option (List UInt8)}
    (unasked : ¬ EasAsked s.pRes pFEAList) : (ndpFileEASet s pFEAList).Only Op.Reads := by
  cases pFEAList with
  | none => trivial
  | some list =>
      have unsupported : s.pRes.easupport = 0 := by
        by_contra supported
        exact unasked ⟨supported, Option.some_ne_none list⟩
      refine Prog.Only.bind ((only_loadLong none .feaList list 0).mono fun _ _ => Op.ServedBy.reads)
        fun cbList => ?_
      split
      · trivial
      · trivial

theorem SetsEas.none {eas : Edit → Prop} {asked : Prop} : SetsEas eas asked [] :=
  ⟨fun _ member => absurd member List.not_mem_nil, fun some => absurd rfl some⟩

theorem edits_eas {wanted : Edit → Prop} {asked : Prop} {program : Program α}
    (makes : program.Only (Op.Makes wanted)) (unasked : ¬ asked → program.Only Op.Reads) :
    Edits (SetsEas wanted asked) program := by
  by_cases asks : asked
  · exact (edits_of_makes makes).mono fun _ each => ⟨each, fun _ => asks⟩
  · exact edits_of_reads (unasked asks) .none

end Wrappers

section Calls

variable {ph : Platform} {s : Session} {szPath : CString} {post : List (Edit × Bool) → Prop}

theorem returns_askedPath :
    (pathparser ph s szPath).Returns fun answer => answer.2.2 = s.pRes.askedPath szPath :=
  Prog.returns_iff_runs.mpr fun _ _ run => askedPath_of_run run

theorem edits_onPath {act : Session → CString → Program Int}
    (acted : ∀ t, Edits post (act t (s.pRes.askedPath szPath))) (nothing : post []) :
    Edits post (onPath ph s szPath act) := by
  have parsed : Edits (· = []) (pathparser ph s szPath) :=
    edits_of_reads (reads_pathparser szPath) rfl
  refine parsed.behind returns_askedPath ?_ nothing
  rintro ⟨rc, t, path⟩ rfl
  simp only
  split
  · exact Prog.emits_ret nothing
  · exact (acted t).before fun _ => Prog.emits_ret rfl

theorem edits_ndpMove (szDst szSrc : CString) :
    Edits (MovesTo ph szSrc szDst (s.pRes.askedPath szSrc)) (ndpMove ph s szDst szSrc) := by
  have none : MovesTo ph szSrc szDst (s.pRes.askedPath szSrc) [] := .inl rfl
  refine edits_guarded (edits_onPath (fun t => ?_) none) none
  unfold renameOn
  split
  · exact Prog.emits_fault none
  · exact Prog.emits_ret none
  · rename_i newname target
    refine (edits_wrapped rfl).mono ?_
    rintro made (rfl | ⟨ok, rfl⟩)
    · exact none
    · exact .inr ⟨newname, ok, target, rfl⟩

theorem OnceWithEas.none {edit : Edit} {eas : Edit → Prop} {asked : Prop} :
    OnceWithEas edit eas asked [] :=
  ⟨[], [], rfl, .inl rfl, .none⟩

theorem OnceWithEas.once {edit : Edit} {eas : Edit → Prop} {asked : Prop}
    {made : List (Edit × Bool)} (once : AtMostOnce edit made) : OnceWithEas edit eas asked made :=
  ⟨made, [], (List.append_nil _).symm, once, .none⟩

theorem edits_setDirEas (rc : Int) (path : CString) (pFEAList : Option (List UInt8)) :
    Edits (SetsEas (SetsPathEa path) (EasAsked s.pRes pFEAList))
      (setDirEas rc s path pFEAList) := by
  simp only [setDirEas]
  split
  · rename_i supported
    refine Prog.Emits.before (edits_eas (makes_helperEASet pFEAList path) fun unasked => ?_)
      fun _ => Prog.emits_ret rfl
    cases pFEAList with
    | none => trivial
    | some list => exact absurd ⟨supported, Option.some_ne_none list⟩ unasked
  · exact Prog.emits_ret .none

theorem edits_ndpCreateDir (szDirName : CString) (pFEAList : Option (List UInt8)) :
    Edits (OnceWithEas (.mkdir (s.pRes.askedPath szDirName))
      (SetsPathEa (s.pRes.askedPath szDirName)) (EasAsked s.pRes pFEAList))
      (ndpCreateDir ph s szDirName pFEAList) := by
  have made : Edits (AtMostOnce (.mkdir (s.pRes.askedPath szDirName)))
      (makeDir ph (s.invalidateParent ph szDirName) szDirName) := by
    refine Prog.Emits.behind (edits_of_reads (reads_pathparser szDirName) rfl) returns_askedPath ?_
      (.inl rfl)
    rintro ⟨rc, t, path⟩ rfl
    simp only
    split
    · exact Prog.emits_ret (.inl rfl)
    · exact (edits_wrapped rfl).before fun _ => Prog.emits_ret rfl
  have given : (makeDir ph (s.invalidateParent ph szDirName) szDirName).Returns fun answer =>
      answer.2.2 = s.pRes.askedPath szDirName ∧ answer.2.1.pRes.easupport = s.pRes.easupport := by
    refine Prog.returns_bind.mpr ((returns_askedPath.and (pathparser_session szDirName)).mono ?_)
    rintro ⟨rc, t, path⟩ ⟨rfl, parsed⟩
    have same := Session.Reparsed.easupport parsed
    simp only
    split
    · exact ⟨rfl, same⟩
    · exact Prog.returns_bind.mpr (Prog.returns_of_forall fun _ => ⟨rfl, same⟩)
  refine edits_enter (made.bind given ?_ (fun _ => .once) fun first rest once eas =>
    ⟨first, rest, rfl, once, eas⟩) .none
  rintro ⟨rc, t, path⟩ ⟨rfl, same⟩
  refine Prog.Emits.behind (edits_of_reads ⟨rfl, fun _ => trivial⟩ rfl)
    (Prog.returns_of_forall fun _ => trivial) (fun _ _ => ?_) .none
  refine (edits_setDirEas rc _ pFEAList).mono fun made set => ⟨set.1, fun some => ?_⟩
  obtain ⟨supported, given⟩ := set.2 some
  exact ⟨same ▸ supported, given⟩

theorem OpenedAs.frame {ask : Request (Option UInt16)} {old fd : Int} {trace : List CallEvent}
    (opened : OpenedAs ask old fd trace) (before behind : List CallEvent) :
    OpenedAs ask old fd (before ++ trace ++ behind) := by
  rcases opened with ⟨cli, number, member, given⟩ | ⟨same, event, member, untold⟩
  · exact .inl ⟨cli, number, List.mem_append_left _ (List.mem_append_right _ member), given⟩
  · exact .inr ⟨same, event, List.mem_append_left _ (List.mem_append_right _ member), untold⟩

theorem framed_opensWith (pRes : Resource) (file : SmbwrpFile) (flags : UInt32)
    (szFileName : CString) (ulOpenMode : UInt32) (pFEAList : Option (List UInt8)) :
    Framed editOf (OpensWith pRes file flags szFileName ulOpenMode pFEAList) := by
  have plain : Framed editOf (Edited (AtMostOnce (creation pRes flags szFileName ulOpenMode))) :=
    framed_emitting
  apply plain.or
  apply framed_exists
  intro fd before trace behind opened
  exact opened.frame before behind

theorem openedAs_of_run {cli : Option Handle} {file opened : SmbwrpFile} {trace : List CallEvent}
    (run : Run (smbwrpOpen cli file) trace (some (0, opened))) :
    OpenedAs (.cliOpen file.fname file.openmode (knownShare file.denymode)) file.fd opened.fd
      trace := by
  have failed : (0 : Int) ≠ maperror einval := by decide
  have refused (given : SmbwrpFile)
      (returned : Run (pure (maperror einval, given)) trace (some ((0 : Int), opened))) : False := by
    obtain ⟨-, same⟩ := run_ret_iff.mp returned
    exact failed (Prod.mk.inj (Option.some.inj same)).1
  cases cli with
  | none => exact (refused file run).elim
  | some cli =>
      simp only [smbwrpOpen] at run
      split at run
      · exact (refused file run).elim
      · rw [shared_file] at run
        obtain ⟨reply, rest, rfl, tail⟩ := run_call_iff.mp run
        cases reply with
        | none =>
            obtain ⟨errno, told, rfl, last⟩ := run_call_iff.mp tail
            obtain ⟨rfl, same⟩ := run_ret_iff.mp last
            obtain ⟨success, rfl⟩ := Prod.mk.inj (Option.some.inj same)
            refine .inr ⟨rfl, ⟨.request cli .cliErrno, errno⟩, by simp, fun tells => ?_⟩
            exact tells errno rfl success.symm
        | some number =>
            obtain ⟨rfl, same⟩ := run_ret_iff.mp tail
            obtain ⟨-, rfl⟩ := Prod.mk.inj (Option.some.inj same)
            exact .inl ⟨cli, number, List.mem_cons_self, rfl⟩

theorem edits_openPath (flags : UInt32) (szFileName : CString) (ulOpenMode ulAttribute : UInt32) :
    Edits (fun made => AtMostOnce (creation s.pRes flags szFileName ulOpenMode) made ∧
      ((flags ||| oBinary ||| accessFlags ulOpenMode) &&& (oCreat ||| oTrunc) = 0 → made = []))
      (openPath ph s szFileName flags ulOpenMode ulAttribute) := by
  have none (edit : Edit) (plain : Prop) :
      AtMostOnce edit [] ∧ (plain → ([] : List (Edit × Bool)) = []) := ⟨.inl rfl, fun _ => rfl⟩
  unfold openPath
  split
  · exact Prog.emits_ret (none _ _)
  · refine Prog.Emits.behind (edits_of_reads (reads_pathparser szFileName) rfl) returns_askedPath ?_
      (none _ _)
    rintro ⟨rc, t, path⟩ rfl
    simp only
    split
    · exact Prog.emits_ret (none _ _)
    · exact (edits_smbwrpOpen _).before fun _ => Prog.emits_ret rfl

theorem openPath_of_run {flags : UInt32} {szFileName : CString} {ulOpenMode ulAttribute : UInt32}
    {t : Session} {trace : List CallEvent}
    (run : Run (openPath ph s szFileName flags ulOpenMode ulAttribute) trace (some (0, t))) :
    OpenedAs (openRequest s.pRes flags szFileName ulOpenMode) s.pConn.file.fd t.pConn.file.fd
      trace := by
  have refused : errorTooManyOpenFiles ≠ 0 := by decide
  unfold openPath at run
  split at run
  · obtain ⟨-, same⟩ := run_ret_iff.mp run
    exact absurd (Prod.mk.inj (Option.some.inj same)).1.symm refused
  · obtain ⟨first, second, ⟨rc, u, path⟩, rfl, parsed, tail⟩ := run_bind_some_iff.mp run
    obtain rfl := askedPath_of_run parsed
    have kept : u.pConn.file = s.pConn.file := ((pathparser_moved szFileName).run parsed).file
    simp only at tail
    split at tail
    · rename_i failed
      obtain ⟨-, same⟩ := run_ret_iff.mp tail
      exact absurd (Prod.mk.inj (Option.some.inj same)).1.symm failed
    · obtain ⟨open_, rest, ⟨rcOpen, file⟩, rfl, asked, last⟩ := run_bind_some_iff.mp tail
      obtain ⟨rfl, same⟩ := run_ret_iff.mp last
      obtain ⟨rfl, rfl⟩ := Prod.mk.inj (Option.some.inj same)
      have opened := (openedAs_of_run asked).frame first []
      rw [List.append_assoc] at opened
      rw [← kept]
      exact opened

theorem easupport_openPath (t : Session) {flags : UInt32} {szFileName : CString}
    {ulOpenMode ulAttribute : UInt32} :
    (openPath ph t szFileName flags ulOpenMode ulAttribute).Returns
      fun answer => answer.2.pRes.easupport = t.pRes.easupport := by
  unfold openPath
  split
  · rfl
  · refine Prog.returns_bind.mpr ((pathparser_session szFileName).mono ?_)
    rintro ⟨rc, u, path⟩ parsed
    have same := Session.Reparsed.easupport parsed
    simp only
    split
    · exact same
    · exact Prog.returns_bind.mpr (Prog.returns_of_forall fun _ => same)

theorem shows_smbopen (flags : UInt32) (szFileName : CString) (ulOpenMode ulAttribute : UInt32)
    (pFEAList : Option (List UInt8)) :
    (smbopen ph s szFileName flags ulOpenMode ulAttribute pFEAList).Shows
      (OpensWith s.pRes s.pConn.file flags szFileName ulOpenMode pFEAList) := by
  apply shows_guarded (framed_opensWith _ _ _ _ _ _) _ (.inl (.inl rfl))
  generalize dropped : (if flags &&& oCreat ≠ 0 then s.invalidateParent ph szFileName else s) = u
  have same : u.pConn = s.pConn ∧ u.pRes.easupport = s.pRes.easupport ∧
      u.pRes.askedName szFileName = s.pRes.askedName szFileName := by
    rw [← dropped]
    split
    · exact ⟨rfl, rfl, rfl⟩
    · exact ⟨rfl, rfl, rfl⟩
  obtain ⟨sameConn, sameEas, sameName⟩ := same
  have once (trace : List CallEvent) (outcome : Option (Int × Session))
      (run : Run (openPath ph u szFileName flags ulOpenMode ulAttribute) trace outcome) :
      AtMostOnce (creation s.pRes flags szFileName ulOpenMode) (edits trace) := by
    have created := (edits_openPath flags szFileName ulOpenMode ulAttribute trace outcome run).1
    rwa [creation, sameName] at created
  apply Prog.Shows.bind
  · intro trace crashed
    exact .inl (once trace none crashed)
  · rintro before ⟨rc, t⟩ opened
    have created := once before _ opened
    by_cases set : rc = 0 ∧ pFEAList.isSome
    · obtain ⟨rfl, given⟩ := set
      have number := openPath_of_run opened
      rw [openRequest, sameName, sameConn] at number
      have supported : t.pRes.easupport = s.pRes.easupport :=
        ((easupport_openPath u).run opened).trans sameEas
      have eas : Edits (SetsEas (SetsFileEa t.pConn.file.fd) (EasAsked s.pRes pFEAList))
          (easOnOpen 0 t pFEAList >>= fun _ => pure ((0 : Int), t)) := by
        refine Prog.Emits.before ?_ fun _ => Prog.emits_ret rfl
        rw [easOnOpen, if_pos ⟨rfl, given⟩]
        refine Prog.Emits.before ?_ fun _ => Prog.emits_ret rfl
        have asked := edits_eas (makes_ndpFileEASet t pFEAList) reads_ndpFileEASet
        rwa [EasAsked, supported] at asked
      intro behind outcome tail
      refine .inr ⟨t.pConn.file.fd, number.frame [] behind, edits before, edits behind, ?_, created,
        eas behind outcome tail⟩
      exact edits_append _ _
    · have nothing : easOnOpen rc t pFEAList = pure () := if_neg set
      intro behind outcome tail
      simp only [nothing] at tail
      obtain ⟨rfl, -⟩ := run_ret_iff.mp tail
      rw [List.append_nil]
      exact .inl created

theorem edits_existing (szFileName : CString) (ulOpenMode : UInt32) :
    Edits (· = []) (ndpOpenExisting ph s szFileName ulOpenMode) := by
  have plain : (0 ||| oBinary ||| accessFlags ulOpenMode) &&& (oCreat ||| oTrunc) = 0 := by
    unfold accessFlags
    split
    · decide
    · decide
  refine edits_guarded ?_ rfl
  have opened : Edits (· = []) (openPath ph s szFileName 0 ulOpenMode 0) :=
    (edits_openPath 0 szFileName ulOpenMode 0).mono fun made once => once.2 plain
  refine opened.before ?_
  rintro ⟨rc, t⟩
  have nothing : easOnOpen rc t none = pure () := if_neg fun both => absurd both.2 Bool.noConfusion
  simp only [nothing]
  exact Prog.emits_ret rfl

theorem edits_keeping {program : Program Int} (kept : Edits post program) :
    Edits post (keeping s program) :=
  kept.before fun _ => Prog.emits_ret rfl

theorem edits_dropping {α : Type} {program : Program (Int × Session × α)}
    (kept : Edits post program) : Edits post (dropping program) :=
  kept.before fun _ => Prog.emits_ret rfl

theorem ToldFile.frame {fname : CString} {trace : List CallEvent} (told : ToldFile fname trace)
    (before behind : List CallEvent) : ToldFile fname (before ++ trace ++ behind) := by
  obtain ⟨finfo, member, named⟩ := told
  exact ⟨finfo, List.mem_append_left _ (List.mem_append_right _ member), named⟩

theorem framed_setsToldEas (pRes : Resource) (pFEAList : Option (List UInt8)) :
    Framed editOf (SetsToldEas pRes pFEAList) := by
  have plain : Framed editOf (Edited (· = [])) := framed_emitting
  apply plain.or
  apply framed_exists
  intro fname before trace behind told
  exact told.frame before behind

theorem toldFile_of_run {finfo : SmbwrpFileinfo} {trace : List CallEvent}
    (run : Run pluginData trace (some (some finfo))) : ToldFile finfo.fname trace := by
  obtain ⟨⟨rc, fdata⟩, rest, rfl, tail⟩ := run_call_iff.mp run
  change Run (if rc ≠ 0 then pure none else pure fdata) rest (some (some finfo)) at tail
  split at tail
  · obtain ⟨-, same⟩ := run_ret_iff.mp tail
    cases same
  · rename_i told
    obtain rfl : rc = 0 := not_not.mp told
    obtain ⟨rfl, same⟩ := run_ret_iff.mp tail
    obtain rfl := Option.some.inj same
    exact ⟨finfo, List.mem_cons_self, rfl⟩

theorem shows_ndpEASet (pFEAList : Option (List UInt8)) :
    (ndpEASet s pFEAList).Shows (SetsToldEas s.pRes pFEAList) := by
  have quiet : Edits (· = []) pluginData := edits_of_reads reads_pluginData rfl
  unfold ndpEASet
  split
  · exact Prog.shows_ret (.inl rfl)
  · rename_i supported
    apply Prog.Shows.bind
    · intro trace crashed
      exact .inl (quiet trace _ crashed)
    · rintro before (_ | finfo) run
      · intro behind outcome tail
        obtain ⟨rfl, -⟩ := run_ret_iff.mp tail
        left
        rw [List.append_nil]
        exact quiet before _ run
      · have told := toldFile_of_run run
        have asked (unasked : ¬ EasAsked s.pRes pFEAList) :
            (helperEASet s.pConn.cli pFEAList finfo.fname).Only Op.Reads := by
          cases pFEAList with
          | none => trivial
          | some list => exact absurd ⟨supported, Option.some_ne_none list⟩ unasked
        have set := edits_eas (makes_helperEASet pFEAList finfo.fname) asked
        intro behind outcome tail
        refine .inr ⟨finfo.fname, told.frame [] behind, ?_⟩
        have silent : edits before = [] := quiet before _ run
        rw [edits_append, silent]
        exact set.before (fun _ => Prog.emits_ret rfl) behind outcome tail

theorem shows_closeOpen : (closeOpen s).Shows (SetsOnClose s.pConn.file) := by
  unfold closeOpen
  split
  · exact Prog.shows_ret (.inl rfl)
  · have closed := shows_smbwrpClose s.pConn.cli s.pConn.file
    exact closed.before (framed_setsOnClose _) fun _ => Prog.emits_ret rfl

theorem edits_ndpFileNewSizeL (llLen : Int) :
    Edits (AtMostOnce (.resize s.pConn.file.fd llLen)) (ndpFileNewSizeL s llLen) := by
  refine edits_guarded ?_ (.inl rfl)
  split
  · exact Prog.emits_ret (.inl rfl)
  · exact edits_smbwrpSetfilesize _ llLen

theorem edits_ndpFileWrite (pBuffer : Option (List UInt8)) :
    Edits (Writes s.pConn.file pBuffer) (ndpFileWrite ph s pBuffer) := by
  refine edits_guarded ?_ (.inl rfl)
  unfold writeOpen
  split
  · exact Prog.emits_ret (.inl rfl)
  · exact (edits_smbwrpWrite _ pBuffer).before fun _ => Prog.emits_ret rfl

theorem shows_call (call : SessionCall) :
    (call.run ph s).Shows (call.Edits ph s.pRes s.pConn.file) := by
  cases call with
  | setPathInfo stat szPathName =>
      exact edits_guarded (edits_onPath (fun t => edits_smbwrpSetattr _) (.inl rfl)) (.inl rfl)
  | setFileAttribute szFileName usAttr =>
      exact edits_guarded (edits_onPath (fun t => edits_smbwrpSetattr _) (.inl rfl)) (.inl rfl)
  | forceDelete szFile =>
      exact edits_guarded (edits_onPath (fun t => edits_wrapped rfl) (.inl rfl)) (.inl rfl)
  | createDir szDirName pFEAList => exact edits_ndpCreateDir szDirName pFEAList
  | deleteDir szDir =>
      exact edits_guarded (edits_onPath (fun t => edits_wrapped rfl) (.inl rfl)) (.inl rfl)
  | move szDst szSrc => exact edits_ndpMove szDst szSrc
  | rename szDst szSrc => exact edits_ndpMove szDst szSrc
  | changeCase szDst szSrc => exact edits_ndpMove szDst szSrc
  | eaSet pFEAList =>
      exact (shows_ndpEASet pFEAList).before (framed_setsToldEas _ _) fun _ => Prog.shows_ret rfl
  | openReplace => exact shows_smbopen _ _ _ _ _
  | openReplaceL => exact shows_smbopen _ _ _ _ _
  | openCreate => exact shows_smbopen _ _ _ _ _
  | openCreateL => exact shows_smbopen _ _ _ _ _
  | openExisting szFileName ulOpenMode => exact edits_existing szFileName ulOpenMode
  | fileEASet pFEAList =>
      exact edits_keeping (edits_eas (makes_ndpFileEASet s pFEAList) reads_ndpFileEASet)
  | fileSetInfo stat =>
      have reads : (ndpFileSetInfo ph s stat).Only Op.Reads := by
        apply reads_guarded
        split
        · trivial
        · trivial
      have unchanged : Edits (· = []) (ndpFileSetInfo ph s stat) := edits_of_reads reads rfl
      exact unchanged
  | fileClose => exact shows_guarded (framed_setsOnClose _) shows_closeOpen (.inl rfl)
  | fileNewSize ulLen => exact edits_keeping (edits_ndpFileNewSizeL ulLen.toNat)
  | fileNewSizeL llLen => exact edits_keeping (edits_ndpFileNewSizeL llLen)
  | fileWrite pBuffer => exact edits_dropping (edits_ndpFileWrite pBuffer)
  | queryPathInfo | findStart | setCurrentDir | eaQuery | eaSize => exact edits_reading _ rfl
  | fileQueryInfo | fileEAQuery | fileEASize => exact edits_reading _ rfl
  | fileSetFilePtrL | fileSetFilePtr | fileRead => exact edits_reading _ rfl
  | copy | copy2 | move2 | refresh | fileCommit => exact edits_reading _ rfl

end Calls

/-! Every call of every run. -/

def Edit.setsEa : Edit → Bool
  | .setPathEa .. | .setFileEa .. => true
  | _ => false

/-- What the server has made of it, the attributes of lists left out. -/
def acceptedEdits (made : List (Edit × Bool)) : List (Edit × Bool) :=
  made.filter fun one => one.2 && !one.1.setsEa

def Call.Edits (ph : Platform) (pRes : Resource) (system : System) (trace : List CallEvent) :
    Call → Prop
  | .on conn ask => match system.connection conn with
      | none => Edited (· = []) trace
      | some pConn => ask.Edits ph pRes pConn.file trace
  | .freeConnection conn => match system.connection conn with
      | none => Edited (· = []) trace
      | some pConn => SetsOnClose pConn.file trace
  | .createConnection | .queryFSAllocate _ => Edited (· = []) trace

section Once

variable {ph : Platform} {pRes : Resource} {file : SmbwrpFile} {made : List (Edit × Bool)}
  {trace : List CallEvent}

theorem length_acceptedEdits_le (made : List (Edit × Bool)) :
    (acceptedEdits made).length ≤ made.length :=
  List.length_filter_le _ _

theorem AtMostOnce.acceptedEdits_le {edit : Edit} (once : AtMostOnce edit made) :
    (acceptedEdits made).length ≤ 1 := by
  have bound := length_acceptedEdits_le made
  rcases once with rfl | ⟨ok, rfl⟩
  · exact Nat.zero_le 1
  · exact bound

theorem SetsEas.acceptedEdits_eq {eas : Edit → Prop} {asked : Prop} (sets : SetsEas eas asked made)
    (kind : ∀ edit, eas edit → edit.setsEa = true) : acceptedEdits made = [] := by
  refine List.filter_eq_nil_iff.mpr fun one member => ?_
  simp [kind one.1 (sets.1 one member)]

theorem setsEa_path {fname : CString} (edit : Edit) (sets : SetsPathEa fname edit) :
    edit.setsEa = true := by
  cases edit with
  | setPathEa => rfl
  | _ => exact sets.elim

theorem setsEa_file {fd : Int} (edit : Edit) (sets : SetsFileEa fd edit) : edit.setsEa = true := by
  cases edit with
  | setFileEa => rfl
  | _ => exact sets.elim

theorem OnceWithEas.acceptedEdits_le {edit : Edit} {eas : Edit → Prop} {asked : Prop}
    (once : OnceWithEas edit eas asked made) (kind : ∀ edit, eas edit → edit.setsEa = true) :
    (acceptedEdits made).length ≤ 1 := by
  obtain ⟨first, rest, rfl, change, sets⟩ := once
  have none : acceptedEdits rest = [] := sets.acceptedEdits_eq kind
  have joined : acceptedEdits (first ++ rest) = acceptedEdits first ++ acceptedEdits rest :=
    List.filter_append ..
  rw [joined, none, List.append_nil]
  exact change.acceptedEdits_le

theorem SetsAttributes.acceptedEdits_le {fname : CString} {attr mtime : UInt32}
    (sets : SetsAttributes fname attr mtime made) : (acceptedEdits made).length ≤ 1 := by
  have bound := length_acceptedEdits_le made
  rcases sets with rfl | rfl | ⟨ok, rfl⟩
  · exact Nat.zero_le 1
  · exact bound
  · -- the first of the two was refused
    exact length_acceptedEdits_le [(.setAttributes fname attr 0, ok)]

theorem OpensWith.acceptedEdits_le {flags ulOpenMode : UInt32} {szFileName : CString}
    {pFEAList : Option (List UInt8)}
    (opens : OpensWith pRes file flags szFileName ulOpenMode pFEAList trace) :
    (acceptedEdits (edits trace)).length ≤ 1 := by
  rcases opens with once | ⟨fd, -, once⟩
  · exact once.acceptedEdits_le
  · exact once.acceptedEdits_le setsEa_file

theorem MovesTo.acceptedEdits_le {szSrc szDst src : CString}
    (moves : MovesTo ph szSrc szDst src made) :
    (acceptedEdits made).length ≤ 1 := by
  have bound := length_acceptedEdits_le made
  rcases moves with rfl | ⟨newname, ok, -, rfl⟩
  · exact Nat.zero_le 1
  · exact bound

theorem SetsOnClose.acceptedEdits_le (closes : SetsOnClose file trace) :
    (acceptedEdits (edits trace)).length ≤ 1 := by
  have bound := length_acceptedEdits_le (edits trace)
  rcases closes with nothing | ⟨closed, -, ok, set⟩
  · rw [nothing]
    exact Nat.zero_le 1
  · rwa [set] at bound ⊢

theorem Writes.acceptedEdits_le {pBuffer : Option (List UInt8)}
    (writes : Writes file pBuffer made) :
    (acceptedEdits made).length ≤ 1 := by
  have bound := length_acceptedEdits_le made
  rcases writes with rfl | ⟨buffer, ok, -, rfl⟩
  · exact Nat.zero_le 1
  · exact bound

theorem SessionCall.Edits.acceptedEdits_le {call : SessionCall}
    (made_by : call.Edits ph pRes file trace) : (acceptedEdits (edits trace)).length ≤ 1 := by
  have none (nothing : edits trace = []) : (acceptedEdits (edits trace)).length ≤ 1 := by
    rw [nothing]
    exact Nat.zero_le 1
  cases call with
  | setPathInfo | setFileAttribute => exact SetsAttributes.acceptedEdits_le made_by
  | forceDelete | deleteDir | fileNewSize | fileNewSizeL =>
      exact AtMostOnce.acceptedEdits_le made_by
  | createDir => exact OnceWithEas.acceptedEdits_le made_by setsEa_path
  | move | rename | changeCase => exact MovesTo.acceptedEdits_le made_by
  | eaSet pFEAList =>
      rcases made_by with nothing | ⟨fname, -, sets⟩
      · exact none nothing
      · rw [sets.acceptedEdits_eq setsEa_path]
        exact Nat.zero_le 1
  | fileEASet pFEAList =>
      rw [SetsEas.acceptedEdits_eq made_by setsEa_file]
      exact Nat.zero_le 1
  | openReplace | openReplaceL | openCreate | openCreateL =>
      exact OpensWith.acceptedEdits_le made_by
  | fileClose => exact SetsOnClose.acceptedEdits_le made_by
  | fileWrite => exact Writes.acceptedEdits_le made_by
  | _ => exact none made_by

end Once

section Runs

variable {ph : Platform} {pRes : Resource} {system : System}

theorem SameMount.edits_eq {later : Resource} (same : SameMount pRes later) (call : SessionCall)
    (file : SmbwrpFile) : call.Edits ph later file = call.Edits ph pRes file := by
  funext trace
  have path (szPath : CString) : later.askedPath szPath = pRes.askedPath szPath := by
    rw [same.others]
    rfl
  have name (szPath : CString) : later.askedName szPath = pRes.askedName szPath :=
    congrArg (List.take 260) (path szPath)
  have eas (pFEAList : Option (List UInt8)) : EasAsked later pFEAList = EasAsked pRes pFEAList := by
    rw [same.others]
    rfl
  have opens (flags : UInt32) (szFileName : CString) (ulOpenMode : UInt32)
      (pFEAList : Option (List UInt8)) :
      OpensWith later file flags szFileName ulOpenMode pFEAList =
        OpensWith pRes file flags szFileName ulOpenMode pFEAList := by
    unfold OpensWith creation openRequest
    rw [name, eas]
  have told (pFEAList : Option (List UInt8)) :
      SetsToldEas later pFEAList = SetsToldEas pRes pFEAList := by
    unfold SetsToldEas
    rw [eas]
  cases call <;> simp only [SessionCall.Edits, path, name, eas, opens, told]

theorem framed_edits (call : SessionCall) (file : SmbwrpFile) :
    Framed editOf (call.Edits ph pRes file) := by
  cases call with
  | eaSet => exact framed_setsToldEas _ _
  | openReplace | openReplaceL | openCreate | openCreateL => exact framed_opensWith _ _ _ _ _ _
  | fileClose => exact framed_setsOnClose _
  | setPathInfo | setFileAttribute | forceDelete | deleteDir | createDir => exact framed_emitting
  | move | rename | changeCase => exact framed_emitting
  | fileEASet | fileNewSize | fileNewSizeL | fileWrite => exact framed_emitting
  | _ =>
      have plain : Framed editOf (Edited (· = [])) := framed_emitting
      exact plain

theorem shows_freeConnection (pConn : Connection) :
    (freeConnection pConn).Shows (SetsOnClose pConn.file) := by
  have disconnected : Edits (· = []) (smbwrpDisconnect pConn.cli) :=
    edits_of_reads reads_smbwrpDisconnect rfl
  unfold freeConnection
  split
  · have closed := shows_smbwrpClose pConn.cli pConn.file
    exact closed.before (framed_setsOnClose _) fun _ => disconnected
  · exact fun trace outcome run => .inl (disconnected trace outcome run)

theorem shows_system (same : SameMount pRes system.pRes) (call : Call) :
    (system.call ph call).Shows fun trace => call.Edits ph pRes system trace := by
  cases call with
  | createConnection =>
      have reads : (system.call ph .createConnection).Only Op.Reads :=
        (reads_guarded (reads_createConnection _)).bind fun _ => trivial
      have unchanged : Edits (· = []) (system.call ph .createConnection) := edits_of_reads reads rfl
      exact unchanged
  | queryFSAllocate hasPfsa =>
      have reads : (system.call ph (.queryFSAllocate hasPfsa)).Only Op.Reads := by
        refine (reads_guarded ?_).bind fun _ => trivial
        split
        · exact reads_queryAllocate _
        · trivial
      have unchanged : Edits (· = []) (system.call ph (.queryFSAllocate hasPfsa)) :=
        edits_of_reads reads rfl
      exact unchanged
  | freeConnection conn =>
      cases present : system.connection conn with
      | none =>
          simp only [System.call, Call.Edits, present]
          exact Prog.emits_fault rfl
      | some pConn =>
          simp only [System.call, Call.Edits, present]
          have framed := framed_setsOnClose pConn.file
          have freed : (ndpFreeConnection pConn).Shows (SetsOnClose pConn.file) := by
            apply shows_guarded framed _ (.inl rfl)
            exact (shows_freeConnection pConn).before framed fun _ => Prog.shows_ret rfl
          exact freed.before framed fun _ => Prog.shows_ret rfl
  | on conn ask =>
      cases present : system.connection conn with
      | none =>
          simp only [System.call, Call.Edits, present]
          exact Prog.emits_fault rfl
      | some pConn =>
          simp only [System.call, Call.Edits, present]
          rw [← same.edits_eq ask pConn.file]
          have asked : (ask.run ph ⟨system.pRes, pConn⟩).Shows
              (ask.Edits ph system.pRes pConn.file) := shows_call ask
          exact asked.before (framed_edits ask _) fun _ => Prog.shows_ret rfl

theorem Call.Edits.acceptedEdits_le {call : Call} {trace : List CallEvent}
    (asked : call.Edits ph pRes system trace) : (acceptedEdits (edits trace)).length ≤ 1 := by
  have none (nothing : edits trace = []) : (acceptedEdits (edits trace)).length ≤ 1 := by
    rw [nothing]
    exact Nat.zero_le 1
  cases call with
  | createConnection | queryFSAllocate => exact none asked
  | freeConnection conn =>
      simp only [Call.Edits] at asked
      split at asked
      · exact none asked
      · exact asked.acceptedEdits_le
  | on conn ask =>
      simp only [Call.Edits] at asked
      split at asked
      · exact none asked
      · exact SessionCall.Edits.acceptedEdits_le asked

/-- Whatever was called before, a call asks the servers for the changes that it stands for and for
no others, and they make at most one, the extended attributes apart. -/
theorem edits_asked {history : List (Taken Op Call Int)} (reached : Mounted ph pRes history system)
    (call : Call) {trace : List CallEvent} {outcome : Option (Int × System)}
    (run : Run (system.call ph call) trace outcome) :
    call.Edits ph pRes system trace ∧ (acceptedEdits (edits trace)).length ≤ 1 := by
  have asked := shows_system (mount_kept reached) call trace outcome run
  exact ⟨asked, asked.acceptedEdits_le⟩

end Runs

def refusingOnce : Nat → (R : Type) → Op R → R
  | 1, _, .request _ (.cliSetatr ..) => false
  | _, _, op => op.usual

def readOnlyCall : Call := .on 0 (.setFileAttribute (bytes "\\D\\F") aRonly)

def readOnlyRun : List CallEvent × Option (Int × System) :=
  exec refusingOnce 0 (listedSystem.call asciiPlatform readOnlyCall)

theorem edits_asked_twice :
    ∃ history, Mounted asciiPlatform tenSecondsResource history listedSystem ∧
      edits readOnlyRun.1 = [(.setAttributes (bytes "\\D\\F") aRonly 0, false),
        (.setAttributes (bytes "\\D\\F") aRonly 0, true)] ∧
      readOnlyCall.Edits asciiPlatform tenSecondsResource listedSystem readOnlyRun.1 ∧
      (acceptedEdits (edits readOnlyRun.1)).length ≤ 1 := by
  obtain ⟨history, reached, -⟩ := reaches_listedSystem
  exact ⟨history, reached, by decide, edits_asked reached readOnlyCall (run_exec _ _ _)⟩

end NdpSmb
