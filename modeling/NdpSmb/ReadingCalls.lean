import NdpSmb.AcceptedChange
import NdpSmb.Emission

/-!
The requests that change something on a server, and the calls that make none of them: they only
ask, however often they connect anew and ask again.
-/

namespace NdpSmb

open ByteString Interaction

inductive Edit
  | setAttributes (fname : CString) (attr mtime : UInt32)
  | setTimes (fname : CString) (btime atime mtime ctime openattr : UInt32)
  | rename (oldname newname : CString)
  | unlink (fname : CString) (attr : UInt32)
  | mkdir (fname : CString)
  | rmdir (fname : CString)
  | create (fname : CString) (openmode denymode : UInt32)
  | write (fd : Int) (buffer : List UInt8) (offset : UInt64)
  | resize (fd newsize : Int)
  | setPathEa (fname name : CString) (value : Option (List UInt8)) (size : UInt16)
  | setFileEa (fd : Int) (name : CString) (value : Option (List UInt8)) (size : UInt16)
  deriving DecidableEq

/-- A file that is only opened stays as it was. -/
def Request.edit : {R : Type} → Request R → Option Edit
  | _, .cliSetatr fname attr mtime => some (.setAttributes fname attr mtime)
  | _, .cliSetpathinfoBasic fname btime atime mtime ctime openattr =>
      some (.setTimes fname btime atime mtime ctime openattr)
  | _, .cliRename oldname newname => some (.rename oldname newname)
  | _, .cliUnlink fname attr => some (.unlink fname attr)
  | _, .cliMkdir fname => some (.mkdir fname)
  | _, .cliRmdir fname => some (.rmdir fname)
  | _, .cliOpen fname openmode denymode =>
      if openmode &&& (oCreat ||| oTrunc) = 0 then none else some (.create fname openmode denymode)
  | _, .cliWriteall fd buffer offset => some (.write fd buffer offset)
  | _, .cliFtruncate fd newsize => some (.resize fd newsize)
  | _, .cliSetEaPath fname name value size => some (.setPathEa fname name value size)
  | _, .cliSetEaFnum fd name value size => some (.setFileEa fd name value size)
  | _, _ => none

def Op.edit : {R : Type} → Op R → Option Edit
  | _, .request _ ask => ask.edit
  | _, _ => none

def accepts : CallEvent → Bool
  | ⟨.request _ (.cliSetatr ..), ok⟩ | ⟨.request _ (.cliSetpathinfoBasic ..), ok⟩ => ok
  | ⟨.request _ (.cliRename ..), ok⟩ | ⟨.request _ (.cliUnlink ..), ok⟩ => ok
  | ⟨.request _ (.cliMkdir _), ok⟩ | ⟨.request _ (.cliRmdir _), ok⟩ => ok
  | ⟨.request _ (.cliFtruncate ..), ok⟩ => ok
  | ⟨.request _ (.cliSetEaPath ..), ok⟩ | ⟨.request _ (.cliSetEaFnum ..), ok⟩ => ok
  | ⟨.request _ (.cliOpen ..), fd⟩ => Option.isSome fd
  | ⟨.request _ (.cliWriteall ..), ret⟩ => Option.isSome ret
  | _ => false

def editOf (event : CallEvent) : Option (Edit × Bool) :=
  event.op.edit.map fun edit => (edit, accepts event)

abbrev edits (trace : List CallEvent) : List (Edit × Bool) := emitted editOf trace

abbrev Edited (post : List (Edit × Bool) → Prop) : List CallEvent → Prop := Emitting editOf post

abbrev Edits {α : Type} (post : List (Edit × Bool) → Prop) (program : Program α) : Prop :=
  program.Emits editOf post

theorem edits_append (first rest : List CallEvent) : edits (first ++ rest) = edits first ++ edits rest :=
  emitted_append ..

/-! Programs that change nothing. -/

def Op.Reads (R : Type) (op : Op R) : Prop := op.edit = none

section Reading

variable {α : Type} {ph : Platform} {s : Session} {cli : Option Handle}
  {post : List (Edit × Bool) → Prop}

theorem edits_of_reads {program : Program α} (reads : program.Only Op.Reads) (nothing : post []) :
    Edits post program := by
  refine Prog.emits_of_only reads ?_ nothing
  intro R op reply reading
  rw [Op.Reads] at reading
  simp [editOf, reading]

theorem Op.ServedBy.reads {R : Type} {op : Op R} (served : Op.ServedBy none R op) :
    Op.Reads R op := by
  cases op with
  | request used ask => exact absurd served (Option.some_ne_none used).symm
  | _ => rfl

theorem Request.Looks.reads {R : Type} {ask : Request R} (looks : ask.Looks) : ask.edit = none := by
  cases ask <;> first | rfl | exact absurd looks id

theorem Op.Asks.reads {R : Type} {op : Op R} (asks : Op.Asks cli R op) : Op.Reads R op := by
  cases op with
  | request used ask => exact asks.2.reads
  | _ => rfl

theorem Request.Consults.reads {R : Type} {ask : Request R} (consults : ask.Consults) :
    ask.edit = none := by
  cases ask <;> first | rfl | exact absurd consults id

theorem allowsListings_reads (cli : Handle) : Op.AllowsListings cli Op.Reads where
  plain _ _ := Op.ServedBy.reads
  looks _ _ := Request.Looks.reads
  directs R ask directs := by
    cases ask <;> first | rfl | exact absurd directs id
  clock := rfl

theorem reads_pathparser (szPath : CString) : (pathparser ph s szPath).Only Op.Reads :=
  only_pathparser (fun _ _ _ _ => rfl) fun _ => rfl

theorem reads_smbwrpDisconnect : (smbwrpDisconnect cli).Only Op.Reads :=
  only_smbwrpDisconnect cli fun _ => rfl

theorem reads_os2cliErrno (cli : Handle) : (os2cliErrno cli).Only Op.Reads :=
  (asks_os2cliErrno cli).mono fun _ _ => Op.Asks.reads

theorem reads_requestRc (cli : Handle) (ok : Bool) : (requestRc cli ok).Only Op.Reads := by
  unfold requestRc
  split
  · trivial
  · exact reads_os2cliErrno cli

theorem reads_reconnect (t : Session) : (reconnect t).Only Op.Reads := by
  refine Prog.only_perform_bind.mpr ⟨rfl, fun reply => ?_⟩
  cases reply <;> trivial

theorem reads_revive : (revive s).Only Op.Reads := by
  refine ((asks_smbwrpEcho _).mono fun _ _ => Op.Asks.reads).bind fun rc => ?_
  split
  · exact reads_reconnect s
  · trivial

theorem reads_filelistOn (state : FilelistState) : (filelistOn ph s state).Only Op.Reads := by
  refine Prog.Only.bind ?_ fun _ => trivial
  unfold smbwrpFilelist
  split
  · trivial
  · split
    · trivial
    · exact only_listTarget ph _ (allowsListings_reads _) s.pRes state

theorem reads_leave {α : Type} (answer : α) : (leave >>= fun _ => pure answer).Only Op.Reads :=
  ⟨rfl, fun _ => trivial⟩

theorem reads_guarded {α : Type} {refused : Int → α} {work : Program α}
    (reads : work.Only Op.Reads) : (guarded refused work).Only Op.Reads :=
  only_guarded rfl rfl reads

end Reading

section Asking

variable {ph : Platform} {s : Session}

/-- Nothing has been changed, however often the mutex is held. -/
def Unchanged (_ : Nat) (_ : Session) (unchanged : Prop) : Prop := unchanged

theorem Op.Reads.unchanged {R : Type} {op : Op R} {before : Prop} (reads : Op.Reads R op)
    (holds : before) (reply : R) : (silence editOf).observe before ⟨op, reply⟩ := by
  refine ⟨holds, ?_⟩
  rw [Op.Reads] at reads
  simp [editOf, reads]

theorem ensures_unchanged {α : Type} {program : Program α} {before : Prop}
    (reads : program.Only Op.Reads) (holds : before) :
    (silence editOf).Ensures (fun _ later => later) program before := by
  apply Watch.ensures_of_allowed reads
  · intro memory R op reply unchanged reading _
    exact reading.unchanged unchanged reply
  · exact fun memory unchanged => unchanged
  · exact holds

theorem keptReading_unchanged (ph : Platform) : KeptReading ph (silence editOf) Unchanged where
  crash holds := holds
  unserved holds served _ := served.reads.unchanged holds _
  asked {_ _ _ R used ask _} holds _ looks _ := by
    have reads : Op.Reads R (.request used ask) := looks.reads
    exact reads.unchanged holds _
  consulted {_ _ _ R used ask _} holds _ consults _ := by
    have reads : Op.Reads R (.request used ask) := consults.reads
    exact reads.unchanged holds _
  locked holds _ := ⟨holds, rfl⟩
  denied holds _ _ := ⟨holds, rfl⟩
  released holds _ := ⟨holds, rfl⟩
  parsed szPath holds := ensures_unchanged (reads_pathparser szPath) holds
  filed _ holds := holds

theorem keptBrowsing_unchanged (ph : Platform) : KeptBrowsing ph (silence editOf) Unchanged where
  toKeptAsking := (keptReading_unchanged ph).toKeptAsking
  revived holds := ensures_unchanged reads_revive holds
  renewed holds :=
    ensures_unchanged (reads_smbwrpDisconnect.bind fun _ => reads_reconnect _) holds
  clocked holds _ := ⟨holds, rfl⟩
  listed state holds := ensures_unchanged (reads_filelistOn state) holds

/-- The calls that only ask. -/
def SessionCall.reads : SessionCall → Bool
  | .queryPathInfo .. | .findStart .. | .setCurrentDir .. => true
  | .eaQuery .. | .eaSize | .fileEAQuery .. | .fileEASize => true
  | .fileQueryInfo | .fileSetFilePtrL .. | .fileSetFilePtr .. | .fileRead .. => true
  | .copy | .copy2 | .move2 | .refresh | .fileCommit => true
  | _ => false

theorem edits_reading (call : SessionCall) (reads : call.reads = true) :
    Edits (· = []) (call.run ph s) := by
  have reading := keptReading_unchanged ph
  have browsing := keptBrowsing_unchanged ph
  have start : Unchanged 0 s True := trivial
  apply Prog.emits_of_silence
  cases call with
  | queryPathInfo szPath =>
      apply (browsing.ndpQueryPathInfo szPath start).mono
      exact fun _ later unchanged => unchanged.elim id id
  | findStart szPath ulAttribute =>
      apply (browsing.ndpFindStart szPath ulAttribute start).mono
      exact fun _ later unchanged => unchanged.elim id id
  | setCurrentDir szPath => exact reading.ndpSetCurrentDir szPath start
  | eaQuery pGEAList pFEAList =>
      exact ensures_keepingRc (reading.ndpEAQuery pGEAList pFEAList start)
  | eaSize => exact ensures_keepingRc (reading.ndpEASize start)
  | fileEAQuery pGEAList pFEAList =>
      exact ensures_keepingRc (reading.ndpFileEAQuery pGEAList pFEAList start)
  | fileEASize => exact ensures_keepingRc (reading.ndpFileEASize start)
  | fileQueryInfo => exact ensures_keeping (reading.ndpFileQueryInfo start)
  | fileSetFilePtrL llOffset ulMethod =>
      exact ensures_dropping (reading.ndpFileSetFilePtrL llOffset ulMethod start)
  | fileSetFilePtr lOffset ulMethod =>
      exact ensures_dropping (reading.ndpFileSetFilePtr lOffset ulMethod start)
  | fileRead hasBuffer ulRead =>
      exact ensures_dropping (reading.ndpFileRead hasBuffer ulRead start)
  | copy | copy2 | move2 | refresh | fileCommit => trivial
  | _ => cases reads

theorem reads_pluginData : pluginData.Only Op.Reads := by
  refine Prog.only_perform_bind.mpr ⟨rfl, fun reply => ?_⟩
  simp only
  split <;> trivial

theorem reads_createConnection (pRes : Resource) : (createConnection pRes).Only Op.Reads := by
  refine Prog.only_perform_bind.mpr ⟨rfl, fun malloced => ?_⟩
  split
  · trivial
  · refine Prog.only_perform_bind.mpr ⟨rfl, fun reply => ?_⟩
    cases reply <;> trivial

theorem reads_queryAllocate (pRes : Resource) : (queryAllocate pRes).Only Op.Reads := by
  refine Prog.only_perform_bind.mpr ⟨rfl, fun reply => ?_⟩
  cases reply with
  | refused rc => trivial
  | connected cli =>
      refine ((asks_smbwrpDskattr (some cli)).mono fun _ _ => Op.Asks.reads).bind fun answer => ?_
      exact reads_smbwrpDisconnect.bind fun _ => trivial

end Asking

end NdpSmb
