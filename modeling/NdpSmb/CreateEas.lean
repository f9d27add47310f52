import NdpSmb.AcceptedChange
import NdpSmb.MoveTarget
import NdpSmb.EaWalk

/-!
When `NdpCreateDir` and `smbopen` set extended attributes: of what they have created, or of
something else.
-/

namespace NdpSmb

open ByteString Interaction

def EasRequested (trace : List CallEvent) : Prop :=
  ∃ ok, ChangeAnswered .pathEas ok trace ∨ ChangeAnswered .fileEas ok trace

/-- Attributes are set only where something was created. -/
def EasFollow (kind : ServerChange) (trace : List CallEvent) : Prop :=
  EasRequested trace → ChangeAnswered kind true trace

def Op.NoEas (R : Type) (op : Op R) : Prop :=
  Op.Unchanging .pathEas R op ∧ Op.Unchanging .fileEas R op

structure HoldsRecord (list : List UInt8) : Prop where
  counted : sizeofLong < cbListIn list
  name : 8 + (beforeFirst 0 (list.drop 8)).length + 1 ≤ list.length
  value : littleEndian ((list.drop 6).take 2) ≠ 0 →
    8 + littleEndian ((list.drop 5).take 1) + 1 + littleEndian ((list.drop 6).take 2) ≤ list.length

/-- The call goes as far as a list of attributes that has something in it. -/
structure EasPassed (ph : Platform) (pRes : Resource) (szPath : CString)
    (pFEAList : Option (List UInt8)) : Prop where
  parsed : iftestpath szPath = true ∨ PathFits ph pRes szPath
  easupport : pRes.easupport ≠ 0
  records : ∃ list, pFEAList = some list ∧ HoldsRecord list

section Requests

variable {α : Type} {trace first second : List CallEvent} {kind : ServerChange} {ok : Bool}

theorem changeAnswered_append :
    ChangeAnswered kind ok (first ++ second) ↔
      ChangeAnswered kind ok first ∨ ChangeAnswered kind ok second := by
  unfold ChangeAnswered
  constructor
  · rintro ⟨event, member, answer⟩
    rcases List.mem_append.mp member with inFirst | inSecond
    · exact .inl ⟨event, inFirst, answer⟩
    · exact .inr ⟨event, inSecond, answer⟩
  · rintro (⟨event, member, answer⟩ | ⟨event, member, answer⟩)
    · exact ⟨event, List.mem_append_left _ member, answer⟩
    · exact ⟨event, List.mem_append_right _ member, answer⟩

theorem easRequested_append :
    EasRequested (first ++ second) ↔ EasRequested first ∨ EasRequested second := by
  unfold EasRequested
  simp only [changeAnswered_append, ← exists_or]
  exact exists_congr fun ok => or_or_or_comm

theorem unanswered_of_only {program : Program α} {outcome : Option α}
    (unchanging : program.Only (Op.Unchanging kind)) (run : Run program trace outcome) :
    ¬ ChangeAnswered kind ok trace := by
  rintro ⟨event, member, answer⟩
  exact unchanging.run run event member event.reply ok answer

theorem unrequested_of_only {program : Program α} {outcome : Option α}
    (plain : program.Only Op.NoEas) (run : Run program trace outcome) : ¬ EasRequested trace := by
  rintro ⟨ok, path | file⟩
  · exact unanswered_of_only (plain.mono fun _ _ none => none.1) run path
  · exact unanswered_of_only (plain.mono fun _ _ none => none.2) run file

theorem Op.ServedBy.noEas {R : Type} {op : Op R} (served : Op.ServedBy none R op) :
    Op.NoEas R op :=
  ⟨served.unchanging, served.unchanging⟩

theorem noEas_pathparser (ph : Platform) (s : Session) (szPath : CString) :
    (pathparser ph s szPath).Only Op.NoEas := by
  apply only_pathparser
  · intro srv krb5 ntlmv1 encryption
    exact ⟨fun reply ok => by simp [changeAnswer], fun reply ok => by simp [changeAnswer]⟩
  · intro cli
    exact ⟨fun reply ok => by simp [changeAnswer], fun reply ok => by simp [changeAnswer]⟩

theorem noEas_requestRc (cli : Handle) (ok : Bool) : (requestRc cli ok).Only Op.NoEas := by
  unfold requestRc
  split
  · trivial
  · refine ⟨⟨fun reply ok => ?_, fun reply ok => ?_⟩, fun _ => trivial⟩
    · simp [changeAnswer]
    · simp [changeAnswer]

end Requests

/-! A list with a record in it is walked as far as its first request. -/

def Gives {α : Type} (program : Program α) (value : α) : Prop :=
  ∃ trace, Run program trace (some value)

def Requests {α : Type} (program : Program α) : Prop :=
  ∃ trace outcome, Run program trace outcome ∧ EasRequested trace

section Walk

variable {α β : Type} {program : Program α} {follow : α → Program β} {value : α} {result : β}
  {buffer : Buffer} {list : List UInt8} {offset count : Nat} {cli : Handle} {path : CString}

theorem Gives.bind (first : Gives program value) (second : Gives (follow value) result) :
    Gives (program >>= follow) result := by
  obtain ⟨before, given⟩ := first
  obtain ⟨after, rest⟩ := second
  exact ⟨before ++ after, given.bind rest⟩

theorem gives_pure (value : α) : Gives (pure value) value := ⟨[], .ret⟩

theorem Requests.behind (first : Gives program value) (second : Requests (follow value)) :
    Requests (program >>= follow) := by
  obtain ⟨before, given⟩ := first
  obtain ⟨after, outcome, run, asked⟩ := second
  exact ⟨before ++ after, outcome, given.bind run, easRequested_append.mpr (.inr asked)⟩

theorem Requests.before (first : Requests program) (follow : α → Program β) :
    Requests (program >>= follow) := by
  obtain ⟨before, outcome, run, asked⟩ := first
  obtain ⟨more, ended, whole⟩ := run.extends (fun _ => Op.usual) follow
  exact ⟨before ++ more, ended, whole, easRequested_append.mpr (.inl asked)⟩

theorem gives_loadBytes (inside : offset + count ≤ list.length) :
    Gives (loadBytes buffer list offset count) ((list.drop offset).take count) := by
  refine ⟨[⟨.load buffer offset count, ()⟩], .call ?_⟩
  change Run (if offset + count ≤ list.length then _ else _) [] _
  rw [if_pos inside]
  exact .ret

theorem gives_loadNumber (inside : offset + count ≤ list.length) :
    Gives (loadBytes buffer list offset count >>= fun bytes => pure (littleEndian bytes))
      (littleEndian ((list.drop offset).take count)) :=
  (gives_loadBytes inside).bind (gives_pure _)

theorem gives_loadString
    (inside : offset + ((beforeFirst 0 (list.drop offset)).length + 1) ≤ list.length) :
    Gives (loadString buffer list offset) (beforeFirst 0 (list.drop offset)) :=
  (gives_loadBytes inside).bind (gives_pure _)

theorem gives_loadFea (holds : HoldsRecord list) :
    ∃ record, Gives (loadFea .feaList list sizeofLong) record := by
  have name := holds.name
  have fields : sizeofLong + 2 + 2 ≤ list.length := by
    unfold sizeofLong
    omega
  have named : Gives (loadString .feaList list (sizeofLong + sizeofFea))
      (beforeFirst 0 (list.drop 8)) := gives_loadString name
  by_cases empty : littleEndian ((list.drop 6).take 2) = 0
  · refine ⟨(beforeFirst 0 (list.drop 8), none, littleEndian ((list.drop 6).take 2)),
      (gives_loadNumber fields).bind ?_⟩
    change Gives (if littleEndian ((list.drop 6).take 2) = 0 then _ else _) _
    rw [if_pos empty]
    exact named.bind (gives_pure _)
  · have value : Gives (loadBytes .feaList list
        (sizeofLong + sizeofFea + littleEndian ((list.drop 5).take 1) + 1)
        (littleEndian ((list.drop 6).take 2))) _ := gives_loadBytes (holds.value empty)
    refine ⟨(beforeFirst 0 (list.drop 8), some ((list.drop
      (8 + littleEndian ((list.drop 5).take 1) + 1)).take (littleEndian ((list.drop 6).take 2))),
      littleEndian ((list.drop 6).take 2)), (gives_loadNumber fields).bind ?_⟩
    change Gives (if littleEndian ((list.drop 6).take 2) = 0 then _ else _) _
    rw [if_neg empty]
    refine Gives.bind (gives_loadNumber (by unfold sizeofLong; omega)) (named.bind ?_)
    exact value.bind (gives_pure _)

theorem requests_smbwrpSetea (cli : Handle) (path name : CString) (value : Option (List UInt8))
    (size : UInt16) : Requests (smbwrpSetea (some cli) path name value size) :=
  ⟨[⟨.request cli (.cliSetEaPath path name value size), true⟩], some 0, .call .ret, true,
    .inl ⟨_, List.mem_singleton_self _, rfl⟩⟩

theorem requests_helperEASet (cli : Handle) (path : CString) (holds : HoldsRecord list) :
    Requests (helperEASet (some cli) (some list) path) := by
  have name := holds.name
  have counted := holds.counted
  have front : 0 + 4 ≤ list.length := by omega
  obtain ⟨record, loaded⟩ := gives_loadFea holds
  have cbList : Gives (loadLong .feaList list 0) (cbListIn list) := gives_loadNumber front
  apply Requests.behind cbList
  rw [if_neg (not_le.mpr counted)]
  apply Requests.behind (⟨[⟨.fsphRequestMutex, (0 : Int)⟩], .call .ret⟩ : Gives _ (0 : Int))
  rw [if_neg (not_not.mpr rfl)]
  apply Requests.before
  apply Requests.behind cbList
  rw [if_pos counted]
  apply Requests.behind loaded
  apply Requests.before
  exact requests_smbwrpSetea cli path _ _ _

end Walk

/-! `NdpCreateDir`. -/

section CreateDir

variable {ph : Platform} {s : Session} {szPath : CString} {pFEAList : Option (List UInt8)}
  {cli : Option Handle} {path : CString}

theorem pathparser_fits :
    (pathparser ph s szPath).Returns fun _ => iftestpath szPath = true ∨ PathFits ph s.pRes szPath := by
  cases plain : iftestpath szPath with
  | true => exact Prog.returns_of_forall fun _ => .inl rfl
  | false =>
      have fits : (renameWatch fun _ => True).Ensures _ (pathparser ph s szPath) [] :=
        ensures_pathparser_move plain fun _ => trivial
      exact fits.returns (fun _ _ => trivial) fun _ _ parsed => .inr parsed.2.2

theorem noEas_smbwrpMkdir : (smbwrpMkdir cli path).Only Op.NoEas := by
  cases cli with
  | none => trivial
  | some cli =>
      refine Prog.only_perform_bind.mpr ⟨?_, fun ok => noEas_requestRc cli ok⟩
      exact ⟨fun reply ok => by simp [changeAnswer], fun reply ok => by simp [changeAnswer]⟩

theorem noEas_makeDir : (makeDir ph s szPath).Only Op.NoEas := by
  refine (noEas_pathparser ph s szPath).bind ?_
  rintro ⟨rc, t, path⟩
  simp only
  split
  · trivial
  · exact noEas_smbwrpMkdir.bind fun _ => trivial

theorem makeDir_parsed :
    (makeDir ph s szPath).Returns fun answer =>
      (iftestpath szPath = true ∨ PathFits ph s.pRes szPath) ∧ s.Reparsed answer.2.1 := by
  refine Prog.returns_bind.mpr ((pathparser_fits.and (pathparser_session szPath)).mono ?_)
  rintro ⟨rc, t, path⟩ parsed
  simp only
  split
  · exact parsed
  · exact Prog.returns_bind.mpr (Prog.returns_of_forall fun _ => parsed)

theorem Session.Reparsed.easupport {t : Session} (parsed : s.Reparsed t) :
    t.pRes.easupport = s.pRes.easupport := by
  rcases parsed with rfl | ⟨srv, cli, rfl⟩
  · rfl
  · rfl

theorem loadFea_whole {list : List UInt8} (counted : sizeofLong < cbListIn list) :
    (loadFea .feaList list sizeofLong).Returns fun _ => HoldsRecord list := by
  refine Prog.returns_bind.mpr ((returns_loadNumber (sizeofLong + 2) 2).mono ?_)
  intro cbValue valued
  split
  · rename_i empty
    refine Prog.returns_bind.mpr ((returns_loadString (sizeofLong + sizeofFea)).mono ?_)
    rintro name ⟨rfl, named⟩
    exact ⟨counted, named, fun present => absurd (valued.symm.trans empty) present⟩
  · refine Prog.returns_bind.mpr ((returns_loadNumber (sizeofLong + 1) 1).mono ?_)
    intro cbName sized
    refine Prog.returns_bind.mpr ((returns_loadString (sizeofLong + sizeofFea)).mono ?_)
    rintro name ⟨rfl, named⟩
    refine Prog.returns_bind.mpr ((returns_loadBytes _ cbValue).mono ?_)
    intro value inside
    rw [sized, valued] at inside
    exact ⟨counted, named, fun _ => inside.1⟩

theorem noEas_served {α : Type} {program : Program α} (served : program.Only (Op.ServedBy none)) :
    program.Only Op.NoEas :=
  served.mono fun _ _ => Op.ServedBy.noEas

theorem noEas_mutex : Op.NoEas Int .fsphRequestMutex ∧ Op.NoEas Unit .fsphReleaseMutex := by
  unfold Op.NoEas Op.Unchanging
  simp [changeAnswer]

theorem noEas_helperEASet {list : List UInt8} (hollow : ¬ HoldsRecord list) :
    (helperEASet cli (some list) path).Only Op.NoEas := by
  have front : (loadLong .feaList list 0).Returns fun cbList => cbList = cbListIn list :=
    returns_loadNumber 0 4
  refine (noEas_served (only_loadLong none .feaList list 0)).bind_returns front ?_
  rintro cbList rfl
  split
  · trivial
  · rename_i counted
    apply only_guarded noEas_mutex.1 noEas_mutex.2
    refine (noEas_served (only_loadLong none .feaList list 0)).bind_returns front ?_
    rintro cbList rfl
    rw [if_pos (not_le.mp counted)]
    refine (noEas_served (only_loadFea none .feaList list sizeofLong)).bind_returns
      (loadFea_whole (not_le.mp counted)) ?_
    exact fun record whole => absurd whole hollow

theorem noEas_setDirEas {rc : Int} {t : Session}
    (nothing : t.pRes.easupport = 0 ∨ ∀ list, pFEAList = some list → ¬ HoldsRecord list) :
    (setDirEas rc t path pFEAList).Only Op.NoEas := by
  simp only [setDirEas]
  split
  · rename_i supported
    refine Prog.Only.bind ?_ fun _ => trivial
    cases pFEAList with
    | none => trivial
    | some list => exact noEas_helperEASet (nothing.resolve_left supported list rfl)
  · trivial

theorem noEas_ndpCreateDir (nothing : ¬ EasPassed ph s.pRes szPath pFEAList) :
    (ndpCreateDir ph s szPath pFEAList).Only Op.NoEas := by
  refine Prog.only_perform_bind.mpr ⟨noEas_mutex.1, fun rcLock => ?_⟩
  split
  · trivial
  · refine noEas_makeDir.bind_returns makeDir_parsed ?_
    rintro ⟨rc, t, path⟩ ⟨parsed, session⟩
    refine Prog.only_perform_bind.mpr ⟨noEas_mutex.2, fun _ => noEas_setDirEas ?_⟩
    by_cases supported : t.pRes.easupport = 0
    · exact .inl supported
    · refine .inr fun list given whole => nothing ?_
      constructor
      case parsed => exact parsed
      case easupport =>
        rw [← show t.pRes.easupport = s.pRes.easupport from session.easupport]
        exact supported
      case records => exact ⟨list, given, whole⟩

theorem run_pathparser_any (s : Session)
    (parsed : iftestpath szPath = true ∨ PathFits ph s.pRes szPath)
    (connected : s.pConn.cli ≠ none) :
    ∃ trace t cli result, t.pConn.cli = some cli ∧
      Run (pathparser ph s szPath) trace (some (noError, t, result)) := by
  cases probe : iftestpath szPath with
  | true =>
      obtain ⟨cli, given⟩ := Option.ne_none_iff_exists'.mp connected
      refine ⟨[], s, cli, backslash :: lfnProbe, given, ?_⟩
      rw [pathparser, if_pos probe]
      exact .ret
  | false =>
      have fits := parsed.resolve_left (by rw [probe]; exact Bool.false_ne_true)
      obtain ⟨trace, t, cli, given, run⟩ := run_pathparser_move probe fits connected
      exact ⟨trace, t, cli, _, given, run⟩

theorem run_refused_mkdir (passed : EasPassed ph s.pRes szPath pFEAList)
    (connected : s.pConn.cli ≠ none) :
    ∃ trace outcome, Run (ndpCreateDir ph s szPath pFEAList) trace outcome ∧
      EasRequested trace ∧ ¬ ChangeAnswered .directory true trace := by
  obtain ⟨list, rfl, holds⟩ := passed.records
  obtain ⟨parse, t, cli, path, given, run⟩ : ∃ parse t cli path, t.pConn.cli = some cli ∧
      Run (pathparser ph (s.invalidateParent ph szPath) szPath) parse (some (noError, t, path)) :=
    run_pathparser_any (s.invalidateParent ph szPath) passed.parsed connected
  have supported : t.pRes.easupport ≠ 0 := by
    have same := ((pathparser_session szPath).run run).easupport
    simp only at same
    rw [same]
    exact passed.easupport
  have refused : Run (makeDir ph (s.invalidateParent ph szPath) szPath)
      (parse ++ [⟨.request cli (.cliMkdir path), false⟩, ⟨.request cli .cliErrno, (13 : Int)⟩])
      (some (maperror 13, t, path)) := by
    apply run.bind
    simp only
    rw [if_neg (by decide : ¬ noError ≠ 0), given]
    exact .call (.call .ret)
  have eas : Requests (setDirEas (maperror 13) t path (some list)) := by
    simp only [setDirEas]
    rw [if_pos supported, given]
    exact (requests_helperEASet cli path holds).before _
  obtain ⟨walk, outcome, walked, asked⟩ := eas
  have still : ¬ ChangeAnswered .directory true walk := by
    apply unanswered_of_only _ walked
    simp only [setDirEas]
    rw [if_pos supported]
    refine Prog.Only.bind ?_ fun _ => trivial
    exact (setsEas_helperEASet _ path).mono fun _ _ sets => sets.unchanging (by decide)
  have whole : Run (ndpCreateDir ph s szPath (some list))
      ([⟨.fsphRequestMutex, (0 : Int)⟩] ++ ((parse ++ [⟨.request cli (.cliMkdir path), false⟩,
        ⟨.request cli .cliErrno, (13 : Int)⟩]) ++ ([⟨.fsphReleaseMutex, ()⟩] ++ walk))) outcome := by
    refine .call ?_
    exact refused.bind (.call walked)
  refine ⟨_, outcome, whole, ?_, ?_⟩
  · simp only [easRequested_append, asked, or_true]
  · have unparsed : ¬ ChangeAnswered .directory true parse :=
      unanswered_of_only (unchanging_pathparser ph _ szPath) run
    simp only [changeAnswered_append, unparsed, still, or_false, false_or]
    simp [ChangeAnswered, changeAnswer]

end CreateDir

section Open

variable {ph : Platform} {s : Session} {szFileName : CString}
  {flags ulOpenMode ulAttribute : UInt32} {pFEAList : Option (List UInt8)}
  {trace : List CallEvent}

theorem noEas_smbwrpOpen {cli : Option Handle} {file : SmbwrpFile} :
    (smbwrpOpen cli file).Only Op.NoEas := by
  cases cli with
  | none => trivial
  | some cli =>
      simp only [smbwrpOpen]
      split
      · trivial
      · refine Prog.only_perform_bind.mpr ⟨?_, fun opened => ?_⟩
        · exact ⟨fun reply ok => by simp [changeAnswer], fun reply ok => by simp [changeAnswer]⟩
        · cases opened with
          | some fd => trivial
          | none => exact (noEas_requestRc cli false).bind fun _ => trivial

theorem noEas_openPath : (openPath ph s szFileName flags ulOpenMode ulAttribute).Only Op.NoEas := by
  unfold openPath
  split
  · trivial
  · refine (noEas_pathparser ph s szFileName).bind ?_
    rintro ⟨rc, t, path⟩
    simp only
    split
    · trivial
    · exact noEas_smbwrpOpen.bind fun _ => trivial

theorem easFollow_open {outcome : Option (Int × Session)}
    (run : Run (openPath ph s szFileName flags ulOpenMode ulAttribute >>= fun answer =>
      easOnOpen answer.1 answer.2 pFEAList >>= fun _ => pure answer) trace outcome)
    (tells : ∀ event ∈ trace, TellsErrno event) : EasFollow .file trace := by
  intro asked
  rcases run.bind_cases with crashed | ⟨first, second, ⟨rc, t⟩, rfl, opened, rest⟩
  · exact absurd asked (unrequested_of_only noEas_openPath crashed)
  · by_cases done : rc = noError
    · have admitted : (changeWatch .file).Admits {} first :=
        Watch.admits_of_forall _ fun event member _ => tells event (List.mem_append_left _ member)
      have faithful := (faithful_openPath szFileName flags ulOpenMode ulAttribute).run opened admitted
      have accepted := congrArg ChangeSeen.accepted (faithful done)
      have answered := (accepted_after.mp accepted).resolve_left Bool.false_ne_true
      exact changeAnswered_append.mpr (.inl answered)
    · have nothing : easOnOpen rc t pFEAList = pure () := if_neg fun both => done both.1
      rw [nothing] at rest
      obtain ⟨rfl, -⟩ := run_ret_iff.mp rest
      rw [List.append_nil] at asked
      exact absurd asked (unrequested_of_only noEas_openPath opened)

theorem easFollow_smbopen {outcome : Option (Int × Session)}
    (run : Run (smbopen ph s szFileName flags ulOpenMode ulAttribute pFEAList) trace outcome)
    (tells : ∀ event ∈ trace, TellsErrno event) : EasFollow .file trace := by
  have mutex (rcLock : Int) : ¬ EasRequested [⟨.fsphRequestMutex, rcLock⟩] := by
    simp [EasRequested, ChangeAnswered, changeAnswer]
  have release : ¬ EasRequested [⟨.fsphReleaseMutex, ()⟩] := by
    simp [EasRequested, ChangeAnswered, changeAnswer]
  obtain ⟨rcLock, rest, rfl, locked⟩ := run_call_iff.mp run
  have inside (event : CallEvent) (member : event ∈ rest) : TellsErrno event :=
    tells event (List.mem_cons_of_mem _ member)
  have work : EasFollow .file rest := by
    intro asked
    change Run (if rcLock ≠ 0 then _ else _) rest outcome at locked
    split at locked
    · obtain ⟨rfl, -⟩ := run_ret_iff.mp locked
      exact absurd asked (by simp [EasRequested, ChangeAnswered])
    · rcases locked.bind_cases with crashed | ⟨first, second, answer, rfl, opened, left⟩
      · exact easFollow_open crashed inside asked
      · obtain ⟨_, _, rfl, released⟩ := run_call_iff.mp left
        obtain ⟨rfl, -⟩ := run_ret_iff.mp released
        have first := easFollow_open opened
          (fun event member => inside event (List.mem_append_left _ member))
          ((easRequested_append.mp asked).resolve_right release)
        exact changeAnswered_append.mpr (.inl first)
  intro asked
  rw [← List.singleton_append] at asked ⊢
  exact changeAnswered_append.mpr
    (.inr (work ((easRequested_append.mp asked).resolve_left (mutex rcLock))))

end Open

/-- A directory that could not be made keeps its attributes exactly when none are passed; a file
that could not be opened always does. -/
theorem createEas_follow_iff (ph : Platform) (s : Session) (szPath : CString)
    (pFEAList : Option (List UInt8)) (connected : s.pConn.cli ≠ none) :
    ((∀ trace outcome, Run (ndpCreateDir ph s szPath pFEAList) trace outcome →
        EasFollow .directory trace) ↔ ¬ EasPassed ph s.pRes szPath pFEAList) ∧
    ∀ flags ulOpenMode ulAttribute trace outcome,
      Run (smbopen ph s szPath flags ulOpenMode ulAttribute pFEAList) trace outcome →
      (∀ event ∈ trace, TellsErrno event) → EasFollow .file trace := by
  constructor
  · constructor
    · intro follows passed
      obtain ⟨trace, outcome, run, asked, refused⟩ := run_refused_mkdir passed connected
      exact refused (follows trace outcome run asked)
    · intro nothing trace outcome run asked
      exact absurd asked (unrequested_of_only (noEas_ndpCreateDir nothing) run)
  · intro flags ulOpenMode ulAttribute trace outcome run tells
    exact easFollow_smbopen run tells

def easSession : Session := ⟨{ rootlevel := 3, easupport := 1 }, { cli := some 0 }⟩

theorem createEas_follow_iff_list :
    (∀ trace outcome,
      Run (ndpCreateDir asciiPlatform { easSession with pRes := { rootlevel := 3 } } (bytes "\\d")
        (some oneRecordList)) trace outcome → EasFollow .directory trace) ∧
    ∀ flags ulOpenMode ulAttribute trace outcome,
      Run (smbopen asciiPlatform easSession (bytes "\\d") flags ulOpenMode ulAttribute
        (some oneRecordList)) trace outcome →
      (∀ event ∈ trace, TellsErrno event) → EasFollow .file trace := by
  constructor
  · apply (createEas_follow_iff _ _ _ _ (by decide)).1.mpr
    intro passed
    exact passed.easupport rfl
  · exact (createEas_follow_iff asciiPlatform easSession _ _ (by decide)).2

def refusingMkdir : (R : Type) → Op R → R
  | _, .request _ (.cliMkdir _) => false
  | _, .request _ .cliErrno => 17
  | _, op => op.usual

def mkdirRun : List CallEvent × Option (Int × Session) :=
  exec (fun _ => refusingMkdir) 0
    (ndpCreateDir asciiPlatform easSession (bytes "\\d") (some oneRecordList))

/-- The directory is there already, and its attributes are replaced. -/
theorem refused_mkdir_sets_eas :
    ∃ trace outcome,
      Run (ndpCreateDir asciiPlatform easSession (bytes "\\d") (some oneRecordList)) trace outcome ∧
      ¬ EasFollow .directory trace := by
  have asked : ChangeAnswered .pathEas true mkdirRun.1 := by decide
  have refused : ¬ ChangeAnswered .directory true mkdirRun.1 := by decide
  refine ⟨_, _, run_exec (fun _ => refusingMkdir) _ 0, fun follow => ?_⟩
  exact refused (follow ⟨true, .inl asked⟩)

end NdpSmb
