import NdpSmb.FindRequest

/-!
The names that a listing reports. The callback puts the directory before the name of an entry,
and what is reported is looked for behind the last backslash of the result.
-/

namespace NdpSmb

open ByteString Interaction

def reportOf : CallEvent → Option (CString × SmbwrpFileinfo)
  | ⟨.fsphAddFile32L _ name finfo, _⟩ => some (name, finfo)
  | _ => none

def reports (trace : List CallEvent) : List (CString × SmbwrpFileinfo) := trace.filterMap reportOf

section Callback

variable (ph : Platform) (srv : SmbwrpServer) (state : FilelistState)

def FindStartBuilds : Prop :=
  ∃ s szPath pel ulAttribute trace t,
    Run (findRequest ph s szPath pel ulAttribute) trace (some (.ok state, t))

/-- An entry of a directory that the listing is to report. -/
structure Wanted (finfo : FileInfo) : Prop where
  present : finfo.name ≠ []
  short : finfo.name.length ≤ 255
  plain : backslash ∉ finfo.name
  passes : passesFilter ph state.ulAttribute (some state.dirMask) finfo.name finfo.toWrp = true

def ReportedAs (finfo : FileInfo) (reported : List (CString × SmbwrpFileinfo)) : Prop :=
  ∃ trace outcome, Run (smbwrpDirAdd ph srv state finfo.toWrp) trace outcome ∧
    reports trace = reported

/-- Every entry is reported under its name with its path, two names are never taken for one, and
none for that of the share. -/
structure ListedExactly (entries : List FileInfo) : Prop where
  exact : ∀ finfo ∈ entries, ∀ reported, ReportedAs ph srv state finfo reported →
    reported = [(finfo.name, { finfo.toWrp with fname := state.dir ++ finfo.name })]
  apart : ∀ finfo ∈ entries, ∀ other ∈ entries, finfo.name ≠ other.name →
    ∀ reported others, ReportedAs ph srv state finfo reported →
      ReportedAs ph srv state other others →
      ∀ name data, (name, data) ∈ reported → ∀ more, (name, more) ∉ others
  unshared : ∀ finfo ∈ entries, finfo.name ≠ srv.shareName →
    ∀ reported, ReportedAs ph srv state finfo reported →
      ∀ data, (srv.shareName, data) ∉ reported

def listedInfo (finfo : SmbwrpFileinfo) : SmbwrpFileinfo :=
  { finfo with fname := state.dir ++ finfo.fname.take (maxPath - state.dir.length - 1) }

end Callback

section Names

variable {ph : Platform} {srv : SmbwrpServer} {state : FilelistState} {finfo : FileInfo}
  {entries : List FileInfo} {reported : List (CString × SmbwrpFileinfo)}

theorem FindStartBuilds.dir_ends (builds : FindStartBuilds ph state) :
    ∃ base, state.dir = base ++ [backslash] := by
  obtain ⟨s, szPath, pel, ulAttribute, trace, t, run⟩ := builds
  have ends : (findRequest ph s szPath pel ulAttribute).Returns fun answer =>
      ∀ built, answer.1 = .ok built → ∃ base, built.dir = base ++ [backslash] := by
    unfold findRequest
    split
    · trivial
    · refine Prog.returns_bind.mpr (Prog.returns_of_forall ?_)
      rintro ⟨rc, s, path⟩
      simp only [fillRequest]
      split
      · intro built refused
        cases refused
      · split
        · trivial
        · rename_i filled found
          intro built same
          obtain rfl := Except.ok.inj same
          rw [findState_dir found]
          exact closeSlash_ends path
  exact ends.run run state rfl

theorem reports_smbwrpDirAdd (room : state.dir.length < maxPath) {data : SmbwrpFileinfo}
    {trace : List CallEvent} {outcome : Option UInt32}
    (run : Run (smbwrpDirAdd ph srv state data) trace outcome) :
    reports trace =
      if passesFilter ph state.ulAttribute (some state.dirMask)
        (reportedName srv (listedInfo state data)) (listedInfo state data)
      then [(reportedName srv (listedInfo state data), listedInfo state data)] else [] := by
  rw [smbwrpDirAdd, if_neg (by omega)] at run
  simp only [getfindinfoL] at run
  unfold listedInfo
  split at run
  · rename_i passes
    obtain ⟨_, _, rfl, followed⟩ := run_call_iff.mp run
    obtain ⟨_, _, rfl, ended⟩ := run_call_iff.mp followed
    obtain ⟨rfl, -⟩ := run_ret_iff.mp ended
    rw [if_pos passes]
    rfl
  · rename_i fails
    obtain ⟨_, _, rfl, ended⟩ := run_call_iff.mp run
    obtain ⟨rfl, -⟩ := run_ret_iff.mp ended
    rw [if_neg fails]
    rfl

theorem reportedAs_fitting (builds : FindStartBuilds ph state) (wanted : Wanted ph state finfo)
    (fits : state.dir.length + finfo.name.length ≤ maxPath - 1)
    (given : ReportedAs ph srv state finfo reported) :
    reported = [(finfo.name, { finfo.toWrp with fname := state.dir ++ finfo.name })] := by
  obtain ⟨trace, outcome, run, rfl⟩ := given
  obtain ⟨base, closed⟩ := builds.dir_ends
  have field : maxPath = 260 := rfl
  have filled := List.length_pos_of_ne_nil wanted.present
  have short := wanted.short
  have whole : finfo.toWrp.fname = finfo.name := List.take_of_length_le (by omega)
  have listed : listedInfo state finfo.toWrp =
      { finfo.toWrp with fname := state.dir ++ finfo.name } := by
    rw [listedInfo, whole, List.take_of_length_le (by omega)]
  have last : lastName (state.dir ++ finfo.name) = finfo.name := by
    have cut : cutLast backslash (state.dir ++ finfo.name) = some (base, finfo.name) := by
      rw [cutLast_eq_some_iff, closed, List.append_assoc]
      exact ⟨rfl, wanted.plain⟩
    rw [lastName, cut]
  have named : reportedName srv (listedInfo state finfo.toWrp) = finfo.name := by
    rw [reportedName, listed, last, if_neg wanted.present]
  have passes : passesFilter ph state.ulAttribute (some state.dirMask) finfo.name
      (listedInfo state finfo.toWrp) = true := wanted.passes
  rw [reports_smbwrpDirAdd (by omega) run, named, if_pos passes, listed]

theorem reportedAs_cut (short : finfo.name.length ≤ 255)
    (given : ReportedAs ph srv state finfo reported)
    (exact : reported = [(finfo.name, { finfo.toWrp with fname := state.dir ++ finfo.name })]) :
    state.dir.length + finfo.name.length ≤ maxPath - 1 := by
  obtain ⟨trace, outcome, run, rfl⟩ := given
  have field : maxPath = 260 := rfl
  have whole : finfo.toWrp.fname = finfo.name := List.take_of_length_le (by omega)
  by_cases room : state.dir.length < maxPath
  · rw [reports_smbwrpDirAdd room run] at exact
    split at exact
    · have paths := congrArg (fun data : SmbwrpFileinfo => data.fname)
        (Prod.mk.inj (List.cons.inj exact).1).2
      have lengths := congrArg List.length paths
      simp only [listedInfo, whole, List.length_append, List.length_take] at lengths
      omega
    · cases exact
  · rw [smbwrpDirAdd, if_pos (by omega)] at run
    obtain ⟨rfl, -⟩ := run_fault_iff.mp run
    cases exact

theorem reportedAs_exists (ph : Platform) (srv : SmbwrpServer) (state : FilelistState)
    (finfo : FileInfo) : ∃ reported, ReportedAs ph srv state finfo reported :=
  ⟨_, _, _, run_exec usualReplies _ 0, rfl⟩

end Names

/-- The entries of a directory are listed exactly when all of their names fit behind it, with
the terminator, in a path of `_MAX_PATH` bytes. -/
theorem listedNames_exact_iff (ph : Platform) (srv : SmbwrpServer) {state : FilelistState}
    (builds : FindStartBuilds ph state) {entries : List FileInfo}
    (wanted : ∀ finfo ∈ entries, Wanted ph state finfo) :
    ListedExactly ph srv state entries ↔
      ∀ finfo ∈ entries, state.dir.length + finfo.name.length ≤ maxPath - 1 := by
  constructor
  · intro listed finfo member
    obtain ⟨reported, given⟩ := reportedAs_exists ph srv state finfo
    exact reportedAs_cut (wanted finfo member).short given (listed.exact finfo member _ given)
  · intro fits
    have exact : ∀ finfo ∈ entries, ∀ reported, ReportedAs ph srv state finfo reported →
        reported = [(finfo.name, { finfo.toWrp with fname := state.dir ++ finfo.name })] :=
      fun finfo member reported given =>
        reportedAs_fitting builds (wanted finfo member) (fits finfo member) given
    refine ⟨exact, ?_, ?_⟩
    · intro finfo member other another distinct reported others given givenOther name data found
        more same
      rw [exact finfo member reported given, List.mem_singleton] at found
      rw [exact other another others givenOther, List.mem_singleton] at same
      exact distinct ((Prod.mk.inj found).1.symm.trans (Prod.mk.inj same).1)
    · intro finfo member distinct reported given data found
      rw [exact finfo member reported given, List.mem_singleton] at found
      exact distinct (Prod.mk.inj found).1.symm

def searchAll (name : CString) : FilelistState :=
  { mask := backslash :: name ++ bytes "\\*", dir := backslash :: name ++ [backslash]
    dirMask := bytes "*", ulAttribute := 0, fullpath := backslash :: name ++ bytes "\\*" }

def fileCalled (name : CString) : FileInfo :=
  { size := 0, mode := 0, btimeTs := 0, atimeTs := 0, mtimeTs := 0, ctimeTs := 0, name }

theorem searchAll_built : FindStartBuilds asciiPlatform (searchAll (bytes "DDD")) :=
  ⟨diskSession, bytes "\\DDD\\*", some ⟨1, bytes "*"⟩, 0, [], diskSession, .ret⟩

theorem listedNames_exact_iff_two :
    ListedExactly asciiPlatform {} (searchAll (bytes "DDD"))
      [fileCalled (bytes "notes"), fileCalled (bytes "drafts")] := by
  refine (listedNames_exact_iff asciiPlatform {} searchAll_built ?_).mpr ?_
  · intro finfo member
    simp only [List.mem_cons, List.not_mem_nil, or_false] at member
    rcases member with rfl | rfl
    · exact ⟨by decide, by decide, by decide, by decide⟩
    · exact ⟨by decide, by decide, by decide, by decide⟩
  · intro finfo member
    simp only [List.mem_cons, List.not_mem_nil, or_false] at member
    rcases member with rfl | rfl
    · decide
    · decide

def longName (last : UInt8) : CString := List.replicate 254 97 ++ [last]

/-- In a directory of five bytes two names of 255 bytes are cut to the same 254. -/
theorem longNames_alike :
    FindStartBuilds asciiPlatform (searchAll (bytes "DDD")) ∧
      (∀ finfo ∈ [fileCalled (longName 98), fileCalled (longName 99)],
        Wanted asciiPlatform (searchAll (bytes "DDD")) finfo) ∧
      ¬ ListedExactly asciiPlatform {} (searchAll (bytes "DDD"))
        [fileCalled (longName 98), fileCalled (longName 99)] := by
  have length (last : UInt8) : (longName last).length = 255 := by
    rw [longName, List.length_append, List.length_replicate]
    rfl
  refine ⟨searchAll_built, ?_, ?_⟩
  · have wanted (last : UInt8) (other : last ≠ backslash) :
        Wanted asciiPlatform (searchAll (bytes "DDD")) (fileCalled (longName last)) := by
      refine ⟨?_, (length last).le, ?_, ?_⟩
      · exact List.append_ne_nil_of_right_ne_nil _ (List.cons_ne_nil _ _)
      · intro slashed
        rcases List.mem_append.mp slashed with among | final
        · exact absurd (List.eq_of_mem_replicate among) (by decide)
        · exact other (List.mem_singleton.mp final).symm
      · simp [passesFilter, asciiPlatform, attrWithin, searchAll, FileInfo.toWrp, fileCalled]
    intro finfo member
    simp only [List.mem_cons, List.not_mem_nil, or_false] at member
    rcases member with rfl | rfl
    · exact wanted 98 (by decide)
    · exact wanted 99 (by decide)
  · intro listed
    obtain ⟨reported, given⟩ := reportedAs_exists asciiPlatform {} (searchAll (bytes "DDD"))
      (fileCalled (longName 98))
    have exact := listed.exact _ List.mem_cons_self reported given
    have room := reportedAs_cut (length 98).le given exact
    have five : (searchAll (bytes "DDD")).dir.length = 5 := by decide
    have field : maxPath = 260 := rfl
    have long : (fileCalled (longName 98)).name.length = 255 := length 98
    omega

end NdpSmb
