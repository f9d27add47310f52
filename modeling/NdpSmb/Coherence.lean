import NdpSmb.CacheInvariant
import NdpSmb.SharedCache
import NdpSmb.Staleness

/-!
Which listings a change on the server leaves in the directory cache. Every entry point
drops the listings of some directories before it asks the server; a changed directory is
coherent when the listings that show it are among them.
-/

namespace NdpSmb

open ByteString Interaction

section Dropped

variable (ph : Platform)

def dropListings (keys : List CString) (pdc : Option DirectoryCache) : Option DirectoryCache :=
  keys.foldl (fun pdc key => pdc.map fun pdc => dcInvalidate ph pdc key false) pdc

theorem mem_listings_dropListings {keys : List CString} {pdc : Option DirectoryCache}
    {pdce : DirectoryCacheEntry} :
    pdce ∈ listings (dropListings ph keys pdc) ↔
      pdce ∈ listings pdc ∧ ∀ key ∈ keys, dcMatches ph key false pdce = false := by
  induction keys generalizing pdc with
  | nil => simp [dropListings]
  | cons key keys ih =>
      have first : pdce ∈ listings (pdc.map fun pdc => dcInvalidate ph pdc key false) ↔
          pdce ∈ listings pdc ∧ dcMatches ph key false pdce = false := by
        cases pdc with
        | none => simp [listings]
        | some cache => exact mem_dcInvalidate ph
      rw [dropListings, List.foldl_cons, ← dropListings, ih, first, List.forall_mem_cons, and_assoc]

end Dropped

def invalidatedKeys (s : Session) : SessionCall → List CString
  | .setPathInfo _ szPath | .forceDelete szPath | .createDir szPath _ | .deleteDir szPath =>
      [parentPath szPath]
  | .move szDst szSrc | .rename szDst szSrc | .changeCase szDst szSrc =>
      [parentPath szSrc, parentPath szDst]
  | .openCreate szFileName .. | .openCreateL szFileName .. => [parentPath szFileName]
  | .fileSetInfo _ | .fileWrite _ => [parentPath s.pConn.file.fullname]
  | _ => []

section Calls

variable {ph : Platform} {s : Session}

def LeavesCache (pdc : Option DirectoryCache) (answer : Int × Session) : Prop :=
  answer.1 = noError → answer.2.pRes.pdc = pdc

theorem returns_onPath {szPath : CString} {act : Session → CString → Program Int} :
    (onPath ph s szPath act).Returns fun answer => answer.2.pRes.pdc = s.pRes.pdc := by
  refine Prog.returns_bind.mpr ((pathparser_moved szPath).mono ?_)
  rintro ⟨rc, t, path⟩ moved
  simp only
  split
  · exact moved.pdc
  · exact Prog.returns_bind.mpr (Prog.returns_of_forall fun _ => moved.pdc)

theorem leavesCache_guarded {pdc : Option DirectoryCache} {work : Program (Int × Session)}
    (worked : work.Returns fun answer => answer.2.pRes.pdc = pdc) :
    (guarded (fun rcLock => (rcLock, s)) work).Returns (LeavesCache pdc) :=
  returns_guarded (fun _ failed zero => absurd zero failed) (worked.mono fun _ left _ => left)

theorem leavesCache_mutatingCall (szPath : CString) (act : Session → CString → Program Int) :
    (mutatingCall ph s szPath act).Returns
      (LeavesCache (dropListings ph [parentPath szPath] s.pRes.pdc)) :=
  leavesCache_guarded (returns_onPath.mono fun _ same => same)

theorem leavesCache_pathCall (szPath : CString) (act : Session → CString → Program Int) :
    (pathCall ph s szPath act).Returns (LeavesCache s.pRes.pdc) :=
  leavesCache_guarded returns_onPath

theorem leavesCache_ndpMove (szDst szSrc : CString) :
    (ndpMove ph s szDst szSrc).Returns
      (LeavesCache (dropListings ph [parentPath szSrc, parentPath szDst] s.pRes.pdc)) :=
  leavesCache_guarded (returns_onPath.mono fun _ same => same)

theorem leavesCache_keeping {program : Program Int} :
    (keeping s program).Returns (LeavesCache s.pRes.pdc) :=
  Prog.returns_bind.mpr (Prog.returns_of_forall fun _ _ => rfl)

theorem leavesCache_keepingRc {α : Type} {program : Program (Int × α)} :
    (keepingRc s program).Returns (LeavesCache s.pRes.pdc) :=
  Prog.returns_bind.mpr (Prog.returns_of_forall fun _ _ => rfl)

theorem returns_guarded_cache {α : Type} {pdc : Option DirectoryCache}
    {refused : Int → Int × Session × α} {work : Program (Int × Session × α)}
    (denied : ∀ rcLock, (refused rcLock).1 = rcLock)
    (worked : work.Returns fun answer => answer.2.1.pRes.pdc = pdc) :
    (guarded refused work).Returns fun answer => LeavesCache pdc (answer.1, answer.2.1) := by
  refine returns_guarded (fun rcLock failed zero => ?_) (worked.mono fun _ left _ => left)
  rw [denied] at zero
  exact absurd zero failed

theorem leavesCache_ndpFileSetFilePtrL (llOffset : Int) (ulMethod : UInt32) :
    (ndpFileSetFilePtrL s llOffset ulMethod).Returns fun answer =>
      LeavesCache s.pRes.pdc (answer.1, answer.2.1) := by
  refine returns_guarded_cache (fun _ => rfl) ?_
  unfold seekOpen
  split
  · rfl
  · exact Prog.returns_bind.mpr (Prog.returns_of_forall fun _ => rfl)

theorem leavesCache_dropping {α : Type} {pdc : Option DirectoryCache}
    {program : Program (Int × Session × α)}
    (left : program.Returns fun answer => LeavesCache pdc (answer.1, answer.2.1)) :
    (dropping program).Returns (LeavesCache pdc) :=
  Prog.returns_bind.mpr (left.mono fun _ kept => kept)

theorem leavesCache_ndpCreateDir (szDirName : CString) (pFEAList : Option (List UInt8)) :
    (ndpCreateDir ph s szDirName pFEAList).Returns
      (LeavesCache (dropListings ph [parentPath szDirName] s.pRes.pdc)) := by
  refine Prog.returns_perform_bind.mpr fun rcLock => ?_
  split
  · rename_i failed
    exact fun zero => absurd zero failed
  · have made : (makeDir ph (s.invalidateParent ph szDirName) szDirName).Returns fun answer =>
        answer.2.1.pRes.pdc = dropListings ph [parentPath szDirName] s.pRes.pdc := by
      refine Prog.returns_bind.mpr ((pathparser_moved szDirName).mono ?_)
      rintro ⟨rc, t, path⟩ moved
      simp only
      split
      · exact moved.pdc
      · exact Prog.returns_bind.mpr (Prog.returns_of_forall fun _ => moved.pdc)
    refine Prog.returns_bind.mpr (made.mono ?_)
    rintro ⟨rc, t, path⟩ left
    refine Prog.returns_perform_bind.mpr fun _ => ?_
    simp only [setDirEas]
    split
    · exact Prog.returns_bind.mpr (Prog.returns_of_forall fun _ _ => left)
    · exact fun _ => left

theorem leavesCache_smbopen (szFileName : CString) (flags ulOpenMode ulAttribute : UInt32)
    (pFEAList : Option (List UInt8)) {keys : List CString}
    (chosen : (if flags &&& oCreat ≠ 0 then [parentPath szFileName] else []) = keys) :
    (smbopen ph s szFileName flags ulOpenMode ulAttribute pFEAList).Returns
      (LeavesCache (dropListings ph keys s.pRes.pdc)) := by
  subst chosen
  refine leavesCache_guarded ?_
  have opened (t : Session) :
      (openPath ph t szFileName flags ulOpenMode ulAttribute).Returns fun answer =>
        answer.2.pRes.pdc = t.pRes.pdc := by
    unfold openPath
    split
    · rfl
    · refine Prog.returns_bind.mpr ((pathparser_moved szFileName).mono ?_)
      rintro ⟨rc, t, path⟩ moved
      simp only
      split
      · exact moved.pdc
      · exact Prog.returns_bind.mpr (Prog.returns_of_forall fun _ => moved.pdc)
  refine Prog.returns_bind.mpr ((opened _).mono ?_)
  rintro ⟨rc, t⟩ left
  refine Prog.returns_bind.mpr (Prog.returns_of_forall fun _ => ?_)
  rw [Prog.returns_pure, left]
  split <;> rfl

theorem leavesCache_run (call : SessionCall) (unsearching : call.searches = false) :
    (call.run ph s).Returns (LeavesCache (dropListings ph (invalidatedKeys s call) s.pRes.pdc)) := by
  cases call with
  | queryPathInfo | findStart => simp [SessionCall.searches] at unsearching
  | setPathInfo | forceDelete | deleteDir => exact leavesCache_mutatingCall _ _
  | setFileAttribute | setCurrentDir => exact leavesCache_pathCall _ _
  | move | rename | changeCase => exact leavesCache_ndpMove _ _
  | createDir szDirName pFEAList => exact leavesCache_ndpCreateDir szDirName pFEAList
  | copy | copy2 | move2 | refresh | eaSet | fileQueryInfo | fileEASet | fileCommit
  | fileNewSize | fileNewSizeL => exact leavesCache_keeping
  | eaQuery | eaSize | fileEAQuery | fileEASize => exact leavesCache_keepingRc
  | openReplace | openReplaceL | openExisting =>
      exact leavesCache_smbopen _ _ _ _ _ (if_neg (by decide))
  | openCreate | openCreateL => exact leavesCache_smbopen _ _ _ _ _ (if_pos (by decide))
  | fileSetInfo stat =>
      refine leavesCache_guarded ?_
      split <;> rfl
  | fileSetFilePtrL llOffset ulMethod =>
      exact leavesCache_dropping (leavesCache_ndpFileSetFilePtrL llOffset ulMethod)
  | fileSetFilePtr lOffset ulMethod =>
      refine leavesCache_dropping (Prog.returns_perform_bind.mpr fun unset => ?_)
      exact Prog.returns_bind.mpr ((leavesCache_ndpFileSetFilePtrL lOffset ulMethod).mono
        fun _ left => left)
  | fileClose =>
      refine leavesCache_guarded ?_
      unfold closeOpen
      split
      · rfl
      · exact Prog.returns_bind.mpr (Prog.returns_of_forall fun _ => rfl)
  | fileRead hasBuffer ulRead =>
      refine leavesCache_dropping (returns_guarded_cache (fun _ => rfl) ?_)
      refine Prog.returns_bind.mpr (Prog.returns_of_forall fun _ => ?_)
      exact Prog.returns_bind.mpr (Prog.returns_of_forall fun _ => rfl)
  | fileWrite pBuffer =>
      refine leavesCache_dropping (returns_guarded_cache (fun _ => rfl) ?_)
      unfold writeOpen
      split
      · rfl
      · exact Prog.returns_bind.mpr (Prog.returns_of_forall fun _ => rfl)

theorem mem_listings_run {call : SessionCall} (unsearching : call.searches = false)
    {trace : List CallEvent} {next : Session}
    (run : Run (call.run ph s) trace (some (noError, next))) {pdce : DirectoryCacheEntry} :
    pdce ∈ listings next.pRes.pdc ↔
      pdce ∈ listings s.pRes.pdc ∧ ∀ key ∈ invalidatedKeys s call, dcMatches ph key false pdce = false := by
  have left := (leavesCache_run call unsearching).run run rfl
  rw [left, mem_listings_dropListings]

theorem none_left_iff {call : SessionCall} (unsearching : call.searches = false)
    {trace : List CallEvent} {next : Session}
    (run : Run (call.run ph s) trace (some (noError, next))) (shown : CString → Prop) :
    (∀ pdce ∈ listings next.pRes.pdc, pdce ∈ listings s.pRes.pdc → ¬ shown pdce.pszPath) ↔
      ∀ pdce ∈ listings s.pRes.pdc, shown pdce.pszPath →
        ∃ key ∈ invalidatedKeys s call, dcMatches ph key false pdce = true := by
  constructor
  · intro gone pdce member shows
    by_contra kept
    have unmatched : ∀ key ∈ invalidatedKeys s call, dcMatches ph key false pdce = false := by
      intro key inside
      by_contra matched
      exact kept ⟨key, inside, by simpa using matched⟩
    exact gone pdce ((mem_listings_run unsearching run).mpr ⟨member, unmatched⟩) member shows
  · intro dropped pdce later member shows
    obtain ⟨key, inside, matched⟩ := dropped pdce member shows
    rw [((mem_listings_run unsearching run).mp later).2 key inside] at matched
    exact Bool.noConfusion matched

end Calls

/-! The listings are kept under the hash of their path. -/

section Hashed

variable {ph : Platform} {pdc : Option DirectoryCache}

def Hashed (pdce : DirectoryCacheEntry) : Prop := pdce.ulHash = computehash pdce.pszPath

def HashedCache (pdc : Option DirectoryCache) : Prop := ∀ pdce ∈ listings pdc, Hashed pdce

theorem HashedCache.smaller {later : Option DirectoryCache} (hashed : HashedCache pdc)
    (fewer : Smaller later pdc) : HashedCache later := by
  intro pdce member
  cases later with
  | none => simp [listings] at member
  | some left =>
      obtain ⟨cache, rfl, -, kept⟩ := fewer left rfl
      exact hashed pdce (kept member)

end Hashed

/-! A change of one path, and the listing of its parent. -/

def changesServer : CallEvent → Bool
  | ⟨.request _ (.cliSetatr ..), ok⟩ => ok
  | ⟨.request _ (.cliSetpathinfoBasic ..), ok⟩ => ok
  | ⟨.request _ (.cliUnlink ..), ok⟩ => ok
  | ⟨.request _ (.cliMkdir ..), ok⟩ => ok
  | ⟨.request _ (.cliRmdir ..), ok⟩ => ok
  | ⟨.request _ (.cliRename ..), ok⟩ => ok
  | ⟨.request _ (.cliFtruncate ..), ok⟩ => ok
  | ⟨.request _ (.cliOpen _ openmode _), opened⟩ =>
      opened.isSome && openmode &&& (oCreat ||| oTrunc) ≠ 0
  | ⟨.request _ (.cliWriteall ..), written⟩ => written.isSome
  | _ => false

abbrev OpenFile := Handle × Int

/-- The open file whose data or size the server has changed. -/
def changedFile : CallEvent → Option OpenFile
  | ⟨.request cli (.cliWriteall fd ..), written⟩ =>
      if written.isSome then some (cli, fd) else none
  | ⟨.request cli (.cliFtruncate fd _), ok⟩ => if ok then some (cli, fd) else none
  | _ => none

/-- The open files, each with the path that `smbopen` was given for it. -/
abbrev OpenFiles := List (OpenFile × CString)

def OpenFiles.note (szFileName : Option CString) (files : OpenFiles) : CallEvent → OpenFiles
  | ⟨.request cli (.cliOpen ..), fd⟩ =>
      match fd, szFileName with
      | some fd, some szFileName => ((cli, fd.toNat), szFileName) :: files
      | _, _ => files
  | ⟨.request cli (.cliClose fd), ok⟩ =>
      if ok then files.filter (·.1 ≠ (cli, fd)) else files
  | ⟨.cliShutdown cli, _⟩ => files.filter (·.1.1 ≠ cli)
  | _ => files

/-- The paths that a call has changed. Data and size are those of the file that the number was
given for; on the close it is the remembered path whose attributes and times are set. -/
def Changes (files : OpenFiles) (s : Session) (trace : List CallEvent) (path : CString) :
    SessionCall → Prop
  | .setPathInfo _ szPath | .setFileAttribute szPath _ | .forceDelete szPath
  | .createDir szPath _ | .deleteDir szPath =>
      path = szPath ∧ ∃ event ∈ trace, changesServer event = true
  | .move szDst szSrc =>
      (path = szSrc ∨ path = szDst) ∧ ∃ event ∈ trace, changesServer event = true
  | .openCreate szFileName .. | .openCreateL szFileName .. | .openReplace szFileName ..
  | .openReplaceL szFileName .. =>
      path = szFileName ∧ ∃ event ∈ trace, changesServer event = true
  | .fileWrite _ | .fileNewSize _ | .fileNewSizeL _ =>
      ∃ event ∈ trace, ∃ file, changedFile event = some file ∧ files.lookup file = some path
  | .fileClose => s.pConn.file.fullname = path.take 260 ∧
      ∃ event ∈ trace, changesServer event = true
  | _ => False

def KeyedAlike (ph : Platform) (path other : CString) : Prop :=
  computehash other = computehash path ∧ ph.SameName path other

section Change

variable {ph : Platform} {files : OpenFiles} {s : Session} {path : CString} {call : SessionCall}
  {trace : List CallEvent}

theorem Changes.unsearching (changes : Changes files s trace path call) :
    call.searches = false := by
  cases call <;> first | rfl | exact absurd changes id

theorem KeyedAlike.refl (ph : Platform) (path : CString) : KeyedAlike ph path path :=
  ⟨rfl, FoldEq.refl path⟩

theorem Hashed.dcMatches_iff {pdce : DirectoryCacheEntry} (hashed : Hashed pdce)
    (key : CString) : dcMatches ph key false pdce = true ↔ KeyedAlike ph key pdce.pszPath := by
  rw [NdpSmb.dcMatches_iff, hashed]
  rfl

end Change

theorem reachable_listedSystem :
    ∃ history, Mounted asciiPlatform tenSecondsResource history listedSystem := by
  obtain ⟨history, reached, -⟩ := reaches_listedSystem
  exact ⟨history, reached⟩

/-- The directory that a call takes from its place. -/
def removedDir : SessionCall → Option CString
  | .deleteDir szDir => some szDir
  | .move _ szSrc => some szSrc
  | _ => none

def Within (dir path : CString) : Prop := path = dir ∨ (dir ++ [backslash]) <+: path

theorem length_parentPath_lt {path : CString} (named : path ≠ []) :
    (parentPath path).length < path.length := by
  unfold parentPath
  split
  · rename_i parent name cut
    rw [((cutLast_eq_some_iff backslash).mp cut).1, List.length_append, List.length_cons]
    omega
  · exact List.length_pos_iff.mpr named

theorem Within.length_le {dir path : CString} (within : Within dir path) :
    dir.length ≤ path.length := by
  rcases within with rfl | below
  · exact le_refl _
  · have long := below.length_le
    rw [List.length_append] at long
    exact Nat.le_of_add_right_le long

theorem parent_misses_within (ph : Platform) {dir : CString} (named : dir ≠ [])
    {pdce : DirectoryCacheEntry} (within : Within dir pdce.pszPath) :
    dcMatches ph (parentPath dir) false pdce = false := by
  by_contra matched
  rw [Bool.not_eq_false, dcMatches_iff] at matched
  have same := FoldEq.length_eq matched.2
  have shorter := length_parentPath_lt named
  have longer := within.length_le
  omega

/-- A removed directory leaves a listing of itself or below exactly when one was cached that
no key of the call drops; the key of its own parent drops none of them. -/
theorem removedDir_dropped_iff (ph : Platform) (s : Session) (call : SessionCall) (dir : CString)
    (removes : removedDir call = some dir) {trace : List CallEvent} {next : Session}
    (run : Run (call.run ph s) trace (some (noError, next))) :
    ((∀ pdce ∈ listings next.pRes.pdc, pdce ∈ listings s.pRes.pdc → ¬ Within dir pdce.pszPath) ↔
      ∀ pdce ∈ listings s.pRes.pdc, Within dir pdce.pszPath →
        ∃ key ∈ invalidatedKeys s call, dcMatches ph key false pdce = true) ∧
    (dir ≠ [] → parentPath dir ∈ invalidatedKeys s call ∧ ∀ pdce : DirectoryCacheEntry,
      Within dir pdce.pszPath → dcMatches ph (parentPath dir) false pdce = false) := by
  have unsearching : call.searches = false := by
    cases call <;> first | rfl | simp [removedDir] at removes
  refine ⟨none_left_iff unsearching run (Within dir), fun named => ⟨?_, ?_⟩⟩
  · cases call <;> simp [removedDir] at removes <;> subst removes <;> simp [invalidatedKeys]
  · exact fun pdce within => parent_misses_within ph named within

def deleteTrace : List CallEvent :=
  (exec (fun _ => tenSeconds 1) 0
    (SessionCall.run asciiPlatform listedSession (.deleteDir (bytes "D")))).1

theorem run_deleteTrace :
    Run (SessionCall.run asciiPlatform listedSession (.deleteDir (bytes "D"))) deleteTrace
      (some (noError, listedSession)) :=
  (show (exec (fun _ => tenSeconds 1) 0
      (SessionCall.run asciiPlatform listedSession (.deleteDir (bytes "D")))).2 =
    some (noError, listedSession) by decide) ▸ run_exec _ _ _

theorem removedDir_dropped_iff_listed :
    (∀ pdce ∈ listings listedSession.pRes.pdc, pdce ∈ listings listedSession.pRes.pdc →
        ¬ Within (bytes "D") pdce.pszPath) ↔
      ∀ pdce ∈ listings listedSession.pRes.pdc, Within (bytes "D") pdce.pszPath →
        ∃ key ∈ invalidatedKeys listedSession (.deleteDir (bytes "D")),
          dcMatches asciiPlatform key false pdce = true :=
  (removedDir_dropped_iff asciiPlatform listedSession _ (bytes "D") rfl run_deleteTrace).1

/-- The directory is gone, and its listing is kept. -/
theorem deleteDir_keeps_listing :
    (∃ history, Mounted asciiPlatform tenSecondsResource history listedSystem) ∧
      Run (SessionCall.run asciiPlatform listedSession (.deleteDir (bytes "D"))) deleteTrace
        (some (noError, listedSession)) ∧
      ∃ pdce ∈ listings listedSession.pRes.pdc, Within (bytes "D") pdce.pszPath :=
  ⟨reachable_listedSystem, run_deleteTrace, tenSecondsListing, by decide, .inl rfl⟩

end NdpSmb
