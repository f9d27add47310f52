import NdpSmb.PathCalls

/-!
What `NdpQueryPathInfo` hands to NetDrive: the record of a cached listing, or the one
that the server was asked for.
-/

namespace NdpSmb

open ByteString Interaction

structure QuerySeen where
  clock : Option UInt32 := none
  handed : List SmbwrpFileinfo := []

inductive QueryAction
  | clock (now : UInt32)
  | handed (finfo : SmbwrpFileinfo)
  | other

def queryAction : CallEvent → QueryAction
  | ⟨.timesec, now⟩ => .clock now
  | ⟨.fsphAddFile32L _ _ finfo, _⟩ => .handed finfo
  | _ => .other

def QuerySeen.observe (seen : QuerySeen) (event : CallEvent) : QuerySeen :=
  match queryAction event with
  | .clock now => { seen with clock := some now }
  | .handed finfo => { seen with handed := seen.handed ++ [finfo] }
  | .other => seen

def querySeen (trace : List CallEvent) : QuerySeen := trace.foldl QuerySeen.observe {}

section Answer

variable (ph : Platform)

def cachedInfo (s : Session) (szPath : CString) : Option (SmbwrpFileinfo × DirectoryCacheEntry) :=
  s.pRes.pdc.bind fun pdc => dcLookup ph pdc (parentPath szPath) (lastName szPath)

/-- The listing of the parent has the name, and is young enough when the clock is read. -/
def CacheAnswers (s : Session) (szPath : CString) (clock : Option UInt32) : Prop :=
  ∃ finfo pdce now, cachedInfo ph s szPath = some (finfo, pdce) ∧ clock = some now ∧
    now - pdce.ulLastUpdateTime ≤ 15

structure SameAnswer (left right : SmbwrpFileinfo) : Prop where
  fname : ph.SameName left.fname right.fname
  attr : left.attr = right.attr
  size : left.size = right.size

theorem backslash_notMem_lastName (path : CString) : backslash ∉ lastName path := by
  unfold lastName
  split
  · rename_i parent name cut
    exact ((cutLast_eq_some_iff backslash).mp cut).2
  · rename_i uncut
    exact (cutLast_eq_none_iff backslash).mp uncut

variable {ph} {s : Session} {szPath : CString}

theorem Platform.SameName.backslash_mem_iff {left right : CString}
    (same : ph.SameName left right) : backslash ∈ left ↔ backslash ∈ right :=
  FoldEq.mem_iff same ph.toUpper_backslash

theorem backslash_notMem_cachedInfo {finfo : SmbwrpFileinfo} {pdce : DirectoryCacheEntry}
    (cached : cachedInfo ph s szPath = some (finfo, pdce)) : backslash ∉ finfo.fname := by
  obtain ⟨pdc, -, found⟩ := Option.bind_eq_some_iff.mp cached
  obtain ⟨entry, -, looked⟩ := List.exists_of_findSome?_eq_some found
  split at looked
  · obtain ⟨info, listed, same⟩ := Option.map_eq_some_iff.mp looked
    obtain ⟨rfl, rfl⟩ := Prod.mk.inj same
    have named := List.find?_some listed
    rw [decide_eq_true_eq] at named
    rw [named.backslash_mem_iff]
    exact backslash_notMem_lastName szPath
  · simp at looked

def queryWatch : Watch Op QuerySeen where
  observe := QuerySeen.observe

def Op.Silent (R : Type) (op : Op R) : Prop := ∀ reply, queryAction ⟨op, reply⟩ = .other

theorem Op.Asks.silent {cli : Option Handle} {R : Type} {op : Op R} (asks : Op.Asks cli R op) :
    Op.Silent R op := by
  intro reply
  cases op <;> first | rfl | exact absurd asks id

theorem ensures_of_silent {α : Type} {program : Program α} {known : α → Prop} {seen : QuerySeen}
    (silent : program.Only Op.Silent) (returned : program.Returns known) :
    queryWatch.Ensures (fun value later => later = seen ∧ known value) program seen := by
  refine Watch.Ensures.and_returns ?_ returned
  refine Watch.ensures_of_only silent (fun R op reply quiet => ?_) trivial fun _ => rfl
  change seen.observe _ = seen
  rw [QuerySeen.observe, quiet reply]

theorem silent_smbwrpDisconnect (cli : Option Handle) : (smbwrpDisconnect cli).Only Op.Silent :=
  only_smbwrpDisconnect cli fun _ _ => rfl

theorem silent_pathparser : (pathparser ph s szPath).Only Op.Silent := by
  apply only_pathparser
  · exact fun _ _ _ _ _ => rfl
  · exact fun _ _ => rfl

theorem silent_reconnect : (reconnect s).Only Op.Silent := by
  refine Prog.only_perform_bind.mpr ⟨fun _ => rfl, fun reply => ?_⟩
  cases reply <;> trivial

theorem silent_smbwrpGetattr (srv : SmbwrpServer) (cli : Option Handle) (finfo : SmbwrpFileinfo) :
    (smbwrpGetattr srv cli finfo).Only Op.Silent :=
  (asks_smbwrpGetattr cli srv finfo).mono fun _ _ => Op.Asks.silent

theorem returns_pathparser :
    (pathparser ph s szPath).Returns fun answer => answer.2.2.head? = some backslash := by
  have finished (rc : Int) (s : Session) (path : CString) :
      (finishPath rc s path).Returns fun answer => answer.2.2.head? = some backslash := by
    unfold finishPath
    split
    · trivial
    · rfl
  unfold pathparser
  split
  · rfl
  · split
    · trivial
    · split
      · exact Prog.returns_bind.mpr (Prog.returns_of_forall fun _ => finished _ _ _)
      · exact finished _ _ _

theorem returns_smbwrpGetattr (srv : SmbwrpServer) (cli : Option Handle) (finfo : SmbwrpFileinfo) :
    (smbwrpGetattr srv cli finfo).Returns fun answer => answer.2.fname = finfo.fname := by
  cases cli with
  | none => rfl
  | some cli =>
      simp only [smbwrpGetattr]
      split
      · rfl
      · refine Prog.returns_perform_bind.mpr fun first => ?_
        cases first with
        | some info => rfl
        | none =>
            refine Prog.returns_perform_bind.mpr fun second => ?_
            cases second with
            | some info => rfl
            | none =>
                simp only
                split
                · exact fun _ _ _ _ => rfl
                · refine Prog.returns_perform_bind.mpr fun nt => ?_
                  split
                  · exact fun _ => rfl
                  · refine Prog.returns_perform_bind.mpr fun legacy => ?_
                    cases legacy with
                    | some info => exact fun _ => rfl
                    | none => exact fun _ => rfl

/-! The question to the server. -/

structure FullPaths (clock : Option UInt32) (seen : QuerySeen) : Prop where
  unread : seen.clock = clock
  full : ∀ finfo ∈ seen.handed, finfo.fname.head? = some backslash

variable {clock : Option UInt32} {seen : QuerySeen} {finfo : SmbwrpFileinfo}

theorem ensures_giveFileinfo (s : Session) (finfo : SmbwrpFileinfo) :
    queryWatch.Ensures
      (fun _ later => later = { seen with handed := seen.handed ++ [{ finfo with easize := -1 }] })
      (giveFileinfo ph s finfo) seen :=
  fun _ _ => rfl

theorem ensures_retryGetattr (rc : Int) :
    queryWatch.Ensures (fun answer later => later = seen ∧ answer.2.2.fname = finfo.fname)
      (retryGetattr s finfo rc) seen := by
  unfold retryGetattr
  split
  · apply (ensures_of_silent (silent_smbwrpDisconnect _)
      (Prog.returns_of_forall fun _ => trivial)).bind
    rintro _ _ ⟨rfl, -⟩
    apply (ensures_of_silent silent_reconnect
      (Prog.returns_of_forall fun _ => trivial)).bind
    rintro ⟨rcCon, s⟩ _ ⟨rfl, -⟩
    simp only
    split
    · apply (ensures_of_silent (silent_smbwrpGetattr _ _ _)
        (returns_smbwrpGetattr _ _ finfo)).bind
      rintro answer _ ⟨rfl, named⟩
      exact ⟨rfl, named⟩
    · exact ⟨rfl, rfl⟩
  · exact ⟨rfl, rfl⟩

theorem silent_upperPath : (upperPath s finfo).Only Op.Silent := by
  unfold upperPath
  split
  · trivial
  · split
    · trivial
    · refine (silent_smbwrpGetattr _ _ _).bind fun answer => ?_
      simp only
      split <;> trivial

theorem ensures_queryAlive (known : FullPaths clock seen)
    (full : finfo.fname.head? = some backslash) :
    queryWatch.Ensures (fun _ later => FullPaths clock later) (queryAlive ph s finfo) seen := by
  apply (ensures_of_silent (silent_smbwrpGetattr _ _ _)
    (returns_smbwrpGetattr _ _ finfo)).bind
  rintro ⟨rc, first⟩ _ ⟨rfl, named⟩
  apply (ensures_retryGetattr rc).bind
  rintro ⟨rc, s, second⟩ _ ⟨rfl, renamed⟩
  simp only at named renamed ⊢
  split
  · apply (ensures_giveFileinfo s second).bind
    rintro _ _ rfl
    refine ⟨known.unread, fun given member => ?_⟩
    rcases List.mem_append.mp member with earlier | last
    · exact known.full given earlier
    · obtain rfl := List.mem_singleton.mp last
      exact (congrArg List.head? (renamed.trans named)).trans full
  · split
    · apply (ensures_of_silent silent_upperPath
        (Prog.returns_of_forall fun _ => trivial)).bind
      rintro _ _ ⟨rfl, -⟩
      exact known
    · exact known

theorem ensures_queryServer (known : FullPaths clock seen)
    (full : finfo.fname.head? = some backslash) :
    queryWatch.Ensures (fun _ later => FullPaths clock later) (queryServer ph s finfo) seen := by
  have alive (s : Session) : queryWatch.Ensures (fun _ later => FullPaths clock later)
      (do let answer ← queryAlive ph s finfo
          leave
          pure answer) seen :=
    Watch.ensures_bind.mpr ((ensures_queryAlive known full).mono fun _ _ after _ _ => after)
  apply (ensures_of_silent
    ((asks_smbwrpEcho s.pConn.cli).mono fun _ _ => Op.Asks.silent)
    (Prog.returns_of_forall fun _ => trivial)).bind
  rintro rc _ ⟨rfl, -⟩
  split
  · apply (ensures_of_silent silent_reconnect
      (Prog.returns_of_forall fun _ => trivial)).bind
    rintro ⟨rcCon, s⟩ _ ⟨rfl, -⟩
    simp only
    split
    · exact known
    · exact alive s
  · exact alive s

theorem ensures_queryNetwork (known : FullPaths clock seen) (finfo : SmbwrpFileinfo) :
    queryWatch.Ensures (fun _ later => FullPaths clock later) (queryNetwork ph s szPath finfo)
      seen := by
  apply (ensures_of_silent silent_pathparser returns_pathparser).bind
  rintro ⟨rc, s, path⟩ _ ⟨rfl, full⟩
  simp only
  split
  · exact fun _ _ => known
  · split
    · trivial
    · exact ensures_queryServer known full

theorem ensures_queryUncached (known : FullPaths clock seen) (cached : Option SmbwrpFileinfo) :
    queryWatch.Ensures (fun _ later => FullPaths clock later)
      (queryUncached ph s szPath cached) seen := by
  cases cached with
  | none => exact fun finfo _ => ensures_queryNetwork known finfo
  | some finfo => exact ensures_queryNetwork known finfo

/-! The two branches together. -/

/-- The cached record as it is handed over, or the full paths of the server. -/
structure Answered (ph : Platform) (s : Session) (szPath : CString) (seen : QuerySeen) : Prop where
  cached : CacheAnswers ph s szPath seen.clock → ∃ finfo pdce,
    cachedInfo ph s szPath = some (finfo, pdce) ∧ seen.handed = [{ finfo with easize := -1 }]
  asked : ¬ CacheAnswers ph s szPath seen.clock →
    ∀ finfo ∈ seen.handed, finfo.fname.head? = some backslash

theorem not_cacheAnswers_none : ¬ CacheAnswers ph s szPath none := by
  rintro ⟨_, _, _, _, unread, _⟩
  simp at unread

theorem FullPaths.answered (known : FullPaths clock seen)
    (uncached : ¬ CacheAnswers ph s szPath clock) : Answered ph s szPath seen :=
  ⟨fun cached => absurd (known.unread ▸ cached) uncached, fun _ => known.full⟩

theorem ensures_dircacheFindPath (plain : hasWildcard szPath = false) :
    queryWatch.Ensures
      (fun found later => later.handed = [] ∧
        match found with
        | none => later.clock = none
        | some (finfo, ulAge) => ∃ pdce now, cachedInfo ph s szPath = some (finfo, pdce) ∧
            later.clock = some now ∧ ulAge = now - pdce.ulLastUpdateTime)
      (dircacheFindPath ph s.pRes.pdc szPath) {} := by
  unfold dircacheFindPath
  split
  · exact ⟨rfl, rfl⟩
  · rename_i pdc present
    simp only [plain, Bool.false_eq_true, if_false]
    unfold dcFindPath
    split
    · exact ⟨rfl, rfl⟩
    · rename_i finfo pdce found
      refine fun now _ => ⟨rfl, pdce, now, ?_, rfl, rfl⟩
      rw [cachedInfo, present, Option.bind_some, found]

theorem ensures_ndpQueryPathInfo :
    queryWatch.Ensures (fun _ later => Answered ph s szPath later) (ndpQueryPathInfo ph s szPath)
      {} := by
  have nothing : FullPaths none {} := ⟨rfl, by simp⟩
  refine ensures_enter (fun rcLock _ _ => nothing.answered not_cacheAnswers_none) fun _ => ?_
  change queryWatch.Ensures _ _ {}
  split
  · exact fun _ _ => nothing.answered not_cacheAnswers_none
  · rename_i plain
    apply (ensures_dircacheFindPath (by simpa using plain)).bind
    rintro (_ | ⟨finfo, ulAge⟩) later ⟨unhanded, found⟩
    · have known : FullPaths none later := ⟨found, by simp [unhanded]⟩
      exact (ensures_queryUncached known none).mono fun _ _ after =>
        after.answered not_cacheAnswers_none
    · obtain ⟨pdce, now, looked, read, rfl⟩ := found
      simp only
      split
      · rename_i young
        apply (ensures_giveFileinfo s finfo).bind
        rintro _ _ rfl
        have cached : CacheAnswers ph s szPath later.clock :=
          ⟨finfo, pdce, now, looked, read, young⟩
        refine fun _ _ => ⟨fun _ => ⟨finfo, pdce, looked, ?_⟩, fun uncached => absurd cached uncached⟩
        exact congrArg (· ++ [{ finfo with easize := -1 }]) unhanded
      · rename_i old
        have known : FullPaths (some now) later := ⟨read, by simp [unhanded]⟩
        refine (ensures_queryUncached known (some finfo)).mono fun _ _ after => after.answered ?_
        rintro ⟨_, _, _, looked', read', young⟩
        obtain ⟨rfl, rfl⟩ := Prod.mk.inj (Option.some.inj (looked.symm.trans looked'))
        obtain rfl := Option.some.inj read'
        exact old young

/-- Whatever the server and the clock answer, the record that comes from the cache never
names the file as a record from the server does: it has the bare name of the file. -/
theorem queryPathInfo_cached_never_same (ph : Platform) (s asked : Session) (szPath : CString)
    {trace netTrace : List CallEvent} {answer netAnswer : Int × Session}
    (run : Run (ndpQueryPathInfo ph s szPath) trace (some answer))
    (netRun : Run (ndpQueryPathInfo ph asked szPath) netTrace (some netAnswer))
    (cached : CacheAnswers ph s szPath (querySeen trace).clock)
    (uncached : ¬ CacheAnswers ph asked szPath (querySeen netTrace).clock) :
    ∃ finfo, (querySeen trace).handed = [finfo] ∧
      ∀ netFinfo ∈ (querySeen netTrace).handed, ¬ SameAnswer ph finfo netFinfo := by
  have first : Answered ph s szPath (querySeen trace) :=
    ensures_ndpQueryPathInfo.run run (Watch.admits_of_forall _ fun _ _ _ => trivial)
  have second : Answered ph asked szPath (querySeen netTrace) :=
    ensures_ndpQueryPathInfo.run netRun (Watch.admits_of_forall _ fun _ _ _ => trivial)
  obtain ⟨finfo, pdce, looked, handed⟩ := first.cached cached
  refine ⟨_, handed, fun netFinfo member same => ?_⟩
  have rooted : backslash ∈ netFinfo.fname :=
    List.mem_of_mem_head? (second.asked uncached netFinfo member)
  exact backslash_notMem_cachedInfo looked (same.fname.backslash_mem_iff.mpr rooted)

end Answer

def fiveBytes : SmbwrpFileinfo := { size := 5, attr := 32, fname := bytes "F", easize := -1 }

def fiveBytesListing : DirectoryCacheEntry :=
  { aInfos := [fiveBytes], cInfosAllocated := 1, pszPath := bytes "\\D"
    ulHash := computehash (bytes "\\D"), ulLastUpdateTime := 0 }

def shareSession (entries : List DirectoryCacheEntry) : Session :=
  { pRes := { rootlevel := 3, pdc := some { entries, fEnabled := true, ulExpirationTime := 10
                                            cMaxEntries := 4 } }
    pConn := { cli := some 1 } }

def reportFiveBytes : (R : Type) → Op R → R
  | _, .request _ (.cliQpathinfo2 _) =>
      some { attr := 32, size := 5, btime := 0, atime := 0, mtime := 0, ctime := 0 }
  | _, op => op.usual

def fiveBytesRun (entries : List DirectoryCacheEntry) : List CallEvent × Option (Int × Session) :=
  exec (fun _ => reportFiveBytes) 0
    (ndpQueryPathInfo asciiPlatform (shareSession entries) (bytes "\\D\\F"))

theorem run_fiveBytes {entries : List DirectoryCacheEntry}
    (outcome : (fiveBytesRun entries).2 = some (noError, shareSession entries)) :
    Run (ndpQueryPathInfo asciiPlatform (shareSession entries) (bytes "\\D\\F"))
      (fiveBytesRun entries).1 (some (noError, shareSession entries)) :=
  outcome ▸ run_exec _ _ _

theorem cacheAnswers_fiveBytes :
    CacheAnswers asciiPlatform (shareSession [fiveBytesListing]) (bytes "\\D\\F") (some 0) :=
  ⟨fiveBytes, fiveBytesListing, 0, by decide, rfl, by decide⟩

theorem not_cacheAnswers_empty (clock : Option UInt32) :
    ¬ CacheAnswers asciiPlatform (shareSession []) (bytes "\\D\\F") clock := by
  rintro ⟨_, _, _, looked, -, -⟩
  simp [cachedInfo, shareSession, dcLookup] at looked

theorem queryPathInfo_cached_never_same_five :
    ∃ finfo, (querySeen (fiveBytesRun [fiveBytesListing]).1).handed = [finfo] ∧
      ∀ netFinfo ∈ (querySeen (fiveBytesRun []).1).handed,
        ¬ SameAnswer asciiPlatform finfo netFinfo :=
  queryPathInfo_cached_never_same asciiPlatform (shareSession [fiveBytesListing])
    (shareSession []) (bytes "\\D\\F") (run_fiveBytes (by decide)) (run_fiveBytes (by decide))
    cacheAnswers_fiveBytes (not_cacheAnswers_empty _)

/-- With the same data in the listing and on the server, the names still differ. -/
theorem queryPathInfo_cached_bare_name :
    ∃ finfo netFinfo, (querySeen (fiveBytesRun [fiveBytesListing]).1).handed = [finfo] ∧
      (querySeen (fiveBytesRun []).1).handed = [netFinfo] ∧
      finfo.attr = netFinfo.attr ∧ finfo.size = netFinfo.size ∧
      ¬ SameAnswer asciiPlatform finfo netFinfo := by
  refine ⟨fiveBytes, { fiveBytes with fname := bytes "\\D\\F" }, by decide, by decide, rfl, rfl, ?_⟩
  exact fun same => absurd same.fname (by decide)

end NdpSmb
