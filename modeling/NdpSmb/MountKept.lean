import NdpSmb.CacheInvariant
import NdpSmb.Environment
import NdpSmb.Staleness
import NdpSmb.PathSplit

/-!
What every call leaves of a mounted Resource: the account, the options and the limits of the
cache, and the names that were fixed by the mount. Only the names below them follow the paths.
-/

namespace NdpSmb

open ByteString Interaction

def emptied (pdc : Option DirectoryCache) : Option DirectoryCache :=
  pdc.map fun cache => { cache with entries := [] }

/-- Nothing but the names and the listings may differ, and not the names above the root level. -/
structure SameMount (pRes later : Resource) : Prop where
  others : later = { pRes with
    srv := { pRes.srv with
      workgroup := later.srv.workgroup
      serverName := later.srv.serverName
      shareName := later.srv.shareName }
    pdc := later.pdc }
  above : later.srv.fields.take pRes.rootlevel = pRes.srv.fields.take pRes.rootlevel
  cache : emptied later.pdc = emptied pRes.pdc

theorem SameMount.refl (pRes : Resource) : SameMount pRes pRes := ⟨rfl, rfl, rfl⟩

theorem SameMount.rootlevel {pRes later : Resource} (same : SameMount pRes later) :
    later.rootlevel = pRes.rootlevel := by
  rw [same.others]

theorem SameMount.trans {pRes later latest : Resource} (first : SameMount pRes later)
    (second : SameMount later latest) : SameMount pRes latest where
  others := by
    rw [second.others, first.others]
  above := by
    have kept := second.above
    rw [first.rootlevel] at kept
    exact kept.trans first.above
  cache := second.cache.trans first.cache

theorem SameMount.withCache {pRes later : Resource} {pdc : Option DirectoryCache}
    (same : SameMount pRes later) (limits : emptied pdc = emptied later.pdc) :
    SameMount pRes { later with pdc } where
  others := by
    rw [same.others]
  above := same.above
  cache := limits.trans same.cache

/-! The cache keeps its limits. -/

section Limits

variable {ph : Platform} {pdc : Option DirectoryCache} {st : FilelistState} {cli : Handle}
  {searchAttr : UInt32} {fn : SmbwrpFileinfo → Program UInt32}

theorem emptied_dcRead (cache : DirectoryCache) (path : CString) (fForceCache : Bool) :
    (dcRead ph cache path fn fForceCache).Returns fun answer =>
      emptied (some answer.2) = emptied (some cache) := by
  unfold dcRead
  split
  · rfl
  · split
    · rfl
    · split
      · exact Prog.returns_bind.mpr (Prog.returns_of_forall fun _ => rfl)
      · refine Prog.returns_perform_bind.mpr fun now => ?_
        split
        · rfl
        · exact Prog.returns_bind.mpr (Prog.returns_of_forall fun _ => rfl)

theorem emptied_dircacheListFiles :
    (dircacheListFiles ph pdc st fn).Returns fun answer => emptied answer.2 = emptied pdc := by
  unfold dircacheListFiles
  split
  · rfl
  · rfl
  · exact Prog.returns_bind.mpr ((emptied_dcRead _ _ false).mono fun _ same => same)

theorem emptied_dcEvict {cache left : DirectoryCache} (evicted : dcEvict cache = some left) :
    emptied (some left) = emptied (some cache) := by
  unfold dcEvict at evicted
  split at evicted
  · split at evicted
    · cases evicted
    · obtain rfl := Option.some.inj evicted
      rfl
  · obtain rfl := Option.some.inj evicted
    rfl

theorem emptied_dircacheWriteBegin (cFiles : Nat) :
    (dircacheWriteBegin ph pdc st cFiles).Returns fun answer => emptied answer.2 = emptied pdc := by
  have started (cache : DirectoryCache) (path : CString) :
      (dcWriteStart ph cache path cFiles).Returns fun answer =>
        emptied (some answer.2) = emptied (some cache) := by
    unfold dcWriteStart
    split
    · exact Prog.returns_bind.mpr (Prog.returns_of_forall fun _ => rfl)
    · rfl
  unfold dircacheWriteBegin
  split
  · rfl
  · rfl
  · split
    · trivial
    · rename_i path cache _ _ left evicted
      have limits := emptied_dcEvict evicted
      refine Prog.returns_bind.mpr ?_
      unfold dcWriteBegin
      split
      · exact limits
      · refine Prog.returns_bind.mpr ((started left path).mono ?_)
        rintro ⟨_ | pdce, begun⟩ same
        · exact same.trans limits
        · exact fun now => same.trans limits

theorem emptied_dircacheWriteEnd (dircachectx : Option DirectoryCacheEntry) :
    (dircacheWriteEnd pdc dircachectx).Returns fun left => emptied left = emptied pdc := by
  cases dircachectx with
  | none => trivial
  | some pdce =>
      simp only [dircacheWriteEnd]
      split
      · rfl
      · refine Prog.returns_bind.mpr (Prog.returns_of_forall fun adjusted => ?_)
        cases pdc <;> rfl

theorem emptied_rule (limits : Option DirectoryCache) :
    CacheInvariant ph (fun pdc => emptied pdc = limits) fun _ => True where
  read state fn same := emptied_dircacheListFiles.mono fun _ kept => kept.trans same
  begun state cFiles same := by
    apply (emptied_dircacheWriteBegin cFiles).mono
    intro answer kept
    exact ⟨trivial, kept.trans same⟩
  written finfo _ := Prog.returns_of_forall fun _ => trivial
  ended _ same := (emptied_dircacheWriteEnd _).mono fun _ kept => kept.trans same
  dropped {pdc} path fParent same := by
    rw [← same]
    cases pdc with
    | none => rfl
    | some cache => rfl

theorem emptied_filelistOn {s : Session} :
    (filelistOn ph s st).Returns fun answer =>
      emptied answer.2.pRes.pdc = emptied s.pRes.pdc ∧
        answer.2 = s.withCache answer.2.pRes.pdc := by
  have rule : CacheInvariant ph (fun pdc => emptied pdc = emptied s.pRes.pdc) fun _ => True :=
    emptied_rule _
  exact rule.filelistOn rfl

end Limits

section Calls

variable {ph : Platform} {pRes : Resource} {s : Session}

theorem pathparser_mount (szPath : CString) (same : SameMount pRes s.pRes) :
    (pathparser ph s szPath).Returns fun answer => SameMount pRes answer.2.1.pRes := by
  refine Prog.returns_iff_runs.mpr ?_
  rintro trace ⟨rc, t, path⟩ run
  cases probe : iftestpath szPath with
  | true =>
      rw [pathparser, if_pos probe] at run
      cases run
      exact same
  | false =>
      have parsed : (connectWatch fun _ => True).Ensures _ (pathparser ph s szPath) 0 :=
        ensures_pathparser_split probe (fits_of_run probe run) fun _ _ _ => trivial
      have split := (parsed.run run (Watch.admits_of_forall _ fun _ _ _ => trivial)).1
      by_cases ok : rc = noError
      · have cache : emptied t.pRes.pdc = emptied s.pRes.pdc := by rw [split.others ok]
        have others := split.others ok
        refine same.trans ⟨?_, split.above ok, cache⟩
        rw [others]
      · rw [(split.failed ok).1]
        exact same

def OnMount (pRes : Resource) (_ : Nat) (s : Session) (_ : Unit) : Prop := SameMount pRes s.pRes

theorem keptSearching_mount (ph : Platform) (pRes : Resource) :
    KeptSearching ph returnsWatch (OnMount pRes) where
  crash _ := trivial
  served same _ _ _ := same
  locked same _ := same
  denied same _ _ := same
  released same _ := same
  parsed szPath same :=
    Watch.ensures_of_returns (fun _ => trivial) (pathparser_mount szPath same)
  invalidated {_ s _} szPath same := by
    refine SameMount.withCache same ?_
    cases cached : s.pRes.pdc <;> rfl
  filed _ same := same
  revived {_ s _} same :=
    Watch.ensures_of_returns (fun _ => trivial)
      ((revive_resource s).mono fun _ kept => kept.symm ▸ same)
  renewed {_ s _} same :=
    Watch.ensures_of_returns (fun _ => trivial) (Prog.returns_bind.mpr
      (Prog.returns_of_forall fun _ => (reconnect_resource s).mono fun _ kept => kept.symm ▸ same))
  clocked same _ := same
  listed state same := by
    refine Watch.ensures_of_returns (fun _ => trivial) (emptied_filelistOn.mono ?_)
    rintro ⟨rc, t⟩ ⟨limits, kept⟩
    have cached := SameMount.withCache same limits
    exact kept ▸ cached

theorem sameMount_call (call : SessionCall) (same : SameMount pRes s.pRes) :
    (call.run ph s).Returns fun answer => SameMount pRes answer.2.pRes := by
  have kept : OnMount pRes 0 s () := same
  refine ((keptSearching_mount ph pRes).every call kept).returns (fun _ _ => trivial) ?_
  exact fun answer _ after => after.elim id id

theorem SameMount.step {system next : System} {call : Call} {trace : List CallEvent} {rc : Int}
    (same : SameMount pRes system.pRes) (run : Run (system.call ph call) trace (some (rc, next))) :
    SameMount pRes next.pRes := by
  by_cases on : ∃ conn ask, call = .on conn ask
  · obtain ⟨conn, ask, rfl⟩ := on
    obtain ⟨pConn, s, -, called, rfl⟩ := System.run_on_iff.mp run
    exact (sameMount_call ask same).run called
  · have kept := (System.call_keeps_resource (not_exists.mp <| not_exists.mp on ·)).run run
    rw [kept]
    exact same

/-- Whatever is called on a mounted Resource, the account, the options and the limits of the
cache stay those of the mount, and so do the names that the mount has fixed. -/
theorem mount_kept {history : List (Taken Op Call Int)} {system : System}
    (reached : Mounted ph pRes history system) : SameMount pRes system.pRes := by
  induction reached with
  | start => exact .refl pRes
  | step _ _ run ih => exact ih.step run

end Calls

theorem mount_kept_listed : SameMount tenSecondsResource listedResource := by
  obtain ⟨history, reached, -⟩ := reaches_listedSystem
  exact mount_kept reached

end NdpSmb
