import NdpSmb.CacheAge
import NdpSmb.CachedAnswer

/-!
How old the answers from the directory cache are, over the calls on a mounted Resource.
A directory listing and the question about one path compare the age of a listing with
different bounds.
-/

namespace NdpSmb

open ByteString Interaction

section Call

variable {ph : Platform} {s : Session} {szPath : CString} {seen later : AgeSeen}
  {pdc : Option DirectoryCache}

structure Quiet (seen : AgeSeen) (pdc : Option DirectoryCache) (s : Session) (later : AgeSeen) :
    Prop where
  still : seen.Still later
  fewer : Smaller s.pRes.pdc pdc

theorem Quiet.next {action : AgeAction} (quiet : Quiet seen pdc s later)
    (unclocked : ∀ now, action ≠ .clock now) : Quiet seen pdc s (later.act action) :=
  ⟨quiet.still.next unclocked, quiet.fewer⟩

theorem Quiet.other (quiet : Quiet seen pdc s later) : Quiet seen pdc s (later.act .other) :=
  quiet.next (by simp)

def Op.Resetting (R : Type) (op : Op R) : Prop := ∀ reply, ageAction ⟨op, reply⟩ = .other

theorem Op.Resetting.unclocked {R : Type} {op : Op R} (resetting : Op.Resetting R op) :
    Op.Unclocked R op := by
  intro reply now
  rw [resetting reply]
  simp

theorem smaller_dircacheInvalidate (path : CString) (fParent : Bool) :
    Smaller (dircacheInvalidate ph path pdc fParent) pdc := by
  intro left same
  obtain ⟨cache, present, rfl⟩ := Option.map_eq_some_iff.mp same
  refine ⟨cache, present, rfl, fun pdce member => ?_⟩
  exact (mem_dcInvalidate ph |>.mp member).1

theorem ensures_resetting {α : Type} {program : Program α} (resetting : program.Only Op.Resetting) :
    ageWatch.Ensures (fun _ later => later.act .other = seen.act .other) program seen := by
  induction program generalizing seen with
  | ret value => rfl
  | call op next ih =>
      intro reply _
      change ageWatch.Ensures _ (next reply) (seen.act (ageAction ⟨op, reply⟩))
      rw [resetting.1 reply]
      exact (ih reply (resetting.2 reply)).mono fun _ later same => same
  | fault => trivial

theorem resetting_smbwrpDisconnect (cli : Option Handle) :
    (smbwrpDisconnect cli).Only Op.Resetting :=
  only_smbwrpDisconnect cli fun _ _ => rfl

theorem resetting_pathparser : (pathparser ph s szPath).Only Op.Resetting := by
  apply only_pathparser
  · exact fun _ _ _ _ _ => rfl
  · exact fun _ _ => rfl

theorem ensures_reconnect_age :
    ageWatch.Ensures
      (fun answer later => later = seen.act .other ∧ answer.2.pRes = s.pRes) (reconnect s) seen := by
  refine Watch.ensures_perform_bind.mpr fun reply _ => ?_
  cases reply <;> exact ⟨rfl, rfl⟩

theorem ensures_revive_age :
    ageWatch.Ensures
      (fun answer later => later = seen.act .other ∧ answer.2.pRes = s.pRes) (revive s) seen := by
  have failed : maperror einval ≠ 0 := by decide
  cases used : s.pConn.cli with
  | none =>
      simp only [revive, used, smbwrpEcho, Prog.pure_eq, Prog.ret_bind, if_pos failed]
      exact ensures_reconnect_age
  | some cli =>
      simp only [revive, used, smbwrpEcho]
      refine Watch.ensures_bind.mpr (Watch.ensures_perform_bind.mpr fun ok _ => ?_)
      cases ok with
      | true => exact ⟨rfl, rfl⟩
      | false => exact ensures_reconnect_age

theorem ensures_renew_age :
    ageWatch.Ensures
      (fun answer later => later = seen.act .other ∧ answer.2.pRes = s.pRes) (renew s) seen := by
  apply (ensures_resetting (resetting_smbwrpDisconnect _)).bind
  exact fun _ later same => same ▸ ensures_reconnect_age

def QuietHeld (seen : AgeSeen) (pdc : Option DirectoryCache) (_ : Nat) (s : Session)
    (later : AgeSeen) : Prop :=
  Quiet seen pdc s later

theorem kept_quiet (ph : Platform) (seen : AgeSeen) (pdc : Option DirectoryCache) :
    Kept ph ageWatch (QuietHeld seen pdc) where
  crash _ := trivial
  served quiet served _ _ := quiet.next (served.unclocked _)
  locked quiet _ := quiet.other
  denied quiet _ _ := quiet.other
  released quiet _ := quiet.other
  parsed szPath quiet := by
    refine ((ensures_unclocked (resetting_pathparser.mono fun _ _ => Op.Resetting.unclocked)
      quiet.still.unread).and_returns (pathparser_moved szPath)).mono ?_
    rintro answer latest ⟨still, moved⟩
    exact ⟨quiet.still.trans still, moved.pdc ▸ quiet.fewer⟩
  invalidated szPath quiet := ⟨quiet.still, (smaller_dircacheInvalidate szPath _).trans quiet.fewer⟩
  filed _ quiet := ⟨quiet.still, quiet.fewer⟩

theorem Quiet.reset {later : AgeSeen} {t : Session} (quiet : Quiet seen pdc s later)
    {latest : AgeSeen} (still : latest = later.act .other) (same : t.pRes = s.pRes) :
    Quiet seen pdc t latest := by
  subst still
  refine ⟨quiet.other.still, ?_⟩
  rw [same]
  exact quiet.fewer

theorem keptConnecting_quiet (ph : Platform) (seen : AgeSeen) (pdc : Option DirectoryCache) :
    KeptConnecting ph ageWatch (QuietHeld seen pdc) where
  toKeptAsking := (kept_quiet ph seen pdc).toKeptAsking
  revived quiet := by
    apply ensures_revive_age.mono
    rintro answer later ⟨still, same⟩
    exact quiet.reset still same
  renewed quiet := by
    apply ensures_renew_age.mono
    rintro answer later ⟨still, same⟩
    exact quiet.reset still same

/-! Listing a directory. -/

section Find

variable {older : List (UInt32 × SmbwrpFileinfo)} {earlier : List DirectoryCacheEntry}
  {timeout : UInt32}

theorem Listing.other (listing : Listing older earlier timeout seen pdc) :
    Listing older earlier timeout (seen.act .other) pdc :=
  ⟨listing.known.smaller (List.Subset.refl _) (Smaller.refl _),
    listing.young.keeps (List.Subset.refl _) rfl⟩

theorem ensures_findAlive_age (state : FilelistState) (unread : seen.fresh = none)
    (listing : Listing older earlier timeout seen s.pRes.pdc) :
    ageWatch.Ensures (fun answer later => Listing older earlier timeout later answer.2.pRes.pdc)
      (findAlive ph s state) seen := by
  apply (ensures_filelistOn_age unread listing).bind
  rintro ⟨rc, t⟩ later first
  simp only
  split
  · apply (Watch.ensures_bind.mp (ensures_renew_age (s := t))).bind
    intro _ _ renewed
    apply renewed.bind
    rintro ⟨_, renewedSession⟩ _ ⟨rfl, same⟩
    have again : Listing older earlier timeout (later.act .other) renewedSession.pRes.pdc := by
      rw [show renewedSession.pRes = t.pRes from same]
      exact first.other
    apply (ensures_filelistOn_age rfl again).bind
    exact fun answer last second _ _ => second.other
  · exact fun _ _ => first.other

theorem ensures_ndpFindStart_age (ulAttribute : UInt32)
    (listing : Listing older earlier timeout seen s.pRes.pdc) :
    ageWatch.Ensures (fun answer later => Listing older earlier timeout later answer.2.pRes.pdc)
      (ndpFindStart ph s szPath ulAttribute) seen := by
  refine Watch.ensures_perform_bind.mpr fun pel _ => ?_
  have asked := listing.other
  refine ensures_enter (fun rcLock _ _ => asked.other) fun _ => ?_
  split
  · trivial
  · have inside : QuietHeld (seen.act .other) s.pRes.pdc 1 s (seen.act .other) :=
      ⟨.refl rfl, Smaller.refl _⟩
    apply ((kept_quiet ph _ _).parsed _ inside).bind
    rintro ⟨rc, t, path⟩ later parsed
    have kept : Listing older earlier timeout later t.pRes.pdc :=
      ⟨(asked.still parsed.still).known.smaller (List.Subset.refl _) parsed.fewer,
        (asked.still parsed.still).young⟩
    simp only
    split
    · exact kept
    · split
      · trivial
      · rw [findServer_eq]
        apply ensures_revive_age.bind
        rintro ⟨rcCon, revived⟩ _ ⟨rfl, same⟩
        have alive : Listing older earlier timeout (later.act .other) revived.pRes.pdc := by
          rw [show revived.pRes = t.pRes from same]
          exact kept.other
        simp only
        split
        · exact alive
        · exact ensures_findAlive_age _ rfl alive

end Find

inductive QueryAged (ph : Platform) (s : Session) (szPath : CString) (later : AgeSeen) : Prop
  | cached {finfo : SmbwrpFileinfo} {pdce : DirectoryCacheEntry} {now : UInt32}
      (listed : cachedInfo ph s szPath = some (finfo, pdce)) (read : later.clock = some now)
      (young : now - pdce.ulLastUpdateTime ≤ 15)
      (given : later.given = [(now, { finfo with easize := -1 })])
  | asked (old : ¬ CacheAnswers ph s szPath later.clock) (given : later.given = [])

theorem ensures_queryNetwork_age (finfo : SmbwrpFileinfo) :
    ageWatch.Ensures
      (fun answer later => Quiet (seen.act .other) s.pRes.pdc answer.2 later)
      (queryNetwork ph s szPath finfo) seen := by
  have kept := keptConnecting_quiet ph (seen.act .other) s.pRes.pdc
  apply ((ensures_resetting resetting_pathparser).and_returns
    (pathparser_moved szPath)).bind
  rintro ⟨rc, t, path⟩ later ⟨reset, moved⟩
  have parsed : Quiet (seen.act .other) s.pRes.pdc t (later.act .other) :=
    ⟨reset ▸ .refl rfl, moved.pdc ▸ Smaller.refl _⟩
  simp only
  split
  · exact fun _ _ => parsed
  · split
    · trivial
    · rw [queryServer_eq]
      apply ensures_revive_age.bind
      rintro ⟨rcCon, revived⟩ _ ⟨rfl, same⟩
      have alive : QuietHeld (seen.act .other) s.pRes.pdc 1 revived (later.act .other) :=
        ⟨parsed.still, by rw [show revived.pRes = t.pRes from same]; exact parsed.fewer⟩
      simp only
      split
      · exact alive
      · apply (kept.queryAlive _ alive).bind
        exact fun answer latest after _ _ => after.other

theorem ensures_queryUncached_age (cached : Option SmbwrpFileinfo) :
    ageWatch.Ensures
      (fun answer later => Quiet (seen.act .other) s.pRes.pdc answer.2 later)
      (queryUncached ph s szPath cached) seen := by
  cases cached with
  | none => exact fun finfo _ =>
      (ensures_queryNetwork_age finfo : ageWatch.Ensures _ _ (seen.act .other))
  | some finfo => exact ensures_queryNetwork_age finfo

theorem ensures_dircacheFindPath_age (plain : hasWildcard szPath = false) :
    ageWatch.Ensures
      (fun found later =>
        match found with
        | none => later = seen
        | some (finfo, ulAge) => ∃ pdce now, cachedInfo ph s szPath = some (finfo, pdce) ∧
            later = seen.act (.clock now) ∧ ulAge = now - pdce.ulLastUpdateTime)
      (dircacheFindPath ph s.pRes.pdc szPath) seen := by
  unfold dircacheFindPath
  split
  · rfl
  · rename_i pdc present
    simp only [plain, Bool.false_eq_true, if_false]
    unfold dcFindPath
    split
    · rfl
    · rename_i finfo pdce found
      refine fun now _ => ⟨pdce, now, ?_, rfl, rfl⟩
      rw [cachedInfo, present, Option.bind_some, found]

theorem ensures_ndpQueryPathInfo_age :
    ageWatch.Ensures
      (fun answer later => QueryAged ph s szPath later ∧ Smaller answer.2.pRes.pdc s.pRes.pdc ∧
        later.begun = [])
      (ndpQueryPathInfo ph s szPath) {} := by
  have nothing : QueryAged ph s szPath {} := .asked not_cacheAnswers_none rfl
  refine ensures_enter (fun rcLock _ _ => ⟨nothing, Smaller.refl _, rfl⟩) fun _ => ?_
  change ageWatch.Ensures _ _ {}
  split
  · exact fun _ _ => ⟨nothing, Smaller.refl _, rfl⟩
  · rename_i plain
    apply (ensures_dircacheFindPath_age (by simpa using plain)).bind
    rintro (_ | ⟨finfo, ulAge⟩) later found
    · obtain rfl := found
      refine (ensures_queryUncached_age none).mono fun answer latest quiet => ?_
      refine ⟨.asked ?_ quiet.still.given, quiet.fewer, quiet.still.begun⟩
      rw [quiet.still.clock]
      exact not_cacheAnswers_none
    · obtain ⟨pdce, now, looked, rfl, rfl⟩ := found
      simp only
      split
      · rename_i young
        exact fun _ _ _ _ => ⟨.cached looked rfl young rfl, Smaller.refl _, rfl⟩
      · rename_i old
        refine (ensures_queryUncached_age (some finfo)).mono fun answer latest quiet => ?_
        refine ⟨.asked ?_ quiet.still.given, quiet.fewer, quiet.still.begun⟩
        rw [quiet.still.clock]
        rintro ⟨_, _, _, looked', read, young⟩
        obtain ⟨rfl, rfl⟩ := Prod.mk.inj (Option.some.inj (looked.symm.trans looked'))
        obtain rfl := Option.some.inj read
        exact old young

def listings (pdc : Option DirectoryCache) : List DirectoryCacheEntry :=
  (pdc.map DirectoryCache.entries).getD []

/-- The listing that an answer comes from: for one path the listing of its parent, for a
directory one that was in the cache before the call, or has been begun during it. -/
def Source (ph : Platform) (s : Session) (begun : List UInt32) (finfo : SmbwrpFileinfo)
    (pdce : DirectoryCacheEntry) : SessionCall → Prop
  | .queryPathInfo szPath => ∃ info, cachedInfo ph s szPath = some (info, pdce) ∧
      finfo = { info with easize := -1 }
  | .findStart .. => KnownListing (listings s.pRes.pdc) begun pdce ∧
      ∃ info ∈ pdce.aInfos, SameData finfo info
  | _ => False

/-- Whatever the call has given from the cache comes from a listing that was begun less
than `timeout` seconds before, when the clock of the cache had one of the `readings`. -/
def AnswersYoung (ph : Platform) (timeout : UInt32) (s : Session) (call : SessionCall)
    (readings : List UInt32) (seen : AgeSeen) : Prop :=
  ∀ given ∈ seen.given, ∃ pdce, Source ph s seen.begun given.2 pdce call ∧
    pdce.ulLastUpdateTime ∈ readings ∧ given.1 - pdce.ulLastUpdateTime < timeout

/-- `NdpQueryPathInfo` finds the path in a listing which is not younger than the timeout,
and not older than its own fifteen seconds. -/
def QueriedLate (ph : Platform) (timeout : UInt32) (s : Session) (clock : Option UInt32) :
    SessionCall → Prop
  | .queryPathInfo szPath => ∃ finfo pdce now, cachedInfo ph s szPath = some (finfo, pdce) ∧
      clock = some now ∧ timeout ≤ now - pdce.ulLastUpdateTime ∧ now - pdce.ulLastUpdateTime ≤ 15
  | _ => False

structure CallAged (ph : Platform) (timeout : UInt32) (s t : Session) (call : SessionCall)
    (later : AgeSeen) : Prop where
  known : KnownCache (listings s.pRes.pdc) timeout later t.pRes.pdc
  queried : ∀ szPath, call = .queryPathInfo szPath → QueryAged ph s szPath later
  found : ∀ szPath ulAttribute, call = .findStart szPath ulAttribute →
    Young [] (listings s.pRes.pdc) timeout later
  plain : call.searches = false → later.given = []

theorem ensures_callAged (timeout : UInt32) (call : SessionCall)
    (timed : ∀ cache, s.pRes.pdc = some cache → cache.ulExpirationTime = timeout) :
    ageWatch.Ensures (fun answer later => CallAged ph timeout s answer.2 call later)
      (call.run ph s) {} := by
  have start : KnownCache (listings s.pRes.pdc) timeout {} s.pRes.pdc := fun cache present =>
    ⟨timed cache present, fun pdce member => .inl (by simpa [listings, present] using member)⟩
  cases searching : call.searches with
  | false =>
      have quiet : QuietHeld {} s.pRes.pdc 0 s {} := ⟨.refl rfl, Smaller.refl _⟩
      refine ((kept_quiet ph {} s.pRes.pdc).plain call searching quiet).mono ?_
      refine fun answer later quiet => ⟨?_, ?_, ?_, fun _ => quiet.still.given⟩
      · exact start.smaller (by simp) quiet.fewer
      · rintro szPath rfl
        simp [SessionCall.searches] at searching
      · rintro szPath ulAttribute rfl
        simp [SessionCall.searches] at searching
  | true =>
      cases call with
      | queryPathInfo szPath =>
          refine ensures_ndpQueryPathInfo_age.mono ?_
          rintro answer later ⟨aged, fewer, begun⟩
          refine ⟨start.smaller (by simp) fewer, ?_, by simp, by simp [SessionCall.searches]⟩
          rintro _ ⟨⟩
          exact aged
      | findStart szPath ulAttribute =>
          have listing : Listing [] (listings s.pRes.pdc) timeout {} s.pRes.pdc :=
            ⟨start, by simp [Young]⟩
          refine (ensures_ndpFindStart_age ulAttribute listing).mono fun answer later after => ?_
          exact ⟨after.known, by simp, fun _ _ _ => after.young, by simp [SessionCall.searches]⟩
      | _ => simp [SessionCall.searches] at searching

theorem mem_listings_of_cachedInfo {finfo : SmbwrpFileinfo} {pdce : DirectoryCacheEntry}
    (cached : cachedInfo ph s szPath = some (finfo, pdce)) : pdce ∈ listings s.pRes.pdc := by
  obtain ⟨pdc, present, found⟩ := Option.bind_eq_some_iff.mp cached
  obtain ⟨entry, member, looked⟩ := List.exists_of_findSome?_eq_some found
  split at looked
  · obtain ⟨info, -, same⟩ := Option.map_eq_some_iff.mp looked
    obtain ⟨-, rfl⟩ := Prod.mk.inj same
    simpa [listings, present] using member
  · simp at looked

variable {timeout : UInt32} {readings : List UInt32}

theorem QueryAged.answersYoung_iff (aged : QueryAged ph s szPath later)
    (dated : ∀ pdce ∈ listings s.pRes.pdc, pdce.ulLastUpdateTime ∈ readings) :
    AnswersYoung ph timeout s (.queryPathInfo szPath) readings later ↔
      ¬ QueriedLate ph timeout s later.clock (.queryPathInfo szPath) := by
  cases aged with
  | asked old given =>
      refine ⟨fun _ late => ?_, fun _ => by simp [AnswersYoung, given]⟩
      obtain ⟨finfo, pdce, now, listed, read, -, young⟩ := late
      exact old ⟨finfo, pdce, now, listed, read, young⟩
  | @cached finfo pdce now listed read young given =>
      constructor
      · rintro answers ⟨_, _, _, listed', read', old, -⟩
        have member : (now, { finfo with easize := -1 }) ∈ later.given := by simp [given]
        obtain ⟨_, ⟨_, source, -⟩, -, fresh⟩ := answers _ member
        obtain ⟨rfl, rfl⟩ := Prod.mk.inj (Option.some.inj (listed.symm.trans listed'))
        obtain ⟨-, rfl⟩ := Prod.mk.inj (Option.some.inj (listed.symm.trans source))
        obtain rfl := Option.some.inj (read.symm.trans read')
        exact absurd old (UInt32.not_le.mpr fresh)
      · intro punctual answer member
        rw [given] at member
        obtain rfl := List.mem_singleton.mp member
        refine ⟨pdce, ⟨finfo, listed, rfl⟩, dated pdce (mem_listings_of_cachedInfo listed), ?_⟩
        by_contra late
        exact punctual ⟨finfo, pdce, now, listed, read, UInt32.not_lt.mp late, young⟩

theorem Young.answersYoung {szPath : CString} {ulAttribute : UInt32}
    (young : Young [] (listings s.pRes.pdc) timeout later)
    (dated : ∀ pdce ∈ listings s.pRes.pdc, pdce.ulLastUpdateTime ∈ readings)
    (kept : later.begun ⊆ readings) :
    AnswersYoung ph timeout s (.findStart szPath ulAttribute) readings later := by
  intro given member
  rcases young given member with older | ⟨pdce, known, info, age⟩
  · simp at older
  · refine ⟨pdce, ⟨known, info⟩, ?_, age⟩
    rcases known with earlier | begun
    · exact dated pdce earlier
    · exact kept begun

theorem CallAged.answersYoung_iff {t : Session} {call : SessionCall}
    (aged : CallAged ph timeout s t call later)
    (dated : ∀ pdce ∈ listings s.pRes.pdc, pdce.ulLastUpdateTime ∈ readings)
    (kept : later.begun ⊆ readings) :
    AnswersYoung ph timeout s call readings later ↔ ¬ QueriedLate ph timeout s later.clock call := by
  cases searching : call.searches with
  | false =>
      have unanswered : AnswersYoung ph timeout s call readings later := by
        simp [AnswersYoung, aged.plain searching]
      refine iff_of_true unanswered fun late => ?_
      cases call with
      | queryPathInfo => simp [SessionCall.searches] at searching
      | _ => exact late
  | true =>
      cases call with
      | queryPathInfo szPath => exact (aged.queried szPath rfl).answersYoung_iff dated
      | findStart szPath ulAttribute =>
          exact iff_of_true ((aged.found _ _ rfl).answersYoung dated kept) not_false
      | _ => simp [SessionCall.searches] at searching

theorem not_queriedLate_of_sixteen (long : 16 ≤ timeout) (call : SessionCall)
    (clock : Option UInt32) : ¬ QueriedLate ph timeout s clock call := by
  cases call with
  | queryPathInfo szPath =>
      rintro ⟨_, _, _, _, _, old, young⟩
      exact absurd (UInt32.le_trans long (UInt32.le_trans old young)) (by decide)
  | _ => exact not_false

end Call

/-! Every history of a mounted Resource. -/

section Runs

variable {ph : Platform} {pRes : Resource} {history : List (Taken Op Call Int)} {system : System}

def begunIn (history : List (Taken Op Call Int)) : List UInt32 :=
  history.flatMap fun taken => (ageSeen taken.trace).begun

@[simp] theorem begunIn_snoc (taken : Taken Op Call Int) :
    begunIn (history ++ [taken]) = begunIn history ++ (ageSeen taken.trace).begun := by
  simp [begunIn]

structure CacheDated (pRes : Resource) (history : List (Taken Op Call Int)) (system : System) :
    Prop where
  timed : ∀ cache, system.pRes.pdc = some cache → cache.ulExpirationTime = pRes.cachetimeout
  dated : ∀ pdce ∈ listings system.pRes.pdc, pdce.ulLastUpdateTime ∈ begunIn history

/-- The cache that is made for a Resource is empty and has its timeout. -/
def NewCache (pRes : Resource) : Prop :=
  ∀ cache, pRes.pdc = some cache → cache.entries = [] ∧ cache.ulExpirationTime = pRes.cachetimeout

theorem returns_initResource : initResource.Returns fun answer => NewCache answer.2 := by
  refine Prog.returns_bind.mpr (Prog.returns_of_forall fun _ => ?_)
  refine Prog.returns_bind.mpr (Prog.returns_of_forall fun options => ?_)
  refine Prog.returns_bind.mpr (Prog.returns_perform_bind.mpr fun malloced => ?_)
  split
  · simp [NewCache]
  · refine Prog.returns_perform_bind.mpr fun rc => ?_
    split
    · simp [NewCache]
    · rintro _ ⟨⟩
      exact ⟨rfl, rfl⟩

theorem returns_ndpMountResource :
    ndpMountResource.Returns fun answer => ∀ pRes, answer.2 = some pRes → NewCache pRes := by
  refine returns_guarded (by simp) (Prog.returns_perform_bind.mpr fun malloced => ?_)
  split
  · simp
  · refine Prog.returns_bind.mpr (returns_initResource.mono ?_)
    rintro ⟨rc, pRes⟩ new
    refine Prog.returns_bind.mpr (Prog.returns_of_forall fun rc mounted kept => ?_)
    simp only [Option.ite_none_right_eq_some, Option.some.injEq] at kept
    exact kept.2 ▸ new

theorem cacheDated_mounted (new : NewCache pRes) : CacheDated pRes [] { pRes } where
  timed cache present := (new cache present).2
  dated pdce member := by
    cases present : pRes.pdc with
    | none => simp [listings, present] at member
    | some cache => simp [listings, present, (new cache present).1] at member

theorem CacheDated.kept {pRes : Resource} {taken : Taken Op Call Int} {next : System}
    (dated : CacheDated pRes history system) (same : next.pRes = system.pRes) :
    CacheDated pRes (history ++ [taken]) next where
  timed := same ▸ dated.timed
  dated pdce member := by
    rw [same] at member
    simp [dated.dated pdce member]

theorem CacheDated.step {pRes : Resource} {conn : Nat} {pConn : Connection} {ask : SessionCall}
    {trace : List CallEvent} {rc : Int} {s : Session} (dated : CacheDated pRes history system)
    (run : Run (ask.run ph ⟨system.pRes, pConn⟩) trace (some (rc, s))) :
    CacheDated pRes (history ++ [⟨.on conn ask, trace, rc⟩]) (system.returned conn s) := by
  have aged : CallAged ph pRes.cachetimeout _ s ask (ageSeen trace) :=
    (ensures_callAged pRes.cachetimeout ask dated.timed).run run
      (Watch.admits_of_forall _ fun _ _ _ => trivial)
  refine ⟨fun cache present => (aged.known cache present).1, fun pdce member => ?_⟩
  cases present : s.pRes.pdc with
  | none => simp [System.returned, listings, present] at member
  | some cache =>
      have linked : pdce ∈ cache.entries := by simpa [System.returned, listings, present] using member
      rw [begunIn_snoc, List.mem_append]
      exact ((aged.known cache present).2 pdce linked).imp_left (dated.dated pdce)

theorem cacheDated_reached (new : NewCache pRes) (reached : Mounted ph pRes history system) :
    CacheDated pRes history system := by
  induction reached with
  | start => exact cacheDated_mounted new
  | @step history state label trace answer next _ _ run ih =>
      by_cases on : ∃ conn ask, label = .on conn ask
      · obtain ⟨conn, ask, rfl⟩ := on
        obtain ⟨pConn, s, -, called, rfl⟩ := System.run_on_iff.mp run
        exact ih.step called
      · exact ih.kept ((System.call_keeps_resource (not_exists.mp <| not_exists.mp on ·)).run run)

/-- Whatever has happened since a Resource was mounted, what a call gives from the cache
comes from listings that were begun less than the configured timeout before, but where
`NdpQueryPathInfo` finds its path in a listing between that timeout and fifteen seconds old. -/
theorem answersYoung_reached_iff {mountTrace : List CallEvent} {mountRc : Int}
    (mounted : Run ndpMountResource mountTrace (some (mountRc, some pRes)))
    (reached : Mounted ph pRes history system) {pConn : Connection} {call : SessionCall}
    {trace : List CallEvent} {answer : Int × Session}
    (run : Run (call.run ph ⟨system.pRes, pConn⟩) trace (some answer)) :
    AnswersYoung ph pRes.cachetimeout ⟨system.pRes, pConn⟩ call
        (begunIn history ++ (ageSeen trace).begun) (ageSeen trace) ↔
      ¬ QueriedLate ph pRes.cachetimeout ⟨system.pRes, pConn⟩ (ageSeen trace).clock call := by
  have dated := cacheDated_reached (returns_ndpMountResource.run mounted pRes rfl) reached
  have aged : CallAged ph pRes.cachetimeout _ answer.2 call (ageSeen trace) :=
    (ensures_callAged pRes.cachetimeout call dated.timed).run run
      (Watch.admits_of_forall _ fun _ _ _ => trivial)
  exact aged.answersYoung_iff (fun pdce member => List.mem_append_left _ (dated.dated pdce member))
    (List.subset_append_right _ _)

end Runs

def tenSeconds (now : UInt32) : (R : Type) → Op R → R
  | _, .fsphQueryStringProperty name =>
      if name = bytes "SERVER" ∨ name = bytes "SHARE" then (0, some (bytes "S"), 1) else (1, none, 0)
  | _, .fsphQueryUlongProperty name =>
      (0, if name = bytes "CTO" then 10 else if name = bytes "CLD" then 8 else 0)
  | _, .request _ .connProtocolSmb2 => false
  | _, .request _ .connHasAsyncCalls => false
  | _, .request _ .cliListRecv => some [
      { size := 5, mode := 32, btimeTs := 0, atimeTs := 0, mtimeTs := 0, ctimeTs := 0
        name := bytes "F" }]
  | _, .fsphNameElem => some { length := 1, name := bytes "*" }
  | _, .timesec => now
  | _, op => op.usual

def tenSecondsResource : Resource :=
  { rootlevel := 3, srv := { serverName := bytes "S", shareName := bytes "S" }
    cachetimeout := 10, cachedepth := 8
    pdc := some { fEnabled := true, ulExpirationTime := 10, cMaxEntries := 8 } }

def tenSecondsConnection : Connection := { cli := some 0, file := { fd := -1 } }

def tenSecondsListing : DirectoryCacheEntry :=
  { aInfos := [{ size := 5, attr := 32, easize := -1, fname := bytes "F" }], cInfosAllocated := 1
    pszPath := bytes "D", ulHash := computehash (bytes "D"), ulLastUpdateTime := 0 }

def listedResource : Resource :=
  { tenSecondsResource with
    pdc := some { entries := [tenSecondsListing], fEnabled := true, ulExpirationTime := 10
                  cMaxEntries := 8 } }

def listedSystem : System := { pRes := listedResource, conns := [some tenSecondsConnection] }

def tenSecondsMount : List CallEvent := (exec (fun _ => tenSeconds 0) 0 ndpMountResource).1

theorem run_tenSecondsMount :
    Run ndpMountResource tenSecondsMount (some (0, some tenSecondsResource)) :=
  (show (exec (fun _ => tenSeconds 0) 0 ndpMountResource).2 = some (0, some tenSecondsResource)
    by decide) ▸ run_exec _ _ _

theorem reaches_listedSystem :
    ∃ history, Mounted asciiPlatform tenSecondsResource history listedSystem ∧
      begunIn history = [0] := by
  have mounted : Mounted asciiPlatform tenSecondsResource [] { pRes := tenSecondsResource } := .start
  have connected := mounted.executed (fun _ => tenSeconds 0) .createConnection 0
    { pRes := tenSecondsResource, conns := [some tenSecondsConnection] } trivial (by decide)
  have listed := connected.executed (fun _ => tenSeconds 0)
    (.on 0 (.findStart (bytes "D\\*") 0x37)) 0 listedSystem trivial (by decide)
  exact ⟨_, listed, by decide⟩

def listedSession : Session := ⟨listedResource, tenSecondsConnection⟩

def twelveTrace : List CallEvent :=
  (exec (fun _ => tenSeconds 12) 0
    (SessionCall.run asciiPlatform listedSession (.queryPathInfo (bytes "D\\F")))).1

theorem run_twelveTrace :
    Run (SessionCall.run asciiPlatform listedSession (.queryPathInfo (bytes "D\\F"))) twelveTrace
      (some (noError, listedSession)) :=
  (show (exec (fun _ => tenSeconds 12) 0
      (SessionCall.run asciiPlatform listedSession (.queryPathInfo (bytes "D\\F")))).2 =
    some (noError, listedSession) by decide) ▸ run_exec _ _ _

theorem answersYoung_reached_iff_twelve :
    ∃ history, Mounted asciiPlatform tenSecondsResource history listedSystem ∧
      (AnswersYoung asciiPlatform 10 listedSession (.queryPathInfo (bytes "D\\F"))
          (begunIn history ++ (ageSeen twelveTrace).begun) (ageSeen twelveTrace) ↔
        ¬ QueriedLate asciiPlatform 10 listedSession (ageSeen twelveTrace).clock
          (.queryPathInfo (bytes "D\\F"))) := by
  obtain ⟨history, reached, -⟩ := reaches_listedSystem
  exact ⟨history, reached, answersYoung_reached_iff run_tenSecondsMount reached run_twelveTrace⟩

/-- The record that is given is twelve seconds old. -/
theorem queryPathInfo_twelve_of_ten :
    ∃ history, Mounted asciiPlatform tenSecondsResource history listedSystem ∧
      Run (SessionCall.run asciiPlatform listedSession (.queryPathInfo (bytes "D\\F"))) twelveTrace
        (some (noError, listedSession)) ∧
      ¬ AnswersYoung asciiPlatform 10 listedSession (.queryPathInfo (bytes "D\\F"))
        (begunIn history ++ (ageSeen twelveTrace).begun) (ageSeen twelveTrace) := by
  obtain ⟨history, reached, begun⟩ := reaches_listedSystem
  refine ⟨history, reached, run_twelveTrace, fun answers => ?_⟩
  have given : (ageSeen twelveTrace).given =
      [(12, { size := 5, attr := 32, easize := -1, fname := bytes "F" })] := by decide
  have none_else : begunIn history ++ (ageSeen twelveTrace).begun = [0] := by
    rw [begun]
    decide
  obtain ⟨pdce, -, dated, age⟩ := answers _ (given ▸ List.mem_singleton_self _)
  rw [none_else] at dated
  rw [List.mem_singleton.mp dated] at age
  exact absurd age (by decide)

end NdpSmb
