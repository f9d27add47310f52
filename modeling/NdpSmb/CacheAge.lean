import NdpSmb.CallRule
import NdpSmb.CachedAnswer

/-!
How old the listings are that answers from the directory cache come from. A listing
carries the clock as it was read when its write session began; the listing of a directory
and the question about one path compare it with the clock in different ways.
-/

namespace NdpSmb

open ByteString Interaction

/-- `clock` is the last reading, and `begun` are those with which write sessions have begun.
`given` are the records handed over with nothing but records since the clock was read for
the cache, each with that reading. -/
structure AgeSeen where
  clock : Option UInt32 := none
  received : Bool := false
  fresh : Option UInt32 := none
  begun : List UInt32 := []
  given : List (UInt32 × SmbwrpFileinfo) := []

inductive AgeAction
  | clock (now : UInt32)
  | handed (finfo : SmbwrpFileinfo)
  | status
  | received
  | allocated
  | opening
  | other

def ageAction : CallEvent → AgeAction
  | ⟨.timesec, now⟩ => .clock now
  | ⟨.fsphAddFile32L _ _ finfo, _⟩ => .handed finfo
  | ⟨.missingReturnValue, _⟩ => .status
  | ⟨.request _ .cliListRecv, _⟩ => .received
  | ⟨.malloc _, _⟩ => .allocated
  | ⟨.request _ .connHasAsyncCalls, _⟩ => .opening
  | _ => .other

/-- A session begins when the clock is read behind a received SMB1 listing, and directly
before an SMB2 listing looks at its connection. -/
def AgeSeen.act (seen : AgeSeen) : AgeAction → AgeSeen
  | .clock now =>
      if seen.received then
        { seen with clock := some now, fresh := none, begun := seen.begun ++ [now] }
      else { seen with clock := some now, fresh := some now }
  | .handed finfo =>
      { seen with given := seen.given ++ seen.fresh.toList.map fun now => (now, finfo) }
  | .status => seen
  | .received => { seen with received := true, fresh := none }
  | .allocated => { seen with fresh := none }
  | .opening =>
      { seen with received := false, fresh := none, begun := seen.begun ++ seen.fresh.toList }
  | .other => { seen with received := false, fresh := none }

def ageWatch : Watch Op AgeSeen where
  observe seen event := seen.act (ageAction event)

def ageSeen (trace : List CallEvent) : AgeSeen := ageWatch.after {} trace

theorem AgeSeen.begun_act (seen : AgeSeen) (action : AgeAction) :
    seen.begun ⊆ (seen.act action).begun := by
  intro stamp member
  cases action <;> simp only [AgeSeen.act] <;> try exact member
  · split
    · exact List.mem_append_left _ member
    · exact member
  · exact List.mem_append_left _ member

theorem ensures_begun {α : Type} (program : Program α) (seen : AgeSeen) :
    ageWatch.Ensures (fun _ later => seen.begun ⊆ later.begun) program seen :=
  Watch.ensures_of_stable (fun memory _ known => List.Subset.trans known (memory.begun_act _))
    (fun _ _ => trivial) (List.Subset.refl _)

structure AgeSeen.Still (seen later : AgeSeen) : Prop where
  unread : later.fresh = none
  clock : later.clock = seen.clock
  begun : later.begun = seen.begun
  given : later.given = seen.given

theorem AgeSeen.Still.act {seen : AgeSeen} (unread : seen.fresh = none) {action : AgeAction}
    (unclocked : ∀ now, action ≠ .clock now) : seen.Still (seen.act action) := by
  cases action with
  | clock now => exact absurd rfl (unclocked now)
  | handed finfo => exact ⟨unread, rfl, rfl, by simp [AgeSeen.act, unread]⟩
  | opening => exact ⟨rfl, rfl, by simp [AgeSeen.act, unread], rfl⟩
  | status => exact ⟨unread, rfl, rfl, rfl⟩
  | received | allocated | other => exact ⟨rfl, rfl, rfl, rfl⟩

theorem AgeSeen.Still.refl {seen : AgeSeen} (unread : seen.fresh = none) : seen.Still seen :=
  ⟨unread, rfl, rfl, rfl⟩

theorem AgeSeen.Still.trans {seen later latest : AgeSeen} (first : seen.Still later)
    (second : later.Still latest) : seen.Still latest :=
  ⟨second.unread, second.clock.trans first.clock, second.begun.trans first.begun,
    second.given.trans first.given⟩

theorem Op.ServedBy.unclocked {cli : Option Handle} {R : Type} {op : Op R}
    (served : Op.ServedBy cli R op) (reply : R) (now : UInt32) :
    ageAction ⟨op, reply⟩ ≠ .clock now := by
  cases op with
  | timesec => exact absurd served id
  | request cli ask => cases ask <;> simp [ageAction]
  | _ => simp [ageAction]

def Op.Unclocked (R : Type) (op : Op R) : Prop := ∀ reply now, ageAction ⟨op, reply⟩ ≠ .clock now

theorem ensures_unclocked {α : Type} {program : Program α} {seen : AgeSeen}
    (unclocked : program.Only Op.Unclocked) (unread : seen.fresh = none) :
    ageWatch.Ensures (fun _ later => seen.Still later) program seen := by
  induction program generalizing seen with
  | ret value => exact .refl unread
  | call op next ih =>
      intro reply _
      have first := AgeSeen.Still.act unread (unclocked.1 reply)
      exact (ih reply (unclocked.2 reply) first.unread).mono fun _ later rest => first.trans rest
  | fault => trivial

theorem ensures_still {α : Type} {cli : Option Handle} {program : Program α} {seen : AgeSeen}
    (served : program.Only (Op.ServedBy cli)) (unread : seen.fresh = none) :
    ageWatch.Ensures (fun _ later => seen.Still later) program seen :=
  ensures_unclocked (served.mono fun _ _ served => served.unclocked) unread

/-! What becomes of the cache. -/

def Smaller (later pdc : Option DirectoryCache) : Prop :=
  ∀ left, later = some left → ∃ cache, pdc = some cache ∧
    left.ulExpirationTime = cache.ulExpirationTime ∧ left.entries ⊆ cache.entries

theorem Smaller.refl (pdc : Option DirectoryCache) : Smaller pdc pdc :=
  fun left same => ⟨left, same, rfl, List.Subset.refl _⟩

theorem smaller_dcRemoveFound (ph : Platform) (pdc : DirectoryCache) (path : CString)
    (fPrefix : Bool) : Smaller (some (dcRemoveFound ph pdc path fPrefix)) (some pdc) := by
  rintro _ ⟨⟩
  exact ⟨pdc, rfl, rfl, List.eraseP_subset⟩

section Cache

variable {ph : Platform} {pdc : Option DirectoryCache} {state : FilelistState}
  {fn : SmbwrpFileinfo → Program UInt32} {searchAttr : UInt32} {cli : Handle}

theorem smaller_dcRead (pdc : DirectoryCache) (path : CString) (fForceCache : Bool) :
    (dcRead ph pdc path fn fForceCache).Returns fun answer => Smaller (some answer.2) (some pdc) := by
  unfold dcRead
  split
  · exact Smaller.refl _
  · split
    · exact Smaller.refl _
    · split
      · exact Prog.returns_bind.mpr (Prog.returns_of_forall fun _ => Smaller.refl _)
      · refine Prog.returns_perform_bind.mpr fun now => ?_
        split
        · exact smaller_dcRemoveFound ph pdc _ _
        · exact Prog.returns_bind.mpr (Prog.returns_of_forall fun _ => Smaller.refl _)

theorem smaller_dircacheListFiles :
    (dircacheListFiles ph pdc state fn).Returns fun answer => Smaller answer.2 pdc := by
  unfold dircacheListFiles
  split
  · exact Smaller.refl _
  · exact Smaller.refl _
  · exact Prog.returns_bind.mpr ((smaller_dcRead _ _ false).mono fun _ fewer => fewer)

theorem smaller_dcEvict {pdc left : DirectoryCache} (evicted : dcEvict pdc = some left) :
    Smaller (some left) (some pdc) := by
  unfold dcEvict at evicted
  split at evicted
  · split at evicted
    · simp at evicted
    · obtain rfl := Option.some.inj evicted
      rintro _ ⟨⟩
      exact ⟨pdc, rfl, rfl, List.dropLast_subset _⟩
  · obtain rfl := Option.some.inj evicted
    exact Smaller.refl _

theorem Smaller.trans {later middle pdc : Option DirectoryCache} (second : Smaller later middle)
    (first : Smaller middle pdc) : Smaller later pdc := by
  intro left same
  obtain ⟨cache, found, timeout, kept⟩ := second left same
  obtain ⟨whole, present, sameTimeout, more⟩ := first cache found
  exact ⟨whole, present, timeout.trans sameTimeout, List.Subset.trans kept more⟩

theorem smaller_dcWriteBegin (pdc : DirectoryCache) (path : CString) (cFiles : Nat) :
    (dcWriteBegin ph pdc path cFiles).Returns fun answer =>
      Smaller (some answer.2) (some pdc) := by
  unfold dcWriteBegin
  split
  · exact Smaller.refl _
  · have started : (dcWriteStart ph pdc path cFiles).Returns
        fun answer => Smaller (some answer.2) (some pdc) := by
      unfold dcWriteStart
      split
      · exact Prog.returns_bind.mpr (Prog.returns_of_forall fun _ => Smaller.refl _)
      · exact smaller_dcRemoveFound ph pdc _ _
    refine Prog.returns_bind.mpr (started.mono ?_)
    rintro ⟨_ | pdce, left⟩ fewer
    · exact fewer
    · exact fun now => fewer

theorem smaller_dircacheWriteBegin (cFiles : Nat) :
    (dircacheWriteBegin ph pdc state cFiles).Returns fun answer => Smaller answer.2 pdc := by
  unfold dircacheWriteBegin
  split
  · exact Smaller.refl _
  · exact Smaller.refl _
  · split
    · trivial
    · rename_i left evicted
      refine Prog.returns_bind.mpr ((smaller_dcWriteBegin left _ cFiles).mono ?_)
      exact fun answer fewer => fewer.trans (smaller_dcEvict evicted)

def stamp (dircachectx : Option DirectoryCacheEntry) : Option UInt32 :=
  dircachectx.map DirectoryCacheEntry.ulLastUpdateTime

theorem stamp_dircacheWriteEntry (dircachectx : Option DirectoryCacheEntry)
    (finfo : SmbwrpFileinfo) :
    (dircacheWriteEntry dircachectx finfo).Returns fun later => stamp later = stamp dircachectx := by
  cases dircachectx with
  | none => rfl
  | some pdce =>
      refine Prog.returns_bind.mpr ?_
      unfold dceWriteEntry
      split
      · refine Prog.returns_perform_bind.mpr fun grown => ?_
        split <;> rfl
      · rfl

theorem returns_listEntries (failed : Option BadStatus) (infos : List FileInfo)
    (progress : ListProgress) :
    (listEntries ph searchAttr fn failed infos progress).Returns fun answer =>
      stamp answer.2.dircachectx = stamp progress.dircachectx := by
  induction infos generalizing progress with
  | nil =>
      unfold listEntries
      split <;> rfl
  | cons finfo infos ih =>
      unfold listEntries
      split
      · refine Prog.returns_bind.mpr (Prog.returns_of_forall fun status => ?_)
        refine Prog.returns_bind.mpr ((stamp_dircacheWriteEntry _ _).mono fun next same => ?_)
        simp only
        split
        · exact same
        · exact (ih _).mono fun _ later => later.trans same
      · exact ih _

theorem returns_listReplies (mask : CString) (queries : Nat) (progress : ListProgress) :
    (listReplies ph searchAttr fn cli mask queries progress).Returns fun answer =>
      stamp answer.2.dircachectx = stamp progress.dircachectx := by
  induction queries generalizing progress with
  | zero => trivial
  | succ queries ih =>
      refine Prog.returns_perform_bind.mpr fun reply => ?_
      cases reply with
      | error status =>
          simp only
          split <;> rfl
      | ok dirData =>
          refine Prog.returns_bind.mpr ((returns_listEntries _ _ _).mono ?_)
          rintro ⟨replied | status, progress⟩ same
          · exact same
          · simp only
            split
            · exact same
            · split
              · exact (ih _).mono fun _ later => later.trans same
              · exact same

/-- The cache as it was, or with the listing that was begun. -/
def Grown (later pdc : Option DirectoryCache) (began : Option UInt32) : Prop :=
  ∀ left, later = some left → ∃ cache, pdc = some cache ∧
    left.ulExpirationTime = cache.ulExpirationTime ∧
    ∀ pdce ∈ left.entries, pdce ∈ cache.entries ∨ began = some pdce.ulLastUpdateTime

theorem Grown.refl (pdc : Option DirectoryCache) (began : Option UInt32) : Grown pdc pdc began :=
  fun left same => ⟨left, same, rfl, fun _ member => .inl member⟩

theorem grown_dircacheWriteEnd (dircachectx : Option DirectoryCacheEntry) :
    (dircacheWriteEnd pdc dircachectx).Returns fun later => Grown later pdc (stamp dircachectx) := by
  cases dircachectx with
  | none => trivial
  | some pdce =>
      simp only [dircacheWriteEnd]
      split
      · exact Grown.refl _ _
      · have adjusted : (dceAdjust pdce).Returns
            fun next => next.ulLastUpdateTime = pdce.ulLastUpdateTime := by
          simp only [dceAdjust]
          split
          · refine Prog.returns_perform_bind.mpr fun shrunk => ?_
            split <;> rfl
          · rfl
        refine Prog.returns_bind.mpr (adjusted.mono fun next same => ?_)
        cases pdc with
        | none => exact Grown.refl _ _
        | some cache =>
            rintro _ ⟨⟩
            refine ⟨cache, rfl, rfl, fun listing member => ?_⟩
            rcases List.mem_cons.mp member with rfl | older
            · exact .inr (congrArg some same.symm)
            · exact .inl older

theorem returns_listContext (dircachectx : Option DirectoryCacheEntry) (pathname : CString) :
    (listContext ph searchAttr fn pdc dircachectx cli pathname).Returns fun listed =>
      Grown listed.pdc pdc (stamp dircachectx) := by
  refine Prog.returns_perform_bind.mpr fun asyncCalls => ?_
  split
  · exact Grown.refl _ _
  refine Prog.returns_perform_bind.mpr fun smb2 => ?_
  split
  · exact Grown.refl _ _
  refine Prog.returns_perform_bind.mpr fun parent => ?_
  cases parent with
  | none => exact Grown.refl _ _
  | some parent =>
      refine Prog.returns_perform_bind.mpr fun created => ?_
      cases created with
      | error status => exact Grown.refl _ _
      | ok fnum =>
          refine Prog.returns_bind.mpr ?_
          have mapped : (listMapped ph searchAttr fn pdc dircachectx cli fnum parent.2).Returns
              fun listed => Grown listed.pdc pdc (stamp dircachectx) := by
            refine Prog.returns_perform_bind.mpr fun status => ?_
            split
            · exact Grown.refl _ _
            · refine Prog.returns_bind.mpr ((returns_listReplies _ _ _).mono ?_)
              rintro ⟨status | status, progress⟩ same
              · exact Grown.refl _ _
              · refine Prog.returns_bind.mpr ((grown_dircacheWriteEnd _).mono fun later grown => ?_)
                rw [same] at grown
                exact grown
          refine mapped.mono fun listed grown => ?_
          unfold closeFnum
          split
          · exact fun _ => grown
          · exact grown

theorem returns_listReceived (infos : List FileInfo) (dircachectx : Option DirectoryCacheEntry) :
    (listReceived fn infos dircachectx).Returns fun later => stamp later = stamp dircachectx := by
  induction infos generalizing dircachectx with
  | nil => rfl
  | cons finfo infos ih =>
      refine Prog.returns_bind.mpr (Prog.returns_of_forall fun _ => ?_)
      refine Prog.returns_bind.mpr ((stamp_dircacheWriteEntry _ _).mono fun next same => ?_)
      exact (ih next).mono fun _ later => later.trans same

def SameData (finfo info : SmbwrpFileinfo) : Prop :=
  { finfo with fname := [], easize := 0 } = { info with fname := [], easize := 0 }

/-- A listing that was there earlier, or whose session has begun since. -/
def KnownListing (earlier : List DirectoryCacheEntry) (begun : List UInt32)
    (pdce : DirectoryCacheEntry) : Prop :=
  pdce ∈ earlier ∨ pdce.ulLastUpdateTime ∈ begun

def KnownCache (earlier : List DirectoryCacheEntry) (timeout : UInt32) (seen : AgeSeen)
    (pdc : Option DirectoryCache) : Prop :=
  ∀ cache, pdc = some cache → cache.ulExpirationTime = timeout ∧
    ∀ pdce ∈ cache.entries, KnownListing earlier seen.begun pdce

/-- A record given from the cache comes from a listing that is younger than the timeout. -/
def YoungRecord (earlier : List DirectoryCacheEntry) (timeout : UInt32) (begun : List UInt32)
    (given : UInt32 × SmbwrpFileinfo) : Prop :=
  ∃ pdce, KnownListing earlier begun pdce ∧ (∃ info ∈ pdce.aInfos, SameData given.2 info) ∧
    given.1 - pdce.ulLastUpdateTime < timeout

def Young (older : List (UInt32 × SmbwrpFileinfo)) (earlier : List DirectoryCacheEntry)
    (timeout : UInt32) (seen : AgeSeen) : Prop :=
  ∀ given ∈ seen.given, given ∈ older ∨ YoungRecord earlier timeout seen.begun given

variable {older : List (UInt32 × SmbwrpFileinfo)} {earlier : List DirectoryCacheEntry}
  {timeout : UInt32} {seen later : AgeSeen}
  {srv : SmbwrpServer} {st : FilelistState} {pdce : DirectoryCacheEntry}

theorem KnownListing.mono {begun more : List UInt32} (known : KnownListing earlier begun pdce)
    (kept : begun ⊆ more) : KnownListing earlier more pdce :=
  known.imp_right fun member => kept member

theorem KnownCache.grown {left : Option DirectoryCache} {began : Option UInt32}
    (known : KnownCache earlier timeout seen pdc) (kept : seen.begun ⊆ later.begun)
    (grown : Grown left pdc began) (dated : ∀ reading, began = some reading → reading ∈ later.begun) :
    KnownCache earlier timeout later left := by
  intro cache same
  obtain ⟨whole, present, timeoutKept, listings⟩ := grown cache same
  obtain ⟨timed, known⟩ := known whole present
  refine ⟨timeoutKept.trans timed, fun pdce member => ?_⟩
  rcases listings pdce member with older | new
  · exact (known pdce older).mono kept
  · exact .inr (dated _ new)

theorem KnownCache.smaller {left : Option DirectoryCache}
    (known : KnownCache earlier timeout seen pdc) (kept : seen.begun ⊆ later.begun)
    (fewer : Smaller left pdc) : KnownCache earlier timeout later left := by
  intro cache same
  obtain ⟨whole, present, timeoutKept, listings⟩ := fewer cache same
  obtain ⟨timed, known⟩ := known whole present
  exact ⟨timeoutKept.trans timed, fun pdce member => (known pdce (listings member)).mono kept⟩

theorem Young.keeps (young : Young older earlier timeout seen) (kept : seen.begun ⊆ later.begun)
    (given : later.given = seen.given) : Young older earlier timeout later := by
  intro record member
  rw [given] at member
  refine (young record member).imp_right ?_
  rintro ⟨pdce, known, data, age⟩
  exact ⟨pdce, known.mono kept, data, age⟩

theorem AgeSeen.Still.young (still : seen.Still later) (young : Young older earlier timeout seen) :
    Young older earlier timeout later :=
  young.keeps (still.begun ▸ List.Subset.refl _) still.given

theorem ensures_smbwrpDirAdd_given (finfo : SmbwrpFileinfo) :
    ageWatch.Ensures
      (fun _ later => later.fresh = seen.fresh ∧ later.begun = seen.begun ∧
        ∀ given ∈ later.given, given ∈ seen.given ∨
          seen.fresh = some given.1 ∧ SameData given.2 finfo)
      (smbwrpDirAdd ph srv st finfo) seen := by
  simp only [smbwrpDirAdd]
  split
  · trivial
  · refine Watch.ensures_bind.mpr ?_
    simp only [getfindinfoL]
    split
    · refine fun _ _ status _ => ⟨rfl, rfl, fun given member => ?_⟩
      rcases List.mem_append.mp member with older | new
      · exact .inl older
      · obtain ⟨now, read, rfl⟩ := List.mem_map.mp new
        exact .inr ⟨Option.mem_toList.mp read, rfl⟩
    · exact fun status _ => ⟨rfl, rfl, fun given member => .inl member⟩

theorem ensures_addEach (infos : List SmbwrpFileinfo) (young : Young older earlier timeout seen)
    (known : KnownListing earlier seen.begun pdce) (listed : infos ⊆ pdce.aInfos)
    (age : ∀ now, seen.fresh = some now → now - pdce.ulLastUpdateTime < timeout) :
    ageWatch.Ensures (fun _ later => Young older earlier timeout later)
      (addEach (smbwrpDirAdd ph srv st) infos) seen := by
  induction infos generalizing seen with
  | nil => exact young
  | cons info infos ih =>
      apply (ensures_smbwrpDirAdd_given info).bind
      rintro _ next ⟨fresh, begun, given⟩
      have knownNext : KnownListing earlier next.begun pdce := begun ▸ known
      refine ih (fun record member => ?_) knownNext (List.subset_of_cons_subset listed)
        (fresh ▸ age)
      rcases given record member with before | ⟨read, data⟩
      · exact begun ▸ young record before
      · exact .inr ⟨pdce, knownNext, ⟨info, listed List.mem_cons_self, data⟩, age _ read⟩

theorem dceExpired_eq_false_iff (now : UInt32) :
    dceExpired now pdce timeout = false ↔ now - pdce.ulLastUpdateTime < timeout := by
  simp [dceExpired]

theorem ensures_dcRead {cache : DirectoryCache} (path : CString)
    (known : KnownCache earlier timeout seen (some cache)) (young : Young older earlier timeout seen) :
    ageWatch.Ensures (fun _ later => Young older earlier timeout later)
      (dcRead ph cache path (smbwrpDirAdd ph srv st) false) seen := by
  obtain ⟨timed, listings⟩ := known cache rfl
  unfold dcRead
  split
  · exact young
  · split
    · exact young
    · rename_i pdce found
      simp only [Bool.false_eq_true, if_false]
      refine Watch.ensures_perform_bind.mpr fun now _ => ?_
      have kept := seen.begun_act (.clock now)
      have same : (seen.act (.clock now)).given = seen.given := by
        simp only [AgeSeen.act]
        split <;> rfl
      have youngNow := young.keeps kept same
      split
      · exact youngNow
      · rename_i fresh
        rw [Bool.not_eq_true, timed, dceExpired_eq_false_iff] at fresh
        have member := List.mem_of_find?_eq_some found
        refine Watch.ensures_bind.mpr ((ensures_addEach pdce.aInfos youngNow
          ((listings pdce member).mono kept) (List.Subset.refl _) ?_).mono fun _ _ after => after)
        intro reading read
        simp only [AgeSeen.act] at read
        split at read
        · simp at read
        · obtain rfl := Option.some.inj read
          exact fresh

theorem ensures_dircacheListFiles (known : KnownCache earlier timeout seen pdc)
    (young : Young older earlier timeout seen) :
    ageWatch.Ensures (fun _ later => Young older earlier timeout later)
      (dircacheListFiles ph pdc state (smbwrpDirAdd ph srv st)) seen := by
  unfold dircacheListFiles
  split
  · exact young
  · exact young
  · apply (ensures_dcRead _ known young).bind
    intro _ _ after
    exact after

/-! The beginning of a write session, and what follows. -/

structure AgeSeen.Idle (seen later : AgeSeen) : Prop where
  received : later.received = seen.received
  begun : later.begun = seen.begun
  given : later.given = seen.given
  unread : seen.fresh = none → later.fresh = none

theorem ensures_dceCreate (path : CString) (cFiles : Nat) :
    ageWatch.Ensures (fun _ later => seen.Idle later) (dceCreate path cFiles) seen := by
  refine Watch.ensures_perform_bind.mpr fun entry _ => ?_
  split
  · exact ⟨rfl, rfl, rfl, fun _ => rfl⟩
  refine Watch.ensures_perform_bind.mpr fun infos _ => ?_
  split
  · exact ⟨rfl, rfl, rfl, fun _ => rfl⟩
  refine Watch.ensures_perform_bind.mpr fun copy _ => ?_
  split
  · trivial
  · exact ⟨rfl, rfl, rfl, fun _ => rfl⟩

/-- The reading with which a session begins is at hand, or behind a received listing has
been noted. -/
structure AgeSeen.Opened (seen later : AgeSeen) (dircachectx : Option DirectoryCacheEntry) :
    Prop where
  given : later.given = seen.given
  kept : seen.begun ⊆ later.begun
  dated : ∀ reading, stamp dircachectx = some reading →
    later.fresh = some reading ∨ reading ∈ later.begun
  received : seen.received = true → seen.fresh = none → later.fresh = none

theorem AgeSeen.Idle.opened (idle : seen.Idle later) : seen.Opened later none :=
  ⟨idle.given, idle.begun ▸ List.Subset.refl _, by simp [stamp], fun _ => idle.unread⟩

theorem AgeSeen.Idle.clock (idle : seen.Idle later) (now : UInt32) :
    seen.Opened (later.act (.clock now)) (some { pdce with ulLastUpdateTime := now }) where
  given := by
    simp only [AgeSeen.act]
    split <;> exact idle.given
  kept := idle.begun ▸ later.begun_act _
  dated reading same := by
    obtain rfl := Option.some.inj same
    simp only [AgeSeen.act]
    split
    · exact .inr (by simp)
    · exact .inl rfl
  received received _ := by
    simp [AgeSeen.act, idle.received, received]

theorem ensures_dcWriteBegin (cache : DirectoryCache) (path : CString) (cFiles : Nat) :
    ageWatch.Ensures (fun answer later => seen.Opened later answer.1)
      (dcWriteBegin ph cache path cFiles) seen := by
  have untouched : seen.Idle seen := ⟨rfl, rfl, rfl, id⟩
  unfold dcWriteBegin
  split
  · exact untouched.opened
  · have started : ageWatch.Ensures (fun _ later => seen.Idle later)
        (dcWriteStart ph cache path cFiles) seen := by
      unfold dcWriteStart
      split
      · apply (ensures_dceCreate path cFiles).bind
        intro _ _ idle
        exact idle
      · exact untouched
    apply started.bind
    rintro ⟨_ | pdce, cache⟩ later idle
    · exact idle.opened
    · exact fun now _ => idle.clock now

theorem ensures_dircacheWriteBegin (cFiles : Nat) :
    ageWatch.Ensures (fun answer later => seen.Opened later answer.1)
      (dircacheWriteBegin ph pdc state cFiles) seen := by
  have untouched : seen.Idle seen := ⟨rfl, rfl, rfl, id⟩
  unfold dircacheWriteBegin
  split
  · exact untouched.opened
  · exact untouched.opened
  · split
    · trivial
    · apply (ensures_dcWriteBegin _ _ cFiles).bind
      intro _ _ opened
      exact opened

/-- Whatever a listing leaves in the cache was there or has been dated. -/
structure Listing (older : List (UInt32 × SmbwrpFileinfo)) (earlier : List DirectoryCacheEntry)
    (timeout : UInt32) (later : AgeSeen) (pdc : Option DirectoryCache) : Prop where
  known : KnownCache earlier timeout later pdc
  young : Young older earlier timeout later

theorem ensures_listFilesSmb2 (serves : ∀ finfo, (fn finfo).Only (Op.ServedBy (some cli)))
    (pathname : CString) (listing : Listing older earlier timeout seen pdc) :
    ageWatch.Ensures (fun listed later => Listing older earlier timeout later listed.pdc)
      (listFilesSmb2 ph searchAttr fn pdc state cli pathname) seen := by
  refine Watch.ensures_bind.mpr ((ensures_dircacheWriteBegin 128).and_returns
    (smaller_dircacheWriteBegin 128) |>.mono ?_)
  rintro ⟨dircachectx, left⟩ later ⟨opened, fewer⟩
  have young := listing.young.keeps opened.kept opened.given
  have known := listing.known.smaller opened.kept fewer
  -- the first request notes the reading, and the rest hands nothing over from the cache
  refine fun asyncCalls _ => ?_
  have noted : ageWatch.Ensures
      (fun _ latest => (later.act .opening).Still latest) _ (later.act .opening) :=
    ensures_still ((only_listContext ph searchAttr serves (allowsDirectories_servedBy cli) left
      dircachectx pathname).2 asyncCalls) rfl
  refine (noted.and_returns (returns_listContext dircachectx pathname asyncCalls)).mono ?_
  rintro listed latest ⟨still, grown⟩
  have more : later.begun ⊆ latest.begun := still.begun ▸ later.begun_act .opening
  refine ⟨known.grown more grown fun reading same => ?_, young.keeps more still.given⟩
  rcases opened.dated reading same with fresh | dated
  · rw [still.begun]
    simp [AgeSeen.act, fresh]
  · exact more dated

theorem AgeSeen.Still.next (still : seen.Still later) {action : AgeAction}
    (unclocked : ∀ now, action ≠ .clock now) : seen.Still (later.act action) :=
  still.trans (.act still.unread unclocked)

theorem Listing.still (listing : Listing older earlier timeout seen pdc) (still : seen.Still later) :
    Listing older earlier timeout later pdc :=
  ⟨listing.known.smaller (still.begun ▸ List.Subset.refl _) (Smaller.refl _),
    still.young listing.young⟩

theorem ensures_listReceived (serves : ∀ finfo, (fn finfo).Only (Op.ServedBy (some cli)))
    (infos : List FileInfo) (received : seen.received = true) (unread : seen.fresh = none)
    (listing : Listing older earlier timeout seen pdc) :
    ageWatch.Ensures (fun answer later => Listing older earlier timeout later answer.2)
      (dircacheWriteBegin ph pdc state infos.length >>= fun opened =>
        listReceived fn infos opened.1 >>= fun dircachectx =>
          dircacheWriteEnd opened.2 dircachectx >>= fun left =>
            pure (UInt32.ofNat infos.length, left)) seen := by
  apply ((ensures_dircacheWriteBegin infos.length).and_returns
    (smaller_dircacheWriteBegin infos.length)).bind
  rintro ⟨dircachectx, left⟩ later ⟨opened, fewer⟩
  have still := opened.received received unread
  have known := listing.known.smaller opened.kept fewer
  have young := listing.young.keeps opened.kept opened.given
  apply ((ensures_still (only_listReceived serves
    (allowsDirectories_servedBy cli).toAllowsPaths infos
    dircachectx) still).and_returns (returns_listReceived infos dircachectx)).bind
  rintro written next ⟨first, same⟩
  apply ((ensures_still (only_dircacheWriteEnd (some cli) left written)
    first.unread).and_returns (grown_dircacheWriteEnd written)).bind
  rintro linked latest ⟨second, grown⟩
  have kept : later.begun ⊆ latest.begun :=
    (second.begun.trans first.begun) ▸ List.Subset.refl _
  refine ⟨known.grown kept grown fun reading began => ?_,
    young.keeps kept (second.given.trans first.given)⟩
  rcases opened.dated reading (same ▸ began) with fresh | dated
  · rw [still] at fresh
    simp at fresh
  · exact kept dated

theorem listing_receiveRule (serves : ∀ finfo, (fn finfo).Only (Op.ServedBy (some cli)))
    (listing : Listing older earlier timeout seen pdc) :
    ReceiveRule ageWatch ph searchAttr fn cli pdc state (fun _ later => seen.Still later)
      (fun answer later => Listing older earlier timeout later answer.2) where
  continued := by
    intro numFinfo later event still continues
    cases continues with
    | idle => exact still.next (show ∀ now, AgeAction.opening ≠ .clock now by simp)
    | capable | sent | polled =>
        exact still.next (show ∀ now, AgeAction.other ≠ .clock now by simp)
  missed := by
    intro numFinfo later event still misses
    apply listing.still
    cases misses with
    | busy => exact still.next (show ∀ now, AgeAction.opening ≠ .clock now by simp)
    | unsent | silent => exact still.next (show ∀ now, AgeAction.other ≠ .clock now by simp)
    | unreceived => exact still.next (show ∀ now, AgeAction.received ≠ .clock now by simp)
  received := by
    intro numFinfo later infos still
    have still := still.next (show ∀ now, AgeAction.received ≠ .clock now by simp)
    exact ensures_listReceived serves infos rfl rfl (listing.still still)

theorem ensures_listFiles (mask : CString) (listing : Listing older earlier timeout seen pdc) :
    ageWatch.Ensures (fun answer later => Listing older earlier timeout later answer.2)
      (listFiles ph searchAttr (smbwrpDirAdd ph srv st) pdc state cli mask) seen := by
  have serves (finfo : SmbwrpFileinfo) :
      (smbwrpDirAdd ph srv st finfo).Only (Op.ServedBy (some cli)) := only_smbwrpDirAdd ph srv st finfo _
  apply (((ensures_dircacheListFiles listing.known listing.young).and
    (ensures_begun _ seen)).and_returns smaller_dircacheListFiles).bind
  rintro ⟨cached, left⟩ later ⟨⟨young, kept⟩, fewer⟩
  have next : Listing older earlier timeout later left := ⟨listing.known.smaller kept fewer, young⟩
  cases cached with
  | some numFinfo => exact next
  | none =>
      refine Watch.ensures_perform_bind.mpr fun smb2 _ => ?_
      have asked : Listing older earlier timeout (later.act .other) left :=
        ⟨next.known.smaller (List.Subset.refl _) (Smaller.refl _),
          young.keeps (List.Subset.refl _) rfl⟩
      split
      · apply (ensures_listFilesSmb2 serves mask asked).bind
        intro _ _ after
        exact after
      · exact (listing_receiveRule serves asked).ensures_listFilesSmb1 (fun numFinfo => ⟨rfl, rfl, rfl, rfl⟩) mask

theorem ensures_listTarget {pRes : Resource} (unread : seen.fresh = none)
    (listing : Listing older earlier timeout seen pRes.pdc) :
    ageWatch.Ensures (fun answer later => Listing older earlier timeout later answer.2)
      (listTarget ph pRes cli state) seen := by
  refine listTarget_cases ph cli pRes state (motive := fun program => ageWatch.Ensures
    (fun answer later => Listing older earlier timeout later answer.2) program seen) ?_ ?_
  · intro program served same
    have asked := served _ (allowsDirectories_servedBy cli).toAllowsPaths
    refine ((ensures_still asked unread).and_returns same).mono ?_
    rintro answer later ⟨still, kept⟩
    exact kept ▸ listing.still still
  · apply (ensures_listFiles state.mask listing).bind
    rintro ⟨value, left⟩ later after
    simp only
    split
    · refine Watch.ensures_bind.mpr fun errno _ => ?_
      exact ⟨after.known.smaller (List.Subset.refl _) (Smaller.refl _),
        after.young.keeps (List.Subset.refl _) rfl⟩
    · exact after

theorem ensures_filelistOn_age {s : Session} (unread : seen.fresh = none)
    (listing : Listing older earlier timeout seen s.pRes.pdc) :
    ageWatch.Ensures (fun answer later => Listing older earlier timeout later answer.2.pRes.pdc)
      (filelistOn ph s state) seen := by
  refine Watch.ensures_bind.mpr (Watch.Ensures.mono ?_ fun _ _ after => after)
  unfold smbwrpFilelist
  split
  · exact listing
  · split
    · exact listing
    · exact ensures_listTarget unread listing

end Cache

end NdpSmb
