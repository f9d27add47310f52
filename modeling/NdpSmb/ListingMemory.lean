import NdpSmb.HiddenSteps
import NdpSmb.ListingFailure
import NdpSmb.SessionReplay

/-!
A listing without a cache or without memory for it, next to the same listing with a cache that
works.
-/

namespace NdpSmb

open ByteString Interaction

/-! What the cache asks for itself is hidden. -/

def Op.hides : (R : Type) → Op R → Bool
  | _, .malloc _ | _, .realloc _ | _, .timesec => true
  | _, _ => false

theorem Op.hides_iff {R : Type} {op : Op R} : Op.hides R op = true ↔ Op.Caches R op := by
  cases op <;> simp [Op.hides, Op.Caches]

theorem hides_of_caches {α : Type} {program : Program α} (caches : program.Only Op.Caches) :
    program.Only fun R op => Op.hides R op = true :=
  caches.mono fun _ _ => Op.hides_iff.mpr

def allGiven (R : Type) (op : Op R) : R := op.usual

/-- The second program does the same to the server and to the callback, when memory is given. -/
abbrev Replayed {α β : Type} (same : α → β → Prop) : Program α → Program β → Prop :=
  Imitated Op.hides allGiven same

section Replay

variable {ph : Platform} {searchAttr : UInt32} {fn : SmbwrpFileinfo → Program UInt32}
  (shown : ∀ finfo, (fn finfo).Only fun R op => Op.hides R op = false)

theorem replayed_writeEntry (dircachectx : Option DirectoryCacheEntry) (pdce : DirectoryCacheEntry)
    (finfo : SmbwrpFileinfo) :
    Replayed (fun _ right => right ≠ none) (dircacheWriteEntry dircachectx finfo)
      (dircacheWriteEntry (some pdce) finfo) := by
  have written : ∃ later, answered allGiven (dircacheWriteEntry (some pdce) finfo) =
      some (some later) := by
    simp only [dircacheWriteEntry, dceWriteEntry]
    split
    · exact ⟨_, rfl⟩
    · exact ⟨_, rfl⟩
  obtain ⟨later, answer⟩ := written
  refine Imitated.of_hidden (hides_of_caches ?_) (hides_of_caches ?_) answer ?_
  · exact (allocates_dircacheWriteEntry _ _).mono fun _ _ => Op.Allocates.caches
  · exact (allocates_dircacheWriteEntry _ _).mono fun _ _ => Op.Allocates.caches
  · exact Prog.returns_of_forall fun _ => Option.some_ne_none later

theorem replayed_writeEnd {α β : Type} {same : α → β → Prop} (pdc other : Option DirectoryCache)
    (dircachectx : Option DirectoryCacheEntry) (pdce : DirectoryCacheEntry)
    {follow : Option DirectoryCache → Program α} {after : Option DirectoryCache → Program β}
    (next : ∀ left right, Replayed same (follow left) (after right)) :
    Replayed same (dircacheWriteEnd pdc dircachectx >>= follow)
      (dircacheWriteEnd other (some pdce) >>= after) := by
  have linked : ∃ later, answered allGiven (dircacheWriteEnd other (some pdce)) = some later := by
    simp only [dircacheWriteEnd, dceAdjust]
    split
    · exact ⟨_, rfl⟩
    · split
      · exact ⟨_, rfl⟩
      · exact ⟨_, rfl⟩
  obtain ⟨later, answer⟩ := linked
  refine Imitated.bind (Imitated.of_hidden (hides_of_caches ?_) (hides_of_caches ?_) answer
    (Prog.returns_of_forall fun _ => trivial)) fun left right (_ : True) => next left right
  · exact (allocates_dircacheWriteEnd _ _).mono fun _ _ => Op.Allocates.caches
  · exact (allocates_dircacheWriteEnd _ _).mono fun _ _ => Op.Allocates.caches

structure SameProgress (left right : ListProgress) : Prop where
  processed : left.processedFile = right.processedFile
  writing : right.dircachectx ≠ none

include shown in
theorem replayed_listEntries (failed : Option BadStatus) (infos : List FileInfo)
    {left right : ListProgress} (same : SameProgress left right) :
    Replayed (fun left right => left.1 = right.1 ∧ SameProgress left.2 right.2)
      (listEntries ph searchAttr fn failed infos left)
      (listEntries ph searchAttr fn failed infos right) := by
  induction infos generalizing left right with
  | nil =>
      unfold listEntries
      cases failed with
      | none => exact .ret ⟨rfl, same⟩
      | some status => exact .ret ⟨rfl, same⟩
  | cons finfo rest ih =>
      obtain ⟨pdce, writing⟩ := Option.ne_none_iff_exists'.mp same.writing
      unfold listEntries
      rw [writing]
      split
      · refine (Imitated.refl (shown finfo.toWrp)).bind ?_
        rintro status _ rfl
        refine (replayed_writeEntry left.dircachectx pdce finfo.toWrp).bind ?_
        intro first second present
        have onward : SameProgress ⟨first, true⟩ ⟨second, true⟩ := ⟨rfl, present⟩
        simp only
        split
        · exact .ret ⟨rfl, onward⟩
        · exact ih onward
      · exact ih same

include shown in
theorem replayed_listReplies (cli : Handle) (mask : CString) (queries : Nat)
    {left right : ListProgress} (same : SameProgress left right) :
    Replayed (fun left right => left.1 = right.1 ∧ SameProgress left.2 right.2)
      (listReplies ph searchAttr fn cli mask queries left)
      (listReplies ph searchAttr fn cli mask queries right) := by
  induction queries generalizing left right with
  | zero => exact .fault
  | succ queries ih =>
      refine Imitated.perform rfl fun reply => ?_
      cases reply with
      | error status =>
          simp only
          split
          · exact .ret ⟨rfl, same⟩
          · exact .ret ⟨rfl, same⟩
      | ok dirData =>
          refine (replayed_listEntries shown dirData.failed dirData.parsed same).bind ?_
          rintro ⟨replied, left⟩ ⟨_, right⟩ ⟨rfl, same⟩
          cases replied with
          | fail status => exact .ret ⟨rfl, same⟩
          | status status =>
              simp only
              split
              · exact .ret ⟨rfl, same⟩
              · split
                · exact ih same
                · exact .ret ⟨rfl, same⟩

section Context

variable {pdc other : Option DirectoryCache} {dircachectx : Option DirectoryCacheEntry}
  (pdce : DirectoryCacheEntry) (cli : Handle)

def SameStatus (left right : Listed) : Prop := left.status = right.status

include shown

theorem replayed_listOpened (mask : CString) :
    Replayed SameStatus (listOpened ph searchAttr fn pdc dircachectx cli mask)
      (listOpened ph searchAttr fn other (some pdce) cli mask) := by
  have fresh : SameProgress ⟨dircachectx, false⟩ ⟨some pdce, false⟩ :=
    ⟨rfl, Option.some_ne_none pdce⟩
  refine (replayed_listReplies shown cli mask ph.queryLimit fresh).bind ?_
  rintro ⟨ended, left⟩ ⟨_, right⟩ ⟨rfl, same⟩
  cases ended with
  | fail status => exact .ret rfl
  | done status =>
      obtain ⟨later, writing⟩ : ∃ later, right.dircachectx = some later :=
        Option.ne_none_iff_exists'.mp same.writing
      simp only
      rw [writing]
      refine replayed_writeEnd pdc other left.dircachectx later fun first second => ?_
      exact .ret (congrArg (listStatus status) same.processed)

theorem replayed_listMapped (fnum : UInt16) (mask : CString) :
    Replayed SameStatus (listMapped ph searchAttr fn pdc dircachectx cli fnum mask)
      (listMapped ph searchAttr fn other (some pdce) cli fnum mask) := by
  refine Imitated.perform rfl fun status => ?_
  split
  · exact .ret rfl
  · exact replayed_listOpened shown pdce cli mask

theorem replayed_listParent (parentDir mask : CString) :
    Replayed SameStatus (listParent ph searchAttr fn pdc dircachectx cli parentDir mask)
      (listParent ph searchAttr fn other (some pdce) cli parentDir mask) := by
  refine Imitated.perform rfl fun created => ?_
  cases created with
  | error status => exact .ret rfl
  | ok fnum =>
      refine (replayed_listMapped shown pdce cli fnum mask).bind ?_
      intro left right same
      unfold closeFnum
      split
      · exact Imitated.perform rfl fun _ => .ret same
      · exact .ret same

theorem replayed_listContext (pathname : CString) :
    Replayed SameStatus (listContext ph searchAttr fn pdc dircachectx cli pathname)
      (listContext ph searchAttr fn other (some pdce) cli pathname) := by
  refine Imitated.perform rfl fun asyncCalls => ?_
  split
  · exact .ret rfl
  · refine Imitated.perform rfl fun smb2 => ?_
    split
    · exact .ret rfl
    · refine Imitated.perform rfl fun parent => ?_
      cases parent with
      | none => exact .ret rfl
      | some parent => exact replayed_listParent shown pdce cli parent.1 parent.2

end Context

include shown in
theorem replayed_listReceived (infos : List FileInfo) (dircachectx : Option DirectoryCacheEntry)
    (pdce : DirectoryCacheEntry) :
    Replayed (fun _ right => right ≠ none) (listReceived fn infos dircachectx)
      (listReceived fn infos (some pdce)) := by
  induction infos generalizing dircachectx pdce with
  | nil => exact .ret (Option.some_ne_none pdce)
  | cons finfo rest ih =>
      refine (Imitated.refl (shown finfo.toWrp)).bind fun _ _ _ => ?_
      refine (replayed_writeEntry dircachectx pdce finfo.toWrp).bind ?_
      intro first second present
      obtain ⟨later, rfl⟩ := Option.ne_none_iff_exists'.mp present
      exact ih first later

end Replay

/-! A cache that works. -/

structure Working (ph : Platform) (pdc : DirectoryCache) (state : FilelistState) (path : CString) :
    Prop where
  directory : dcCreateDirPath state = some path
  enabled : pdc.fEnabled = true
  uncached : ∀ entry ∈ pdc.entries, dcMatches ph path false entry = false
  evicts : dcEvict pdc ≠ none

section Listing

variable {ph : Platform} {searchAttr : UInt32} {fn : SmbwrpFileinfo → Program UInt32}
  {state other : FilelistState} {pdc : Option DirectoryCache} {working : DirectoryCache}
  {path : CString}

theorem replayed_writeBegin (works : Working ph working other path) (cFiles : Nat) :
    Replayed (fun _ right => right.1 ≠ none) (dircacheWriteBegin ph pdc state cFiles)
      (dircacheWriteBegin ph (some working) other cFiles) := by
  obtain ⟨kept, evicted⟩ := Option.ne_none_iff_exists'.mp works.evicts
  have begun : ∃ pdce left, answered allGiven (dircacheWriteBegin ph (some working) other cFiles) =
      some (some pdce, left) := by
    rw [dcEvict_eq_some evicted] at evicted
    have absent : (unevicted working).find? (dcMatches ph path false) = none := by
      refine List.find?_eq_none.mpr fun entry member => ?_
      rw [works.uncached entry ((sublist_unevicted working).mem member)]
      exact Bool.false_ne_true
    simp only [dircacheWriteBegin, works.directory, evicted, dcWriteBegin, works.enabled,
      dcWriteStart, dcFindDirCache, absent]
    exact ⟨_, _, rfl⟩
  obtain ⟨pdce, left, answer⟩ := begun
  refine Imitated.of_hidden (hides_of_caches ?_) (hides_of_caches ?_) answer ?_
  · exact caches_dircacheWriteBegin ph _ _ _
  · exact caches_dircacheWriteBegin ph _ _ _
  · exact Prog.returns_of_forall fun _ => Option.some_ne_none pdce

def listServer (ph : Platform) (searchAttr : UInt32) (fn : SmbwrpFileinfo → Program UInt32)
    (pdc : Option DirectoryCache) (state : FilelistState) (cli : Handle) (mask : CString) :
    Program (UInt32 × Option DirectoryCache) := do
  let smb2 ← askServer cli .connProtocolSmb2
  if smb2 then do
    let listed ← listFilesSmb2 ph searchAttr fn pdc state cli mask
    pure (listed.status, listed.pdc)
  else listFilesSmb1 ph searchAttr fn pdc state cli mask

theorem listFiles_eq (cli : Handle) (mask : CString) :
    listFiles ph searchAttr fn pdc state cli mask = (do
      let (cached, pdc) ← dircacheListFiles ph pdc state fn
      match cached with
      | some numFinfo => pure (UInt32.ofNat numFinfo, pdc)
      | none => listServer ph searchAttr fn pdc state cli mask) := rfl

theorem listFiles_working (works : Working ph working other path) (cli : Handle) (mask : CString) :
    listFiles ph searchAttr fn (some working) other cli mask =
      listServer ph searchAttr fn (some working) other cli mask := by
  have absent : dcFindDirCache ph working path false = none := by
    refine List.find?_eq_none.mpr fun entry member => ?_
    rw [works.uncached entry member]
    exact Bool.false_ne_true
  simp only [listFiles_eq, dircacheListFiles, works.directory, dcRead, works.enabled, absent]
  rfl

variable (shown : ∀ finfo, (fn finfo).Only fun R op => Op.hides R op = false)

include shown

theorem replayed_listFilesSmb2 (works : Working ph working other path) (cli : Handle)
    (mask : CString) :
    Replayed SameStatus (listFilesSmb2 ph searchAttr fn pdc state cli mask)
      (listFilesSmb2 ph searchAttr fn (some working) other cli mask) := by
  refine (replayed_writeBegin works 128).bind ?_
  rintro ⟨dircachectx, left⟩ ⟨second, right⟩ present
  obtain ⟨pdce, rfl⟩ : ∃ pdce, second = some pdce := Option.ne_none_iff_exists'.mp present
  exact replayed_listContext shown pdce cli mask

theorem replayed_listFilesSmb1 (works : Working ph working other path) (cli : Handle)
    (mask : CString) :
    Replayed (fun left right => left.1 = right.1)
      (listFilesSmb1 ph searchAttr fn pdc state cli mask)
      (listFilesSmb1 ph searchAttr fn (some working) other cli mask) := by
  refine Imitated.perform rfl fun numFinfo => Imitated.perform rfl fun asyncCalls => ?_
  split
  · exact .ret rfl
  · refine Imitated.perform rfl fun _ => Imitated.perform rfl fun sent => ?_
    split
    · exact .ret rfl
    · refine Imitated.perform rfl fun polled => ?_
      split
      · exact .ret rfl
      · refine Imitated.perform rfl fun received => ?_
        cases received with
        | none => exact .ret rfl
        | some infos =>
            refine (replayed_writeBegin works infos.length).bind ?_
            rintro ⟨dircachectx, left⟩ ⟨second, right⟩ present
            obtain ⟨pdce, rfl⟩ : ∃ pdce, second = some pdce := Option.ne_none_iff_exists'.mp present
            refine (replayed_listReceived shown infos dircachectx pdce).bind ?_
            intro first second present
            obtain ⟨later, rfl⟩ := Option.ne_none_iff_exists'.mp present
            exact replayed_writeEnd left right first later fun _ _ => .ret rfl

/-- What the server and the callback are asked, and what is returned, is the same with a cache that
works. -/
theorem replayed_listServer (works : Working ph working other path) (cli : Handle)
    (mask : CString) :
    Replayed (fun left right => left.1 = right.1)
      (listServer ph searchAttr fn pdc state cli mask)
      (listServer ph searchAttr fn (some working) other cli mask) := by
  refine Imitated.perform rfl fun smb2 => ?_
  split
  · exact (replayed_listFilesSmb2 shown works cli mask).bind fun _ _ same => .ret same
  · exact replayed_listFilesSmb1 shown works cli mask

end Listing

/-! When a listing gets to its end. -/

def isQuery : CallEvent → Bool
  | ⟨.request _ (.smb2cliQueryDirectory _), _⟩ => true
  | _ => false

/-- What of the listing has failed, what has come of its allocations, and how many replies were
asked for. -/
structure MemorySeen where
  failure : FailureSeen := {}
  mallocs : List Bool := []
  queries : Nat := 0

def MemorySeen.observe (ph : Platform) (seen : MemorySeen) (event : CallEvent) : MemorySeen where
  failure := seen.failure.observe ph event
  mallocs := match mallocReply event with
    | some given => seen.mallocs ++ [given]
    | none => seen.mallocs
  queries := if isQuery event then seen.queries + 1 else seen.queries

def FailureSeen.Begins (seen : FailureSeen) : Prop :=
  seen.protocol = some true ∨ seen.received ≠ none

/-- `dircache_write_begin` gives a context: the directory is known, there is a cache, and there is
memory. -/
structure GivesContext (pdc : Option DirectoryCache) (state : FilelistState)
    (mallocs : List Bool) : Prop where
  directory : dcCreateDirPath state ≠ none
  cache : ∃ cache, pdc = some cache ∧ cache.fEnabled = true
  memory : false ∉ mallocs

/-- The listing does not run into a pointer that is NULL: that of the tail of an empty cache, of
the copy of the path, or of the context at the end of a listing that has not failed. -/
structure Survives (pdc : Option DirectoryCache) (state : FilelistState) (seen : MemorySeen) :
    Prop where
  evicted : seen.failure.Begins → dcCreateDirPath state ≠ none →
    ∀ cache ∈ pdc, dcEvict cache ≠ none
  copied : seen.mallocs ≠ [true, true, false]
  given : seen.failure.failed = none → GivesContext pdc state seen.mallocs

/-- The loop over the replies may run out of its limit. -/
def survivalWatch (ph : Platform) (pdc : Option DirectoryCache) (state : FilelistState) :
    Watch Op MemorySeen where
  observe := MemorySeen.observe ph
  crash later := ph.queryLimit ≤ later.queries ∨ ¬ Survives pdc state later

section Survival

variable {ph : Platform} {pdc left : Option DirectoryCache} {state : FilelistState}
  {srv : SmbwrpServer} {st : FilelistState} {seen : MemorySeen}
  {dircachectx : Option DirectoryCacheEntry}

structure Opened (pdc : Option DirectoryCache) (state : FilelistState) (mallocs : List Bool)
    (dircachectx : Option DirectoryCacheEntry) : Prop where
  evicted : dcCreateDirPath state ≠ none → ∀ cache ∈ pdc, dcEvict cache ≠ none
  copied : mallocs ≠ [true, true, false]
  given : dircachectx ≠ none ↔ GivesContext pdc state mallocs

def MemorySeen.allocated (seen : MemorySeen) (mallocs : List Bool) : MemorySeen :=
  { seen with mallocs := seen.mallocs ++ mallocs }

theorem observe_malloc (size : Nat) (given : Bool) :
    (survivalWatch ph pdc state).observe seen ⟨.malloc size, given⟩ = seen.allocated [given] := rfl

theorem allocated_allocated (first second : List Bool) :
    (seen.allocated first).allocated second = seen.allocated (first ++ second) := by
  simp [MemorySeen.allocated]

theorem survives_dceCreate (unasked : seen.mallocs = []) (path : CString) (cFiles : Nat) :
    (survivalWatch ph pdc state).Ensures
      (fun created later => ∃ mallocs, later = seen.allocated mallocs ∧
        mallocs ≠ [true, true, false] ∧ (created ≠ none ↔ false ∉ mallocs))
      (dceCreate path cFiles) seen := by
  refine Watch.ensures_perform_bind.mpr fun entry _ => ?_
  rw [observe_malloc]
  cases entry with
  | false => exact ⟨[false], rfl, by decide, by simp⟩
  | true =>
      rw [if_neg (by decide)]
      refine Watch.ensures_perform_bind.mpr fun infos _ => ?_
      rw [observe_malloc, allocated_allocated]
      cases infos with
      | false => exact ⟨[true, false], rfl, by decide, by simp⟩
      | true =>
          rw [if_neg (by decide)]
          refine Watch.ensures_perform_bind.mpr fun copy _ => ?_
          rw [observe_malloc, allocated_allocated]
          cases copy with
          | false =>
              right
              intro survives
              apply survives.copied
              simp [MemorySeen.allocated, unasked]
          | true => exact ⟨[true, true, true], rfl, by decide, by simp⟩

theorem survives_dcWriteBegin (unasked : seen.mallocs = []) (cache : DirectoryCache)
    (path : CString) (cFiles : Nat) :
    (survivalWatch ph pdc state).Ensures
      (fun answer later => ∃ mallocs, later = seen.allocated mallocs ∧
        mallocs ≠ [true, true, false] ∧
        (answer.1 ≠ none ↔ cache.fEnabled = true ∧ false ∉ mallocs))
      (dcWriteBegin ph cache path cFiles) seen := by
  have untouched : seen = seen.allocated [] := by simp [MemorySeen.allocated]
  unfold dcWriteBegin
  split
  · rename_i disabled
    exact ⟨[], untouched, by decide, by simp [disabled]⟩
  · rename_i enabled
    have enabled : cache.fEnabled = true := by simpa using enabled
    have started : (survivalWatch ph pdc state).Ensures
        (fun answer later => ∃ mallocs, later = seen.allocated mallocs ∧
          mallocs ≠ [true, true, false] ∧ (answer.1 ≠ none ↔ false ∉ mallocs))
        (dcWriteStart ph cache path cFiles) seen := by
      unfold dcWriteStart
      split
      · exact Watch.ensures_bind.mpr (survives_dceCreate unasked path cFiles)
      · exact ⟨[], untouched, by decide, by simp⟩
    apply started.bind
    rintro ⟨created, kept⟩ later ⟨mallocs, rfl, copied, given⟩
    cases created with
    | none => exact ⟨mallocs, rfl, copied, by simpa [enabled] using given⟩
    | some pdce =>
        intro now _
        exact ⟨mallocs, rfl, copied, by simpa [enabled] using given⟩

theorem survives_dircacheWriteBegin (begins : seen.failure.Begins) (unasked : seen.mallocs = [])
    (cFiles : Nat) :
    (survivalWatch ph pdc state).Ensures
      (fun answer later => later.failure = seen.failure ∧ later.queries = seen.queries ∧
        Opened pdc state later.mallocs answer.1)
      (dircacheWriteBegin ph pdc state cFiles) seen := by
  unfold dircacheWriteBegin
  split
  · rename_i unknown
    refine ⟨rfl, rfl, fun known => absurd unknown known, by simp [unasked], ?_⟩
    exact ⟨fun given => absurd rfl given, fun given => absurd unknown given.directory⟩
  · rename_i known
    refine ⟨rfl, rfl, fun _ _ member => absurd member (Option.not_mem_none _), by simp [unasked], ?_⟩
    refine ⟨fun given => absurd rfl given, fun given => ?_⟩
    obtain ⟨cache, none, -⟩ := given.cache
    cases none
  · rename_i path cache known
    have known : dcCreateDirPath state ≠ none := by simp [known]
    cases evicted : dcEvict cache with
    | none =>
        right
        intro survives
        exact survives.evicted begins known cache rfl evicted
    | some kept =>
        have same : kept.fEnabled = cache.fEnabled := by rw [dcEvict_eq_some evicted]
        apply (survives_dcWriteBegin unasked kept path cFiles).bind
        rintro ⟨created, linked⟩ later ⟨mallocs, rfl, copied, given⟩
        have all : (seen.allocated mallocs).mallocs = mallocs := by
          simp [MemorySeen.allocated, unasked]
        refine ⟨rfl, rfl, ?_, by rwa [all], ?_⟩
        · rintro _ _ ⟨⟩
          rw [evicted]
          exact Option.some_ne_none kept
        · rw [all]
          refine given.trans ⟨?_, ?_⟩
          · rintro ⟨enabled, memory⟩
            exact ⟨known, ⟨cache, rfl, same ▸ enabled⟩, memory⟩
          · rintro ⟨-, ⟨_, ⟨⟩, enabled⟩, memory⟩
            exact ⟨same.trans enabled, memory⟩

theorem kept_writeEntry (finfo : SmbwrpFileinfo) :
    (survivalWatch ph pdc state).Ensures
      (fun next later => later = seen ∧ (next = none ↔ dircachectx = none))
      (dircacheWriteEntry dircachectx finfo) seen := by
  cases dircachectx with
  | none => exact ⟨rfl, Iff.rfl⟩
  | some pdce =>
      simp only [dircacheWriteEntry, dceWriteEntry]
      split
      · refine Watch.ensures_bind.mpr (Watch.ensures_perform_bind.mpr fun grown _ => ?_)
        split
        · exact ⟨rfl, by simp⟩
        · exact ⟨rfl, by simp⟩
      · exact ⟨rfl, by simp⟩

theorem kept_writeEnd (pdce : DirectoryCacheEntry) :
    (survivalWatch ph pdc state).Ensures (fun _ later => later = seen)
      (dircacheWriteEnd left (some pdce)) seen := by
  simp only [dircacheWriteEnd, dceAdjust]
  split
  · rfl
  · split
    · refine Watch.ensures_bind.mpr (Watch.ensures_perform_bind.mpr fun shrunk _ => ?_)
      split
      · rfl
      · rfl
    · rfl

structure SameMemory (seen later : MemorySeen) : Prop where
  mallocs : later.mallocs = seen.mallocs
  queries : later.queries = seen.queries

theorem SameMemory.trans {middle later : MemorySeen} (second : SameMemory middle later)
    (first : SameMemory seen middle) : SameMemory seen later :=
  ⟨second.mallocs.trans first.mallocs, second.queries.trans first.queries⟩

variable (short : st.dir.length < maxPath)

include short

theorem same_smbwrpDirAdd (finfo : SmbwrpFileinfo) :
    (survivalWatch ph pdc state).Ensures (fun _ later => SameMemory seen later)
      (smbwrpDirAdd ph srv st finfo) seen := by
  rw [smbwrpDirAdd, if_neg (by omega)]
  refine Watch.ensures_bind.mpr ?_
  simp only [getfindinfoL]
  split
  · exact fun _ _ _ _ => ⟨rfl, rfl⟩
  · exact fun _ _ => ⟨rfl, rfl⟩

theorem same_listEntries {failed : Option BadStatus} (infos : List FileInfo)
    {progress : ListProgress} :
    (survivalWatch ph pdc state).Ensures
      (fun result later => SameMemory seen later ∧
        (result.2.dircachectx = none ↔ progress.dircachectx = none))
      (listEntries ph listAttribute (smbwrpDirAdd ph srv st) failed infos progress) seen := by
  induction infos generalizing seen progress with
  | nil =>
      unfold listEntries
      cases failed with
      | none => exact ⟨⟨rfl, rfl⟩, Iff.rfl⟩
      | some status => exact ⟨⟨rfl, rfl⟩, Iff.rfl⟩
  | cons finfo rest ih =>
      unfold listEntries
      split
      · apply (same_smbwrpDirAdd short finfo.toWrp).bind
        intro status later same
        apply (kept_writeEntry finfo.toWrp).bind
        rintro next _ ⟨rfl, writing⟩
        simp only
        split
        · exact ⟨same, writing⟩
        · refine ih.mono ?_
          rintro result latest ⟨after, still⟩
          exact ⟨after.trans same, still.trans writing⟩
      · exact ih

theorem same_listReplies {cli : Handle} {mask : CString} (queries : Nat) {progress : ListProgress}
    (limit : ph.queryLimit ≤ seen.queries + queries) :
    (survivalWatch ph pdc state).Ensures
      (fun result later => later.mallocs = seen.mallocs ∧
        (result.2.dircachectx = none ↔ progress.dircachectx = none))
      (listReplies ph listAttribute (smbwrpDirAdd ph srv st) cli mask queries progress) seen := by
  induction queries generalizing seen progress with
  | zero => exact .inl limit
  | succ queries ih =>
      refine Watch.ensures_perform_bind.mpr fun reply _ => ?_
      have asked : ((survivalWatch ph pdc state).observe seen
          ⟨.request cli (.smb2cliQueryDirectory mask), reply⟩).queries = seen.queries + 1 := rfl
      have kept : ((survivalWatch ph pdc state).observe seen
          ⟨.request cli (.smb2cliQueryDirectory mask), reply⟩).mallocs = seen.mallocs := rfl
      generalize (survivalWatch ph pdc state).observe seen _ = later at asked kept ⊢
      cases reply with
      | error status =>
          simp only
          split
          · exact ⟨kept, Iff.rfl⟩
          · exact ⟨kept, Iff.rfl⟩
      | ok dirData =>
          apply (same_listEntries short dirData.parsed).bind
          rintro ⟨replied, next⟩ latest ⟨same, writing⟩
          have unchanged : latest.mallocs = seen.mallocs := same.mallocs.trans kept
          cases replied with
          | fail status => exact ⟨unchanged, writing⟩
          | status status =>
              simp only
              split
              · exact ⟨unchanged, writing⟩
              · split
                · have counted := same.queries
                  refine (ih (by omega)).mono ?_
                  rintro result last ⟨after, still⟩
                  exact ⟨after.trans unchanged, still.trans writing⟩
                · exact ⟨unchanged, writing⟩

omit short

structure MemorySeen.Asking (pdc : Option DirectoryCache) (state : FilelistState)
    (dircachectx : Option DirectoryCacheEntry) (seen : MemorySeen) : Prop where
  opened : Opened pdc state seen.mallocs dircachectx
  spoken : seen.failure.protocol ≠ none
  fine : seen.failure.failure = none
  read : seen.failure.unread = none

theorem survives_of_failed (opened : Opened pdc state seen.mallocs dircachectx)
    (failed : seen.failure.failed ≠ none) : Survives pdc state seen :=
  ⟨fun _ => opened.evicted, opened.copied, fun none => absurd none failed⟩

theorem survives_writeEnd {α : Type} {context : Option DirectoryCacheEntry}
    (opened : Opened pdc state seen.mallocs dircachectx) (fine : seen.failure.failed = none)
    (writing : context = none ↔ dircachectx = none) (answer : Option DirectoryCache → α) :
    (survivalWatch ph pdc state).Ensures (fun _ later => Survives pdc state later)
      (dircacheWriteEnd left context >>= fun linked => pure (answer linked)) seen := by
  cases context with
  | none =>
      right
      intro survives
      exact opened.given.mpr (survives.given fine) (writing.mp rfl)
  | some pdce =>
      apply (kept_writeEnd pdce).bind
      rintro linked _ rfl
      have given : dircachectx ≠ none := fun none => absurd (writing.mpr none) (by simp)
      exact ⟨fun _ => opened.evicted, opened.copied, fun _ => opened.given.mp given⟩

theorem observe_mallocs {event : CallEvent} (plain : mallocReply event = none) :
    ((survivalWatch ph pdc state).observe seen event).mallocs = seen.mallocs := by
  simp only [survivalWatch, MemorySeen.observe, plain]

namespace MemorySeen.Asking

variable (ph) (asking : seen.Asking pdc state dircachectx)

include asking

theorem passed {event : CallEvent} (noted : seen.failure.note event = seen.failure)
    (plain : mallocReply event = none) :
    ((survivalWatch ph pdc state).observe seen event).Asking pdc state dircachectx := by
  have failure : ((survivalWatch ph pdc state).observe seen event).failure =
      { seen.failure with signs := seen.failure.signs.observe ph listAttribute event } := by
    simp only [survivalWatch, MemorySeen.observe, FailureSeen.observe, noted]
  constructor
  case opened =>
    rw [observe_mallocs plain]
    exact asking.opened
  case spoken =>
    rw [failure]
    exact asking.spoken
  case fine =>
    rw [failure]
    exact asking.fine
  case read =>
    rw [failure]
    exact asking.read

theorem refused {event : CallEvent} {status : UInt32}
    (failure : (seen.failure.note event).failure = some status)
    (plain : mallocReply event = none) :
    Survives pdc state ((survivalWatch ph pdc state).observe seen event) := by
  apply survives_of_failed
  · rw [observe_mallocs plain]
    exact asking.opened
  · simp [survivalWatch, MemorySeen.observe, FailureSeen.observe, FailureSeen.failed, failure]

end MemorySeen.Asking

section Smb2

variable {cli : Handle}

include short

theorem survives_listOpened (asking : seen.Asking pdc state dircachectx) (mask : CString) :
    (survivalWatch ph pdc state).Ensures (fun _ later => Survives pdc state later)
      (listOpened ph listAttribute (smbwrpDirAdd ph srv st) left dircachectx cli mask) seen := by
  have replies : (survivalWatch ph pdc state).Ensures _ (listReplies ph listAttribute
      (smbwrpDirAdd ph srv st) cli mask ph.queryLimit ⟨dircachectx, false⟩) seen :=
    (failure_listReplies ph.queryLimit asking.fine asking.read).carry
      (same_listReplies short ph.queryLimit (Nat.le_add_left _ _)) (fun _ _ => rfl)
      fun _ _ => trivial
  apply replies.bind
  rintro ⟨ended, progress⟩ later ⟨failed, same, writing⟩
  have opened : Opened pdc state later.mallocs dircachectx := same ▸ asking.opened
  cases ended with
  | fail status =>
      have failed : later.failure.failed = some status := failed
      exact survives_of_failed opened (failed ▸ Option.some_ne_none status)
  | done status =>
      exact survives_writeEnd opened failed writing _

theorem survives_contextRule :
    ContextRule (survivalWatch ph pdc state) ph listAttribute (smbwrpDirAdd ph srv st) cli left
      dircachectx (·.Asking pdc state dircachectx) (·.failure.signs.mask)
      (fun _ seen => Survives pdc state seen) where
  prepared := by
    intro seen event asking prepares
    have noted := note_prepares asking.spoken prepares
    cases prepares <;> exact asking.passed ph noted rfl
  sameMask := by
    intro seen event prepares
    cases prepares <;> rfl
  named := fun pathname parent asking => asking.passed ph rfl rfl
  mask_named := fun seen pathname parent => rfl
  refused := by
    intro seen event status asking refuses
    obtain ⟨_, failure, -⟩ := note_refuses asking.spoken refuses
    cases refuses <;> exact asking.refused ph failure rfl
  opened := fun asking => survives_listOpened short asking _
  closed := fun fnum survives => ⟨survives.evicted, survives.copied, survives.given⟩

theorem survives_listFilesSmb2 (spoken : seen.failure.protocol = some true)
    (fine : seen.failure.failure = none) (read : seen.failure.unread = none)
    (unasked : seen.mallocs = []) (mask : CString) :
    (survivalWatch ph pdc state).Ensures (fun _ later => Survives pdc state later)
      (listFilesSmb2 ph listAttribute (smbwrpDirAdd ph srv st) pdc state cli mask) seen := by
  apply (survives_dircacheWriteBegin (.inl spoken) unasked 128).bind
  rintro ⟨dircachectx, left⟩ later ⟨same, -, opened⟩
  have asking : later.Asking pdc state dircachectx := by
    constructor
    case opened => exact opened
    case spoken =>
      rw [same, spoken]
      exact Option.some_ne_none true
    case fine => rw [same, fine]
    case read => rw [same, read]
  exact (survives_contextRule short).ensures_listContext asking mask

end Smb2

structure MemorySeen.Waiting (numFinfo : UInt32) (seen : MemorySeen) : Prop where
  spoken : seen.failure.protocol = some false
  unreceived : seen.failure.received = none
  pending : seen.failure.Pending numFinfo
  unasked : seen.mallocs = []

namespace MemorySeen.Waiting

variable (ph pdc state) {numFinfo : UInt32} (waiting : seen.Waiting numFinfo)

include waiting

theorem passed {event : CallEvent} (noted : seen.failure.note event = seen.failure)
    (plain : mallocReply event = none) :
    ((survivalWatch ph pdc state).observe seen event).Waiting numFinfo := by
  have pending := waiting.pending.passed ph noted
  have failure : ((survivalWatch ph pdc state).observe seen event).failure =
      { seen.failure with signs := seen.failure.signs.observe ph listAttribute event } := by
    simp only [survivalWatch, MemorySeen.observe, FailureSeen.observe, noted]
  constructor
  case spoken =>
    rw [failure]
    exact waiting.spoken
  case unreceived =>
    rw [failure]
    exact waiting.unreceived
  case pending => exact pending
  case unasked =>
    rw [observe_mallocs plain]
    exact waiting.unasked

theorem refused {event : CallEvent}
    (noted : seen.failure.note event = { seen.failure with failure := some numFinfo })
    (plain : mallocReply event = none) :
    Survives pdc state ((survivalWatch ph pdc state).observe seen event) := by
  have failure : ((survivalWatch ph pdc state).observe seen event).failure =
      { seen.failure with
        failure := some numFinfo
        signs := seen.failure.signs.observe ph listAttribute event } := by
    simp only [survivalWatch, MemorySeen.observe, FailureSeen.observe, noted]
  constructor
  case evicted =>
    rw [failure]
    rintro (smb2 | received)
    · rw [waiting.spoken] at smb2
      cases smb2
    · exact absurd waiting.unreceived received
  case copied =>
    rw [observe_mallocs plain, waiting.unasked]
    exact (List.cons_ne_nil _ _).symm
  case given =>
    rw [failure]
    intro fine
    cases fine

end MemorySeen.Waiting

section Smb1

variable {cli : Handle}

include short

theorem same_listReceived (infos : List FileInfo) {context : Option DirectoryCacheEntry} :
    (survivalWatch ph pdc state).Ensures
      (fun next later => SameMemory seen later ∧ (next = none ↔ context = none))
      (listReceived (smbwrpDirAdd ph srv st) infos context) seen := by
  induction infos generalizing seen context with
  | nil => exact ⟨⟨rfl, rfl⟩, Iff.rfl⟩
  | cons finfo rest ih =>
      apply (same_smbwrpDirAdd short finfo.toWrp).bind
      intro status later same
      apply (kept_writeEntry finfo.toWrp).bind
      rintro next _ ⟨rfl, writing⟩
      refine ih.mono ?_
      rintro result latest ⟨after, still⟩
      exact ⟨after.trans same, still.trans writing⟩

theorem survives_received {infos : List FileInfo} (received : seen.failure.Received infos.length)
    (unasked : seen.mallocs = []) :
    (survivalWatch ph pdc state).Ensures (fun _ later => Survives pdc state later)
      (do
        let (dircachectx, pdc) ← dircacheWriteBegin ph pdc state infos.length
        let dircachectx ← listReceived (smbwrpDirAdd ph srv st) infos dircachectx
        let pdc ← dircacheWriteEnd pdc dircachectx
        pure (UInt32.ofNat infos.length, pdc)) seen := by
  have begins : seen.failure.Begins := .inr (received.received ▸ Option.some_ne_none _)
  apply (survives_dircacheWriteBegin begins unasked _).bind
  rintro ⟨dircachectx, left⟩ later ⟨same, -, opened⟩
  have received : later.failure.Received infos.length := same ▸ received
  have listed : (survivalWatch ph pdc state).Ensures _
      (listReceived (smbwrpDirAdd ph srv st) infos dircachectx) later :=
    (received_listReceived infos received).carry (same_listReceived short infos) (fun _ _ => rfl)
      fun _ _ => trivial
  apply listed.bind
  rintro context latest ⟨received, same, writing⟩
  have opened : Opened pdc state latest.mallocs dircachectx := same.mallocs ▸ opened
  have fine : latest.failure.failed = none := by
    rw [FailureSeen.failed, received.fine, received.read]
    rfl
  exact survives_writeEnd opened fine writing _

theorem survives_receiveRule :
    ReceiveRule (survivalWatch ph pdc state) ph listAttribute (smbwrpDirAdd ph srv st) cli pdc state
      (fun numFinfo seen => seen.Waiting numFinfo) (fun _ seen => Survives pdc state seen) where
  continued := by
    intro numFinfo seen event waiting continues
    have noted : seen.failure.note event = seen.failure := note_continues continues
    cases continues <;> exact waiting.passed ph pdc state noted rfl
  missed := by
    intro numFinfo seen event waiting misses
    have noted := note_misses waiting.pending.left misses
    cases misses <;> exact waiting.refused ph pdc state noted rfl
  received := by
    intro numFinfo seen infos waiting
    have received : ((survivalWatch ph pdc state).observe seen
        ⟨.request cli .cliListRecv, some infos⟩).failure.Received infos.length :=
      ⟨rfl, waiting.pending.fine, waiting.pending.read⟩
    exact survives_received short received waiting.unasked

end Smb1

theorem survives_listServer (short : st.dir.length < maxPath) (cli : Handle) (mask : CString) :
    (survivalWatch ph pdc state).Ensures (fun _ later => Survives pdc state later)
      (listServer ph listAttribute (smbwrpDirAdd ph srv st) pdc state cli mask) {} := by
  refine Watch.ensures_perform_bind.mpr fun smb2 _ => ?_
  cases smb2 with
  | true =>
      rw [if_pos rfl]
      refine Watch.ensures_bind.mpr ?_
      exact survives_listFilesSmb2 short rfl rfl rfl rfl mask
  | false =>
      exact (survives_receiveRule short).ensures_listFilesSmb1
        (fun numFinfo => ⟨rfl, rfl, ⟨rfl, rfl, rfl⟩, rfl⟩) mask

end Survival

/-! A listing, whatever memory it is given. -/

def memorySeen (ph : Platform) (trace : List CallEvent) : MemorySeen :=
  trace.foldl (MemorySeen.observe ph) {}

/-- The listing returns, and with any cache that works and all the memory it asks for it would
have asked the server and the callback for the same, and have returned the same. -/
def SameListing (ph : Platform) (srv : SmbwrpServer) (state : FilelistState) (cli : Handle)
    (mask : CString) (listing : List CallEvent)
    (outcome : Option (UInt32 × Option DirectoryCache)) : Prop :=
  ∃ value left, outcome = some (value, left) ∧
    ∀ working other path, Working ph working other path →
      ∃ trace linked, Run (listFiles ph listAttribute (smbwrpDirAdd ph srv state) (some working)
          other cli mask) trace (some (value, linked)) ∧
        visible Op.hides trace = visible Op.hides listing ∧
        HiddenAnswered Op.hides allGiven trace

theorem queries_after (ph : Platform) (trace : List CallEvent) (seen : MemorySeen) :
    (trace.foldl (MemorySeen.observe ph) seen).queries = seen.queries + trace.countP isQuery := by
  induction trace generalizing seen with
  | nil => rfl
  | cons event rest ih =>
      rw [List.foldl_cons, ih, List.countP_cons, MemorySeen.observe]
      simp only
      split
      · omega
      · omega

theorem shown_smbwrpDirAdd (ph : Platform) (srv : SmbwrpServer) (st : FilelistState)
    (finfo : SmbwrpFileinfo) :
    (smbwrpDirAdd ph srv st finfo).Only fun R op => Op.hides R op = false := by
  unfold smbwrpDirAdd
  split
  · trivial
  · refine Prog.Only.bind ?_ fun _ => ⟨rfl, fun _ => trivial⟩
    simp only [getfindinfoL]
    split
    · exact ⟨rfl, fun _ => trivial⟩
    · trivial

/-- A listing that is not cached is the same without a cache or memory for it exactly when no
pointer that is NULL is followed: the cache is not an empty one without room, the copy of the path
has memory, and a listing that does not fail has its context. -/
theorem listing_memoryless_iff (ph : Platform) (srv : SmbwrpServer) {state : FilelistState}
    (short : state.dir.length < maxPath) {pdc left : Option DirectoryCache} {cli : Handle}
    {mask : CString} {lookup listing : List CallEvent}
    {outcome : Option (UInt32 × Option DirectoryCache)}
    (missed : Run (dircacheListFiles ph pdc state (smbwrpDirAdd ph srv state)) lookup
      (some (none, left)))
    (run : Run (listFiles ph listAttribute (smbwrpDirAdd ph srv state) pdc state cli mask)
      (lookup ++ listing) outcome)
    (limit : listing.countP isQuery < ph.queryLimit) :
    SameListing ph srv state cli mask listing outcome ↔
      Survives left state (memorySeen ph listing) := by
  have server : Run (listServer ph listAttribute (smbwrpDirAdd ph srv state) left state cli mask)
      listing outcome := missed.behind run
  have concluded := Watch.ensures_iff_runs.mp
    (@survives_listServer ph left state srv state short cli mask) listing outcome server
    (Watch.admits_of_forall _ fun _ _ _ => trivial)
  constructor
  · rintro ⟨value, linked, rfl, -⟩
    exact concluded
  · intro survives
    cases outcome with
    | none =>
        have queries : (memorySeen ph listing).queries = 0 + listing.countP isQuery :=
          queries_after ph listing {}
        rcases concluded with exhausted | fails
        · have exhausted : ph.queryLimit ≤ (memorySeen ph listing).queries := exhausted
          omega
        · exact absurd survives fails
    | some answer =>
        obtain ⟨value, linked⟩ := answer
        refine ⟨value, linked, rfl, fun working other path works => ?_⟩
        have replayed := @replayed_listServer ph listAttribute _ state other left working path
          (shown_smbwrpDirAdd ph srv state) works cli mask
        obtain ⟨trace, ⟨result, kept⟩, runs, seen, given, same⟩ := replayed.run server
        obtain rfl : value = result := same
        rw [← listFiles_working works] at runs
        exact ⟨trace, kept, runs, seen, given⟩

theorem listing_memoryless_iff_unopened :
    SameListing asciiPlatform shareResource.srv directoryState 1 directoryState.mask
        (exec (fun _ => refuseSmb2) 0 shareListing).1 (some (0xC0000022, none)) ↔
      Survives none directoryState
        (memorySeen asciiPlatform (exec (fun _ => refuseSmb2) 0 shareListing).1) := by
  have missed : Run (dircacheListFiles asciiPlatform none directoryState
      (smbwrpDirAdd asciiPlatform shareResource.srv directoryState)) [] (some (none, none)) := .ret
  have listed : Run shareListing (exec (fun _ => refuseSmb2) 0 shareListing).1
      (some (0xC0000022, none)) := run_exec _ _ _
  exact listing_memoryless_iff asciiPlatform shareResource.srv (by decide) missed listed (by decide)

def emptySmb1 : (R : Type) → Op R → R
  | _, .request _ .connProtocolSmb2 => false
  | _, .request _ .connHasAsyncCalls => false
  | _, .request _ .cliListRecv => some []
  | _, op => op.usual

/-- Without a cache even the listing of an empty directory does not come to an end. -/
theorem cacheless_listing_faults :
    ∃ listing, Run shareListing listing none ∧
      listing.countP isQuery < asciiPlatform.queryLimit ∧
      ¬ SameListing asciiPlatform shareResource.srv directoryState 1 directoryState.mask listing
        none := by
  refine ⟨(exec (fun _ => emptySmb1) 0 shareListing).1, run_exec _ _ _, by decide, ?_⟩
  rintro ⟨value, left, returned, -⟩
  cases returned

end NdpSmb
