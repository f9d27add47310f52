import NdpSmb.FreedArray
import NdpSmb.ListingLife

/-!
A directory is listed into the cache and then from it. However the array of its entries is
grown and shrunk, the cache replays all that was written or has no listing of the directory,
as long as the array is there and the directory was cached at most once.
-/

namespace NdpSmb

open ByteString Interaction

variable (ph : Platform)

def ArrayCache.writeEntries : Option ArrayListing → List SmbwrpFileinfo →
    Program (Option ArrayListing)
  | dircachectx, [] => pure dircachectx
  | dircachectx, finfo :: rest => do
      let dircachectx ← dircacheWriteEntry dircachectx finfo
      writeEntries dircachectx rest

def ArrayCache.writeSession (pdc : ArrayCache) (state : FilelistState) (cFiles : Nat)
    (infos : List SmbwrpFileinfo) : Program ArrayCache := do
  let (dircachectx, pdc) ← pdc.dircacheWriteBegin ph state cFiles
  let dircachectx ← writeEntries dircachectx infos
  pdc.dircacheWriteEnd dircachectx

def mallocReply : CallEvent → Option Bool
  | ⟨.malloc _, ok⟩ => some ok
  | _ => none

def MemoryGranted (trace : List CallEvent) : Prop :=
  ∀ event ∈ trace, mallocReply event ≠ some false

instance (trace : List CallEvent) : Decidable (MemoryGranted trace) :=
  inferInstanceAs (Decidable (∀ event ∈ trace, mallocReply event ≠ some false))

def memoryWatch : Watch Op Unit where
  observe memory _ := memory
  admits _ event := mallocReply event ≠ some false
  crash _ := False

namespace ArrayCache

def evicted (pdc : ArrayCache) : Option ArrayListing :=
  if pdc.entries.length ≥ pdc.cMaxEntries then pdc.entries.getLast? else none

def remaining (pdc : ArrayCache) : ArrayCache :=
  if pdc.entries.length ≥ pdc.cMaxEntries then { pdc with entries := pdc.entries.dropLast }
  else pdc

/-- The listing that a session for the directory starts from. -/
def reused (pdc : ArrayCache) (path : CString) : Option ArrayListing :=
  pdc.remaining.dcFindDirCache ph path

/-- The arrays that a session for the directory frees and writes to are there. -/
def Whole (pdc : ArrayCache) (path : CString) : Prop :=
  ∀ pdce, pdc.evicted = some pdce ∨ pdc.reused ph path = some pdce → pdce.freed = false

end ArrayCache

section Memory

variable {ph} {pdc : ArrayCache} {pdce : ArrayListing} {path : CString} {cFiles : Nat}
  {state : FilelistState} {memory : Unit}

theorem ensures_malloc {α : Type} {size : Nat} {follow : Bool → Program α} {post : α → Unit → Prop}
    (next : memoryWatch.Ensures post (follow true) memory) :
    memoryWatch.Ensures post (perform (Op.malloc size) >>= follow) memory := by
  apply Watch.ensures_perform_bind.mpr
  intro given granted
  cases given with
  | true => exact next
  | false => exact absurd rfl granted

theorem ensures_dceDelete_whole {α : Type} {follow : Unit → Program α} {post : α → Unit → Prop}
    (whole : pdce.freed = false) (next : memoryWatch.Ensures post (follow ()) memory) :
    memoryWatch.Ensures post (pdce.dceDelete >>= follow) memory := by
  unfold ArrayListing.dceDelete
  rw [if_neg (by simp [whole])]
  exact next

def BegunWhole (answer : Option ArrayListing × ArrayCache) : Prop :=
  ∃ pdce, answer.1 = some pdce ∧ pdce.freed = false

theorem ensures_dcWriteBegin_whole (enabled : pdc.fEnabled = true)
    (whole : ∀ pdce, pdc.dcFindDirCache ph path = some pdce → pdce.freed = false) :
    memoryWatch.Ensures (fun answer _ => BegunWhole answer) (pdc.dcWriteBegin ph path cFiles)
      memory := by
  unfold ArrayCache.dcWriteBegin ArrayCache.dcWriteStart
  rw [if_neg (by simp [enabled])]
  cases found : pdc.dcFindDirCache ph path with
  | none =>
      simp only [ArrayListing.dceCreate, dceCreate, Prog.bind_assoc]
      apply ensures_malloc
      apply ensures_malloc
      apply ensures_malloc
      intro now _
      exact ⟨_, rfl, rfl⟩
  | some pdce =>
      intro now _
      exact ⟨_, rfl, whole pdce found⟩

theorem ensures_dircacheWriteBegin_whole (enabled : pdc.fEnabled = true)
    (room : 1 ≤ pdc.cMaxEntries) (named : dcCreateDirPath state = some path)
    (whole : pdc.Whole ph path) :
    memoryWatch.Ensures (fun answer _ => BegunWhole answer)
      (pdc.dircacheWriteBegin ph state cFiles) memory := by
  have reusedWhole : ∀ pdce, pdc.remaining.dcFindDirCache ph path = some pdce →
      pdce.freed = false := fun pdce found => whole pdce (.inr found)
  simp only [ArrayCache.dircacheWriteBegin, named]
  unfold ArrayCache.dcEvict
  by_cases full : pdc.entries.length ≥ pdc.cMaxEntries
  · rw [if_pos full]
    cases last : pdc.entries.getLast? with
    | none =>
        rw [List.getLast?_eq_none_iff.mp last, List.length_nil] at full
        omega
    | some pdce =>
        have evicted : pdc.evicted = some pdce := by
          rw [ArrayCache.evicted, if_pos full, last]
        rw [Prog.bind_assoc]
        apply ensures_dceDelete_whole (whole pdce (.inl evicted))
        rw [ArrayCache.remaining, if_pos full] at reusedWhole
        exact ensures_dcWriteBegin_whole enabled reusedWhole
  · rw [if_neg full]
    rw [ArrayCache.remaining, if_neg full] at reusedWhole
    exact ensures_dcWriteBegin_whole enabled reusedWhole

theorem ensures_dceWriteEntry_granted (entry : DirectoryCacheEntry) (finfo : SmbwrpFileinfo) :
    memoryWatch.Ensures (fun _ _ => True) (dceWriteEntry entry finfo) memory := by
  unfold dceWriteEntry
  split
  · intro grown _
    cases grown with
    | true => trivial
    | false => trivial
  · trivial

theorem ensures_writeEntries_whole (infos : List SmbwrpFileinfo) (whole : pdce.freed = false) :
    memoryWatch.Ensures (fun dircachectx _ => ∃ written, dircachectx = some written ∧
      written.freed = false) (ArrayCache.writeEntries (some pdce) infos) memory := by
  induction infos generalizing pdce with
  | nil => exact ⟨pdce, rfl, whole⟩
  | cons finfo rest ih =>
      have present : ¬ pdce.freed = true := by simp [whole]
      unfold ArrayCache.writeEntries ArrayCache.dircacheWriteEntry ArrayListing.dceWriteEntry
      simp only [if_neg present, Prog.bind_assoc]
      apply Watch.ensures_bind.mpr
      apply (ensures_dceWriteEntry_granted pdce.toDirectoryCacheEntry finfo).mono
      intro written _ _
      have left : ({ pdce with toDirectoryCacheEntry := written } : ArrayListing).freed = false :=
        whole
      exact ih left

theorem ensures_dircacheWriteEnd_whole (whole : pdce.freed = false) :
    memoryWatch.Ensures (fun _ _ => True) (pdc.dircacheWriteEnd (some pdce)) memory := by
  have present : ¬ pdce.freed = true := by simp [whole]
  simp only [ArrayCache.dircacheWriteEnd]
  split
  · apply ensures_dceDelete_whole whole
    trivial
  · apply Watch.ensures_bind.mpr
    unfold ArrayListing.dceAdjust
    simp only [if_neg present]
    split
    · intro shrunk _
      cases shrunk with
      | true => trivial
      | false => trivial
    · trivial

theorem ensures_writeSession_whole (enabled : pdc.fEnabled = true)
    (room : 1 ≤ pdc.cMaxEntries) (named : dcCreateDirPath state = some path)
    (whole : pdc.Whole ph path) (infos : List SmbwrpFileinfo) :
    memoryWatch.Ensures (fun _ _ => True) (pdc.writeSession ph state cFiles infos) memory := by
  apply Watch.ensures_bind.mpr
  apply (ensures_dircacheWriteBegin_whole enabled room named whole).mono
  rintro ⟨_, begun⟩ _ ⟨pdce, rfl, present⟩
  apply Watch.ensures_bind.mpr
  apply (ensures_writeEntries_whole infos present).mono
  rintro _ _ ⟨written, rfl, still⟩
  exact ensures_dircacheWriteEnd_whole still

end Memory

/-! What becomes of a session where the array is gone. -/

section Freed

variable {ph} {pdc : ArrayCache} {pdce : ArrayListing} {path : CString} {cFiles : Nat}
  {state : FilelistState}

theorem returns_dcWriteBegin_freed (enabled : pdc.fEnabled = true)
    (found : pdc.dcFindDirCache ph path = some pdce) :
    (pdc.dcWriteBegin ph path cFiles).Returns fun answer => ∃ now,
      answer.1 = some { pdce with aInfos := [], ulLastUpdateTime := now } := by
  unfold ArrayCache.dcWriteBegin ArrayCache.dcWriteStart
  rw [if_neg (by simp [enabled]), found]
  intro now
  exact ⟨now, rfl⟩

theorem returns_dircacheWriteBegin_freed (enabled : pdc.fEnabled = true)
    (named : dcCreateDirPath state = some path) :
    (pdc.dircacheWriteBegin ph state cFiles).Returns fun answer =>
      (∀ pdce, pdc.evicted = some pdce → pdce.freed = false) ∧
      ∀ pdce, pdc.reused ph path = some pdce → ∃ now,
        answer.1 = some { pdce with aInfos := [], ulLastUpdateTime := now } := by
  have begun (kept : ArrayCache) (same : pdc.remaining = kept) (usable : kept.fEnabled = true) :
      (kept.dcWriteBegin ph path cFiles).Returns fun answer =>
        ∀ pdce, pdc.reused ph path = some pdce → ∃ now,
          answer.1 = some { pdce with aInfos := [], ulLastUpdateTime := now } := by
    unfold ArrayCache.reused
    rw [same]
    cases found : kept.dcFindDirCache ph path with
    | none => exact Prog.returns_of_forall fun _ _ absent => by cases absent
    | some pdce =>
        apply (returns_dcWriteBegin_freed usable found).mono
        rintro answer started _ ⟨⟩
        exact started
  simp only [ArrayCache.dircacheWriteBegin, named]
  unfold ArrayCache.dcEvict ArrayCache.evicted
  by_cases full : pdc.entries.length ≥ pdc.cMaxEntries
  · rw [if_pos full, if_pos full]
    have same : pdc.remaining = { pdc with entries := pdc.entries.dropLast } := by
      rw [ArrayCache.remaining, if_pos full]
    cases last : pdc.entries.getLast? with
    | none => trivial
    | some pdce =>
        apply Prog.returns_bind.mpr
        apply returns_dceDelete
        intro present
        apply (begun _ same enabled).mono
        intro answer started
        refine ⟨?_, started⟩
        rintro _ ⟨⟩
        exact present
  · rw [if_neg full, if_neg full]
    have same : pdc.remaining = pdc := by
      rw [ArrayCache.remaining, if_neg full]
    apply (begun pdc same enabled).mono
    intro answer started
    refine ⟨?_, started⟩
    rintro _ ⟨⟩

theorem returns_writeEntries_freed (gone : pdce.freed = true) (infos : List SmbwrpFileinfo) :
    (ArrayCache.writeEntries (some pdce) infos).Returns fun dircachectx =>
      dircachectx = some pdce := by
  cases infos with
  | nil => rfl
  | cons finfo rest =>
      unfold ArrayCache.writeEntries ArrayCache.dircacheWriteEntry ArrayListing.dceWriteEntry
      simp only [if_pos gone]
      trivial

theorem returns_dircacheWriteEnd_freed (gone : pdce.freed = true) (empty : pdce.aInfos = [])
    (allotted : 0 < pdce.cInfosAllocated) :
    (pdc.dircacheWriteEnd (some pdce)).Returns fun _ => False := by
  simp only [ArrayCache.dircacheWriteEnd]
  split
  · apply returns_dceDelete
    intro present
    exact absurd (gone.symm.trans present) (by decide)
  · unfold ArrayListing.dceAdjust
    have free : pdce.cInfosAllocated - pdce.aInfos.length > pdce.aInfos.length / 2 := by
      rw [empty, List.length_nil]
      omega
    simp only [if_pos free, if_pos gone]
    trivial

end Freed

/-! An array that is gone was one of one entry. -/

def ArrayListing.Allotted (pdce : ArrayListing) : Prop :=
  pdce.freed = true → 0 < pdce.cInfosAllocated

def ArrayCache.Allotted (pdc : ArrayCache) : Prop := ∀ pdce ∈ pdc.entries, pdce.Allotted

structure ArrayShared.Allotted (shared : ArrayShared) : Prop where
  linked : shared.pdc.Allotted
  written : ∀ pdce, some pdce ∈ shared.sessions → pdce.Allotted

section Allotted

variable {ph} {pdc later : ArrayCache} {pdce : ArrayListing} {path : CString}
  {shared : ArrayShared}

theorem ArrayCache.Allotted.sublist (allotted : pdc.Allotted)
    (part : later.entries.Sublist pdc.entries) : later.Allotted :=
  fun pdce member => allotted pdce (part.subset member)

theorem ArrayListing.Allotted.of_present (present : pdce.freed = false) : pdce.Allotted := by
  intro gone
  exact absurd (gone.symm.trans present) (by decide)

theorem sublist_removeFound : (pdc.dcRemoveFound ph path).entries.Sublist pdc.entries :=
  List.eraseP_sublist

theorem allotted_dcRead (allotted : pdc.Allotted) (fn : SmbwrpFileinfo → Program UInt32)
    (fForceCache : Bool) :
    (pdc.dcRead ph path fn fForceCache).Returns fun answer => answer.2.Allotted := by
  unfold ArrayCache.dcRead
  split
  · exact allotted
  split
  · exact allotted
  rename_i pdce _
  split
  · apply Prog.returns_bind.mpr
    exact Prog.returns_of_forall fun _ => allotted
  · apply Prog.returns_perform_bind.mpr
    intro now
    split
    · exact returns_dceDelete fun _ => allotted.sublist sublist_removeFound
    · apply Prog.returns_bind.mpr
      exact Prog.returns_of_forall fun _ => allotted

theorem sublist_dcInvalidateLoop (fuel : Nat) (entries : List ArrayListing) :
    (ArrayCache.dcInvalidateLoop ph path fuel entries).Returns fun left =>
      left.Sublist entries := by
  induction fuel generalizing entries with
  | zero => exact List.Sublist.refl entries
  | succ fuel ih =>
      unfold ArrayCache.dcInvalidateLoop
      split
      · exact List.Sublist.refl entries
      · apply returns_dceDelete
        intro _
        exact (ih _).mono fun left part => part.trans List.eraseP_sublist

theorem allotted_dcEvict (allotted : pdc.Allotted) : pdc.dcEvict.Returns ArrayCache.Allotted := by
  unfold ArrayCache.dcEvict
  split
  · split
    · trivial
    · apply returns_dceDelete
      intro _
      exact allotted.sublist (List.dropLast_sublist _)
  · exact allotted

theorem allotted_dcWriteBegin (allotted : pdc.Allotted) (cFiles : Nat) :
    (pdc.dcWriteBegin ph path cFiles).Returns fun answer =>
      answer.2.Allotted ∧ ∀ pdce, answer.1 = some pdce → pdce.Allotted := by
  have started : (pdc.dcWriteStart ph path cFiles).Returns fun answer =>
      answer.2.Allotted ∧ ∀ pdce, answer.1 = some pdce → pdce.Allotted := by
    unfold ArrayCache.dcWriteStart
    cases found : pdc.dcFindDirCache ph path with
    | none =>
        apply Prog.returns_bind.mpr
        apply Prog.returns_bind.mpr
        apply Prog.returns_of_forall
        intro created
        refine ⟨allotted, ?_⟩
        intro pdce new
        cases created with
        | none => cases new
        | some entry =>
            cases new
            exact .of_present rfl
    | some pdce =>
        refine ⟨allotted.sublist sublist_removeFound, ?_⟩
        rintro _ ⟨⟩
        exact allotted pdce (List.mem_of_find?_eq_some found)
  unfold ArrayCache.dcWriteBegin
  split
  · exact ⟨allotted, fun _ absent => by cases absent⟩
  · apply Prog.returns_bind.mpr
    apply started.mono
    rintro ⟨dircachectx, left⟩ ⟨kept, begun⟩
    cases dircachectx with
    | none => exact ⟨kept, fun _ absent => by cases absent⟩
    | some pdce =>
        intro now
        refine ⟨kept, ?_⟩
        rintro _ ⟨⟩
        exact begun pdce rfl

theorem allotted_dircacheWriteEntry (dircachectx : Option ArrayListing) (finfo : SmbwrpFileinfo) :
    (ArrayCache.dircacheWriteEntry dircachectx finfo).Returns fun written =>
      ∀ pdce, written = some pdce → pdce.Allotted := by
  cases dircachectx with
  | none => exact fun _ absent => by cases absent
  | some pdce =>
      unfold ArrayCache.dircacheWriteEntry ArrayListing.dceWriteEntry
      simp only
      split
      · trivial
      · rename_i present
        apply Prog.returns_bind.mpr
        apply Prog.returns_bind.mpr
        apply Prog.returns_of_forall
        rintro written _ ⟨⟩
        exact .of_present (by simpa using present)

theorem allotted_dceAdjust (allotted : pdce.Allotted) :
    pdce.dceAdjust.Returns ArrayListing.Allotted := by
  unfold ArrayListing.dceAdjust
  simp only
  split
  · rename_i free
    split
    · trivial
    · rename_i present
      intro shrunk
      cases shrunk with
      | true => exact .of_present (by simpa using present)
      | false =>
          intro _
          change 0 < pdce.cInfosAllocated
          omega
  · exact allotted

theorem allotted_dircacheWriteEnd (allotted : pdc.Allotted) {dircachectx : Option ArrayListing}
    (begun : ∀ pdce, dircachectx = some pdce → pdce.Allotted) :
    (pdc.dircacheWriteEnd dircachectx).Returns ArrayCache.Allotted := by
  cases dircachectx with
  | none => trivial
  | some pdce =>
      simp only [ArrayCache.dircacheWriteEnd]
      split
      · exact returns_dceDelete fun _ => allotted
      · apply Prog.returns_bind.mpr
        apply (allotted_dceAdjust (begun pdce rfl)).mono
        intro adjusted fits listing member
        rcases List.mem_cons.mp member with rfl | inside
        · exact fits
        · exact allotted listing inside

theorem allotted_arrayStep {fn : FilelistState → SmbwrpFileinfo → Program UInt32}
    (allotted : shared.Allotted) (call : SharedCall) :
    (arrayStep ph fn shared call).Returns fun answer => answer.2.Allotted := by
  obtain ⟨linked, written⟩ := allotted
  cases call with
  | listFiles state =>
      apply Prog.returns_bind.mpr
      unfold ArrayCache.dircacheListFiles
      split
      · exact ⟨linked, written⟩
      · apply (allotted_dcRead linked _ false).mono
        intro answer kept
        exact ⟨kept, written⟩
  | findPath path =>
      apply Prog.returns_bind.mpr
      exact Prog.returns_of_forall fun _ => ⟨linked, written⟩
  | invalidate path fParent =>
      apply Prog.returns_bind.mpr
      apply Prog.returns_bind.mpr
      apply (sublist_dcInvalidateLoop _ _).mono
      intro left part
      exact ⟨linked.sublist part, written⟩
  | writeBegin state cFiles =>
      apply Prog.returns_bind.mpr
      have begins : (shared.pdc.dircacheWriteBegin ph state cFiles).Returns fun answer =>
          answer.2.Allotted ∧ ∀ pdce, answer.1 = some pdce → pdce.Allotted := by
        unfold ArrayCache.dircacheWriteBegin
        split
        · exact ⟨linked, fun _ absent => by cases absent⟩
        · apply Prog.returns_bind.mpr
          apply (allotted_dcEvict linked).mono
          intro kept fits
          exact allotted_dcWriteBegin fits cFiles
      apply begins.mono
      rintro ⟨dircachectx, left⟩ ⟨kept, begun⟩
      refine ⟨kept, fun pdce member => ?_⟩
      rcases List.mem_append.mp member with earlier | new
      · exact written pdce earlier
      · exact begun pdce (List.mem_singleton.mp new).symm
  | writeEntry place finfo =>
      simp only [arrayStep]
      cases shared.sessions[place]? with
      | none => trivial
      | some dircachectx =>
          apply Prog.returns_bind.mpr
          apply (allotted_dircacheWriteEntry dircachectx finfo).mono
          intro context fits
          refine ⟨linked, fun pdce member => ?_⟩
          rcases List.mem_or_eq_of_mem_set member with earlier | new
          · exact written pdce earlier
          · exact fits pdce new.symm
  | writeEnd place =>
      simp only [arrayStep]
      cases used : shared.sessions[place]? with
      | none => trivial
      | some dircachectx =>
          have begun : ∀ pdce, dircachectx = some pdce → pdce.Allotted := by
            rintro pdce rfl
            exact written pdce (List.mem_of_getElem? used)
          apply Prog.returns_bind.mpr
          apply (allotted_dircacheWriteEnd linked begun).mono
          intro later fits
          exact ⟨fits, fun pdce member => written pdce (List.mem_of_mem_eraseIdx member)⟩
  | abandon place =>
      exact ⟨linked, fun pdce member => written pdce (List.mem_of_mem_eraseIdx member)⟩

theorem allotted_reached {fn : FilelistState → SmbwrpFileinfo → Program UInt32}
    {ulExpirationTime : UInt32} {cMaxEntries : Nat} {history : List (Taken Op SharedCall Unit)}
    (reached : Reaches (arrayStep ph fn) anyArrays (emptyArrays ulExpirationTime cMaxEntries)
      history shared) : shared.Allotted := by
  have first : (emptyArrays ulExpirationTime cMaxEntries).Allotted := by
    constructor
    · intro pdce absent
      cases absent
    · intro pdce absent
      cases absent
  exact reached.invariant ArrayShared.Allotted first fun _ call allotted _ =>
    allotted_arrayStep allotted call

end Allotted

def SparingFirst (path : CString) (listing : DirectoryCacheEntry) (shared : ArrayShared)
    (call : SharedCall) : Prop :=
  Spares ph listing shared.image call ∧ ¬ Supersedes ph path shared.image call

/-- The cache replays the entries for the directory as long as the listing lives. -/
def Replays (fn : FilelistState → SmbwrpFileinfo → Program UInt32) (ulExpirationTime : UInt32)
    (done : ArrayShared) (path : CString) (infos : List SmbwrpFileinfo)
    (listing : DirectoryCacheEntry) : Prop :=
  ∀ after later, Reaches (arrayStep ph fn) (SparingFirst ph path listing) done after later →
    UnexpiredThroughout ulExpirationTime listing (exchanges after) →
    ∀ state call trace answer, dcCreateDirPath state = some path →
      Run (later.pdc.dircacheListFiles ph state call) trace (some answer) →
      ∃ now rest, trace = ⟨.timesec, now⟩ :: rest ∧ (Unexpired ulExpirationTime listing now →
        Run (addEach call infos) rest (some ()) ∧ answer.1 = some infos.length)

/-- The session ends with a listing that replays all that was written, or with none of the
directory where the array could not be grown. -/
def ReplaysOrNone (fn : FilelistState → SmbwrpFileinfo → Program UInt32)
    (ulExpirationTime : UInt32) (start : ArrayShared) (state : FilelistState) (path : CString)
    (cFiles : Nat) (infos : List SmbwrpFileinfo) (trace : List CallEvent)
    (outcome : Option ArrayCache) : Prop :=
  ∃ first middle last pdce begun dircachectx pdc, trace = first ++ middle ++ last ∧
    outcome = some pdc ∧
    Run (start.pdc.dircacheWriteBegin ph state cFiles) first (some (some pdce, begun)) ∧
    Run (ArrayCache.writeEntries (some pdce) infos) middle (some dircachectx) ∧
    Run (begun.dircacheWriteEnd dircachectx) last (some pdc) ∧
    (¬ GrowthFails middle ∧ (∃ listing, pdc.cache.entries.head? = some listing ∧
        (⟨.timesec, listing.ulLastUpdateTime⟩ : CallEvent) ∈ first ∧
        Replays ph fn ulExpirationTime ⟨pdc, start.sessions⟩ path infos listing) ∨
      GrowthFails middle ∧ ∀ entry ∈ pdc.cache.entries, entry.pszPath ≠ path)

def GrowthRefused (pdc : ArrayCache) (state : FilelistState) (cFiles : Nat)
    (infos : List SmbwrpFileinfo) (trace : List CallEvent) : Prop :=
  ∃ first middle rest dircachectx begun written, trace = first ++ middle ++ rest ∧
    Run (pdc.dircacheWriteBegin ph state cFiles) first (some (dircachectx, begun)) ∧
    Run (ArrayCache.writeEntries dircachectx infos) middle (some written) ∧ GrowthFails middle

/-- Beside the listing that is evicted and the one that is reused none of the directory is
cached. -/
def CachedOnce (pdc : DirectoryCache) (path : CString) : Prop :=
  ∀ entry ∈ (unevicted pdc).eraseP (dcMatches ph path false), entry.pszPath ≠ path

section Session

variable {ph} {fn : FilelistState → SmbwrpFileinfo → Program UInt32} {start : ArrayShared}
  {pdc begun : ArrayCache} {pdce : ArrayListing} {state : FilelistState} {path : CString}
  {cFiles : Nat} {infos : List SmbwrpFileinfo} {trace first middle last : List CallEvent}
  {dircachectx : Option ArrayListing} {ulExpirationTime : UInt32} {cMaxEntries : Nat}

theorem refines_writeEntries (dircachectx : Option ArrayListing) (infos : List SmbwrpFileinfo) :
    Refines (fun left right => right = left.map ArrayListing.toDirectoryCacheEntry)
      (ArrayCache.writeEntries dircachectx infos)
      (writeEntries (dircachectx.map ArrayListing.toDirectoryCacheEntry) infos) := by
  induction infos generalizing dircachectx with
  | nil => exact .ret rfl
  | cons finfo rest ih =>
      apply (refines_dircacheWriteEntry dircachectx finfo).bind
      rintro written _ rfl
      exact ih written

theorem limits_of_sound (sound : start.image.Sound ulExpirationTime cMaxEntries) :
    start.pdc.fEnabled = true ∧ start.pdc.ulExpirationTime = ulExpirationTime ∧
      start.pdc.cMaxEntries = cMaxEntries := by
  have same : start.pdc.cache = { emptyCache ulExpirationTime cMaxEntries with
      entries := linked start.image.pdc } := Option.some.inj sound.pdc_eq
  exact ⟨congrArg DirectoryCache.fEnabled same, congrArg DirectoryCache.ulExpirationTime same,
    congrArg DirectoryCache.cMaxEntries same⟩

theorem step_writeBegin {answer : Option ArrayListing × ArrayCache}
    (opening : Run (start.pdc.dircacheWriteBegin ph state cFiles) first (some answer)) :
    Run (arrayStep ph fn start (.writeBegin state cFiles)) first
      (some ((), ⟨answer.2, start.sessions ++ [answer.1]⟩)) := by
  rw [← List.append_nil first]
  apply opening.bind
  exact .ret

theorem reaches_writeEntries {origin : ArrayShared} {before : List (Taken Op SharedCall Unit)}
    {sessions : List (Option ArrayListing)} {context written : Option ArrayListing}
    (reached : Reaches (arrayStep ph fn) anyArrays origin before ⟨begun, sessions ++ [context]⟩)
    (writing : Run (ArrayCache.writeEntries context infos) middle (some written)) :
    ∃ after, Reaches (arrayStep ph fn) anyArrays origin after ⟨begun, sessions ++ [written]⟩ := by
  induction infos generalizing context middle before with
  | nil =>
      obtain ⟨-, same⟩ := run_ret_iff.mp writing
      obtain rfl := Option.some.inj same
      exact ⟨before, reached⟩
  | cons finfo rest ih =>
      obtain ⟨one, others, next, -, wrote, following⟩ := run_bind_some_iff.mp writing
      have used : (sessions ++ [context])[sessions.length]? = some context := by simp
      have step : Run (arrayStep ph fn ⟨begun, sessions ++ [context]⟩
          (.writeEntry sessions.length finfo)) (one ++ [])
          (some ((), ⟨begun, sessions ++ [next]⟩)) := by
        simp only [arrayStep, used]
        apply wrote.bind
        simp
      exact ih (reached.step trivial step) following

theorem reaches_session {origin : ArrayShared} {before : List (Taken Op SharedCall Unit)}
    (reached : Reaches (arrayStep ph fn) anyArrays origin before start)
    {context : Option ArrayListing}
    (opening : Run (start.pdc.dircacheWriteBegin ph state cFiles) first (some (context, begun)))
    (writing : Run (ArrayCache.writeEntries context infos) middle (some dircachectx))
    (ending : Run (begun.dircacheWriteEnd dircachectx) last (some pdc)) :
    ∃ after, Reaches (arrayStep ph fn) anyArrays origin after ⟨pdc, start.sessions⟩ := by
  obtain ⟨between, written⟩ :=
    reaches_writeEntries (reached.step trivial (step_writeBegin opening)) writing
  have used : (start.sessions ++ [dircachectx])[start.sessions.length]? = some dircachectx := by
    simp
  have step : Run (arrayStep ph fn ⟨begun, start.sessions ++ [dircachectx]⟩
      (.writeEnd start.sessions.length)) (last ++ []) (some ((), ⟨pdc, start.sessions⟩)) := by
    simp only [arrayStep, used]
    apply ending.bind
    simp [List.eraseIdx_append_of_length_le]
  exact ⟨_, written.step trivial step⟩

theorem sound_reached {before : List (Taken Op SharedCall Unit)}
    (reached : Reaches (arrayStep ph fn) anyArrays (emptyArrays ulExpirationTime cMaxEntries)
      before start) : start.image.Sound ulExpirationTime cMaxEntries := by
  have there : Reaches (sharedStep ph fn) Interleaved (emptyShared ulExpirationTime cMaxEntries)
      before start.image := reaches_image (fun _ _ _ => trivial) reached
  exact sound_emptyShared.reached there

theorem run_begin (sound : start.image.Sound ulExpirationTime cMaxEntries)
    (named : dcCreateDirPath state = some path)
    (opening : Run (start.pdc.dircacheWriteBegin ph state cFiles) first (some (some pdce, begun))) :
    NewlyBegun ph path first pdce.toDirectoryCacheEntry ∧
      begun.cache.entries = (unevicted start.pdc.cache).eraseP (dcMatches ph path false) := by
  have step : Run (arrayStep ph noCallback start (.writeBegin state cFiles)) first _ :=
    step_writeBegin opening
  obtain ⟨⟨_, image⟩, there, -, stepped⟩ := (refines_arrayStep noCallback start _).run step
  obtain rfl : image = _ := stepped
  obtain ⟨context, sessions, fresh⟩ := run_writeBegin_begins sound named there
  have same : context = some pdce.toDirectoryCacheEntry := by
    simpa [ArrayShared.image] using sessions.symm
  obtain ⟨newly, cache, present, left⟩ := fresh _ same
  obtain rfl : start.pdc.cache = cache := Option.some.inj present
  exact ⟨newly, congrArg DirectoryCache.entries (Option.some.inj left)⟩

theorem run_arrayEntries (writing : Run (ArrayCache.writeEntries (some pdce) infos) middle
    (some dircachectx)) : ∃ written, dircachectx = some written ∧
      Extends infos (GrowthFails middle) pdce.toDirectoryCacheEntry
        written.toDirectoryCacheEntry := by
  obtain ⟨_, there, rfl⟩ := (refines_writeEntries (some pdce) infos).run writing
  obtain ⟨entry, same, extended⟩ := run_writeEntries there
  cases dircachectx with
  | none => cases same
  | some written =>
      obtain rfl : written.toDirectoryCacheEntry = entry := Option.some.inj same
      exact ⟨written, rfl, extended⟩

theorem run_arrayEnd (ending : Run (begun.dircacheWriteEnd (some pdce)) last (some pdc)) :
    pdce.fInvalid = true ∧ pdc.cache = begun.cache ∨ pdce.fInvalid = false ∧
      ∃ cInfosAllocated, pdc.cache =
        dcInsertEntry begun.cache { pdce.toDirectoryCacheEntry with cInfosAllocated } := by
  obtain ⟨_, there, rfl⟩ := (refines_dircacheWriteEnd (some pdce)).run ending
  rcases run_dircacheWriteEnd there with ⟨invalid, same⟩ | ⟨valid, cInfosAllocated, same⟩
  · exact .inl ⟨invalid, Option.some.inj same⟩
  · exact .inr ⟨valid, cInfosAllocated, Option.some.inj same⟩

theorem replays_of_first (sound : start.image.Sound ulExpirationTime cMaxEntries)
    {listing : DirectoryCacheEntry} (content : listing.aInfos = infos)
    (found : (linked start.image.pdc).find? (dcMatches ph path false) = some listing) :
    Replays ph fn ulExpirationTime start path infos listing := by
  intro after later reached young state call trace answer named run
  have there : Reaches (sharedStep ph fn)
      (fun shared call => Spares ph listing shared call ∧ ¬ Supersedes ph path shared call)
      start.image after later.image := reaches_image (fun _ _ spares => spares) reached
  obtain ⟨soundLater, still⟩ := stays_first sound found there young
  obtain ⟨enabled, expiration, -⟩ := limits_of_sound soundLater
  obtain ⟨⟨total, left⟩, listed, same, -⟩ := (refines_dircacheListFiles state call).run run
  obtain ⟨now, rest, rfl, replayed⟩ := run_listFiles_found enabled still named listed
  refine ⟨now, rest, rfl, fun unexpired => ?_⟩
  have limit : later.pdc.cache.ulExpirationTime = ulExpirationTime := expiration
  rw [limit, content] at replayed
  obtain ⟨calls, answered⟩ := replayed unexpired
  exact ⟨calls, same.trans (congrArg Prod.fst answered)⟩

theorem returned_of_whole (sound : start.image.Sound ulExpirationTime cMaxEntries)
    (room : 1 ≤ cMaxEntries) (named : dcCreateDirPath state = some path)
    (whole : start.pdc.Whole ph path) {outcome : Option ArrayCache}
    (run : Run (start.pdc.writeSession ph state cFiles infos) trace outcome)
    (granted : MemoryGranted trace) :
    ∃ first middle last pdce begun dircachectx pdc, trace = first ++ middle ++ last ∧
      outcome = some pdc ∧
      Run (start.pdc.dircacheWriteBegin ph state cFiles) first (some (some pdce, begun)) ∧
      Run (ArrayCache.writeEntries (some pdce) infos) middle (some dircachectx) ∧
      Run (begun.dircacheWriteEnd dircachectx) last (some pdc) := by
  obtain ⟨enabled, -, most⟩ := limits_of_sound sound
  rw [← most] at room
  have admitted : memoryWatch.Admits () trace :=
    Watch.admits_of_forall _ fun event inside _ => granted event inside
  have safe := Watch.ensures_iff_runs.mp
    (ensures_writeSession_whole enabled room named whole infos) trace outcome run admitted
  cases outcome with
  | none => exact absurd safe id
  | some pdc =>
      obtain ⟨first, rest, ⟨context, begun⟩, rfl, opening, others⟩ := run_bind_some_iff.mp run
      obtain ⟨middle, last, dircachectx, rfl, writing, ending⟩ := run_bind_some_iff.mp others
      have admittedFirst := ((Watch.admits_append _ _ _ _).mp admitted).1
      obtain ⟨pdce, given, -⟩ :=
        (ensures_dircacheWriteBegin_whole enabled room named whole).run opening admittedFirst
      obtain rfl : context = some pdce := given
      exact ⟨first, middle, last, pdce, begun, dircachectx, pdc, by rw [List.append_assoc], rfl,
        opening, writing, ending⟩

theorem whole_of_returned (sound : start.image.Sound ulExpirationTime cMaxEntries)
    (allotted : start.pdc.Allotted) (named : dcCreateDirPath state = some path)
    (opening : Run (start.pdc.dircacheWriteBegin ph state cFiles) first (some (some pdce, begun)))
    (writing : Run (ArrayCache.writeEntries (some pdce) infos) middle (some dircachectx))
    (ending : Run (begun.dircacheWriteEnd dircachectx) last (some pdc)) :
    start.pdc.Whole ph path := by
  obtain ⟨enabled, -, -⟩ := limits_of_sound sound
  obtain ⟨evictedWhole, started⟩ :=
    (returns_dircacheWriteBegin_freed enabled named).run opening
  rintro listing (evicted | reused)
  · exact evictedWhole listing evicted
  · obtain ⟨now, same⟩ := started listing reused
    obtain rfl := Option.some.inj same
    by_contra present
    have gone : listing.freed = true := by simpa using present
    have begunGone : { listing with aInfos := [], ulLastUpdateTime := now }.freed = true := gone
    have written := (returns_writeEntries_freed begunGone infos).run writing
    rw [written] at ending
    have inside : listing ∈ start.pdc.entries := by
      have kept := List.mem_of_find?_eq_some reused
      unfold ArrayCache.remaining at kept
      split at kept
      · exact (List.dropLast_sublist _).subset kept
      · exact kept
    exact (returns_dircacheWriteEnd_freed begunGone rfl (allotted listing inside gone)).run ending

end Session

/-- Given memory for a new listing, a session for a directory is replayed, or leaves nothing of
the directory where its array could not be grown, exactly if no array that it frees or writes to
is gone and, where the array could not be grown, the directory was cached once at most. -/
theorem listing_replays_iff {fn : FilelistState → SmbwrpFileinfo → Program UInt32}
    {ulExpirationTime : UInt32} {cMaxEntries : Nat} (room : 1 ≤ cMaxEntries)
    {before : List (Taken Op SharedCall Unit)} {start : ArrayShared}
    (reached : Reaches (arrayStep ph fn) anyArrays (emptyArrays ulExpirationTime cMaxEntries)
      before start)
    {state : FilelistState} {path : CString} (named : dcCreateDirPath state = some path)
    {cFiles : Nat} {infos : List SmbwrpFileinfo} {trace : List CallEvent}
    {outcome : Option ArrayCache}
    (run : Run (start.pdc.writeSession ph state cFiles infos) trace outcome)
    (granted : MemoryGranted trace) :
    ReplaysOrNone ph fn ulExpirationTime start state path cFiles infos trace outcome ↔
      start.pdc.Whole ph path ∧
        (GrowthRefused ph start.pdc state cFiles infos trace →
          CachedOnce ph start.pdc.cache path) := by
  have sound := sound_reached reached
  constructor
  · rintro ⟨first, middle, last, pdce, begun, dircachectx, pdc, rfl, rfl, opening, writing, ending,
      replayed⟩
    refine ⟨whole_of_returned sound (allotted_reached reached).linked named opening writing ending,
      ?_⟩
    rintro ⟨early, between, rest, context, started, wrote, same, begins, writes, refused⟩
    rw [List.append_assoc, List.append_assoc] at same
    obtain ⟨rfl, samePair, same⟩ := opening.split begins same
    obtain ⟨rfl, rfl⟩ := Prod.mk.inj samePair
    obtain ⟨rfl, rfl, -⟩ := writing.split writes same
    obtain ⟨-, left⟩ := run_begin sound named opening
    obtain ⟨written, rfl, extended⟩ := run_arrayEntries writing
    have invalid := extended.invalid (.inl refused)
    rcases run_arrayEnd ending with ⟨-, kept⟩ | ⟨valid, -⟩
    · rcases replayed with ⟨grown, -⟩ | ⟨-, none_left⟩
      · exact absurd refused grown
      · rw [kept, left] at none_left
        exact none_left
    · rw [invalid] at valid
      exact Bool.noConfusion valid
  · rintro ⟨whole, once⟩
    obtain ⟨first, middle, last, pdce, begun, dircachectx, pdc, rfl, rfl, opening, writing,
      ending⟩ := returned_of_whole sound room named whole run granted
    refine ⟨first, middle, last, pdce, begun, dircachectx, pdc, rfl, rfl, opening, writing, ending,
      ?_⟩
    obtain ⟨newly, left⟩ := run_begin sound named opening
    obtain ⟨written, rfl, extended⟩ := run_arrayEntries writing
    by_cases refused : GrowthFails middle
    · right
      refine ⟨refused, ?_⟩
      have invalid := extended.invalid (.inl refused)
      rcases run_arrayEnd ending with ⟨-, kept⟩ | ⟨valid, -⟩
      · rw [kept, left]
        exact once ⟨first, middle, last, _, begun, _, rfl, opening, writing, refused⟩
      · rw [invalid] at valid
        exact Bool.noConfusion valid
    · left
      refine ⟨refused, ?_⟩
      obtain ⟨valid, content⟩ := extended.whole refused
      have validNow : written.fInvalid = false := valid.trans newly.valid
      rcases run_arrayEnd ending with ⟨invalid, -⟩ | ⟨-, cInfosAllocated, cached⟩
      · rw [invalid] at validNow
        exact Bool.noConfusion validNow
      · let listing : DirectoryCacheEntry :=
          { written.toDirectoryCacheEntry with cInfosAllocated }
        have tag : listingTag listing = listingTag pdce.toDirectoryCacheEntry := extended.tag
        obtain ⟨-, -, stamped⟩ := ListingTag.mk.inj tag
        have matched : dcMatches ph path false listing = true :=
          (dcMatches_eq_of_tag tag).trans newly.matched
        have entries : pdc.cache.entries = listing :: begun.cache.entries :=
          congrArg DirectoryCache.entries cached
        refine ⟨listing, by rw [entries, List.head?_cons], ?_, ?_⟩
        · rw [stamped]
          exact newly.read
        · obtain ⟨after, ended⟩ := reaches_session reached opening writing ending
          apply replays_of_first (sound_reached ended)
          · change written.aInfos = infos
            rw [content, newly.empty, List.nil_append]
          · change pdc.cache.entries.find? _ = _
            rw [entries, List.find?_cons_of_pos matched]

def arraysOf (listing : ArrayListing) : ArrayShared :=
  { pdc := { entries := [listing], fEnabled := true, ulExpirationTime := 10, cMaxEntries := 4 } }

def arrayOfA : ArrayListing := { listingOfA with cInfosAllocated := 64 }

def filesAB : List SmbwrpFileinfo := [fileA, { fileA with fname := bytes "B" }]

theorem reaches_arrayOfA : ∃ history, Reaches (arrayStep asciiPlatform noCallback) anyArrays
    (emptyArrays 10 4) history (arraysOf arrayOfA) := by
  have created : Reaches (arrayStep asciiPlatform noCallback) anyArrays (emptyArrays 10 4) []
      (emptyArrays 10 4) := .start
  have begun := created.executed usualReplies (.writeBegin directoryState 128) () _ trivial rfl
  have written := begun.executed usualReplies (.writeEntry 0 fileA) () _ trivial rfl
  have ended := written.executed usualReplies (.writeEnd 0) () _ trivial rfl
  exact ⟨_, ended⟩

def listedAgain : List CallEvent × Option ArrayCache :=
  exec usualReplies 0 ((arraysOf arrayOfA).pdc.writeSession asciiPlatform directoryState 128 filesAB)

theorem listing_replays_iff_again :
    ReplaysOrNone asciiPlatform noCallback 10 (arraysOf arrayOfA) directoryState (bytes "\\D") 128
        filesAB listedAgain.1 listedAgain.2 ↔
      (arraysOf arrayOfA).pdc.Whole asciiPlatform (bytes "\\D") ∧
        (GrowthRefused asciiPlatform (arraysOf arrayOfA).pdc directoryState 128 filesAB
          listedAgain.1 → CachedOnce asciiPlatform (arraysOf arrayOfA).pdc.cache (bytes "\\D")) := by
  obtain ⟨history, reached⟩ := reaches_arrayOfA
  exact listing_replays_iff asciiPlatform (by decide : 1 ≤ 4) reached (by decide)
    (run_exec usualReplies _ 0) (by decide)

def nothingLeft (_ : Nat) : (R : Type) → Op R → R
  | _, .realloc 0 => false
  | _, op => op.usual

def freedArray : ArrayListing := { emptyDirectory with cInfosAllocated := 1, freed := true }

def listedFreed : List CallEvent × Option ArrayCache :=
  exec nothingLeft 0 ((arraysOf freedArray).pdc.writeSession asciiPlatform directoryState 1 [fileA])

/-- Where the array is for one entry and none is written, the next listing of the directory goes
into memory that has been freed. -/
theorem emptyListing_freed :
    ∃ history, Reaches (arrayStep asciiPlatform noCallback) anyArrays (emptyArrays 10 4) history
        (arraysOf freedArray) ∧
      history.map Taken.label = [.writeBegin directoryState 1, .writeEnd 0] ∧
      Run ((arraysOf freedArray).pdc.writeSession asciiPlatform directoryState 1 [fileA])
        listedFreed.1 listedFreed.2 ∧ MemoryGranted listedFreed.1 ∧
      ¬ ReplaysOrNone asciiPlatform noCallback 10 (arraysOf freedArray) directoryState
        (bytes "\\D") 1 [fileA] listedFreed.1 listedFreed.2 := by
  have created : Reaches (arrayStep asciiPlatform noCallback) anyArrays (emptyArrays 10 4) []
      (emptyArrays 10 4) := .start
  have begun := created.executed nothingLeft (.writeBegin directoryState 1) () _ trivial rfl
  have ended := begun.executed nothingLeft (.writeEnd 0) () _ trivial rfl
  refine ⟨_, ended, rfl, run_exec nothingLeft _ 0, by decide, ?_⟩
  rintro ⟨first, middle, last, pdce, begun, dircachectx, pdc, -, returned, -⟩
  cases returned

end NdpSmb
