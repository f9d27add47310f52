import NdpSmb.DirCache
import NdpSmb.Lookup

/-!
Looking up a directory in the cache, whatever the letter case of its path. The stored
hash is compared before the paths are, and it does depend on letter case.
-/

namespace NdpSmb

open ByteString Interaction

variable (ph : Platform)

/-- The scan that compares paths only. -/
def plainFind (pdc : DirectoryCache) (path : CString) : Option DirectoryCacheEntry :=
  pdc.entries.find? fun entry => dcePathEqualsTo ph entry path

def linked (pdc : Option DirectoryCache) : List DirectoryCacheEntry :=
  match pdc with
  | none => []
  | some pdc => pdc.entries

/-- Every listing of the directory is stored under the hash of this spelling of its path. -/
def HashAgrees (entries : List DirectoryCacheEntry) (path : CString) : Prop :=
  ∀ entry ∈ entries, ph.SameName path entry.pszPath → entry.ulHash = computehash path

def Distinct (entries : List DirectoryCacheEntry) : Prop :=
  entries.Pairwise fun left right => ¬ ph.SameName left.pszPath right.pszPath

theorem dcFindDirCache_eq_plainFind_iff (pdc : DirectoryCache) (path : CString) :
    dcFindDirCache ph pdc path false = plainFind ph pdc path ↔
      ∀ entry, plainFind ph pdc path = some entry → entry.ulHash = computehash path := by
  have scan := Lookup.find?_and_eq_iff (fun entry => entry.ulHash == computehash path)
    (fun entry => dcePathEqualsTo ph entry path) pdc.entries
  simpa [dcFindDirCache, funext fun entry => dcMatches_false ph (path) entry, plainFind] using scan

def invalidatedPath (path : CString) (fParent : Bool) : CString :=
  if fParent then parentPath path else path

theorem linked_dircacheInvalidate (path : CString) (pdc : Option DirectoryCache)
    (fParent : Bool) :
    linked (dircacheInvalidate ph path pdc fParent) = (linked pdc).filter fun entry =>
      !dcMatches ph (invalidatedPath path fParent) false entry := by
  cases pdc with
  | none => rfl
  | some pdc => exact dcInvalidate_entries ph pdc _ false

theorem invalidate_clears_iff (path : CString) (pdc : Option DirectoryCache) (fParent : Bool) :
    (∀ entry ∈ linked (dircacheInvalidate ph path pdc fParent),
      ¬ ph.SameName (invalidatedPath path fParent) entry.pszPath) ↔
      HashAgrees ph (linked pdc) (invalidatedPath path fParent) := by
  have clear := Lookup.filter_and_clear_iff
    (fun entry => entry.ulHash == computehash (invalidatedPath path fParent))
    (fun entry => dcePathEqualsTo ph entry (invalidatedPath path fParent)) (linked pdc)
  rw [linked_dircacheInvalidate]
  simpa [dcMatches, dcePathEqualsTo, HashAgrees] using clear

/-! Runs of the cache. -/

inductive CacheCall
  | listFiles (state : FilelistState)
  | findPath (path : CString)
  | session (state : FilelistState) (cFiles : Nat) (infos : List SmbwrpFileinfo)
  | abandoned (state : FilelistState) (cFiles : Nat) (infos : List SmbwrpFileinfo)
  | invalidate (path : CString) (fParent : Bool)

def writeEntries : Option DirectoryCacheEntry → List SmbwrpFileinfo →
    Program (Option DirectoryCacheEntry)
  | dircachectx, [] => pure dircachectx
  | dircachectx, finfo :: rest => do
      let dircachectx ← dircacheWriteEntry dircachectx finfo
      writeEntries dircachectx rest

/-- A write session runs from its begin to its end without another one in between. -/
def cacheStep (fn : SmbwrpFileinfo → Program UInt32) (pdc : Option DirectoryCache) :
    CacheCall → Program (Unit × Option DirectoryCache)
  | .listFiles state => do
      let (_, pdc) ← dircacheListFiles ph pdc state fn
      pure ((), pdc)
  | .findPath path => do
      let _ ← dircacheFindPath ph pdc path
      pure ((), pdc)
  | .session state cFiles infos => do
      let (dircachectx, pdc) ← dircacheWriteBegin ph pdc state cFiles
      let dircachectx ← writeEntries dircachectx infos
      let pdc ← dircacheWriteEnd pdc dircachectx
      pure ((), pdc)
  | .abandoned state cFiles infos => do
      let (dircachectx, pdc) ← dircacheWriteBegin ph pdc state cFiles
      let _ ← writeEntries dircachectx infos
      pure ((), pdc)
  | .invalidate path fParent => pure ((), dircacheInvalidate ph path pdc fParent)

/-- A directory is listed under a spelling whose hash is that of its cached listings. -/
def Spelled (pdc : Option DirectoryCache) : CacheCall → Prop
  | .session state _ _ | .abandoned state _ _ =>
      ∀ path, dcCreateDirPath state = some path → HashAgrees ph (linked pdc) path
  | _ => True

section Invariant

variable {ph}

theorem Distinct.sublist {fewer entries : List DirectoryCacheEntry} (apart : Distinct ph entries)
    (part : fewer.Sublist entries) : Distinct ph fewer :=
  List.Pairwise.sublist part apart

theorem HashAgrees.sublist {fewer entries : List DirectoryCacheEntry} {path : CString}
    (agrees : HashAgrees ph entries path) (part : fewer.Sublist entries) :
    HashAgrees ph fewer path :=
  fun entry member => agrees entry (part.subset member)

theorem Distinct.replace_head {head other : DirectoryCacheEntry}
    {entries : List DirectoryCacheEntry} (apart : Distinct ph (head :: entries))
    (path : other.pszPath = head.pszPath) : Distinct ph (other :: entries) := by
  obtain ⟨headApart, restApart⟩ := List.pairwise_cons.mp apart
  refine List.pairwise_cons.mpr ⟨fun entry member => ?_, restApart⟩
  rw [path]
  exact headApart entry member

theorem sublist_dcRead {pdc : DirectoryCache} {path : CString}
    {fn : SmbwrpFileinfo → Program UInt32} {fForceCache : Bool} :
    (dcRead ph pdc path fn fForceCache).Returns fun answer =>
      answer.2.entries.Sublist pdc.entries := by
  have whole : pdc.entries.Sublist pdc.entries := List.Sublist.refl _
  unfold dcRead
  split
  · exact whole
  · split
    · exact whole
    · split
      · rw [Prog.returns_bind]
        exact Prog.returns_of_forall fun _ => whole
      · refine Prog.returns_perform_bind.mpr fun now => ?_
        split
        · exact List.eraseP_sublist
        · rw [Prog.returns_bind]
          exact Prog.returns_of_forall fun _ => whole

theorem named_dceCreate {path : CString} {cFiles : Nat} :
    (dceCreate path cFiles).Returns fun pdce => ∀ entry, pdce = some entry →
      entry.pszPath = path ∧ entry.ulHash = computehash path := by
  unfold dceCreate
  refine Prog.returns_perform_bind.mpr fun entry => ?_
  split
  · exact fun _ absent => by simp at absent
  · refine Prog.returns_perform_bind.mpr fun infos => ?_
    split
    · exact fun _ absent => by simp at absent
    · refine Prog.returns_perform_bind.mpr fun copy => ?_
      split
      · trivial
      · intro created same
        obtain rfl := Option.some.inj same
        exact ⟨rfl, rfl⟩

theorem distinct_dcWriteBegin {pdc : DirectoryCache} {path : CString} {cFiles : Nat}
    (apart : Distinct ph pdc.entries) (agrees : HashAgrees ph pdc.entries path) :
    (dcWriteBegin ph pdc path cFiles).Returns fun answer =>
      Distinct ph answer.2.entries ∧
        ∀ pdce, answer.1 = some pdce → Distinct ph (pdce :: answer.2.entries) := by
  unfold dcWriteBegin
  split
  · exact ⟨apart, fun _ absent => by simp at absent⟩
  · rw [Prog.returns_bind]
    have started : (dcWriteStart ph pdc path cFiles).Returns fun answer =>
        Distinct ph answer.2.entries ∧
          ∀ pdce, answer.1 = some pdce → Distinct ph (pdce :: answer.2.entries) := by
      unfold dcWriteStart
      split
      · rename_i missing
        rw [Prog.returns_bind]
        refine named_dceCreate.mono fun created named => ⟨apart, fun pdce same => ?_⟩
        refine List.pairwise_cons.mpr ⟨fun entry member same' => ?_, apart⟩
        rw [(named pdce same).1] at same'
        have absent := List.find?_eq_none.mp missing entry member
        exact absent ((dcMatches_iff ph).mpr ⟨agrees entry member same', same'⟩)
      · rename_i found
        have back := Lookup.pairwise_cons_eraseP
          (fun differ same => differ (FoldEq.symm same)) apart found
        refine ⟨(List.pairwise_cons.mp back).2, fun pdce same => ?_⟩
        obtain rfl := Option.some.inj same
        exact Distinct.replace_head back rfl
    refine started.mono ?_
    rintro ⟨_ | pdce, pdc⟩ ⟨listed, fresh⟩
    · exact ⟨listed, fun _ absent => by simp at absent⟩
    · intro now
      refine ⟨listed, fun entry same => ?_⟩
      obtain rfl := Option.some.inj same
      exact (fresh pdce rfl).replace_head rfl

theorem distinct_dircacheWriteBegin {pdc : Option DirectoryCache} {state : FilelistState}
    {cFiles : Nat} (apart : Distinct ph (linked pdc))
    (agrees : ∀ path, dcCreateDirPath state = some path → HashAgrees ph (linked pdc) path) :
    (dircacheWriteBegin ph pdc state cFiles).Returns fun answer =>
      Distinct ph (linked answer.2) ∧
        ∀ pdce, answer.1 = some pdce → Distinct ph (pdce :: linked answer.2) := by
  unfold dircacheWriteBegin
  split
  · exact ⟨apart, fun _ absent => by simp at absent⟩
  · exact ⟨List.Pairwise.nil, fun _ absent => by simp at absent⟩
  · rename_i path pdc named
    split
    · trivial
    · rename_i evicted
      have part : ∀ kept, dcEvict pdc = some kept → kept.entries.Sublist pdc.entries := by
        intro kept same
        unfold dcEvict at same
        split at same
        · split at same
          · simp at same
          · obtain rfl := Option.some.inj same
            exact List.dropLast_sublist _
        · obtain rfl := Option.some.inj same
          exact List.Sublist.refl _
      rw [Prog.returns_bind]
      have smaller := part _ evicted
      exact distinct_dcWriteBegin (Distinct.sublist apart smaller) ((agrees path named).sublist smaller)

theorem distinct_dircacheWriteEntry {entries : List DirectoryCacheEntry}
    {dircachectx : Option DirectoryCacheEntry} {finfo : SmbwrpFileinfo}
    (fresh : ∀ pdce, dircachectx = some pdce → Distinct ph (pdce :: entries)) :
    (dircacheWriteEntry dircachectx finfo).Returns fun written =>
      ∀ pdce, written = some pdce → Distinct ph (pdce :: entries) := by
  cases dircachectx with
  | none => exact fun _ absent => by simp at absent
  | some pdce =>
      have before := fresh pdce rfl
      have written : (dceWriteEntry pdce finfo).Returns fun later =>
          Distinct ph (later :: entries) := by
        unfold dceWriteEntry
        split
        · refine Prog.returns_perform_bind.mpr fun grown => ?_
          split
          · exact before.replace_head rfl
          · exact before.replace_head rfl
        · exact before.replace_head rfl
      refine Prog.returns_bind.mpr (written.mono fun later listed other same => ?_)
      obtain rfl := Option.some.inj same
      exact listed

theorem returns_writeEntries {entries : List DirectoryCacheEntry}
    {dircachectx : Option DirectoryCacheEntry} {infos : List SmbwrpFileinfo}
    (fresh : ∀ pdce, dircachectx = some pdce → Distinct ph (pdce :: entries)) :
    (writeEntries dircachectx infos).Returns fun written =>
      ∀ pdce, written = some pdce → Distinct ph (pdce :: entries) := by
  induction infos generalizing dircachectx with
  | nil => exact fresh
  | cons finfo rest ih =>
      exact Prog.returns_bind.mpr ((distinct_dircacheWriteEntry fresh).mono fun _ later => ih later)

theorem distinct_dircacheWriteEnd {pdc : Option DirectoryCache}
    {dircachectx : Option DirectoryCacheEntry} (apart : Distinct ph (linked pdc))
    (fresh : ∀ pdce, dircachectx = some pdce → Distinct ph (pdce :: linked pdc)) :
    (dircacheWriteEnd pdc dircachectx).Returns fun later => Distinct ph (linked later) := by
  cases dircachectx with
  | none => trivial
  | some pdce =>
      simp only [dircacheWriteEnd]
      split
      · exact apart
      · have adjusted : (dceAdjust pdce).Returns fun later =>
            Distinct ph (later :: linked pdc) := by
          simp only [dceAdjust]
          split
          · refine Prog.returns_perform_bind.mpr fun shrunk => ?_
            split
            · exact (fresh pdce rfl).replace_head rfl
            · exact fresh pdce rfl
          · exact fresh pdce rfl
        refine Prog.returns_bind.mpr (adjusted.mono fun later listed => ?_)
        cases pdc with
        | none => exact List.Pairwise.nil
        | some pdc => exact listed

theorem returns_cacheStep {fn : SmbwrpFileinfo → Program UInt32} {pdc : Option DirectoryCache}
    {label : CacheCall} (apart : Distinct ph (linked pdc)) (spelled : Spelled ph pdc label) :
    (cacheStep ph fn pdc label).Returns fun result => Distinct ph (linked result.2) := by
  cases label with
  | listFiles state =>
      refine Prog.returns_bind.mpr ?_
      unfold dircacheListFiles
      split
      · exact apart
      · exact List.Pairwise.nil
      · exact Prog.returns_bind.mpr (sublist_dcRead.mono fun _ part => Distinct.sublist apart part)
  | findPath path => exact Prog.returns_bind.mpr (Prog.returns_of_forall fun _ => apart)
  | session state cFiles infos =>
      refine Prog.returns_bind.mpr ((distinct_dircacheWriteBegin apart spelled).mono ?_)
      rintro ⟨dircachectx, later⟩ ⟨listed, fresh⟩
      refine Prog.returns_bind.mpr ((returns_writeEntries fresh).mono fun written after => ?_)
      exact Prog.returns_bind.mpr (distinct_dircacheWriteEnd listed after)
  | abandoned state cFiles infos =>
      refine Prog.returns_bind.mpr ((distinct_dircacheWriteBegin apart spelled).mono ?_)
      rintro ⟨dircachectx, later⟩ ⟨listed, fresh⟩
      exact Prog.returns_bind.mpr (Prog.returns_of_forall fun _ => listed)
  | invalidate path fParent =>
      refine Distinct.sublist apart ?_
      rw [linked_dircacheInvalidate]
      exact List.filter_sublist

end Invariant

def emptyCache (ulExpirationTime : UInt32) (cMaxEntries : Nat) : DirectoryCache :=
  { fEnabled := true, ulExpirationTime, cMaxEntries }

/-- Letter case is ignored exactly where the stored hash agrees with the spelling at hand:
by a lookup, over the runs of the cache, and by an invalidation. -/
theorem cacheLookup_ignoresCase_iff :
    (∀ pdc path, dcFindDirCache ph pdc path false = plainFind ph pdc path ↔
      ∀ entry, plainFind ph pdc path = some entry → entry.ulHash = computehash path) ∧
    (∀ fn ulExpirationTime cMaxEntries history pdc,
      Reaches (cacheStep ph fn) (Spelled ph) (some (emptyCache ulExpirationTime cMaxEntries))
        history pdc → Distinct ph (linked pdc)) ∧
    (∀ path pdc fParent,
      (∀ entry ∈ linked (dircacheInvalidate ph path pdc fParent),
        ¬ ph.SameName (invalidatedPath path fParent) entry.pszPath) ↔
      HashAgrees ph (linked pdc) (invalidatedPath path fParent)) := by
  refine ⟨dcFindDirCache_eq_plainFind_iff ph, ?_, invalidate_clears_iff ph⟩
  intro fn ulExpirationTime cMaxEntries history pdc reached
  exact reached.invariant (fun pdc => Distinct ph (linked pdc)) List.Pairwise.nil
    fun _ _ apart spelled => returns_cacheStep apart spelled

def listingOfDir : DirectoryCacheEntry :=
  { aInfos := [], cInfosAllocated := 128, pszPath := bytes "\\Dir"
    ulHash := computehash (bytes "\\Dir"), ulLastUpdateTime := 0 }

def cacheOfDir : DirectoryCache := { emptyCache 10 32 with entries := [listingOfDir] }

def reportsState (fullpath : CString) : FilelistState :=
  { mask := fullpath, dir := bytes "\\reports\\", dirMask := bytes "*", ulAttribute := 0, fullpath }

def reportsCall : CacheCall :=
  .session (reportsState (bytes "\\reports\\*")) 128 [{ size := 1, fname := bytes "A" }]

def respelledCall : CacheCall := .session (reportsState (bytes "\\ReportS\\*")) 128 []

def listingOfReports : DirectoryCacheEntry :=
  { aInfos := [{ size := 1, fname := bytes "A" }], cInfosAllocated := 64
    pszPath := bytes "\\reports", ulHash := computehash (bytes "\\reports"), ulLastUpdateTime := 0 }

def reportsCache : DirectoryCache := { emptyCache 10 32 with entries := [listingOfReports] }

def respelledCache : DirectoryCache :=
  { emptyCache 10 32 with
    entries := [{ listingOfReports with aInfos := [], cInfosAllocated := 32 }] }

theorem cacheLookup_ignoresCase_iff_reports :
    ∃ history, Reaches (cacheStep asciiPlatform fun _ => .ret 0) (Spelled asciiPlatform)
        (some (emptyCache 10 32)) history (some respelledCache) ∧
      history.map Taken.label = [reportsCall, respelledCall] ∧
      Distinct asciiPlatform (linked (some respelledCache)) ∧
      dcFindDirCache asciiPlatform reportsCache (bytes "\\ReportS") false =
        plainFind asciiPlatform reportsCache (bytes "\\ReportS") ∧
      ∀ entry ∈ linked (dircacheInvalidate asciiPlatform (bytes "\\ReportS") (some reportsCache)
        false), ¬ asciiPlatform.SameName (invalidatedPath (bytes "\\ReportS") false)
          entry.pszPath := by
  have empty : Reaches (cacheStep asciiPlatform fun _ => .ret 0) (Spelled asciiPlatform)
      (some (emptyCache 10 32)) [] (some (emptyCache 10 32)) := .start
  have first : Spelled asciiPlatform (some (emptyCache 10 32)) reportsCall := by
    intro path named entry member
    cases member
  have hashed : HashAgrees asciiPlatform (linked (some reportsCache)) (bytes "\\ReportS") := by
    intro entry member same
    obtain rfl := List.mem_singleton.mp member
    decide
  have second : Spelled asciiPlatform (some reportsCache) respelledCall := by
    intro path named
    obtain rfl := Option.some.inj named
    exact hashed
  have listed := empty.executed (fun _ _ => Op.usual) reportsCall () (some reportsCache) first
    (by decide)
  have again := listed.executed (fun _ _ => Op.usual) respelledCall () (some respelledCache) second
    (by decide)
  have agrees := cacheLookup_ignoresCase_iff asciiPlatform
  refine ⟨_, again, rfl, agrees.2.1 _ _ _ _ _ again, ?_, ?_⟩
  · exact (agrees.1 _ _).mpr (by decide)
  · exact (agrees.2.2 _ _ _).mpr hashed

/-- The listing is not found when the directory is spelled in lower case. -/
theorem cacheLookup_misses_other_case :
    dcFindDirCache asciiPlatform cacheOfDir (bytes "\\dir") false = none ∧
      plainFind asciiPlatform cacheOfDir (bytes "\\dir") = some listingOfDir := by
  decide

end NdpSmb
