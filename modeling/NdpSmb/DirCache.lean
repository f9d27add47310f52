import NdpSmb.Calls
import Mathlib.Data.List.Lemmas

/-!
`dircache.c`: the directory cache. Its own mutex is always taken inside the plugin's
one and is left out; a listing that is being written is a value of its own until
`dircache_write_end` links it.
-/

namespace NdpSmb

open ByteString Interaction

def sizeofFileinfo : Nat := 293
def sizeofDirectoryCacheEntry : Nat := 40
def sizeofDirectoryCache : Nat := 28

/-- The increment of `Hash`, where a `char` is signed. -/
def signExtend (byte : UInt8) : UInt32 :=
  if byte < 128 then byte.toUInt32 else byte.toUInt32 ||| 0xFFFFFF00

def hashStep (hash : UInt32) (byte : UInt8) : UInt32 :=
  let hash := (hash <<< 4) + signExtend byte
  let g := hash &&& 0xF0000000
  if g = 0 then hash else (hash ^^^ (g >>> 24)) ^^^ g

def computehash (s : CString) : UInt32 := s.foldl hashStep 0 % 30031

/-- The third allocation, of the path, is not checked. -/
def dceCreate (path : CString) (cFiles : Nat) : Program (Option DirectoryCacheEntry) := do
  let entry ← perform (Op.malloc sizeofDirectoryCacheEntry)
  if entry = false then pure none else do
    let infos ← perform (Op.malloc (cFiles * sizeofFileinfo))
    if infos = false then pure none else do
      let copy ← perform (Op.malloc (path.length + 1))
      if copy = false then .fault
      else pure (some {
        aInfos := [], cInfosAllocated := cFiles, pszPath := path
        ulHash := computehash path, ulLastUpdateTime := 0 })

def dceWriteEntry (pdce : DirectoryCacheEntry) (finfo : SmbwrpFileinfo) :
    Program DirectoryCacheEntry :=
  if pdce.aInfos.length ≥ pdce.cInfosAllocated then do
    let cNewAllocated := pdce.cInfosAllocated + pdce.cInfosAllocated / 2 + 1
    let grown ← perform (Op.realloc (cNewAllocated * sizeofFileinfo))
    if grown then pure { pdce with
      cInfosAllocated := cNewAllocated, aInfos := pdce.aInfos ++ [finfo] }
    else pure { pdce with fInvalid := true }
  else pure { pdce with aInfos := pdce.aInfos ++ [finfo] }

/-- Where `realloc` to no size frees the array, `ArrayListing` has what becomes of it. -/
def dceAdjust (pdce : DirectoryCacheEntry) : Program DirectoryCacheEntry :=
  let cFree := pdce.cInfosAllocated - pdce.aInfos.length
  if cFree > pdce.aInfos.length / 2 then do
    let cNewAllocated := pdce.aInfos.length + cFree / 2
    let shrunk ← perform (Op.realloc (cNewAllocated * sizeofFileinfo))
    if shrunk then pure { pdce with cInfosAllocated := cNewAllocated } else pure pdce
  else pure pdce

def dceExpired (now : UInt32) (pdce : DirectoryCacheEntry) (ulExpirationTime : UInt32) : Bool :=
  now - pdce.ulLastUpdateTime ≥ ulExpirationTime

section Find

variable (ph : Platform)

def dcePathEqualsTo (pdce : DirectoryCacheEntry) (path : CString) : Bool :=
  ph.SameName path pdce.pszPath

def dcePathPrefixedWith (pdce : DirectoryCacheEntry) (path : CString) : Bool :=
  ph.SameName path (pdce.pszPath.take path.length)

/-- The condition under which `dcFindDirCache` stops at a listing. -/
def dcMatches (path : CString) (fPrefix : Bool) (pdce : DirectoryCacheEntry) : Bool :=
  if fPrefix then dcePathPrefixedWith ph pdce path
  else pdce.ulHash == computehash path && dcePathEqualsTo ph pdce path

def dcFindDirCache (pdc : DirectoryCache) (path : CString) (fPrefix : Bool) :
    Option DirectoryCacheEntry :=
  pdc.entries.find? (dcMatches ph path fPrefix)

/-- `dcRemoveEntry` of the listing that `dcFindDirCache` finds. -/
def dcRemoveFound (pdc : DirectoryCache) (path : CString) (fPrefix : Bool) : DirectoryCache :=
  { pdc with entries := pdc.entries.eraseP (dcMatches ph path fPrefix) }

end Find

def dcInsertEntry (pdc : DirectoryCache) (pdce : DirectoryCacheEntry) : DirectoryCache :=
  { pdc with entries := pdce :: pdc.entries }

def addEach (fn : SmbwrpFileinfo → Program UInt32) : List SmbwrpFileinfo → Program Unit
  | [] => pure ()
  | finfo :: rest => do
      let _ ← fn finfo
      addEach fn rest

section Cache

variable (ph : Platform)

/-- The number of entries when the answer is `CacheOk`. -/
def dcRead (pdc : DirectoryCache) (path : CString) (fn : SmbwrpFileinfo → Program UInt32)
    (fForceCache : Bool) : Program (Option Nat × DirectoryCache) :=
  if pdc.fEnabled = false then pure (none, pdc) else
  match dcFindDirCache ph pdc path false with
  | none => pure (none, pdc)
  | some pdce =>
      if fForceCache then do
        addEach fn pdce.aInfos
        pure (some pdce.aInfos.length, pdc)
      else do
        let now ← perform Op.timesec
        if dceExpired now pdce pdc.ulExpirationTime then
          pure (none, dcRemoveFound ph pdc path false)
        else do
          addEach fn pdce.aInfos
          pure (some pdce.aInfos.length, pdc)

/-- The listing that `dcWriteBegin` starts from: a cached one is cleared and unlinked. -/
def dcWriteStart (pdc : DirectoryCache) (path : CString) (cFiles : Nat) :
    Program (Option DirectoryCacheEntry × DirectoryCache) :=
  match dcFindDirCache ph pdc path false with
  | none => do
      let pdce ← dceCreate path cFiles
      pure (pdce, pdc)
  | some pdce => pure (some { pdce with aInfos := [] }, dcRemoveFound ph pdc path false)

def dcWriteBegin (pdc : DirectoryCache) (path : CString) (cFiles : Nat) :
    Program (Option DirectoryCacheEntry × DirectoryCache) :=
  if pdc.fEnabled = false then pure (none, pdc) else do
    let (pdce, pdc) ← dcWriteStart ph pdc path cFiles
    match pdce with
    | none => pure (none, pdc)
    | some pdce => do
        let now ← perform Op.timesec
        pure (some { pdce with ulLastUpdateTime := now }, pdc)

/-- The find and remove loop of `dcInvalidate`; every pass removes a listing. -/
def dcInvalidateLoop (matching : DirectoryCacheEntry → Bool) :
    Nat → List DirectoryCacheEntry → List DirectoryCacheEntry
  | 0, entries => entries
  | fuel + 1, entries =>
      match entries.find? matching with
      | none => entries
      | some _ => dcInvalidateLoop matching fuel (entries.eraseP matching)

def dcInvalidate (pdc : DirectoryCache) (path : CString) (fPrefix : Bool) : DirectoryCache :=
  { pdc with
    entries := dcInvalidateLoop (dcMatches ph path fPrefix) pdc.entries.length pdc.entries }

/-- The first name that matches in a listing of the parent, with that listing. -/
def dcLookup (pdc : DirectoryCache) (parent name : CString) :
    Option (SmbwrpFileinfo × DirectoryCacheEntry) :=
  pdc.entries.findSome? fun pdce =>
    if dcMatches ph parent false pdce then
      (pdce.aInfos.find? fun finfo => ph.SameName finfo.fname name).map fun finfo => (finfo, pdce)
    else none

def dcFindPath (pdc : DirectoryCache) (parent name : CString) :
    Program (Option (SmbwrpFileinfo × UInt32)) :=
  match dcLookup ph pdc parent name with
  | none => pure none
  | some (finfo, pdce) => do
      let now ← perform Op.timesec
      pure (some (finfo, now - pdce.ulLastUpdateTime))

def dcCreateDirPath (state : FilelistState) : Option CString :=
  if state.dirMask.length > state.fullpath.length then none
  else some (state.fullpath.take (state.fullpath.length - state.dirMask.length - 1))

/-! The public functions; a Resource without a cache has `none`. -/

def dircacheCreate (ulExpirationTime : UInt32) (cMaxEntries : Nat) :
    Program (Int × Option DirectoryCache) := do
  let pdc ← perform (Op.malloc sizeofDirectoryCache)
  if pdc = false then pure (errorNotEnoughMemory, none) else do
    let rc ← perform Op.fsphCreateMutex
    if rc ≠ 0 then pure (rc, none)
    else pure (0, some { fEnabled := true, ulExpirationTime, cMaxEntries })

def dircacheDelete (pdc : Option DirectoryCache) : Program Unit :=
  match pdc with
  | none => pure ()
  | some _ => perform Op.fsphCloseMutex

def dircacheListFiles (pdc : Option DirectoryCache) (state : FilelistState)
    (fn : SmbwrpFileinfo → Program UInt32) : Program (Option Nat × Option DirectoryCache) :=
  match dcCreateDirPath state, pdc with
  | none, _ => pure (none, pdc)
  | some _, none => pure (none, none)
  | some path, some pdc => do
      let (total, pdc) ← dcRead ph pdc path fn false
      pure (total, some pdc)

/-- A full cache gives up the listing at its tail; an empty one has none to give. -/
def dcEvict (pdc : DirectoryCache) : Option DirectoryCache :=
  if pdc.entries.length ≥ pdc.cMaxEntries then
    if pdc.entries = [] then none else some { pdc with entries := pdc.entries.dropLast }
  else some pdc

def dircacheWriteBegin (pdc : Option DirectoryCache) (state : FilelistState) (cFiles : Nat) :
    Program (Option DirectoryCacheEntry × Option DirectoryCache) :=
  match dcCreateDirPath state, pdc with
  | none, _ => pure (none, pdc)
  | some _, none => pure (none, none)
  | some path, some pdc =>
      match dcEvict pdc with
      | none => .fault
      | some pdc => do
          let (pdce, pdc) ← dcWriteBegin ph pdc path cFiles
          pure (pdce, some pdc)

end Cache

def dircacheWriteEntry (dircachectx : Option DirectoryCacheEntry) (finfo : SmbwrpFileinfo) :
    Program (Option DirectoryCacheEntry) :=
  match dircachectx with
  | none => pure none
  | some pdce => do
      let pdce ← dceWriteEntry pdce finfo
      pure (some pdce)

/-- The log line at its top reads `pdce->cInfos` before the test for NULL. -/
def dircacheWriteEnd (pdc : Option DirectoryCache) (dircachectx : Option DirectoryCacheEntry) :
    Program (Option DirectoryCache) :=
  match dircachectx with
  | none => .fault
  | some pdce =>
      if pdce.fInvalid then pure pdc else do
        let pdce ← dceAdjust pdce
        pure (pdc.map fun pdc => dcInsertEntry pdc pdce)

def parentPath (path : CString) : CString :=
  match cutLast backslash path with
  | some (parent, _) => parent
  | none => []

def lastName (path : CString) : CString :=
  match cutLast backslash path with
  | some (_, name) => name
  | none => path

section Api

variable (ph : Platform)

def dircacheInvalidate (path : CString) (pdc : Option DirectoryCache) (fParent : Bool) :
    Option DirectoryCache :=
  pdc.map fun pdc => dcInvalidate ph pdc (if fParent then parentPath path else path) false

def hasWildcard (path : CString) : Bool := path.contains 42 || path.contains 63

def dircacheFindPath (pdc : Option DirectoryCache) (path : CString) :
    Program (Option (SmbwrpFileinfo × UInt32)) :=
  match pdc with
  | none => pure none
  | some pdc =>
      if hasWildcard path then pure none else dcFindPath ph pdc (parentPath path) (lastName path)

end Api

/-! What an invalidation leaves. -/

theorem filter_eraseP (matching : DirectoryCacheEntry → Bool) (entries : List DirectoryCacheEntry) :
    ((entries.eraseP matching).filter fun entry => !matching entry) =
      entries.filter fun entry => !matching entry := by
  induction entries with
  | nil => rfl
  | cons entry rest ih =>
      cases matched : matching entry with
      | true => simp [matched]
      | false => simp [matched, ih]

theorem dcInvalidateLoop_eq_filter (matching : DirectoryCacheEntry → Bool) (fuel : Nat)
    (entries : List DirectoryCacheEntry) (enough : entries.length ≤ fuel) :
    dcInvalidateLoop matching fuel entries = entries.filter fun entry => !matching entry := by
  induction fuel generalizing entries with
  | zero =>
      have empty : entries = [] := List.length_eq_zero_iff.mp (by omega)
      simp [empty, dcInvalidateLoop]
  | succ fuel ih =>
      cases found : entries.find? matching with
      | none =>
          simp only [dcInvalidateLoop, found]
          rw [List.find?_eq_none] at found
          rw [List.filter_eq_self.mpr]
          intro entry member
          simpa using found entry member
      | some entry =>
          simp only [dcInvalidateLoop, found]
          have matched := List.find?_some found
          have member := List.mem_of_find?_eq_some found
          have shorter := List.length_eraseP_of_mem member matched
          have present := List.length_pos_of_mem member
          rw [ih _ (by omega), filter_eraseP]

section Invalidate

variable (ph : Platform)

theorem dcInvalidate_entries (pdc : DirectoryCache) (path : CString) (fPrefix : Bool) :
    (dcInvalidate ph pdc path fPrefix).entries =
      pdc.entries.filter fun entry => !dcMatches ph path fPrefix entry :=
  dcInvalidateLoop_eq_filter _ _ _ (le_refl _)

theorem mem_dcInvalidate {pdc : DirectoryCache} {path : CString} {fPrefix : Bool}
    {entry : DirectoryCacheEntry} :
    entry ∈ (dcInvalidate ph pdc path fPrefix).entries ↔
      entry ∈ pdc.entries ∧ dcMatches ph path fPrefix entry = false := by
  simp [dcInvalidate_entries]

theorem dcMatches_false (path : CString) (entry : DirectoryCacheEntry) :
    dcMatches ph path false entry =
      (entry.ulHash == computehash path && dcePathEqualsTo ph entry path) := rfl

theorem dcMatches_iff {path : CString} {entry : DirectoryCacheEntry} :
    dcMatches ph path false entry = true ↔
      entry.ulHash = computehash path ∧ ph.SameName path entry.pszPath := by
  simp [dcMatches, dcePathEqualsTo]

end Invalidate

/-! Cache operations neither take the plugin's mutex nor go to a server. -/

section Footprints

variable (cli : Option Handle)

theorem only_addEach {allowed : (R : Type) → Op R → Prop} {fn : SmbwrpFileinfo → Program UInt32}
    (served : ∀ finfo, (fn finfo).Only allowed) (infos : List SmbwrpFileinfo) :
    (addEach fn infos).Only allowed := by
  induction infos with
  | nil => trivial
  | cons finfo rest ih => exact (served finfo).bind fun _ => ih

def Op.Allocates : (R : Type) → Op R → Prop
  | _, .malloc _ | _, .realloc _ => True
  | _, _ => False

def Op.Caches : (R : Type) → Op R → Prop
  | _, .malloc _ | _, .realloc _ | _, .timesec => True
  | _, _ => False

theorem Op.Allocates.caches {R : Type} {op : Op R} (allocates : Op.Allocates R op) :
    Op.Caches R op := by
  cases op <;> trivial

theorem Op.Allocates.servedBy {R : Type} {op : Op R} (allocates : Op.Allocates R op) :
    Op.ServedBy cli R op := by
  cases op <;> trivial

theorem Op.Caches.lists {R : Type} {op : Op R} (caches : Op.Caches R op) : Op.Lists cli R op := by
  cases op <;> trivial

theorem allocates_dceCreate (path : CString) (cFiles : Nat) :
    (dceCreate path cFiles).Only Op.Allocates := by
  refine Prog.only_perform_bind.mpr ⟨trivial, fun entry => ?_⟩
  split
  · trivial
  · refine Prog.only_perform_bind.mpr ⟨trivial, fun infos => ?_⟩
    split
    · trivial
    · refine Prog.only_perform_bind.mpr ⟨trivial, fun copy => ?_⟩
      split <;> trivial

theorem allocates_dceWriteEntry (pdce : DirectoryCacheEntry) (finfo : SmbwrpFileinfo) :
    (dceWriteEntry pdce finfo).Only Op.Allocates := by
  unfold dceWriteEntry
  split
  · refine Prog.only_perform_bind.mpr ⟨trivial, fun grown => ?_⟩
    split <;> trivial
  · trivial

theorem allocates_dceAdjust (pdce : DirectoryCacheEntry) :
    (dceAdjust pdce).Only Op.Allocates := by
  simp only [dceAdjust]
  split
  · refine Prog.only_perform_bind.mpr ⟨trivial, fun shrunk => ?_⟩
    split <;> trivial
  · trivial

theorem allocates_dircacheWriteEntry (dircachectx : Option DirectoryCacheEntry)
    (finfo : SmbwrpFileinfo) : (dircacheWriteEntry dircachectx finfo).Only Op.Allocates := by
  cases dircachectx with
  | none => trivial
  | some pdce => exact (allocates_dceWriteEntry pdce finfo).bind fun _ => trivial

theorem allocates_dircacheWriteEnd (pdc : Option DirectoryCache)
    (dircachectx : Option DirectoryCacheEntry) :
    (dircacheWriteEnd pdc dircachectx).Only Op.Allocates := by
  unfold dircacheWriteEnd
  split
  · trivial
  · split
    · trivial
    · exact (allocates_dceAdjust _).bind fun _ => trivial

theorem only_dircacheWriteEntry (dircachectx : Option DirectoryCacheEntry)
    (finfo : SmbwrpFileinfo) :
    (dircacheWriteEntry dircachectx finfo).Only (Op.ServedBy cli) :=
  (allocates_dircacheWriteEntry dircachectx finfo).mono fun _ _ => Op.Allocates.servedBy cli

theorem only_dircacheWriteEnd (pdc : Option DirectoryCache)
    (dircachectx : Option DirectoryCacheEntry) :
    (dircacheWriteEnd pdc dircachectx).Only (Op.ServedBy cli) :=
  (allocates_dircacheWriteEnd pdc dircachectx).mono fun _ _ => Op.Allocates.servedBy cli

variable (ph : Platform)

theorem only_dcRead {allowed : (R : Type) → Op R → Prop} (clocked : allowed UInt32 .timesec)
    {fn : SmbwrpFileinfo → Program UInt32} (served : ∀ finfo, (fn finfo).Only allowed)
    (pdc : DirectoryCache) (path : CString) (fForceCache : Bool) :
    (dcRead ph pdc path fn fForceCache).Only allowed := by
  unfold dcRead
  split
  · trivial
  · split
    · trivial
    · split
      · exact (only_addEach served _).bind fun _ => trivial
      · refine Prog.only_perform_bind.mpr ⟨clocked, fun now => ?_⟩
        split
        · trivial
        · exact (only_addEach served _).bind fun _ => trivial

theorem caches_dcWriteBegin (pdc : DirectoryCache) (path : CString) (cFiles : Nat) :
    (dcWriteBegin ph pdc path cFiles).Only Op.Caches := by
  unfold dcWriteBegin
  split
  · trivial
  · refine Prog.Only.bind ?_ ?_
    · unfold dcWriteStart
      split
      · refine Prog.Only.bind ?_ fun _ => trivial
        exact (allocates_dceCreate path cFiles).mono fun _ _ => Op.Allocates.caches
      · trivial
    · rintro ⟨_ | pdce, pdc⟩
      · trivial
      · exact ⟨trivial, fun _ => trivial⟩

theorem only_dircacheListFiles {allowed : (R : Type) → Op R → Prop}
    (clocked : allowed UInt32 .timesec) {fn : SmbwrpFileinfo → Program UInt32}
    (served : ∀ finfo, (fn finfo).Only allowed) (pdc : Option DirectoryCache)
    (state : FilelistState) : (dircacheListFiles ph pdc state fn).Only allowed := by
  unfold dircacheListFiles
  split
  · trivial
  · trivial
  · exact (only_dcRead ph clocked served _ _ _).bind fun _ => trivial

theorem caches_dircacheWriteBegin (pdc : Option DirectoryCache) (state : FilelistState)
    (cFiles : Nat) : (dircacheWriteBegin ph pdc state cFiles).Only Op.Caches := by
  unfold dircacheWriteBegin
  split
  · trivial
  · trivial
  · split
    · trivial
    · exact (caches_dcWriteBegin ph _ _ _).bind fun _ => trivial

theorem only_dircacheWriteBegin (pdc : Option DirectoryCache) (state : FilelistState)
    (cFiles : Nat) : (dircacheWriteBegin ph pdc state cFiles).Only (Op.Lists cli) :=
  (caches_dircacheWriteBegin ph pdc state cFiles).mono fun _ _ => Op.Caches.lists cli

theorem caches_dircacheFindPath (pdc : Option DirectoryCache) (path : CString) :
    (dircacheFindPath ph pdc path).Only Op.Caches := by
  unfold dircacheFindPath
  split
  · trivial
  · split
    · trivial
    · unfold dcFindPath
      split
      · trivial
      · exact ⟨trivial, fun _ => trivial⟩

theorem only_dircacheFindPath (pdc : Option DirectoryCache) (path : CString) :
    (dircacheFindPath ph pdc path).Only (Op.Lists cli) :=
  (caches_dircacheFindPath ph pdc path).mono fun _ _ => Op.Caches.lists cli

end Footprints

end NdpSmb
