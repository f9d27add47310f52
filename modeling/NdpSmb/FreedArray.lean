import Mathlib.Data.List.InsertIdx
import NdpSmb.SharedCache
import NdpSmb.Simulation

/-!
The arrays of the listings, which `dceAdjust` may free: a `realloc` to no size that is
answered NULL has freed the array, and the listing still points to it.
-/

namespace NdpSmb

open ByteString Interaction

variable (ph : Platform)

/-- `freed` is a listing whose `aInfos` points to an array that is no longer there. -/
structure ArrayListing extends DirectoryCacheEntry where
  freed : Bool := false
  deriving DecidableEq

structure ArrayCache where
  entries : List ArrayListing := []
  fEnabled : Bool := false
  ulExpirationTime : UInt32
  cMaxEntries : Nat
  deriving DecidableEq

namespace ArrayListing

def dceCreate (path : CString) (cFiles : Nat) : Program (Option ArrayListing) := do
  let created ← NdpSmb.dceCreate path cFiles
  pure (created.map fun entry => { entry with freed := false })

def dceDelete (pdce : ArrayListing) : Program Unit := if pdce.freed then .fault else pure ()

def dceWriteEntry (pdce : ArrayListing) (finfo : SmbwrpFileinfo) : Program ArrayListing :=
  if pdce.freed then .fault else do
    let written ← NdpSmb.dceWriteEntry pdce.toDirectoryCacheEntry finfo
    pure { pdce with toDirectoryCacheEntry := written }

def dceAdjust (pdce : ArrayListing) : Program ArrayListing :=
  let cFree := pdce.cInfosAllocated - pdce.aInfos.length
  if cFree > pdce.aInfos.length / 2 then
    if pdce.freed then .fault else do
      let cNewAllocated := pdce.aInfos.length + cFree / 2
      let shrunk ← perform (Op.realloc (cNewAllocated * sizeofFileinfo))
      if shrunk then pure { pdce with cInfosAllocated := cNewAllocated }
      else pure { pdce with freed := cNewAllocated == 0 }
  else pure pdce

def matching (path : CString) (pdce : ArrayListing) : Bool :=
  dcMatches ph path false pdce.toDirectoryCacheEntry

end ArrayListing

namespace ArrayCache

def cache (pdc : ArrayCache) : DirectoryCache where
  entries := pdc.entries.map ArrayListing.toDirectoryCacheEntry
  fEnabled := pdc.fEnabled
  ulExpirationTime := pdc.ulExpirationTime
  cMaxEntries := pdc.cMaxEntries

def dcFindDirCache (pdc : ArrayCache) (path : CString) : Option ArrayListing :=
  pdc.entries.find? (ArrayListing.matching ph path)

def dcRemoveFound (pdc : ArrayCache) (path : CString) : ArrayCache :=
  { pdc with entries := pdc.entries.eraseP (ArrayListing.matching ph path) }

def dcRead (pdc : ArrayCache) (path : CString) (fn : SmbwrpFileinfo → Program UInt32)
    (fForceCache : Bool) : Program (Option Nat × ArrayCache) :=
  if pdc.fEnabled = false then pure (none, pdc) else
  match pdc.dcFindDirCache ph path with
  | none => pure (none, pdc)
  | some pdce =>
      if fForceCache then do
        addEach fn pdce.aInfos
        pure (some pdce.aInfos.length, pdc)
      else do
        let now ← perform Op.timesec
        if dceExpired now pdce.toDirectoryCacheEntry pdc.ulExpirationTime then do
          pdce.dceDelete
          pure (none, pdc.dcRemoveFound ph path)
        else do
          addEach fn pdce.aInfos
          pure (some pdce.aInfos.length, pdc)

def dcWriteStart (pdc : ArrayCache) (path : CString) (cFiles : Nat) :
    Program (Option ArrayListing × ArrayCache) :=
  match pdc.dcFindDirCache ph path with
  | none => do
      let pdce ← ArrayListing.dceCreate path cFiles
      pure (pdce, pdc)
  | some pdce => pure (some { pdce with aInfos := [] }, pdc.dcRemoveFound ph path)

def dcWriteBegin (pdc : ArrayCache) (path : CString) (cFiles : Nat) :
    Program (Option ArrayListing × ArrayCache) :=
  if pdc.fEnabled = false then pure (none, pdc) else do
    let (pdce, pdc) ← pdc.dcWriteStart ph path cFiles
    match pdce with
    | none => pure (none, pdc)
    | some pdce => do
        let now ← perform Op.timesec
        pure (some { pdce with ulLastUpdateTime := now }, pdc)

def dcInvalidateLoop (path : CString) : Nat → List ArrayListing → Program (List ArrayListing)
  | 0, entries => pure entries
  | fuel + 1, entries =>
      match entries.find? (ArrayListing.matching ph path) with
      | none => pure entries
      | some pdce => do
          pdce.dceDelete
          dcInvalidateLoop path fuel (entries.eraseP (ArrayListing.matching ph path))

def dcInvalidate (pdc : ArrayCache) (path : CString) : Program ArrayCache := do
  let entries ← dcInvalidateLoop ph path pdc.entries.length pdc.entries
  pure { pdc with entries }

/-- The listing that a full cache gives up, if there is any. -/
def dcEvict (pdc : ArrayCache) : Program ArrayCache :=
  if pdc.entries.length ≥ pdc.cMaxEntries then
    match pdc.entries.getLast? with
    | none => .fault
    | some pdce => do
        pdce.dceDelete
        pure { pdc with entries := pdc.entries.dropLast }
  else pure pdc

def dircacheListFiles (pdc : ArrayCache) (state : FilelistState)
    (fn : SmbwrpFileinfo → Program UInt32) : Program (Option Nat × ArrayCache) :=
  match dcCreateDirPath state with
  | none => pure (none, pdc)
  | some path => pdc.dcRead ph path fn false

def dircacheWriteBegin (pdc : ArrayCache) (state : FilelistState) (cFiles : Nat) :
    Program (Option ArrayListing × ArrayCache) :=
  match dcCreateDirPath state with
  | none => pure (none, pdc)
  | some path => do
      let pdc ← pdc.dcEvict
      pdc.dcWriteBegin ph path cFiles

def dircacheWriteEntry (dircachectx : Option ArrayListing) (finfo : SmbwrpFileinfo) :
    Program (Option ArrayListing) :=
  match dircachectx with
  | none => pure none
  | some pdce => do
      let pdce ← pdce.dceWriteEntry finfo
      pure (some pdce)

def dircacheWriteEnd (pdc : ArrayCache) (dircachectx : Option ArrayListing) :
    Program ArrayCache :=
  match dircachectx with
  | none => .fault
  | some pdce =>
      if pdce.fInvalid then do
        pdce.dceDelete
        pure pdc
      else do
        let pdce ← pdce.dceAdjust
        pure { pdc with entries := pdce :: pdc.entries }

def dircacheInvalidate (path : CString) (pdc : ArrayCache) (fParent : Bool) :
    Program ArrayCache :=
  pdc.dcInvalidate ph (if fParent then parentPath path else path)

end ArrayCache

structure ArrayShared where
  pdc : ArrayCache
  sessions : List (Option ArrayListing) := []
  deriving DecidableEq

/-- The search for a path reads the entries that there are, and none of an array that is gone. -/
def arrayStep (fn : FilelistState → SmbwrpFileinfo → Program UInt32) (shared : ArrayShared) :
    SharedCall → Program (Unit × ArrayShared)
  | .listFiles state => do
      let (_, pdc) ← shared.pdc.dircacheListFiles ph state (fn state)
      pure ((), { shared with pdc })
  | .findPath path => do
      let _ ← dircacheFindPath ph (some shared.pdc.cache) path
      pure ((), shared)
  | .invalidate path fParent => do
      let pdc ← shared.pdc.dircacheInvalidate ph path fParent
      pure ((), { shared with pdc })
  | .writeBegin state cFiles => do
      let (dircachectx, pdc) ← shared.pdc.dircacheWriteBegin ph state cFiles
      pure ((), { pdc, sessions := shared.sessions ++ [dircachectx] })
  | .writeEntry place finfo =>
      match shared.sessions[place]? with
      | none => .fault
      | some dircachectx => do
          let dircachectx ← ArrayCache.dircacheWriteEntry dircachectx finfo
          pure ((), { shared with sessions := shared.sessions.set place dircachectx })
  | .writeEnd place =>
      match shared.sessions[place]? with
      | none => .fault
      | some dircachectx => do
          let pdc ← shared.pdc.dircacheWriteEnd dircachectx
          pure ((), { pdc, sessions := shared.sessions.eraseIdx place })
  | .abandon place => pure ((), { shared with sessions := shared.sessions.eraseIdx place })

def emptyArrays (ulExpirationTime : UInt32) (cMaxEntries : Nat) : ArrayShared :=
  { pdc := { fEnabled := true, ulExpirationTime, cMaxEntries } }

def anyArrays (_ : ArrayShared) (_ : SharedCall) : Prop := True

/-! Without regard to the arrays, the steps are those of the cache. -/

def ArrayShared.image (shared : ArrayShared) : SharedCache where
  pdc := some shared.pdc.cache
  sessions := shared.sessions.map (Option.map ArrayListing.toDirectoryCacheEntry)

def SameRead {α : Type} (left : α × ArrayCache) (right : α × DirectoryCache) : Prop :=
  left.1 = right.1 ∧ right.2 = left.2.cache

def SameBegun (left : Option ArrayListing × ArrayCache)
    (right : Option DirectoryCacheEntry × DirectoryCache) : Prop :=
  right.1 = left.1.map ArrayListing.toDirectoryCacheEntry ∧ right.2 = left.2.cache

section Refinement

variable {ph} {pdc : ArrayCache} {path : CString} {pdce : ArrayListing}

theorem find_cache : NdpSmb.dcFindDirCache ph pdc.cache path false =
    (pdc.dcFindDirCache ph path).map ArrayListing.toDirectoryCacheEntry := by
  simp only [NdpSmb.dcFindDirCache, ArrayCache.cache, ArrayCache.dcFindDirCache, List.find?_map]
  rfl

theorem cache_removeFound : (pdc.dcRemoveFound ph path).cache =
    NdpSmb.dcRemoveFound ph pdc.cache path false := by
  simp only [NdpSmb.dcRemoveFound, ArrayCache.cache, ArrayCache.dcRemoveFound, List.eraseP_map]
  rfl

theorem refines_dceDelete {β γ : Type} {same : β → γ → Prop} {follow : Unit → Program β}
    {right : Program γ} (next : Refines same (follow ()) right) :
    Refines same (pdce.dceDelete >>= follow) right := by
  unfold ArrayListing.dceDelete
  split
  · exact .fault
  · exact next

theorem returns_dceDelete {β : Type} {post : β → Prop} {follow : Unit → Program β}
    (next : pdce.freed = false → (follow ()).Returns post) :
    (pdce.dceDelete >>= follow).Returns post := by
  unfold ArrayListing.dceDelete
  split
  · trivial
  · rename_i present
    exact next (by simpa using present)

theorem refines_addEach {β γ : Type} {same : β → γ → Prop} (fn : SmbwrpFileinfo → Program UInt32)
    (infos : List SmbwrpFileinfo) {left : β} {right : γ} (equal : same left right) :
    Refines same (addEach fn infos >>= fun _ => pure left)
      (addEach fn infos >>= fun _ => pure right) :=
  (Refines.refl _).bind fun _ _ _ => .ret equal

theorem refines_dcRead (fn : SmbwrpFileinfo → Program UInt32) (fForceCache : Bool) :
    Refines SameRead (pdc.dcRead ph path fn fForceCache)
      (NdpSmb.dcRead ph pdc.cache path fn fForceCache) := by
  have same : pdc.cache.fEnabled = pdc.fEnabled := rfl
  unfold ArrayCache.dcRead NdpSmb.dcRead
  rw [same, find_cache]
  split
  · exact .ret ⟨rfl, rfl⟩
  cases pdc.dcFindDirCache ph path with
  | none => exact .ret ⟨rfl, rfl⟩
  | some pdce =>
      simp only [Option.map_some]
      split
      · exact refines_addEach fn pdce.aInfos ⟨rfl, rfl⟩
      · apply Refines.perform_bind
        intro now
        have limit : pdc.cache.ulExpirationTime = pdc.ulExpirationTime := rfl
        rw [limit]
        split
        · apply refines_dceDelete
          exact .ret ⟨rfl, cache_removeFound.symm⟩
        · exact refines_addEach fn pdce.aInfos ⟨rfl, rfl⟩

theorem refines_dircacheListFiles (state : FilelistState) (fn : SmbwrpFileinfo → Program UInt32) :
    Refines (fun left right => left.1 = right.1 ∧ right.2 = some left.2.cache)
      (pdc.dircacheListFiles ph state fn)
      (NdpSmb.dircacheListFiles ph (some pdc.cache) state fn) := by
  unfold ArrayCache.dircacheListFiles NdpSmb.dircacheListFiles
  cases dcCreateDirPath state with
  | none => exact .ret ⟨rfl, rfl⟩
  | some path =>
      change Refines _ (pdc.dcRead ph path fn false) (NdpSmb.dcRead ph pdc.cache path fn false >>=
        fun answer => pure (answer.1, some answer.2))
      rw [← Prog.bind_ret (pdc.dcRead ph path fn false)]
      apply (refines_dcRead fn false).bind
      rintro ⟨total, later⟩ ⟨_, _⟩ ⟨rfl, rfl⟩
      exact .ret ⟨rfl, rfl⟩

theorem refines_dcWriteStart (cFiles : Nat) :
    Refines SameBegun (pdc.dcWriteStart ph path cFiles)
      (NdpSmb.dcWriteStart ph pdc.cache path cFiles) := by
  unfold ArrayCache.dcWriteStart NdpSmb.dcWriteStart
  rw [find_cache]
  cases pdc.dcFindDirCache ph path with
  | none =>
      unfold ArrayListing.dceCreate
      rw [Prog.bind_assoc]
      apply (Refines.refl (dceCreate path cFiles)).bind
      rintro created _ rfl
      refine .ret ⟨?_, rfl⟩
      cases created with
      | none => rfl
      | some entry => rfl
  | some pdce => exact .ret ⟨rfl, cache_removeFound.symm⟩

theorem refines_dcWriteBegin (cFiles : Nat) :
    Refines SameBegun (pdc.dcWriteBegin ph path cFiles)
      (NdpSmb.dcWriteBegin ph pdc.cache path cFiles) := by
  have same : pdc.cache.fEnabled = pdc.fEnabled := rfl
  unfold ArrayCache.dcWriteBegin NdpSmb.dcWriteBegin
  rw [same]
  split
  · exact .ret ⟨rfl, rfl⟩
  · apply (refines_dcWriteStart cFiles).bind
    rintro ⟨context, left⟩ ⟨_, _⟩ ⟨rfl, rfl⟩
    cases context with
    | none => exact .ret ⟨rfl, rfl⟩
    | some pdce => exact .call fun now => .ret ⟨rfl, rfl⟩

theorem refines_dcInvalidateLoop (fuel : Nat) (entries : List ArrayListing) :
    Refines (fun left right => right = left.map ArrayListing.toDirectoryCacheEntry)
      (ArrayCache.dcInvalidateLoop ph path fuel entries)
      (pure (NdpSmb.dcInvalidateLoop (dcMatches ph path false) fuel
        (entries.map ArrayListing.toDirectoryCacheEntry))) := by
  induction fuel generalizing entries with
  | zero => exact .ret rfl
  | succ fuel ih =>
      have found : (entries.map ArrayListing.toDirectoryCacheEntry).find? (dcMatches ph path false) =
          (entries.find? (ArrayListing.matching ph path)).map
            ArrayListing.toDirectoryCacheEntry := by
        rw [List.find?_map]
        rfl
      simp only [ArrayCache.dcInvalidateLoop, NdpSmb.dcInvalidateLoop, found]
      cases entries.find? (ArrayListing.matching ph path) with
      | none => exact .ret rfl
      | some pdce =>
          apply refines_dceDelete
          simp only [Option.map_some, List.eraseP_map]
          exact ih _

theorem refines_dircacheInvalidate (fParent : Bool) :
    Refines (fun left right => right = some left.cache)
      (pdc.dircacheInvalidate ph path fParent)
      (pure (NdpSmb.dircacheInvalidate ph path (some pdc.cache) fParent)) := by
  let key := if fParent then parentPath path else path
  have looped : Refines _ (ArrayCache.dcInvalidateLoop ph key pdc.entries.length pdc.entries) _ :=
    refines_dcInvalidateLoop pdc.entries.length pdc.entries
  have length : pdc.cache.entries.length = pdc.entries.length := List.length_map _
  have inserted : (pure (NdpSmb.dircacheInvalidate ph path (some pdc.cache) fParent) :
      Program (Option DirectoryCache)) = pure (NdpSmb.dcInvalidateLoop
        (dcMatches ph key false) pdc.entries.length (pdc.entries.map ArrayListing.toDirectoryCacheEntry)) >>= fun entries =>
          pure (some { pdc.cache with entries }) := by
    rw [← length]
    rfl
  rw [inserted]
  apply looped.bind
  rintro entries _ rfl
  exact .ret rfl

theorem refines_dcEvict {β γ : Type} {same : β → γ → Prop} {follow : ArrayCache → Program β}
    {after : DirectoryCache → Program γ}
    (next : ∀ left, Refines same (follow left) (after left.cache)) :
    Refines same (pdc.dcEvict >>= follow)
      (match NdpSmb.dcEvict pdc.cache with
        | none => .fault
        | some kept => after kept) := by
  have length : pdc.cache.entries.length = pdc.entries.length := List.length_map _
  have most : pdc.cache.cMaxEntries = pdc.cMaxEntries := rfl
  unfold ArrayCache.dcEvict NdpSmb.dcEvict
  rw [length, most]
  by_cases full : pdc.entries.length ≥ pdc.cMaxEntries
  · rw [if_pos full, if_pos full]
    cases last : pdc.entries.getLast? with
    | none => exact .fault
    | some pdce =>
        have present : pdc.cache.entries ≠ [] := by
          intro empty
          have none_left : pdc.entries = [] := List.map_eq_nil_iff.mp empty
          simp [none_left] at last
        rw [if_neg present]
        rw [Prog.bind_assoc]
        apply refines_dceDelete
        have kept : ArrayCache.cache { pdc with entries := pdc.entries.dropLast } =
            { pdc.cache with entries := pdc.cache.entries.dropLast } := by
          simp [ArrayCache.cache, List.map_dropLast]
        have following := next { pdc with entries := pdc.entries.dropLast }
        rw [kept] at following
        exact following
  · rw [if_neg full, if_neg full]
    exact next pdc

theorem refines_dircacheWriteBegin (state : FilelistState) (cFiles : Nat) :
    Refines (fun left right => right.1 = left.1.map ArrayListing.toDirectoryCacheEntry ∧
        right.2 = some left.2.cache)
      (pdc.dircacheWriteBegin ph state cFiles)
      (NdpSmb.dircacheWriteBegin ph (some pdc.cache) state cFiles) := by
  unfold ArrayCache.dircacheWriteBegin NdpSmb.dircacheWriteBegin
  cases dcCreateDirPath state with
  | none => exact .ret ⟨rfl, rfl⟩
  | some path =>
      apply refines_dcEvict
      intro left
      rw [← Prog.bind_ret (left.dcWriteBegin ph path cFiles)]
      apply (refines_dcWriteBegin cFiles).bind
      rintro ⟨context, later⟩ ⟨_, _⟩ ⟨rfl, rfl⟩
      exact .ret ⟨rfl, rfl⟩

theorem refines_dircacheWriteEntry (dircachectx : Option ArrayListing) (finfo : SmbwrpFileinfo) :
    Refines (fun left right => right = left.map ArrayListing.toDirectoryCacheEntry)
      (ArrayCache.dircacheWriteEntry dircachectx finfo)
      (NdpSmb.dircacheWriteEntry (dircachectx.map ArrayListing.toDirectoryCacheEntry) finfo) := by
  cases dircachectx with
  | none => exact .ret rfl
  | some pdce =>
      simp only [ArrayCache.dircacheWriteEntry, ArrayListing.dceWriteEntry]
      split
      · exact .fault
      · rw [Prog.bind_assoc]
        apply (Refines.refl (dceWriteEntry pdce.toDirectoryCacheEntry finfo)).bind
        rintro written _ rfl
        exact .ret rfl

theorem refines_dceAdjust :
    Refines (fun left right => right = left.toDirectoryCacheEntry) pdce.dceAdjust
      (NdpSmb.dceAdjust pdce.toDirectoryCacheEntry) := by
  unfold ArrayListing.dceAdjust NdpSmb.dceAdjust
  simp only
  split
  · split
    · exact .fault
    · apply Refines.perform_bind
      intro shrunk
      split
      · exact .ret rfl
      · exact .ret rfl
  · exact .ret rfl

theorem refines_dircacheWriteEnd (dircachectx : Option ArrayListing) :
    Refines (fun left right => right = some left.cache) (pdc.dircacheWriteEnd dircachectx)
      (NdpSmb.dircacheWriteEnd (some pdc.cache)
        (dircachectx.map ArrayListing.toDirectoryCacheEntry)) := by
  cases dircachectx with
  | none => exact .fault
  | some pdce =>
      simp only [ArrayCache.dircacheWriteEnd, NdpSmb.dircacheWriteEnd, Option.map_some]
      split
      · apply refines_dceDelete
        exact .ret rfl
      · apply refines_dceAdjust.bind
        rintro adjusted _ rfl
        exact .ret rfl

/-- Every step is one of the cache, as far as it does not touch an array that is gone. -/
theorem refines_arrayStep (fn : FilelistState → SmbwrpFileinfo → Program UInt32)
    (shared : ArrayShared) (call : SharedCall) :
    Refines (fun left right => left.1 = right.1 ∧ right.2 = left.2.image)
      (arrayStep ph fn shared call) (sharedStep ph fn shared.image call) := by
  obtain ⟨pdc, sessions⟩ := shared
  have context (place : Nat) : (ArrayShared.image ⟨pdc, sessions⟩).sessions[place]? =
      sessions[place]?.map (Option.map ArrayListing.toDirectoryCacheEntry) := List.getElem?_map
  cases call with
  | listFiles state =>
      apply (refines_dircacheListFiles state (fn state)).bind
      rintro ⟨total, later⟩ ⟨_, _⟩ ⟨rfl, rfl⟩
      exact .ret ⟨rfl, rfl⟩
  | findPath path =>
      apply (Refines.refl (dircacheFindPath ph (some pdc.cache) path)).bind
      rintro found _ rfl
      exact .ret ⟨rfl, rfl⟩
  | invalidate path fParent =>
      have invalidated : Refines _ (pdc.dircacheInvalidate ph path fParent)
          (pure (NdpSmb.dircacheInvalidate ph path (some pdc.cache) fParent)) :=
        refines_dircacheInvalidate fParent
      change Refines _ _ (pure (NdpSmb.dircacheInvalidate ph path (some pdc.cache) fParent) >>=
        fun later => pure ((), { ArrayShared.image ⟨pdc, sessions⟩ with pdc := later }))
      apply invalidated.bind
      rintro later _ rfl
      exact .ret ⟨rfl, rfl⟩
  | writeBegin state cFiles =>
      apply (refines_dircacheWriteBegin state cFiles).bind
      rintro ⟨dircachectx, later⟩ ⟨_, _⟩ ⟨rfl, rfl⟩
      refine .ret ⟨rfl, ?_⟩
      simp [ArrayShared.image]
  | writeEntry place finfo =>
      simp only [arrayStep, sharedStep, context]
      cases sessions[place]? with
      | none => exact .fault
      | some dircachectx =>
          apply (refines_dircacheWriteEntry dircachectx finfo).bind
          rintro written _ rfl
          refine .ret ⟨trivial, ?_⟩
          simp [ArrayShared.image, List.map_set]
  | writeEnd place =>
      simp only [arrayStep, sharedStep, context]
      cases sessions[place]? with
      | none => exact .fault
      | some dircachectx =>
          apply (refines_dircacheWriteEnd dircachectx).bind
          rintro later _ rfl
          refine .ret ⟨trivial, ?_⟩
          simp [ArrayShared.image, List.eraseIdx_map]
  | abandon place =>
      refine .ret ⟨rfl, ?_⟩
      simp [ArrayShared.image, List.eraseIdx_map]

theorem reaches_image {fn : FilelistState → SmbwrpFileinfo → Program UInt32}
    {allowed : ArrayShared → SharedCall → Prop} {permitted : SharedCache → SharedCall → Prop}
    (allows : ∀ shared call, allowed shared call → permitted shared.image call)
    {start later : ArrayShared} {history : List (Taken Op SharedCall Unit)}
    (reached : Reaches (arrayStep ph fn) allowed start history later) :
    Reaches (sharedStep ph fn) permitted start.image history later.image := by
  have refined : ∃ image, Reaches (sharedStep ph fn) permitted start.image history image ∧
      image = later.image := by
    apply reached.refined (fun shared image => image = shared.image) _ rfl
    rintro shared _ call rfl admitted
    exact ⟨allows shared call admitted, refines_arrayStep fn shared call⟩
  obtain ⟨_, there, rfl⟩ := refined
  exact there

end Refinement

end NdpSmb
