import NdpSmb.EvictionOrder
import NdpSmb.MountOptions

/-!
The depths of the cache that `initResource` accepts, and what `dircache_write_begin` evicts at
each of them.
-/

namespace NdpSmb

open ByteString Interaction DoublyLinked

def FreshCache (pRes : Resource) : Prop :=
  ∀ cache, pRes.pdc = some cache →
    cache = emptyCache pRes.cachetimeout pRes.cachedepth.toNat

theorem initResource_freshCache : initResource.Returns fun answer => FreshCache answer.2 := by
  refine Prog.returns_bind.mpr (Prog.returns_of_forall fun _ => ?_)
  refine Prog.returns_bind.mpr (Prog.returns_of_forall fun options => ?_)
  refine Prog.returns_bind.mpr (Prog.returns_perform_bind.mpr fun malloced => ?_)
  split
  · simp [FreshCache]
  · refine Prog.returns_perform_bind.mpr fun rc => ?_
    split
    · simp [FreshCache]
    · rintro _ ⟨⟩
      rfl

/-! What is evicted. -/

def EvictsListing (pdc : LinkedCache) : Prop :=
  pdc.cEntries ≥ pdc.cMaxEntries → pdc.links.tail ≠ none ∧ pdc.dcEvict ≠ none

def AlwaysEvictsListing (ph : Platform) (fn : FilelistState → SmbwrpFileinfo → Program UInt32)
    (cache : DirectoryCache) : Prop :=
  ∀ history shared, Reaches (linkedStep ph fn) (fun _ _ => True)
    (emptyLinked cache.ulExpirationTime cache.cMaxEntries) history shared →
    EvictsListing shared.pdc

section Evict

variable {ph : Platform} {pdc : LinkedCache} {nodes : List Address} {cache : DirectoryCache}

theorem LinkedCache.Represents.evictsListing (represents : pdc.Represents nodes cache)
    (room : 1 ≤ cache.cMaxEntries) : EvictsListing pdc := by
  intro full
  have counted := represents.counted
  have limit := represents.cMaxEntries
  rcases List.eq_nil_or_concat nodes with empty | ⟨init, last, split⟩
  · rw [empty, List.length_nil] at counted
    omega
  · rw [List.concat_eq_append] at split
    obtain ⟨later, taken, tail, -, -⟩ := represents.evicts split full
    rw [tail, taken]
    exact ⟨Option.some_ne_none last, Option.some_ne_none later⟩

theorem represents_reached {fn : FilelistState → SmbwrpFileinfo → Program UInt32}
    {ulExpirationTime : UInt32} {cMaxEntries : Nat} {history : List (Taken Op SharedCall Unit)}
    {shared : LinkedShared}
    (reached : Reaches (linkedStep ph fn) (fun _ _ => True)
      (emptyLinked ulExpirationTime cMaxEntries) history shared) :
    ∃ nodes cache, shared.pdc.Represents nodes cache ∧ cache.cMaxEntries = cMaxEntries := by
  have allows (before : LinkedShared) (image : SharedCache) (call : SharedCall)
      (nodes : List Address) (_ : before.Abstracts nodes image) (_ : True) :
      Interleaved image call := trivial
  obtain ⟨image, nodes, abstracts, there⟩ := reaches_abstracts allows reached
  have sound : image.Sound ulExpirationTime cMaxEntries := sound_emptyShared.reached there
  obtain ⟨cache, listed, represents⟩ := abstracts.cached
  refine ⟨nodes, cache, represents, ?_⟩
  rw [Option.some.inj (listed.symm.trans sound.pdc_eq)]
  rfl

theorem alwaysEvictsListing_iff (fn : FilelistState → SmbwrpFileinfo → Program UInt32) :
    AlwaysEvictsListing ph fn cache ↔ 1 ≤ cache.cMaxEntries := by
  constructor
  · intro evicts
    by_contra shallow
    have depth : cache.cMaxEntries = 0 := by omega
    have full : (emptyLinked cache.ulExpirationTime cache.cMaxEntries).pdc.cEntries ≥
        (emptyLinked cache.ulExpirationTime cache.cMaxEntries).pdc.cMaxEntries := by
      rw [depth]
      exact le_refl _
    exact (evicts [] _ .start full).1 rfl
  · intro room history shared reached
    obtain ⟨nodes, image, represents, depth⟩ := represents_reached reached
    exact represents.evictsListing (by omega)

end Evict

/-- The cache of an accepted mount gives up a listing only where it has one, exactly when its
depth is not zero. -/
theorem mountedCache_evictsListing_iff (ph : Platform)
    (fn : FilelistState → SmbwrpFileinfo → Program UInt32) {trace : List CallEvent}
    {pRes : Resource} {cache : DirectoryCache}
    (mounted : Run initResource trace (some (noError, pRes))) (created : pRes.pdc = some cache) :
    AlwaysEvictsListing ph fn cache ↔ pRes.cachedepth ≠ 0 := by
  have fresh : FreshCache pRes := initResource_freshCache.run mounted
  have depth : cache.cMaxEntries = pRes.cachedepth.toNat := by
    rw [fresh cache created]
    rfl
  rw [alwaysEvictsListing_iff, depth]
  constructor
  · intro room zero
    rw [zero] at room
    exact absurd room (by decide)
  · intro deep
    apply Nat.one_le_iff_ne_zero.mpr
    intro zero
    exact deep (UInt32.toNat_inj.mp zero)

def depthReplies (depth : UInt32) : (R : Type) → Op R → R
  | _, .fsphQueryUlongProperty name => (0, if name = bytes "CLD" then depth else 0)
  | _, op => op.usual

def depthRun (depth : UInt32) : List CallEvent × Option (Int × Resource) :=
  exec (fun _ => depthReplies depth) 0 initResource

def depthMount (depth : UInt32) : Resource :=
  { pdc := some (emptyCache 0 depth.toNat), cachedepth := depth }

theorem mountedCache_evictsListing_iff_deep :
    AlwaysEvictsListing asciiPlatform noCallback (emptyCache 0 32) ↔ (32 : UInt32) ≠ 0 := by
  have mounted : Run initResource (depthRun 32).1 (some (noError, depthMount 32)) := by
    have outcome : (depthRun 32).2 = some (noError, depthMount 32) := by decide
    exact outcome ▸ run_exec _ _ 0
  exact mountedCache_evictsListing_iff asciiPlatform noCallback mounted rfl

/-- Depth zero is accepted, and the first listing that is to be cached is made room for in an
empty list. -/
theorem depth_zero_evicts_nothing :
    (∃ trace, Run initResource trace (some (noError, depthMount 0)) ∧
      ∀ event ∈ trace, Supplies (fun _ => 0) event) ∧
    ¬ AlwaysEvictsListing asciiPlatform noCallback (emptyCache 0 0) ∧
    ∃ trace, Run (linkedStep asciiPlatform noCallback (emptyLinked 0 0)
      (.writeBegin directoryState 128)) trace none := by
  refine ⟨⟨(depthRun 0).1, ?_, by decide⟩, ?_, [], .fault⟩
  · have outcome : (depthRun 0).2 = some (noError, depthMount 0) := by decide
    exact outcome ▸ run_exec _ _ 0
  · intro evicts
    exact (evicts [] _ .start (le_refl _)).1 rfl

end NdpSmb
