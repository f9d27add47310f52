import NdpSmb.SharedCache

/-!
The bound on the cache and the one listing for each path, when sessions overlap:
both are looked after where a session begins, and the listing is linked where it ends.
-/

namespace NdpSmb

open ByteString Interaction

variable (ph : Platform)

/-- Not more listings are linked than the cache may have, and no two of one path. -/
def Tidy (shared : SharedCache) : Prop :=
  ∀ pdc, shared.pdc = some pdc → pdc.entries.length ≤ pdc.cMaxEntries ∧
    pdc.entries.Pairwise fun left right => left.pszPath ≠ right.pszPath

/-- Where a listing is about to be linked there is room for it, and none of its path. -/
def FindsRoom (shared : SharedCache) : SharedCall → Prop
  | .writeEnd place => ∀ pdce pdc, shared.sessions[place]? = some (some pdce) →
      shared.pdc = some pdc → pdce.fInvalid = false →
      pdc.entries.length < pdc.cMaxEntries ∧ ∀ entry ∈ pdc.entries, entry.pszPath ≠ pdce.pszPath
  | _ => True

section Tidy

variable {ph} {read : UInt32 → Prop} {shared later : SharedCache} {call : SharedCall}
  {ulExpirationTime : UInt32} {cMaxEntries : Nat}

theorem tidy_emptyShared : Tidy (emptyShared ulExpirationTime cMaxEntries) := by
  intro pdc same
  obtain rfl := Option.some.inj same
  exact ⟨Nat.zero_le _, List.Pairwise.nil⟩

theorem Tidy.of_sublist (tidy : Tidy shared) (created : limits later.pdc = limits shared.pdc)
    (part : (linked later.pdc).Sublist (linked shared.pdc)) : Tidy later := by
  intro pdc same
  cases cache : shared.pdc with
  | none => simp [limits, same, cache] at created
  | some before =>
      have limit : pdc.cMaxEntries = before.cMaxEntries := by
        simp only [limits, same, cache, Option.map_some, Option.some.injEq,
          DirectoryCache.mk.injEq] at created
        exact created.2.2.2
      rw [same, cache] at part
      obtain ⟨bounded, apart⟩ := tidy before cache
      refine ⟨?_, apart.sublist part⟩
      have shorter := part.length_le
      simp only [linked] at shorter
      omega

theorem tidy_ended_iff {place : Nat} (tidy : Tidy shared)
    (moved : Moved ph read shared (.writeEnd place) later) :
    Tidy later ↔ FindsRoom shared (.writeEnd place) := by
  obtain ⟨-, pdce, used, ⟨invalid, kept⟩ | ⟨valid, cInfosAllocated, left⟩⟩ := id moved
  · refine iff_of_true (tidy.of_sublist moved.limits (by rw [kept])) ?_
    intro other pdc same _ valid
    obtain rfl := Option.some.inj (Option.some.inj (used.symm.trans same))
    simp [invalid] at valid
  · constructor
    · intro tidyLater other pdc same cache _
      obtain rfl := Option.some.inj (Option.some.inj (used.symm.trans same))
      rw [cache, Option.map_some] at left
      obtain ⟨bounded, apart⟩ := tidyLater _ left
      refine ⟨bounded, fun entry member equal => ?_⟩
      exact (List.pairwise_cons.mp apart).1 entry member equal.symm
    · intro room pdc same
      cases cache : shared.pdc with
      | none => simp [left, cache] at same
      | some before =>
          rw [left, cache] at same
          obtain rfl := Option.some.inj same
          obtain ⟨bounded, apart⟩ := room pdce before used cache valid
          refine ⟨bounded, List.pairwise_cons.mpr ⟨fun entry member equal => ?_, (tidy _ cache).2⟩⟩
          exact apart entry member equal.symm

theorem Tidy.moved (tidy : Tidy shared) (room : FindsRoom shared call)
    (moved : Moved ph read shared call later) : Tidy later := by
  by_cases ended : ∃ place, call = .writeEnd place
  · obtain ⟨place, rfl⟩ := ended
    exact (tidy_ended_iff tidy moved).mpr room
  · exact tidy.of_sublist moved.limits (moved.linked_sublist fun place same => ended ⟨place, same⟩)

theorem SharedCache.Orderly.findsRoom (orderly : shared.Orderly ph ulExpirationTime cMaxEntries) :
    FindsRoom shared call := by
  cases call with
  | writeEnd place =>
      intro pdce pdc used cache valid
      obtain ⟨only, rfl⟩ := sessions_of_single orderly.single used
      have created := Option.some.inj (cache.symm.trans orderly.pdc_eq)
      have limit : pdc.cMaxEntries = cMaxEntries := by rw [created]; rfl
      have listed : tags shared = listingTag pdce :: pdc.entries.map listingTag := by
        simp [tags, held, only, cache, linked]
      have bounded := orderly.bounded
      have apart := orderly.apart
      rw [listed] at bounded apart
      rw [List.length_cons, List.length_map] at bounded
      refine ⟨by omega, fun entry member equal => ?_⟩
      have differ := (List.pairwise_cons.mp apart).1 (listingTag entry)
        (List.mem_map_of_mem member)
      have inside : entry ∈ held shared := mem_held.mpr (.inr (by rw [cache]; exact member))
      have begun : pdce ∈ held shared := mem_held_of_session used
      refine differ ⟨?_, ?_⟩
      · change pdce.ulHash = entry.ulHash
        rw [orderly.hashed pdce begun, orderly.hashed entry inside, equal]
      · change ph.SameName pdce.pszPath entry.pszPath
        rw [equal]
        exact FoldEq.refl _
  | listFiles | findPath | invalidate | writeBegin | writeEntry | abandon => trivial

end Tidy

/-- The cache stays within its bound and has one listing for each path in every run in which
each end of a session finds room; an end that does not find room breaks this. Where no
two sessions overlap, each end does find room. -/
theorem sharedCache_tidy_iff (ulExpirationTime : UInt32) (cMaxEntries : Nat)
    (room : 1 ≤ cMaxEntries) (fn : FilelistState → SmbwrpFileinfo → Program UInt32) :
    (∀ history shared, Reaches (sharedStep ph fn) FindsRoom
      (emptyShared ulExpirationTime cMaxEntries) history shared → Tidy shared) ∧
    (∀ shared place trace later, Tidy shared →
      Run (sharedStep ph fn shared (.writeEnd place)) trace (some ((), later)) →
      (Tidy later ↔ FindsRoom shared (.writeEnd place))) ∧
    (∀ history shared, Reaches (sharedStep ph fn) Serial
      (emptyShared ulExpirationTime cMaxEntries) history shared →
      Reaches (sharedStep ph fn) FindsRoom
        (emptyShared ulExpirationTime cMaxEntries) history shared) := by
  refine ⟨?_, ?_, ?_⟩
  · intro history shared reached
    refine reached.invariant Tidy tidy_emptyShared fun before call tidy findsRoom => ?_
    exact (returns_sharedStep fn before call).mono fun _ moved => tidy.moved findsRoom moved
  · intro shared place trace later tidy run
    exact tidy_ended_iff tidy ((returns_sharedStep fn shared (.writeEnd place)).run run)
  · intro history shared reached
    refine reached.imp fun _ before call earlier _ => ?_
    exact (orderly_emptyShared.reached room earlier).findsRoom

def nextDirectoryState : FilelistState :=
  { directoryState with mask := bytes "\\E\\*", dir := bytes "\\E\\", fullpath := bytes "\\E\\*" }

theorem sharedCache_tidy_iff_two :
    ∃ history shared, history.map Taken.label = [.writeBegin directoryState 128, .writeEntry 0 fileA,
        .writeEnd 0, .writeBegin nextDirectoryState 128, .writeEnd 0] ∧
      Reaches (sharedStep asciiPlatform noCallback) FindsRoom (emptyShared 10 2) history shared ∧
      (linked shared.pdc).length = 2 ∧ Tidy shared := by
  have created : Reaches (sharedStep asciiPlatform noCallback) Serial (emptyShared 10 2) []
      (emptyShared 10 2) := .start
  have begun := created.executed usualReplies (.writeBegin directoryState 128) () _ rfl rfl
  have written := begun.executed usualReplies (.writeEntry 0 fileA) () _ trivial rfl
  have ended := written.executed usualReplies (.writeEnd 0) () _ trivial rfl
  have again := ended.executed usualReplies (.writeBegin nextDirectoryState 128) () _ rfl rfl
  have both := again.executed usualReplies (.writeEnd 0) () _ trivial rfl
  have ⟨tidied, _, roomed⟩ := sharedCache_tidy_iff asciiPlatform 10 2 (by decide) noCallback
  have room := roomed _ _ both
  exact ⟨_, _, rfl, room, rfl, tidied _ _ room⟩

/-! Two threads list one directory through a cache of one listing. -/

def oneEnded : SharedCache :=
  { pdc := some { emptyCache 10 1 with entries := [{ emptyDirectory with cInfosAllocated := 64 }] }
    sessions := [some emptyDirectory] }

def bothEnded : SharedCache :=
  { pdc := some { emptyCache 10 1 with
      entries := [{ emptyDirectory with cInfosAllocated := 64 },
        { emptyDirectory with cInfosAllocated := 64 }] } }

/-- Neither begin sees the other's listing, and both ends link theirs. -/
theorem sharedCache_overlap_untidy :
    ∃ history, Reaches (sharedStep asciiPlatform noCallback) Interleaved (emptyShared 10 1)
      history bothEnded ∧ ¬ Tidy bothEnded := by
  have begun : Reaches (sharedStep asciiPlatform noCallback) Interleaved (emptyShared 10 1) []
      (emptyShared 10 1) := .start
  have first := begun.executed usualReplies (.writeBegin directoryState 128) ()
    { emptyShared 10 1 with sessions := [some emptyDirectory] } trivial (by decide)
  have second := first.executed usualReplies (.writeBegin directoryState 128) ()
    { emptyShared 10 1 with sessions := [some emptyDirectory, some emptyDirectory] } trivial
    (by decide)
  have third := second.executed usualReplies (.writeEnd 0) () oneEnded trivial (by decide)
  have fourth := third.executed usualReplies (.writeEnd 0) () bothEnded trivial (by decide)
  refine ⟨_, fourth, fun tidy => ?_⟩
  have bounded := (tidy _ rfl).1
  exact absurd bounded (by decide)

end NdpSmb
