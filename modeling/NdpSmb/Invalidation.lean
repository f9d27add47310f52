import NdpSmb.LinkedCache

/-!
`dcInvalidate` on the linked listings: that it ends, and which of them it takes out.
-/

namespace NdpSmb

open ByteString Interaction DoublyLinked LinkedCache

section Invalidation

variable {ph : Platform} {pdc : LinkedCache} {nodes : List Address} {pdce : Address}

theorem LinkedCache.WellFormed.discarded (wellFormed : pdc.WellFormed nodes)
    (member : pdce ∈ nodes) :
    ∃ later, pdc.discard pdce = some later ∧ later.WellFormed (nodes.erase pdce) ∧
      later.heap = Function.update pdc.heap pdce none := by
  have nodup := wellFormed.walks.forward.nodup
  refine ⟨_, wellFormed.discard_eq member, ?_, rfl⟩
  refine ⟨wellFormed.walks.unlink member, ?_, fun other inside => ?_, fun other inside => ?_⟩
  · have present := List.length_pos_of_mem member
    have counted := wellFormed.counted
    rw [List.length_erase_of_mem member]
    change pdc.cEntries - 1 = _
    omega
  · obtain ⟨apart, before⟩ := nodup.mem_erase_iff.mp inside
    change Function.update pdc.heap pdce none other ≠ none
    rw [Function.update_of_ne apart]
    exact wellFormed.present other before
  · exact wellFormed.inUse other (nodup.mem_erase_iff.mp inside).2

theorem filter_erase_of_same {first : Address} {left right : Address → Bool} (nodup : nodes.Nodup)
    (same : ∀ pdce, pdce ≠ first → left pdce = right pdce) :
    (nodes.erase first).filter left = (nodes.filter right).erase first := by
  rw [nodup.erase_eq_filter, (nodup.filter right).erase_eq_filter, List.filter_filter,
    List.filter_filter]
  refine List.filter_congr fun pdce _ => ?_
  by_cases apart : pdce = first
  · simp [apart]
  · rw [same pdce apart, Bool.and_comm]

theorem LinkedCache.WellFormed.invalidated (matching : DirectoryCacheEntry → Bool) (fuel : Nat)
    (wellFormed : pdc.WellFormed nodes)
    (enough : (nodes.filter (pdc.matchesAt matching)).length < fuel) :
    ∃ later, dcInvalidateLoop matching fuel pdc = some later ∧
      later.WellFormed (nodes.filter fun pdce => !pdc.matchesAt matching pdce) ∧
      ∀ pdce, later.heap pdce =
        if pdce ∈ nodes ∧ pdc.matchesAt matching pdce = true then none else pdc.heap pdce := by
  induction fuel generalizing pdc nodes with
  | zero => omega
  | succ fuel ih =>
      have nodup := wellFormed.walks.forward.nodup
      rw [LinkedCache.dcInvalidateLoop, wellFormed.find_eq matching]
      cases found : nodes.find? (pdc.matchesAt matching) with
      | none =>
          have missed : ∀ pdce ∈ nodes, ¬ pdc.matchesAt matching pdce = true :=
            List.find?_eq_none.mp found
          have kept : (nodes.filter fun pdce => !pdc.matchesAt matching pdce) = nodes :=
            List.filter_eq_self.mpr fun pdce member => by simpa using missed pdce member
          rw [kept]
          refine ⟨pdc, rfl, wellFormed, fun pdce => ?_⟩
          rw [if_neg fun both => missed pdce both.1 both.2]
      | some first =>
          have member := List.mem_of_find?_eq_some found
          have matched : pdc.matchesAt matching first = true := List.find?_some found
          obtain ⟨between, taken, still, memory⟩ := wellFormed.discarded member
          have same (pdce : Address) (apart : pdce ≠ first) :
              between.matchesAt matching pdce = pdc.matchesAt matching pdce := by
            unfold matchesAt
            rw [memory, Function.update_of_ne apart]
          have erased : (nodes.erase first).filter (between.matchesAt matching) =
              (nodes.filter (pdc.matchesAt matching)).erase first :=
            filter_erase_of_same nodup same
          have kept : ((nodes.erase first).filter fun pdce => !between.matchesAt matching pdce) =
              nodes.filter fun pdce => !pdc.matchesAt matching pdce := by
            rw [filter_erase_of_same nodup fun pdce apart => congrArg Bool.not (same pdce apart)]
            exact List.erase_of_not_mem (by simp [matched])
          have shorter : ((nodes.erase first).filter (between.matchesAt matching)).length < fuel := by
            have inside : first ∈ nodes.filter (pdc.matchesAt matching) :=
              List.mem_filter.mpr ⟨member, matched⟩
            have present := List.length_pos_of_mem inside
            rw [erased, List.length_erase_of_mem inside]
            omega
          obtain ⟨later, done, wellFormed, freed⟩ := ih still shorter
          rw [kept] at wellFormed
          refine ⟨later, ?_, wellFormed, fun pdce => ?_⟩
          · change (pdc.discard first).bind (dcInvalidateLoop matching fuel) = some later
            rw [taken]
            exact done
          · rw [freed, memory]
            by_cases apart : pdce = first
            · rw [apart, Function.update_self, ite_self, if_pos ⟨member, matched⟩]
            · simp only [Function.update_of_ne apart, same pdce apart, nodup.mem_erase_iff, ne_eq,
                apart, not_false_eq_true, true_and]

/-- The loop ends, and what is linked afterwards are the listings that do not match. -/
theorem dcInvalidate_removesMatching (wellFormed : pdc.WellFormed nodes) (path : CString)
    (fPrefix : Bool) :
    ∃ later, pdc.dcInvalidate ph path fPrefix = some later ∧
      later.WellFormed (nodes.filter fun pdce =>
        !pdc.matchesAt (dcMatches ph path fPrefix) pdce) ∧
      ∀ pdce, later.heap pdce =
        if pdce ∈ nodes ∧ pdc.matchesAt (dcMatches ph path fPrefix) pdce = true then none
        else pdc.heap pdce := by
  have enough : (nodes.filter (pdc.matchesAt (dcMatches ph path fPrefix))).length <
      pdc.allocated + 1 := by
    have part := List.length_filter_le (pdc.matchesAt (dcMatches ph path fPrefix)) nodes
    have short := wellFormed.length_le
    omega
  exact wellFormed.invalidated (dcMatches ph path fPrefix) (pdc.allocated + 1) enough

theorem reaches_wellFormed {allowed : LinkedShared → SharedCall → Prop}
    {fn : FilelistState → SmbwrpFileinfo → Program UInt32} {ulExpirationTime : UInt32}
    {cMaxEntries : Nat} {history : List (Taken Op SharedCall Unit)} {shared : LinkedShared}
    (reached : Reaches (linkedStep ph fn) allowed (emptyLinked ulExpirationTime cMaxEntries)
      history shared) : ∃ nodes, shared.pdc.WellFormed nodes := by
  let permitted : SharedCache → SharedCall → Prop := fun _ _ => True
  have allows : ∀ shared image call nodes, LinkedShared.Abstracts shared nodes image →
      allowed shared call → permitted image call := fun _ _ _ _ _ _ => trivial
  obtain ⟨image, nodes, abstracts, -⟩ := reaches_abstracts allows reached
  obtain ⟨cache, -, represents⟩ := abstracts.cached
  exact ⟨nodes, represents.wellFormed⟩

def twoListings : LinkedCache where
  heap pdce := if pdce = 0 then some ⟨[], 1, bytes "\\A", computehash (bytes "\\A"), 0, false⟩
    else if pdce = 1 then some ⟨[], 1, bytes "\\B", computehash (bytes "\\B"), 0, false⟩ else none
  allocated := 2
  links := (({} : Links Address).pushFront 0).pushFront 1
  cEntries := 2
  ulExpirationTime := 20
  cMaxEntries := 128

theorem wellFormed_twoListings : twoListings.WellFormed [1, 0] where
  walks := ((Links.spells_nil.pushFront (by simp)).pushFront (by simp)).walks
  counted := rfl
  present := by decide
  inUse := by decide

theorem dcInvalidate_removesMatching_first :
    ∃ later, twoListings.dcInvalidate asciiPlatform (bytes "\\B") false = some later ∧
      later.WellFormed ([1, 0].filter fun pdce =>
        !twoListings.matchesAt (dcMatches asciiPlatform (bytes "\\B") false) pdce) ∧
      ∀ pdce, later.heap pdce =
        if pdce ∈ [1, 0] ∧
          twoListings.matchesAt (dcMatches asciiPlatform (bytes "\\B") false) pdce = true then none
        else twoListings.heap pdce :=
  dcInvalidate_removesMatching wellFormed_twoListings (bytes "\\B") false

end Invalidation

end NdpSmb
