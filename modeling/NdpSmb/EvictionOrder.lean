import NdpSmb.LinkedCache

/-!
The links of the cache where sessions do not overlap: what they spell, and that the
listing at the tail is one of the oldest.
-/

namespace NdpSmb

open ByteString Interaction DoublyLinked

variable (ph : Platform)

/-- From head to tail the listings get older, and none is from the future. -/
structure Aged (clock : UInt32) (shared : SharedCache) : Prop where
  ordered : (tags shared).Pairwise fun newer older =>
    older.ulLastUpdateTime ≤ newer.ulLastUpdateTime
  past : ∀ tag ∈ tags shared, tag.ulLastUpdateTime ≤ clock

section Aged

variable {ph} {last : UInt32} {shared : SharedCache}

theorem Aged.later {clock : UInt32} (aged : Aged last shared) (forward : last ≤ clock) :
    Aged clock shared :=
  ⟨aged.ordered, fun tag member => UInt32.le_trans (aged.past tag member) forward⟩

theorem Aged.sublist {fewer : SharedCache} (aged : Aged last shared)
    (part : (tags fewer).Sublist (tags shared)) : Aged last fewer :=
  ⟨aged.ordered.sublist part, fun tag member => aged.past tag (part.subset member)⟩

def forwardClock : Watch Op UInt32 := clockWatch fun last now => last ≤ now

theorem ensures_forward {α : Type} (program : Program α) :
    forwardClock.Ensures (fun _ later => last ≤ later) program last := by
  induction program generalizing last with
  | ret value => exact UInt32.le_refl last
  | call op next ih =>
      intro reply admitted
      have forward : last ≤ forwardClock.observe last ⟨op, reply⟩ := by
        change last ≤ (clockReading ⟨op, reply⟩).getD last
        cases reading : clockReading ⟨op, reply⟩ with
        | none => exact UInt32.le_refl last
        | some now => exact admitted now reading
      exact (ih reply).mono fun _ later further => UInt32.le_trans forward further
  | fault => trivial

theorem Aged.moved {later : SharedCache} {call : SharedCall} {clock : UInt32}
    (aged : Aged last shared) (single : shared.sessions.length ≤ 1) (serial : Serial shared call)
    (moved : Moved ph (fun now => last ≤ now ∧ clock = now) shared call later)
    (forward : last ≤ clock) : Aged clock later := by
  by_cases begun : ∃ state cFiles, call = .writeBegin state cFiles
  · obtain ⟨state, cFiles, rfl⟩ := begun
    have idle : shared.sessions = [] := serial
    rcases moved.begins idle with part | ⟨pdce, path, pdc, start, cache, listed⟩
    · exact (aged.sublist part).later forward
    · have part : (((unevicted pdc).eraseP (dcMatches ph path false)).map listingTag).Sublist
          (tags shared) := by
        have listedBefore : tags shared = pdc.entries.map listingTag := by
          simp [tags, held, idle, cache, linked]
        rw [listedBefore]
        exact (List.eraseP_sublist.trans (sublist_unevicted pdc)).map listingTag
      have stamped : (listingTag pdce).ulLastUpdateTime = clock := start.stamped.2.symm
      refine ⟨?_, ?_⟩
      · rw [listed]
        refine List.pairwise_cons.mpr ⟨fun tag member => ?_, aged.ordered.sublist part⟩
        rw [stamped]
        exact UInt32.le_trans (aged.past tag (part.subset member)) forward
      · rw [listed]
        intro tag member
        rcases List.mem_cons.mp member with rfl | member
        · rw [stamped]
          exact UInt32.le_refl clock
        · exact UInt32.le_trans (aged.past tag (part.subset member)) forward
  · have part := moved.tags_sublist single fun state cFiles same => begun ⟨state, cFiles, same⟩
    exact (aged.sublist part).later forward

theorem aged_emptyShared (ulExpirationTime : UInt32) (cMaxEntries : Nat) :
    Aged 0 (emptyShared ulExpirationTime cMaxEntries) :=
  ⟨.nil, fun tag member => by cases member⟩

theorem admits_forward {trace : List CallEvent}
    (forward : (trace.filterMap clockReading).Pairwise (· ≤ ·))
    (past : ∀ now ∈ trace.filterMap clockReading, last ≤ now) :
    forwardClock.Admits last trace := by
  induction trace generalizing last with
  | nil => trivial
  | cons event rest ih =>
      cases reading : clockReading event with
      | none =>
          rw [List.filterMap_cons_none reading] at forward past
          have same : forwardClock.observe last event = last := by
            change (clockReading event).getD last = last
            rw [reading]
            rfl
          refine ⟨fun now read => ?_, ?_⟩
          · simp [reading] at read
          · rw [same]
            exact ih forward past
      | some now =>
          rw [List.filterMap_cons_some reading] at forward past
          obtain ⟨ahead, forward⟩ := List.pairwise_cons.mp forward
          have same : forwardClock.observe last event = now := by
            change (clockReading event).getD last = now
            rw [reading]
            rfl
          refine ⟨fun other read => ?_, ?_⟩
          · obtain rfl := Option.some.inj (reading.symm.trans read)
            exact past now List.mem_cons_self
          · rw [same]
            exact ih forward ahead

theorem aged_reached {fn : FilelistState → SmbwrpFileinfo → Program UInt32}
    {ulExpirationTime : UInt32} {cMaxEntries : Nat} (room : 1 ≤ cMaxEntries)
    {history : List (Taken Op SharedCall Unit)}
    (reached : Reaches (sharedStep ph fn) Serial (emptyShared ulExpirationTime cMaxEntries)
      history shared)
    (forward : ((exchanges history).filterMap clockReading).Pairwise (· ≤ ·)) :
    shared.Orderly ph ulExpirationTime cMaxEntries ∧
      Aged (forwardClock.after 0 (exchanges history)) shared := by
  have kept (state : SharedCache) (clock : UInt32) (call : SharedCall) :
      state.Orderly ph ulExpirationTime cMaxEntries ∧ Aged clock state → Serial state call →
      forwardClock.Ensures (fun result latest =>
        result.2.Orderly ph ulExpirationTime cMaxEntries ∧ Aged latest result.2)
        (sharedStep ph fn state call) clock := by
    intro ⟨orderly, aged⟩ serial
    refine ((ensures_sharedStep fn state call).and (ensures_forward _)).mono ?_
    intro result later ⟨moved, ahead⟩
    exact ⟨orderly.moved room serial moved, aged.moved orderly.single serial moved ahead⟩
  exact forwardClock.reaches_invariant ⟨orderly_emptyShared, aged_emptyShared _ _⟩ kept reached
    (admits_forward forward fun _ _ => UInt32.zero_le)

end Aged

def LinkedSerial (shared : LinkedShared) : SharedCall → Prop
  | .writeBegin _ _ => shared.sessions = []
  | _ => True

/-- How the links, the counter and the stamps of a cache fit together. -/
structure WellLinked (cMaxEntries : Nat) (pdc : LinkedCache) (nodes : List Address)
    (entries : List DirectoryCacheEntry) : Prop where
  nodup : nodes.Nodup
  forward : Visits pdc.links.next pdc.links.head nodes
  backward : Visits pdc.links.prev pdc.links.tail nodes.reverse
  counted : pdc.cEntries = nodes.length
  bounded : pdc.cEntries ≤ cMaxEntries
  detached : ∀ pdce, pdce ∉ nodes → pdc.links.next pdce = none ∧ pdc.links.prev pdce = none
  content : List.Forall₂ (fun pdce entry => pdc.heap pdce = some entry) nodes entries
  ordered : entries.Pairwise fun newer older => older.ulLastUpdateTime ≤ newer.ulLastUpdateTime

/-- A full cache gives up one listing, and none is older than it. -/
def EvictsOldest (pdc : LinkedCache) (nodes : List Address)
    (entries : List DirectoryCacheEntry) : Prop :=
  pdc.cEntries ≥ pdc.cMaxEntries → ∃ victim oldest kept, victim ∈ nodes ∧
    pdc.heap victim = some oldest ∧ pdc.dcEvict = some kept ∧ kept.heap victim = none ∧
    Visits kept.links.next kept.links.head (nodes.erase victim) ∧
    ∀ entry ∈ entries, oldest.ulLastUpdateTime ≤ entry.ulLastUpdateTime

section WellLinked

variable {ph} {shared : LinkedShared} {image : SharedCache} {nodes : List Address}
  {cache : DirectoryCache} {pdc : LinkedCache} {ulExpirationTime clock : UInt32}
  {cMaxEntries : Nat}

theorem allows_linkedSerial (shared : LinkedShared) (image : SharedCache) (call : SharedCall)
    (nodes : List Address) (abstracts : shared.Abstracts nodes image)
    (serial : LinkedSerial shared call) : Serial image call := by
  cases call with
  | writeBegin state cFiles =>
      have idle : shared.sessions = [] := serial
      change image.sessions = []
      rw [abstracts.written, idle]
      rfl
  | listFiles | findPath | invalidate | writeEntry | writeEnd | abandon => trivial

theorem oldest_of_concat {init : List DirectoryCacheEntry} {oldest entry : DirectoryCacheEntry}
    (ordered : (init ++ [oldest]).Pairwise fun newer older =>
      older.ulLastUpdateTime ≤ newer.ulLastUpdateTime)
    (member : entry ∈ init ++ [oldest]) : oldest.ulLastUpdateTime ≤ entry.ulLastUpdateTime := by
  rcases List.mem_append.mp member with inside | same
  · exact (List.pairwise_append.mp ordered).2.2 entry inside oldest List.mem_cons_self
  · rw [List.mem_singleton.mp same]
    exact UInt32.le_refl _

theorem LinkedCache.Represents.wellLinked (represents : pdc.Represents nodes cache)
    (bounded : cache.entries.length ≤ cMaxEntries)
    (ordered : cache.entries.Pairwise fun newer older =>
      older.ulLastUpdateTime ≤ newer.ulLastUpdateTime) :
    WellLinked cMaxEntries pdc nodes cache.entries where
  nodup := represents.spelled.nodup
  forward := represents.spelled.forward.visits represents.spelled.nodup
  backward :=
    represents.spelled.backward.visits (List.nodup_reverse.mpr represents.spelled.nodup)
  counted := represents.counted
  bounded := by
    rw [represents.counted, represents.content.length_eq]
    exact Int.ofNat_le.mpr bounded
  detached pdce absent := represents.spelled.detached absent
  content := represents.content
  ordered := ordered

theorem LinkedCache.Represents.evictsOldest (represents : pdc.Represents nodes cache)
    (room : 1 ≤ cache.cMaxEntries)
    (ordered : cache.entries.Pairwise fun newer older =>
      older.ulLastUpdateTime ≤ newer.ulLastUpdateTime) :
    EvictsOldest pdc nodes cache.entries := by
  intro full
  have filled : cache.cMaxEntries ≤ nodes.length := by
    have counted := represents.counted
    have limit := represents.cMaxEntries
    omega
  rcases List.eq_nil_or_concat nodes with empty | ⟨init, victim, split⟩
  · rw [empty, List.length_nil] at filled
    omega
  · rw [List.concat_eq_append] at split
    obtain ⟨kept, taken, -, freed, shrinks⟩ := represents.evicts split full
    have backwards := List.forall₂_reverse_iff.mpr represents.content
    rw [split, List.reverse_append, List.reverse_singleton, List.singleton_append] at backwards
    obtain ⟨oldest, newer, last, -, reversed⟩ := List.forall₂_cons_left_iff.mp backwards
    have listed : cache.entries = newer.reverse ++ [oldest] := by
      rw [← List.reverse_reverse cache.entries, reversed, List.reverse_cons]
    have absent : victim ∉ init := fun inside => by
      have apart := represents.spelled.nodup
      rw [split] at apart
      exact (List.nodup_append.mp apart).2.2 victim inside victim List.mem_cons_self rfl
    refine ⟨victim, oldest, kept, by simp [split], last, taken, freed, ?_, ?_⟩
    · rw [split, List.erase_append_right _ absent, List.erase_cons_head, List.append_nil]
      have spelled := shrinks.represents.spelled
      exact spelled.forward.visits spelled.nodup
    · intro entry member
      rw [listed] at member ordered
      exact oldest_of_concat ordered member

/-- In every state that non-overlapping sessions reach under a clock that does not go back,
the links spell one list in both directions, its length is counted and within bounds, what is
not in it has no links, and the listings get older from head to tail; a full cache so gives
up one of the oldest. -/
theorem evicts_oldest (fn : FilelistState → SmbwrpFileinfo → Program UInt32)
    (room : 1 ≤ cMaxEntries) {history : List (Taken Op SharedCall Unit)}
    (reached : Reaches (linkedStep ph fn) LinkedSerial
      (emptyLinked ulExpirationTime cMaxEntries) history shared)
    (forward : ((exchanges history).filterMap clockReading).Pairwise (· ≤ ·)) :
    ∃ nodes entries, WellLinked cMaxEntries shared.pdc nodes entries ∧
      EvictsOldest shared.pdc nodes entries ∧
      ∀ pdce, some pdce ∈ shared.sessions → pdce ∉ nodes := by
  obtain ⟨image, nodes, abstracts, there⟩ := reaches_abstracts allows_linkedSerial reached
  obtain ⟨orderly, aged⟩ := aged_reached room there forward
  obtain ⟨cache, listed, represents⟩ := abstracts.cached
  have created := Option.some.inj (listed.symm.trans orderly.pdc_eq)
  have limit : cache.cMaxEntries = cMaxEntries := by
    rw [created]
    rfl
  have held : tags image = (image.sessions.filterMap id).map listingTag ++
      cache.entries.map listingTag := by
    simp [tags, held, linked, listed]
  have bounded := orderly.bounded
  have ordered := aged.ordered
  rw [held, List.length_append, List.length_map, List.length_map] at bounded
  rw [held] at ordered
  have stamps := List.pairwise_map.mp (List.pairwise_append.mp ordered).2.1
  refine ⟨nodes, cache.entries, ?_, ?_, ?_⟩
  · exact represents.wellLinked (by omega) stamps
  · exact represents.evictsOldest (by omega) stamps
  · intro pdce session inside
    have writing : pdce ∈ shared.sessions.filterMap id := List.mem_filterMap.mpr ⟨_, session, rfl⟩
    exact (List.nodup_append.mp abstracts.apart).2.2 pdce writing pdce inside rfl

end WellLinked

theorem evicts_oldest_full :
    ∃ history shared, Reaches (linkedStep asciiPlatform noCallback) LinkedSerial
      (emptyLinked 10 1) history shared ∧ shared.pdc.cEntries = 1 ∧
      ∃ nodes entries, WellLinked 1 shared.pdc nodes entries ∧
        EvictsOldest shared.pdc nodes entries ∧
        ∀ pdce, some pdce ∈ shared.sessions → pdce ∉ nodes := by
  have created : Reaches (linkedStep asciiPlatform noCallback) LinkedSerial (emptyLinked 10 1) []
      (emptyLinked 10 1) := .start
  have begun := created.executed usualReplies (.writeBegin directoryState 128) () _ rfl rfl
  have ended := begun.executed usualReplies (.writeEnd 0) () _ trivial rfl
  refine ⟨_, _, ended, rfl, ?_⟩
  exact evicts_oldest noCallback (le_refl 1) ended (by decide)

end NdpSmb
