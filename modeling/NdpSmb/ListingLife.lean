import NdpSmb.SharedCache

/-!
The life of a listing where sessions do not overlap: what is written into it, and what
is found in it until it expires, is evicted or invalidated, or is begun anew.
-/

namespace NdpSmb

open ByteString Interaction

variable (ph : Platform)

/-- The call neither invalidates nor evicts the listing, and begins no session for it. -/
def Spares (pdce : DirectoryCacheEntry) (shared : SharedCache) : SharedCall → Prop
  | .invalidate path fParent => dcMatches ph (invalidatedPath path fParent) false pdce = false
  | .writeBegin state _ =>
      (∀ path, dcCreateDirPath state = some path → dcMatches ph path false pdce = false) ∧
        ∀ pdc, shared.pdc = some pdc → pdce ∈ unevicted pdc
  | _ => True

def SerialSparing (pdce : DirectoryCacheEntry) (shared : SharedCache) (call : SharedCall) : Prop :=
  Serial shared call ∧ Spares ph pdce shared call

def Unexpired (ulExpirationTime : UInt32) (pdce : DirectoryCacheEntry) (now : UInt32) : Prop :=
  now - pdce.ulLastUpdateTime < ulExpirationTime

def UnexpiredThroughout (ulExpirationTime : UInt32) (pdce : DirectoryCacheEntry)
    (trace : List CallEvent) : Prop :=
  ∀ event ∈ trace, ∀ now, clockReading event = some now → Unexpired ulExpirationTime pdce now

section Linked

variable {ph} {shared later : SharedCache} {call : SharedCall} {pdce : DirectoryCacheEntry}
  {path : CString} {ulExpirationTime : UInt32} {cMaxEntries : Nat}

theorem not_expired {now : UInt32} (young : Unexpired ulExpirationTime pdce now) :
    dceExpired now pdce ulExpirationTime = false := by
  simpa [dceExpired, Unexpired] using young

theorem linked_of_pdc {pdc : DirectoryCache} (cache : shared.pdc = some pdc) :
    linked shared.pdc = pdc.entries := by
  rw [cache]
  rfl

theorem SharedCache.Sound.expiration {pdc : DirectoryCache}
    (sound : shared.Sound ulExpirationTime cMaxEntries) (cache : shared.pdc = some pdc) :
    pdc.fEnabled = true ∧ pdc.ulExpirationTime = ulExpirationTime := by
  have created := Option.some.inj (cache.symm.trans sound.pdc_eq)
  rw [created]
  exact ⟨rfl, rfl⟩

theorem find_of_linked (orderly : shared.Orderly ph ulExpirationTime cMaxEntries)
    (member : pdce ∈ linked shared.pdc) (matched : dcMatches ph path false pdce = true)
    {pdc : DirectoryCache} (cache : shared.pdc = some pdc) :
    dcFindDirCache ph pdc path false = some pdce := by
  have apart := orderly.apart_linked
  rw [linked_of_pdc cache] at apart member
  exact Lookup.find?_of_mem alike_of_matches apart member matched

theorem lookup_of_linked (orderly : shared.Orderly ph ulExpirationTime cMaxEntries)
    (member : pdce ∈ linked shared.pdc) (matched : dcMatches ph path false pdce = true)
    {pdc : DirectoryCache} (cache : shared.pdc = some pdc) (name : CString) :
    dcLookup ph pdc path name =
      (pdce.aInfos.find? fun finfo => ph.SameName finfo.fname name).map fun finfo =>
        (finfo, pdce) := by
  have apart := orderly.apart_linked
  rw [linked_of_pdc cache] at apart member
  exact Lookup.findSome?_of_mem alike_of_matches apart member matched

theorem run_listFiles_found {pdc : DirectoryCache} (enabled : pdc.fEnabled = true)
    (found : dcFindDirCache ph pdc path false = some pdce)
    {state : FilelistState} (named : dcCreateDirPath state = some path)
    {fn : SmbwrpFileinfo → Program UInt32} {trace : List CallEvent}
    {answer : Option Nat × Option DirectoryCache}
    (run : Run (dircacheListFiles ph (some pdc) state fn) trace (some answer)) :
    ∃ now rest, trace = ⟨.timesec, now⟩ :: rest ∧ (Unexpired pdc.ulExpirationTime pdce now →
      Run (addEach fn pdce.aInfos) rest (some ()) ∧
        answer = (some pdce.aInfos.length, some pdc)) := by
  simp only [dircacheListFiles, named, dcRead, enabled, found, Bool.true_eq_false,
    Bool.false_eq_true, if_false] at run
  obtain ⟨first, second, middle, rfl, read, returned⟩ := run_bind_some_iff.mp run
  obtain ⟨now, rest, rfl, body⟩ := run_call_iff.mp read
  refine ⟨now, rest ++ second, rfl, fun young => ?_⟩
  change Run (if dceExpired now pdce pdc.ulExpirationTime = true then _ else _) rest _ at body
  rw [not_expired young, if_neg (by decide)] at body
  obtain ⟨called, counted, finished, rfl, calls, total⟩ := run_bind_some_iff.mp body
  obtain ⟨rfl, same⟩ := run_ret_iff.mp total
  obtain rfl := Option.some.inj same
  obtain ⟨rfl, same⟩ := run_ret_iff.mp returned
  obtain rfl := Option.some.inj same
  exact ⟨by simpa using calls, rfl⟩

theorem Moved.keeps (moved : Moved ph (Unexpired ulExpirationTime pdce) shared call later)
    (orderly : shared.Orderly ph ulExpirationTime cMaxEntries)
    (member : pdce ∈ linked shared.pdc) (spares : Spares ph pdce shared call) :
    pdce ∈ linked later.pdc := by
  cases call with
  | listFiles state =>
      obtain ⟨-, kept | ⟨path, pdc, other, now, -, cache, found, young, expired, dropped⟩⟩ := moved
      · rwa [kept]
      · rw [dropped]
        rw [linked_of_pdc cache] at member
        by_cases matched : dcMatches ph path false pdce = true
        · rw [← linked_of_pdc cache] at member
          rw [find_of_linked orderly member matched cache] at found
          obtain rfl := Option.some.inj found
          rw [(orderly.expiration cache).2, not_expired young] at expired
          exact Bool.noConfusion expired
        · exact (List.mem_eraseP_of_neg matched).mpr member
  | findPath path =>
      obtain rfl : later = shared := moved
      exact member
  | invalidate path fParent =>
      obtain rfl := moved
      rw [linked_dircacheInvalidate]
      have missed : dcMatches ph (invalidatedPath path fParent) false pdce = false := spares
      exact List.mem_filter.mpr ⟨member, by simp [missed]⟩
  | writeBegin state cFiles =>
      obtain ⟨missed, kept⟩ := spares
      obtain ⟨dircachectx, -, ⟨-, same | ⟨pdc, cache, left⟩⟩ |
        ⟨begun, path, pdc, -, named, cache, -, left⟩⟩ := moved
      · rwa [same]
      · rw [left]
        exact kept pdc cache
      · rw [left]
        refine (List.mem_eraseP_of_neg ?_).mpr (kept pdc cache)
        simp [missed path named]
  | writeEntry place finfo => rwa [moved.1]
  | writeEnd place =>
      obtain ⟨-, written, -, ⟨-, kept⟩ | ⟨-, cInfosAllocated, left⟩⟩ := moved
      · rwa [kept]
      · rw [left, orderly.pdc_eq]
        exact List.mem_cons_of_mem _ member
  | abandon place =>
      obtain rfl := moved
      exact member

def Supersedes (ph : Platform) (path : CString) (shared : SharedCache) : SharedCall → Prop
  | .writeEnd place => ∃ written, shared.sessions[place]? = some (some written) ∧
      written.fInvalid = false ∧ dcMatches ph path false written = true
  | _ => False

theorem Moved.keeps_first (moved : Moved ph (Unexpired ulExpirationTime pdce) shared call later)
    (sound : shared.Sound ulExpirationTime cMaxEntries)
    (first : (linked shared.pdc).find? (dcMatches ph path false) = some pdce)
    (spares : Spares ph pdce shared call) (kept : ¬ Supersedes ph path shared call) :
    (linked later.pdc).find? (dcMatches ph path false) = some pdce := by
  have member := List.mem_of_find?_eq_some first
  cases call with
  | listFiles state =>
      obtain ⟨-, same | ⟨other, pdc, found, now, -, cache, search, young, expired, dropped⟩⟩ := moved
      · rwa [same]
      · rw [dropped]
        rw [linked_of_pdc cache] at first
        apply Lookup.find?_eraseP first
        intro hit
        obtain rfl : found = pdce := Option.some.inj (search.symm.trans hit)
        rw [(sound.expiration cache).2, not_expired young] at expired
        exact Bool.noConfusion expired
  | findPath path =>
      obtain rfl : later = shared := moved
      exact first
  | invalidate other fParent =>
      obtain rfl := moved
      rw [linked_dircacheInvalidate]
      have missed : dcMatches ph (invalidatedPath other fParent) false pdce = false := spares
      apply Lookup.find?_filter_of_kept first
      simp [missed]
  | writeBegin state cFiles =>
      obtain ⟨missed, inside⟩ := spares
      have unevicted_first {pdc : DirectoryCache} (cache : shared.pdc = some pdc) :
          (unevicted pdc).find? (dcMatches ph path false) = some pdce := by
        obtain ⟨rest, whole⟩ := unevicted_append pdc
        rw [linked_of_pdc cache, ← whole] at first
        exact Lookup.find?_of_append first (inside pdc cache)
      obtain ⟨dircachectx, -, ⟨-, same | ⟨pdc, cache, left⟩⟩ |
        ⟨begun, other, pdc, -, named, cache, -, left⟩⟩ := moved
      · rwa [same]
      · rw [left]
        exact unevicted_first cache
      · rw [left]
        apply Lookup.find?_eraseP (unevicted_first cache)
        intro hit
        have matched := List.find?_some hit
        rw [missed other named] at matched
        exact Bool.noConfusion matched
  | writeEntry place finfo => rwa [moved.1]
  | writeEnd place =>
      obtain ⟨-, written, used, ⟨-, same⟩ | ⟨valid, cInfosAllocated, left⟩⟩ := moved
      · rwa [same]
      · rw [left, sound.pdc_eq]
        have passed : ¬ dcMatches ph path false { written with cInfosAllocated } = true := by
          intro matched
          exact kept ⟨written, used, valid, matched⟩
        change ({ written with cInfosAllocated } :: linked shared.pdc).find? _ = _
        rw [List.find?_cons_of_neg passed]
        exact first
  | abandon place =>
      obtain rfl := moved
      exact first

theorem stays_first {fn : FilelistState → SmbwrpFileinfo → Program UInt32}
    {history : List (Taken Op SharedCall Unit)}
    (sound : shared.Sound ulExpirationTime cMaxEntries)
    (first : (linked shared.pdc).find? (dcMatches ph path false) = some pdce)
    (reached : Reaches (sharedStep ph fn)
      (fun shared call => Spares ph pdce shared call ∧ ¬ Supersedes ph path shared call)
      shared history later)
    (young : UnexpiredThroughout ulExpirationTime pdce (exchanges history)) :
    later.Sound ulExpirationTime cMaxEntries ∧
      (linked later.pdc).find? (dcMatches ph path false) = some pdce := by
  let watch := clockWatch fun _ now => Unexpired ulExpirationTime pdce now
  have admitted : watch.Admits 0 (exchanges history) :=
    Watch.admits_of_forall _ fun event inside _ => young event inside
  have kept : ∀ (state : SharedCache) (last : UInt32) (call : SharedCall),
      state.Sound ulExpirationTime cMaxEntries ∧
        (linked state.pdc).find? (dcMatches ph path false) = some pdce →
      Spares ph pdce state call ∧ ¬ Supersedes ph path state call →
      watch.Ensures (fun result _ => result.2.Sound ulExpirationTime cMaxEntries ∧
        (linked result.2.pdc).find? (dcMatches ph path false) = some pdce)
        (sharedStep ph fn state call) last := by
    rintro state last call ⟨sound, first⟩ ⟨spares, alone⟩
    refine (ensures_sharedStep fn state call).mono fun result latest moved => ?_
    exact ⟨sound.moved moved,
      (moved.mono fun _ reading => reading.1).keeps_first sound first spares alone⟩
  exact watch.reaches_invariant ⟨sound, first⟩ kept reached admitted

theorem stays_linked {fn : FilelistState → SmbwrpFileinfo → Program UInt32}
    {history : List (Taken Op SharedCall Unit)}
    (orderly : shared.Orderly ph ulExpirationTime cMaxEntries) (room : 1 ≤ cMaxEntries)
    (member : pdce ∈ linked shared.pdc)
    (reached : Reaches (sharedStep ph fn) (SerialSparing ph pdce) shared history later)
    (young : UnexpiredThroughout ulExpirationTime pdce (exchanges history)) :
    later.Orderly ph ulExpirationTime cMaxEntries ∧ pdce ∈ linked later.pdc := by
  let watch := clockWatch fun _ now => Unexpired ulExpirationTime pdce now
  have admitted : watch.Admits 0 (exchanges history) :=
    Watch.admits_of_forall _ fun event inside _ => young event inside
  have kept : ∀ (state : SharedCache) (last : UInt32) (call : SharedCall),
      state.Orderly ph ulExpirationTime cMaxEntries ∧ pdce ∈ linked state.pdc →
      SerialSparing ph pdce state call →
      watch.Ensures (fun result _ => result.2.Orderly ph ulExpirationTime cMaxEntries ∧
        pdce ∈ linked result.2.pdc) (sharedStep ph fn state call) last := by
    rintro state last call ⟨orderly, member⟩ ⟨serial, spares⟩
    refine (ensures_sharedStep fn state call).mono fun result latest moved => ?_
    exact ⟨orderly.moved room serial moved,
      (moved.mono fun _ reading => reading.1).keeps orderly member spares⟩
  exact watch.reaches_invariant ⟨orderly, member⟩ kept reached admitted

end Linked

/-! What a session writes. -/

def reallocReply : CallEvent → Option Bool
  | ⟨.realloc _, ok⟩ => some ok
  | _ => none

def GrowthFails (trace : List CallEvent) : Prop :=
  ∃ event ∈ trace, reallocReply event = some false

instance (trace : List CallEvent) : Decidable (GrowthFails trace) :=
  inferInstanceAs (Decidable (∃ event ∈ trace, reallocReply event = some false))

theorem not_growthFails_nil : ¬ GrowthFails [] := by simp [GrowthFails]

theorem growthFails_append {first second : List CallEvent} :
    GrowthFails (first ++ second) ↔ GrowthFails first ∨ GrowthFails second := by
  simp [GrowthFails, or_and_right, exists_or]

/-- The same listing, with more entries unless one of them was lost. -/
structure Extends (infos : List SmbwrpFileinfo) (lost : Prop)
    (pdce later : DirectoryCacheEntry) : Prop where
  tag : listingTag later = listingTag pdce
  whole : ¬ lost → later.fInvalid = pdce.fInvalid ∧ later.aInfos = pdce.aInfos ++ infos
  invalid : lost ∨ pdce.fInvalid = true → later.fInvalid = true

section Extends

variable {pdce middle later : DirectoryCacheEntry} {first second : List SmbwrpFileinfo}
  {lost other : Prop}

theorem Extends.refl (pdce : DirectoryCacheEntry) (kept : ¬ lost) : Extends [] lost pdce pdce :=
  ⟨rfl, fun _ => ⟨rfl, by simp⟩, fun either => either.resolve_left kept⟩

theorem Extends.trans (begin : Extends first lost pdce middle)
    (rest : Extends second other middle later) :
    Extends (first ++ second) (lost ∨ other) pdce later where
  tag := rest.tag.trans begin.tag
  whole kept := by
    obtain ⟨keptFirst, keptSecond⟩ := not_or.mp kept
    obtain ⟨valid, written⟩ := begin.whole keptFirst
    obtain ⟨validLater, writtenLater⟩ := rest.whole keptSecond
    exact ⟨validLater.trans valid, by rw [writtenLater, written, List.append_assoc]⟩
  invalid either := by
    rcases either with (first | second) | already
    · exact rest.invalid (.inr (begin.invalid (.inl first)))
    · exact rest.invalid (.inl second)
    · exact rest.invalid (.inr (begin.invalid (.inr already)))

theorem Extends.congr (same : lost ↔ other) (extended : Extends first lost pdce later) :
    Extends first other pdce later :=
  ⟨extended.tag, fun kept => extended.whole (mt same.mp kept),
    fun either => extended.invalid (either.imp same.mpr id)⟩

end Extends

theorem run_dceWriteEntry {pdce written : DirectoryCacheEntry} {finfo : SmbwrpFileinfo}
    {trace : List CallEvent} (run : Run (dceWriteEntry pdce finfo) trace (some written)) :
    Extends [finfo] (GrowthFails trace) pdce written := by
  unfold dceWriteEntry at run
  split at run
  · obtain ⟨grown, rest, rfl, ended⟩ := run_call_iff.mp run
    cases grown with
    | true =>
        obtain ⟨rfl, same⟩ := run_ret_iff.mp ended
        obtain rfl := Option.some.inj same
        have kept : ¬ GrowthFails [(⟨.realloc ((pdce.cInfosAllocated + pdce.cInfosAllocated / 2 +
            1) * sizeofFileinfo), true⟩ : CallEvent)] := by simp [GrowthFails, reallocReply]
        exact ⟨rfl, fun _ => ⟨rfl, rfl⟩, fun either => either.resolve_left kept⟩
    | false =>
        obtain ⟨rfl, same⟩ := run_ret_iff.mp ended
        obtain rfl := Option.some.inj same
        have failed : GrowthFails [(⟨.realloc ((pdce.cInfosAllocated + pdce.cInfosAllocated / 2 +
            1) * sizeofFileinfo), false⟩ : CallEvent)] := by simp [GrowthFails, reallocReply]
        exact ⟨rfl, fun kept => absurd failed kept, fun _ => rfl⟩
  · obtain ⟨rfl, same⟩ := run_ret_iff.mp run
    obtain rfl := Option.some.inj same
    exact ⟨rfl, fun _ => ⟨rfl, rfl⟩, fun either => either.resolve_left not_growthFails_nil⟩

theorem run_writeEntries {infos : List SmbwrpFileinfo} {pdce : DirectoryCacheEntry}
    {trace : List CallEvent} {dircachectx : Option DirectoryCacheEntry}
    (run : Run (writeEntries (some pdce) infos) trace (some dircachectx)) :
    ∃ written, dircachectx = some written ∧ Extends infos (GrowthFails trace) pdce written := by
  induction infos generalizing pdce trace with
  | nil =>
      obtain ⟨rfl, same⟩ := run_ret_iff.mp run
      obtain rfl := Option.some.inj same
      exact ⟨pdce, rfl, .refl pdce not_growthFails_nil⟩
  | cons finfo rest ih =>
      obtain ⟨first, second, next, rfl, one, others⟩ := run_bind_some_iff.mp run
      obtain ⟨writing, returned, written, rfl, wrote, kept⟩ := run_bind_some_iff.mp one
      obtain ⟨rfl, same⟩ := run_ret_iff.mp kept
      obtain rfl := Option.some.inj same
      obtain ⟨last, rfl, extended⟩ := ih others
      refine ⟨last, rfl, ((run_dceWriteEntry wrote).trans extended).congr ?_⟩
      simp [growthFails_append]

def DuringSession (_ : SharedCache) : SharedCall → Prop
  | .writeBegin _ _ | .writeEnd _ | .abandon _ => False
  | _ => True

def writtenInfo : SharedCall → Option SmbwrpFileinfo
  | .writeEntry _ finfo => some finfo
  | _ => none

def writtenInfos (history : List (Taken Op SharedCall Unit)) : List SmbwrpFileinfo :=
  history.filterMap fun taken => writtenInfo taken.label

def LosesEntry (history : List (Taken Op SharedCall Unit)) : Prop :=
  ∃ taken ∈ history, writtenInfo taken.label ≠ none ∧ GrowthFails taken.trace

instance (history : List (Taken Op SharedCall Unit)) : Decidable (LosesEntry history) :=
  inferInstanceAs (Decidable (∃ taken ∈ history,
    writtenInfo taken.label ≠ none ∧ GrowthFails taken.trace))

theorem losesEntry_snoc {history : List (Taken Op SharedCall Unit)}
    {taken : Taken Op SharedCall Unit} :
    LosesEntry (history ++ [taken]) ↔
      LosesEntry history ∨ writtenInfo taken.label ≠ none ∧ GrowthFails taken.trace := by
  simp only [LosesEntry, List.mem_append, List.mem_singleton, or_and_right, exists_or,
    exists_eq_left]

theorem Moved.sessions_eq {ph : Platform} {read : UInt32 → Prop} {shared later : SharedCache}
    {call : SharedCall} (moved : Moved ph read shared call later)
    (during : DuringSession shared call) (unwritten : writtenInfo call = none) :
    later.sessions = shared.sessions := by
  cases call with
  | listFiles state => exact moved.1
  | findPath path =>
      obtain rfl : later = shared := moved
      rfl
  | invalidate path fParent =>
      obtain rfl := moved
      rfl
  | writeEntry place finfo => simp [writtenInfo] at unwritten
  | writeBegin | writeEnd | abandon => exact absurd during id

theorem session_extends {ph : Platform} {fn : FilelistState → SmbwrpFileinfo → Program UInt32}
    {begun full : SharedCache} {dircachectx : Option DirectoryCacheEntry}
    {history : List (Taken Op SharedCall Unit)} (single : begun.sessions = [dircachectx])
    (reached : Reaches (sharedStep ph fn) DuringSession begun history full) :
    ∃ later, full.sessions = [later] ∧ ∀ written, later = some written → ∃ pdce,
      dircachectx = some pdce ∧ Extends (writtenInfos history) (LosesEntry history) pdce written := by
  induction reached with
  | start =>
      refine ⟨dircachectx, single, fun written same => ⟨written, same, .refl written ?_⟩⟩
      simp [LosesEntry]
  | @step history state call trace answer next before during run ih =>
      obtain ⟨context, only, extended⟩ := ih
      by_cases unwritten : writtenInfo call = none
      · have moved := (returns_sharedStep fn state call).run run
        have infos : writtenInfos (history ++ [⟨call, trace, answer⟩]) = writtenInfos history := by
          simp [writtenInfos, unwritten]
        refine ⟨context, (moved.sessions_eq during unwritten).trans only, fun written same => ?_⟩
        obtain ⟨pdce, opened, extended⟩ := extended written same
        refine ⟨pdce, opened, ?_⟩
        rw [infos]
        refine extended.congr ?_
        simp [losesEntry_snoc, unwritten]
      · cases call with
        | writeEntry place finfo =>
            simp only [sharedStep] at run
            split at run
            · simp at run
            · rename_i used
              have alone : state.sessions.length ≤ 1 := by simp [only]
              obtain ⟨same, rfl⟩ := sessions_of_single alone used
              obtain rfl := List.singleton_inj.mp (only.symm.trans same)
              obtain ⟨first, second, result, rfl, one, returned⟩ := run_bind_some_iff.mp run
              obtain ⟨rfl, answered⟩ := run_ret_iff.mp returned
              obtain ⟨rfl, rfl⟩ := Prod.mk.inj (Option.some.inj answered)
              refine ⟨result, by simp [only], ?_⟩
              rintro written rfl
              cases context with
              | none => simp [dircacheWriteEntry] at one
              | some earlier =>
                  obtain ⟨writing, ended, later, rfl, wrote, kept⟩ := run_bind_some_iff.mp one
                  obtain ⟨rfl, stored⟩ := run_ret_iff.mp kept
                  obtain rfl := Option.some.inj (Option.some.inj stored)
                  obtain ⟨pdce, opened, extended⟩ := extended earlier rfl
                  refine ⟨pdce, opened, ?_⟩
                  simp only [List.append_nil]
                  have infos : writtenInfos (history ++ [⟨.writeEntry 0 finfo, writing, ()⟩]) =
                      writtenInfos history ++ [finfo] := by simp [writtenInfos, writtenInfo]
                  rw [infos]
                  refine (extended.trans (run_dceWriteEntry wrote)).congr ?_
                  simp [losesEntry_snoc, writtenInfo]
        | listFiles | findPath | invalidate | writeBegin | writeEnd | abandon =>
            exact absurd rfl unwritten

theorem Moved.links {ph : Platform} {read : UInt32 → Prop} {shared later : SharedCache}
    {place : Nat} {written : DirectoryCacheEntry} {ulExpirationTime : UInt32} {cMaxEntries : Nat}
    (moved : Moved ph read shared (.writeEnd place) later)
    (sound : shared.Sound ulExpirationTime cMaxEntries)
    (used : shared.sessions[place]? = some (some written)) (valid : written.fInvalid = false) :
    ∃ listing, linked later.pdc = listing :: linked shared.pdc ∧
      listingTag listing = listingTag written ∧ listing.aInfos = written.aInfos := by
  obtain ⟨-, other, same, ⟨invalid, -⟩ | ⟨-, cInfosAllocated, left⟩⟩ := moved
  · obtain rfl := Option.some.inj (Option.some.inj (used.symm.trans same))
    rw [valid] at invalid
    exact Bool.noConfusion invalid
  · obtain rfl := Option.some.inj (Option.some.inj (used.symm.trans same))
    rw [sound.pdc_eq] at left
    exact ⟨{ written with cInfosAllocated }, by rw [left]; rfl, rfl, rfl⟩

theorem eq_timesec {event : CallEvent} {now : UInt32} (reading : clockReading event = some now) :
    event = ⟨.timesec, now⟩ := by
  obtain ⟨op, reply⟩ := event
  cases op with
  | timesec =>
      obtain rfl := Option.some.inj reading
      rfl
  | _ => simp [clockReading] at reading

/-- A listing as a session begins with it: empty, and stamped with a reading of the clock. -/
structure NewlyBegun (ph : Platform) (path : CString) (trace : List CallEvent)
    (pdce : DirectoryCacheEntry) : Prop where
  matched : dcMatches ph path false pdce = true
  empty : pdce.aInfos = []
  valid : pdce.fInvalid = false
  read : (⟨.timesec, pdce.ulLastUpdateTime⟩ : CallEvent) ∈ trace

/-- A session that has begun has its listing, and the cache has what it kept of the others. -/
theorem run_writeBegin_begins {ph : Platform}
    {fn : FilelistState → SmbwrpFileinfo → Program UInt32}
    {start begun : SharedCache} {state : FilelistState} {cFiles : Nat} {path : CString}
    {trace : List CallEvent} {ulExpirationTime : UInt32} {cMaxEntries : Nat}
    (sound : start.Sound ulExpirationTime cMaxEntries) (named : dcCreateDirPath state = some path)
    (run : Run (sharedStep ph fn start (.writeBegin state cFiles)) trace (some ((), begun))) :
    ∃ dircachectx, begun.sessions = start.sessions ++ [dircachectx] ∧
      ∀ pdce, dircachectx = some pdce → NewlyBegun ph path trace pdce ∧
        ∃ pdc, start.pdc = some pdc ∧ begun.pdc = some { pdc with
          entries := (unevicted pdc).eraseP (dcMatches ph path false) } := by
  let read (_ now : UInt32) : Prop := (⟨.timesec, now⟩ : CallEvent) ∈ trace
  have readings : (clockWatch read).Admits 0 trace := by
    refine Watch.admits_of_forall _ fun event inside _ now reading => ?_
    rw [eq_timesec reading] at inside
    exact inside
  obtain ⟨dircachectx, sessions, began⟩ :=
    (ensures_sharedStep fn start (.writeBegin state cFiles)).run run readings
  refine ⟨dircachectx, sessions, ?_⟩
  rintro pdce rfl
  rcases began with ⟨absent, -⟩ | ⟨other, found, pdc, same, namedBegun, cache, start, left⟩
  · simp at absent
  · obtain rfl := Option.some.inj same
    obtain rfl := Option.some.inj (named.symm.trans namedBegun)
    refine ⟨⟨start.matched, start.empty, ?_, start.stamped.1⟩, pdc, cache, left⟩
    rcases start.source with ⟨-, -, valid⟩ | ⟨cached, inside, -, -, valid⟩
    · exact valid
    · rw [valid]
      refine sound.valid cached ?_
      rw [linked_of_pdc cache]
      exact (sublist_unevicted pdc).subset inside

theorem run_dircacheWriteEnd {cache : DirectoryCache} {written : DirectoryCacheEntry}
    {trace : List CallEvent} {later : Option DirectoryCache}
    (run : Run (dircacheWriteEnd (some cache) (some written)) trace (some later)) :
    written.fInvalid = true ∧ later = some cache ∨ written.fInvalid = false ∧
      ∃ cInfosAllocated, later = some (dcInsertEntry cache { written with cInfosAllocated }) := by
  simp only [dircacheWriteEnd] at run
  split at run
  · rename_i invalid
    obtain ⟨-, same⟩ := run_ret_iff.mp run
    exact .inl ⟨invalid, Option.some.inj same⟩
  · rename_i valid
    obtain ⟨first, second, adjusted, -, adjusting, ended⟩ := run_bind_some_iff.mp run
    obtain ⟨cInfosAllocated, rfl⟩ := (returns_dceAdjust written).run adjusting
    obtain ⟨-, same⟩ := run_ret_iff.mp ended
    exact .inr ⟨by simpa using valid, cInfosAllocated, Option.some.inj same⟩

theorem run_writeBegin_step {ph : Platform} {fn : FilelistState → SmbwrpFileinfo → Program UInt32}
    {start begun : SharedCache} {state : FilelistState} {cFiles : Nat} {path : CString}
    {trace : List CallEvent} {ulExpirationTime : UInt32} {cMaxEntries : Nat}
    (orderly : start.Orderly ph ulExpirationTime cMaxEntries) (room : 1 ≤ cMaxEntries)
    (idle : start.sessions = []) (named : dcCreateDirPath state = some path)
    (run : Run (sharedStep ph fn start (.writeBegin state cFiles)) trace (some ((), begun))) :
    begun.Orderly ph ulExpirationTime cMaxEntries ∧ ∃ dircachectx, begun.sessions = [dircachectx] ∧
      ∀ pdce, dircachectx = some pdce → NewlyBegun ph path trace pdce := by
  have serial : Serial start (.writeBegin state cFiles) := idle
  have opened := (returns_sharedStep fn start (.writeBegin state cFiles)).run run
  refine ⟨orderly.moved room serial opened, ?_⟩
  obtain ⟨dircachectx, sessions, fresh⟩ := run_writeBegin_begins orderly.toSound named run
  refine ⟨dircachectx, by rw [sessions, idle, List.nil_append], ?_⟩
  intro pdce same
  exact (fresh pdce same).1

end NdpSmb
