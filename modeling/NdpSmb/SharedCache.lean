import NdpSmb.CacheLookup

/-!
The cache as several threads use it, one step for each `dircache_*` call. A listing
that is being written is out of the cache from its begin to its end.
-/

namespace NdpSmb

open ByteString Interaction

variable (ph : Platform)

/-- `sessions` are the contexts that were begun and are neither ended nor given up. -/
structure SharedCache where
  pdc : Option DirectoryCache
  sessions : List (Option DirectoryCacheEntry) := []
  deriving DecidableEq

/-- A context is named by its place among those in use. -/
inductive SharedCall
  | listFiles (state : FilelistState)
  | findPath (path : CString)
  | invalidate (path : CString) (fParent : Bool)
  | writeBegin (state : FilelistState) (cFiles : Nat)
  | writeEntry (place : Nat) (finfo : SmbwrpFileinfo)
  | writeEnd (place : Nat)
  | abandon (place : Nat)

/-- A context that is not in use is not passed to the cache. -/
def sharedStep (fn : FilelistState → SmbwrpFileinfo → Program UInt32) (shared : SharedCache) :
    SharedCall → Program (Unit × SharedCache)
  | .listFiles state => do
      let (_, pdc) ← dircacheListFiles ph shared.pdc state (fn state)
      pure ((), { shared with pdc })
  | .findPath path => do
      let _ ← dircacheFindPath ph shared.pdc path
      pure ((), shared)
  | .invalidate path fParent =>
      pure ((), { shared with pdc := dircacheInvalidate ph path shared.pdc fParent })
  | .writeBegin state cFiles => do
      let (dircachectx, pdc) ← dircacheWriteBegin ph shared.pdc state cFiles
      pure ((), { pdc, sessions := shared.sessions ++ [dircachectx] })
  | .writeEntry place finfo =>
      match shared.sessions[place]? with
      | none => .fault
      | some dircachectx => do
          let dircachectx ← dircacheWriteEntry dircachectx finfo
          pure ((), { shared with sessions := shared.sessions.set place dircachectx })
  | .writeEnd place =>
      match shared.sessions[place]? with
      | none => .fault
      | some dircachectx => do
          let pdc ← dircacheWriteEnd shared.pdc dircachectx
          pure ((), { pdc, sessions := shared.sessions.eraseIdx place })
  | .abandon place => pure ((), { shared with sessions := shared.sessions.eraseIdx place })

def Interleaved (_ : SharedCache) (_ : SharedCall) : Prop := True

/-- A session begins when no other one is under way, as where the plugin's mutex is held over
each of its calls (`LIBSMB_THREAD_SAFE=0`). -/
def Serial (shared : SharedCache) : SharedCall → Prop
  | .writeBegin _ _ => shared.sessions = []
  | _ => True

/-! What one call can do. -/

def clockReading : CallEvent → Option UInt32
  | ⟨.timesec, now⟩ => some now
  | _ => none

def clockWatch (allowed : UInt32 → UInt32 → Prop) : Watch Op UInt32 where
  observe last event := (clockReading event).getD last
  admits last event := ∀ now, clockReading event = some now → allowed last now

def limits (pdc : Option DirectoryCache) : Option DirectoryCache :=
  pdc.map fun pdc => { pdc with entries := [] }

def unevicted (pdc : DirectoryCache) : List DirectoryCacheEntry :=
  if pdc.entries.length ≥ pdc.cMaxEntries then pdc.entries.dropLast else pdc.entries

/-- The listing that a session begins with; `read` are the readings of the clock. -/
structure Begun (read : UInt32 → Prop) (path : CString) (kept : List DirectoryCacheEntry)
    (pdce : DirectoryCacheEntry) : Prop where
  matched : dcMatches ph path false pdce = true
  stamped : read pdce.ulLastUpdateTime
  empty : pdce.aInfos = []
  source : pdce.pszPath = path ∧ pdce.ulHash = computehash path ∧ pdce.fInvalid = false ∨
    ∃ cached ∈ kept, pdce.pszPath = cached.pszPath ∧ pdce.ulHash = cached.ulHash ∧
      pdce.fInvalid = cached.fInvalid

structure Wrote (finfo : SmbwrpFileinfo) (pdce later : DirectoryCacheEntry) : Prop where
  pszPath : later.pszPath = pdce.pszPath
  ulHash : later.ulHash = pdce.ulHash
  stamped : later.ulLastUpdateTime = pdce.ulLastUpdateTime
  written : later.fInvalid = pdce.fInvalid ∧ later.aInfos = pdce.aInfos ++ [finfo] ∨
    later.fInvalid = true ∧ later.aInfos = pdce.aInfos

def Moved (read : UInt32 → Prop) (shared : SharedCache) : SharedCall → SharedCache → Prop
  | .listFiles state, later => later.sessions = shared.sessions ∧
      (later.pdc = shared.pdc ∨ ∃ path pdc pdce now, dcCreateDirPath state = some path ∧
        shared.pdc = some pdc ∧ dcFindDirCache ph pdc path false = some pdce ∧ read now ∧
        dceExpired now pdce pdc.ulExpirationTime = true ∧
        later.pdc = some (dcRemoveFound ph pdc path false))
  | .findPath _, later => later = shared
  | .invalidate path fParent, later =>
      later = { shared with pdc := dircacheInvalidate ph path shared.pdc fParent }
  | .writeBegin state _, later => ∃ dircachectx,
      later.sessions = shared.sessions ++ [dircachectx] ∧
      (dircachectx = none ∧ (later.pdc = shared.pdc ∨ ∃ pdc, shared.pdc = some pdc ∧
          later.pdc = some { pdc with entries := unevicted pdc }) ∨
        ∃ pdce path pdc, dircachectx = some pdce ∧ dcCreateDirPath state = some path ∧
          shared.pdc = some pdc ∧ Begun ph read path (unevicted pdc) pdce ∧
          later.pdc = some { pdc with
            entries := (unevicted pdc).eraseP (dcMatches ph path false) })
  | .writeEntry place finfo, later => later.pdc = shared.pdc ∧
      (later.sessions = shared.sessions ∨
        ∃ pdce written, shared.sessions[place]? = some (some pdce) ∧ Wrote finfo pdce written ∧
          later.sessions = shared.sessions.set place (some written))
  | .writeEnd place, later => later.sessions = shared.sessions.eraseIdx place ∧
      ∃ pdce, shared.sessions[place]? = some (some pdce) ∧
        (pdce.fInvalid = true ∧ later.pdc = shared.pdc ∨
          pdce.fInvalid = false ∧ ∃ cInfosAllocated, later.pdc = shared.pdc.map fun pdc =>
            dcInsertEntry pdc { pdce with cInfosAllocated })
  | .abandon place, later =>
      later = { shared with sessions := shared.sessions.eraseIdx place }

section Steps

variable {ph} {allowed : UInt32 → UInt32 → Prop} {last : UInt32}

theorem clocked_dcRead (pdc : DirectoryCache) (path : CString)
    (fn : SmbwrpFileinfo → Program UInt32) :
    (clockWatch allowed).Ensures
      (fun answer later => answer.2 = pdc ∨ ∃ pdce now,
        dcFindDirCache ph pdc path false = some pdce ∧ (allowed last now ∧ later = now) ∧
        dceExpired now pdce pdc.ulExpirationTime = true ∧
        answer.2 = dcRemoveFound ph pdc path false)
      (dcRead ph pdc path fn false) last := by
  unfold dcRead
  split
  · exact .inl rfl
  · split
    · exact .inl rfl
    · rename_i pdce found
      rw [if_neg (by decide)]
      refine Watch.ensures_perform_bind.mpr fun now reading => ?_
      split
      · rename_i expired
        exact .inr ⟨pdce, now, found, ⟨reading now rfl, rfl⟩, expired, rfl⟩
      · refine Watch.ensures_bind.mpr (Watch.ensures_of_forall (fun _ => trivial) ?_)
        exact fun _ _ => .inl rfl

theorem clocked_dceCreate (path : CString) (cFiles : Nat) :
    (clockWatch allowed).Ensures
      (fun created later => later = last ∧ ∀ pdce, created = some pdce → pdce.pszPath = path ∧
        pdce.ulHash = computehash path ∧ pdce.aInfos = [] ∧ pdce.fInvalid = false)
      (dceCreate path cFiles) last := by
  refine Watch.ensures_perform_bind.mpr fun entry _ => ?_
  split
  · exact ⟨rfl, by simp⟩
  · refine Watch.ensures_perform_bind.mpr fun infos _ => ?_
    split
    · exact ⟨rfl, by simp⟩
    · refine Watch.ensures_perform_bind.mpr fun copy _ => ?_
      split
      · trivial
      · refine ⟨rfl, fun pdce same => ?_⟩
        obtain rfl := Option.some.inj same
        exact ⟨rfl, rfl, rfl, rfl⟩

theorem matched_of_path {path : CString} {pdce : DirectoryCacheEntry}
    (pszPath : pdce.pszPath = path) (ulHash : pdce.ulHash = computehash path) :
    dcMatches ph path false pdce = true := by
  refine (dcMatches_iff ph).mpr ⟨ulHash, ?_⟩
  rw [pszPath]
  exact FoldEq.refl path

theorem clocked_dcWriteBegin (pdc : DirectoryCache) (path : CString) (cFiles : Nat) :
    (clockWatch allowed).Ensures
      (fun answer later => (answer.1 = none ∧ answer.2 = pdc) ∨ ∃ pdce, answer.1 = some pdce ∧
        Begun ph (fun now => allowed last now ∧ later = now) path pdc.entries pdce ∧
        answer.2 = dcRemoveFound ph pdc path false)
      (dcWriteBegin ph pdc path cFiles) last := by
  unfold dcWriteBegin
  split
  · exact .inl ⟨rfl, rfl⟩
  · unfold dcWriteStart
    split
    · rename_i missing
      refine Watch.ensures_bind.mpr (Watch.ensures_bind.mpr ((clocked_dceCreate path cFiles).mono ?_))
      rintro created _ ⟨rfl, fresh⟩
      cases created with
      | none => exact .inl ⟨rfl, rfl⟩
      | some pdce =>
          obtain ⟨pszPath, ulHash, empty, valid⟩ := fresh pdce rfl
          refine fun now reading => .inr ⟨_, rfl, ⟨?_, ⟨reading now rfl, rfl⟩, empty, ?_⟩, ?_⟩
          · exact matched_of_path pszPath ulHash
          · exact .inl ⟨pszPath, ulHash, valid⟩
          · have whole : pdc.entries.eraseP (dcMatches ph path false) = pdc.entries :=
              List.eraseP_of_forall_not (List.find?_eq_none.mp missing)
            simp [dcRemoveFound, whole]
    · rename_i cached found
      have matched : dcMatches ph path false cached = true := List.find?_some found
      refine fun now reading => .inr ⟨_, rfl, ⟨?_, ⟨reading now rfl, rfl⟩, rfl, ?_⟩, rfl⟩
      · exact matched
      · exact .inr ⟨cached, List.mem_of_find?_eq_some found, rfl, rfl, rfl⟩

theorem dcEvict_eq_some {pdc kept : DirectoryCache} (evicted : dcEvict pdc = some kept) :
    kept = { pdc with entries := unevicted pdc } := by
  unfold dcEvict at evicted
  unfold unevicted
  split at evicted
  · rename_i full
    split at evicted
    · simp at evicted
    · obtain rfl := Option.some.inj evicted
      rw [if_pos full]
  · rename_i room
    obtain rfl := Option.some.inj evicted
    rw [if_neg room]

theorem sublist_unevicted (pdc : DirectoryCache) : (unevicted pdc).Sublist pdc.entries := by
  unfold unevicted
  split
  · exact List.dropLast_sublist _
  · exact List.Sublist.refl _

theorem unevicted_append (pdc : DirectoryCache) : ∃ rest, unevicted pdc ++ rest = pdc.entries := by
  unfold unevicted
  split
  · obtain ⟨rest, whole⟩ := List.dropLast_prefix pdc.entries
    exact ⟨rest, whole⟩
  · exact ⟨[], List.append_nil _⟩

theorem returns_dceWriteEntry (pdce : DirectoryCacheEntry) (finfo : SmbwrpFileinfo) :
    (dceWriteEntry pdce finfo).Returns (Wrote finfo pdce) := by
  unfold dceWriteEntry
  split
  · refine Prog.returns_perform_bind.mpr fun grown => ?_
    split
    · exact ⟨rfl, rfl, rfl, .inl ⟨rfl, rfl⟩⟩
    · exact ⟨rfl, rfl, rfl, .inr ⟨rfl, rfl⟩⟩
  · exact ⟨rfl, rfl, rfl, .inl ⟨rfl, rfl⟩⟩

theorem returns_dceAdjust (pdce : DirectoryCacheEntry) :
    (dceAdjust pdce).Returns fun adjusted => ∃ cInfosAllocated,
      adjusted = { pdce with cInfosAllocated } := by
  simp only [dceAdjust]
  split
  · refine Prog.returns_perform_bind.mpr fun shrunk => ?_
    split
    · exact ⟨_, rfl⟩
    · exact ⟨_, rfl⟩
  · exact ⟨_, rfl⟩

theorem ensures_sharedStep (fn : FilelistState → SmbwrpFileinfo → Program UInt32)
    (shared : SharedCache) (call : SharedCall) :
    (clockWatch allowed).Ensures
      (fun result later =>
        Moved ph (fun now => allowed last now ∧ later = now) shared call result.2)
      (sharedStep ph fn shared call) last := by
  obtain ⟨pdc, sessions⟩ := shared
  cases call with
  | listFiles state =>
      refine Watch.ensures_bind.mpr ?_
      unfold dircacheListFiles
      cases named : dcCreateDirPath state with
      | none => exact ⟨rfl, .inl rfl⟩
      | some path =>
          cases pdc with
          | none => exact ⟨rfl, .inl rfl⟩
          | some pdc =>
              apply (clocked_dcRead pdc path (fn state)).bind
              rintro answer later (kept | ⟨pdce, now, found, reading, expired, dropped⟩)
              · exact ⟨rfl, .inl (congrArg some kept)⟩
              · exact ⟨rfl, .inr ⟨path, pdc, pdce, now, named, rfl, found, reading, expired,
                  congrArg some dropped⟩⟩
  | findPath path =>
      refine Watch.ensures_bind.mpr (Watch.ensures_of_forall (fun _ => trivial) ?_)
      exact fun _ _ => rfl
  | invalidate path fParent => exact rfl
  | writeBegin state cFiles =>
      refine Watch.ensures_bind.mpr ?_
      unfold dircacheWriteBegin
      cases named : dcCreateDirPath state with
      | none => exact ⟨none, rfl, .inl ⟨rfl, .inl rfl⟩⟩
      | some path =>
          cases pdc with
          | none => exact ⟨none, rfl, .inl ⟨rfl, .inl rfl⟩⟩
          | some pdc =>
              simp only
              split
              · trivial
              · rename_i kept evicted
                obtain rfl := dcEvict_eq_some evicted
                apply (clocked_dcWriteBegin _ path cFiles).bind
                rintro ⟨dircachectx, left⟩ later (⟨rfl, rfl⟩ | ⟨pdce, rfl, begun, rfl⟩)
                · exact ⟨none, rfl, .inl ⟨rfl, .inr ⟨pdc, rfl, rfl⟩⟩⟩
                · exact ⟨some pdce, rfl, .inr ⟨pdce, path, pdc, rfl, named, rfl, begun, rfl⟩⟩
  | writeEntry place finfo =>
      simp only [sharedStep]
      split
      · trivial
      · rename_i dircachectx used
        cases dircachectx with
        | none =>
            obtain ⟨inside, same⟩ := List.getElem?_eq_some_iff.mp used
            refine ⟨rfl, .inl ?_⟩
            change sessions.set place none = sessions
            rw [← same]
            exact List.set_getElem_self inside
        | some pdce =>
            refine Watch.ensures_bind.mpr (Watch.ensures_bind.mpr ?_)
            refine (Watch.ensures_of_returns (fun _ => trivial)
              (returns_dceWriteEntry pdce finfo)).mono fun written _ wrote => ?_
            exact ⟨rfl, .inr ⟨pdce, written, used, wrote, rfl⟩⟩
  | writeEnd place =>
      simp only [sharedStep]
      split
      · trivial
      · rename_i dircachectx used
        cases dircachectx with
        | none => trivial
        | some pdce =>
            refine Watch.ensures_bind.mpr ?_
            simp only [dircacheWriteEnd]
            split
            · rename_i invalid
              exact ⟨rfl, pdce, used, .inl ⟨invalid, rfl⟩⟩
            · rename_i valid
              refine Watch.ensures_bind.mpr ?_
              refine (Watch.ensures_of_returns (fun _ => trivial) (returns_dceAdjust pdce)).mono ?_
              rintro _ _ ⟨cInfosAllocated, rfl⟩
              exact ⟨rfl, pdce, used, .inr ⟨by simpa using valid, cInfosAllocated, rfl⟩⟩
  | abandon place => exact rfl

theorem Moved.mono {read wider : UInt32 → Prop} {shared later : SharedCache} {call : SharedCall}
    (moved : Moved ph read shared call later) (widen : ∀ now, read now → wider now) :
    Moved ph wider shared call later := by
  cases call with
  | listFiles state =>
      obtain ⟨sessions, kept | ⟨path, pdc, pdce, now, named, cache, found, reading, rest⟩⟩ := moved
      · exact ⟨sessions, .inl kept⟩
      · exact ⟨sessions, .inr ⟨path, pdc, pdce, now, named, cache, found, widen now reading, rest⟩⟩
  | writeBegin state cFiles =>
      obtain ⟨dircachectx, sessions, refused | ⟨pdce, path, pdc, opened, named, cache, begun, left⟩⟩ :=
        moved
      · exact ⟨dircachectx, sessions, .inl refused⟩
      · exact ⟨dircachectx, sessions, .inr ⟨pdce, path, pdc, opened, named, cache,
          ⟨begun.matched, widen _ begun.stamped, begun.empty, begun.source⟩, left⟩⟩
  | findPath | invalidate | writeEntry | writeEnd | abandon => exact moved

theorem returns_sharedStep (fn : FilelistState → SmbwrpFileinfo → Program UInt32)
    (shared : SharedCache) (call : SharedCall) :
    (sharedStep ph fn shared call).Returns fun result =>
      Moved ph (fun _ => True) shared call result.2 := by
  have moved : (clockWatch fun _ _ => True).Ensures _ (sharedStep ph fn shared call) 0 :=
    ensures_sharedStep fn shared call
  exact moved.returns (fun _ _ _ _ => trivial) fun _ _ moved => moved.mono fun _ _ => trivial

end Steps

/-! The listings that exist, those being written first. -/

structure ListingTag where
  pszPath : CString
  ulHash : UInt32
  ulLastUpdateTime : UInt32
  deriving DecidableEq

def listingTag (pdce : DirectoryCacheEntry) : ListingTag :=
  { pszPath := pdce.pszPath, ulHash := pdce.ulHash, ulLastUpdateTime := pdce.ulLastUpdateTime }

def held (shared : SharedCache) : List DirectoryCacheEntry :=
  shared.sessions.filterMap id ++ linked shared.pdc

def tags (shared : SharedCache) : List ListingTag := (held shared).map listingTag

/-- A search for one of the two directories can end at the listing of the other. -/
def SameKey (left right : ListingTag) : Prop :=
  left.ulHash = right.ulHash ∧ ph.SameName left.pszPath right.pszPath

theorem mem_held {shared : SharedCache} {pdce : DirectoryCacheEntry} :
    pdce ∈ held shared ↔ some pdce ∈ shared.sessions ∨ pdce ∈ linked shared.pdc := by
  simp [held]

theorem mem_held_of_session {shared : SharedCache} {place : Nat} {pdce : DirectoryCacheEntry}
    (used : shared.sessions[place]? = some (some pdce)) : pdce ∈ held shared :=
  mem_held.mpr (.inl (List.mem_of_getElem? used))

section Tags

variable {ph} {path : CString} {pdce other : DirectoryCacheEntry}

theorem dcMatches_eq_of_sameKey (same : SameKey ph (listingTag pdce) (listingTag other)) :
    dcMatches ph path false pdce = dcMatches ph path false other := by
  rw [Bool.eq_iff_iff, dcMatches_iff, dcMatches_iff]
  constructor
  · rintro ⟨hash, name⟩
    exact ⟨same.1.symm.trans hash, FoldEq.trans name same.2⟩
  · rintro ⟨hash, name⟩
    exact ⟨same.1.trans hash, FoldEq.trans name (FoldEq.symm same.2)⟩

theorem dcMatches_eq_of_tag (same : listingTag pdce = listingTag other) :
    dcMatches ph path false pdce = dcMatches ph path false other := by
  obtain ⟨pszPath, ulHash, -⟩ := ListingTag.mk.inj same
  rw [dcMatches_false, dcMatches_false, ulHash, dcePathEqualsTo, dcePathEqualsTo, pszPath]

theorem sameKey_of_matches (first : dcMatches ph path false pdce = true)
    (second : dcMatches ph path false other = true) :
    SameKey ph (listingTag pdce) (listingTag other) := by
  obtain ⟨leftHash, leftName⟩ := (dcMatches_iff ph).mp first
  obtain ⟨rightHash, rightName⟩ := (dcMatches_iff ph).mp second
  exact ⟨leftHash.trans rightHash.symm, FoldEq.trans (FoldEq.symm leftName) rightName⟩

theorem Wrote.tag {finfo : SmbwrpFileinfo} (wrote : Wrote finfo pdce other) :
    listingTag other = listingTag pdce := by
  simp [listingTag, wrote.pszPath, wrote.ulHash, wrote.stamped]

variable {read : UInt32 → Prop} {shared later : SharedCache} {call : SharedCall}

theorem Moved.linked_sublist (moved : Moved ph read shared call later)
    (unended : ∀ place, call ≠ .writeEnd place) :
    (linked later.pdc).Sublist (linked shared.pdc) := by
  have same {pdc : Option DirectoryCache} (kept : pdc = shared.pdc) :
      (linked pdc).Sublist (linked shared.pdc) := by
    rw [kept]
  cases call with
  | listFiles state =>
      obtain ⟨-, kept | ⟨path, pdc, pdce, now, -, cache, -, -, -, dropped⟩⟩ := moved
      · exact same kept
      · rw [dropped, cache]
        exact List.eraseP_sublist
  | findPath path => exact same (congrArg SharedCache.pdc moved)
  | invalidate path fParent =>
      obtain rfl := moved
      rw [linked_dircacheInvalidate]
      exact List.filter_sublist
  | writeBegin state cFiles =>
      obtain ⟨dircachectx, -, ⟨-, kept | ⟨pdc, cache, left⟩⟩ |
        ⟨pdce, path, pdc, -, -, cache, -, left⟩⟩ := moved
      · exact same kept
      · rw [left, cache]
        exact sublist_unevicted pdc
      · rw [left, cache]
        exact List.eraseP_sublist.trans (sublist_unevicted pdc)
  | writeEntry place finfo => exact same moved.1
  | writeEnd place => exact absurd rfl (unended place)
  | abandon place =>
      obtain rfl := moved
      exact .refl _

theorem Moved.limits (moved : Moved ph read shared call later) :
    limits later.pdc = limits shared.pdc := by
  cases call with
  | listFiles state =>
      obtain ⟨-, kept | ⟨path, pdc, pdce, now, -, cache, -, -, -, dropped⟩⟩ := moved
      · rw [kept]
      · rw [dropped, cache]
        rfl
  | findPath path =>
      obtain rfl : later = shared := moved
      rfl
  | invalidate path fParent =>
      obtain rfl := moved
      cases shared.pdc <;> rfl
  | writeBegin state cFiles =>
      obtain ⟨dircachectx, -, ⟨-, kept | ⟨pdc, cache, left⟩⟩ |
        ⟨pdce, path, pdc, -, -, cache, -, left⟩⟩ := moved
      · rw [kept]
      · rw [left, cache]
        rfl
      · rw [left, cache]
        rfl
  | writeEntry place finfo => rw [moved.1]
  | writeEnd place =>
      obtain ⟨-, pdce, -, ⟨-, kept⟩ | ⟨-, cInfosAllocated, left⟩⟩ := moved
      · rw [kept]
      · rw [left]
        cases shared.pdc <;> rfl
  | abandon place =>
      obtain rfl := moved
      rfl

theorem Moved.origin (moved : Moved ph read shared call later) (member : pdce ∈ held later) :
    (∃ before ∈ held shared, pdce.pszPath = before.pszPath ∧ pdce.ulHash = before.ulHash) ∨
      pdce.ulHash = computehash pdce.pszPath := by
  have before {other : DirectoryCacheEntry} (inside : other ∈ held shared) :
      (∃ before ∈ held shared, other.pszPath = before.pszPath ∧ other.ulHash = before.ulHash) ∨
        other.ulHash = computehash other.pszPath := .inl ⟨other, inside, rfl, rfl⟩
  rcases mem_held.mp member with session | inside
  · cases call with
    | listFiles state => exact before (mem_held.mpr (.inl (moved.1 ▸ session)))
    | findPath path =>
        obtain rfl : later = shared := moved
        exact before member
    | invalidate path fParent =>
        obtain rfl := moved
        exact before (mem_held.mpr (.inl session))
    | writeBegin state cFiles =>
        obtain ⟨dircachectx, sessions, opened⟩ := moved
        rw [sessions, List.mem_append, List.mem_singleton] at session
        rcases session with session | same
        · exact before (mem_held.mpr (.inl session))
        · rcases opened with ⟨rfl, -⟩ | ⟨begun, path, pdc, rfl, -, cache, start, -⟩
          · simp at same
          · obtain rfl := Option.some.inj same
            rcases start.source with ⟨pszPath, ulHash, -⟩ | ⟨cached, kept, pszPath, ulHash, -⟩
            · exact .inr (by rw [ulHash, pszPath])
            · refine .inl ⟨cached, mem_held.mpr (.inr ?_), pszPath, ulHash⟩
              rw [cache]
              exact (sublist_unevicted pdc).subset kept
    | writeEntry place finfo =>
        obtain ⟨-, same | ⟨begun, written, used, wrote, sessions⟩⟩ := moved
        · exact before (mem_held.mpr (.inl (same ▸ session)))
        · rw [sessions] at session
          rcases List.mem_or_eq_of_mem_set session with session | same
          · exact before (mem_held.mpr (.inl session))
          · obtain rfl := Option.some.inj same
            exact .inl ⟨begun, mem_held_of_session used, wrote.pszPath, wrote.ulHash⟩
    | writeEnd place =>
        rw [moved.1] at session
        exact before (mem_held.mpr (.inl (List.mem_of_mem_eraseIdx session)))
    | abandon place =>
        obtain rfl := moved
        exact before (mem_held.mpr (.inl (List.mem_of_mem_eraseIdx session)))
  · by_cases ended : ∃ place, call = .writeEnd place
    · obtain ⟨place, rfl⟩ := ended
      obtain ⟨-, begun, used, ⟨-, kept⟩ | ⟨-, cInfosAllocated, left⟩⟩ := moved
      · exact before (mem_held.mpr (.inr (kept ▸ inside)))
      · rw [left] at inside
        cases cache : shared.pdc with
        | none => simp [cache, linked] at inside
        | some pdc =>
            rw [cache] at inside
            rcases List.mem_cons.mp inside with rfl | inside
            · exact .inl ⟨begun, mem_held_of_session used, rfl, rfl⟩
            · exact before (mem_held.mpr (.inr (cache ▸ inside)))
    · have part := moved.linked_sublist fun place same => ended ⟨place, same⟩
      exact before (mem_held.mpr (.inr (part.subset inside)))

end Tags

/-! What holds of every order of the calls. -/

/-- No listing that is linked has lost an entry, and each is stored under the hash of its
own spelling. -/
structure SharedCache.Sound (ulExpirationTime : UInt32) (cMaxEntries : Nat)
    (shared : SharedCache) : Prop where
  created : limits shared.pdc = some (emptyCache ulExpirationTime cMaxEntries)
  hashed : ∀ pdce ∈ held shared, pdce.ulHash = computehash pdce.pszPath
  valid : ∀ pdce ∈ linked shared.pdc, pdce.fInvalid = false

def emptyShared (ulExpirationTime : UInt32) (cMaxEntries : Nat) : SharedCache :=
  { pdc := some (emptyCache ulExpirationTime cMaxEntries) }

section Sound

variable {ph} {read : UInt32 → Prop} {shared later : SharedCache} {call : SharedCall}
  {ulExpirationTime : UInt32} {cMaxEntries : Nat}

theorem sound_emptyShared :
    (emptyShared ulExpirationTime cMaxEntries).Sound ulExpirationTime cMaxEntries where
  created := rfl
  hashed pdce member := by simp [held, emptyShared, emptyCache, linked] at member
  valid pdce member := by simp [emptyShared, emptyCache, linked] at member

theorem SharedCache.Sound.pdc_eq (sound : shared.Sound ulExpirationTime cMaxEntries) :
    shared.pdc = some { emptyCache ulExpirationTime cMaxEntries with
      entries := linked shared.pdc } := by
  have created := sound.created
  cases cache : shared.pdc with
  | none => simp [cache, limits] at created
  | some pdc =>
      rw [cache] at created
      have same : { pdc with entries := [] } = emptyCache ulExpirationTime cMaxEntries :=
        Option.some.inj created
      rw [← same]
      rfl

theorem SharedCache.Sound.moved (sound : shared.Sound ulExpirationTime cMaxEntries)
    (moved : Moved ph read shared call later) : later.Sound ulExpirationTime cMaxEntries where
  created := moved.limits.trans sound.created
  hashed pdce member := by
    rcases moved.origin member with ⟨before, inside, pszPath, ulHash⟩ | hashed
    · rw [ulHash, pszPath]
      exact sound.hashed before inside
    · exact hashed
  valid pdce member := by
    by_cases ended : ∃ place, call = .writeEnd place
    · obtain ⟨place, rfl⟩ := ended
      obtain ⟨-, begun, -, ⟨-, kept⟩ | ⟨valid, cInfosAllocated, left⟩⟩ := moved
      · exact sound.valid pdce (kept ▸ member)
      · rw [left, sound.pdc_eq] at member
        rcases List.mem_cons.mp member with rfl | member
        · exact valid
        · exact sound.valid pdce member
    · have part := moved.linked_sublist fun place same => ended ⟨place, same⟩
      exact sound.valid pdce (part.subset member)

theorem SharedCache.Sound.reached {fn : FilelistState → SmbwrpFileinfo → Program UInt32}
    {allowed : SharedCache → SharedCall → Prop} {history : List (Taken Op SharedCall Unit)}
    (start : shared.Sound ulExpirationTime cMaxEntries)
    (reached : Reaches (sharedStep ph fn) allowed shared history later) :
    later.Sound ulExpirationTime cMaxEntries :=
  reached.invariant (SharedCache.Sound ulExpirationTime cMaxEntries) start
    fun shared call sound _ => (returns_sharedStep fn shared call).mono fun _ => sound.moved

end Sound

/-! Sessions that do not overlap. -/

/-- At most one listing is being written; its place in the cache is kept free, and no search
that can end at one listing can end at another. -/
structure SharedCache.Orderly (ulExpirationTime : UInt32) (cMaxEntries : Nat)
    (shared : SharedCache) : Prop extends shared.Sound ulExpirationTime cMaxEntries where
  single : shared.sessions.length ≤ 1
  apart : (tags shared).Pairwise fun left right => ¬ SameKey ph left right
  bounded : (tags shared).length ≤ cMaxEntries

section Serial

variable {ph} {read : UInt32 → Prop} {shared later : SharedCache} {call : SharedCall}
  {ulExpirationTime : UInt32} {cMaxEntries place cFiles : Nat} {state : FilelistState}
  {dircachectx : Option DirectoryCacheEntry}

theorem sessions_of_single (single : shared.sessions.length ≤ 1)
    (used : shared.sessions[place]? = some dircachectx) :
    shared.sessions = [dircachectx] ∧ place = 0 := by
  obtain ⟨pdc, sessions⟩ := shared
  match sessions, place with
  | [], _ => simp at used
  | [only], 0 => exact ⟨by simpa using used, rfl⟩
  | [only], place + 1 => simp at used
  | _ :: _ :: _, _ => simp at single

theorem tags_sublist (sessions : later.sessions.Sublist shared.sessions)
    (listed : (linked later.pdc).Sublist (linked shared.pdc)) :
    (tags later).Sublist (tags shared) :=
  ((sessions.filterMap id).append listed).map listingTag

theorem Moved.tags_sublist (moved : Moved ph read shared call later)
    (single : shared.sessions.length ≤ 1) (begun : ∀ state cFiles, call ≠ .writeBegin state cFiles) :
    (tags later).Sublist (tags shared) := by
  have listed (unended : ∀ place, call ≠ .writeEnd place) := moved.linked_sublist unended
  cases call with
  | listFiles state =>
      refine NdpSmb.tags_sublist ?_ (listed (by simp))
      rw [moved.1]
  | findPath path =>
      obtain rfl : later = shared := moved
      exact .refl _
  | invalidate path fParent =>
      refine NdpSmb.tags_sublist ?_ (listed (by simp))
      obtain rfl := moved
      exact .refl _
  | writeBegin state cFiles => exact absurd rfl (begun state cFiles)
  | writeEntry place finfo =>
      obtain ⟨pdc, sessions | ⟨pdce, written, used, wrote, sessions⟩⟩ := moved
      · refine NdpSmb.tags_sublist ?_ (listed (by simp))
        rw [sessions]
      · obtain ⟨only, rfl⟩ := sessions_of_single single used
        have same : tags later = tags shared := by
          simp [tags, held, pdc, sessions, only, wrote.tag]
        rw [same]
  | writeEnd place =>
      obtain ⟨sessions, pdce, used, ended⟩ := moved
      obtain ⟨only, rfl⟩ := sessions_of_single single used
      have none_left : later.sessions = [] := by simp [sessions, only]
      rcases ended with ⟨-, kept⟩ | ⟨-, cInfosAllocated, left⟩
      · refine NdpSmb.tags_sublist ?_ ?_
        · simp [none_left]
        · rw [kept]
      · cases cache : shared.pdc with
        | none => simp [tags, held, left, cache, linked, none_left]
        | some pdc =>
            have same : tags later = tags shared := by
              simp [tags, held, left, cache, linked, none_left, only, dcInsertEntry, listingTag]
            rw [same]
  | abandon place =>
      refine NdpSmb.tags_sublist ?_ (listed (by simp))
      obtain rfl := moved
      exact List.eraseIdx_sublist _ _

theorem length_unevicted {pdc : DirectoryCache} (room : 1 ≤ pdc.cMaxEntries)
    (bounded : pdc.entries.length ≤ pdc.cMaxEntries) :
    (unevicted pdc).length + 1 ≤ pdc.cMaxEntries := by
  unfold unevicted
  split
  · rw [List.length_dropLast]
    omega
  · omega

theorem Moved.begins (moved : Moved ph read shared (.writeBegin state cFiles) later)
    (idle : shared.sessions = []) :
    (tags later).Sublist (tags shared) ∨ ∃ pdce path pdc, Begun ph read path (unevicted pdc) pdce ∧
      shared.pdc = some pdc ∧ tags later = listingTag pdce ::
        ((unevicted pdc).eraseP (dcMatches ph path false)).map listingTag := by
  obtain ⟨dircachectx, sessions, ⟨rfl, -⟩ | ⟨pdce, path, pdc, rfl, -, cache, start, left⟩⟩ := id moved
  · refine .inl (List.Sublist.map listingTag ?_)
    have listed := moved.linked_sublist (by simp)
    simpa [held, sessions, idle] using listed
  · refine .inr ⟨pdce, path, pdc, start, cache, ?_⟩
    simp [tags, held, sessions, idle, left, linked]

theorem orderly_emptyShared :
    (emptyShared ulExpirationTime cMaxEntries).Orderly ph ulExpirationTime cMaxEntries where
  toSound := sound_emptyShared
  single := Nat.zero_le _
  apart := List.Pairwise.nil
  bounded := Nat.zero_le _

theorem Moved.length_sessions (moved : Moved ph read shared call later)
    (begun : ∀ state cFiles, call ≠ .writeBegin state cFiles) :
    later.sessions.length ≤ shared.sessions.length := by
  cases call with
  | listFiles state => rw [moved.1]
  | findPath path =>
      obtain rfl : later = shared := moved
      exact le_refl _
  | invalidate path fParent =>
      obtain rfl := moved
      exact le_refl _
  | writeBegin state cFiles => exact absurd rfl (begun state cFiles)
  | writeEntry place finfo =>
      obtain ⟨-, sessions | ⟨pdce, written, -, -, sessions⟩⟩ := moved
      · rw [sessions]
      · rw [sessions, List.length_set]
  | writeEnd place =>
      rw [moved.1]
      exact List.length_eraseIdx_le _ _
  | abandon place =>
      obtain rfl := moved
      exact List.length_eraseIdx_le _ _

theorem alike_of_matches {path : CString} (left right : DirectoryCacheEntry)
    (first : dcMatches ph path false left = true) (second : dcMatches ph path false right = true) :
    ¬ ¬ SameKey ph (listingTag left) (listingTag right) :=
  not_not_intro (sameKey_of_matches first second)

theorem SharedCache.Orderly.apart_linked
    (orderly : shared.Orderly ph ulExpirationTime cMaxEntries) :
    (linked shared.pdc).Pairwise fun left right =>
      ¬ SameKey ph (listingTag left) (listingTag right) := by
  have apart := List.pairwise_map.mp orderly.apart
  exact apart.sublist (List.sublist_append_right _ _)

theorem SharedCache.Orderly.moved (orderly : shared.Orderly ph ulExpirationTime cMaxEntries)
    (room : 1 ≤ cMaxEntries) (serial : Serial shared call)
    (moved : Moved ph read shared call later) :
    later.Orderly ph ulExpirationTime cMaxEntries := by
  have sound := orderly.toSound.moved moved
  by_cases begun : ∃ state cFiles, call = .writeBegin state cFiles
  · obtain ⟨state, cFiles, rfl⟩ := begun
    have idle : shared.sessions = [] := serial
    have single : later.sessions.length ≤ 1 := by
      obtain ⟨dircachectx, sessions, -⟩ := moved
      simp [sessions, idle]
    rcases moved.begins idle with part | ⟨pdce, path, pdc, start, cache, listed⟩
    · exact ⟨sound, single, orderly.apart.sublist part,
        part.length_le.trans orderly.bounded⟩
    · have created := Option.some.inj (cache.symm.trans orderly.pdc_eq)
      have limit : pdc.cMaxEntries = cMaxEntries := by rw [created]; rfl
      have listedBefore : (tags shared).length = pdc.entries.length := by
        simp [tags, held, idle, cache, linked]
      have apart : pdc.entries.Pairwise fun left right =>
          ¬ SameKey ph (listingTag left) (listingTag right) := by
        simpa [cache, linked] using orderly.apart_linked
      refine ⟨sound, single, ?_, ?_⟩
      · rw [listed]
        refine List.pairwise_cons.mpr ⟨fun tag member same => ?_, ?_⟩
        · obtain ⟨other, kept, rfl⟩ := List.mem_map.mp member
          have missed := Lookup.not_of_mem_eraseP alike_of_matches
            (apart.sublist (sublist_unevicted pdc)) kept
          rw [← dcMatches_eq_of_sameKey same, start.matched] at missed
          exact Bool.noConfusion missed
        · refine List.pairwise_map.mpr (apart.sublist ?_)
          exact List.eraseP_sublist.trans (sublist_unevicted pdc)
      · have bounded := orderly.bounded
        have roomHere : 1 ≤ pdc.cMaxEntries := by omega
        have boundedHere : pdc.entries.length ≤ pdc.cMaxEntries := by omega
        have fewer := length_unevicted roomHere boundedHere
        have shorter : ((unevicted pdc).eraseP (dcMatches ph path false)).length ≤
            (unevicted pdc).length := List.eraseP_sublist.length_le
        rw [listed, List.length_cons, List.length_map]
        omega
  · have never : ∀ state cFiles, call ≠ .writeBegin state cFiles :=
      fun state cFiles same => begun ⟨state, cFiles, same⟩
    have part := moved.tags_sublist orderly.single never
    exact ⟨sound, (moved.length_sessions never).trans orderly.single,
      orderly.apart.sublist part, part.length_le.trans orderly.bounded⟩

theorem SharedCache.Orderly.reached {fn : FilelistState → SmbwrpFileinfo → Program UInt32}
    {history : List (Taken Op SharedCall Unit)}
    (start : shared.Orderly ph ulExpirationTime cMaxEntries) (room : 1 ≤ cMaxEntries)
    (reached : Reaches (sharedStep ph fn) Serial shared history later) :
    later.Orderly ph ulExpirationTime cMaxEntries :=
  reached.invariant (SharedCache.Orderly ph ulExpirationTime cMaxEntries) start
    fun shared call orderly serial =>
      (returns_sharedStep fn shared call).mono fun _ => orderly.moved room serial

end Serial

def directoryState : FilelistState :=
  { mask := bytes "\\D\\*", dir := bytes "\\D\\", dirMask := bytes "*", ulAttribute := 0
    fullpath := bytes "\\D\\*" }

def emptyDirectory : DirectoryCacheEntry :=
  { aInfos := [], cInfosAllocated := 128, pszPath := bytes "\\D"
    ulHash := computehash (bytes "\\D"), ulLastUpdateTime := 0 }

def noCallback (_ : FilelistState) (_ : SmbwrpFileinfo) : Program UInt32 := pure 0

def usualReplies (_ : Nat) (R : Type) (op : Op R) : R := op.usual

def fileA : SmbwrpFileinfo := { size := 1, fname := bytes "A" }

def listingOfA : DirectoryCacheEntry := { emptyDirectory with aInfos := [fileA] }

def doneA : SharedCache :=
  { pdc := some { emptyCache 10 4 with entries := [{ listingOfA with cInfosAllocated := 64 }] } }

end NdpSmb
