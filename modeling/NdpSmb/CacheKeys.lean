import NdpSmb.ListingLife

/-!
The keys of the cache. A listing is stored under what is left of the path when its mask
is cut off; a name is looked up, and a directory invalidated, under what stands before
the last backslash.
-/

namespace NdpSmb

open ByteString Interaction

variable (ph : Platform)

/-- The path of a name in a directory; in the root the backslash may be missing. -/
def Joins (directory name path : CString) : Prop :=
  path = directory ++ backslash :: name ∨ directory = [] ∧ path = name

def firstNamed (infos : List SmbwrpFileinfo) (began : UInt32) (name : CString) :
    Program (Option (SmbwrpFileinfo × UInt32)) :=
  match infos.find? (fun finfo => ph.SameName finfo.fname name) with
  | none => pure none
  | some finfo => do
      let now ← perform Op.timesec
      pure (some (finfo, now - began))

section Joins

variable {ph} {directory name path : CString}

theorem Joins.cut (joins : Joins directory name path) (plain : backslash ∉ name) :
    parentPath path = directory ∧ lastName path = name := by
  rcases joins with rfl | ⟨rfl, rfl⟩
  · have cut := (cutLast_eq_some_iff backslash).mpr
      ⟨(rfl : directory ++ backslash :: name = directory ++ backslash :: name), plain⟩
    simp [parentPath, lastName, cut]
  · have uncut := (cutLast_eq_none_iff backslash).mpr plain
    simp [parentPath, lastName, uncut]

theorem Joins.dirPath {state : FilelistState}
    (joins : Joins directory state.dirMask state.fullpath) :
    dcCreateDirPath state = some directory := by
  unfold dcCreateDirPath
  rcases joins with full | ⟨rfl, full⟩
  · rw [full, List.length_append, List.length_cons, if_neg (by omega)]
    have before : directory.length + (state.dirMask.length + 1) - state.dirMask.length - 1 =
        directory.length := by omega
    rw [before, List.take_left]
  · rw [full, if_neg (by omega), Nat.sub_self]
    simp

end Joins

/-- A session that runs alone from its begin to its end, loses no entry and is linked. -/
def CompletesSession (fn : FilelistState → SmbwrpFileinfo → Program UInt32)
    (state : FilelistState) (cFiles : Nat) (start : SharedCache) (first : List CallEvent)
    (infos : List SmbwrpFileinfo) (done : SharedCache) : Prop :=
  start.sessions = [] ∧ ∃ begun middle full last,
    Run (sharedStep ph fn start (.writeBegin state cFiles)) first (some ((), begun)) ∧
    Reaches (sharedStep ph fn) DuringSession begun middle full ∧
    ¬ LosesEntry middle ∧ writtenInfos middle = infos ∧
    Run (sharedStep ph fn full (.writeEnd 0)) last (some ((), done))

section Session

variable {ph} {fn : FilelistState → SmbwrpFileinfo → Program UInt32} {state : FilelistState}
  {cFiles : Nat} {start done : SharedCache} {first : List CallEvent}
  {infos : List SmbwrpFileinfo} {ulExpirationTime : UInt32} {cMaxEntries : Nat}
  {directory : CString}

theorem serial_of_during {history : List (Taken Op SharedCall Unit)} {begun full : SharedCache}
    (reached : Reaches (sharedStep ph fn) DuringSession begun history full) :
    Reaches (sharedStep ph fn) Serial begun history full := by
  refine reached.imp fun _ _ call _ during => ?_
  cases call with
  | writeBegin state cFiles => exact absurd during id
  | listFiles | findPath | invalidate | writeEntry | writeEnd | abandon => trivial

theorem CompletesSession.linked (completes : CompletesSession ph fn state cFiles start first infos
      done) (orderly : start.Orderly ph ulExpirationTime cMaxEntries) (room : 1 ≤ cMaxEntries)
    (named : dcCreateDirPath state = some directory) :
    done.Orderly ph ulExpirationTime cMaxEntries ∧ ∃ pdce rest,
      linked done.pdc = pdce :: rest ∧ dcMatches ph directory false pdce = true ∧
      pdce.aInfos = infos ∧ (⟨.timesec, pdce.ulLastUpdateTime⟩ : CallEvent) ∈ first := by
  obtain ⟨idle, begun, middle, full, last, opening, writing, kept, rfl, ending⟩ := completes
  obtain ⟨orderlyBegun, dircachectx, single, fresh⟩ :=
    run_writeBegin_step orderly room idle named opening
  have orderlyFull := orderlyBegun.reached room (serial_of_during writing)
  have ended := (returns_sharedStep fn full (.writeEnd 0)).run ending
  have serial : Serial full (.writeEnd 0) := trivial
  refine ⟨orderlyFull.moved room serial ended, ?_⟩
  obtain ⟨context, only, extended⟩ := session_extends single writing
  obtain ⟨-, written, used, -⟩ := id ended
  obtain rfl : context = some written := by simpa [only] using used
  obtain ⟨pdce, rfl, extension⟩ := extended written rfl
  have begun := fresh pdce rfl
  obtain ⟨valid, content⟩ := extension.whole kept
  obtain ⟨listing, listed, tag, same⟩ :=
    ended.links orderlyFull.toSound used (valid.trans begun.valid)
  have tagged := tag.trans extension.tag
  obtain ⟨-, -, stamped⟩ := ListingTag.mk.inj tagged
  refine ⟨listing, _, listed, (dcMatches_eq_of_tag tagged).trans begun.matched, ?_, ?_⟩
  · rw [same, content, begun.empty, List.nil_append]
  · rw [stamped]
    exact begun.read

theorem findPath_of_linked {shared : SharedCache} {pdce : DirectoryCacheEntry}
    {name path : CString} (orderly : shared.Orderly ph ulExpirationTime cMaxEntries)
    (member : pdce ∈ NdpSmb.linked shared.pdc) (matched : dcMatches ph directory false pdce = true)
    (joins : Joins directory name path) (plain : backslash ∉ name)
    (named : hasWildcard path = false) :
    dircacheFindPath ph shared.pdc path =
      firstNamed ph pdce.aInfos pdce.ulLastUpdateTime name := by
  obtain ⟨parent, last⟩ := joins.cut plain
  rw [orderly.pdc_eq]
  simp only [dircacheFindPath, named, parent, last, dcFindPath, firstNamed]
  rw [lookup_of_linked orderly member matched orderly.pdc_eq]
  cases found : pdce.aInfos.find? (fun finfo => ph.SameName finfo.fname name) with
  | none => rfl
  | some finfo => rfl

theorem findPath_invalidated {pdc : Option DirectoryCache} {key name invalid path : CString}
    (joinsKey : Joins directory key invalid) (plainKey : backslash ∉ key)
    (joins : Joins directory name path) (plain : backslash ∉ name) :
    dircacheFindPath ph (dircacheInvalidate ph invalid pdc true) path = pure none := by
  obtain ⟨parent, last⟩ := joins.cut plain
  cases pdc with
  | none => rfl
  | some pdc =>
      simp only [dircacheInvalidate, Option.map_some, dircacheFindPath, if_true,
        (joinsKey.cut plainKey).1, parent, last]
      split
      · rfl
      · have missing : dcLookup ph (dcInvalidate ph pdc directory false) directory name = none := by
          unfold dcLookup
          refine List.findSome?_eq_none_iff.mpr fun entry member => ?_
          rw [((mem_dcInvalidate ph).mp member).2]
          rfl
        simp only [dcFindPath, missing]

end Session

/-- The listing that a session has linked is the one in which the names of its directory are
found, until it expires, is evicted, invalidated or begun anew; an invalidation through any
name of the directory takes it out. -/
theorem cacheKeys_agree {fn : FilelistState → SmbwrpFileinfo → Program UInt32}
    {ulExpirationTime : UInt32} {cMaxEntries : Nat} (room : 1 ≤ cMaxEntries)
    {before after : List (Taken Op SharedCall Unit)} {start done later : SharedCache}
    (reached : Reaches (sharedStep ph fn) Serial (emptyShared ulExpirationTime cMaxEntries)
      before start)
    {state : FilelistState} {cFiles : Nat} {first : List CallEvent} {infos : List SmbwrpFileinfo}
    (completes : CompletesSession ph fn state cFiles start first infos done)
    {directory : CString} (joins : Joins directory state.dirMask state.fullpath)
    {pdce : DirectoryCacheEntry} (head : (linked done.pdc).head? = some pdce)
    (spared : Reaches (sharedStep ph fn) (SerialSparing ph pdce) done after later)
    (young : UnexpiredThroughout ulExpirationTime pdce (exchanges after)) :
    ∃ began, (⟨.timesec, began⟩ : CallEvent) ∈ first ∧
      ∀ name path, Joins directory name path → backslash ∉ name → hasWildcard path = false →
        dircacheFindPath ph later.pdc path = firstNamed ph infos began name ∧
        ∀ key invalid, Joins directory key invalid → backslash ∉ key →
          dircacheFindPath ph (dircacheInvalidate ph invalid later.pdc true) path = pure none := by
  have orderly := orderly_emptyShared.reached room reached
  obtain ⟨orderlyDone, found, rest, listed, matched, written, read⟩ :=
    completes.linked orderly room joins.dirPath
  obtain rfl : found = pdce := by simpa [listed] using head
  have inside : found ∈ linked done.pdc := by simp [listed]
  obtain ⟨orderlyLater, member⟩ := stays_linked orderlyDone room inside spared young
  refine ⟨found.ulLastUpdateTime, read, fun name path joinsName plain named => ⟨?_, ?_⟩⟩
  · rw [← written]
    exact findPath_of_linked orderlyLater member matched joinsName plain named
  · exact fun key invalid joinsKey plainKey =>
      findPath_invalidated joinsKey plainKey joinsName plain

def beginDirectory : List CallEvent :=
  (exec usualReplies 0 (sharedStep asciiPlatform noCallback (emptyShared 10 4)
    (.writeBegin directoryState 128))).1

theorem completes_doneA :
    CompletesSession asciiPlatform noCallback directoryState 128 (emptyShared 10 4) beginDirectory
      [fileA] doneA := by
  let begun : SharedCache := { emptyShared 10 4 with sessions := [some emptyDirectory] }
  let full : SharedCache := { emptyShared 10 4 with sessions := [some listingOfA] }
  have begins : Reaches (sharedStep asciiPlatform noCallback) DuringSession begun [] begun := .start
  have writes := begins.executed usualReplies (.writeEntry 0 fileA) () full trivial (by decide)
  have opening := run_exec usualReplies (sharedStep asciiPlatform noCallback (emptyShared 10 4)
    (.writeBegin directoryState 128)) 0
  have ending := run_exec usualReplies (sharedStep asciiPlatform noCallback full (.writeEnd 0)) 0
  exact ⟨rfl, begun, _, full, _, opening, writes, by decide, by decide, ending⟩

theorem cacheKeys_agree_fileA :
    ∃ began, (⟨.timesec, began⟩ : CallEvent) ∈ beginDirectory ∧
      ∀ name path, Joins (bytes "\\D") name path → backslash ∉ name → hasWildcard path = false →
        dircacheFindPath asciiPlatform doneA.pdc path =
          firstNamed asciiPlatform [fileA] began name ∧
        ∀ key invalid, Joins (bytes "\\D") key invalid → backslash ∉ key →
          dircacheFindPath asciiPlatform
            (dircacheInvalidate asciiPlatform invalid doneA.pdc true) path = pure none :=
  have head : (linked doneA.pdc).head? = some { listingOfA with cInfosAllocated := 64 } := rfl
  cacheKeys_agree asciiPlatform (by decide : 1 ≤ 4) .start completes_doneA (.inl (by decide)) head
    .start (by simp [UnexpiredThroughout])

end NdpSmb
