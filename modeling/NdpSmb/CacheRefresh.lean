import NdpSmb.SharedCache

/-!
A whole session of writing a listing, where the cache may have a listing of the directory
already, and what becomes of the other listings.
-/

namespace NdpSmb

open ByteString Interaction

variable (ph : Platform)

def writeEach : List SmbwrpFileinfo → Option DirectoryCacheEntry →
    Program (Option DirectoryCacheEntry)
  | [], dircachectx => pure dircachectx
  | finfo :: rest, dircachectx => do
      let dircachectx ← dircacheWriteEntry dircachectx finfo
      writeEach rest dircachectx

structure CompleteSession (pdc : DirectoryCache) (state : FilelistState) (path : CString)
    (infos : List SmbwrpFileinfo) (later : Option DirectoryCache) : Prop where
  named : dcCreateDirPath state = some path
  written : ∃ cFiles begun begins left full writes ends,
    Run (dircacheWriteBegin ph (some pdc) state cFiles) begins (some (some begun, left)) ∧
    Run (writeEach infos (some begun)) writes (some (some full)) ∧ full.fInvalid = false ∧
    Run (dircacheWriteEnd left (some full)) ends (some later)

def OfDirectory (path : CString) (entry : DirectoryCacheEntry) : Prop :=
  ph.SameName path entry.pszPath

instance (path : CString) (entry : DirectoryCacheEntry) : Decidable (OfDirectory ph path entry) :=
  inferInstanceAs (Decidable (ph.SameName path entry.pszPath))

def otherListings (path : CString) (entries : List DirectoryCacheEntry) :
    List DirectoryCacheEntry :=
  entries.filter fun entry => ¬ OfDirectory ph path entry

/-- Where the directory was not cached and as many other listings as there may be were. -/
def Overfull (pdc : DirectoryCache) (path : CString) : Prop :=
  (∀ entry ∈ pdc.entries, ¬ OfDirectory ph path entry) ∧
    pdc.cMaxEntries ≤ (otherListings ph path pdc.entries).length

/-- The new listing is at the head, and the others are all there, but for the oldest one of an
overfull cache. -/
def Refreshed (pdc : DirectoryCache) (path : CString) (infos : List SmbwrpFileinfo)
    (later : Option DirectoryCache) : Prop :=
  ∃ cache new rest, later = some cache ∧ cache.entries = new :: rest ∧
    OfDirectory ph path new ∧ new.aInfos = infos ∧
    (otherListings ph path rest = otherListings ph path pdc.entries ∨ Overfull ph pdc path ∧
      otherListings ph path rest = (otherListings ph path pdc.entries).dropLast)

/-- The listing that a full cache gives up is one of the directory, or the directory has none. -/
def SparesOthers (pdc : DirectoryCache) (path : CString) : Prop :=
  pdc.entries.length < pdc.cMaxEntries ∨ (∀ entry ∈ pdc.entries, ¬ OfDirectory ph path entry) ∨
    ∃ oldest, pdc.entries.getLast? = some oldest ∧ OfDirectory ph path oldest

section Session

variable {ph} {path : CString} {pdc : DirectoryCache} {infos : List SmbwrpFileinfo}
  {state : FilelistState} {later : Option DirectoryCache} {entries : List DirectoryCacheEntry}

/-! The listing that is written. -/

theorem ofDirectory_of_matches {entry : DirectoryCacheEntry}
    (matched : dcMatches ph path false entry = true) : OfDirectory ph path entry :=
  ((dcMatches_iff ph).mp matched).2

theorem returns_writeEach {begun : DirectoryCacheEntry} :
    (writeEach infos (some begun)).Returns fun left => ∃ full, left = some full ∧
      full.pszPath = begun.pszPath ∧
      (full.fInvalid = false → begun.fInvalid = false ∧ full.aInfos = begun.aInfos ++ infos) := by
  induction infos generalizing begun with
  | nil => exact ⟨begun, rfl, rfl, fun valid => ⟨valid, by simp⟩⟩
  | cons finfo rest ih =>
      refine Prog.returns_bind.mpr (Prog.returns_bind.mpr ?_)
      refine (returns_dceWriteEntry begun finfo).mono fun written wrote => ?_
      refine (@ih written).mono ?_
      rintro left ⟨full, same, pszPath, kept⟩
      refine ⟨full, same, pszPath.trans wrote.pszPath, fun valid => ?_⟩
      obtain ⟨validWritten, infosFull⟩ := kept valid
      rcases wrote.written with ⟨sameFlag, appended⟩ | ⟨lost, -⟩
      · refine ⟨sameFlag.symm.trans validWritten, ?_⟩
        rw [infosFull, appended]
        simp
      · rw [lost] at validWritten
        exact Bool.noConfusion validWritten

theorem returns_dircacheWriteBegin (named : dcCreateDirPath state = some path) (cFiles : Nat) :
    (dircacheWriteBegin ph (some pdc) state cFiles).Returns fun answer =>
      ∀ begun, answer.1 = some begun → OfDirectory ph path begun ∧ begun.aInfos = [] ∧
        answer.2 = some { pdc with
          entries := (unevicted pdc).eraseP (dcMatches ph path false) } := by
  unfold dircacheWriteBegin
  rw [named]
  simp only
  split
  · trivial
  · rename_i kept evicted
    obtain rfl := dcEvict_eq_some evicted
    have clocked : (clockWatch fun _ _ => True).Ensures _
        (dcWriteBegin ph { pdc with entries := unevicted pdc } path cFiles) 0 :=
      clocked_dcWriteBegin _ path cFiles
    refine Prog.returns_bind.mpr (clocked.returns (fun _ _ _ _ => trivial) ?_)
    rintro ⟨dircachectx, left⟩ later (⟨rfl, -⟩ | ⟨pdce, rfl, begun, rfl⟩)
    · intro begun none_given
      exact absurd none_given (Option.some_ne_none begun).symm
    · rintro _ ⟨⟩
      exact ⟨ofDirectory_of_matches begun.matched, begun.empty, rfl⟩

theorem CompleteSession.links (session : CompleteSession ph pdc state path infos later) :
    ∃ new, later = some { pdc with
        entries := new :: (unevicted pdc).eraseP (dcMatches ph path false) } ∧
      OfDirectory ph path new ∧ new.aInfos = infos := by
  obtain ⟨cFiles, begun, begins, left, full, writes, ends, begin, write, valid, finish⟩ :=
    session.written
  obtain ⟨own, empty, rest⟩ := (returns_dircacheWriteBegin session.named cFiles).run begin begun rfl
  simp only at rest
  obtain ⟨last, same, pszPath, kept⟩ := returns_writeEach.run write
  obtain rfl := Option.some.inj same
  have ended : (dircacheWriteEnd left (some full)).Returns fun answer => ∃ cInfosAllocated,
      answer = left.map fun cache => dcInsertEntry cache { full with cInfosAllocated } := by
    simp only [dircacheWriteEnd]
    rw [if_neg (by simp [valid])]
    refine Prog.returns_bind.mpr ((returns_dceAdjust full).mono ?_)
    rintro _ ⟨cInfosAllocated, rfl⟩
    exact ⟨cInfosAllocated, rfl⟩
  obtain ⟨cInfosAllocated, inserted⟩ := ended.run finish
  refine ⟨{ full with cInfosAllocated }, ?_, ?_, ?_⟩
  · rw [inserted, rest]
    rfl
  · change ph.SameName path full.pszPath
    rw [pszPath]
    exact own
  · change full.aInfos = infos
    rw [(kept valid).2, empty, List.nil_append]

/-! The other listings. -/

theorem otherListings_eraseP (entries : List DirectoryCacheEntry) :
    otherListings ph path (entries.eraseP (dcMatches ph path false)) =
      otherListings ph path entries := by
  induction entries with
  | nil => rfl
  | cons entry rest ih =>
      cases matched : dcMatches ph path false entry with
      | true => simp [otherListings, matched, ofDirectory_of_matches matched]
      | false =>
          rw [List.eraseP_cons_of_neg (by simp [matched])]
          unfold otherListings at ih ⊢
          rw [List.filter_cons, List.filter_cons, ih]

theorem otherListings_eq_self (uncached : ∀ entry ∈ entries, ¬ OfDirectory ph path entry) :
    otherListings ph path entries = entries :=
  List.filter_eq_self.mpr fun entry member => by simpa using uncached entry member

theorem otherListings_concat_own {oldest : DirectoryCacheEntry}
    (own : OfDirectory ph path oldest) :
    otherListings ph path (entries ++ [oldest]) = otherListings ph path entries := by
  simp [otherListings, own]

theorem otherListings_concat_other {oldest : DirectoryCacheEntry}
    (other : ¬ OfDirectory ph path oldest) :
    otherListings ph path (entries ++ [oldest]) = otherListings ph path entries ++ [oldest] := by
  simp [otherListings, other]

/-- The listing at the tail is given up without need exactly where the directory has a listing
elsewhere. -/
theorem spared_iff :
    (otherListings ph path (unevicted pdc) = otherListings ph path pdc.entries ∨
      Overfull ph pdc path ∧ otherListings ph path (unevicted pdc) =
        (otherListings ph path pdc.entries).dropLast) ↔ SparesOthers ph pdc path := by
  unfold unevicted SparesOthers
  split
  · rename_i full
    rcases List.eq_nil_or_concat pdc.entries with empty | ⟨kept, oldest, split⟩
    · simp [empty]
    · rw [List.concat_eq_append] at split
      rw [split, List.dropLast_concat, List.getLast?_concat]
      have notRoom : ¬ (kept ++ [oldest]).length < pdc.cMaxEntries := by
        rw [← split]
        omega
      by_cases own : OfDirectory ph path oldest
      · rw [otherListings_concat_own own]
        exact iff_of_true (.inl rfl) (.inr (.inr ⟨oldest, rfl, own⟩))
      · rw [otherListings_concat_other own]
        constructor
        · rintro (same | ⟨overfull, -⟩)
          · have lengths := congrArg List.length same
            rw [List.length_append, List.length_singleton] at lengths
            omega
          · refine .inr (.inl ?_)
            rw [← split]
            exact overfull.1
        · rintro (room | uncached | ⟨last, same, owned⟩)
          · exact absurd room notRoom
          · refine .inr ⟨⟨?_, ?_⟩, by rw [List.dropLast_concat]⟩
            · rw [split]
              exact uncached
            · rw [split, otherListings_eq_self uncached, ← split]
              exact full
          · obtain rfl := Option.some.inj same
            exact absurd owned own
  · rename_i room
    exact iff_of_true (.inl rfl) (.inl (by omega))

end Session

/-- A complete session leaves its listing at the head and all the others, but for the oldest of
an overfull cache, exactly when the cache is not full, or has no listing of the directory, or has
one at its tail. -/
theorem refresh_sparesOthers_iff {pdc : DirectoryCache} {state : FilelistState} {path : CString}
    {infos : List SmbwrpFileinfo} {later : Option DirectoryCache}
    (session : CompleteSession ph pdc state path infos later) :
    Refreshed ph pdc path infos later ↔ SparesOthers ph pdc path := by
  obtain ⟨new, rfl, own, written⟩ := session.links
  rw [← spared_iff]
  constructor
  · rintro ⟨cache, head, rest, same, entries, -, -, others⟩
    obtain rfl := Option.some.inj same
    obtain ⟨-, rfl⟩ := List.cons.inj entries
    rwa [otherListings_eraseP] at others
  · intro others
    refine ⟨_, new, _, rfl, rfl, own, written, ?_⟩
    rwa [otherListings_eraseP]

def otherState : FilelistState :=
  { mask := bytes "\\E\\*", dir := bytes "\\E\\", dirMask := bytes "*", ulAttribute := 0
    fullpath := bytes "\\E\\*" }

def emptyOther : DirectoryCacheEntry :=
  { emptyDirectory with pszPath := bytes "\\E", ulHash := computehash (bytes "\\E") }

def bothListed : DirectoryCache :=
  { emptyCache 10 2 with entries := [
      { emptyDirectory with cInfosAllocated := 64 }, { emptyOther with cInfosAllocated := 64 }] }

theorem completeSession_executed {pdc : DirectoryCache} {begun full : DirectoryCacheEntry}
    {left later : Option DirectoryCache}
    (begin : (exec usualReplies 0
      (dircacheWriteBegin asciiPlatform (some pdc) directoryState 128)).2 = some (some begun, left))
    (write : (exec usualReplies 0 (writeEach [fileA] (some begun))).2 = some (some full))
    (valid : full.fInvalid = false)
    (finish : (exec usualReplies 0 (dircacheWriteEnd left (some full))).2 = some later) :
    CompleteSession asciiPlatform pdc directoryState (bytes "\\D") [fileA] later where
  named := by decide
  written := ⟨128, begun, _, left, full, _, _, begin ▸ run_exec _ _ _, write ▸ run_exec _ _ _,
    valid, finish ▸ run_exec _ _ _⟩

theorem refresh_sparesOthers_room :
    ∃ later,
      CompleteSession asciiPlatform { bothListed with cMaxEntries := 3 } directoryState
        (bytes "\\D") [fileA] later ∧
      (Refreshed asciiPlatform { bothListed with cMaxEntries := 3 } (bytes "\\D") [fileA] later ↔
        SparesOthers asciiPlatform { bothListed with cMaxEntries := 3 } (bytes "\\D")) := by
  have session : CompleteSession asciiPlatform { bothListed with cMaxEntries := 3 } directoryState
      (bytes "\\D") [fileA] _ := completeSession_executed rfl rfl rfl rfl
  exact ⟨_, session, refresh_sparesOthers_iff asciiPlatform session⟩

/-- A full cache gives up the other directory, although this one is replaced. -/
theorem refresh_evicts_other :
    ∃ history later, Reaches (sharedStep asciiPlatform noCallback) Serial (emptyShared 10 2) history
      ⟨some bothListed, []⟩ ∧
      CompleteSession asciiPlatform bothListed directoryState (bytes "\\D") [fileA] later ∧
      ¬ Refreshed asciiPlatform bothListed (bytes "\\D") [fileA] later := by
  have created : Reaches (sharedStep asciiPlatform noCallback) Serial (emptyShared 10 2) []
      (emptyShared 10 2) := .start
  have begun := created.executed usualReplies (.writeBegin otherState 128) () _ rfl rfl
  have ended := begun.executed usualReplies (.writeEnd 0) () _ trivial rfl
  have again := ended.executed usualReplies (.writeBegin directoryState 128) () _ rfl rfl
  have done := again.executed usualReplies (.writeEnd 0) () _ trivial rfl
  refine ⟨_, _, done, completeSession_executed rfl rfl rfl rfl, ?_⟩
  rintro ⟨cache, new, rest, same, entries, -, -, kept⟩
  obtain rfl := Option.some.inj same
  obtain ⟨-, rfl⟩ := List.cons.inj entries
  rcases kept with kept | ⟨overfull, -⟩
  · exact absurd kept (by decide)
  · exact overfull.1 _ List.mem_cons_self (by decide)

end NdpSmb
