import NdpSmb.MountKept
import NdpSmb.ListingCommit
import NdpSmb.ListedNames

/-!
Where the names come from that NetDrive is told of: a server has reported them, in this call or
in an earlier one whose answer is cached.
-/

namespace NdpSmb

open ByteString Interaction

/-! What the servers report. -/

/-- The answers to one search. It is cut when the callback has asked for its end. -/
structure Search where
  mask : CString
  entries : List SmbwrpFileinfo := []
  cut : Bool := false

def Search.answered (search : Search) (infos : List SmbwrpFileinfo) : Search :=
  { search with entries := search.entries ++ infos }

def Search.called (search : Search) (status : UInt32) : Search :=
  { search with cut := search.cut || refuses status }

/-- A listing of all that was reported, or of the first of it when the search was cut. -/
structure Search.Fills (search : Search) (infos : List SmbwrpFileinfo) : Prop where
  first : infos <+: search.entries
  whole : search.cut = false → infos = search.entries

structure OriginSeen where
  searches : List Search := []
  shares : List (CString × Bool) := []
  given : List (CString × SmbwrpFileinfo) := []

def OriginSeen.begins (seen : OriginSeen) (mask : CString) : OriginSeen :=
  { seen with searches := { mask } :: seen.searches }

def OriginSeen.latest (seen : OriginSeen) (change : Search → Search) : OriginSeen :=
  { seen with searches := seen.searches.modifyHead change }

def OriginSeen.enumerates (seen : OriginSeen) (shares : List (CString × Bool)) : OriginSeen :=
  { seen with shares := seen.shares ++ shares }

def OriginSeen.gives (seen : OriginSeen) (name : CString) (finfo : SmbwrpFileinfo) : OriginSeen :=
  { seen with given := seen.given ++ [(name, finfo)] }

def OriginSeen.observe (ph : Platform) (seen : OriginSeen) : CallEvent → OriginSeen
  | ⟨.request _ (.windowsParentDirname pathname), _⟩ => seen.begins pathname
  | ⟨.request _ (.cliListSend mask _), _⟩ => seen.begins mask
  | ⟨.request _ (.smb2cliQueryDirectory _), .ok dirData⟩ =>
      seen.latest (·.answered (passing ph listAttribute dirData.parsed))
  | ⟨.request _ .cliListRecv, some infos⟩ => seen.latest (·.answered (infos.map FileInfo.toWrp))
  | ⟨.request _ (.cliNetServerEnum ..), shares⟩ => seen.enumerates shares
  | ⟨.request _ .netShareEnumRpc, (shares, _)⟩ => seen.enumerates shares
  | ⟨.request _ .cliRNetShareEnum, (shares, _)⟩ => seen.enumerates shares
  | ⟨.fsphAddFile32L _ name finfo, _⟩ => seen.gives name finfo
  | ⟨.missingReturnValue, status⟩ => seen.latest (·.called status)
  | _ => seen

def originWatch (ph : Platform) : Watch Op OriginSeen where
  observe := OriginSeen.observe ph

def originSeen (ph : Platform) (trace : List CallEvent) : OriginSeen :=
  (originWatch ph).after {} trace

def OriginSeen.Showed (seen : OriginSeen) (mask : CString) (infos : List SmbwrpFileinfo) : Prop :=
  ∃ search ∈ seen.searches, search.mask = mask ∧ search.Fills infos

/-- The entry of a directory that stands for itself, for its parent, or for a share. -/
def nameEntry (name : CString) : SmbwrpFileinfo :=
  { fname := name.take 260, attr := aRonly ||| aDir }

/-- The cache keeps the listing under the path that the request is for. -/
def ListedUnder (ph : Platform) (st : FilelistState) (pdce : DirectoryCacheEntry) : Prop :=
  ∃ path, dcCreateDirPath st = some path ∧ dcMatches ph path false pdce = true

/-- Where an entry of a listing comes from; `cached` are the listings from before the call. -/
inductive Origin (ph : Platform) (cached : List DirectoryCacheEntry) (st : FilelistState)
    (seen : OriginSeen) : SmbwrpFileinfo → Prop
  | here : Origin ph cached st seen (nameEntry (bytes "."))
  | above : Origin ph cached st seen (nameEntry (bytes ".."))
  | shared {share : CString} : (share, false) ∈ seen.shares → share ≠ bytes "IPC$" →
      Origin ph cached st seen (nameEntry share)
  | reported {search : Search} {info : SmbwrpFileinfo} : search ∈ seen.searches →
      search.mask = st.mask → info ∈ search.entries → Origin ph cached st seen info
  | cached {pdce : DirectoryCacheEntry} {info : SmbwrpFileinfo} : pdce ∈ cached →
      ListedUnder ph st pdce → info ∈ pdce.aInfos → Origin ph cached st seen info

/-- What was given to NetDrive is an entry behind the directory that mask and attributes ask for. -/
def Accounts (ph : Platform) (cached : List DirectoryCacheEntry) (st : FilelistState)
    (seen : OriginSeen) (given : CString × SmbwrpFileinfo) : Prop :=
  ∃ srv info, Origin ph cached st seen info ∧
    given = (reportedName srv (listedInfo st info), listedInfo st info) ∧
    passesFilter ph st.ulAttribute (some st.dirMask) given.1 given.2 = true

def Filled (ph : Platform) (cached : List DirectoryCacheEntry) (st : FilelistState)
    (seen : OriginSeen) (pdce : DirectoryCacheEntry) : Prop :=
  pdce ∈ cached ∨ ListedUnder ph st pdce ∧ seen.Showed st.mask pdce.aInfos

structure Traced (ph : Platform) (cached : List DirectoryCacheEntry) (st : FilelistState)
    (seen : OriginSeen) (pdc : Option DirectoryCache) : Prop where
  given : ∀ given ∈ seen.given, Accounts ph cached st seen given
  kept : ∀ pdce ∈ listings pdc, Filled ph cached st seen pdce

section Growth

variable {ph : Platform} {cached : List DirectoryCacheEntry} {st : FilelistState}
  {seen later latest : OriginSeen} {info : SmbwrpFileinfo} {given : CString × SmbwrpFileinfo}

structure OriginSeen.Covers (seen later : OriginSeen) : Prop where
  searches : ∀ search ∈ seen.searches,
    ∃ after ∈ later.searches, after.mask = search.mask ∧ search.entries ⊆ after.entries
  shares : seen.shares ⊆ later.shares

theorem OriginSeen.Covers.refl (seen : OriginSeen) : seen.Covers seen :=
  ⟨fun search member => ⟨search, member, rfl, List.Subset.refl _⟩, List.Subset.refl _⟩

theorem Origin.mono (origin : Origin ph cached st seen info) (covers : seen.Covers later) :
    Origin ph cached st later info := by
  cases origin with
  | here => exact .here
  | above => exact .above
  | shared member visible => exact .shared (covers.shares member) visible
  | reported member same listed =>
      obtain ⟨after, found, mask, more⟩ := covers.searches _ member
      exact .reported found (mask.trans same) (more listed)
  | cached member matched listed => exact .cached member matched listed

theorem Accounts.mono (accounts : Accounts ph cached st seen given) (covers : seen.Covers later) :
    Accounts ph cached st later given := by
  obtain ⟨srv, info, origin, same, passes⟩ := accounts
  exact ⟨srv, info, origin.mono covers, same, passes⟩

theorem Search.Fills.called {search : Search} {infos : List SmbwrpFileinfo}
    (fills : search.Fills infos) (status : UInt32) : (search.called status).Fills infos := by
  refine ⟨fills.first, fun uncut => fills.whole ?_⟩
  exact (Bool.or_eq_false_iff.mp uncut).1

structure OriginSeen.Keeps (seen later : OriginSeen) : Prop extends seen.Covers later where
  showed : ∀ mask infos, seen.Showed mask infos → later.Showed mask infos

theorem OriginSeen.Keeps.refl (seen : OriginSeen) : seen.Keeps seen :=
  ⟨.refl seen, fun _ _ showed => showed⟩

theorem OriginSeen.keeps_begins (seen : OriginSeen) (mask : CString) :
    seen.Keeps (seen.begins mask) where
  searches search member := ⟨search, List.mem_cons_of_mem _ member, rfl, List.Subset.refl _⟩
  shares := List.Subset.refl _
  showed mask infos showed := by
    obtain ⟨search, member, same, fills⟩ := showed
    exact ⟨search, List.mem_cons_of_mem _ member, same, fills⟩

theorem OriginSeen.keeps_enumerates (seen : OriginSeen) (shares : List (CString × Bool)) :
    seen.Keeps (seen.enumerates shares) where
  searches search member := ⟨search, member, rfl, List.Subset.refl _⟩
  shares := List.subset_append_left _ _
  showed _ _ showed := showed

def Traceable (ph : Platform) (cached : List DirectoryCacheEntry) (st : FilelistState)
    (seen : OriginSeen) : Prop :=
  ∀ given ∈ seen.given, Accounts ph cached st seen given

theorem Traceable.covered (traceable : Traceable ph cached st seen) (covers : seen.Covers later)
    (same : later.given = seen.given) : Traceable ph cached st later := by
  intro given member
  rw [same] at member
  exact (traceable given member).mono covers

theorem Traced.keeps {pdc left : Option DirectoryCache} (traced : Traced ph cached st seen pdc)
    (keeps : seen.Keeps later) (traceable : Traceable ph cached st later)
    (fewer : listings left ⊆ listings pdc) : Traced ph cached st later left where
  given := traceable
  kept pdce member :=
    (traced.kept pdce (fewer member)).imp_right fun new => ⟨new.1, keeps.showed _ _ new.2⟩

theorem Traced.fewer {pdc left : Option DirectoryCache} (traced : Traced ph cached st seen pdc)
    (fewer : listings left ⊆ listings pdc) : Traced ph cached st seen left :=
  traced.keeps (.refl seen) traced.given fewer

end Growth

theorem Smaller.listings {pdc left : Option DirectoryCache} (fewer : Smaller left pdc) :
    listings left ⊆ listings pdc := by
  intro pdce member
  cases left with
  | none => cases member
  | some cache =>
      obtain ⟨whole, rfl, -, kept⟩ := fewer cache rfl
      exact kept member

section Writing

variable {ph : Platform} {srv : SmbwrpServer} {cached : List DirectoryCacheEntry}
  {st : FilelistState} {seen : OriginSeen} {info : SmbwrpFileinfo}
  {entries rest : List SmbwrpFileinfo} {pdce : DirectoryCacheEntry}
  {dircachectx : Option DirectoryCacheEntry} {pdc : Option DirectoryCache}

/-- The listing holds the entries but for the `rest`, unless memory has failed. -/
structure WritingOf (ph : Platform) (st : FilelistState) (entries rest : List SmbwrpFileinfo)
    (pdce : DirectoryCacheEntry) : Prop where
  under : ListedUnder ph st pdce
  written : pdce.fInvalid = false → pdce.aInfos ++ rest = entries

structure Midst (ph : Platform) (cached : List DirectoryCacheEntry) (st : FilelistState)
    (old : OriginSeen) (search : Search) (seen : OriginSeen) : Prop where
  traceable : Traceable ph cached st seen
  searches : seen.searches = search :: old.searches
  shares : seen.shares = old.shares

variable {old : OriginSeen} {search : Search}

theorem Midst.origin (midst : Midst ph cached st old search seen) (same : search.mask = st.mask)
    (listed : info ∈ search.entries) : Origin ph cached st seen info :=
  .reported (midst.searches ▸ List.mem_cons_self) same listed

theorem Midst.answered (midst : Midst ph cached st old search seen) (infos : List SmbwrpFileinfo) :
    Midst ph cached st old (search.answered infos) (seen.latest (·.answered infos)) := by
  have searches : (seen.latest (·.answered infos)).searches =
      search.answered infos :: old.searches := by
    change seen.searches.modifyHead _ = _
    rw [midst.searches]
    rfl
  refine ⟨fun given member => ?_, searches, midst.shares⟩
  refine (midst.traceable given member).mono ⟨fun other among => ?_, List.Subset.refl _⟩
  rw [midst.searches] at among
  rw [searches]
  rcases List.mem_cons.mp among with rfl | older
  · exact ⟨_, List.mem_cons_self, rfl, List.subset_append_left _ _⟩
  · exact ⟨other, List.mem_cons_of_mem _ older, rfl, List.Subset.refl _⟩

structure EntriesTraced (ph : Platform) (cached : List DirectoryCacheEntry) (st : FilelistState)
    (old : OriginSeen) (search : Search) (answer : RepliedEntries × ListProgress)
    (later : OriginSeen) (cut : Bool) (rest : List SmbwrpFileinfo) : Prop where
  midst : Midst ph cached st old { search with cut } later
  writing : ∀ pdce, answer.2.dircachectx = some pdce → WritingOf ph st search.entries rest pdce
  whole : cut = false → rest = []
  ended : cut = true → ∃ status, answer.1 = .status status ∧ status ≠ ntStatusOk

def FilledBy (ph : Platform) (st : FilelistState) (search : Search)
    (dircachectx : Option DirectoryCacheEntry) : Prop :=
  ∀ pdce, dircachectx = some pdce →
    ListedUnder ph st pdce ∧ (pdce.fInvalid = false → search.Fills pdce.aInfos)

theorem EntriesTraced.filled {answer : RepliedEntries × ListProgress} {later : OriginSeen}
    {cut : Bool} (ended : EntriesTraced ph cached st old search answer later cut rest) :
    FilledBy ph st { search with cut } answer.2.dircachectx := by
  intro pdce present
  have writing := ended.writing pdce present
  refine ⟨writing.under, fun valid => ⟨⟨rest, writing.written valid⟩, fun uncut => ?_⟩⟩
  have whole := writing.written valid
  rw [ended.whole uncut, List.append_nil] at whole
  exact whole

variable {cli : Handle} {later : OriginSeen} {left : Option DirectoryCache}

theorem Midst.keeps (midst : Midst ph cached st old search seen) : old.Keeps seen := by
  have among (other : Search) (member : other ∈ old.searches) : other ∈ seen.searches := by
    rw [midst.searches]
    exact List.mem_cons_of_mem _ member
  refine ⟨⟨fun other member => ⟨other, among other member, rfl, List.Subset.refl _⟩, ?_⟩, ?_⟩
  · rw [midst.shares]
    exact List.Subset.refl _
  · rintro mask infos ⟨other, member, filled⟩
    exact ⟨other, among other member, filled⟩

theorem Traced.begins (traced : Traced ph cached st seen pdc) :
    Midst ph cached st seen { mask := st.mask } (seen.begins st.mask) :=
  ⟨Traceable.covered traced.given (seen.keeps_begins st.mask).toCovers rfl, rfl, rfl⟩

theorem Traced.during (traced : Traced ph cached st old pdc)
    (midst : Midst ph cached st old search seen) : Traced ph cached st seen pdc :=
  traced.keeps midst.keeps midst.traceable (List.Subset.refl _)

theorem Traced.origin (traced : Traced ph cached st seen pdc) (member : pdce ∈ listings pdc)
    (under : ListedUnder ph st pdce) (listed : info ∈ pdce.aInfos) :
    Origin ph cached st seen info := by
  rcases traced.kept pdce member with older | ⟨-, search, among, same, fills⟩
  · exact .cached older under listed
  · exact .reported among same (fills.first.subset listed)

theorem Traced.enumerates (traced : Traced ph cached st seen pdc) (shares : List (CString × Bool)) :
    Traced ph cached st (seen.enumerates shares) pdc :=
  traced.keeps (seen.keeps_enumerates shares)
    (Traceable.covered traced.given (seen.keeps_enumerates shares).toCovers rfl)
    (List.Subset.refl _)

end Writing

/-- The last element of the path, as `fsphNameElem` has given it at the beginning. -/
def nameElement : List CallEvent → Option Ndpathelement
  | ⟨.fsphNameElem, pel⟩ :: _ => pel
  | _ => none

/-- The call lists `directory`: the path is one that is parsed, and what it names behind that
directory goes to the server and into the key of the cache alike. -/
structure ListsDirectory (pRes : Resource) (szPath : CString) (trace : List CallEvent)
    (directory : CString) : Prop where
  short : szPath.length ≤ cchmaxpath - 1
  rooted : szPath.head? = some backslash
  part : DirectoryPart szPath (nameElement trace) directory
  fits : RequestFits pRes szPath (nameElement trace) directory

structure AsksFor (pRes : Resource) (directory mask : CString) (ulAttribute : UInt32)
    (st : FilelistState) : Prop where
  request : ConsistentRequest pRes directory st
  dirMask : st.dirMask = mask
  attributes : st.ulAttribute = ulAttribute

section Call

variable {ph : Platform} {s : Session} {cached : List DirectoryCacheEntry} {st : FilelistState}
  {seen : OriginSeen} {szPath : CString}

end Call

/-! Every history of a mounted Resource. -/

section Runs

variable {ph : Platform} {pRes : Resource} {history : List (Taken Op Call Int)} {system : System}

def directoryMask (pRes : Resource) (directory : CString) : CString :=
  closeSlash (pRes.askedPath directory) ++ bytes "*"

/-- Some call of the history has searched the directory under whose path the listing is kept, and
the listing is what the server has reported to it. -/
def ReportedIn (ph : Platform) (pRes : Resource) (history : List (Taken Op Call Int))
    (pdce : DirectoryCacheEntry) : Prop :=
  ∃ taken ∈ history, ∃ conn szPath ulAttribute directory,
    taken.label = .on conn (.findStart szPath ulAttribute) ∧
      ListsDirectory pRes szPath taken.trace directory ∧
        dcMatches ph directory false pdce = true ∧
          (originSeen ph taken.trace).Showed (directoryMask pRes directory) pdce.aInfos

theorem ReportedIn.behind {pdce : DirectoryCacheEntry} (taken : Taken Op Call Int)
    (reported : ReportedIn ph pRes history pdce) :
    ReportedIn ph pRes (history ++ [taken]) pdce := by
  obtain ⟨earlier, member, rest⟩ := reported
  exact ⟨earlier, List.mem_append_left _ member, rest⟩

theorem SameMount.askedPath {later : Resource} (same : SameMount pRes later) (path : CString) :
    later.askedPath path = pRes.askedPath path := by
  have levels : later.levels = pRes.levels := by
    rw [Resource.levels, same.rootlevel]
    rfl
  rw [Resource.askedPath, Resource.askedPath, Resource.serverPath, Resource.serverPath, levels]

theorem SameMount.asksFor {later : Resource} {directory mask : CString} {ulAttribute : UInt32}
    {st : FilelistState} (same : SameMount pRes later)
    (asks : AsksFor later directory mask ulAttribute st) :
    AsksFor pRes directory mask ulAttribute st where
  request := by
    obtain ⟨dir, search, key, fields, locals⟩ := asks.request
    rw [same.askedPath] at dir
    exact ⟨dir, search, key, fields, locals⟩
  dirMask := asks.dirMask
  attributes := asks.attributes

theorem AsksFor.searched {directory mask : CString} {ulAttribute : UInt32} {st : FilelistState}
    (asks : AsksFor pRes directory mask ulAttribute st) :
    st.mask = directoryMask pRes directory := by
  rw [asks.request.mask, asks.request.dir]
  rfl

end Runs

end NdpSmb
