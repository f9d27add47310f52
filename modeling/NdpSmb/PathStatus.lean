import NdpSmb.FindRequest
import NdpSmb.ListingFailure
import NdpSmb.MoveTarget

/-!
What `NdpQueryPathInfo` says about a path of a share that holds a tree of files: the path is
there, or it is missing in a directory, or it is missing otherwise.
-/

namespace NdpSmb

open ByteString Interaction

def pathNames (path : CString) : List CString := (path.splitOn backslash).filter fun name => name ≠ []

def rootedPath (names : List CString) : CString :=
  if names = [] then [backslash] else names.flatMap fun name => backslash :: name

def PlainNames (names : List CString) : Prop := ∀ name ∈ names, name ≠ [] ∧ backslash ∉ name

instance (names : List CString) : Decidable (PlainNames names) :=
  inferInstanceAs (Decidable (∀ name ∈ names, name ≠ [] ∧ backslash ∉ name))

section Names

variable {names : List CString} {name last : CString}

theorem pathNames_append (first rest : CString) :
    pathNames (first ++ backslash :: rest) = pathNames first ++ pathNames rest := by
  rw [pathNames, List.splitOn_append_cons_self, List.filter_append]
  rfl

theorem pathNames_slash (rest : CString) : pathNames (backslash :: rest) = pathNames rest :=
  pathNames_append [] rest

theorem pathNames_plain (present : name ≠ []) (absent : backslash ∉ name) :
    pathNames name = [name] := by
  rw [pathNames, List.splitOn_eq_singleton absent, List.filter_singleton]
  simp [present]

theorem PlainNames.tail (plain : PlainNames (name :: names)) : PlainNames names :=
  fun _ member => plain _ (List.mem_cons_of_mem name member)

theorem PlainNames.before {upper : List CString} (plain : PlainNames (upper ++ [last])) :
    PlainNames upper :=
  fun _ member => plain _ (List.mem_append_left [last] member)

theorem PlainNames.drop (plain : PlainNames names) (count : Nat) : PlainNames (names.drop count) :=
  fun _ member => plain _ (List.mem_of_mem_drop member)

theorem pathNames_joined (plain : PlainNames names) :
    pathNames (names.flatMap fun name => backslash :: name) = names := by
  induction names with
  | nil => rfl
  | cons name rest ih =>
      obtain ⟨present, absent⟩ := plain name List.mem_cons_self
      rw [List.flatMap_cons, List.cons_append, pathNames_slash]
      cases rest with
      | nil =>
          rw [List.flatMap_nil, List.append_nil]
          exact pathNames_plain present absent
      | cons next more =>
          have inner := ih plain.tail
          rw [List.flatMap_cons, List.cons_append, pathNames_slash] at inner
          rw [List.flatMap_cons, List.cons_append, pathNames_append, inner,
            pathNames_plain present absent]
          rfl

theorem pathNames_rootedPath (plain : PlainNames names) : pathNames (rootedPath names) = names := by
  unfold rootedPath
  split
  · rename_i empty
    rw [empty]
    rfl
  · exact pathNames_joined plain

theorem rootedPath_ne_nil (names : List CString) : rootedPath names ≠ [] := by
  unfold rootedPath
  split
  · exact List.cons_ne_nil _ _
  · rename_i present
    obtain ⟨name, rest, rfl⟩ := List.exists_cons_of_ne_nil present
    exact List.cons_ne_nil _ _

theorem cutLast_rootedPath (upper : List CString) (absent : backslash ∉ last) :
    cutLast backslash (rootedPath (upper ++ [last])) =
      some (if upper = [] then [] else rootedPath upper, last) := by
  refine (cutLast_eq_some_iff backslash).mpr ⟨?_, absent⟩
  unfold rootedPath
  have present : upper ++ [last] ≠ [] := by simp
  rw [if_neg present, List.flatMap_append, List.flatMap_singleton]
  split
  · rename_i empty
    rw [empty]
    rfl
  · rfl

theorem behindComponents_joined (plain : PlainNames names) (count : Nat) :
    behindComponents count (dropSlash (names.flatMap fun name => backslash :: name)) =
      dropSlash ((names.drop count).flatMap fun name => backslash :: name) := by
  induction count generalizing names with
  | zero => rfl
  | succ count ih =>
      cases names with
      | nil => exact behindComponents_nil (count + 1)
      | cons name rest =>
          have absent := (plain name List.mem_cons_self).2
          have inner := ih plain.tail
          rw [List.flatMap_cons, List.cons_append, List.drop_succ_cons, behindComponents]
          cases rest with
          | nil =>
              rw [List.flatMap_nil, List.append_nil]
              change behindComponents count (nextComponent name).2 = _
              rw [nextComponent_single absent]
              exact inner
          | cons next more =>
              rw [List.flatMap_cons, List.cons_append] at inner ⊢
              change behindComponents count (nextComponent (name ++ backslash :: _)).2 = _
              rw [nextComponent_append absent]
              exact inner

theorem rootedPath_eq (names : List CString) :
    rootedPath names = backslash :: dropSlash (names.flatMap fun name => backslash :: name) := by
  unfold rootedPath
  split
  · rename_i empty
    rw [empty]
    rfl
  · rename_i present
    obtain ⟨name, rest, rfl⟩ := List.exists_cons_of_ne_nil present
    rfl

def askedNames (pRes : Resource) (names : List CString) : List CString :=
  if iftestpath (rootedPath names) then [lfnProbe] else names.drop pRes.levels

theorem plain_askedNames (pRes : Resource) (plain : PlainNames names) :
    PlainNames (askedNames pRes names) := by
  unfold askedNames
  split
  · decide
  · exact plain.drop _

theorem askedPath_rootedPath (pRes : Resource) (plain : PlainNames names) :
    pRes.askedPath (rootedPath names) = rootedPath (askedNames pRes names) := by
  unfold Resource.askedPath askedNames
  split
  · rfl
  · have levelled := behindComponents_joined plain pRes.levels
    have slashed : dropSlash (rootedPath names) =
        dropSlash (names.flatMap fun name => backslash :: name) := by
      rw [rootedPath_eq]
      rfl
    rw [Resource.serverPath, slashed, levelled, ← rootedPath_eq]

end Names

/-! A share with its files. -/

inductive Node
  | file
  | directory
  deriving DecidableEq

/-- The objects of a share by their paths, whether the server has the NT calls, and the error it
gives for a path that is missing. -/
structure FileServer where
  node : List CString → Option Node
  ntSmbs : Bool
  errno : List CString → Int
  root : node [] = some .directory
  parents : ∀ path name, node (path ++ [name]) ≠ none → node path = some .directory
  /-- Where a directory is missing, the error depends on the server. -/
  refuses : ∀ path name, node (path ++ [name]) = none →
    if node path = some .directory then errno (path ++ [name]) = enoent
    else errno (path ++ [name]) ∈ [enoent, enotdir, einval]

namespace FileServer

variable (server : FileServer)

def Tells (fname : CString) (reply : Option BasicInfo) : Prop :=
  match server.node (pathNames fname) with
  | none => reply = none
  | some node => ∃ info, reply = some info ∧ (info.attr.toUInt32 &&& aDir ≠ 0 ↔ node = .directory)

/-- What `NdpQueryPathInfo` has to say about a path. -/
def status (names : List CString) : Int :=
  if server.node names ≠ none then noError
  else if server.node names.dropLast = some .directory then errorFileNotFound
  else errorPathNotFound

structure Classifies (names : List CString) (rc : Int) : Prop where
  found : rc = noError ↔ server.node names ≠ none
  missing : rc = errorFileNotFound ↔
    server.node names = none ∧ server.node names.dropLast = some .directory
  misled : rc = errorPathNotFound ↔
    server.node names = none ∧ server.node names.dropLast ≠ some .directory

variable {server} {names : List CString} {rc : Int}

theorem classifies_iff : server.Classifies names rc ↔ rc = server.status names := by
  unfold status
  constructor
  · intro classified
    split
    · rename_i here
      exact classified.found.mpr here
    · rename_i gone
      have gone := not_not.mp gone
      split
      · rename_i inside
        exact classified.missing.mpr ⟨gone, inside⟩
      · rename_i outside
        exact classified.misled.mpr ⟨gone, outside⟩
  · intro told
    have codes : noError ≠ errorFileNotFound ∧ noError ≠ errorPathNotFound ∧
        errorFileNotFound ≠ errorPathNotFound := by decide
    obtain ⟨first, second, third⟩ := codes
    by_cases gone : server.node names = none
    · by_cases inside : server.node names.dropLast = some .directory
      · simp only [gone, ne_eq, not_true, if_false, inside, if_true] at told
        constructor <;> simp [gone, inside, told, first.symm, third]
      · simp only [gone, ne_eq, not_true, if_false, inside] at told
        constructor <;> simp [gone, inside, told, second.symm, third.symm]
    · simp only [ne_eq, gone, not_false_iff, if_true] at told
      constructor <;> simp [gone, told, first, second]

/-- The error with which a question about a missing path comes back: of an NT server `EINVAL` is
taken for `ENOTDIR`. -/
def reported (server : FileServer) (names : List CString) : Int :=
  if server.ntSmbs ∧ server.errno names = einval then enotdir else server.errno names

def answered (server : FileServer) (names : List CString) : Int :=
  if server.node names = none ∧ server.reported names = einval then errorInvalidParameter
  else server.status names

end FileServer

def infoReply : CallEvent → Option (CString × Option BasicInfo)
  | ⟨.request _ (.cliQpathinfo2 fname), reply⟩ => some (fname, reply)
  | ⟨.request _ (.cliQpathinfo3 fname), reply⟩ => some (fname, reply)
  | ⟨.request _ (.cliGetatr fname), reply⟩ => some (fname, reply)
  | _ => none

/-- The connection is alive, and what is asked on it is answered from the share. The error is that
of the last question. -/
def shareWatch (server : FileServer) : Watch Op (List CString) where
  observe asked event :=
    match infoReply event with
    | some (fname, _) => pathNames fname
    | none => asked
  admits asked event :=
    (∀ told ∈ infoReply event, server.Tells told.1 told.2) ∧
    match event with
    | ⟨.fsphRequestMutex, rcLock⟩ => rcLock = (0 : Int)
    | ⟨.smbwrpConnect .., reply⟩ => ∃ cli, reply = ConnectReply.connected cli
    | ⟨.request _ .cliEcho, echoed⟩ => echoed = true
    | ⟨.request _ .connCapNtSmbs, ntSmbs⟩ => ntSmbs = server.ntSmbs
    | ⟨.request _ .cliErrno, errno⟩ => server.node asked = none → errno = server.errno asked
    | _ => True
  crash _ := False

section Questions

variable {server : FileServer} {srv : SmbwrpServer} {cli : Handle} {names upper : List CString}
  {last : CString} {finfo : SmbwrpFileinfo} {asked : List CString}

theorem storeAttr_dir (attr : UInt32) (low : UInt16) :
    storeAttr attr low &&& 0x7F &&& aDir = low.toUInt32 &&& aDir := by
  have kept : (0x7F : UInt32) &&& aDir = aDir := by decide
  rw [UInt32.and_assoc, kept, storeAttr_and (by decide)]

structure Asked (server : FileServer) (names : List CString) (finfo : SmbwrpFileinfo)
    (answer : Int × SmbwrpFileinfo) : Prop where
  kept : answer.2.fname = finfo.fname
  found : server.node names ≠ none → answer.1 = noError ∧
    (answer.2.attr &&& aDir ≠ 0 ↔ server.node names = some .directory)
  missing : server.node names = none → answer.1 = maperror (server.reported names)

theorem asked_fill {info : BasicInfo} (plain : PlainNames names)
    (told : server.Tells (rootedPath names) (some info)) :
    Asked server names finfo (0, finfo.fill info) := by
  rw [FileServer.Tells, pathNames_rootedPath plain] at told
  cases here : server.node names with
  | none =>
      rw [here] at told
      cases told
  | some node =>
      rw [here] at told
      obtain ⟨other, same, directory⟩ := told
      obtain rfl := Option.some.inj same
      refine ⟨rfl, fun _ => ⟨rfl, ?_⟩, fun gone => ?_⟩
      · rw [SmbwrpFileinfo.fill, storeAttr_dir, directory, here, Option.some.injEq]
      · rw [here] at gone
        cases gone

theorem node_of_untold (plain : PlainNames names)
    (told : server.Tells (rootedPath names) none) : server.node names = none := by
  rw [FileServer.Tells, pathNames_rootedPath plain] at told
  cases here : server.node names with
  | none => rfl
  | some node =>
      rw [here] at told
      obtain ⟨info, same, -⟩ := told
      cases same

theorem untold_of_node (plain : PlainNames names) (gone : server.node names = none)
    {reply : Option BasicInfo} (told : server.Tells (rootedPath names) reply) : reply = none := by
  rw [FileServer.Tells, pathNames_rootedPath plain, gone] at told
  exact told

theorem ensures_smbwrpGetattr_share (named : srv.NamesShare) (plain : PlainNames names)
    (path : finfo.fname = rootedPath names) :
    (shareWatch server).Ensures (fun answer _ => Asked server names finfo answer)
      (smbwrpGetattr srv (some cli) finfo) asked := by
  have named : ¬ (srv.serverName = [] ∨ srv.shareName = [] ∨ isIpc srv.shareName = true) := by
    rintro (server | share | ipc)
    · exact named.server server
    · exact named.share share
    · rw [named.files] at ipc
      cases ipc
  rw [smbwrpGetattr, path, if_neg (rootedPath_ne_nil names)]
  refine Watch.ensures_perform_bind.mpr fun first admitted => ?_
  have told := admitted.1 _ rfl
  cases first with
  | some info => exact asked_fill plain told
  | none =>
  have gone := node_of_untold plain told
  refine Watch.ensures_perform_bind.mpr fun second admitted => ?_
  have told := admitted.1 _ rfl
  cases second with
  | some info => exact asked_fill plain told
  | none =>
  simp only [if_neg named]
  have last : pathNames (rootedPath names) = names := pathNames_rootedPath plain
  refine Watch.ensures_perform_bind.mpr fun nt admitted => ?_
  have capability : nt = server.ntSmbs := admitted.2
  cases nt with
  | true =>
      refine Watch.ensures_perform_bind.mpr fun errno admitted => ?_
      have error : server.node (pathNames (rootedPath names)) = none →
          errno = server.errno (pathNames (rootedPath names)) := admitted.2
      rw [last] at error
      refine ⟨rfl, fun here => absurd gone here, fun _ => ?_⟩
      simp only [FileServer.reported, ← capability, true_and, error gone]
  | false =>
      refine Watch.ensures_perform_bind.mpr fun legacy admitted => ?_
      obtain rfl := untold_of_node plain gone (admitted.1 _ rfl)
      refine Watch.ensures_perform_bind.mpr fun errno admitted => ?_
      have error : server.node (pathNames (rootedPath names)) = none →
          errno = server.errno (pathNames (rootedPath names)) := admitted.2
      rw [last] at error
      refine ⟨rfl, fun here => absurd gone here, fun _ => ?_⟩
      simp only [FileServer.reported, ← capability, Bool.false_eq_true, false_and, if_false,
        error gone]

theorem reported_cases (gone : server.node (upper ++ [last]) = none) :
    server.node upper = some .directory ∧ server.reported (upper ++ [last]) = enoent ∨
    server.node upper ≠ some .directory ∧
      server.reported (upper ++ [last]) ∈ [enoent, enotdir, einval] := by
  have refused := server.refuses upper last gone
  unfold FileServer.reported
  split at refused
  · rename_i inside
    refine .inl ⟨inside, ?_⟩
    have other : ¬ (server.ntSmbs = true ∧ enoent = einval) := fun both => absurd both.2 (by decide)
    rw [refused, if_neg other]
  · rename_i outside
    refine .inr ⟨outside, ?_⟩
    split
    · decide
    · exact refused

theorem split_of_missing (gone : server.node names = none) :
    ∃ upper last, names = upper ++ [last] := by
  rcases List.eq_nil_or_concat names with rfl | ⟨upper, last, rfl⟩
  · rw [server.root] at gone
    cases gone
  · exact ⟨upper, last, List.concat_eq_append⟩

theorem maperror_reported (gone : server.node names = none) :
    maperror (server.reported names) ∈
      [errorFileNotFound, errorPathNotFound, errorInvalidParameter] := by
  obtain ⟨upper, last, rfl⟩ := split_of_missing gone
  have errors : server.reported (upper ++ [last]) ∈ [enoent, enotdir, einval] := by
    rcases reported_cases gone with ⟨-, error⟩ | ⟨-, errors⟩
    · rw [error]
      decide
    · exact errors
  simp only [List.mem_cons, List.not_mem_nil, or_false] at errors
  rcases errors with error | error | error <;> rw [error] <;> decide

theorem status_missing (gone : server.node (upper ++ [last]) = none) :
    server.status (upper ++ [last]) =
      if server.node upper = some .directory then errorFileNotFound else errorPathNotFound := by
  rw [FileServer.status, if_neg (not_not.mpr gone), List.dropLast_concat]

theorem ensures_upperPath_share {s : Session} (named : s.pRes.srv.NamesShare)
    (connected : s.pConn.cli = some cli) (plain : PlainNames (upper ++ [last]))
    (path : finfo.fname = rootedPath (upper ++ [last]))
    (gone : server.node (upper ++ [last]) = none) :
    (shareWatch server).Ensures (fun rc _ => rc = server.status (upper ++ [last]))
      (upperPath s finfo) asked := by
  have absent : backslash ∉ last := (plain last (List.mem_concat_self)).2
  rw [upperPath, path, cutLast_rootedPath upper absent, status_missing gone]
  by_cases root : upper = []
  · simp only [root, if_true, server.root]
    rfl
  · simp only [if_neg root, if_neg (rootedPath_ne_nil upper)]
    rw [connected]
    have inner : (shareWatch server).Ensures _ (smbwrpGetattr s.pRes.srv (some cli)
        { finfo with fname := rootedPath upper }) asked :=
      ensures_smbwrpGetattr_share named plain.before rfl
    apply inner.bind
    rintro ⟨rc, given⟩ _ told
    by_cases here : server.node upper = none
    · have error : rc = maperror (server.reported upper) := told.missing here
      have codes := maperror_reported here
      rw [← error] at codes
      have others : ∀ code ∈ [errorFileNotFound, errorPathNotFound, errorInvalidParameter],
          code ≠ noError ∧ code ≠ errorRemNotList := by decide
      obtain ⟨failed, listed⟩ := others rc codes
      have outside : server.node upper ≠ some .directory := by
        rw [here]
        exact (Option.some_ne_none _).symm
      rw [if_neg failed, if_neg listed, if_neg outside]
      rfl
    · obtain ⟨rfl, directory⟩ := told.found here
      simp only [if_true, Watch.ensures_pure]
      by_cases inside : server.node upper = some .directory
      · rw [if_pos (directory.mpr inside), if_pos inside]
      · rw [if_neg (fun set => inside (directory.mp set)), if_neg inside]

theorem ensures_giveFileinfo_share (ph : Platform) (s : Session) (finfo : SmbwrpFileinfo) :
    (shareWatch server).Ensures (fun _ _ => True) (giveFileinfo ph s finfo) asked := by
  refine Watch.ensures_bind.mpr ?_
  simp only [getfindinfoL]
  split
  · exact fun _ _ => trivial
  · trivial

theorem ensures_queryAlive_share (ph : Platform) {s : Session} (named : s.pRes.srv.NamesShare)
    (connected : s.pConn.cli = some cli) (plain : PlainNames names)
    (path : finfo.fname = rootedPath names) :
    (shareWatch server).Ensures (fun answer _ => answer.1 = server.answered names)
      (queryAlive ph s finfo) asked := by
  rw [queryAlive, connected]
  have first : (shareWatch server).Ensures _ (smbwrpGetattr s.pRes.srv (some cli) finfo) asked :=
    ensures_smbwrpGetattr_share named plain path
  apply first.bind
  rintro ⟨rc, given⟩ later told
  by_cases here : server.node names = none
  · have error : rc = maperror (server.reported names) := told.missing here
    have codes := maperror_reported here
    rw [← error] at codes
    have others : ∀ code ∈ [errorFileNotFound, errorPathNotFound, errorInvalidParameter],
        code ≠ noError ∧ code ≠ errorRemNotList ∧ getattrRc code = code := by decide
    obtain ⟨failed, listed, same⟩ := others rc codes
    simp only [retryGetattr, if_neg listed, same, Prog.pure_eq, Prog.ret_bind, if_neg failed]
    obtain ⟨upper, last, rfl⟩ := split_of_missing here
    have kept : given.fname = rootedPath (upper ++ [last]) := told.kept.trans path
    by_cases absent : server.reported (upper ++ [last]) = enoent
    · have answer : server.answered (upper ++ [last]) = server.status (upper ++ [last]) := by
        rw [FileServer.answered, absent, if_neg (fun both => absurd both.2 (by decide))]
      have missing : rc = errorFileNotFound := by
        rw [error, absent]
        rfl
      rw [if_pos missing, answer]
      exact Watch.ensures_bind.mpr (ensures_upperPath_share named connected plain kept here)
    · obtain ⟨outside, errors⟩ := (reported_cases here).resolve_left fun inside => absent inside.2
      have status : server.status (upper ++ [last]) = errorPathNotFound := by
        rw [status_missing here, if_neg outside]
      simp only [List.mem_cons, absent, List.not_mem_nil, or_false, false_or] at errors
      rcases errors with enotdir | einval
      · rw [enotdir] at error
        rw [error, if_neg (by decide), Watch.ensures_ret, FileServer.answered, enotdir,
          if_neg (fun both => absurd both.2 (by decide)), status]
        rfl
      · rw [einval] at error
        rw [error, if_neg (by decide), Watch.ensures_ret, FileServer.answered,
          if_pos ⟨here, einval⟩]
        rfl
  · obtain ⟨rfl, -⟩ := told.found here
    have answer : server.answered names = noError := by
      rw [FileServer.answered, if_neg (fun gone => here gone.1), FileServer.status, if_pos here]
    rw [answer]
    refine Watch.ensures_bind.mpr ?_
    exact (ensures_giveFileinfo_share ph s given).mono fun _ _ _ => rfl

end Questions

/-! The path on the server, and the whole call. -/

def ParsesTo (ph : Platform) (pRes : Resource) (szPath : CString) (srv : SmbwrpServer) : Prop :=
  if iftestpath szPath then srv = pRes.srv
  else (parsePath ph pRes szPath).map ParsedPath.srv = some srv

def NoListing (ph : Platform) (pdc : Option DirectoryCache) (szPath : CString) : Prop :=
  ∀ cache ∈ pdc, ∀ entry ∈ cache.entries, dcMatches ph (parentPath szPath) false entry = false

section Call

variable {server : FileServer} {ph : Platform} {s : Session} {srv : SmbwrpServer}
  {names : List CString} {szPath : CString} {asked : List CString}

theorem dircacheFindPath_unlisted {pdc : Option DirectoryCache} (unlisted : NoListing ph pdc szPath) :
    dircacheFindPath ph pdc szPath = pure none := by
  cases pdc with
  | none => rfl
  | some cache =>
      have absent : dcLookup ph cache (parentPath szPath) (lastName szPath) = none := by
        refine List.findSome?_eq_none_iff.mpr fun entry member => if_neg ?_
        rw [unlisted cache rfl entry member]
        exact Bool.false_ne_true
      rw [dircacheFindPath, dcFindPath, absent]
      exact ite_self _

structure Parsed (s : Session) (szPath : CString) (srv : SmbwrpServer)
    (answer : Int × Session × CString) : Prop where
  rc : answer.1 = noError
  path : answer.2.2 = s.pRes.askedPath szPath
  share : answer.2.1.pRes.srv = srv
  connected : answer.2.1.pConn.cli ≠ none

theorem ensures_pathparser_share (parses : ParsesTo ph s.pRes szPath srv)
    (short : szPath.length ≤ cchmaxpath - 1) (alive : s.pConn.cli ≠ none) :
    (shareWatch server).Ensures (fun answer _ => Parsed s szPath srv answer)
      (pathparser ph s szPath) asked := by
  have room : cchmaxpath = 260 := rfl
  unfold pathparser
  unfold ParsesTo at parses
  split
  · rename_i probe
    rw [if_pos probe] at parses
    exact ⟨rfl, (if_pos probe).symm, parses.symm, alive⟩
  · rename_i plain
    rw [if_neg plain] at parses
    obtain ⟨parsed, found, rfl⟩ := Option.map_eq_some_iff.mp parses
    obtain ⟨other, again, split⟩ := parsePath_splitInto (parsePath_fits found)
    obtain rfl := Option.some.inj (again.symm.trans found)
    have bound : other.path.length < cchmaxpath := by
      have behind := length_behindComponents s.pRes.levels (dropSlash szPath)
      have dropped := length_dropSlash szPath
      rw [split.rest]
      omega
    have path : backslash :: other.path = s.pRes.askedPath szPath :=
      (congrArg _ split.rest).trans (if_neg plain).symm
    have finished {t : Session} (share : t.pRes.srv = other.srv) (connected : t.pConn.cli ≠ none)
        (later : List CString) : (shareWatch server).Ensures
          (fun answer _ => Parsed s szPath other.srv answer) (finishPath noError t other.path)
          later :=
      ensures_finishPath (fun long => absurd long (by omega)) fun _ => ⟨rfl, path, share, connected⟩
    rw [found]
    cases new : other.newlevel with
    | false =>
        simp only [new]
        exact finished ((parsePath_named found).2 new).symm alive asked
    | true =>
        simp only [new]
        refine Watch.ensures_bind.mpr (Watch.ensures_perform_bind.mpr fun reply admitted => ?_)
        obtain ⟨cli, rfl⟩ : ∃ cli, reply = .connected cli := admitted.2
        refine Watch.ensures_bind.mpr (ensures_smbwrpDisconnect (fun _ => ?_) fun _ _ => ?_)
        · exact finished rfl (Option.some_ne_none cli) _
        · exact finished rfl (Option.some_ne_none cli) _

theorem ensures_queryServer_share (named : s.pRes.srv.NamesShare) (alive : s.pConn.cli ≠ none)
    (plain : PlainNames names) {finfo : SmbwrpFileinfo} (path : finfo.fname = rootedPath names) :
    (shareWatch server).Ensures (fun answer _ => answer.1 = server.answered names)
      (queryServer ph s finfo) asked := by
  obtain ⟨cli, connected⟩ := Option.ne_none_iff_exists'.mp alive
  have questioned (later : List CString) : (shareWatch server).Ensures
      (fun answer _ => answer.1 = server.answered names) (queryAlive ph s finfo) later :=
    ensures_queryAlive_share ph named connected plain path
  rw [queryServer, connected]
  refine Watch.ensures_bind.mpr (Watch.ensures_perform_bind.mpr fun echoed admitted => ?_)
  obtain rfl : echoed = true := admitted.2
  apply (questioned _).bind
  intro _ _ told _ _
  exact told

theorem ensures_queryNetwork_share (named : srv.NamesShare) (plain : PlainNames names)
    (short : (rootedPath names).length ≤ cchmaxpath - 1)
    (parses : ParsesTo ph s.pRes (rootedPath names) srv) (alive : s.pConn.cli ≠ none)
    (finfo : SmbwrpFileinfo) :
    (shareWatch server).Ensures
      (fun answer _ => answer.1 = server.answered (askedNames s.pRes names))
      (queryNetwork ph s (rootedPath names) finfo) asked := by
  have room : cchmaxpath = 260 := rfl
  apply (ensures_pathparser_share parses short alive).bind
  rintro ⟨rc, t, path⟩ later ⟨zero, same, share, connected⟩
  simp only at zero same share connected
  have bound : path.length < 260 := by
    have shorter := length_askedPath_le s.pRes (dropSlash (names.flatMap (backslash :: ·)))
    rw [rootedPath_eq] at same short
    rw [same]
    rw [List.length_cons] at short
    omega
  rw [askedPath_rootedPath s.pRes plain] at same
  have served : parserRc rc = 0 := by
    rw [zero]
    rfl
  simp only [served, ne_eq, not_true, if_false, if_neg (Nat.not_le.mpr bound)]
  exact ensures_queryServer_share (share ▸ named) connected (plain_askedNames s.pRes plain) same

theorem ensures_ndpQueryPathInfo_share (named : srv.NamesShare) (plain : PlainNames names)
    (short : (rootedPath names).length ≤ cchmaxpath - 1)
    (exact : hasWildcard (rootedPath names) = false)
    (unlisted : NoListing ph s.pRes.pdc (rootedPath names))
    (parses : ParsesTo ph s.pRes (rootedPath names) srv) (alive : s.pConn.cli ≠ none) :
    (shareWatch server).Ensures
      (fun answer _ => answer.1 = server.answered (askedNames s.pRes names))
      (ndpQueryPathInfo ph s (rootedPath names)) asked := by
  refine ensures_enter (fun rcLock failed admitted => absurd admitted.2 failed) fun _ => ?_
  simp only [exact, Bool.false_eq_true, if_false, dircacheFindPath_unlisted unlisted]
  exact fun finfo _ => ensures_queryNetwork_share named plain short parses alive finfo

end Call

section Codes

variable {server : FileServer} {names : List CString}

theorem status_mem (server : FileServer) (names : List CString) :
    server.status names ∈ [noError, errorFileNotFound, errorPathNotFound] := by
  unfold FileServer.status
  split
  · decide
  · split <;> decide

theorem reported_eq_einval_iff :
    server.reported names = einval ↔ server.ntSmbs = false ∧ server.errno names = einval := by
  unfold FileServer.reported
  cases server.ntSmbs with
  | false => simp
  | true =>
      have other : enotdir ≠ einval := by decide
      by_cases invalid : server.errno names = einval
      · simp [invalid, other]
      · simp [invalid]

end Codes

/-- The probe for long names, which is looked for in the root, is found there as the path would
be, and a server without the NT calls gives another error than `EINVAL` for a missing path. -/
structure AnsweredPlainly (server : FileServer) (pRes : Resource) (names : List CString) :
    Prop where
  probe : iftestpath (rootedPath names) →
    server.status [lfnProbe] = server.status (names.drop pRes.levels)
  error : server.node (askedNames pRes names) = none → server.ntSmbs = false →
    server.errno (askedNames pRes names) ≠ einval

/-- The call returns, and its return code tells what the path is exactly when the server does not
make `EINVAL` of it without the NT calls, and the probe for long names is found where it is
looked for. -/
theorem queryPathInfo_classifies_iff (ph : Platform) (server : FileServer) (s : Session)
    {names : List CString} {srv : SmbwrpServer} (plain : PlainNames names)
    (short : (rootedPath names).length ≤ cchmaxpath - 1)
    (exact : hasWildcard (rootedPath names) = false)
    (unlisted : NoListing ph s.pRes.pdc (rootedPath names)) (alive : s.pConn.cli ≠ none)
    (parses : ParsesTo ph s.pRes (rootedPath names) srv) (named : srv.NamesShare)
    {trace : List CallEvent} {outcome : Option (Int × Session)}
    (run : Run (ndpQueryPathInfo ph s (rootedPath names)) trace outcome)
    (admitted : (shareWatch server).Admits [] trace) :
    ∃ rc t, outcome = some (rc, t) ∧
      (server.Classifies (names.drop s.pRes.levels) rc ↔ AnsweredPlainly server s.pRes names) := by
  have ensured : (shareWatch server).Ensures _ (ndpQueryPathInfo ph s (rootedPath names)) [] :=
    ensures_ndpQueryPathInfo_share named plain short exact unlisted parses alive
  have concluded := Watch.ensures_iff_runs.mp ensured trace outcome run admitted
  cases outcome with
  | none => exact absurd concluded id
  | some answer =>
  obtain ⟨rc, t⟩ := answer
  have told : rc = server.answered (askedNames s.pRes names) := concluded
  refine ⟨rc, t, rfl, ?_⟩
  rw [FileServer.classifies_iff]
  by_cases invalid : server.node (askedNames s.pRes names) = none ∧
      server.reported (askedNames s.pRes names) = einval
  · rw [told, FileServer.answered, if_pos invalid]
    have codes := status_mem server (names.drop s.pRes.levels)
    have others : errorInvalidParameter ∉ [noError, errorFileNotFound, errorPathNotFound] := by
      decide
    obtain ⟨legacy, error⟩ := reported_eq_einval_iff.mp invalid.2
    constructor
    · intro same
      exact absurd (same ▸ codes) others
    · intro plainly
      exact absurd error (plainly.error invalid.1 legacy)
  · rw [told, FileServer.answered, if_neg invalid]
    constructor
    · intro same
      constructor
      · intro probe
        rwa [askedNames, if_pos probe] at same
      · intro gone legacy error
        exact invalid ⟨gone, reported_eq_einval_iff.mpr ⟨legacy, error⟩⟩
    · intro plainly
      by_cases probe : iftestpath (rootedPath names)
      · rw [askedNames, if_pos probe]
        exact plainly.probe probe
      · rw [askedNames, if_neg probe]

def oneDirectory (ntSmbs : Bool) : FileServer where
  node path := if path = [] ∨ path = [bytes "D"] then some .directory else none
  ntSmbs
  errno path := if path.dropLast = [] ∨ path.dropLast = [bytes "D"] then enoent else einval
  root := if_pos (.inl rfl)
  parents path name here := by
    refine if_pos (.inl ?_)
    by_contra present
    refine here (if_neg ?_)
    rintro (empty | one)
    · simp at empty
    · have length := congrArg List.length one
      have filled := List.length_pos_of_ne_nil present
      simp only [List.length_append, List.length_singleton] at length
      omega
  refuses path name _ := by
    by_cases inside : path = [] ∨ path = [bytes "D"]
    · simp only [List.dropLast_concat, if_pos inside, if_true]
    · simp only [List.dropLast_concat, if_neg inside, reduceCtorEq, if_false]
      decide

def diskShare : Session :=
  ⟨{ rootlevel := 3, srv := { serverName := bytes "S", shareName := bytes "C" } },
    { cli := some 0 }⟩

def refuseInvalid (ntSmbs : Bool) : (R : Type) → Op R → R
  | _, .request _ .connCapNtSmbs => ntSmbs
  | _, .request _ .cliErrno => einval
  | _, op => op.usual

def invalidRun (ntSmbs : Bool) : List CallEvent × Option (Int × Session) :=
  exec (fun _ => refuseInvalid ntSmbs) 0
    (ndpQueryPathInfo asciiPlatform diskShare (rootedPath [bytes "N", bytes "F"]))

theorem admits_invalidRun (ntSmbs : Bool) :
    (shareWatch (oneDirectory ntSmbs)).Admits [] (invalidRun ntSmbs).1 := by
  have refused : (oneDirectory ntSmbs).Tells (rootedPath [bytes "N", bytes "F"]) none := by
    rw [FileServer.Tells, pathNames_rootedPath (by decide)]
    rfl
  have silent {event : CallEvent} (none : infoReply event = none) :
      ∀ told ∈ infoReply event, (oneDirectory ntSmbs).Tells told.1 told.2 := by
    rw [none]
    intro _ member
    cases member
  have asked {event : CallEvent}
      (told : infoReply event = some (rootedPath [bytes "N", bytes "F"], none)) :
      ∀ told ∈ infoReply event, (oneDirectory ntSmbs).Tells told.1 told.2 := by
    rw [told]
    rintro _ ⟨⟩
    exact refused
  cases ntSmbs with
  | true =>
      exact ⟨⟨silent rfl, rfl⟩, ⟨silent rfl, trivial⟩, ⟨silent rfl, rfl⟩, ⟨asked rfl, trivial⟩,
        ⟨asked rfl, trivial⟩, ⟨silent rfl, rfl⟩, ⟨silent rfl, fun _ => rfl⟩,
        ⟨silent rfl, trivial⟩, trivial⟩
  | false =>
      exact ⟨⟨silent rfl, rfl⟩, ⟨silent rfl, trivial⟩, ⟨silent rfl, rfl⟩, ⟨asked rfl, trivial⟩,
        ⟨asked rfl, trivial⟩, ⟨silent rfl, rfl⟩, ⟨asked rfl, trivial⟩,
        ⟨silent rfl, fun _ => rfl⟩, ⟨silent rfl, trivial⟩, trivial⟩

theorem unlisted_diskShare (szPath : CString) :
    NoListing asciiPlatform diskShare.pRes.pdc szPath := by
  intro _ member
  cases member

theorem queryPathInfo_classifies_iff_nt :
    ∃ rc t, (invalidRun true).2 = some (rc, t) ∧
      ((oneDirectory true).Classifies [bytes "N", bytes "F"] rc ↔
        AnsweredPlainly (oneDirectory true) diskShare.pRes [bytes "N", bytes "F"]) :=
  have plain : PlainNames [bytes "N", bytes "F"] := by decide
  have named : diskShare.pRes.srv.NamesShare := ⟨by decide, by decide, by decide⟩
  queryPathInfo_classifies_iff asciiPlatform (oneDirectory true) diskShare plain (by decide)
    (by decide) (unlisted_diskShare _) (by decide) rfl named (run_exec _ _ _)
    (admits_invalidRun true)

/-- Without the NT calls the file in a missing directory is an invalid parameter. -/
theorem invalid_path_misclassified :
    Run (ndpQueryPathInfo asciiPlatform diskShare (rootedPath [bytes "N", bytes "F"]))
      (invalidRun false).1 (some (errorInvalidParameter, diskShare)) ∧
    (shareWatch (oneDirectory false)).Admits [] (invalidRun false).1 ∧
    ¬ (oneDirectory false).Classifies [bytes "N", bytes "F"] errorInvalidParameter := by
  refine ⟨?_, admits_invalidRun false, ?_⟩
  · have outcome : (invalidRun false).2 = some (errorInvalidParameter, diskShare) := by decide
    exact outcome ▸ run_exec _ _ _
  · intro classified
    have told := FileServer.classifies_iff.mp classified
    exact absurd told (by decide)

end NdpSmb
