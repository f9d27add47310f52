import NdpSmb.CacheKeys
import NdpSmb.PathSplit

/-!
The request that `NdpFindStart` builds: the directory and the mask that are sent to the server,
and the two strings from which the cache makes its key.
-/

namespace NdpSmb

open ByteString Interaction

section LastSlash

variable {before after : CString} {letter : UInt8}

theorem findIdx_slashless {text : CString} (plain : ∀ letter ∈ text, isSlash letter = false) :
    text.reverse.findIdx? isSlash = none := by
  rw [List.findIdx?_eq_none_iff]
  intro letter member
  exact plain letter (List.mem_reverse.mp member)

theorem getlastslash_append (slash : isSlash letter = true)
    (plain : ∀ letter ∈ after, isSlash letter = false) :
    getlastslash (before ++ letter :: after) = some before.length := by
  have back : (before ++ letter :: after).reverse =
      after.reverse ++ letter :: before.reverse := by simp
  have length : (before ++ letter :: after).length = before.length + (after.length + 1) := by simp
  rw [getlastslash, back, List.findIdx?_append, findIdx_slashless plain, List.findIdx?_cons,
    slash, length]
  simp only [if_true, Option.none_or, Option.map_some, List.length_reverse]
  congr 1
  omega

theorem serverMask_append (slash : isSlash letter = true)
    (plain : ∀ letter ∈ after, isSlash letter = false) :
    serverMask (before ++ letter :: after) =
      if before.length + 2 ≥ maxPath then none else some (before ++ [letter, 42]) := by
  have taken : (before ++ letter :: after).take (before.length + 1) = before ++ [letter] := by
    rw [List.take_append, List.take_of_length_le (by omega), Nat.add_sub_cancel_left]
    rfl
  rw [serverMask, getlastslash_append slash plain]
  simp only [taken, List.append_assoc]
  rfl

end LastSlash

/-! The directory part of a path and where it lies on the server. -/

/-- What is listed: the path without its last element and the backslash before it, or without
its trailing backslash. -/
def DirectoryPart (szPath : CString) (pel : Option Ndpathelement) (directory : CString) : Prop :=
  match pel with
  | none => szPath = directory ++ [backslash] ∨
      szPath = directory ∧ lastIsBackslash directory = false
  | some pel => pel.length = pel.name.length ∧ backslash ∉ pel.name ∧
      szPath = directory ++ backslash :: pel.name

/-- The path on the server, of a path that may be the probe for long names. -/
def Resource.askedPath (pRes : Resource) (path : CString) : CString :=
  if iftestpath path then backslash :: lfnProbe else pRes.serverPath path

def closeSlash (path : CString) : CString :=
  if lastIsBackslash path then path else path ++ [backslash]

/-- The server path that has no room for the asterisk behind its backslash. -/
def FillsMask (pRes : Resource) (directory : CString) : Prop :=
  directory.length = cchmaxpath - 2 ∧ 3 ≤ pRes.rootlevel ∧ iftestpath directory = false ∧
    lastIsBackslash directory = false

section Directory

variable {ph : Platform} {s t : Session} {szPath directory path : CString}
  {pel : Option Ndpathelement}

theorem lastIsBackslash_append (path : CString) : lastIsBackslash (path ++ [backslash]) = true := by
  simp [lastIsBackslash]

theorem closeSlash_ends (path : CString) : ∃ base, closeSlash path = base ++ [backslash] := by
  unfold closeSlash
  split
  · rename_i closed
    have last : path.getLast? = some backslash := of_decide_eq_true closed
    exact ⟨path.dropLast, (List.dropLast_append_getLast? _ last).symm⟩
  · exact ⟨path, rfl⟩

theorem findDirectory_eq (short : szPath.length ≤ cchmaxpath - 1)
    (rooted : szPath.head? = some backslash) (part : DirectoryPart szPath pel directory) :
    findDirectory szPath pel = some directory := by
  have room : cchmaxpath = 260 := rfl
  have whole : szPath.take cchmaxpath = szPath := List.take_of_length_le (by omega)
  have chopped (base : CString) (closed : szPath = base ++ [backslash]) :
      (if lastIsBackslash szPath then szPath.dropLast else szPath) = base := by
    rw [closed, lastIsBackslash_append, if_pos rfl, List.dropLast_concat]
  cases pel with
  | none =>
      have present : szPath ≠ [] := by
        rintro rfl
        cases rooted
      obtain ⟨letter, rest, listed⟩ := List.exists_cons_of_ne_nil present
      simp only [findDirectory, whole]
      rw [listed] at chopped ⊢
      simp only [Option.some.injEq]
      rcases part with closed | ⟨same, opened⟩
      · exact chopped directory (by rw [← listed, closed])
      · rw [← listed, same, opened, if_neg Bool.false_ne_true]
  | some pel =>
      obtain ⟨length, -, rfl⟩ := part
      have total : (directory ++ backslash :: pel.name).length =
          directory.length + (pel.name.length + 1) := by simp
      have before : (directory ++ backslash :: pel.name).take (directory.length + 1) =
          directory ++ [backslash] := by
        rw [List.take_append, List.take_of_length_le (by omega), Nat.add_sub_cancel_left]
        rfl
      have rest : (directory ++ backslash :: pel.name).length - pel.length =
          directory.length + 1 := by omega
      rw [findDirectory, whole, if_neg (by omega), rest, before]
      cases listed : directory ++ [backslash] with
      | nil => simp at listed
      | cons letter rest =>
          simp only
          rw [← listed, lastIsBackslash_append, if_pos rfl, List.dropLast_concat]

theorem askedPath_of_run {rc : Int} {trace : List CallEvent}
    (run : Run (pathparser ph s directory) trace (some (rc, t, path))) :
    path = s.pRes.askedPath directory := by
  unfold Resource.askedPath
  split
  · rename_i probe
    rw [pathparser, if_pos probe] at run
    cases run
    rfl
  · rename_i plain
    have plain : iftestpath directory = false := by simpa using plain
    have parsed : (connectWatch fun _ => True).Ensures _ (pathparser ph s directory) 0 :=
      ensures_pathparser_split plain (fits_of_run plain run) fun _ _ _ => trivial
    exact (parsed.run run (Watch.admits_of_forall _ fun _ _ _ => trivial)).1.result

/-! How long the path on the server is. -/

theorem length_of_iftestpath (probe : iftestpath path = true) : lfnProbe.length ≤ path.length := by
  induction path with
  | nil => cases probe
  | cons letter rest ih =>
      rw [iftestpath, Bool.or_eq_true] at probe
      rcases probe with here | later
      · have prefixed : (letter :: rest).take 10 = lfnProbe := of_decide_eq_true here
        rw [← prefixed]
        exact List.length_take_le' _ _
      · have inside := ih later
        rw [List.length_cons]
        omega

theorem length_behindComponents_lt {count : Nat} (counted : 0 < count) (present : path ≠ []) :
    (behindComponents count path).length < path.length := by
  obtain ⟨levels, rfl⟩ : ∃ levels, count = levels + 1 := ⟨count - 1, by omega⟩
  have inside := length_behindComponents levels (nextComponent path).2
  have whole := congrArg List.length (beforeFirst_append_fromFirst backslash path)
  have filled := List.length_pos_of_ne_nil present
  rw [List.length_append] at whole
  simp only [behindComponents, nextComponent, List.length_drop] at inside ⊢
  omega

theorem length_closeSlash (path : CString) :
    (closeSlash path).length = path.length + (if lastIsBackslash path then 0 else 1) := by
  unfold closeSlash
  split
  · rfl
  · rw [List.length_append, List.length_singleton]

theorem askedPath_probe (pRes : Resource) (probe : iftestpath path = true) :
    (closeSlash (pRes.askedPath path)).length = lfnProbe.length + 2 := by
  rw [Resource.askedPath, if_pos probe]
  decide

theorem askedPath_root {pRes : Resource} (rest : CString) (root : 3 ≤ pRes.rootlevel)
    (plain : iftestpath (backslash :: rest) = false) :
    pRes.askedPath (backslash :: rest) = backslash :: rest := by
  have none : pRes.levels = 0 := by
    unfold Resource.levels
    omega
  rw [Resource.askedPath, plain, if_neg Bool.false_ne_true, Resource.serverPath, none]
  rfl

theorem length_askedPath_lt {pRes : Resource} {rest : CString} (levelled : pRes.rootlevel < 3)
    (plain : iftestpath (backslash :: rest) = false) (present : rest ≠ []) :
    (pRes.askedPath (backslash :: rest)).length < rest.length + 1 := by
  have counted : 0 < pRes.levels := by
    unfold Resource.levels
    omega
  have shorter := length_behindComponents_lt counted present
  rw [Resource.askedPath, plain, if_neg Bool.false_ne_true, Resource.serverPath, List.length_cons]
  exact Nat.succ_lt_succ shorter

theorem length_askedPath_le (pRes : Resource) (rest : CString) :
    (pRes.askedPath (backslash :: rest)).length ≤ rest.length + 1 := by
  unfold Resource.askedPath
  split
  · rename_i probe
    have inside : iftestpath rest = true := by
      rw [iftestpath, Bool.or_eq_true] at probe
      refine probe.resolve_left fun here => ?_
      have start : ((backslash :: rest).take 10).head? = lfnProbe.head? :=
        congrArg List.head? (of_decide_eq_true here)
      exact absurd start (by simp [lfnProbe, bytes, backslash])
    have long := length_of_iftestpath inside
    rw [List.length_cons]
    omega
  · have shorter := length_behindComponents pRes.levels rest
    exact Nat.succ_le_succ shorter

theorem length_closed_le (pRes : Resource)
    (rooted : directory = [] ∨ directory.head? = some backslash) :
    (closeSlash (pRes.askedPath directory)).length ≤ directory.length + 1 := by
  rcases rooted with rfl | rooted
  · have empty := length_behindComponents pRes.levels []
    have nothing := List.length_eq_zero_iff.mp (Nat.le_zero.mp empty)
    rw [Resource.askedPath, if_neg (by decide), Resource.serverPath, dropSlash, nothing]
    decide
  · obtain ⟨rest, rfl⟩ := List.head?_eq_some_iff.mp rooted
    have shorter := length_askedPath_le pRes rest
    have closed := length_closeSlash (pRes.askedPath (backslash :: rest))
    rw [List.length_cons]
    split at closed <;> omega

theorem fillsMask_iff {pRes : Resource} (rooted : directory.head? = some backslash)
    (long : directory.length = cchmaxpath - 2) :
    FillsMask pRes directory ↔
      (closeSlash (pRes.askedPath directory)).length = directory.length + 1 := by
  have size : directory.length = 258 := long
  obtain ⟨rest, rfl⟩ := List.head?_eq_some_iff.mp rooted
  have present : rest ≠ [] := by
    rintro rfl
    simp at size
  have closed := length_closeSlash (pRes.askedPath (backslash :: rest))
  cases probe : iftestpath (backslash :: rest) with
  | true =>
      have short := askedPath_probe pRes probe
      have ten : lfnProbe.length = 10 := rfl
      simp only [FillsMask, probe, Bool.true_eq_false, false_and, and_false, false_iff]
      omega
  | false =>
      by_cases root : 3 ≤ pRes.rootlevel
      · rw [askedPath_root rest root probe] at closed ⊢
        rw [closed]
        simp only [FillsMask, long, root, probe, true_and]
        split <;> simp_all
      · have levelled : pRes.rootlevel < 3 := by omega
        have shorter := length_askedPath_lt levelled probe present
        simp only [FillsMask, root, false_and, and_false, false_iff]
        rw [List.length_cons]
        split at closed <;> omega

end Directory

section Request

variable (ph : Platform)

def fillRequest (szPath mask : CString) (ulAttribute : UInt32) :
    Int × Session × CString → Program (Except Int FilelistState × Session)
  | (rc, s, path) =>
      if rc ≠ 0 then pure (.error rc, s) else
      match findState szPath path mask ulAttribute with
      | none => .fault
      | some state => pure (.ok state, s)

def findRequest (s : Session) (szPath : CString) (pel : Option Ndpathelement)
    (ulAttribute : UInt32) : Program (Except Int FilelistState × Session) :=
  match findDirectory szPath pel with
  | none => .fault
  | some dir => pathparser ph s dir >>= fillRequest szPath (findMask pel) ulAttribute

theorem ndpFindStart_eq (s : Session) (szPath : CString) (ulAttribute : UInt32) :
    ndpFindStart ph s szPath ulAttribute = (do
      let pel ← perform Op.fsphNameElem
      enter (fun rcLock => (rcLock, s)) do
        let (request, s) ← findRequest ph s szPath pel ulAttribute
        match request with
        | .error rc => pure (rc, s)
        | .ok state => findServer ph s state) := by
  unfold ndpFindStart findRequest fillRequest
  congr 1
  funext pel
  congr 1
  cases findDirectory szPath pel with
  | none => rfl
  | some dir =>
      simp only [bind_assoc]
      congr 1
      funext parsed
      split
      · rfl
      · cases findState szPath parsed.2.2 (findMask pel) ulAttribute with
        | none => rfl
        | some state => rfl

/-- What is asked of the server and of the cache for a directory, and that all of it has fitted
the fields of the structure and the buffers of the function. -/
structure ConsistentRequest (pRes : Resource) (directory : CString) (state : FilelistState) :
    Prop where
  dir : state.dir = closeSlash (pRes.askedPath directory)
  mask : state.mask = state.dir ++ bytes "*"
  key : dcCreateDirPath state = some directory
  fields : state.dir.length < maxPath ∧ state.mask.length < maxPath ∧ state.dirMask.length < maxPath
  locals : (state.dir ++ state.dirMask).length < cchmaxpath + 1

def RequestsConsistently (s : Session) (szPath : CString) (pel : Option Ndpathelement)
    (directory : CString) (parsing : List CallEvent) : Prop :=
  ∀ ulAttribute, ∃ state t, Run (findRequest ph s szPath pel ulAttribute) parsing
    (some (.ok state, t)) ∧ ConsistentRequest s.pRes directory state

/-- The last element has no slash of the other kind, and the asterisk has room behind an empty
one; without an element the path is that of the root. -/
def RequestFits (pRes : Resource) (szPath : CString) (pel : Option Ndpathelement)
    (directory : CString) : Prop :=
  match pel with
  | none => szPath = [backslash]
  | some pel => 47 ∉ pel.name ∧ (pel.name = [] → ¬ FillsMask pRes directory)

section Build

variable {ph} {s t : Session} {szPath directory path mask : CString}
  {pel : Option Ndpathelement} {ulAttribute : UInt32} {state : FilelistState}
  {parsing : List CallEvent}

theorem run_findRequest_iff (found : findDirectory szPath pel = some directory)
    (parsed : Run (pathparser ph s directory) parsing (some (noError, t, path)))
    {later : Session} :
    Run (findRequest ph s szPath pel ulAttribute) parsing (some (.ok state, later)) ↔
      findState szPath path (findMask pel) ulAttribute = some state ∧ later = t := by
  have filled : fillRequest szPath (findMask pel) ulAttribute (noError, t, path) =
      match findState szPath path (findMask pel) ulAttribute with
      | none => .fault
      | some state => pure (.ok state, t) := by
    rw [fillRequest]
    exact if_neg (by decide)
  rw [findRequest, found]
  constructor
  · intro run
    rw [← List.append_nil parsing] at run
    have right := parsed.behind run
    rw [filled] at right
    cases built : findState szPath path (findMask pel) ulAttribute with
    | none =>
        rw [built] at right
        cases right
    | some other =>
        rw [built] at right
        cases right
        exact ⟨rfl, rfl⟩
  · rintro ⟨built, rfl⟩
    rw [← List.append_nil parsing]
    refine parsed.bind ?_
    rw [filled, built]
    exact .ret

theorem findState_eq :
    findState szPath path mask ulAttribute =
      if (closeSlash path).length ≥ maxPath ∨
        (closeSlash path ++ mask.take cchmaxpath).length ≥ maxPath ∨ mask.length ≥ maxPath then none
      else (serverMask (closeSlash path ++ mask.take cchmaxpath)).map fun search =>
        { mask := search, dir := closeSlash path, dirMask := mask, ulAttribute,
          fullpath := szPath } := by
  unfold findState closeSlash
  rfl

theorem findState_dir (built : findState szPath path mask ulAttribute = some state) :
    state.dir = closeSlash path := by
  rw [findState_eq] at built
  split at built
  · cases built
  · obtain ⟨search, -, rfl⟩ := Option.map_eq_some_iff.mp built
    rfl

theorem findState_eq_some_iff (short : mask.length ≤ cchmaxpath) :
    findState szPath path mask ulAttribute = some state ↔
      (closeSlash path ++ mask).length < maxPath ∧ mask.length < maxPath ∧
      ∃ search, serverMask (closeSlash path ++ mask) = some search ∧
        state = { mask := search, dir := closeSlash path, dirMask := mask, ulAttribute,
                  fullpath := szPath } := by
  have total := @List.length_append _ (closeSlash path) mask
  rw [findState_eq, List.take_of_length_le short]
  split
  · rename_i long
    simp only [reduceCtorEq, false_iff]
    rintro ⟨first, second, -⟩
    omega
  · rename_i short
    simp only [Option.map_eq_some_iff]
    constructor
    · rintro ⟨search, found, rfl⟩
      exact ⟨by omega, by omega, search, found, rfl⟩
    · rintro ⟨-, -, search, found, rfl⟩
      exact ⟨search, found, rfl⟩

theorem findState_root (pRes : Resource) (ulAttribute : UInt32) :
    ∃ state, findState [backslash] (pRes.askedPath []) (bytes "*") ulAttribute = some state ∧
      ConsistentRequest pRes [] state := by
  have empty := length_behindComponents pRes.levels []
  have nothing := List.length_eq_zero_iff.mp (Nat.le_zero.mp empty)
  have asked : pRes.askedPath [] = [backslash] := by
    rw [Resource.askedPath, if_neg (by decide), Resource.serverPath, dropSlash, nothing]
  refine ⟨⟨bytes "\\*", [backslash], bytes "*", ulAttribute, [backslash]⟩, ?_, ?_⟩
  · rw [asked]
    rfl
  · constructor
    case dir => rw [asked]; rfl
    case mask => rfl
    case key => rfl
    case fields => exact ⟨by simp [maxPath], by simp [maxPath, bytes], by simp [maxPath, bytes]⟩
    case locals => simp [cchmaxpath, bytes]

theorem key_unnamed (part : DirectoryPart szPath none directory)
    (rooted : szPath.head? = some backslash)
    (key : dcCreateDirPath ⟨path, mask, bytes "*", ulAttribute, szPath⟩ = some directory) :
    szPath = [backslash] := by
  obtain ⟨rest, rfl⟩ := List.head?_eq_some_iff.mp rooted
  have long : (backslash :: rest).length ≤ directory.length + 1 := by
    rcases part with closed | ⟨same, -⟩
    · rw [closed, List.length_append, List.length_singleton]
    · rw [same]
      omega
  have one : (bytes "*").length = 1 := rfl
  unfold dcCreateDirPath at key
  split at key
  · cases key
  · have taken := congrArg List.length (Option.some.inj key)
    simp only [one, List.length_take, List.length_cons] at taken long
    rw [List.length_eq_zero_iff.mp (by omega : rest.length = 0)]

theorem slashless_of_mask {search : CString} (plain : backslash ∉ mask)
    (found : serverMask (path ++ mask) = some search) (listed : search = path ++ bytes "*") :
    47 ∉ mask := by
  intro slashed
  cases cut : cutLast 47 mask with
  | none => exact (cutLast_eq_none_iff 47).mp cut slashed
  | some parts =>
      obtain ⟨before, after⟩ := parts
      obtain ⟨whole, last⟩ := (cutLast_eq_some_iff 47).mp cut
      have slashless : ∀ letter ∈ after, isSlash letter = false := by
        intro letter member
        have inside : letter ∈ mask := by
          rw [whole]
          exact List.mem_append_right before (List.mem_cons_of_mem _ member)
        have other : letter ≠ backslash := fun same => plain (same ▸ inside)
        have another : letter ≠ 47 := fun same => last (same ▸ member)
        simp [isSlash, other, another]
      rw [whole, ← List.append_assoc, serverMask_append (by decide) slashless] at found
      split at found
      · cases found
      · have lengths := congrArg List.length ((Option.some.inj found).trans listed)
        simp [bytes] at lengths

theorem findState_named_iff {pRes : Resource} {pel : Ndpathelement}
    (short : szPath.length ≤ cchmaxpath - 1) (rooted : szPath.head? = some backslash)
    (part : DirectoryPart szPath (some pel) directory) :
    (∃ state, findState szPath (pRes.askedPath directory) pel.name ulAttribute = some state ∧
      ConsistentRequest pRes directory state) ↔
      47 ∉ pel.name ∧ (pel.name = [] → ¬ FillsMask pRes directory) := by
  obtain ⟨-, plain, whole⟩ := part
  have room : cchmaxpath = 260 := rfl
  have field : maxPath = 260 := rfl
  have total : szPath.length = directory.length + (pel.name.length + 1) := by
    rw [whole, List.length_append, List.length_cons]
  have rootedPart : directory = [] ∨ directory.head? = some backslash := by
    cases directory with
    | nil => exact .inl rfl
    | cons letter rest => exact .inr (by simpa [whole] using rooted)
  have bound := length_closed_le pRes rootedPart
  obtain ⟨base, closed⟩ := closeSlash_ends (pRes.askedPath directory)
  have size : (closeSlash (pRes.askedPath directory)).length = base.length + 1 := by
    rw [closed, List.length_append, List.length_singleton]
  simp only [findState_eq_some_iff (by omega : pel.name.length ≤ cchmaxpath)]
  constructor
  · rintro ⟨state, ⟨-, -, search, found, rfl⟩, consistent⟩
    refine ⟨slashless_of_mask plain found consistent.mask, ?_⟩
    rintro empty fills
    have longest := (fillsMask_iff (rootedPart.resolve_left ?_) fills.1).mp fills
    · have full := fills.1
      rw [empty, List.append_nil, closed, serverMask_append (by decide) (by simp)] at found
      rw [if_pos (by omega)] at found
      cases found
    · rintro rfl
      cases fills.1
  · rintro ⟨slashless, fits⟩
    have name : ∀ letter ∈ pel.name, isSlash letter = false := by
      intro letter member
      have other : letter ≠ backslash := fun same => plain (same ▸ member)
      have another : letter ≠ 47 := fun same => slashless (same ▸ member)
      simp [isSlash, other, another]
    have space : base.length + 2 < maxPath := by
      by_cases empty : pel.name = []
      · by_contra full
        have long : directory.length = cchmaxpath - 2 := by
          rw [empty, List.length_nil] at total
          omega
        have headed : directory.head? = some backslash := by
          refine rootedPart.resolve_left ?_
          rintro rfl
          cases long
        refine fits empty ((fillsMask_iff headed long).mpr ?_)
        omega
      · have filled := List.length_pos_of_ne_nil empty
        omega
    have found : serverMask (closeSlash (pRes.askedPath directory) ++ pel.name) =
        some (base ++ [backslash, 42]) := by
      rw [closed, List.append_assoc]
      refine (serverMask_append (by decide) name).trans ?_
      rw [if_neg (by omega)]
    have joined : (closeSlash (pRes.askedPath directory) ++ pel.name).length < maxPath := by
      rw [List.length_append]
      omega
    refine ⟨_, ⟨joined, by omega, _, found, rfl⟩, ?_⟩
    constructor
    case dir => rfl
    case mask =>
      simp only [closed, List.append_assoc]
      rfl
    case key => exact Joins.dirPath (.inl whole)
    case fields => exact ⟨by simp only; omega, by simp; omega, by simp only; omega⟩
    case locals => exact joined.trans (by omega)

theorem findState_iff {pRes : Resource} (short : szPath.length ≤ cchmaxpath - 1)
    (rooted : szPath.head? = some backslash) (part : DirectoryPart szPath pel directory) :
    (∃ state, findState szPath (pRes.askedPath directory) (findMask pel) ulAttribute = some state ∧
      ConsistentRequest pRes directory state) ↔ RequestFits pRes szPath pel directory := by
  cases pel with
  | none =>
      constructor
      · rintro ⟨state, built, consistent⟩
        obtain ⟨-, -, search, -, rfl⟩ := (findState_eq_some_iff (by decide)).mp built
        exact key_unnamed part rooted consistent.key
      · rintro rfl
        have root : directory = [] := by
          rcases part with closed | ⟨rfl, opened⟩
          · exact (List.append_left_eq_self.mp closed.symm)
          · cases opened
        rw [root]
        exact findState_root pRes ulAttribute
  | some pel => exact findState_named_iff short rooted part

end Build

end Request

/-- For a path that is parsed the request is consistent exactly when its last element has no
slash of the other kind and, where it is empty, the directory leaves room for the asterisk;
without a last element only that of the root is. -/
theorem findStart_consistent_iff (ph : Platform) (s : Session) {szPath directory : CString}
    {pel : Option Ndpathelement} (short : szPath.length ≤ cchmaxpath - 1)
    (rooted : szPath.head? = some backslash) (part : DirectoryPart szPath pel directory)
    {parsing : List CallEvent} {t : Session} {path : CString}
    (parsed : Run (pathparser ph s directory) parsing (some (noError, t, path))) :
    RequestsConsistently ph s szPath pel directory parsing ↔
      RequestFits s.pRes szPath pel directory := by
  have found := findDirectory_eq short rooted part
  obtain rfl := askedPath_of_run parsed
  constructor
  · intro consistent
    obtain ⟨state, later, run, fits⟩ := consistent 0
    have built := (run_findRequest_iff found parsed).mp run
    exact (findState_iff short rooted part).mp ⟨state, built.1, fits⟩
  · intro fits ulAttribute
    obtain ⟨state, built, consistent⟩ := (findState_iff short rooted part).mpr fits
    exact ⟨state, t, (run_findRequest_iff found parsed).mpr ⟨built, rfl⟩, consistent⟩

def diskSession : Session := ⟨{ rootlevel := 3 }, { cli := some 0 }⟩

theorem findStart_consistent_iff_sources :
    RequestsConsistently asciiPlatform diskSession (bytes "\\D\\*.c") (some ⟨3, bytes "*.c"⟩)
      (bytes "\\D") [] ↔
    RequestFits diskSession.pRes (bytes "\\D\\*.c") (some ⟨3, bytes "*.c"⟩) (bytes "\\D") :=
  have part : DirectoryPart (bytes "\\D\\*.c") (some ⟨3, bytes "*.c"⟩) (bytes "\\D") :=
    ⟨by decide, by decide, by decide⟩
  findStart_consistent_iff asciiPlatform diskSession (by decide) (by decide) part
    (.ret : Run (pathparser asciiPlatform diskSession (bytes "\\D")) []
      (some (noError, diskSession, bytes "\\D")))

/-- The search for `a/b` in the root goes to the server as `\a/*`. -/
theorem slashed_mask_inconsistent :
    ¬ RequestsConsistently asciiPlatform diskSession (bytes "\\a/b") (some ⟨3, bytes "a/b"⟩) []
      [] := by
  intro consistent
  have parsed : Run (pathparser asciiPlatform diskSession []) []
      (some (noError, diskSession, [backslash])) := .ret
  have part : DirectoryPart (bytes "\\a/b") (some ⟨3, bytes "a/b"⟩) [] :=
    ⟨by decide, by decide, by decide⟩
  have found : findDirectory (bytes "\\a/b") (some ⟨3, bytes "a/b"⟩) = some [] := by decide
  obtain ⟨state, later, run, fits⟩ := consistent 0
  obtain ⟨built, -⟩ := (run_findRequest_iff found parsed).mp run
  have plain : RequestFits diskSession.pRes (bytes "\\a/b") (some ⟨3, bytes "a/b"⟩) [] :=
    (findState_iff (by decide) (by decide) part).mp ⟨state, built, fits⟩
  exact absurd plain.1 (by decide)

end NdpSmb
