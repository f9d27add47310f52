import NdpSmb.CompleteCalls
import NdpSmb.DiskSize
import NdpSmb.EaAnswer

/-!
What a search relies on to come to its end: a cache that has room for a listing, memory, and a
directory that ends.
-/

namespace NdpSmb

open ByteString Interaction

/-! What is relied on. -/

/-- The last element is what stands behind the last backslash. -/
def EndsWith (szPath : CString) : Option Ndpathelement → Prop
  | none => True
  | some pel => pel.length = pel.name.length ∧ backslash ∉ pel.name ∧
      (backslash :: pel.name) <:+ szPath

instance (szPath : CString) (pel : Option Ndpathelement) : Decidable (EndsWith szPath pel) :=
  match pel with
  | none => isTrue trivial
  | some _ => inferInstanceAs (Decidable (_ ∧ _))

/-- Memory is given, also where it is of no size, a path is split where it ends, a directory
ends after as many replies as are followed, and what is counted stays in range. -/
def answersCalmly (ph : Platform) (szPath : CString) (queries : Nat) : CallEvent → Bool
  | ⟨.malloc _, given⟩ => given
  | ⟨.realloc size, given⟩ => size ≠ 0 ∨ given
  | ⟨.fsphNameElem, pel⟩ => EndsWith szPath pel
  | ⟨.request _ (.smb2cliQueryDirectory _), .ok _⟩ => queries + 1 < ph.queryLimit
  | ⟨.request _ .cliDiskSize, some (_, total, _)⟩ => scaleOf total < 0x80000000
  | ⟨.request _ (.cliGetEaListPath _), some eas⟩ => eaListSize eas < 2 ^ 32
  | _ => true

/-- The number is that of the replies of the directory that was opened last. -/
def calmWatch (ph : Platform) (szPath : CString) : Watch Op Nat where
  observe queries event := match event with
    | ⟨.request _ (.cliSmb2CreateFnum _), _⟩ => 0
    | ⟨.request _ (.smb2cliQueryDirectory _), _⟩ => queries + 1
    | _ => queries
  admits queries event := answersCalmly ph szPath queries event = true
  crash _ := False

instance (ph : Platform) (szPath : CString) (queries : Nat) (event : CallEvent) :
    Decidable ((calmWatch ph szPath).admits queries event) :=
  inferInstanceAs (Decidable (answersCalmly ph szPath queries event = true))

def CacheOn (pdc : Option DirectoryCache) : Prop :=
  ∃ cache, pdc = some cache ∧ cache.fEnabled = true ∧ 0 < cache.cMaxEntries

theorem CacheOn.emptied {pdc later : Option DirectoryCache} (used : CacheOn pdc)
    (same : emptied later = emptied pdc) : CacheOn later := by
  obtain ⟨cache, rfl, enabled, room⟩ := used
  cases later with
  | none => cases same
  | some left =>
      simp only [NdpSmb.emptied, Option.map_some, Option.some.injEq,
        DirectoryCache.mk.injEq, true_and] at same
      obtain ⟨switched, -, limit⟩ := same
      exact ⟨left, rfl, switched.trans enabled, limit ▸ room⟩

section Cache

variable {ph : Platform} {szPath : CString} {pdc : Option DirectoryCache} {state : FilelistState}
  {fn : SmbwrpFileinfo → Program UInt32} (added : ∀ finfo, (fn finfo).Completes fun _ => True)

theorem yields_dceCreate (path : CString) (cFiles : Nat) :
    (calmWatch ph szPath).Yields (· ≠ none) (dceCreate path cFiles) := by
  refine Watch.yields_perform_bind ?_
  rintro _ _ (rfl : _ = true)
  refine Watch.yields_perform_bind ?_
  rintro _ _ (rfl : _ = true)
  refine Watch.yields_perform_bind ?_
  rintro _ _ (rfl : _ = true)
  exact fun _ => Option.some_ne_none _

theorem yields_dcWriteBegin {cache : DirectoryCache} (enabled : cache.fEnabled = true)
    (path : CString) (cFiles : Nat) :
    (calmWatch ph szPath).Yields (fun answer => answer.1 ≠ none)
      (dcWriteBegin ph cache path cFiles) := by
  have started : (calmWatch ph szPath).Yields (fun answer => answer.1 ≠ none)
      (dcWriteStart ph cache path cFiles) := by
    unfold dcWriteStart
    split
    · exact (yields_dceCreate path cFiles).bind fun pdce present _ => present
    · exact fun _ => Option.some_ne_none _
  rw [dcWriteBegin, if_neg (by simp [enabled])]
  refine started.bind ?_
  rintro ⟨_ | pdce, left⟩ present
  · exact absurd rfl present
  · exact fun _ _ _ => Option.some_ne_none _

theorem yields_dircacheWriteBegin (used : CacheOn pdc)
    (within : state.dirMask.length ≤ state.fullpath.length) (cFiles : Nat) :
    (calmWatch ph szPath).Yields (fun answer => answer.1 ≠ none)
      (dircacheWriteBegin ph pdc state cFiles) := by
  obtain ⟨cache, rfl, enabled, room⟩ := used
  obtain ⟨path, named⟩ : ∃ path, dcCreateDirPath state = some path := by
    rw [dcCreateDirPath, if_neg (by omega)]
    exact ⟨_, rfl⟩
  obtain ⟨left, evicted, kept⟩ : ∃ left, dcEvict cache = some left ∧ left.fEnabled = true := by
    unfold dcEvict
    split
    · rename_i full
      have present : cache.entries ≠ [] := by
        intro empty
        rw [empty, List.length_nil] at full
        omega
      rw [if_neg present]
      exact ⟨_, rfl, enabled⟩
    · exact ⟨cache, rfl, enabled⟩
  simp only [dircacheWriteBegin, named, evicted]
  exact (yields_dcWriteBegin kept path cFiles).bind fun answer present _ => present

theorem completes_dircacheWriteEntry {dircachectx : Option DirectoryCacheEntry}
    (present : dircachectx ≠ none) (finfo : SmbwrpFileinfo) :
    (dircacheWriteEntry dircachectx finfo).Completes (· ≠ none) := by
  cases dircachectx with
  | none => exact absurd rfl present
  | some pdce =>
      have written : (dceWriteEntry pdce finfo).Completes fun _ => True := by
        apply Prog.completes_ite
        · intro _ grown
          apply Prog.completes_ite
          · exact fun _ => trivial
          · exact fun _ => trivial
        · exact fun _ => trivial
      exact written.bind fun _ _ => Option.some_ne_none _

theorem completes_dircacheWriteEnd {dircachectx : Option DirectoryCacheEntry}
    (present : dircachectx ≠ none) :
    (dircacheWriteEnd pdc dircachectx).Completes fun _ => True := by
  cases dircachectx with
  | none => exact absurd rfl present
  | some pdce =>
      have adjusted : (dceAdjust pdce).Completes fun _ => True := by
        simp only [dceAdjust]
        apply Prog.completes_ite
        · intro _ shrunk
          apply Prog.completes_ite
          · exact fun _ => trivial
          · exact fun _ => trivial
        · exact fun _ => trivial
      apply Prog.completes_ite
      · exact fun _ => trivial
      · exact fun _ => adjusted.bind fun _ _ => trivial

include added

theorem completes_addEach (infos : List SmbwrpFileinfo) :
    (addEach fn infos).Completes fun _ => True := by
  induction infos with
  | nil => trivial
  | cons finfo rest ih => exact (added finfo).bind fun _ _ => ih

theorem completes_dircacheListFiles :
    (dircacheListFiles ph pdc state fn).Completes fun _ => True := by
  have read (cache : DirectoryCache) (path : CString) :
      (dcRead ph cache path fn false).Completes fun _ => True := by
    unfold dcRead
    apply Prog.completes_ite
    · exact fun _ => trivial
    · intro _
      split
      · trivial
      · intro now
        apply Prog.completes_ite
        · exact fun _ => trivial
        · exact fun _ => (completes_addEach added _).bind fun _ _ => trivial
  unfold dircacheListFiles
  split
  · trivial
  · trivial
  · exact (read _ _).bind fun _ _ => trivial

end Cache

/-! Listing a directory. -/

section Listing

variable {ph : Platform} {szPath : CString} {pdc : Option DirectoryCache} {state : FilelistState}
  {searchAttr : UInt32} {fn : SmbwrpFileinfo → Program UInt32} {cli : Handle}
  (added : ∀ finfo, (fn finfo).Completes fun _ => True)
  (plain : ∀ finfo, (fn finfo).Only (Op.ServedBy none))

theorem quiet_plain {R : Type} {op : Op R} {reply : R} {queries : Nat}
    (served : Op.ServedBy none R op) :
    (calmWatch ph szPath).observe queries ⟨op, reply⟩ = queries := by
  cases op with
  | request cli ask => cases served
  | _ => rfl

section Entries

include added

theorem completes_listEntries (failed : Option BadStatus) (infos : List FileInfo)
    {progress : ListProgress} (begun : progress.dircachectx ≠ none) :
    (listEntries ph searchAttr fn failed infos progress).Completes fun answer =>
      answer.2.dircachectx ≠ none := by
  induction infos generalizing progress with
  | nil =>
      unfold listEntries
      split
      · exact begun
      · exact begun
  | cons finfo rest ih =>
      apply Prog.completes_ite
      · intro _
        refine (added _).bind fun status _ => ?_
        refine (completes_dircacheWriteEntry begun _).bind fun written present => ?_
        apply Prog.completes_ite
        · exact fun _ => present
        · exact fun _ => ih present
      · exact fun _ => ih begun

theorem completes_listReceived (infos : List FileInfo) {dircachectx : Option DirectoryCacheEntry}
    (begun : dircachectx ≠ none) : (listReceived fn infos dircachectx).Completes (· ≠ none) := by
  induction infos generalizing dircachectx with
  | nil => exact begun
  | cons finfo rest ih =>
      refine (added _).bind fun _ _ => ?_
      exact (completes_dircacheWriteEntry begun _).bind fun written present => ih present

end Entries

include added plain

/-- There are replies left as long as the directory goes on. -/
theorem calm_listReplies {mask : CString} {left queries : Nat} {progress : ListProgress}
    (more : 0 < left) (total : queries + left = ph.queryLimit)
    (begun : progress.dircachectx ≠ none) :
    (calmWatch ph szPath).Ensures (fun answer _ => answer.2.dircachectx ≠ none)
      (listReplies ph searchAttr fn cli mask left progress) queries := by
  induction left generalizing queries progress with
  | zero => omega
  | succ left ih =>
      refine Watch.ensures_perform_bind.mpr fun reply ended => ?_
      cases reply with
      | error status =>
          simp only [Watch.ensures_ite]
          split
          · exact begun
          · exact begun
      | ok dirData =>
          have limited : queries + 1 < ph.queryLimit := of_decide_eq_true ended
          have listed : (listEntries ph searchAttr fn dirData.failed dirData.parsed
              progress).Completes fun answer => answer.2.dircachectx ≠ none :=
            completes_listEntries added _ _ begun
          have served := listEntries_only ph searchAttr plain (fun _ _ => id) dirData.failed
            dirData.parsed progress
          apply (Watch.ensures_of_completes listed served fun _ _ _ => quiet_plain).bind
          rintro ⟨status | status, further⟩ later ⟨present, rfl⟩
          · exact present
          · simp only [Watch.ensures_ite]
            split
            · exact present
            · split
              · have onward : (calmWatch ph szPath).Ensures
                    (fun answer _ => answer.2.dircachectx ≠ none)
                    (listReplies ph searchAttr fn cli mask left further) (queries + 1) :=
                  ih (by omega) (by omega) present
                exact onward
              · exact present

variable (limit : 0 < ph.queryLimit)

include limit

theorem calm_listMapped {dircachectx : Option DirectoryCacheEntry}
    (begun : dircachectx ≠ none) (fnum : UInt16) (mask : CString) :
    (calmWatch ph szPath).Ensures (fun _ _ => True)
      (listMapped ph searchAttr fn pdc dircachectx cli fnum mask) 0 := by
  refine Watch.ensures_perform_bind.mpr fun status _ => ?_
  rw [Watch.ensures_ite]
  split
  · trivial
  · have first : 0 + ph.queryLimit = ph.queryLimit := Nat.zero_add _
    apply (calm_listReplies added plain limit first begun).bind
    rintro ⟨status | status, progress⟩ later present
    · trivial
    · have written : (dircacheWriteEnd pdc progress.dircachectx).Completes fun _ => True :=
        completes_dircacheWriteEnd present
      apply (Watch.yields_of_completes written later).bind
      intro _ _ _
      exact trivial

theorem yields_listContext {dircachectx : Option DirectoryCacheEntry}
    (begun : dircachectx ≠ none) (pathname : CString) :
    (calmWatch ph szPath).Yields (fun _ => True)
      (listContext ph searchAttr fn pdc dircachectx cli pathname) := by
  refine Watch.yields_perform_bind fun _ asyncCalls _ => ?_
  apply Watch.yields_ite
  · exact fun _ _ => trivial
  · intro _
    refine Watch.yields_perform_bind fun _ smb2 _ => ?_
    apply Watch.yields_ite
    · exact fun _ _ => trivial
    · intro _
      refine Watch.yields_perform_bind fun _ parent _ => ?_
      cases parent with
      | none => exact fun _ => trivial
      | some parent =>
          intro queries
          refine Watch.ensures_perform_bind.mpr fun created _ => ?_
          cases created with
          | error status => trivial
          | ok fnum =>
              have closed (listed : Listed) :
                  (closeFnum cli fnum listed).Completes fun _ => True := by
                apply Prog.completes_ite
                · exact fun _ _ => trivial
                · exact fun _ => trivial
              apply (calm_listMapped added plain limit begun fnum parent.2).bind
              exact fun listed later _ => Watch.yields_of_completes (closed listed) later

variable (used : CacheOn pdc) (within : state.dirMask.length ≤ state.fullpath.length)

include used within

theorem yields_listFilesSmb2 (pathname : CString) :
    (calmWatch ph szPath).Yields (fun _ => True)
      (listFilesSmb2 ph searchAttr fn pdc state cli pathname) := by
  refine (yields_dircacheWriteBegin used within 128).bind ?_
  rintro ⟨dircachectx, left⟩ begun
  exact yields_listContext added plain limit begun pathname

omit plain limit in
theorem yields_listFilesSmb1 (mask : CString) :
    (calmWatch ph szPath).Yields (fun _ => True)
      (listFilesSmb1 ph searchAttr fn pdc state cli mask) := by
  refine Watch.yields_perform_bind fun _ numFinfo _ => ?_
  refine Watch.yields_perform_bind fun _ asyncCalls _ => ?_
  apply Watch.yields_ite
  · exact fun _ _ => trivial
  · intro _
    refine Watch.yields_perform_bind fun _ ntSmbs _ => ?_
    refine Watch.yields_perform_bind fun _ sent _ => ?_
    apply Watch.yields_ite
    · exact fun _ _ => trivial
    · intro _
      refine Watch.yields_perform_bind fun _ polled _ => ?_
      apply Watch.yields_ite
      · exact fun _ _ => trivial
      · intro _
        refine Watch.yields_perform_bind fun _ received _ => ?_
        cases received with
        | none => exact fun _ => trivial
        | some infos =>
            refine (yields_dircacheWriteBegin used within infos.length).bind ?_
            rintro ⟨dircachectx, left⟩ begun
            apply Watch.yields_of_completes
            refine (completes_listReceived added infos begun).bind fun written present => ?_
            exact (completes_dircacheWriteEnd present).bind fun _ _ => trivial

theorem yields_listFiles (mask : CString) :
    (calmWatch ph szPath).Yields (fun _ => True)
      (listFiles ph searchAttr fn pdc state cli mask) := by
  have read : (dircacheListFiles ph pdc state fn).Completes fun _ => True :=
    completes_dircacheListFiles added
  refine ((Watch.yields_of_completes read).and_returns emptied_dircacheListFiles).bind ?_
  rintro ⟨_ | numFinfo, left⟩ ⟨-, same⟩
  · have kept := used.emptied same
    refine Watch.yields_perform_bind fun _ smb2 _ => ?_
    apply Watch.yields_ite
    · intro _
      exact (yields_listFilesSmb2 added plain limit kept within mask).bind fun _ _ _ => trivial
    · exact fun _ => yields_listFilesSmb1 added kept within mask
  · exact fun _ => trivial

end Listing

section Names

variable {ph : Platform} {szPath : CString} {srv : SmbwrpServer} {st : FilelistState}
  (room : st.dir.length < maxPath)

include room

theorem completes_smbwrpSpecialAdd (name : CString) :
    (smbwrpSpecialAdd ph srv name st).Completes fun _ => True :=
  (completes_smbwrpDirAdd ph room).bind fun _ _ => trivial

theorem completes_addShares (shares : List (CString × Bool)) :
    (addShares ph srv st shares).Completes fun _ => True := by
  induction shares with
  | nil => trivial
  | cons share rest ih =>
      have one : (smbwrpShareAdd ph srv share.1 share.2 st).Completes fun _ => True := by
        apply Prog.completes_ite
        · exact fun _ => trivial
        · exact fun _ => (completes_smbwrpDirAdd ph room).bind fun _ _ => trivial
      exact one.bind fun _ _ => ih

theorem completes_behindSpecials {program : Program (Int × Option DirectoryCache)}
    (completes : program.Completes fun _ => True) :
    (smbwrpSpecialAdd ph srv (bytes ".") st >>= fun _ =>
      smbwrpSpecialAdd ph srv (bytes "..") st >>= fun _ => program).Completes fun _ => True := by
  refine (completes_smbwrpSpecialAdd room _).bind fun _ _ => ?_
  exact (completes_smbwrpSpecialAdd room _).bind fun _ _ => completes

theorem yields_listTarget {pRes : Resource} {cli : Handle} (limit : 0 < ph.queryLimit)
    (used : CacheOn pRes.pdc) (within : st.dirMask.length ≤ st.fullpath.length) :
    (calmWatch ph szPath).Yields (fun _ => True) (listTarget ph pRes cli st) := by
  unfold listTarget
  apply Watch.yields_ite
  · intro _
    apply Watch.yields_of_completes
    apply completes_behindSpecials room
    exact fun domains => (completes_addShares room domains).bind fun _ _ => trivial
  · intro _
    apply Watch.yields_ite
    · intro _
      apply Watch.yields_of_completes
      apply completes_behindSpecials room
      exact fun servers => (completes_addShares room servers).bind fun _ _ => trivial
    · intro _
      apply Watch.yields_ite
      · intro _
        apply Watch.yields_of_completes
        apply completes_behindSpecials room
        rintro ⟨shares, rpc⟩
        refine (completes_addShares room shares).bind fun _ _ => ?_
        apply Prog.completes_ite
        · rintro _ ⟨shares, rap⟩
          refine (completes_addShares room shares).bind fun _ _ => ?_
          apply Prog.completes_ite
          · exact fun _ _ => trivial
          · exact fun _ => trivial
        · exact fun _ => trivial
      · intro _
        have added (finfo : SmbwrpFileinfo) :
            (smbwrpDirAdd ph pRes.srv st finfo).Completes fun _ => True :=
          completes_smbwrpDirAdd ph room
        have plain (finfo : SmbwrpFileinfo) :
            (smbwrpDirAdd ph pRes.srv st finfo).Only (Op.ServedBy none) :=
          only_smbwrpDirAdd ph pRes.srv st finfo none
        refine (yields_listFiles added plain limit used within st.mask).bind ?_
        rintro ⟨value, left⟩ _
        apply Watch.yields_ite
        · exact fun _ _ _ _ => trivial
        · exact fun _ _ => trivial

end Names

/-! Searching. -/

section Search

variable {ph : Platform} {s : Session} {szPath : CString} {st : FilelistState}
  (limit : 0 < ph.queryLimit)

structure Usable (st : FilelistState) : Prop where
  room : st.dir.length < maxPath
  within : st.dirMask.length ≤ st.fullpath.length

include limit

theorem yields_filelistOn (usable : Usable st) (used : CacheOn s.pRes.pdc) :
    (calmWatch ph szPath).Yields (fun answer => CacheOn answer.2.pRes.pdc)
      (filelistOn ph s st) := by
  have listed : (calmWatch ph szPath).Yields (fun _ => True)
      (smbwrpFilelist ph s.pRes s.pConn.cli st) := by
    unfold smbwrpFilelist
    cases s.pConn.cli with
    | none => exact fun _ => trivial
    | some cli =>
        apply Watch.yields_ite
        · exact fun _ _ => trivial
        · exact fun _ => yields_listTarget usable.room limit used usable.within
  have searched : (calmWatch ph szPath).Yields (fun _ => True) (filelistOn ph s st) :=
    listed.bind fun _ _ _ => trivial
  refine (searched.and_returns emptied_filelistOn).mono ?_
  exact fun answer limits => used.emptied limits.2.1

theorem yields_findAlive (usable : Usable st) (used : CacheOn s.pRes.pdc) :
    (calmWatch ph szPath).Yields (fun _ => True) (findAlive ph s st) := by
  refine (yields_filelistOn limit usable used).bind ?_
  rintro ⟨rc, t⟩ kept
  apply Watch.yields_ite
  · intro _
    refine (Watch.yields_of_completes (completes_smbwrpDisconnect _)).bind fun _ _ => ?_
    refine ((Watch.yields_of_completes (completes_reconnect t)).and_returns
      (reconnect_resource t)).bind ?_
    rintro ⟨rcCon, u⟩ ⟨-, same⟩
    have cached : CacheOn u.pRes.pdc := by
      rw [same]
      exact kept
    exact (yields_filelistOn limit usable cached).bind fun _ _ _ _ _ => trivial
  · exact fun _ _ _ _ => trivial

theorem yields_findServer (usable : Usable st) (used : CacheOn s.pRes.pdc) :
    (calmWatch ph szPath).Yields (fun _ => True) (findServer ph s st) := by
  rw [findServer_eq]
  refine ((Watch.yields_of_completes (completes_revive s)).and_returns (revive_resource s)).bind ?_
  rintro ⟨rc, t⟩ ⟨-, same⟩
  apply Watch.yields_ite
  · exact fun _ _ => trivial
  · intro _
    have cached : CacheOn t.pRes.pdc := by
      rw [same]
      exact used
    exact yields_findAlive limit usable cached

end Search

section Request

variable {szPath directory mask : CString} {pel : Option Ndpathelement}

theorem EndsWith.part (ends : EndsWith szPath pel) :
    ∃ directory, DirectoryPart szPath pel directory := by
  cases pel with
  | none =>
      cases closed : lastIsBackslash szPath with
      | false => exact ⟨szPath, .inr ⟨rfl, closed⟩⟩
      | true =>
          have last : szPath.getLast? = some backslash := of_decide_eq_true closed
          exact ⟨szPath.dropLast, .inl (List.dropLast_append_getLast? _ last).symm⟩
  | some pel =>
      obtain ⟨length, plain, directory, whole⟩ := ends
      exact ⟨directory, length, plain, whole.symm⟩

theorem DirectoryPart.begins (part : DirectoryPart szPath pel directory) :
    directory <+: szPath := by
  cases pel with
  | none =>
      rcases part with closed | ⟨same, -⟩
      · exact ⟨_, closed.symm⟩
      · exact same ▸ List.prefix_rfl
  | some pel => exact ⟨_, part.2.2.symm⟩

theorem DirectoryPart.rooted (part : DirectoryPart szPath pel directory)
    (rooted : szPath.head? = some backslash) :
    directory = [] ∨ directory.head? = some backslash := by
  obtain ⟨rest, rfl⟩ := part.begins
  cases directory with
  | nil => exact .inl rfl
  | cons letter before => exact .inr rooted

theorem serverMask_ne_none (short : mask.length + 1 < maxPath) : serverMask mask ≠ none := by
  have field : maxPath = 260 := rfl
  unfold serverMask
  split
  · rename_i index found
    unfold getlastslash at found
    obtain ⟨behind, -, rfl⟩ := Option.map_eq_some_iff.mp found
    rw [if_neg (by omega)]
    exact Option.some_ne_none _
  · exact Option.some_ne_none _

theorem length_findMask (part : DirectoryPart szPath pel directory) (present : szPath ≠ []) :
    (findMask pel).length ≤ szPath.length := by
  cases pel with
  | none =>
      have filled := List.length_pos_of_ne_nil present
      exact filled
  | some pel =>
      obtain ⟨-, -, whole⟩ := part
      rw [whole, List.length_append, List.length_cons]
      simp only [findMask]
      omega

theorem findState_usable {pRes : Resource} (rooted : szPath.head? = some backslash)
    (short : szPath.length + 2 < maxPath) (part : DirectoryPart szPath pel directory)
    (ulAttribute : UInt32) :
    ∃ st, findState szPath (pRes.askedPath directory) (findMask pel) ulAttribute = some st ∧
      Usable st := by
  have field : maxPath = 260 := rfl
  have room : cchmaxpath = 260 := rfl
  have present : szPath ≠ [] := by
    rintro rfl
    cases rooted
  have masked := length_findMask part present
  have bound := length_closed_le pRes (part.rooted rooted)
  obtain ⟨base, closed⟩ := closeSlash_ends (pRes.askedPath directory)
  have size : (closeSlash (pRes.askedPath directory)).length = base.length + 1 := by
    rw [closed, List.length_append, List.length_singleton]
  have joined := @List.length_append _ (closeSlash (pRes.askedPath directory)) (findMask pel)
  have total : (closeSlash (pRes.askedPath directory) ++ findMask pel).length < maxPath ∧
      serverMask (closeSlash (pRes.askedPath directory) ++ findMask pel) ≠ none := by
    have inside := part.begins.length_le
    cases pel with
    | none =>
        have one : (findMask none).length = 1 := rfl
        constructor
        · omega
        · have star : ∀ letter ∈ findMask none, isSlash letter = false := by
            intro letter inside
            rw [List.mem_singleton.mp inside]
            rfl
          rw [closed, List.append_assoc]
          have found : serverMask (base ++ backslash :: findMask none) = _ :=
            serverMask_append (by decide) star
          rw [List.singleton_append, found, if_neg (by omega)]
          exact Option.some_ne_none _
    | some pel =>
        have whole := congrArg List.length part.2.2
        rw [List.length_append, List.length_cons] at whole
        have named : (findMask (some pel)).length = pel.name.length := rfl
        constructor
        · omega
        · apply serverMask_ne_none
          omega
  obtain ⟨search, found⟩ := Option.ne_none_iff_exists'.mp total.2
  refine ⟨_, (findState_eq_some_iff (by omega)).mpr ⟨total.1, by omega, search, found, rfl⟩, ?_⟩
  constructor
  case room =>
    simp only
    omega
  case within => exact masked

end Request

section FindStart

variable {ph : Platform} {s : Session} {szPath : CString}

theorem yields_ndpFindStart (limit : 0 < ph.queryLimit) (rooted : RootedPath szPath)
    (short : szPath.length + 2 < maxPath) (used : CacheOn s.pRes.pdc) (ulAttribute : UInt32) :
    (calmWatch ph szPath).Yields (fun _ => True) (ndpFindStart ph s szPath ulAttribute) := by
  have room : cchmaxpath = 260 := rfl
  have field : maxPath = 260 := rfl
  refine Watch.yields_perform_bind ?_
  intro _ pel named
  obtain ⟨directory, part⟩ := EndsWith.part (of_decide_eq_true named)
  refine Watch.yields_perform_bind fun _ rcLock _ => ?_
  apply Watch.yields_ite
  · exact fun _ _ => trivial
  · intro _
    rw [findDirectory_eq (by omega) rooted.rooted part]
    have parsable := rooted.toParsable.part part.begins.isInfix
    refine (Watch.yields_of_completes (completes_pathparser parsable)).bind ?_
    rintro ⟨rc, t, path⟩ ⟨rfl, moved⟩
    apply Watch.yields_ite
    · exact fun _ _ => trivial
    · intro _
      obtain ⟨st, built, usable⟩ := @findState_usable _ _ _ s.pRes rooted.rooted short part
        ulAttribute
      have cached : CacheOn t.pRes.pdc := by
        rw [moved.pdc]
        exact used
      simp only [built]
      exact yields_findServer limit usable cached

theorem returns_ndpFindStart_file (szPath : CString) (ulAttribute : UInt32) :
    (ndpFindStart ph s szPath ulAttribute).Returns fun answer => SameFile s answer.2 := by
  have listed (t : Session) (st : FilelistState) :
      (filelistOn ph t st).Returns fun answer => SameFile t answer.2 := by
    refine emptied_filelistOn.mono ?_
    rintro ⟨rc, u⟩ ⟨-, same⟩
    exact congrArg (fun session => session.pConn.file) same
  have alive (t : Session) (st : FilelistState) :
      (findAlive ph t st).Returns fun answer => SameFile t answer.2 := by
    refine Prog.returns_bind.mpr ((listed t st).mono ?_)
    rintro ⟨rc, u⟩ first
    simp only
    split
    · refine Prog.returns_bind.mpr (Prog.returns_of_forall fun _ => ?_)
      refine Prog.returns_bind.mpr ((completes_reconnect u).returns.mono ?_)
      rintro ⟨rcCon, v⟩ second
      refine Prog.returns_bind.mpr ((listed v st).mono ?_)
      exact fun answer third _ => first.trans (second.trans third)
    · exact fun _ => first
  refine Prog.returns_perform_bind.mpr fun pel => ?_
  refine Prog.returns_perform_bind.mpr fun rcLock => ?_
  split
  · exact rfl
  · split
    · trivial
    · refine Prog.returns_bind.mpr ((pathparser_moved _).mono ?_)
      rintro ⟨rc, t, path⟩ moved
      have parsed : SameFile s t := moved.file
      simp only
      split
      · exact parsed
      · split
        · trivial
        · rw [findServer_eq]
          refine Prog.returns_bind.mpr ((completes_revive t).returns.mono ?_)
          rintro ⟨rcCon, u⟩ revived
          simp only
          split
          · exact parsed.trans revived
          · exact (alive u _).mono fun _ after => parsed.trans (revived.trans after)

end FindStart

end NdpSmb
