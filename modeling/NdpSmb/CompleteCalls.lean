import NdpSmb.Completion
import NdpSmb.FindRequest
import NdpSmb.MountKept

/-!
The calls that cannot crash, whatever they are answered: those on a path that fits the buffers it
is copied to, and those on an open file whose name does.
-/

namespace NdpSmb

open ByteString Interaction

/-- The path has room for its terminator, and each of its components for its own. -/
structure Parsable (path : CString) : Prop where
  short : path.length < cchmaxpath
  pieces : ∀ piece, piece <:+: path → backslash ∉ piece → piece.length < nameField

theorem Parsable.of_short {path : CString} (short : path.length < nameField) : Parsable path where
  short := short.trans (by decide)
  pieces _ inside _ := inside.length_le.trans_lt short

theorem Parsable.part {path part : CString} (parsable : Parsable path) (inside : part <:+: path) :
    Parsable part where
  short := by
    have shorter := inside.length_le
    have short := parsable.short
    omega
  pieces piece contained plain := parsable.pieces piece (contained.trans inside) plain

/-- Rooted as well, so that no backslash has to be put before it. -/
structure RootedPath (path : CString) : Prop extends Parsable path where
  rooted : path.head? = some backslash

theorem leadingComponents_inside {count : Nat} {path component : CString}
    (member : component ∈ leadingComponents count path) :
    component <:+: path ∧ backslash ∉ component := by
  induction count generalizing path with
  | zero => cases member
  | succ count ih =>
      have whole := beforeFirst_append_fromFirst backslash path
      rcases List.mem_cons.mp member with rfl | later
      · constructor
        · exact List.IsPrefix.isInfix ⟨_, whole⟩
        · intro separated
          have kept := List.mem_takeWhile_imp separated
          simp at kept
      · have inside := ih later
        refine ⟨inside.1.trans ?_, inside.2⟩
        have dropped : (fromFirst backslash path).drop 1 <:+ path :=
          (List.drop_suffix _ _).trans ⟨_, whole⟩
        exact dropped.isInfix

section Parse

variable {ph : Platform} {s : Session} {szPath : CString}

theorem dropSlash_inside (path : CString) : dropSlash path <:+: path := by
  cases path with
  | nil => exact List.infix_rfl
  | cons letter rest =>
      rw [dropSlash]
      split
      · exact (List.suffix_cons letter rest).isInfix
      · exact List.infix_rfl

theorem completes_pathparser (parsable : Parsable szPath) :
    (pathparser ph s szPath).Completes fun answer =>
      answer.2.2 = s.pRes.askedPath szPath ∧ s.Moved answer.2.1 := by
  have fits : List.Forall₂ (Fits ph) (s.pRes.leading szPath)
      (s.pRes.srv.fields.drop s.pRes.rootlevel) := by
    apply fits_of_short
    intro component member
    have inside := leadingComponents_inside member
    exact parsable.pieces component (inside.1.trans (dropSlash_inside szPath)) inside.2
  unfold pathparser Resource.askedPath
  split
  · exact ⟨rfl, rfl, rfl⟩
  · obtain ⟨parsed, found, split⟩ := parsePath_splitInto fits
    have room : ¬ cchmaxpath ≤ parsed.path.length := by
      have behind := length_behindComponents s.pRes.levels (dropSlash szPath)
      have dropped := length_dropSlash szPath
      have short := parsable.short
      rw [split.rest]
      omega
    have finished (rc : Int) (t : Session) (moved : s.Moved t) :
        (finishPath rc t parsed.path).Completes fun answer =>
          answer.2.2 = s.pRes.serverPath szPath ∧ s.Moved answer.2.1 := by
      rw [finishPath, if_neg room]
      exact ⟨congrArg (backslash :: ·) split.rest, moved⟩
    rw [found]
    simp only
    split
    · have switched : (switchTo s { s.pRes with srv := parsed.srv }).Completes fun answer =>
          s.Moved answer.2 := by
        intro reply
        cases reply with
        | refused rc => exact ⟨rfl, rfl⟩
        | connected cli =>
            cases s.pConn.cli with
            | none => exact ⟨rfl, rfl⟩
            | some old => exact fun _ => ⟨rfl, rfl⟩
      exact switched.bind fun answer moved => finished answer.1 answer.2 moved
    · exact finished noError s ⟨rfl, rfl⟩

theorem RootedPath.asked (fits : RootedPath szPath) (pRes : Resource) :
    (pRes.askedPath szPath).length < 260 := by
  obtain ⟨rest, rfl⟩ := List.head?_eq_some_iff.mp fits.rooted
  have asked := length_askedPath_le pRes rest
  have short := fits.short
  have room : cchmaxpath = 260 := rfl
  rw [List.length_cons] at short
  omega

end Parse

section Wrappers

variable (cli : Option Handle) {file : SmbwrpFile}

theorem completes_os2cliErrno (cli : Handle) : (os2cliErrno cli).Completes fun _ => True :=
  fun _ => trivial

theorem completes_requestRc (cli : Handle) (ok : Bool) :
    (requestRc cli ok).Completes fun _ => True := by
  unfold requestRc
  split
  · trivial
  · exact completes_os2cliErrno cli

theorem completes_wrapped {issue : Handle → Program Bool}
    (issued : ∀ cli, (issue cli).Completes fun _ => True) :
    (wrapped cli issue).Completes fun _ => True := by
  cases cli with
  | none => trivial
  | some cli => exact (issued cli).bind fun ok _ => completes_requestRc cli ok

theorem completes_smbwrpDisconnect : (smbwrpDisconnect cli).Completes fun _ => True := by
  cases cli with
  | none => trivial
  | some cli => exact fun _ => trivial

theorem completes_smbwrpSetattr (finfo : SmbwrpFileinfo) :
    (smbwrpSetattr cli finfo).Completes fun _ => True := by
  cases cli with
  | none => trivial
  | some cli =>
      apply Prog.completes_ite
      · exact fun _ => trivial
      · intro _ first
        apply Prog.completes_ite
        · exact fun _ => trivial
        · exact fun _ second => completes_requestRc cli second

theorem completes_smbwrpGetattr (srv : SmbwrpServer) (finfo : SmbwrpFileinfo) :
    (smbwrpGetattr srv cli finfo).Completes fun _ => True := by
  cases cli with
  | none => trivial
  | some cli =>
      apply Prog.completes_ite
      · exact fun _ => trivial
      · intro _ first
        cases first with
        | some info => trivial
        | none =>
            intro second
            cases second with
            | some info => trivial
            | none =>
                apply Prog.completes_ite
                · exact fun _ _ _ _ _ => trivial
                · intro _ nt
                  apply Prog.completes_ite
                  · exact fun _ _ => trivial
                  · intro _ legacy
                    cases legacy with
                    | none => exact fun _ => trivial
                    | some info => exact fun _ => trivial

theorem completes_smbwrpFgetattr (finfo : SmbwrpFileinfo) :
    (smbwrpFgetattr cli file finfo).Completes fun _ => True := by
  cases cli with
  | none => trivial
  | some cli =>
      intro basic
      cases basic with
      | some info => trivial
      | none =>
          intro legacy
          cases legacy with
          | none => exact fun _ => trivial
          | some info => exact fun _ _ _ => trivial

theorem completes_smbwrpChdir (srv : SmbwrpServer) (fname : CString) :
    (smbwrpChdir srv cli fname).Completes fun _ => True := by
  cases cli with
  | none => trivial
  | some cli =>
      refine (completes_smbwrpGetattr (some cli) srv _).bind fun answer _ => ?_
      apply Prog.completes_ite
      · exact fun _ => completes_os2cliErrno cli
      · intro _
        apply Prog.completes_ite
        · exact fun _ => trivial
        · exact fun _ => trivial

theorem completes_smbwrpSetfilesize (newsize : Int) :
    (smbwrpSetfilesize cli file newsize).Completes fun _ => True := by
  cases cli with
  | none => trivial
  | some cli =>
      intro ok
      apply Prog.completes_ite
      · exact fun _ => trivial
      · exact fun _ _ => trivial

theorem completes_smbwrpEcho : (smbwrpEcho cli).Completes fun _ => True := by
  cases cli with
  | none => trivial
  | some cli => exact fun _ => trivial

theorem completes_smbwrpClose (file : SmbwrpFile) :
    (smbwrpClose cli file).Completes fun answer =>
      answer.2.fname.length ≤ file.fname.length := by
  cases cli with
  | none => exact le_refl _
  | some cli =>
      have timed : (closeTimes file).Completes fun _ => True := by
        unfold closeTimes
        split
        · exact fun _ => trivial
        · trivial
      refine timed.bind fun _ _ closed => ?_
      refine (completes_requestRc cli closed).bind fun rc _ => ?_
      have set (file : SmbwrpFile) : (setOnClose cli rc file).Completes fun _ => True := by
        unfold setOnClose
        split
        · exact fun _ => trivial
        · trivial
      exact (set _).bind fun _ _ => Nat.zero_le _

/-! A name that had room keeps it. -/

section Named

variable (room : file.fname.length < 260)

include room

theorem completes_smbwrpOpen :
    (smbwrpOpen cli file).Completes fun answer => answer.2.fname.length < 260 := by
  cases cli with
  | none => exact room
  | some cli =>
      apply Prog.completes_ite
      · exact fun _ => room
      · intro _ opened
        cases opened with
        | none =>
            intro errno
            simp only
            split
            · exact room
            · exact room
        | some fd =>
            simp only
            split
            · exact room
            · exact room

theorem completes_smbwrpRead (hasBuffer : Bool) (count : UInt32) :
    (smbwrpRead cli file hasBuffer count).Completes fun answer =>
      answer.2.1.fname.length < 260 := by
  unfold smbwrpRead
  split
  · exact room
  · exact room
  · intro status
    cases status with
    | none => exact fun _ => room
    | some data => exact room

theorem completes_smbwrpWrite (buffer : Option (List UInt8)) :
    (smbwrpWrite cli file buffer).Completes fun answer => answer.2.1.fname.length < 260 := by
  unfold smbwrpWrite
  split
  · exact room
  · exact room
  · intro status
    cases status with
    | none => exact fun _ => room
    | some done => exact room

theorem completes_smbwrpLseek (whence : UInt32) (offset : Int) :
    (smbwrpLseek cli file whence offset).Completes fun answer => answer.2.fname.length < 260 := by
  cases cli with
  | none => exact room
  | some cli =>
      apply Prog.completes_ite
      · exact fun _ => Prog.completes_ite (fun _ => room) fun _ => room
      · intro _
        apply Prog.completes_ite
        · exact fun _ => room
        · intro _
          apply Prog.completes_ite
          · intro _
            apply Prog.completes_ite
            · exact fun _ => room
            · intro _ basic
              cases basic with
              | some info => exact room
              | none =>
                  intro legacy
                  cases legacy with
                  | some info => exact room
                  | none => exact fun _ => room
          · exact fun _ => room

end Named

end Wrappers

section Handed

variable (ph : Platform)

theorem completes_getfindinfoL (srv : SmbwrpServer) (finfo : SmbwrpFileinfo) (ulAttribute : UInt32)
    (mask : Option CString) :
    (getfindinfoL ph srv finfo ulAttribute mask).Completes fun _ => True := by
  simp only [getfindinfoL]
  split
  · exact fun _ => trivial
  · trivial

theorem completes_giveFileinfo (s : Session) (finfo : SmbwrpFileinfo) :
    (giveFileinfo ph s finfo).Completes fun _ => True :=
  (completes_getfindinfoL ph _ _ _ _).bind fun _ _ => trivial

theorem completes_smbwrpDirAdd {srv : SmbwrpServer} {st : FilelistState} {finfo : SmbwrpFileinfo}
    (room : st.dir.length < maxPath) :
    (smbwrpDirAdd ph srv st finfo).Completes fun _ => True := by
  rw [smbwrpDirAdd, if_neg (Nat.not_le.mpr room)]
  exact (completes_getfindinfoL ph _ _ _ _).bind fun _ _ _ => trivial

end Handed

/-! Calls under the mutex. -/

section Guarded

variable {α : Type} {refused : Int → α} {post : α → Prop}

theorem completes_guarded {work : Program α} (denied : ∀ rcLock, post (refused rcLock))
    (worked : work.Completes post) : (guarded refused work).Completes post := by
  intro rcLock
  apply Prog.completes_ite
  · exact fun _ => denied rcLock
  · intro _
    exact worked.bind fun answer after _ => after

end Guarded

section PathCalls

variable {ph : Platform} {s : Session} {szPath : CString} {act : Session → CString → Program Int}

theorem completes_onPath (parsable : Parsable szPath)
    (acted : ∀ t, (act t (s.pRes.askedPath szPath)).Completes fun _ => True) :
    (onPath ph s szPath act).Completes fun answer => s.Moved answer.2 := by
  refine (completes_pathparser parsable).bind ?_
  rintro ⟨rc, t, path⟩ ⟨rfl, moved⟩
  apply Prog.completes_ite
  · exact fun _ => moved
  · intro _
    exact (acted t).bind fun _ _ => moved

def SameFile (s t : Session) : Prop := t.pConn.file = s.pConn.file

theorem completes_pathCall (parsable : Parsable szPath)
    (acted : ∀ t, (act t (s.pRes.askedPath szPath)).Completes fun _ => True) :
    (pathCall ph s szPath act).Completes fun answer => SameFile s answer.2 := by
  apply completes_guarded
  · exact fun _ => rfl
  · exact (completes_onPath parsable acted).mono fun _ moved => moved.file

theorem completes_mutatingCall (parsable : Parsable szPath)
    (acted : ∀ t path, (act t path).Completes fun _ => True) :
    (mutatingCall ph s szPath act).Completes fun answer => SameFile s answer.2 := by
  apply completes_guarded
  · exact fun _ => rfl
  · exact (completes_onPath parsable fun t => acted t _).mono fun _ moved => moved.file

theorem completes_ndpMove {szDst szSrc : CString} (parsable : Parsable szSrc)
    (behind : moveTarget ph szSrc szDst (s.pRes.askedPath szSrc) ≠ none) :
    (ndpMove ph s szDst szSrc).Completes fun answer => SameFile s answer.2 := by
  have renamed (t : Session) :
      (renameOn ph szSrc szDst t (s.pRes.askedPath szSrc)).Completes fun _ => True := by
    unfold renameOn
    split
    · rename_i nowhere
      exact absurd nowhere behind
    · trivial
    · exact completes_wrapped _ fun _ _ => trivial
  apply completes_guarded
  · exact fun _ => rfl
  · refine Prog.Completes.mono (completes_onPath parsable ?_) fun _ moved => moved.file
    exact renamed

theorem completes_ndpCreateDir (parsable : Parsable szPath) :
    (ndpCreateDir ph s szPath none).Completes fun answer => SameFile s answer.2 := by
  have made : (makeDir ph (s.invalidateParent ph szPath) szPath).Completes fun answer =>
      SameFile s answer.2.1 := by
    refine (completes_pathparser parsable).bind ?_
    rintro ⟨rc, t, path⟩ ⟨-, moved⟩
    apply Prog.completes_ite
    · exact fun _ => moved.file
    · intro _
      have asked : (smbwrpMkdir t.pConn.cli path).Completes fun _ => True :=
        completes_wrapped _ fun _ _ => trivial
      exact asked.bind fun _ _ => moved.file
  intro rcLock
  apply Prog.completes_ite
  · exact fun _ => rfl
  · intro _
    refine made.bind ?_
    rintro ⟨rc, t, path⟩ same _
    apply Prog.completes_ite
    · exact fun _ => same
    · exact fun _ => same

theorem completes_reconnect (s : Session) :
    (reconnect s).Completes fun answer => SameFile s answer.2 := by
  intro reply
  cases reply with
  | refused rc => exact rfl
  | connected cli => exact rfl

theorem completes_retryGetattr (s : Session) (finfo : SmbwrpFileinfo) (rc : Int) :
    (retryGetattr s finfo rc).Completes fun answer => SameFile s answer.2.1 := by
  apply Prog.completes_ite
  · intro _
    refine (completes_smbwrpDisconnect _).bind fun _ _ => ?_
    refine (completes_reconnect s).bind ?_
    rintro ⟨rcCon, t⟩ same
    apply Prog.completes_ite
    · intro _
      exact (completes_smbwrpGetattr _ _ _).bind fun _ _ => same
    · exact fun _ => same
  · exact fun _ => rfl

theorem completes_upperPath (s : Session) (finfo : SmbwrpFileinfo) :
    (upperPath s finfo).Completes fun _ => True := by
  unfold upperPath
  split
  · trivial
  · apply Prog.completes_ite
    · exact fun _ => trivial
    · intro _
      refine (completes_smbwrpGetattr _ _ _).bind fun answer _ => ?_
      apply Prog.completes_ite
      · exact fun _ => trivial
      · exact fun _ => trivial

theorem completes_queryAlive (s : Session) (finfo : SmbwrpFileinfo) :
    (queryAlive ph s finfo).Completes fun answer => SameFile s answer.2 := by
  refine (completes_smbwrpGetattr _ _ _).bind ?_
  rintro ⟨rc, first⟩ _
  refine (completes_retryGetattr s first rc).bind ?_
  rintro ⟨rc, t, second⟩ same
  apply Prog.completes_ite
  · intro _
    exact (completes_giveFileinfo ph t second).bind fun _ _ => same
  · intro _
    apply Prog.completes_ite
    · intro _
      exact (completes_upperPath t second).bind fun _ _ => same
    · exact fun _ => same

theorem completes_revive (s : Session) :
    (revive s).Completes fun answer => SameFile s answer.2 := by
  refine (completes_smbwrpEcho _).bind fun rc _ => ?_
  apply Prog.completes_ite
  · exact fun _ => completes_reconnect s
  · exact fun _ => rfl

theorem SameFile.trans {t u : Session} (first : SameFile s t) (second : SameFile t u) :
    SameFile s u := Eq.trans second first

theorem completes_queryServer (s : Session) (finfo : SmbwrpFileinfo) :
    (queryServer ph s finfo).Completes fun answer => SameFile s answer.2 := by
  rw [queryServer_eq]
  refine (completes_revive s).bind ?_
  rintro ⟨rc, t⟩ same
  apply Prog.completes_ite
  · exact fun _ => same
  · intro _
    exact (completes_queryAlive t finfo).bind fun answer after _ => same.trans after

theorem completes_queryNetwork (rooted : RootedPath szPath) (finfo : SmbwrpFileinfo) :
    (queryNetwork ph s szPath finfo).Completes fun answer => SameFile s answer.2 := by
  refine (completes_pathparser rooted.toParsable).bind ?_
  rintro ⟨rc, t, path⟩ ⟨rfl, moved⟩
  have same : SameFile s t := moved.file
  apply Prog.completes_ite
  · exact fun _ _ => same
  · intro _
    apply Prog.completes_ite
    · exact fun long => absurd long (Nat.not_le.mpr (rooted.asked s.pRes))
    · exact fun _ => (completes_queryServer t _).mono fun _ after => same.trans after

theorem completes_ndpQueryPathInfo (rooted : RootedPath szPath) :
    (ndpQueryPathInfo ph s szPath).Completes fun answer => SameFile s answer.2 := by
  have found : (dircacheFindPath ph s.pRes.pdc szPath).Completes fun _ => True := by
    unfold dircacheFindPath
    split
    · trivial
    · apply Prog.completes_ite
      · exact fun _ => trivial
      · intro _
        unfold dcFindPath
        split
        · trivial
        · exact fun _ => trivial
  intro rcLock
  apply Prog.completes_ite
  · exact fun _ => rfl
  · intro _
    apply Prog.completes_ite
    · exact fun _ _ => rfl
    · intro _
      refine found.bind ?_
      rintro (_ | ⟨finfo, ulAge⟩) _
      · exact fun finfo => completes_queryNetwork rooted finfo
      · apply Prog.completes_ite
        · intro _
          exact (completes_giveFileinfo ph s finfo).bind fun _ _ _ => rfl
        · exact fun _ => completes_queryNetwork rooted finfo

end PathCalls

/-! Calls on the open file. -/

def NamedInRoom (s : Session) : Prop := s.pConn.file.fname.length < 260

section FileCalls

variable {ph : Platform} {s : Session} (room : NamedInRoom s)

include room

theorem SameFile.inRoom {t : Session} (same : SameFile s t) : NamedInRoom t := by
  unfold NamedInRoom
  rw [same]
  exact room

theorem completes_queryOpenInfo : (queryOpenInfo ph s).Completes fun _ => True := by
  apply Prog.completes_ite
  · exact fun _ => trivial
  · intro _ finfo
    apply Prog.completes_ite
    · exact fun long => absurd long (Nat.not_le.mpr room)
    · intro _
      refine (completes_smbwrpFgetattr _ _).bind ?_
      rintro ⟨rc, answer⟩ _
      apply Prog.completes_ite
      · intro _
        exact (completes_giveFileinfo ph s answer).bind fun _ _ => trivial
      · exact fun _ => trivial

theorem completes_openPath {szFileName : CString} (rooted : RootedPath szFileName)
    (flags ulOpenMode ulAttribute : UInt32) :
    (openPath ph s szFileName flags ulOpenMode ulAttribute).Completes fun answer =>
      NamedInRoom answer.2 := by
  apply Prog.completes_ite
  · exact fun _ => room
  · intro _
    refine (completes_pathparser rooted.toParsable).bind ?_
    rintro ⟨rc, t, path⟩ ⟨rfl, moved⟩
    have same : SameFile s t := moved.file
    apply Prog.completes_ite
    · exact fun _ => same.inRoom room
    · intro _
      have asked := rooted.asked s.pRes
      have stored : (t.pConn.file.opening szFileName (s.pRes.askedPath szFileName) flags ulOpenMode
          ulAttribute).fname.length < 260 := by
        have shorter := List.length_take_le 260 (s.pRes.askedPath szFileName)
        have longest := List.length_take_le' 260 (s.pRes.askedPath szFileName)
        simp only [SmbwrpFile.opening]
        omega
      exact (completes_smbwrpOpen _ stored).bind fun _ after => after

theorem completes_smbopen {szFileName : CString} (rooted : RootedPath szFileName)
    (flags ulOpenMode ulAttribute : UInt32) :
    (smbopen ph s szFileName flags ulOpenMode ulAttribute none).Completes fun answer =>
      NamedInRoom answer.2 := by
  apply completes_guarded
  · exact fun _ => room
  · have begun : NamedInRoom
        (if flags &&& oCreat ≠ 0 then s.invalidateParent ph szFileName else s) := by
      split
      · exact room
      · exact room
    refine (completes_openPath begun rooted flags ulOpenMode ulAttribute).bind ?_
    rintro ⟨rc, t⟩ after
    have without : easOnOpen rc t none = pure () := if_neg (fun both => nomatch both.2)
    simp only [without]
    exact after

theorem completes_ndpFileSetInfo (stat : Filestatus3L) :
    (ndpFileSetInfo ph s stat).Completes fun answer => NamedInRoom answer.2 := by
  apply completes_guarded
  · exact fun _ => room
  · apply Prog.completes_ite
    · exact fun _ => room
    · exact fun _ => room

theorem completes_ndpFileSetFilePtrL (llOffset : Int) (ulMethod : UInt32) :
    (ndpFileSetFilePtrL s llOffset ulMethod).Completes fun answer => NamedInRoom answer.2.1 := by
  apply completes_guarded
  · exact fun _ => room
  · apply Prog.completes_ite
    · exact fun _ => room
    · intro _
      exact (completes_smbwrpLseek _ room _ _).bind fun _ after => after

theorem completes_ndpFileSetFilePtr (lOffset : Int) (ulMethod : UInt32) :
    (ndpFileSetFilePtr s lOffset ulMethod).Completes fun answer => NamedInRoom answer.2.1 := by
  intro unset
  exact (completes_ndpFileSetFilePtrL room lOffset ulMethod).bind fun _ after => after

theorem completes_ndpFileClose :
    (ndpFileClose s).Completes fun answer => NamedInRoom answer.2 := by
  apply completes_guarded
  · exact fun _ => room
  · apply Prog.completes_ite
    · exact fun _ => room
    · intro _
      exact (completes_smbwrpClose _ _).bind fun _ shorter => shorter.trans_lt room

theorem completes_ndpFileRead (hasBuffer : Bool) (ulRead : UInt32) :
    (ndpFileRead s hasBuffer ulRead).Completes fun answer => NamedInRoom answer.2.1 := by
  apply completes_guarded
  · exact fun _ => room
  · refine (completes_smbwrpRead _ room hasBuffer ulRead).bind ?_
    rintro ⟨rc, file, data⟩ after
    cases data with
    | some data => exact after
    | none => exact fun _ => after

theorem completes_ndpFileWrite (pBuffer : Option (List UInt8)) :
    (ndpFileWrite ph s pBuffer).Completes fun answer => NamedInRoom answer.2.1 := by
  apply completes_guarded
  · exact fun _ => room
  · apply Prog.completes_ite
    · exact fun _ => room
    · intro _
      exact (completes_smbwrpWrite _ room pBuffer).bind fun _ after => after

end FileCalls

theorem completes_ndpFileNewSizeL (s : Session) (llLen : Int) :
    (ndpFileNewSizeL s llLen).Completes fun _ => True := by
  apply completes_guarded
  · exact fun _ => trivial
  · apply Prog.completes_ite
    · exact fun _ => trivial
    · exact fun _ => completes_smbwrpSetfilesize _ llLen

end NdpSmb
