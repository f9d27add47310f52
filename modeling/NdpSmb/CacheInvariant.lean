import NdpSmb.CallRule

/-!
One rule for what every call keeps of the directory cache: it is enough that the four functions
through which a listing is read and written keep it, and the invalidation.
-/

namespace NdpSmb

open ByteString Interaction

structure CacheInvariant (ph : Platform) (holds : Option DirectoryCache → Prop)
    (writing : Option DirectoryCacheEntry → Prop) : Prop where
  read : ∀ {pdc} (state : FilelistState) (fn : SmbwrpFileinfo → Program UInt32), holds pdc →
    (dircacheListFiles ph pdc state fn).Returns fun answer => holds answer.2
  begun : ∀ {pdc} (state : FilelistState) (cFiles : Nat), holds pdc →
    (dircacheWriteBegin ph pdc state cFiles).Returns fun answer =>
      writing answer.1 ∧ holds answer.2
  written : ∀ {dircachectx} (finfo : SmbwrpFileinfo), writing dircachectx →
    (dircacheWriteEntry dircachectx finfo).Returns writing
  ended : ∀ {dircachectx pdc}, writing dircachectx → holds pdc →
    (dircacheWriteEnd pdc dircachectx).Returns holds
  dropped : ∀ {pdc} (path : CString) (fParent : Bool), holds pdc →
    holds (dircacheInvalidate ph path pdc fParent)

def returnsWatch : Watch Op Unit where
  observe memory _ := memory

namespace CacheInvariant

section Listing

variable {ph : Platform} {holds : Option DirectoryCache → Prop}
  {writing : Option DirectoryCacheEntry → Prop} (rule : CacheInvariant ph holds writing)
  {searchAttr : UInt32} {fn : SmbwrpFileinfo → Program UInt32} {pdc : Option DirectoryCache}
  {dircachectx : Option DirectoryCacheEntry} {st : FilelistState} {cli : Handle}

include rule

theorem listEntries (failed : Option BadStatus) (infos : List FileInfo) (progress : ListProgress)
    (begun : writing progress.dircachectx) :
    (NdpSmb.listEntries ph searchAttr fn failed infos progress).Returns fun answer =>
      writing answer.2.dircachectx := by
  induction infos generalizing progress with
  | nil =>
      unfold NdpSmb.listEntries
      split
      · exact begun
      · exact begun
  | cons finfo infos ih =>
      unfold NdpSmb.listEntries
      split
      · refine Prog.returns_bind.mpr (Prog.returns_of_forall fun status => ?_)
        apply Prog.returns_bind.mpr
        apply (rule.written _ begun).mono
        intro next wrote
        simp only
        split
        · exact wrote
        · exact ih _ wrote
      · exact ih _ begun

theorem listReplies (mask : CString) (queries : Nat) (progress : ListProgress)
    (begun : writing progress.dircachectx) :
    (NdpSmb.listReplies ph searchAttr fn cli mask queries progress).Returns fun answer =>
      writing answer.2.dircachectx := by
  induction queries generalizing progress with
  | zero => trivial
  | succ queries ih =>
      apply Prog.returns_perform_bind.mpr
      intro reply
      cases reply with
      | error status =>
          simp only
          split
          · exact begun
          · exact begun
      | ok dirData =>
          apply Prog.returns_bind.mpr
          apply (rule.listEntries _ _ _ begun).mono
          rintro ⟨replied | status, progress⟩ wrote
          · exact wrote
          · simp only
            split
            · exact wrote
            · split
              · exact ih _ wrote
              · exact wrote

theorem listMapped (begun : writing dircachectx) (kept : holds pdc) (fnum : UInt16)
    (mask : CString) :
    (NdpSmb.listMapped ph searchAttr fn pdc dircachectx cli fnum mask).Returns fun listed =>
      holds listed.pdc := by
  apply Prog.returns_perform_bind.mpr
  intro status
  split
  · exact kept
  · apply Prog.returns_bind.mpr
    apply (rule.listReplies mask _ _ begun).mono
    rintro ⟨status | status, progress⟩ wrote
    · exact kept
    · apply Prog.returns_bind.mpr
      apply (rule.ended wrote kept).mono
      intro left after
      exact after

theorem listContext (begun : writing dircachectx) (kept : holds pdc) (pathname : CString) :
    (NdpSmb.listContext ph searchAttr fn pdc dircachectx cli pathname).Returns fun listed =>
      holds listed.pdc := by
  apply Prog.returns_perform_bind.mpr
  intro asyncCalls
  split
  · exact kept
  apply Prog.returns_perform_bind.mpr
  intro smb2
  split
  · exact kept
  apply Prog.returns_perform_bind.mpr
  intro parent
  cases parent with
  | none => exact kept
  | some parent =>
      apply Prog.returns_perform_bind.mpr
      intro created
      cases created with
      | error status => exact kept
      | ok fnum =>
          apply Prog.returns_bind.mpr
          apply (rule.listMapped begun kept fnum parent.2).mono
          intro listed after
          unfold closeFnum
          split
          · intro closed
            exact after
          · exact after

theorem listReceived (infos : List FileInfo) (begun : writing dircachectx) :
    (NdpSmb.listReceived fn infos dircachectx).Returns writing := by
  induction infos generalizing dircachectx with
  | nil => exact begun
  | cons finfo infos ih =>
      refine Prog.returns_bind.mpr (Prog.returns_of_forall fun status => ?_)
      apply Prog.returns_bind.mpr
      apply (rule.written _ begun).mono
      intro next wrote
      exact ih wrote

theorem listFilesSmb1 (kept : holds pdc) (mask : CString) :
    (NdpSmb.listFilesSmb1 ph searchAttr fn pdc st cli mask).Returns fun answer =>
      holds answer.2 := by
  apply Prog.returns_perform_bind.mpr
  intro numFinfo
  apply Prog.returns_perform_bind.mpr
  intro asyncCalls
  split
  · exact kept
  apply Prog.returns_perform_bind.mpr
  intro ntSmbs
  apply Prog.returns_perform_bind.mpr
  intro sent
  split
  · exact kept
  apply Prog.returns_perform_bind.mpr
  intro polled
  split
  · exact kept
  apply Prog.returns_perform_bind.mpr
  intro received
  cases received with
  | none => exact kept
  | some infos =>
      apply Prog.returns_bind.mpr
      apply (rule.begun st infos.length kept).mono
      rintro ⟨dircachectx, left⟩ ⟨begun, after⟩
      apply Prog.returns_bind.mpr
      apply (rule.listReceived infos begun).mono
      intro written wrote
      apply Prog.returns_bind.mpr
      apply (rule.ended wrote after).mono
      intro latest linked
      exact linked

theorem listFiles (kept : holds pdc) (mask : CString) :
    (NdpSmb.listFiles ph searchAttr fn pdc st cli mask).Returns fun answer => holds answer.2 := by
  apply Prog.returns_bind.mpr
  apply (rule.read st fn kept).mono
  rintro ⟨cached, left⟩ after
  cases cached with
  | some numFinfo => exact after
  | none =>
      apply Prog.returns_perform_bind.mpr
      intro smb2
      split
      · apply Prog.returns_bind.mpr
        apply Prog.returns_bind.mpr
        apply (rule.begun st 128 after).mono
        rintro ⟨dircachectx, begun⟩ ⟨writes, opened⟩
        apply (rule.listContext writes opened mask).mono
        intro listed ended
        exact ended
      · exact rule.listFilesSmb1 after mask

theorem filelistOn {s : Session} (kept : holds s.pRes.pdc) :
    (NdpSmb.filelistOn ph s st).Returns fun answer =>
      holds answer.2.pRes.pdc ∧ answer.2 = s.withCache answer.2.pRes.pdc := by
  apply Prog.returns_bind.mpr
  unfold smbwrpFilelist
  split
  · exact ⟨kept, rfl⟩
  · split
    · exact ⟨kept, rfl⟩
    · rename_i cli _ _
      refine listTarget_cases ph cli s.pRes st (motive := fun program => program.Returns _) ?_ ?_
      · intro program _ same
        apply same.mono
        intro answer unchanged
        refine ⟨?_, rfl⟩
        have cache : answer.2 = s.pRes.pdc := unchanged
        rw [cache]
        exact kept
      · apply Prog.returns_bind.mpr
        apply (rule.listFiles kept st.mask).mono
        rintro ⟨value, left⟩ after
        simp only
        split
        · intro errno
          exact ⟨after, rfl⟩
        · exact ⟨after, rfl⟩

end Listing

end CacheInvariant

/-! Every call, and every run. -/

theorem reconnect_resource (s : Session) :
    (reconnect s).Returns fun answer => answer.2.pRes = s.pRes := by
  apply Prog.returns_perform_bind.mpr
  intro reply
  cases reply with
  | refused rc => rfl
  | connected cli => rfl

theorem revive_resource (s : Session) :
    (revive s).Returns fun answer => answer.2.pRes = s.pRes := by
  refine Prog.returns_bind.mpr (Prog.returns_of_forall fun rc => ?_)
  split
  · exact reconnect_resource s
  · rfl

theorem renew_resource (s : Session) :
    (renew s).Returns fun answer => answer.2.pRes = s.pRes :=
  Prog.returns_bind.mpr (Prog.returns_of_forall fun _ => reconnect_resource s)

section Calls

variable {ph : Platform} {holds : Option DirectoryCache → Prop}
  {writing : Option DirectoryCacheEntry → Prop}

def CacheHeld (holds : Option DirectoryCache → Prop) (_ : Nat) (s : Session) (_ : Unit) : Prop :=
  holds s.pRes.pdc

namespace CacheInvariant

theorem keptSearching (rule : CacheInvariant ph holds writing) :
    KeptSearching ph returnsWatch (CacheHeld holds) where
  crash _ := trivial
  served kept _ _ _ := kept
  locked kept _ := kept
  denied kept _ _ := kept
  released kept _ := kept
  parsed szPath kept := by
    apply Watch.ensures_of_returns fun _ => trivial
    apply (pathparser_moved szPath).mono
    intro answer moved
    have same := moved.pdc
    exact same ▸ kept
  invalidated szPath kept := rule.dropped szPath true kept
  filed _ kept := kept
  revived {_ s _} kept := by
    apply Watch.ensures_of_returns fun _ => trivial
    apply (revive_resource s).mono
    intro answer same
    exact same.symm ▸ kept
  renewed {_ s _} kept := by
    apply Watch.ensures_of_returns fun _ => trivial
    apply (renew_resource s).mono
    intro answer same
    exact same.symm ▸ kept
  clocked kept _ := kept
  listed state kept := by
    apply Watch.ensures_of_returns fun _ => trivial
    apply (rule.filelistOn kept).mono
    intro answer after
    exact after.1

theorem call (rule : CacheInvariant ph holds writing) {s : Session} (ask : SessionCall)
    (kept : holds s.pRes.pdc) :
    (ask.run ph s).Returns fun answer => holds answer.2.pRes.pdc := by
  have start : CacheHeld holds 0 s () := kept
  apply (rule.keptSearching.every ask start).returns fun _ _ => trivial
  intro answer _ after
  rcases after with free | held
  · exact free
  · exact held

theorem reached (rule : CacheInvariant ph holds writing) {pRes : Resource} (first : holds pRes.pdc)
    {history : List (Taken Op Call Int)} {system : System}
    (reached : Mounted ph pRes history system) : holds system.pRes.pdc := by
  induction reached with
  | start => exact first
  | @step history before call trace rc next _ _ run ih =>
      by_cases on : ∃ conn ask, call = .on conn ask
      · obtain ⟨conn, ask, rfl⟩ := on
        obtain ⟨pConn, s, -, called, rfl⟩ := System.run_on_iff.mp run
        have start : holds (Session.mk before.pRes pConn).pRes.pdc := ih
        exact (rule.call ask start).run called
      · have other : ∀ conn ask, call ≠ .on conn ask := by
          intro conn ask same
          exact on ⟨conn, ask, same⟩
        have kept := (System.call_keeps_resource other).run run
        rw [kept]
        exact ih

end CacheInvariant

end Calls

end NdpSmb
