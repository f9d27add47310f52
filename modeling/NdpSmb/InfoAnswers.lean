import NdpSmb.System
import NdpSmb.TwoRuns

/-!
What `NdpQueryPathInfo` and `NdpFileQueryInfo` tell about a file, seen over two runs: the
server answers the same, and what is on the stack where `finfo` lies is not the same.
-/

namespace NdpSmb

open ByteString Interaction

/-- What goes through `getfindinfoL`, the name apart. -/
structure PassedInfo where
  size : UInt64
  attr : UInt32
  btime : UInt32
  atime : UInt32
  mtime : UInt32
  deriving DecidableEq

def SmbwrpFileinfo.passed (finfo : SmbwrpFileinfo) : PassedInfo where
  size := finfo.size
  attr := finfo.attr &&& attrMask
  btime := finfo.btime
  atime := finfo.atime
  mtime := finfo.mtime

def passedInfo : CallEvent → Option PassedInfo
  | ⟨.fsphAddFile32L _ _ finfo, _⟩ => some finfo.passed
  | _ => none

/-- What is on the stack before the first query. -/
def initialContent : CallEvent → Option SmbwrpFileinfo
  | ⟨.uninitializedFileinfo, content⟩ => some content
  | _ => none

/-- The answers on which zero is returned and not all of the record is set: those of the legacy
queries, and an errno that `maperror` takes for no error. -/
def partlyFilled : CallEvent → Bool
  | ⟨.request _ (.cliGetatr _), info⟩ | ⟨.request _ (.cliGetattrE _), info⟩ => info.isSome
  | ⟨.request _ .cliErrno, errno⟩ => maperror errno = 0
  | _ => false

inductive InfoKind
  | content
  | passed
  deriving DecidableEq

structure InfoSeen where
  contents : Option (SmbwrpFileinfo × SmbwrpFileinfo) := none
  partly : Bool := false
  passed : List (PassedInfo × PassedInfo) := []

/-- Both runs of one query: what they found on the stack, and what they passed on. -/
def infoWatch : PairWatch Op InfoKind InfoSeen where
  kind
    | _, .uninitializedFileinfo => some .content
    | _, .fsphAddFile32L .. => some .passed
    | _, _ => none
  observe seen event other :=
    { contents := match initialContent event, initialContent other with
        | some content, some answer => some (content, answer)
        | _, _ => seen.contents
      partly := partlyFilled event || seen.partly
      passed := match passedInfo event, passedInfo other with
        | some info, some answer => seen.passed ++ [(info, answer)]
        | _, _ => seen.passed }

def Op.Uninforming : (R : Type) → Op R → Prop
  | _, .uninitializedFileinfo | _, .fsphAddFile32L .. => False
  | _, .request _ (.cliGetatr _) | _, .request _ (.cliGetattrE _) => False
  | _, .request _ .cliErrno => False
  | _, _ => True

theorem Op.Uninforming.plain {R : Type} {op : Op R} (idle : Op.Uninforming R op) :
    infoWatch.secret R op = false ∧
      ∀ memory reply, infoWatch.observe memory ⟨op, reply⟩ ⟨op, reply⟩ = memory := by
  cases op with
  | request cli ask =>
      refine ⟨rfl, fun memory reply => ?_⟩
      cases ask with
      | cliGetatr | cliGetattrE | cliErrno => exact absurd idle id
      | _ => rfl
  | uninitializedFileinfo | fsphAddFile32L => exact absurd idle id
  | _ => exact ⟨rfl, fun _ _ => rfl⟩

theorem agrees_uninforming {α : Type} {program : Program α} {seen : InfoSeen}
    (idle : program.Only Op.Uninforming) :
    infoWatch.Agrees (fun left right later => left = right ∧ later = seen) program program seen :=
  .refl (idle.mono fun _ _ => Op.Uninforming.plain)

section Records

variable {seen later : InfoSeen} {finfo other : SmbwrpFileinfo} {cli : Handle}

structure InfoSeen.Starts (seen : InfoSeen) (finfo other : SmbwrpFileinfo) : Prop where
  whole : seen.partly = false
  fname : finfo.fname = other.fname
  same : seen.contents = none → finfo = other
  apart : ∀ content answer, seen.contents = some (content, answer) →
    finfo.btime = content.btime ∧ other.btime = answer.btime

/-- What both runs pass on: the same, or a time of creation that was on the stack. -/
def InfoSeen.Tells (seen : InfoSeen) (info answer : PassedInfo) : Prop :=
  match seen.contents, seen.partly with
  | some (content, found), true => info.btime = content.btime ∧ answer.btime = found.btime
  | _, _ => info = answer

theorem InfoSeen.tells_of_eq {info : PassedInfo} (same : seen.partly = false) :
    seen.Tells info info := by
  unfold Tells
  rw [same]
  split <;> first | rfl | simp_all

/-- Where both records are filled in the same way, the same is passed on, or the time of
creation is left alone. -/
theorem InfoSeen.Starts.tells (starts : seen.Starts finfo other)
    (fill : SmbwrpFileinfo → SmbwrpFileinfo) (contents : later.contents = seen.contents)
    (full : later.partly = false → (fill finfo).passed = (fill other).passed)
    (kept : later.partly = true → ∀ record, (fill record).btime = record.btime) :
    later.Tells (fill finfo).passed (fill other).passed := by
  unfold Tells
  rw [contents]
  cases there : seen.contents with
  | none => rw [starts.same there]
  | some pair =>
      cases part : later.partly with
      | false => exact full part
      | true =>
          obtain ⟨left, right⟩ := starts.apart pair.1 pair.2 there
          exact ⟨(kept part finfo).trans left, (kept part other).trans right⟩

/-- How both runs of a question end: it fails and leaves the records as they were, or it fills
them. -/
def InfoSeen.Ends (seen : InfoSeen) (finfo other : SmbwrpFileinfo)
    (left right : Int × SmbwrpFileinfo) (later : InfoSeen) : Prop :=
  left.1 = right.1 ∧ later.passed = seen.passed ∧
    (left.1 = 0 ∧ later.Tells left.2.passed right.2.passed ∨
      left.1 ≠ 0 ∧ later = seen ∧ left.2 = finfo ∧ right.2 = other)

theorem InfoSeen.Starts.ends (starts : seen.Starts finfo other)
    (fill : SmbwrpFileinfo → SmbwrpFileinfo) (contents : later.contents = seen.contents)
    (passed : later.passed = seen.passed)
    (full : later.partly = false → (fill finfo).passed = (fill other).passed)
    (kept : later.partly = true → ∀ record, (fill record).btime = record.btime) :
    seen.Ends finfo other (0, fill finfo) (0, fill other) later :=
  ⟨rfl, passed, .inl ⟨rfl, starts.tells fill contents full kept⟩⟩

theorem InfoSeen.Ends.of_failed {rc : Int} (failed : rc ≠ 0) :
    seen.Ends finfo other (rc, finfo) (rc, other) seen :=
  ⟨rfl, rfl, .inr ⟨failed, rfl, rfl, rfl⟩⟩

/-- An errno that stands for no error leaves the whole record as it was. -/
theorem InfoSeen.Starts.ends_errno (starts : seen.Starts finfo other) {errno rc : Int}
    (mapped : rc = 0 ↔ maperror errno = 0) :
    seen.Ends finfo other (rc, finfo) (rc, other)
      (infoWatch.observe seen ⟨.request cli .cliErrno, errno⟩ ⟨.request cli .cliErrno, errno⟩) := by
  by_cases none_set : maperror errno = 0
  · have part : decide (maperror errno = 0) = true := decide_eq_true none_set
    rw [mapped.mpr none_set]
    refine starts.ends id rfl rfl (fun full => ?_) fun _ _ => rfl
    change (decide (maperror errno = 0) || seen.partly) = false at full
    rw [part] at full
    cases full
  · have still : infoWatch.observe seen ⟨.request cli .cliErrno, errno⟩
        ⟨.request cli .cliErrno, errno⟩ = seen := by
      have part : decide (maperror errno = 0) = false := decide_eq_false none_set
      change ({ seen with partly := decide (maperror errno = 0) || seen.partly } : InfoSeen) = seen
      rw [part]
      rfl
    rw [still]
    exact .of_failed (mt mapped.mp none_set)

theorem agrees_os2cliErrno (starts : seen.Starts finfo other) :
    infoWatch.Agrees (seen.Ends finfo other)
      (os2cliErrno cli >>= fun rc => pure (rc, finfo))
      (os2cliErrno cli >>= fun rc => pure (rc, other)) seen := by
  refine .perform rfl fun errno => .ret ?_
  exact starts.ends_errno Iff.rfl

theorem maperror_replaced (ret : Int) :
    maperror (if ret = einval then enotdir else ret) = 0 ↔ maperror ret = 0 := by
  by_cases invalid : ret = einval
  · rw [if_pos invalid, invalid]
    decide
  · rw [if_neg invalid]

theorem storeAttr_attrMask (attr : UInt32) (low : UInt16) :
    storeAttr attr low &&& attrMask = low.toUInt32 &&& attrMask :=
  storeAttr_and (by decide) attr low

theorem passed_fill (info : BasicInfo) :
    (finfo.fill info).passed = (other.fill info).passed := by
  have mask : (0x7F : UInt32) &&& attrMask = attrMask := by decide
  simp only [SmbwrpFileinfo.passed, SmbwrpFileinfo.fill, UInt32.and_assoc, mask,
    storeAttr_attrMask]

theorem agrees_smbwrpGetattr (srv : SmbwrpServer) (cli : Option Handle)
    (starts : seen.Starts finfo other) :
    infoWatch.Agrees (seen.Ends finfo other) (smbwrpGetattr srv cli finfo)
      (smbwrpGetattr srv cli other) seen := by
  have whole := starts.whole
  cases cli with
  | none => exact .ret (.of_failed (by decide))
  | some cli =>
      simp only [smbwrpGetattr, starts.fname]
      split
      · exact .ret (.of_failed (by decide))
      · refine .perform rfl fun first => ?_
        cases first with
        | some info =>
            refine .ret (starts.ends (·.fill info) rfl rfl
              (fun _ => passed_fill info) fun part => ?_)
            exact absurd part (by simp [infoWatch, partlyFilled, whole])
        | none =>
            refine .perform rfl fun second => ?_
            cases second with
            | some info =>
                refine .ret (starts.ends (·.fill info) rfl rfl
                  (fun _ => passed_fill info) fun part => ?_)
                exact absurd part (by simp [infoWatch, partlyFilled, whole])
            | none =>
                simp only
                split
                · refine .perform rfl fun btime => .perform rfl fun atime => .perform rfl fun mtime =>
                    .perform rfl fun ctime => .ret ?_
                  refine starts.ends (fun record => { record with
                    btime, atime, mtime, ctime, size := 0, easize := 0, attr := aDir
                    fname := other.fname }) rfl rfl
                    (fun _ => rfl) fun part => ?_
                  exact absurd part (by simp [infoWatch, partlyFilled, whole])
                · refine .perform rfl fun nt => ?_
                  cases nt with
                  | true =>
                      refine .perform rfl fun ret => .ret ?_
                      exact starts.ends_errno (maperror_replaced ret)
                  | false =>
                      refine .perform rfl fun legacy => ?_
                      cases legacy with
                      | none => exact agrees_os2cliErrno starts
                      | some info =>
                          refine .perform rfl fun zone => .ret ?_
                          refine starts.ends (fun record => { record with
                            attr := storeAttr record.attr info.attr, size := info.size
                            mtime := info.mtime - zone, fname := other.fname }) rfl rfl (fun full => ?_) fun _ _ => rfl
                          simp [infoWatch, partlyFilled] at full

/-- The legacy query of an open file leaves the time of creation alone. -/
theorem agrees_smbwrpFgetattr (cli : Option Handle) (file : SmbwrpFile)
    (starts : seen.Starts finfo other) (named : finfo.fname = file.fname) :
    infoWatch.Agrees (seen.Ends finfo other) (smbwrpFgetattr cli file finfo)
      (smbwrpFgetattr cli file other) seen := by
  have whole := starts.whole
  have left : { finfo with fname := file.fname } = finfo := by rw [← named]
  have right : { other with fname := file.fname } = other := by rw [← named, starts.fname]
  cases cli with
  | none => exact .ret (.of_failed (by decide))
  | some cli =>
      simp only [smbwrpFgetattr, left, right]
      refine .perform rfl fun basic => ?_
      cases basic with
      | some info =>
          refine .ret (starts.ends (fun record => { record with
            attr := storeAttr record.attr info.attr, size := info.size
            btime := info.btime, mtime := info.mtime, atime := info.atime
            ctime := info.ctime, fname := file.fname }) rfl rfl (fun _ => ?_) fun part => ?_)
          · simp only [SmbwrpFileinfo.passed, storeAttr_attrMask]
          · exact absurd part (by simp [infoWatch, partlyFilled, whole])
      | none =>
          refine .perform rfl fun legacy => ?_
          cases legacy with
          | none => exact agrees_os2cliErrno starts
          | some info =>
              refine .perform rfl fun changeZone => .perform rfl fun accessZone =>
                .perform rfl fun writeZone => .ret ?_
              refine starts.ends (fun record => { record with
                attr := storeAttr record.attr info.attr, size := info.size
                ctime := info.ctime - changeZone, atime := info.atime - accessZone
                mtime := info.mtime - writeZone, fname := file.fname }) rfl rfl (fun full => ?_) fun _ _ => rfl
              simp [infoWatch, partlyFilled] at full

/-! From the queries to what NetDrive is given. -/

def InfoSeen.Told (seen : InfoSeen) : Prop :=
  ∃ info answer, seen.passed = [(info, answer)] ∧ seen.Tells info answer

theorem agrees_giveFileinfo (ph : Platform) (s : Session) (unpassed : seen.passed = [])
    (tells : seen.Tells finfo.passed other.passed) :
    infoWatch.Agrees (fun _ _ later => later.Told) (giveFileinfo ph s finfo)
      (giveFileinfo ph s other) seen := by
  refine .perform_hidden rfl rfl fun _ _ => .ret ⟨finfo.passed, other.passed, ?_, tells⟩
  change seen.passed ++ [(finfo.passed, other.passed)] = _
  rw [unpassed]
  rfl

theorem getattrRc_eq_zero {rc : Int} : getattrRc rc = 0 ↔ rc = 0 := by
  unfold getattrRc parserRc
  constructor
  · intro zero
    split at zero
    · exact zero
    · split at zero
      · exact zero
      · exact absurd zero (by decide)
  · rintro rfl
    decide

/-- A failed question leaves both records as they were found. -/
structure InfoSeen.Stays (seen : InfoSeen) (finfo other : SmbwrpFileinfo)
    (left right : Int × Session × SmbwrpFileinfo) (later : InfoSeen) : Prop where
  rc : left.1 = right.1
  session : left.2.1 = right.2.1
  passed : later.passed = seen.passed
  told : left.1 = 0 → later.Tells left.2.2.passed right.2.2.passed
  failed : left.1 ≠ 0 → later = seen ∧ left.2.2 = finfo ∧ right.2.2 = other

theorem InfoSeen.Ends.stays {left right : Int × SmbwrpFileinfo} (s : Session)
    (ends : seen.Ends finfo other left right later) :
    seen.Stays finfo other (getattrRc left.1, s, left.2) (getattrRc right.1, s, right.2) later := by
  obtain ⟨rc, passed, ended⟩ := ends
  refine ⟨congrArg getattrRc rc, rfl, passed, fun zero => ?_, fun failed => ?_⟩
  · rcases ended with ⟨-, tells⟩ | ⟨failed, -⟩
    · exact tells
    · exact absurd (getattrRc_eq_zero.mp zero) failed
  · rcases ended with ⟨zero, -⟩ | ⟨-, same⟩
    · exact absurd (getattrRc_eq_zero.mpr zero) failed
    · exact same

theorem uninforming_smbwrpDisconnect (cli : Option Handle) :
    (smbwrpDisconnect cli).Only Op.Uninforming :=
  only_smbwrpDisconnect cli fun _ => trivial

theorem uninforming_reconnect (s : Session) : (reconnect s).Only Op.Uninforming := by
  refine Prog.only_perform_bind.mpr ⟨trivial, fun reply => ?_⟩
  cases reply <;> trivial

theorem agrees_retryGetattr (s : Session) {left right : Int × SmbwrpFileinfo}
    (starts : seen.Starts finfo other) (ends : seen.Ends finfo other left right later) :
    infoWatch.Agrees (seen.Stays finfo other) (retryGetattr s left.2 left.1)
      (retryGetattr s right.2 right.1) later := by
  unfold retryGetattr
  rw [← ends.1]
  split
  · rename_i lost
    obtain ⟨same, passed, ⟨zero, -⟩ | ⟨failed, rfl, unset, untouched⟩⟩ := ends
    · rw [zero] at lost
      exact absurd lost (by decide)
    · rw [unset, untouched]
      refine (agrees_uninforming (uninforming_smbwrpDisconnect _)).bind ?_
      rintro _ _ _ ⟨rfl, rfl⟩
      refine (agrees_uninforming (uninforming_reconnect s)).bind ?_
      rintro ⟨rcCon, t⟩ _ memory ⟨rfl, rfl⟩
      simp only
      split
      · refine (agrees_smbwrpGetattr _ _ starts).bind fun first second last ends => .ret ?_
        exact ends.stays t
      · have still : memory.Ends finfo other (left.1, finfo) (left.1, other) memory :=
          .of_failed failed
        exact .ret (still.stays t)
  · have stays := ends.stays s
    rw [← ends.1] at stays
    exact .ret stays

theorem agrees_upperPath (s : Session) (starts : seen.Starts finfo other) :
    infoWatch.Agrees (fun left _ _ => left ≠ noError) (upperPath s finfo) (upperPath s other)
      seen := by
  unfold upperPath
  rw [starts.fname]
  split
  · exact .ret (by decide)
  · rename_i upper last cut
    split
    · exact .ret (by decide)
    · have starts : seen.Starts { finfo with fname := upper } { other with fname := upper } :=
        ⟨starts.whole, rfl, fun absent => by rw [starts.same absent], starts.apart⟩
      refine (agrees_smbwrpGetattr _ _ starts).bind ?_
      rintro ⟨rc, left⟩ ⟨_, right⟩ later ⟨rfl, -⟩
      simp only
      split
      · refine .ret ?_
        split <;> decide
      · rename_i failed
        refine .ret ?_
        split
        · exact failed
        · decide

theorem agrees_queryAlive (ph : Platform) (s : Session) (starts : seen.Starts finfo other)
    (unpassed : seen.passed = []) :
    infoWatch.Agrees (fun left _ later => left.1 = noError → later.Told) (queryAlive ph s finfo)
      (queryAlive ph s other) seen := by
  refine (agrees_smbwrpGetattr _ _ starts).bind fun left right memory ends => ?_
  refine (agrees_retryGetattr s starts ends).bind ?_
  rintro ⟨rc, t, first⟩ ⟨_, _, second⟩ last ⟨rfl, rfl, passed, told, failed⟩
  simp only
  split
  · rename_i fine
    refine (agrees_giveFileinfo ph t (passed.trans unpassed) (told fine)).bind ?_
    exact fun _ _ later given => .ret fun _ => given
  · rename_i bad
    obtain ⟨rfl, rfl, rfl⟩ := failed bad
    split
    · refine (agrees_upperPath t starts).bind fun rc answer later missing => .ret fun fine => ?_
      exact absurd fine missing
    · exact .ret fun fine => absurd fine bad

theorem uninforming_smbwrpEcho (cli : Option Handle) : (smbwrpEcho cli).Only Op.Uninforming := by
  cases cli with
  | none => trivial
  | some cli => exact ⟨trivial, fun _ => trivial⟩

theorem uninforming_leave : leave.Only Op.Uninforming := ⟨trivial, fun _ => trivial⟩

theorem agrees_queryServer (ph : Platform) (s : Session) (starts : seen.Starts finfo other)
    (unpassed : seen.passed = []) :
    infoWatch.Agrees (fun left _ later => left.1 = noError → later.Told) (queryServer ph s finfo)
      (queryServer ph s other) seen := by
  have alive (t : Session) : infoWatch.Agrees (fun left _ later => left.1 = noError → later.Told)
      (queryAlive ph t finfo >>= fun answer => leave >>= fun _ => pure answer)
      (queryAlive ph t other >>= fun answer => leave >>= fun _ => pure answer) seen := by
    refine (agrees_queryAlive ph t starts unpassed).bind fun left right memory told => ?_
    refine (agrees_uninforming uninforming_leave).bind ?_
    rintro _ _ _ ⟨-, rfl⟩
    exact .ret told
  refine (agrees_uninforming (uninforming_smbwrpEcho _)).bind ?_
  rintro rc _ _ ⟨rfl, rfl⟩
  simp only
  split
  · refine (agrees_uninforming (uninforming_reconnect s)).bind ?_
    rintro ⟨rcCon, t⟩ _ _ ⟨rfl, rfl⟩
    simp only
    split
    · exact .ret fun fine => absurd fine (show errorPathNotFound ≠ noError by decide)
    · exact alive t
  · exact alive s

theorem uninforming_pathparser (ph : Platform) (s : Session) (szPath : CString) :
    (pathparser ph s szPath).Only Op.Uninforming := by
  apply only_pathparser
  · exact fun _ _ _ _ => trivial
  · exact fun _ => trivial

theorem agrees_queryNetwork (ph : Platform) (s : Session) (szPath : CString)
    (starts : ∀ path, seen.Starts { finfo with fname := path } { other with fname := path })
    (unpassed : seen.passed = []) :
    infoWatch.Agrees (fun left _ later => left.1 = noError → later.Told)
      (queryNetwork ph s szPath finfo) (queryNetwork ph s szPath other) seen := by
  refine (agrees_uninforming (uninforming_pathparser ph s szPath)).bind ?_
  rintro ⟨rc, t, path⟩ _ _ ⟨rfl, rfl⟩
  simp only
  split
  · rename_i failed
    refine (agrees_uninforming uninforming_leave).bind ?_
    rintro _ _ _ ⟨-, rfl⟩
    exact .ret fun fine => absurd fine failed
  · split
    · exact .fault
    · exact agrees_queryServer ph t (starts path) unpassed

/-- The record is what the cache had, or what both runs found on the stack. -/
theorem agrees_queryUncached (ph : Platform) (s : Session) (szPath : CString)
    (cached : Option SmbwrpFileinfo) :
    infoWatch.Agrees (fun left _ later => left.1 = noError → later.Told)
      (queryUncached ph s szPath cached) (queryUncached ph s szPath cached) {} := by
  cases cached with
  | some finfo =>
      refine agrees_queryNetwork ph s szPath (fun path => ⟨rfl, rfl, fun _ => rfl, ?_⟩) rfl
      exact fun _ _ absent => by simp at absent
  | none =>
      refine .perform_hidden rfl rfl fun content found => ?_
      refine agrees_queryNetwork ph s szPath (fun path => ⟨rfl, rfl, fun absent => ?_, ?_⟩) rfl
      · exact absurd absent (Option.some_ne_none _)
      · rintro _ _ ⟨⟩
        exact ⟨rfl, rfl⟩

theorem agrees_enter {α β : Type} {refused : Int → α} {turned : Int → β} {body : Program α}
    {work : Program β} {post : α → β → InfoSeen → Prop}
    (denied : ∀ rcLock, rcLock ≠ 0 → post (refused rcLock) (turned rcLock) seen)
    (inside : infoWatch.Agrees post body work seen) :
    infoWatch.Agrees post (enter refused body) (enter turned work) seen := by
  refine .perform rfl fun rcLock => ?_
  split
  · rename_i bad
    exact .ret (denied rcLock bad)
  · exact inside

theorem agrees_ndpQueryPathInfo (ph : Platform) (s : Session) (szPath : CString) :
    infoWatch.Agrees (fun left _ later => left.1 = noError → later.Told)
      (ndpQueryPathInfo ph s szPath) (ndpQueryPathInfo ph s szPath) {} := by
  refine agrees_enter (fun rcLock denied fine => absurd fine denied) ?_
  split
  · refine (agrees_uninforming uninforming_leave).bind ?_
    rintro _ _ _ ⟨-, rfl⟩
    exact .ret fun fine => absurd fine (show errorFileNotFound ≠ noError by decide)
  · have clocked : (dircacheFindPath ph s.pRes.pdc szPath).Only Op.Uninforming :=
      (caches_dircacheFindPath ph s.pRes.pdc szPath).mono fun R op caches => by
        cases op <;> trivial
    refine (agrees_uninforming clocked).bind ?_
    rintro found _ _ ⟨rfl, rfl⟩
    cases found with
    | none => exact agrees_queryUncached ph s szPath none
    | some known =>
        obtain ⟨finfo, ulAge⟩ := known
        simp only
        split
        · refine (agrees_giveFileinfo ph s rfl (InfoSeen.tells_of_eq rfl)).bind fun _ _ later told => ?_
          refine (agrees_uninforming uninforming_leave).bind ?_
          rintro _ _ _ ⟨-, rfl⟩
          exact .ret fun _ => told
        · exact agrees_queryUncached ph s szPath (some finfo)

theorem agrees_queryOpenInfo (ph : Platform) (s : Session) :
    infoWatch.Agrees (fun rc _ later => rc = noError → later.Told) (queryOpenInfo ph s)
      (queryOpenInfo ph s) {} := by
  unfold queryOpenInfo
  split
  · exact .ret fun fine => absurd fine (by decide)
  · refine .perform_hidden rfl rfl fun content found => ?_
    split
    · exact .fault
    · have starts : (infoWatch.observe {} ⟨.uninitializedFileinfo, content⟩
          ⟨.uninitializedFileinfo, found⟩).Starts
          { content with fname := s.pConn.file.fname }
          { found with fname := s.pConn.file.fname } := by
        refine ⟨rfl, rfl, fun absent => absurd absent (Option.some_ne_none _), ?_⟩
        rintro _ _ ⟨⟩
        exact ⟨rfl, rfl⟩
      refine (agrees_smbwrpFgetattr _ _ starts rfl).bind ?_
      rintro ⟨rc, left⟩ ⟨_, right⟩ later ⟨rfl, passed, ended⟩
      simp only
      split
      · rename_i fine
        rcases ended with ⟨-, tells⟩ | ⟨failed, -⟩
        · exact (agrees_giveFileinfo ph s passed tells).bind fun _ _ last told => .ret fun _ => told
        · exact absurd fine failed
      · rename_i failed
        exact .ret fun fine => absurd fine failed

theorem agrees_ndpFileQueryInfo (ph : Platform) (s : Session) :
    infoWatch.Agrees (fun rc _ later => rc = noError → later.Told) (ndpFileQueryInfo ph s)
      (ndpFileQueryInfo ph s) {} := by
  refine agrees_enter (fun rcLock denied fine => absurd fine denied) ?_
  refine (agrees_queryOpenInfo ph s).bind fun rc _ later told => ?_
  refine (agrees_uninforming uninforming_leave).bind ?_
  rintro _ _ _ ⟨-, rfl⟩
  exact .ret told

/-! What is remembered of two runs, and what is in them. -/

theorem paired_passed {trace twin : List CallEvent} (paired : infoWatch.Paired seen trace twin later) :
    later.passed.map Prod.fst = seen.passed.map Prod.fst ++ trace.filterMap passedInfo ∧
      later.passed.map Prod.snd = seen.passed.map Prod.snd ++ twin.filterMap passedInfo := by
  have silent {event : CallEvent} (kind : infoWatch.kind event.R event.op ≠ some .passed) :
      passedInfo event = none := by
    obtain ⟨op, reply⟩ := event
    cases op with
    | fsphAddFile32L => exact absurd rfl kind
    | _ => rfl
  have given {event : CallEvent} (kind : infoWatch.kind event.R event.op = some .passed) :
      ∃ info, passedInfo event = some info := by
    obtain ⟨op, reply⟩ := event
    cases op with
    | fsphAddFile32L => exact ⟨_, rfl⟩
    | _ => simp [infoWatch] at kind
  have kept {seen : InfoSeen} {event other : CallEvent} (none_given : passedInfo event = none) :
      (infoWatch.observe seen event other).passed = seen.passed := by
    simp [infoWatch, none_given]
  induction paired with
  | nil => simp
  | @shown event _ _ _ _ shows _ ih =>
      have absent : passedInfo event = none := silent fun kind => by
        simp [PairWatch.secret, kind] at shows
      rw [kept absent] at ih
      rwa [List.filterMap_cons_none absent, List.filterMap_cons_none absent]
  | @hidden event other _ _ seen _ _ kinds _ ih =>
      by_cases passes : infoWatch.kind event.R event.op = some .passed
      · obtain ⟨info, left⟩ := given passes
        obtain ⟨answer, right⟩ := given (kinds ▸ passes)
        have noted : (infoWatch.observe seen event other).passed = seen.passed ++ [(info, answer)] := by
          simp [infoWatch, left, right]
        rw [noted] at ih
        rw [List.filterMap_cons_some left, List.filterMap_cons_some right]
        simpa using ih
      · have left := silent passes
        rw [kept left] at ih
        rwa [List.filterMap_cons_none left, List.filterMap_cons_none (silent (kinds ▸ passes))]

theorem paired_partly {trace twin : List CallEvent}
    (paired : infoWatch.Paired seen trace twin later) :
    later.partly = (trace.any partlyFilled || seen.partly) := by
  induction paired with
  | nil => simp
  | @shown event first _ seen later _ _ ih =>
      have noted : (infoWatch.observe seen event event).partly =
        (partlyFilled event || seen.partly) := rfl
      rw [ih, noted, List.any_cons, Bool.or_left_comm, Bool.or_assoc]
  | @hidden event other first _ seen later _ _ _ ih =>
      have noted : (infoWatch.observe seen event other).partly =
        (partlyFilled event || seen.partly) := rfl
      rw [ih, noted, List.any_cons, Bool.or_left_comm, Bool.or_assoc]

def lastContent (known : Option SmbwrpFileinfo) (trace : List CallEvent) : Option SmbwrpFileinfo :=
  trace.foldl (fun known event => (initialContent event).or known) known

theorem paired_contents {trace twin : List CallEvent}
    (paired : infoWatch.Paired seen trace twin later) :
    later.contents.map Prod.fst = lastContent (seen.contents.map Prod.fst) trace ∧
      later.contents.map Prod.snd = lastContent (seen.contents.map Prod.snd) twin := by
  have silent {event : CallEvent} (kind : infoWatch.kind event.R event.op ≠ some .content) :
      initialContent event = none := by
    obtain ⟨op, reply⟩ := event
    cases op with
    | uninitializedFileinfo => exact absurd rfl kind
    | _ => rfl
  have given {event : CallEvent} (kind : infoWatch.kind event.R event.op = some .content) :
      ∃ content, initialContent event = some content := by
    obtain ⟨op, reply⟩ := event
    cases op with
    | uninitializedFileinfo => exact ⟨reply, rfl⟩
    | _ => simp [infoWatch] at kind
  have kept {seen : InfoSeen} {event other : CallEvent} (none_given : initialContent event = none) :
      (infoWatch.observe seen event other).contents = seen.contents := by
    simp [infoWatch, none_given]
  induction paired with
  | nil => exact ⟨rfl, rfl⟩
  | @shown event _ _ _ _ shows _ ih =>
      have absent : initialContent event = none := silent fun kind => by
        simp [PairWatch.secret, kind] at shows
      rw [kept absent] at ih
      simpa only [lastContent, List.foldl_cons, absent, Option.none_or] using ih
  | @hidden event other _ _ seen _ _ kinds _ ih =>
      by_cases found : infoWatch.kind event.R event.op = some .content
      · obtain ⟨content, left⟩ := given found
        obtain ⟨answer, right⟩ := given (kinds ▸ found)
        have noted : (infoWatch.observe seen event other).contents = some (content, answer) := by
          simp [infoWatch, left, right]
        rw [noted] at ih
        simpa only [lastContent, List.foldl_cons, left, right, Option.some_or, Option.map_some]
          using ih
      · have left := silent found
        have right := silent (kinds ▸ found)
        rw [kept left] at ih
        simpa only [lastContent, List.foldl_cons, left, right, Option.none_or] using ih

theorem lastContent_eq_none_iff {known : Option SmbwrpFileinfo} {trace : List CallEvent} :
    lastContent known trace = none ↔
      known = none ∧ ∀ event ∈ trace, initialContent event = none := by
  induction trace generalizing known with
  | nil => simp [lastContent]
  | cons event rest ih =>
      have step : lastContent known (event :: rest) =
        lastContent ((initialContent event).or known) rest := rfl
      rw [step, ih, Option.or_eq_none_iff]
      simp [and_comm, and_assoc]

theorem lastContent_of_same {content found : SmbwrpFileinfo} {known : Option SmbwrpFileinfo}
    {trace : List CallEvent}
    (before : ∀ found, known = some found → found = content)
    (same : ∀ event ∈ trace, ∀ found, initialContent event = some found → found = content)
    (last : lastContent known trace = some found) : found = content := by
  induction trace generalizing known with
  | nil => exact before found last
  | cons event rest ih =>
      refine ih (fun answer either => ?_)
        (fun other member => same other (List.mem_cons_of_mem _ member)) last
      change (initialContent event).or known = some answer at either
      cases here : initialContent event with
      | none =>
          rw [here] at either
          exact before answer either
      | some answered =>
          rw [here] at either
          obtain rfl := Option.some.inj either
          exact same event List.mem_cons_self answered here

end Records

def SessionCall.queriesInfo : SessionCall → Bool
  | .queryPathInfo _ | .fileQueryInfo => true
  | _ => false

theorem agrees_queriesInfo (ph : Platform) (s : Session) {call : SessionCall}
    (queries : call.queriesInfo = true) :
    infoWatch.Agrees (fun left _ later => left.1 = noError → later.Told) (call.run ph s)
      (call.run ph s) {} := by
  cases call with
  | queryPathInfo szPath => exact agrees_ndpQueryPathInfo ph s szPath
  | fileQueryInfo =>
      refine (agrees_ndpFileQueryInfo ph s).bind fun rc _ later told => ?_
      exact .ret told
  | _ => cases queries

/-- Whatever is on the stack, and the server answers as in the run, the same is passed on. -/
def FromAnswers (ph : Platform) (s : Session) (call : SessionCall) (trace : List CallEvent) :
    Prop :=
  ∀ other answer, Run (call.run ph s) other (some answer) →
    visible infoWatch.secret other = visible infoWatch.secret trace →
    other.filterMap passedInfo = trace.filterMap passedInfo

/-- The answers that a run gives where the time of creation on the stack is another one. -/
def stackAnswers (content : SmbwrpFileinfo) : (R : Type) → Op R → R
  | _, .uninitializedFileinfo => { content with btime := content.btime + 1 }
  | _, op => op.usual

theorem lastContent_stackAnswers {content found : SmbwrpFileinfo} {trace : List CallEvent}
    (told : HiddenAnswered infoWatch.secret (stackAnswers content) trace)
    (last : lastContent none trace = some found) : found.btime = content.btime + 1 := by
  have same : found = { content with btime := content.btime + 1 } := by
    refine lastContent_of_same (by simp) (fun event member answer here => ?_) last
    have reply := told event member
    obtain ⟨op, given⟩ := event
    cases op with
    | uninitializedFileinfo =>
        obtain rfl := Option.some.inj here
        exact reply rfl
    | _ => cases here
  rw [same]

variable {ph : Platform} {s : Session} {call : SessionCall} {t : Session} {trace : List CallEvent}

/-- Information comes from the answers alone exactly where no record is left on the stack to
fill, or each answer fills all of it. -/
theorem fileInfo_fromAnswers_iff (queries : call.queriesInfo = true)
    (run : Run (call.run ph s) trace (some (noError, t))) :
    FromAnswers ph s call trace ↔
      (∀ event ∈ trace, initialContent event = none) ∨
        ∀ event ∈ trace, partlyFilled event = false := by
  have agrees := agrees_queriesInfo ph s queries
  constructor
  · intro answers
    by_contra both
    obtain ⟨found, partly⟩ := not_or.mp both
    obtain ⟨content, last⟩ := Option.ne_none_iff_exists'.mp fun absent =>
      found (lastContent_eq_none_iff.mp absent).2
    obtain ⟨other, answer, later, ran, told, paired, ended⟩ :=
      agrees.run (stackAnswers content) run
    obtain ⟨info, answered, passed, tells⟩ := ended rfl
    obtain ⟨first, second⟩ := paired_passed paired
    have left : later.contents.map Prod.fst = lastContent none trace := (paired_contents paired).1
    have right : later.contents.map Prod.snd = lastContent none other := (paired_contents paired).2
    have part : later.partly = true := by
      rw [paired_partly paired, Bool.or_false]
      by_contra none_partly
      exact partly fun event member => by
        simpa using List.any_eq_false.mp (Bool.eq_false_iff.mpr none_partly) event member
    cases contents : later.contents with
    | none =>
        rw [contents, last] at left
        cases left
    | some pair =>
        obtain ⟨original, twin⟩ := pair
        rw [contents] at left right
        obtain rfl : original = content := Option.some.inj (left.trans last)
        have moved : twin.btime = original.btime + 1 := lastContent_stackAnswers told right.symm
        have apart : info.btime = original.btime ∧ answered.btime = twin.btime := by
          rw [InfoSeen.Tells, contents, part] at tells
          exact tells
        have same : answered = info := by
          have equal := answers other answer ran paired.visible_eq.symm
          rw [passed] at first second
          exact (List.cons.inj ((second.trans equal).trans first.symm)).1
        rw [same, apart.1, moved] at apart
        have fixed : original.btime = original.btime + 1 := apart.2
        exact absurd fixed (by simp)
  · intro whole other answer ran same
    obtain ⟨_, later, ended, paired, told⟩ := agrees.runs run ran same.symm
    obtain ⟨info, answered, passed, tells⟩ := told rfl
    obtain ⟨first, second⟩ := paired_passed paired
    have equal : info = answered := by
      rcases whole with absent | full
      · have contents : later.contents = none := by
          have left : later.contents.map Prod.fst = lastContent none trace :=
            (paired_contents paired).1
          rw [lastContent_eq_none_iff.mpr ⟨rfl, absent⟩] at left
          exact Option.map_eq_none_iff.mp left
        rw [InfoSeen.Tells, contents] at tells
        exact tells
      · have part : later.partly = false := by
          rw [paired_partly paired, Bool.or_false]
          exact List.any_eq_false.mpr fun event member => by simp [full event member]
        unfold InfoSeen.Tells at tells
        rw [part] at tells
        split at tells
        · rename_i impossible
          cases impossible
        · exact tells
    rw [passed] at first second
    exact (second.symm.trans (congrArg (fun answer => [answer]) equal.symm)).trans first

def openedFile : Session :=
  ⟨{ rootlevel := 3 }, { cli := some 0, file := { fd := 7, fname := bytes "\\F" } }⟩

def openFileAnswers (old : Bool) (stack : UInt32) : (R : Type) → Op R → R
  | _, .request _ (.cliQfileinfoBasic _) => if old then none else some default
  | _, .request _ (.cliGetattrE _) => some default
  | _, .uninitializedFileinfo => { btime := stack }
  | _, op => op.usual

def openFileRun (old : Bool) (stack : UInt32) : List CallEvent × Option (Int × Session) :=
  exec (fun _ => openFileAnswers old stack) 0
    (SessionCall.fileQueryInfo.run asciiPlatform openedFile)

theorem fileInfo_fromAnswers_iff_full :
    ∃ t, (openFileRun false 0).2 = some (noError, t) ∧
      (FromAnswers asciiPlatform openedFile .fileQueryInfo (openFileRun false 0).1 ↔
        (∀ event ∈ (openFileRun false 0).1, initialContent event = none) ∨
          ∀ event ∈ (openFileRun false 0).1, partlyFilled event = false) :=
  ⟨openedFile, by decide, fileInfo_fromAnswers_iff rfl (run_exec _ _ _)⟩

/-- The old way, the time of creation is what was on the stack. -/
theorem legacyInfo_tells_stack :
    ¬ ∀ s call trace t, Run (SessionCall.run asciiPlatform s call) trace (some (noError, t)) →
      FromAnswers asciiPlatform s call trace := by
  intro always
  have ran (stack : UInt32) : Run (SessionCall.fileQueryInfo.run asciiPlatform openedFile)
      (openFileRun true stack).1 (some (noError, openedFile)) := by
    have outcome : (openFileRun true stack).2 = some (noError, openedFile) := rfl
    exact outcome ▸ run_exec _ _ _
  have same := always openedFile .fileQueryInfo _ _ (ran 0) _ _ (ran 1) rfl
  exact absurd (congrArg (List.map PassedInfo.btime) same) (by decide)

end NdpSmb
