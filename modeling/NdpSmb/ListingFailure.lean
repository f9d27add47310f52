import NdpSmb.ListingSign

/-!
A listing that fails, and what `smbwrp_filelist` is told of it.
-/

namespace NdpSmb

open ByteString Interaction

variable (ph : Platform)

/-- `failure` is what a failed request leaves to be returned: over SMB1 the content of `num_finfo`,
over SMB2 a status. `unread` is the status of an entry that cannot be unpacked, as long as the
entries before it are accepted. -/
structure FailureSeen where
  signs : SignSeen := {}
  protocol : Option Bool := none
  numFinfo : Option UInt32 := none
  received : Option Nat := none
  failure : Option UInt32 := none
  unread : Option UInt32 := none

namespace FailureSeen

def note (seen : FailureSeen) : CallEvent → FailureSeen
  | ⟨.uninitializedLong, value⟩ => { seen with numFinfo := some value }
  | ⟨.request _ .connProtocolSmb2, smb2⟩ =>
      if seen.protocol = none then { seen with protocol := some smb2 }
      else if smb2 then seen
      else { seen with failure := some ntStatusInvalidParameter }
  | ⟨.request _ .connHasAsyncCalls, asyncCalls⟩ =>
      if asyncCalls then { seen with failure := some (seen.numFinfo.getD ntStatusInvalidParameter) }
      else seen
  | ⟨.request _ (.cliListSend _ _), ok⟩ | ⟨.request _ .teventReqPoll, ok⟩ =>
      if ok then seen else { seen with failure := seen.numFinfo }
  | ⟨.request _ .cliListRecv, none⟩ => { seen with failure := seen.numFinfo }
  | ⟨.request _ .cliListRecv, some infos⟩ => { seen with received := some infos.length }
  | ⟨.request _ (.windowsParentDirname _), none⟩ => { seen with failure := some ntStatusNoMemory }
  | ⟨.request _ (.cliSmb2CreateFnum _), .error status⟩ => { seen with failure := some status.1 }
  | ⟨.request _ (.mapFnumToSmb2Handle _), status⟩ =>
      if status = ntStatusOk then seen else { seen with failure := some status }
  | ⟨.request _ (.smb2cliQueryDirectory _), .error status⟩ =>
      if status.1 = statusNoMoreFiles then seen else { seen with failure := some status.1 }
  | ⟨.request _ (.smb2cliQueryDirectory _), .ok dirData⟩ =>
      { seen with unread := dirData.failed.map Subtype.val }
  | ⟨.missingReturnValue, status⟩ => if refuses status then { seen with unread := none } else seen
  | _ => seen

def observe (seen : FailureSeen) (event : CallEvent) : FailureSeen :=
  { seen.note event with signs := seen.signs.observe ph listAttribute event }

def failed (seen : FailureSeen) : Option UInt32 := seen.failure.or seen.unread

def Entries (seen : FailureSeen) : Prop :=
  match seen.protocol with
  | some true => seen.signs.passes = true
  | _ => ∃ count ∈ seen.received, 1 ≤ count

def Telling (seen : FailureSeen) : Prop :=
  match seen.failed, seen.protocol with
  | some value, _ => negative value = true
  | none, some true => seen.signs.passes = true → seen.signs.endsNegative ph = false
  | none, _ => ∀ count ∈ seen.received, count % 2 ^ 32 < 2 ^ 31

end FailureSeen

def failureWatch : Watch Op FailureSeen where
  observe := FailureSeen.observe ph

section Failure

variable {ph} {seen : FailureSeen} {srv : SmbwrpServer} {st : FilelistState}

theorem ensures_signs {α : Type} {program : Program α} {post : α → SignSeen → Prop}
    (ensured : (signWatch ph listAttribute).Ensures post program seen.signs)
    (only : program.Only fun _ op => ∀ reply, protocolReply (⟨op, reply⟩ : CallEvent) = none) :
    (failureWatch ph).Ensures (fun value later => post value later.signs) program seen := by
  refine ensured.along only (fun _ _ => rfl) ?_ fun _ => trivial
  intro R op reply unasked memory asked
  rw [unasked reply] at asked
  exact absurd asked (Option.some_ne_none false).symm

theorem unasked_of_served {R : Type} {op : Op R} (served : Op.ServedBy none R op) (reply : R) :
    protocolReply (⟨op, reply⟩ : CallEvent) = none := by
  cases op with
  | request used ask => exact absurd served (Option.some_ne_none used).symm
  | _ => rfl

theorem unseen_caches {α : Type} {program : Program α} (caches : program.Only Op.Caches) :
    (failureWatch ph).Ensures (fun _ later => later = seen) program seen := by
  refine Watch.ensures_of_only caches ?_ trivial fun _ => rfl
  intro R op reply asked
  cases op <;> trivial

theorem unseen_allocates {α : Type} {program : Program α} (allocates : program.Only Op.Allocates) :
    (failureWatch ph).Ensures (fun _ later => later = seen) program seen :=
  unseen_caches (allocates.mono fun _ _ => Op.Allocates.caches)

def FailureSeen.called (seen : FailureSeen) (status : UInt32) : FailureSeen :=
  { seen with
    signs := seen.signs.called status
    unread := if refuses status then none else seen.unread }

theorem observe_called (seen : FailureSeen) (status : UInt32) :
    seen.observe ph ⟨.missingReturnValue, status⟩ = seen.called status := by
  by_cases refused : refuses status = true
  · simp only [FailureSeen.observe, FailureSeen.note, FailureSeen.called, if_pos refused]
    rfl
  · simp only [FailureSeen.observe, FailureSeen.note, FailureSeen.called, if_neg refused]
    rfl

theorem failure_smbwrpDirAdd (finfo : SmbwrpFileinfo) :
    (failureWatch ph).Ensures (fun status later => later = seen.called status)
      (smbwrpDirAdd ph srv st finfo) seen := by
  simp only [smbwrpDirAdd]
  split
  · trivial
  · refine Watch.ensures_bind.mpr ?_
    simp only [getfindinfoL]
    split
    · intro _ _ status _
      exact observe_called seen status
    · intro status _
      exact observe_called seen status

/-! The loops over SMB2. -/

def unreadStatus : RepliedEntries → Option UInt32
  | .fail status => some status.1
  | .status _ => none

theorem failure_listEntries {failed : Option BadStatus} (infos : List FileInfo)
    {progress : ListProgress} (unread : seen.unread = failed.map Subtype.val) :
    (failureWatch ph).Ensures (fun result later => later.failure = seen.failure ∧
        later.unread = unreadStatus result.1)
      (listEntries ph listAttribute (smbwrpDirAdd ph srv st) failed infos progress) seen := by
  induction infos generalizing seen progress with
  | nil =>
      unfold listEntries
      cases failed with
      | none => exact ⟨rfl, unread⟩
      | some status => exact ⟨rfl, unread⟩
  | cons finfo rest ih =>
      unfold listEntries
      split
      · apply (failure_smbwrpDirAdd finfo.toWrp).bind
        rintro status _ rfl
        apply (unseen_allocates (allocates_dircacheWriteEntry _ _)).bind
        rintro next _ rfl
        simp only
        by_cases ended : status ≠ ntStatusOk ∧ status ≠ ntStatusWait1
        · rw [if_pos ended]
          refine ⟨rfl, ?_⟩
          have refused : refuses status = true := decide_eq_true ended
          simp [FailureSeen.called, refused, unreadStatus]
        · rw [if_neg ended]
          have accepted : refuses status = false := decide_eq_false ended
          have onward : (seen.called status).unread = failed.map Subtype.val := by
            simp [FailureSeen.called, accepted, unread]
          exact ih onward
      · exact ih unread

def ListEnd.failure : ListEnd → Option UInt32
  | .fail status => some status
  | .done _ => none

theorem failure_listReplies {cli : Handle} {mask : CString} (queries : Nat)
    {progress : ListProgress} (fine : seen.failure = none) (read : seen.unread = none) :
    (failureWatch ph).Ensures (fun result later => later.failed = result.1.failure)
      (listReplies ph listAttribute (smbwrpDirAdd ph srv st) cli mask queries progress) seen := by
  induction queries generalizing seen progress with
  | zero => trivial
  | succ queries ih =>
      refine Watch.ensures_perform_bind.mpr fun reply _ => ?_
      cases reply with
      | error status =>
          by_cases last : status.1 = statusNoMoreFiles
          · simp only [if_pos last]
            change (FailureSeen.failed _) = none
            simp [failureWatch, FailureSeen.observe, FailureSeen.note, FailureSeen.failed, last,
              fine, read]
          · simp only [if_neg last]
            change (FailureSeen.failed _) = some status.1
            simp [failureWatch, FailureSeen.observe, FailureSeen.note, FailureSeen.failed, last]
      | ok dirData =>
          apply (failure_listEntries dirData.parsed rfl).bind
          rintro ⟨replied, next⟩ later ⟨failure, unread⟩
          have fineLater : later.failure = none := failure.trans fine
          cases replied with
          | fail status =>
              have given : later.unread = some status.1 := unread
              change later.failed = some status.1
              rw [FailureSeen.failed, fineLater, given]
              rfl
          | status status =>
              have readLater : later.unread = none := unread
              have ended : later.failed = none := by
                rw [FailureSeen.failed, fineLater, readLater]
                rfl
              simp only
              split
              · exact ended
              · split
                · exact ih fineLater readLater
                · exact ended

def Told (ph : Platform) (later : FailureSeen) (status : UInt32) : Prop :=
  match later.failed with
  | some value => status = value
  | none => negative status = (!later.signs.passes || later.signs.endsNegative ph)

theorem told_listReplies {cli : Handle} {mask path : CString} (queries : Nat)
    {progress : ListProgress} (fine : seen.failure = none) (read : seen.unread = none)
    (written : seen.signs.Written ph path progress) (accepted : seen.signs.refused = false)
    (named : seen.signs.mask = mask)
    (settled : seen.signs.passes = decide (seen.signs.callbacks ≠ 0)) :
    (failureWatch ph).Ensures (fun result later => match result.1 with
        | .fail status => Told ph later status
        | .done status => Told ph later (listStatus status result.2.processedFile))
      (listReplies ph listAttribute (smbwrpDirAdd ph srv st) cli mask queries progress) seen := by
  have served (finfo : SmbwrpFileinfo) : (smbwrpDirAdd ph srv st finfo).Only
      fun _ op => ∀ reply, protocolReply (⟨op, reply⟩ : CallEvent) = none :=
    (only_smbwrpDirAdd ph srv st finfo none).mono fun _ _ => unasked_of_served
  have query (reply : Except BadStatus DirData) : protocolReply
      (⟨.request cli (.smb2cliQueryDirectory mask), reply⟩ : CallEvent) = none := rfl
  have only := listReplies_only ph listAttribute served (fun _ _ => unasked_of_served) query
    queries progress
  have signed := ensures_signs (sign_listReplies queries written accepted named settled) only
  refine (signed.and (failure_listReplies queries fine read)).mono ?_
  rintro ⟨ended, left⟩ later ⟨⟨after, replies⟩, failed⟩
  cases ended with
  | fail status =>
      have given : later.failed = some status := failed
      simp only [Told, given]
  | done status =>
      have given : later.failed = none := failed
      simp only [Told, given]
      exact negative_listStatus replies after.processed

structure FailureSeen.Fresh (ph : Platform) (path : CString)
    (dircachectx : Option DirectoryCacheEntry) (seen : FailureSeen) : Prop where
  protocol : seen.protocol ≠ none
  numFinfo : seen.numFinfo = none
  fine : seen.failure = none
  read : seen.unread = none
  callbacks : seen.signs.callbacks = 0
  passes : seen.signs.passes = false
  accepted : seen.signs.refused = false
  begun : ∀ pdce, dircachectx = some pdce → dcMatches ph path false pdce = true ∧ pdce.aInfos = []

variable {pdc : Option DirectoryCache} {dircachectx : Option DirectoryCacheEntry} {cli : Handle}
  {path : CString}

theorem told_listOpened {mask : CString} (fresh : seen.Fresh ph path dircachectx)
    (named : seen.signs.mask = mask) :
    (failureWatch ph).Ensures (fun listed later => Told ph later listed.status)
      (listOpened ph listAttribute (smbwrpDirAdd ph srv st) pdc dircachectx cli mask) seen := by
  have written : seen.signs.Written ph path { dircachectx, processedFile := false } := by
    constructor
    · simp [fresh.callbacks]
    · intro pdce opened
      obtain ⟨matched, empty⟩ := fresh.begun pdce opened
      exact ⟨matched, fun _ => by simp [empty, fresh.callbacks]⟩
  have settled : seen.signs.passes = decide (seen.signs.callbacks ≠ 0) := by
    simp [fresh.passes, fresh.callbacks]
  apply (told_listReplies ph.queryLimit fresh.fine fresh.read written
    fresh.accepted named settled).bind
  rintro ⟨ended, left⟩ later told
  cases ended with
  | fail status => exact told
  | done status =>
      apply (unseen_allocates (allocates_dircacheWriteEnd _ _)).bind
      rintro linked _ rfl
      exact told

theorem FailureSeen.Fresh.passed (fresh : seen.Fresh ph path dircachectx) {event : CallEvent}
    (noted : seen.note event = seen)
    (callbacks : (seen.signs.observe ph listAttribute event).callbacks = seen.signs.callbacks)
    (passes : (seen.signs.observe ph listAttribute event).passes = seen.signs.passes)
    (accepted : (seen.signs.observe ph listAttribute event).refused = seen.signs.refused) :
    (seen.observe ph event).Fresh ph path dircachectx := by
  have same : seen.observe ph event =
      { seen with signs := seen.signs.observe ph listAttribute event } := by
    rw [FailureSeen.observe, noted]
  rw [same]
  exact ⟨fresh.protocol, fresh.numFinfo, fresh.fine, fresh.read, callbacks.trans fresh.callbacks,
    passes.trans fresh.passes, accepted.trans fresh.accepted, fresh.begun⟩

theorem told_failed (ph : Platform) {event : CallEvent} {status : UInt32}
    (failure : (seen.note event).failure = some status) : Told ph (seen.observe ph event) status := by
  simp [Told, FailureSeen.failed, FailureSeen.observe, failure]

theorem note_prepares {event : CallEvent} (spoken : seen.protocol ≠ none)
    (prepares : Prepares cli event) : seen.note event = seen := by
  cases prepares with
  | idle | created => rfl
  | spoken => exact if_neg spoken
  | mapped fnum => simp [FailureSeen.note]

theorem note_refuses {event : CallEvent} {status : UInt32} (spoken : seen.protocol ≠ none)
    (refuses : Refuses cli event status) :
    ∃ failure, (seen.note event).failure = some failure ∧
      (seen.numFinfo = none → failure = status) := by
  cases refuses with
  | busy =>
      refine ⟨seen.numFinfo.getD ntStatusInvalidParameter, rfl, fun unset => ?_⟩
      rw [unset]
      rfl
  | smb1 =>
      refine ⟨_, ?_, fun _ => rfl⟩
      simp [FailureSeen.note, spoken]
  | unnamed | uncreated => exact ⟨_, rfl, fun _ => rfl⟩
  | unmapped fnum bad =>
      refine ⟨status, ?_, fun _ => rfl⟩
      simp only [FailureSeen.note, if_neg bad]

theorem told_contextRule :
    ContextRule (failureWatch ph) ph listAttribute (smbwrpDirAdd ph srv st) cli pdc dircachectx
      (·.Fresh ph path dircachectx) (·.signs.mask) (fun listed seen => Told ph seen listed.status)
    where
  prepared := by
    intro seen event fresh prepares
    have noted := note_prepares fresh.protocol prepares
    cases prepares <;> exact fresh.passed noted rfl rfl rfl
  sameMask := by
    intro seen event prepares
    cases prepares <;> rfl
  named := fun pathname parent fresh => fresh.passed rfl rfl rfl rfl
  mask_named := fun seen pathname parent => rfl
  refused := by
    intro seen event status fresh refuses
    obtain ⟨_, failure, same⟩ := note_refuses fresh.protocol refuses
    rw [same fresh.numFinfo] at failure
    exact told_failed ph failure
  opened := fun fresh => told_listOpened fresh rfl
  closed := fun fnum told => told

theorem returns_dircacheWriteBegin_matched (pdc : Option DirectoryCache) (state : FilelistState)
    (cFiles : Nat) :
    (dircacheWriteBegin ph pdc state cFiles).Returns fun answer => ∃ path, ∀ pdce,
      answer.1 = some pdce → dcMatches ph path false pdce = true ∧ pdce.aInfos = [] := by
  unfold dircacheWriteBegin
  split
  · exact ⟨[], by simp⟩
  · exact ⟨[], by simp⟩
  · rename_i path cache _
    split
    · trivial
    · rename_i kept _
      have clocked : (clockWatch fun _ _ => True).Ensures _ (dcWriteBegin ph kept path cFiles) 0 :=
        clocked_dcWriteBegin kept path cFiles
      refine Prog.returns_bind.mpr (clocked.returns (fun _ _ _ _ => trivial) ?_)
      rintro ⟨dircachectx, left⟩ later (⟨rfl, -⟩ | ⟨pdce, rfl, begun, -⟩)
      · exact ⟨path, by simp⟩
      · refine ⟨path, ?_⟩
        rintro _ ⟨⟩
        exact ⟨begun.matched, begun.empty⟩

theorem told_listFilesSmb2 {state : FilelistState} {mask : CString}
    (fresh : seen.Fresh ph path none) :
    (failureWatch ph).Ensures (fun listed later => Told ph later listed.status)
      (listFilesSmb2 ph listAttribute (smbwrpDirAdd ph srv st) pdc state cli mask) seen := by
  apply ((unseen_caches (caches_dircacheWriteBegin ph pdc state 128)).and_returns
    (returns_dircacheWriteBegin_matched pdc state 128)).bind
  rintro ⟨dircachectx, left⟩ later ⟨same, path, begun⟩
  have fresh : later.Fresh ph path dircachectx := same ▸ ⟨fresh.protocol, fresh.numFinfo, fresh.fine,
    fresh.read, fresh.callbacks, fresh.passes, fresh.accepted, begun⟩
  exact told_contextRule.ensures_listContext fresh mask

/-! Over SMB1. -/

def Counted (later : FailureSeen) (value : UInt32) : Prop :=
  match later.failed with
  | some left => value = left
  | none => ∃ count, later.received = some count ∧ value = UInt32.ofNat count

structure FailureSeen.Received (count : Nat) (seen : FailureSeen) : Prop where
  received : seen.received = some count
  fine : seen.failure = none
  read : seen.unread = none

theorem received_listReceived {count : Nat} (infos : List FileInfo)
    {dircachectx : Option DirectoryCacheEntry} (received : seen.Received count) :
    (failureWatch ph).Ensures (fun _ later => later.Received count)
      (listReceived (smbwrpDirAdd ph srv st) infos dircachectx) seen := by
  induction infos generalizing seen dircachectx with
  | nil => exact received
  | cons finfo rest ih =>
      apply (failure_smbwrpDirAdd finfo.toWrp).bind
      rintro status _ rfl
      apply (unseen_allocates (allocates_dircacheWriteEntry _ _)).bind
      rintro next _ rfl
      apply ih
      have read : (seen.called status).unread = none := by
        simp [FailureSeen.called, received.read]
      exact ⟨received.received, received.fine, read⟩

theorem counted_failed (ph : Platform) {event : CallEvent} {value : UInt32}
    (failure : (seen.note event).failure = some value) : Counted (seen.observe ph event) value := by
  simp [Counted, FailureSeen.failed, FailureSeen.observe, failure]

structure FailureSeen.Pending (numFinfo : UInt32) (seen : FailureSeen) : Prop where
  left : seen.numFinfo = some numFinfo
  fine : seen.failure = none
  read : seen.unread = none

theorem FailureSeen.Pending.passed {numFinfo : UInt32} (pending : seen.Pending numFinfo)
    (ph : Platform) {event : CallEvent} (noted : seen.note event = seen) :
    ((failureWatch ph).observe seen event).Pending numFinfo := by
  have same : (failureWatch ph).observe seen event =
      { seen with signs := seen.signs.observe ph listAttribute event } := by
    change FailureSeen.observe ph seen event = _
    rw [FailureSeen.observe, noted]
  rw [same]
  exact ⟨pending.left, pending.fine, pending.read⟩

theorem note_continues {event : CallEvent} (continues : Continues cli event) : seen.note event = seen := by
  cases continues <;> rfl

theorem note_misses {event : CallEvent} {numFinfo : UInt32} (left : seen.numFinfo = some numFinfo)
    (misses : Misses cli event) : seen.note event = { seen with failure := some numFinfo } := by
  rw [← left]
  cases misses with
  | busy =>
      change { seen with failure := some (seen.numFinfo.getD ntStatusInvalidParameter) } = _
      rw [left]
      rfl
  | unsent | silent | unreceived => rfl

theorem counted_receiveRule {state : FilelistState} :
    ReceiveRule (failureWatch ph) ph listAttribute (smbwrpDirAdd ph srv st) cli pdc state
      (fun numFinfo seen => seen.Pending numFinfo) (fun result later => Counted later result.1) where
  continued := fun pending continues => pending.passed ph (note_continues continues)
  missed := by
    intro numFinfo seen event pending misses
    apply counted_failed
    rw [note_misses pending.left misses]
  received := by
    intro numFinfo seen infos pending
    have received : ((failureWatch ph).observe seen
        ⟨.request cli .cliListRecv, some infos⟩).Received infos.length :=
      ⟨rfl, pending.fine, pending.read⟩
    generalize (failureWatch ph).observe seen _ = seen at received ⊢
    apply (unseen_caches (caches_dircacheWriteBegin ph pdc state _)).bind
    rintro ⟨dircachectx, left⟩ _ rfl
    apply (received_listReceived infos received).bind
    intro written later received
    have fine : later.failed = none := by
      rw [FailureSeen.failed, received.fine, received.read]
      rfl
    have counted : Counted later (UInt32.ofNat infos.length) := by
      simp only [Counted, fine]
      exact ⟨_, received.received, rfl⟩
    apply (unseen_allocates (allocates_dircacheWriteEnd _ _)).bind
    rintro linked _ rfl
    exact counted

theorem spoken_observe {smb2 : Bool} (seen : FailureSeen) (event : CallEvent)
    (spoken : seen.protocol = some smb2) : (seen.observe ph event).protocol = some smb2 := by
  have kept (condition : Prop) [Decidable condition] (status : UInt32) :
      (if condition then seen else { seen with failure := some status }).protocol = some smb2 := by
    split
    · exact spoken
    · exact spoken
  obtain ⟨op, reply⟩ := event
  cases op with
  | request cli ask =>
      cases ask with
      | connProtocolSmb2 =>
          have known : seen.protocol ≠ none := spoken ▸ Option.some_ne_none smb2
          have noted : seen.note ⟨.request cli .connProtocolSmb2, reply⟩ = if reply then seen
              else { seen with failure := some ntStatusInvalidParameter } := if_neg known
          change (seen.note _).protocol = _
          rw [noted]
          exact kept (reply = true) ntStatusInvalidParameter
      | connHasAsyncCalls => cases reply <;> exact spoken
      | cliListSend => cases reply <;> exact spoken
      | teventReqPoll => cases reply <;> exact spoken
      | cliListRecv => cases reply <;> exact spoken
      | windowsParentDirname => cases reply <;> exact spoken
      | cliSmb2CreateFnum => cases reply <;> exact spoken
      | mapFnumToSmb2Handle fnum =>
          have noted : seen.note ⟨.request cli (.mapFnumToSmb2Handle fnum), reply⟩ =
            if reply = ntStatusOk then seen else { seen with failure := some reply } := rfl
          change (seen.note _).protocol = _
          rw [noted]
          exact kept (reply = ntStatusOk) reply
      | smb2cliQueryDirectory mask =>
          cases reply with
          | error status =>
              have noted : seen.note ⟨.request cli (.smb2cliQueryDirectory mask), .error status⟩ =
                if status.1 = statusNoMoreFiles then seen
                else { seen with failure := some status.1 } := rfl
              change (seen.note _).protocol = _
              rw [noted]
              exact kept (status.1 = statusNoMoreFiles) status.1
          | ok dirData => exact spoken
      | _ => exact spoken
  | missingReturnValue =>
      by_cases refused : refuses reply = true
      · simp only [FailureSeen.observe, FailureSeen.note, if_pos refused, spoken]
      · simp only [FailureSeen.observe, FailureSeen.note, if_neg refused, spoken]
  | _ => exact spoken

theorem spoken_addEach (infos : List SmbwrpFileinfo) :
    (failureWatch ph).Ensures (fun _ later => later.protocol = seen.protocol)
      (addEach (smbwrpDirAdd ph srv st) infos) seen := by
  induction infos generalizing seen with
  | nil => rfl
  | cons finfo rest ih =>
      apply (failure_smbwrpDirAdd finfo).bind
      rintro status _ rfl
      have onward : (failureWatch ph).Ensures
          (fun _ later => later.protocol = (seen.called status).protocol)
          (addEach (smbwrpDirAdd ph srv st) rest) (seen.called status) := ih
      exact onward

theorem spoken_dircacheListFiles {state : FilelistState} :
    (failureWatch ph).Ensures (fun answer later => later.protocol = seen.protocol ∧
        (answer.1 = none → later = seen))
      (dircacheListFiles ph pdc state (smbwrpDirAdd ph srv st)) seen := by
  unfold dircacheListFiles
  split
  · exact ⟨rfl, fun _ => rfl⟩
  · exact ⟨rfl, fun _ => rfl⟩
  · refine Watch.ensures_bind.mpr ?_
    unfold dcRead
    split
    · exact ⟨rfl, fun _ => rfl⟩
    · split
      · exact ⟨rfl, fun _ => rfl⟩
      · rename_i pdce _
        rw [if_neg (by decide)]
        refine Watch.ensures_perform_bind.mpr fun now _ => ?_
        split
        · exact ⟨rfl, fun _ => rfl⟩
        · apply (spoken_addEach pdce.aInfos).bind
          intro _ later same
          exact ⟨same, fun missing => absurd missing (Option.some_ne_none _)⟩

def FilesTold (ph : Platform) (later : FailureSeen) (value : UInt32) : Prop :=
  match later.protocol with
  | some true => Told ph later value
  | some false => Counted later value
  | none => True

theorem told_listFiles {state : FilelistState} {mask : CString} :
    (failureWatch ph).Ensures (fun result later => FilesTold ph later result.1)
      (listFiles ph listAttribute (smbwrpDirAdd ph srv st) pdc state cli mask) {} := by
  have stays {α : Type} (program : Program α) (smb2 : Bool) {later : FailureSeen}
      (spoken : later.protocol = some smb2) :
      (failureWatch ph).Ensures (fun _ latest => latest.protocol = some smb2) program later :=
    Watch.ensures_of_stable spoken_observe (fun _ _ => trivial) spoken
  apply spoken_dircacheListFiles.bind
  rintro ⟨cached, left⟩ later ⟨unspoken, missed⟩
  cases cached with
  | some count =>
      change FilesTold ph later _
      simp only [FilesTold, unspoken]
  | none =>
      obtain rfl := missed rfl
      refine Watch.ensures_perform_bind.mpr fun smb2 _ => ?_
      cases smb2 with
      | true =>
          rw [if_pos rfl]
          have fresh : ((failureWatch ph).observe {} ⟨.request cli .connProtocolSmb2,
            true⟩).Fresh ph [] none := by
            constructor
            case begun => simp
            case protocol => exact Option.some_ne_none true
            all_goals rfl
          apply ((told_listFilesSmb2 fresh).and (stays _ true rfl)).bind
          rintro listed latest ⟨told, spoken⟩
          change FilesTold ph latest _
          simp only [FilesTold, spoken]
          exact told
      | false =>
          refine ((counted_receiveRule.ensures_listFilesSmb1 (fun numFinfo => ⟨rfl, rfl, rfl⟩)
            mask).and (stays _ false rfl)).mono ?_
          rintro listed latest ⟨counted, spoken⟩
          simp only [FilesTold, spoken]
          exact counted

theorem spoken_of_asked {event : CallEvent} (asked : protocolReply event ≠ none) :
    (seen.observe ph event).protocol ≠ none := by
  obtain ⟨op, reply⟩ := event
  cases op with
  | request cli ask =>
      cases ask with
      | connProtocolSmb2 =>
          cases known : seen.protocol with
          | none =>
              have noted : seen.note ⟨.request cli .connProtocolSmb2, reply⟩ =
                  { seen with protocol := some reply } := if_pos known
              change (seen.note _).protocol ≠ none
              rw [noted]
              exact Option.some_ne_none reply
          | some smb2 =>
              rw [spoken_observe seen _ known]
              exact Option.some_ne_none smb2
      | _ => exact absurd rfl asked
  | _ => exact absurd rfl asked

theorem spoken_after {trace : List CallEvent} (asked : seen.protocol ≠ none ∨ FromServer trace) :
    ((failureWatch ph).after seen trace).protocol ≠ none := by
  induction trace generalizing seen with
  | nil =>
      rcases asked with known | ⟨event, member, -⟩
      · exact known
      · simp at member
  | cons event rest ih =>
      apply ih
      rcases asked with known | ⟨other, member, asked⟩
      · obtain ⟨smb2, known⟩ := Option.ne_none_iff_exists'.mp known
        left
        change (seen.observe ph event).protocol ≠ none
        rw [spoken_observe seen event known]
        exact Option.some_ne_none smb2
      · rcases List.mem_cons.mp member with rfl | inside
        · exact .inl (spoken_of_asked asked)
        · exact .inr ⟨other, inside, asked⟩

/-! What `smbwrp_filelist` makes of it. -/

def AsksErrno (trace : List CallEvent) : Prop :=
  ∃ cli errno, (⟨.request cli .cliErrno, errno⟩ : CallEvent) ∈ trace

/-- A failed listing is told by a negative value, for which the error is asked for behind it, and
one with entries is not. -/
structure FailureReported (seen : FailureSeen) (value : UInt32) (behind : List CallEvent) :
    Prop where
  failure : seen.failed ≠ none → negative value = true ∧ AsksErrno behind
  success : seen.failed = none → seen.Entries → negative value = false

structure SmbwrpServer.NamesShare (srv : SmbwrpServer) : Prop where
  server : srv.serverName ≠ []
  share : srv.shareName ≠ []
  files : isIpc srv.shareName = false

theorem asksErrno_of_negative {pRes : Resource} {state : FilelistState}
    (named : pRes.srv.NamesShare) (masked : state.mask ≠ []) {listing behind : List CallEvent}
    {value : UInt32} {left : Option DirectoryCache} {answer : Int × Option DirectoryCache}
    (listed : Run (listFiles ph listAttribute (smbwrpDirAdd ph pRes.srv state) pRes.pdc state cli
      state.mask) listing (some (value, left)))
    (run : Run (smbwrpFilelist ph pRes (some cli) state) (listing ++ behind) (some answer))
    (failed : negative value = true) : AsksErrno behind := by
  have unnamed : ¬ (pRes.srv.shareName = [] ∨ isIpc pRes.srv.shareName = true) := by
    rintro (empty | ipc)
    · exact named.share empty
    · rw [named.files] at ipc
      exact Bool.noConfusion ipc
  simp only [smbwrpFilelist, listTarget, if_neg masked, if_neg unnamed, named.server,
    and_false, if_false] at run
  have rest := listed.behind run
  simp only [if_pos failed] at rest
  obtain ⟨errno, others, rfl, -⟩ := run_call_iff.mp rest
  exact ⟨cli, errno, List.mem_cons_self⟩

theorem FilesTold.eq_of_failed {value status : UInt32} (told : FilesTold ph seen value)
    (spoken : seen.protocol ≠ none) (failure : seen.failed = some status) : value = status := by
  unfold FilesTold at told
  cases protocol : seen.protocol with
  | none => exact absurd protocol spoken
  | some smb2 =>
      rw [protocol] at told
      cases smb2 with
      | true => simpa only [Told, failure] using told
      | false => simpa only [Counted, failure] using told

theorem FilesTold.telling_iff {value : UInt32} (told : FilesTold ph seen value)
    (spoken : seen.protocol ≠ none) (fine : seen.failed = none) :
    seen.Telling ph ↔ (seen.Entries → negative value = false) := by
  unfold FilesTold at told
  unfold FailureSeen.Telling FailureSeen.Entries
  rw [fine]
  cases protocol : seen.protocol with
  | none => exact absurd protocol spoken
  | some smb2 =>
      rw [protocol] at told
      cases smb2 with
      | true =>
          have signed : negative value = (!seen.signs.passes || seen.signs.endsNegative ph) := by
            simpa only [Told, fine] using told
          simp only [signed]
          by_cases passed : seen.signs.passes = true
          · simp [passed]
          · simp [passed]
      | false =>
          obtain ⟨count, received, rfl⟩ : ∃ count, seen.received = some count ∧
              value = UInt32.ofNat count := by simpa only [Counted, fine] using told
          rw [negative_ofNat]
          constructor
          · rintro small -
            have below := small count received
            exact decide_eq_false (by omega)
          · intro signed other again
            obtain rfl := Option.some.inj (again.symm.trans received)
            by_cases empty : other = 0
            · subst empty
              omega
            · have positive := of_decide_eq_false (signed ⟨other, received, by omega⟩)
              omega

/-- A failed listing of a share is told exactly when the value that the failure has left, over SMB1
the content of `num_finfo`, is negative, and one with entries is told to be one when neither their
number nor the status of a callback makes the value negative. -/
theorem failedListing_reported_iff {pRes : Resource} {state : FilelistState}
    (named : pRes.srv.NamesShare) (masked : state.mask ≠ []) {listing behind : List CallEvent}
    {value : UInt32} {left : Option DirectoryCache} {answer : Int × Option DirectoryCache}
    (listed : Run (listFiles ph listAttribute (smbwrpDirAdd ph pRes.srv state) pRes.pdc state cli
      state.mask) listing (some (value, left)))
    (run : Run (smbwrpFilelist ph pRes (some cli) state) (listing ++ behind) (some answer))
    (asked : FromServer listing) :
    FailureReported ((failureWatch ph).after {} listing) value behind ↔
      ((failureWatch ph).after {} listing).Telling ph := by
  have spoken : ((failureWatch ph).after {} listing).protocol ≠ none := spoken_after (.inr asked)
  have admitted : (failureWatch ph).Admits {} listing :=
    Watch.admits_of_forall _ fun _ _ _ => trivial
  have told : FilesTold ph ((failureWatch ph).after {} listing) value :=
    told_listFiles.run listed admitted
  have asks := asksErrno_of_negative named masked listed run
  generalize (failureWatch ph).after {} listing = seen at spoken told ⊢
  cases failure : seen.failed with
  | some status =>
      obtain rfl := told.eq_of_failed spoken failure
      have telling : seen.Telling ph ↔ negative value = true := by
        unfold FailureSeen.Telling
        rw [failure]
      have present : seen.failed ≠ none := failure ▸ Option.some_ne_none value
      rw [telling]
      constructor
      · intro reported
        exact (reported.failure present).1
      · intro signed
        exact ⟨fun _ => ⟨signed, asks signed⟩, fun fine => absurd fine present⟩
  | none =>
      rw [told.telling_iff spoken failure]
      constructor
      · intro reported
        exact reported.success failure
      · intro signed
        exact ⟨fun failed => absurd failure failed, fun _ => signed⟩

end Failure

def shareResource : Resource :=
  { srv := { serverName := bytes "SERVER", shareName := bytes "SHARE" } }

def refuseSmb1 : (R : Type) → Op R → R
  | _, .request _ .connProtocolSmb2 => false
  | _, .request _ .connHasAsyncCalls => false
  | _, .request _ (.cliListSend _ _) => false
  | _, op => op.usual

def unopenedStatus : BadStatus := ⟨0xC0000022, by decide⟩

def refuseSmb2 : (R : Type) → Op R → R
  | _, .request _ .connHasAsyncCalls => false
  | _, .request _ (.windowsParentDirname _) => some (bytes "\\D", bytes "*")
  | _, .request _ (.cliSmb2CreateFnum _) => .error unopenedStatus
  | _, .request _ .cliErrno => 13
  | _, op => op.usual

def shareListing : Program (UInt32 × Option DirectoryCache) :=
  listFiles asciiPlatform listAttribute (smbwrpDirAdd asciiPlatform shareResource.srv
    directoryState) shareResource.pdc directoryState 1 directoryState.mask

def shareFilelist : Program (Int × Option DirectoryCache) :=
  smbwrpFilelist asciiPlatform shareResource (some 1) directoryState

theorem failedListing_reported_unopened :
    FailureReported ((failureWatch asciiPlatform).after {}
        (exec (fun _ => refuseSmb2) 0 shareListing).1) 0xC0000022
      [⟨.request 1 .cliErrno, (13 : Int)⟩] := by
  have listed : Run shareListing (exec (fun _ => refuseSmb2) 0 shareListing).1
      (some (0xC0000022, none)) := run_exec _ _ _
  have run : Run shareFilelist ((exec (fun _ => refuseSmb2) 0 shareListing).1 ++
      [⟨.request 1 .cliErrno, (13 : Int)⟩]) (some (maperror 13, none)) :=
    run_exec (fun _ => refuseSmb2) shareFilelist 0
  have named : shareResource.srv.NamesShare := ⟨by decide, by decide, by decide⟩
  have telling : negative unopenedStatus.1 = true := by decide
  exact (failedListing_reported_iff named (by decide) listed run (by decide)).mpr telling

/-- A listing that has not even been sent is told as an empty one. -/
theorem unsentListing_unreported :
    ∃ listing, Run shareListing listing (some (0, none)) ∧ FromServer listing ∧
      Run shareFilelist (listing ++ []) (some (0, none)) ∧
      ((failureWatch asciiPlatform).after {} listing).failed = some 0 ∧
      ¬ FailureReported ((failureWatch asciiPlatform).after {} listing) 0 [] := by
  refine ⟨(exec (fun _ => refuseSmb1) 0 shareListing).1, run_exec _ _ _, by decide,
    run_exec (fun _ => refuseSmb1) shareFilelist 0, rfl, ?_⟩
  intro reported
  obtain ⟨signed, -⟩ := reported.failure (Option.some_ne_none 0)
  exact absurd signed (by decide)

end NdpSmb
