import NdpSmb.ListingCommit
import NdpSmb.ListingLife

/-!
Success or failure of a listing, from the server and then from the cache: the one is an
`NTSTATUS`, the other a number of entries.
-/

namespace NdpSmb

open ByteString Interaction

variable (ph : Platform) (searchAttr : UInt32)

structure SignSeen where
  asked : Bool := false
  mask : CString := []
  passes : Bool := false
  callbacks : Nat := 0
  refused : Bool := false

def endsNegative (status : UInt32) : Bool := negative status && status != statusNoMoreFiles

def SignSeen.called (seen : SignSeen) (status : UInt32) : SignSeen :=
  { seen with callbacks := seen.callbacks + 1, refused := seen.refused || endsNegative status }

def SignSeen.observe (seen : SignSeen) (event : CallEvent) : SignSeen :=
  match listAction event with
  | .prepared _ => { seen with asked := true }
  | .parent mask => { seen with mask := mask.getD seen.mask }
  | .replied (.ok dirData) =>
      { seen with passes := seen.passes || !(passing ph searchAttr dirData.parsed).isEmpty }
  | .called status => seen.called status
  | .replied (.error _) | .resized _ _ | .other => seen

def protocolReply : CallEvent → Option Bool
  | ⟨.request _ .connProtocolSmb2, smb2⟩ => some smb2
  | _ => none

def SpeaksSmb2 (trace : List CallEvent) : Prop :=
  ∀ event ∈ trace, protocolReply event ≠ some false

def FromServer (trace : List CallEvent) : Prop := ∃ event ∈ trace, protocolReply event ≠ none

instance (trace : List CallEvent) : Decidable (SpeaksSmb2 trace) :=
  inferInstanceAs (Decidable (∀ event ∈ trace, protocolReply event ≠ some false))

instance (trace : List CallEvent) : Decidable (FromServer trace) :=
  inferInstanceAs (Decidable (∃ event ∈ trace, protocolReply event ≠ none))

def signWatch : Watch Op SignSeen where
  observe := SignSeen.observe ph searchAttr
  admits _ event := protocolReply event ≠ some false

def SignSeen.endsNegative (seen : SignSeen) : Bool := ph.msHasWild seen.mask && seen.refused

/-- An entry passes the filter and no callback ends the listing with a negative status; past
`INT_MAX` entries, where the number is negative as well, one does. -/
def SignSeen.Agrees (seen : SignSeen) : Prop :=
  if seen.callbacks % 2 ^ 32 < 2 ^ 31 then seen.passes = true ∧ seen.endsNegative ph = false
  else seen.endsNegative ph = true

def Unlisted (path : CString) (pdc : Option DirectoryCache) : Prop :=
  ∀ entry ∈ linked pdc, dcMatches ph path false entry = false

section Sign

variable {ph searchAttr} {seen : SignSeen} {path : CString} {srv : SmbwrpServer}
  {st : FilelistState} {progress : ListProgress}

theorem negative_ofNat (count : Nat) :
    negative (UInt32.ofNat count) = decide (2 ^ 31 ≤ count % 2 ^ 32) := by
  simp only [negative, ge_iff_le, UInt32.le_iff_toNat_le, UInt32.toNat_ofNat']
  rfl

/-! One entry. -/

theorem sign_smbwrpDirAdd (finfo : SmbwrpFileinfo) :
    (signWatch ph searchAttr).Ensures (fun status later => later = seen.called status)
      (smbwrpDirAdd ph srv st finfo) seen := by
  simp only [smbwrpDirAdd]
  split
  · trivial
  · refine Watch.ensures_bind.mpr ?_
    simp only [getfindinfoL]
    split
    · exact fun _ _ _ _ => rfl
    · exact fun _ _ => rfl

structure SignSeen.Written (ph : Platform) (path : CString) (seen : SignSeen)
    (progress : ListProgress) : Prop where
  processed : progress.processedFile = decide (seen.callbacks ≠ 0)
  counted : ∀ pdce, progress.dircachectx = some pdce → dcMatches ph path false pdce = true ∧
    (pdce.fInvalid = false → pdce.aInfos.length = seen.callbacks)

theorem quiet_caches {α : Type} {program : Program α} (caches : program.Only Op.Caches) :
    (signWatch ph searchAttr).Ensures (fun _ later => later = seen) program seen := by
  refine Watch.ensures_of_only caches ?_ trivial fun _ => rfl
  intro R op reply asked
  cases op <;> trivial

theorem quiet_allocates {α : Type} {program : Program α} (allocates : program.Only Op.Allocates) :
    (signWatch ph searchAttr).Ensures (fun _ later => later = seen) program seen :=
  quiet_caches (allocates.mono fun _ _ => Op.Allocates.caches)

theorem dcMatches_of_wrote {finfo : SmbwrpFileinfo} {pdce later : DirectoryCacheEntry}
    (wrote : Wrote finfo pdce later) :
    dcMatches ph path false later = dcMatches ph path false pdce :=
  dcMatches_eq_of_tag wrote.tag

theorem sign_writeEntry {finfo : SmbwrpFileinfo} {status : UInt32}
    (written : seen.Written ph path progress) :
    (signWatch ph searchAttr).Ensures
      (fun next later => later = seen.called status ∧
        later.Written ph path { dircachectx := next, processedFile := true })
      (dircacheWriteEntry progress.dircachectx finfo) (seen.called status) := by
  have processed : true = decide ((seen.called status).callbacks ≠ 0) := rfl
  cases opened : progress.dircachectx with
  | none =>
      refine ⟨rfl, processed, fun pdce same => ?_⟩
      simp at same
  | some pdce =>
      obtain ⟨matched, counted⟩ := written.counted pdce opened
      apply ((quiet_allocates (allocates_dceWriteEntry pdce finfo)).and_returns
        (returns_dceWriteEntry pdce finfo)).bind
      rintro next later ⟨rfl, wrote⟩
      refine ⟨rfl, processed, ?_⟩
      rintro _ ⟨⟩
      refine ⟨(dcMatches_of_wrote wrote).trans matched, fun valid => ?_⟩
      rcases wrote.written with ⟨same, appended⟩ | ⟨invalid, -⟩
      · rw [appended, List.length_append, counted (same.symm.trans valid)]
        rfl
      · rw [invalid] at valid
        exact Bool.noConfusion valid

def EntriesSigned (later : SignSeen) : RepliedEntries → Prop
  | .fail _ => True
  | .status status => later.passes = decide (later.callbacks ≠ 0) ∧
      (status = ntStatusOk ∧ later.refused = false ∨
        refuses status = true ∧ later.callbacks ≠ 0 ∧ later.refused = endsNegative status)

theorem endsNegative_of_accepted {status : UInt32} (accepted : refuses status = false) :
    endsNegative status = false := by
  have fine : status = ntStatusOk ∨ status = ntStatusWait1 := by
    by_contra other
    simp only [not_or] at other
    simp [refuses, other.1, other.2] at accepted
  rcases fine with rfl | rfl
  · decide
  · decide

theorem sign_listEntries {failed : Option BadStatus} (infos : List FileInfo)
    (written : seen.Written ph path progress) (accepted : seen.refused = false)
    (pending : seen.passes =
      (decide (seen.callbacks ≠ 0) || !(passing ph searchAttr infos).isEmpty)) :
    (signWatch ph searchAttr).Ensures
      (fun result later => later.mask = seen.mask ∧ later.Written ph path result.2 ∧
        EntriesSigned later result.1)
      (listEntries ph searchAttr (smbwrpDirAdd ph srv st) failed infos progress) seen := by
  induction infos generalizing seen progress with
  | nil =>
      unfold listEntries
      cases failed with
      | none =>
          refine ⟨rfl, written, ?_, .inl ⟨rfl, accepted⟩⟩
          simpa [passing] using pending
      | some status => exact ⟨rfl, written, trivial⟩
  | cons finfo infos ih =>
      unfold listEntries
      split
      · rename_i passes
        have passed : seen.passes = true := by
          rw [pending, passing_cons_true passes]
          simp
        apply (sign_smbwrpDirAdd finfo.toWrp).bind
        rintro status _ rfl
        apply (sign_writeEntry written).bind
        rintro next _ ⟨rfl, after⟩
        have called : (seen.called status).callbacks ≠ 0 := Nat.succ_ne_zero _
        simp only
        split
        · rename_i ended
          refine ⟨rfl, after, ?_, .inr ⟨by simp [refuses, ended], called, ?_⟩⟩
          · rw [decide_eq_true called]
            exact passed
          · simp [SignSeen.called, accepted]
        · rename_i goesOn
          have fine : endsNegative status = false :=
            endsNegative_of_accepted (by simpa [refuses] using goesOn)
          apply ih after
          · simp [SignSeen.called, accepted, fine]
          · rw [decide_eq_true called]
            exact passed
      · rename_i held
        rw [passing_cons_false (by simpa using held)] at pending
        exact ih written accepted pending

def RepliesSigned (ph : Platform) (later : SignSeen) : ListEnd → Prop
  | .fail _ => True
  | .done status => later.passes = decide (later.callbacks ≠ 0) ∧
      (status = statusNoMoreFiles ∧ later.endsNegative ph = false ∨
        refuses status = true ∧ later.callbacks ≠ 0 ∧
          later.endsNegative ph = endsNegative status)

theorem sign_listReplies {cli : Handle} {mask : CString} (queries : Nat)
    (written : seen.Written ph path progress) (accepted : seen.refused = false)
    (named : seen.mask = mask) (settled : seen.passes = decide (seen.callbacks ≠ 0)) :
    (signWatch ph searchAttr).Ensures
      (fun result later => later.Written ph path result.2 ∧ RepliesSigned ph later result.1)
      (listReplies ph searchAttr (smbwrpDirAdd ph srv st) cli mask queries progress) seen := by
  induction queries generalizing seen progress with
  | zero => trivial
  | succ queries ih =>
      refine Watch.ensures_perform_bind.mpr fun reply _ => ?_
      cases reply with
      | error status =>
          change Watch.Ensures _ _ _ seen
          simp only
          split
          · refine ⟨written, settled, .inl ⟨rfl, ?_⟩⟩
            simp [SignSeen.endsNegative, accepted]
          · exact ⟨written, trivial⟩
      | ok dirData =>
          have before : ({ seen with passes := seen.passes ||
              !(passing ph searchAttr dirData.parsed).isEmpty } : SignSeen).Written ph path
              progress := ⟨written.processed, written.counted⟩
          apply (sign_listEntries dirData.parsed before accepted (by simp [settled])).bind
          rintro ⟨replied, next⟩ later ⟨sameMask, after, signed⟩
          have named : later.mask = mask := sameMask.trans named
          cases replied with
          | fail status => exact ⟨after, trivial⟩
          | status status =>
              obtain ⟨passes, ended⟩ := signed
              simp only
              split
              · rename_i plain
                refine ⟨after, passes, .inl ⟨rfl, ?_⟩⟩
                simp [SignSeen.endsNegative, named, plain]
              · rename_i wild
                rcases ended with ⟨rfl, accepted⟩ | ⟨refused, called, negative⟩
                · rw [if_pos rfl]
                  exact ih after accepted named passes
                · have notOk : status ≠ ntStatusOk := by
                    rintro rfl
                    exact absurd refused (by decide)
                  rw [if_neg notOk]
                  refine ⟨after, passes, .inr ⟨refused, called, ?_⟩⟩
                  simp [SignSeen.endsNegative, named, wild, negative]

theorem negative_listStatus {later : SignSeen} {status : UInt32} {processedFile : Bool}
    (signed : RepliesSigned ph later (.done status))
    (processed : processedFile = decide (later.callbacks ≠ 0)) :
    negative (listStatus status processedFile) = (!later.passes || later.endsNegative ph) := by
  obtain ⟨passes, ended⟩ := signed
  rw [passes, processed]
  rcases ended with ⟨rfl, plain⟩ | ⟨refused, called, ended⟩
  · rw [plain]
    by_cases called : later.callbacks ≠ 0
    · simp only [decide_eq_true called]
      decide
    · simp only [decide_eq_false called]
      decide
  · rw [ended, decide_eq_true called]
    have notOk : status ≠ ntStatusOk := by
      rintro rfl
      exact absurd refused (by decide)
    by_cases last : status = statusNoMoreFiles
    · subst last
      decide
    · simp [listStatus, endsNegative, last, notOk]

/-! What a listing leaves in the cache. -/

def SignKept (ph : Platform) (path : CString) (listed : Listed) (later : SignSeen) : Prop :=
  Unlisted ph path listed.pdc ∨ ∃ cache pdce, listed.pdc = some (dcInsertEntry cache pdce) ∧
    (∀ entry ∈ cache.entries, dcMatches ph path false entry = false) ∧
    pdce.aInfos.length = later.callbacks ∧ later.passes = decide (later.callbacks ≠ 0) ∧
    negative listed.status = (!later.passes || later.endsNegative ph)

variable {pdc : Option DirectoryCache} {dircachectx : Option DirectoryCacheEntry} {cli : Handle}

structure SignSeen.Starting (ph : Platform) (path : CString) (pdc : Option DirectoryCache)
    (dircachectx : Option DirectoryCacheEntry) (seen : SignSeen) : Prop where
  callbacks : seen.callbacks = 0
  passes : seen.passes = false
  accepted : seen.refused = false
  unlisted : Unlisted ph path pdc
  begun : ∀ pdce, dircachectx = some pdce → dcMatches ph path false pdce = true ∧ pdce.aInfos = []

theorem sign_listOpened {mask : CString} (starting : seen.Starting ph path pdc dircachectx)
    (named : seen.mask = mask) :
    (signWatch ph searchAttr).Ensures (SignKept ph path)
      (listOpened ph searchAttr (smbwrpDirAdd ph srv st) pdc dircachectx cli mask) seen := by
  have written : seen.Written ph path { dircachectx, processedFile := false } := by
    constructor
    · simp [starting.callbacks]
    · intro pdce opened
      obtain ⟨matched, empty⟩ := starting.begun pdce opened
      exact ⟨matched, fun _ => by simp [empty, starting.callbacks]⟩
  have settled : seen.passes = decide (seen.callbacks ≠ 0) := by
    simp [starting.passes, starting.callbacks]
  apply (sign_listReplies ph.queryLimit written starting.accepted named
    settled).bind
  rintro ⟨ended, left, processedFile⟩ later ⟨after, signed⟩
  cases ended with
  | fail status => exact .inl starting.unlisted
  | done status =>
      cases left with
      | none => trivial
      | some pdce =>
          obtain ⟨matched, counted⟩ := after.counted pdce rfl
          simp only [dircacheWriteEnd]
          split
          · exact .inl starting.unlisted
          · rename_i valid
            have length := counted (by simpa using valid)
            refine Watch.ensures_bind.mpr (Watch.ensures_bind.mpr
              (((quiet_allocates (allocates_dceAdjust pdce)).and_returns
                (returns_dceAdjust pdce)).mono ?_))
            rintro adjusted latest ⟨rfl, cInfosAllocated, rfl⟩
            cases pdc with
            | none =>
                refine .inl fun entry member => ?_
                simp [linked] at member
            | some cache =>
                refine .inr ⟨cache, _, rfl, starting.unlisted, length, signed.1, ?_⟩
                exact negative_listStatus signed after.processed

theorem sign_contextRule :
    ContextRule (signWatch ph searchAttr) ph searchAttr (smbwrpDirAdd ph srv st) cli pdc dircachectx
      (·.Starting ph path pdc dircachectx) (·.mask) (SignKept ph path) where
  prepared := by
    intro seen event starting prepares
    cases prepares <;> exact ⟨starting.callbacks, starting.passes, starting.accepted,
      starting.unlisted, starting.begun⟩
  sameMask := by
    intro seen event prepares
    cases prepares <;> rfl
  named := fun pathname parent starting =>
    ⟨starting.callbacks, starting.passes, starting.accepted, starting.unlisted, starting.begun⟩
  mask_named := fun seen pathname parent => rfl
  refused := fun starting refuses => .inl starting.unlisted
  opened := fun starting => sign_listOpened starting rfl
  closed := fun fnum kept => kept

theorem returns_dcWriteBegin_unlisted {cache : DirectoryCache}
    (unlisted : ∀ entry ∈ cache.entries, dcMatches ph path false entry = false) (cFiles : Nat) :
    (dcWriteBegin ph cache path cFiles).Returns fun answer =>
      (∀ entry ∈ answer.2.entries, dcMatches ph path false entry = false) ∧
      ∀ pdce, answer.1 = some pdce → dcMatches ph path false pdce = true ∧ pdce.aInfos = [] := by
  have clocked : (clockWatch fun _ _ => True).Ensures _ (dcWriteBegin ph cache path cFiles) 0 :=
    clocked_dcWriteBegin cache path cFiles
  refine clocked.returns (fun _ _ _ _ => trivial) ?_
  rintro ⟨dircachectx, left⟩ later (⟨rfl, rfl⟩ | ⟨pdce, rfl, begun, rfl⟩)
  · exact ⟨unlisted, by simp⟩
  · refine ⟨fun entry member => unlisted entry (List.mem_of_mem_eraseP member), ?_⟩
    rintro _ ⟨⟩
    exact ⟨begun.matched, begun.empty⟩

theorem sign_dircacheWriteBegin {state : FilelistState}
    (directory : dcCreateDirPath state = some path) (unlisted : Unlisted ph path pdc)
    (callbacks : seen.callbacks = 0) (passes : seen.passes = false)
    (accepted : seen.refused = false) :
    (signWatch ph searchAttr).Ensures
      (fun answer later => later.Starting ph path answer.2 answer.1)
      (dircacheWriteBegin ph pdc state 128) seen := by
  unfold dircacheWriteBegin
  rw [directory]
  cases pdc with
  | none => exact ⟨callbacks, passes, accepted, unlisted, by simp⟩
  | some cache =>
      simp only
      split
      · trivial
      · rename_i kept evicted
        obtain rfl := dcEvict_eq_some evicted
        have stillUnlisted (entry : DirectoryCacheEntry) (member : entry ∈ unevicted cache) :
            dcMatches ph path false entry = false :=
          unlisted entry ((sublist_unevicted cache).subset member)
        apply ((quiet_caches (caches_dcWriteBegin ph _ path 128)).and_returns
          (returns_dcWriteBegin_unlisted stillUnlisted 128)).bind
        rintro ⟨dircachectx, left⟩ _ ⟨rfl, missing, begun⟩
        exact ⟨callbacks, passes, accepted, missing, begun⟩

theorem asked_addEach (infos : List SmbwrpFileinfo) :
    (signWatch ph searchAttr).Ensures (fun _ later => later.asked = seen.asked)
      (addEach (smbwrpDirAdd ph srv st) infos) seen := by
  induction infos generalizing seen with
  | nil => rfl
  | cons finfo rest ih =>
      apply (sign_smbwrpDirAdd finfo).bind
      rintro status _ rfl
      have onward : (signWatch ph searchAttr).Ensures
          (fun _ later => later.asked = (seen.called status).asked)
          (addEach (smbwrpDirAdd ph srv st) rest) (seen.called status) := ih
      exact onward

theorem sign_dcRead {cache : DirectoryCache} (enabled : cache.fEnabled = true)
    (apart : cache.entries.Pairwise fun left right =>
      ¬ SameKey ph (listingTag left) (listingTag right)) :
    (signWatch ph searchAttr).Ensures
      (fun answer later => later.asked = seen.asked ∧ (answer.1 = none → later = seen ∧
        ∀ entry ∈ answer.2.entries, dcMatches ph path false entry = false))
      (dcRead ph cache path (smbwrpDirAdd ph srv st) false) seen := by
  unfold dcRead
  rw [if_neg (by simp [enabled])]
  split
  · rename_i missing
    refine ⟨rfl, fun _ => ⟨rfl, fun entry member => ?_⟩⟩
    simpa using List.find?_eq_none.mp missing entry member
  · rename_i pdce found
    rw [if_neg (by decide)]
    refine Watch.ensures_perform_bind.mpr fun now _ => ?_
    split
    · refine ⟨rfl, fun _ => ⟨rfl, fun entry member => ?_⟩⟩
      exact Lookup.not_of_mem_eraseP alike_of_matches apart member
    · apply (asked_addEach pdce.aInfos).bind
      intro _ later unasked
      exact ⟨unasked, fun none_there => by simp at none_there⟩

variable {ulExpirationTime : UInt32} {cMaxEntries : Nat} {state : FilelistState}

theorem sign_dircacheListFiles
    (orderly : (SharedCache.mk pdc []).Orderly ph ulExpirationTime cMaxEntries)
    (directory : dcCreateDirPath state = some path) :
    (signWatch ph searchAttr).Ensures
      (fun answer later => later.asked = seen.asked ∧ (answer.1 = none → later = seen ∧
        Unlisted ph path answer.2))
      (dircacheListFiles ph pdc state (smbwrpDirAdd ph srv st)) seen := by
  have created := orderly.pdc_eq
  have apart := orderly.apart_linked
  simp only at created apart
  rw [created] at apart ⊢
  unfold dircacheListFiles
  rw [directory]
  apply (sign_dcRead rfl apart).bind
  intro _ _
  exact id

theorem sign_listFiles (orderly : (SharedCache.mk pdc []).Orderly ph ulExpirationTime cMaxEntries)
    (directory : dcCreateDirPath state = some path) (mask : CString) :
    (signWatch ph searchAttr).Ensures
      (fun result later => later.asked = true →
        SignKept ph path { status := result.1, pdc := result.2 } later)
      (listFiles ph searchAttr (smbwrpDirAdd ph srv st) pdc state cli mask) {} := by
  apply (sign_dircacheListFiles orderly directory).bind
  rintro ⟨cached, left⟩ later ⟨unasked, missed⟩
  cases cached with
  | some count =>
      intro asked
      rw [unasked] at asked
      exact Bool.noConfusion asked
  | none =>
      obtain ⟨rfl, unlisted⟩ := missed rfl
      refine Watch.ensures_perform_bind.mpr fun smb2 speaks => ?_
      cases smb2 with
      | false => exact absurd rfl speaks
      | true =>
          rw [if_pos rfl]
          refine Watch.ensures_bind.mpr (Watch.ensures_bind.mpr
            ((sign_dircacheWriteBegin directory unlisted rfl rfl rfl).mono ?_))
          rintro ⟨dircachectx, begun⟩ latest starting
          refine (sign_contextRule.ensures_listContext starting mask).mono ?_
          intro listed last kept _
          exact kept

theorem returns_dcRead {cache : DirectoryCache} {fn : SmbwrpFileinfo → Program UInt32} :
    (dcRead ph cache path fn false).Returns fun answer => ∀ count, answer.1 = some count →
      ∃ pdce ∈ cache.entries, dcMatches ph path false pdce = true ∧
        count = pdce.aInfos.length := by
  unfold dcRead
  split
  · intro count missing
    simp at missing
  · split
    · intro count missing
      simp at missing
    · rename_i pdce found
      have inside := List.mem_of_find?_eq_some found
      have matched := List.find?_some found
      rw [if_neg (by decide)]
      refine Prog.returns_perform_bind.mpr fun now => ?_
      split
      · intro count missing
        simp at missing
      · refine Prog.returns_bind.mpr (Prog.returns_of_forall fun _ => ?_)
        rintro _ ⟨⟩
        exact ⟨pdce, inside, matched, rfl⟩

theorem returns_dircacheListFiles {fn : SmbwrpFileinfo → Program UInt32} :
    (dircacheListFiles ph pdc state fn).Returns fun answer => ∀ count, answer.1 = some count →
      ∃ path, dcCreateDirPath state = some path ∧ ∃ pdce ∈ linked pdc,
        dcMatches ph path false pdce = true ∧ count = pdce.aInfos.length := by
  unfold dircacheListFiles
  split
  · intro count missing
    simp at missing
  · intro count missing
    simp at missing
  · rename_i path cache named
    refine Prog.returns_bind.mpr (returns_dcRead.mono ?_)
    exact fun answer found count same => ⟨path, named, found count same⟩

theorem returns_listFiles_cached {fn : SmbwrpFileinfo → Program UInt32} {mask : CString}
    {trace : List CallEvent} {result : UInt32 × Option DirectoryCache}
    (run : Run (listFiles ph searchAttr fn pdc state cli mask) trace (some result))
    (cached : ¬ FromServer trace) :
    ∃ path, dcCreateDirPath state = some path ∧ ∃ pdce ∈ linked pdc,
      dcMatches ph path false pdce = true ∧ result.1 = UInt32.ofNat pdce.aInfos.length := by
  obtain ⟨first, second, ⟨found, left⟩, rfl, lookup, rest⟩ := run_bind_some_iff.mp run
  have answered := returns_dircacheListFiles.run lookup
  cases found with
  | some count =>
      obtain ⟨-, ⟨⟩⟩ := run_ret_iff.mp rest
      obtain ⟨path, named, pdce, inside, matched, rfl⟩ := answered count rfl
      exact ⟨path, named, pdce, inside, matched, rfl⟩
  | none =>
      obtain ⟨smb2, others, rfl, -⟩ := run_call_iff.mp rest
      exact absurd ⟨_, List.mem_append_right _ List.mem_cons_self, Option.some_ne_none smb2⟩ cached

theorem SignSeen.asked_observe (event : CallEvent) (asked : seen.asked = true) :
    (seen.observe ph searchAttr event).asked = true := by
  unfold SignSeen.observe
  split
  · rfl
  all_goals exact asked

theorem SignSeen.asked_of_reply {event : CallEvent} (reply : protocolReply event ≠ none) :
    (seen.observe ph searchAttr event).asked = true := by
  unfold protocolReply at reply
  split at reply
  · rfl
  · exact absurd rfl reply

theorem SignSeen.asked_after {trace : List CallEvent} (asked : seen.asked = true ∨ FromServer trace) :
    ((signWatch ph searchAttr).after seen trace).asked = true := by
  induction trace generalizing seen with
  | nil =>
      rcases asked with asked | ⟨event, member, -⟩
      · exact asked
      · simp at member
  | cons event rest ih =>
      apply ih
      rcases asked with asked | ⟨other, member, reply⟩
      · exact .inl (SignSeen.asked_observe event asked)
      · rcases List.mem_cons.mp member with rfl | inside
        · exact .inl (SignSeen.asked_of_reply reply)
        · exact .inr ⟨other, inside, reply⟩

theorem agrees_iff {status : UInt32} (counted : seen.passes = decide (seen.callbacks ≠ 0))
    (signed : negative status = (!seen.passes || seen.endsNegative ph)) :
    negative status = negative (UInt32.ofNat seen.callbacks) ↔ seen.Agrees ph := by
  rw [signed, negative_ofNat]
  unfold SignSeen.Agrees
  split
  · rename_i small
    rw [decide_eq_false (by omega)]
    simp
  · rename_i large
    have called : seen.callbacks ≠ 0 := by
      intro none_called
      rw [none_called] at large
      omega
    rw [decide_eq_true (by omega), counted, decide_eq_true called]
    simp

end Sign

/-- Where the server has answered a request, the cache answers the next one for the directory
with the same sign exactly when an entry has passed the filter and no callback has ended the
listing with a negative status. -/
theorem listing_signs_agree_iff {fn : FilelistState → SmbwrpFileinfo → Program UInt32}
    {ulExpirationTime : UInt32} {cMaxEntries : Nat} (room : 1 ≤ cMaxEntries)
    {history : List (Taken Op SharedCall Unit)} {pdc : Option DirectoryCache}
    (reached : Reaches (sharedStep ph fn) Serial (emptyShared ulExpirationTime cMaxEntries) history
      ⟨pdc, []⟩)
    {state : FilelistState} {srv : SmbwrpServer} {cli : Handle} {mask : CString}
    {trace : List CallEvent} {first : UInt32 × Option DirectoryCache}
    (listed : Run (listFiles ph searchAttr (smbwrpDirAdd ph srv state) pdc state cli mask) trace
      (some first))
    (speaks : SpeaksSmb2 trace) (fromServer : FromServer trace)
    {again : FilelistState} {call : SmbwrpFileinfo → Program UInt32} {other : Handle}
    {searchAttrAgain : UInt32} {maskAgain : CString} {later : Option DirectoryCache}
    (sameDirectory : dcCreateDirPath again = dcCreateDirPath state)
    (kept : ∀ path, dcCreateDirPath state = some path → ∀ pdce ∈ linked later,
      dcMatches ph path false pdce = true → pdce ∈ linked first.2)
    {traceAgain : List CallEvent} {second : UInt32 × Option DirectoryCache}
    (replayed : Run (listFiles ph searchAttrAgain call later again other maskAgain) traceAgain
      (some second))
    (fromCache : ¬ FromServer traceAgain) :
    negative first.1 = negative second.1 ↔
      ((signWatch ph searchAttr).after {} trace).Agrees ph := by
  obtain ⟨path, named, pdce, inside, matched, count⟩ := returns_listFiles_cached replayed fromCache
  rw [sameDirectory] at named
  have orderly := orderly_emptyShared.reached room reached
  have admitted : (signWatch ph searchAttr).Admits {} trace :=
    Watch.admits_of_forall _ fun event member _ => speaks event member
  have asked : ((signWatch ph searchAttr).after {} trace).asked = true :=
    SignSeen.asked_after (.inr fromServer)
  have kept := kept path named pdce inside matched
  rcases (sign_listFiles orderly named mask).run listed admitted asked with unlisted | stored
  · rw [unlisted pdce kept] at matched
    exact Bool.noConfusion matched
  · obtain ⟨cache, entry, left, missing, length, counted, signed⟩ := stored
    have left : first.2 = some (dcInsertEntry cache entry) := left
    rw [left] at kept
    rcases List.mem_cons.mp kept with rfl | before
    · rw [count, length]
      exact agrees_iff counted signed
    · rw [missing pdce before] at matched
      exact Bool.noConfusion matched

def listDirectory (pdc : Option DirectoryCache) : Program (UInt32 × Option DirectoryCache) :=
  listFiles asciiPlatform listAttribute (smbwrpDirAdd asciiPlatform {} directoryState) pdc
    directoryState 1 (bytes "*")

def directoryRun (answer : (R : Type) → Op R → R) (pdc : Option DirectoryCache) :
    List CallEvent × Option (UInt32 × Option DirectoryCache) :=
  exec (fun _ => answer) 0 (listDirectory pdc)

theorem run_listDirectory (answer : (R : Type) → Op R → R) {pdc : Option DirectoryCache}
    {result : UInt32 × Option DirectoryCache} (outcome : (directoryRun answer pdc).2 = some result) :
    Run (listDirectory pdc) (directoryRun answer pdc).1 (some result) :=
  outcome ▸ run_exec _ _ _

def answerEmpty : (R : Type) → Op R → R
  | _, .request _ .connHasAsyncCalls => false
  | _, .request _ (.windowsParentDirname _) => some (bytes "\\D", bytes "*")
  | _, op => op.usual

def cacheOf (files : List FileInfo) (cInfosAllocated : Nat) : Option DirectoryCache :=
  some { emptyCache 10 4 with entries := [listingOf files cInfosAllocated] }

theorem listing_signs_agree_twoFiles :
    negative 0 = negative 2 ↔
      ((signWatch asciiPlatform listAttribute).after {}
        (directoryRun (answerTwoFiles (bytes "A") 0) (emptyShared 10 4).pdc).1).Agrees
          asciiPlatform := by
  have first := run_listDirectory (answerTwoFiles (bytes "A") 0)
    (by decide : (directoryRun _ (emptyShared 10 4).pdc).2 = some (0, cacheOf twoFiles 65))
  have second := run_listDirectory (answerTwoFiles (bytes "A") 0)
    (by decide : (directoryRun _ (cacheOf twoFiles 65)).2 = some (2, cacheOf twoFiles 65))
  have idle : Reaches (sharedStep asciiPlatform noCallback) Serial (emptyShared 10 4) []
    (emptyShared 10 4) := .start
  exact listing_signs_agree_iff asciiPlatform listAttribute (by decide) idle first (by decide)
    (by decide) rfl (fun _ _ _ inside _ => inside) second (by decide)

/-- The server's answer for an empty directory is an error, the cache's is not. -/
theorem listing_signs_of_empty_differ :
    ∃ trace first traceAgain second,
      Run (listDirectory (emptyShared 10 4).pdc) trace (some first) ∧ SpeaksSmb2 trace ∧
      FromServer trace ∧ Run (listDirectory first.2) traceAgain (some second) ∧
      ¬ FromServer traceAgain ∧ negative first.1 = true ∧ negative second.1 = false := by
  have first := run_listDirectory answerEmpty
    (by decide : (directoryRun _ (emptyShared 10 4).pdc).2 = some (ntStatusNoSuchFile, cacheOf [] 64))
  have second := run_listDirectory answerEmpty
    (by decide : (directoryRun _ (cacheOf [] 64)).2 = some (0, cacheOf [] 64))
  exact ⟨_, _, _, _, first, by decide, by decide, second, by decide, by decide, by decide⟩

end NdpSmb
