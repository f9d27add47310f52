import NdpSmb.ListFiles

/-!
What `list_files_smb2` does with the listing that it has begun to write: the listing is
committed, given up, or left allocated where nothing finds it.
-/

namespace NdpSmb

open ByteString Interaction

/-! What is seen of a run: what the server answers, and what the callback and the
allocator answer while the entries of its replies are passed on. -/

/-- `failed` is any failure other than the end of the directory. -/
structure ServerSeen where
  mask : CString := []
  failed : Bool := false
  noMoreFiles : Bool := false
  replies : Nat := 0
  passed : List SmbwrpFileinfo := []
  unparsed : Bool := false
  deriving DecidableEq

/-- A callback refuses when its status ends the loops; `refusedAt` counts the callbacks
up to it. -/
structure WritingSeen where
  callbacks : Nat := 0
  refusedAt : Option Nat := none
  allocated : Nat := 0
  outOfMemory : Bool := false
  deriving DecidableEq

structure ListSeen where
  server : ServerSeen := {}
  writing : WritingSeen := {}
  deriving DecidableEq

def refuses (status : UInt32) : Bool := status ≠ ntStatusOk ∧ status ≠ ntStatusWait1

def WritingSeen.called (writing : WritingSeen) (status : UInt32) : WritingSeen :=
  { writing with
    callbacks := writing.callbacks + 1
    refusedAt := if refuses status then some (writing.callbacks + 1) else writing.refusedAt }

def WritingSeen.resized (writing : WritingSeen) (size : Nat) (ok : Bool) : WritingSeen :=
  if ok then { writing with allocated := size / sizeofFileinfo }
  else if writing.allocated * sizeofFileinfo < size then { writing with outOfMemory := true }
  else writing

section Watch

variable (ph : Platform) (searchAttr : UInt32)

def passing (infos : List FileInfo) : List SmbwrpFileinfo :=
  (infos.filter fun finfo => ph.dirCheckFtype finfo.mode searchAttr).map FileInfo.toWrp

def ServerSeen.replied (server : ServerSeen) : Except BadStatus DirData → ServerSeen
  | .error status =>
      if status.1 = statusNoMoreFiles then { server with noMoreFiles := true }
      else { server with failed := true }
  | .ok dirData =>
      { server with
        replies := server.replies + 1
        passed := server.passed ++ passing ph searchAttr dirData.parsed
        unparsed := server.unparsed || dirData.failed.isSome }

def ServerSeen.parent (server : ServerSeen) : Option CString → ServerSeen
  | none => { server with failed := true }
  | some mask => { server with mask }

def ServerSeen.prepared (server : ServerSeen) (ok : Bool) : ServerSeen :=
  { server with failed := server.failed || !ok }

inductive ListAction
  | prepared (ok : Bool)
  | parent (mask : Option CString)
  | replied (reply : Except BadStatus DirData)
  | called (status : UInt32)
  | resized (size : Nat) (ok : Bool)
  | other

def succeeded {α : Type} : Except BadStatus α → Bool
  | .error _ => false
  | .ok _ => true

def listAction : CallEvent → ListAction
  | ⟨.request _ .connHasAsyncCalls, asyncCalls⟩ => .prepared (!asyncCalls)
  | ⟨.request _ .connProtocolSmb2, smb2⟩ => .prepared smb2
  | ⟨.request _ (.windowsParentDirname _), parent⟩ => .parent (parent.map Prod.snd)
  | ⟨.request _ (.cliSmb2CreateFnum _), created⟩ => .prepared (succeeded created)
  | ⟨.request _ (.mapFnumToSmb2Handle _), status⟩ => .prepared (status == ntStatusOk)
  | ⟨.request _ (.smb2cliQueryDirectory _), reply⟩ => .replied reply
  | ⟨.missingReturnValue, status⟩ => .called status
  | ⟨.realloc size, ok⟩ => .resized size ok
  | _ => .other

def ListSeen.observe (seen : ListSeen) (event : CallEvent) : ListSeen :=
  match listAction event with
  | .prepared ok => { seen with server := seen.server.prepared ok }
  | .parent mask => { seen with server := seen.server.parent mask }
  | .replied reply => { seen with server := seen.server.replied ph searchAttr reply }
  | .called status => { seen with writing := seen.writing.called status }
  | .resized size ok => { seen with writing := seen.writing.resized size ok }
  | .other => seen

def listWatch : Watch Op ListSeen where
  observe := ListSeen.observe ph searchAttr

def ListSeen.begun (dircachectx : Option DirectoryCacheEntry) : ListSeen :=
  match dircachectx with
  | none => {}
  | some pdce => { writing := { allocated := pdce.cInfosAllocated, outOfMemory := pdce.fInvalid } }

/-! What a listing commits, and the answers that it takes. -/

/-- The server has reported the end, or a mask without wildcards has had its one reply,
and no entry of the replies was left unread. -/
def ServerSeen.Whole (server : ServerSeen) : Prop :=
  server.unparsed = false ∧
    (server.noMoreFiles = true ∨ ph.msHasWild server.mask = false ∧ server.replies = 1)

def Committed (pdc : Option DirectoryCache) (server : ServerSeen) (listed : Listed) : Prop :=
  ∃ pdce : DirectoryCacheEntry, listed.pdc = pdc.map (fun pdc => dcInsertEntry pdc pdce) ∧
    pdce.aInfos = server.passed ∧ server.Whole ph

/-- A listing that was begun is committed whole or given up, and is not left behind. -/
def Settled (pdc : Option DirectoryCache) (server : ServerSeen) (listed : Listed) : Prop :=
  listed.detached = none ∧ (listed.pdc = pdc ∨ Committed ph pdc server listed)

/-- No request fails, what cannot be unpacked lies behind a refusal, and unless the
buffer could not be grown, only the last entry of a mask without wildcards is refused. -/
def AnsweredWell (seen : ListSeen) : Prop :=
  seen.server.failed = false ∧
    (seen.server.unparsed = true → seen.writing.refusedAt ≠ none) ∧
    (seen.writing.outOfMemory = true ∨ seen.server.unparsed = false ∧
      ∀ place, seen.writing.refusedAt = some place →
        ph.msHasWild seen.server.mask = false ∧ place = seen.server.passed.length)

structure WritingSeen.Tracks (writing : WritingSeen) (written : List SmbwrpFileinfo)
    (pdce : DirectoryCacheEntry) : Prop where
  invalid : pdce.fInvalid = writing.outOfMemory
  allocated : pdce.cInfosAllocated = writing.allocated
  kept : writing.outOfMemory = false → pdce.aInfos = written

structure ListSeen.SameAnswers (seen later : ListSeen) : Prop where
  server : later.server = seen.server
  callbacks : later.writing.callbacks = seen.writing.callbacks
  refusedAt : later.writing.refusedAt = seen.writing.refusedAt

theorem ListSeen.SameAnswers.refl (seen : ListSeen) : seen.SameAnswers seen := ⟨rfl, rfl, rfl⟩

variable {ph searchAttr} {seen : ListSeen} {written : List SmbwrpFileinfo}
  {pdce : DirectoryCacheEntry}

theorem ListSeen.sameAnswers_resized (seen : ListSeen) (size : Nat) (ok : Bool) :
    seen.SameAnswers { seen with writing := seen.writing.resized size ok } := by
  unfold WritingSeen.resized
  split
  · exact ⟨rfl, rfl, rfl⟩
  · split <;> exact ⟨rfl, rfl, rfl⟩

theorem resized_ok (writing : WritingSeen) (cFiles : Nat) :
    writing.resized (cFiles * sizeofFileinfo) true = { writing with allocated := cFiles } := by
  simp [WritingSeen.resized, sizeofFileinfo]

theorem resized_larger {writing : WritingSeen} {cFiles : Nat} (larger : writing.allocated < cFiles) :
    writing.resized (cFiles * sizeofFileinfo) false = { writing with outOfMemory := true } := by
  simp [WritingSeen.resized, sizeofFileinfo, larger]

theorem outOfMemory_resized_smaller {writing : WritingSeen} {cFiles : Nat}
    (smaller : cFiles ≤ writing.allocated) (ok : Bool) :
    (writing.resized (cFiles * sizeofFileinfo) ok).outOfMemory = writing.outOfMemory := by
  cases ok <;> simp [WritingSeen.resized, sizeofFileinfo, not_lt.mpr smaller]

theorem ensures_realloc {α : Type} {size : Nat} {follow : Bool → Program α}
    {post : α → ListSeen → Prop}
    (next : ∀ ok, (listWatch ph searchAttr).Ensures post (follow ok)
      { seen with writing := seen.writing.resized size ok }) :
    (listWatch ph searchAttr).Ensures post (perform (Op.realloc size) >>= follow) seen :=
  fun ok _ => next ok

theorem ensures_dceWriteEntry (tracks : seen.writing.Tracks written pdce) (finfo : SmbwrpFileinfo) :
    (listWatch ph searchAttr).Ensures
      (fun pdce later => seen.SameAnswers later ∧ later.writing.Tracks (written ++ [finfo]) pdce)
      (dceWriteEntry pdce finfo) seen := by
  have appended : seen.writing.outOfMemory = false → pdce.aInfos ++ [finfo] = written ++ [finfo] :=
    fun room => congrArg (· ++ [finfo]) (tracks.kept room)
  unfold dceWriteEntry
  split
  · refine ensures_realloc fun grown => ?_
    have same := seen.sameAnswers_resized
      ((pdce.cInfosAllocated + pdce.cInfosAllocated / 2 + 1) * sizeofFileinfo) grown
    cases grown with
    | true =>
        refine ⟨same, ?_⟩
        rw [resized_ok]
        exact ⟨tracks.invalid, rfl, appended⟩
    | false =>
        have larger : seen.writing.allocated <
            pdce.cInfosAllocated + pdce.cInfosAllocated / 2 + 1 := by
          rw [tracks.allocated]
          omega
        refine ⟨same, ?_⟩
        rw [resized_larger larger]
        exact ⟨rfl, tracks.allocated, fun room => by simp at room⟩
  · exact ⟨.refl seen, tracks.invalid, tracks.allocated, appended⟩

theorem ensures_dceAdjust (tracks : seen.writing.Tracks written pdce) :
    (listWatch ph searchAttr).Ensures
      (fun adjusted later => seen.SameAnswers later ∧ adjusted.aInfos = pdce.aInfos ∧
        later.writing.outOfMemory = seen.writing.outOfMemory)
      (dceAdjust pdce) seen := by
  simp only [dceAdjust]
  split
  · refine ensures_realloc fun shrunk => ?_
    have same := seen.sameAnswers_resized
      ((pdce.aInfos.length + (pdce.cInfosAllocated - pdce.aInfos.length) / 2) * sizeofFileinfo)
      shrunk
    have smaller : pdce.aInfos.length + (pdce.cInfosAllocated - pdce.aInfos.length) / 2 ≤
        seen.writing.allocated := by
      rw [← tracks.allocated]
      omega
    have room := outOfMemory_resized_smaller smaller shrunk
    cases shrunk with
    | true => exact ⟨same, rfl, room⟩
    | false => exact ⟨same, rfl, room⟩
  · exact ⟨.refl seen, rfl, rfl⟩

theorem ensures_smbwrpDirAdd (srv : SmbwrpServer) (st : FilelistState) (finfo : SmbwrpFileinfo) :
    (listWatch ph searchAttr).Ensures
      (fun status later => later = { seen with writing := seen.writing.called status })
      (smbwrpDirAdd ph srv st finfo) seen := by
  simp only [smbwrpDirAdd]
  split
  · trivial
  · refine Watch.ensures_bind.mpr ?_
    simp only [getfindinfoL]
    split
    · exact fun _ _ _ _ => rfl
    · exact fun _ _ => rfl

/-- The listing holds what the callbacks were called for; `rest` is still to come. -/
structure ListSeen.Writing (seen : ListSeen) (rest : List SmbwrpFileinfo)
    (dircachectx : Option DirectoryCacheEntry) : Prop where
  written : ∃ written, seen.server.passed = written ++ rest ∧
    written.length = seen.writing.callbacks ∧
    ∀ pdce, dircachectx = some pdce → seen.writing.Tracks written pdce

variable {rest : List SmbwrpFileinfo} {dircachectx : Option DirectoryCacheEntry}
  {fn : SmbwrpFileinfo → Program UInt32} {failed : Option BadStatus}

def OnlyStatus (ph : Platform) (searchAttr : UInt32) (fn : SmbwrpFileinfo → Program UInt32) :
    Prop :=
  ∀ finfo seen, (listWatch ph searchAttr).Ensures
    (fun status later => later = { seen with writing := seen.writing.called status }) (fn finfo) seen

theorem onlyStatus_smbwrpDirAdd (srv : SmbwrpServer) (st : FilelistState) :
    OnlyStatus ph searchAttr (smbwrpDirAdd ph srv st) :=
  fun finfo _ => ensures_smbwrpDirAdd srv st finfo

theorem ensures_writeEntry {finfo : SmbwrpFileinfo} {status : UInt32}
    (writing : seen.Writing (finfo :: rest) dircachectx) :
    (listWatch ph searchAttr).Ensures
      (fun next later => ({ seen with writing := seen.writing.called status } : ListSeen).SameAnswers
        later ∧ later.Writing rest next ∧ next.isSome = dircachectx.isSome)
      (dircacheWriteEntry dircachectx finfo)
      { seen with writing := seen.writing.called status } := by
  obtain ⟨written, passed, counted, tracks⟩ := writing.written
  have passedOn : seen.server.passed = (written ++ [finfo]) ++ rest := by simpa using passed
  have countedOn : (written ++ [finfo]).length = seen.writing.callbacks + 1 := by simp [counted]
  cases dircachectx with
  | none => exact ⟨.refl _, ⟨written ++ [finfo], passedOn, countedOn, by simp⟩, rfl⟩
  | some pdce =>
      have before : (seen.writing.called status).Tracks written pdce :=
        ⟨(tracks pdce rfl).invalid, (tracks pdce rfl).allocated, (tracks pdce rfl).kept⟩
      apply (ensures_dceWriteEntry before finfo).bind
      rintro next later ⟨same, after⟩
      refine ⟨same, ⟨written ++ [finfo], ?_, ?_, ?_⟩, rfl⟩
      · exact (congrArg _ same.server).trans passedOn
      · exact countedOn.trans same.callbacks.symm
      · rintro _ ⟨⟩
        exact after

def EntriesEnded (failed : Option BadStatus) (later : ListSeen)
    (dircachectx : Option DirectoryCacheEntry) : RepliedEntries → Prop
  | .fail _ => failed ≠ none ∧ later.writing.refusedAt = none
  | .status status => ∃ rest, later.Writing rest dircachectx ∧
      (status = ntStatusOk ∧ failed = none ∧ rest = [] ∧ later.writing.refusedAt = none ∨
        status ≠ ntStatusOk ∧ later.writing.refusedAt = some later.writing.callbacks)

theorem passing_cons_true {finfo : FileInfo} {infos : List FileInfo}
    (passes : ph.dirCheckFtype finfo.mode searchAttr = true) :
    passing ph searchAttr (finfo :: infos) = finfo.toWrp :: passing ph searchAttr infos := by
  simp [passing, passes]

theorem passing_cons_false {finfo : FileInfo} {infos : List FileInfo}
    (held : ph.dirCheckFtype finfo.mode searchAttr = false) :
    passing ph searchAttr (finfo :: infos) = passing ph searchAttr infos := by
  simp [passing, held]

theorem ensures_listEntries (only : OnlyStatus ph searchAttr fn) (infos : List FileInfo)
    {progress : ListProgress}
    (writing : seen.Writing (passing ph searchAttr infos) progress.dircachectx)
    (accepted : seen.writing.refusedAt = none) :
    (listWatch ph searchAttr).Ensures
      (fun result later => later.server = seen.server ∧
        result.2.dircachectx.isSome = progress.dircachectx.isSome ∧
        EntriesEnded failed later result.2.dircachectx result.1)
      (listEntries ph searchAttr fn failed infos progress) seen := by
  induction infos generalizing seen progress with
  | nil =>
      unfold listEntries
      cases failed with
      | none => exact ⟨rfl, rfl, [], writing, .inl ⟨rfl, rfl, rfl, accepted⟩⟩
      | some status => exact ⟨rfl, rfl, by simp, accepted⟩
  | cons finfo infos ih =>
      unfold listEntries
      split
      · rename_i passes
        rw [passing_cons_true passes] at writing
        apply (only finfo.toWrp seen).bind
        rintro status _ rfl
        apply (ensures_writeEntry writing).bind
        rintro next later ⟨same, after, kept⟩
        simp only
        split
        · rename_i ended
          refine ⟨same.server, kept, _, after, .inr ⟨ended.1, ?_⟩⟩
          rw [same.refusedAt, same.callbacks]
          simp [WritingSeen.called, refuses, ended]
        · rename_i goesOn
          have stillAccepted : later.writing.refusedAt = none := by
            rw [same.refusedAt]
            simp [WritingSeen.called, refuses, goesOn, accepted]
          refine (ih after stillAccepted).mono ?_
          rintro result latest ⟨server, present, ended⟩
          exact ⟨server.trans same.server, present.trans kept, ended⟩
      · rename_i held
        rw [passing_cons_false (by simpa using held)] at writing
        exact ih writing accepted

structure ListSeen.Querying (ph : Platform) (mask : CString) (seen : ListSeen) : Prop where
  asked : seen.server.mask = mask
  succeeded : seen.server.failed = false
  goesOn : seen.server.noMoreFiles = false
  parsed : seen.server.unparsed = false
  accepted : seen.writing.refusedAt = none
  first : ph.msHasWild mask = false → seen.server.replies = 0

structure ServerSeen.Replied (ph : Platform) (mask : CString) (unparsed : Bool)
    (server : ServerSeen) : Prop where
  asked : server.mask = mask
  succeeded : server.failed = false
  goesOn : server.noMoreFiles = false
  parsed : server.unparsed = unparsed
  single : ph.msHasWild mask = false → server.replies = 1

theorem ListSeen.Querying.replied {mask : CString} (querying : seen.Querying ph mask)
    (dirData : DirData) :
    (seen.server.replied ph searchAttr (.ok dirData)).Replied ph mask dirData.failed.isSome where
  asked := querying.asked
  succeeded := querying.succeeded
  goesOn := querying.goesOn
  parsed := by simp [ServerSeen.replied, querying.parsed]
  single plain := by simp [ServerSeen.replied, querying.first plain]

def RepliesEnded (ph : Platform) (later : ListSeen) (dircachectx : Option DirectoryCacheEntry) :
    ListEnd → Prop
  | .fail _ => later.server.failed = true ∨
      later.server.unparsed = true ∧ later.writing.refusedAt = none
  | .done _ => later.server.failed = false ∧ ∃ rest, later.Writing rest dircachectx ∧
      (rest = [] ∧ later.writing.refusedAt = none ∧ later.server.Whole ph ∨
        later.writing.refusedAt = some later.writing.callbacks ∧
          later.server.noMoreFiles = false ∧
          (ph.msHasWild later.server.mask = false → later.server.replies = 1))

variable {mask : CString} {cli : Handle}

theorem ensures_listReplies (only : OnlyStatus ph searchAttr fn) (queries : Nat)
    {progress : ListProgress} (querying : seen.Querying ph mask)
    (writing : seen.Writing [] progress.dircachectx) :
    (listWatch ph searchAttr).Ensures
      (fun result later => result.2.dircachectx.isSome = progress.dircachectx.isSome ∧
        RepliesEnded ph later result.2.dircachectx result.1)
      (listReplies ph searchAttr fn cli mask queries progress) seen := by
  induction queries generalizing seen progress with
  | zero => trivial
  | succ queries ih =>
      obtain ⟨written, passed, counted, tracks⟩ := writing.written
      refine Watch.ensures_perform_bind.mpr fun reply _ => ?_
      cases reply with
      | error status =>
          change Watch.Ensures _ _ _ { seen with
            server := seen.server.replied ph searchAttr (.error status) }
          simp only [ServerSeen.replied]
          split
          · refine ⟨rfl, querying.succeeded, [], ⟨written, passed, counted, tracks⟩, .inl ?_⟩
            exact ⟨rfl, querying.accepted, querying.parsed, .inl rfl⟩
          · exact ⟨rfl, .inl rfl⟩
      | ok dirData =>
          have before : ({ seen with server := seen.server.replied ph searchAttr (.ok dirData) } :
              ListSeen).Writing (passing ph searchAttr dirData.parsed) progress.dircachectx :=
            ⟨written, by simp [ServerSeen.replied, passed], counted, tracks⟩
          apply (ensures_listEntries only dirData.parsed before querying.accepted).bind
          rintro ⟨replied, next⟩ later ⟨server, present, ended⟩
          have known : later.server.Replied ph mask dirData.failed.isSome :=
            server ▸ querying.replied dirData
          cases replied with
          | fail status =>
              refine ⟨present, .inr ⟨?_, ended.2⟩⟩
              rw [known.parsed]
              exact Option.isSome_iff_ne_none.mpr ended.1
          | status status =>
              obtain ⟨rest, after, ended⟩ := ended
              have single : ph.msHasWild later.server.mask = false → later.server.replies = 1 := by
                rw [known.asked]
                exact known.single
              simp only
              split
              · rename_i plain
                refine ⟨present, known.succeeded, rest, after, ?_⟩
                rcases ended with ⟨-, parsed, all, accepted⟩ | ⟨-, refused⟩
                · have whole : ph.msHasWild later.server.mask = false := known.asked ▸ plain
                  refine .inl ⟨all, accepted, ?_, .inr ⟨whole, single whole⟩⟩
                  rw [known.parsed, parsed]
                  rfl
                · exact .inr ⟨refused, known.goesOn, single⟩
              · rename_i wild
                rcases ended with ⟨rfl, parsed, rfl, accepted⟩ | ⟨notOk, refused⟩
                · rw [if_pos rfl]
                  have again : later.Querying ph mask :=
                    ⟨known.asked, known.succeeded, known.goesOn, by rw [known.parsed, parsed]; rfl,
                      accepted, fun plain => absurd plain wild⟩
                  refine (ih again after).mono ?_
                  rintro result latest ⟨still, done⟩
                  exact ⟨still.trans present, done⟩
                · rw [if_neg notOk]
                  exact ⟨present, known.succeeded, rest, after, .inr ⟨refused, known.goesOn, single⟩⟩

/-! The three ends of a listing. -/

variable {server : ServerSeen} {status : UInt32}

theorem settled_abandoned_iff {pdc : Option DirectoryCache} :
    Settled ph pdc server { status, pdc, detached := dircachectx } ↔ dircachectx = none := by
  simp [Settled]

theorem settled_discarded {pdc : Option DirectoryCache} : Settled ph pdc server { status, pdc } :=
  ⟨rfl, .inl rfl⟩

theorem settled_inserted_iff {pdc : DirectoryCache} :
    Settled ph (some pdc) server { status, pdc := some (dcInsertEntry pdc pdce) } ↔
      pdce.aInfos = server.passed ∧ server.Whole ph := by
  have grows : dcInsertEntry pdc pdce ≠ pdc := by
    intro same
    have longer := congrArg (fun pdc => pdc.entries.length) same
    simp [dcInsertEntry] at longer
  constructor
  · rintro ⟨-, same | ⟨linked, same, complete⟩⟩
    · exact absurd (Option.some.inj same) grows
    · have entries := congrArg DirectoryCache.entries (Option.some.inj same)
      obtain rfl := (List.cons.inj entries).1
      exact complete
  · exact fun complete => ⟨rfl, .inr ⟨pdce, rfl, complete⟩⟩

theorem not_answeredWell_of_failed (failed : seen.server.failed = true) : ¬ AnsweredWell ph seen :=
  fun well => by simp [well.1] at failed

theorem complete_iff_answeredWell (ended : RepliesEnded ph seen (some pdce) (.done status))
    (valid : pdce.fInvalid = false) :
    pdce.aInfos = seen.server.passed ∧ seen.server.Whole ph ↔ AnsweredWell ph seen := by
  obtain ⟨succeeded, rest, ⟨written, passed, counted, tracks⟩, ended⟩ := ended
  have room : seen.writing.outOfMemory = false := (tracks pdce rfl).invalid ▸ valid
  rw [(tracks pdce rfl).kept room, passed]
  rcases ended with ⟨rfl, accepted, whole⟩ | ⟨refused, goesOn, single⟩
  · refine ⟨fun _ => ⟨succeeded, ?_, .inr ⟨whole.1, ?_⟩⟩, fun _ => ⟨by simp, whole⟩⟩
    · simp [whole.1]
    · simp [accepted]
  · have last : written = written ++ rest ↔
        seen.writing.callbacks = seen.server.passed.length := by
      rw [passed, List.length_append, counted]
      constructor
      · intro same
        have lengths := congrArg List.length same
        rw [List.length_append] at lengths
        omega
      · intro same
        have none_left : rest = [] := List.length_eq_zero_iff.mp (by omega)
        simp [none_left]
    constructor
    · rintro ⟨all, parsed, ended⟩
      refine ⟨succeeded, by simp [refused], .inr ⟨parsed, fun place found => ?_⟩⟩
      obtain rfl := Option.some.inj (refused.symm.trans found)
      rcases ended with ended | plain
      · simp [goesOn] at ended
      · exact ⟨plain.1, last.mp all⟩
    · rintro ⟨-, -, ended⟩
      rcases ended with lost | ⟨parsed, ended⟩
      · simp [room] at lost
      · obtain ⟨plain, all⟩ := ended _ refused
        exact ⟨last.mpr all, parsed, .inr ⟨plain, single plain⟩⟩

theorem answeredWell_of_lost (ended : RepliesEnded ph seen (some pdce) (.done status))
    (invalid : pdce.fInvalid = true) : AnsweredWell ph seen := by
  obtain ⟨succeeded, rest, ⟨written, passed, counted, tracks⟩, ended⟩ := ended
  have lost : seen.writing.outOfMemory = true := (tracks pdce rfl).invalid ▸ invalid
  refine ⟨succeeded, fun unparsed => ?_, .inl lost⟩
  rcases ended with ⟨-, -, whole⟩ | ⟨refused, -⟩
  · simp [whole.1] at unparsed
  · simp [refused]

theorem ListSeen.SameAnswers.answeredWell_iff {later : ListSeen} (same : seen.SameAnswers later)
    (room : later.writing.outOfMemory = seen.writing.outOfMemory) :
    AnsweredWell ph later ↔ AnsweredWell ph seen := by
  simp only [AnsweredWell, same.server, same.refusedAt, room]

theorem not_answeredWell_of_fail (ended : RepliesEnded ph seen dircachectx (.fail status)) :
    ¬ AnsweredWell ph seen := by
  rintro ⟨succeeded, unread, -⟩
  rcases ended with failed | ⟨unparsed, accepted⟩
  · simp [failed] at succeeded
  · exact unread unparsed accepted

def Settles (ph : Platform) (pdc : Option DirectoryCache)
    (dircachectx : Option DirectoryCacheEntry) (listed : Listed) (later : ListSeen) : Prop :=
  Settled ph pdc later.server listed ↔ dircachectx = none ∨ AnsweredWell ph later

theorem settles_abandoned {pdc : Option DirectoryCache} (failed : seen.server.failed = true) :
    Settles ph pdc dircachectx { status, pdc, detached := dircachectx } seen := by
  have not_well : ¬ AnsweredWell ph seen := not_answeredWell_of_failed failed
  simp [Settles, settled_abandoned_iff, not_well]

theorem ensures_listOpened (only : OnlyStatus ph searchAttr fn) {pdc : Option DirectoryCache}
    (present : dircachectx ≠ none → pdc ≠ none) (querying : seen.Querying ph mask)
    (writing : seen.Writing [] dircachectx) :
    (listWatch ph searchAttr).Ensures (Settles ph pdc dircachectx)
      (listOpened ph searchAttr fn pdc dircachectx cli mask) seen := by
  apply (ensures_listReplies only ph.queryLimit querying writing).bind
  rintro ⟨ended, progress⟩ later ⟨kept, atEnd⟩
  cases ended with
  | fail status =>
      have not_well := not_answeredWell_of_fail atEnd
      have same : progress.dircachectx = none ↔ dircachectx = none := by
        rw [← Option.not_isSome_iff_eq_none, kept, Option.not_isSome_iff_eq_none]
      simp [Settles, settled_abandoned_iff, not_well, same]
  | done status =>
      obtain ⟨left, processedFile⟩ := progress
      cases left with
      | none => trivial
      | some pdce =>
          have begun : dircachectx ≠ none := by
            rintro rfl
            simp at kept
          obtain ⟨cache, rfl⟩ := Option.ne_none_iff_exists'.mp (present begun)
          simp only [dircacheWriteEnd]
          split
          · rename_i invalid
            exact iff_of_true settled_discarded (.inr (answeredWell_of_lost atEnd invalid))
          · rename_i valid
            have complete := complete_iff_answeredWell atEnd (by simpa using valid)
            obtain ⟨-, rest, ⟨written, -, -, tracks⟩, -⟩ := atEnd
            refine Watch.ensures_bind.mpr (Watch.ensures_bind.mpr
              ((ensures_dceAdjust (tracks pdce rfl)).mono ?_))
            rintro adjusted latest ⟨same, infos, room⟩
            change Settles _ _ _ _ latest
            simp only [Settles, Option.map_some, settled_inserted_iff, begun, false_or]
            rw [same.answeredWell_iff room, infos, same.server]
            exact complete

structure ListSeen.Preparing (dircachectx : Option DirectoryCacheEntry) (seen : ListSeen) :
    Prop where
  succeeded : seen.server.failed = false
  goesOn : seen.server.noMoreFiles = false
  parsed : seen.server.unparsed = false
  unasked : seen.server.replies = 0
  accepted : seen.writing.refusedAt = none
  writing : seen.Writing [] dircachectx

namespace ListSeen.Preparing

theorem prepared (preparing : seen.Preparing dircachectx) :
    ({ seen with server := seen.server.prepared true } : ListSeen).Preparing dircachectx where
  succeeded := by simp [ServerSeen.prepared, preparing.succeeded]
  goesOn := preparing.goesOn
  parsed := preparing.parsed
  unasked := preparing.unasked
  accepted := preparing.accepted
  writing := ⟨preparing.writing.written⟩

theorem named (preparing : seen.Preparing dircachectx) (mask : CString) :
    ({ seen with server := seen.server.parent (some mask) } : ListSeen).Preparing dircachectx where
  succeeded := preparing.succeeded
  goesOn := preparing.goesOn
  parsed := preparing.parsed
  unasked := preparing.unasked
  accepted := preparing.accepted
  writing := ⟨preparing.writing.written⟩

theorem querying (preparing : seen.Preparing dircachectx) : seen.Querying ph seen.server.mask :=
  ⟨rfl, preparing.succeeded, preparing.goesOn, preparing.parsed, preparing.accepted,
    fun _ => preparing.unasked⟩

theorem begun {dircachectx : Option DirectoryCacheEntry}
    (empty : ∀ pdce, dircachectx = some pdce → pdce.aInfos = []) :
    (ListSeen.begun dircachectx).Preparing dircachectx := by
  cases dircachectx with
  | none => exact ⟨rfl, rfl, rfl, rfl, rfl, [], rfl, rfl, by simp⟩
  | some pdce =>
      refine ⟨rfl, rfl, rfl, rfl, rfl, [], rfl, rfl, ?_⟩
      rintro _ ⟨⟩
      exact ⟨rfl, rfl, fun _ => empty pdce rfl⟩

end ListSeen.Preparing

theorem failed_prepared (server : ServerSeen) : (server.prepared false).failed = true := by
  simp [ServerSeen.prepared]

theorem settles_contextRule (only : OnlyStatus ph searchAttr fn) {pdc : Option DirectoryCache}
    (present : dircachectx ≠ none → pdc ≠ none) :
    ContextRule (listWatch ph searchAttr) ph searchAttr fn cli pdc dircachectx
      (·.Preparing dircachectx) (·.server.mask) (Settles ph pdc dircachectx) where
  prepared := by
    intro seen event preparing prepares
    cases prepares with
    | idle | spoken | created | mapped => exact preparing.prepared
  sameMask := by
    intro seen event prepares
    cases prepares <;> rfl
  named := fun pathname parent preparing => preparing.named parent.2
  mask_named := fun seen pathname parent => rfl
  refused := by
    intro seen event status preparing refuses
    cases refuses with
    | busy | smb1 | uncreated => exact settles_abandoned (failed_prepared _)
    | unnamed => exact settles_abandoned rfl
    | unmapped fnum bad =>
        change Settles ph pdc dircachectx _
          { seen with server := seen.server.prepared (status == ntStatusOk) }
        rw [beq_eq_false_iff_ne.mpr bad]
        exact settles_abandoned (failed_prepared _)
  opened := fun preparing => ensures_listOpened only present preparing.querying preparing.writing
  closed := fun fnum settles => settles

theorem empty_dceCreate (path : CString) (cFiles : Nat) :
    (dceCreate path cFiles).Returns fun created =>
      ∀ pdce, created = some pdce → pdce.aInfos = [] := by
  refine Prog.returns_perform_bind.mpr fun entry => ?_
  split
  · simp
  · refine Prog.returns_perform_bind.mpr fun infos => ?_
    split
    · simp
    · refine Prog.returns_perform_bind.mpr fun copy => ?_
      split
      · trivial
      · simp

theorem returns_dcWriteStart (pdc : DirectoryCache) (path : CString) (cFiles : Nat) :
    (dcWriteStart ph pdc path cFiles).Returns fun result =>
      ∀ pdce, result.1 = some pdce → pdce.aInfos = [] := by
  unfold dcWriteStart
  split
  · exact Prog.returns_bind.mpr (empty_dceCreate path cFiles)
  · simp

theorem empty_dcWriteBegin (pdc : DirectoryCache) (path : CString) (cFiles : Nat) :
    (dcWriteBegin ph pdc path cFiles).Returns fun result =>
      ∀ pdce, result.1 = some pdce → pdce.aInfos = [] := by
  unfold dcWriteBegin
  split
  · simp
  · refine Prog.returns_bind.mpr ((returns_dcWriteStart pdc path cFiles).mono ?_)
    rintro ⟨_ | pdce, pdc⟩ empty
    · simp
    · refine Prog.returns_perform_bind.mpr fun now => ?_
      rintro _ ⟨⟩
      exact empty pdce rfl

theorem empty_dircacheWriteBegin (pdc : Option DirectoryCache) (state : FilelistState)
    (cFiles : Nat) :
    (dircacheWriteBegin ph pdc state cFiles).Returns fun result =>
      ∀ pdce, result.1 = some pdce → pdce.aInfos = [] ∧ result.2 ≠ none := by
  unfold dircacheWriteBegin
  split
  · simp
  · simp
  · split
    · trivial
    · refine Prog.returns_bind.mpr ((empty_dcWriteBegin _ _ cFiles).mono ?_)
      exact fun result empty pdce begun => ⟨empty pdce begun, by simp⟩

end Watch

section Runs

variable {ph : Platform} {srv : SmbwrpServer} {st : FilelistState} {searchAttr : UInt32}
  {pdc : Option DirectoryCache} {cli : Handle} {pathname : CString}

def seenSince (ph : Platform) (searchAttr : UInt32) (dircachectx : Option DirectoryCacheEntry)
    (trace : List CallEvent) : ListSeen :=
  (listWatch ph searchAttr).after (.begun dircachectx) trace

/-- A listing over SMB2 settles what it began exactly when nothing was begun or the answers
let it: a failed request leaves the listing behind, and a callback's status before the last
entry commits what was written so far. -/
theorem listFilesSmb2_settled_iff {trace : List CallEvent} {listed : Listed}
    (run : Run (listFilesSmb2 ph searchAttr (smbwrpDirAdd ph srv st) pdc st cli pathname) trace
      (some listed)) :
    ∃ first rest dircachectx begun, trace = first ++ rest ∧
      Run (dircacheWriteBegin ph pdc st 128) first (some (dircachectx, begun)) ∧
      (Settled ph begun (seenSince ph searchAttr dircachectx rest).server listed ↔
        dircachectx = none ∨ AnsweredWell ph (seenSince ph searchAttr dircachectx rest)) := by
  obtain ⟨first, rest, ⟨dircachectx, begun⟩, rfl, began, listing⟩ := run_bind_some_iff.mp run
  have known := (empty_dircacheWriteBegin pdc st 128).run began
  refine ⟨first, rest, dircachectx, begun, rfl, began, ?_⟩
  have present : dircachectx ≠ none → begun ≠ none := by
    intro opened
    obtain ⟨pdce, rfl⟩ := Option.ne_none_iff_exists'.mp opened
    exact (known pdce rfl).2
  have preparing := ListSeen.Preparing.begun fun pdce opened => (known pdce opened).1
  have settles : (listWatch ph searchAttr).Ensures (Settles ph begun dircachectx)
      (listContext ph searchAttr (smbwrpDirAdd ph srv st) begun dircachectx cli pathname)
      (.begun dircachectx) :=
    (settles_contextRule (onlyStatus_smbwrpDirAdd srv st) present).ensures_listContext preparing _
  exact settles.run listing (Watch.admits_of_forall _ fun _ _ _ => trivial)

end Runs

def twoFiles : List FileInfo :=
  [{ size := 1, mode := 0, btimeTs := 0, atimeTs := 0, mtimeTs := 0, ctimeTs := 0
     name := bytes "A" },
   { size := 2, mode := 0, btimeTs := 0, atimeTs := 0, mtimeTs := 0, ctimeTs := 0
     name := bytes "B" }]

def twoFilesState : FilelistState :=
  { mask := bytes "\\D\\*", dir := bytes "\\D\\", dirMask := bytes "*", ulAttribute := 0
    fullpath := bytes "\\D\\*" }

def freshCache : DirectoryCache :=
  { fEnabled := true, ulExpirationTime := 10, cMaxEntries := 4 }

def answerTwoFiles (mask : CString) (status : UInt32) : (R : Type) → Op R → R
  | _, .request _ .connHasAsyncCalls => false
  | _, .request _ (.windowsParentDirname _) => some (bytes "\\D", mask)
  | _, .request _ (.smb2cliQueryDirectory _) =>
      .ok { parsed := twoFiles, failed := none, progress := .inl (by decide) }
  | _, .missingReturnValue => status
  | _, op => op.usual

def listTwoFiles : Program Listed :=
  listFilesSmb2 asciiPlatform listAttribute (smbwrpDirAdd asciiPlatform {} twoFilesState)
    (some freshCache) twoFilesState 1 twoFilesState.mask

def twoFilesRun (mask : CString) (status : UInt32) : List CallEvent × Option Listed :=
  exec (fun _ => answerTwoFiles mask status) 0 listTwoFiles

def beginTwoFiles : Program (Option DirectoryCacheEntry × Option DirectoryCache) :=
  dircacheWriteBegin asciiPlatform (some freshCache) twoFilesState 128

def emptyListing : DirectoryCacheEntry :=
  { aInfos := [], cInfosAllocated := 128, pszPath := bytes "\\D"
    ulHash := computehash (bytes "\\D"), ulLastUpdateTime := 0 }

def listingOf (files : List FileInfo) (cInfosAllocated : Nat) : DirectoryCacheEntry :=
  { emptyListing with aInfos := files.map FileInfo.toWrp, cInfosAllocated }

def listedTwoFiles (status : UInt32) (pdce : DirectoryCacheEntry) : Listed :=
  { status, pdc := some (dcInsertEntry freshCache pdce) }

theorem run_listTwoFiles {mask : CString} {status : UInt32} {listed : Listed}
    (outcome : (twoFilesRun mask status).2 = some listed) :
    Run listTwoFiles (twoFilesRun mask status).1 (some listed) :=
  outcome ▸ run_exec _ _ _

theorem listFilesSmb2_settled_iff_plain :
    ∃ first rest dircachectx begun, (twoFilesRun (bytes "A") 0).1 = first ++ rest ∧
      Run beginTwoFiles first (some (dircachectx, begun)) ∧
      (Settled asciiPlatform begun
          (seenSince asciiPlatform listAttribute dircachectx rest).server
          (listedTwoFiles 0 (listingOf twoFiles 65)) ↔
        dircachectx = none ∨
          AnsweredWell asciiPlatform (seenSince asciiPlatform listAttribute dircachectx rest)) :=
  listFilesSmb2_settled_iff (run_listTwoFiles (by decide))

/-- The callback's first status ends the listing, which is cached without the second file. -/
theorem listFilesSmb2_commits_prefix :
    ∃ first rest, Run beginTwoFiles first (some (some emptyListing, some freshCache)) ∧
      Run listTwoFiles (first ++ rest) (some (listedTwoFiles 2 (listingOf (twoFiles.take 1) 64))) ∧
      ¬ Settled asciiPlatform (some freshCache)
        (seenSince asciiPlatform listAttribute (some emptyListing) rest).server
        (listedTwoFiles 2 (listingOf (twoFiles.take 1) 64)) := by
  refine ⟨(twoFilesRun (bytes "*") 2).1.take 4, (twoFilesRun (bytes "*") 2).1.drop 4, ?_, ?_, ?_⟩
  · exact run_exec (fun _ => answerTwoFiles (bytes "*") 2) beginTwoFiles 0
  · rw [List.take_append_drop]
    exact run_listTwoFiles (by decide)
  · rw [listedTwoFiles, settled_inserted_iff]
    exact fun complete => absurd complete.1 (by decide)

end NdpSmb
