import NdpSmb.LinkedCache

/-!
The room in the arrays of the listings: what was allocated for each of them, beside what
`cInfosAllocated` says.
-/

namespace NdpSmb

open ByteString Interaction DoublyLinked

variable (ph : Platform)

inductive Allotment
  | malloc (size : Nat)
  | realloc (size : Nat) (granted : Bool)
  deriving DecidableEq

def allotment : CallEvent → Option Allotment
  | ⟨.malloc size, _⟩ => some (.malloc size)
  | ⟨.realloc size, granted⟩ => some (.realloc size granted)
  | _ => none

def roomWatch : Watch Op (List Allotment) where
  observe asked event := asked ++ (allotment event).toList

/-- `realloc` to no size frees the array. -/
def resizedRoom (room : Nat) : Allotment → Nat
  | .realloc size granted =>
      if size = 0 then 0 else if granted then size / sizeofFileinfo else room
  | .malloc _ => room

/-- The second of the allocations of `dceCreate` is for the array. -/
def createdRoom : List Allotment → Nat
  | _ :: .malloc size :: _ => size / sizeofFileinfo
  | _ => 0

/-- `room` has how many entries the array of each listing holds, and `asked` what writing to the
listings has asked for. -/
structure RoomCache where
  shared : LinkedShared
  room : Address → Nat := fun _ => 0
  asked : List Allotment := []

def RoomCache.resizedAt (cache : RoomCache) (asked : List Allotment) (place : Nat) :
    Address → Nat :=
  match (cache.shared.sessions[place]?).join with
  | some pdce => Function.update cache.room pdce (asked.foldl resizedRoom (cache.room pdce))
  | none => cache.room

def RoomCache.roomAfter (cache : RoomCache) (asked : List Allotment) : SharedCall → Address → Nat
  | .writeBegin _ _ =>
      Function.update cache.room cache.shared.pdc.allocated (createdRoom asked)
  | .writeEntry place _ | .writeEnd place => cache.resizedAt asked place
  | _ => cache.room

def SharedCall.resizes : SharedCall → Bool
  | .writeEntry .. | .writeEnd _ => true
  | _ => false

def roomStep (fn : FilelistState → SmbwrpFileinfo → Program UInt32) (cache : RoomCache)
    (call : SharedCall) : Program (Unit × RoomCache) := do
  let ((_, shared), asked) ← (linkedStep ph fn cache.shared call).tallied roomWatch []
  pure ((), { shared
              room := cache.roomAfter asked call
              asked := if call.resizes then cache.asked ++ asked else cache.asked })

def emptyRoom (ulExpirationTime : UInt32) (cMaxEntries : Nat) : RoomCache :=
  { shared := emptyLinked ulExpirationTime cMaxEntries }

def RoomCache.ResizedToNothing (cache : RoomCache) : Prop :=
  ∃ granted, Allotment.realloc 0 granted ∈ cache.asked

structure RoomCache.Kept (cache : RoomCache) : Prop where
  room : ∀ pdce entry, cache.shared.pdc.heap pdce = some entry →
    entry.aInfos.length ≤ entry.cInfosAllocated ∧ cache.room pdce = entry.cInfosAllocated
  resized : ¬ cache.ResizedToNothing

/-- No session ends without an entry where there is room for just one. -/
def LeavesRoom (cache : RoomCache) : SharedCall → Prop
  | .writeEnd place => ∀ pdce entry, cache.shared.sessions[place]? = some (some pdce) →
      cache.shared.pdc.heap pdce = some entry → entry.fInvalid = false → entry.aInfos = [] →
      entry.cInfosAllocated ≠ 1
  | _ => True

def AnyCall (_ : RoomCache) (_ : SharedCall) : Prop := True

section Listing

variable {entry : DirectoryCacheEntry} {asked : List Allotment}

structure Resized (before after : DirectoryCacheEntry) (asked : List Allotment) : Prop where
  fits : after.aInfos.length ≤ after.cInfosAllocated
  room : asked.foldl resizedRoom before.cInfosAllocated = after.cInfosAllocated
  resized : ∀ granted, Allotment.realloc 0 granted ∉ asked

theorem resizedRoom_granted {cInfos : Nat} (room : Nat) (some_size : 0 < cInfos) :
    resizedRoom room (.realloc (cInfos * sizeofFileinfo) true) = cInfos := by
  have size : 0 < sizeofFileinfo := by decide
  have present : cInfos * sizeofFileinfo ≠ 0 := (Nat.mul_pos some_size size).ne'
  rw [resizedRoom, if_neg present, if_pos rfl, Nat.mul_div_cancel _ size]

theorem resizedRoom_refused {cInfos : Nat} (room : Nat) (some_size : 0 < cInfos) :
    resizedRoom room (.realloc (cInfos * sizeofFileinfo) false) = room := by
  have size : 0 < sizeofFileinfo := by decide
  have present : cInfos * sizeofFileinfo ≠ 0 := (Nat.mul_pos some_size size).ne'
  rw [resizedRoom, if_neg present, if_neg Bool.false_ne_true]

theorem Resized.of_realloc {after : DirectoryCacheEntry} {cInfos : Nat} {granted : Bool}
    (some_size : 0 < cInfos) (fits : after.aInfos.length ≤ after.cInfosAllocated)
    (room : after.cInfosAllocated = if granted then cInfos else entry.cInfosAllocated) :
    Resized entry after [.realloc (cInfos * sizeofFileinfo) granted] where
  fits := fits
  room := by
    rw [room, List.foldl_cons, List.foldl_nil]
    cases granted with
    | true => exact resizedRoom_granted _ some_size
    | false => exact resizedRoom_refused _ some_size
  resized other member := by
    have size : 0 < sizeofFileinfo := by decide
    have present : 0 < cInfos * sizeofFileinfo := Nat.mul_pos some_size size
    have same : 0 = cInfos * sizeofFileinfo ∧ other = granted := by simpa using member
    omega

theorem resized_nothing {after : DirectoryCacheEntry}
    (fits : after.aInfos.length ≤ after.cInfosAllocated)
    (room : after.cInfosAllocated = entry.cInfosAllocated) : Resized entry after [] :=
  ⟨fits, room.symm, fun _ member => by cases member⟩

theorem rooms_dceWriteEntry (fits : entry.aInfos.length ≤ entry.cInfosAllocated)
    (finfo : SmbwrpFileinfo) :
    roomWatch.Ensures (fun written asked => Resized entry written asked)
      (dceWriteEntry entry finfo) [] := by
  unfold dceWriteEntry
  split
  · intro granted _
    cases granted with
    | true =>
        refine Resized.of_realloc (by omega) ?_ rfl
        simp only [List.length_append, List.length_singleton]
        omega
    | false => exact Resized.of_realloc (by omega) fits rfl
  · refine resized_nothing ?_ rfl
    simp only [List.length_append, List.length_singleton]
    omega

theorem rooms_dceAdjust (fits : entry.aInfos.length ≤ entry.cInfosAllocated)
    (leaves : entry.aInfos = [] → entry.cInfosAllocated ≠ 1) :
    roomWatch.Ensures (fun adjusted asked => Resized entry adjusted asked)
      (dceAdjust entry) [] := by
  unfold dceAdjust
  simp only
  split
  · rename_i free
    have some_size : 0 < entry.aInfos.length +
        (entry.cInfosAllocated - entry.aInfos.length) / 2 := by
      by_cases empty : entry.aInfos = []
      · have more := leaves empty
        rw [empty, List.length_nil] at free ⊢
        omega
      · have written := List.length_pos_of_ne_nil empty
        omega
    intro granted _
    cases granted with
    | true =>
        refine Resized.of_realloc some_size ?_ rfl
        simp only
        omega
    | false => exact Resized.of_realloc some_size fits rfl
  · exact resized_nothing fits rfl

theorem rooms_dceAdjust_nothing (empty : entry.aInfos = []) (one : entry.cInfosAllocated = 1) :
    roomWatch.Ensures (fun _ asked => ∃ granted, Allotment.realloc 0 granted ∈ asked)
      (dceAdjust entry) [] := by
  have asks : dceAdjust entry = perform (Op.realloc 0) >>= fun shrunk =>
      if shrunk then pure { entry with cInfosAllocated := 0 } else pure entry := by
    simp [dceAdjust, empty, one]
  rw [asks]
  intro granted _
  have member : Allotment.realloc 0 granted ∈ [Allotment.realloc 0 granted] :=
    List.mem_cons_self
  cases granted with
  | true => exact ⟨true, member⟩
  | false => exact ⟨false, member⟩

end Listing

/-! The listings in memory. -/

structure LinkedCache.Sheds (pdc later : LinkedCache) : Prop where
  allocated : later.allocated = pdc.allocated
  heap : ∀ pdce, later.heap pdce = none ∨ later.heap pdce = pdc.heap pdce

/-- The array of each listing has the room that the listing says. -/
structure Rooms (room : Address → Nat) (pdc : LinkedCache) : Prop where
  holds : ∀ pdce entry, pdc.heap pdce = some entry →
    entry.aInfos.length ≤ entry.cInfosAllocated ∧ room pdce = entry.cInfosAllocated
  inUse : ∀ pdce, pdc.heap pdce ≠ none → pdce < pdc.allocated

section Memory

variable {ph} {pdc later last : LinkedCache} {pdce : Address} {entry after : DirectoryCacheEntry}
  {room : Address → Nat}

open LinkedCache

theorem LinkedCache.Sheds.refl : pdc.Sheds pdc := ⟨rfl, fun _ => .inr rfl⟩

theorem LinkedCache.Sheds.trans (first : pdc.Sheds later) (second : later.Sheds last) :
    pdc.Sheds last where
  allocated := second.allocated.trans first.allocated
  heap pdce := by
    rcases second.heap pdce with freed | same
    · exact .inl freed
    · rw [same]
      exact first.heap pdce

theorem sheds_dcRemoveEntry (removed : pdc.dcRemoveEntry pdce = some later) :
    later.heap = pdc.heap ∧ later.allocated = pdc.allocated := by
  unfold LinkedCache.dcRemoveEntry at removed
  split at removed
  · obtain rfl := Option.some.inj removed
    exact ⟨rfl, rfl⟩
  · cases removed

theorem sheds_dceDelete (deleted : pdc.dceDelete pdce = some later) : pdc.Sheds later := by
  unfold LinkedCache.dceDelete at deleted
  split at deleted
  · obtain rfl := Option.some.inj deleted
    refine ⟨rfl, fun other => ?_⟩
    by_cases same : other = pdce
    · rw [same]
      exact .inl (Function.update_self _ _ _)
    · exact .inr (Function.update_of_ne same _ _)
  · cases deleted

theorem sheds_dcInsertEntry (inserted : pdc.dcInsertEntry pdce = some later) :
    pdc.Sheds later := by
  unfold LinkedCache.dcInsertEntry at inserted
  split at inserted
  · obtain rfl := Option.some.inj inserted
    exact ⟨rfl, fun _ => .inr rfl⟩
  · cases inserted

theorem sheds_discard (discarded : pdc.discard pdce = some later) : pdc.Sheds later := by
  obtain ⟨between, removed, deleted⟩ := Option.bind_eq_some_iff.mp discarded
  obtain ⟨heap, allocated⟩ := sheds_dcRemoveEntry removed
  have first : pdc.Sheds between := ⟨allocated, fun other => .inr (congrFun heap other)⟩
  exact first.trans (sheds_dceDelete deleted)

theorem sheds_dcEvict (evicted : pdc.dcEvict = some later) : pdc.Sheds later := by
  unfold LinkedCache.dcEvict at evicted
  split at evicted
  · obtain ⟨tail, -, discarded⟩ := Option.bind_eq_some_iff.mp evicted
    exact sheds_discard discarded
  · obtain rfl := Option.some.inj evicted
    exact .refl

theorem sheds_dcInvalidateLoop (matching : DirectoryCacheEntry → Bool) (fuel : Nat)
    (invalidated : LinkedCache.dcInvalidateLoop matching fuel pdc = some later) :
    pdc.Sheds later := by
  induction fuel generalizing pdc with
  | zero => cases invalidated
  | succ fuel ih =>
      rw [LinkedCache.dcInvalidateLoop] at invalidated
      cases found : pdc.findFrom matching pdc.allocated pdc.links.head with
      | none =>
          rw [found] at invalidated
          cases invalidated
      | some hit =>
          rw [found] at invalidated
          cases hit with
          | none =>
              obtain rfl := Option.some.inj invalidated
              exact .refl
          | some pdce =>
              obtain ⟨between, discarded, rest⟩ := Option.bind_eq_some_iff.mp invalidated
              exact (sheds_discard discarded).trans (ih rest)

theorem Rooms.shed (rooms : Rooms room pdc) (sheds : pdc.Sheds later) : Rooms room later where
  holds pdce entry present := by
    rcases sheds.heap pdce with freed | same
    · rw [freed] at present
      cases present
    · exact rooms.holds pdce entry (same ▸ present)
  inUse pdce present := by
    rw [sheds.allocated]
    rcases sheds.heap pdce with freed | same
    · exact absurd freed present
    · exact rooms.inUse pdce (same ▸ present)

theorem Rooms.stored (rooms : Rooms room pdc) (present : pdc.heap pdce = some entry)
    (fits : after.aInfos.length ≤ after.cInfosAllocated) :
    Rooms (Function.update room pdce after.cInfosAllocated) (pdc.store pdce (some after)) where
  holds other found stored := by
    by_cases same : other = pdce
    · rw [same] at stored ⊢
      have now : (pdc.store pdce (some after)).heap pdce = some after := Function.update_self _ _ _
      obtain rfl := Option.some.inj (now.symm.trans stored)
      exact ⟨fits, Function.update_self _ _ _⟩
    · have still : (pdc.store pdce (some after)).heap other = pdc.heap other :=
        Function.update_of_ne same _ _
      rw [Function.update_of_ne same]
      exact rooms.holds other found (still ▸ stored)
  inUse other stored := by
    by_cases same : other = pdce
    · rw [same]
      exact rooms.inUse pdce (present ▸ Option.some_ne_none entry)
    · have still : (pdc.store pdce (some after)).heap other = pdc.heap other :=
        Function.update_of_ne same _ _
      exact rooms.inUse other (still ▸ stored)

theorem Rooms.rewritten (rooms : Rooms room pdc) (present : pdc.heap pdce = some entry)
    (fits : after.aInfos.length ≤ after.cInfosAllocated)
    (capacity : after.cInfosAllocated = entry.cInfosAllocated) :
    Rooms room (pdc.store pdce (some after)) := by
  have stored := rooms.stored present fits
  have same : Function.update room pdce after.cInfosAllocated = room := by
    rw [capacity, ← (rooms.holds pdce entry present).2, Function.update_eq_self]
  rwa [same] at stored

theorem Rooms.unused (rooms : Rooms room pdc) (some_room : Nat) :
    Rooms (Function.update room pdc.allocated some_room) pdc where
  holds pdce entry present := by
    have early := rooms.inUse pdce (present ▸ Option.some_ne_none entry)
    rw [Function.update_of_ne early.ne]
    exact rooms.holds pdce entry present
  inUse := rooms.inUse

theorem returns_orFault {α : Type} {option : Option α} {post : α → Prop}
    (holds : ∀ value, option = some value → post value) :
    (orFault option : Program α).Returns post := by
  cases option with
  | none => trivial
  | some value => exact holds value rfl

theorem rooms_orFault {α : Type} {option : Option α} {post : α → List Allotment → Prop}
    {asked : List Allotment} (holds : ∀ value, option = some value → post value asked) :
    roomWatch.Ensures post (orFault option) asked := by
  cases option with
  | none => trivial
  | some value => exact holds value rfl

theorem sheds_dcRead (path : CString) (fn : SmbwrpFileinfo → Program UInt32)
    (fForceCache : Bool) :
    (pdc.dcRead ph path fn fForceCache).Returns fun result => pdc.Sheds result.2 := by
  have given (entry : DirectoryCacheEntry) : (addEach fn entry.aInfos >>= fun _ =>
      pure (some entry.aInfos.length, pdc) : Program (Option Nat × LinkedCache)).Returns
        fun result => pdc.Sheds result.2 :=
    Prog.returns_bind.mpr (Prog.returns_of_forall fun _ => .refl)
  unfold LinkedCache.dcRead
  split
  · exact .refl
  · refine Prog.returns_bind.mpr (returns_orFault fun found _ => ?_)
    cases found with
    | none => exact .refl
    | some pdce =>
        refine Prog.returns_bind.mpr (returns_orFault fun entry _ => ?_)
        cases fForceCache with
        | true => exact given entry
        | false =>
            refine Prog.returns_perform_bind.mpr fun now => ?_
            split
            · refine Prog.returns_bind.mpr (returns_orFault fun later discarded => ?_)
              exact sheds_discard discarded
            · exact given entry

theorem rooms_dceCreate (rooms : Rooms room pdc) (path : CString) (cFiles : Nat) :
    roomWatch.Ensures (fun result asked =>
        Rooms (Function.update room pdc.allocated (createdRoom asked)) result.2)
      (pdc.dceCreate path cFiles) [] := by
  have size : 0 < sizeofFileinfo := by decide
  have unused (asked : List Allotment) :
      Rooms (Function.update room pdc.allocated (createdRoom asked)) pdc :=
    rooms.unused (createdRoom asked)
  unfold LinkedCache.dceCreate NdpSmb.dceCreate
  refine Watch.ensures_bind.mpr fun entry _ => ?_
  cases entry with
  | false => exact unused _
  | true =>
      intro infos _
      cases infos with
      | false => exact unused _
      | true =>
          intro copy _
          cases copy with
          | false => trivial
          | true =>
              refine ⟨fun pdce entry present => ?_, fun pdce present => ?_⟩
              · by_cases fresh : pdce = pdc.allocated
                · rw [fresh] at present ⊢
                  rw [Function.update_self]
                  have here : Function.update pdc.heap pdc.allocated _ pdc.allocated = some entry :=
                    present
                  rw [Function.update_self] at here
                  obtain rfl := Option.some.inj here
                  exact ⟨Nat.zero_le _, Nat.mul_div_cancel cFiles size⟩
                · have here : Function.update pdc.heap pdc.allocated _ pdce = some entry := present
                  rw [Function.update_of_ne fresh] at here ⊢
                  exact rooms.holds pdce entry here
              · by_cases fresh : pdce = pdc.allocated
                · rw [fresh]
                  exact Nat.lt_succ_self _
                · have here : Function.update pdc.heap pdc.allocated _ pdce ≠ none := present
                  rw [Function.update_of_ne fresh] at here
                  exact (rooms.inUse pdce here).trans (Nat.lt_succ_self _)

theorem rooms_dcWriteStart (rooms : Rooms room pdc) (path : CString) (cFiles : Nat) :
    roomWatch.Ensures (fun result asked =>
        Rooms (Function.update room pdc.allocated (createdRoom asked)) result.2)
      (pdc.dcWriteStart ph path cFiles) [] := by
  refine Watch.ensures_bind.mpr (rooms_orFault fun found _ => ?_)
  cases found with
  | none => exact rooms_dceCreate rooms path cFiles
  | some pdce =>
      refine Watch.ensures_bind.mpr (rooms_orFault fun entry present => ?_)
      refine Watch.ensures_bind.mpr (rooms_orFault fun later removed => ?_)
      have cleared : Rooms room (pdc.store pdce (some { entry with aInfos := [] })) :=
        rooms.rewritten present (Nat.zero_le _) rfl
      obtain ⟨heap, allocated⟩ := sheds_dcRemoveEntry removed
      have first : LinkedCache.Sheds _ later := ⟨allocated, fun other => .inr (congrFun heap other)⟩
      have same : later.allocated = pdc.allocated := allocated
      exact same ▸ (cleared.shed first).unused _

theorem rooms_dcWriteBegin (rooms : Rooms room pdc) (path : CString) (cFiles : Nat) :
    roomWatch.Ensures (fun result asked =>
        Rooms (Function.update room pdc.allocated (createdRoom asked)) result.2)
      (pdc.dcWriteBegin ph path cFiles) [] := by
  unfold LinkedCache.dcWriteBegin
  split
  · exact rooms.unused _
  · apply (rooms_dcWriteStart rooms path cFiles).bind
    rintro ⟨pdce, later⟩ asked rooms
    cases pdce with
    | none => exact rooms
    | some pdce =>
        refine Watch.ensures_bind.mpr (rooms_orFault fun entry present => ?_)
        intro now _
        have nothing : roomWatch.observe asked ⟨Op.timesec, now⟩ = asked := List.append_nil asked
        change Rooms (Function.update room pdc.allocated
          (createdRoom (roomWatch.observe asked ⟨Op.timesec, now⟩))) _
        rw [nothing]
        exact rooms.rewritten present (rooms.holds pdce entry present).1 rfl

theorem rooms_dircacheWriteBegin (rooms : Rooms room pdc) (state : FilelistState)
    (cFiles : Nat) :
    roomWatch.Ensures (fun result asked =>
        Rooms (Function.update room pdc.allocated (createdRoom asked)) result.2)
      (pdc.dircacheWriteBegin ph state cFiles) [] := by
  unfold LinkedCache.dircacheWriteBegin
  cases dcCreateDirPath state with
  | none => exact rooms.unused _
  | some path =>
      refine Watch.ensures_bind.mpr (rooms_orFault fun later evicted => ?_)
      have sheds := sheds_dcEvict evicted
      rw [← sheds.allocated]
      exact rooms_dcWriteBegin (rooms.shed sheds) path cFiles

end Memory

structure RoomCache.Fits (cache : RoomCache) : Prop where
  rooms : Rooms cache.room cache.shared.pdc
  resized : ¬ cache.ResizedToNothing

section Steps

variable {ph} {cache : RoomCache} {call : SharedCall}
  {fn : FilelistState → SmbwrpFileinfo → Program UInt32}

theorem RoomCache.Fits.kept (fits : cache.Fits) : cache.Kept := ⟨fits.rooms.holds, fits.resized⟩

def RoomCache.stepped (cache : RoomCache) (call : SharedCall) (shared : LinkedShared)
    (asked : List Allotment) : RoomCache :=
  { shared
    room := cache.roomAfter asked call
    asked := if call.resizes then cache.asked ++ asked else cache.asked }

theorem returns_roomStep_of {post : RoomCache → Prop}
    (ensures : roomWatch.Ensures (fun result asked => post (cache.stepped call result.2 asked))
      (linkedStep ph fn cache.shared call) []) :
    (roomStep ph fn cache call).Returns fun result => post result.2 := by
  refine Prog.returns_bind.mpr ((ensures.tallied fun _ _ => trivial).mono ?_)
  exact fun _ held => held

theorem returns_roomStep_shed {post : RoomCache → Prop}
    (returns : (linkedStep ph fn cache.shared call).Returns fun result =>
      cache.shared.pdc.Sheds result.2.pdc)
    (holds : ∀ shared asked, cache.shared.pdc.Sheds shared.pdc →
      post (cache.stepped call shared asked)) :
    (roomStep ph fn cache call).Returns fun result => post result.2 :=
  returns_roomStep_of ((Watch.ensures_of_returns (fun _ => trivial) returns).mono
    fun _ _ sheds => holds _ _ sheds)

theorem RoomCache.Fits.shed {shared : LinkedShared} {asked : List Allotment} (fits : cache.Fits)
    (sheds : cache.shared.pdc.Sheds shared.pdc) (still : cache.roomAfter asked call = cache.room)
    (quiet : call.resizes = false) : (cache.stepped call shared asked).Fits where
  rooms := by
    change Rooms (cache.roomAfter asked call) shared.pdc
    rw [still]
    exact fits.rooms.shed sheds
  resized := by
    rintro ⟨granted, member⟩
    change _ ∈ if call.resizes then cache.asked ++ asked else cache.asked at member
    rw [quiet] at member
    exact fits.resized ⟨granted, member⟩

theorem RoomCache.Fits.written {pdc : LinkedCache} {sessions : List (Option Address)}
    {pdce : Address} {entry after : DirectoryCacheEntry} {asked : List Allotment}
    (fits : cache.Fits) (present : cache.shared.pdc.heap pdce = some entry)
    (resized : Resized entry after asked)
    (sheds : (cache.shared.pdc.store pdce (some after)).Sheds pdc)
    (writes : cache.roomAfter asked call =
      Function.update cache.room pdce (asked.foldl resizedRoom (cache.room pdce)))
    (resizes : call.resizes = true) : (cache.stepped call ⟨pdc, sessions⟩ asked).Fits where
  rooms := by
    change Rooms (cache.roomAfter asked call) pdc
    rw [writes, (fits.rooms.holds pdce entry present).2, resized.room]
    exact (fits.rooms.stored present resized.fits).shed sheds
  resized := by
    rintro ⟨granted, member⟩
    change _ ∈ if call.resizes then cache.asked ++ asked else cache.asked at member
    rw [resizes] at member
    rcases List.mem_append.mp member with before | now
    · exact fits.resized ⟨granted, before⟩
    · exact resized.resized granted now

theorem RoomCache.Fits.unwritten {shared : LinkedShared} (fits : cache.Fits)
    (sheds : cache.shared.pdc.Sheds shared.pdc) (still : cache.roomAfter [] call = cache.room) :
    (cache.stepped call shared []).Fits where
  rooms := by
    change Rooms (cache.roomAfter [] call) shared.pdc
    rw [still]
    exact fits.rooms.shed sheds
  resized := by
    rintro ⟨granted, member⟩
    change _ ∈ if call.resizes then cache.asked ++ [] else cache.asked at member
    rw [List.append_nil, ite_self] at member
    exact fits.resized ⟨granted, member⟩

theorem RoomCache.resizedAt_nil (place : Nat) : cache.resizedAt [] place = cache.room := by
  unfold resizedAt
  cases (cache.shared.sessions[place]?).join with
  | none => rfl
  | some pdce => exact Function.update_eq_self pdce cache.room

theorem RoomCache.resizedAt_used {place : Nat} {pdce : Address} {asked : List Allotment}
    (used : cache.shared.sessions[place]? = some (some pdce)) :
    cache.resizedAt asked place =
      Function.update cache.room pdce (asked.foldl resizedRoom (cache.room pdce)) := by
  unfold resizedAt
  rw [used]
  rfl

theorem fits_step (fits : cache.Fits) (leaves : LeavesRoom cache call) :
    (roomStep ph fn cache call).Returns fun result => result.2.Fits := by
  cases call with
  | listFiles state =>
      refine returns_roomStep_shed ?_ fun _ _ sheds => fits.shed sheds rfl rfl
      refine Prog.returns_bind.mpr (Prog.Returns.mono ?_ fun _ sheds => sheds)
      unfold LinkedCache.dircacheListFiles
      cases dcCreateDirPath state with
      | none => exact LinkedCache.Sheds.refl
      | some path => exact sheds_dcRead path (fn state) false
  | findPath path =>
      refine returns_roomStep_shed ?_ fun _ _ sheds => fits.shed sheds rfl rfl
      exact Prog.returns_bind.mpr (Prog.returns_of_forall fun _ => .refl)
  | invalidate path fParent =>
      refine returns_roomStep_shed ?_ fun _ _ sheds => fits.shed sheds rfl rfl
      refine Prog.returns_bind.mpr (returns_orFault fun later invalidated => ?_)
      exact sheds_dcInvalidateLoop _ _ invalidated
  | writeBegin state cFiles =>
      refine returns_roomStep_of (Watch.ensures_bind.mpr
        ((rooms_dircacheWriteBegin fits.rooms state cFiles).mono ?_))
      exact fun _ _ rooms => ⟨rooms, fits.resized⟩
  | writeEntry place finfo =>
      refine returns_roomStep_of ?_
      simp only [linkedStep]
      cases used : cache.shared.sessions[place]? with
      | none => trivial
      | some dircachectx =>
          refine Watch.ensures_bind.mpr ?_
          cases dircachectx with
          | none => exact fits.unwritten .refl (RoomCache.resizedAt_nil place)
          | some pdce =>
              refine Watch.ensures_bind.mpr (rooms_orFault fun entry present => ?_)
              have room := fits.rooms.holds pdce entry present
              apply (rooms_dceWriteEntry room.1 finfo).bind
              intro after asked resized
              exact fits.written present resized .refl (RoomCache.resizedAt_used used) rfl
  | writeEnd place =>
      refine returns_roomStep_of ?_
      simp only [linkedStep]
      cases used : cache.shared.sessions[place]? with
      | none => trivial
      | some dircachectx =>
          refine Watch.ensures_bind.mpr ?_
          cases dircachectx with
          | none => trivial
          | some pdce =>
              refine Watch.ensures_bind.mpr (rooms_orFault fun entry present => ?_)
              split
              · refine rooms_orFault fun later deleted => ?_
                exact fits.unwritten (sheds_dceDelete deleted) (RoomCache.resizedAt_nil place)
              · rename_i valid
                have room := fits.rooms.holds pdce entry present
                have more := leaves pdce entry used present (by simpa using valid)
                apply (rooms_dceAdjust room.1 more).bind
                intro after asked resized
                refine rooms_orFault fun later inserted => ?_
                exact fits.written present resized (sheds_dcInsertEntry inserted)
                  (RoomCache.resizedAt_used used) rfl
  | abandon place =>
      refine returns_roomStep_shed ?_ fun _ _ sheds => fits.shed sheds rfl rfl
      exact LinkedCache.Sheds.refl

theorem resizedToNothing_step (resized : cache.ResizedToNothing) :
    (roomStep ph fn cache call).Returns fun result => result.2.ResizedToNothing := by
  obtain ⟨granted, member⟩ := resized
  refine returns_roomStep_of (Watch.ensures_of_forall (fun _ => trivial) fun result asked => ?_)
  refine ⟨granted, ?_⟩
  change _ ∈ if call.resizes then cache.asked ++ asked else cache.asked
  split
  · exact List.mem_append_left _ member
  · exact member

theorem resizes_step (taken : ¬ LeavesRoom cache call) :
    (roomStep ph fn cache call).Returns fun result => result.2.ResizedToNothing := by
  cases call with
  | writeEnd place =>
      have found : ∃ pdce entry, cache.shared.sessions[place]? = some (some pdce) ∧
          cache.shared.pdc.heap pdce = some entry ∧ entry.fInvalid = false ∧
          entry.aInfos = [] ∧ entry.cInfosAllocated = 1 := by
        simpa [LeavesRoom] using taken
      obtain ⟨pdce, entry, used, present, valid, empty, one⟩ := found
      refine returns_roomStep_of ?_
      simp only [linkedStep, used, LinkedCache.dircacheWriteEnd, present, orFault, Prog.pure_eq,
        Prog.ret_bind, valid, Bool.false_eq_true, if_false]
      refine Watch.ensures_bind.mpr (Watch.ensures_bind.mpr
        ((rooms_dceAdjust_nothing empty one).mono ?_))
      rintro after asked ⟨granted, member⟩
      refine rooms_orFault fun later _ => ⟨granted, ?_⟩
      exact List.mem_append_right cache.asked member
  | _ => exact absurd trivial taken

variable {ulExpirationTime : UInt32} {cMaxEntries : Nat}
  {history : List (Taken Op SharedCall Unit)}

theorem fits_reached (reached : Reaches (roomStep ph fn) LeavesRoom
    (emptyRoom ulExpirationTime cMaxEntries) history cache) : cache.Fits := by
  refine reached.invariant RoomCache.Fits ?_ fun _ _ fits leaves => fits_step fits leaves
  refine ⟨⟨fun _ _ present => ?_, fun _ present => absurd rfl present⟩, ?_⟩
  · cases present
  · rintro ⟨granted, member⟩
    cases member

/-- Each listing has the room it says, and no array is resized to nothing, in those histories in
which no session without an entry ends with room for one. -/
theorem arrayRoom_kept_iff (reached : Reaches (roomStep ph fn) AnyCall
    (emptyRoom ulExpirationTime cMaxEntries) history cache) :
    cache.Kept ↔ Reaches (roomStep ph fn) LeavesRoom (emptyRoom ulExpirationTime cMaxEntries)
      history cache := by
  constructor
  · intro kept
    have never := kept.resized
    clear kept
    induction reached with
    | start => exact .start
    | @step history before call trace answer after _ _ run ih =>
        have still : ¬ before.ResizedToNothing :=
          fun resized => never ((resizedToNothing_step resized).run run)
        refine (ih still).step ?_ run
        by_contra taken
        exact never ((resizes_step taken).run run)
  · exact fun leaves => (fits_reached leaves).kept

end Steps

theorem arrayRoom_kept_iff_listed :
    ∃ history cache, history.map Taken.label =
        [.writeBegin directoryState 128, .writeEntry 0 fileA, .writeEnd 0] ∧
      (cache.Kept ↔ Reaches (roomStep asciiPlatform noCallback) LeavesRoom (emptyRoom 10 4)
        history cache) := by
  have created : Reaches (roomStep asciiPlatform noCallback) AnyCall (emptyRoom 10 4) []
      (emptyRoom 10 4) := .start
  have begun := created.executed usualReplies (.writeBegin directoryState 128) () _ trivial rfl
  have written := begun.executed usualReplies (.writeEntry 0 fileA) () _ trivial rfl
  have ended := written.executed usualReplies (.writeEnd 0) () _ trivial rfl
  exact ⟨_, _, rfl, arrayRoom_kept_iff ended⟩

def GivesRoom (_ : RoomCache) : SharedCall → Prop
  | .writeBegin _ cFiles => 1 ≤ cFiles
  | _ => True

/-- A directory of one file, listed again when the file is gone. -/
theorem emptiedListing_resizedToNothing :
    ∃ history cache, Reaches (roomStep asciiPlatform noCallback) GivesRoom (emptyRoom 10 4)
      history cache ∧ history.map Taken.label =
        [.writeBegin directoryState 1, .writeEntry 0 fileA, .writeEnd 0,
          .writeBegin directoryState 128, .writeEnd 0] ∧ ¬ cache.Kept := by
  have created : Reaches (roomStep asciiPlatform noCallback) GivesRoom (emptyRoom 10 4) []
      (emptyRoom 10 4) := .start
  have begun := created.executed usualReplies (.writeBegin directoryState 1) () _ (le_refl 1) rfl
  have written := begun.executed usualReplies (.writeEntry 0 fileA) () _ trivial rfl
  have ended := written.executed usualReplies (.writeEnd 0) () _ trivial rfl
  have again := ended.executed usualReplies (.writeBegin directoryState 128) () _
    (show 1 ≤ 128 by decide) rfl
  have emptied := again.executed usualReplies (.writeEnd 0) () _ trivial rfl
  exact ⟨_, _, emptied, rfl, fun kept => kept.resized ⟨true, List.mem_cons_self⟩⟩

end NdpSmb
