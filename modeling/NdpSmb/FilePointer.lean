import NdpSmb.FileLife

/-!
The file pointer of an open file over its seeks, reads and writes.
-/

namespace NdpSmb

open Interaction

/-! An offset read as a signed number. -/

def position (offset : UInt64) : Int :=
  offset.toInt64.toInt

def Inside (target : Int) : Prop :=
  0 ≤ target ∧ target ≤ 9223372036854775807

instance (target : Int) : Decidable (Inside target) :=
  inferInstanceAs (Decidable (_ ∧ _))

theorem position_eq {offset : UInt64} :
    position offset =
      if offset.toNat < 2 ^ 63 then (offset.toNat : Int) else offset.toNat - 2 ^ 64 := by
  have signed : position offset = offset.toBitVec.toInt := rfl
  rw [signed, BitVec.toInt_eq_toNat_cond]
  have word : offset.toBitVec.toNat = offset.toNat := rfl
  rw [word]
  split
  · rw [if_pos (by omega)]
  · rw [if_neg (by omega)]
    rfl

theorem inside_position_iff {offset : UInt64} : Inside (position offset) ↔ offset.toNat < 2 ^ 63 := by
  have bounded := offset.toNat_lt
  unfold Inside
  rw [position_eq]
  split
  · omega
  · omega

theorem toNat_add_ofInt {base : UInt64} {distance : Int} (small : base.toNat < 2 ^ 63)
    (least : -2 ^ 63 ≤ distance) (largest : distance < 2 ^ 63) :
    ((base + UInt64.ofInt distance).toNat : Int) =
      if 0 ≤ base.toNat + distance then base.toNat + distance
      else base.toNat + distance + 2 ^ 64 := by
  unfold UInt64.ofInt
  rw [UInt64.toNat_add, UInt64.toNat_ofNat']
  split
  · omega
  · omega

section Sums

variable {base : UInt64} {distance : Int}

theorem position_add_inside (start : Inside (position base)) (least : -2 ^ 63 ≤ distance)
    (largest : distance < 2 ^ 63) (target : Inside (position base + distance)) :
    position (base + UInt64.ofInt distance) = position base + distance := by
  have small := inside_position_iff.mp start
  have sum := toNat_add_ofInt small least largest
  have unsigned : position base = base.toNat := by
    rw [position_eq, if_pos small]
  unfold Inside at target
  rw [unsigned] at target ⊢
  rw [if_pos target.1] at sum
  rw [position_eq, if_pos (by omega)]
  exact sum

theorem position_add_outside (start : Inside (position base)) (least : -2 ^ 63 ≤ distance)
    (largest : distance < 2 ^ 63) (target : ¬ Inside (position base + distance)) :
    ¬ Inside (position (base + UInt64.ofInt distance)) := by
  have small := inside_position_iff.mp start
  have sum := toNat_add_ofInt small least largest
  rw [position_eq, if_pos small] at target
  rw [inside_position_iff]
  unfold Inside at target
  split at sum
  · omega
  · omega

end Sums

def sizeAnswer : CallEvent → Option UInt64
  | ⟨.request _ (.cliQfileinfoBasic _), info⟩ => info.map fun info => info.size
  | ⟨.request _ (.cliGetattrE _), info⟩ => info.map fun info => info.size
  | _ => none

def bytesMoved : CallEvent → Nat
  | ⟨.request _ (.cliRead ..), data⟩ => (data.map List.length).getD 0
  | ⟨.request _ (.cliWriteall ..), ret⟩ => (ret.map UInt32.toNat).getD 0
  | _ => 0

structure PointerSeen where
  denied : Bool := false
  size : Option UInt64 := none
  moved : Nat := 0
  deriving DecidableEq

def pointerWatch : Watch Op PointerSeen where
  observe seen event := {
    denied := seen.denied || decide (¬ Granted event)
    size := (sizeAnswer event).or seen.size
    moved := seen.moved + bytesMoved event }
  admits _ event := ∀ size ∈ sizeAnswer event, size.toNat < 9223372036854775808

instance (seen : PointerSeen) (event : CallEvent) : Decidable (pointerWatch.admits seen event) :=
  Option.decidableForallMem (sizeAnswer event)

@[simp] theorem observe_requestMutex {seen : PointerSeen} :
    pointerWatch.observe seen ⟨.fsphRequestMutex, (0 : Int)⟩ = seen := by
  simp [pointerWatch, granted_requestMutex, sizeAnswer, bytesMoved]

@[simp] theorem observe_releaseMutex {seen : PointerSeen} :
    pointerWatch.observe seen ⟨.fsphReleaseMutex, ()⟩ = seen := by
  simp [pointerWatch, Granted, mutexReply, sizeAnswer, bytesMoved]

@[simp] theorem observe_uninitializedLong {seen : PointerSeen} {value : UInt32} :
    pointerWatch.observe seen ⟨.uninitializedLong, value⟩ = seen := by
  simp [pointerWatch, Granted, mutexReply, sizeAnswer, bytesMoved]

theorem observe_refusedMutex {seen : PointerSeen} {rcLock : Int} (refused : rcLock ≠ 0) :
    pointerWatch.observe seen ⟨.fsphRequestMutex, rcLock⟩ = { seen with denied := true } := by
  simp [pointerWatch, granted_requestMutex, refused, sizeAnswer, bytesMoved]

/-- Where a seek counts from. -/
def seekBase (file : SmbwrpFile) (seen : PointerSeen) (method : UInt32) : Option UInt64 :=
  if method = 0 then some 0
  else if method = 1 then some file.offset
  else if method = 2 then seen.size
  else none

/-! What one call makes of the offset. -/

/-- The file behind a seek: as before, or moved by the distance. -/
inductive Sought (file : SmbwrpFile) (distance : Int) (method : UInt32) :
    Int → SmbwrpFile → PointerSeen → Prop
  | kept {rc seen} :
      seekBase file seen method = none ∨ rc ≠ 0 ∧ (seen.denied = true ∨ method = 0) →
      Sought file distance method rc file seen
  | moved {seen base} : seekBase file seen method = some base → seen.denied = false →
      (method = 0 → 0 ≤ distance) →
      Sought file distance method 0 { file with offset := base + UInt64.ofInt distance } seen

/-- The file behind a read or a write. -/
structure Transferred (file later : SmbwrpFile) (seen : PointerSeen) : Prop where
  sameFd : later.fd = file.fd
  advanced : later.offset = file.offset + UInt64.ofNat seen.moved

section Calls

variable {file : SmbwrpFile} {cli : Handle}

theorem ensures_smbwrpLseek {method : UInt32} {distance : Int} :
    pointerWatch.Ensures (fun answer later => Sought file distance method answer.1 answer.2 later)
      (smbwrpLseek (some cli) file method distance) {} := by
  simp only [smbwrpLseek]
  by_cases fromStart : method = 0
  · subst fromStart
    by_cases negative : distance < 0
    · rw [if_pos rfl, if_pos negative]
      have refused : maperror einval ≠ 0 := by decide
      exact .kept (.inr ⟨refused, .inr rfl⟩)
    · rw [if_pos rfl, if_neg negative]
      have reached : Sought file distance 0 0
          { file with offset := 0 + UInt64.ofInt distance } {} :=
        .moved rfl rfl fun _ => by omega
      simpa using reached
  · rw [if_neg fromStart]
    by_cases fromHere : method = 1
    · subst fromHere
      rw [if_pos rfl]
      exact .moved rfl rfl fun zero => absurd zero (by decide)
    · rw [if_neg fromHere]
      by_cases fromEnd : method = 2
      · subst fromEnd
        rw [if_pos rfl]
        by_cases beyond : distance > 0
        · rw [if_pos beyond]
          exact .kept (.inl rfl)
        · rw [if_neg beyond, Watch.ensures_perform_bind]
          intro basic small
          cases basic with
          | some info => exact .moved rfl rfl fun zero => absurd zero (by decide)
          | none =>
              rw [Watch.ensures_perform_bind]
              intro legacy smallLegacy
              cases legacy with
              | some info => exact .moved rfl rfl fun zero => absurd zero (by decide)
              | none =>
                  exact fun errno _ => .kept (.inl rfl)
      · rw [if_neg fromEnd]
        apply Sought.kept
        left
        simp [seekBase, fromStart, fromHere, fromEnd]

theorem Sought.denied {distance : Int} {method : UInt32} {rc : Int} {seen : PointerSeen}
    (refused : rc ≠ 0) (denied : seen.denied = true) :
    Sought file distance method rc file seen :=
  .kept (.inr ⟨refused, .inl denied⟩)

theorem ensures_smbwrpRead {hasBuffer : Bool} {count : UInt32} :
    pointerWatch.Ensures (fun answer later => Transferred file answer.2.1 later)
      (smbwrpRead (some cli) file hasBuffer count) {} := by
  cases hasBuffer with
  | false => exact ⟨rfl, by simp⟩
  | true =>
      refine Watch.ensures_perform_bind.mpr fun status _ => ?_
      cases status with
      | none => exact fun errno _ => ⟨rfl, by simp [pointerWatch, bytesMoved]⟩
      | some data => exact ⟨rfl, by simp [pointerWatch, bytesMoved]⟩

theorem ensures_smbwrpWrite {buffer : Option (List UInt8)} :
    pointerWatch.Ensures (fun answer later => Transferred file answer.2.1 later)
      (smbwrpWrite (some cli) file buffer) {} := by
  cases buffer with
  | none => exact ⟨rfl, by simp⟩
  | some bytes =>
      refine Watch.ensures_perform_bind.mpr fun status _ => ?_
      cases status with
      | none => exact fun errno _ => ⟨rfl, by simp [pointerWatch, bytesMoved]⟩
      | some ret => exact ⟨rfl, by simp [pointerWatch, bytesMoved]⟩

end Calls

/-! When a seek is right. -/

/-- A target outside is refused, and a successful seek reaches its target. -/
def SeekRight (file : SmbwrpFile) (distance : Int) (method : UInt32) (rc : Int)
    (later : SmbwrpFile) (seen : PointerSeen) : Prop :=
  match seekBase file seen method with
  | none => later.offset = file.offset
  | some base =>
      (¬ Inside (position base + distance) → rc ≠ 0 ∧ later.offset = file.offset) ∧
      (rc = 0 → position later.offset = position base + distance)

/-- A seek from the current position or from the end has its target inside. -/
def TargetInside (file : SmbwrpFile) (distance : Int) (method : UInt32) (seen : PointerSeen) :
    Prop :=
  seen.denied = false → method ≠ 0 → ∀ base, seekBase file seen method = some base →
    Inside (position base + distance)

section Seeks

variable {file later : SmbwrpFile} {distance : Int} {method : UInt32} {rc : Int}
  {seen : PointerSeen}

theorem inside_seekBase {base : UInt64} (start : Inside (position file.offset))
    (sizes : ∀ size ∈ seen.size, size.toNat < 9223372036854775808)
    (counted : seekBase file seen method = some base) : Inside (position base) := by
  unfold seekBase at counted
  split at counted
  · obtain rfl := Option.some.inj counted
    decide
  · split at counted
    · obtain rfl := Option.some.inj counted
      exact start
    · split at counted
      · exact inside_position_iff.mpr (sizes base counted)
      · cases counted

theorem Sought.right_iff (sought : Sought file distance method rc later seen)
    (start : Inside (position file.offset)) (sizes : ∀ size ∈ seen.size, size.toNat < 9223372036854775808)
    (least : -2 ^ 63 ≤ distance) (largest : distance < 2 ^ 63) :
    Inside (position later.offset) ∧ SeekRight file distance method rc later seen ↔
      TargetInside file distance method seen := by
  cases sought with
  | kept unmoved =>
      constructor
      · intro _ given notStart base counted
        obtain noBase | ⟨_, denied | fromStart⟩ := unmoved
        · rw [noBase] at counted
          cases counted
        · rw [denied] at given
          cases given
        · exact absurd fromStart notStart
      · intro _
        refine ⟨start, ?_⟩
        unfold SeekRight
        split
        · rfl
        · rename_i base counted
          obtain noBase | ⟨refused, _⟩ := unmoved
          · rw [noBase] at counted
            cases counted
          · exact ⟨fun _ => ⟨refused, rfl⟩, fun zero => absurd zero refused⟩
  | @moved _ base counted given forward =>
      have baseInside := inside_seekBase start sizes counted
      unfold SeekRight TargetInside
      rw [counted]
      constructor
      · rintro ⟨reached, _⟩ _ _ _ ⟨rfl⟩
        by_contra outside
        exact position_add_outside baseInside least largest outside reached
      · intro targetInside
        have target : Inside (position base + distance) := by
          by_cases fromStart : method = 0
          · subst fromStart
            obtain rfl := Option.some.inj counted
            have zero : position 0 = 0 := by decide
            have ahead := forward rfl
            unfold Inside
            omega
          · exact targetInside given fromStart base rfl
        have sum := position_add_inside baseInside least largest target
        refine ⟨?_, ?_, ?_⟩
        · rw [sum]
          exact target
        · exact fun outside => absurd target outside
        · exact fun _ => sum

end Seeks

section Sessions

variable {ph : Platform} {s : Session} {cli : Handle}

theorem ensures_ndpFileSetFilePtrL {distance : Int} {method : UInt32}
    (opened : 0 ≤ s.pConn.file.fd) (connected : s.pConn.cli = some cli) :
    pointerWatch.Ensures (fun answer later => answer.2.1.pConn.cli = s.pConn.cli ∧
        Sought s.pConn.file distance method answer.1 answer.2.1.pConn.file later)
      (ndpFileSetFilePtrL s distance method) {} := by
  apply ensures_guarded
  · intro rcLock refused _
    rw [observe_refusedMutex refused]
    exact ⟨rfl, .denied refused rfl⟩
  · intro _
    have isOpen : ¬ s.pConn.file.fd < 0 := by omega
    rw [observe_requestMutex, seekOpen, if_neg isOpen, connected, Watch.ensures_bind]
    apply ensures_smbwrpLseek.mono
    intro answer later sought _
    rw [observe_releaseMutex]
    exact ⟨connected, sought⟩

theorem ensures_ndpFileSetFilePtr {distance : Int} {method : UInt32}
    (opened : 0 ≤ s.pConn.file.fd) (connected : s.pConn.cli = some cli) :
    pointerWatch.Ensures (fun answer later => answer.2.1.pConn.cli = s.pConn.cli ∧
        Sought s.pConn.file distance method answer.1 answer.2.1.pConn.file later)
      (ndpFileSetFilePtr s distance method) {} := by
  refine Watch.ensures_perform_bind.mpr fun unset _ => ?_
  rw [observe_uninitializedLong, Watch.ensures_bind]
  exact ensures_ndpFileSetFilePtrL opened connected

theorem Transferred.refl {file : SmbwrpFile} : Transferred file file { denied := true } where
  sameFd := rfl
  advanced := by simp

theorem ensures_ndpFileRead {hasBuffer : Bool} {ulRead : UInt32}
    (connected : s.pConn.cli = some cli) :
    pointerWatch.Ensures (fun answer later => answer.2.1.pConn.cli = s.pConn.cli ∧
        Transferred s.pConn.file answer.2.1.pConn.file later)
      (ndpFileRead s hasBuffer ulRead) {} := by
  apply ensures_guarded
  · intro rcLock refused _
    rw [observe_refusedMutex refused]
    exact ⟨rfl, .refl⟩
  · intro _
    rw [observe_requestMutex, readOpen, connected, Watch.ensures_bind]
    apply ensures_smbwrpRead.mono
    rintro ⟨rc, file, data⟩ later transferred
    cases data with
    | none =>
        intro unset _ _
        rw [observe_uninitializedLong, observe_releaseMutex]
        exact ⟨connected, transferred⟩
    | some data =>
        intro _
        rw [observe_releaseMutex]
        exact ⟨connected, transferred⟩

theorem ensures_ndpFileWrite {pBuffer : Option (List UInt8)}
    (opened : 0 ≤ s.pConn.file.fd) (connected : s.pConn.cli = some cli) :
    pointerWatch.Ensures (fun answer later => answer.2.1.pConn.cli = s.pConn.cli ∧
        Transferred s.pConn.file answer.2.1.pConn.file later)
      (ndpFileWrite ph s pBuffer) {} := by
  apply ensures_guarded
  · intro rcLock refused _
    rw [observe_refusedMutex refused]
    exact ⟨rfl, .refl⟩
  · intro _
    have isOpen : ¬ (s.invalidateParent ph s.pConn.file.fullname).pConn.file.fd < 0 := by
      have same : (s.invalidateParent ph s.pConn.file.fullname).pConn = s.pConn := rfl
      rw [same]
      omega
    have reached : (s.invalidateParent ph s.pConn.file.fullname).pConn.cli = some cli := connected
    rw [observe_requestMutex, writeOpen, if_neg isOpen, reached, Watch.ensures_bind]
    apply ensures_smbwrpWrite.mono
    intro answer later transferred _
    rw [observe_releaseMutex]
    exact ⟨rfl, transferred⟩

def seekOf : SessionCall → Option (Int × UInt32)
  | .fileSetFilePtrL llOffset ulMethod => some (llOffset, ulMethod)
  | .fileSetFilePtr lOffset ulMethod => some (lOffset, ulMethod)
  | _ => none

def PointerCall : SessionCall → Prop
  | .fileSetFilePtrL llOffset _ => -2 ^ 63 ≤ llOffset ∧ llOffset < 2 ^ 63
  | .fileSetFilePtr lOffset _ => -2 ^ 31 ≤ lOffset ∧ lOffset < 2 ^ 31
  | .fileRead .. | .fileWrite _ => True
  | _ => False

theorem seekOf_bounds {call : SessionCall} {distance : Int} {method : UInt32}
    (moves : PointerCall call) (seek : seekOf call = some (distance, method)) :
    -2 ^ 63 ≤ distance ∧ distance < 2 ^ 63 := by
  unfold seekOf at seek
  split at seek
  · obtain ⟨rfl, rfl⟩ := Prod.mk.inj (Option.some.inj seek)
    exact moves
  · obtain ⟨rfl, rfl⟩ := Prod.mk.inj (Option.some.inj seek)
    unfold PointerCall at moves
    omega
  · cases seek

def Pointed (file : SmbwrpFile) (call : SessionCall) (rc : Int) (later : SmbwrpFile)
    (seen : PointerSeen) : Prop :=
  match seekOf call with
  | some (distance, method) => Sought file distance method rc later seen
  | none => Transferred file later seen

theorem ensures_pointerCall {call : SessionCall} (moves : PointerCall call)
    (opened : 0 ≤ s.pConn.file.fd) (connected : s.pConn.cli = some cli) :
    pointerWatch.Ensures (fun answer later => answer.2.pConn.cli = s.pConn.cli ∧
        Pointed s.pConn.file call answer.1 answer.2.pConn.file later)
      (call.run ph s) {} := by
  cases call
  case fileSetFilePtrL distance method =>
    exact Watch.ensures_bind.mpr (ensures_ndpFileSetFilePtrL opened connected)
  case fileSetFilePtr distance method =>
    exact Watch.ensures_bind.mpr (ensures_ndpFileSetFilePtr opened connected)
  case fileRead hasBuffer ulRead =>
    exact Watch.ensures_bind.mpr (ensures_ndpFileRead connected)
  case fileWrite pBuffer =>
    exact Watch.ensures_bind.mpr (ensures_ndpFileWrite opened connected)
  all_goals exact absurd moves id

theorem Pointed.sameFd {file later : SmbwrpFile} {call : SessionCall} {rc : Int}
    {seen : PointerSeen} (pointed : Pointed file call rc later seen) : later.fd = file.fd := by
  unfold Pointed at pointed
  split at pointed
  · cases pointed with
    | kept => rfl
    | moved => rfl
  · exact pointed.sameFd

end Sessions

/-! Sequences of calls on an open file. -/

structure PointerStep where
  before : Session
  call : SessionCall
  exchanged : List CallEvent
  rc : Int
  after : Session

def PointerStep.seen (step : PointerStep) : PointerSeen :=
  pointerWatch.after {} step.exchanged

/-- A sequence of seeks, reads and writes, while others may change the Resource. The sizes that
the server tells and the bytes it moves stay in the range of a file. -/
inductive Moves (ph : Platform) : Session → List PointerStep → Prop
  | done {s} : Moves ph s []
  | called {s call exchanged rc t steps} (pRes : Resource) : PointerCall call →
      Run (call.run ph s) exchanged (some (rc, t)) → pointerWatch.Admits {} exchanged →
      Inside (position s.pConn.file.offset + (pointerWatch.after {} exchanged).moved) →
      Moves ph { t with pRes } steps → Moves ph s (⟨s, call, exchanged, rc, t⟩ :: steps)

/-- The pointer is not negative behind the step, and a seek is right. -/
def PointerStep.Right (step : PointerStep) : Prop :=
  Inside (position step.after.pConn.file.offset) ∧
  ∀ distance method, seekOf step.call = some (distance, method) →
    SeekRight step.before.pConn.file distance method step.rc step.after.pConn.file step.seen

def PointerStep.StaysInside (step : PointerStep) : Prop :=
  ∀ distance method, seekOf step.call = some (distance, method) →
    TargetInside step.before.pConn.file distance method step.seen

section Sequences

variable {ph : Platform} {s t : Session} {steps : List PointerStep} {call : SessionCall}
  {exchanged : List CallEvent} {rc : Int} {seen : PointerSeen} {cli : Handle}

theorem sizes_after (admitted : pointerWatch.Admits seen exchanged)
    (sizes : ∀ size ∈ seen.size, size.toNat < 9223372036854775808) :
    ∀ size ∈ (pointerWatch.after seen exchanged).size, size.toNat < 9223372036854775808 := by
  induction exchanged generalizing seen with
  | nil => exact sizes
  | cons event rest ih =>
      apply ih admitted.2
      intro size told
      cases answered : sizeAnswer event with
      | none =>
          apply sizes
          simpa [pointerWatch, answered] using told
      | some answer =>
          apply admitted.1
          simpa [pointerWatch, answered] using told

theorem Transferred.inside {file later : SmbwrpFile} (transferred : Transferred file later seen)
    (start : Inside (position file.offset))
    (fits : Inside (position file.offset + seen.moved)) : Inside (position later.offset) := by
  have small := inside_position_iff.mp start
  rw [position_eq, if_pos small] at fits
  unfold Inside at fits
  rw [inside_position_iff, transferred.advanced, UInt64.toNat_add, UInt64.toNat_ofNat']
  omega

theorem step_right_iff (moves : PointerCall call)
    (run : Run (call.run ph s) exchanged (some (rc, t))) (admitted : pointerWatch.Admits {} exchanged)
    (fits : Inside (position s.pConn.file.offset + (pointerWatch.after {} exchanged).moved))
    (opened : 0 ≤ s.pConn.file.fd) (connected : s.pConn.cli = some cli)
    (start : Inside (position s.pConn.file.offset)) :
    PointerStep.Right ⟨s, call, exchanged, rc, t⟩ ↔
      PointerStep.StaysInside ⟨s, call, exchanged, rc, t⟩ := by
  have pointed := ((ensures_pointerCall moves opened connected).run run admitted).2
  have sizes := sizes_after admitted (by simp)
  unfold PointerStep.Right PointerStep.StaysInside
  unfold Pointed at pointed
  split at pointed
  · rename_i distance method seek
    have bounds := seekOf_bounds moves seek
    have right := pointed.right_iff start sizes bounds.1 bounds.2
    constructor
    · intro holds otherDistance otherMethod sameSeek
      obtain ⟨rfl, rfl⟩ := Prod.mk.inj (Option.some.inj (seek.symm.trans sameSeek))
      exact right.mp ⟨holds.1, holds.2 distance method seek⟩
    · intro targets
      have holds := right.mpr (targets distance method seek)
      refine ⟨holds.1, ?_⟩
      intro otherDistance otherMethod sameSeek
      obtain ⟨rfl, rfl⟩ := Prod.mk.inj (Option.some.inj (seek.symm.trans sameSeek))
      exact holds.2
  · rename_i noSeek
    have inside := pointed.inside start fits
    simp [noSeek, inside]

end Sequences

/-- Over every sequence of calls on an open file the pointer stays in range, and every seek is
right, exactly when no seek from the current position or from the end leaves the range. -/
theorem filePointer_inside_iff {ph : Platform} {s : Session} {cli : Handle}
    {steps : List PointerStep} (opened : 0 ≤ s.pConn.file.fd)
    (connected : s.pConn.cli = some cli) (start : Inside (position s.pConn.file.offset))
    (sequence : Moves ph s steps) :
    (∀ step ∈ steps, step.Right) ↔ ∀ step ∈ steps, step.StaysInside := by
  induction sequence with
  | done => simp
  | @called s call exchanged rc t steps pRes moves run admitted fits rest ih =>
      have right := step_right_iff moves run admitted fits opened connected start
      have kept := (ensures_pointerCall moves opened connected).run run admitted
      have openedLater : 0 ≤ t.pConn.file.fd := by
        rw [kept.2.sameFd]
        exact opened
      simp only [List.forall_mem_cons]
      rw [right]
      constructor
      · rintro ⟨first, others⟩
        exact ⟨first, (ih openedLater (kept.1.trans connected) (right.mpr first).1).mp others⟩
      · rintro ⟨first, others⟩
        exact ⟨first, (ih openedLater (kept.1.trans connected) (right.mpr first).1).mpr others⟩

def pointerStep (s : Session) (call : SessionCall) : PointerStep where
  before := s
  call
  exchanged := (callRun 0 true 5 call s).1
  rc := (callRun 0 true 5 call s).2.elim 0 Prod.fst
  after := leftBy 0 true 5 call s

theorem Moves.executed {s : Session} {call : SessionCall} {steps : List PointerStep}
    (moves : PointerCall call) (finished : (callRun 0 true 5 call s).2.isSome)
    (admitted : pointerWatch.Admits {} (pointerStep s call).exchanged)
    (fits : Inside (position s.pConn.file.offset + (pointerStep s call).seen.moved))
    (rest : Moves asciiPlatform (leftBy 0 true 5 call s) steps) :
    Moves asciiPlatform s (pointerStep s call :: steps) := by
  obtain ⟨⟨rc, t⟩, outcome⟩ := Option.isSome_iff_exists.mp finished
  have left : leftBy 0 true 5 call s = t := by
    rw [leftBy, outcome]
    rfl
  have returned : (callRun 0 true 5 call s).2.elim 0 Prod.fst = rc := by
    rw [outcome]
    rfl
  rw [left] at rest
  unfold pointerStep
  rw [left, returned]
  exact .called t.pRes moves (outcome ▸ run_exec _ _ _) admitted fits rest

def openedSession : Session := leftBy 0 true 5 openF freshSession

def forwardAndBack : List PointerStep := [
  pointerStep openedSession (.fileSetFilePtrL 10 0),
  pointerStep (leftBy 0 true 5 (.fileSetFilePtrL 10 0) openedSession) (.fileSetFilePtr (-4) 1)]

theorem filePointer_inside_iff_back :
    (∀ step ∈ forwardAndBack, step.Right) ↔ ∀ step ∈ forwardAndBack, step.StaysInside := by
  have forward : PointerCall (.fileSetFilePtrL 10 0) := ⟨by omega, by omega⟩
  have back : PointerCall (.fileSetFilePtr (-4) 1) := ⟨by omega, by omega⟩
  have returned := Moves.executed back (s := leftBy 0 true 5 (.fileSetFilePtrL 10 0) openedSession)
    (by decide) (by decide) (by decide) .done
  exact filePointer_inside_iff (by decide) rfl (by decide)
    (Moves.executed forward (s := openedSession) (by decide) (by decide) (by decide) returned)

/-- One byte back from the start succeeds. -/
theorem backFromStart_negative :
    Moves asciiPlatform openedSession [pointerStep openedSession (.fileSetFilePtrL (-1) 1)] ∧
    (pointerStep openedSession (.fileSetFilePtrL (-1) 1)).rc = 0 ∧
    position (leftBy 0 true 5 (.fileSetFilePtrL (-1) 1) openedSession).pConn.file.offset = -1 ∧
    ¬ (pointerStep openedSession (.fileSetFilePtrL (-1) 1)).Right := by
  have back : PointerCall (.fileSetFilePtrL (-1) 1) := ⟨by omega, by omega⟩
  refine ⟨?_, by decide, by decide, ?_⟩
  · exact Moves.executed back (by decide) (by decide) (by decide) .done
  · intro right
    exact absurd right.1 (by decide)

end NdpSmb
