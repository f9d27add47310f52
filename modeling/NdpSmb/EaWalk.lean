import Mathlib.Algebra.GroupWithZero.Nat
import NdpSmb.FileCalls

/-!
Setting extended attributes walks the list that OS/2 passes: which records reach the
server, and which bytes are read meanwhile.
-/

namespace NdpSmb

open ByteString Interaction

structure FeaRecord where
  fEA : UInt8
  name : CString
  value : List UInt8
  nameFits : name.length ≤ 255
  nameClean : 0 ∉ name
  valueFits : value.length ≤ 65535

namespace FeaRecord

def header (record : FeaRecord) : List UInt8 :=
  record.fEA :: (encodeLittle 1 record.name.length ++ encodeLittle 2 record.value.length)

def encode (record : FeaRecord) : List UInt8 :=
  record.header ++ (record.name ++ 0 :: record.value)

def size (record : FeaRecord) : Nat := 4 + record.name.length + 1 + record.value.length

/-- The value as it is passed to the server; an empty one is NULL. -/
def passed (record : FeaRecord) : Option (List UInt8) :=
  if record.value.length = 0 then none else some record.value

theorem length_header (record : FeaRecord) : record.header.length = 4 := rfl

theorem length_encode (record : FeaRecord) : record.encode.length = record.size := by
  simp [encode, header, encodeLittle, size]
  omega

end FeaRecord

theorem FeaRecord.size_pos (record : FeaRecord) : 0 < record.size := by
  simp only [size]
  omega

def recordsSize (records : List FeaRecord) : Nat := (records.map FeaRecord.size).sum

def cbListOf (records : List FeaRecord) : Nat := 4 + recordsSize records

/-- The list in memory, and whatever lies behind it. -/
def feaListOf (records : List FeaRecord) (behind : List UInt8) : List UInt8 :=
  encodeLittle 4 (cbListOf records) ++ (records.flatMap FeaRecord.encode ++ behind)

theorem length_flatMap_encode (records : List FeaRecord) :
    (records.flatMap FeaRecord.encode).length = recordsSize records := by
  induction records with
  | nil => rfl
  | cons record rest ih => simp [recordsSize, FeaRecord.length_encode]

theorem littleEndian_encodeLittle (width value : Nat) (fits : value < 256 ^ width) :
    littleEndian (encodeLittle width value) = value := by
  induction width generalizing value with
  | zero =>
      rw [Nat.pow_zero] at fits
      simp only [encodeLittle, littleEndian]
      omega
  | succ width ih =>
      have inner := ih (value / 256) (by rw [Nat.pow_succ] at fits; omega)
      simp only [encodeLittle, littleEndian, inner, UInt8.toNat_ofNat']
      omega

theorem length_encodeLittle (width value : Nat) : (encodeLittle width value).length = width := by
  induction width generalizing value with
  | zero => rfl
  | succ width ih => simp [encodeLittle, ih]

/-! What is seen of a run: the requests with their results, and the furthest byte read. -/

inductive EaTarget
  | path (fname : CString)
  | file (fd : Int)
  deriving DecidableEq

structure EaRequest where
  target : EaTarget
  name : CString
  value : Option (List UInt8)
  size : UInt16
  deriving DecidableEq

def FeaRecord.request (target : EaTarget) (record : FeaRecord) : EaRequest :=
  { target, name := record.name, value := record.passed, size := UInt16.ofNat record.value.length }

/-- A refused request gets its result with the errno that follows. -/
structure EaLog where
  requests : List EaRequest := []
  results : List Int := []
  refused : Bool := false
  deriving DecidableEq

def EaLog.asked (log : EaLog) (request : EaRequest) (ok : Bool) : EaLog :=
  { requests := log.requests ++ [request], refused := !ok
    results := if ok then log.results ++ [0] else log.results }

def EaLog.told (log : EaLog) (errno : Int) : EaLog :=
  if log.refused then { log with results := log.results ++ [maperror errno], refused := false }
  else log

structure EaSeen where
  log : EaLog := {}
  furthest : Nat := 0

inductive EaAction
  | read (limit : Nat)
  | asked (request : EaRequest) (ok : Bool)
  | told (errno : Int)
  | other

def eaAction : CallEvent → EaAction
  | ⟨.load .feaList offset count, _⟩ => .read (offset + count)
  | ⟨.request _ (.cliSetEaPath fname name value size), ok⟩ => .asked ⟨.path fname, name, value, size⟩ ok
  | ⟨.request _ (.cliSetEaFnum fd name value size), ok⟩ => .asked ⟨.file fd, name, value, size⟩ ok
  | ⟨.request _ .cliErrno, errno⟩ => .told errno
  | _ => .other

def EaSeen.observe (seen : EaSeen) (event : CallEvent) : EaSeen :=
  match eaAction event with
  | .read limit => { seen with furthest := max seen.furthest limit }
  | .asked request ok => { seen with log := seen.log.asked request ok }
  | .told errno => { seen with log := seen.log.told errno }
  | .other => seen

/-- The mutex requests succeed; a run may only break off when `spoilt`. -/
def eaWatch (spoilt : EaSeen → Prop) : Watch Op EaSeen where
  observe := EaSeen.observe
  admits _ event := Granted event
  crash := spoilt

/-- What the walk is to do: one request for each record in turn, until one fails or
there are no more, and no byte read from `cbList` on. -/
structure WalksOnce (records : List FeaRecord) (target : EaTarget) (seen : EaSeen)
    (outcome : Option Int) : Prop where
  returns : outcome.isSome
  inOrder : seen.log.requests =
    (records.take seen.log.requests.length).map (FeaRecord.request target)
  answered : seen.log.results.length = seen.log.requests.length
  untilFailure : ∀ rc ∈ seen.log.results.dropLast, rc = 0
  complete : seen.log.requests.length = records.length ∨
    ∃ rc, seen.log.results.getLast? = some rc ∧ rc ≠ 0
  within : seen.furthest ≤ cbListOf records

section Loads

variable {spoilt : EaSeen → Prop} {list before after : List UInt8} {seen : EaSeen}

theorem ensures_loadBytes {data : List UInt8} {offset count : Nat}
    {post : List UInt8 → EaSeen → Prop} (split : list = before ++ (data ++ after))
    (start : offset = before.length) (length : count = data.length)
    (done : post data { seen with furthest := max seen.furthest (offset + count) }) :
    (eaWatch spoilt).Ensures post (loadBytes .feaList list offset count) seen := by
  intro _ _
  have inside : offset + count ≤ list.length := by
    rw [split]
    simp only [List.length_append]
    omega
  rw [if_pos inside]
  have loaded : (list.drop offset).take count = data := by
    rw [split, start, length, List.drop_left, List.take_left]
  rw [loaded]
  exact done

end Loads

structure RecordAt (list : List UInt8) (record : FeaRecord) (pfea : Nat) where
  before : List UInt8
  after : List UInt8
  split : list = before ++ (record.encode ++ after)
  start : pfea = before.length

section Record

variable {spoilt : EaSeen → Prop} {list : List UInt8} {record : FeaRecord} {pfea : Nat}
  (place : RecordAt list record pfea)

include place

theorem ensures_loadCbName {seen : EaSeen} {post : Nat → EaSeen → Prop}
    (done : ∀ far ≤ max seen.furthest (pfea + record.size),
      post record.name.length { seen with furthest := far }) :
    (eaWatch spoilt).Ensures post (loadCbName .feaList list pfea) seen := by
  have split : list = (place.before ++ [record.fEA]) ++ (encodeLittle 1 record.name.length ++
      (encodeLittle 2 record.value.length ++ (record.name ++ 0 :: record.value) ++
        place.after)) := by
    refine place.split.trans ?_
    simp [FeaRecord.encode, FeaRecord.header]
  refine Watch.ensures_bind.mpr (ensures_loadBytes split (by simp [place.start])
    (length_encodeLittle 1 _).symm ?_)
  have fits := record.nameFits
  rw [Watch.ensures_pure, littleEndian_encodeLittle 1 _ (by omega)]
  refine done _ ?_
  have size : record.size = 4 + record.name.length + 1 + record.value.length := rfl
  omega

theorem ensures_loadCbValue {seen : EaSeen} {post : Nat → EaSeen → Prop}
    (done : ∀ far ≤ max seen.furthest (pfea + record.size),
      post record.value.length { seen with furthest := far }) :
    (eaWatch spoilt).Ensures post (loadCbValue .feaList list pfea) seen := by
  have split : list = (place.before ++ record.fEA :: encodeLittle 1 record.name.length) ++
      (encodeLittle 2 record.value.length ++ ((record.name ++ 0 :: record.value) ++
        place.after)) := by
    refine place.split.trans ?_
    simp [FeaRecord.encode, FeaRecord.header]
  refine Watch.ensures_bind.mpr (ensures_loadBytes split
    (by simp [place.start, length_encodeLittle]) (length_encodeLittle 2 _).symm ?_)
  have fits := record.valueFits
  rw [Watch.ensures_pure, littleEndian_encodeLittle 2 _ (by omega)]
  refine done _ ?_
  have size : record.size = 4 + record.name.length + 1 + record.value.length := rfl
  omega

theorem ensures_loadName {seen : EaSeen} {post : CString → EaSeen → Prop}
    (done : ∀ far ≤ max seen.furthest (pfea + record.size),
      post record.name { seen with furthest := far }) :
    (eaWatch spoilt).Ensures post (loadString .feaList list (pfea + sizeofFea)) seen := by
  have split : list = (place.before ++ record.header) ++
      ((record.name ++ [0]) ++ (record.value ++ place.after)) := by
    refine place.split.trans ?_
    simp [FeaRecord.encode]
  have start : pfea + sizeofFea = (place.before ++ record.header).length := by
    simp [place.start, FeaRecord.length_header, sizeofFea]
  have text : beforeFirst 0 (list.drop (pfea + sizeofFea)) = record.name := by
    rw [split, start, List.drop_left]
    simp only [List.append_assoc, List.singleton_append]
    exact beforeFirst_append_separator 0 record.nameClean
  rw [loadString, text]
  refine Watch.ensures_bind.mpr (ensures_loadBytes split start (by simp) ?_)
  rw [Watch.ensures_pure]
  refine done _ ?_
  have size : record.size = 4 + record.name.length + 1 + record.value.length := rfl
  simp only [sizeofFea]
  omega

theorem ensures_loadValue {seen : EaSeen} {post : List UInt8 → EaSeen → Prop}
    (done : ∀ far ≤ max seen.furthest (pfea + record.size),
      post record.value { seen with furthest := far }) :
    (eaWatch spoilt).Ensures post
      (loadBytes .feaList list (pfea + sizeofFea + record.name.length + 1) record.value.length)
      seen := by
  have split : list = (place.before ++ (record.header ++ (record.name ++ [0]))) ++
      (record.value ++ place.after) := by
    refine place.split.trans ?_
    simp [FeaRecord.encode]
  refine ensures_loadBytes split ?_ rfl (done _ ?_)
  · simp [place.start, FeaRecord.length_header, sizeofFea]
    omega
  · have size : record.size = 4 + record.name.length + 1 + record.value.length := rfl
    simp only [sizeofFea]
    omega

theorem ensures_loadFea {seen : EaSeen}
    {post : CString × Option (List UInt8) × Nat → EaSeen → Prop}
    (done : ∀ far ≤ max seen.furthest (pfea + record.size),
      post (record.name, record.passed, record.value.length) { seen with furthest := far }) :
    (eaWatch spoilt).Ensures post (loadFea .feaList list pfea) seen := by
  refine Watch.ensures_bind.mpr (ensures_loadCbValue place fun near nearBound => ?_)
  by_cases empty : record.value.length = 0
  · rw [if_pos empty]
    refine Watch.ensures_bind.mpr (ensures_loadName place fun far farBound => ?_)
    have passed : record.passed = none := if_pos empty
    rw [← passed]
    exact done far (by simp only at farBound; omega)
  · rw [if_neg empty]
    refine Watch.ensures_bind.mpr (ensures_loadCbName place fun named namedBound => ?_)
    refine Watch.ensures_bind.mpr (ensures_loadName place fun read readBound => ?_)
    refine Watch.ensures_bind.mpr (ensures_loadValue place fun far farBound => ?_)
    have passed : record.passed = some record.value := if_neg empty
    rw [← passed]
    exact done far (by simp only at namedBound readBound farBound; omega)

theorem ensures_loadDataSize {seen : EaSeen} {post : Nat → EaSeen → Prop}
    (done : ∀ far ≤ max seen.furthest (pfea + record.size),
      post (record.name.length + 1 + record.value.length) { seen with furthest := far }) :
    (eaWatch spoilt).Ensures post (loadDataSize .feaList list pfea) seen := by
  refine Watch.ensures_bind.mpr (ensures_loadCbName place fun near nearBound => ?_)
  refine Watch.ensures_bind.mpr (ensures_loadCbValue place fun far farBound => ?_)
  exact done far (by simp only at farBound; omega)

end Record

/-! Reading on cannot be undone. -/

theorem EaSeen.furthest_le_observe (seen : EaSeen) (event : CallEvent) :
    seen.furthest ≤ (seen.observe event).furthest := by
  unfold EaSeen.observe
  split
  · exact le_max_left _ _
  all_goals exact le_refl _

theorem EaSeen.results_observe (seen : EaSeen) (event : CallEvent) :
    ∃ more, (seen.observe event).log.results = seen.log.results ++ more := by
  have asked (request : EaRequest) (ok : Bool) :
      ∃ more, (seen.log.asked request ok).results = seen.log.results ++ more := by
    cases ok
    · exact ⟨[], (List.append_nil _).symm⟩
    · exact ⟨[0], rfl⟩
  unfold EaSeen.observe
  split
  · exact ⟨[], (List.append_nil _).symm⟩
  · exact asked _ _
  · unfold EaLog.told
    split
    · exact ⟨[_], rfl⟩
    · exact ⟨[], (List.append_nil _).symm⟩
  · exact ⟨[], (List.append_nil _).symm⟩

/-- Every record has been set, and a byte behind the list has been read. -/
structure Overrun (records : List FeaRecord) (seen : EaSeen) : Prop where
  beyond : cbListOf records < seen.furthest
  enough : records.length ≤ seen.log.results.length
  accepted : ∀ rc ∈ seen.log.results.take records.length, rc = 0

theorem Overrun.observe {records : List FeaRecord} {seen : EaSeen} (overran : Overrun records seen)
    (event : CallEvent) : Overrun records (seen.observe event) := by
  obtain ⟨more, results⟩ := seen.results_observe event
  refine ⟨overran.beyond.trans_le (seen.furthest_le_observe event), ?_, ?_⟩
  · rw [results, List.length_append]
    exact overran.enough.trans (Nat.le_add_right _ _)
  · rw [results, List.take_append_of_le_length overran.enough]
    exact overran.accepted

/-- The walk was as it should be, and a record was refused. -/
structure Stopped (records : List FeaRecord) (target : EaTarget) (seen : EaSeen) (rc : Int) :
    Prop where
  walked : WalksOnce records target seen (some rc)
  failed : ∃ rc ∈ seen.log.results.take records.length, rc ≠ 0

def EaLog.done (log : EaLog) (request : EaRequest) (rc : Int) : EaLog :=
  { requests := log.requests ++ [request], results := log.results ++ [rc], refused := false }

/-- A wrapper that sets one attribute: one request, and a result that may be any. -/
def SetsEa (target : EaTarget)
    (setea : CString → Option (List UInt8) → UInt16 → Program Int) : Prop :=
  ∀ (spoilt : EaSeen → Prop) (seen : EaSeen) (name : CString) (value : Option (List UInt8))
    (size : UInt16) (post : Int → EaSeen → Prop), seen.log.refused = false →
    (∀ rc, post rc { seen with log := seen.log.done ⟨target, name, value, size⟩ rc }) →
    (eaWatch spoilt).Ensures post (setea name value size) seen

theorem setsEa_smbwrpSetea (cli : Handle) (path : CString) :
    SetsEa (.path path) (smbwrpSetea (some cli) path) := by
  intro spoilt seen name value size post _ done ok _
  cases ok with
  | true => exact done 0
  | false => exact fun errno _ => done (maperror errno)

theorem setsEa_smbwrpFsetea (cli : Handle) (file : SmbwrpFile) :
    SetsEa (.file file.fd) (smbwrpFsetea (some cli) file) := by
  intro spoilt seen name value size post _ done ok _
  cases ok with
  | true => exact done 0
  | false => exact fun errno _ => done (maperror errno)

section Walk

variable {records : List FeaRecord} {behind : List UInt8} {target : EaTarget}
  {setea : CString → Option (List UInt8) → UInt16 → Program Int}

/-- Between two records: those before it have been set, and nothing was read behind the list. -/
structure Walking (records past : List FeaRecord) (target : EaTarget) (seen : EaSeen) : Prop where
  log : seen.log = { requests := past.map (FeaRecord.request target)
                     results := List.replicate past.length 0 }
  within : seen.furthest ≤ cbListOf records

theorem ensures_loadCbList {spoilt : EaSeen → Prop} {seen : EaSeen} {post : Nat → EaSeen → Prop}
    (fits : cbListOf records < 2 ^ 32)
    (done : ∀ far ≤ max seen.furthest (cbListOf records),
      post (cbListOf records) { seen with furthest := far }) :
    (eaWatch spoilt).Ensures post (loadLong .feaList (feaListOf records behind) 0) seen := by
  have whole : feaListOf records behind = [] ++ (encodeLittle 4 (cbListOf records) ++ _) := rfl
  refine Watch.ensures_bind.mpr (ensures_loadBytes whole rfl (length_encodeLittle 4 _).symm ?_)
  rw [Watch.ensures_pure, littleEndian_encodeLittle 4 _ (by omega)]
  refine done _ ?_
  have start : cbListOf records = 4 + recordsSize records := rfl
  omega

/-- Where the next record stands. -/
def recordAt {past rest : List FeaRecord} {record : FeaRecord}
    (whole : records = past ++ record :: rest) (behind : List UInt8) :
    RecordAt (feaListOf records behind) record (4 + recordsSize past) where
  before := encodeLittle 4 (cbListOf records) ++ past.flatMap FeaRecord.encode
  after := rest.flatMap FeaRecord.encode ++ behind
  split := by simp [feaListOf, whole]
  start := by rw [List.length_append, length_encodeLittle, length_flatMap_encode]

theorem stopped_of_refused {past rest : List FeaRecord} {record : FeaRecord} {rc : Int}
    (seen : EaSeen) (far : Nat) (whole : records = past ++ record :: rest)
    (walking : Walking records past target seen) (within : far ≤ cbListOf records)
    (failed : rc ≠ 0) :
    Stopped records target
      { log := seen.log.done (record.request target) rc, furthest := far } rc := by
  have log : seen.log.done (record.request target) rc =
      { requests := (past ++ [record]).map (FeaRecord.request target)
        results := List.replicate past.length 0 ++ [rc] } := by
    rw [walking.log]
    simp [EaLog.done]
  have prefixed : records.take (past.length + 1) = past ++ [record] := by
    rw [whole, List.take_length_add_append]
    rfl
  rw [log]
  refine ⟨⟨rfl, ?_, ?_, ?_, .inr ⟨rc, by simp, failed⟩, within⟩, rc, ?_, failed⟩
  · simp [prefixed]
  · simp
  · intro result member
    rw [List.dropLast_concat] at member
    exact List.eq_of_mem_replicate member
  · have enough : past.length + 1 ≤ records.length := by
      rw [whole]
      simp
    rw [List.take_of_length_le (by simpa using enough)]
    simp

theorem overrun_of_walking {seen : EaSeen} (walking : Walking records records target seen)
    {buffer : Nat} (beyond : cbListOf records < buffer) :
    Overrun records { seen with furthest := max seen.furthest buffer } := by
  refine ⟨beyond.trans_le (le_max_right _ _), ?_, ?_⟩
  · simp [walking.log]
  · simp [walking.log]

theorem recordsSize_append (first second : List FeaRecord) :
    recordsSize (first ++ second) = recordsSize first + recordsSize second := by
  simp [recordsSize]

theorem recordsSize_cons (record : FeaRecord) (rest : List FeaRecord) :
    recordsSize (record :: rest) = record.size + recordsSize rest := by
  simp [recordsSize]

theorem ensures_easetLoop_pass {past rest : List FeaRecord} {record : FeaRecord}
    {fuel done : Nat} {seen : EaSeen} {spoilt : EaSeen → Prop} {post : Int → EaSeen → Prop}
    (answers : SetsEa target setea) (fits : cbListOf records < 2 ^ 32)
    (whole : records = past ++ record :: rest) (running : done < cbListOf records)
    (walking : Walking records past target seen)
    (stop : ∀ rc later, Stopped records target later rc → post rc later)
    (next : ∀ later, Walking records (past ++ [record]) target later →
      (eaWatch spoilt).Ensures post
        (loadDataSize .feaList (feaListOf records behind) (4 + recordsSize (past ++ [record])) >>=
          fun counted => easetLoop (feaListOf records behind) setea fuel
            (4 + recordsSize (past ++ [record])) (addLong done (sizeofFea + counted))) later) :
    (eaWatch spoilt).Ensures post
      (easetLoop (feaListOf records behind) setea (fuel + 1) (4 + recordsSize past) done) seen := by
  have inside : 4 + recordsSize past + record.size ≤ cbListOf records := by
    have size : cbListOf records = 4 + recordsSize records := rfl
    rw [size, whole, recordsSize_append, recordsSize_cons]
    omega
  have place := recordAt whole behind
  refine Watch.ensures_bind.mpr (ensures_loadCbList fits fun near nearBound => ?_)
  rw [if_pos running]
  refine Watch.ensures_bind.mpr (ensures_loadFea place fun far farBound => ?_)
  refine Watch.ensures_bind.mpr (answers _ _ _ _ _ _ (by rw [walking.log]) fun rc => ?_)
  have within := walking.within
  simp only at nearBound farBound
  by_cases failed : rc ≠ 0
  · rw [if_pos failed]
    exact stop rc _ (stopped_of_refused seen far whole walking (by omega) failed)
  · rw [if_neg failed]
    refine Watch.ensures_bind.mpr (ensures_loadDataSize place fun reached passedBound => ?_)
    have moved : 4 + recordsSize past + sizeofFea +
        (record.name.length + 1 + record.value.length) =
        4 + recordsSize (past ++ [record]) := by
      rw [recordsSize_append, recordsSize_cons]
      simp only [FeaRecord.size, sizeofFea, recordsSize, List.map_nil, List.sum_nil]
      omega
    rw [moved]
    refine next _ ⟨?_, ?_⟩
    · simp only [EaLog.done, walking.log, Decidable.not_not.mp failed]
      simp [FeaRecord.request, List.replicate_succ']
    · simp only at passedBound ⊢
      omega

theorem ensures_easetLoop (answers : SetsEa target setea) (fits : cbListOf records < 2 ^ 32)
    (rest : List FeaRecord) : ∀ (past : List FeaRecord) (record first : FeaRecord)
    (fuel done : Nat) (seen : EaSeen),
    records = past ++ record :: rest → first.size ≤ cbListOf records →
    done + first.size = 4 + recordsSize past + record.size → rest.length < fuel →
    Walking records past target seen →
    (eaWatch (Overrun records)).Ensures
      (fun rc later => Stopped records target later rc ∨ Overrun records later)
      (easetLoop (feaListOf records behind) setea fuel (4 + recordsSize past) done) seen := by
  have size : cbListOf records = 4 + recordsSize records := rfl
  induction rest with
  | nil =>
      intro past record first fuel done seen whole firstFits counter enough walking
      obtain ⟨fuel, rfl⟩ : ∃ less, fuel = less + 1 := ⟨fuel - 1, by omega⟩
      have total : recordsSize records = recordsSize past + record.size := by
        rw [whole, recordsSize_append, recordsSize_cons]
        rfl
      have positive := first.size_pos
      refine ensures_easetLoop_pass answers fits whole (by omega) walking
        (fun rc later stopped => .inl stopped) fun later walked => ?_
      rw [← whole] at walked ⊢
      -- the counter is advanced by the header of a record that is not there
      intro _ _
      have overran := overrun_of_walking walked
        (show cbListOf records < 4 + recordsSize records + 1 + 1 by omega)
      exact (Watch.ensures_of_stable (fun _ event held => held.observe event) (fun _ held => held)
        overran).mono fun _ _ held => .inr held
  | cons next rest ih =>
      intro past record first fuel done seen whole firstFits counter enough walking
      obtain ⟨fuel, rfl⟩ : ∃ less, fuel = less + 1 := ⟨fuel - 1, by omega⟩
      have total : recordsSize records =
          recordsSize past + (record.size + (next.size + recordsSize rest)) := by
        rw [whole, recordsSize_append, recordsSize_cons, recordsSize_cons]
      have positive := first.size_pos
      have split : records = (past ++ [record]) ++ next :: rest := by simp [whole]
      refine ensures_easetLoop_pass answers fits whole (by omega) walking
        (fun rc later stopped => .inl stopped) fun later walked => ?_
      have place := recordAt split behind
      refine Watch.ensures_bind.mpr (ensures_loadDataSize place fun far farBound => ?_)
      have within := walked.within
      have past' : recordsSize (past ++ [record]) = recordsSize past + record.size := by
        rw [recordsSize_append, recordsSize_cons]
        rfl
      have counted : sizeofFea + (next.name.length + 1 + next.value.length) = next.size := by
        simp [FeaRecord.size, sizeofFea]
        omega
      have sum : addLong done next.size = done + next.size := Nat.mod_eq_of_lt (by omega)
      rw [counted, sum]
      refine ih (past ++ [record]) next first fuel _ _ split firstFits (by omega)
        (by simpa using enough) ⟨walked.log, ?_⟩
      simp only
      omega

theorem length_le_recordsSize (records : List FeaRecord) :
    records.length ≤ recordsSize records := by
  induction records with
  | nil => exact le_refl _
  | cons record rest ih =>
      have positive := record.size_pos
      rw [recordsSize_cons, List.length_cons]
      omega

theorem ensures_easetRecords (answers : SetsEa target setea) (fits : cbListOf records < 2 ^ 32)
    (present : records ≠ []) {seen : EaSeen} (walking : Walking records [] target seen) :
    (eaWatch (Overrun records)).Ensures
      (fun rc later => Stopped records target later rc ∨ Overrun records later)
      (easetRecords (feaListOf records behind) setea) seen := by
  obtain ⟨record, rest, rfl⟩ := List.exists_cons_of_ne_nil present
  have long : rest.length < (feaListOf (record :: rest) behind).length + 1 := by
    have count := length_le_recordsSize (record :: rest)
    simp only [feaListOf, List.length_append, length_flatMap_encode, List.length_cons] at count ⊢
    omega
  refine ensures_easetLoop answers fits rest [] record record _ _ seen rfl ?_ rfl long walking
  have size : cbListOf (record :: rest) = 4 + recordsSize (record :: rest) := rfl
  rw [size, recordsSize_cons]
  omega

theorem ensures_guarded_walk {program : Program Int} {seen : EaSeen}
    (walk : (eaWatch (Overrun records)).Ensures
      (fun rc later => Stopped records target later rc ∨ Overrun records later) program seen) :
    (eaWatch (Overrun records)).Ensures
      (fun rc later => Stopped records target later rc ∨ Overrun records later)
      (guarded id program) seen := by
  refine ensures_guarded (fun rcLock failed granted => ?_) fun _ => ?_
  · exact absurd (granted_requestMutex.mp granted) failed
  · exact walk.mono fun _ _ ended _ => ended

theorem cbListOf_gt (present : records ≠ []) : sizeofLong < cbListOf records := by
  obtain ⟨record, rest, rfl⟩ := List.exists_cons_of_ne_nil present
  have positive := record.size_pos
  simp only [cbListOf, recordsSize_cons, sizeofLong]
  omega

theorem walking_start {far : Nat} (bound : far ≤ max 0 (cbListOf records)) :
    Walking records [] target { furthest := far } :=
  ⟨rfl, by simpa using bound⟩

theorem ensures_helperEASet (fits : cbListOf records < 2 ^ 32) (present : records ≠ [])
    (cli : Handle) (path : CString) :
    (eaWatch (Overrun records)).Ensures
      (fun rc later => Stopped records (.path path) later rc ∨ Overrun records later)
      (helperEASet (some cli) (some (feaListOf records behind)) path) {} := by
  refine Watch.ensures_bind.mpr (ensures_loadCbList fits fun far bound => ?_)
  rw [if_neg (not_le.mpr (cbListOf_gt present))]
  exact ensures_guarded_walk (ensures_easetRecords (setsEa_smbwrpSetea cli path) fits present
    (walking_start bound))

theorem ensures_ndpFileEASet (fits : cbListOf records < 2 ^ 32) (present : records ≠ [])
    {s : Session} {cli : Handle} (connected : s.pConn.cli = some cli)
    (isOpen : 0 ≤ s.pConn.file.fd) (supported : s.pRes.easupport ≠ 0) :
    (eaWatch (Overrun records)).Ensures
      (fun rc later => Stopped records (.file s.pConn.file.fd) later rc ∨ Overrun records later)
      (ndpFileEASet s (some (feaListOf records behind))) {} := by
  refine Watch.ensures_bind.mpr (ensures_loadCbList fits fun far bound => ?_)
  rw [if_neg (not_le.mpr (cbListOf_gt present)), if_neg supported]
  refine ensures_guarded_walk ?_
  rw [setOpenEas, if_neg (not_lt.mpr isOpen), connected]
  exact ensures_easetRecords (setsEa_smbwrpFsetea cli _) fits present (walking_start bound)

end Walk

def seenOf (trace : List CallEvent) : EaSeen := trace.foldl EaSeen.observe {}

/-- One of the calls for the records of the list has failed. -/
def Refused (records : List FeaRecord) (trace : List CallEvent) : Prop :=
  ∃ rc ∈ (seenOf trace).log.results.take records.length, rc ≠ 0

theorem walksOnce_iff_refused {records : List FeaRecord} {target : EaTarget}
    {program : Program Int}
    (walk : (eaWatch (Overrun records)).Ensures
      (fun rc later => Stopped records target later rc ∨ Overrun records later) program {})
    {trace : List CallEvent} {outcome : Option Int} (run : Run program trace outcome)
    (granted : MutexGranted trace) :
    WalksOnce records target (seenOf trace) outcome ↔ Refused records trace := by
  have concluded := Watch.ensures_iff_runs.mp walk trace outcome run
    (Watch.admits_of_forall _ fun event member _ => granted event member)
  have ended : (∃ rc, outcome = some rc ∧ Stopped records target (seenOf trace) rc) ∨
      Overrun records (seenOf trace) := by
    cases outcome with
    | none => exact .inr concluded
    | some rc => exact concluded.imp_left fun stopped => ⟨rc, rfl, stopped⟩
  rcases ended with ⟨rc, rfl, stopped⟩ | overran
  · exact ⟨fun _ => stopped.failed, fun _ => stopped.walked⟩
  · constructor
    · intro walked
      exact absurd walked.within (not_le.mpr overran.beyond)
    · rintro ⟨rc, member, failed⟩
      exact absurd (overran.accepted rc member) failed

/-- The walk over a list is as it should be exactly when the server refuses one of its
records: the counter is advanced by the size of the record behind the one that was set,
and behind the last one there is none. -/
theorem eaSet_walksOnce_iff (records : List FeaRecord) (present : records ≠ [])
    (fits : cbListOf records < 2 ^ 32) (behind : List UInt8) :
    (∀ cli path trace outcome,
      Run (helperEASet (some cli) (some (feaListOf records behind)) path) trace outcome →
      MutexGranted trace →
      (WalksOnce records (.path path) (seenOf trace) outcome ↔ Refused records trace)) ∧
    (∀ (s : Session) cli, s.pConn.cli = some cli → 0 ≤ s.pConn.file.fd → s.pRes.easupport ≠ 0 →
      ∀ trace outcome, Run (ndpFileEASet s (some (feaListOf records behind))) trace outcome →
      MutexGranted trace →
      (WalksOnce records (.file s.pConn.file.fd) (seenOf trace) outcome ↔
        Refused records trace)) := by
  constructor
  · intro cli path trace outcome run granted
    exact walksOnce_iff_refused (ensures_helperEASet fits present cli path) run granted
  · intro s cli connected isOpen supported trace outcome run granted
    exact walksOnce_iff_refused (ensures_ndpFileEASet fits present connected isOpen supported)
      run granted

theorem oneByte_fits : [(49 : UInt8)].length ≤ 65535 := by decide

def oneRecord : FeaRecord :=
  { fEA := 0, name := bytes "A", value := [49]
    nameFits := by decide, nameClean := by decide, valueFits := oneByte_fits }

def oneRecordList : List UInt8 := feaListOf [oneRecord] (List.replicate 8 0)

def oneRecordRun : List CallEvent × Option Int :=
  exec (fun _ _ op => op.usual) 0 (helperEASet (some 1) (some oneRecordList) (bytes "\\F"))

def openSession : Session :=
  { pRes := { easupport := 1 }, pConn := { cli := some 1, file := { fd := 7 } } }

def openRecordRun : List CallEvent × Option Int :=
  exec (fun _ _ op => op.usual) 0 (ndpFileEASet openSession (some oneRecordList))

theorem eaSet_walksOnce_iff_one :
    (WalksOnce [oneRecord] (.path (bytes "\\F")) (seenOf oneRecordRun.1) oneRecordRun.2 ↔
      Refused [oneRecord] oneRecordRun.1) ∧
    (WalksOnce [oneRecord] (.file 7) (seenOf openRecordRun.1) openRecordRun.2 ↔
      Refused [oneRecord] openRecordRun.1) :=
  ⟨(eaSet_walksOnce_iff [oneRecord] (by decide) (by decide) (List.replicate 8 0)).1 1 _ _ _
      (run_exec _ _ _) (by decide),
    (eaSet_walksOnce_iff [oneRecord] (by decide) (by decide) (List.replicate 8 0)).2 openSession 1
      rfl (by decide) (by decide) _ _ (run_exec _ _ _) (by decide)⟩

/-- With every request accepted, bytes behind the only record are read. -/
theorem eaSet_reads_behind :
    ∃ trace outcome,
      Run (helperEASet (some 1) (some oneRecordList) (bytes "\\F")) trace outcome ∧
      MutexGranted trace ∧
      ¬ WalksOnce [oneRecord] (.path (bytes "\\F")) (seenOf trace) outcome := by
  refine ⟨oneRecordRun.1, oneRecordRun.2, run_exec _ _ _, by decide, fun walked => ?_⟩
  have far : cbListOf [oneRecord] < (seenOf oneRecordRun.1).furthest := by decide
  exact absurd walked.within (not_le.mpr far)

end NdpSmb
