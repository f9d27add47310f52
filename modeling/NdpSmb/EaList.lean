import NdpSmb.Smbwrp

/-!
Extended attributes: the lists that OS/2 passes as packed records, read and written
byte by byte, and the functions that walk them.
-/

namespace NdpSmb

open ByteString Interaction

def sizeofLong : Nat := 4
def sizeofFea : Nat := 4

def addLong (left right : Nat) : Nat := (left + right) % 2 ^ 32

def littleEndian : List UInt8 → Nat
  | [] => 0
  | byte :: rest => byte.toNat + 256 * littleEndian rest

def encodeLittle : Nat → Nat → List UInt8
  | 0, _ => []
  | width + 1, value => UInt8.ofNat value :: encodeLittle width (value / 256)

/-! Access to a buffer; outside of it nothing is promised. -/

section Access

variable (buffer : Buffer) (object : List UInt8)

def loadBytes (offset count : Nat) : Program (List UInt8) := do
  perform (Op.load buffer offset count)
  if offset + count ≤ object.length then pure ((object.drop offset).take count) else .fault

def loadByte (offset : Nat) : Program Nat := do
  let bytes ← loadBytes buffer object offset 1
  pure (littleEndian bytes)

def loadShort (offset : Nat) : Program Nat := do
  let bytes ← loadBytes buffer object offset 2
  pure (littleEndian bytes)

def loadLong (offset : Nat) : Program Nat := do
  let bytes ← loadBytes buffer object offset 4
  pure (littleEndian bytes)

def loadString (offset : Nat) : Program CString := do
  let text := beforeFirst 0 (object.drop offset)
  let _ ← loadBytes buffer object offset (text.length + 1)
  pure text

def storeBytes (offset : Nat) (data : List UInt8) : Program (List UInt8) := do
  perform (Op.store buffer offset data)
  if offset + data.length ≤ object.length then
    pure (object.take offset ++ data ++ object.drop (offset + data.length))
  else .fault

end Access

/-! Fields of the record at `pfea`, an offset into the list. -/

section Fea

variable (buffer : Buffer) (list : List UInt8) (pfea : Nat)

def loadCbName : Program Nat := loadByte buffer list (pfea + 1)

def loadCbValue : Program Nat := loadShort buffer list (pfea + 2)

/-- `pfea->cbName + 1 + pfea->cbValue`. -/
def loadDataSize : Program Nat := do
  let cbName ← loadCbName buffer list pfea
  let cbValue ← loadCbValue buffer list pfea
  pure (cbName + 1 + cbValue)

/-- Name, value and length of the record, as they are passed to the server. -/
def loadFea : Program (CString × Option (List UInt8) × Nat) := do
  let cbValue ← loadCbValue buffer list pfea
  if cbValue = 0 then do
    let name ← loadString buffer list (pfea + sizeofFea)
    pure (name, none, cbValue)
  else do
    let cbName ← loadCbName buffer list pfea
    let name ← loadString buffer list (pfea + sizeofFea)
    let value ← loadBytes buffer list (pfea + sizeofFea + cbName + 1) cbValue
    pure (name, some value, cbValue)

end Fea

/-- The loop of `helperEASet` and `NdpFileEASet`. The pointer moves before the counter
is advanced. It leaves the list within as many passes as the list has bytes. -/
def easetLoop (pFEAList : List UInt8)
    (setea : CString → Option (List UInt8) → UInt16 → Program Int) :
    Nat → Nat → Nat → Program Int
  | 0, _, _ => .fault
  | fuel + 1, pfea, done => do
      let cbList ← loadLong .feaList pFEAList 0
      if done < cbList then do
        let (name, value, cbValue) ← loadFea .feaList pFEAList pfea
        let rc ← setea name value (UInt16.ofNat cbValue)
        if rc ≠ 0 then pure rc else do
          let passed ← loadDataSize .feaList pFEAList pfea
          let pfea := pfea + sizeofFea + passed
          let counted ← loadDataSize .feaList pFEAList pfea
          easetLoop pFEAList setea fuel pfea (addLong done (sizeofFea + counted))
      else pure 0

def easetRecords (pFEAList : List UInt8)
    (setea : CString → Option (List UInt8) → UInt16 → Program Int) : Program Int :=
  easetLoop pFEAList setea (pFEAList.length + 1) sizeofLong sizeofLong

def sameBytes (count : Nat) (left right : CString) : Bool := left.take count = right.take count

/-- Whether one of the requested names admits the EA; the requests end at `size`. -/
def geaMatches (pGEAList : List UInt8) (name : CString) (size : Nat) :
    Nat → Nat → Nat → Program Bool
  | 0, _, _ => .fault
  | fuel + 1, pgea, done =>
      if done < size then do
        let cbName ← loadByte .geaList pGEAList pgea
        let szName ← loadString .geaList pGEAList (pgea + 1)
        if sameBytes cbName name szName then pure true
        else geaMatches pGEAList name size fuel (pgea + cbName + 2) (addLong done (cbName + 2))
      else pure false

def feaWanted (pGEAList : Option (List UInt8)) (name : CString) : Program Bool :=
  match pGEAList with
  | none => pure true
  | some pGEAList => do
      let cbList ← loadLong .geaList pGEAList 0
      if cbList > sizeofLong then
        geaMatches pGEAList name (cbList - sizeofLong) (pGEAList.length + 1) sizeofLong 0
      else pure true

def copyFea (pFEASrc pFEAList : List UInt8) (pfea pfeadest cbName cbValue : Nat) (name : CString) :
    Program (List UInt8) := do
  let pFEAList ← storeBytes .feaList pFEAList pfeadest
    (0 :: (encodeLittle 1 cbName ++ encodeLittle 2 cbValue))
  let pFEAList ← storeBytes .feaList pFEAList (pfeadest + sizeofFea) (name ++ [0])
  let value ← loadBytes .scratch pFEASrc (pfea + sizeofFea + cbName + 1) cbValue
  storeBytes .feaList pFEAList (pfeadest + sizeofFea + cbName + 1) value

def buildLoop (pFEASrc : List UInt8) (pGEAList : Option (List UInt8)) (size dsize : Nat) :
    Nat → (done ddone pfeadest : Nat) → List UInt8 → Program (Nat × List UInt8)
  | 0, _, _, _, _ => .fault
  | fuel + 1, done, ddone, pfeadest, pFEAList =>
      if done < size then do
        let name ← loadString .scratch pFEASrc (done + sizeofFea)
        let insert ← feaWanted pGEAList name
        let cbName ← loadCbName .scratch pFEASrc done
        let cbValue ← loadCbValue .scratch pFEASrc done
        let next := addLong done (sizeofFea + cbName + 1 + cbValue)
        if insert then do
          let ddone := addLong ddone (sizeofFea + cbName + 1 + cbValue)
          if ddone ≤ dsize then do
            let pFEAList ← copyFea pFEASrc pFEAList done pfeadest cbName cbValue name
            buildLoop pFEASrc pGEAList size dsize fuel next ddone ddone pFEAList
          else buildLoop pFEASrc pGEAList size dsize fuel next ddone pfeadest pFEAList
        else buildLoop pFEASrc pGEAList size dsize fuel next ddone pfeadest pFEAList
      else pure (ddone, pFEAList)

def buildFEALIST (pFEASrc : List UInt8) (pGEAList : Option (List UInt8)) (pFEAList : List UInt8) :
    Program (Int × List UInt8) := do
  let size ← loadLong .scratch pFEASrc 0
  let dsize ← loadLong .feaList pFEAList 0
  let (ddone, pFEAList) ← buildLoop pFEASrc pGEAList size dsize (pFEASrc.length + 1)
    sizeofLong sizeofLong sizeofLong pFEAList
  let pFEAList ← storeBytes .feaList pFEAList 0 (encodeLittle 4 ddone)
  pure (if ddone > dsize ∧ dsize > sizeofLong then errorBufferOverflow else 0, pFEAList)

/-- The records as long as they fit; `gotsize` counts all of them. -/
def writeEas (size : Nat) : List EaStruct → (p gotsize : Nat) → List UInt8 →
    Program (Nat × List UInt8)
  | [], _, gotsize, buffer => pure (gotsize, buffer)
  | ea :: rest, p, gotsize, buffer =>
      if ea.name.length > 0xFF ∨ ea.value.length > 0xFFFF then writeEas size rest p gotsize buffer
      else
        let gotsize := addLong gotsize (sizeofFea + ea.name.length + ea.value.length + 1)
        if size ≥ gotsize then do
          let buffer ← storeBytes .scratch buffer p
            (0 :: (encodeLittle 1 ea.name.length ++ encodeLittle 2 ea.value.length))
          let buffer ← storeBytes .scratch buffer (p + sizeofFea) (ea.name ++ [0])
          let buffer ← storeBytes .scratch buffer (p + sizeofFea + ea.name.length + 1) ea.value
          writeEas size rest (p + sizeofFea + ea.name.length + 1 + ea.value.length) gotsize buffer
        else writeEas size rest p gotsize buffer

def unilistea (cli : Handle) (fname : CString) (buffer : List UInt8) (size : Nat) :
    Program (Int × List UInt8) := do
  let buffer ← storeBytes .scratch buffer 0 (encodeLittle 4 0)
  let eaList ← askServer cli (.cliGetEaListPath fname)
  match eaList with
  | none => do
      let rc ← os2cliErrno cli
      pure (rc, buffer)
  | some eas => do
      let (gotsize, buffer) ← writeEas size eas sizeofLong sizeofLong buffer
      let buffer ← storeBytes .scratch buffer 0 (encodeLittle 4 gotsize)
      pure (0, buffer)

def smbwrpListea (cli : Option Handle) (fname : CString) (buffer : List UInt8) (size : Nat) :
    Program (Int × List UInt8) :=
  match cli with
  | none => pure (maperror einval, buffer)
  | some cli => unilistea cli fname buffer size

def smbwrpFlistea (cli : Option Handle) (file : SmbwrpFile) (buffer : List UInt8) (size : Nat) :
    Program (Int × List UInt8) :=
  smbwrpListea cli file.fname buffer size

/-! What is loaded is what the bytes say. -/

theorem returns_loadBytes {buffer : Buffer} {list : List UInt8} (offset count : Nat) :
    (loadBytes buffer list offset count).Returns fun data =>
      offset + count ≤ list.length ∧ data = (list.drop offset).take count := by
  refine Prog.returns_perform_bind.mpr fun _ => ?_
  split
  · rename_i inside
    exact ⟨inside, rfl⟩
  · trivial

theorem returns_loadNumber {buffer : Buffer} {list : List UInt8} (offset count : Nat) :
    (loadBytes buffer list offset count >>= fun bytes => pure (littleEndian bytes)).Returns
      fun number => number = littleEndian ((list.drop offset).take count) := by
  refine Prog.returns_bind.mpr ((returns_loadBytes offset count).mono ?_)
  rintro data ⟨-, rfl⟩
  rfl

theorem returns_loadString {buffer : Buffer} {list : List UInt8} (offset : Nat) :
    (loadString buffer list offset).Returns fun text =>
      text = beforeFirst 0 (list.drop offset) ∧ offset + (text.length + 1) ≤ list.length := by
  refine Prog.returns_bind.mpr ((returns_loadBytes offset _).mono ?_)
  exact fun data loaded => ⟨rfl, loaded.1⟩

/-! Walking a list does not change what else goes on. -/

section Footprints

variable (cli : Option Handle) (buffer : Buffer) (object : List UInt8)
  {allowed : (R : Type) → Op R → Prop}

theorem loadBytes_only {offset count : Nat} (load : allowed Unit (.load buffer offset count)) :
    (loadBytes buffer object offset count).Only allowed := by
  refine ⟨load, fun _ => ?_⟩
  split <;> trivial

theorem loadNumber_only {offset count : Nat} (load : allowed Unit (.load buffer offset count)) :
    (loadBytes buffer object offset count >>= fun bytes => pure (littleEndian bytes)).Only
      allowed :=
  (loadBytes_only buffer object load).bind fun _ => trivial

theorem loadString_only {offset : Nat} (load : allowed Unit
      (.load buffer offset ((beforeFirst 0 (object.drop offset)).length + 1))) :
    (loadString buffer object offset).Only allowed :=
  (loadBytes_only buffer object load).bind fun _ => trivial

theorem storeBytes_only {offset : Nat} {data : List UInt8}
    (store : allowed Unit (.store buffer offset data)) :
    (storeBytes buffer object offset data).Only allowed := by
  refine ⟨store, fun _ => ?_⟩
  split <;> trivial

@[grind .] theorem only_loadBytes (offset count : Nat) :
    (loadBytes buffer object offset count).Only (Op.ServedBy cli) :=
  loadBytes_only buffer object trivial

@[grind .] theorem only_loadByte (offset : Nat) :
    (loadByte buffer object offset).Only (Op.ServedBy cli) :=
  loadNumber_only buffer object trivial

@[grind .] theorem only_loadShort (offset : Nat) :
    (loadShort buffer object offset).Only (Op.ServedBy cli) :=
  loadNumber_only buffer object trivial

@[grind .] theorem only_loadLong (offset : Nat) :
    (loadLong buffer object offset).Only (Op.ServedBy cli) :=
  loadNumber_only buffer object trivial

@[grind .] theorem only_loadString (offset : Nat) :
    (loadString buffer object offset).Only (Op.ServedBy cli) :=
  loadString_only buffer object trivial

@[grind .] theorem only_storeBytes (offset : Nat) (data : List UInt8) :
    (storeBytes buffer object offset data).Only (Op.ServedBy cli) :=
  storeBytes_only buffer object trivial

theorem only_loadDataSize (pfea : Nat) :
    (loadDataSize buffer object pfea).Only (Op.ServedBy cli) :=
  (only_loadByte cli buffer object _).bind fun _ =>
    (only_loadShort cli buffer object _).bind fun _ => trivial

theorem only_loadFea (pfea : Nat) : (loadFea buffer object pfea).Only (Op.ServedBy cli) := by
  refine (only_loadShort cli buffer object _).bind fun cbValue => ?_
  split
  · exact (only_loadString cli buffer object _).bind fun _ => trivial
  · refine (only_loadByte cli buffer object _).bind fun cbName => ?_
    refine (only_loadString cli buffer object _).bind fun name => ?_
    exact (only_loadBytes cli buffer object _ _).bind fun _ => trivial

theorem only_easetLoop {allowed : (R : Type) → Op R → Prop}
    (plain : ∀ R op, Op.ServedBy none R op → allowed R op)
    {setea : CString → Option (List UInt8) → UInt16 → Program Int}
    (asks : ∀ name value size, (setea name value size).Only allowed)
    (fuel pfea done : Nat) : (easetLoop object setea fuel pfea done).Only allowed := by
  induction fuel generalizing pfea done with
  | zero => trivial
  | succ fuel ih =>
      refine ((only_loadLong none .feaList object 0).mono plain).bind fun cbList => ?_
      split
      · refine ((only_loadFea none .feaList object pfea).mono plain).bind fun record => ?_
        refine (asks _ _ _).bind fun rc => ?_
        split
        · trivial
        · refine ((only_loadDataSize none .feaList object _).mono plain).bind fun passed => ?_
          exact ((only_loadDataSize none .feaList object _).mono plain).bind fun counted => ih _ _
      · trivial

theorem geaMatches_only (loads : ∀ offset count, allowed Unit (.load .geaList offset count))
    (name : CString) (size fuel pgea done : Nat) :
    (geaMatches object name size fuel pgea done).Only allowed := by
  induction fuel generalizing pgea done with
  | zero => trivial
  | succ fuel ih =>
      unfold geaMatches
      split
      · refine (loadNumber_only .geaList object (loads pgea 1)).bind fun cbName => ?_
        refine (loadString_only .geaList object (loads _ _)).bind fun szName => ?_
        split
        · trivial
        · exact ih _ _
      · trivial

theorem feaWanted_only (loads : ∀ offset count, allowed Unit (.load .geaList offset count))
    (pGEAList : Option (List UInt8)) (name : CString) :
    (feaWanted pGEAList name).Only allowed := by
  unfold feaWanted
  split
  · trivial
  · refine (loadNumber_only .geaList _ (loads 0 4)).bind fun cbList => ?_
    split
    · exact geaMatches_only _ loads _ _ _ _ _
    · trivial

theorem copyFea_only (pFEASrc pFEAList : List UInt8) {pfea : Nat} (pfeadest : Nat)
    {cbName cbValue : Nat} (name : CString)
    (stores : ∀ offset data, allowed Unit (.store .feaList offset data))
    (load : allowed Unit (.load .scratch (pfea + sizeofFea + cbName + 1) cbValue)) :
    (copyFea pFEASrc pFEAList pfea pfeadest cbName cbValue name).Only allowed := by
  refine (storeBytes_only _ _ (stores _ _)).bind fun _ => ?_
  refine (storeBytes_only _ _ (stores _ _)).bind fun _ => ?_
  exact (loadBytes_only _ _ load).bind fun _ => storeBytes_only _ _ (stores _ _)

theorem buildLoop_only (loads : ∀ buffer offset count, allowed Unit (.load buffer offset count))
    (stores : ∀ offset data, allowed Unit (.store .feaList offset data))
    (pFEASrc : List UInt8) (pGEAList : Option (List UInt8))
    (size dsize fuel done ddone pfeadest : Nat) (pFEAList : List UInt8) :
    (buildLoop pFEASrc pGEAList size dsize fuel done ddone pfeadest pFEAList).Only allowed := by
  induction fuel generalizing done ddone pfeadest pFEAList with
  | zero => trivial
  | succ fuel ih =>
      unfold buildLoop
      split
      · refine (loadString_only .scratch _ (loads _ _ _)).bind fun name => ?_
        refine (feaWanted_only (loads .geaList) _ _).bind fun insert => ?_
        refine (loadNumber_only .scratch _ (loads _ _ _)).bind fun cbName => ?_
        refine (loadNumber_only .scratch _ (loads _ _ _)).bind fun cbValue => ?_
        simp only
        split
        · split
          · exact (copyFea_only _ _ _ _ stores (loads _ _ _)).bind fun _ => ih _ _ _ _
          · exact ih _ _ _ _
        · exact ih _ _ _ _
      · trivial

theorem buildFEALIST_only
    (loads : ∀ buffer offset count, allowed Unit (.load buffer offset count))
    (stores : ∀ offset data, allowed Unit (.store .feaList offset data))
    (pFEASrc : List UInt8) (pGEAList : Option (List UInt8)) (pFEAList : List UInt8) :
    (buildFEALIST pFEASrc pGEAList pFEAList).Only allowed := by
  refine (loadNumber_only .scratch _ (loads _ _ _)).bind fun size => ?_
  refine (loadNumber_only .feaList _ (loads _ _ _)).bind fun dsize => ?_
  refine (buildLoop_only loads stores _ _ _ _ _ _ _ _ _).bind fun built => ?_
  exact (storeBytes_only .feaList _ (stores _ _)).bind fun _ => trivial

theorem only_buildFEALIST (pFEASrc : List UInt8) (pGEAList : Option (List UInt8))
    (pFEAList : List UInt8) :
    (buildFEALIST pFEASrc pGEAList pFEAList).Only (Op.ServedBy cli) :=
  buildFEALIST_only (fun _ _ _ => trivial) (fun _ _ => trivial) pFEASrc pGEAList pFEAList

theorem only_writeEas (size : Nat) (eas : List EaStruct) (p gotsize : Nat)
    (content : List UInt8) : (writeEas size eas p gotsize content).Only (Op.ServedBy cli) := by
  induction eas generalizing p gotsize content with
  | nil => trivial
  | cons ea rest ih =>
      unfold writeEas
      split
      · exact ih _ _ _
      · simp only
        split
        · refine (only_storeBytes cli .scratch _ _ _).bind fun _ => ?_
          refine (only_storeBytes cli .scratch _ _ _).bind fun _ => ?_
          exact (only_storeBytes cli .scratch _ _ _).bind fun _ => ih _ _ _
        · exact ih _ _ _

theorem smbwrpListea_only (plain : ∀ R op, Op.ServedBy none R op → allowed R op)
    (fname : CString) (content : List UInt8) (size : Nat)
    (asks : ∀ used ∈ cli, allowed _ (.request used (.cliGetEaListPath fname)))
    (errno : ∀ used ∈ cli, allowed _ (.request used .cliErrno)) :
    (smbwrpListea cli fname content size).Only allowed := by
  cases cli with
  | none => trivial
  | some cli =>
      refine ((only_storeBytes none .scratch _ _ _).mono plain).bind fun content => ?_
      refine Prog.only_perform_bind.mpr ⟨asks cli rfl, fun eaList => ?_⟩
      cases eaList with
      | none => exact ⟨errno cli rfl, fun _ => trivial⟩
      | some eas =>
          refine ((only_writeEas none size eas _ _ _).mono plain).bind fun written => ?_
          exact ((only_storeBytes none .scratch _ _ _).mono plain).bind fun _ => trivial

end Footprints

end NdpSmb
