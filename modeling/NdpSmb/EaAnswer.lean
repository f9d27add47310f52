import Mathlib.Algebra.BigOperators.Group.List.Basic
import NdpSmb.EaWalk

/-!
Answering an EA query: what is unpacked from the server's list into the scratch buffer is
packed again into the list of the caller.
-/

namespace NdpSmb

open ByteString Interaction

namespace EaStruct

def Representable (ea : EaStruct) : Prop := ea.name.length ≤ 0xFF ∧ ea.value.length ≤ 0xFFFF

instance : DecidablePred Representable := fun _ => inferInstanceAs (Decidable (_ ∧ _))

def size (ea : EaStruct) : Nat := 4 + ea.name.length + 1 + ea.value.length

def header (ea : EaStruct) : List UInt8 :=
  0 :: (encodeLittle 1 ea.name.length ++ encodeLittle 2 ea.value.length)

def encode (ea : EaStruct) : List UInt8 := ea.header ++ ((ea.name ++ [0]) ++ ea.value)

def flagged (fEA : UInt8) (ea : EaStruct) : List UInt8 :=
  fEA :: (encodeLittle 1 ea.name.length ++ encodeLittle 2 ea.value.length) ++
    ((ea.name ++ [0]) ++ ea.value)

theorem length_header (ea : EaStruct) : ea.header.length = 4 := rfl

theorem length_encode (ea : EaStruct) : ea.encode.length = ea.size := by
  simp only [encode, size, List.length_append, length_header, List.length_singleton]
  omega

end EaStruct

def representables (eas : List EaStruct) : List EaStruct := eas.filter EaStruct.Representable

def easSize (eas : List EaStruct) : Nat := (eas.map EaStruct.size).sum

def eaListSize (eas : List EaStruct) : Nat := 4 + easSize (representables eas)

def packed (cbList : Nat) (eas : List EaStruct) (free : List UInt8) : List UInt8 :=
  encodeLittle 4 cbList ++ (eas.flatMap EaStruct.encode ++ free)

theorem easSize_cons (ea : EaStruct) (rest : List EaStruct) :
    easSize (ea :: rest) = ea.size + easSize rest := by
  simp [easSize]

theorem easSize_append (first second : List EaStruct) :
    easSize (first ++ second) = easSize first + easSize second := by
  simp [easSize]

theorem easSize_concat (past : List EaStruct) (ea : EaStruct) :
    easSize (past ++ [ea]) = easSize past + ea.size := by
  simp [easSize]

theorem length_le_easSize (eas : List EaStruct) : eas.length ≤ easSize eas := by
  have bound := List.length_le_sum_of_one_le (eas.map EaStruct.size) (by
    intro size member
    obtain ⟨ea, -, rfl⟩ := List.mem_map.mp member
    have positive : ea.size = 4 + ea.name.length + 1 + ea.value.length := rfl
    omega)
  simpa [easSize] using bound

theorem length_encodes (eas : List EaStruct) :
    (eas.flatMap EaStruct.encode).length = easSize eas := by
  induction eas with
  | nil => rfl
  | cons ea rest ih =>
      rw [List.flatMap_cons, List.length_append, ih, easSize_cons, EaStruct.length_encode]

/-! Reading a packed list record by record. -/

def decodeFrom (list : List UInt8) (cbList : Nat) : Nat → Nat → List EaStruct
  | 0, _ => []
  | fuel + 1, pfea =>
      if pfea < cbList then
        let cbName := littleEndian ((list.drop (pfea + 1)).take 1)
        let cbValue := littleEndian ((list.drop (pfea + 2)).take 2)
        { name := (list.drop (pfea + sizeofFea)).take cbName
          value := (list.drop (pfea + sizeofFea + cbName + 1)).take cbValue } ::
          decodeFrom list cbList fuel (pfea + sizeofFea + cbName + 1 + cbValue)
      else []

def decodeFealist (list : List UInt8) : List EaStruct :=
  decodeFrom list (littleEndian (list.take 4)) list.length sizeofLong

theorem take_drop_split {list before data after : List UInt8} {offset count : Nat}
    (split : list = before ++ (data ++ after)) (start : offset = before.length)
    (length : count = data.length) : (list.drop offset).take count = data := by
  rw [split, start, length, List.drop_left, List.take_left]

structure EaAt (list : List UInt8) (ea : EaStruct) (pfea : Nat) : Prop where
  cbName : littleEndian ((list.drop (pfea + 1)).take 1) = ea.name.length
  cbValue : littleEndian ((list.drop (pfea + 2)).take 2) = ea.value.length
  name : (list.drop (pfea + sizeofFea)).take ea.name.length = ea.name
  text : 0 ∉ ea.name → beforeFirst 0 (list.drop (pfea + sizeofFea)) = ea.name
  value : (list.drop (pfea + sizeofFea + ea.name.length + 1)).take ea.value.length = ea.value
  inside : pfea + ea.size ≤ list.length

theorem eaAt_of_split {list before after : List UInt8} {ea : EaStruct} {fEA : UInt8} {pfea : Nat}
    (split : list = before ++ (ea.flagged fEA ++ after)) (start : pfea = before.length)
    (fit : ea.Representable) : EaAt list ea pfea := by
  obtain ⟨nameFits, valueFits⟩ := fit
  have atName : list = (before ++ fEA :: (encodeLittle 1 ea.name.length ++
      encodeLittle 2 ea.value.length)) ++ (ea.name ++ ([0] ++ ea.value ++ after)) := by
    simp [split, EaStruct.flagged]
  have start4 : pfea + sizeofFea = (before ++ fEA :: (encodeLittle 1 ea.name.length ++
      encodeLittle 2 ea.value.length)).length := by
    rw [start, List.length_append]
    rfl
  constructor
  · have shape : list = (before ++ [fEA]) ++ (encodeLittle 1 ea.name.length ++
        (encodeLittle 2 ea.value.length ++ ((ea.name ++ [0]) ++ ea.value) ++ after)) := by
      simp [split, EaStruct.flagged]
    rw [take_drop_split shape (by simp [start]) (length_encodeLittle 1 _).symm]
    exact littleEndian_encodeLittle 1 _ (by omega)
  · have shape : list = (before ++ fEA :: encodeLittle 1 ea.name.length) ++
        (encodeLittle 2 ea.value.length ++ (((ea.name ++ [0]) ++ ea.value) ++ after)) := by
      simp [split, EaStruct.flagged]
    rw [take_drop_split shape (by simp [start, length_encodeLittle]) (length_encodeLittle 2 _).symm]
    exact littleEndian_encodeLittle 2 _ (by omega)
  · exact take_drop_split atName start4 rfl
  · intro clean
    rw [atName, start4, List.drop_left]
    simp only [List.singleton_append]
    exact beforeFirst_append_separator 0 clean
  · have shape : list = (before ++ ((fEA :: (encodeLittle 1 ea.name.length ++
        encodeLittle 2 ea.value.length)) ++ (ea.name ++ [0]))) ++ (ea.value ++ after) := by
      simp [split, EaStruct.flagged]
    apply take_drop_split shape
    · rw [← List.append_assoc, List.length_append, ← start4, List.length_append]
      rfl
    · rfl
  · have same : (ea.flagged fEA).length = ea.encode.length := rfl
    rw [split, List.length_append, List.length_append, same, EaStruct.length_encode]
    omega

theorem decodeFrom_packed {list before free : List UInt8} {eas : List EaStruct}
    {cbList fuel pfea : Nat} (split : list = before ++ (eas.flatMap EaStruct.encode ++ free))
    (start : pfea = before.length) (total : cbList = pfea + easSize eas)
    (fit : ∀ ea ∈ eas, ea.Representable) (enough : eas.length < fuel) :
    decodeFrom list cbList fuel pfea = eas := by
  induction eas generalizing before fuel pfea with
  | nil =>
      cases fuel with
      | zero => omega
      | succ fuel =>
          have ended : ¬ pfea < cbList := by
            simp only [easSize, List.map_nil, List.sum_nil] at total
            omega
          rw [decodeFrom, if_neg ended]
  | cons ea rest ih =>
      cases fuel with
      | zero => omega
      | succ fuel =>
          rw [easSize_cons] at total
          have size : ea.size = 4 + ea.name.length + 1 + ea.value.length := rfl
          have running : pfea < cbList := by omega
          have shape : list = before ++ (ea.encode ++ (rest.flatMap EaStruct.encode ++ free)) := by
            rw [split, List.flatMap_cons, List.append_assoc]
          have place := eaAt_of_split shape start (fit ea List.mem_cons_self)
          have next : decodeFrom list cbList fuel
              (pfea + sizeofFea + ea.name.length + 1 + ea.value.length) = rest := by
            have behind : list = (before ++ ea.encode) ++
                (rest.flatMap EaStruct.encode ++ free) := by simp [shape]
            apply ih behind
            · simp only [List.length_append, EaStruct.length_encode, sizeofFea]
              omega
            · simp only [sizeofFea]
              omega
            · intro other member
              exact fit other (List.mem_cons_of_mem _ member)
            · simpa using enough
          rw [decodeFrom, if_pos running]
          simp only [place.cbName, place.cbValue, place.name, place.value, next]

theorem take_packed {cbList : Nat} {eas : List EaStruct} {free : List UInt8} :
    (packed cbList eas free).take 4 = encodeLittle 4 cbList :=
  List.take_left' (length_encodeLittle 4 _)

theorem littleEndian_packed {cbList : Nat} {eas : List EaStruct} {free : List UInt8}
    (small : cbList < 2 ^ 32) : littleEndian ((packed cbList eas free).take 4) = cbList := by
  rw [take_packed]
  exact littleEndian_encodeLittle 4 _ (by omega)

theorem decodeFealist_packed {eas : List EaStruct} (free : List UInt8)
    (fit : ∀ ea ∈ eas, ea.Representable) (fits : 4 + easSize eas < 2 ^ 32) :
    decodeFealist (packed (4 + easSize eas) eas free) = eas := by
  have enough : eas.length < (packed (4 + easSize eas) eas free).length := by
    have counted := length_le_easSize eas
    simp only [packed, List.length_append, length_encodeLittle, length_encodes]
    omega
  rw [decodeFealist, littleEndian_packed fits]
  exact decodeFrom_packed rfl (length_encodeLittle 4 _).symm rfl fit enough

/-! What is seen of a run: whether the server's list came, and how far the caller's list
has been written. -/

structure EaAnswer where
  asked : Bool := false
  written : Nat := 0

namespace EaAnswer

def stored (seen : EaAnswer) : Buffer → Nat → EaAnswer
  | .feaList, limit => { seen with written := max seen.written limit }
  | .geaList, _ | .scratch, _ => seen

def observe (seen : EaAnswer) : CallEvent → EaAnswer
  | ⟨.store buffer offset data, _⟩ => seen.stored buffer (offset + data.length)
  | ⟨.request _ (.cliGetEaListPath _), _⟩ => { seen with asked := true }
  | _ => seen

end EaAnswer

def ServerEas (eas : List EaStruct) : CallEvent → Prop
  | ⟨.request _ (.cliGetEaListPath _), reply⟩ => reply = some eas
  | _ => True

/-- Nothing may run into undefined behaviour. -/
def answerWatch (eas : List EaStruct) : Watch Op EaAnswer where
  observe := EaAnswer.observe
  admits _ event := ServerEas eas event
  crash _ := False

namespace EaAnswer

variable {eas : List EaStruct} {seen : EaAnswer} {buffer : Buffer}
  {object before data : List UInt8} {offset count : Nat}

theorem load {post : List UInt8 → EaAnswer → Prop} (inside : offset + count ≤ object.length)
    (done : post ((object.drop offset).take count) seen) :
    (answerWatch eas).Ensures post (loadBytes buffer object offset count) seen := by
  intro _ _
  rw [if_pos inside]
  exact done

theorem loadNumber {post : Nat → EaAnswer → Prop} (inside : offset + count ≤ object.length)
    (done : post (littleEndian ((object.drop offset).take count)) seen) :
    (answerWatch eas).Ensures post (do
      let bytes ← loadBytes buffer object offset count
      pure (littleEndian bytes)) seen :=
  Watch.ensures_bind.mpr (load inside done)

theorem put {post : List UInt8 → EaAnswer → Prop} {free : List UInt8}
    (split : object = before ++ free) (start : offset = before.length)
    (room : data.length ≤ free.length)
    (done : post ((before ++ data) ++ free.drop data.length)
      (seen.stored buffer (offset + data.length))) :
    (answerWatch eas).Ensures post (storeBytes buffer object offset data) seen := by
  intro _ _
  have inside : offset + data.length ≤ object.length := by
    rw [split, List.length_append]
    omega
  have front : object.take offset = before := by
    rw [split, start, List.take_left]
  have back : object.drop (offset + data.length) = free.drop data.length := by
    rw [split, start, List.drop_length_add_append]
  rw [if_pos inside, front, back]
  exact done

theorem putFront {post : List UInt8 → EaAnswer → Prop} (room : data.length ≤ object.length)
    (done : post (data ++ object.drop data.length) (seen.stored buffer data.length)) :
    (answerWatch eas).Ensures post (storeBytes buffer object 0 data) seen := by
  have whole : object = [] ++ object := rfl
  apply put whole rfl room
  rw [List.nil_append, List.length_nil, Nat.zero_add]
  exact done

end EaAnswer

theorem encode_in_front (before : List UInt8) (ea : EaStruct) (free : List UInt8) :
    (((before ++ ea.header) ++ (ea.name ++ [0])) ++ ea.value) ++
      ((free.drop 4).drop (ea.name.length + 1)).drop ea.value.length =
    (before ++ ea.encode) ++ free.drop ea.size := by
  have size : 4 + (ea.name.length + 1) + ea.value.length = ea.size := by
    simp only [EaStruct.size]
    omega
  rw [List.drop_drop, List.drop_drop, ← Nat.add_assoc, size]
  simp [EaStruct.encode]

theorem length_packed (cbList : Nat) (eas : List EaStruct) (free : List UInt8) :
    (packed cbList eas free).length = 4 + easSize eas + free.length := by
  simp only [packed, List.length_append, length_encodeLittle, length_encodes]
  omega

theorem addLong_of_lt {left right : Nat} (small : left + right < 2 ^ 32) :
    addLong left right = left + right := Nat.mod_eq_of_lt small

theorem fit_representables {eas : List EaStruct} : ∀ ea ∈ representables eas, ea.Representable := by
  intro ea member
  exact of_decide_eq_true (List.mem_filter.mp member).2

theorem clean_representables {eas : List EaStruct} (clean : ∀ ea ∈ eas, 0 ∉ ea.name) :
    ∀ ea ∈ representables eas, 0 ∉ ea.name := by
  intro ea member
  exact clean ea (List.mem_filter.mp member).1

theorem eaAt_packed {all past rest : List EaStruct} {ea : EaStruct} {list free : List UInt8}
    {cbList : Nat} (source : list = packed cbList all free) (whole : all = past ++ ea :: rest)
    (fit : ea.Representable) : EaAt list ea (4 + easSize past) := by
  have shape : list = (encodeLittle 4 cbList ++ past.flatMap EaStruct.encode) ++
      (ea.encode ++ (rest.flatMap EaStruct.encode ++ free)) := by
    simp [source, packed, whole]
  apply eaAt_of_split shape _ fit
  rw [List.length_append, length_encodeLittle, length_encodes]

theorem addLong_record {past : List EaStruct} {ea : EaStruct}
    (small : 4 + easSize past + ea.size < 2 ^ 32) :
    addLong (4 + easSize past) (sizeofFea + ea.name.length + 1 + ea.value.length) =
      4 + easSize (past ++ [ea]) := by
  have sized : ea.size = sizeofFea + ea.name.length + 1 + ea.value.length := rfl
  rw [← sized, addLong_of_lt small, easSize_concat, Nat.add_assoc]

structure HoldsEas (list : List UInt8) (eas : List EaStruct) : Prop where
  counted : littleEndian (list.take 4) = 4 + easSize eas
  small : 4 + easSize eas < 2 ^ 32
  whole : 4 + easSize eas ≤ list.length
  clean : ∀ ea ∈ eas, 0 ∉ ea.name
  placed : ∀ past ea rest, eas = past ++ ea :: rest → EaAt list ea (4 + easSize past)

theorem holdsEas_packed {eas : List EaStruct} {free : List UInt8}
    (fit : ∀ ea ∈ eas, ea.Representable) (clean : ∀ ea ∈ eas, 0 ∉ ea.name)
    (small : 4 + easSize eas < 2 ^ 32) : HoldsEas (packed (4 + easSize eas) eas free) eas := by
  constructor
  case counted => exact littleEndian_packed small
  case small => exact small
  case whole =>
    rw [length_packed]
    omega
  case clean => exact clean
  case placed =>
    intro past ea rest split
    exact eaAt_packed rfl split (fit ea (by simp [split]))

theorem ensures_writeEas {eas : List EaStruct} {seen : EaAnswer} {size cbList : Nat}
    {post : Nat × List UInt8 → EaAnswer → Prop} (rest past : List EaStruct) (free : List UInt8)
    (fits : 4 + easSize past + easSize (representables rest) ≤ size) (small : size < 2 ^ 32)
    (room : (packed cbList past free).length = size)
    (done : ∀ free, (packed cbList (past ++ representables rest) free).length = size →
      post (4 + easSize (past ++ representables rest),
        packed cbList (past ++ representables rest) free) seen) :
    (answerWatch eas).Ensures post
      (writeEas size rest (4 + easSize past) (4 + easSize past) (packed cbList past free)) seen := by
  induction rest generalizing past free with
  | nil =>
      have all : past ++ representables [] = past := List.append_nil past
      rw [all] at done
      exact done free room
  | cons ea rest ih =>
      rw [writeEas]
      by_cases fit : ea.Representable
      · have kept : representables (ea :: rest) = ea :: representables rest := by
          simp [representables, fit]
        have whole : past ++ representables (ea :: rest) = (past ++ [ea]) ++ representables rest := by
          rw [kept, List.append_assoc]
          rfl
        have length := length_packed cbList past free
        have sized : ea.size = 4 + ea.name.length + 1 + ea.value.length := rfl
        rw [kept, easSize_cons] at fits
        rw [whole] at done
        have plain : ¬ (ea.name.length > 0xFF ∨ ea.value.length > 0xFFFF) := by
          obtain ⟨nameFits, valueFits⟩ := fit
          omega
        have next : addLong (4 + easSize past)
            (sizeofFea + ea.name.length + ea.value.length + 1) = 4 + easSize (past ++ [ea]) := by
          rw [addLong_of_lt, easSize_concat]
          · simp only [sizeofFea]
            omega
          · simp only [sizeofFea]
            omega
        have enough : size ≥ 4 + easSize (past ++ [ea]) := by
          rw [easSize_concat]
          omega
        simp only [if_neg plain, next, if_pos enough]
        have front : packed cbList past free =
            (encodeLittle 4 cbList ++ past.flatMap EaStruct.encode) ++ free := by simp [packed]
        have start : 4 + easSize past =
            (encodeLittle 4 cbList ++ past.flatMap EaStruct.encode).length := by
          rw [List.length_append, length_encodeLittle, length_encodes]
        have named : (ea.name ++ [0]).length = ea.name.length + 1 := by simp
        refine Watch.ensures_bind.mpr (EaAnswer.put front start ?_ ?_)
        · change ea.header.length ≤ free.length
          rw [EaStruct.length_header]
          omega
        refine Watch.ensures_bind.mpr (EaAnswer.put rfl ?_ ?_ ?_)
        · rw [List.length_append, ← start]
          rfl
        · change (ea.name ++ [0]).length ≤ (free.drop 4).length
          rw [named, List.length_drop]
          omega
        refine Watch.ensures_bind.mpr (EaAnswer.put rfl ?_ ?_ ?_)
        · rw [List.length_append, List.length_append, ← start, named]
          change _ = 4 + easSize past + 4 + (ea.name.length + 1)
          simp only [sizeofFea]
          omega
        · rw [named]
          change ea.value.length ≤ ((free.drop 4).drop (ea.name.length + 1)).length
          rw [List.length_drop, List.length_drop]
          omega
        have advanced : 4 + easSize past + sizeofFea + ea.name.length + 1 + ea.value.length =
            4 + easSize (past ++ [ea]) := by
          rw [easSize_concat]
          simp only [sizeofFea]
          omega
        have spelled : ((encodeLittle 4 cbList ++ past.flatMap EaStruct.encode) ++ ea.encode) ++
            free.drop ea.size = packed cbList (past ++ [ea]) (free.drop ea.size) := by
          simp [packed]
        rw [named, List.length_cons, advanced]
        change (answerWatch eas).Ensures post (writeEas size rest _ _
          (((((encodeLittle 4 cbList ++ past.flatMap EaStruct.encode) ++ ea.header) ++
            (ea.name ++ [0])) ++ ea.value) ++
            ((free.drop 4).drop (ea.name.length + 1)).drop ea.value.length)) seen
        rw [encode_in_front, spelled]
        apply ih (past ++ [ea]) (free.drop ea.size) _ _ done
        · rw [easSize_concat]
          omega
        · rw [length_packed, easSize_concat, List.length_drop]
          omega
      · have dropped : representables (ea :: rest) = representables rest := by
          simp [representables, fit]
        have large : ea.name.length > 0xFF ∨ ea.value.length > 0xFFFF := by
          by_contra plain
          exact fit ⟨by omega, by omega⟩
        rw [dropped] at fits done
        rw [if_pos large]
        exact ih past free fits room done

theorem ensures_smbwrpListea {eas : List EaStruct} {seen : EaAnswer} {cli : Option Handle}
    {fname : CString} {scratch : List UInt8} {size : Nat}
    {post : Int × List UInt8 → EaAnswer → Prop}
    (fits : eaListSize eas ≤ size) (small : size < 2 ^ 32) (length : scratch.length = size)
    (unconnected : cli = none → post (maperror einval, scratch) seen)
    (listed : ∀ free, (packed (eaListSize eas) (representables eas) free).length = size →
      post (0, packed (eaListSize eas) (representables eas) free) { seen with asked := true }) :
    (answerWatch eas).Ensures post (smbwrpListea cli fname scratch size) seen := by
  cases cli with
  | none => exact unconnected rfl
  | some cli =>
      have enough : 4 ≤ size := (Nat.le_add_right 4 _).trans fits
      have wide : (encodeLittle 4 0).length ≤ scratch.length := by
        rw [length, length_encodeLittle]
        exact enough
      refine Watch.ensures_bind.mpr (EaAnswer.putFront wide ?_)
      refine Watch.ensures_perform_bind.mpr fun reply served => ?_
      obtain rfl : reply = some eas := served
      have empty : encodeLittle 4 0 ++ scratch.drop (encodeLittle 4 0).length =
          packed 0 [] (scratch.drop 4) := rfl
      simp only [empty]
      refine Watch.ensures_bind.mpr (ensures_writeEas eas [] (scratch.drop 4) ?_ small ?_ ?_)
      · exact fits
      · rw [length_packed, List.length_drop, length]
        change 4 + 0 + (size - 4) = size
        omega
      · intro free room
        have front : (encodeLittle 4 (4 + easSize ([] ++ representables eas))).length ≤
            (packed 0 ([] ++ representables eas) free).length := by
          rw [room, length_encodeLittle]
          exact enough
        refine Watch.ensures_bind.mpr (EaAnswer.putFront front (listed free ?_))
        rw [length_packed] at room ⊢
        exact room

def NoNames : Option (List UInt8) → Prop
  | none => True
  | some pGEAList => 4 ≤ pGEAList.length ∧ littleEndian (pGEAList.take 4) ≤ sizeofLong

/-- Whether an EA of this name is asked for. -/
def Decides (eas : List EaStruct) (pGEAList : Option (List UInt8)) (name : CString)
    (wanted : Bool) : Prop :=
  ∀ seen (post : Bool → EaAnswer → Prop), post wanted seen →
    (answerWatch eas).Ensures post (feaWanted pGEAList name) seen

theorem decides_noNames {eas : List EaStruct} {name : CString} {pGEAList : Option (List UInt8)}
    (unnamed : NoNames pGEAList) : Decides eas pGEAList name true := by
  intro seen post done
  cases pGEAList with
  | none => exact done
  | some pGEAList =>
      obtain ⟨readable, short⟩ := unnamed
      refine Watch.ensures_bind.mpr (EaAnswer.loadNumber (by omega) ?_)
      rw [List.drop_zero, if_neg (by omega)]
      exact done

/-- The caller's list while it is packed: the records so far, if there is room for them. -/
structure Copying (pFEAList : List UInt8) (dsize : Nat) (past : List EaStruct) (pfeadest : Nat)
    (list : List UInt8) : Prop where
  length : list.length = pFEAList.length
  copied : 4 + easSize past ≤ dsize → pfeadest = 4 + easSize past ∧
    list = (pFEAList.take 4 ++ past.flatMap EaStruct.encode) ++ pFEAList.drop (4 + easSize past)

theorem ensures_copyFea {eas past : List EaStruct} {seen : EaAnswer} {ea : EaStruct}
    {pFEASrc pFEAList list : List UInt8} {dsize pfea pfeadest : Nat}
    {post : List UInt8 → EaAnswer → Prop} (copying : Copying pFEAList dsize past pfeadest list)
    (place : EaAt pFEASrc ea pfea) (room : 4 + easSize (past ++ [ea]) ≤ dsize)
    (capacity : dsize ≤ pFEAList.length) (bounded : seen.written ≤ dsize)
    (done : ∀ list later, Copying pFEAList dsize (past ++ [ea]) (4 + easSize (past ++ [ea])) list →
      later.written ≤ dsize → post list later) :
    (answerWatch eas).Ensures post
      (copyFea pFEASrc list pfea pfeadest ea.name.length ea.value.length ea.name) seen := by
  have sized : ea.size = 4 + ea.name.length + 1 + ea.value.length := rfl
  rw [easSize_concat] at room
  obtain ⟨rfl, spelled⟩ := copying.copied (by omega)
  have start : 4 + easSize past =
      (pFEAList.take 4 ++ past.flatMap EaStruct.encode).length := by
    rw [List.length_append, List.length_take, length_encodes]
    omega
  have named : (ea.name ++ [0]).length = ea.name.length + 1 := by simp
  have inside := place.inside
  refine Watch.ensures_bind.mpr (EaAnswer.put spelled start ?_ ?_)
  · change ea.header.length ≤ (pFEAList.drop (4 + easSize past)).length
    rw [EaStruct.length_header, List.length_drop]
    omega
  refine Watch.ensures_bind.mpr (EaAnswer.put rfl ?_ ?_ ?_)
  · rw [List.length_append, ← start]
    rfl
  · change (ea.name ++ [0]).length ≤ ((pFEAList.drop (4 + easSize past)).drop 4).length
    rw [named, List.length_drop, List.length_drop]
    omega
  refine Watch.ensures_bind.mpr (EaAnswer.load ?_ ?_)
  · simp only [sizeofFea]
    omega
  rw [place.value]
  refine EaAnswer.put rfl ?_ ?_ ?_
  · rw [List.length_append, List.length_append, ← start, named]
    change _ = 4 + easSize past + 4 + (ea.name.length + 1)
    simp only [sizeofFea]
    omega
  · rw [named]
    change ea.value.length ≤
      (((pFEAList.drop (4 + easSize past)).drop 4).drop (ea.name.length + 1)).length
    rw [List.length_drop, List.length_drop, List.length_drop]
    omega
  rw [named]
  have record := encode_in_front (pFEAList.take 4 ++ past.flatMap EaStruct.encode) ea
    (pFEAList.drop (4 + easSize past))
  change post (((((pFEAList.take 4 ++ past.flatMap EaStruct.encode) ++ ea.header) ++
    (ea.name ++ [0])) ++ ea.value) ++
    (((pFEAList.drop (4 + easSize past)).drop 4).drop (ea.name.length + 1)).drop
      ea.value.length) _
  rw [record]
  apply done
  · constructor
    · simp only [List.length_append, List.length_take, List.length_drop, length_encodes,
        EaStruct.length_encode]
      omega
    · intro _
      refine ⟨rfl, ?_⟩
      rw [easSize_concat, List.drop_drop, ← Nat.add_assoc]
      simp
  · simp only [EaAnswer.stored, sizeofFea, List.length_cons, List.length_append,
      length_encodeLittle]
    omega

theorem easSize_filter_le (selects : EaStruct → Bool) (eas : List EaStruct) :
    easSize (eas.filter selects) ≤ easSize eas := by
  induction eas with
  | nil => rfl
  | cons ea rest ih =>
      rw [List.filter_cons]
      split
      · rw [easSize_cons, easSize_cons]
        omega
      · rw [easSize_cons]
        omega

theorem ensures_buildLoop {eas all past rest : List EaStruct} {seen : EaAnswer}
    {pFEASrc pFEAList list : List UInt8} {pGEAList : Option (List UInt8)}
    {selects : EaStruct → Bool} {dsize fuel pfeadest : Nat}
    {post : Nat × List UInt8 → EaAnswer → Prop}
    (source : HoldsEas pFEASrc all) (whole : all = past ++ rest)
    (decides : ∀ ea ∈ all, Decides eas pGEAList ea.name (selects ea))
    (capacity : dsize ≤ pFEAList.length)
    (copying : Copying pFEAList dsize (past.filter selects) pfeadest list)
    (bounded : seen.written ≤ dsize) (enough : rest.length < fuel)
    (done : ∀ list pfeadest later, Copying pFEAList dsize (all.filter selects) pfeadest list →
      later.written ≤ dsize → post (4 + easSize (all.filter selects), list) later) :
    (answerWatch eas).Ensures post
      (buildLoop pFEASrc pGEAList (4 + easSize all) dsize fuel (4 + easSize past)
        (4 + easSize (past.filter selects)) pfeadest list) seen := by
  induction rest generalizing past fuel pfeadest list seen with
  | nil =>
      cases fuel with
      | zero => omega
      | succ fuel =>
          rw [List.append_nil] at whole
          subst whole
          rw [buildLoop, if_neg (lt_irrefl _)]
          exact done list pfeadest seen copying bounded
  | cons ea rest ih =>
      cases fuel with
      | zero => omega
      | succ fuel =>
          have member : ea ∈ all := by simp [whole]
          have total : easSize all = easSize past + (ea.size + easSize rest) := by
            rw [whole, easSize_append, easSize_cons]
          have sized : ea.size = 4 + ea.name.length + 1 + ea.value.length := rfl
          have small := source.small
          have place := source.placed past ea rest whole
          have inside := place.inside
          have next : addLong (4 + easSize past)
              (sizeofFea + ea.name.length + 1 + ea.value.length) = 4 + easSize (past ++ [ea]) :=
            addLong_record (by omega)
          have fewer := easSize_filter_le selects past
          have onward : all = (past ++ [ea]) ++ rest := by simp [whole]
          have shorter : rest.length < fuel := by simpa using enough
          rw [buildLoop, if_pos (by omega), loadString, place.text (source.clean ea member)]
          refine Watch.ensures_bind.mpr (Watch.ensures_bind.mpr (EaAnswer.load ?_ ?_))
          · simp only [sizeofFea]
            omega
          refine Watch.ensures_bind.mpr (decides ea member seen _ ?_)
          refine Watch.ensures_bind.mpr (EaAnswer.loadNumber (by omega) ?_)
          refine Watch.ensures_bind.mpr (EaAnswer.loadNumber (by omega) ?_)
          rw [place.cbName, place.cbValue]
          simp only [next]
          by_cases wanted : selects ea = true
          · have grown : (past ++ [ea]).filter selects = past.filter selects ++ [ea] := by
              simp [wanted]
            have counted : addLong (4 + easSize (past.filter selects))
                (sizeofFea + ea.name.length + 1 + ea.value.length) =
                4 + easSize ((past ++ [ea]).filter selects) := by
              rw [grown]
              exact addLong_record (by omega)
            rw [if_pos wanted, counted]
            by_cases room : 4 + easSize ((past ++ [ea]).filter selects) ≤ dsize
            · rw [if_pos room]
              rw [grown] at room ⊢
              refine Watch.ensures_bind.mpr
                (ensures_copyFea copying place room capacity bounded ?_)
              intro later seen copied within
              rw [← grown] at copied ⊢
              exact ih onward copied within shorter
            · rw [if_neg room]
              refine ih onward ⟨copying.length, ?_⟩ bounded shorter
              intro fits
              exact absurd fits room
          · have same : (past ++ [ea]).filter selects = past.filter selects := by
              simp [wanted]
            rw [if_neg wanted, ← same]
            rw [← same] at copying
            exact ih onward copying bounded shorter

/-- The list of the caller behind `buildFEALIST`, where these EAs were asked for. -/
structure Built (selected : List EaStruct) (pFEAList : List UInt8) (rc : Int)
    (list : List UInt8) : Prop where
  counted : littleEndian (list.take 4) = 4 + easSize selected
  returned : rc = if 4 + easSize selected > littleEndian (pFEAList.take 4) ∧
    littleEndian (pFEAList.take 4) > sizeofLong then errorBufferOverflow else 0
  decoded : 4 + easSize selected ≤ littleEndian (pFEAList.take 4) → decodeFealist list = selected

theorem ensures_selected {eas all : List EaStruct} {seen : EaAnswer} {pFEASrc pFEAList : List UInt8}
    {pGEAList : Option (List UInt8)} {selects : EaStruct → Bool} (source : HoldsEas pFEASrc all)
    (fit : ∀ ea ∈ all, ea.Representable)
    (decides : ∀ ea ∈ all, Decides eas pGEAList ea.name (selects ea))
    (header : 4 ≤ littleEndian (pFEAList.take 4))
    (capacity : littleEndian (pFEAList.take 4) ≤ pFEAList.length)
    (bounded : seen.written ≤ littleEndian (pFEAList.take 4)) :
    (answerWatch eas).Ensures (fun answer later =>
        Built (all.filter selects) pFEAList answer.1 answer.2 ∧
        later.written ≤ littleEndian (pFEAList.take 4))
      (buildFEALIST pFEASrc pGEAList pFEAList) seen := by
  have whole := source.whole
  have many := length_le_easSize all
  have smallSource := source.small
  have fewer := easSize_filter_le selects all
  refine Watch.ensures_bind.mpr (EaAnswer.loadNumber (by omega) ?_)
  rw [List.drop_zero, source.counted]
  refine Watch.ensures_bind.mpr (EaAnswer.loadNumber (by omega) ?_)
  rw [List.drop_zero]
  have start : Copying pFEAList (littleEndian (pFEAList.take 4)) [] sizeofLong pFEAList := by
    constructor
    · rfl
    · intro _
      refine ⟨rfl, ?_⟩
      simp [easSize]
  have nothing : all = [] ++ all := rfl
  refine Watch.ensures_bind.mpr (ensures_buildLoop source nothing decides
    capacity start bounded (by omega) ?_)
  intro list pfeadest later copying within
  have front : (encodeLittle 4 (4 + easSize (all.filter selects))).length ≤ list.length := by
    rw [length_encodeLittle, copying.length]
    omega
  refine Watch.ensures_bind.mpr (EaAnswer.putFront front ?_)
  rw [length_encodeLittle]
  constructor
  · constructor
    case counted =>
      rw [List.take_left' (length_encodeLittle 4 _)]
      exact littleEndian_encodeLittle 4 _ (by omega)
    case returned => rfl
    case decoded =>
      intro fits
      obtain ⟨-, spelled⟩ := copying.copied fits
      have head : (pFEAList.take 4).length = 4 := by
        rw [List.length_take]
        omega
      have answer : encodeLittle 4 (4 + easSize (all.filter selects)) ++ list.drop 4 =
          packed (4 + easSize (all.filter selects)) (all.filter selects)
            (pFEAList.drop (4 + easSize (all.filter selects))) := by
        rw [spelled, List.append_assoc, List.drop_left' head]
        rfl
      change decodeFealist
        (encodeLittle 4 (4 + easSize (all.filter selects)) ++ list.drop 4) = _
      rw [answer]
      apply decodeFealist_packed
      · intro ea member
        exact fit ea (List.mem_filter.mp member).1
      · omega
  · simp only [EaAnswer.stored]
    omega

def AskedForEas (trace : List CallEvent) : Prop :=
  ∃ cli fname reply, (⟨.request cli (.cliGetEaListPath fname), reply⟩ : CallEvent) ∈ trace

section Trace

variable {eas : List EaStruct} {trace : List CallEvent} {seen : EaAnswer}

theorem EaAnswer.grows_observe (seen : EaAnswer) (event : CallEvent) :
    (seen.asked = true → (seen.observe event).asked = true) ∧
      seen.written ≤ (seen.observe event).written := by
  unfold EaAnswer.observe
  split
  · rename_i buffer offset data reply
    cases buffer with
    | feaList => exact ⟨id, le_max_left _ _⟩
    | geaList => exact ⟨id, le_refl _⟩
    | scratch => exact ⟨id, le_refl _⟩
  · exact ⟨fun _ => rfl, le_refl _⟩
  · exact ⟨id, le_refl _⟩

theorem EaAnswer.grows_after (seen : EaAnswer) (trace : List CallEvent) :
    (seen.asked = true → ((answerWatch eas).after seen trace).asked = true) ∧
      seen.written ≤ ((answerWatch eas).after seen trace).written := by
  induction trace generalizing seen with
  | nil => exact ⟨id, le_refl _⟩
  | cons event rest ih =>
      obtain ⟨stillAsked, further⟩ := seen.grows_observe event
      obtain ⟨askedAfter, furtherAfter⟩ := ih (seen.observe event)
      exact ⟨fun asked => askedAfter (stillAsked asked), further.trans furtherAfter⟩

theorem asked_after (asked : AskedForEas trace) :
    ((answerWatch eas).after seen trace).asked = true := by
  obtain ⟨cli, fname, reply, member⟩ := asked
  induction trace generalizing seen with
  | nil => simp at member
  | cons event rest ih =>
      rcases List.mem_cons.mp member with rfl | inside
      · exact (EaAnswer.grows_after _ rest).1 rfl
      · exact ih inside

theorem EaAnswer.asked_observe (event : CallEvent)
    (asked : (seen.observe event).asked = true) :
    seen.asked = true ∨ ∃ cli fname reply,
      event = ⟨.request cli (.cliGetEaListPath fname), reply⟩ := by
  unfold EaAnswer.observe at asked
  split at asked
  · rename_i buffer offset data reply
    cases buffer with
    | feaList | geaList | scratch => exact .inl asked
  · rename_i cli fname reply
    exact .inr ⟨cli, fname, reply, rfl⟩
  · exact .inl asked

theorem returned_of_ensures {α : Type} {program : Program α} {post : α → EaAnswer → Prop}
    {outcome : Option α} (holds : (answerWatch eas).Ensures post program seen)
    (served : ∀ event ∈ trace, ServerEas eas event) (run : Run program trace outcome) :
    ∃ value, outcome = some value ∧ post value ((answerWatch eas).after seen trace) := by
  have concluded := Watch.ensures_iff_runs.mp holds trace outcome run
    (Watch.admits_of_forall _ fun event member _ => served event member)
  cases outcome with
  | none => exact concluded.elim
  | some value => exact ⟨value, rfl, concluded⟩

end Trace

def oneEa : List EaStruct := [{ name := bytes "A", value := [49] }]

def sixteenBytes : List UInt8 := encodeLittle 4 16 ++ List.replicate 12 0

end NdpSmb
