import NdpSmb.EaAnswer

/-!
Which EAs `buildFEALIST` copies when some are asked for by name.
-/

namespace NdpSmb

open ByteString Interaction

structure GeaRecord where
  name : CString
  nameFits : name.length ≤ 255
  nameClean : 0 ∉ name

namespace GeaRecord

def encode (record : GeaRecord) : List UInt8 :=
  encodeLittle 1 record.name.length ++ (record.name ++ [0])

def size (record : GeaRecord) : Nat := record.name.length + 2

theorem length_encode (record : GeaRecord) : record.encode.length = record.size := by
  simp only [encode, size, List.length_append, length_encodeLittle, List.length_singleton]
  omega

end GeaRecord

def geaSize (requested : List GeaRecord) : Nat := (requested.map GeaRecord.size).sum

def geaListOf (requested : List GeaRecord) (behind : List UInt8) : List UInt8 :=
  encodeLittle 4 (4 + geaSize requested) ++ (requested.flatMap GeaRecord.encode ++ behind)

theorem geaSize_cons (record : GeaRecord) (rest : List GeaRecord) :
    geaSize (record :: rest) = record.size + geaSize rest := by
  simp [geaSize]

theorem geaSize_append (first second : List GeaRecord) :
    geaSize (first ++ second) = geaSize first + geaSize second := by
  simp [geaSize]

theorem length_flatMap_gea (requested : List GeaRecord) :
    (requested.flatMap GeaRecord.encode).length = geaSize requested := by
  induction requested with
  | nil => rfl
  | cons record rest ih =>
      rw [List.flatMap_cons, List.length_append, ih, geaSize_cons, GeaRecord.length_encode]

theorem length_le_geaSize (requested : List GeaRecord) : requested.length ≤ geaSize requested := by
  induction requested with
  | nil => exact Nat.zero_le _
  | cons record rest ih =>
      have sized : record.size = record.name.length + 2 := rfl
      rw [geaSize_cons, List.length_cons]
      omega

theorem length_geaListOf (requested : List GeaRecord) (behind : List UInt8) :
    (geaListOf requested behind).length = 4 + geaSize requested + behind.length := by
  simp only [geaListOf, List.length_append, length_encodeLittle, length_flatMap_gea]
  omega

structure GeaAt (list : List UInt8) (record : GeaRecord) (pgea : Nat) : Prop where
  cbName : littleEndian ((list.drop pgea).take 1) = record.name.length
  szName : beforeFirst 0 (list.drop (pgea + 1)) = record.name
  inside : pgea + record.size ≤ list.length

theorem geaAt_list {requested past rest : List GeaRecord} {record : GeaRecord}
    {behind : List UInt8} (whole : requested = past ++ record :: rest) :
    GeaAt (geaListOf requested behind) record (4 + geaSize past) := by
  have shape : geaListOf requested behind =
      (encodeLittle 4 (4 + geaSize requested) ++ past.flatMap GeaRecord.encode) ++
        (encodeLittle 1 record.name.length ++
          ((record.name ++ [0]) ++ (rest.flatMap GeaRecord.encode ++ behind))) := by
    simp [geaListOf, whole, GeaRecord.encode]
  have start : 4 + geaSize past =
      (encodeLittle 4 (4 + geaSize requested) ++ past.flatMap GeaRecord.encode).length := by
    rw [List.length_append, length_encodeLittle, length_flatMap_gea]
  have fits := record.nameFits
  constructor
  case cbName =>
    rw [take_drop_split shape start (length_encodeLittle 1 _).symm]
    exact littleEndian_encodeLittle 1 _ (by omega)
  case szName =>
    have atName : geaListOf requested behind =
        ((encodeLittle 4 (4 + geaSize requested) ++ past.flatMap GeaRecord.encode) ++
          encodeLittle 1 record.name.length) ++
          (record.name ++ 0 :: (rest.flatMap GeaRecord.encode ++ behind)) := by
      simp [shape]
    have start1 : 4 + geaSize past + 1 =
        ((encodeLittle 4 (4 + geaSize requested) ++ past.flatMap GeaRecord.encode) ++
          encodeLittle 1 record.name.length).length := by
      rw [List.length_append, ← start, length_encodeLittle]
    rw [atName, start1, List.drop_left]
    exact beforeFirst_append_separator 0 record.nameClean
  case inside =>
    have total : geaSize requested = geaSize past + (record.size + geaSize rest) := by
      rw [whole, geaSize_append, geaSize_cons]
    rw [length_geaListOf]
    omega

/-! Looking a name up among them. -/

def Requested (requested : List GeaRecord) (name : CString) : Prop :=
  ∃ record ∈ requested, record.name = name

def Begins (requested : List GeaRecord) (name : CString) : Prop :=
  ∃ record ∈ requested, record.name <+: name

instance (requested : List GeaRecord) (name : CString) : Decidable (Requested requested name) :=
  inferInstanceAs (Decidable (∃ record ∈ requested, record.name = name))

instance (requested : List GeaRecord) (name : CString) : Decidable (Begins requested name) :=
  inferInstanceAs (Decidable (∃ record ∈ requested, record.name <+: name))

theorem Requested.begins {requested : List GeaRecord} {name : CString}
    (asked : Requested requested name) : Begins requested name := by
  obtain ⟨record, member, rfl⟩ := asked
  exact ⟨record, member, List.prefix_rfl⟩

/-- Only the characters of the requested name are compared. -/
theorem sameBytes_iff {requested name : CString} :
    sameBytes requested.length name requested = true ↔ requested <+: name := by
  rw [List.prefix_iff_eq_take, sameBytes, List.take_length, decide_eq_true_iff]
  exact eq_comm

section Lookup

variable {eas : List EaStruct} {requested past rest : List GeaRecord} {behind : List UInt8}
  {name : CString}

theorem ensures_geaMatches {seen : EaAnswer} {post : Bool → EaAnswer → Prop} {fuel : Nat}
    (whole : requested = past ++ rest) (small : 4 + geaSize requested < 2 ^ 32)
    (enough : rest.length < fuel) (done : post (decide (Begins rest name)) seen) :
    (answerWatch eas).Ensures post
      (geaMatches (geaListOf requested behind) name (geaSize requested) fuel (4 + geaSize past)
        (geaSize past)) seen := by
  induction rest generalizing past fuel with
  | nil =>
      cases fuel with
      | zero => omega
      | succ fuel =>
          rw [List.append_nil] at whole
          subst whole
          have nothing : decide (Begins [] name) = false := rfl
          rw [geaMatches, if_neg (lt_irrefl _), ← nothing]
          exact done
  | cons record rest ih =>
      cases fuel with
      | zero => omega
      | succ fuel =>
          have place : GeaAt (geaListOf requested behind) record (4 + geaSize past) :=
            geaAt_list whole
          have inside := place.inside
          have sized : record.size = record.name.length + 2 := rfl
          have total : geaSize requested = geaSize past + (record.size + geaSize rest) := by
            rw [whole, geaSize_append, geaSize_cons]
          have onward : requested = (past ++ [record]) ++ rest := by simp [whole]
          have advanced : geaSize (past ++ [record]) = geaSize past + record.size := by
            rw [geaSize_append, geaSize_cons]
            rfl
          have next : addLong (geaSize past) (record.name.length + 2) =
              geaSize (past ++ [record]) := by
            rw [advanced]
            exact addLong_of_lt (by omega)
          have pointer : 4 + geaSize past + record.name.length + 2 =
              4 + geaSize (past ++ [record]) := by omega
          rw [geaMatches, if_pos (by omega)]
          refine Watch.ensures_bind.mpr (EaAnswer.loadNumber (by omega) ?_)
          rw [place.cbName, loadString, place.szName]
          refine Watch.ensures_bind.mpr (Watch.ensures_bind.mpr (EaAnswer.load (by omega) ?_))
          rw [Watch.ensures_pure]
          by_cases matched : record.name <+: name
          · rw [if_pos (sameBytes_iff.mpr matched)]
            have begun : decide (Begins (record :: rest) name) = true :=
              decide_eq_true ⟨record, List.mem_cons_self, matched⟩
            rw [begun] at done
            exact done
          · rw [if_neg (mt sameBytes_iff.mp matched), next, pointer]
            have same : decide (Begins (record :: rest) name) = decide (Begins rest name) := by
              apply decide_eq_decide.mpr
              simp [Begins, matched]
            rw [same] at done
            exact ih onward (by simpa using enough) done

theorem decides_requested (present : requested ≠ []) (small : 4 + geaSize requested < 2 ^ 32) :
    Decides eas (some (geaListOf requested behind)) name (decide (Begins requested name)) := by
  intro seen post done
  have length := length_geaListOf requested behind
  have many := length_le_geaSize requested
  have some := List.length_pos_iff.mpr present
  have counted : littleEndian (((geaListOf requested behind).drop 0).take 4) =
      4 + geaSize requested := by
    rw [List.drop_zero, geaListOf, List.take_left' (length_encodeLittle 4 _)]
    exact littleEndian_encodeLittle 4 _ (by omega)
  have more : 4 + geaSize requested > sizeofLong := by
    simp only [sizeofLong]
    omega
  have whole : requested = [] ++ requested := rfl
  have asked : 4 + geaSize requested - sizeofLong = geaSize requested :=
    Nat.add_sub_cancel_left 4 _
  refine Watch.ensures_bind.mpr (EaAnswer.loadNumber (by omega) ?_)
  rw [counted, if_pos more, asked]
  exact ensures_geaMatches whole small (by omega) done

end Lookup

namespace FeaRecord

def ea (record : FeaRecord) : EaStruct := { name := record.name, value := record.value }

theorem encode_eq_ea (record : FeaRecord) : record.encode = record.ea.flagged record.fEA := by
  simp [encode, header, ea, EaStruct.flagged]

end FeaRecord

theorem easSize_records (records : List FeaRecord) :
    easSize (records.map FeaRecord.ea) = recordsSize records := by
  rw [easSize, List.map_map]
  rfl

theorem holdsEas_feaListOf {records : List FeaRecord} (behind : List UInt8)
    (small : cbListOf records < 2 ^ 32) :
    HoldsEas (feaListOf records behind) (records.map FeaRecord.ea) := by
  have size : 4 + easSize (records.map FeaRecord.ea) = cbListOf records := by
    rw [easSize_records]
    rfl
  rw [← size] at small
  constructor
  case counted =>
    rw [size, feaListOf, List.take_left' (length_encodeLittle 4 _)]
    exact littleEndian_encodeLittle 4 _ (by omega)
  case small => exact small
  case whole =>
    rw [size, feaListOf, List.length_append, List.length_append, length_encodeLittle,
      length_flatMap_encode, cbListOf]
    omega
  case clean =>
    intro ea member
    obtain ⟨record, _, rfl⟩ := List.mem_map.mp member
    exact record.nameClean
  case placed =>
    intro past ea rest split
    obtain ⟨first, second, rfl, rfl, others⟩ := List.map_eq_append_iff.mp split
    obtain ⟨record, later, rfl, rfl, rfl⟩ := List.map_eq_cons_iff.mp others
    have shape : feaListOf (first ++ record :: later) behind =
        (encodeLittle 4 (cbListOf (first ++ record :: later)) ++
          first.flatMap FeaRecord.encode) ++
          (record.ea.flagged record.fEA ++ (later.flatMap FeaRecord.encode ++ behind)) := by
      simp [feaListOf, FeaRecord.encode_eq_ea]
    apply eaAt_of_split shape
    · rw [List.length_append, length_encodeLittle, length_flatMap_encode, easSize_records]
    · exact ⟨record.nameFits, record.valueFits⟩

theorem fit_records {records : List FeaRecord} :
    ∀ ea ∈ records.map FeaRecord.ea, ea.Representable := by
  intro ea member
  obtain ⟨record, _, rfl⟩ := List.mem_map.mp member
  exact ⟨record.nameFits, record.valueFits⟩

/-! What is copied. -/

/-- The EAs of the source whose whole name is asked for. -/
def selected (requested : List GeaRecord) (records : List FeaRecord) : List EaStruct :=
  (records.map FeaRecord.ea).filter fun ea => decide (Requested requested ea.name)

theorem all_of_easSize_filter {narrow wide : EaStruct → Bool} {eas : List EaStruct}
    (widens : ∀ ea, narrow ea = true → wide ea = true)
    (same : easSize (eas.filter wide) = easSize (eas.filter narrow)) :
    ∀ ea ∈ eas, wide ea = true → narrow ea = true := by
  induction eas with
  | nil => simp
  | cons ea rest ih =>
      have sized : ea.size = 4 + ea.name.length + 1 + ea.value.length := rfl
      have fewer : easSize (rest.filter narrow) ≤ easSize (rest.filter wide) := by
        have again : (rest.filter wide).filter narrow = rest.filter narrow := by
          rw [List.filter_filter]
          apply List.filter_congr
          intro other _
          by_cases chosen : narrow other = true
          · simp [chosen, widens other chosen]
          · simp [chosen]
        rw [← again]
        exact easSize_filter_le narrow _
      rw [List.forall_mem_cons]
      by_cases chosen : narrow ea = true
      · rw [List.filter_cons_of_pos (widens ea chosen), List.filter_cons_of_pos chosen,
          easSize_cons, easSize_cons] at same
        exact ⟨fun _ => chosen, ih (by omega)⟩
      · rw [List.filter_cons_of_neg chosen] at same
        by_cases taken : wide ea = true
        · rw [List.filter_cons_of_pos taken, easSize_cons] at same
          omega
        · rw [List.filter_cons_of_neg taken] at same
          exact ⟨fun given => absurd given taken, ih same⟩

theorem Op.ServedBy.serverEas {eas : List EaStruct} {R : Type} {op : Op R} {reply : R}
    (served : Op.ServedBy none R op) : ServerEas eas ⟨op, reply⟩ := by
  cases op with
  | request cli ask => exact absurd served (Option.some_ne_none cli).symm
  | _ => trivial

section Selection

variable {requested : List GeaRecord} {records : List FeaRecord} {behind behindNames : List UInt8}
  {pFEAList : List UInt8}

theorem built_begins {trace : List CallEvent} {outcome : Option (Int × List UInt8)}
    (present : requested ≠ []) (smallNames : 4 + geaSize requested < 2 ^ 32)
    (small : cbListOf records < 2 ^ 32) (header : 4 ≤ littleEndian (pFEAList.take 4))
    (capacity : littleEndian (pFEAList.take 4) ≤ pFEAList.length)
    (run : Run (buildFEALIST (feaListOf records behind) (some (geaListOf requested behindNames))
      pFEAList) trace outcome) :
    ∃ rc list, outcome = some (rc, list) ∧
      Built ((records.map FeaRecord.ea).filter fun ea => decide (Begins requested ea.name))
        pFEAList rc list := by
  have decides : ∀ ea ∈ records.map FeaRecord.ea,
      Decides [] (some (geaListOf requested behindNames)) ea.name
        (decide (Begins requested ea.name)) :=
    fun _ _ => decides_requested present smallNames
  have unwritten : ({} : EaAnswer).written ≤ littleEndian (pFEAList.take 4) := Nat.zero_le _
  have ensured := ensures_selected (holdsEas_feaListOf behind small) fit_records decides
    header capacity unwritten
  have admitted : (answerWatch []).Admits {} trace := by
    apply Watch.admits_of_forall
    intro event member _
    exact Op.ServedBy.serverEas ((only_buildFEALIST none _ _ _).run run event member)
  have concluded := Watch.ensures_iff_runs.mp ensured trace outcome run admitted
  cases outcome with
  | none => exact concluded.elim
  | some answer => exact ⟨answer.1, answer.2, rfl, concluded.1⟩

end Selection

/-- A request by names copies exactly the EAs that are asked for when no other EA of the source
begins with such a name, and only then. -/
theorem geaRequest_exact_iff {requested : List GeaRecord} {records : List FeaRecord}
    {behind behindNames pFEAList : List UInt8} (present : requested ≠ [])
    (smallNames : 4 + geaSize requested < 2 ^ 32) (small : cbListOf records < 2 ^ 32)
    (room : 4 + easSize (selected requested records) ≤ littleEndian (pFEAList.take 4))
    (capacity : littleEndian (pFEAList.take 4) ≤ pFEAList.length) :
    (∀ trace outcome,
      Run (buildFEALIST (feaListOf records behind) (some (geaListOf requested behindNames))
        pFEAList) trace outcome →
      ∃ list, outcome = some (0, list) ∧
        littleEndian (list.take 4) = 4 + easSize (selected requested records) ∧
        decodeFealist list = selected requested records) ↔
    ∀ record ∈ records, Begins requested record.name → Requested requested record.name := by
  have header : 4 ≤ littleEndian (pFEAList.take 4) := (Nat.le_add_right 4 _).trans room
  constructor
  · intro copies record member begun
    have run := run_exec (fun _ _ op => op.usual) (buildFEALIST (feaListOf records behind)
      (some (geaListOf requested behindNames)) pFEAList) 0
    obtain ⟨list, returned, counted, -⟩ := copies _ _ run
    obtain ⟨rc, other, same, built⟩ := built_begins present smallNames small header capacity run
    obtain ⟨rfl, rfl⟩ := Prod.mk.inj (Option.some.inj (returned.symm.trans same))
    have sizes := built.counted.symm.trans counted
    have widens : ∀ ea : EaStruct, decide (Requested requested ea.name) = true →
        decide (Begins requested ea.name) = true :=
      fun ea asked => decide_eq_true (of_decide_eq_true asked).begins
    have all := all_of_easSize_filter widens (Nat.add_left_cancel sizes)
    exact of_decide_eq_true (all record.ea (List.mem_map_of_mem member) (decide_eq_true begun))
  · intro whole trace outcome run
    obtain ⟨rc, list, rfl, built⟩ := built_begins present smallNames small header capacity run
    have same : ((records.map FeaRecord.ea).filter fun ea => decide (Begins requested ea.name)) =
        selected requested records := by
      apply List.filter_congr
      intro ea member
      obtain ⟨record, inside, rfl⟩ := List.mem_map.mp member
      apply decide_eq_decide.mpr
      exact ⟨whole record inside, Requested.begins⟩
    rw [same] at built
    have returned := built.returned
    rw [if_neg (by omega)] at returned
    exact ⟨list, by rw [returned], built.counted, built.decoded room⟩

def shortEa (name : CString) (nameFits : name.length ≤ 255) (nameClean : 0 ∉ name) : FeaRecord where
  fEA := 0
  name
  value := [49]
  nameFits
  nameClean
  valueFits := oneByte_fits

def typeEa : FeaRecord := shortEa (bytes ".TYPE") (by decide) (by decide)

def typesEa : FeaRecord := shortEa (bytes ".TYPES") (by decide) (by decide)

def typeName : GeaRecord := ⟨bytes ".TYPE", by decide, by decide⟩

def thirtyTwoBytes : List UInt8 := encodeLittle 4 32 ++ List.replicate 28 0

def subjectEa : FeaRecord := shortEa (bytes ".SUBJECT") (by decide) (by decide)

def iconEa : FeaRecord := shortEa (bytes ".ICON") (by decide) (by decide)

def subjectName : GeaRecord := ⟨bytes ".SUBJECT", by decide, by decide⟩

theorem geaRequest_exact_iff_two :
    selected [subjectName, typeName] [typeEa, iconEa, subjectEa] = [typeEa.ea, subjectEa.ea] ∧
    ∀ trace outcome,
      Run (buildFEALIST (feaListOf [typeEa, iconEa, subjectEa] [])
        (some (geaListOf [subjectName, typeName] [])) thirtyTwoBytes) trace outcome →
      ∃ list, outcome = some (0, list) ∧
        littleEndian (list.take 4) =
          4 + easSize (selected [subjectName, typeName] [typeEa, iconEa, subjectEa]) ∧
        decodeFealist list = selected [subjectName, typeName] [typeEa, iconEa, subjectEa] := by
  refine ⟨by decide, ?_⟩
  apply (geaRequest_exact_iff (by simp) (by decide) (by decide) (by decide) (by decide)).mpr
  intro record member begun
  simp only [List.mem_cons, List.not_mem_nil, or_false] at member
  rcases member with rfl | rfl | rfl
  · exact ⟨typeName, by simp, rfl⟩
  · exact absurd begun (by decide)
  · exact ⟨subjectName, by simp, rfl⟩

/-- A longer name that begins with the requested one is copied with it. -/
theorem longer_name_copied :
    ∃ trace list, Run (buildFEALIST (feaListOf [typesEa, typeEa] [])
        (some (geaListOf [typeName] [])) thirtyTwoBytes) trace (some (0, list)) ∧
      decodeFealist list = [typesEa.ea, typeEa.ea] ∧
      selected [typeName] [typesEa, typeEa] = [typeEa.ea] ∧
      decodeFealist list ≠ selected [typeName] [typesEa, typeEa] := by
  have returned : (exec (fun _ _ op => op.usual) 0 (buildFEALIST (feaListOf [typesEa, typeEa] [])
      (some (geaListOf [typeName] [])) thirtyTwoBytes)).2 =
      some (0, packed 27 [typesEa.ea, typeEa.ea] (List.replicate 5 0)) := by decide
  exact ⟨_, _, returned ▸ run_exec _ _ _, by decide, by decide, by decide⟩

end NdpSmb
