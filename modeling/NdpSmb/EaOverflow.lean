import NdpSmb.EaAnswer

/-!
The EA list of a file in a buffer that may be too small for it.
-/

namespace NdpSmb

open ByteString Interaction

/-! What `buildFEALIST` reads of its source. -/

def Op.ReadsWithin (limit : Nat) : (R : Type) → Op R → Prop
  | _, .load .scratch offset count => offset + count ≤ limit
  | _, _ => True

theorem buildLoop_readsWithin {all past rest : List EaStruct} {pFEASrc list : List UInt8}
    {pGEAList : Option (List UInt8)} {dsize fuel ddone pfeadest : Nat}
    (source : HoldsEas pFEASrc all) (whole : all = past ++ rest) :
    (buildLoop pFEASrc pGEAList (4 + easSize all) dsize fuel (4 + easSize past) ddone pfeadest
      list).Only (Op.ReadsWithin (4 + easSize all)) := by
  induction rest generalizing past fuel ddone pfeadest list with
  | nil =>
      cases fuel with
      | zero => trivial
      | succ fuel =>
          rw [List.append_nil] at whole
          subst whole
          rw [buildLoop, if_neg (lt_irrefl _)]
          trivial
  | cons ea rest ih =>
      cases fuel with
      | zero => trivial
      | succ fuel =>
          have member : ea ∈ all := by simp [whole]
          have total : easSize all = easSize past + (ea.size + easSize rest) := by
            rw [whole, easSize_append, easSize_cons]
          have sized : ea.size = sizeofFea + ea.name.length + 1 + ea.value.length := rfl
          have four : sizeofFea = 4 := rfl
          have small := source.small
          have place := source.placed past ea rest whole
          have next : addLong (4 + easSize past)
              (sizeofFea + ea.name.length + 1 + ea.value.length) = 4 + easSize (past ++ [ea]) :=
            addLong_record (by omega)
          have onward : all = (past ++ [ea]) ++ rest := by simp [whole]
          have text := place.text (source.clean ea member)
          rw [buildLoop, if_pos (by omega)]
          refine Prog.Only.bind_returns (loadString_only _ _ ?_) (returns_loadString _) ?_
          · show 4 + easSize past + sizeofFea + _ ≤ _
            rw [text]
            omega
          rintro name ⟨rfl, -⟩
          refine (feaWanted_only (fun _ _ => trivial) pGEAList _).bind fun insert => ?_
          refine Prog.Only.bind_returns (loadNumber_only _ _ ?_) (returns_loadNumber _ _) ?_
          · show 4 + easSize past + 1 + 1 ≤ _
            omega
          rintro cbName rfl
          refine Prog.Only.bind_returns (loadNumber_only _ _ ?_) (returns_loadNumber _ _) ?_
          · show 4 + easSize past + 2 + 2 ≤ _
            omega
          rintro cbValue rfl
          rw [place.cbName, place.cbValue, next]
          simp only
          split
          · split
            · refine (copyFea_only _ _ _ _ (fun _ _ => trivial) ?_).bind fun _ => ih onward
              show 4 + easSize past + sizeofFea + ea.name.length + 1 + ea.value.length ≤ _
              omega
            · exact ih onward
          · exact ih onward

theorem buildFEALIST_readsWithin {eas : List EaStruct} {free pFEAList : List UInt8}
    {pGEAList : Option (List UInt8)} (clean : ∀ ea ∈ eas, 0 ∉ ea.name)
    (small : eaListSize eas < 2 ^ 32) :
    (buildFEALIST (packed (eaListSize eas) (representables eas) free) pGEAList pFEAList).Only
      (Op.ReadsWithin (eaListSize eas)) := by
  have whole : representables eas = [] ++ representables eas := rfl
  have source : HoldsEas (packed (eaListSize eas) (representables eas) free)
      (representables eas) := holdsEas_packed fit_representables (clean_representables clean) small
  refine Prog.Only.bind_returns (loadNumber_only _ _ ?_) (returns_loadNumber _ _) ?_
  · exact Nat.le_add_right 4 _
  rintro size rfl
  rw [List.drop_zero, source.counted]
  refine (loadNumber_only _ _ trivial).bind fun dsize => ?_
  refine (buildLoop_readsWithin source whole).bind fun built => ?_
  exact (storeBytes_only _ _ trivial).bind fun _ => trivial

theorem returns_writeEas {size : Nat} {eas : List EaStruct} {p gotsize : Nat}
    {buffer : List UInt8} (small : gotsize < 2 ^ 32) :
    (writeEas size eas p gotsize buffer).Returns fun answer =>
      answer.1 = (gotsize + easSize (representables eas)) % 2 ^ 32 := by
  induction eas generalizing p gotsize buffer with
  | nil => exact (Nat.mod_eq_of_lt small).symm
  | cons ea rest ih =>
      rw [writeEas]
      by_cases fit : ea.Representable
      · have plain : ¬ (ea.name.length > 0xFF ∨ ea.value.length > 0xFFFF) := by
          obtain ⟨nameFits, valueFits⟩ := fit
          omega
        have kept : representables (ea :: rest) = ea :: representables rest := by
          simp [representables, fit]
        have sized : sizeofFea + ea.name.length + ea.value.length + 1 = ea.size := by
          simp only [EaStruct.size, sizeofFea]
          omega
        have wrapped : addLong gotsize ea.size < 2 ^ 32 := Nat.mod_lt _ (by decide)
        have sum : (addLong gotsize ea.size + easSize (representables rest)) % 2 ^ 32 =
            (gotsize + easSize (representables (ea :: rest))) % 2 ^ 32 := by
          rw [kept, easSize_cons, addLong]
          omega
        rw [if_neg plain, sized, ← sum]
        simp only
        split
        · refine Prog.returns_bind.mpr (Prog.returns_of_forall fun _ => ?_)
          refine Prog.returns_bind.mpr (Prog.returns_of_forall fun _ => ?_)
          exact Prog.returns_bind.mpr (Prog.returns_of_forall fun _ => ih wrapped)
        · exact ih wrapped
      · have dropped : representables (ea :: rest) = representables rest := by
          simp [representables, fit]
        have large : ea.name.length > 0xFF ∨ ea.value.length > 0xFFFF := by
          by_contra plain
          exact fit ⟨by omega, by omega⟩
        rw [if_pos large, dropped]
        exact ih small

def cbListOfBuffer (content : List UInt8) : Nat :=
  littleEndian (content.take 4)

theorem returns_storeCbList {buffer : Buffer} {object : List UInt8} {cbList : Nat}
    (small : cbList < 2 ^ 32) :
    (storeBytes buffer object 0 (encodeLittle 4 cbList)).Returns fun content =>
      cbListOfBuffer content = cbList := by
  refine Prog.returns_perform_bind.mpr fun _ => ?_
  split
  · refine Prog.returns_pure.mpr ?_
    rw [cbListOfBuffer, List.take_zero, List.nil_append,
      List.take_left' (length_encodeLittle 4 _)]
    exact littleEndian_encodeLittle 4 _ (by omega)
  · trivial

def servedWatch (eas : List EaStruct) : Watch Op Unit where
  observe _ _ := ()
  admits _ event := ServerEas eas event

theorem admits_served {eas : List EaStruct} {trace : List CallEvent}
    (served : ∀ event ∈ trace, ServerEas eas event) : (servedWatch eas).Admits () trace :=
  Watch.admits_of_forall _ fun event member _ => served event member

theorem ensures_counted {eas : List EaStruct} {cli : Handle} {fname : CString}
    {buffer : List UInt8} {size : Nat} :
    (servedWatch eas).Ensures (fun answer _ => answer.1 = 0 ∧
        cbListOfBuffer answer.2 = eaListSize eas % 2 ^ 32)
      (smbwrpListea (some cli) fname buffer size) () := by
  have crash (memory : Unit) : (servedWatch eas).crash memory := trivial
  refine Watch.ensures_bind.mpr (Watch.ensures_of_forall crash fun cleared _ => ?_)
  refine Watch.ensures_perform_bind.mpr fun reply served => ?_
  obtain rfl : reply = some eas := served
  apply (Watch.ensures_of_returns crash
    (returns_writeEas (by decide))).bind
  intro written _ counted
  have wrapped : written.1 < 2 ^ 32 := by
    rw [counted]
    exact Nat.mod_lt _ (by decide)
  apply (Watch.ensures_of_returns crash
    (returns_storeCbList wrapped)).bind
  intro content _ stored
  exact ⟨rfl, stored.trans counted⟩

/-! What may be presented as the list of a file. -/

/-- The whole list, in the buffer, and nothing but the list is read when it is copied. -/
structure WholeList (eas : List EaStruct) (size : Nat) (content : List UInt8) : Prop where
  bounded : cbListOfBuffer content ≤ size
  ended : 4 + easSize (decodeFealist content) = cbListOfBuffer content
  complete : decodeFealist content = representables eas
  readsWithin : ∀ pGEAList pFEAList trace outcome,
    Run (buildFEALIST content pGEAList pFEAList) trace outcome →
    ∀ event ∈ trace, Op.ReadsWithin (cbListOfBuffer content) event.R event.op

/-- Success with the whole list, or the error with the length that is needed. -/
def PresentsList (eas : List EaStruct) (size : Nat) : Option (Int × List UInt8) → Prop
  | some (rc, content) => rc = 0 ∧ WholeList eas size content ∨
      rc = errorBufferOverflow ∧ size < eaListSize eas ∧
        cbListOfBuffer content = eaListSize eas % 2 ^ 32
  | none => False

theorem wholeList_packed {eas : List EaStruct} {free : List UInt8} {size : Nat}
    (clean : ∀ ea ∈ eas, 0 ∉ ea.name) (fits : eaListSize eas ≤ size) (small : size < 2 ^ 32) :
    WholeList eas size (packed (eaListSize eas) (representables eas) free) := by
  have smallList : eaListSize eas < 2 ^ 32 := by omega
  have counted : cbListOfBuffer (packed (eaListSize eas) (representables eas) free) =
      eaListSize eas := littleEndian_packed smallList
  have decoded : decodeFealist (packed (eaListSize eas) (representables eas) free) =
      representables eas := decodeFealist_packed free fit_representables smallList
  constructor
  case bounded =>
    rw [counted]
    exact fits
  case ended =>
    rw [counted, decoded]
    rfl
  case complete => exact decoded
  case readsWithin =>
    intro pGEAList pFEAList trace outcome run
    rw [counted]
    exact (buildFEALIST_readsWithin clean smallList).run run

def reporting (eas : List EaStruct) : (R : Type) → Op R → R
  | _, .request _ (.cliGetEaListPath _) => some eas
  | _, op => op.usual

theorem serves_reporting (eas : List EaStruct) (R : Type) (op : Op R) :
    ServerEas eas ⟨op, reporting eas R op⟩ := by
  cases op with
  | request cli ask =>
      cases ask with
      | cliGetEaListPath fname => rfl
      | _ => trivial
  | _ => trivial

section Listing

variable {eas : List EaStruct} {cli : Handle} {fname : CString} {buffer : List UInt8} {size : Nat}

theorem listea_presents (clean : ∀ ea ∈ eas, 0 ∉ ea.name) (fits : eaListSize eas ≤ size)
    (small : size < 2 ^ 32) (length : buffer.length = size) {trace : List CallEvent}
    {outcome : Option (Int × List UInt8)}
    (run : Run (smbwrpListea (some cli) fname buffer size) trace outcome)
    (served : ∀ event ∈ trace, ServerEas eas event) : PresentsList eas size outcome := by
  have ensured : (answerWatch eas).Ensures (fun answer _ => PresentsList eas size (some answer))
      (smbwrpListea (some cli) fname buffer size) {} := by
    apply ensures_smbwrpListea fits small length
    · intro unconnected
      cases unconnected
    · intro free _
      exact .inl ⟨rfl, wholeList_packed clean fits small⟩
  have admitted : (answerWatch eas).Admits {} trace :=
    Watch.admits_of_forall _ fun event member _ => served event member
  have concluded := Watch.ensures_iff_runs.mp ensured trace outcome run admitted
  cases outcome with
  | none => exact concluded
  | some answer => exact concluded

theorem fits_of_presents
    (presents : ∀ trace outcome, Run (smbwrpListea (some cli) fname buffer size) trace outcome →
      (∀ event ∈ trace, ServerEas eas event) → PresentsList eas size outcome) :
    eaListSize eas ≤ size := by
  have run := run_exec (fun _ => reporting eas) (smbwrpListea (some cli) fname buffer size) 0
  have served := exec_forall (fun _ => reporting eas) (fun _ => serves_reporting eas)
    (smbwrpListea (some cli) fname buffer size) 0
  have presented := presents _ _ run served
  generalize (exec (fun _ => reporting eas) 0
    (smbwrpListea (some cli) fname buffer size)).2 = outcome at run presented
  cases outcome with
  | none => exact presented.elim
  | some answer =>
      have counted := ensures_counted.run run (admits_served served)
      obtain ⟨_, whole⟩ | ⟨failed, _⟩ := presented
      · have ended := whole.ended
        rw [whole.complete] at ended
        exact (le_of_eq ended).trans whole.bounded
      · rw [counted.1] at failed
        exact absurd failed (by decide)

theorem presents_iff (clean : ∀ ea ∈ eas, 0 ∉ ea.name) (small : size < 2 ^ 32)
    (length : buffer.length = size) :
    (∀ trace outcome, Run (smbwrpListea (some cli) fname buffer size) trace outcome →
      (∀ event ∈ trace, ServerEas eas event) → PresentsList eas size outcome) ↔
    eaListSize eas ≤ size := by
  constructor
  · exact fits_of_presents
  · intro fits trace outcome run served
    exact listea_presents clean fits small length run served

end Listing

/-- Whatever EAs the server has, the list of a path and that of a file are presented as they are
exactly when they fit the buffer. -/
theorem eaList_presented_iff {eas : List EaStruct} {cli : Handle} {fname : CString}
    {file : SmbwrpFile} {buffer : List UInt8} {size : Nat} (clean : ∀ ea ∈ eas, 0 ∉ ea.name)
    (small : size < 2 ^ 32) (length : buffer.length = size) :
    ∀ listea ∈ [smbwrpListea (some cli) fname buffer size,
        smbwrpFlistea (some cli) file buffer size],
      (∀ trace outcome, Run listea trace outcome → (∀ event ∈ trace, ServerEas eas event) →
        PresentsList eas size outcome) ↔ eaListSize eas ≤ size := by
  intro listea member
  simp only [List.mem_cons, List.not_mem_nil, or_false] at member
  obtain rfl | rfl := member
  · exact presents_iff clean small length
  · exact presents_iff clean small length

theorem eaList_presented_iff_one :
    ([smbwrpListea (some 1) (bytes "\\F") sixteenBytes 16,
      smbwrpFlistea (some 1) { fname := bytes "\\F" } sixteenBytes 16].Forall fun listea =>
      (∀ trace outcome, Run listea trace outcome → (∀ event ∈ trace, ServerEas oneEa event) →
        PresentsList oneEa 16 outcome) ↔ eaListSize oneEa ≤ 16) :=
  List.forall_iff_forall_mem.mpr (eaList_presented_iff (by decide) (by decide) (by decide))

def twoEas (length : Nat) : List EaStruct := [
  { name := bytes "A", value := List.replicate length 0 },
  { name := bytes "B", value := List.replicate length 0 }]

theorem eaListSize_twoEas {length : Nat} (small : length ≤ 0xFFFF) :
    eaListSize (twoEas length) = 16 + 2 * length := by
  have nameA : (bytes "A").length = 1 := rfl
  have nameB : (bytes "B").length = 1 := rfl
  have short : 1 ≤ 0xFF := by decide
  have kept : representables (twoEas length) = twoEas length := by
    apply List.filter_eq_self.mpr
    intro ea member
    apply decide_eq_true
    simp only [twoEas, List.mem_cons, List.not_mem_nil, or_false] at member
    obtain rfl | rfl := member
    · exact ⟨nameA.trans_le short, List.length_replicate.trans_le small⟩
    · exact ⟨nameB.trans_le short, List.length_replicate.trans_le small⟩
  have nothing : easSize [] = 0 := rfl
  rw [eaListSize, kept]
  simp only [twoEas, easSize_cons, EaStruct.size, List.length_replicate, nameA, nameB, nothing]
  omega

/-- They do not fit the buffer of the callers, and are presented as if they did. -/
theorem twoLargeEas_presented :
    (∀ trace answer, Run (smbwrpListea (some 1) (bytes "\\F") (List.replicate cbBuffer 0) cbBuffer)
        trace (some answer) → (∀ event ∈ trace, ServerEas (twoEas 40000) event) →
      answer.1 = 0 ∧ cbListOfBuffer answer.2 = 80016) ∧
    ¬ (∀ trace outcome,
      Run (smbwrpListea (some 1) (bytes "\\F") (List.replicate cbBuffer 0) cbBuffer) trace outcome →
        (∀ event ∈ trace, ServerEas (twoEas 40000) event) →
          PresentsList (twoEas 40000) cbBuffer outcome) := by
  constructor
  · intro trace answer run served
    have counted := ensures_counted.run run (admits_served served)
    rw [eaListSize_twoEas (by decide)] at counted
    exact counted
  · intro presents
    have fits := fits_of_presents presents
    rw [eaListSize_twoEas (by decide)] at fits
    exact absurd fits (by decide)

end NdpSmb
