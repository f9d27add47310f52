import NdpSmb.EaSelection
import NdpSmb.FileCalls
import NdpSmb.Simulation

/-!
The query for the EAs of a path and the query for those of the open file, answered by the
same server.
-/

namespace NdpSmb

open ByteString Interaction

/-- EAs with names that end at their first zero, in at most 64 KB. -/
structure PackableEas where
  eas : List EaStruct
  clean : ∀ ea ∈ eas, 0 ∉ ea.name
  fits : eaListSize eas ≤ cbBuffer

/-- What the server has for each path, and the error behind a refusal. -/
structure EaServer where
  eas : CString → Option PackableEas
  errno : Int

abbrev Scratch := { content : List UInt8 // content.length = cbBuffer }

def EaServer.answers (server : EaServer) (finfo : SmbwrpFileinfo) (scratch : Scratch) :
    (R : Type) → Op R → R
  | _, .request _ (.cliGetEaListPath fname) => (server.eas fname).map PackableEas.eas
  | _, .request _ .cliErrno => server.errno
  | _, .fsphGetFileInfoData => (0, some finfo)
  | _, .mallocBuffer size =>
      if same : size = cbBuffer then some ⟨scratch.1, scratch.2.trans same.symm⟩ else none
  | _, op => op.usual

/-- A list of names whose length fits its length field. -/
structure Gealist where
  requested : List GeaRecord
  behind : List UInt8
  small : 4 + geaSize requested < 2 ^ 32

def Gealist.bytes (list : Gealist) : List UInt8 := geaListOf list.requested list.behind

/-- The caller's list: the bytes it says it has are there. -/
structure Fealist where
  bytes : List UInt8
  readable : 4 ≤ bytes.length
  within : littleEndian (bytes.take 4) ≤ bytes.length

def Fealist.capacity (list : Fealist) : Nat := littleEndian (list.bytes.take 4)

def asksFor (pGEAList : Option Gealist) (name : CString) : Bool :=
  match pGEAList with
  | none => true
  | some list => list.requested = [] ∨ Begins list.requested name

/-- The size of the list that is asked for. -/
def neededSize (pGEAList : Option Gealist) (eas : List EaStruct) : Nat :=
  4 + easSize ((representables eas).filter fun ea => asksFor pGEAList ea.name)

theorem decides_asksFor {eas : List EaStruct} (pGEAList : Option Gealist) (name : CString) :
    Decides eas (pGEAList.map Gealist.bytes) name (asksFor pGEAList name) := by
  cases pGEAList with
  | none => exact decides_noNames trivial
  | some list =>
      obtain ⟨requested, behind, small⟩ := list
      by_cases present : requested = []
      · subst present
        have all : asksFor (some ⟨[], behind, small⟩) name = true := by simp [asksFor]
        rw [all]
        apply decides_noNames
        constructor
        · rw [Gealist.bytes, length_geaListOf]
          omega
        · rw [Gealist.bytes, geaListOf, List.take_left' (length_encodeLittle 4 _)]
          exact (littleEndian_encodeLittle 4 _ (by simpa using small)).le
      · have begun : asksFor (some ⟨requested, behind, small⟩) name =
            decide (Begins requested name) := by simp [asksFor, present]
        rw [begun]
        exact decides_requested present small

/-! What `buildFEALIST` does with its source depends on the records only. -/

section Source

variable {all past rest : List EaStruct} {left right : List UInt8}

theorem related_loadBytes {offset count : Nat} {data : List UInt8}
    (inLeft : offset + count ≤ left.length) (inRight : offset + count ≤ right.length)
    (ofLeft : (left.drop offset).take count = data)
    (ofRight : (right.drop offset).take count = data) :
    Related (fun read other => read = data ∧ other = data)
      (loadBytes .scratch left offset count) (loadBytes .scratch right offset count) := by
  rw [loadBytes, loadBytes, if_pos inLeft, if_pos inRight]
  exact .call fun _ => .ret ⟨ofLeft, ofRight⟩

theorem related_loadNumber {offset count number : Nat}
    (inLeft : offset + count ≤ left.length) (inRight : offset + count ≤ right.length)
    (ofLeft : littleEndian ((left.drop offset).take count) = number)
    (ofRight : littleEndian ((right.drop offset).take count) = number) :
    Related (fun read other => read = number ∧ other = number)
      (loadBytes .scratch left offset count >>= fun bytes => pure (littleEndian bytes))
      (loadBytes .scratch right offset count >>= fun bytes => pure (littleEndian bytes)) := by
  rw [loadBytes, loadBytes, if_pos inLeft, if_pos inRight]
  exact .call fun _ => .ret ⟨ofLeft, ofRight⟩

theorem related_loadString {offset : Nat} {text : CString}
    (ofLeft : beforeFirst 0 (left.drop offset) = text)
    (ofRight : beforeFirst 0 (right.drop offset) = text)
    (inLeft : offset + (text.length + 1) ≤ left.length)
    (inRight : offset + (text.length + 1) ≤ right.length) :
    Related (fun read other => read = text ∧ other = text)
      (loadString .scratch left offset) (loadString .scratch right offset) := by
  rw [loadString, loadString, ofLeft, ofRight, loadBytes, loadBytes, if_pos inLeft, if_pos inRight]
  exact .call fun _ => .ret ⟨rfl, rfl⟩

theorem related_copyFea {ea : EaStruct} {pfea pfeadest : Nat} {pFEAList : List UInt8}
    (placeLeft : EaAt left ea pfea) (placeRight : EaAt right ea pfea) :
    Related Eq
      (copyFea left pFEAList pfea pfeadest ea.name.length ea.value.length ea.name)
      (copyFea right pFEAList pfea pfeadest ea.name.length ea.value.length ea.name) := by
  have sized : ea.size = sizeofFea + ea.name.length + 1 + ea.value.length := rfl
  have insideLeft := placeLeft.inside
  have insideRight := placeRight.inside
  refine (Related.refl _).bind ?_
  rintro header _ rfl
  refine (Related.refl _).bind ?_
  rintro named _ rfl
  refine (related_loadBytes (by omega) (by omega) placeLeft.value placeRight.value).bind ?_
  rintro value _ ⟨rfl, rfl⟩
  exact Related.refl _

theorem related_buildLoop (first : HoldsEas left all) (second : HoldsEas right all)
    (whole : all = past ++ rest) {pGEAList : Option (List UInt8)}
    {dsize fuel enough ddone pfeadest : Nat} {pFEAList : List UInt8}
    (fuelLeft : rest.length < fuel) (fuelRight : rest.length < enough) :
    Related Eq
      (buildLoop left pGEAList (4 + easSize all) dsize fuel (4 + easSize past) ddone pfeadest
        pFEAList)
      (buildLoop right pGEAList (4 + easSize all) dsize enough (4 + easSize past) ddone pfeadest
        pFEAList) := by
  induction rest generalizing past fuel enough ddone pfeadest pFEAList with
  | nil =>
      cases fuel with
      | zero => omega
      | succ fuel =>
          cases enough with
          | zero => omega
          | succ enough =>
              rw [List.append_nil] at whole
              subst whole
              rw [buildLoop, buildLoop, if_neg (lt_irrefl _), if_neg (lt_irrefl _)]
              exact .ret rfl
  | cons ea rest ih =>
      cases fuel with
      | zero => omega
      | succ fuel =>
          cases enough with
          | zero => omega
          | succ enough =>
              have member : ea ∈ all := by simp [whole]
              have total : easSize all = easSize past + (ea.size + easSize rest) := by
                rw [whole, easSize_append, easSize_cons]
              have sized : ea.size = sizeofFea + ea.name.length + 1 + ea.value.length := rfl
              have four : sizeofFea = 4 := rfl
              have small := first.small
              have placeLeft := first.placed past ea rest whole
              have placeRight := second.placed past ea rest whole
              have insideLeft := placeLeft.inside
              have insideRight := placeRight.inside
              have clean := first.clean ea member
              have next : addLong (4 + easSize past)
                  (sizeofFea + ea.name.length + 1 + ea.value.length) =
                  4 + easSize (past ++ [ea]) := addLong_record (by omega)
              have onward : all = (past ++ [ea]) ++ rest := by simp [whole]
              have shorterLeft : rest.length < fuel := by simpa using fuelLeft
              have shorterRight : rest.length < enough := by simpa using fuelRight
              have later (ddone pfeadest : Nat) (pFEAList : List UInt8) :=
                @ih (past ++ [ea]) onward fuel enough ddone pfeadest pFEAList shorterLeft
                  shorterRight
              rw [buildLoop, buildLoop, if_pos (by omega), if_pos (by omega)]
              refine (related_loadString (placeLeft.text clean) (placeRight.text clean)
                (by omega) (by omega)).bind ?_
              rintro name _ ⟨rfl, rfl⟩
              refine (Related.refl (feaWanted pGEAList ea.name)).bind ?_
              rintro insert _ rfl
              refine (related_loadNumber (by omega) (by omega) placeLeft.cbName
                placeRight.cbName).bind ?_
              rintro cbName _ ⟨rfl, rfl⟩
              refine (related_loadNumber (by omega) (by omega) placeLeft.cbValue
                placeRight.cbValue).bind ?_
              rintro cbValue _ ⟨rfl, rfl⟩
              simp only [next]
              by_cases wanted : insert = true
              · rw [if_pos wanted, if_pos wanted]
                split
                · refine (related_copyFea placeLeft placeRight).bind ?_
                  rintro copied _ rfl
                  exact later _ _ _
                · exact later _ _ _
              · rw [if_neg wanted, if_neg wanted]
                exact later _ _ _

theorem related_buildFEALIST (first : HoldsEas left all) (second : HoldsEas right all)
    (pGEAList : Option (List UInt8)) (pFEAList : List UInt8) :
    Related Eq (buildFEALIST left pGEAList pFEAList) (buildFEALIST right pGEAList pFEAList) := by
  have many := length_le_easSize all
  have wholeLeft := first.whole
  have wholeRight := second.whole
  have nothing : all = [] ++ all := rfl
  have countedLeft : littleEndian ((left.drop 0).take 4) = 4 + easSize all := first.counted
  have countedRight : littleEndian ((right.drop 0).take 4) = 4 + easSize all := second.counted
  refine (related_loadNumber (by omega) (by omega) countedLeft countedRight).bind ?_
  rintro size _ ⟨rfl, rfl⟩
  refine (Related.refl _).bind ?_
  rintro dsize _ rfl
  refine (related_buildLoop first second nothing (by omega) (by omega)).bind ?_
  rintro built _ rfl
  exact Related.refl _

end Source

section Query

variable {s : Session} {server : EaServer} {finfo : SmbwrpFileinfo} {scratch : Scratch}
  {pGEAList : Option (List UInt8)} {pFEAList : List UInt8}

theorem answered_guarded {α : Type} {refused : Int → α} (work : Program α) :
    answered (server.answers finfo scratch) (guarded refused work) =
      answered (server.answers finfo scratch) work := by
  change answered (server.answers finfo scratch) (work >>= fun answer => leave >>= fun _ =>
    pure answer) = _
  rw [answered_bind]
  exact Option.bind_fun_some _

theorem answered_pass {α β : Type} (work : Program α) (pass : α → β) :
    answered (server.answers finfo scratch) (work >>= fun answer => pure (pass answer)) =
      (answered (server.answers finfo scratch) work).map pass := by
  rw [answered_bind]
  cases answered (server.answers finfo scratch) work with
  | none => rfl
  | some answer => rfl

theorem answered_ndpEAQuery (supported : s.pRes.easupport ≠ 0) :
    answered (server.answers finfo scratch) (ndpEAQuery s pGEAList (some pFEAList)) =
      (answered (server.answers finfo scratch)
        (askEas (smbwrpListea s.pConn.cli finfo.fname) scratch.1 pGEAList pFEAList)).map
        fun answer => (if answer.1 ≠ 0 then errorEasNotSupported else answer.1, some answer.2) := by
  rw [ndpEAQuery, if_neg supported, answered_bind]
  change answered (server.answers finfo scratch) (guarded (fun rcLock => (rcLock, some pFEAList))
    (queryEas s finfo.fname pGEAList pFEAList)) = _
  rw [answered_guarded]
  exact answered_pass _ _

theorem answered_ndpFileEAQuery (supported : s.pRes.easupport ≠ 0) (opened : 0 ≤ s.pConn.file.fd) :
    answered (server.answers finfo scratch) (ndpFileEAQuery s pGEAList (some pFEAList)) =
      (answered (server.answers finfo scratch)
        (askEas (smbwrpListea s.pConn.cli s.pConn.file.fname) scratch.1 pGEAList pFEAList)).map
        fun answer => (answer.1, some answer.2) := by
  rw [ndpFileEAQuery, if_neg supported]
  change answered (server.answers finfo scratch) (guarded (fun rcLock => (rcLock, some pFEAList))
    (queryOpenEas s scratch.1 pGEAList pFEAList)) = _
  rw [answered_guarded, queryOpenEas, if_neg (not_lt.mpr opened)]
  exact answered_pass _ _

end Query

/-! What the query answers. -/

section Answer

variable {server : EaServer} {finfo : SmbwrpFileinfo} {cli : Handle} {fname : CString}

def exactly (eas : List EaStruct) : List UInt8 := packed (eaListSize eas) (representables eas) []

theorem holdsEas_listed (file : PackableEas) (free : List UInt8) :
    HoldsEas (packed (eaListSize file.eas) (representables file.eas) free)
      (representables file.eas) := by
  have small : eaListSize file.eas < 2 ^ 32 := file.fits.trans_lt (by decide)
  exact holdsEas_packed fit_representables (clean_representables file.clean) small

theorem answered_listea_listed {file : PackableEas} (has : server.eas fname = some file)
    (finfo : SmbwrpFileinfo) (cli : Handle) (scratch : Scratch) :
    ∃ free, answered (server.answers finfo scratch)
        (smbwrpListea (some cli) fname scratch.1 cbBuffer) =
      some (0, packed (eaListSize file.eas) (representables file.eas) free) := by
  obtain ⟨trace, run, told⟩ := run_answered (server.answers finfo scratch)
    (smbwrpListea (some cli) fname scratch.1 cbBuffer)
  have only : (smbwrpListea (some cli) fname scratch.1 cbBuffer).Only
      (fun R op => ∀ reply, reply = server.answers finfo scratch R op →
        ServerEas file.eas ⟨op, reply⟩) := by
    apply smbwrpListea_only
    · intro R op served reply _
      exact Op.ServedBy.serverEas served
    · intro used _ reply given
      rw [given]
      change (server.eas fname).map PackableEas.eas = some file.eas
      rw [has]
      rfl
    · intro used _ reply _
      trivial
  have served : ∀ event ∈ trace, ServerEas file.eas event := by
    intro event member
    exact only.run run event member event.reply (told event member)
  have small : cbBuffer < 2 ^ 32 := by decide
  have listed : (answerWatch file.eas).Ensures (fun answer _ => ∃ free,
      answer = (0, packed (eaListSize file.eas) (representables file.eas) free))
      (smbwrpListea (some cli) fname scratch.1 cbBuffer) {} := by
    apply ensures_smbwrpListea file.fits small scratch.2
    · intro unconnected
      exact absurd unconnected (Option.some_ne_none cli)
    · intro free _
      exact ⟨free, rfl⟩
  obtain ⟨answer, returned, free, rfl⟩ := returned_of_ensures listed served run
  exact ⟨free, returned⟩

theorem answered_logFreed {α : Type} (scratch : Scratch) (work : Program α) :
    answered (server.answers finfo scratch) (work >>= logFreed) =
      answered (server.answers finfo scratch) work := by
  rw [answered_bind]
  exact Option.bind_fun_some _

theorem answered_askEas {rc : Int} {pchBuffer pFEAList : List UInt8}
    {pGEAList : Option (List UInt8)} {scratch : Scratch}
    (gave : answered (server.answers finfo scratch)
      (smbwrpListea (some cli) fname scratch.1 cbBuffer) = some (rc, pchBuffer)) :
    answered (server.answers finfo scratch)
        (askEas (smbwrpListea (some cli) fname) scratch.1 pGEAList pFEAList) =
      answered (server.answers finfo scratch) (answerEas rc pchBuffer pGEAList pFEAList) := by
  rw [askEas, answered_bind, gave]
  exact answered_logFreed scratch _

theorem answered_askEas_listed {file : PackableEas} (has : server.eas fname = some file)
    (scratch : Scratch) (pGEAList : Option (List UInt8)) (pFEAList : List UInt8) :
    answered (server.answers finfo scratch)
        (askEas (smbwrpListea (some cli) fname) scratch.1 pGEAList pFEAList) =
      answered (server.answers finfo scratch)
        (buildFEALIST (exactly file.eas) pGEAList pFEAList) := by
  obtain ⟨free, gave⟩ := answered_listea_listed has finfo cli scratch
  rw [answered_askEas gave, answerEas, if_pos rfl]
  apply Related.answered_eq
  exact related_buildFEALIST (holdsEas_listed file free) (holdsEas_listed file []) _ _

theorem answered_build_alike {file : PackableEas} (finfo other : SmbwrpFileinfo)
    (scratch garbage : Scratch) (pGEAList : Option (List UInt8)) (pFEAList : List UInt8) :
    answered (server.answers finfo scratch) (buildFEALIST (exactly file.eas) pGEAList pFEAList) =
      answered (server.answers other garbage)
        (buildFEALIST (exactly file.eas) pGEAList pFEAList) := by
  have only : (buildFEALIST (exactly file.eas) pGEAList pFEAList).Only
      (fun R op => server.answers finfo scratch R op = server.answers other garbage R op) := by
    apply buildFEALIST_only
    · intro buffer offset count
      rfl
    · intro offset data
      rfl
  exact answered_congr only fun _ _ same => same

theorem answered_build_room {file : PackableEas} {pGEAList : Option Gealist} {pFEAList : Fealist}
    (scratch : Scratch) (room : neededSize pGEAList file.eas ≤ pFEAList.capacity) :
    ∃ list, answered (server.answers finfo scratch)
      (buildFEALIST (exactly file.eas) (pGEAList.map Gealist.bytes) pFEAList.bytes) =
      some (0, list) := by
  obtain ⟨trace, run, told⟩ := run_answered (server.answers finfo scratch)
    (buildFEALIST (exactly file.eas) (pGEAList.map Gealist.bytes) pFEAList.bytes)
  have served : ∀ event ∈ trace, ServerEas file.eas event := by
    intro event member
    exact Op.ServedBy.serverEas ((only_buildFEALIST none _ _ _).run run event member)
  have decides : ∀ ea ∈ representables file.eas, Decides file.eas (pGEAList.map Gealist.bytes)
      ea.name (asksFor pGEAList ea.name) := fun ea _ => decides_asksFor pGEAList ea.name
  have header : 4 ≤ littleEndian (pFEAList.bytes.take 4) := (Nat.le_add_right 4 _).trans room
  have unwritten : ({} : EaAnswer).written ≤ littleEndian (pFEAList.bytes.take 4) :=
    Nat.zero_le _
  have ensured := ensures_selected (holdsEas_listed file []) fit_representables decides header
    pFEAList.within unwritten
  obtain ⟨⟨rc, list⟩, gave, built, -⟩ := returned_of_ensures ensured served run
  have returned := built.returned
  have fits : ¬ (neededSize pGEAList file.eas > pFEAList.capacity ∧
      pFEAList.capacity > sizeofLong) := fun cut => absurd room (not_le.mpr cut.1)
  change rc = if neededSize pGEAList file.eas > pFEAList.capacity ∧
    pFEAList.capacity > sizeofLong then errorBufferOverflow else 0 at returned
  rw [if_neg fits] at returned
  subst returned
  exact ⟨list, gave⟩

theorem answered_listea_refused (none_had : server.eas fname = none) (finfo : SmbwrpFileinfo)
    (cli : Handle) (scratch : Scratch) :
    answered (server.answers finfo scratch) (smbwrpListea (some cli) fname scratch.1 cbBuffer) =
      some (maperror server.errno, packed 0 [] (scratch.1.drop 4)) := by
  have wide : 0 + (encodeLittle 4 0).length ≤ scratch.1.length := by
    rw [scratch.2, length_encodeLittle]
    decide
  have refused : answered (server.answers finfo scratch)
      (askServer cli (.cliGetEaListPath fname)) = some none := by
    change some ((server.eas fname).map PackableEas.eas) = some none
    rw [none_had]
    rfl
  rw [smbwrpListea, unilistea, answered_bind, storeBytes, answered_perform_bind, if_pos wide]
  change answered (server.answers finfo scratch) (askServer cli (.cliGetEaListPath fname) >>= _) = _
  rw [answered_bind, refused]
  rfl

theorem answered_setCbList (scratch : Scratch) (pFEAList : Fealist) (cbList : Nat) :
    answered (server.answers finfo scratch) (setCbList pFEAList.bytes cbList) =
      some (encodeLittle 4 cbList ++ pFEAList.bytes.drop 4) := by
  have wide : 0 + (encodeLittle 4 cbList).length ≤ pFEAList.bytes.length := by
    rw [length_encodeLittle, Nat.zero_add]
    exact pFEAList.readable
  rw [setCbList, storeBytes, answered_perform_bind, if_pos wide]
  rfl

def refusal (rc : Int) (pFEAList : List UInt8) : Int × List UInt8 :=
  if rc = 0 ∨ rc = errorFileNotFound ∨ rc = errorPathNotFound then
    (0, encodeLittle 4 sizeofLong ++ pFEAList.drop 4)
  else if rc = errorBufferOverflow then (rc, encodeLittle 4 0 ++ pFEAList.drop 4)
  else (errorEasNotSupported, pFEAList)

theorem answered_load_front {α : Type} (scratch : Scratch) {list : List UInt8} {number : Nat}
    (buffer : Buffer) (readable : 4 ≤ list.length) (counted : littleEndian (list.take 4) = number)
    (follow : Nat → Program α) :
    answered (server.answers finfo scratch) (loadLong buffer list 0 >>= follow) =
      answered (server.answers finfo scratch) (follow number) := by
  have inside : 0 + 4 ≤ list.length := by omega
  rw [loadLong, loadBytes, answered_bind, answered_bind, answered_perform_bind, if_pos inside,
    ← counted]
  rfl

theorem answered_build_empty (scratch : Scratch) (pGEAList : Option (List UInt8))
    (pFEAList : Fealist) (free : List UInt8) :
    answered (server.answers finfo scratch)
        (buildFEALIST (packed 0 [] free) pGEAList pFEAList.bytes) =
      some (0, encodeLittle 4 sizeofLong ++ pFEAList.bytes.drop 4) := by
  have readable : 4 ≤ (packed 0 [] free).length := by
    rw [length_packed]
    omega
  rw [buildFEALIST, answered_load_front scratch .scratch readable (littleEndian_packed (by decide)),
    answered_load_front scratch .feaList pFEAList.readable rfl]
  change answered (server.answers finfo scratch) (setCbList pFEAList.bytes sizeofLong >>= fun list =>
    pure (if sizeofLong > pFEAList.capacity ∧ pFEAList.capacity > sizeofLong then
      errorBufferOverflow else 0, list)) = _
  have fits : ¬ (sizeofLong > pFEAList.capacity ∧ pFEAList.capacity > sizeofLong) := by
    intro ⟨less, greater⟩
    exact absurd (less.trans greater) (lt_irrefl _)
  rw [answered_bind, answered_setCbList, if_neg fits]
  rfl

theorem answered_answerEas_refused (rc : Int) (scratch : Scratch) (pGEAList : Option (List UInt8))
    (pFEAList : Fealist) (free : List UInt8) :
    answered (server.answers finfo scratch)
        (answerEas rc (packed 0 [] free) pGEAList pFEAList.bytes) =
      some (refusal rc pFEAList.bytes) := by
  rw [answerEas, refusal]
  by_cases zero : rc = 0
  · rw [if_pos zero, if_pos (.inl zero)]
    exact answered_build_empty scratch pGEAList pFEAList free
  · rw [if_neg zero]
    by_cases missing : rc = errorFileNotFound ∨ rc = errorPathNotFound
    · rw [if_pos missing, if_pos (.inr missing), answered_bind, answered_setCbList]
      rfl
    · have other : ¬ (rc = 0 ∨ rc = errorFileNotFound ∨ rc = errorPathNotFound) := by
        rintro (given | given)
        · exact zero given
        · exact missing given
      rw [if_neg missing, if_neg other]
      by_cases overflow : rc = errorBufferOverflow
      · have readable : 4 ≤ (packed 0 [] free).length := by
          rw [length_packed]
          omega
        rw [if_pos overflow, if_pos overflow,
          answered_load_front scratch .scratch readable (littleEndian_packed (by decide)),
          answered_bind, answered_setCbList]
        rfl
      · rw [if_neg overflow, if_neg overflow]
        rfl

end Answer

def Reports (size : Nat) (outcome : Option (Int × Option (List UInt8))) : Prop :=
  ∃ list, outcome = some (errorBufferOverflow, some list) ∧ littleEndian (list.take 4) = size

structure Agree (needed : Option Nat) (capacity : Nat)
    (ofPath ofHandle : Option (Int × Option (List UInt8))) : Prop where
  same : ofPath = ofHandle
  reported : ∀ size ∈ needed, capacity < size → Reports size ofPath ∧ Reports size ofHandle

/-- The queries of the open file, through its path and through its handle, agree. -/
def QueriesAgree (s : Session) (server : EaServer) (pGEAList : Option Gealist)
    (pFEAList : Fealist) : Prop :=
  ∀ finfo scratch garbage pathTrace ofPath handleTrace ofHandle,
    finfo.fname = s.pConn.file.fname →
    Run (ndpEAQuery s (pGEAList.map Gealist.bytes) (some pFEAList.bytes)) pathTrace ofPath →
    AnsweredBy (server.answers finfo scratch) pathTrace →
    Run (ndpFileEAQuery s (pGEAList.map Gealist.bytes) (some pFEAList.bytes)) handleTrace
      ofHandle →
    AnsweredBy (server.answers finfo garbage) handleTrace →
    Agree ((server.eas s.pConn.file.fname).map fun file => neededSize pGEAList file.eas)
      pFEAList.capacity ofPath ofHandle

def EaServer.Fits (server : EaServer) (fname : CString) (pGEAList : Option Gealist)
    (pFEAList : Fealist) : Prop :=
  match server.eas fname with
  | none => maperror server.errno ≠ errorBufferOverflow
  | some file => neededSize pGEAList file.eas ≤ pFEAList.capacity

def reduced (answer : Int × List UInt8) : Int × Option (List UInt8) :=
  (if answer.1 ≠ 0 then errorEasNotSupported else answer.1, some answer.2)

def reported (answer : Int × List UInt8) : Int × Option (List UInt8) := (answer.1, some answer.2)

theorem not_reports_reduced (size : Nat) (query : Option (Int × List UInt8)) :
    ¬ Reports size (query.map reduced) := by
  rintro ⟨list, given, -⟩
  obtain ⟨answer, -, same⟩ := Option.map_eq_some_iff.mp given
  have code : (if answer.1 ≠ 0 then errorEasNotSupported else answer.1) = errorBufferOverflow :=
    congrArg Prod.fst same
  by_cases failed : answer.1 ≠ 0
  · rw [if_pos failed] at code
    exact absurd code (by decide)
  · rw [if_neg failed, not_not.mp failed] at code
    exact absurd code (by decide)

theorem reduced_refusal_iff (rc : Int) (pFEAList : List UInt8) :
    reduced (refusal rc pFEAList) = reported (refusal rc pFEAList) ↔ rc ≠ errorBufferOverflow := by
  by_cases overflow : rc = errorBufferOverflow
  · subst overflow
    refine iff_of_false ?_ (fun different => different rfl)
    intro same
    have codes : errorEasNotSupported = errorBufferOverflow := congrArg Prod.fst same
    exact absurd codes (by decide)
  · refine iff_of_true ?_ overflow
    by_cases missing : rc = 0 ∨ rc = errorFileNotFound ∨ rc = errorPathNotFound
    · rw [refusal, if_pos missing]
      rfl
    · rw [refusal, if_neg missing, if_neg overflow]
      rfl

/-- The query of a path has every error answered as `ERROR_EAS_NOT_SUPPORTED`: the two agree, and
both report a list that does not fit, when there is nothing to report. -/
theorem eaQueries_agree_iff {s : Session} {cli : Handle} {server : EaServer}
    {pGEAList : Option Gealist} {pFEAList : Fealist} (connected : s.pConn.cli = some cli)
    (supported : s.pRes.easupport ≠ 0) (opened : 0 ≤ s.pConn.file.fd) :
    QueriesAgree s server pGEAList pFEAList ↔
      server.Fits s.pConn.file.fname pGEAList pFEAList := by
  have ofPath (finfo : SmbwrpFileinfo) (scratch : Scratch)
      (named : finfo.fname = s.pConn.file.fname) :
      answered (server.answers finfo scratch)
        (ndpEAQuery s (pGEAList.map Gealist.bytes) (some pFEAList.bytes)) =
      (answered (server.answers finfo scratch) (askEas (smbwrpListea (some cli) s.pConn.file.fname)
        scratch.1 (pGEAList.map Gealist.bytes) pFEAList.bytes)).map reduced := by
    rw [answered_ndpEAQuery supported, connected, named]
    rfl
  have ofHandle (finfo : SmbwrpFileinfo) (scratch : Scratch) :
      answered (server.answers finfo scratch)
        (ndpFileEAQuery s (pGEAList.map Gealist.bytes) (some pFEAList.bytes)) =
      (answered (server.answers finfo scratch) (askEas (smbwrpListea (some cli) s.pConn.file.fname)
        scratch.1 (pGEAList.map Gealist.bytes) pFEAList.bytes)).map reported := by
    rw [answered_ndpFileEAQuery supported opened, connected]
    rfl
  constructor
  · intro agree
    let finfo : SmbwrpFileinfo := { fname := s.pConn.file.fname }
    let scratch : Scratch := ⟨List.replicate cbBuffer 0, List.length_replicate⟩
    obtain ⟨pathTrace, pathRun, pathTold⟩ := run_answered (server.answers finfo scratch)
      (ndpEAQuery s (pGEAList.map Gealist.bytes) (some pFEAList.bytes))
    obtain ⟨handleTrace, handleRun, handleTold⟩ := run_answered (server.answers finfo scratch)
      (ndpFileEAQuery s (pGEAList.map Gealist.bytes) (some pFEAList.bytes))
    have both := agree finfo scratch scratch _ _ _ _ rfl pathRun pathTold handleRun handleTold
    rw [ofPath finfo scratch rfl, ofHandle finfo scratch] at both
    rw [EaServer.Fits]
    cases has : server.eas s.pConn.file.fname with
    | none =>
        have same := both.same
        rw [answered_askEas (answered_listea_refused has finfo cli scratch),
          answered_answerEas_refused] at same
        exact (reduced_refusal_iff _ _).mp (Option.some.inj same)
    | some file =>
        by_contra large
        rw [has] at both
        exact not_reports_reduced _ _ (both.reported _ rfl (not_le.mp large)).1
  · intro fits finfo scratch garbage pathTrace pathOutcome handleTrace handleOutcome named pathRun
      pathTold handleRun handleTold
    rw [pathRun.answered pathTold, handleRun.answered handleTold, ofPath finfo scratch named,
      ofHandle finfo garbage]
    rw [EaServer.Fits] at fits
    cases has : server.eas s.pConn.file.fname with
    | none =>
        rw [has] at fits
        rw [answered_askEas (answered_listea_refused has finfo cli scratch),
          answered_askEas (answered_listea_refused has finfo cli garbage),
          answered_answerEas_refused, answered_answerEas_refused]
        refine ⟨congrArg some ((reduced_refusal_iff _ _).mpr fits), ?_⟩
        intro size absent
        exact absurd absent (Option.not_mem_none size)
    | some file =>
        rw [has] at fits
        obtain ⟨list, gave⟩ : ∃ list, answered (server.answers finfo garbage)
            (buildFEALIST (exactly file.eas) (pGEAList.map Gealist.bytes) pFEAList.bytes) =
            some (0, list) := answered_build_room garbage fits
        rw [answered_askEas_listed has, answered_askEas_listed has,
          answered_build_alike finfo finfo scratch garbage, gave]
        refine ⟨rfl, ?_⟩
        intro size needed large
        obtain rfl := Option.some.inj needed
        exact absurd fits (not_le.mpr large)

def oneEaFile : PackableEas := ⟨oneEa, by decide, by decide⟩

def oneEaServer : EaServer := { eas := fun _ => some oneEaFile, errno := 0 }

def sixteenByteList : Fealist := ⟨sixteenBytes, by decide, by decide⟩

def openFileSession : Session :=
  openSession.withFile { fd := 7, fname := bytes "\\F" }

theorem eaQueries_agree_room : QueriesAgree openFileSession oneEaServer none sixteenByteList := by
  have room : neededSize none oneEa ≤ sixteenByteList.capacity := by decide
  exact (eaQueries_agree_iff rfl (by decide) (by decide)).mpr room

def fiveByteList : Fealist := ⟨encodeLittle 4 5 ++ [0], by decide, by decide⟩

/-- The handle tells the caller the size, the path does not. -/
theorem longList_reported_by_handle_only :
    (∃ trace, Run (ndpFileEAQuery openFileSession none (some fiveByteList.bytes)) trace
      (some (errorBufferOverflow, some (encodeLittle 4 11 ++ [0])))) ∧
    (∃ trace, Run (ndpEAQuery openFileSession none (some fiveByteList.bytes)) trace
      (some (errorEasNotSupported, some (encodeLittle 4 11 ++ [0])))) ∧
    ¬ QueriesAgree openFileSession oneEaServer none fiveByteList := by
  let finfo : SmbwrpFileinfo := { fname := bytes "\\F" }
  let scratch : Scratch := ⟨List.replicate cbBuffer 0, List.length_replicate⟩
  have asked : answered (oneEaServer.answers finfo scratch)
      (askEas (smbwrpListea (some 1) (bytes "\\F")) scratch.1 none fiveByteList.bytes) =
      some (errorBufferOverflow, encodeLittle 4 11 ++ [0]) := by
    have has : oneEaServer.eas (bytes "\\F") = some oneEaFile := rfl
    rw [answered_askEas_listed has]
    rfl
  have supported : openFileSession.pRes.easupport ≠ 0 := by decide
  have opened : 0 ≤ openFileSession.pConn.file.fd := by decide
  have ofHandle : answered (oneEaServer.answers finfo scratch)
      (ndpFileEAQuery openFileSession none (some fiveByteList.bytes)) =
      some (errorBufferOverflow, some (encodeLittle 4 11 ++ [0])) := by
    rw [answered_ndpFileEAQuery supported opened]
    exact congrArg (Option.map _) asked
  have ofPath : answered (oneEaServer.answers finfo scratch)
      (ndpEAQuery openFileSession none (some fiveByteList.bytes)) =
      some (errorEasNotSupported, some (encodeLittle 4 11 ++ [0])) := by
    rw [answered_ndpEAQuery supported]
    exact congrArg (Option.map _) asked
  obtain ⟨handleTrace, handleRun, handleTold⟩ := run_answered (oneEaServer.answers finfo scratch)
    (ndpFileEAQuery openFileSession none (some fiveByteList.bytes))
  obtain ⟨pathTrace, pathRun, pathTold⟩ := run_answered (oneEaServer.answers finfo scratch)
    (ndpEAQuery openFileSession none (some fiveByteList.bytes))
  rw [ofHandle] at handleRun
  rw [ofPath] at pathRun
  refine ⟨⟨handleTrace, handleRun⟩, ⟨pathTrace, pathRun⟩, ?_⟩
  intro agree
  have both := agree finfo scratch scratch _ _ _ _ rfl pathRun pathTold handleRun handleTold
  have codes : errorEasNotSupported = errorBufferOverflow :=
    congrArg Prod.fst (Option.some.inj both.same)
  exact absurd codes (by decide)

end NdpSmb
