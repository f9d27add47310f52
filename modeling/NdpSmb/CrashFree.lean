import NdpSmb.CalmSearch
import NdpSmb.HandleLife

/-!
What keeps the plugin from following what is not there, writing where there is no room and asking
a session that is over. With a cache that has room for a listing, calls whose paths fit, and an
environment that gives memory, comes to an end and lets a server be connected anew, no call does.
-/

namespace NdpSmb

open ByteString Interaction

/-! The size of the extended attributes of a file. -/

section EaSize

variable {ph : Platform} {szPath : CString} {buffer : Buffer} {object : List UInt8}

theorem completes_storeBytes {offset : Nat} {data : List UInt8}
    (inside : offset + data.length ≤ object.length) :
    (storeBytes buffer object offset data).Completes fun content =>
      content.length = object.length := by
  intro _
  apply Prog.completes_ite
  · intro _
    simp only [Prog.pure_eq, Prog.completes_ret, List.length_append, List.length_take,
      List.length_drop]
    omega
  · exact fun outside => absurd inside outside

theorem completes_loadLong (inside : 4 ≤ object.length) :
    (loadLong buffer object 0).Completes fun _ => True := by
  have loaded : (loadBytes buffer object 0 4).Completes fun _ => True := by
    intro _
    apply Prog.completes_ite
    · exact fun _ => trivial
    · exact fun outside => absurd outside (by omega)
  exact loaded.bind fun _ _ => trivial

/-- What has been counted is at least what has been written. -/
theorem completes_writeEas {size p gotsize : Nat} {eas : List EaStruct} {content : List UInt8}
    (length : content.length = size) (behind : p ≤ gotsize)
    (small : gotsize + easSize (representables eas) < 2 ^ 32) :
    (writeEas size eas p gotsize content).Completes fun answer => answer.2.length = size := by
  induction eas generalizing p gotsize content with
  | nil => exact length
  | cons ea rest ih =>
      by_cases fit : ea.Representable
      · have kept : representables (ea :: rest) = ea :: representables rest := by
          simp [representables, fit]
        have sized : ea.size = sizeofFea + ea.name.length + ea.value.length + 1 := by
          simp only [EaStruct.size, sizeofFea]
          omega
        have header : sizeofFea = 4 := rfl
        rw [kept, easSize_cons] at small
        have counted : addLong gotsize ea.size = gotsize + ea.size :=
          Nat.mod_eq_of_lt (by omega)
        have plain : ¬ (ea.name.length > 0xFF ∨ ea.value.length > 0xFFFF) := by
          obtain ⟨nameFits, valueFits⟩ := fit
          omega
        rw [writeEas, if_neg plain, ← sized, counted]
        apply Prog.completes_ite
        · intro enough
          have head : (0 :: (encodeLittle 1 ea.name.length ++
              encodeLittle 2 ea.value.length)).length = 4 := by
            simp [length_encodeLittle]
          have named : (ea.name ++ [0]).length = ea.name.length + 1 := by simp
          refine (completes_storeBytes (by omega)).bind fun first firstLength => ?_
          refine (completes_storeBytes (by omega)).bind fun second secondLength => ?_
          refine (completes_storeBytes (by omega)).bind fun third thirdLength => ?_
          exact ih (by omega) (by omega) (by omega)
        · exact fun _ => ih length (by omega) (by omega)
      · have dropped : representables (ea :: rest) = representables rest := by
          simp [representables, fit]
        have large : ea.name.length > 0xFF ∨ ea.value.length > 0xFFFF := by
          by_contra plain
          exact fit ⟨by omega, by omega⟩
        rw [dropped] at small
        rw [writeEas, if_pos large]
        exact ih length behind small

theorem yields_smbwrpListea {cli : Option Handle} {fname : CString} {content : List UInt8}
    (room : 4 ≤ content.length) :
    (calmWatch ph szPath).Yields (fun answer => answer.2.length = content.length)
      (smbwrpListea cli fname content content.length) := by
  cases cli with
  | none => exact fun _ => rfl
  | some cli =>
      have field (cbList : Nat) : (encodeLittle 4 cbList).length = 4 := length_encodeLittle 4 cbList
      have start : 0 + (encodeLittle 4 0).length ≤ content.length := by
        rw [field]
        omega
      refine (Watch.yields_of_completes (completes_storeBytes start)).bind fun cleared length => ?_
      refine Watch.yields_perform_bind ?_
      rintro _ (_ | eas) small
      · exact fun _ _ _ => length
      · apply Watch.yields_of_completes
        have listed : 4 + easSize (representables eas) < 2 ^ 32 := of_decide_eq_true small
        refine (completes_writeEas length (le_refl _) listed).bind ?_
        rintro ⟨gotsize, written⟩ (same : written.length = content.length)
        have inside : 0 + (encodeLittle 4 gotsize).length ≤ written.length := by
          rw [field]
          omega
        exact (completes_storeBytes inside).bind fun stored kept => kept.trans same

theorem yields_askEaSize {cli : Option Handle} {fname : CString} {content : List UInt8}
    (length : content.length = cbBuffer) :
    (calmWatch ph szPath).Yields (fun _ => True) (askEaSize (smbwrpListea cli fname) content) := by
  have room : cbBuffer = 65536 := rfl
  have listed : (calmWatch ph szPath).Yields (fun answer => answer.2.length = content.length)
      (smbwrpListea cli fname content cbBuffer) := by
    rw [← length]
    exact yields_smbwrpListea (by omega)
  refine listed.bind ?_
  rintro ⟨rc, answer⟩ (same : answer.length = content.length)
  apply Watch.yields_of_completes
  have inside : 0 + (encodeLittle 4 sizeofLong).length ≤ answer.length := by
    rw [length_encodeLittle]
    omega
  apply Prog.completes_ite
  · intro _
    refine (completes_storeBytes inside).bind fun stored kept => ?_
    exact (completes_loadLong (by omega)).bind fun _ _ => trivial
  · intro _
    exact (completes_loadLong (by omega)).bind fun _ _ => trivial

theorem yields_guarded {α : Type} {refused : Int → α} {post : α → Prop} {work : Program α}
    (denied : ∀ rcLock, post (refused rcLock)) (worked : (calmWatch ph szPath).Yields post work) :
    (calmWatch ph szPath).Yields post (guarded refused work) := by
  refine Watch.yields_perform_bind fun _ rcLock _ => ?_
  apply Watch.yields_ite
  · exact fun _ _ => denied rcLock
  · intro _
    exact worked.bind fun answer after _ _ _ => after

theorem yields_ndpEASize (s : Session) :
    (calmWatch ph szPath).Yields (fun _ => True) (ndpEASize s) := by
  have asked : pluginData.Completes fun _ => True := by
    rintro ⟨rc, fdata⟩
    apply Prog.completes_ite
    · exact fun _ => trivial
    · exact fun _ => trivial
  apply Watch.yields_ite
  · exact fun _ _ => trivial
  · intro _
    refine (Watch.yields_of_completes asked).bind ?_
    rintro (_ | finfo) _
    · exact fun _ => trivial
    · apply yields_guarded
      · exact fun _ => trivial
      · refine Watch.yields_perform_bind fun _ _ _ => ?_
        apply Watch.yields_ite
        · exact fun _ _ => trivial
        · intro _
          refine Watch.yields_perform_bind ?_
          rintro _ (_ | content) _
          · exact fun _ => trivial
          · exact yields_askEaSize content.2

theorem yields_ndpFileEASize (s : Session) :
    (calmWatch ph szPath).Yields (fun _ => True) (ndpFileEASize s) := by
  apply Watch.yields_ite
  · exact fun _ _ => trivial
  · intro _
    refine Watch.yields_perform_bind ?_
    rintro _ (_ | content) _
    · exact fun _ => trivial
    · apply yields_guarded
      · exact fun _ => trivial
      · apply Watch.yields_ite
        · exact fun _ _ => trivial
        · exact fun _ => yields_askEaSize content.2

end EaSize

/-! Every call. -/

/-- The path that a search reads; the last element of it is asked for. -/
def SessionCall.searched : SessionCall → CString
  | .findStart szPath _ => szPath
  | _ => []

def Call.searched : Call → CString
  | .on _ ask => ask.searched
  | _ => []

/-- Lists of extended attributes, which are walked without regard to where they end, are left
out; a move goes behind the components that the two paths share. -/
def SessionCall.Sensible (ph : Platform) (pRes : Resource) : SessionCall → Prop
  | .queryPathInfo szPath | .setPathInfo _ szPath | .setFileAttribute szPath _ => RootedPath szPath
  | .setCurrentDir szPath | .forceDelete szPath | .deleteDir szPath => RootedPath szPath
  | .openExisting szPath _ => RootedPath szPath
  | .findStart szPath _ => RootedPath szPath ∧ szPath.length + 2 < maxPath
  | .createDir szPath pFEAList => RootedPath szPath ∧ pFEAList = none
  | .openReplace szPath _ _ pFEAList | .openReplaceL szPath _ _ pFEAList =>
      RootedPath szPath ∧ pFEAList = none
  | .openCreate szPath _ _ pFEAList | .openCreateL szPath _ _ pFEAList =>
      RootedPath szPath ∧ pFEAList = none
  | .move szDst szSrc | .rename szDst szSrc | .changeCase szDst szSrc =>
      RootedPath szSrc ∧ moveTarget ph szSrc szDst (pRes.askedPath szSrc) ≠ none
  | .eaQuery _ pFEAList | .eaSet pFEAList | .fileEAQuery _ pFEAList | .fileEASet pFEAList =>
      pFEAList = none
  | _ => True

def Call.Sensible (ph : Platform) (system : System) : Call → Prop
  | .freeConnection conn => system.connection conn ≠ none
  | .on conn ask => system.connection conn ≠ none ∧ ask.Sensible ph system.pRes
  | _ => True

def SessionCall.depends : SessionCall → Bool
  | .findStart .. | .eaSize | .fileEASize => true
  | _ => false

section Calls

variable {ph : Platform} {s : Session} {call : SessionCall}

theorem completes_call (alone : call.depends = false) (sensible : call.Sensible ph s.pRes)
    (room : NamedInRoom s) :
    (call.run ph s).Completes fun answer => NamedInRoom answer.2 := by
  have kept {program : Program (Int × Session)}
      (completes : program.Completes fun answer => SameFile s answer.2) :
      program.Completes fun answer => NamedInRoom answer.2 :=
    completes.mono fun _ same => same.inRoom room
  have keeps {program : Program Int} (completes : program.Completes fun _ => True) :
      (keeping s program).Completes fun answer => NamedInRoom answer.2 :=
    completes.bind fun _ _ => room
  have drops {α : Type} {program : Program (Int × Session × α)}
      (completes : program.Completes fun answer => NamedInRoom answer.2.1) :
      (dropping program).Completes fun answer => NamedInRoom answer.2 := by
    refine completes.bind ?_
    rintro ⟨rc, t, rest⟩ after
    exact after
  cases call with
  | findStart | eaSize | fileEASize => cases alone
  | queryPathInfo => exact kept (completes_ndpQueryPathInfo sensible)
  | setPathInfo =>
      exact kept (completes_mutatingCall sensible.toParsable fun _ _ => completes_smbwrpSetattr _ _)
  | setFileAttribute =>
      exact kept (completes_pathCall sensible.toParsable fun _ => completes_smbwrpSetattr _ _)
  | setCurrentDir =>
      exact kept (completes_pathCall sensible.toParsable fun _ => completes_smbwrpChdir _ _ _)
  | forceDelete | deleteDir =>
      exact kept (completes_mutatingCall sensible.toParsable fun _ _ =>
        completes_wrapped _ fun _ _ => trivial)
  | createDir =>
      obtain ⟨rooted, rfl⟩ := sensible
      exact kept (completes_ndpCreateDir rooted.toParsable)
  | move | rename | changeCase =>
      exact kept (completes_ndpMove sensible.1.toParsable sensible.2)
  | copy | copy2 | move2 | refresh | fileCommit => exact room
  | eaQuery | fileEAQuery | fileEASet =>
      obtain rfl : _ = none := sensible
      exact room
  | eaSet =>
      obtain rfl : _ = none := sensible
      refine keeps (Prog.completes_ite (fun _ => trivial) fun _ => ?_)
      have asked : pluginData.Completes fun _ => True := by
        rintro ⟨rc, fdata⟩
        exact Prog.completes_ite (fun _ => trivial) fun _ => trivial
      refine asked.bind ?_
      rintro (_ | finfo) _
      · trivial
      · trivial
  | openReplace | openReplaceL | openCreate | openCreateL =>
      obtain ⟨rooted, rfl⟩ := sensible
      exact completes_smbopen room rooted _ _ _
  | openExisting => exact completes_smbopen room sensible _ _ _
  | fileQueryInfo =>
      exact keeps (completes_guarded (fun _ => trivial) (completes_queryOpenInfo room))
  | fileSetInfo stat => exact completes_ndpFileSetInfo room stat
  | fileSetFilePtrL => exact drops (completes_ndpFileSetFilePtrL room _ _)
  | fileSetFilePtr => exact drops (completes_ndpFileSetFilePtr room _ _)
  | fileClose => exact completes_ndpFileClose room
  | fileNewSize => exact keeps (completes_ndpFileNewSizeL s _)
  | fileNewSizeL => exact keeps (completes_ndpFileNewSizeL s _)
  | fileRead => exact drops (completes_ndpFileRead room _ _)
  | fileWrite => exact drops (completes_ndpFileWrite room _)

theorem yields_call (limit : 0 < ph.queryLimit) (used : CacheOn s.pRes.pdc)
    (sensible : call.Sensible ph s.pRes) (room : NamedInRoom s) :
    (calmWatch ph call.searched).Yields (fun _ => True) (call.run ph s) := by
  cases depends : call.depends with
  | false =>
      have completes := completes_call depends sensible room
      exact (Watch.yields_of_completes completes).mono fun _ _ => trivial
  | true =>
      cases call with
      | findStart szPath ulAttribute =>
          exact yields_ndpFindStart limit sensible.1 sensible.2 used ulAttribute
      | eaSize => exact (yields_ndpEASize s).bind fun _ _ _ => trivial
      | fileEASize => exact (yields_ndpFileEASize s).bind fun _ _ _ => trivial
      | _ => cases depends

theorem returns_call_inRoom (sensible : call.Sensible ph s.pRes) (room : NamedInRoom s) :
    (call.run ph s).Returns fun answer => NamedInRoom answer.2 := by
  cases depends : call.depends with
  | false => exact (completes_call depends sensible room).returns
  | true =>
      cases call with
      | findStart szPath ulAttribute =>
          exact (returns_ndpFindStart_file szPath ulAttribute).mono fun _ same => same.inRoom room
      | eaSize => exact Prog.returns_bind.mpr (Prog.returns_of_forall fun _ => room)
      | fileEASize => exact Prog.returns_bind.mpr (Prog.returns_of_forall fun _ => room)
      | _ => cases depends

end Calls

section System

variable {ph : Platform} {pRes : Resource} {system : System}

theorem completes_ndpCreateConnection :
    (ndpCreateConnection pRes).Completes fun answer =>
      ∀ pConn, answer.2 = some pConn → pConn.file.fname.length < 260 := by
  have absent {rc : Int} : ∀ pConn, ((rc, none) : Int × Option Connection).2 = some pConn →
      pConn.file.fname.length < 260 := by
    intro pConn given
    cases given
  apply completes_guarded
  · exact fun _ => absent
  · intro malloced
    apply Prog.completes_ite
    · exact fun _ => absent
    · intro _ reply
      cases reply with
      | refused rc => exact absent
      | connected cli =>
          rintro pConn given
          obtain rfl := Option.some.inj given
          exact Nat.succ_pos 259

theorem completes_ndpFreeConnection (pConn : Connection) :
    (ndpFreeConnection pConn).Completes fun answer =>
      answer.2 = none ∨ answer.2 = some pConn := by
  have freed : (freeConnection pConn).Completes fun _ => True := by
    apply Prog.completes_ite
    · intro _
      exact (completes_smbwrpClose _ _).bind fun _ _ => completes_smbwrpDisconnect _
    · exact fun _ => completes_smbwrpDisconnect _
  apply completes_guarded
  · exact fun _ => .inr rfl
  · exact freed.bind fun _ _ => .inl rfl

theorem yields_ndpRsrcQueryFSAllocate (hasPfsa : Bool) {szPath : CString} :
    (calmWatch ph szPath).Yields (fun _ => True) (ndpRsrcQueryFSAllocate pRes hasPfsa) := by
  have sized (cli : Handle) :
      (calmWatch ph szPath).Yields (fun _ => True) (smbwrpDskattr (some cli)) := by
    refine Watch.yields_perform_bind ?_
    rintro _ (_ | ⟨bsize, total, avail⟩) inRange
    · exact fun _ _ _ => trivial
    · have small : scaleOf total < 0x80000000 := of_decide_eq_true inRange
      apply Watch.yields_ite
      · exact fun _ _ => trivial
      · intro _
        apply Watch.yields_ite
        · intro _
          apply Watch.yields_ite
          · intro large
            exact absurd small (UInt64.not_lt.mpr large)
          · exact fun _ _ => trivial
        · exact fun _ _ => trivial
  apply yields_guarded
  · exact fun _ => trivial
  · apply Watch.yields_ite
    · intro _
      refine Watch.yields_perform_bind fun _ reply _ => ?_
      cases reply with
      | refused rc => exact fun _ => trivial
      | connected cli =>
          refine (sized cli).bind fun _ _ => ?_
          exact fun _ _ _ => trivial
    · exact fun _ _ => trivial

structure Ready (system : System) : Prop where
  used : CacheOn system.pRes.pdc
  named : ∀ pConn, some pConn ∈ system.conns → pConn.file.fname.length < 260

theorem Ready.session (ready : Ready system) {conn : Nat} {pConn : Connection}
    (present : system.connection conn = some pConn) : NamedInRoom ⟨system.pRes, pConn⟩ :=
  ready.named pConn (mem_conns present)

theorem Ready.step {call : Call} {trace : List CallEvent} {rc : Int} {next : System}
    (ready : Ready system) (sensible : call.Sensible ph system)
    (run : Run (system.call ph call) trace (some (rc, next))) : Ready next where
  used := ready.used.emptied ((SameMount.refl system.pRes).step run).cache
  named := by
    have replaced {conn : Nat} {left : Option Connection}
        (holds : ∀ pConn, left = some pConn → pConn.file.fname.length < 260) :
        ∀ pConn, some pConn ∈ system.conns.set conn left → pConn.file.fname.length < 260 := by
      intro pConn member
      rcases List.mem_or_eq_of_mem_set member with old | rfl
      · exact ready.named pConn old
      · exact holds pConn rfl
    cases call with
    | createConnection =>
        obtain ⟨first, second, ⟨rcNew, created⟩, -, made, rest⟩ := run_bind_some_iff.mp run
        obtain ⟨-, same⟩ := run_ret_iff.mp rest
        obtain ⟨-, rfl⟩ := Prod.mk.inj (Option.some.inj same)
        cases created with
        | none => exact ready.named
        | some new =>
            have room := completes_ndpCreateConnection.returns.run made new rfl
            intro pConn member
            rcases List.mem_append.mp member with old | added
            · exact ready.named pConn old
            · obtain rfl := Option.some.inj (List.mem_singleton.mp added)
              exact room
    | freeConnection conn =>
        cases present : system.connection conn with
        | none => exact absurd present sensible
        | some old =>
            simp only [System.call, present] at run
            obtain ⟨first, second, ⟨rcLeft, left⟩, -, freed, rest⟩ := run_bind_some_iff.mp run
            obtain ⟨-, same⟩ := run_ret_iff.mp rest
            obtain ⟨-, rfl⟩ := Prod.mk.inj (Option.some.inj same)
            have ended := (completes_ndpFreeConnection old).returns.run freed
            apply replaced
            rintro pConn rfl
            rcases ended with gone | kept
            · cases gone
            · obtain rfl := Option.some.inj kept
              exact ready.session present
    | queryFSAllocate hasPfsa =>
        obtain ⟨first, second, answer, -, asked, rest⟩ := run_bind_some_iff.mp run
        obtain ⟨-, same⟩ := run_ret_iff.mp rest
        obtain ⟨-, rfl⟩ := Prod.mk.inj (Option.some.inj same)
        exact ready.named
    | on conn ask =>
        obtain ⟨pConn, s, present, called, rfl⟩ := System.run_on_iff.mp run
        have after := (returns_call_inRoom sensible.2 (ready.session present)).run called
        apply replaced
        rintro left given
        obtain rfl := Option.some.inj given
        exact after

abbrev SensiblyCalled (ph : Platform) (pRes : Resource) :
    List (Taken Op Call Int) → System → Prop :=
  Reaches (System.call ph) (fun system call => call.Sensible ph system) { pRes }

theorem ready_reached {history : List (Taken Op Call Int)} (used : CacheOn pRes.pdc)
    (reached : SensiblyCalled ph pRes history system) : Ready system := by
  induction reached with
  | start => exact ⟨used, by simp⟩
  | step _ sensible run ih => exact ih.step sensible run

theorem yields_system_call {call : Call} (limit : 0 < ph.queryLimit) (ready : Ready system)
    (sensible : call.Sensible ph system) :
    (calmWatch ph call.searched).Yields (fun _ => True) (system.call ph call) := by
  cases call with
  | createConnection =>
      apply Watch.yields_of_completes
      exact completes_ndpCreateConnection.bind fun _ _ => trivial
  | freeConnection conn =>
      cases present : system.connection conn with
      | none => exact absurd present sensible
      | some old =>
          simp only [System.call, present]
          apply Watch.yields_of_completes
          exact (completes_ndpFreeConnection old).bind fun _ _ => trivial
  | queryFSAllocate hasPfsa =>
      exact (yields_ndpRsrcQueryFSAllocate hasPfsa).bind fun _ _ _ => trivial
  | on conn ask =>
      cases present : system.connection conn with
      | none => exact absurd present sensible.1
      | some pConn =>
          simp only [System.call, present]
          have called := yields_call limit ready.used sensible.2 (ready.session present)
          exact called.bind fun _ _ _ => trivial

/-- On a Resource whose cache is in use, no call crashes in a run of sensible calls, as long as
the environment answers it so, and nothing is asked of a session that is over. -/
theorem calls_crashFree (limit : 0 < ph.queryLimit) (used : CacheOn pRes.pdc)
    {history : List (Taken Op Call Int)} (reached : SensiblyCalled ph pRes history system)
    {call : Call} (sensible : call.Sensible ph system) {trace : List CallEvent}
    {outcome : Option (Int × System)} (run : Run (system.call ph call) trace outcome)
    (answered : (calmWatch ph call.searched).Admits 0 trace)
    (fresh : (lifeWatch Fresh).Admits {} (exchanges history ++ trace))
    (reclaimed : (lifeWatch Reclaimed).Admits {} (exchanges history ++ trace)) :
    (∃ rc next, outcome = some (rc, next)) ∧
      (lifeSeen (exchanges history ++ trace)).misused = false := by
  have yields := yields_system_call limit (ready_reached used reached) sensible
  obtain ⟨⟨rc, next⟩, rfl, -⟩ := yields.run (fun _ => id) run answered
  have mounted : Mounted ph pRes history system := reached.imp fun _ _ _ _ _ => trivial
  have admitted : (reclaimWatch False).Admits {} (exchanges history ++ trace) := by
    apply admits_lifeWatch_imp _ (admits_lifeWatch_and fresh reclaimed)
    rintro seen action ⟨new, kept⟩
    exact ⟨new, kept, False.elim⟩
  rw [Watch.admits_append] at admitted
  have owned := allOwned_reached mounted admitted.1
  obtain ⟨leaked, -, holds⟩ := ((ensures_call_life ph call owned).run run admitted.2).holds
  have careful := holds.careful
  constructor
  · exact ⟨rc, next, rfl⟩
  · rwa [lifeSeen, Watch.after_append]

end System

def oneEntry : DirData where
  parsed := [{ size := 5, mode := 32, btimeTs := 0, atimeTs := 0, mtimeTs := 0, ctimeTs := 0
               name := bytes "F" }]
  failed := none
  progress := .inl (List.cons_ne_nil _ _)

def listingOnce : Nat → (R : Type) → Op R → R
  | 13, _, .request _ (.smb2cliQueryDirectory _) => .ok oneEntry
  | _, _, .request _ .connHasAsyncCalls => false
  | _, _, .request _ (.windowsParentDirname _) => some (bytes "\\D", bytes "*")
  | _, _, .fsphNameElem => some { length := 1, name := bytes "*" }
  | _, _, op => op.usual

def listOnceCall : Call := .on 0 (.findStart (bytes "\\D\\*") 0x37)

def connectedSystem : System :=
  { pRes := tenSecondsResource, conns := [some tenSecondsConnection] }

def listOnceRun : List CallEvent × Option (Int × System) :=
  exec listingOnce 0 (connectedSystem.call asciiPlatform listOnceCall)

theorem calls_crashFree_listing :
    ∃ history, SensiblyCalled asciiPlatform tenSecondsResource history connectedSystem ∧
      (calmWatch asciiPlatform listOnceCall.searched).Admits 0 listOnceRun.1 ∧
      (∃ rc next, listOnceRun.2 = some (rc, next)) ∧
      (lifeSeen (exchanges history ++ listOnceRun.1)).misused = false := by
  have mounted : SensiblyCalled asciiPlatform tenSecondsResource []
      { pRes := tenSecondsResource } := .start
  have reached := mounted.executed (fun _ _ => Op.usual) .createConnection 0 connectedSystem trivial
    (by decide)
  have used : CacheOn tenSecondsResource.pdc := ⟨_, rfl, rfl, by decide⟩
  have fits : RootedPath (bytes "\\D\\*") := ⟨.of_short (by decide), rfl⟩
  have sensible : listOnceCall.Sensible asciiPlatform connectedSystem :=
    ⟨by decide, fits, by decide⟩
  have answered : (calmWatch asciiPlatform listOnceCall.searched).Admits 0 listOnceRun.1 := by
    decide
  exact ⟨_, reached, answered, calls_crashFree (by decide) used reached sensible
    (run_exec listingOnce _ 0) answered (by decide) (by decide)⟩

end NdpSmb
