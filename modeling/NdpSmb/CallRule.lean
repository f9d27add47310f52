import NdpSmb.System

/-!
One rule for all entry points. An invariant of a Connection is kept by every call when
the few things that the calls are made of keep it: a request on the Connection's own
handle, taking and releasing the mutex, `pathparser`, and a change of the cache or of
the open file. The number is how often the mutex is held, and a server is asked only while
it is. The calls that only ask need less than those that change something.
-/

namespace NdpSmb

open ByteString Interaction

/-- What the calls that ask about a path are made of. -/
structure KeptAsking {M : Type} (ph : Platform) (watch : Watch Op M)
    (invariant : Nat → Session → M → Prop) : Prop where
  crash : ∀ {held s memory}, invariant held s memory → watch.crash memory
  unserved : ∀ {held s memory} {R : Type} {op : Op R} {reply : R}, invariant held s memory →
    Op.ServedBy none R op → watch.admits memory ⟨op, reply⟩ →
    invariant held s (watch.observe memory ⟨op, reply⟩)
  asked : ∀ {held s memory} {R : Type} {used : Handle} {ask : Request R} {reply : R},
    invariant (held + 1) s memory → s.pConn.cli = some used → ask.Looks →
    watch.admits memory ⟨.request used ask, reply⟩ →
    invariant (held + 1) s (watch.observe memory ⟨.request used ask, reply⟩)
  locked : ∀ {held s memory}, invariant held s memory →
    watch.admits memory ⟨.fsphRequestMutex, (0 : Int)⟩ →
    invariant (held + 1) s (watch.observe memory ⟨.fsphRequestMutex, (0 : Int)⟩)
  denied : ∀ {held s memory rcLock}, invariant held s memory → rcLock ≠ 0 →
    watch.admits memory ⟨.fsphRequestMutex, rcLock⟩ →
    invariant held s (watch.observe memory ⟨.fsphRequestMutex, rcLock⟩)
  released : ∀ {held s memory}, invariant (held + 1) s memory →
    watch.admits memory ⟨.fsphReleaseMutex, ()⟩ →
    invariant held s (watch.observe memory ⟨.fsphReleaseMutex, ()⟩)
  parsed : ∀ {held s memory} (szPath : CString), invariant (held + 1) s memory →
    watch.Ensures (fun answer later => invariant (held + 1) answer.2.1 later)
      (pathparser ph s szPath) memory

/-- What the calls that change what a path names are made of as well. -/
structure KeptChanging {M : Type} (ph : Platform) (watch : Watch Op M)
    (invariant : Nat → Session → M → Prop) : Prop extends KeptAsking ph watch invariant where
  pathed : ∀ {held s memory} {R : Type} {used : Handle} {ask : Request R} {reply : R},
    invariant (held + 1) s memory → s.pConn.cli = some used → ask.Fileless →
    watch.admits memory ⟨.request used ask, reply⟩ →
    invariant (held + 1) s (watch.observe memory ⟨.request used ask, reply⟩)
  invalidated : ∀ {held s memory} (szPath : CString), invariant held s memory →
    invariant held (s.invalidateParent ph szPath) memory

/-- What the calls that ask about the open file are made of as well. -/
structure KeptReading {M : Type} (ph : Platform) (watch : Watch Op M)
    (invariant : Nat → Session → M → Prop) : Prop extends KeptAsking ph watch invariant where
  consulted : ∀ {held s memory} {R : Type} {used : Handle} {ask : Request R} {reply : R},
    invariant (held + 1) s memory → s.pConn.cli = some used → ask.Consults →
    watch.admits memory ⟨.request used ask, reply⟩ →
    invariant (held + 1) s (watch.observe memory ⟨.request used ask, reply⟩)
  filed : ∀ {held s memory} (file : SmbwrpFile), invariant held s memory →
    invariant held (s.withFile file) memory

/-- What all calls are made of that neither search a directory nor ask for the record of a path. -/
structure Kept {M : Type} (ph : Platform) (watch : Watch Op M)
    (invariant : Nat → Session → M → Prop) : Prop extends KeptChanging ph watch invariant where
  served : ∀ {held s memory} {R : Type} {op : Op R} {reply : R}, invariant held s memory →
    Op.ServedBy s.pConn.cli R op → (held = 0 → Op.ServedBy none R op) →
    watch.admits memory ⟨op, reply⟩ → invariant held s (watch.observe memory ⟨op, reply⟩)
  filed : ∀ {held s memory} (file : SmbwrpFile), invariant held s memory →
    invariant held (s.withFile file) memory
  unserved := fun holds plain admitted => served holds (.ofNone plain) (fun _ => plain) admitted
  asked := fun holds same _ admitted => served holds same (by omega) admitted
  pathed := fun holds same _ admitted => served holds same (by omega) admitted

theorem only_guarded {α : Type} {allowed : (R : Type) → Op R → Prop} {refused : Int → α}
    {work : Program α} (request : allowed Int .fsphRequestMutex)
    (release : allowed Unit .fsphReleaseMutex) (inside : work.Only allowed) :
    (guarded refused work).Only allowed := by
  refine Prog.only_perform_bind.mpr ⟨request, fun rcLock => ?_⟩
  split
  · trivial
  · exact inside.bind fun _ => ⟨release, fun _ => trivial⟩

namespace KeptAsking

variable {M α : Type} {ph : Platform} {watch : Watch Op M} {invariant : Nat → Session → M → Prop}
  {held : Nat} {s : Session} {memory : M}

theorem onlyPlain (kept : KeptAsking ph watch invariant) {program : Program α}
    (served : program.Only (Op.ServedBy none)) (holds : invariant held s memory) :
    watch.Ensures (fun _ later => invariant held s later) program memory := by
  apply Watch.ensures_of_allowed served
  · intro memory R op reply before plain admitted
    exact kept.unserved before plain admitted
  · exact fun memory before => kept.crash before
  · exact holds

theorem through (kept : KeptAsking ph watch invariant)
    {permits : (R : Type) → Request R → Prop}
    (permitted : ∀ {memory} {R : Type} {used : Handle} {ask : Request R} {reply : R},
      invariant (held + 1) s memory → s.pConn.cli = some used → permits R ask →
      watch.admits memory ⟨.request used ask, reply⟩ →
      invariant (held + 1) s (watch.observe memory ⟨.request used ask, reply⟩))
    {program : Program α} (only : program.Only (Op.Through s.pConn.cli permits))
    (holds : invariant (held + 1) s memory) :
    watch.Ensures (fun _ later => invariant (held + 1) s later) program memory := by
  apply Watch.ensures_of_allowed only
  · intro memory R op reply before through admitted
    cases op with
    | request used ask => exact permitted before through.1 through.2 admitted
    | _ => exact kept.unserved before through admitted
  · exact fun memory before => kept.crash before
  · exact holds

theorem only (kept : KeptAsking ph watch invariant) {program : Program α}
    (looks : program.Only (Op.Looks s.pConn.cli)) (holds : invariant (held + 1) s memory) :
    watch.Ensures (fun _ later => invariant (held + 1) s later) program memory :=
  kept.through kept.asked looks holds

theorem guarded (kept : KeptAsking ph watch invariant) (left : α → Session) {refused : Int → α}
    {work : Program α} (unchanged : ∀ rcLock, left (refused rcLock) = s)
    (worked : ∀ later, invariant (held + 1) s later →
      watch.Ensures (fun answer latest => invariant (held + 1) (left answer) latest) work later)
    (holds : invariant held s memory) :
    watch.Ensures (fun answer later => invariant held (left answer) later)
      (NdpSmb.guarded refused work) memory := by
  apply ensures_guarded
  · intro rcLock failed admitted
    rw [unchanged]
    exact kept.denied holds failed admitted
  · intro admitted
    apply (worked _ (kept.locked holds admitted)).mono
    intro answer later after allowed
    exact kept.released after allowed

theorem guardedOnly (kept : KeptAsking ph watch invariant) {refused : Int → α} {work : Program α}
    (looks : work.Only (Op.Looks s.pConn.cli)) (holds : invariant held s memory) :
    watch.Ensures (fun _ later => invariant held s later) (NdpSmb.guarded refused work) memory :=
  kept.guarded (fun _ => s) (fun _ => rfl) (fun _ inside => kept.only looks inside) holds

theorem onPath (kept : KeptAsking ph watch invariant) {szPath : CString}
    {act : Session → CString → Program Int}
    (acted : ∀ {t later} path, invariant (held + 1) t later →
      watch.Ensures (fun _ latest => invariant (held + 1) t latest) (act t path) later)
    (holds : invariant (held + 1) s memory) :
    watch.Ensures (fun answer later => invariant (held + 1) answer.2 later)
      (NdpSmb.onPath ph s szPath act) memory := by
  apply (kept.parsed szPath holds).bind
  rintro ⟨rc, s, path⟩ later after
  simp only
  split
  · exact after
  · apply (acted path after).bind
    intro _ latest last
    exact last

theorem ndpSetCurrentDir (kept : KeptAsking ph watch invariant) (szPath : CString)
    (holds : invariant held s memory) :
    watch.Ensures (fun answer later => invariant held answer.2 later)
      (NdpSmb.ndpSetCurrentDir ph s szPath) memory := by
  refine kept.guarded Prod.snd (fun _ => rfl) (fun later inside => ?_) holds
  refine kept.onPath (fun path after => kept.only ?_ after) inside
  exact (asks_smbwrpChdir _ _ _).mono fun _ _ => Op.Asks.looks

theorem pluginData (kept : KeptAsking ph watch invariant) (holds : invariant held s memory) :
    watch.Ensures (fun _ later => invariant held s later) NdpSmb.pluginData memory := by
  refine kept.onlyPlain (Prog.only_perform_bind.mpr ⟨trivial, fun reply => ?_⟩) holds
  simp only
  split <;> trivial

end KeptAsking

section Eas

variable {cli : Option Handle} {listea : List UInt8 → Nat → Program (Int × List UInt8)}
  {allowed : (R : Type) → Op R → Prop}

theorem only_logFreed {α : Type} (answer : α) : (logFreed answer).Only (Op.ServedBy cli) := by
  refine Prog.only_perform_bind.mpr ⟨trivial, fun lives => ?_⟩
  split <;> trivial

theorem only_askEas (plain : ∀ R op, Op.ServedBy none R op → allowed R op)
    (asks : ∀ content size, (listea content size).Only allowed)
    (pchBuffer : List UInt8) (pGEAList : Option (List UInt8)) (pFEAList : List UInt8) :
    (askEas listea pchBuffer pGEAList pFEAList).Only allowed := by
  refine (asks _ _).bind fun listed => Prog.Only.mono ?_ plain
  refine Prog.Only.bind ?_ fun _ => only_logFreed _
  unfold answerEas
  split
  · exact only_buildFEALIST _ _ _ _
  · split
    · exact (only_storeBytes _ .feaList _ _ _).bind fun _ => trivial
    · split
      · refine (only_loadLong _ .scratch _ _).bind fun _ => ?_
        exact (only_storeBytes _ .feaList _ _ _).bind fun _ => trivial
      · trivial

theorem only_askEaSize (plain : ∀ R op, Op.ServedBy none R op → allowed R op)
    (asks : ∀ content size, (listea content size).Only allowed)
    (pchBuffer : List UInt8) : (askEaSize listea pchBuffer).Only allowed := by
  refine (asks _ _).bind ?_
  rintro ⟨rc, pchBuffer⟩
  refine Prog.Only.mono ?_ plain
  change (answerEaSize rc pchBuffer).Only _
  unfold answerEaSize
  split
  · refine (only_storeBytes _ .scratch _ _ _).bind fun _ => ?_
    exact (only_loadLong _ .scratch _ _).bind fun _ => trivial
  · exact (only_loadLong _ .scratch _ _).bind fun _ => trivial

section Asking

variable (plain : ∀ R op, Op.ServedBy none R op → allowed R op) (s : Session)
  (asks : ∀ fname content size, (smbwrpListea s.pConn.cli fname content size).Only allowed)

include plain asks

theorem only_queryEas (fname : CString) (pGEAList : Option (List UInt8)) (pFEAList : List UInt8) :
    (queryEas s fname pGEAList pFEAList).Only allowed := by
  refine Prog.only_perform_bind.mpr ⟨plain _ _ trivial, fun malloced => ?_⟩
  cases malloced with
  | none => trivial
  | some pchBuffer => exact (only_askEas plain (asks fname) _ _ _).bind fun _ => trivial

theorem only_queryOpenEas (pchBuffer : List UInt8) (pGEAList : Option (List UInt8))
    (pFEAList : List UInt8) : (queryOpenEas s pchBuffer pGEAList pFEAList).Only allowed := by
  unfold queryOpenEas
  split
  · exact (only_logFreed _).mono plain
  · exact (only_askEas plain (asks s.pConn.file.fname) _ _ _).bind fun _ => trivial

theorem only_queryOpenEaSize (pchBuffer : List UInt8) :
    (if s.pConn.file.fd < 0 then pure (errorInvalidHandle, none)
      else askEaSize (smbwrpFlistea s.pConn.cli s.pConn.file) pchBuffer).Only allowed := by
  split
  · trivial
  · exact only_askEaSize plain (asks s.pConn.file.fname) _

theorem only_sizeOfFile (finfo : SmbwrpFileinfo) : (sizeOfFile s finfo).Only allowed := by
  refine Prog.only_perform_bind.mpr ⟨plain _ _ trivial, fun _ => ?_⟩
  split
  · trivial
  · refine Prog.only_perform_bind.mpr ⟨plain _ _ trivial, fun malloced => ?_⟩
    cases malloced with
    | none => trivial
    | some pchBuffer => exact only_askEaSize plain (asks finfo.fname) _

end Asking

theorem looks_smbwrpListea (fname : CString) (content : List UInt8) (size : Nat) :
    (smbwrpListea cli fname content size).Only (Op.Looks cli) := by
  apply smbwrpListea_only cli Op.ServedBy.through
  · exact fun used same => ⟨same, trivial⟩
  · exact fun used same => ⟨same, trivial⟩

end Eas

namespace KeptAsking

variable {M : Type} {ph : Platform} {watch : Watch Op M} {invariant : Nat → Session → M → Prop}
  {held : Nat} {s : Session} {memory : M}

theorem ndpEAQuery (kept : KeptAsking ph watch invariant) (pGEAList pFEAList : Option (List UInt8))
    (holds : invariant held s memory) :
    watch.Ensures (fun _ later => invariant held s later)
      (NdpSmb.ndpEAQuery s pGEAList pFEAList) memory := by
  cases pFEAList with
  | none => exact holds
  | some pFEAList =>
      simp only [NdpSmb.ndpEAQuery]
      split
      · exact holds
      · apply (kept.pluginData holds).bind
        intro fdata later after
        cases fdata with
        | none => exact after
        | some finfo =>
            exact kept.guardedOnly
              (only_queryEas Op.ServedBy.through s looks_smbwrpListea _ _ _) after

theorem ndpEASize (kept : KeptAsking ph watch invariant) (holds : invariant held s memory) :
    watch.Ensures (fun _ later => invariant held s later) (NdpSmb.ndpEASize s) memory := by
  unfold NdpSmb.ndpEASize
  split
  · exact holds
  · apply (kept.pluginData holds).bind
    intro fdata later after
    cases fdata with
    | none => exact after
    | some finfo =>
        exact kept.guardedOnly
          (only_sizeOfFile Op.ServedBy.through s looks_smbwrpListea _) after

theorem ndpFileEAQuery (kept : KeptAsking ph watch invariant) (pGEAList pFEAList : Option (List UInt8))
    (holds : invariant held s memory) :
    watch.Ensures (fun _ later => invariant held s later)
      (NdpSmb.ndpFileEAQuery s pGEAList pFEAList) memory := by
  cases pFEAList with
  | none => exact holds
  | some pFEAList =>
      simp only [NdpSmb.ndpFileEAQuery]
      split
      · exact holds
      · refine fun malloced admitted => ?_
        have after := kept.unserved holds servedBy_mallocBuffer admitted
        cases malloced with
        | none => exact after
        | some pchBuffer =>
            exact kept.guardedOnly
              (only_queryOpenEas Op.ServedBy.through s looks_smbwrpListea _ _ _) after

theorem ndpFileEASize (kept : KeptAsking ph watch invariant) (holds : invariant held s memory) :
    watch.Ensures (fun _ later => invariant held s later) (NdpSmb.ndpFileEASize s) memory := by
  unfold NdpSmb.ndpFileEASize
  split
  · exact holds
  · refine fun malloced admitted => ?_
    have after := kept.unserved holds servedBy_mallocBuffer admitted
    cases malloced with
    | none => exact after
    | some pchBuffer =>
        exact kept.guardedOnly
          (only_queryOpenEaSize Op.ServedBy.through s looks_smbwrpListea _) after

end KeptAsking

theorem only_giveFileinfo (ph : Platform) (s : Session) (finfo : SmbwrpFileinfo)
    (cli : Option Handle) : (giveFileinfo ph s finfo).Only (Op.ServedBy cli) :=
  (only_getfindinfoL ph _ _ _ _ cli).bind fun _ => trivial

theorem consults_queryOpenInfo (ph : Platform) (s : Session) :
    (queryOpenInfo ph s).Only (Op.Consults s.pConn.cli) := by
  unfold queryOpenInfo
  split
  · trivial
  · refine Prog.only_perform_bind.mpr ⟨trivial, fun finfo => ?_⟩
    split
    · trivial
    · refine (consults_smbwrpFgetattr _ _ _).bind fun answer => ?_
      simp only
      split
      · refine Prog.Only.bind ?_ fun _ => trivial
        exact (only_giveFileinfo ph s _ none).mono Op.ServedBy.through
      · trivial

namespace KeptReading

variable {M α : Type} {ph : Platform} {watch : Watch Op M} {invariant : Nat → Session → M → Prop}
  {held : Nat} {s : Session} {memory : M}

theorem only (kept : KeptReading ph watch invariant) {program : Program α}
    (consults : program.Only (Op.Consults s.pConn.cli)) (holds : invariant (held + 1) s memory) :
    watch.Ensures (fun _ later => invariant (held + 1) s later) program memory :=
  kept.through kept.consulted consults holds

theorem ndpFileQueryInfo (kept : KeptReading ph watch invariant)
    (holds : invariant held s memory) :
    watch.Ensures (fun _ later => invariant held s later) (NdpSmb.ndpFileQueryInfo ph s) memory :=
  kept.guarded (fun _ => s) (fun _ => rfl)
    (fun _ inside => kept.only (consults_queryOpenInfo ph s) inside) holds

theorem ndpFileSetFilePtrL (kept : KeptReading ph watch invariant) (llOffset : Int) (ulMethod : UInt32)
    (holds : invariant held s memory) :
    watch.Ensures (fun answer later => invariant held answer.2.1 later)
      (NdpSmb.ndpFileSetFilePtrL s llOffset ulMethod) memory := by
  refine kept.guarded (fun answer : Int × Session × Option UInt64 => answer.2.1)
    (fun _ => rfl) (fun later inside => ?_) holds
  unfold seekOpen
  split
  · exact inside
  · apply (kept.only (consults_smbwrpLseek _ _ _ _) inside).bind
    rintro ⟨rc, file⟩ latest last
    exact kept.filed file last

theorem ndpFileSetFilePtr (kept : KeptReading ph watch invariant) (lOffset : Int) (ulMethod : UInt32)
    (holds : invariant held s memory) :
    watch.Ensures (fun answer later => invariant held answer.2.1 later)
      (NdpSmb.ndpFileSetFilePtr s lOffset ulMethod) memory := by
  refine Watch.ensures_perform_bind.mpr fun unset admitted => ?_
  have after := kept.unserved holds servedBy_uninitializedLong admitted
  apply (kept.ndpFileSetFilePtrL lOffset ulMethod after).bind
  intro _ _ last
  exact last

theorem ndpFileRead (kept : KeptReading ph watch invariant) (hasBuffer : Bool) (ulRead : UInt32)
    (holds : invariant held s memory) :
    watch.Ensures (fun answer later => invariant held answer.2.1 later)
      (NdpSmb.ndpFileRead s hasBuffer ulRead) memory := by
  refine kept.guarded (fun answer : Int × Session × Option UInt32 × Option (List UInt8) => answer.2.1)
    (fun _ => rfl) (fun later inside => ?_) holds
  apply (kept.only (consults_smbwrpRead _ _ _ _) inside).bind
  rintro ⟨rc, file, data⟩ latest after
  have counted : (readActual data).Only (Op.Consults s.pConn.cli) := by
    unfold readActual
    split
    · trivial
    · exact ⟨trivial, fun _ => trivial⟩
  apply (kept.only counted after).bind
  intro _ _ last
  exact kept.filed file last

end KeptReading

namespace KeptChanging

variable {M α : Type} {ph : Platform} {watch : Watch Op M} {invariant : Nat → Session → M → Prop}
  {held : Nat} {s : Session} {memory : M}

theorem only (kept : KeptChanging ph watch invariant) {program : Program α}
    (pathed : program.Only (Op.Pathed s.pConn.cli)) (holds : invariant (held + 1) s memory) :
    watch.Ensures (fun _ later => invariant (held + 1) s later) program memory :=
  kept.through kept.pathed pathed holds

theorem guardedOnly (kept : KeptChanging ph watch invariant) {refused : Int → α}
    {work : Program α} (pathed : work.Only (Op.Pathed s.pConn.cli))
    (holds : invariant held s memory) :
    watch.Ensures (fun _ later => invariant held s later) (NdpSmb.guarded refused work) memory :=
  kept.guarded (fun _ => s) (fun _ => rfl) (fun _ inside => kept.only pathed inside) holds

theorem pathCall (kept : KeptChanging ph watch invariant) {szPath : CString}
    {act : Session → CString → Program Int}
    (pathed : ∀ s path, (act s path).Only (Op.Pathed s.pConn.cli))
    (holds : invariant held s memory) :
    watch.Ensures (fun answer later => invariant held answer.2 later)
      (NdpSmb.pathCall ph s szPath act) memory := by
  refine kept.guarded Prod.snd (fun _ => rfl) (fun later inside => ?_) holds
  exact kept.onPath (fun path after => kept.only (pathed _ path) after) inside

theorem mutatingCall (kept : KeptChanging ph watch invariant) {szPath : CString}
    {act : Session → CString → Program Int}
    (pathed : ∀ s path, (act s path).Only (Op.Pathed s.pConn.cli))
    (holds : invariant held s memory) :
    watch.Ensures (fun answer later => invariant held answer.2 later)
      (NdpSmb.mutatingCall ph s szPath act) memory := by
  refine kept.guarded Prod.snd (fun _ => rfl) (fun later inside => ?_) holds
  have dropped := kept.invalidated szPath inside
  exact kept.onPath (fun path after => kept.only (pathed _ path) after) dropped

theorem ndpMove (kept : KeptChanging ph watch invariant) (szDst szSrc : CString)
    (holds : invariant held s memory) :
    watch.Ensures (fun answer later => invariant held answer.2 later)
      (NdpSmb.ndpMove ph s szDst szSrc) memory := by
  refine kept.guarded Prod.snd (fun _ => rfl) (fun later inside => ?_) holds
  have dropped := kept.invalidated szDst (kept.invalidated szSrc inside)
  refine kept.onPath (fun src after => kept.only ?_ after) dropped
  unfold renameOn
  split
  · trivial
  · trivial
  · exact pathed_smbwrpRename _ _ _

theorem helperEASet (kept : KeptChanging ph watch invariant) (pFEAList : Option (List UInt8))
    (path : CString) (holds : invariant held s memory) :
    watch.Ensures (fun _ later => invariant held s later)
      (NdpSmb.helperEASet s.pConn.cli pFEAList path) memory := by
  cases pFEAList with
  | none => exact holds
  | some pFEAList =>
      apply (kept.onlyPlain (only_loadLong _ .feaList pFEAList 0) holds).bind
      intro cbList later after
      split
      · exact after
      · exact kept.guardedOnly
          (only_easetLoop _ Op.ServedBy.through (fun _ _ _ => pathed_smbwrpSetea _ _ _ _ _) _ _ _)
          after

theorem ndpEASet (kept : KeptChanging ph watch invariant) (pFEAList : Option (List UInt8))
    (holds : invariant held s memory) :
    watch.Ensures (fun _ later => invariant held s later) (NdpSmb.ndpEASet s pFEAList) memory := by
  unfold NdpSmb.ndpEASet
  split
  · exact holds
  · apply (kept.pluginData holds).bind
    intro fdata later after
    cases fdata with
    | none => exact after
    | some finfo =>
        apply (kept.helperEASet pFEAList _ after).bind
        intro _ _ last
        exact last

theorem makeDir (kept : KeptChanging ph watch invariant) (szDirName : CString)
    (inside : invariant (held + 1) s memory) :
    watch.Ensures (fun answer later => invariant (held + 1) answer.2.1 later)
      (NdpSmb.makeDir ph s szDirName) memory := by
  apply (kept.parsed szDirName inside).bind
  rintro ⟨rc, s, path⟩ later after
  simp only
  split
  · exact after
  · exact Watch.ensures_bind.mpr (kept.only (pathed_smbwrpMkdir _ _) after)

theorem setDirEas (kept : KeptChanging ph watch invariant) (rc : Int) (path : CString)
    (pFEAList : Option (List UInt8)) (holds : invariant held s memory) :
    watch.Ensures (fun answer later => invariant held answer.2 later)
      (NdpSmb.setDirEas rc s path pFEAList) memory := by
  simp only [NdpSmb.setDirEas]
  split
  · apply (kept.helperEASet pFEAList path holds).bind
    intro _ _ last
    exact last
  · exact holds

theorem ndpCreateDir (kept : KeptChanging ph watch invariant) (szDirName : CString)
    (pFEAList : Option (List UInt8)) (holds : invariant held s memory) :
    watch.Ensures (fun answer later => invariant held answer.2 later)
      (NdpSmb.ndpCreateDir ph s szDirName pFEAList) memory := by
  refine ensures_enter (fun rcLock failed admitted => kept.denied holds failed admitted) ?_
  intro admitted
  have inside := kept.invalidated szDirName (kept.locked holds admitted)
  apply (kept.makeDir szDirName inside).bind
  rintro ⟨rc, s, path⟩ later after
  refine Watch.ensures_perform_bind.mpr fun _ allowed => ?_
  exact kept.setDirEas rc path pFEAList (kept.released after allowed)

end KeptChanging

namespace Kept

variable {M α : Type} {ph : Platform} {watch : Watch Op M} {invariant : Nat → Session → M → Prop}
  {held : Nat} {s : Session} {memory : M}

theorem reading (kept : Kept ph watch invariant) : KeptReading ph watch invariant where
  toKeptAsking := kept.toKeptAsking
  consulted holds same _ admitted := kept.served holds same (by omega) admitted
  filed := kept.filed

theorem only (kept : Kept ph watch invariant) {program : Program α}
    (served : program.Only (Op.ServedBy s.pConn.cli)) (holds : invariant (held + 1) s memory) :
    watch.Ensures (fun _ later => invariant (held + 1) s later) program memory := by
  apply Watch.ensures_of_allowed served
  · intro memory R op reply before served admitted
    exact kept.served before served (by omega) admitted
  · exact fun memory before => kept.crash before
  · exact holds

theorem onlyLists (kept : Kept ph watch invariant)
    (clocked : ∀ {memory now}, invariant (held + 1) s memory →
      watch.admits memory ⟨.timesec, now⟩ →
      invariant (held + 1) s (watch.observe memory ⟨.timesec, now⟩)) {program : Program α}
    (lists : program.Only (Op.Lists s.pConn.cli)) (holds : invariant (held + 1) s memory) :
    watch.Ensures (fun _ later => invariant (held + 1) s later) program memory := by
  apply Watch.ensures_of_allowed lists
  · intro memory R op reply before listed admitted
    cases op with
    | timesec => exact clocked before admitted
    | _ => exact kept.served before listed (by omega) admitted
  · exact fun memory before => kept.crash before
  · exact holds

theorem guardedOnly (kept : Kept ph watch invariant) {refused : Int → α} {work : Program α}
    (served : work.Only (Op.ServedBy s.pConn.cli)) (holds : invariant held s memory) :
    watch.Ensures (fun _ later => invariant held s later) (NdpSmb.guarded refused work) memory :=
  kept.guarded (fun _ => s) (fun _ => rfl) (fun _ inside => kept.only served inside) holds

theorem ndpFileEASet (kept : Kept ph watch invariant) (pFEAList : Option (List UInt8))
    (holds : invariant held s memory) :
    watch.Ensures (fun _ later => invariant held s later) (NdpSmb.ndpFileEASet s pFEAList)
      memory := by
  cases pFEAList with
  | none => exact holds
  | some pFEAList =>
      apply (kept.onlyPlain (only_loadLong _ .feaList pFEAList 0) holds).bind
      intro cbList later after
      split
      · exact after
      · split
        · exact after
        · refine kept.guardedOnly ?_ after
          unfold setOpenEas
          split
          · trivial
          · exact only_easetLoop _ (fun _ _ => Op.ServedBy.ofNone)
              (fun _ _ _ => only_smbwrpFsetea _ _ _ _ _) _ _ _

theorem openPath (kept : Kept ph watch invariant) (szFileName : CString)
    (flags ulOpenMode ulAttribute : UInt32) (holds : invariant (held + 1) s memory) :
    watch.Ensures (fun answer later => invariant (held + 1) answer.2 later)
      (NdpSmb.openPath ph s szFileName flags ulOpenMode ulAttribute) memory := by
  unfold NdpSmb.openPath
  split
  · exact holds
  · apply (kept.parsed szFileName holds).bind
    rintro ⟨rc, s, path⟩ later after
    simp only
    split
    · exact after
    · apply (kept.only (only_smbwrpOpen _ _) after).bind
      rintro ⟨rc, file⟩ latest last
      exact kept.filed file last

theorem smbopen (kept : Kept ph watch invariant) (szFileName : CString)
    (flags ulOpenMode ulAttribute : UInt32) (pFEAList : Option (List UInt8))
    (holds : invariant held s memory) :
    watch.Ensures (fun answer later => invariant held answer.2 later)
      (NdpSmb.smbopen ph s szFileName flags ulOpenMode ulAttribute pFEAList) memory := by
  refine kept.guarded Prod.snd (fun _ => rfl) (fun later inside => ?_) holds
  have begun : invariant (held + 1)
      (if flags &&& oCreat ≠ 0 then s.invalidateParent ph szFileName else s) later := by
    split
    · exact kept.invalidated szFileName inside
    · exact inside
  apply (kept.openPath szFileName flags ulOpenMode ulAttribute begun).bind
  rintro ⟨rc, s⟩ later after
  refine Watch.ensures_bind.mpr ?_
  unfold easOnOpen
  split
  · apply (kept.ndpFileEASet pFEAList after).bind
    intro _ _ last
    exact last
  · exact after

theorem ndpFileClose (kept : Kept ph watch invariant) (holds : invariant held s memory) :
    watch.Ensures (fun answer later => invariant held answer.2 later) (NdpSmb.ndpFileClose s)
      memory := by
  refine kept.guarded Prod.snd (fun _ => rfl) (fun later inside => ?_) holds
  unfold closeOpen
  split
  · exact kept.filed _ inside
  · apply (kept.only (only_smbwrpClose _ _) inside).bind
    rintro ⟨rc, file⟩ latest last
    exact kept.filed _ last

theorem ndpFileSetInfo (kept : Kept ph watch invariant) (stat : Filestatus3L)
    (holds : invariant held s memory) :
    watch.Ensures (fun answer later => invariant held answer.2 later)
      (NdpSmb.ndpFileSetInfo ph s stat) memory := by
  refine kept.guarded Prod.snd (fun _ => rfl) (fun later inside => ?_) holds
  split
  · exact kept.invalidated _ inside
  · exact kept.filed _ (kept.invalidated _ inside)

theorem ndpFileNewSizeL (kept : Kept ph watch invariant) (llLen : Int)
    (holds : invariant held s memory) :
    watch.Ensures (fun _ later => invariant held s later) (NdpSmb.ndpFileNewSizeL s llLen)
      memory := by
  refine kept.guardedOnly ?_ holds
  split
  · trivial
  · exact only_smbwrpSetfilesize _ _ _

theorem ndpFileWrite (kept : Kept ph watch invariant) (pBuffer : Option (List UInt8))
    (holds : invariant held s memory) :
    watch.Ensures (fun answer later => invariant held answer.2.1 later)
      (NdpSmb.ndpFileWrite ph s pBuffer) memory := by
  refine kept.guarded (fun answer : Int × Session × Option UInt32 => answer.2.1)
    (fun _ => rfl) (fun later inside => ?_) holds
  have dropped := kept.invalidated s.pConn.file.fullname inside
  unfold writeOpen
  split
  · exact dropped
  · apply (kept.only (only_smbwrpWrite _ _ _) dropped).bind
    rintro ⟨rc, file, done⟩ latest last
    exact kept.filed file last

theorem some {I : Type} {which : I → Prop} {each : I → Nat → Session → M → Prop}
    (kept : ∀ index, Kept ph watch (each index)) :
    Kept ph watch fun held s memory => ∃ index, which index ∧ each index held s memory where
  crash := by
    rintro _ _ _ ⟨index, -, holds⟩
    exact (kept index).crash holds
  served := by
    rintro _ _ _ _ _ _ ⟨index, known, holds⟩ served unheld admitted
    exact ⟨index, known, (kept index).served holds served unheld admitted⟩
  locked := by
    rintro _ _ _ ⟨index, known, holds⟩ admitted
    exact ⟨index, known, (kept index).locked holds admitted⟩
  denied := by
    rintro _ _ _ _ ⟨index, known, holds⟩ failed admitted
    exact ⟨index, known, (kept index).denied holds failed admitted⟩
  released := by
    rintro _ _ _ ⟨index, known, holds⟩ admitted
    exact ⟨index, known, (kept index).released holds admitted⟩
  parsed := by
    rintro _ _ _ szPath ⟨index, known, holds⟩
    apply ((kept index).parsed szPath holds).mono
    intro answer later after
    exact ⟨index, known, after⟩
  invalidated := by
    rintro _ _ _ szPath ⟨index, known, holds⟩
    exact ⟨index, known, (kept index).invalidated szPath holds⟩
  filed := by
    rintro _ _ _ file ⟨index, known, holds⟩
    exact ⟨index, known, (kept index).filed file holds⟩

end Kept

def SessionCall.searches : SessionCall → Bool
  | .queryPathInfo .. | .findStart .. => true
  | _ => false

section Calls

variable {M : Type} {ph : Platform} {watch : Watch Op M} {invariant : Nat → Session → M → Prop}
  {held : Nat} {s : Session} {memory : M}

theorem ensures_keeping {program : Program Int}
    (kept : watch.Ensures (fun _ later => invariant held s later) program memory) :
    watch.Ensures (fun answer later => invariant held answer.2 later) (keeping s program) memory :=
  Watch.ensures_bind.mpr (kept.mono fun _ _ last => last)

theorem ensures_keepingRc {α : Type} {program : Program (Int × α)}
    (kept : watch.Ensures (fun _ later => invariant held s later) program memory) :
    watch.Ensures (fun answer later => invariant held answer.2 later) (keepingRc s program)
      memory :=
  Watch.ensures_bind.mpr (kept.mono fun _ _ last => last)

theorem ensures_dropping {α : Type} {program : Program (Int × Session × α)}
    (kept : watch.Ensures (fun answer later => invariant held answer.2.1 later) program memory) :
    watch.Ensures (fun answer later => invariant held answer.2 later) (dropping program) memory :=
  Watch.ensures_bind.mpr (kept.mono fun _ _ last => last)

/-- The calls about paths that do not search, and those that do nothing. -/
def SessionCall.pathwise : SessionCall → Bool
  | .setPathInfo .. | .setFileAttribute .. | .setCurrentDir .. => true
  | .forceDelete .. | .createDir .. | .deleteDir .. => true
  | .move .. | .rename .. | .changeCase .. => true
  | .copy | .copy2 | .move2 | .refresh | .fileCommit => true
  | .eaQuery .. | .eaSet .. | .eaSize | .fileEAQuery .. | .fileEASize => true
  | _ => false

theorem KeptChanging.pathwise (kept : KeptChanging ph watch invariant) (call : SessionCall)
    (pathwise : call.pathwise = true) (holds : invariant held s memory) :
    watch.Ensures (fun answer later => invariant held answer.2 later) (call.run ph s) memory := by
  cases call with
  | setPathInfo => exact kept.mutatingCall (fun _ _ => pathed_smbwrpSetattr _ _) holds
  | setFileAttribute => exact kept.pathCall (fun _ _ => pathed_smbwrpSetattr _ _) holds
  | setCurrentDir szPath => exact kept.ndpSetCurrentDir szPath holds
  | forceDelete => exact kept.mutatingCall (fun _ _ => pathed_smbwrpUnlink _ _) holds
  | createDir szDirName pFEAList => exact kept.ndpCreateDir szDirName pFEAList holds
  | deleteDir => exact kept.mutatingCall (fun _ _ => pathed_smbwrpRmdir _ _) holds
  | move szDst szSrc => exact kept.ndpMove szDst szSrc holds
  | rename szDst szSrc => exact kept.ndpMove szDst szSrc holds
  | changeCase szDst szSrc => exact kept.ndpMove szDst szSrc holds
  | copy | copy2 | move2 | refresh | fileCommit => exact holds
  | eaQuery pGEAList pFEAList => exact ensures_keepingRc (kept.ndpEAQuery pGEAList pFEAList holds)
  | eaSet pFEAList => exact ensures_keeping (kept.ndpEASet pFEAList holds)
  | eaSize => exact ensures_keepingRc (kept.ndpEASize holds)
  | fileEAQuery pGEAList pFEAList =>
      exact ensures_keepingRc (kept.ndpFileEAQuery pGEAList pFEAList holds)
  | fileEASize => exact ensures_keepingRc (kept.ndpFileEASize holds)
  | _ => cases pathwise

theorem Kept.plain (kept : Kept ph watch invariant) (call : SessionCall)
    (unsearching : call.searches = false) (holds : invariant held s memory) :
    watch.Ensures (fun answer later => invariant held answer.2 later) (call.run ph s) memory := by
  cases call with
  | queryPathInfo | findStart => cases unsearching
  | openReplace => exact kept.smbopen _ _ _ _ _ holds
  | openReplaceL => exact kept.smbopen _ _ _ _ _ holds
  | openCreate => exact kept.smbopen _ _ _ _ _ holds
  | openCreateL => exact kept.smbopen _ _ _ _ _ holds
  | openExisting => exact kept.smbopen _ _ _ _ _ holds
  | fileQueryInfo => exact ensures_keeping (kept.reading.ndpFileQueryInfo holds)
  | fileEASet pFEAList => exact ensures_keeping (kept.ndpFileEASet pFEAList holds)
  | fileSetInfo stat => exact kept.ndpFileSetInfo stat holds
  | fileSetFilePtrL llOffset ulMethod =>
      exact ensures_dropping (kept.reading.ndpFileSetFilePtrL llOffset ulMethod holds)
  | fileSetFilePtr lOffset ulMethod =>
      exact ensures_dropping (kept.reading.ndpFileSetFilePtr lOffset ulMethod holds)
  | fileClose => exact kept.ndpFileClose holds
  | fileNewSize ulLen => exact ensures_keeping (kept.ndpFileNewSizeL _ holds)
  | fileNewSizeL llLen => exact ensures_keeping (kept.ndpFileNewSizeL llLen holds)
  | fileRead hasBuffer ulRead => exact ensures_dropping (kept.reading.ndpFileRead hasBuffer ulRead holds)
  | fileWrite pBuffer => exact ensures_dropping (kept.ndpFileWrite pBuffer holds)
  | _ => exact kept.pathwise _ rfl holds

end Calls

/-! The two calls that search. They look whether the connection is alive and open it
anew, and may return with the mutex held. -/

/-- The echo, and a new connection when it fails. -/
def revive (s : Session) : Program (Int × Session) := do
  let rc ← smbwrpEcho s.pConn.cli
  if rc ≠ 0 then reconnect s else pure (0, s)

/-- A connection in the place of one that was lost. -/
def renew (s : Session) : Program (Int × Session) := do
  smbwrpDisconnect s.pConn.cli
  reconnect s

theorem queryServer_eq (ph : Platform) (s : Session) (finfo : SmbwrpFileinfo) :
    queryServer ph s finfo = (revive s >>= fun answer : Int × Session =>
      if answer.1 ≠ 0 then pure (errorPathNotFound, answer.2)
      else queryAlive ph answer.2 finfo >>= fun found => leave >>= fun _ => pure found) := by
  unfold queryServer revive
  rw [Prog.bind_assoc]
  congr 1
  funext rc
  split <;> rfl

theorem findServer_eq (ph : Platform) (s : Session) (state : FilelistState) :
    findServer ph s state = (revive s >>= fun answer : Int × Session =>
      if answer.1 ≠ 0 then pure (errorPathNotFound, answer.2)
      else findAlive ph answer.2 state) := by
  unfold findServer revive
  rw [Prog.bind_assoc]
  congr 1
  funext rc
  split <;> rfl

/-- What asking for the record of a path is made of as well: connecting anew, -/
structure KeptConnecting {M : Type} (ph : Platform) (watch : Watch Op M)
    (invariant : Nat → Session → M → Prop) : Prop extends KeptAsking ph watch invariant where
  revived : ∀ {held s memory}, invariant (held + 1) s memory →
    watch.Ensures (fun answer later => invariant (held + 1) answer.2 later) (revive s) memory
  renewed : ∀ {held s memory}, invariant (held + 1) s memory →
    watch.Ensures (fun answer later => invariant (held + 1) answer.2 later) (renew s) memory

/-- and reading the clock of the cache and the cache itself. -/
structure KeptBrowsing {M : Type} (ph : Platform) (watch : Watch Op M)
    (invariant : Nat → Session → M → Prop) : Prop extends KeptConnecting ph watch invariant where
  clocked : ∀ {held s memory now}, invariant (held + 1) s memory →
    watch.admits memory ⟨.timesec, now⟩ →
    invariant (held + 1) s (watch.observe memory ⟨.timesec, now⟩)
  listed : ∀ {held s memory} (state : FilelistState), invariant (held + 1) s memory →
    watch.Ensures (fun answer later => invariant (held + 1) answer.2 later)
      (filelistOn ph s state) memory

/-- What all calls are made of. -/
structure KeptSearching {M : Type} (ph : Platform) (watch : Watch Op M)
    (invariant : Nat → Session → M → Prop) : Prop
    extends Kept ph watch invariant, KeptBrowsing ph watch invariant

theorem looks_smbwrpGetattr {cli : Option Handle} (srv : SmbwrpServer) (finfo : SmbwrpFileinfo) :
    (smbwrpGetattr srv cli finfo).Only (Op.Looks cli) :=
  (asks_smbwrpGetattr cli srv finfo).mono fun _ _ => Op.Asks.looks

namespace KeptConnecting

variable {M : Type} {ph : Platform} {watch : Watch Op M} {invariant : Nat → Session → M → Prop}
  {held : Nat} {s : Session} {memory : M}

theorem retryGetattr (kept : KeptConnecting ph watch invariant) (finfo : SmbwrpFileinfo) (rc : Int)
    (holds : invariant (held + 1) s memory) :
    watch.Ensures (fun answer later => invariant (held + 1) answer.2.1 later)
      (NdpSmb.retryGetattr s finfo rc) memory := by
  unfold NdpSmb.retryGetattr
  split
  · apply (Watch.ensures_bind.mp (kept.renewed holds)).bind
    intro _ later renewed
    apply renewed.bind
    rintro ⟨rcCon, s⟩ latest after
    simp only
    split
    · apply (kept.only (looks_smbwrpGetattr _ _) after).bind
      intro _ _ last
      exact last
    · exact after
  · exact holds

theorem queryAlive (kept : KeptConnecting ph watch invariant) (finfo : SmbwrpFileinfo)
    (holds : invariant (held + 1) s memory) :
    watch.Ensures (fun answer later => invariant (held + 1) answer.2 later)
      (NdpSmb.queryAlive ph s finfo) memory := by
  apply (kept.only (looks_smbwrpGetattr _ _) holds).bind
  rintro ⟨rc, first⟩ later asked
  apply (kept.retryGetattr first rc asked).bind
  rintro ⟨rc, s, second⟩ latest after
  simp only
  split
  · apply (kept.onlyPlain (only_giveFileinfo ph s second none) after).bind
    intro _ _ last
    exact last
  · split
    · refine Watch.ensures_bind.mpr ((kept.only ?_ after).mono fun _ _ last => last)
      unfold upperPath
      split
      · trivial
      · split
        · trivial
        · refine (looks_smbwrpGetattr _ _).bind fun answer => ?_
          simp only
          split <;> trivial
    · exact after

end KeptConnecting

namespace KeptBrowsing

variable {M : Type} {ph : Platform} {watch : Watch Op M} {invariant : Nat → Session → M → Prop}
  {held : Nat} {s : Session} {memory : M}

theorem findAlive (kept : KeptBrowsing ph watch invariant) (state : FilelistState)
    (holds : invariant (held + 1) s memory) :
    watch.Ensures (fun answer later => invariant held answer.2 later)
      (NdpSmb.findAlive ph s state) memory := by
  apply (kept.listed state holds).bind
  rintro ⟨rc, s⟩ later first
  simp only
  split
  · apply (Watch.ensures_bind.mp (kept.renewed first)).bind
    intro _ latest renewed
    apply renewed.bind
    rintro ⟨_, s⟩ _ alive
    apply (kept.listed state alive).bind
    exact fun answer _ second _ allowed => kept.released second allowed
  · exact fun _ allowed => kept.released first allowed

theorem ndpFindStart (kept : KeptBrowsing ph watch invariant) (szPath : CString)
    (ulAttribute : UInt32) (holds : invariant held s memory) :
    watch.Ensures
      (fun answer later => invariant held answer.2 later ∨ invariant (held + 1) answer.2 later)
      (NdpSmb.ndpFindStart ph s szPath ulAttribute) memory := by
  refine Watch.ensures_perform_bind.mpr fun pel named => ?_
  have asked := kept.unserved holds servedBy_fsphNameElem named
  refine ensures_enter (fun rcLock failed admitted => .inl (kept.denied asked failed admitted)) ?_
  intro admitted
  have inside := kept.locked asked admitted
  split
  · exact kept.crash inside
  · apply (kept.parsed _ inside).bind
    rintro ⟨rc, s, path⟩ later parsed
    simp only
    split
    · exact .inr parsed
    · split
      · exact kept.crash parsed
      · rw [findServer_eq]
        apply (kept.revived parsed).bind
        rintro ⟨rcCon, s⟩ latest alive
        simp only
        split
        · exact .inr alive
        · exact (kept.findAlive _ alive).mono fun _ _ after => .inl after

theorem queryNetwork (kept : KeptBrowsing ph watch invariant) (szPath : CString)
    (finfo : SmbwrpFileinfo) (holds : invariant (held + 1) s memory) :
    watch.Ensures
      (fun answer later => invariant held answer.2 later ∨ invariant (held + 1) answer.2 later)
      (NdpSmb.queryNetwork ph s szPath finfo) memory := by
  apply (kept.parsed szPath holds).bind
  rintro ⟨rc, s, path⟩ later parsed
  simp only
  split
  · exact fun _ allowed => .inl (kept.released parsed allowed)
  · split
    · exact kept.crash parsed
    · rw [queryServer_eq]
      apply (kept.revived parsed).bind
      rintro ⟨rcCon, s⟩ latest alive
      simp only
      split
      · exact .inr alive
      · apply (kept.queryAlive _ alive).bind
        exact fun answer last after _ allowed => .inl (kept.released after allowed)

theorem ndpQueryPathInfo (kept : KeptBrowsing ph watch invariant) (szPath : CString)
    (holds : invariant held s memory) :
    watch.Ensures
      (fun answer later => invariant held answer.2 later ∨ invariant (held + 1) answer.2 later)
      (NdpSmb.ndpQueryPathInfo ph s szPath) memory := by
  refine ensures_enter (fun rcLock failed admitted => .inl (kept.denied holds failed admitted)) ?_
  intro admitted
  have inside := kept.locked holds admitted
  split
  · exact fun _ allowed => .inl (kept.released inside allowed)
  · have found : watch.Ensures (fun _ later => invariant (held + 1) s later)
        (dircacheFindPath ph s.pRes.pdc szPath)
        (watch.observe memory ⟨.fsphRequestMutex, (0 : Int)⟩) := by
      unfold dircacheFindPath
      split
      · exact inside
      · split
        · exact inside
        · unfold dcFindPath
          split
          · exact inside
          · exact fun now read => kept.clocked inside read
    apply found.bind
    rintro (_ | ⟨finfo, ulAge⟩) later after
    · exact fun finfo allowed => kept.queryNetwork szPath finfo
        (kept.unserved after servedBy_uninitializedFileinfo allowed)
    · simp only
      split
      · apply (kept.onlyPlain (only_giveFileinfo ph s finfo none) after).bind
        exact fun _ latest given _ allowed => .inl (kept.released given allowed)
      · exact kept.queryNetwork szPath finfo after

end KeptBrowsing

theorem KeptSearching.every {M : Type} {ph : Platform} {watch : Watch Op M}
    {invariant : Nat → Session → M → Prop} {held : Nat} {s : Session} {memory : M}
    (kept : KeptSearching ph watch invariant) (call : SessionCall)
    (holds : invariant held s memory) :
    watch.Ensures
      (fun answer later => invariant held answer.2 later ∨ invariant (held + 1) answer.2 later)
      (call.run ph s) memory := by
  cases searching : call.searches with
  | false => exact (kept.plain call searching holds).mono fun _ _ after => .inl after
  | true =>
      cases call with
      | queryPathInfo szPath => exact kept.ndpQueryPathInfo szPath holds
      | findStart szPath ulAttribute => exact kept.ndpFindStart szPath ulAttribute holds
      | _ => simp [SessionCall.searches] at searching

end NdpSmb
