import NdpSmb.FileLink

/-!
The open file over the life of a Connection: its number is used only where it was opened, and
nothing is asked of the server while no file is open.
-/

namespace NdpSmb

open ByteString Interaction

/-- Its calls, each of which is as required, and what other Connections do to the Resource
meanwhile; with all that was exchanged for it. -/
inductive Lived (ph : Platform) (required : Session → SessionCall → List CallEvent → Prop) :
    Session → List CallEvent → Prop
  | created {pRes rc pConn trace} : Run (ndpCreateConnection pRes) trace (some (rc, some pConn)) →
      Lived ph required ⟨pRes, pConn⟩ trace
  | shared {s trace} (pRes : Resource) : Lived ph required s trace →
      Lived ph required { s with pRes } trace
  | called {s t call trace exchanged rc} : Lived ph required s trace →
      Run (call.run ph s) exchanged (some (rc, t)) → required s call exchanged →
      Lived ph required t (trace ++ exchanged)
  | kept {s pConn trace exchanged rc} : Lived ph required s trace →
      Run (ndpFreeConnection s.pConn) exchanged (some (rc, some pConn)) →
      Lived ph required { s with pConn } (trace ++ exchanged)

def fileSeen (trace : List CallEvent) : FileSeen := (fileWatch fun _ _ => False).after {} trace

def FileAction.opens : FileAction → Bool
  | .opened .. => true
  | _ => false

/-- The connection is neither given up nor replaced while a file is open, or it is replaced and
a file is opened on the new one. -/
def KeepsFile (s : Session) (exchanged : List CallEvent) : Prop :=
  0 ≤ s.pConn.file.fd → (∃ event ∈ exchanged, fileAction event = .dropped) →
    ∃ event ∈ exchanged, (fileAction event).opens = true

def ReadsOpen (s : Session) (call : SessionCall) : Prop :=
  ∀ hasBuffer ulRead, call = .fileRead hasBuffer ulRead → 0 ≤ s.pConn.file.fd

def CarefulCall (s : Session) (call : SessionCall) (exchanged : List CallEvent) : Prop :=
  ReadsOpen s call ∧ KeepsFile s exchanged

section Lives

variable {ph : Platform} {s t : Session} {seen : FileSeen} {excused : Nat → Nat → Prop}
  {trace exchanged : List CallEvent}

theorem drops_after :
    ((fileWatch excused).after seen trace).drops =
      seen.drops + trace.countP fun event => fileAction event = .dropped := by
  induction trace generalizing seen with
  | nil => rfl
  | cons event rest ih =>
      have first : (seen.act (fileAction event)).drops =
          seen.drops + if fileAction event = .dropped then 1 else 0 := by
        cases fileAction event <;> rfl
      rw [Watch.after_cons, List.countP_cons]
      refine ih.trans ?_
      change (seen.act (fileAction event)).drops + _ = _
      rw [first]
      simp only [decide_eq_true_eq]
      omega

theorem opens_after :
    ((fileWatch excused).after seen trace).opens =
      seen.opens + trace.countP fun event => (fileAction event).opens := by
  induction trace generalizing seen with
  | nil => rfl
  | cons event rest ih =>
      have first : (seen.act (fileAction event)).opens =
          seen.opens + if (fileAction event).opens then 1 else 0 := by
        cases fileAction event <;> rfl
      rw [Watch.after_cons, List.countP_cons]
      refine ih.trans ?_
      change (seen.act (fileAction event)).opens + _ = _
      rw [first]
      omega

theorem fileSeen_append (trace exchanged : List CallEvent) (excused : Nat → Nat → Prop) :
    fileSeen (trace ++ exchanged) = (fileWatch excused).after (fileSeen trace) exchanged :=
  Watch.after_append _ _ _ _

theorem replaced_iff_keepsFile :
    Replaced s (fileSeen trace) (fileSeen (trace ++ exchanged)) ↔ KeepsFile s exchanged := by
  unfold Replaced KeepsFile
  rw [fileSeen_append trace exchanged fun _ _ => False, drops_after, opens_after,
    Nat.lt_add_right_iff_pos, Nat.lt_add_right_iff_pos, List.countP_pos_iff, List.countP_pos_iff]
  simp only [decide_eq_true_eq]

theorem created_ndpCreateConnection (pRes : Resource) :
    (fileWatch excused).Ensures
      (fun answer later => later.stray = false ∧
        ∀ pConn, answer.2 = some pConn → pConn.file.fd = -1)
      (ndpCreateConnection pRes) {} := by
  refine ensures_guarded (fun _ _ _ => ⟨rfl, by simp⟩) fun _ => ?_
  refine Watch.ensures_perform_bind.mpr fun malloced _ => ?_
  split
  · exact fun _ => ⟨rfl, by simp⟩
  · refine Watch.ensures_perform_bind.mpr fun reply _ => ?_
    cases reply with
    | refused rc => exact fun _ => ⟨rfl, by simp⟩
    | connected cli =>
        refine fun _ => ⟨rfl, ?_⟩
        rintro pConn ⟨⟩
        rfl

theorem admits_fileWatch : (fileWatch excused).Admits seen trace :=
  Watch.admits_of_forall _ fun _ _ _ => trivial

theorem handled_run {call : SessionCall} {rc : Int} (careful : (fileSeen trace).stray = false)
    (owns : (fileSeen trace).Owns s.pConn) (reads : ReadsOpen s call)
    (run : Run (call.run ph s) exchanged (some (rc, t))) :
    Handled s (fileSeen trace) t (fileSeen (trace ++ exchanged)) := by
  rw [fileSeen_append trace exchanged (Unreplaced s (fileSeen trace))]
  exact (handled_call call careful owns reads).run run admits_fileWatch

theorem Lived.careful (lived : Lived ph CarefulCall s trace) :
    (fileSeen trace).stray = false ∧ (fileSeen trace).Owns s.pConn := by
  induction lived with
  | @created pRes rc pConn trace run =>
      obtain ⟨careful, fresh⟩ := (created_ndpCreateConnection pRes).run run admits_fileWatch
      have closed := fresh pConn rfl
      refine ⟨careful, fun valid => ?_⟩
      simp only [closed] at valid
      omega
  | shared pRes _ ih => exact ih
  | @called s t call trace exchanged rc _ run allowed ih =>
      obtain ⟨careful, owns⟩ := ih
      have handled := handled_run careful owns allowed.1 run
      exact ⟨handled.careful (replaced_iff_keepsFile.mpr allowed.2),
        handled.owns_iff.mpr (replaced_iff_keepsFile.mpr allowed.2)⟩
  | @kept s pConn trace exchanged rc _ run ih =>
      obtain ⟨careful, owns⟩ := ih
      obtain ⟨still, same⟩ := (careful_ndpFreeConnection careful owns).run run admits_fileWatch
      obtain ⟨rfl, quiet⟩ := same pConn rfl
      rw [fileSeen_append trace exchanged fun _ _ => False]
      exact ⟨still, quiet.symm ▸ owns⟩

end Lives

/-- What should hold of a Connection, and what becomes of its file in the next call. -/
structure UsedWhileOpen (ph : Platform) (s : Session) (trace : List CallEvent) : Prop where
  careful : (fileSeen trace).stray = false
  owns : (fileSeen trace).Owns s.pConn
  called : ∀ call exchanged outcome, CarefulCall s call exchanged →
    Run (call.run ph s) exchanged outcome → (fileSeen (trace ++ exchanged)).stray = false
  freed : ∀ exchanged outcome, Run (ndpFreeConnection s.pConn) exchanged outcome →
    (fileSeen (trace ++ exchanged)).stray = false
  refused : s.pConn.file.fd < 0 → ∀ call exchanged rc t, call.worksOnFile = true →
    CarefulCall s call exchanged → Run (call.run ph s) exchanged (some (rc, t)) →
      (∀ event ∈ exchanged, asksServer event = false) ∧
      (MutexGranted exchanged → Attempts s call → rc = errorInvalidHandle)
  kept : ∀ call exchanged rc t, ReadsOpen s call → Run (call.run ph s) exchanged (some (rc, t)) →
    ((fileSeen (trace ++ exchanged)).Owns t.pConn ↔ KeepsFile s exchanged)

/-- In a life of careful calls every request with the number of a file carries one that was
given on the present connection and has not been closed since, also in a next call that crashes
and when the Connection goes; while no file is open nothing is sent. A file that is open stays
so in a next call exactly when the call keeps it. -/
theorem file_usedWhileOpen {ph : Platform} {s : Session} {trace : List CallEvent}
    (lived : Lived ph CarefulCall s trace) : UsedWhileOpen ph s trace := by
  obtain ⟨careful, owns⟩ := lived.careful
  constructor
  case careful => exact careful
  case owns => exact owns
  case called =>
    intro call exchanged outcome allowed run
    have kept : Replaced s (fileSeen trace) (fileSeen (trace ++ exchanged)) :=
      replaced_iff_keepsFile.mpr allowed.2
    have concluded := Watch.ensures_iff_runs.mp (handled_call call careful owns allowed.1)
      exchanged outcome run admits_fileWatch
    rw [← fileSeen_append] at concluded
    cases outcome with
    | some answer => exact concluded.careful kept
    | none =>
        apply concluded.resolve_right
        exact fun unreplaced => not_replaced_iff.mpr unreplaced kept
  case freed =>
    intro exchanged outcome run
    have freed : (fileWatch fun _ _ => False).Ensures _ (ndpFreeConnection s.pConn) _ :=
      careful_ndpFreeConnection careful owns
    have concluded := Watch.ensures_iff_runs.mp freed exchanged outcome run admits_fileWatch
    rw [← fileSeen_append] at concluded
    cases outcome with
    | some answer => exact concluded.1
    | none => exact concluded.resolve_right id
  case refused =>
    intro closed call exchanged rc t works allowed run
    have reads (hasBuffer : Bool) (ulRead : UInt32) : call ≠ .fileRead hasBuffer ulRead := by
      intro same
      have valid := allowed.1 hasBuffer ulRead same
      omega
    obtain ⟨offline, answered⟩ := refused_call closed works reads
    constructor
    · intro event member
      exact offline.run run event member event.reply
    · intro granted attempts
      exact (answered attempts).run run (Watch.admits_of_forall _ fun event member _ =>
        granted event member)
  case kept =>
    intro call exchanged rc t reads run
    exact (handled_run careful owns reads run).owns_iff.trans replaced_iff_keepsFile

def mountedShare : Resource := { rootlevel := 3 }

def givingFile (cli : Handle) (echo : Bool) (fd : UInt16) : (R : Type) → Op R → R
  | _, .smbwrpConnect .. => .connected cli
  | _, .request _ .cliEcho => echo
  | _, .request _ (.cliOpen ..) => some fd
  | _, op => op.usual

def createTrace : List CallEvent :=
  (exec (fun _ => givingFile 0 true 0) 0 (ndpCreateConnection mountedShare)).1

def freshSession : Session := ⟨mountedShare, { cli := some 0, file := { fd := -1 } }⟩

theorem lived_fresh {required : Session → SessionCall → List CallEvent → Prop} :
    Lived asciiPlatform required freshSession createTrace := by
  have outcome : (exec (fun _ => givingFile 0 true 0) 0 (ndpCreateConnection mountedShare)).2 =
      some (0, some freshSession.pConn) := by decide
  exact .created (outcome ▸ run_exec _ _ _)

def callRun (cli : Handle) (echo : Bool) (fd : UInt16) (call : SessionCall) (s : Session) :
    List CallEvent × Option (Int × Session) :=
  exec (fun _ => givingFile cli echo fd) 0 (call.run asciiPlatform s)

def leftBy (cli : Handle) (echo : Bool) (fd : UInt16) (call : SessionCall) (s : Session) :
    Session :=
  (callRun cli echo fd call s).2.elim s Prod.snd

theorem Lived.executed {required : Session → SessionCall → List CallEvent → Prop} {s : Session}
    {trace : List CallEvent} (lived : Lived asciiPlatform required s trace) (cli : Handle)
    (echo : Bool) (fd : UInt16) (call : SessionCall)
    (finished : (callRun cli echo fd call s).2.isSome)
    (allowed : required s call (callRun cli echo fd call s).1) :
    Lived asciiPlatform required (leftBy cli echo fd call s)
      (trace ++ (callRun cli echo fd call s).1) := by
  obtain ⟨⟨rc, t⟩, outcome⟩ := Option.isSome_iff_exists.mp finished
  have left : leftBy cli echo fd call s = t := by rw [leftBy, outcome]; rfl
  rw [left]
  exact .called lived (outcome ▸ run_exec _ _ _) allowed

def openF : SessionCall := .openExisting (bytes "\\F") 0

theorem file_usedWhileOpen_opened :
    UsedWhileOpen asciiPlatform (leftBy 0 true 5 openF freshSession)
      (createTrace ++ (callRun 0 true 5 openF freshSession).1) := by
  apply file_usedWhileOpen
  apply lived_fresh.executed 0 true 5 openF (by decide)
  constructor
  · intro hasBuffer ulRead reading
    cases reading
  · intro opened
    exact absurd opened (by decide)

/-- Reading without an open file reaches the server, and so does writing to a file whose
connection a query has replaced. -/
theorem request_strays :
    (∃ s trace, Lived asciiPlatform (fun s _ exchanged => KeepsFile s exchanged) s trace ∧
      (fileSeen trace).stray = true) ∧
    (∃ s trace, Lived asciiPlatform (fun s call _ => ReadsOpen s call) s trace ∧
      (fileSeen trace).stray = true) := by
  constructor
  · refine ⟨_, _, lived_fresh.executed 0 true 5 (.fileRead true 1) (by decide) ?_, by decide⟩
    intro opened
    exact absurd opened (by decide)
  · have fresh : Lived asciiPlatform (fun s call _ => ReadsOpen s call) freshSession createTrace :=
      lived_fresh
    have opened := fresh.executed 0 true 5 openF (by decide) fun _ _ reading => by cases reading
    have replaced := opened.executed 1 false 5 (.queryPathInfo (bytes "\\F")) (by decide)
      fun _ _ reading => by cases reading
    have written := replaced.executed 1 false 5 (.fileWrite (some [])) (by decide)
      fun _ _ reading => by cases reading
    exact ⟨_, _, written, by decide⟩

end NdpSmb
