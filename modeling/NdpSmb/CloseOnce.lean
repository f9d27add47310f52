import NdpSmb.FileLife

/-!
Every number that the server gives to an opened file goes back to it in one `cli_close`, as long
as no file is opened while the number zero is open.
-/

namespace NdpSmb

open ByteString Interaction

abbrev FileNumber := Handle × Int

/-- The numbers given and not closed since, with the connection of each, and whether one was
closed that is not among them. -/
structure NumberSeen where
  held : List FileNumber := []
  doubled : Bool := false
  deriving DecidableEq

def NumberSeen.act (seen : NumberSeen) : FileAction → NumberSeen
  | .opened cli fd => { seen with held := (cli, fd) :: seen.held }
  | .closed cli fd =>
      { seen with
        held := seen.held.erase (cli, fd)
        doubled := seen.doubled || (cli, fd) ∉ seen.held }
  | .dropped | .used .. | .other => seen

def numberWatch : Watch Op NumberSeen where
  observe seen event := seen.act (fileAction event)
  crash seen := seen.doubled = false

@[simp] theorem numberWatch_observe (seen : NumberSeen) (event : CallEvent) :
    numberWatch.observe seen event = seen.act (fileAction event) := rfl

def numbersSeen (trace : List CallEvent) : NumberSeen := numberWatch.after {} trace

def opensOf (number : FileNumber) (trace : List CallEvent) : Nat :=
  trace.countP fun event => fileAction event = .opened number.1 number.2

def closesOf (number : FileNumber) (trace : List CallEvent) : Nat :=
  trace.countP fun event => fileAction event = .closed number.1 number.2

section Counts

variable {seen : NumberSeen} {trace : List CallEvent} {number : FileNumber}

theorem NumberSeen.doubled_act (action : FileAction) (doubled : seen.doubled = true) :
    (seen.act action).doubled = true := by
  cases action with
  | closed cli fd =>
      simp only [NumberSeen.act, doubled]
      rfl
  | _ => exact doubled

theorem NumberSeen.once_act {action : FileAction} (once : (seen.act action).doubled = false) :
    seen.doubled = false := by
  by_contra doubled
  rw [Bool.not_eq_false] at doubled
  simp [seen.doubled_act action doubled] at once

theorem once_after (once : (numberWatch.after seen trace).doubled = false) :
    seen.doubled = false := by
  induction trace generalizing seen with
  | nil => exact once
  | cons event rest ih => exact NumberSeen.once_act (ih once)

theorem NumberSeen.count_act (number : FileNumber) {action : FileAction} (once : (seen.act action).doubled = false) :
    (seen.act action).held.count number + (if action = .closed number.1 number.2 then 1 else 0) =
      seen.held.count number + if action = .opened number.1 number.2 then 1 else 0 := by
  cases action with
  | opened cli fd =>
      by_cases same : (cli, fd) = number
      · subst same
        simp [NumberSeen.act]
      · have other : ¬ (cli = number.1 ∧ fd = number.2) := fun same' => same (Prod.ext same'.1 same'.2)
        simp [NumberSeen.act, List.count_cons_of_ne same, other]
  | closed cli fd =>
      have member : (cli, fd) ∈ seen.held := by
        simp only [NumberSeen.act, Bool.or_eq_false_iff, decide_eq_false_iff_not, not_not] at once
        exact once.2
      by_cases same : (cli, fd) = number
      · subst same
        have positive := List.count_pos_iff.mpr member
        simp only [NumberSeen.act, List.count_erase_self, if_true, reduceCtorEq, if_false]
        omega
      · have other : ¬ (cli = number.1 ∧ fd = number.2) := fun same' => same (Prod.ext same'.1 same'.2)
        simp [NumberSeen.act, List.count_erase_of_ne (Ne.symm same), other]
  | _ => simp [NumberSeen.act]

theorem count_after (once : (numberWatch.after seen trace).doubled = false) :
    (numberWatch.after seen trace).held.count number + closesOf number trace =
      seen.held.count number + opensOf number trace := by
  induction trace generalizing seen with
  | nil => rfl
  | cons event rest ih =>
      have first := NumberSeen.count_act number (once_after once)
      have others := ih once
      simp only [Watch.after_cons, numberWatch_observe, closesOf, opensOf, List.countP_cons,
        decide_eq_true_eq] at others ⊢
      omega

end Counts

/-! The calls that open and close. -/

def Op.Numberless (R : Type) (op : Op R) : Prop :=
  ∀ reply, ∀ seen : NumberSeen, seen.act (fileAction ⟨op, reply⟩) = seen

def openNumbers (pConn : Connection) : List FileNumber :=
  match pConn.cli with
  | some cli => if 0 ≤ pConn.file.fd then [(cli, pConn.file.fd)] else []
  | none => []

def SessionCall.opensFile : SessionCall → Bool
  | .openReplace .. | .openReplaceL .. | .openCreate .. | .openCreateL .. => true
  | .openExisting .. => true
  | _ => false

section Calls

variable {α : Type} {ph : Platform} {s t : Session} {seen later : NumberSeen}
  {cli : Option Handle} {fd : Int} {refused : Int → α}

theorem Op.Fileless.numberless {R : Type} {op : Op R} (fileless : Op.Fileless R op) :
    Op.Numberless R op := by
  intro reply seen
  rw [fileAction_fileless fileless]
  rfl

theorem Op.OnFile.numberless {R : Type} {op : Op R} (onFile : Op.OnFile cli fd R op) :
    Op.Numberless R op := by
  cases op with
  | request used ask =>
      rcases onFile with fileless | ⟨-, carries⟩
      · have plain : Op.Fileless R (.request used ask) := fileless
        exact plain.numberless
      · intro reply seen
        rw [fileAction_carries carries]
        rfl
  | smbwrpConnect | cliShutdown => exact absurd onFile id
  | _ => exact fun _ _ => rfl

theorem numberless_pathparser (ph : Platform) (szPath : CString) :
    (pathparser ph s szPath).Only Op.Numberless := by
  apply only_pathparser
  · intro srv krb5 ntlmv1 encryption reply seen
    cases reply with
    | refused rc => rfl
    | connected cli => rfl
  · exact fun _ _ _ => rfl

theorem quiet_of_numberless {program : Program α} (numberless : program.Only Op.Numberless)
    (once : seen.doubled = false) :
    numberWatch.Ensures (fun _ later => later = seen) program seen :=
  Watch.ensures_of_only numberless (fun _ _ reply quiet => quiet reply seen) once fun _ => rfl

/-- Nothing was closed twice, and what the Connection has open is what is held. -/
structure Held (s : Session) (seen : NumberSeen) : Prop where
  once : seen.doubled = false
  held : seen.held = openNumbers s.pConn
  connected : s.pConn.cli ≠ none

theorem Held.of_same (holds : Held s seen) (cli : t.pConn.cli = s.pConn.cli)
    (fd : t.pConn.file.fd = s.pConn.file.fd) : Held t seen := by
  refine ⟨holds.once, ?_, ?_⟩
  · rw [holds.held, openNumbers, openNumbers, cli, fd]
  · rw [cli]
    exact holds.connected

theorem openNumbers_closed (closed : t.pConn.file.fd < 0) : openNumbers t.pConn = [] := by
  unfold openNumbers
  split
  · rw [if_neg (by omega)]
  · rfl

theorem openNumbers_opened {cli : Handle} (used : s.pConn.cli = some cli)
    (valid : 0 ≤ s.pConn.file.fd) : openNumbers s.pConn = [(cli, s.pConn.file.fd)] := by
  simp [openNumbers, used, valid]

theorem Held.opened {cli : Handle} (holds : Held s seen) (used : s.pConn.cli = some cli)
    (valid : 0 ≤ s.pConn.file.fd) : seen = { held := [(cli, s.pConn.file.fd)] } := by
  cases seen with
  | mk held doubled =>
      obtain rfl : doubled = false := holds.once
      obtain rfl : held = _ := holds.held
      rw [openNumbers_opened used valid]

theorem Held.closed (holds : Held s seen) (closed : s.pConn.file.fd < 0) : seen = {} := by
  cases seen with
  | mk held doubled =>
      obtain rfl : doubled = false := holds.once
      obtain rfl : held = _ := holds.held
      rw [openNumbers_closed closed]

structure OneMore (seen : NumberSeen) (t : Session) (later : NumberSeen) : Prop where
  once : later.doubled = seen.doubled
  connected : t.pConn.cli ≠ none
  valid : 0 ≤ t.pConn.file.fd
  held : later.held = openNumbers t.pConn ++ seen.held

def OpenedOne (s : Session) (seen : NumberSeen) (t : Session) (later : NumberSeen) : Prop :=
  later = seen ∧ t.pConn.cli ≠ none ∧ t.pConn.file.fd = s.pConn.file.fd ∨ OneMore seen t later

theorem opened_smbwrpOpen_number {file : SmbwrpFile} (connected : t.pConn.cli ≠ none)
    (once : seen.doubled = false) :
    numberWatch.Ensures
      (fun answer later => later = seen ∧ answer.2.fd = file.fd ∨
        OneMore seen { t with pConn := { t.pConn with file := answer.2 } } later)
      (smbwrpOpen t.pConn.cli file) seen := by
  obtain ⟨cli, used⟩ := Option.ne_none_iff_exists'.mp connected
  rw [used]
  simp only [smbwrpOpen]
  split
  · exact .inl ⟨rfl, rfl⟩
  · refine Watch.ensures_perform_bind.mpr fun opened _ => ?_
    cases opened with
    | none =>
        have quiet := (fileless_os2cliErrno cli).mono fun _ _ => Op.Fileless.numberless
        apply (quiet_of_numberless quiet once).bind
        rintro _ _ rfl
        refine .inl ⟨rfl, ?_⟩
        split <;> rfl
    | some opened =>
        refine .inr ⟨rfl, connected, Int.natCast_nonneg _, ?_⟩
        simp [NumberSeen.act, fileAction, openAction, openNumbers, used]

theorem opened_openPath_number (szFileName : CString) (flags ulOpenMode ulAttribute : UInt32)
    (connected : s.pConn.cli ≠ none) (once : seen.doubled = false)
    (untested : ¬ s.pConn.file.fd > 0) :
    numberWatch.Ensures (fun answer later => OpenedOne s seen answer.2 later)
      (openPath ph s szFileName flags ulOpenMode ulAttribute) seen := by
  rw [openPath, if_neg untested]
  have parsed := ((quiet_of_numberless (numberless_pathparser ph szFileName) once).and_returns
    (pathparser_connected szFileName connected)).and_returns (pathparser_moved szFileName)
  apply parsed.bind
  rintro ⟨rc, t, path⟩ _ ⟨⟨rfl, connected⟩, moved⟩
  have same : t.pConn.file.fd = s.pConn.file.fd := congrArg SmbwrpFile.fd moved.file
  simp only
  split
  · exact .inl ⟨rfl, connected, same⟩
  · apply (opened_smbwrpOpen_number connected once).bind
    rintro ⟨rc, file⟩ later (⟨rfl, fd⟩ | more)
    · exact .inl ⟨rfl, connected, fd.trans same⟩
    · exact .inr more

theorem numberless_easOnOpen (rc : Int) (pFEAList : Option (List UInt8)) :
    (easOnOpen rc s pFEAList).Only Op.Numberless := by
  unfold easOnOpen
  split
  · exact ((onFile_ndpFileEASet pFEAList).mono fun _ _ => Op.OnFile.numberless).bind
      fun _ => trivial
  · trivial

theorem opened_smbopen_number (ph : Platform) (szFileName : CString) (flags ulOpenMode ulAttribute : UInt32)
    (pFEAList : Option (List UInt8)) (connected : s.pConn.cli ≠ none)
    (once : seen.doubled = false) (untested : ¬ s.pConn.file.fd > 0) :
    numberWatch.Ensures (fun answer later => OpenedOne s seen answer.2 later)
      (smbopen ph s szFileName flags ulOpenMode ulAttribute pFEAList) seen := by
  have opened (pRes : Resource) : numberWatch.Ensures
      (fun answer later => OpenedOne s seen answer.2 later)
      (openPath ph { s with pRes } szFileName flags ulOpenMode ulAttribute) seen :=
    opened_openPath_number (s := { s with pRes }) szFileName flags ulOpenMode ulAttribute connected
      once untested
  have work : numberWatch.Ensures (fun answer later => OpenedOne s seen answer.2 later)
      (openPath ph (if flags &&& oCreat ≠ 0 then s.invalidateParent ph szFileName else s)
        szFileName flags ulOpenMode ulAttribute) seen := by
    split
    · exact opened _
    · exact opened s.pRes
  refine ensures_guarded (fun _ _ _ => .inl ⟨rfl, connected, rfl⟩) fun _ => ?_
  apply work.bind
  rintro ⟨rc, t⟩ later after
  have still : later.doubled = false := by
    rcases after with ⟨rfl, -⟩ | more
    · exact once
    · exact more.once.trans once
  apply (quiet_of_numberless (numberless_easOnOpen rc pFEAList) still).bind
  rintro _ _ rfl _
  exact after

theorem smbopen_refused (ph : Platform) (szFileName : CString) (flags ulOpenMode ulAttribute : UInt32)
    (pFEAList : Option (List UInt8)) (tested : s.pConn.file.fd > 0) :
    ∃ pRes, smbopen ph s szFileName flags ulOpenMode ulAttribute pFEAList =
      guarded (fun rcLock => (rcLock, s)) (pure (errorTooManyOpenFiles, { s with pRes })) := by
  have refused (pRes : Resource) : openPath ph { s with pRes } szFileName flags ulOpenMode
      ulAttribute = pure (errorTooManyOpenFiles, { s with pRes }) := if_pos tested
  by_cases creates : flags &&& oCreat ≠ 0
  · refine ⟨(s.invalidateParent ph szFileName).pRes, ?_⟩
    rw [smbopen, if_pos creates, Session.invalidateParent, refused]
    rfl
  · refine ⟨s.pRes, ?_⟩
    rw [smbopen, if_neg creates]
    exact congrArg (fun opened => guarded _ (opened >>= _)) (refused s.pRes)

theorem closed_smbwrpClose_number (holds : Held s seen) (valid : 0 ≤ s.pConn.file.fd) :
    numberWatch.Ensures (fun _ later => later = { held := [], doubled := false })
      (smbwrpClose s.pConn.cli s.pConn.file) seen := by
  obtain ⟨cli, used⟩ := Option.ne_none_iff_exists'.mp holds.connected
  have times := (fileless_closeTimes s.pConn.file).mono fun _ _ => Op.Fileless.numberless
  rw [used]
  apply ((quiet_of_numberless times holds.once).and_returns
    (fd_closeTimes _)).bind
  rintro closing later ⟨quiet, same⟩
  refine Watch.ensures_perform_bind.mpr fun closed _ => ?_
  have nothing : later.act (.closed cli closing.fd) = {} := by
    rw [quiet, holds.opened used valid, same]
    simp [NumberSeen.act]
  have quietly {α : Type} {program : Program α} (fileless : program.Only Op.Fileless) :
      numberWatch.Ensures (fun _ latest => latest = {}) program {} :=
    quiet_of_numberless (fileless.mono fun _ _ => Op.Fileless.numberless) rfl
  rw [numberWatch_observe, show fileAction _ = .closed cli closing.fd from rfl, nothing]
  apply (quietly (fileless_requestRc cli closed)).bind
  rintro rc _ rfl
  apply (quietly (fileless_setOnClose cli rc closing)).bind
  rintro _ _ rfl
  rfl

theorem held_ndpFileClose (holds : Held s seen) :
    numberWatch.Ensures (fun answer later => Held answer.2 later) (ndpFileClose s) seen := by
  refine ensures_guarded (fun _ _ _ => holds) fun _ => ?_
  unfold closeOpen
  split
  · rename_i closed
    refine fun _ => ⟨holds.once, ?_, holds.connected⟩
    refine (holds.held.trans (openNumbers_closed closed)).trans (openNumbers_closed ?_).symm
    exact Int.negSucc_lt_zero 0
  · rename_i valid
    apply (closed_smbwrpClose_number holds (by omega)).bind
    rintro ⟨rc, file⟩ later rfl _
    exact ⟨rfl, (openNumbers_closed (Int.negSucc_lt_zero 0)).symm, holds.connected⟩

theorem held_ndpFreeConnection (holds : Held s seen) :
    numberWatch.Ensures
      (fun answer later => (answer.2 = none → later = {}) ∧
        ∀ pConn, answer.2 = some pConn → pConn = s.pConn ∧ later = seen)
      (ndpFreeConnection s.pConn) seen := by
  have disconnected : (smbwrpDisconnect s.pConn.cli).Only Op.Numberless :=
    only_smbwrpDisconnect s.pConn.cli fun _ _ _ => rfl
  have freed : numberWatch.Ensures (fun _ later => later = {}) (freeConnection s.pConn) seen := by
    unfold freeConnection
    split
    · rename_i valid
      apply (closed_smbwrpClose_number holds valid).bind
      rintro answer _ rfl
      exact quiet_of_numberless disconnected rfl
    · rename_i closed
      obtain rfl := holds.closed (by omega)
      exact quiet_of_numberless disconnected rfl
  refine ensures_guarded (fun _ _ _ => ?_) fun _ => Watch.ensures_bind.mpr (freed.mono ?_)
  · constructor
    · intro gone
      cases gone
    · rintro pConn ⟨⟩
      exact ⟨rfl, rfl⟩
  · rintro answer _ rfl _
    exact ⟨fun _ => rfl, by simp⟩

theorem run_opensFile (ph : Platform) {call : SessionCall} (opens : call.opensFile = true) :
    ∃ name flags mode attr pFEAList, ∀ s,
      call.run ph s = smbopen ph s name flags mode attr pFEAList := by
  cases call with
  | openReplace | openReplaceL | openCreate | openCreateL | openExisting =>
      exact ⟨_, _, _, _, _, fun _ => rfl⟩
  | _ => simp [SessionCall.opensFile] at opens

theorem held_of_openedOne (holds : Held s seen) (closed : s.pConn.file.fd < 0)
    (after : OpenedOne s seen t later) : Held t later := by
  obtain rfl := holds.closed closed
  rcases after with ⟨rfl, connected, fd⟩ | more
  · refine ⟨rfl, (openNumbers_closed ?_).symm, connected⟩
    omega
  · refine ⟨more.once, ?_, more.connected⟩
    rw [more.held, List.append_nil]

end Calls

/-! The life of a Connection that opens and closes. -/

/-- Files are opened and closed, and none is opened while the number zero is open. -/
def OpensApart (s : Session) (call : SessionCall) (_ : List CallEvent) : Prop :=
  call.opensFile = true ∧ s.pConn.file.fd ≠ 0 ∨ call = .fileClose

section Lives

variable {ph : Platform} {s t : Session} {seen : NumberSeen} {trace exchanged : List CallEvent}

theorem held_call {call : SessionCall} (holds : Held s seen)
    (apart : OpensApart s call exchanged) :
    numberWatch.Ensures (fun answer later => Held answer.2 later) (call.run ph s) seen := by
  rcases apart with ⟨opens, positive⟩ | rfl
  · obtain ⟨name, flags, mode, attr, pFEAList, same⟩ := run_opensFile ph opens
    rw [same]
    by_cases tested : s.pConn.file.fd > 0
    · obtain ⟨pRes, refused⟩ := smbopen_refused ph name flags mode attr pFEAList tested
      rw [refused]
      have same : Held { s with pRes } seen := holds.of_same rfl rfl
      exact ensures_guarded (fun _ _ _ => holds) fun _ _ => same
    · have opened := opened_smbopen_number ph name flags mode attr pFEAList
        holds.connected holds.once tested
      exact opened.mono fun _ _ => held_of_openedOne holds (by omega)
  · exact held_ndpFileClose holds

theorem held_ndpCreateConnection (pRes : Resource) :
    numberWatch.Ensures
      (fun answer later => ∀ pConn, answer.2 = some pConn → Held ⟨pRes, pConn⟩ later)
      (ndpCreateConnection pRes) {} := by
  refine ensures_guarded (fun _ _ _ => by simp) fun _ => ?_
  refine Watch.ensures_perform_bind.mpr fun malloced _ => ?_
  split
  · exact fun _ => by simp
  · refine Watch.ensures_perform_bind.mpr fun reply _ => ?_
    cases reply with
    | refused rc => exact fun _ => by simp
    | connected cli =>
        rintro _ pConn ⟨⟩
        exact ⟨rfl, rfl, Option.some_ne_none cli⟩

theorem numbersSeen_append (trace exchanged : List CallEvent) :
    numbersSeen (trace ++ exchanged) = numberWatch.after (numbersSeen trace) exchanged :=
  Watch.after_append _ _ _ _

theorem admits_numberWatch : numberWatch.Admits seen trace :=
  Watch.admits_of_forall _ fun _ _ _ => trivial

theorem Lived.held (lived : Lived ph OpensApart s trace) : Held s (numbersSeen trace) := by
  induction lived with
  | @created pRes rc pConn trace run =>
      exact (held_ndpCreateConnection pRes).run run admits_numberWatch pConn rfl
  | shared pRes _ ih => exact ih.of_same rfl rfl
  | called _ run apart ih =>
      rw [numbersSeen_append]
      exact (held_call ih apart).run run admits_numberWatch
  | kept _ run ih =>
      obtain ⟨-, kept⟩ := (held_ndpFreeConnection ih).run run admits_numberWatch
      obtain ⟨rfl, quiet⟩ := kept _ rfl
      rw [numbersSeen_append, quiet]
      exact ih.of_same rfl rfl

theorem once_run {call : SessionCall} {outcome : Option (Int × Session)}
    (holds : Held s (numbersSeen trace)) (apart : OpensApart s call exchanged)
    (run : Run (call.run ph s) exchanged outcome) :
    (numbersSeen (trace ++ exchanged)).doubled = false := by
  rw [numbersSeen_append]
  have concluded := Watch.ensures_iff_runs.mp (held_call holds apart) exchanged outcome run
    admits_numberWatch
  cases outcome with
  | some answer => exact concluded.once
  | none => exact concluded

theorem count_numbersSeen (once : (numbersSeen trace).doubled = false) (number : FileNumber) :
    opensOf number trace = closesOf number trace + (numbersSeen trace).held.count number := by
  have balance : (numbersSeen trace).held.count number + closesOf number trace =
      0 + opensOf number trace := count_after once
  omega

structure TooMany (s : Session) (exchanged : List CallEvent) (rc : Int) (t : Session) : Prop where
  kept : t.pConn = s.pConn
  offline : ∀ event ∈ exchanged, asksServer event = false
  answer : MutexGranted exchanged → rc = errorTooManyOpenFiles

theorem tooMany_of_positive {call : SessionCall} {rc : Int} (opens : call.opensFile = true)
    (tested : s.pConn.file.fd > 0) (run : Run (call.run ph s) exchanged (some (rc, t))) :
    TooMany s exchanged rc t := by
  obtain ⟨name, flags, mode, attr, pFEAList, same⟩ := run_opensFile ph opens
  obtain ⟨pRes, refused⟩ := smbopen_refused ph name flags mode attr pFEAList tested
  rw [same, refused] at run
  have kept : (guarded (fun rcLock => (rcLock, s))
      (pure (errorTooManyOpenFiles, { s with pRes }))).Returns
        fun answer => answer.2.pConn = s.pConn := by
    refine Prog.returns_perform_bind.mpr fun rcLock => ?_
    split
    · rfl
    · exact fun _ => rfl
  have answered : grantedWatch.Ensures (fun answer _ => answer.1 = errorTooManyOpenFiles)
      (guarded (fun rcLock => (rcLock, s)) (pure (errorTooManyOpenFiles, { s with pRes }))) () :=
    granted_refused rfl
  constructor
  · exact kept.run run
  · intro event member
    exact (offline_refused _).run run event member event.reply
  · intro granted
    exact answered.run run (Watch.admits_of_forall _ fun event member _ => granted event member)

end Lives

structure ClosedOnce (ph : Platform) (s : Session) (trace : List CallEvent) : Prop where
  once : (numbersSeen trace).doubled = false
  counted : ∀ number,
    opensOf number trace = closesOf number trace + (openNumbers s.pConn).count number
  called : ∀ call exchanged outcome, OpensApart s call exchanged →
    Run (call.run ph s) exchanged outcome → (numbersSeen (trace ++ exchanged)).doubled = false
  refused : openNumbers s.pConn ≠ [] → ∀ call exchanged rc t, call.opensFile = true →
    OpensApart s call exchanged → Run (call.run ph s) exchanged (some (rc, t)) →
      TooMany s exchanged rc t
  freed : ∀ exchanged rc, Run (ndpFreeConnection s.pConn) exchanged (some (rc, none)) →
    (numbersSeen (trace ++ exchanged)).doubled = false ∧
      ∀ number, opensOf number (trace ++ exchanged) = closesOf number (trace ++ exchanged)
  overwritten : s.pConn.file.fd = 0 → ∀ (call : SessionCall) exchanged rc (t : Session),
    call.opensFile = true → Run (call.run ph s) exchanged (some (rc, t)) →
      numbersSeen (trace ++ exchanged) = numbersSeen trace ∨
      (openNumbers t.pConn).length = 1 ∧
        (numbersSeen (trace ++ exchanged)).held = openNumbers t.pConn ++ openNumbers s.pConn

/-- Where no file is opened while the number zero is open, every number given is closed once or
open still, and closed when the Connection goes; while one is open, no other is opened. An open
in spite of the number zero leaves two that are not closed, if it opens a file. -/
theorem files_closedOnce {ph : Platform} {s : Session} {trace : List CallEvent}
    (lived : Lived ph OpensApart s trace) : ClosedOnce ph s trace := by
  have holds := lived.held
  constructor
  case once => exact holds.once
  case counted =>
    intro number
    rw [← holds.held]
    exact count_numbersSeen holds.once number
  case called => exact fun call exchanged outcome apart run => once_run holds apart run
  case refused =>
    intro opened call exchanged rc t opens apart run
    have valid : 0 ≤ s.pConn.file.fd := by
      by_contra closed
      exact opened (openNumbers_closed (by omega))
    have positive : s.pConn.file.fd ≠ 0 := by
      rcases apart with ⟨-, positive⟩ | rfl
      · exact positive
      · cases opens
    exact tooMany_of_positive opens (by omega) run
  case freed =>
    intro exchanged rc run
    have nothing : numbersSeen (trace ++ exchanged) = {} := by
      rw [numbersSeen_append]
      exact ((held_ndpFreeConnection holds).run run admits_numberWatch).1 rfl
    have once : (numbersSeen (trace ++ exchanged)).doubled = false := by rw [nothing]
    refine ⟨once, fun number => ?_⟩
    rw [count_numbersSeen once, nothing]
    rfl
  case overwritten =>
    intro zero call exchanged rc t opens run
    obtain ⟨name, flags, mode, attr, pFEAList, same⟩ := run_opensFile ph opens
    rw [same] at run
    have after := (opened_smbopen_number ph name flags mode attr pFEAList holds.connected
      holds.once (by omega)).run run admits_numberWatch
    rw [numbersSeen_append]
    rcases after with ⟨quiet, -⟩ | more
    · exact .inl quiet
    · obtain ⟨given, present⟩ := Option.ne_none_iff_exists'.mp more.connected
      refine .inr ⟨?_, ?_⟩
      · rw [openNumbers_opened present more.valid]
        rfl
      · rw [more.held, holds.held]

theorem files_closedOnce_opened :
    ClosedOnce asciiPlatform (leftBy 0 true 5 openF freshSession)
      (createTrace ++ (callRun 0 true 5 openF freshSession).1) := by
  apply files_closedOnce
  exact lived_fresh.executed 0 true 5 openF (by decide) (.inl ⟨rfl, by decide⟩)

/-- The server gives the number zero to the first file; the second one is opened over it, and
the first is never closed. -/
theorem zero_overwritten :
    ∃ s trace exchanged rc,
      Lived asciiPlatform (fun _ call _ => call.opensFile = true ∨ call = .fileClose) s trace ∧
      Run (ndpFreeConnection s.pConn) exchanged (some (rc, none)) ∧
      opensOf (0, 0) (trace ++ exchanged) = 1 ∧ closesOf (0, 0) (trace ++ exchanged) = 0 := by
  have fresh : Lived asciiPlatform (fun _ call _ => call.opensFile = true ∨ call = .fileClose)
      freshSession createTrace := lived_fresh
  have first := fresh.executed 0 true 0 openF (by decide) (.inl rfl)
  have second := first.executed 0 true 5 openF (by decide) (.inl rfl)
  have freed : (exec (fun _ => givingFile 0 true 5) 0 (ndpFreeConnection
      (leftBy 0 true 5 openF (leftBy 0 true 0 openF freshSession)).pConn)).2 =
        some (noError, none) := by decide
  exact ⟨_, _, _, noError, second, freed ▸ run_exec _ _ _, by decide, by decide⟩

end NdpSmb
