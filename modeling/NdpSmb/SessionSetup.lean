import NdpSmb.Connect
import Mathlib.Logic.Function.Basic

/-!
The sessions with the servers, as far as their set-up has come. `smbwrp_connect` brings a
session from one stage to the next in order, and leaves none half way.
-/

namespace NdpSmb

open ByteString Interaction

inductive Login
  | as (creds : Option CliCredentials)
  | anonymous
  deriving DecidableEq

structure WireSession where
  host : CString
  signingState : SigningState
  useKerberos : Bool
  negotiated : Bool := false
  login : Option Login := none
  /-- Whether the login could use NTLMv2. -/
  ntlmv2 : Bool := true
  share : Option CString := none
  encrypted : Bool := false
  shut : Bool := false
  /-- The last step that was refused. -/
  failed : Option BadStatus := none
  deriving DecidableEq

structure WireSeen where
  sessions : Handle → Option WireSession := fun _ => none
  ntlmv2Off : Bool := false

namespace WireSeen

def put (seen : WireSeen) (c : Handle) (session : WireSession) : WireSeen :=
  { seen with sessions := Function.update seen.sessions c (some session) }

def change (seen : WireSeen) (c : Handle) (changed : WireSession → WireSession) : WireSeen :=
  match seen.sessions c with
  | none => seen
  | some session => seen.put c (changed session)

def accepted (seen : WireSeen) (c : Handle) (status : Option BadStatus)
    (changed : WireSession → WireSession) : WireSeen :=
  match status with
  | none => seen.change c changed
  | some status => seen.change c fun session => { session with failed := some status }

def opened (seen : WireSeen) (session : WireSession) : Except BadStatus Handle → WireSeen
  | .error _ => seen
  | .ok c => seen.put c session

def Has (seen : WireSeen) (c : Handle) (known : WireSession → Prop) : Prop :=
  ∃ session, seen.sessions c = some session ∧ known session

variable {seen : WireSeen} {c : Handle} {session : WireSession}

@[simp] theorem put_sessions_self : (seen.put c session).sessions c = some session := by
  simp [put]

theorem put_sessions_ne {other : Handle} (ne : other ≠ c) :
    (seen.put c session).sessions other = seen.sessions other := by
  simp [put, ne]

@[simp] theorem put_ntlmv2Off : (seen.put c session).ntlmv2Off = seen.ntlmv2Off := rfl

@[simp] theorem change_put (changed : WireSession → WireSession) :
    (seen.put c session).change c changed = seen.put c (changed session) := by
  simp [change, put]

theorem has_put {known : WireSession → Prop} (holds : known session) :
    (seen.put c session).Has c known :=
  ⟨session, put_sessions_self, holds⟩

end WireSeen

def wireObserve (seen : WireSeen) : WireEvent → WireSeen
  | ⟨.lpSetCmdline option value, _⟩ =>
      if option = bytes "client ntlmv2 auth" ∧ value = bytes "no" then
        { seen with ntlmv2Off := true } else seen
  | ⟨.cliConnectNb host signingState useKerberos, opened⟩ =>
      seen.opened { host, signingState, useKerberos } opened
  | ⟨.smbXcliNegprot c .., status⟩ =>
      seen.accepted c status fun session => { session with negotiated := true }
  | ⟨.cliSessionSetupCreds c creds, status⟩ =>
      seen.accepted c status fun session =>
        { session with login := some (.as creds), ntlmv2 := !seen.ntlmv2Off }
  | ⟨.cliSessionSetupAnon c, status⟩ =>
      seen.accepted c status fun session =>
        { session with login := some .anonymous, ntlmv2 := !seen.ntlmv2Off }
  | ⟨.cliTreeConnectCreds c share _, status⟩ =>
      seen.accepted c status fun session => { session with share := some share }
  | ⟨.cliCmForceEncryptionCreds c .., status⟩ =>
      seen.accepted c status fun session => { session with encrypted := true }
  | ⟨.plain (.cliShutdown c), _⟩ => seen.change c fun session => { session with shut := true }
  | _ => seen

structure Target where
  srv : SmbwrpServer
  krb5support : UInt32
  ntlmv1support : UInt32
  encryptionsupport : UInt32
  deriving DecidableEq

/-- The login is in the target's own name, or in none where there is no password. NULL are
credentials that there was no memory for. -/
def Login.Suits (target : Target) : Login → Prop
  | .as creds => creds = none ∨ creds = some (connectCreds target.srv target.krb5support)
  | .anonymous => target.srv.password = [] ∧ target.srv.username ≠ [] ∧ target.krb5support = 0

/-- The session has been set up for the target; it may have been shut down since. -/
structure WireSession.ReadyFor (session : WireSession) (target : Target) : Prop where
  host : session.host = target.srv.serverName
  signing : session.signingState =
    if target.encryptionsupport ≠ 0 then .required else .default
  negotiated : session.negotiated = true
  login : ∃ login, session.login = some login ∧ login.Suits target
  kerberos : session.useKerberos = decide (target.krb5support ≠ 0)
  share : session.share = some (connectShare target.srv)
  encrypted : target.encryptionsupport ≠ 0 → session.encrypted = true

def ReadyForMine (mine : Handle → Target → Prop) (c : Handle) (session : WireSession) : Prop :=
  ∃ target, mine c target ∧ session.ReadyFor target

/-- No step of the set-up is missing. Where encryption is asked for, the connection has been
made with signing required. -/
structure WireSession.Complete (session : WireSession) : Prop where
  negotiated : session.negotiated = true
  login : session.login ≠ none
  share : session.share ≠ none
  encrypted : session.signingState = .required → session.encrypted = true

theorem WireSession.ReadyFor.complete {session : WireSession} {target : Target}
    (ready : session.ReadyFor target) : session.Complete where
  negotiated := ready.negotiated
  login := by
    obtain ⟨login, present, -⟩ := ready.login
    rw [present]
    exact Option.some_ne_none login
  share := by
    rw [ready.share]
    exact Option.some_ne_none _
  encrypted required := by
    apply ready.encrypted
    intro unwanted
    rw [ready.signing, if_neg (not_not.mpr unwanted)] at required
    cases required

theorem readyFor_shut {session : WireSession} {target : Target} :
    WireSession.ReadyFor { session with shut := true } target ↔ session.ReadyFor target := by
  constructor
  · rintro ⟨host, signing, negotiated, login, kerberos, share, encrypted⟩
    exact ⟨host, signing, negotiated, login, kerberos, share, encrypted⟩
  · rintro ⟨host, signing, negotiated, login, kerberos, share, encrypted⟩
    exact ⟨host, signing, negotiated, login, kerberos, share, encrypted⟩

/-- What an exchange asks of the session that it is about. A step of the set-up follows the
one before it, a session is shut down once unless it was complete, and requests go to
sessions of one's own. -/
def Proper (mine : Handle → WireSession → Prop) (seen : WireSeen) : WireEvent → Prop
  | ⟨.smbXcliNegprot c .., _⟩ =>
      seen.Has c fun session => session.shut = false ∧ session.negotiated = false
  | ⟨.smbXcliConnProtocol c, _⟩ | ⟨.smb2cliConnSetMaxCredits c, _⟩
  | ⟨.cliSessionSetupCreds c _, _⟩ | ⟨.cliSessionSetupAnon c, _⟩ =>
      seen.Has c fun session =>
        session.shut = false ∧ session.negotiated = true ∧ session.login = none
  | ⟨.cliTreeConnectCreds c .., _⟩ =>
      seen.Has c fun session =>
        session.shut = false ∧ session.login ≠ none ∧ session.share = none
  | ⟨.cliCmForceEncryptionCreds c .., _⟩ =>
      seen.Has c fun session =>
        session.shut = false ∧ session.share ≠ none ∧ session.encrypted = false
  | ⟨.plain (.cliShutdown c), _⟩ =>
      seen.Has c fun session => session.shut = false ∨ session.Complete
  | ⟨.plain (.request c _), _⟩ => seen.Has c (mine c)
  | _ => True

theorem Proper.mono {mine wider : Handle → WireSession → Prop} {seen : WireSeen}
    {event : WireEvent} (proper : Proper mine seen event)
    (widen : ∀ c session, mine c session → wider c session) :
    Proper wider seen event := by
  obtain ⟨op, reply⟩ := event
  cases op with
  | plain op =>
      cases op with
      | request c ask =>
          obtain ⟨session, present, holds⟩ := proper
          exact ⟨session, present, widen c session holds⟩
      | _ => exact proper
  | _ => exact proper

def openedHandle : WireEvent → Option Handle
  | ⟨.cliConnectNb .., .ok c⟩ => some c
  | _ => none

def wireWatch : Watch WireOp WireSeen where
  observe := wireObserve
  admits seen event := ∀ c ∈ openedHandle event, seen.sessions c = none

instance (seen : WireSeen) (event : WireEvent) : Decidable (wireWatch.admits seen event) :=
  Option.decidableForallMem (openedHandle event)

def wireSeen (trace : List WireEvent) : WireSeen := wireWatch.after {} trace

/-- Why a session is given up: nobody is logged in, or another step was refused. -/
inductive GivenUp (session : WireSession) : { rc : Int // rc ≠ 0 } → Prop
  | login : session.negotiated = true → session.login = none → GivenUp session ⟨6, six_ne_zero⟩
  | status {status : BadStatus} : session.failed = some status →
      session.negotiated = false ∨ session.login ≠ none → GivenUp session status.rc

inductive Connected (base : WireSeen) (target : Target) : ConnectReply → WireSeen → Prop
  | unreached : Connected base target (.refused ⟨3, three_ne_zero⟩) base
  | refused {c session rc} : base.sessions c = none → session.shut = true → GivenUp session rc →
      ¬ session.ReadyFor target → Connected base target (.refused rc) (base.put c session)
  | ready {c session} : base.sessions c = none → session.ReadyFor target → session.shut = false →
      session.ntlmv2 = !base.ntlmv2Off →
      Connected base target (.connected c) (base.put c session)

section Setup

variable {mine : Handle → WireSession → Prop} {base : WireSeen} {c : Handle} {session : WireSession}
  {below : WireSeen × Prop} {target : Target} {was : Prop}

abbrev properWatch (mine : Handle → WireSession → Prop) : Watch WireOp (WireSeen × Prop) :=
  wireWatch.checked (Proper mine)

structure Building (was : Prop) (base : WireSeen) (c : Handle) (session : WireSession)
    (below : WireSeen × Prop) : Prop where
  unused : base.sessions c = none
  seen : below.1 = base.put c session
  proper : was → below.2

theorem Building.step {R : Type} {next : WireSession}
    (building : Building was base c session below) (mine : Handle → WireSession → Prop)
    (op : WireOp R) (reply : R)
    (passes : Proper mine (base.put c session) ⟨op, reply⟩)
    (moves : wireObserve (base.put c session) ⟨op, reply⟩ = base.put c next) :
    Building was base c next ((properWatch mine).observe below ⟨op, reply⟩) := by
  refine ⟨building.unused, ?_, fun so => ⟨building.proper so, ?_⟩⟩
  · rw [← moves, ← building.seen]
    rfl
  · rw [building.seen]
    exact passes

def Ends (was : Prop) (base : WireSeen) (target : Target) (reply : ConnectReply)
    (below : WireSeen × Prop) : Prop :=
  Connected base target reply below.1 ∧ (was → below.2)

theorem GivenUp.shut {rc : { rc : Int // rc ≠ 0 }} (givenUp : GivenUp session rc) :
    GivenUp { session with shut := true } rc := by
  cases givenUp with
  | login negotiated nobody => exact .login negotiated nobody
  | status failed stage => exact .status failed stage

theorem ensures_refuseConnection {rc : { rc : Int // rc ≠ 0 }}
    (building : Building was base c session below) (open_ : session.shut = false)
    (givenUp : GivenUp session rc) (unready : ¬ session.ReadyFor target) :
    (properWatch mine).Ensures (Ends was base target) (refuseConnection c rc) below := by
  refine Watch.ensures_perform_bind.mpr fun _ _ => ?_
  have shut : Building was base c { session with shut := true }
      ((properWatch mine).observe below ⟨.plain (.cliShutdown c), ()⟩) :=
    building.step _ _ _ (WireSeen.has_put (.inl open_)) (WireSeen.change_put _)
  refine ⟨?_, shut.proper⟩
  rw [shut.seen]
  refine .refused building.unused rfl givenUp.shut fun ready => unready ?_
  exact readyFor_shut.mp ready

def begun (target : Target) : WireSession where
  host := target.srv.serverName
  signingState := if target.encryptionsupport ≠ 0 then .required else .default
  useKerberos := decide (target.krb5support ≠ 0)

def agreed (target : Target) (failed : Option BadStatus) : WireSession :=
  { begun target with negotiated := true, failed }

def loggedIn (base : WireSeen) (target : Target) (failed : Option BadStatus) (login : Login) :
    WireSession :=
  { agreed target failed with login := some login, ntlmv2 := !base.ntlmv2Off }

section Logins

variable {failed : Option BadStatus} {login : Login}

theorem ready_loggedIn (suits : login.Suits target) {encrypted : Bool}
    (encryption : target.encryptionsupport ≠ 0 → encrypted = true) :
    WireSession.ReadyFor { loggedIn base target failed login with
      share := some (connectShare target.srv), encrypted } target where
  host := rfl
  signing := rfl
  negotiated := rfl
  login := ⟨login, rfl, suits⟩
  kerberos := rfl
  share := rfl
  encrypted := encryption

theorem ensures_connectTree
    (building : Building was base c (loggedIn base target failed login) below)
    (suits : login.Suits target) :
    (properWatch mine).Ensures (Ends was base target)
      (connectTree target.srv target.encryptionsupport c) below := by
  refine Watch.ensures_perform_bind.mpr fun status _ => ?_
  have present : some login ≠ none := Option.some_ne_none login
  have connects : (base.put c (loggedIn base target failed login)).Has c fun session =>
      session.shut = false ∧ session.login ≠ none ∧ session.share = none :=
    WireSeen.has_put ⟨rfl, present, rfl⟩
  cases status with
  | some status =>
      have refused := building.step mine (.cliTreeConnectCreds c (connectShare target.srv) none)
        (some status) connects (WireSeen.change_put _)
      exact ensures_refuseConnection refused rfl (.status rfl (.inr present)) fun ready =>
        Option.some_ne_none _ ready.share.symm
  | none =>
      have mounted :=
        building.step mine (.cliTreeConnectCreds c (connectShare target.srv) none) none
        connects (WireSeen.change_put _)
      simp only
      split
      · rename_i unencrypted
        refine ⟨?_, mounted.proper⟩
        rw [mounted.seen]
        exact .ready building.unused (ready_loggedIn suits fun wanted => absurd unencrypted wanted)
          rfl rfl
      · rename_i wanted
        refine Watch.ensures_perform_bind.mpr fun status _ => ?_
        have encrypts : (base.put c { loggedIn base target failed login with
              share := some (connectShare target.srv) }).Has c fun session =>
            session.shut = false ∧ session.share ≠ none ∧ session.encrypted = false :=
          WireSeen.has_put ⟨rfl, Option.some_ne_none _, rfl⟩
        cases status with
        | some status =>
            have refused := mounted.step mine
              (.cliCmForceEncryptionCreds c none (connectShare target.srv)) (some status) encrypts
              (WireSeen.change_put _)
            exact ensures_refuseConnection refused rfl (.status rfl (.inr present)) fun ready =>
              Bool.noConfusion (ready.encrypted wanted)
        | none =>
            have done := mounted.step mine
              (.cliCmForceEncryptionCreds c none (connectShare target.srv)) none encrypts
              (WireSeen.change_put _)
            refine ⟨?_, done.proper⟩
            rw [done.seen]
            exact .ready building.unused (ready_loggedIn suits fun _ => rfl) rfl rfl

def LoggedIn (was : Prop) (base : WireSeen) (target : Target) (c : Handle) (done : Bool)
    (below : WireSeen × Prop) : Prop :=
  ∃ failed, if done then
      ∃ login, login.Suits target ∧ Building was base c (loggedIn base target failed login) below
    else Building was base c (agreed target failed) below

theorem has_agreed : (base.put c (agreed target failed)).Has c fun session =>
    session.shut = false ∧ session.negotiated = true ∧ session.login = none :=
  WireSeen.has_put ⟨rfl, rfl, rfl⟩

theorem ensures_connectAnonymous {creds : Option CliCredentials}
    (building : Building was base c (agreed target failed) below) :
    (properWatch mine).Ensures (LoggedIn was base target c)
      (connectAnonymous target.srv target.krb5support c creds) below := by
  unfold connectAnonymous
  split
  · exact ⟨failed, building⟩
  · rename_i wanted
    obtain ⟨password, rest⟩ := not_or.mp wanted
    obtain ⟨username, kerberos⟩ := not_or.mp rest
    refine Watch.ensures_perform_bind.mpr fun requested _ => ?_
    have asked := building.step mine (.cliCredentialsAuthenticationRequested creds) requested
      trivial rfl
    split
    · exact ⟨failed, asked⟩
    · refine Watch.ensures_perform_bind.mpr fun isAnonymous _ => ?_
      have known := asked.step mine (.cliCredentialsIsAnonymous creds) isAnonymous trivial rfl
      split
      · exact ⟨failed, known⟩
      · refine Watch.ensures_perform_bind.mpr fun status _ => ?_
        cases status with
        | some status =>
            exact ⟨some status, known.step mine (.cliSessionSetupAnon c) (some status) has_agreed
              (WireSeen.change_put _)⟩
        | none =>
            have suits : Login.Suits target .anonymous :=
              ⟨Decidable.not_not.mp password, username, Decidable.not_not.mp kerberos⟩
            exact ⟨failed, .anonymous, suits,
              known.step mine (.cliSessionSetupAnon c) none has_agreed
              (WireSeen.change_put _)⟩

theorem ensures_connectSession {creds : Option CliCredentials}
    (own : Login.Suits target (.as creds))
    (building : Building was base c (agreed target failed) below) :
    (properWatch mine).Ensures (LoggedIn was base target c)
      (connectSession target.srv target.krb5support c creds) below := by
  refine Watch.ensures_perform_bind.mpr fun status _ => ?_
  cases status with
  | none =>
      exact ⟨failed, .as creds, own,
        building.step mine (.cliSessionSetupCreds c creds) none has_agreed
        (WireSeen.change_put _)⟩
  | some status =>
      have refused : Building was base c (agreed target (some status)) _ :=
        building.step mine (.cliSessionSetupCreds c creds) (some status) has_agreed
          (WireSeen.change_put _)
      exact ensures_connectAnonymous refused

theorem ensures_connectLogin (building : Building was base c (agreed target failed) below) :
    (properWatch mine).Ensures (LoggedIn was base target c)
      (connectLogin target.srv target.krb5support c) below := by
  refine Watch.ensures_perform_bind.mpr fun made _ => ?_
  have asked := building.step mine
    (.cliSessionCredsInit (connectCreds target.srv target.krb5support)) made trivial rfl
  have own : Login.Suits target
      (.as (if made then some (connectCreds target.srv target.krb5support) else none)) := by
    cases made with
    | false => exact .inl rfl
    | true => exact .inr rfl
  apply (ensures_connectSession own asked).bind
  intro done later after
  cases done with
  | false => exact after
  | true =>
      obtain ⟨failed, login, suits, logged⟩ := after
      exact fun _ _ => ⟨failed, login, suits, logged.step _ _ _ trivial rfl⟩

theorem ensures_connectCredits (building : Building was base c (agreed target failed) below) :
    (properWatch mine).Ensures
      (fun _ later => Building was base c (agreed target failed) later)
      (connectCredits c) below := by
  refine Watch.ensures_perform_bind.mpr fun protocol _ => ?_
  have asked := building.step mine (.smbXcliConnProtocol c) protocol has_agreed rfl
  split
  · exact fun _ _ => asked.step _ _ _ has_agreed rfl
  · exact asked

end Logins

theorem ensures_connectSetup {maxProtocol : Protocol}
    (building : Building was base c (begun target) below) :
    (properWatch mine).Ensures (Ends was base target)
      (connectSetup target.srv target.krb5support target.encryptionsupport maxProtocol c)
      below := by
  refine Watch.ensures_perform_bind.mpr fun minProtocol _ => ?_
  have asked := building.step mine .lpClientMinProtocol minProtocol trivial rfl
  refine Watch.ensures_perform_bind.mpr fun status _ => ?_
  have negotiates : (base.put c (begun target)).Has c fun session =>
      session.shut = false ∧ session.negotiated = false :=
    WireSeen.has_put ⟨rfl, rfl⟩
  generalize (if maxProtocol = .default then Protocol.latest else maxProtocol) = maximum at status ⊢
  cases status with
  | some status =>
      have refused := asked.step mine (.smbXcliNegprot c minProtocol maximum) (some status)
        negotiates (WireSeen.change_put _)
      exact ensures_refuseConnection refused rfl (.status rfl (.inl rfl)) fun ready =>
        Bool.noConfusion ready.negotiated
  | none =>
      have negotiated : Building was base c (agreed target none) _ :=
        asked.step mine (.smbXcliNegprot c minProtocol maximum) none negotiates
          (WireSeen.change_put _)
      apply (ensures_connectCredits negotiated).bind
      intro _ later credited
      apply (ensures_connectLogin credited).bind
      intro done latest after
      cases done with
      | false =>
          obtain ⟨failed, nobody⟩ := after
          refine ensures_refuseConnection nobody rfl (.login rfl rfl) fun ready => ?_
          obtain ⟨login, present, -⟩ := ready.login
          cases present
      | true =>
          obtain ⟨failed, login, suits, logged⟩ := after
          exact ensures_connectTree logged suits

def WireSeen.downgraded (seen : WireSeen) (ntlmv1support : UInt32) : WireSeen :=
  { seen with ntlmv2Off := seen.ntlmv2Off || decide (ntlmv1support ≠ 0) }

theorem ensures_smbwrpConnect (target : Target) :
    (properWatch mine).Ensures (Ends below.2 (below.1.downgraded target.ntlmv1support) target)
      (smbwrpConnect target.srv target.krb5support target.ntlmv1support target.encryptionsupport)
      below := by
  refine Watch.ensures_perform_bind.mpr fun maxProtocol _ => ?_
  have option : (properWatch mine).Ensures
      (fun _ later => later.1 = below.1.downgraded target.ntlmv1support ∧ (below.2 → later.2))
      (connectNtlmv1 target.ntlmv1support)
      ((properWatch mine).observe below ⟨.lpClientMaxProtocol, maxProtocol⟩) := by
    unfold connectNtlmv1
    split
    · rename_i supported
      refine fun _ _ => ⟨?_, fun so => ⟨⟨so, trivial⟩, trivial⟩⟩
      simp [Watch.checked, wireWatch, wireObserve, WireSeen.downgraded, supported]
    · rename_i unsupported
      refine ⟨?_, fun so => ⟨so, trivial⟩⟩
      simp [Watch.checked, wireWatch, wireObserve, WireSeen.downgraded, unsupported]
  apply option.bind
  rintro _ later ⟨same, still⟩
  refine Watch.ensures_perform_bind.mpr fun opened fresh => ?_
  rw [← same]
  cases opened with
  | error status => exact ⟨.unreached, fun so => ⟨still so, trivial⟩⟩
  | ok c => exact ensures_connectSetup ⟨fresh c rfl, rfl, fun so => ⟨still so, trivial⟩⟩

end Setup

/-! The handles that libsmb gives out. -/

section Opened

variable {seen : WireSeen} {c other : Handle} {event : WireEvent} {trace : List WireEvent}

theorem change_unknown (changed : WireSession → WireSession) :
    (seen.change other changed).sessions c = none ↔ seen.sessions c = none := by
  unfold WireSeen.change
  split
  · rfl
  · rename_i session known
    by_cases same : c = other
    · subst same
      simp [known]
    · rw [WireSeen.put_sessions_ne same]

theorem accepted_unknown (status : Option BadStatus) (changed : WireSession → WireSession) :
    (seen.accepted other status changed).sessions c = none ↔ seen.sessions c = none := by
  cases status with
  | none => exact change_unknown changed
  | some status => exact change_unknown _

theorem observe_unknown :
    (wireObserve seen event).sessions c = none ↔
      seen.sessions c = none ∧ c ∉ openedHandle event := by
  obtain ⟨op, reply⟩ := event
  cases op with
  | cliConnectNb host signingState useKerberos =>
      cases reply with
      | error status => simp [wireObserve, WireSeen.opened, openedHandle]
      | ok new =>
          by_cases same : c = new
          · subst same
            simp [wireObserve, WireSeen.opened, openedHandle]
          · simp [wireObserve, WireSeen.opened, openedHandle, WireSeen.put_sessions_ne same,
              Ne.symm same]
  | plain op =>
      cases op with
      | cliShutdown used => simp [wireObserve, openedHandle, change_unknown]
      | _ => simp [wireObserve, openedHandle]
  | lpSetCmdline option value =>
      simp only [wireObserve, openedHandle]
      split <;> simp
  | smbXcliNegprot | cliSessionSetupCreds | cliSessionSetupAnon | cliTreeConnectCreds
  | cliCmForceEncryptionCreds => simp [wireObserve, openedHandle, accepted_unknown]
  | _ => simp [wireObserve, openedHandle]

abbrev openedHandles (trace : List WireEvent) : List Handle := trace.filterMap openedHandle

theorem after_unknown :
    (wireWatch.after seen trace).sessions c = none ↔
      seen.sessions c = none ∧ c ∉ openedHandles trace := by
  induction trace generalizing seen with
  | nil => simp
  | cons event rest ih =>
      rw [Watch.after_cons, ih]
      have first : (wireWatch.observe seen event).sessions c = none ↔
          seen.sessions c = none ∧ c ∉ openedHandle event := observe_unknown
      rw [first]
      cases opened : openedHandle event <;> simp [opened, and_assoc, eq_comm]

/-- No handle is given out twice. -/
theorem openedHandles_fresh (fresh : wireWatch.Admits seen trace) :
    (openedHandles trace).Nodup ∧ ∀ c ∈ openedHandles trace, seen.sessions c = none := by
  induction trace generalizing seen with
  | nil => exact ⟨List.nodup_nil, nofun⟩
  | cons event rest ih =>
      obtain ⟨nodup, unknown⟩ := ih fresh.2
      have before : ∀ c ∈ openedHandles rest, seen.sessions c = none ∧ c ∉ openedHandle event :=
        fun c member => observe_unknown.mp (unknown c member)
      cases opened : openedHandle event with
      | none =>
          rw [openedHandles, List.filterMap_cons_none opened]
          exact ⟨nodup, fun c member => (before c member).1⟩
      | some new =>
          rw [openedHandles, List.filterMap_cons_some opened]
          refine ⟨List.nodup_cons.mpr ⟨fun member => ?_, nodup⟩, fun c member => ?_⟩
          · exact (before new member).2 opened
          · rcases List.mem_cons.mp member with rfl | member
            · exact fresh.1 c opened
            · exact (before c member).1

end Opened

theorem Connected.opened {base later : WireSeen} {target : Target} {cli : Handle}
    (connected : Connected base target (.connected cli) later) :
    base.sessions cli = none ∧ later.sessions cli ≠ none := by
  cases connected with
  | ready unused => exact ⟨unused, by simp⟩

theorem opened_smbwrpConnect (target : Target) {cli : Handle} {seen : WireSeen}
    {trace : List WireEvent} (run : Run (smbwrpConnect target.srv target.krb5support
      target.ntlmv1support target.encryptionsupport) trace (some (.connected cli)))
    (fresh : wireWatch.Admits seen trace) : cli ∈ openedHandles trace := by
  have admitted : (properWatch fun _ _ => True).Admits (seen, True) trace :=
    Watch.checked_admits.mpr fresh
  have ends := (ensures_smbwrpConnect target).run run admitted
  rw [Ends, Watch.checked_after_fst] at ends
  obtain ⟨unknown, known⟩ := ends.1.opened
  by_contra absent
  exact known (after_unknown.mpr ⟨unknown, absent⟩)

end NdpSmb
