import NdpSmb.Realization
import NdpSmb.Mount

/-!
`smbwrp_connect`, in the calls that it makes to libsmb. Here `Op.smbwrpConnect` is no longer
an operation but a program, and every other call of the plugin is passed on as it is.
-/

namespace NdpSmb

open ByteString Interaction

inductive Protocol
  | default
  | none
  | core
  | coreplus
  | lanman1
  | lanman2
  | nt1
  | smb202
  | smb210
  | smb300
  | smb302
  | smb311
  deriving DecidableEq

def Protocol.latest : Protocol := .smb311

/-- At least `PROTOCOL_SMB2_02`. -/
def Protocol.isSmb2 : Protocol → Bool
  | .smb202 | .smb210 | .smb300 | .smb302 | .smb311 => true
  | _ => false

inductive SigningState
  | default
  | required
  deriving DecidableEq

/-- What `cli_session_creds_init` is given. -/
structure CliCredentials where
  username : CString
  workgroup : Option CString
  password : CString
  useKerberos : Bool
  fallbackAfterKerberos : Bool
  deriving DecidableEq

/-- The calls of the plugin with the connection spelled out. A pointer to credentials is
their value, and `none` is NULL; a status that is not OK is `some`. -/
inductive WireOp : Type → Type 1
  | plain {R : Type} (op : Op R) : WireOp R
  | lpClientMaxProtocol : WireOp Protocol
  | lpClientMinProtocol : WireOp Protocol
  | lpSetCmdline (option value : CString) : WireOp Unit
  | cliConnectNb (host : CString) (signingState : SigningState) (useKerberos : Bool) :
      WireOp (Except BadStatus Handle)
  | smbXcliNegprot (c : Handle) (minProtocol maxProtocol : Protocol) : WireOp (Option BadStatus)
  | smbXcliConnProtocol (c : Handle) : WireOp Protocol
  | smb2cliConnSetMaxCredits (c : Handle) : WireOp Unit
  | cliSessionCredsInit (creds : CliCredentials) : WireOp Bool
  | cliSessionSetupCreds (c : Handle) (creds : Option CliCredentials) : WireOp (Option BadStatus)
  | cliCredentialsAuthenticationRequested (creds : Option CliCredentials) : WireOp Bool
  | cliCredentialsIsAnonymous (creds : Option CliCredentials) : WireOp Bool
  | cliSessionSetupAnon (c : Handle) : WireOp (Option BadStatus)
  | tallocFree (creds : Option CliCredentials) : WireOp Unit
  | cliTreeConnectCreds (c : Handle) (share : CString) (creds : Option CliCredentials) :
      WireOp (Option BadStatus)
  | cliCmForceEncryptionCreds (c : Handle) (creds : Option CliCredentials) (share : CString) :
      WireOp (Option BadStatus)

def WireOp.usual (c : Handle) : (R : Type) → WireOp R → R
  | _, .plain op => op.usual
  | _, .lpClientMaxProtocol => .default
  | _, .lpClientMinProtocol => .core
  | _, .lpSetCmdline .. | _, .smb2cliConnSetMaxCredits _ | _, .tallocFree _ => ()
  | _, .cliConnectNb .. => .ok c
  | _, .smbXcliConnProtocol _ => .smb311
  | _, .cliSessionCredsInit _ => true
  | _, .cliCredentialsAuthenticationRequested _ | _, .cliCredentialsIsAnonymous _ => false
  | _, .smbXcliNegprot .. | _, .cliSessionSetupCreds .. | _, .cliSessionSetupAnon _ => none
  | _, .cliTreeConnectCreds .. | _, .cliCmForceEncryptionCreds .. => none

abbrev WireProgram (α : Type) : Type 1 := Prog WireOp α

abbrev WireEvent : Type 1 := Event WireOp

theorem BadStatus.toInt_ne_zero (status : BadStatus) : status.1.toInt32.toInt ≠ 0 := by
  intro zero
  have same : status.1.toInt32 = (0 : UInt32).toInt32 := Int32.toInt_inj.mp zero
  exact status.2 (congrArg Int32.toUInt32 same)

def BadStatus.rc (status : BadStatus) : { rc : Int // rc ≠ 0 } := ⟨_, status.toInt_ne_zero⟩

theorem three_ne_zero : (3 : Int) ≠ 0 := by decide

theorem six_ne_zero : (6 : Int) ≠ 0 := by decide

/-- Without a share the connection is for browsing. -/
def connectShare (srv : SmbwrpServer) : CString :=
  if srv.shareName = [] then bytes "IPC$" else srv.shareName

def connectCreds (srv : SmbwrpServer) (krb5support : UInt32) : CliCredentials where
  username := srv.username
  workgroup := if srv.workgroup = [] then none else some srv.workgroup
  password := srv.password
  useKerberos := krb5support ≠ 0
  fallbackAfterKerberos := krb5support ≠ 0

def refuseConnection (c : Handle) (rc : { rc : Int // rc ≠ 0 }) : WireProgram ConnectReply := do
  perform (.plain (.cliShutdown c))
  pure (.refused rc)

/-- Without a password a failed login is tried again without a name; whether somebody is
logged in. -/
def connectAnonymous (srv : SmbwrpServer) (krb5support : UInt32) (c : Handle)
    (creds : Option CliCredentials) : WireProgram Bool :=
  if srv.password ≠ [] ∨ srv.username = [] ∨ krb5support ≠ 0 then pure false else do
    let requested ← perform (.cliCredentialsAuthenticationRequested creds)
    if requested then pure false else do
      let anonymous ← perform (.cliCredentialsIsAnonymous creds)
      if anonymous then pure false else do
        let status ← perform (.cliSessionSetupAnon c)
        pure (status = none)

def connectSession (srv : SmbwrpServer) (krb5support : UInt32) (c : Handle)
    (creds : Option CliCredentials) : WireProgram Bool := do
  let status ← perform (.cliSessionSetupCreds c creds)
  if status = none then pure true else connectAnonymous srv krb5support c creds

/-- The credentials are freed after a login, and only then. -/
def connectLogin (srv : SmbwrpServer) (krb5support : UInt32) (c : Handle) : WireProgram Bool := do
  let made ← perform (.cliSessionCredsInit (connectCreds srv krb5support))
  let creds := if made then some (connectCreds srv krb5support) else none
  let loggedIn ← connectSession srv krb5support c creds
  if loggedIn then do
    perform (.tallocFree creds)
    pure true
  else pure false

/-- `TALLOC_FREE` has made the credentials NULL. -/
def connectTree (srv : SmbwrpServer) (encryptionsupport : UInt32) (c : Handle) :
    WireProgram ConnectReply := do
  let status ← perform (.cliTreeConnectCreds c (connectShare srv) none)
  match status with
  | some status => refuseConnection c status.rc
  | none =>
      if encryptionsupport = 0 then pure (.connected c) else do
        let status ← perform (.cliCmForceEncryptionCreds c none (connectShare srv))
        match status with
        | some status => refuseConnection c status.rc
        | none => pure (.connected c)

def connectCredits (c : Handle) : WireProgram Unit := do
  let protocol ← perform (.smbXcliConnProtocol c)
  if protocol.isSmb2 then perform (.smb2cliConnSetMaxCredits c) else pure ()

def connectSetup (srv : SmbwrpServer) (krb5support encryptionsupport : UInt32)
    (maxProtocol : Protocol) (c : Handle) : WireProgram ConnectReply := do
  let maxProtocol := if maxProtocol = .default then Protocol.latest else maxProtocol
  let minProtocol ← perform .lpClientMinProtocol
  let status ← perform (.smbXcliNegprot c minProtocol maxProtocol)
  match status with
  | some status => refuseConnection c status.rc
  | none => do
      connectCredits c
      let loggedIn ← connectLogin srv krb5support c
      if loggedIn then connectTree srv encryptionsupport c
      else refuseConnection c ⟨6, six_ne_zero⟩

/-- The option of the command line is that of the whole process. -/
def connectNtlmv1 (ntlmv1support : UInt32) : WireProgram Unit :=
  if ntlmv1support ≠ 0 then perform (.lpSetCmdline (bytes "client ntlmv2 auth") (bytes "no"))
  else pure ()

def smbwrpConnect (srv : SmbwrpServer) (krb5support ntlmv1support encryptionsupport : UInt32) :
    WireProgram ConnectReply := do
  let maxProtocol ← perform .lpClientMaxProtocol
  connectNtlmv1 ntlmv1support
  let signingState := if encryptionsupport ≠ 0 then SigningState.required else .default
  let opened ← perform (.cliConnectNb srv.serverName signingState (decide (krb5support ≠ 0)))
  match opened with
  | .error _ => pure (.refused ⟨3, three_ne_zero⟩)
  | .ok c => connectSetup srv krb5support encryptionsupport maxProtocol c

/-- The program of each call of the plugin. -/
def wired : (R : Type) → Op R → WireProgram R
  | _, .smbwrpConnect srv krb5support ntlmv1support encryptionsupport =>
      NdpSmb.smbwrpConnect srv krb5support ntlmv1support encryptionsupport
  | _, op => perform (.plain op)

/-! A connection is made or refused, but does not crash. -/

section Completes

variable {srv : SmbwrpServer} {krb5support ntlmv1support encryptionsupport : UInt32} {c : Handle}

theorem completes_refuseConnection (rc : { rc : Int // rc ≠ 0 }) :
    (refuseConnection c rc).Completes fun _ => True := fun _ => trivial

theorem completes_connectTree :
    (connectTree srv encryptionsupport c).Completes fun _ => True := by
  intro status
  cases status with
  | some status => exact completes_refuseConnection status.rc
  | none =>
      refine Prog.completes_ite (fun _ => trivial) fun _ status => ?_
      cases status with
      | some status => exact completes_refuseConnection status.rc
      | none => trivial

theorem completes_connectLogin :
    (connectLogin srv krb5support c).Completes fun _ => True := by
  intro made
  have session (creds : Option CliCredentials) :
      (connectSession srv krb5support c creds).Completes fun _ => True := by
    intro status
    refine Prog.completes_ite (fun _ => trivial) fun _ => ?_
    refine Prog.completes_ite (fun _ => trivial) fun _ requested => ?_
    refine Prog.completes_ite (fun _ => trivial) fun _ anonymous => ?_
    exact Prog.completes_ite (fun _ => trivial) fun _ _ => trivial
  refine (session _).bind fun loggedIn _ => ?_
  exact Prog.completes_ite (fun _ _ => trivial) fun _ => trivial

theorem completes_smbwrpConnect :
    (smbwrpConnect srv krb5support ntlmv1support encryptionsupport).Completes fun _ => True := by
  intro maxProtocol
  have option : (connectNtlmv1 ntlmv1support).Completes fun _ => True :=
    Prog.completes_ite (fun _ _ => trivial) fun _ => trivial
  refine option.bind fun _ _ opened => ?_
  cases opened with
  | error status => trivial
  | ok c =>
      intro minProtocol status
      cases status with
      | some status => exact completes_refuseConnection status.rc
      | none =>
          have credits : (connectCredits c).Completes fun _ => True :=
            fun _ => Prog.completes_ite (fun _ _ => trivial) fun _ => trivial
          refine credits.bind fun _ _ => completes_connectLogin.bind fun loggedIn _ => ?_
          exact Prog.completes_ite (fun _ => completes_connectTree)
            fun _ => completes_refuseConnection _

theorem completes_wired (R : Type) (op : Op R) : (wired R op).Completes fun _ => True := by
  cases op with
  | smbwrpConnect => exact completes_smbwrpConnect
  | _ => exact fun _ => trivial

end Completes

end NdpSmb
