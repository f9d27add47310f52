import NdpSmb.CallRule

/-!
The open file of a Connection: which requests carry its number, and on which connection that
number was given. All that works on a path or on a directory makes other requests.
-/

namespace NdpSmb

open ByteString Interaction

inductive FileAction
  | dropped
  | opened (cli : Handle) (fd : Int)
  | used (cli : Handle) (fd : Int)
  | closed (cli : Handle) (fd : Int)
  | other
  deriving DecidableEq

def openAction (cli : Handle) : Option UInt16 → FileAction
  | none => .other
  | some fd => .opened cli fd.toNat

def connectDrops : ConnectReply → FileAction
  | .connected _ => .dropped
  | .refused _ => .other

def fileAction : CallEvent → FileAction
  | ⟨.smbwrpConnect .., reply⟩ => connectDrops reply
  | ⟨.cliShutdown _, _⟩ => .dropped
  | ⟨.request cli (.cliOpen ..), fd⟩ => openAction cli fd
  | ⟨.request cli (.cliRead fd ..), _⟩ => .used cli fd
  | ⟨.request cli (.cliWriteall fd ..), _⟩ => .used cli fd
  | ⟨.request cli (.cliFtruncate fd _), _⟩ => .used cli fd
  | ⟨.request cli (.cliQfileinfoBasic fd), _⟩ => .used cli fd
  | ⟨.request cli (.cliGetattrE fd), _⟩ => .used cli fd
  | ⟨.request cli (.cliSetEaFnum fd ..), _⟩ => .used cli fd
  | ⟨.request cli (.cliClose fd), _⟩ => .closed cli fd
  | _ => .other

/-- The files opened on the present connection and not closed since, whether a request went to
another one, how often the connection was given up or replaced, and how often a file opened. -/
structure FileSeen where
  opened : List (Handle × Int) := []
  stray : Bool := false
  drops : Nat := 0
  opens : Nat := 0
  deriving DecidableEq

instance : LawfulBEq (Handle × Int) := inferInstance

def FileSeen.act (seen : FileSeen) : FileAction → FileSeen
  | .dropped => { seen with opened := [], drops := seen.drops + 1 }
  | .opened cli fd => { seen with opened := (cli, fd) :: seen.opened, opens := seen.opens + 1 }
  | .used cli fd => { seen with stray := seen.stray || (cli, fd) ∉ seen.opened }
  | .closed cli fd =>
      { seen with
        opened := seen.opened.filter (· ≠ (cli, fd))
        stray := seen.stray || (cli, fd) ∉ seen.opened }
  | .other => seen

/-- A program that crashes must not have strayed before, unless the numbers excuse it. -/
def fileWatch (excused : Nat → Nat → Prop) : Watch Op FileSeen where
  observe seen event := seen.act (fileAction event)
  crash seen := seen.stray = false ∨ excused seen.drops seen.opens

def FileSeen.Owns (seen : FileSeen) (pConn : Connection) : Prop :=
  0 ≤ pConn.file.fd → ∃ cli, pConn.cli = some cli ∧ (cli, pConn.file.fd) ∈ seen.opened

/-- The call neither opens nor gives up a connection, and asks about no open file. -/
def Op.Fileless : (R : Type) → Op R → Prop
  | _, .smbwrpConnect .. | _, .cliShutdown .. => False
  | _, .request _ ask => ask.Fileless
  | _, _ => True

section Wrappers

variable {cli : Option Handle} {used : Handle}

theorem Op.Lists.fileless {R : Type} {op : Op R} (lists : Op.Lists none R op) :
    Op.Fileless R op := by
  cases op with
  | request used ask => exact absurd lists (Option.some_ne_none used).symm
  | smbwrpConnect | cliShutdown => exact lists
  | _ => trivial

theorem Op.Asks.fileless {R : Type} {op : Op R} (asks : Op.Asks cli R op) : Op.Fileless R op := by
  cases op with
  | request used ask => exact asks.2.fileless
  | time | getTimeZone => trivial
  | _ => exact absurd asks id

theorem fileless_of_lists {α : Type} {program : Program α} (lists : program.Only (Op.Lists none)) :
    program.Only Op.Fileless :=
  lists.mono fun _ _ => Op.Lists.fileless

theorem fileless_plain (R : Type) (op : Op R) (served : Op.ServedBy none R op) :
    Op.Fileless R op := served.lists.fileless

theorem fileless_of_served {α : Type} {program : Program α}
    (served : program.Only (Op.ServedBy none)) : program.Only Op.Fileless :=
  fileless_of_lists (only_lists served)

theorem fileless_guarded {α : Type} {refused : Int → α} {work : Program α}
    (inside : work.Only Op.Fileless) : (guarded refused work).Only Op.Fileless :=
  only_guarded trivial trivial inside

theorem fileless_os2cliErrno (cli : Handle) : (os2cliErrno cli).Only Op.Fileless :=
  (asks_os2cliErrno cli).mono fun _ _ => Op.Asks.fileless

theorem fileless_requestRc (cli : Handle) (ok : Bool) : (requestRc cli ok).Only Op.Fileless := by
  unfold requestRc
  split
  · trivial
  · exact fileless_os2cliErrno cli

theorem fileless_smbwrpEcho : (smbwrpEcho cli).Only Op.Fileless :=
  (asks_smbwrpEcho cli).mono fun _ _ => Op.Asks.fileless

end Wrappers

theorem allowsListings_fileless (cli : Handle) : Op.AllowsListings cli Op.Fileless :=
  ⟨⟨⟨fileless_plain, fun _ _ looks => looks.fileless⟩, fun _ _ directs => directs.fileless⟩,
    trivial⟩

theorem fileless_smbwrpFilelist (ph : Platform) (pRes : Resource) (cli : Option Handle)
    (state : FilelistState) : (smbwrpFilelist ph pRes cli state).Only Op.Fileless := by
  unfold smbwrpFilelist
  split
  · trivial
  · split
    · trivial
    · exact only_listTarget ph _ (allowsListings_fileless _) pRes state

section Alone

variable {α : Type} {ph : Platform} {s t : Session} {seen later : FileSeen}
  {excused : Nat → Nat → Prop}

theorem fileAction_fileless {R : Type} {op : Op R} {reply : R} (fileless : Op.Fileless R op) :
    fileAction ⟨op, reply⟩ = .other := by
  cases op with
  | request cli ask => cases ask <;> first | rfl | exact absurd fileless id
  | smbwrpConnect | cliShutdown => exact absurd fileless id
  | _ => rfl

theorem quiet_of_fileless {program : Program α} (fileless : program.Only Op.Fileless)
    (careful : seen.stray = false) :
    (fileWatch excused).Ensures (fun _ later => later = seen) program seen := by
  refine Watch.ensures_of_only fileless (fun R op reply fileless => ?_) (.inl careful) fun _ => rfl
  exact congrArg seen.act (fileAction_fileless fileless)

/-- The call so far has left the file alone; whether it has dropped the connection shows. -/
structure LeftAlone (s : Session) (seen : FileSeen) (t : Session) (later : FileSeen) : Prop where
  fd : t.pConn.file.fd = s.pConn.file.fd
  careful : later.stray = false
  opens : later.opens = seen.opens
  link : t.pConn.cli = s.pConn.cli ∧ later.opened = seen.opened ∧ later.drops = seen.drops ∨
    later.opened = [] ∧ seen.drops < later.drops

theorem LeftAlone.refl (careful : seen.stray = false) : LeftAlone s seen s seen :=
  ⟨rfl, careful, rfl, .inl ⟨rfl, rfl, rfl⟩⟩

theorem LeftAlone.resource (alone : LeftAlone s seen t later) (pRes : Resource) :
    LeftAlone s seen { t with pRes } later :=
  ⟨alone.fd, alone.careful, alone.opens, alone.link⟩

theorem LeftAlone.dropped (alone : LeftAlone s seen t later) (cli : Option Handle) :
    LeftAlone s seen { t with pConn := { t.pConn with cli } } (later.act .dropped) := by
  refine ⟨alone.fd, alone.careful, alone.opens, .inr ⟨rfl, ?_⟩⟩
  rcases alone.link with ⟨-, -, same⟩ | ⟨-, more⟩
  · have counted : (later.act .dropped).drops = later.drops + 1 := rfl
    omega
  · exact Nat.lt_succ_of_lt more

variable {s₀ : Session} {seen₀ : FileSeen}

theorem LeftAlone.only {program : Program α} (alone : LeftAlone s₀ seen₀ s seen)
    (fileless : program.Only Op.Fileless) :
    (fileWatch excused).Ensures (fun _ later => LeftAlone s₀ seen₀ s later) program seen := by
  refine (quiet_of_fileless fileless alone.careful).mono ?_
  rintro _ _ rfl
  exact alone

theorem LeftAlone.perform {R : Type} {op : Op R} {follow : R → Program α}
    {post : α → FileSeen → Prop} (fileless : Op.Fileless R op)
    (next : ∀ reply, (fileWatch excused).Ensures post (follow reply) seen) :
    (fileWatch excused).Ensures post (perform op >>= follow) seen := by
  refine Watch.ensures_perform_bind.mpr fun reply _ => ?_
  have quiet : (fileWatch excused).observe seen ⟨op, reply⟩ = seen :=
    congrArg seen.act (fileAction_fileless fileless)
  rw [quiet]
  exact next reply

theorem LeftAlone.disconnected (alone : LeftAlone s₀ seen₀ s seen) (cli : Option Handle) :
    (fileWatch excused).Ensures (fun _ later => LeftAlone s₀ seen₀ s later) (smbwrpDisconnect cli) seen :=
  ensures_smbwrpDisconnect (fun _ => alone) fun _ _ => alone.dropped s.pConn.cli

theorem LeftAlone.switchTo (alone : LeftAlone s₀ seen₀ s seen) (tmpRes : Resource) :
    (fileWatch excused).Ensures (fun answer later => LeftAlone s₀ seen₀ answer.2 later)
      (NdpSmb.switchTo s tmpRes) seen := by
  refine Watch.ensures_perform_bind.mpr fun reply _ => ?_
  cases reply with
  | refused rc => exact alone
  | connected tmpCli =>
      have connected := (alone.dropped (some tmpCli)).resource tmpRes
      apply (connected.disconnected _).bind
      intro _ _
      exact id

theorem LeftAlone.reconnect (alone : LeftAlone s₀ seen₀ s seen) :
    (fileWatch excused).Ensures (fun answer later => LeftAlone s₀ seen₀ answer.2 later)
      (NdpSmb.reconnect s) seen := by
  refine Watch.ensures_perform_bind.mpr fun reply _ => ?_
  cases reply with
  | refused rc => exact alone
  | connected cli => exact alone.dropped (some cli)

theorem LeftAlone.pathparser (alone : LeftAlone s₀ seen₀ s seen) (szPath : CString) :
    (fileWatch excused).Ensures (fun answer later => LeftAlone s₀ seen₀ answer.2.1 later)
      (NdpSmb.pathparser ph s szPath) seen :=
  ensures_pathparser_kept (fun _ _ after => .inl after.careful) alone alone.switchTo

theorem LeftAlone.revive (alone : LeftAlone s₀ seen₀ s seen) :
    (fileWatch excused).Ensures (fun answer later => LeftAlone s₀ seen₀ answer.2 later)
      (NdpSmb.revive s) seen := by
  apply (alone.only fileless_smbwrpEcho).bind
  intro rc later after
  split
  · exact after.reconnect
  · exact after

theorem LeftAlone.renew (alone : LeftAlone s₀ seen₀ s seen) :
    (fileWatch excused).Ensures (fun answer later => LeftAlone s₀ seen₀ answer.2 later)
      (NdpSmb.renew s) seen := by
  apply (alone.disconnected _).bind
  intro _ later closed
  exact closed.reconnect

theorem LeftAlone.filelistOn (alone : LeftAlone s₀ seen₀ s seen) (state : FilelistState) :
    (fileWatch excused).Ensures (fun answer later => LeftAlone s₀ seen₀ answer.2 later)
      (NdpSmb.filelistOn ph s state) seen := by
  apply (alone.only (fileless_smbwrpFilelist ph _ _ _)).bind
  intro _ later after
  exact after.resource _

/-! The calls that do not work on the open file. -/

def FileAlone (s₀ : Session) (seen₀ : FileSeen) (_ : Nat) (s : Session) (seen : FileSeen) : Prop :=
  LeftAlone s₀ seen₀ s seen

theorem LeftAlone.next {R : Type} {op : Op R} (alone : LeftAlone s₀ seen₀ s seen)
    (fileless : Op.Fileless R op) (reply : R) :
    LeftAlone s₀ seen₀ s ((fileWatch excused).observe seen ⟨op, reply⟩) := by
  have quiet : (fileWatch excused).observe seen ⟨op, reply⟩ = seen :=
    congrArg seen.act (fileAction_fileless fileless)
  rw [quiet]
  exact alone

theorem keptChanging_fileAlone (ph : Platform) (excused : Nat → Nat → Prop) (s₀ : Session)
    (seen₀ : FileSeen) : KeptChanging ph (fileWatch excused) (FileAlone s₀ seen₀) where
  crash alone := .inl alone.careful
  unserved alone served _ := alone.next (fileless_plain _ _ served) _
  asked {_ _ _ R used ask _} alone _ looks _ := by
    have fileless : Op.Fileless R (.request used ask) := looks.fileless
    exact alone.next fileless _
  pathed {_ _ _ R used ask _} alone _ pathwise _ := by
    have fileless : Op.Fileless R (.request used ask) := pathwise
    exact alone.next fileless _
  locked alone _ := alone
  denied alone _ _ := alone
  released alone _ := alone
  parsed szPath alone := alone.pathparser szPath
  invalidated _ alone := alone.resource _

theorem keptBrowsing_fileAlone (ph : Platform) (excused : Nat → Nat → Prop) (s₀ : Session)
    (seen₀ : FileSeen) : KeptBrowsing ph (fileWatch excused) (FileAlone s₀ seen₀) where
  toKeptAsking := (keptChanging_fileAlone ph excused s₀ seen₀).toKeptAsking
  revived alone := alone.revive
  renewed alone := alone.renew
  clocked alone _ := alone
  listed state alone := alone.filelistOn state

end Alone

theorem fileless_giveFileinfo {ph : Platform} {s : Session} (finfo : SmbwrpFileinfo) :
    (giveFileinfo ph s finfo).Only Op.Fileless :=
  fileless_of_served (only_giveFileinfo ph s finfo none)

end NdpSmb
