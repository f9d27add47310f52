import NdpSmb.Smbwrp

/-! `pathparser`: the leading components of a path choose the share, the rest is the path on it. -/

namespace NdpSmb

open ByteString Interaction

def lfnProbe : CString := bytes "A.+,;=[].B"

def iftestpath : CString → Bool
  | [] => false
  | letter :: rest => decide ((letter :: rest).take 10 = lfnProbe) || iftestpath rest

structure ParsedPath where
  srv : SmbwrpServer
  newlevel : Bool
  path : CString

def nextComponent (path : CString) : CString × CString :=
  (beforeFirst backslash path, (fromFirst backslash path).drop 1)

section Parse

variable (ph : Platform)

/-- The test for a stored name that has to be replaced; an empty component always is. -/
def differs (stored component : CString) : Bool :=
  decide (stored.length ≠ component.length ∨ component = [] ∨
    ¬ ph.SameName component (stored.take component.length))

/-- One level of the path, kept in the name that `get` reads and `set` writes; `none`
when the component does not fit its field. -/
def parseLevel (get : SmbwrpServer → CString) (set : SmbwrpServer → CString → SmbwrpServer)
    (parsed : ParsedPath) : Option ParsedPath :=
  let (component, rest) := nextComponent parsed.path
  if differs ph (get parsed.srv) component then
    if component.length ≥ nameField then none
    else some { srv := set parsed.srv component, newlevel := true, path := rest }
  else some { parsed with path := rest }

def parseWorkgroup : ParsedPath → Option ParsedPath :=
  parseLevel ph (·.workgroup) fun srv name => { srv with workgroup := name }

def parseServer : ParsedPath → Option ParsedPath :=
  parseLevel ph (·.serverName) fun srv name => { srv with serverName := name }

def parseShare : ParsedPath → Option ParsedPath :=
  parseLevel ph (·.shareName) fun srv name => { srv with shareName := name }

def parseLevels (rootlevel : Nat) (parsed : ParsedPath) : Option ParsedPath :=
  match rootlevel with
  | 0 => ((parseWorkgroup ph parsed).bind (parseServer ph)).bind (parseShare ph)
  | 1 => (parseServer ph parsed).bind (parseShare ph)
  | 2 => parseShare ph parsed
  | _ => some parsed

def dropSlash : CString → CString
  | [] => []
  | letter :: rest => if letter = backslash then rest else letter :: rest

def parsePath (pRes : Resource) (path : CString) : Option ParsedPath :=
  parseLevels ph pRes.rootlevel { srv := pRes.srv, newlevel := false, path := dropSlash path }

end Parse

def Resource.connect (pRes : Resource) : Op ConnectReply :=
  .smbwrpConnect pRes.srv pRes.krb5support pRes.ntlmv1support pRes.encryptionsupport

/-- The new connection is opened before the old one is given up. -/
def switchTo (s : Session) (tmpRes : Resource) : Program (Int × Session) := do
  let reply ← perform tmpRes.connect
  match reply with
  | .refused rc => pure (rc, s)
  | .connected tmpCli => do
      smbwrpDisconnect s.pConn.cli
      pure (0, { pRes := tmpRes, pConn := { s.pConn with cli := some tmpCli } })

/-- The last copy into `result`, which has room for `CCHMAXPATH` characters. -/
def finishPath (rc : Int) (s : Session) (path : CString) : Program (Int × Session × CString) :=
  if path.length ≥ cchmaxpath then .fault else pure (rc, s, backslash :: path)

def pathparser (ph : Platform) (s : Session) (path : CString) :
    Program (Int × Session × CString) :=
  if iftestpath path then pure (noError, s, backslash :: lfnProbe) else
  match parsePath ph s.pRes path with
  | none => .fault
  | some parsed =>
      if parsed.newlevel then do
        let (rc, s) ← switchTo s { s.pRes with srv := parsed.srv }
        finishPath rc s parsed.path
      else finishPath noError s parsed.path

/-! The names that a path asks for, and when they are the stored ones. -/

section Components

variable (ph : Platform)

theorem differs_eq_false_iff {stored component : CString} :
    differs ph stored component = false ↔ component ≠ [] ∧ ph.SameName component stored := by
  simp only [differs, decide_eq_false_iff_not, not_or, ne_eq, Decidable.not_not]
  constructor
  · rintro ⟨length, present, same⟩
    rw [← length, List.take_length] at same
    exact ⟨present, same⟩
  · rintro ⟨present, same⟩
    have length := FoldEq.length_eq same
    refine ⟨length.symm, present, ?_⟩
    rw [length, List.take_length]
    exact same

theorem parseLevel_spec {get : SmbwrpServer → CString}
    {set : SmbwrpServer → CString → SmbwrpServer} (stored : ∀ srv name, get (set srv name) = name)
    {parsed next : ParsedPath} (step : parseLevel ph get set parsed = some next) :
    ph.SameName (nextComponent parsed.path).1 (get next.srv) ∧
      next.path = (nextComponent parsed.path).2 ∧
      (next = { parsed with path := (nextComponent parsed.path).2 } ∨
        next = { srv := set parsed.srv (nextComponent parsed.path).1, newlevel := true,
                 path := (nextComponent parsed.path).2 }) := by
  simp only [parseLevel] at step
  split at step
  · split at step
    · simp at step
    · obtain rfl := Option.some.inj step
      exact ⟨by rw [stored]; exact FoldEq.refl _, rfl, .inr rfl⟩
  · rename_i same
    obtain rfl := Option.some.inj step
    rw [Bool.not_eq_true, differs_eq_false_iff] at same
    exact ⟨same.2, rfl, .inl rfl⟩

end Components

def Session.Reparsed (s t : Session) : Prop :=
  t = s ∨ ∃ srv cli, t = ⟨{ s.pRes with srv := srv }, { s.pConn with cli := some cli }⟩

structure Session.Moved (s t : Session) : Prop where
  pdc : t.pRes.pdc = s.pRes.pdc
  file : t.pConn.file = s.pConn.file

section Moved

variable {ph : Platform} {s t : Session}

theorem returns_finishPath {known : Session → Prop} (rc : Int) (path : CString)
    (holds : known t) : (finishPath rc t path).Returns fun answer => known answer.2.1 := by
  unfold finishPath
  split
  · trivial
  · exact holds

theorem pathparser_session (szPath : CString) :
    (pathparser ph s szPath).Returns fun answer => s.Reparsed answer.2.1 := by
  unfold pathparser
  split
  · exact .inl rfl
  · split
    · trivial
    · split
      · refine Prog.returns_bind.mpr (Prog.returns_perform_bind.mpr fun reply => ?_)
        cases reply with
        | refused rc => exact returns_finishPath _ _ (.inl rfl)
        | connected cli =>
            refine Prog.returns_bind.mpr (Prog.returns_of_forall fun _ => ?_)
            exact returns_finishPath _ _ (.inr ⟨_, cli, rfl⟩)
      · exact returns_finishPath _ _ (.inl rfl)

theorem pathparser_moved (szPath : CString) :
    (pathparser ph s szPath).Returns fun answer => s.Moved answer.2.1 := by
  apply (pathparser_session szPath).mono
  rintro ⟨rc, t, path⟩ (rfl | ⟨srv, cli, rfl⟩)
  · exact ⟨rfl, rfl⟩
  · exact ⟨rfl, rfl⟩

theorem pathparser_connected (szPath : CString) (connected : s.pConn.cli ≠ none) :
    (pathparser ph s szPath).Returns fun answer => answer.2.1.pConn.cli ≠ none := by
  apply (pathparser_session szPath).mono
  rintro ⟨rc, t, path⟩ (rfl | ⟨srv, cli, rfl⟩)
  · exact connected
  · exact Option.some_ne_none cli

end Moved

section Footprints

variable {ph : Platform} {s : Session} {szPath : CString} {allowed : (R : Type) → Op R → Prop}

theorem only_smbwrpDisconnect (cli : Option Handle)
    (shuts : ∀ cli, allowed Unit (.cliShutdown cli)) : (smbwrpDisconnect cli).Only allowed := by
  cases cli with
  | none => trivial
  | some cli => exact ⟨shuts cli, fun _ => trivial⟩

theorem only_pathparser
    (connects : ∀ srv krb5 ntlmv1 encryption,
      allowed ConnectReply (.smbwrpConnect srv krb5 ntlmv1 encryption))
    (shuts : ∀ cli, allowed Unit (.cliShutdown cli)) :
    (pathparser ph s szPath).Only allowed := by
  have finished (rc : Int) (t : Session) (path : CString) :
      (finishPath rc t path).Only allowed := by
    unfold finishPath
    split <;> trivial
  unfold pathparser
  split
  · trivial
  · split
    · trivial
    · split
      · refine Prog.Only.bind ?_ fun switched => finished _ _ _
        refine Prog.only_perform_bind.mpr ⟨connects _ _ _ _, fun reply => ?_⟩
        cases reply with
        | refused rc => trivial
        | connected cli => exact (only_smbwrpDisconnect _ shuts).bind fun _ => trivial
      · exact finished _ _ _

end Footprints

section Walk

variable {ph : Platform} {s t : Session} {M : Type} {watch : Watch Op M} {memory : M}

theorem ensures_smbwrpDisconnect {post : Unit → M → Prop} {cli : Option Handle}
    (unused : cli = none → post () memory)
    (closed : ∀ used, cli = some used → post () (watch.observe memory ⟨.cliShutdown used, ()⟩)) :
    watch.Ensures post (smbwrpDisconnect cli) memory := by
  cases cli with
  | none => exact unused rfl
  | some used => exact fun _ _ => closed used rfl

theorem ensures_finishPath {post : Int × Session × CString → M → Prop} {rc : Int}
    {path : CString} (breaks : cchmaxpath ≤ path.length → watch.crash memory)
    (done : path.length < cchmaxpath → post (rc, t, backslash :: path) memory) :
    watch.Ensures post (finishPath rc t path) memory := by
  unfold finishPath
  split
  · rename_i long
    exact breaks long
  · rename_i short
    exact done (by omega)

theorem ensures_pathparser_kept {kept : Session → M → Prop} {szPath : CString}
    (crash : ∀ t later, kept t later → watch.crash later) (start : kept s memory)
    (switched : ∀ tmpRes,
      watch.Ensures (fun answer later => kept answer.2 later) (switchTo s tmpRes) memory) :
    watch.Ensures (fun answer later => kept answer.2.1 later) (pathparser ph s szPath) memory := by
  have finished (rc : Int) (t : Session) (path : CString) {later : M} (holds : kept t later) :
      watch.Ensures (fun answer latest => kept answer.2.1 latest) (finishPath rc t path) later :=
    ensures_finishPath (fun _ => crash t later holds) fun _ => holds
  unfold pathparser
  split
  · exact start
  · split
    · exact crash s memory start
    · rename_i parsed found
      split
      · apply (switched { s.pRes with srv := parsed.srv }).bind
        exact fun answer later holds => finished answer.1 answer.2 parsed.path holds
      · exact finished noError s parsed.path start

end Walk

end NdpSmb
