import NdpSmb.SessionLink
import NdpSmb.Plugin
import NdpSmb.RsrcCompare

/-!
Whose sessions the requests of the plugin go over: each Resource uses handles that were given
to its own calls, for its own account, whatever the others do.
-/

namespace NdpSmb

open ByteString Interaction

/-- What a Resource keeps all its life. -/
structure Account where
  username : CString
  password : CString
  krb5support : UInt32
  ntlmv1support : UInt32
  encryptionsupport : UInt32
  deriving DecidableEq

def Target.account (target : Target) : Account where
  username := target.srv.username
  password := target.srv.password
  krb5support := target.krb5support
  ntlmv1support := target.ntlmv1support
  encryptionsupport := target.encryptionsupport

def Resource.target (pRes : Resource) : Target where
  srv := pRes.srv
  krb5support := pRes.krb5support
  ntlmv1support := pRes.ntlmv1support
  encryptionsupport := pRes.encryptionsupport

def Resource.account (pRes : Resource) : Account := pRes.target.account

def OwnTarget (account : Account) (own : Handle → Prop) (cli : Handle) (target : Target) : Prop :=
  target.account = account ∧ own cli

/-- The handles that the call is given are known in advance, and a crash ends what has been proper
so far. -/
abbrev ownProper (granted : Handle → Prop) (mine : Handle → Target → Prop) :
    Watch Op (GivenSeen × Prop) :=
  { givenProper mine with
    admits := fun memory event =>
      ∀ cli ∈ connectedHandle event, memory.1.given cli = none ∧ granted cli
    crash := Prod.snd }

def GivenSeen.Grows (base seen : GivenSeen) : Prop :=
  ∀ cli given, base.given cli = some given → seen.given cli = some given

theorem GivenSeen.Grows.refl (seen : GivenSeen) : seen.Grows seen := fun _ _ found => found

theorem GivenSeen.Grows.has {base seen : GivenSeen} (grows : base.Grows seen) {cli : Handle}
    {known : Target → Prop} (has : base.Has cli known) : seen.Has cli known := by
  obtain ⟨given, found, holds⟩ := has
  exact ⟨given, grows cli given found, holds⟩

section Connection

variable {ph : Platform} {granted own : Handle → Prop} {mine : Handle → Target → Prop}
  {base : GivenSeen} {account : Account} {held : Nat} {s : Session} {memory : GivenSeen × Prop}
  {cli : Handle}

structure Running (base : GivenSeen) (memory : GivenSeen × Prop) : Prop where
  grows : base.Grows memory.1
  proper : memory.2

theorem Running.quiet (running : Running base memory) (mine : Handle → Target → Prop)
    (event : CallEvent) (kept : givenObserve memory.1 event = memory.1)
    (passes : ProperCall mine memory.1 event) :
    Running base ((givenProper mine).observe memory event) := by
  have upper : ((givenProper mine).observe memory event).1 = memory.1 := kept
  exact ⟨upper ▸ running.grows, running.proper, passes⟩

theorem Running.connect {reply : ConnectReply} (running : Running base memory)
    (mine : Handle → Target → Prop) (target : Target)
    (fresh : ∀ cli ∈ connectedHandle ⟨.smbwrpConnect target.srv target.krb5support
      target.ntlmv1support target.encryptionsupport, reply⟩, memory.1.given cli = none) :
    Running base ((givenProper mine).observe memory ⟨.smbwrpConnect target.srv target.krb5support
      target.ntlmv1support target.encryptionsupport, reply⟩) := by
  have upper : ((givenProper mine).observe memory ⟨.smbwrpConnect target.srv target.krb5support
      target.ntlmv1support target.encryptionsupport, reply⟩).1 = memory.1.connect target reply :=
    rfl
  refine ⟨?_, running.proper, trivial⟩
  rw [upper]
  intro cli given found
  have known := running.grows cli given found
  cases reply with
  | refused rc => exact known
  | connected new =>
      have differs : cli ≠ new := by
        rintro rfl
        rw [fresh cli rfl] at known
        cases known
      simpa [GivenSeen.connect, Function.update_of_ne differs] using known

theorem has_connected {known : Target → Prop} (target : Target) (memory : GivenSeen × Prop)
    (holds : known target) :
    ((givenProper mine).observe memory ⟨.smbwrpConnect target.srv target.krb5support
      target.ntlmv1support target.encryptionsupport, .connected cli⟩).1.Has cli known :=
  ⟨_, Function.update_self .., holds⟩

structure Accounted (base : GivenSeen) (account : Account) (own : Handle → Prop) (_ : Nat)
    (s : Session) (memory : GivenSeen × Prop) : Prop extends Running base memory where
  resource : s.pRes.account = account
  owned : ∀ cli, s.pConn.cli = some cli → memory.1.Has cli (OwnTarget account own cli)

theorem Accounted.quiet {later : Nat} (accounted : Accounted base account own held s memory)
    (mine : Handle → Target → Prop) (event : CallEvent)
    (kept : givenObserve memory.1 event = memory.1)
    (passes : ProperCall mine memory.1 event) :
    Accounted base account own later s ((givenProper mine).observe memory event) := by
  have upper : ((givenProper mine).observe memory event).1 = memory.1 := kept
  exact ⟨accounted.toRunning.quiet mine event kept passes, accounted.resource,
    upper ▸ accounted.owned⟩

theorem Accounted.shut (accounted : Accounted base account own held s memory)
    (mine : Handle → Target → Prop) (cli : Handle) (used : s.pConn.cli = some cli) :
    Accounted base account own held s
      ((givenProper mine).observe memory ⟨.cliShutdown cli, ()⟩) := by
  obtain ⟨given, found, -⟩ := accounted.owned cli used
  refine accounted.quiet mine _ rfl ?_
  exact ⟨given, found, trivial⟩

theorem Accounted.serve {R : Type} {op : Op R} {reply : R}
    (allows : ∀ cli target, OwnTarget account own cli target → mine cli target)
    (accounted : Accounted base account own held s memory) (served : Op.ServedBy s.pConn.cli R op) :
    Accounted base account own held s ((givenProper mine).observe memory ⟨op, reply⟩) := by
  cases op with
  | request used ask =>
      obtain ⟨given, found, owned⟩ := accounted.owned used served
      refine accounted.quiet mine _ rfl ?_
      exact ⟨given, found, allows _ _ owned⟩
  | smbwrpConnect | cliShutdown => exact absurd served id
  | _ =>
      refine accounted.quiet mine _ rfl ?_
      trivial

theorem Accounted.renamed (grants : ∀ cli, granted cli → own cli)
    (accounted : Accounted base account own held s memory) {tmpRes : Resource}
    (same : tmpRes.account = account) {reply : ConnectReply}
    (fresh : (ownProper granted mine).admits memory ⟨tmpRes.connect, reply⟩) :
    (∀ rc, reply = .refused rc → Accounted base account own held s
      ((givenProper mine).observe memory ⟨tmpRes.connect, reply⟩)) ∧
    (∀ new, reply = .connected new →
      Accounted base account own held s
        ((givenProper mine).observe memory ⟨tmpRes.connect, reply⟩) ∧
      Accounted base account own held ⟨tmpRes, { s.pConn with cli := some new }⟩
        ((givenProper mine).observe memory ⟨tmpRes.connect, reply⟩)) := by
  have unused := fun cli connected => (fresh cli connected).1
  have running : Running base ((givenProper mine).observe memory ⟨tmpRes.connect, reply⟩) :=
    accounted.toRunning.connect mine tmpRes.target unused
  have kept : ∀ cli, s.pConn.cli = some cli →
      ((givenProper mine).observe memory ⟨tmpRes.connect, reply⟩).1.Has cli
        (OwnTarget account own cli) := by
    intro cli used
    have grown : Running memory.1 ((givenProper mine).observe memory ⟨tmpRes.connect, reply⟩) :=
      Running.connect ⟨.refl _, accounted.proper⟩ mine tmpRes.target unused
    exact grown.grows.has (accounted.owned cli used)
  refine ⟨fun rc refused => ⟨running, accounted.resource, kept⟩, ?_⟩
  rintro new rfl
  refine ⟨⟨running, accounted.resource, kept⟩, running, same, ?_⟩
  intro cli used
  obtain rfl := Option.some.inj used
  exact has_connected tmpRes.target _ ⟨same, grants _ (fresh _ rfl).2⟩

theorem ensures_pathparser_accounted (grants : ∀ cli, granted cli → own cli) (szPath : CString)
    (accounted : Accounted base account own held s memory) :
    (ownProper granted mine).Ensures
      (fun answer later => Accounted base account own held answer.2.1 later)
      (pathparser ph s szPath) memory := by
  have finished (rc : Int) (t : Session) (path : CString) {later : GivenSeen × Prop}
      (holds : Accounted base account own held t later) :
      (ownProper granted mine).Ensures
        (fun answer latest => Accounted base account own held answer.2.1 latest)
        (finishPath rc t path) later :=
    ensures_finishPath (fun _ => holds.proper) fun _ => holds
  unfold pathparser
  split
  · exact accounted
  · split
    · exact accounted.proper
    · rename_i parsed found
      split
      · have same : Resource.account { s.pRes with srv := parsed.srv } = account := by
          rw [← accounted.resource]
          exact @parsePath_kept ph _ _ (fun srv => Resource.account { s.pRes with srv }) _ _ found
            (fun _ _ => rfl) (fun _ _ => rfl) fun _ _ => rfl
        refine Watch.ensures_bind.mpr (Watch.ensures_perform_bind.mpr fun reply fresh => ?_)
        obtain ⟨refused, connected⟩ := accounted.renamed grants same fresh
        cases reply with
        | refused rc => exact finished _ _ _ (refused rc rfl)
        | connected new =>
            obtain ⟨old, moved⟩ := connected new rfl
            refine Watch.ensures_bind.mpr
              (ensures_smbwrpDisconnect (fun _ => ?_) fun used held => ?_)
            · exact finished _ _ _ moved
            · obtain ⟨given, there, -⟩ := old.owned used held
              refine finished _ _ _ (moved.quiet mine _ rfl ?_)
              exact ⟨given, there, trivial⟩
      · exact finished _ _ _ accounted

theorem ensures_reconnect_accounted (grants : ∀ cli, granted cli → own cli)
    (accounted : Accounted base account own held s memory) :
    (ownProper granted mine).Ensures
      (fun answer later => Accounted base account own held answer.2 later)
      (reconnect s) memory := by
  refine Watch.ensures_perform_bind.mpr fun reply fresh => ?_
  obtain ⟨refused, connected⟩ := accounted.renamed grants accounted.resource fresh
  cases reply with
  | refused rc => exact refused rc rfl
  | connected new => exact (connected new rfl).2

theorem kept_accounted (ph : Platform) (base : GivenSeen) (grants : ∀ cli, granted cli → own cli)
    (allows : ∀ cli target, OwnTarget account own cli target → mine cli target) :
    Kept ph (ownProper granted mine) (Accounted base account own) where
  crash accounted := accounted.proper
  served accounted served _ _ := accounted.serve allows served
  locked accounted _ := accounted.quiet mine _ rfl (by trivial)
  denied accounted _ _ := accounted.quiet mine _ rfl (by trivial)
  released accounted _ := accounted.quiet mine _ rfl (by trivial)
  parsed szPath accounted := ensures_pathparser_accounted grants szPath accounted
  invalidated _ accounted := ⟨accounted.toRunning, accounted.resource, accounted.owned⟩
  filed _ accounted := ⟨accounted.toRunning, accounted.resource, accounted.owned⟩

theorem keptSearching_accounted (ph : Platform) (base : GivenSeen)
    (grants : ∀ cli, granted cli → own cli)
    (allows : ∀ cli target, OwnTarget account own cli target → mine cli target) :
    KeptSearching ph (ownProper granted mine) (Accounted base account own) where
  toKept := kept_accounted ph base grants allows
  revived {held s memory} accounted := by
    apply ((kept_accounted ph base grants allows).only
      (only_smbwrpEcho s.pConn.cli) accounted).bind
    intro rc later after
    split
    · exact ensures_reconnect_accounted grants after
    · exact after
  renewed accounted := by
    refine Watch.ensures_bind.mpr (ensures_smbwrpDisconnect (fun _ => ?_) fun used held => ?_)
    · exact ensures_reconnect_accounted grants accounted
    · exact ensures_reconnect_accounted grants (accounted.shut mine _ held)
  clocked accounted _ := accounted.quiet mine _ rfl (by trivial)
  listed {held s memory} state accounted := by
    apply ((kept_accounted ph base grants allows).onlyLists
      (fun accounted _ => accounted.quiet mine _ rfl (by trivial))
      (only_smbwrpFilelist ph s.pRes s.pConn.cli state) accounted).bind
    exact fun answer later after => ⟨after.toRunning, after.resource, after.owned⟩

end Connection

section Resource

variable {ph : Platform} {granted own : Handle → Prop} {mine : Handle → Target → Prop}
  {system : System} {memory : GivenSeen × Prop} {account : Account} {conn : Nat}
  {pConn : Connection} {pRes : Resource}

structure SystemAccounted (account : Account) (own : Handle → Prop) (system : System)
    (seen : GivenSeen) : Prop where
  resource : system.pRes.account = account
  owned : ∀ conn pConn cli, system.connection conn = some pConn → pConn.cli = some cli →
    seen.Has cli (OwnTarget account own cli)

theorem SystemAccounted.grow {seen later : GivenSeen}
    (accounted : SystemAccounted account own system seen)
    (grows : seen.Grows later) : SystemAccounted account own system later :=
  ⟨accounted.resource, fun conn pConn cli present used =>
    grows.has (accounted.owned conn pConn cli present used)⟩

theorem SystemAccounted.widen {seen : GivenSeen} {wider : Handle → Prop}
    (accounted : SystemAccounted account own system seen) (wide : ∀ cli, own cli → wider cli) :
    SystemAccounted account wider system seen := by
  refine ⟨accounted.resource, fun conn pConn cli present used => ?_⟩
  obtain ⟨given, found, same, owned⟩ := accounted.owned conn pConn cli present used
  exact ⟨given, found, same, wide cli owned⟩

theorem connection_set {conns : List (Option Connection)} {next : Option Connection} {other : Nat}
    {found : Connection}
    (present : System.connection { pRes, conns := conns.set conn next } other = some found) :
    next = some found ∨ ∀ pRes, System.connection { pRes, conns } other = some found := by
  unfold System.connection at present ⊢
  by_cases same : other = conn
  · subst same
    rw [List.getElem?_set] at present
    split at present
    · split at present
      · exact .inl (by simpa using present)
      · simp at present
    · contradiction
  · rw [List.getElem?_set_ne (Ne.symm same)] at present
    exact .inr fun _ => present

theorem SystemAccounted.session (accounted : SystemAccounted account own system memory.1)
    (proper : memory.2) (present : system.connection conn = some pConn) :
    Accounted memory.1 account own 0 ⟨system.pRes, pConn⟩ memory :=
  ⟨⟨.refl _, proper⟩, accounted.resource,
    fun cli used => accounted.owned conn pConn cli present used⟩

theorem SystemAccounted.returned {held : Nat} {s : Session} {later : GivenSeen × Prop}
    (accounted : SystemAccounted account own system memory.1)
    (after : Accounted memory.1 account own held s later) :
    SystemAccounted account own (system.returned conn s) later.1 := by
  refine ⟨after.resource, fun other found cli present used => ?_⟩
  rcases connection_set present with new | old
  · obtain rfl := Option.some.inj new
    exact after.owned cli used
  · exact after.grows.has (accounted.owned other found cli (old _) used)

theorem SystemAccounted.freed {seen : GivenSeen}
    (accounted : SystemAccounted account own system seen) :
    SystemAccounted account own (system.replaced conn none) seen := by
  refine ⟨accounted.resource, fun other found cli present used => ?_⟩
  rcases connection_set present with new | old
  · cases new
  · exact accounted.owned other found cli (old _) used

def CallAccounted (account : Account) (own : Handle → Prop) (base : GivenSeen) (system : System)
    (later : GivenSeen × Prop) : Prop :=
  SystemAccounted account own system later.1 ∧ Running base later

theorem ensures_connectResource {base : GivenSeen} (grants : ∀ cli, granted cli → own cli)
    (running : Running base memory) (resource : pRes.account = account) {reply : ConnectReply}
    (fresh : (ownProper granted mine).admits memory ⟨pRes.connect, reply⟩) :
    Running base ((givenProper mine).observe memory ⟨pRes.connect, reply⟩) ∧
      ∀ cli, reply = .connected cli →
        Accounted base account own 1 ⟨pRes, { cli := some cli }⟩
          ((givenProper mine).observe memory ⟨pRes.connect, reply⟩) := by
  have connected := running.connect mine pRes.target fun cli given => (fresh cli given).1
  refine ⟨connected, ?_⟩
  rintro cli rfl
  refine ⟨connected, resource, fun used same => ?_⟩
  obtain rfl := Option.some.inj same
  exact has_connected pRes.target _ ⟨resource, grants _ (fresh _ rfl).2⟩

theorem ensures_createConnection_accounted (grants : ∀ cli, granted cli → own cli)
    (accounted : SystemAccounted account own system memory.1)
    (proper : memory.2) :
    (ownProper granted mine).Ensures
      (fun answer later => CallAccounted account own memory.1 (system.added answer.2) later)
      (ndpCreateConnection system.pRes) memory := by
  have begun : Running memory.1 memory := ⟨.refl _, proper⟩
  have none_added {later : GivenSeen × Prop} (running : Running memory.1 later) :
      CallAccounted account own memory.1 (system.added none) later :=
    ⟨accounted.grow running.grows, running⟩
  refine ensures_guarded (fun _ _ _ => none_added (begun.quiet mine _ rfl (by trivial))) fun _ => ?_
  refine Watch.ensures_perform_bind.mpr fun malloced _ => ?_
  have allocated := (begun.quiet mine ⟨.fsphRequestMutex, (0 : Int)⟩ rfl
    (by trivial)).quiet mine ⟨.malloc sizeofConnection, malloced⟩ rfl
    (by trivial)
  split
  · exact fun _ => none_added (allocated.quiet mine _ rfl (by trivial))
  · refine Watch.ensures_perform_bind.mpr fun reply fresh => ?_
    obtain ⟨running, owned⟩ := ensures_connectResource grants allocated accounted.resource fresh
    cases reply with
    | refused rc => exact fun _ => none_added (running.quiet mine _ rfl (by trivial))
    | connected cli =>
        refine fun _ => ?_
        have released : Accounted memory.1 account own 0 _ _ :=
          (owned cli rfl).quiet mine ⟨.fsphReleaseMutex, ()⟩ rfl (by trivial)
        refine ⟨⟨accounted.resource, fun other found used present same => ?_⟩, released.toRunning⟩
        unfold System.connection System.added at present
        rw [List.getElem?_append] at present
        split at present
        · exact released.grows.has (accounted.owned other found used present same)
        · have member := List.mem_of_getElem? (Option.join_eq_some_iff.mp present)
          obtain rfl := Option.some.inj (List.mem_singleton.mp member)
          exact released.owned used same

theorem ensures_freeConnection_accounted (ph : Platform) {base : GivenSeen}
    (grants : ∀ cli, granted cli → own cli)
    (allows : ∀ cli target, OwnTarget account own cli target → mine cli target)
    (accounted : Accounted base account own 1 ⟨pRes, pConn⟩ memory) :
    (ownProper granted mine).Ensures (fun _ later => Running base later) (freeConnection pConn)
      memory := by
  have disconnected {later : GivenSeen × Prop}
      (after : Accounted base account own 1 ⟨pRes, pConn⟩ later) :
      (ownProper granted mine).Ensures (fun _ latest => Running base latest)
        (smbwrpDisconnect pConn.cli) later :=
    ensures_smbwrpDisconnect (fun _ => after.toRunning) fun used held =>
      (after.shut mine used held).toRunning
  unfold freeConnection
  split
  · apply ((kept_accounted ph base grants allows).only
      (only_smbwrpClose pConn.cli pConn.file) accounted).bind
    exact fun _ later after => disconnected after
  · exact disconnected accounted

theorem ensures_queryAllocate_accounted (ph : Platform) {base : GivenSeen}
    (grants : ∀ cli, granted cli → own cli)
    (allows : ∀ cli target, OwnTarget account own cli target → mine cli target)
    (resource : pRes.account = account)
    (running : Running base memory) :
    (ownProper granted mine).Ensures (fun _ later => Running base later) (queryAllocate pRes)
      memory := by
  refine Watch.ensures_perform_bind.mpr fun reply fresh => ?_
  obtain ⟨connected, owned⟩ := ensures_connectResource grants running resource fresh
  cases reply with
  | refused rc => exact connected
  | connected cli =>
      apply ((kept_accounted ph base grants allows).only
        (only_smbwrpDskattr (some cli)) (owned cli rfl)).bind
      intro _ later asked
      exact fun _ _ => (asked.shut mine cli rfl).toRunning

theorem ensures_call_accounted (ph : Platform) (grants : ∀ cli, granted cli → own cli)
    (allows : ∀ cli target, OwnTarget account own cli target → mine cli target)
    (accounted : SystemAccounted account own system memory.1) (proper : memory.2) (call : Call) :
    (ownProper granted mine).Ensures
      (fun answer later => CallAccounted account own memory.1 answer.2 later) (system.call ph call)
      memory := by
  have begun : Running memory.1 memory := ⟨.refl _, proper⟩
  have unchanged {later : GivenSeen × Prop} (running : Running memory.1 later) :
      CallAccounted account own memory.1 system later := ⟨accounted.grow running.grows, running⟩
  cases call with
  | createConnection =>
      apply (ensures_createConnection_accounted grants accounted proper).bind
      intro _ _ after
      exact after
  | freeConnection conn =>
      simp only [System.call]
      split
      · trivial
      · rename_i pConn present
        have session := accounted.session proper present
        refine Watch.ensures_bind.mpr (ensures_guarded (fun rcLock _ _ => ?_) fun _ => ?_)
        · have denied : Accounted memory.1 account own 0 ⟨system.pRes, pConn⟩ _ :=
            session.quiet mine ⟨.fsphRequestMutex, rcLock⟩ rfl (by trivial)
          exact ⟨accounted.returned denied, denied.toRunning⟩
        · apply (ensures_freeConnection_accounted ph grants allows
            (session.quiet mine _ rfl (by trivial))).bind
          intro _ later freed _
          have released := freed.quiet mine ⟨.fsphReleaseMutex, ()⟩ rfl
            (by trivial)
          exact ⟨(accounted.grow released.grows).freed, released⟩
  | queryFSAllocate hasPfsa =>
      refine Watch.ensures_bind.mpr (ensures_guarded
        (fun _ _ _ => unchanged (begun.quiet mine _ rfl (by trivial))) fun _ => ?_)
      have locked := begun.quiet mine ⟨.fsphRequestMutex, (0 : Int)⟩ rfl
        (by trivial)
      split
      · refine (ensures_queryAllocate_accounted ph grants allows accounted.resource locked).mono ?_
        exact fun _ later running _ => unchanged (running.quiet mine _ rfl (by trivial))
      · exact fun _ => unchanged (locked.quiet mine _ rfl (by trivial))
  | on conn ask =>
      simp only [System.call]
      split
      · trivial
      · rename_i pConn present
        have session := accounted.session proper present
        apply ((keptSearching_accounted ph memory.1 grants allows).every ask
          session).bind
        rintro answer later (after | after)
        · exact ⟨accounted.returned after, after.toRunning⟩
        · exact ⟨accounted.returned after, after.toRunning⟩

end Resource

/-! The plugin. -/

section Plugin

variable {ph : Platform} {granted : Handle → Prop} {mine : Handle → Target → Prop}
  {plugin : Plugin} {owns : Nat → Handle → Prop} {memory : GivenSeen × Prop}

def PluginAccounted (plugin : Plugin) (owns : Nat → Handle → Prop) (seen : GivenSeen) : Prop :=
  ∀ res system, plugin.system res = some system →
    SystemAccounted system.pRes.account (owns res) system seen

structure PluginProper (plugin : Plugin) (owns : Nat → Handle → Prop)
    (memory : GivenSeen × Prop) : Prop where
  accounted : PluginAccounted plugin owns memory.1
  proper : memory.2

/-- A call on a Resource adds the handles that it is given to those of the Resource. -/
def PluginCall.owners (granted : Handle → Prop) (owns : Nat → Handle → Prop) :
    PluginCall → Nat → Handle → Prop
  | .on res _, other, cli => owns other cli ∨ other = res ∧ granted cli
  | _, other, cli => owns other cli

def PluginCall.Allows (granted : Handle → Prop) (plugin : Plugin) (owns : Nat → Handle → Prop)
    (mine : Handle → Target → Prop) : PluginCall → Prop
  | .on res _ => ∀ system, plugin.system res = some system → ∀ cli target,
      OwnTarget system.pRes.account (fun cli => owns res cli ∨ granted cli) cli target →
        mine cli target
  | _ => True

theorem system_set {next : Option System} {res other : Nat} {found : System}
    (present : (plugin.replaced res next).system other = some found) :
    other = res ∧ next = some found ∨ plugin.system other = some found := by
  unfold Plugin.system Plugin.replaced at present
  by_cases same : other = res
  · subst same
    rw [List.getElem?_set] at present
    split at present
    · split at present
      · exact .inl ⟨rfl, by simpa using present⟩
      · simp at present
    · contradiction
  · rw [List.getElem?_set_ne (Ne.symm same)] at present
    exact .inr present

theorem PluginAccounted.grow {seen later : GivenSeen}
    (accounted : PluginAccounted plugin owns seen) (grows : seen.Grows later) :
    PluginAccounted plugin owns later :=
  fun res system present => (accounted res system present).grow grows

theorem ensures_quiet {α : Type} {program : Program α} {allowed : (R : Type) → Op R → Prop}
    {base : GivenSeen} (only : program.Only allowed)
    (quiet : ∀ R op (reply : R) seen, allowed R op → givenObserve seen ⟨op, reply⟩ = seen ∧
      ProperCall mine seen ⟨op, reply⟩) (running : Running base memory) :
    (ownProper granted mine).Ensures (fun _ later => Running base later) program memory := by
  induction program generalizing memory with
  | ret value => exact running
  | call op next ih =>
      intro reply _
      obtain ⟨kept, passes⟩ := quiet _ op reply memory.1 only.1
      exact ih reply (only.2 reply) (running.quiet mine _ kept passes)
  | fault => exact running.proper

theorem configures_quiet (R : Type) (op : Op R) (reply : R) (seen : GivenSeen)
    (configures : Op.Configures R op) :
    givenObserve seen ⟨op, reply⟩ = seen ∧ ProperCall mine seen ⟨op, reply⟩ := by
  cases op <;> first | exact ⟨rfl, trivial⟩ | exact absurd configures id

theorem ensures_checkMountResource_accounted {base : GivenSeen} {pRes : Resource}
    (running : Running base memory) :
    (ownProper granted mine).Ensures (fun _ later => Running base later) (checkMountResource pRes)
      memory := by
  refine Watch.ensures_perform_bind.mpr fun tid _ => ?_
  have asked := running.quiet mine ⟨.gettid, tid⟩ rfl (by trivial)
  refine Watch.ensures_perform_bind.mpr fun reply fresh => ?_
  obtain ⟨connected, owned⟩ := ensures_connectResource (fun _ given => given) asked rfl fresh
  cases reply with
  | refused rc => exact connected
  | connected cli => exact fun _ _ => ((owned cli rfl).shut mine cli rfl).toRunning

theorem ensures_mount_accounted {base : GivenSeen} (running : Running base memory) :
    (ownProper granted mine).Ensures (fun _ later => Running base later) ndpMountResource
      memory := by
  refine ensures_guarded (fun _ _ _ => running.quiet mine _ rfl (by trivial)) fun _ => ?_
  have locked := running.quiet mine ⟨.fsphRequestMutex, (0 : Int)⟩ rfl
    (by trivial)
  have released {later : GivenSeen × Prop} (after : Running base later) :
      Running base ((givenProper mine).observe later ⟨.fsphReleaseMutex, ()⟩) :=
    after.quiet mine _ rfl (by trivial)
  refine Watch.ensures_perform_bind.mpr fun malloced _ => ?_
  have allocated := locked.quiet mine ⟨.malloc sizeofResource, malloced⟩ rfl
    (by trivial)
  split
  · exact fun _ => released allocated
  · apply (ensures_quiet configures_initResource configures_quiet
      allocated).bind
    rintro ⟨rc, pRes⟩ later configured
    have checked : (ownProper granted mine).Ensures (fun _ latest => Running base latest)
        (checkOffMain rc pRes) later := by
      unfold checkOffMain
      split
      · exact configured
      · refine Watch.ensures_perform_bind.mpr fun tid _ => ?_
        have asked := configured.quiet mine ⟨.gettid, tid⟩ rfl (by trivial)
        split
        · exact ensures_checkMountResource_accounted asked
        · exact asked
    apply checked.bind
    intro _ _ after _
    exact released after

theorem ensures_pluginCall_accounted (ph : Platform) (held : PluginProper plugin owns memory)
    (call : PluginCall) (allows : call.Allows granted plugin owns mine) :
    (ownProper granted mine).Ensures
      (fun answer later => PluginProper answer.2 (call.owners granted owns) later)
      (plugin.call ph call) memory := by
  obtain ⟨accounted, proper⟩ := held
  have begun : Running memory.1 memory := ⟨.refl _, proper⟩
  have unchanged {later : GivenSeen × Prop} (running : Running memory.1 later) :
      PluginProper plugin owns later :=
    ⟨accounted.grow running.grows, running.proper⟩
  have silent {α : Type} {program : Program α} (only : program.Only Op.Never) :
      (ownProper granted mine).Ensures (fun _ later => Running memory.1 later) program memory :=
    ensures_quiet only (fun _ _ _ _ asked => absurd asked id) begun
  cases call with
  | pluginLoad => exact fun _ _ => unchanged (begun.quiet mine _ rfl (by trivial))
  | pluginFree => exact fun _ _ => unchanged (begun.quiet mine _ rfl (by trivial))
  | mountResource =>
      apply (ensures_mount_accounted begun).bind
      rintro ⟨rc, pRes⟩ later after
      cases pRes with
      | none => exact unchanged after
      | some pRes =>
          refine ⟨fun res system present => ?_, after.proper⟩
          unfold Plugin.system Plugin.added at present
          rw [List.getElem?_append] at present
          split at present
          · exact (accounted res system present).grow after.grows
          · have member := List.mem_of_getElem? (Option.join_eq_some_iff.mp present)
            obtain rfl := Option.some.inj (List.mem_singleton.mp member)
            exact ⟨rfl, by simp [System.connection]⟩
  | freeResource res =>
      simp only [Plugin.call]
      split
      · trivial
      · have closed {later : GivenSeen × Prop} (running : Running memory.1 later) (rc : Int) :
            PluginProper (if rc = noError then plugin.replaced res none else plugin) owns
              later := by
          split
          · refine ⟨fun other system present => ?_, running.proper⟩
            rcases system_set present with ⟨-, new⟩ | old
            · cases new
            · exact (accounted other system old).grow running.grows
          · exact unchanged running
        refine Watch.ensures_bind.mpr (ensures_guarded (fun rcLock _ _ => ?_) fun _ => ?_)
        · exact closed (begun.quiet mine _ rfl (by trivial)) rcLock
        · have locked := begun.quiet mine ⟨.fsphRequestMutex, (0 : Int)⟩ rfl
            (by trivial)
          unfold dircacheDelete
          split
          · exact fun _ => closed (locked.quiet mine _ rfl (by trivial)) noError
          · refine fun _ _ _ => closed (Running.quiet ?_ mine _ rfl (by trivial)) noError
            exact locked.quiet mine _ rfl (by trivial)
  | rsrcCompare res res2 =>
      simp only [Plugin.call]
      split
      · exact unchanged begun
      · trivial
  | rsrcUpdate res =>
      simp only [Plugin.call]
      split
      · trivial
      · exact unchanged begun
  | rsrcQueryInfo res ifL insize =>
      simp only [Plugin.call]
      split
      · trivial
      · apply (silent (never_ndpRsrcQueryInfo _ _ _)).bind
        intro _ _ running
        exact unchanged running
  | rsrcQueryFSAttach res ifL insize =>
      simp only [Plugin.call]
      split
      · trivial
      · apply (silent (never_ndpRsrcQueryInfo _ _ _)).bind
        intro _ _ running
        exact unchanged running
  | ioctl function input insize outlen =>
      apply (silent (never_ndpIOCTL _ _ _ _)).bind
      intro _ _ running
      exact unchanged running
  | on res call =>
      simp only [Plugin.call]
      split
      · trivial
      · rename_i system present
        have widened : SystemAccounted system.pRes.account (fun cli => owns res cli ∨ granted cli)
            system memory.1 := (accounted res system present).widen fun _ => .inl
        apply (ensures_call_accounted ph (fun _ => .inr) (allows system present) widened proper
          call).bind
        rintro ⟨rc, next⟩ later ⟨after, running⟩
        refine ⟨fun other found there => ?_, running.proper⟩
        rcases system_set there with ⟨rfl, new⟩ | old
        · obtain rfl := Option.some.inj new
          have same : next.pRes.account = system.pRes.account := after.resource
          rw [same]
          exact after.widen fun _ owned => owned.imp_right fun given => ⟨rfl, given⟩
        · exact ((accounted other found old).grow running.grows).widen fun _ => .inl

end Plugin

end NdpSmb
