import NdpSmb.HandleLife
import NdpSmb.LockBalance

/-!
The share behind a handle, and the share that a path names. The names of the current share
are kept once for a Resource, and the handles once for each Connection.
-/

namespace NdpSmb

open ByteString Interaction

structure ShareNames where
  workgroup : CString
  serverName : CString
  shareName : CString
  deriving DecidableEq

def SmbwrpServer.names (srv : SmbwrpServer) : ShareNames :=
  { workgroup := srv.workgroup, serverName := srv.serverName, shareName := srv.shareName }

/-- The leading components of a path, below the names that the Resource has fixed. -/
def namedShare (pRes : Resource) (path : CString) : ShareNames :=
  let first := nextComponent (dropSlash path)
  let second := nextComponent first.2
  let third := nextComponent second.2
  match pRes.rootlevel with
  | 0 => { workgroup := first.1, serverName := second.1, shareName := third.1 }
  | 1 => { pRes.srv.names with serverName := first.1, shareName := second.1 }
  | 2 => { pRes.srv.names with shareName := first.1 }
  | _ => pRes.srv.names

section Names

variable (ph : Platform)

structure SameShare (left right : ShareNames) : Prop where
  workgroup : ph.SameName left.workgroup right.workgroup
  serverName : ph.SameName left.serverName right.serverName
  shareName : ph.SameName left.shareName right.shareName

variable {ph}

theorem SameShare.refl (names : ShareNames) : SameShare ph names names :=
  ⟨FoldEq.refl _, FoldEq.refl _, FoldEq.refl _⟩

theorem SameShare.symm {left right : ShareNames} (same : SameShare ph left right) :
    SameShare ph right left :=
  ⟨FoldEq.symm same.workgroup, FoldEq.symm same.serverName, FoldEq.symm same.shareName⟩

theorem SameShare.trans {left middle right : ShareNames} (first : SameShare ph left middle)
    (second : SameShare ph middle right) : SameShare ph left right :=
  ⟨FoldEq.trans first.workgroup second.workgroup, FoldEq.trans first.serverName second.serverName,
    FoldEq.trans first.shareName second.shareName⟩

variable (ph)

structure Levelled (component : CString) (get : SmbwrpServer → CString) (parsed next : ParsedPath) :
    Prop where
  named : ph.SameName component (get next.srv)
  path : next.path = (nextComponent parsed.path).2
  kept : next.newlevel = false → next.srv = parsed.srv ∧ parsed.newlevel = false

variable {ph}

theorem parseWorkgroup_levelled {parsed next : ParsedPath}
    (step : parseWorkgroup ph parsed = some next) :
    Levelled ph (nextComponent parsed.path).1 (·.workgroup) parsed next ∧
      next.srv.serverName = parsed.srv.serverName ∧ next.srv.shareName = parsed.srv.shareName := by
  obtain ⟨named, path, rfl | rfl⟩ := parseLevel_spec ph (fun _ _ => rfl) step
  · exact ⟨⟨named, path, fun kept => ⟨rfl, kept⟩⟩, rfl, rfl⟩
  · exact ⟨⟨named, path, fun kept => Bool.noConfusion kept⟩, rfl, rfl⟩

theorem parseServer_levelled {parsed next : ParsedPath}
    (step : parseServer ph parsed = some next) :
    Levelled ph (nextComponent parsed.path).1 (·.serverName) parsed next ∧
      next.srv.workgroup = parsed.srv.workgroup ∧ next.srv.shareName = parsed.srv.shareName := by
  obtain ⟨named, path, rfl | rfl⟩ := parseLevel_spec ph (fun _ _ => rfl) step
  · exact ⟨⟨named, path, fun kept => ⟨rfl, kept⟩⟩, rfl, rfl⟩
  · exact ⟨⟨named, path, fun kept => Bool.noConfusion kept⟩, rfl, rfl⟩

theorem parseShare_levelled {parsed next : ParsedPath}
    (step : parseShare ph parsed = some next) :
    Levelled ph (nextComponent parsed.path).1 (·.shareName) parsed next ∧
      next.srv.workgroup = parsed.srv.workgroup ∧ next.srv.serverName = parsed.srv.serverName := by
  obtain ⟨named, path, rfl | rfl⟩ := parseLevel_spec ph (fun _ _ => rfl) step
  · exact ⟨⟨named, path, fun kept => ⟨rfl, kept⟩⟩, rfl, rfl⟩
  · exact ⟨⟨named, path, fun kept => Bool.noConfusion kept⟩, rfl, rfl⟩

theorem parsePath_named {pRes : Resource} {path : CString} {parsed : ParsedPath}
    (step : parsePath ph pRes path = some parsed) :
    SameShare ph (namedShare pRes path) parsed.srv.names ∧
      (parsed.newlevel = false → parsed.srv = pRes.srv) := by
  unfold parsePath parseLevels at step
  unfold namedShare
  match level : pRes.rootlevel with
  | 0 =>
      rw [level] at step
      simp only [Option.bind_eq_some_iff] at step
      obtain ⟨second, ⟨first, inGroup, onServer⟩, inShare⟩ := step
      obtain ⟨group, groupServer, groupShare⟩ := parseWorkgroup_levelled inGroup
      obtain ⟨server, serverGroup, serverShare⟩ := parseServer_levelled onServer
      obtain ⟨share, shareGroup, shareServer⟩ := parseShare_levelled inShare
      have groupNamed := group.named
      have serverNamed := server.named
      have shareNamed := share.named
      rw [group.path] at serverNamed
      rw [server.path, group.path] at shareNamed
      refine ⟨⟨?_, ?_, shareNamed⟩, fun kept => ?_⟩
      · change ph.SameName _ parsed.srv.workgroup
        rw [shareGroup, serverGroup]
        exact groupNamed
      · change ph.SameName _ parsed.srv.serverName
        rw [shareServer]
        exact serverNamed
      · obtain ⟨third, kept⟩ := share.kept kept
        obtain ⟨second, kept⟩ := server.kept kept
        exact third.trans (second.trans (group.kept kept).1)
  | 1 =>
      rw [level] at step
      simp only [Option.bind_eq_some_iff] at step
      obtain ⟨second, onServer, inShare⟩ := step
      obtain ⟨server, serverGroup, serverShare⟩ := parseServer_levelled onServer
      obtain ⟨share, shareGroup, shareServer⟩ := parseShare_levelled inShare
      have serverNamed := server.named
      have shareNamed := share.named
      rw [server.path] at shareNamed
      refine ⟨⟨?_, ?_, shareNamed⟩, fun kept => ?_⟩
      · change ph.SameName _ parsed.srv.workgroup
        rw [shareGroup, serverGroup]
        exact FoldEq.refl _
      · change ph.SameName _ parsed.srv.serverName
        rw [shareServer]
        exact serverNamed
      · obtain ⟨third, kept⟩ := share.kept kept
        exact third.trans (server.kept kept).1
  | 2 =>
      rw [level] at step
      obtain ⟨share, shareGroup, shareServer⟩ := parseShare_levelled step
      refine ⟨⟨?_, ?_, share.named⟩, fun kept => (share.kept kept).1⟩
      · change ph.SameName _ parsed.srv.workgroup
        rw [shareGroup]
        exact FoldEq.refl _
      · change ph.SameName _ parsed.srv.serverName
        rw [shareServer]
        exact FoldEq.refl _
  | level' + 3 =>
      rw [level] at step
      obtain rfl := Option.some.inj step
      exact ⟨SameShare.refl _, fun _ => rfl⟩

end Names

/-! The share that each handle was opened for. -/

abbrev Targets := Handle → Option SmbwrpServer

def openedFor : CallEvent → Option (Handle × SmbwrpServer)
  | ⟨.smbwrpConnect srv _ _ _, reply⟩ =>
      match reply with
      | .connected cli => some (cli, srv)
      | .refused _ => none
  | _ => none

def Targets.observe (targets : Targets) (event : CallEvent) : Targets :=
  match openedFor event with
  | some (cli, srv) => fun asked => if asked = cli then some srv else targets asked
  | none => targets

def targetWatch : Watch Op Targets where
  observe := Targets.observe

def targetsOf (trace : List CallEvent) : Targets := targetWatch.after (fun _ => none) trace

theorem targetsOf_append (first second : List CallEvent) :
    targetsOf (first ++ second) = targetWatch.after (targetsOf first) second :=
  targetWatch.after_append _ _ _

section Targets

variable {ph : Platform} {targets : Targets} {s : Session}

def ServesNames (ph : Platform) (targets : Targets) (own : Option Handle) (names : ShareNames) :
    Prop :=
  ∃ cli srv, own = some cli ∧ targets cli = some srv ∧ SameShare ph names srv.names

theorem ServesNames.same {own : Option Handle} {names others : ShareNames}
    (serves : ServesNames ph targets own names) (same : SameShare ph others names) :
    ServesNames ph targets own others := by
  obtain ⟨cli, srv, used, opened, named⟩ := serves
  exact ⟨cli, srv, used, opened, same.trans named⟩

theorem ServesNames.connected {own : Option Handle} {srv : SmbwrpServer} {cli : Handle}
    (serves : ServesNames ph targets own srv.names) :
    ServesNames ph (fun asked => if asked = cli then some srv else targets asked) own srv.names := by
  obtain ⟨used, opened, same, target, named⟩ := serves
  by_cases again : used = cli
  · exact ⟨used, srv, same, by simp [again], SameShare.refl _⟩
  · exact ⟨used, opened, same, by simpa [again] using target, named⟩

theorem servesNames_opened {srv : SmbwrpServer} {cli : Handle} {names : ShareNames}
    (named : SameShare ph names srv.names) :
    ServesNames ph (fun asked => if asked = cli then some srv else targets asked) (some cli) names :=
  ⟨cli, srv, rfl, by simp, named⟩

theorem Op.Lists.unopened {own : Option Handle} {R : Type} {op : Op R} (lists : Op.Lists own R op)
    (reply : R) : openedFor ⟨op, reply⟩ = none := by
  cases op <;> first | rfl | exact absurd lists id

theorem observe_unopened {event : CallEvent} (unopened : openedFor event = none) :
    targets.observe event = targets := by
  rw [Targets.observe, unopened]

theorem ensures_unopened {α : Type} {own : Option Handle} {program : Program α}
    (lists : program.Only (Op.Lists own)) :
    targetWatch.Ensures (fun _ later => later = targets) program targets :=
  Watch.ensures_of_only lists (fun _ _ reply lists => observe_unopened (lists.unopened reply)) trivial
    fun _ => rfl

theorem ensures_smbwrpDisconnect_target (cli : Option Handle) :
    targetWatch.Ensures (fun _ later => later = targets) (smbwrpDisconnect cli) targets :=
  ensures_smbwrpDisconnect (fun _ => rfl) fun _ _ => rfl

/-- How a path is parsed: on the handle as it is, or on a new one for its own names. -/
inductive ParsedOn (ph : Platform) (s : Session) (path : CString) (targets later : Targets)
    (t : Session) : Prop
  | kept (same : switches ph s path = false) (stored : SameShare ph (namedShare s.pRes path)
      s.pRes.srv.names) (unseen : later = targets) (pConn : t.pConn = s.pConn)
  | switched (new : switches ph s path = true)
      (serves : ServesNames ph later t.pConn.cli (namedShare s.pRes path))

theorem ensures_pathparser_target {path : CString} (plain : iftestpath path = false) :
    targetWatch.Ensures
      (fun answer later => answer.1 = noError → ParsedOn ph s path targets later answer.2.1)
      (pathparser ph s path) targets := by
  have finished (rc : Int) (t : Session) (rest : CString) {later : Targets}
      (parsed : rc = noError → ParsedOn ph s path targets later t) :
      targetWatch.Ensures
        (fun answer latest => answer.1 = noError → ParsedOn ph s path targets latest answer.2.1)
        (finishPath rc t rest) later :=
    ensures_finishPath (fun _ => trivial) fun _ => parsed
  unfold pathparser
  simp only [plain, Bool.false_eq_true, if_false]
  split
  · trivial
  · rename_i parsed found
    obtain ⟨named, stored⟩ := parsePath_named found
    split
    · rename_i newlevel
      have new : switches ph s path = true := by simp [switches, plain, found, newlevel]
      refine Watch.ensures_bind.mpr (Watch.ensures_perform_bind.mpr fun reply _ => ?_)
      cases reply with
      | refused rc => exact finished _ _ _ fun zero => absurd zero rc.2
      | connected cli =>
          have serves : ServesNames ph
              (fun asked => if asked = cli then some parsed.srv else targets asked) (some cli)
              (namedShare s.pRes path) := servesNames_opened named
          apply (ensures_smbwrpDisconnect_target s.pConn.cli).bind
          rintro _ _ rfl
          exact finished _ _ _ fun _ => .switched new serves
    · rename_i newlevel
      rw [Bool.not_eq_true] at newlevel
      refine finished _ _ _ fun _ => .kept ?_ (stored newlevel ▸ named) rfl rfl
      simp [switches, plain, found, newlevel]

theorem ParsedOn.serves_iff {path : CString} {later : Targets} {t : Session}
    (parsed : ParsedOn ph s path targets later t) :
    ServesNames ph later t.pConn.cli (namedShare s.pRes path) ↔
      switches ph s path = true ∨ ServesNames ph targets s.pConn.cli s.pRes.srv.names := by
  cases parsed with
  | switched new serves => exact iff_of_true serves (.inl new)
  | kept same stored unseen pConn =>
      rw [unseen, pConn, same]
      constructor
      · exact fun serves => .inr (serves.same stored.symm)
      · rintro (absent | serves)
        · exact Bool.noConfusion absent
        · exact serves.same stored

/-! A Resource with one Connection. -/

def Tracks (ph : Platform) (_ : Nat) (s : Session) (targets : Targets) : Prop :=
  ServesNames ph targets s.pConn.cli s.pRes.srv.names

theorem ensures_reconnect_target (tracks : ServesNames ph targets s.pConn.cli s.pRes.srv.names) :
    targetWatch.Ensures
      (fun answer later => ServesNames ph later answer.2.pConn.cli answer.2.pRes.srv.names)
      (reconnect s) targets := by
  refine Watch.ensures_perform_bind.mpr fun reply _ => ?_
  cases reply with
  | refused rc => exact tracks
  | connected cli => exact servesNames_opened (SameShare.refl _)

theorem ensures_switchTo_tracks (tmpRes : Resource)
    (tracks : ServesNames ph targets s.pConn.cli s.pRes.srv.names) :
    targetWatch.Ensures
      (fun answer later => ServesNames ph later answer.2.pConn.cli answer.2.pRes.srv.names)
      (switchTo s tmpRes) targets := by
  refine Watch.ensures_perform_bind.mpr fun reply _ => ?_
  cases reply with
  | refused rc => exact tracks
  | connected cli =>
      apply (ensures_smbwrpDisconnect_target s.pConn.cli).bind
      rintro _ _ rfl
      exact servesNames_opened (SameShare.refl _)

theorem ensures_pathparser_tracks (szPath : CString)
    (tracks : ServesNames ph targets s.pConn.cli s.pRes.srv.names) :
    targetWatch.Ensures
      (fun answer later => ServesNames ph later answer.2.1.pConn.cli answer.2.1.pRes.srv.names)
      (pathparser ph s szPath) targets :=
  ensures_pathparser_kept
    (fun t later (_ : ServesNames ph later t.pConn.cli t.pRes.srv.names) => trivial) tracks
    fun tmpRes => ensures_switchTo_tracks tmpRes tracks

theorem keptSearching_tracks (ph : Platform) : KeptSearching ph targetWatch (Tracks ph) where
  crash _ := trivial
  served tracks served _ _ := by
    change ServesNames ph (Targets.observe _ _) _ _
    rw [observe_unopened (served.lists.unopened _)]
    exact tracks
  locked tracks _ := tracks
  denied tracks _ _ := tracks
  released tracks _ := tracks
  parsed szPath tracks := ensures_pathparser_tracks szPath tracks
  invalidated _ tracks := tracks
  filed _ tracks := tracks
  revived {held s memory} tracks := by
    have asked := only_lists (only_smbwrpEcho s.pConn.cli)
    apply (ensures_unopened asked).bind
    rintro rc _ rfl
    split
    · exact ensures_reconnect_target tracks
    · exact tracks
  renewed {held s memory} tracks := by
    apply (ensures_smbwrpDisconnect_target s.pConn.cli).bind
    rintro _ _ rfl
    exact ensures_reconnect_target tracks
  clocked tracks _ := tracks
  listed {held s memory} state tracks := by
    apply (ensures_unopened (only_smbwrpFilelist ph s.pRes s.pConn.cli state)).bind
    rintro answer _ rfl
    exact tracks

/-- As long as one Connection has been made, its handle follows the stored names. -/
def SingleTracks (ph : Platform) (system : System) (targets : Targets) : Prop :=
  system.conns.length ≤ 1 → ∀ pConn, some pConn ∈ system.conns →
    ServesNames ph targets pConn.cli system.pRes.srv.names

theorem ensures_createConnection_target (ph : Platform) (pRes : Resource) :
    targetWatch.Ensures
      (fun answer later => (∀ pConn, answer.2 = some pConn →
        ServesNames ph later pConn.cli pRes.srv.names) ∧ (answer.2 = none → later = targets))
      (ndpCreateConnection pRes) targets := by
  refine ensures_guarded (fun _ _ _ => ⟨by simp, fun _ => rfl⟩) fun _ => ?_
  refine Watch.ensures_perform_bind.mpr fun malloced _ => ?_
  split
  · exact fun _ => ⟨by simp, fun _ => rfl⟩
  · refine Watch.ensures_perform_bind.mpr fun reply _ => ?_
    cases reply with
    | refused rc => exact fun _ => ⟨by simp, fun _ => rfl⟩
    | connected cli =>
        refine fun _ => ⟨?_, by simp⟩
        rintro _ ⟨⟩
        exact servesNames_opened (SameShare.refl _)

theorem ensures_queryAllocate_target {pRes : Resource} {system : System} (same : system.pRes = pRes)
    (single : SingleTracks ph system targets) :
    targetWatch.Ensures (fun _ later => SingleTracks ph system later) (queryAllocate pRes)
      targets := by
  refine Watch.ensures_perform_bind.mpr fun reply _ => ?_
  cases reply with
  | refused rc => exact single
  | connected cli =>
      apply (ensures_unopened (only_lists (only_smbwrpDskattr (some cli)))).bind
      rintro answer _ rfl
      apply (ensures_smbwrpDisconnect_target (some cli)).bind
      rintro _ _ rfl
      subst same
      exact fun one pConn member => (single one pConn member).connected

theorem ensures_freeConnection_target (pConn : Connection) :
    targetWatch.Ensures (fun _ later => later = targets) (freeConnection pConn) targets := by
  unfold freeConnection
  split
  · apply (ensures_unopened (only_lists (only_smbwrpClose pConn.cli pConn.file))).bind
    rintro answer _ rfl
    exact ensures_smbwrpDisconnect_target pConn.cli
  · exact ensures_smbwrpDisconnect_target pConn.cli

theorem conns_eq_single {system : System} {conn : Nat} {pConn : Connection}
    (one : system.conns.length ≤ 1) (present : system.connection conn = some pConn) :
    system.conns = [some pConn] ∧ conn = 0 := by
  rw [System.connection, Option.join_eq_some_iff] at present
  obtain ⟨inside, same⟩ := List.getElem?_eq_some_iff.mp present
  obtain rfl : conn = 0 := by omega
  obtain ⟨head, single⟩ := List.length_eq_one_iff.mp (by omega : system.conns.length = 1)
  simp only [single, List.getElem_cons_zero] at same
  exact ⟨by rw [single, same], rfl⟩

theorem ensures_call_target {system : System} (call : Call)
    (single : SingleTracks ph system targets) :
    targetWatch.Ensures (fun answer later => SingleTracks ph answer.2 later)
      (system.call ph call) targets := by
  cases call with
  | createConnection =>
      apply (ensures_createConnection_target ph system.pRes).bind
      rintro ⟨rc, _ | pConn⟩ later ⟨opened, unseen⟩
      · rw [unseen rfl]
        exact single
      · intro one other member
        have empty : system.conns = [] := by
          simpa [System.added] using one
        obtain rfl : other = pConn := by simpa [System.added, empty] using member
        exact opened other rfl
  | freeConnection conn =>
      simp only [System.call]
      split
      · trivial
      · rename_i pConn present
        have replaced (next : Option Connection) (same : next = none ∨ next = some pConn) :
            SingleTracks ph (system.replaced conn next) targets := by
          intro one other member
          rcases List.mem_or_eq_of_mem_set member with old | new
          · exact single (by simpa [System.replaced] using one) other old
          · rcases same with rfl | rfl
            · simp at new
            · obtain rfl := Option.some.inj new
              exact single (by simpa [System.replaced] using one) other (mem_conns present)
        refine Watch.ensures_bind.mpr (ensures_guarded (fun _ _ _ => replaced _ (.inr rfl)) fun _ => ?_)
        apply (ensures_freeConnection_target pConn).bind
        rintro _ _ rfl
        exact fun _ => replaced none (.inl rfl)
  | queryFSAllocate hasPfsa =>
      refine Watch.ensures_bind.mpr (ensures_guarded (fun _ _ _ => single) fun _ => ?_)
      split
      · exact (ensures_queryAllocate_target rfl single).mono fun _ _ after _ => after
      · exact fun _ => single
  | on conn ask =>
      simp only [System.call]
      split
      · trivial
      · rename_i pConn present
        by_cases one : system.conns.length ≤ 1
        · obtain ⟨alone, rfl⟩ := conns_eq_single one present
          have tracks : Tracks ph 0 ⟨system.pRes, pConn⟩ targets :=
            single one pConn (mem_conns present)
          apply ((keptSearching_tracks ph).every ask tracks).bind
          rintro ⟨rc, s⟩ later after
          have kept : ServesNames ph later s.pConn.cli s.pRes.srv.names := by
            rcases after with after | after <;> exact after
          intro _ other member
          obtain rfl : other = s.pConn := by simpa [System.returned, alone] using member
          exact kept
        · refine Watch.ensures_bind.mpr (Watch.ensures_of_forall (fun _ => trivial) ?_)
          intro answer later shorter
          exact absurd (by simpa [System.returned] using shorter) one

theorem singleTracks_reached {pRes : Resource} {history : List (Taken Op Call Int)}
    {system : System} (reached : Mounted ph pRes history system) :
    SingleTracks ph system (targetsOf (exchanges history)) := by
  have start : SingleTracks ph { pRes } fun _ => none := by simp [SingleTracks]
  exact targetWatch.reaches_invariant start
    (fun _ _ call single _ => ensures_call_target call single) reached
    (Watch.admits_of_forall _ fun _ _ _ => trivial)

/-- Whatever has happened on a Resource, a path that is parsed successfully is worked on in
the share that it names exactly when a name is new, or the Connection's handle was opened
for the stored names; with one Connection it always is. -/
theorem parsedPath_reachesShare_iff {pRes : Resource} {history : List (Taken Op Call Int)}
    {system : System} (reached : Mounted ph pRes history system) {conn : Nat}
    {pConn : Connection} (present : system.connection conn = some pConn) {path : CString}
    (plain : iftestpath path = false) {trace : List CallEvent} {t : Session} {rest : CString}
    (run : Run (pathparser ph ⟨system.pRes, pConn⟩ path) trace (some (noError, t, rest))) :
    (ServesNames ph (targetsOf (exchanges history ++ trace)) t.pConn.cli
        (namedShare system.pRes path) ↔
      switches ph ⟨system.pRes, pConn⟩ path = true ∨
        ServesNames ph (targetsOf (exchanges history)) pConn.cli system.pRes.srv.names) ∧
    (system.conns.length ≤ 1 →
      ServesNames ph (targetsOf (exchanges history ++ trace)) t.pConn.cli
        (namedShare system.pRes path)) := by
  have parsed : ParsedOn ph ⟨system.pRes, pConn⟩ path (targetsOf (exchanges history))
      (targetsOf (exchanges history ++ trace)) t := by
    rw [targetsOf_append]
    exact (ensures_pathparser_target plain).run run
      (Watch.admits_of_forall _ fun _ _ _ => trivial) rfl
  refine ⟨parsed.serves_iff, fun one => parsed.serves_iff.mpr (.inr ?_)⟩
  exact singleTracks_reached reached one pConn (mem_conns present)

end Targets

def serverResource : Resource :=
  { rootlevel := 2, srv := { workgroup := bytes "W", serverName := bytes "S" } }

def onShareA : Resource :=
  { serverResource with srv := { serverResource.srv with shareName := bytes "A" } }

def closedFile : SmbwrpFile := { fd := -1 }

def sharedSystem : System :=
  { pRes := onShareA
    conns := [some { cli := some 2, file := closedFile }, some { cli := some 1, file := closedFile }] }

theorem reaches_sharedSystem :
    ∃ history, Mounted asciiPlatform serverResource history sharedSystem ∧
      targetsOf (exchanges history) 1 = some serverResource.srv := by
  have mounted : Mounted asciiPlatform serverResource [] { pRes := serverResource } := .start
  have first := mounted.executed (fun _ => opening 0 true) .createConnection 0
    { pRes := serverResource, conns := [some { cli := some 0, file := closedFile }] } trivial
    (by decide)
  have second := first.executed (fun _ => opening 1 true) .createConnection 0
    { pRes := serverResource
      conns := [some { cli := some 0, file := closedFile }, some { cli := some 1, file := closedFile }] }
    trivial (by decide)
  have deleted := second.executed (fun _ => opening 2 true) (.on 0 (.forceDelete (bytes "A\\f"))) 0
    sharedSystem trivial (by decide)
  exact ⟨_, deleted, by decide⟩

def secondSession : Session := ⟨onShareA, { cli := some 1, file := closedFile }⟩

theorem run_secondSession :
    Run (pathparser asciiPlatform secondSession (bytes "A\\f")) []
      (some (noError, secondSession, bytes "\\f")) :=
  (show (exec (fun _ => opening 2 true) 0
      (pathparser asciiPlatform secondSession (bytes "A\\f"))).2 =
    some (noError, secondSession, bytes "\\f") by decide) ▸ run_exec (fun _ => opening 2 true) _ 0

theorem parsedPath_reachesShare_iff_second :
    ∃ history, Mounted asciiPlatform serverResource history sharedSystem ∧
      (ServesNames asciiPlatform (targetsOf (exchanges history ++ [])) (some 1)
          (namedShare onShareA (bytes "A\\f")) ↔
        switches asciiPlatform secondSession (bytes "A\\f") = true ∨
          ServesNames asciiPlatform (targetsOf (exchanges history)) (some 1) onShareA.srv.names) := by
  obtain ⟨history, reached, -⟩ := reaches_sharedSystem
  have second : sharedSystem.connection 1 = some { cli := some 1, file := closedFile } := rfl
  exact ⟨history, reached,
    (parsedPath_reachesShare_iff reached second (by decide) run_secondSession).1⟩

/-- The path names the share `A`, and the handle was opened for none. -/
theorem pathparser_keeps_other_share :
    ∃ history, Mounted asciiPlatform serverResource history sharedSystem ∧
      sharedSystem.connection 1 = some secondSession.pConn ∧
      Run (pathparser asciiPlatform secondSession (bytes "A\\f")) []
        (some (noError, secondSession, bytes "\\f")) ∧
      ¬ ServesNames asciiPlatform (targetsOf (exchanges history ++ [])) secondSession.pConn.cli
        (namedShare onShareA (bytes "A\\f")) := by
  obtain ⟨history, reached, target⟩ := reaches_sharedSystem
  refine ⟨history, reached, rfl, run_secondSession, ?_⟩
  rintro ⟨cli, srv, used, opened, named⟩
  obtain rfl := Option.some.inj used
  rw [List.append_nil, target] at opened
  obtain rfl := Option.some.inj opened
  exact absurd named.shareName (by decide)

end NdpSmb
