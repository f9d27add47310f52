import NdpSmb.Mount
import NdpSmb.ShareTarget

/-!
The comparison of two mounted Resources while paths are parsed on connections of either.
-/

namespace NdpSmb

open ByteString Interaction

variable (ph : Platform)

inductive Side
  | first
  | second
  deriving DecidableEq

def Side.other : Side → Side
  | .first => .second
  | .second => .first

structure MountedPair where
  resource : Side → Resource
  conns : List (Side × Connection)

structure Browse where
  conn : Nat
  path : CString
  deriving DecidableEq

namespace MountedPair

def browsed (pair : MountedPair) (conn : Nat) (side : Side) (s : Session) : MountedPair where
  resource := Function.update pair.resource side s.pRes
  conns := pair.conns.set conn (side, s.pConn)

def browse (pair : MountedPair) (ask : Browse) : Program ((Int × CString) × MountedPair) :=
  match pair.conns[ask.conn]? with
  | none => .fault
  | some (side, pConn) => do
      let (rc, s, result) ← pathparser ph ⟨pair.resource side, pConn⟩ ask.path
      pure ((rc, result), pair.browsed ask.conn side s)

def verdict (pair : MountedPair) : Int :=
  ndpRsrcCompare ph (pair.resource .first) (pair.resource .second)

def AnyBrowse (_ : MountedPair) (_ : Browse) : Prop := True

def Reconnects (trace : List CallEvent) : Prop := ∃ event ∈ trace, openedFor event ≠ none

/-- A path that leads to another connection names the share that its Resource stands for, or
neither of the two is that of the other Resource. -/
def NamesOwnShare (pair : MountedPair) (taken : Taken Op Browse (Int × CString)) : Prop :=
  ∀ side pConn, pair.conns[taken.label.conn]? = some (side, pConn) → Reconnects taken.trace →
    let pRes := pair.resource side
    let other := pair.resource side.other
    let named := namedShare pRes taken.label.path
    SameShare ph named pRes.srv.names ∨ ¬ ph.SameName pRes.srv.username other.srv.username ∨
      ¬ SameShare ph pRes.srv.names other.srv.names ∧ ¬ SameShare ph named other.srv.names

end MountedPair

section Parse

variable {ph} {s : Session} {path : CString}

theorem parsePath_kept {β : Type} {keep : SmbwrpServer → β} {pRes : Resource}
    {parsed : ParsedPath} (step : parsePath ph pRes path = some parsed)
    (workgroup : ∀ srv name, keep { srv with workgroup := name } = keep srv)
    (serverName : ∀ srv name, keep { srv with serverName := name } = keep srv)
    (shareName : ∀ srv name, keep { srv with shareName := name } = keep srv) :
    keep parsed.srv = keep pRes.srv := by
  have inGroup {before after : ParsedPath} (level : parseWorkgroup ph before = some after) :
      keep after.srv = keep before.srv := by
    obtain ⟨-, -, rfl | rfl⟩ := parseLevel_spec ph (fun _ _ => rfl) level
    · rfl
    · exact workgroup _ _
  have onServer {before after : ParsedPath} (level : parseServer ph before = some after) :
      keep after.srv = keep before.srv := by
    obtain ⟨-, -, rfl | rfl⟩ := parseLevel_spec ph (fun _ _ => rfl) level
    · rfl
    · exact serverName _ _
  have inShare {before after : ParsedPath} (level : parseShare ph before = some after) :
      keep after.srv = keep before.srv := by
    obtain ⟨-, -, rfl | rfl⟩ := parseLevel_spec ph (fun _ _ => rfl) level
    · rfl
    · exact shareName _ _
  unfold parsePath parseLevels at step
  split at step
  · simp only [Option.bind_eq_some_iff] at step
    obtain ⟨second, ⟨first, group, server⟩, share⟩ := step
    exact (inShare share).trans ((onServer server).trans (inGroup group))
  · obtain ⟨first, server, share⟩ := Option.bind_eq_some_iff.mp step
    exact (inShare share).trans (onServer server)
  · exact inShare step
  · obtain rfl := Option.some.inj step
    rfl

def reconnectWatch : Watch Op Bool where
  observe seen event := seen || (openedFor event).isSome

theorem reconnectWatch_after (seen : Bool) (trace : List CallEvent) :
    reconnectWatch.after seen trace = true ↔ seen = true ∨ MountedPair.Reconnects trace := by
  induction trace generalizing seen with
  | nil => simp [MountedPair.Reconnects]
  | cons event rest ih =>
      rw [Watch.after_cons, ih]
      simp [reconnectWatch, MountedPair.Reconnects, Option.isSome_iff_ne_none, or_assoc]

structure Renames (ph : Platform) (s : Session) (path : CString) (t : Session)
    (reconnected : Bool) : Prop where
  kept : reconnected = false → t.pRes = s.pRes
  named : reconnected = true → SameShare ph (namedShare s.pRes path) t.pRes.srv.names
  username : t.pRes.srv.username = s.pRes.srv.username

theorem renames_nothing : Renames ph s path s false :=
  ⟨fun _ => rfl, fun absent => Bool.noConfusion absent, rfl⟩

theorem ensures_pathparser_renames :
    reconnectWatch.Ensures (fun answer reconnected => Renames ph s path answer.2.1 reconnected)
      (pathparser ph s path) false := by
  have finished (rc : Int) (t : Session) (rest : CString) {reconnected : Bool}
      (renames : Renames ph s path t reconnected) :
      reconnectWatch.Ensures
        (fun answer reconnected => Renames ph s path answer.2.1 reconnected)
        (finishPath rc t rest) reconnected :=
    ensures_finishPath (fun _ => trivial) fun _ => renames
  unfold pathparser
  split
  · exact renames_nothing
  · split
    · trivial
    · rename_i parsed found
      split
      · refine Watch.ensures_bind.mpr (Watch.ensures_perform_bind.mpr fun reply _ => ?_)
        cases reply with
        | refused rc => exact finished _ _ _ renames_nothing
        | connected cli =>
            have renames : Renames ph s path
                ⟨{ s.pRes with srv := parsed.srv }, { s.pConn with cli := some cli }⟩ true :=
              ⟨fun absent => Bool.noConfusion absent, fun _ => (parsePath_named found).1,
                parsePath_kept found (fun _ _ => rfl) (fun _ _ => rfl) fun _ _ => rfl⟩
            refine Watch.ensures_bind.mpr (ensures_smbwrpDisconnect (fun _ => ?_) fun used _ => ?_)
            · exact finished _ _ _ renames
            · exact finished _ _ _ renames
      · exact finished _ _ _ renames_nothing

end Parse

section Verdict

variable {ph} {left right other : Resource}

structure Resembles (ph : Platform) (left right : Resource) : Prop where
  share : SameShare ph left.srv.names right.srv.names
  username : ph.SameName left.srv.username right.srv.username

theorem ndpRsrcCompare_eq_iff : ndpRsrcCompare ph left right = ndRsrcEqual ↔
    Resembles ph left right := by
  unfold ndpRsrcCompare
  constructor
  · intro equal
    split at equal
    · rename_i names
      exact ⟨⟨names.2.2.2, names.1, names.2.1⟩, names.2.2.1⟩
    · exact absurd equal (by decide)
  · rintro ⟨⟨workgroup, serverName, shareName⟩, username⟩
    exact if_pos ⟨serverName, shareName, username, workgroup⟩

theorem ndpRsrcCompare_same_iff {first second : Resource} :
    ndpRsrcCompare ph left right = ndpRsrcCompare ph first second ↔
      (Resembles ph left right ↔ Resembles ph first second) := by
  have verdicts (one two : Resource) : ndpRsrcCompare ph one two = ndRsrcEqual ∨
      ndpRsrcCompare ph one two = ndRsrcDifferent := by
    unfold ndpRsrcCompare
    split
    · exact .inl rfl
    · exact .inr rfl
  rw [← ndpRsrcCompare_eq_iff, ← ndpRsrcCompare_eq_iff]
  constructor
  · intro same
    rw [same]
  · intro same
    rcases verdicts left right with equal | different
    · rw [equal, same.mp equal]
    · rcases verdicts first second with equal | alike
      · rw [same.mpr equal, equal]
      · rw [different, alike]

theorem resembles_comm : Resembles ph left right ↔ Resembles ph right left := by
  constructor
  · exact fun alike => ⟨alike.share.symm, FoldEq.symm alike.username⟩
  · exact fun alike => ⟨alike.share.symm, FoldEq.symm alike.username⟩

theorem verdict_same_iff (pair next : MountedPair) (side : Side) :
    next.verdict ph = pair.verdict ph ↔
      (Resembles ph (next.resource side) (next.resource side.other) ↔
        Resembles ph (pair.resource side) (pair.resource side.other)) := by
  cases side with
  | first => exact ndpRsrcCompare_same_iff
  | second => exact ndpRsrcCompare_same_iff.trans (iff_congr resembles_comm resembles_comm)

theorem resembles_renamed_iff {named : ShareNames} {before after : Resource}
    (new : SameShare ph named after.srv.names)
    (user : after.srv.username = before.srv.username) :
    (SameShare ph named before.srv.names ∨ ¬ ph.SameName before.srv.username other.srv.username ∨
        ¬ SameShare ph before.srv.names other.srv.names ∧
          ¬ SameShare ph named other.srv.names) ↔
      (Resembles ph after other ↔ Resembles ph before other) := by
  have moved : Resembles ph after other ↔
      SameShare ph named other.srv.names ∧ ph.SameName before.srv.username other.srv.username := by
    constructor
    · exact fun alike => ⟨new.trans alike.share, user ▸ alike.username⟩
    · exact fun both => ⟨new.symm.trans both.1, user ▸ both.2⟩
  rw [moved]
  constructor
  · rintro (own | strangers | ⟨stored, unnamed⟩)
    · constructor
      · exact fun both => ⟨own.symm.trans both.1, both.2⟩
      · exact fun alike => ⟨own.trans alike.share, alike.username⟩
    · exact iff_of_false (fun both => strangers both.2) fun alike => strangers alike.username
    · exact iff_of_false (fun both => unnamed both.1) fun alike => stored alike.share
  · intro same
    by_cases users : ph.SameName before.srv.username other.srv.username
    · by_cases stored : SameShare ph before.srv.names other.srv.names
      · have both := same.mpr ⟨stored, users⟩
        exact .inl (both.1.trans stored.symm)
      · exact .inr (.inr ⟨stored, fun named => stored (same.mp ⟨named, users⟩).share⟩)
    · exact .inr (.inl users)

end Verdict

/-! Paths on the connections of both, in any order. -/

section Browses

variable {ph} {pair next start : MountedPair} {taken : Taken Op Browse (Int × CString)}
  {history : List (Taken Op Browse (Int × CString))}

theorem Side.other_ne (side : Side) : side.other ≠ side := by
  cases side with
  | first => decide
  | second => decide

theorem browse_renames
    (run : Run (pair.browse ph taken.label) taken.trace (some (taken.answer, next))) :
    ∃ side pConn t reconnected, pair.conns[taken.label.conn]? = some (side, pConn) ∧
      next.resource = Function.update pair.resource side t.pRes ∧
      (reconnected = true ↔ MountedPair.Reconnects taken.trace) ∧
      Renames ph ⟨pair.resource side, pConn⟩ taken.label.path t reconnected := by
  unfold MountedPair.browse at run
  cases used : pair.conns[taken.label.conn]? with
  | none => simp [used] at run
  | some connected =>
      obtain ⟨side, pConn⟩ := connected
      simp only [used] at run
      obtain ⟨first, second, ⟨rc, t, result⟩, split, parsed, ended⟩ := run_bind_some_iff.mp run
      obtain ⟨rfl, given⟩ := run_ret_iff.mp ended
      obtain rfl := (Prod.mk.inj (Option.some.inj given)).2
      have renames := ensures_pathparser_renames.run parsed
        (reconnectWatch.admits_of_forall fun _ _ _ => trivial)
      refine ⟨side, pConn, t, _, rfl, rfl, ?_, renames⟩
      rw [reconnectWatch_after, split, List.append_nil]
      simp

theorem verdict_step
    (run : Run (pair.browse ph taken.label) taken.trace (some (taken.answer, next))) :
    pair.NamesOwnShare ph taken ↔ next.verdict ph = pair.verdict ph := by
  obtain ⟨side, pConn, t, reconnected, used, resources, reconnects, renames⟩ := browse_renames run
  have own : next.resource side = t.pRes := by rw [resources, Function.update_self]
  have other : next.resource side.other = pair.resource side.other := by
    rw [resources, Function.update_of_ne side.other_ne]
  have own_share : pair.NamesOwnShare ph taken ↔ (MountedPair.Reconnects taken.trace →
      SameShare ph (namedShare (pair.resource side) taken.label.path)
          (pair.resource side).srv.names ∨
        ¬ ph.SameName (pair.resource side).srv.username (pair.resource side.other).srv.username ∨
        ¬ SameShare ph (pair.resource side).srv.names (pair.resource side.other).srv.names ∧
          ¬ SameShare ph (namedShare (pair.resource side) taken.label.path)
            (pair.resource side.other).srv.names) := by
    constructor
    · exact fun names => names side pConn used
    · intro names place connection here
      obtain ⟨rfl, rfl⟩ := Prod.mk.inj (Option.some.inj (used.symm.trans here))
      exact names
  rw [verdict_same_iff pair next side, own, other, own_share, ← reconnects]
  cases reconnected with
  | false =>
      rw [renames.kept rfl]
      simp
  | true =>
      simp only [forall_const]
      exact resembles_renamed_iff (renames.named rfl) renames.username

/-- The verdict is that of the mounts at each point of those histories in which each path that
leads to another connection names what its Resource stands for, or what has nothing to do with
the other Resource. -/
theorem rsrcCompare_stable_iff
    (reached : Reaches (MountedPair.browse ph) MountedPair.AnyBrowse start history pair) :
    (∀ before rest between, history = before ++ rest →
        Reaches (MountedPair.browse ph) MountedPair.AnyBrowse start before between →
        between.verdict ph = start.verdict ph) ↔
      ReachesBy (MountedPair.browse ph) (MountedPair.NamesOwnShare ph) start history pair := by
  constructor
  · intro stable
    induction reached with
    | start => exact .start
    | @step earlier before ask trace answer after reached permitted run ih =>
        have still : before.verdict ph = start.verdict ph :=
          stable earlier _ before rfl reached
        have now : after.verdict ph = start.verdict ph :=
          stable _ [] after (List.append_nil _).symm (reached.step permitted run)
        have names : before.NamesOwnShare ph ⟨ask, trace, answer⟩ :=
          (verdict_step run).mpr (now.trans still.symm)
        refine ReachesBy.step (ih fun front rest between split => ?_) names run
        exact stable front (rest ++ [⟨ask, trace, answer⟩]) between
          (by rw [split, List.append_assoc])
  · rintro names before rest between rfl middle
    obtain ⟨there, met⟩ := names.behind
    obtain rfl := met.reaches.unique middle
    refine met.invariant (fun pair => pair.verdict ph = start.verdict ph) rfl ?_
    intro state taken next still names run
    exact ((verdict_step run).mp names).trans still

end Browses

def pairAnswers (properties : List (CString × CString)) : (R : Type) → Op R → R
  | _, .fsphQueryStringProperty name =>
      match properties.find? fun property => property.1 = name with
      | some property => (0, some property.2, 1)
      | none => (1, none, 0)
  | _, .gettid => 1
  | _, op => op.usual

def pairMount (properties : List (CString × CString)) :
    List CallEvent × Option (Int × Option Resource) :=
  exec (fun _ => pairAnswers properties) 0 ndpMountResource

def mountedBy (properties : List (CString × CString)) : Resource :=
  ((pairMount properties).2.bind Prod.snd).getD {}

def groupProperties : List (CString × CString) := [(bytes "WORKGROUP", bytes "W")]

def shareProperties : List (CString × CString) :=
  [(bytes "WORKGROUP", bytes "W"), (bytes "SERVER", bytes "S"), (bytes "SHARE", bytes "C")]

def groupAndShare : MountedPair where
  resource
    | .first => mountedBy groupProperties
    | .second => mountedBy shareProperties
  conns := [(.first, { cli := some 0 })]

theorem rsrcCompare_stable_iff_otherShare :
    ∃ history pair, history.map Taken.label = [⟨0, bytes "\\S\\D"⟩] ∧
      ((∀ before rest between, history = before ++ rest →
          Reaches (MountedPair.browse asciiPlatform) MountedPair.AnyBrowse groupAndShare before
            between → between.verdict asciiPlatform = groupAndShare.verdict asciiPlatform) ↔
        ReachesBy (MountedPair.browse asciiPlatform) (MountedPair.NamesOwnShare asciiPlatform)
          groupAndShare history pair) := by
  have created : Reaches (MountedPair.browse asciiPlatform) MountedPair.AnyBrowse groupAndShare []
      groupAndShare := .start
  have browsed := created.executed (fun _ _ op => op.usual) ⟨0, bytes "\\S\\D"⟩
    (noError, bytes "\\") _ trivial rfl
  exact ⟨_, _, rfl, rsrcCompare_stable_iff browsed⟩

/-- A path from the workgroup into the share that is mounted. -/
theorem browsedGroup_equals_share :
    Run ndpMountResource (pairMount groupProperties).1
        (some (noError, some (groupAndShare.resource .first))) ∧
      Run ndpMountResource (pairMount shareProperties).1
        (some (noError, some (groupAndShare.resource .second))) ∧
      groupAndShare.verdict asciiPlatform = ndRsrcDifferent ∧
      ∃ history pair, Reaches (MountedPair.browse asciiPlatform) MountedPair.AnyBrowse
        groupAndShare history pair ∧ pair.verdict asciiPlatform = ndRsrcEqual := by
  have group : (pairMount groupProperties).2 =
      some (noError, some (groupAndShare.resource .first)) := by decide
  have share : (pairMount shareProperties).2 =
      some (noError, some (groupAndShare.resource .second)) := by decide
  have created : Reaches (MountedPair.browse asciiPlatform) MountedPair.AnyBrowse groupAndShare []
      groupAndShare := .start
  have browsed := created.executed (fun _ _ op => op.usual) ⟨0, bytes "\\S\\C"⟩
    (noError, bytes "\\") _ trivial rfl
  exact ⟨group ▸ run_exec _ _ _, share ▸ run_exec _ _ _, by decide, _, _, browsed, by decide⟩

end NdpSmb
