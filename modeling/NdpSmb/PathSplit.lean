import NdpSmb.ShareTarget
import Mathlib.Data.List.Forall2

/-!
How `pathparser` splits a path: the leading components go to the names of the Resource, the rest
is the path on the server.
-/

namespace NdpSmb

open ByteString Interaction

/-- A missing component counts as an empty one. -/
def leadingComponents : Nat → CString → List CString
  | 0, _ => []
  | count + 1, path => (nextComponent path).1 :: leadingComponents count (nextComponent path).2

def behindComponents : Nat → CString → CString
  | 0, path => path
  | count + 1, path => behindComponents count (nextComponent path).2

def Resource.levels (pRes : Resource) : Nat := 3 - pRes.rootlevel

def Resource.leading (pRes : Resource) (path : CString) : List CString :=
  leadingComponents pRes.levels (dropSlash path)

def Resource.serverPath (pRes : Resource) (path : CString) : CString :=
  backslash :: behindComponents pRes.levels (dropSlash path)

def SmbwrpServer.fields (srv : SmbwrpServer) : List CString :=
  [srv.workgroup, srv.serverName, srv.shareName]

/-- A component that keeps the stored name: it is there, and the same up to letter case. -/
def Keeps (ph : Platform) (component stored : CString) : Prop :=
  component ≠ [] ∧ ph.SameName component stored

def Fits (ph : Platform) (component stored : CString) : Prop :=
  component.length < nameField ∨ Keeps ph component stored

section Split

variable {ph : Platform} {pRes : Resource} {path : CString} {parsed : ParsedPath}

theorem length_nextComponent (path : CString) : (nextComponent path).2.length ≤ path.length := by
  have whole := congrArg List.length (beforeFirst_append_fromFirst backslash path)
  simp only [nextComponent, List.length_drop, List.length_append] at whole ⊢
  omega

theorem length_behindComponents (count : Nat) (path : CString) :
    (behindComponents count path).length ≤ path.length := by
  induction count generalizing path with
  | zero => exact le_refl _
  | succ count ih => exact (ih _).trans (length_nextComponent path)

theorem length_dropSlash (path : CString) : (dropSlash path).length ≤ path.length := by
  cases path with
  | nil => exact le_refl _
  | cons letter rest =>
      rw [dropSlash]
      split
      · exact Nat.le_succ rest.length
      · exact le_refl _

theorem differs_iff {stored component : CString} :
    differs ph stored component = false ↔ Keeps ph component stored :=
  differs_eq_false_iff ph

theorem parseLevel_eq {get : SmbwrpServer → CString} {set : SmbwrpServer → CString → SmbwrpServer}
    (restored : ∀ srv, set srv (get srv) = srv)
    (fits : Fits ph (nextComponent parsed.path).1 (get parsed.srv)) :
    ∃ name, ph.SameName (nextComponent parsed.path).1 name ∧
      parseLevel ph get set parsed = some {
        srv := set parsed.srv name
        newlevel := parsed.newlevel || differs ph (get parsed.srv) (nextComponent parsed.path).1
        path := (nextComponent parsed.path).2 } := by
  simp only [parseLevel]
  cases new : differs ph (get parsed.srv) (nextComponent parsed.path).1 with
  | true =>
      have short : (nextComponent parsed.path).1.length < nameField := by
        rcases fits with short | keeps
        · exact short
        · rw [differs_iff.mpr keeps] at new
          cases new
      refine ⟨(nextComponent parsed.path).1, FoldEq.refl _, ?_⟩
      rw [if_pos rfl, if_neg (by omega), Bool.or_true]
  | false =>
      refine ⟨get parsed.srv, (differs_iff.mp new).2, ?_⟩
      rw [if_neg Bool.false_ne_true, restored, Bool.or_false]

theorem parseWorkgroup_eq (ph : Platform) (parsed : ParsedPath)
    (fits : Fits ph (nextComponent parsed.path).1 parsed.srv.workgroup) :
    ∃ name, ph.SameName (nextComponent parsed.path).1 name ∧
      parseWorkgroup ph parsed = some {
        srv := { parsed.srv with workgroup := name }
        newlevel := parsed.newlevel || differs ph parsed.srv.workgroup (nextComponent parsed.path).1
        path := (nextComponent parsed.path).2 } :=
  parseLevel_eq (fun _ => rfl) fits

theorem parseServer_eq (ph : Platform) (parsed : ParsedPath)
    (fits : Fits ph (nextComponent parsed.path).1 parsed.srv.serverName) :
    ∃ name, ph.SameName (nextComponent parsed.path).1 name ∧
      parseServer ph parsed = some {
        srv := { parsed.srv with serverName := name }
        newlevel := parsed.newlevel || differs ph parsed.srv.serverName (nextComponent parsed.path).1
        path := (nextComponent parsed.path).2 } :=
  parseLevel_eq (fun _ => rfl) fits

theorem parseShare_eq (ph : Platform) (parsed : ParsedPath)
    (fits : Fits ph (nextComponent parsed.path).1 parsed.srv.shareName) :
    ∃ name, ph.SameName (nextComponent parsed.path).1 name ∧
      parseShare ph parsed = some {
        srv := { parsed.srv with shareName := name }
        newlevel := parsed.newlevel || differs ph parsed.srv.shareName (nextComponent parsed.path).1
        path := (nextComponent parsed.path).2 } :=
  parseLevel_eq (fun _ => rfl) fits

structure SplitInto (ph : Platform) (pRes : Resource) (path : CString) (parsed : ParsedPath) :
    Prop where
  rest : parsed.path = behindComponents pRes.levels (dropSlash path)
  named : List.Forall₂ ph.SameName (pRes.leading path) (parsed.srv.fields.drop pRes.rootlevel)
  above : parsed.srv.fields.take pRes.rootlevel = pRes.srv.fields.take pRes.rootlevel
  others : parsed.srv = { pRes.srv with
    workgroup := parsed.srv.workgroup
    serverName := parsed.srv.serverName
    shareName := parsed.srv.shareName }
  newlevel : parsed.newlevel = false ↔
    List.Forall₂ (Keeps ph) (pRes.leading path) (pRes.srv.fields.drop pRes.rootlevel)

theorem parsePath_splitInto
    (fits : List.Forall₂ (Fits ph) (pRes.leading path) (pRes.srv.fields.drop pRes.rootlevel)) :
    ∃ parsed, parsePath ph pRes path = some parsed ∧ SplitInto ph pRes path parsed := by
  unfold parsePath parseLevels
  have levels : pRes.levels = 3 - pRes.rootlevel := rfl
  have leading : pRes.leading path = leadingComponents pRes.levels (dropSlash path) := rfl
  match level : pRes.rootlevel with
  | 0 =>
      rw [level] at levels
      rw [levels] at leading
      rw [leading, level] at fits
      simp only [leadingComponents, SmbwrpServer.fields, List.drop_zero, List.forall₂_cons] at fits
      obtain ⟨first, second, third, -⟩ := fits
      obtain ⟨group, groupSame, inGroup⟩ :=
        parseWorkgroup_eq ph ⟨pRes.srv, false, dropSlash path⟩ first
      obtain ⟨server, serverSame, onServer⟩ := parseServer_eq ph
        ⟨{ pRes.srv with workgroup := group },
          false || differs ph pRes.srv.workgroup (nextComponent (dropSlash path)).1, _⟩ second
      obtain ⟨share, shareSame, inShare⟩ := parseShare_eq ph
        ⟨{ pRes.srv with workgroup := group, serverName := server },
          false || differs ph pRes.srv.workgroup (nextComponent (dropSlash path)).1 ||
            differs ph pRes.srv.serverName (nextComponent (nextComponent (dropSlash path)).2).1,
          _⟩ third
      refine ⟨_, Option.bind_eq_some_iff.mpr
        ⟨_, Option.bind_eq_some_iff.mpr ⟨_, inGroup, onServer⟩, inShare⟩, ?_⟩
      constructor
      case rest => rw [levels]; rfl
      case named =>
        rw [leading, level]
        exact .cons groupSame (.cons serverSame (.cons shareSame .nil))
      case above => rw [level]; rfl
      case others => rfl
      case newlevel =>
        rw [leading, level]
        simp [leadingComponents, SmbwrpServer.fields, differs_iff, and_assoc]
  | 1 =>
      rw [level] at levels
      rw [levels] at leading
      rw [leading, level] at fits
      simp only [leadingComponents, SmbwrpServer.fields, List.drop_succ_cons, List.drop_zero,
        List.forall₂_cons] at fits
      obtain ⟨first, second, -⟩ := fits
      obtain ⟨server, serverSame, onServer⟩ :=
        parseServer_eq ph ⟨pRes.srv, false, dropSlash path⟩ first
      obtain ⟨share, shareSame, inShare⟩ := parseShare_eq ph
        ⟨{ pRes.srv with serverName := server },
          false || differs ph pRes.srv.serverName (nextComponent (dropSlash path)).1, _⟩ second
      refine ⟨_, Option.bind_eq_some_iff.mpr ⟨_, onServer, inShare⟩, ?_⟩
      constructor
      case rest => rw [levels]; rfl
      case named =>
        rw [leading, level]
        exact .cons serverSame (.cons shareSame .nil)
      case above => rw [level]; rfl
      case others => rfl
      case newlevel =>
        rw [leading, level]
        simp [leadingComponents, SmbwrpServer.fields, differs_iff]
  | 2 =>
      rw [level] at levels
      rw [levels] at leading
      rw [leading, level] at fits
      simp only [leadingComponents, SmbwrpServer.fields, List.drop_succ_cons, List.drop_zero,
        List.forall₂_cons] at fits
      obtain ⟨share, shareSame, inShare⟩ :=
        parseShare_eq ph ⟨pRes.srv, false, dropSlash path⟩ fits.1
      refine ⟨_, inShare, ?_⟩
      constructor
      case rest => rw [levels]; rfl
      case named =>
        rw [leading, level]
        exact .cons shareSame .nil
      case above => rw [level]; rfl
      case others => rfl
      case newlevel =>
        rw [leading, level]
        simp [leadingComponents, SmbwrpServer.fields, differs_iff]
  | more + 3 =>
      have none : pRes.levels = 0 := by omega
      have beyond (srv : SmbwrpServer) : srv.fields.drop (more + 3) = [] :=
        List.drop_eq_nil_of_le (by simp [SmbwrpServer.fields])
      rw [none] at leading
      refine ⟨_, rfl, ?_⟩
      constructor
      case rest => rw [none]; rfl
      case named =>
        rw [leading, level, beyond]
        exact .nil
      case above => rw [level]
      case others => rfl
      case newlevel =>
        rw [leading, level, beyond]
        exact iff_of_true rfl .nil

theorem fits_of_parseLevel {get : SmbwrpServer → CString}
    {set : SmbwrpServer → CString → SmbwrpServer} {next : ParsedPath}
    (step : parseLevel ph get set parsed = some next) :
    Fits ph (nextComponent parsed.path).1 (get parsed.srv) := by
  simp only [parseLevel] at step
  split at step
  · split at step
    · cases step
    · exact .inl (by omega)
  · rename_i same
    exact .inr (differs_iff.mp (Bool.not_eq_true _ ▸ same))

theorem parsePath_fits (found : parsePath ph pRes path = some parsed) :
    List.Forall₂ (Fits ph) (pRes.leading path) (pRes.srv.fields.drop pRes.rootlevel) := by
  unfold parsePath parseLevels at found
  unfold Resource.leading Resource.levels
  match level : pRes.rootlevel with
  | 0 =>
      rw [level] at found
      simp only [Option.bind_eq_some_iff] at found
      obtain ⟨second, ⟨first, inGroup, onServer⟩, inShare⟩ := found
      obtain ⟨group, groupServer, groupShare⟩ := parseWorkgroup_levelled inGroup
      obtain ⟨server, -, serverShare⟩ := parseServer_levelled onServer
      have groupFits := fits_of_parseLevel inGroup
      have serverFits := fits_of_parseLevel onServer
      have shareFits := fits_of_parseLevel inShare
      rw [groupServer, group.path] at serverFits
      rw [serverShare, groupShare, server.path, group.path] at shareFits
      exact .cons groupFits (.cons serverFits (.cons shareFits .nil))
  | 1 =>
      rw [level] at found
      simp only [Option.bind_eq_some_iff] at found
      obtain ⟨first, onServer, inShare⟩ := found
      obtain ⟨server, -, serverShare⟩ := parseServer_levelled onServer
      have serverFits := fits_of_parseLevel onServer
      have shareFits := fits_of_parseLevel inShare
      rw [serverShare, server.path] at shareFits
      exact .cons serverFits (.cons shareFits .nil)
  | 2 =>
      rw [level] at found
      exact .cons (fits_of_parseLevel found) .nil
  | more + 3 =>
      have none : 3 - (more + 3) = 0 := by omega
      have beyond : pRes.srv.fields.drop (more + 3) = [] :=
        List.drop_eq_nil_of_le (by simp [SmbwrpServer.fields])
      rw [none, beyond]
      exact .nil

theorem length_leading (pRes : Resource) (path : CString) :
    (pRes.leading path).length = (pRes.srv.fields.drop pRes.rootlevel).length := by
  have count (levels : Nat) (path : CString) :
      (leadingComponents levels path).length = levels := by
    induction levels generalizing path with
    | zero => rfl
    | succ levels ih => exact congrArg Nat.succ (ih _)
  rw [Resource.leading, count, List.length_drop]
  rfl

theorem fits_of_short (short : ∀ component ∈ pRes.leading path, component.length < nameField) :
    List.Forall₂ (Fits ph) (pRes.leading path) (pRes.srv.fields.drop pRes.rootlevel) := by
  refine List.forall₂_iff_zip.mpr ⟨length_leading pRes path, fun member => .inl ?_⟩
  exact short _ (List.of_mem_zip member).1

theorem fits_of_same
    (same : List.Forall₂ ph.SameName (pRes.leading path) (pRes.srv.fields.drop pRes.rootlevel)) :
    List.Forall₂ (Fits ph) (pRes.leading path) (pRes.srv.fields.drop pRes.rootlevel) := by
  refine same.imp fun component stored named => ?_
  by_cases missing : component = []
  · rw [missing]
    exact .inl (by decide)
  · exact .inr ⟨missing, named⟩

end Split

/-! `pathparser`. -/

def isConnect : CallEvent → Bool
  | ⟨.smbwrpConnect .., _⟩ => true
  | _ => false

def connectsIn (trace : List CallEvent) : Nat := trace.countP isConnect

def connectWatch (broken : Nat → Prop) : Watch Op Nat where
  observe count event := if isConnect event then count + 1 else count
  crash := broken

structure SplitsPath (ph : Platform) (s : Session) (szPath : CString) (rc : Int) (t : Session)
    (result : CString) : Prop where
  result : result = s.pRes.serverPath szPath
  named : rc = noError → List.Forall₂ ph.SameName (s.pRes.leading szPath)
    (t.pRes.srv.fields.drop s.pRes.rootlevel)
  above : rc = noError →
    t.pRes.srv.fields.take s.pRes.rootlevel = s.pRes.srv.fields.take s.pRes.rootlevel
  others : rc = noError → t.pRes = { s.pRes with srv := { s.pRes.srv with
    workgroup := t.pRes.srv.workgroup
    serverName := t.pRes.srv.serverName
    shareName := t.pRes.srv.shareName } }
  failed : rc ≠ noError → t.pRes = s.pRes ∧ t.pConn.cli = s.pConn.cli

section PathParser

variable {ph : Platform} {s : Session} {szPath : CString} {broken : Nat → Prop} {seen : Nat}

def KeepsAll (ph : Platform) (pRes : Resource) (path : CString) : Prop :=
  List.Forall₂ (Keeps ph) (pRes.leading path) (pRes.srv.fields.drop pRes.rootlevel)

def CountsConnects (ph : Platform) (pRes : Resource) (path : CString) (count : Nat) : Prop :=
  KeepsAll ph pRes path ∧ count = 0 ∨ ¬ KeepsAll ph pRes path ∧ count = 1

theorem connectsIn_eq (trace : List CallEvent) :
    (connectWatch broken).after seen trace = seen + connectsIn trace := by
  induction trace generalizing seen with
  | nil => rfl
  | cons event rest ih =>
      rw [Watch.after_cons, ih, connectsIn, connectsIn, List.countP_cons]
      unfold connectWatch
      simp only
      split
      · omega
      · omega

theorem ensures_pathparser_split (plain : iftestpath szPath = false)
    (fits : List.Forall₂ (Fits ph) (s.pRes.leading szPath) (s.pRes.srv.fields.drop s.pRes.rootlevel))
    (breaks : cchmaxpath ≤ szPath.length →
      ∀ count, CountsConnects ph s.pRes szPath count → broken count) :
    (connectWatch broken).Ensures
      (fun answer later => SplitsPath ph s szPath answer.1 answer.2.1 answer.2.2 ∧
        CountsConnects ph s.pRes szPath later)
      (pathparser ph s szPath) 0 := by
  obtain ⟨parsed, found, split⟩ := parsePath_splitInto fits
  have stops {count : Nat} (counted : CountsConnects ph s.pRes szPath count)
      (long : cchmaxpath ≤ parsed.path.length) : broken count := by
    have behind := length_behindComponents s.pRes.levels (dropSlash szPath)
    have dropped := length_dropSlash szPath
    rw [split.rest] at long
    exact breaks (by omega) count counted
  have result : backslash :: parsed.path = s.pRes.serverPath szPath := congrArg _ split.rest
  rw [pathparser, if_neg (by rw [plain]; exact Bool.false_ne_true), found]
  cases new : parsed.newlevel with
  | false =>
      have keeps := split.newlevel.mp new
      have named := keeps.imp fun _ _ kept => kept.2
      simp only [new]
      have counted : CountsConnects ph s.pRes szPath 0 := .inl ⟨keeps, rfl⟩
      refine ensures_finishPath (stops counted) fun _ => ⟨?_, counted⟩
      exact ⟨result, fun _ => named, fun _ => rfl, fun _ => rfl, fun failed => absurd rfl failed⟩
  | true =>
      have changes : ¬ KeepsAll ph s.pRes szPath := by
        intro keeps
        rw [split.newlevel.mpr keeps] at new
        cases new
      have counted : CountsConnects ph s.pRes szPath 1 := .inr ⟨changes, rfl⟩
      simp only [new]
      refine Watch.ensures_bind.mpr (Watch.ensures_perform_bind.mpr fun reply _ => ?_)
      cases reply with
      | refused rc =>
          refine ensures_finishPath (stops counted) fun _ => ⟨?_, counted⟩
          refine ⟨result, ?_, ?_, ?_, fun _ => ⟨rfl, rfl⟩⟩
          · exact fun zero => absurd zero rc.2
          · exact fun zero => absurd zero rc.2
          · exact fun zero => absurd zero rc.2
      | connected cli =>
          have quiet : (connectWatch broken).Ensures (fun _ later => later = 1)
              (smbwrpDisconnect s.pConn.cli) 1 :=
            ensures_smbwrpDisconnect (fun _ => rfl) fun _ _ => rfl
          apply quiet.bind
          rintro _ _ rfl
          refine ensures_finishPath (stops counted) fun _ => ⟨?_, counted⟩
          refine ⟨result, fun _ => split.named, fun _ => split.above, fun _ => ?_,
            fun failed => absurd rfl failed⟩
          exact congrArg (fun srv => { s.pRes with srv }) split.others

end PathParser

/-- A path that fits is split into the names of its share and the path on the server, whatever
comes of the connection; without one nothing has changed. -/
theorem pathparser_splitsPath {ph : Platform} {s : Session} {szPath : CString}
    (plain : iftestpath szPath = false) (short : szPath.length ≤ cchmaxpath - 1)
    (components : ∀ component ∈ s.pRes.leading szPath, component.length ≤ 255)
    {trace : List CallEvent} {outcome : Option (Int × Session × CString)}
    (run : Run (pathparser ph s szPath) trace outcome) :
    ∃ rc t result, outcome = some (rc, t, result) ∧ SplitsPath ph s szPath rc t result := by
  have fits : List.Forall₂ (Fits ph) (s.pRes.leading szPath)
      (s.pRes.srv.fields.drop s.pRes.rootlevel) :=
    fits_of_short fun component member => Nat.lt_succ_of_le (components component member)
  have bound : szPath.length < cchmaxpath := by
    have room : 0 < cchmaxpath := by decide
    omega
  have parsed : (connectWatch fun _ => False).Ensures _ (pathparser ph s szPath) 0 :=
    ensures_pathparser_split plain fits fun long => absurd long (by omega)
  have concluded := Watch.ensures_iff_runs.mp parsed trace outcome run
    (Watch.admits_of_forall _ fun _ _ _ => trivial)
  cases outcome with
  | some answer => exact ⟨_, _, _, rfl, concluded.1⟩
  | none => exact absurd concluded id

def rootSession : Session := ⟨{ rootlevel := 2 }, { cli := some 0 }⟩

def parseRun (szPath : CString) :
    List CallEvent × Option (Int × Session × CString) :=
  exec (fun _ => opening 1 true) 0 (pathparser asciiPlatform rootSession szPath)

theorem pathparser_splitsPath_share :
    ∃ rc t result, (parseRun (bytes "\\A\\f")).2 = some (rc, t, result) ∧
      SplitsPath asciiPlatform rootSession (bytes "\\A\\f") rc t result :=
  pathparser_splitsPath (by decide) (by decide) (by decide) (run_exec _ _ _)

/-! When a path is parsed without a connection. -/

section Connects

variable {ph : Platform} {s t : Session} {szPath : CString} {trace : List CallEvent}
  {outcome : Option (Int × Session × CString)}

theorem keepsAll_iff :
    KeepsAll ph s.pRes szPath ↔ (∀ component ∈ s.pRes.leading szPath, component ≠ []) ∧
      List.Forall₂ ph.SameName (s.pRes.leading szPath) (s.pRes.srv.fields.drop s.pRes.rootlevel) :=
  List.forall₂_and_left _ _

theorem connectsIn_pathparser (plain : iftestpath szPath = false)
    (fits : List.Forall₂ (Fits ph) (s.pRes.leading szPath) (s.pRes.srv.fields.drop s.pRes.rootlevel))
    (run : Run (pathparser ph s szPath) trace outcome) :
    CountsConnects ph s.pRes szPath (connectsIn trace) := by
  have parsed := ensures_pathparser_split plain fits fun _ _ counted => counted
  have concluded := Watch.ensures_iff_runs.mp parsed trace outcome run
    (Watch.admits_of_forall _ fun _ _ _ => trivial)
  rw [connectsIn_eq, Nat.zero_add] at concluded
  cases outcome with
  | some answer => exact concluded.2
  | none => exact concluded

theorem fits_of_run {answer : Int × Session × CString} (plain : iftestpath szPath = false)
    (run : Run (pathparser ph s szPath) trace (some answer)) :
    List.Forall₂ (Fits ph) (s.pRes.leading szPath)
      (s.pRes.srv.fields.drop s.pRes.rootlevel) := by
  rw [pathparser, if_neg (by rw [plain]; exact Bool.false_ne_true)] at run
  cases found : parsePath ph s.pRes szPath with
  | none =>
      rw [found] at run
      cases run
  | some parsed => exact parsePath_fits found

theorem connectsIn_probe (probe : iftestpath szPath = true)
    (run : Run (pathparser ph s szPath) trace outcome) : connectsIn trace = 0 := by
  rw [pathparser, if_pos probe] at run
  cases run
  rfl

theorem splitsPath_again {result : CString} (plain : iftestpath szPath = false)
    (run : Run (pathparser ph s szPath) trace (some (noError, t, result))) :
    List.Forall₂ ph.SameName (s.pRes.leading szPath) (t.pRes.srv.fields.drop s.pRes.rootlevel) ∧
      t.pRes.rootlevel = s.pRes.rootlevel ∧ t.pRes.leading szPath = s.pRes.leading szPath := by
  have parsed : (connectWatch fun _ => True).Ensures _ (pathparser ph s szPath) 0 :=
    ensures_pathparser_split plain (fits_of_run plain run) fun _ _ _ => trivial
  have split := (parsed.run run (Watch.admits_of_forall _ fun _ _ _ => trivial)).1
  have level : t.pRes.rootlevel = s.pRes.rootlevel := by rw [split.others rfl]
  refine ⟨split.named rfl, level, ?_⟩
  rw [Resource.leading, Resource.levels, level]
  rfl

end Connects

/-- A path whose components are all stored is parsed without a connection exactly when none of
them is missing; and so it is with the second of two calls with one path. -/
theorem pathparser_connects_iff (ph : Platform) (s : Session) (szPath : CString) :
    (List.Forall₂ ph.SameName (s.pRes.leading szPath) (s.pRes.srv.fields.drop s.pRes.rootlevel) →
      ∀ trace outcome, Run (pathparser ph s szPath) trace outcome →
        (connectsIn trace = 0 ↔
          iftestpath szPath = true ∨ ∀ component ∈ s.pRes.leading szPath, component ≠ [])) ∧
    (∀ first t result second u again,
      Run (pathparser ph s szPath) first (some (noError, t, result)) →
      Run (pathparser ph t szPath) second (some (noError, u, again)) →
        (connectsIn (first ++ second) ≤ 1 ↔
          iftestpath szPath = true ∨ ∀ component ∈ s.pRes.leading szPath, component ≠ [])) := by
  cases probe : iftestpath szPath with
  | true =>
      constructor
      · intro _ trace outcome run
        exact iff_of_true (connectsIn_probe probe run) (.inl rfl)
      · intro first t result second u again run rerun
        refine iff_of_true ?_ (.inl rfl)
        have none := connectsIn_probe probe run
        have again := connectsIn_probe probe rerun
        rw [connectsIn, List.countP_append]
        unfold connectsIn at none again
        omega
  | false =>
      simp only [Bool.false_eq_true, false_or]
      constructor
      · intro same trace outcome run
        have all : KeepsAll ph s.pRes szPath ↔ ∀ component ∈ s.pRes.leading szPath, component ≠ [] :=
          keepsAll_iff.trans (and_iff_left same)
        rcases connectsIn_pathparser probe (fits_of_same same) run with
          ⟨keeps, count⟩ | ⟨changes, count⟩
        · exact iff_of_true count (all.mp keeps)
        · refine iff_of_false (by omega) fun present => changes (all.mpr present)
      · intro first t result second u again run rerun
        obtain ⟨named, level, leading⟩ := splitsPath_again probe run
        have all : KeepsAll ph t.pRes szPath ↔
            ∀ component ∈ s.pRes.leading szPath, component ≠ [] := by
          rw [keepsAll_iff, leading, level]
          exact and_iff_left named
        have once := connectsIn_pathparser probe (fits_of_run probe run) run
        have twice := connectsIn_pathparser probe (fits_of_run probe rerun) rerun
        rw [connectsIn, List.countP_append]
        change connectsIn first + connectsIn second ≤ 1 ↔ _
        rcases twice with ⟨keeps, none⟩ | ⟨changes, one⟩
        · refine iff_of_true ?_ (all.mp keeps)
          rcases once with ⟨-, count⟩ | ⟨-, count⟩
          · omega
          · omega
        · refine iff_of_false ?_ fun present => changes (all.mpr present)
          rcases once with ⟨keeps, -⟩ | ⟨-, count⟩
          · exact absurd (all.mpr (keepsAll_iff.mp keeps).1) changes
          · omega

/-- The path names no share, and none is stored; it is connected to all the same. -/
theorem missing_component_reconnects :
    List.Forall₂ asciiPlatform.SameName (rootSession.pRes.leading (bytes "\\"))
      (rootSession.pRes.srv.fields.drop rootSession.pRes.rootlevel) ∧
    ∃ trace outcome, Run (pathparser asciiPlatform rootSession (bytes "\\")) trace outcome ∧
      connectsIn trace = 1 :=
  ⟨.cons (by decide) .nil, _, _, run_exec (fun _ => opening 1 true) _ 0, by decide⟩

end NdpSmb
