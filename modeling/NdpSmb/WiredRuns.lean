import NdpSmb.SessionOwners
import Mathlib.Data.List.Nodup
import Mathlib.Data.List.Pairwise

/-!
The runs of the plugin with every connection spelled out, down to the calls of libsmb that
set a session up.
-/

namespace NdpSmb

open ByteString Interaction

section Runs

variable {ph : Platform} {plugin : Plugin} {history : List (Taken WireOp PluginCall Int)}

abbrev Plugin.wired (ph : Platform) (plugin : Plugin) (call : PluginCall) :
    WireProgram (Int × Plugin) :=
  (plugin.call ph call).realized NdpSmb.wired

abbrev Wired (ph : Platform) : List (Taken WireOp PluginCall Int) → Plugin → Prop :=
  Reaches (Plugin.wired ph) (fun _ _ => True) {}

def givenSeen (trace : List CallEvent) : GivenSeen := givenWatch.after {} trace

theorem linked_start : SessionsLinked ({}, True) ({}, True) where
  ready _ _ found := by cases found
  settled _ _ found := by cases found
  option := rfl
  proper _ := trivial

theorem linked_exchanges (mine : Handle → Target → Prop) {above : GivenSeen × Prop}
    {below : WireSeen × Prop} {first : List CallEvent} {second : List WireEvent}
    (carried : Carried wired first second) (linked : SessionsLinked above below)
    (fresh : wireWatch.Admits below.1 second) :
    givenWatch.Admits above.1 first ∧
      SessionsLinked (givenWatch.after above.1 first, ((givenProper mine).after above first).2)
        (wireWatch.after below.1 second,
          ((properWatch (ReadyForMine mine)).after below second).2) := by
  have both := carried.linked (linked_sessions mine) linked (Watch.checked_admits.mpr fresh)
  rw [← Watch.checked_after_fst above first, ← Watch.checked_after_fst below second]
  exact ⟨Watch.checked_admits.mp both.1, both.2⟩

/-- A call on the Resource was given the handle. -/
def GivenTo (history : List (Taken Op PluginCall Int)) (res : Nat) (cli : Handle) : Prop :=
  ∃ step ∈ history, (∃ call, step.label = .on res call) ∧ cli ∈ connectedHandles step.trace

theorem owners_givenTo {above : List (Taken Op PluginCall Int)} {call : PluginCall}
    {trace : List CallEvent} {rc : Int} {res : Nat} {cli : Handle}
    (owned : call.owners (· ∈ connectedHandles trace) (GivenTo above) res cli) :
    GivenTo (above ++ [⟨call, trace, rc⟩]) res cli := by
  have earlier (given : GivenTo above res cli) : GivenTo (above ++ [⟨call, trace, rc⟩]) res cli := by
    obtain ⟨step, member, given⟩ := given
    exact ⟨step, List.mem_append_left _ member, given⟩
  cases call with
  | on used call =>
      rcases owned with given | ⟨rfl, now⟩
      · exact earlier given
      · exact ⟨_, List.mem_append_right _ (List.mem_singleton.mpr rfl), ⟨call, rfl⟩, now⟩
  | _ => exact earlier owned

theorem allows_anything {granted : Handle → Prop} {owns : Nat → Handle → Prop}
    (call : PluginCall) : call.Allows granted plugin owns fun _ _ => True := by
  cases call with
  | on res call => exact fun _ _ _ _ _ => trivial
  | _ => trivial

theorem ownProper_admits {granted : Handle → Prop} {mine : Handle → Target → Prop}
    {memory : GivenSeen × Prop} {trace : List CallEvent}
    (fresh : givenWatch.Admits memory.1 trace) (told : ∀ cli ∈ connectedHandles trace, granted cli) :
    (ownProper granted mine).Admits memory trace := by
  induction trace generalizing memory with
  | nil => trivial
  | cons event rest ih =>
      refine ⟨fun cli connected => ⟨fresh.1 cli connected, ?_⟩, ih fresh.2 fun cli member => ?_⟩
      · exact told cli (List.mem_filterMap.mpr ⟨event, List.mem_cons_self, connected⟩)
      · obtain ⟨there, given, connected⟩ := List.mem_filterMap.mp member
        exact told cli (List.mem_filterMap.mpr ⟨there, List.mem_cons_of_mem _ given, connected⟩)

theorem plugged_proper {above : List (Taken Op PluginCall Int)} (reached : Plugged ph above plugin)
    (fresh : givenWatch.Admits {} (exchanges above)) :
    PluginProper plugin (GivenTo above)
      ((givenProper fun _ _ => True).after ({}, True) (exchanges above)) := by
  induction reached with
  | start =>
      refine ⟨fun res system present => ?_, trivial⟩
      simp [Plugin.system] at present
  | @step history plugin call trace rc next _ _ run ih =>
      rw [exchanges_snoc, Watch.admits_append] at fresh
      have before := ih fresh.1
      rw [exchanges_snoc, Watch.after_append]
      generalize memory : (givenProper fun _ _ => True).after ({}, True) (exchanges history) = seen
        at before ⊢
      have given : givenWatch.after {} (exchanges history) = seen.1 := by
        rw [← memory, Watch.checked_after_fst]
      have after := (ensures_pluginCall_accounted ph before call (allows_anything call)).run run
        (ownProper_admits (given ▸ fresh.2) fun _ member => member)
      refine ⟨fun res system present => ?_, after.proper⟩
      exact (after.accounted res system present).widen fun _ => owners_givenTo

theorem proper_call {call : PluginCall} {owns : Nat → Handle → Prop}
    {mine : Handle → Target → Prop} {memory : GivenSeen × Prop} {trace : List CallEvent}
    {outcome : Option (Int × Plugin)} (start : PluginProper plugin owns memory)
    (allows : call.Allows (· ∈ connectedHandles trace) plugin owns mine)
    (run : Run (plugin.call ph call) trace outcome) (fresh : givenWatch.Admits memory.1 trace) :
    ((givenProper mine).after memory trace).2 := by
  have concluded := Watch.ensures_iff_runs.mp (ensures_pluginCall_accounted ph start call allows)
    trace outcome run (ownProper_admits fresh fun _ member => member)
  cases outcome with
  | some answer => exact concluded.proper
  | none => exact concluded

/-- Every step of a set-up follows the one before it, requests go to sessions that are set up,
and no session is left half way: it is complete, or it has been shut down. The last call may also
crash. -/
theorem sessions_set_up {call : PluginCall} {trace : List WireEvent}
    {outcome : Option (Int × Plugin)} (reached : Wired ph history plugin)
    (run : Run (plugin.wired ph call) trace outcome)
    (fresh : wireWatch.Admits {} (exchanges history ++ trace)) :
    (∀ before event after, exchanges history ++ trace = before ++ event :: after →
      Proper (fun _ => WireSession.Complete) (wireSeen before) event) ∧
    ∀ c session, (wireSeen (exchanges history ++ trace)).sessions c = some session →
      session.Complete ∨ session.shut = true := by
  obtain ⟨earlier, plugged, same⟩ := reached.above
  obtain ⟨above, ran, carried⟩ := run_realized_completes completes_wired run
  obtain ⟨admitted, linked⟩ := linked_exchanges (fun _ _ => True)
    ((carried_exchanges same).append carried) linked_start fresh
  have upper : ((givenProper fun _ _ => True).after ({}, True) (exchanges earlier ++ above)).2 := by
    rw [Watch.admits_append] at admitted
    rw [Watch.after_append]
    apply proper_call (plugged_proper plugged admitted.1) (allows_anything call) ran
    rw [Watch.checked_after_fst]
    exact admitted.2
  have proper := linked.proper upper
  constructor
  · intro before event after split
    rw [split] at proper
    apply (Watch.checked_passed proper).mono
    rintro _ session ⟨target, -, ready⟩
    exact ready.complete
  · intro c session found
    rcases linked.settled c session found with given | shut
    · obtain ⟨entry, known⟩ := Option.ne_none_iff_exists'.mp given
      obtain ⟨there, here, ready, -⟩ := linked.ready c entry known
      obtain rfl := Option.some.inj (here.symm.trans found)
      exact .inl ready.complete
    · exact .inr shut

theorem opened_of_given {above : List (Taken Op PluginCall Int)} {res : Nat} {cli : Handle}
    (same : List.Forall₂ (StepCarried wired) above history) {seen : WireSeen}
    (fresh : wireWatch.Admits seen (exchanges history)) (given : GivenTo above res cli) :
    ∃ step ∈ history, (∃ call, step.label = .on res call) ∧ cli ∈ openedHandles step.trace := by
  obtain ⟨step, member, label, connected⟩ := given
  induction same generalizing seen with
  | nil => cases member
  | @cons first taken rest later carried _ ih =>
      rw [exchanges, List.flatMap_cons, Watch.admits_append] at fresh
      rcases List.mem_cons.mp member with rfl | member
      · have opened := connected_opened carried.trace fresh.1 connected
        exact ⟨taken, List.mem_cons_self, carried.label ▸ label, opened⟩
      · obtain ⟨found, there, known⟩ := ih fresh.2 member
        exact ⟨found, List.mem_cons_of_mem _ there, known⟩

/-- Two calls never open one handle. -/
theorem opened_once {step other : Taken WireOp PluginCall Int} {cli : Handle}
    (fresh : wireWatch.Admits {} (exchanges history)) (member : step ∈ history)
    (also : other ∈ history) (opened : cli ∈ openedHandles step.trace)
    (again : cli ∈ openedHandles other.trace) : step = other := by
  have symmetric : Std.Symm (Function.onFun List.Disjoint
      fun taken : Taken WireOp PluginCall Int => openedHandles taken.trace) :=
    ⟨fun _ _ apart _ again once => apart once again⟩
  have nodup := (openedHandles_fresh fresh).1
  rw [openedHandles, exchanges, List.filterMap_flatMap, List.nodup_flatMap] at nodup
  by_contra differs
  have apart := nodup.2.forall member also differs
  exact apart opened again

/-- What a call on a Resource asks goes over sessions that were set up for that Resource: logged
in with its own name and password, or without a name where it has no password and no Kerberos,
and encrypted where it wants that. No call on another Resource has opened them. -/
theorem requests_in_own_name {res : Nat} {system : System} {call : Call}
    {trace before after : List WireEvent} {outcome : Option (Int × Plugin)} {R : Type}
    {cli : Handle} {ask : Request R} {reply : R} (reached : Wired ph history plugin)
    (mounted : plugin.system res = some system)
    (run : Run (plugin.wired ph (.on res call)) trace outcome)
    (fresh : wireWatch.Admits {} (exchanges history ++ trace))
    (asked : trace = before ++ ⟨.plain (.request cli ask), reply⟩ :: after) :
    ((wireSeen (exchanges history ++ before)).Has cli fun session =>
      ∃ target, target.account = system.pRes.account ∧ session.ReadyFor target) ∧
    ∀ step ∈ history, cli ∈ openedHandles step.trace → ∃ call, step.label = .on res call := by
  rw [Watch.admits_append] at fresh
  obtain ⟨earlier, plugged, same⟩ := reached.above
  obtain ⟨admitted, linked⟩ := linked_exchanges (fun _ _ => True) (carried_exchanges same)
    linked_start fresh.1
  obtain ⟨above, ran, carried⟩ := run_realized_completes completes_wired run
  let mine : Handle → Target → Prop := OwnTarget system.pRes.account fun cli =>
    GivenTo earlier res cli ∨ cli ∈ connectedHandles above
  have begun : SessionsLinked (givenSeen (exchanges earlier), True)
      (wireSeen (exchanges history), True) :=
    ⟨linked.ready, linked.settled, linked.option, fun _ => trivial⟩
  obtain ⟨allowed, ended⟩ := linked_exchanges mine carried begun fresh.2
  have accounted : PluginAccounted plugin (GivenTo earlier) (givenSeen (exchanges earlier)) := by
    have known := (plugged_proper plugged admitted).accounted
    rwa [Watch.checked_after_fst] at known
  have start : PluginProper plugin (GivenTo earlier) (givenSeen (exchanges earlier), True) :=
    ⟨accounted, trivial⟩
  have allows : (PluginCall.on res call).Allows (· ∈ connectedHandles above) plugin
      (GivenTo earlier) mine := by
    intro found present cli target owned
    obtain rfl := Option.some.inj (present.symm.trans mounted)
    exact owned
  have proper := ended.proper (proper_call start allows ran allowed)
  rw [asked] at proper
  obtain ⟨session, known, target, ⟨account, owned⟩, ready⟩ := Watch.checked_passed proper
  refine ⟨⟨session, ?_, target, account, ready⟩, fun step member opened => ?_⟩
  · rw [wireSeen, Watch.after_append]
    exact known
  · rcases owned with given | now
    · obtain ⟨other, also, label, again⟩ := opened_of_given same fresh.1 given
      rwa [opened_once fresh.1 member also opened again]
    · -- a handle that this call was given has not been opened before
      have unknown := (openedHandles_fresh fresh.2).2 cli (connected_opened carried fresh.2 now)
      have handed : cli ∈ openedHandles (exchanges history) := by
        obtain ⟨event, there, handle⟩ := List.mem_filterMap.mp opened
        exact List.mem_filterMap.mpr ⟨event, List.mem_flatMap.mpr ⟨step, member, there⟩, handle⟩
      exact absurd handed (after_unknown.mp unknown).2

def AsksNtlmv1 : CallEvent → Prop
  | ⟨.smbwrpConnect _ _ ntlmv1support _, _⟩ => ntlmv1support ≠ 0
  | _ => False

theorem givenObserve_off (seen : GivenSeen) (event : CallEvent) :
    (givenObserve seen event).ntlmv2Off = true ↔ seen.ntlmv2Off = true ∨ AsksNtlmv1 event := by
  obtain ⟨op, reply⟩ := event
  cases op with
  | smbwrpConnect srv krb5support ntlmv1support encryptionsupport =>
      cases reply <;> simp [givenObserve, GivenSeen.connect, AsksNtlmv1]
  | _ => simp [givenObserve, AsksNtlmv1]

theorem givenAfter_off (seen : GivenSeen) (trace : List CallEvent) :
    (givenWatch.after seen trace).ntlmv2Off = true ↔
      seen.ntlmv2Off = true ∨ ∃ event ∈ trace, AsksNtlmv1 event := by
  induction trace generalizing seen with
  | nil => simp
  | cons event rest ih =>
      rw [Watch.after_cons, ih]
      have first : (givenWatch.observe seen event).ntlmv2Off = true ↔
          seen.ntlmv2Off = true ∨ AsksNtlmv1 event := givenObserve_off seen event
      rw [first, or_assoc]
      simp

theorem grows_after {seen : GivenSeen} {trace : List CallEvent}
    (admitted : givenWatch.Admits seen trace) : seen.Grows (givenWatch.after seen trace) := by
  induction trace generalizing seen with
  | nil => exact .refl seen
  | cons event rest ih =>
      intro cli given found
      refine ih admitted.2 cli given ?_
      obtain ⟨op, reply⟩ := event
      cases op with
      | smbwrpConnect srv krb5support ntlmv1support encryptionsupport =>
          have running : Running seen (seen, True) := ⟨.refl seen, trivial⟩
          exact (running.connect (fun _ _ => True)
            ⟨srv, krb5support, ntlmv1support, encryptionsupport⟩ admitted.1).grows cli given found
      | _ => exact found

/-- A handle that the plugin is given stands for a session that is set up as it was asked for.
Its login could use NTLMv2 as long as no Resource had asked to go without, this one included. -/
theorem given_sessions (reached : Wired ph history plugin)
    (fresh : wireWatch.Admits {} (exchanges history)) :
    ∃ above, Plugged ph above plugin ∧ List.Forall₂ (StepCarried wired) above history ∧
      ∀ before srv krb5support ntlmv1support encryptionsupport cli after,
        exchanges above = before ++
          ⟨.smbwrpConnect srv krb5support ntlmv1support encryptionsupport, .connected cli⟩ :: after →
        (wireSeen (exchanges history)).Has cli fun session =>
          session.ReadyFor ⟨srv, krb5support, ntlmv1support, encryptionsupport⟩ ∧
          (session.ntlmv2 = true ↔ ntlmv1support = 0 ∧ ∀ event ∈ before, ¬ AsksNtlmv1 event) := by
  obtain ⟨above, plugged, same⟩ := reached.above
  obtain ⟨admitted, linked⟩ := linked_exchanges (fun _ _ => True) (carried_exchanges same)
    linked_start fresh
  refine ⟨above, plugged, same, ?_⟩
  intro before srv krb5support ntlmv1support encryptionsupport cli after split
  rw [split, Watch.admits_append] at admitted
  have grown := grows_after admitted.2.2
  have off := givenAfter_off {} before
  obtain ⟨session, there, ready, ntlmv2⟩ := linked.ready cli
    ⟨⟨srv, krb5support, ntlmv1support, encryptionsupport⟩,
      !((givenWatch.after {} before).ntlmv2Off || decide (ntlmv1support ≠ 0))⟩ (by
    rw [split, Watch.after_append]
    exact grown cli _ (Function.update_self ..))
  refine ⟨session, there, ready, ?_⟩
  have unset : ({} : GivenSeen).ntlmv2Off = false := rfl
  rw [unset] at off
  rw [ntlmv2]
  cases already : (givenWatch.after {} before).ntlmv2Off with
  | false =>
      have clear : ∀ event ∈ before, ¬ AsksNtlmv1 event := by
        intro event member asks
        rw [off.mpr (.inr ⟨event, member, asks⟩)] at already
        cases already
      simp only [Bool.false_or, Bool.not_eq_true', decide_eq_false_iff_not, ne_eq, not_not]
      exact (and_iff_left clear).symm
  | true =>
      obtain absent | ⟨event, member, asks⟩ := off.mp already
      · cases absent
      · simp only [Bool.true_or, Bool.not_true, Bool.false_eq_true, false_iff, not_and]
        exact fun _ none_asks => none_asks event member asks

end Runs

/-! What a test of the connection tells. -/

section Mount

variable {pRes : Resource}

def WireSeen.Only (seen : WireSeen) (known : WireSession → Prop) : Prop :=
  ∃ c session, seen.sessions = Function.update (fun _ => none) c (some session) ∧ known session

/-- What each code of `check_mount_resource` says about the connection, which is closed again. -/
inductive MountTold (target : Target) (seen : WireSeen) : Int → Prop
  | ready : (seen.Only fun session => session.shut = true ∧ session.ReadyFor target) →
      MountTold target seen noError
  | unreached : (∀ c, seen.sessions c = none) → MountTold target seen errorBadNetResp
  | nobody : (seen.Only fun session => session.shut = true ∧ session.negotiated = true ∧
      session.login = none) → MountTold target seen errorNetworkAccessDenied
  | refused : (seen.Only fun session => session.shut = true ∧ ¬ session.ReadyFor target ∧
      (session.negotiated = false ∨ session.login ≠ none)) →
      MountTold target seen errorUnexpNetErr

theorem mountRc_status {status : BadStatus} (error : 0xC0000000 ≤ status.1) :
    mountRc status.rc = errorUnexpNetErr := by
  have large : 0xC0000000 ≤ status.1.toNat := UInt32.le_iff_toNat_le.mp error
  have signed : status.rc.1 = status.1.toBitVec.toInt := rfl
  have word : status.1.toBitVec.toNat = status.1.toNat := rfl
  have negative : status.rc.1 < 0 := by
    have bounded := status.1.toNat_lt
    rw [signed, BitVec.toInt_eq_toNat_cond, word, if_neg (by omega)]
    omega
  unfold mountRc
  split <;> omega

def WireSeen.Errors (seen : WireSeen) : Prop :=
  ∀ c session status, seen.sessions c = some session → session.failed = some status →
    0xC0000000 ≤ status.1

theorem told_connected {target : Target} {reply : ConnectReply} {seen : WireSeen}
    (connected : Connected (({} : WireSeen).downgraded target.ntlmv1support) target reply seen) :
    match reply with
    | .connected cli => ∃ session,
        seen.sessions = Function.update (fun _ => none) cli (some session) ∧
        session.ReadyFor target
    | .refused rc => seen.Errors → MountTold target seen (mountRc rc) := by
  cases connected with
  | unreached => exact fun _ => .unreached fun _ => rfl
  | @refused c session rc unused shut givenUp unready =>
      intro errors
      cases givenUp with
      | login negotiated nobody => exact .nobody ⟨c, session, rfl, shut, negotiated, nobody⟩
      | @status status failed stage =>
          rw [mountRc_status (errors c session status WireSeen.put_sessions_self failed)]
          exact .refused ⟨c, session, rfl, shut, unready, stage⟩
  | ready unused ready open_ ntlmv2 => exact ⟨_, rfl, ready⟩

theorem sessions_change {seen : WireSeen} {c : Handle} {session : WireSession}
    (only : seen.sessions = Function.update (fun _ => none) c (some session))
    (changed : WireSession → WireSession) :
    (seen.change c changed).sessions = Function.update (fun _ => none) c (some (changed session)) := by
  have present : seen.sessions c = some session := by rw [only, Function.update_self]
  simp only [WireSeen.change, present, WireSeen.put]
  rw [only, Function.update_idem]

/-- The code of `check_mount_resource` tells how far the connection came: whether the server was
reached, whether somebody could log in, and whether the rest of the set-up was accepted. Whatever
it was, the connection is closed again. -/
theorem checkMountResource_tells {trace : List WireEvent} {rc : Int}
    (run : Run ((checkMountResource pRes).realized wired) trace (some rc))
    (fresh : wireWatch.Admits {} trace) (errors : (wireSeen trace).Errors) :
    MountTold pRes.target (wireSeen trace) rc := by
  have told : (properWatch fun _ _ => True).Ensures
      (fun rc later => later.1.Errors → MountTold pRes.target later.1 rc)
      ((checkMountResource pRes).realized wired) ({}, True) := by
    unfold checkMountResource
    simp only [Prog.realized_bind, Prog.realized_perform]
    refine Watch.ensures_bind.mpr (Watch.ensures_perform.mpr fun tid _ => ?_)
    apply (ensures_smbwrpConnect pRes.target).bind
    rintro reply later ⟨connected, -⟩
    have known := told_connected connected
    cases reply with
    | refused rc => exact known
    | connected cli =>
        obtain ⟨session, only, ready⟩ := known
        refine fun _ _ _ => .ready ⟨cli, _, sessions_change only _, rfl, ?_⟩
        exact readyFor_shut.mpr ready
  have ended := told.run run (Watch.checked_admits.mpr fresh)
  rw [Watch.checked_after_fst] at ended
  exact ended errors

end Mount

def wiredStep (c : Handle) (plugin : Plugin) (call : PluginCall) :
    List WireEvent × Option (Int × Plugin) :=
  exec (fun _ => WireOp.usual c) 0 (plugin.wired asciiPlatform call)

def emptyMounted : Plugin := ((wiredStep 0 {} .mountResource).2.map Prod.snd).getD {}

def emptyConnected : Plugin :=
  ((wiredStep 1 emptyMounted (.on 0 .createConnection)).2.map Prod.snd).getD {}

def connectedHistory : List (Taken WireOp PluginCall Int) :=
  [⟨.mountResource, (wiredStep 0 {} .mountResource).1, noError⟩,
    ⟨.on 0 .createConnection, (wiredStep 1 emptyMounted (.on 0 .createConnection)).1, noError⟩]

theorem wired_connected : Wired asciiPlatform connectedHistory emptyConnected := by
  have loaded : Wired asciiPlatform [] {} := .start
  have mounted := loaded.executed (fun _ => WireOp.usual 0) .mountResource noError emptyMounted
    trivial (by decide)
  exact mounted.executed (fun _ => WireOp.usual 1) (.on 0 .createConnection) noError emptyConnected
    trivial (by decide)

def readCall : PluginCall := .on 0 (.on 0 (.fileRead true 1))

theorem sessions_set_up_connected :
    (∀ before event after,
      exchanges connectedHistory ++ (wiredStep 1 emptyConnected readCall).1 =
        before ++ event :: after →
      Proper (fun _ => WireSession.Complete) (wireSeen before) event) ∧
    ∀ c session, (wireSeen (exchanges connectedHistory ++
        (wiredStep 1 emptyConnected readCall).1)).sessions c = some session →
      session.Complete ∨ session.shut = true :=
  sessions_set_up wired_connected (run_exec _ _ _) (by decide)

theorem given_sessions_connected :
    ∃ above, Plugged asciiPlatform above emptyConnected ∧
      List.Forall₂ (StepCarried wired) above connectedHistory ∧
      ∀ before srv krb5support ntlmv1support encryptionsupport cli after,
        exchanges above = before ++
          ⟨.smbwrpConnect srv krb5support ntlmv1support encryptionsupport, .connected cli⟩ :: after →
        (wireSeen (exchanges connectedHistory)).Has cli fun session =>
          session.ReadyFor ⟨srv, krb5support, ntlmv1support, encryptionsupport⟩ ∧
          (session.ntlmv2 = true ↔ ntlmv1support = 0 ∧ ∀ event ∈ before, ¬ AsksNtlmv1 event) :=
  given_sessions wired_connected (by decide)

def secondMounted : Plugin := ((wiredStep 2 emptyConnected .mountResource).2.map Prod.snd).getD {}

def secondConnected : Plugin :=
  ((wiredStep 3 secondMounted (.on 1 .createConnection)).2.map Prod.snd).getD {}

def twoMountsHistory : List (Taken WireOp PluginCall Int) :=
  connectedHistory ++ [⟨.mountResource, (wiredStep 2 emptyConnected .mountResource).1, noError⟩] ++
    [⟨.on 1 .createConnection, (wiredStep 3 secondMounted (.on 1 .createConnection)).1, noError⟩]

theorem wired_twoMounts : Wired asciiPlatform twoMountsHistory secondConnected := by
  have mounted := wired_connected.executed (fun _ => WireOp.usual 2) .mountResource noError
    secondMounted trivial (by decide)
  exact mounted.executed (fun _ => WireOp.usual 3) (.on 1 .createConnection) noError
    secondConnected trivial (by decide)

set_option maxRecDepth 4000 in
theorem requests_in_own_name_read :
    ∃ system, secondConnected.system 0 = some system ∧
      ((wireSeen (exchanges twoMountsHistory ++
        [⟨.plain .fsphRequestMutex, (0 : Int)⟩])).Has 1 fun session =>
          ∃ target, target.account = system.pRes.account ∧ session.ReadyFor target) ∧
      ∀ step ∈ twoMountsHistory, 1 ∈ openedHandles step.trace →
        ∃ call, step.label = .on 0 call := by
  have run : Run (secondConnected.wired asciiPlatform readCall)
      (wiredStep 1 secondConnected readCall).1 (wiredStep 1 secondConnected readCall).2 :=
    run_exec _ _ _
  exact ⟨_, rfl, requests_in_own_name wired_twoMounts rfl run (by decide) rfl⟩

theorem accessDenied_ne_zero : (0xC0000022 : UInt32) ≠ 0 := by decide

def accessDenied : BadStatus := ⟨0xC0000022, accessDenied_ne_zero⟩

def noProtocol : (R : Type) → WireOp R → R
  | _, .smbXcliNegprot .. => some accessDenied
  | R, op => WireOp.usual 0 R op

def noProtocolTest : List WireEvent × Option Int :=
  exec (fun _ => noProtocol) 0 ((checkMountResource {}).realized wired)

def noProtocolSession : WireSession where
  host := []
  signingState := .default
  useKerberos := false
  shut := true
  failed := some accessDenied

theorem checkMountResource_tells_noProtocol :
    MountTold ({} : Resource).target (wireSeen noProtocolTest.1) errorUnexpNetErr := by
  have run : Run ((checkMountResource {}).realized wired) noProtocolTest.1 noProtocolTest.2 :=
    run_exec _ _ _
  have returned : noProtocolTest.2 = some errorUnexpNetErr := by decide
  rw [returned] at run
  refine checkMountResource_tells run (by decide) fun c session status found failed => ?_
  have only : (wireSeen noProtocolTest.1).sessions =
      Function.update (Function.update (Function.update (fun _ => none) 0
        (some (begun ({} : Resource).target))) 0
        (some { noProtocolSession with shut := false })) 0 (some noProtocolSession) := rfl
  rw [only, Function.update_idem, Function.update_idem] at found
  by_cases same : c = 0
  · rw [same, Function.update_self] at found
    obtain rfl := Option.some.inj found
    obtain rfl := Option.some.inj failed
    decide
  · rw [Function.update_of_ne same] at found
    cases found

end NdpSmb
