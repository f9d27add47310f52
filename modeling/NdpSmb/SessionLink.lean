import NdpSmb.SessionSetup

/-!
The handles as the plugin sees them, and the sessions behind them: a handle that
`smbwrp_connect` gives out stands for a session that has been set up for its arguments.
-/

namespace NdpSmb

open ByteString Interaction

structure Given where
  target : Target
  ntlmv2 : Bool
  deriving DecidableEq

structure GivenSeen where
  given : Handle → Option Given := fun _ => none
  ntlmv2Off : Bool := false

def GivenSeen.connect (seen : GivenSeen) (target : Target) (reply : ConnectReply) : GivenSeen :=
  let ntlmv2Off := seen.ntlmv2Off || decide (target.ntlmv1support ≠ 0)
  match reply with
  | .refused _ => { seen with ntlmv2Off }
  | .connected cli =>
      { given := Function.update seen.given cli (some ⟨target, !ntlmv2Off⟩), ntlmv2Off }

def givenObserve (seen : GivenSeen) : CallEvent → GivenSeen
  | ⟨.smbwrpConnect srv krb5support ntlmv1support encryptionsupport, reply⟩ =>
      seen.connect ⟨srv, krb5support, ntlmv1support, encryptionsupport⟩ reply
  | _ => seen

def connectedHandle : CallEvent → Option Handle
  | ⟨.smbwrpConnect .., .connected cli⟩ => some cli
  | _ => none

abbrev connectedHandles (trace : List CallEvent) : List Handle := trace.filterMap connectedHandle

def givenWatch : Watch Op GivenSeen where
  observe := givenObserve
  admits seen event := ∀ cli ∈ connectedHandle event, seen.given cli = none

def GivenSeen.Has (seen : GivenSeen) (cli : Handle) (known : Target → Prop) : Prop :=
  ∃ given, seen.given cli = some given ∧ known given.target

def ProperCall (mine : Handle → Target → Prop) (seen : GivenSeen) : CallEvent → Prop
  | ⟨.request cli _, _⟩ => seen.Has cli (mine cli)
  | ⟨.cliShutdown cli, _⟩ => seen.Has cli fun _ => True
  | _ => True

abbrev givenProper (mine : Handle → Target → Prop) : Watch Op (GivenSeen × Prop) :=
  givenWatch.checked (ProperCall mine)

/-! The two levels. -/

structure SessionsLinked (above : GivenSeen × Prop) (below : WireSeen × Prop) : Prop where
  ready : ∀ cli given, above.1.given cli = some given →
    below.1.Has cli fun session =>
      session.ReadyFor given.target ∧ session.ntlmv2 = given.ntlmv2
  /-- A session that the plugin has not been given has been shut down again. -/
  settled : ∀ cli session, below.1.sessions cli = some session →
    above.1.given cli ≠ none ∨ session.shut = true
  option : below.1.ntlmv2Off = above.1.ntlmv2Off
  proper : above.2 → below.2

section Linked

variable {mine : Handle → Target → Prop} {above : GivenSeen × Prop} {below : WireSeen × Prop}

theorem SessionsLinked.same {event : CallEvent} (linked : SessionsLinked above below)
    (kept : givenObserve above.1 event = above.1) {wire : WireEvent}
    (quiet : wireObserve below.1 wire = below.1)
    (passes : ProperCall mine above.1 event → Proper (ReadyForMine mine) below.1 wire) :
    SessionsLinked ((givenProper mine).observe above event)
      ((properWatch (ReadyForMine mine)).observe below wire) := by
  have upper : ((givenProper mine).observe above event).1 = above.1 := kept
  have lower : ((properWatch (ReadyForMine mine)).observe below wire).1 = below.1 := quiet
  refine ⟨?_, ?_, ?_, fun both => ⟨linked.proper both.1, passes both.2⟩⟩
  · rw [upper, lower]
    exact linked.ready
  · rw [upper, lower]
    exact linked.settled
  · rw [upper, lower]
    exact linked.option

theorem SessionsLinked.shut {cli : Handle} (linked : SessionsLinked above below) :
    SessionsLinked ((givenProper mine).observe above ⟨.cliShutdown cli, ()⟩)
      ((properWatch (ReadyForMine mine)).observe below ⟨.plain (.cliShutdown cli), ()⟩) := by
  have lower : ((properWatch (ReadyForMine mine)).observe below ⟨.plain (.cliShutdown cli), ()⟩).1
      = below.1.change cli fun session => { session with shut := true } := rfl
  have upper : ((givenProper mine).observe above ⟨.cliShutdown cli, ()⟩).1 = above.1 := rfl
  cases present : below.1.sessions cli with
  | none =>
      have same : (below.1.change cli fun session => { session with shut := true }) = below.1 := by
        simp [WireSeen.change, present]
      rw [same] at lower
      refine ⟨upper ▸ lower ▸ linked.ready, upper ▸ lower ▸ linked.settled,
        upper ▸ lower ▸ linked.option, fun both => ?_⟩
      obtain ⟨given, found, -⟩ := both.2
      obtain ⟨session, there, -⟩ := linked.ready cli given found
      rw [present] at there
      cases there
  | some session =>
      have changed : (below.1.change cli fun session => { session with shut := true }) =
          below.1.put cli { session with shut := true } := by
        simp [WireSeen.change, present]
      rw [changed] at lower
      refine ⟨fun other given found => ?_, fun other later found => ?_, ?_, fun both => ?_⟩
      · rw [lower]
        obtain ⟨old, there, ready, ntlmv2⟩ := linked.ready other given found
        by_cases same : other = cli
        · subst same
          rw [present] at there
          obtain rfl := Option.some.inj there
          exact WireSeen.has_put ⟨readyFor_shut.mpr ready, ntlmv2⟩
        · exact ⟨old, by rw [WireSeen.put_sessions_ne same, there], ready, ntlmv2⟩
      · rw [lower] at found
        by_cases same : other = cli
        · subst same
          rw [WireSeen.put_sessions_self] at found
          obtain rfl := Option.some.inj found
          exact .inr rfl
        · rw [WireSeen.put_sessions_ne same] at found
          exact linked.settled other later found
      · rw [lower, upper]
        exact linked.option
      · obtain ⟨given, found, -⟩ := both.2
        refine ⟨linked.proper both.1, ?_⟩
        obtain ⟨old, there, ready, -⟩ := linked.ready cli given found
        exact ⟨old, there, .inr ready.complete⟩

theorem SessionsLinked.connected {target : Target} {reply : ConnectReply}
    {later : WireSeen × Prop} (linked : SessionsLinked above below)
    (ends : Connected (below.1.downgraded target.ntlmv1support) target reply later.1)
    (proper : above.2 → later.2) :
    (∀ cli ∈ connectedHandle ⟨.smbwrpConnect target.srv target.krb5support target.ntlmv1support
      target.encryptionsupport, reply⟩, above.1.given cli = none) ∧
    SessionsLinked ((givenProper mine).observe above
      ⟨.smbwrpConnect target.srv target.krb5support target.ntlmv1support
        target.encryptionsupport, reply⟩) later := by
  have option := linked.option
  generalize lower : later.1 = wire at ends
  have upper : ((givenProper mine).observe above ⟨.smbwrpConnect target.srv target.krb5support
      target.ntlmv1support target.encryptionsupport, reply⟩).1 = above.1.connect target reply := rfl
  cases ends with
  | unreached =>
      refine ⟨by simp [connectedHandle], fun cli given found => ?_, fun cli session found => ?_, ?_,
        fun both => proper both.1⟩
      · rw [lower]
        exact linked.ready cli given found
      · rw [lower] at found
        exact linked.settled cli session found
      · rw [lower, upper]
        simp [WireSeen.downgraded, GivenSeen.connect, option]
  | @refused c session rc unused shut =>
      refine ⟨by simp [connectedHandle], fun cli given found => ?_, fun cli other found => ?_, ?_,
        fun both => proper both.1⟩
      · rw [lower]
        obtain ⟨old, there, known⟩ := linked.ready cli given found
        have differs : cli ≠ c := by
          rintro rfl
          rw [show below.1.sessions cli = none from unused] at there
          cases there
        exact ⟨old, by rw [WireSeen.put_sessions_ne differs]; exact there, known⟩
      · rw [lower] at found
        by_cases same : cli = c
        · subst same
          rw [WireSeen.put_sessions_self] at found
          obtain rfl := Option.some.inj found
          exact .inr shut
        · rw [WireSeen.put_sessions_ne same] at found
          exact linked.settled cli other found
      · rw [lower, upper]
        simp [WireSeen.downgraded, GivenSeen.connect, option]
  | @ready c session unused ready open_ ntlmv2 =>
      have absent : above.1.given c = none := by
        cases found : above.1.given c with
        | none => rfl
        | some given =>
            obtain ⟨old, there, -⟩ := linked.ready c given found
            rw [show below.1.sessions c = none from unused] at there
            cases there
      refine ⟨by simpa [connectedHandle] using absent, fun cli given found => ?_,
        fun cli other found => ?_, ?_, fun both => proper both.1⟩
      · rw [lower]
        rw [upper] at found
        by_cases same : cli = c
        · subst same
          simp only [GivenSeen.connect, Function.update_self, Option.some.injEq] at found
          subst found
          refine WireSeen.has_put ⟨ready, ?_⟩
          rw [ntlmv2]
          simp [WireSeen.downgraded, option]
        · simp only [GivenSeen.connect, Function.update_of_ne same] at found
          obtain ⟨old, there, known⟩ := linked.ready cli given found
          exact ⟨old, by rw [WireSeen.put_sessions_ne same]; exact there, known⟩
      · rw [lower] at found
        rw [upper]
        by_cases same : cli = c
        · subst same
          exact .inl (by simp [GivenSeen.connect])
        · rw [WireSeen.put_sessions_ne same] at found
          simp only [GivenSeen.connect, Function.update_of_ne same]
          exact linked.settled cli other found
      · rw [lower, upper]
        simp [WireSeen.downgraded, GivenSeen.connect, option]

theorem linked_sessions (mine : Handle → Target → Prop) :
    (givenProper mine).Linked (properWatch (ReadyForMine mine)) wired SessionsLinked where
  carried := by
    intro R op above below linked
    cases op with
    | smbwrpConnect srv krb5support ntlmv1support encryptionsupport =>
        refine (ensures_smbwrpConnect
          ⟨srv, krb5support, ntlmv1support, encryptionsupport⟩).mono ?_
        rintro reply later ⟨ends, proper⟩
        exact linked.connected ends fun so => proper (linked.proper so)
    | cliShutdown cli => exact fun _ _ => ⟨nofun, linked.shut⟩
    | request cli ask =>
        refine fun _ _ => ⟨nofun, linked.same rfl rfl ?_⟩
        rintro ⟨given, found, owned⟩
        obtain ⟨session, there, ready, -⟩ := linked.ready cli given found
        exact ⟨session, there, given.target, owned, ready⟩
    | _ => exact fun _ _ => ⟨nofun, linked.same rfl rfl fun _ => trivial⟩

end Linked

/-- A handle that the plugin is given is one that libsmb has given out. -/
theorem connected_opened {above : List CallEvent} {below : List WireEvent} {seen : WireSeen}
    (carried : Carried wired above below) (fresh : wireWatch.Admits seen below) {cli : Handle}
    (given : cli ∈ connectedHandles above) : cli ∈ openedHandles below := by
  induction carried generalizing seen with
  | nil => cases given
  | @cons R op reply first rest later replied _ ih =>
      rw [Watch.admits_append] at fresh
      rw [openedHandles, List.filterMap_append, List.mem_append]
      obtain ⟨event, member, connected⟩ := List.mem_filterMap.mp given
      rcases List.mem_cons.mp member with rfl | member
      · left
        cases op with
        | smbwrpConnect srv krb5support ntlmv1support encryptionsupport =>
            cases reply with
            | refused rc => cases connected
            | connected new =>
                obtain rfl := Option.some.inj connected
                exact opened_smbwrpConnect ⟨srv, krb5support, ntlmv1support, encryptionsupport⟩ replied
                  fresh.1
        | _ => cases connected
      · right
        exact ih fresh.2 (List.mem_filterMap.mpr ⟨event, member, connected⟩)

end NdpSmb
