import NdpSmb.LinkedCache

/-!
What is left of an invalidation that comes while a listing of its directory is being written.
-/

namespace NdpSmb

open ByteString Interaction DoublyLinked

variable (ph : Platform)

/-- The cache with, for each listing, how many of its entries were written before the last
invalidation of its directory. -/
structure TracedCache where
  shared : LinkedShared
  superseded : Address → Nat := fun _ => 0

def NamesDirectory (path : CString) (fParent : Bool) (pdce : DirectoryCacheEntry) : Prop :=
  ph.SameName (if fParent then parentPath path else path) pdce.pszPath

instance (path : CString) (fParent : Bool) (pdce : DirectoryCacheEntry) :
    Decidable (NamesDirectory ph path fParent pdce) := by
  unfold NamesDirectory
  infer_instance

def writtenBefore (shared : LinkedShared) (path : CString) (fParent : Bool) (pdce : Address) :
    Option Nat :=
  if some pdce ∈ shared.sessions then
    ((shared.pdc.heap pdce).filter fun entry => NamesDirectory ph path fParent entry).map
      fun entry => entry.aInfos.length
  else none

def superseding (traced : TracedCache) (later : LinkedShared) : SharedCall → Address → Nat
  | .invalidate path fParent, pdce =>
      (writtenBefore ph traced.shared path fParent pdce).getD (traced.superseded pdce)
  | .writeBegin _ _, pdce =>
      if later.sessions.getLast? = some (some pdce) then 0 else traced.superseded pdce
  | _, pdce => traced.superseded pdce

def tracedStep (fn : FilelistState → SmbwrpFileinfo → Program UInt32) (traced : TracedCache)
    (call : SharedCall) : Program (Unit × TracedCache) := do
  let (_, shared) ← linkedStep ph fn traced.shared call
  pure ((), { shared, superseded := superseding ph traced shared call })

def emptyTraced (ulExpirationTime : UInt32) (cMaxEntries : Nat) : TracedCache :=
  { shared := emptyLinked ulExpirationTime cMaxEntries }

def AnyOrder (_ : TracedCache) (_ : SharedCall) : Prop := True

def LinkedCache.Linked (pdc : LinkedCache) (pdce : Address) : Prop :=
  ∃ nodes, Visits pdc.links.next pdc.links.head nodes ∧ pdce ∈ nodes

/-- No linked listing has an entry that an invalidation of its directory came after. -/
def Honoured (traced : TracedCache) : Prop :=
  ∀ pdce entry, traced.shared.pdc.Linked pdce → traced.shared.pdc.heap pdce = some entry →
    entry.aInfos.take (traced.superseded pdce) = []

/-- An invalidation comes before there is an entry in any listing of its directory that is
being written, one that has lost an entry apart. -/
def InvalidatesEarly (traced : TracedCache) : SharedCall → Prop
  | .invalidate path fParent => ∀ pdce entry, some pdce ∈ traced.shared.sessions →
      traced.shared.pdc.heap pdce = some entry → NamesDirectory ph path fParent entry →
      entry.fInvalid = false → entry.aInfos = []
  | _ => True

/-- What no invalidation came too late for; of what is being written, a listing that has lost
an entry does not count, as it is not going to be linked. -/
structure Settling (traced : TracedCache) (nodes : List Address) : Prop where
  linked : ∀ pdce ∈ nodes, traced.superseded pdce = 0
  writing : ∀ pdce entry, some pdce ∈ traced.shared.sessions →
    traced.shared.pdc.heap pdce = some entry → traced.superseded pdce = 0 ∨ entry.fInvalid = true

section Settling

variable {ph} {traced : TracedCache} {later : LinkedShared} {nodes rest : List Address}
  {image : SharedCache} {call : SharedCall} {pdce : Address} {path : CString} {fParent : Bool}

theorem writtenBefore_of_linked (abstracts : traced.shared.Abstracts nodes image)
    (member : pdce ∈ nodes) : writtenBefore ph traced.shared path fParent pdce = none := by
  have unused : some pdce ∉ traced.shared.sessions := fun session => by
    obtain ⟨cache, -, represents⟩ := abstracts.cached
    exact (abstracts.outside represents session).1 member
  exact if_neg unused

theorem superseding_of_linked (abstracts : traced.shared.Abstracts nodes image)
    (member : pdce ∈ nodes) (settled : traced.superseded pdce = 0) :
    superseding ph traced later call pdce = 0 := by
  cases call with
  | invalidate path fParent =>
      rw [superseding, writtenBefore_of_linked abstracts member]
      exact settled
  | writeBegin state cFiles =>
      rw [superseding]
      split
      · rfl
      · exact settled
  | listFiles | findPath | writeEntry | writeEnd | abandon => exact settled

theorem writtenBefore_of_writing {entry : DirectoryCacheEntry}
    (session : some pdce ∈ traced.shared.sessions)
    (present : traced.shared.pdc.heap pdce = some entry) :
    writtenBefore ph traced.shared path fParent pdce =
      if NamesDirectory ph path fParent entry then some entry.aInfos.length else none := by
  rw [writtenBefore, if_pos session, present]
  by_cases named : NamesDirectory ph path fParent entry
  · simp [named]
  · simp [named]

theorem superseding_of_writing {entry : DirectoryCacheEntry}
    (session : some pdce ∈ traced.shared.sessions)
    (present : traced.shared.pdc.heap pdce = some entry) (early : InvalidatesEarly ph traced call)
    (settled : traced.superseded pdce = 0 ∨ entry.fInvalid = true) :
    superseding ph traced later call pdce = 0 ∨ entry.fInvalid = true := by
  rcases settled with settled | lost
  · cases call with
    | invalidate path fParent =>
        rw [superseding, writtenBefore_of_writing session present]
        by_cases named : NamesDirectory ph path fParent entry
        · cases valid : entry.fInvalid with
          | true => exact .inr rfl
          | false =>
              have empty := early pdce entry session present named valid
              simp [named, empty]
        · simp [named, settled]
    | writeBegin state cFiles =>
        rw [superseding]
        split
        · exact .inl rfl
        · exact .inl settled
    | listFiles | findPath | writeEntry | writeEnd | abandon => exact .inl settled
  · exact .inr lost

theorem Settling.step (settling : Settling traced nodes)
    (abstracts : traced.shared.Abstracts nodes image) (early : InvalidatesEarly ph traced call)
    (follows : Follows traced.shared nodes call later rest) :
    Settling ⟨later, superseding ph traced later call⟩ rest where
  linked pdce inside := by
    rcases follows.linked pdce inside with before | ⟨place, entry, rfl, used, present, valid⟩
    · exact superseding_of_linked abstracts before (settling.linked pdce before)
    · have session : some pdce ∈ traced.shared.sessions := List.mem_of_getElem? used
      rcases settling.writing pdce entry session present with settled | lost
      · exact settled
      · rw [valid] at lost
        exact Bool.noConfusion lost
  writing pdce written session found := by
    rcases follows.sessions pdce session with before | ⟨⟨state, cFiles, rfl⟩, opened⟩
    · obtain ⟨entry, present⟩ := Option.ne_none_iff_exists'.mp (abstracts.present pdce before)
      have settled := settling.writing pdce entry before present
      rcases superseding_of_writing before present early settled with settled | lost
      · exact .inl settled
      · obtain ⟨other, there, still⟩ := follows.invalid pdce entry before session present lost
        obtain rfl := Option.some.inj (there.symm.trans found)
        exact .inr still
    · refine .inl ?_
      change (if later.sessions.getLast? = some (some pdce) then 0 else _) = 0
      rw [opened, List.getLast?_concat, if_pos rfl]

def KeepsInvalidations (traced : TracedCache) : Prop :=
  ∃ nodes image, traced.shared.Abstracts nodes image ∧ Settling traced nodes

theorem returns_tracedStep (abstracts : traced.shared.Abstracts nodes image)
    (fn : FilelistState → SmbwrpFileinfo → Program UInt32) (call : SharedCall) :
    (tracedStep ph fn traced call).Returns fun result => ∃ rest image,
      result.2.shared.Abstracts rest image ∧
      Follows traced.shared nodes call result.2.shared rest ∧
      result.2.superseded = superseding ph traced result.2.shared call := by
  have related : Related _ (linkedStep ph fn traced.shared call) _ :=
    related_linkedStep abstracts fn call
  refine Prog.returns_bind.mpr (related.returns.mono ?_)
  rintro left ⟨right, -, rest, later, follows⟩
  exact ⟨rest, right.2, later, follows, rfl⟩

theorem keepsInvalidations_step (fn : FilelistState → SmbwrpFileinfo → Program UInt32)
    (keeps : KeepsInvalidations traced) (early : InvalidatesEarly ph traced call) :
    (tracedStep ph fn traced call).Returns fun result => KeepsInvalidations result.2 := by
  obtain ⟨nodes, image, abstracts, settling⟩ := keeps
  refine (returns_tracedStep abstracts fn call).mono ?_
  rintro ⟨_, later, superseded⟩ ⟨rest, image, represented, follows, noted⟩
  obtain rfl : superseded = superseding ph traced later call := noted
  exact ⟨rest, image, represented, settling.step abstracts early follows⟩

theorem abstracts_reached {fn : FilelistState → SmbwrpFileinfo → Program UInt32}
    {allowed : TracedCache → SharedCall → Prop} {ulExpirationTime : UInt32} {cMaxEntries : Nat}
    {history : List (Taken Op SharedCall Unit)}
    (reached : Reaches (tracedStep ph fn) allowed (emptyTraced ulExpirationTime cMaxEntries)
      history traced) : ∃ nodes image, traced.shared.Abstracts nodes image := by
  refine reached.invariant (fun traced => ∃ nodes image, traced.shared.Abstracts nodes image)
    ⟨_, _, abstracts_emptyLinked _ _⟩ ?_
  intro before call ⟨nodes, image, abstracts⟩ _
  refine (returns_tracedStep abstracts fn call).mono ?_
  intro result ⟨rest, later, represented, _⟩
  exact ⟨rest, later, represented⟩

theorem KeepsInvalidations.honoured (keeps : KeepsInvalidations traced) : Honoured traced := by
  obtain ⟨nodes, image, abstracts, settling⟩ := keeps
  obtain ⟨cache, -, represents⟩ := abstracts.cached
  rintro pdce entry ⟨visited, visits, member⟩ -
  have spelled := represents.spelled
  have same := visits.unique (spelled.forward.visits spelled.nodup)
  rw [settling.linked pdce (same ▸ member), List.take_zero]

theorem keepsInvalidations_emptyTraced (ulExpirationTime : UInt32) (cMaxEntries : Nat) :
    KeepsInvalidations (emptyTraced ulExpirationTime cMaxEntries) :=
  ⟨[], _, abstracts_emptyLinked _ _, fun _ _ => rfl, fun _ _ _ _ => .inl rfl⟩

variable (ph) in
theorem run_invalidate (abstracts : traced.shared.Abstracts nodes image)
    (fn : FilelistState → SmbwrpFileinfo → Program UInt32) (path : CString) (fParent : Bool) :
    ∃ pdc rest image, LinkedShared.Abstracts ⟨pdc, traced.shared.sessions⟩ rest image ∧
      (∀ pdce, some pdce ∈ traced.shared.sessions →
        pdc.heap pdce = traced.shared.pdc.heap pdce) ∧
      Run (tracedStep ph fn traced (.invalidate path fParent)) []
        (some ((), ⟨⟨pdc, traced.shared.sessions⟩,
          superseding ph traced ⟨pdc, traced.shared.sessions⟩ (.invalidate path fParent)⟩)) := by
  obtain ⟨cache, listed, represents⟩ := abstracts.cached
  have taken : ∃ later rest, traced.shared.pdc.dircacheInvalidate ph path fParent = some later ∧
      traced.shared.pdc.Shrinks later nodes rest (NdpSmb.dcInvalidate ph cache
        (if fParent then parentPath path else path) false) := represents.dcInvalidate_eq _ false
  obtain ⟨pdc, rest, invalidated, shrinks⟩ := taken
  refine ⟨pdc, rest, _, abstracts.shrunk represents shrinks, fun pdce session => ?_, ?_⟩
  · obtain ⟨outside, early⟩ := abstracts.outside represents session
    exact shrinks.frame pdce outside early
  · simp only [tracedStep, linkedStep, invalidated, orFault, Prog.pure_eq, Prog.ret_bind]
    exact .ret

theorem exec_dceAdjust (entry : DirectoryCacheEntry) :
    ∃ trace cInfosAllocated, Run (dceAdjust entry) trace
      (some { entry with cInfosAllocated }) := by
  simp only [dceAdjust]
  split
  · exact ⟨[⟨Op.realloc _, true⟩], _, .call .ret⟩
  · exact ⟨_, _, .ret⟩

variable (ph) in
theorem run_writeEnd (abstracts : traced.shared.Abstracts nodes image) {place : Nat}
    {entry : DirectoryCacheEntry} (fn : FilelistState → SmbwrpFileinfo → Program UInt32)
    (used : traced.shared.sessions[place]? = some (some pdce))
    (present : traced.shared.pdc.heap pdce = some entry) (valid : entry.fInvalid = false) :
    ∃ trace pdc cInfosAllocated, pdc.Linked pdce ∧
      pdc.heap pdce = some { entry with cInfosAllocated } ∧
      Run (tracedStep ph fn traced (.writeEnd place)) trace
        (some ((), ⟨⟨pdc, traced.shared.sessions.eraseIdx place⟩, traced.superseded⟩)) := by
  obtain ⟨trace, cInfosAllocated, adjusts⟩ := exec_dceAdjust entry
  obtain ⟨cache, listed, represents⟩ := abstracts.cached
  obtain ⟨absent, early⟩ := abstracts.outside represents (List.mem_of_getElem? used)
  let adjusted : DirectoryCacheEntry := { entry with cInfosAllocated }
  have stored : (traced.shared.pdc.store pdce (some adjusted)).Represents nodes cache :=
    represents.stored absent fun _ => early
  have here : (traced.shared.pdc.store pdce (some adjusted)).heap pdce = some adjusted :=
    Function.update_self _ _ _
  obtain ⟨pdc, inserted, heap, linked⟩ := stored.inserted absent here
  have spelled := linked.spelled
  refine ⟨trace ++ [], pdc, cInfosAllocated, ?_, heap ▸ here, ?_⟩
  · exact ⟨_, spelled.forward.visits spelled.nodup, List.mem_cons_self⟩
  · simp only [tracedStep, linkedStep, used, LinkedCache.dircacheWriteEnd, present, orFault,
      Prog.pure_eq, Prog.ret_bind, valid, Bool.false_eq_true, if_false, Prog.bind_assoc]
    refine run_bind_some_iff.mpr ⟨trace, [], adjusted, rfl, adjusts, ?_⟩
    simp only [inserted]
    exact .ret

theorem invalidation_lost (abstracts : traced.shared.Abstracts nodes image)
    (fn : FilelistState → SmbwrpFileinfo → Program UInt32)
    {start : TracedCache} {history : List (Taken Op SharedCall Unit)}
    (late : ¬ InvalidatesEarly ph traced (.invalidate path fParent))
    (reached : Reaches (tracedStep ph fn) AnyOrder start history traced) :
    ∃ place trace later, Reaches (tracedStep ph fn) AnyOrder start
      (history ++ [⟨.invalidate path fParent, [], ()⟩] ++ [⟨.writeEnd place, trace, ()⟩]) later ∧
      ¬ Honoured later := by
  have found : ∃ pdce entry, some pdce ∈ traced.shared.sessions ∧
      traced.shared.pdc.heap pdce = some entry ∧ NamesDirectory ph path fParent entry ∧
      entry.fInvalid = false ∧ entry.aInfos ≠ [] := by
    simpa [InvalidatesEarly] using late
  obtain ⟨pdce, entry, session, present, named, valid, written⟩ := found
  obtain ⟨pdc, rest, middle, abstracted, same, invalidated⟩ :=
    run_invalidate ph abstracts fn path fParent
  obtain ⟨place, used⟩ := List.mem_iff_getElem?.mp session
  have still : pdc.heap pdce = some entry := (same pdce session).trans present
  let between : TracedCache := ⟨⟨pdc, traced.shared.sessions⟩,
    superseding ph traced ⟨pdc, traced.shared.sessions⟩ (.invalidate path fParent)⟩
  have abstractedHere : between.shared.Abstracts rest middle := abstracted
  obtain ⟨trace, last, cInfosAllocated, linked, stays, ended⟩ :=
    run_writeEnd ph abstractedHere fn used still valid
  refine ⟨place, trace, _, (reached.step trivial invalidated).step trivial ended, ?_⟩
  intro honoured
  have superseded : superseding ph traced ⟨pdc, traced.shared.sessions⟩
      (.invalidate path fParent) pdce = entry.aInfos.length := by
    rw [superseding, writtenBefore_of_writing session present, if_pos named]
    rfl
  have none_left := honoured pdce _ linked stays
  simp only [between, superseded, List.take_length] at none_left
  exact written none_left

/-- A state is honoured in every run in which each invalidation is early; one that is late
is lost in the run that ends the session behind it. -/
theorem invalidations_honoured_iff (fn : FilelistState → SmbwrpFileinfo → Program UInt32)
    (ulExpirationTime : UInt32) (cMaxEntries : Nat) :
    (∀ history traced, Reaches (tracedStep ph fn) (InvalidatesEarly ph)
      (emptyTraced ulExpirationTime cMaxEntries) history traced → Honoured traced) ∧
    ∀ history traced path fParent, Reaches (tracedStep ph fn) AnyOrder
      (emptyTraced ulExpirationTime cMaxEntries) history traced →
      ¬ InvalidatesEarly ph traced (.invalidate path fParent) →
      ∃ place trace later, Reaches (tracedStep ph fn) AnyOrder
        (emptyTraced ulExpirationTime cMaxEntries)
        (history ++ [⟨.invalidate path fParent, [], ()⟩] ++ [⟨.writeEnd place, trace, ()⟩])
        later ∧ ¬ Honoured later := by
  refine ⟨fun history traced reached => ?_, fun history traced path fParent reached late => ?_⟩
  · refine (reached.invariant KeepsInvalidations (keepsInvalidations_emptyTraced _ _) ?_).honoured
    exact fun _ _ keeps early => keepsInvalidations_step fn keeps early
  · obtain ⟨nodes, image, abstracts⟩ := abstracts_reached reached
    exact invalidation_lost abstracts fn late reached

end Settling

/-- A file is listed, then the directory is invalidated, then the listing is linked. -/
theorem invalidation_of_session_lost :
    ∃ history traced, Reaches (tracedStep asciiPlatform noCallback) AnyOrder (emptyTraced 10 4)
      history traced ∧ history.map Taken.label =
        [.writeBegin directoryState 128, .writeEntry 0 fileA, .invalidate (bytes "\\D") false,
          .writeEnd 0] ∧ ¬ Honoured traced := by
  have created : Reaches (tracedStep asciiPlatform noCallback) AnyOrder (emptyTraced 10 4) []
      (emptyTraced 10 4) := .start
  have begun := created.executed usualReplies (.writeBegin directoryState 128) () _ trivial rfl
  have written := begun.executed usualReplies (.writeEntry 0 fileA) () _ trivial rfl
  have invalidated :=
    written.executed usualReplies (.invalidate (bytes "\\D") false) () _ trivial rfl
  have ended := invalidated.executed usualReplies (.writeEnd 0) () _ trivial rfl
  refine ⟨_, _, ended, rfl, fun honoured => ?_⟩
  have none_left := honoured 0 { listingOfA with cInfosAllocated := 64 } ⟨[0], ?_, by decide⟩ rfl
  · exact absurd none_left (by decide)
  · exact .go .stop

end NdpSmb
