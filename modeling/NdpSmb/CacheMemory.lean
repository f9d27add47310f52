import NdpSmb.ArrayRoom
import NdpSmb.LinkedCache
import NdpSmb.Ownership

/-!
The memory of the cache over its whole life, until `dcDelete` walks what is linked.
-/

namespace NdpSmb

open ByteString Interaction DoublyLinked Ownership

variable (ph : Platform)

namespace LinkedCache

/-- The walk of `dcDelete`; the link is read before the listing is freed. -/
def dcDeleteFrom : Nat → Option Address → LinkedCache → Option LinkedCache
  | _, none, pdc => some pdc
  | 0, some _, _ => none
  | fuel + 1, some iter, pdc =>
      if pdc.reads (some iter) then
        let next := pdc.links.next iter
        (pdc.dceDelete iter).bind (dcDeleteFrom fuel next)
      else none

def dcDelete (pdc : LinkedCache) : Option (Address → Option DirectoryCacheEntry) :=
  (dcDeleteFrom pdc.allocated pdc.links.head pdc).map LinkedCache.heap

end LinkedCache

def LinkedShared.givenUp (shared : LinkedShared) : SharedCall → List Address
  | .abandon place => (shared.sessions[place]?.join).toList
  | _ => []

structure OwnedCache where
  shared : LinkedShared
  lost : List Address := []

def ownedStep (fn : FilelistState → SmbwrpFileinfo → Program UInt32) (cache : OwnedCache)
    (call : SharedCall) : Program (Unit × OwnedCache) := do
  let (_, shared) ← linkedStep ph fn cache.shared call
  pure ((), { shared, lost := cache.shared.givenUp call ++ cache.lost })

def emptyOwned (ulExpirationTime : UInt32) (cMaxEntries : Nat) : OwnedCache :=
  { shared := emptyLinked ulExpirationTime cMaxEntries }

/-- The links fit the count, and each listing in memory is linked or one of the others. -/
structure LinkedCache.Accounts (pdc : LinkedCache) (nodes others : List Address) : Prop where
  spelled : pdc.links.Spells nodes
  counted : pdc.cEntries = nodes.length
  listed : Inventory pdc.heap (nodes ++ others)
  inUse : ∀ pdce, pdc.heap pdce ≠ none → pdce < pdc.allocated

section Accounts

variable {ph} {pdc later : LinkedCache} {nodes others rest : List Address} {pdce : Address}
  {entry : DirectoryCacheEntry}

open LinkedCache

theorem LinkedCache.Accounts.present (accounts : pdc.Accounts nodes others)
    (member : pdce ∈ nodes) : pdc.heap pdce ≠ none := by
  apply (accounts.listed.inUse pdce).mpr
  exact List.mem_append_left _ member

theorem LinkedCache.Accounts.wellFormed (accounts : pdc.Accounts nodes others) :
    pdc.WellFormed nodes where
  walks := accounts.spelled.walks
  counted := accounts.counted
  present _ member := accounts.present member
  inUse _ member := accounts.inUse _ (accounts.present member)

theorem LinkedCache.Accounts.not_mem (accounts : pdc.Accounts nodes others)
    (other : pdce ∈ others) : pdce ∉ nodes := by
  intro member
  exact (List.nodup_append.mp accounts.listed.once).2.2 pdce member pdce other rfl

theorem LinkedCache.Accounts.perm {same : List Address} (accounts : pdc.Accounts nodes others)
    (rearranged : others.Perm same) : pdc.Accounts nodes same :=
  { accounts with listed := accounts.listed.perm (rearranged.append_left nodes) }

theorem LinkedCache.Accounts.stored (accounts : pdc.Accounts nodes others)
    (present : pdc.heap pdce ≠ none) (entry : DirectoryCacheEntry) :
    (pdc.store pdce (some entry)).Accounts nodes others where
  spelled := accounts.spelled
  counted := accounts.counted
  listed := accounts.listed.written present entry
  inUse other used := by
    by_cases same : other = pdce
    · rw [same]
      exact accounts.inUse pdce present
    · have still : (pdc.store pdce (some entry)).heap other = pdc.heap other :=
        Function.update_of_ne same _ _
      rw [still] at used
      exact accounts.inUse other used

theorem LinkedCache.Accounts.removed (accounts : pdc.Accounts nodes others)
    (member : pdce ∈ nodes) (taken : pdc.dcRemoveEntry pdce = some later) :
    later.Accounts (nodes.erase pdce) (pdce :: others) := by
  rw [accounts.wellFormed.remove_eq member] at taken
  obtain rfl := Option.some.inj taken
  refine ⟨accounts.spelled.unlink member, ?_, ?_, accounts.inUse⟩
  · have some_node := List.length_pos_of_mem member
    have counted := accounts.counted
    rw [List.length_erase_of_mem member]
    simp only
    omega
  · have front := (List.perm_cons_erase member).append_right others
    exact (accounts.listed.perm front).perm List.perm_middle.symm

theorem LinkedCache.Accounts.deleted (accounts : pdc.Accounts nodes (pdce :: others))
    (taken : pdc.dceDelete pdce = some later) : later.Accounts nodes others := by
  unfold LinkedCache.dceDelete at taken
  split at taken
  · obtain rfl := Option.some.inj taken
    refine ⟨accounts.spelled, accounts.counted, accounts.listed.middle.freed, ?_⟩
    intro other used
    by_cases same : other = pdce
    · rw [same] at used
      exact absurd (Function.update_self _ _ _) used
    · have still : (pdc.store pdce none).heap other = pdc.heap other :=
        Function.update_of_ne same _ _
      rw [still] at used
      exact accounts.inUse other used
  · cases taken

theorem LinkedCache.Accounts.discarded (accounts : pdc.Accounts nodes others)
    (member : pdce ∈ nodes) (taken : pdc.discard pdce = some later) :
    later.Accounts (nodes.erase pdce) others := by
  obtain ⟨between, removed, deleted⟩ := Option.bind_eq_some_iff.mp taken
  exact (accounts.removed member removed).deleted deleted

theorem LinkedCache.Accounts.inserted (accounts : pdc.Accounts nodes (pdce :: others))
    (taken : pdc.dcInsertEntry pdce = some later) : later.Accounts (pdce :: nodes) others := by
  have absent : pdce ∉ nodes := accounts.not_mem List.mem_cons_self
  unfold LinkedCache.dcInsertEntry at taken
  split at taken
  · obtain rfl := Option.some.inj taken
    refine ⟨accounts.spelled.pushFront absent, ?_, accounts.listed.middle, accounts.inUse⟩
    have counted := accounts.counted
    rw [List.length_cons]
    simp only
    omega
  · cases taken

theorem LinkedCache.Accounts.found (accounts : pdc.Accounts nodes others) {path : CString}
    {fPrefix : Bool} (taken : pdc.dcFindDirCache ph path fPrefix = some (some pdce)) :
    pdce ∈ nodes := by
  rw [LinkedCache.dcFindDirCache, accounts.wellFormed.find_eq] at taken
  exact List.mem_of_find?_eq_some (Option.some.inj taken)

theorem LinkedCache.Accounts.evicted (accounts : pdc.Accounts nodes others)
    (taken : pdc.dcEvict = some later) : ∃ rest, later.Accounts rest others := by
  unfold LinkedCache.dcEvict at taken
  split at taken
  · obtain ⟨last, tail, discarded⟩ := Option.bind_eq_some_iff.mp taken
    have member : last ∈ nodes := by
      rw [accounts.spelled.backward.first_eq] at tail
      exact List.mem_reverse.mp (List.mem_of_mem_head? tail)
    exact ⟨_, accounts.discarded member discarded⟩
  · obtain rfl := Option.some.inj taken
    exact ⟨nodes, accounts⟩

theorem LinkedCache.Accounts.invalidated {matching : DirectoryCacheEntry → Bool} {fuel : Nat}
    (accounts : pdc.Accounts nodes others)
    (taken : dcInvalidateLoop matching fuel pdc = some later) :
    ∃ rest, later.Accounts rest others := by
  induction fuel generalizing pdc nodes with
  | zero => cases taken
  | succ fuel ih =>
      rw [dcInvalidateLoop, accounts.wellFormed.find_eq] at taken
      cases found : nodes.find? (pdc.matchesAt matching) with
      | none =>
          rw [found] at taken
          obtain rfl := Option.some.inj taken
          exact ⟨nodes, accounts⟩
      | some pdce =>
          rw [found] at taken
          obtain ⟨between, discarded, further⟩ := Option.bind_eq_some_iff.mp taken
          exact ih (accounts.discarded (List.mem_of_find?_eq_some found) discarded) further

theorem accounts_dcRead (accounts : pdc.Accounts nodes others) (path : CString)
    (fn : SmbwrpFileinfo → Program UInt32) (fForceCache : Bool) :
    (pdc.dcRead ph path fn fForceCache).Returns fun answer =>
      ∃ rest, answer.2.Accounts rest others := by
  have given (entry : DirectoryCacheEntry) : (addEach fn entry.aInfos >>= fun _ =>
      pure (some entry.aInfos.length, pdc) : Program (Option Nat × LinkedCache)).Returns
        fun answer => ∃ rest, answer.2.Accounts rest others :=
    Prog.returns_bind.mpr (Prog.returns_of_forall fun _ => ⟨nodes, accounts⟩)
  unfold LinkedCache.dcRead
  split
  · exact ⟨nodes, accounts⟩
  · refine Prog.returns_bind.mpr (returns_orFault fun found taken => ?_)
    cases found with
    | none => exact ⟨nodes, accounts⟩
    | some pdce =>
        refine Prog.returns_bind.mpr (returns_orFault fun entry _ => ?_)
        cases fForceCache with
        | true => exact given entry
        | false =>
            refine Prog.returns_perform_bind.mpr fun now => ?_
            split
            · refine Prog.returns_bind.mpr (returns_orFault fun later discarded => ?_)
              exact ⟨_, accounts.discarded (accounts.found taken) discarded⟩
            · exact given entry

theorem accounts_dceCreate (accounts : pdc.Accounts nodes others) (path : CString)
    (cFiles : Nat) :
    (pdc.dceCreate path cFiles).Returns fun answer =>
      answer.2.Accounts nodes (answer.1.toList ++ others) := by
  have unused : pdc.heap pdc.allocated = none := by
    by_contra used
    exact absurd (accounts.inUse _ used) (lt_irrefl _)
  have absent : pdc.allocated ∉ nodes := fun member => accounts.present member unused
  refine Prog.returns_bind.mpr (Prog.returns_of_forall fun created => ?_)
  cases created with
  | none => exact accounts
  | some entry =>
      have front : Inventory (Function.update pdc.heap pdc.allocated (some entry))
          (pdc.allocated :: (nodes ++ others)) := accounts.listed.allocated unused entry
      have links : (pdc.links.setNext pdc.allocated none).setPrev pdc.allocated none = pdc.links := by
        obtain ⟨next, prev⟩ := accounts.spelled.detached absent
        have sameNext := Function.update_eq_self pdc.allocated pdc.links.next
        have samePrev := Function.update_eq_self pdc.allocated pdc.links.prev
        rw [next] at sameNext
        rw [prev] at samePrev
        simp [Links.setNext, Links.setPrev, sameNext, samePrev]
      refine ⟨?_, accounts.counted, front.perm List.perm_middle.symm, ?_⟩
      · simp only [links]
        exact accounts.spelled
      · intro pdce used
        by_cases new : pdce = pdc.allocated
        · rw [new]
          exact Nat.lt_succ_self _
        · have still : Function.update pdc.heap pdc.allocated (some entry) pdce = pdc.heap pdce :=
            Function.update_of_ne new _ _
          have before := accounts.inUse pdce (still ▸ used)
          exact before.trans (Nat.lt_succ_self _)

theorem accounts_dcWriteStart (accounts : pdc.Accounts nodes others) (path : CString)
    (cFiles : Nat) :
    (pdc.dcWriteStart ph path cFiles).Returns fun answer =>
      ∃ rest, answer.2.Accounts rest (answer.1.toList ++ others) := by
  refine Prog.returns_bind.mpr (returns_orFault fun found taken => ?_)
  cases found with
  | none => exact (accounts_dceCreate accounts path cFiles).mono fun _ begun => ⟨nodes, begun⟩
  | some pdce =>
      have member := accounts.found taken
      refine Prog.returns_bind.mpr (returns_orFault fun entry _ => ?_)
      refine Prog.returns_bind.mpr (returns_orFault fun later removed => ?_)
      have cleared := accounts.stored (accounts.present member) { entry with aInfos := [] }
      exact ⟨_, cleared.removed member removed⟩

theorem accounts_dcWriteBegin (accounts : pdc.Accounts nodes others) (path : CString)
    (cFiles : Nat) :
    (pdc.dcWriteBegin ph path cFiles).Returns fun answer =>
      ∃ rest, answer.2.Accounts rest (answer.1.toList ++ others) := by
  unfold LinkedCache.dcWriteBegin
  split
  · exact ⟨nodes, accounts⟩
  · apply Prog.returns_bind.mpr
    apply (accounts_dcWriteStart accounts path cFiles).mono
    rintro ⟨started, later⟩ ⟨rest, begun⟩
    cases started with
    | none => exact ⟨rest, begun⟩
    | some pdce =>
        refine Prog.returns_bind.mpr (returns_orFault fun entry present => ?_)
        intro now
        have used : later.heap pdce ≠ none := present ▸ Option.some_ne_none entry
        exact ⟨rest, begun.stored used { entry with ulLastUpdateTime := now }⟩

theorem accounts_dircacheWriteBegin (accounts : pdc.Accounts nodes others) (state : FilelistState)
    (cFiles : Nat) :
    (pdc.dircacheWriteBegin ph state cFiles).Returns fun answer =>
      ∃ rest, answer.2.Accounts rest (answer.1.toList ++ others) := by
  unfold LinkedCache.dircacheWriteBegin
  cases dcCreateDirPath state with
  | none => exact ⟨nodes, accounts⟩
  | some path =>
      refine Prog.returns_bind.mpr (returns_orFault fun later evicted => ?_)
      obtain ⟨rest, fewer⟩ := accounts.evicted evicted
      exact accounts_dcWriteBegin fewer path cFiles

theorem accounts_dircacheWriteEntry (accounts : pdc.Accounts nodes others)
    (dircachectx : Option Address) (finfo : SmbwrpFileinfo) :
    (pdc.dircacheWriteEntry dircachectx finfo).Returns fun later => later.Accounts nodes others := by
  cases dircachectx with
  | none => exact accounts
  | some pdce =>
      refine Prog.returns_bind.mpr (returns_orFault fun entry present => ?_)
      refine Prog.returns_bind.mpr (Prog.returns_of_forall fun written => ?_)
      exact accounts.stored (present ▸ Option.some_ne_none entry) written

/-- The listing is linked, or freed where an entry of it was lost. -/
theorem accounts_dircacheWriteEnd {dircachectx : Option Address}
    (accounts : pdc.Accounts nodes (dircachectx.toList ++ others)) :
    (pdc.dircacheWriteEnd dircachectx).Returns fun later =>
      ∃ rest, later.Accounts rest others := by
  cases dircachectx with
  | none => trivial
  | some pdce =>
      refine Prog.returns_bind.mpr (returns_orFault fun entry present => ?_)
      split
      · refine returns_orFault fun later deleted => ?_
        exact ⟨nodes, accounts.deleted deleted⟩
      · refine Prog.returns_bind.mpr (Prog.returns_of_forall fun adjusted => ?_)
        refine returns_orFault fun later inserted => ?_
        have stored := accounts.stored (present ▸ Option.some_ne_none entry) adjusted
        exact ⟨pdce :: nodes, stored.inserted inserted⟩

/-- The walk frees what is linked and reads nothing that it has freed. -/
theorem dcDeleteFrom_eq {first : Option Address} {fuel : Nat}
    (visits : Visits pdc.links.next first nodes) (listed : Inventory pdc.heap (nodes ++ others))
    (enough : nodes.length ≤ fuel) :
    ∃ later, dcDeleteFrom fuel first pdc = some later ∧ Inventory later.heap others := by
  generalize same : pdc.links.next = next at visits
  induction visits generalizing pdc fuel with
  | stop => exact ⟨pdc, by cases fuel <;> rfl, listed⟩
  | @go iter rest behind ih =>
      cases fuel with
      | zero => simp at enough
      | succ fuel =>
          have present : pdc.heap iter ≠ none := (listed.inUse iter).mpr List.mem_cons_self
          have readable : pdc.reads (some iter) = true := Option.isSome_iff_ne_none.mpr present
          have freed : Inventory (pdc.store iter none).heap (rest ++ others) := listed.freed
          have shorter : rest.length ≤ fuel := by simpa using enough
          obtain ⟨later, deleted, left⟩ := ih freed shorter same
          refine ⟨later, ?_, left⟩
          rw [dcDeleteFrom, if_pos readable, LinkedCache.dceDelete, if_pos readable, same]
          exact deleted

theorem LinkedCache.Accounts.dcDelete_eq (accounts : pdc.Accounts nodes others) :
    ∃ heap, pdc.dcDelete = some heap ∧ Inventory heap others := by
  have walks := accounts.wellFormed.walks.forward
  obtain ⟨later, deleted, left⟩ :=
    dcDeleteFrom_eq walks accounts.listed accounts.wellFormed.length_le
  refine ⟨later.heap, ?_, left⟩
  rw [LinkedCache.dcDelete, deleted, Option.map_some]

end Accounts

/-! Any calls in any order. -/

def OwnedCache.contexts (cache : OwnedCache) : List Address :=
  cache.shared.sessions.filterMap id ++ cache.lost

def OwnedCache.Accounted (cache : OwnedCache) : Prop :=
  ∃ linked, cache.shared.pdc.Accounts linked cache.contexts

section Steps

variable {ph} {cache : OwnedCache} {fn : FilelistState → SmbwrpFileinfo → Program UInt32}

theorem filterMap_eraseIdx_perm {sessions : List (Option Address)} {place : Nat}
    {dircachectx : Option Address} (used : sessions[place]? = some dircachectx) :
    (sessions.filterMap id).Perm
      (dircachectx.toList ++ (sessions.eraseIdx place).filterMap id) := by
  obtain ⟨inside, rfl⟩ := List.getElem?_eq_some_iff.mp used
  have apart : sessions.Perm (sessions[place] :: sessions.eraseIdx place) :=
    (List.getElem_cons_eraseIdx_perm inside).symm
  have filtered := apart.filterMap id
  cases context : sessions[place] with
  | none =>
      rw [context] at filtered
      exact filtered
  | some pdce =>
      rw [context] at filtered
      exact filtered

theorem accounted_step (accounted : cache.Accounted) (call : SharedCall) :
    (ownedStep ph fn cache call).Returns fun answer => answer.2.Accounted := by
  obtain ⟨linked, accounts⟩ := accounted
  apply Prog.returns_bind.mpr
  cases call with
  | listFiles state =>
      simp only [linkedStep, LinkedCache.dircacheListFiles]
      cases dcCreateDirPath state with
      | none => exact ⟨linked, accounts⟩
      | some path =>
          apply Prog.returns_bind.mpr
          exact (accounts_dcRead accounts path (fn state) false).mono fun _ after => after
  | findPath path =>
      exact Prog.returns_bind.mpr (Prog.returns_of_forall fun _ => ⟨linked, accounts⟩)
  | invalidate path fParent =>
      refine Prog.returns_bind.mpr (returns_orFault fun later invalidated => ?_)
      exact accounts.invalidated invalidated
  | writeBegin state cFiles =>
      apply Prog.returns_bind.mpr
      apply (accounts_dircacheWriteBegin accounts state cFiles).mono
      rintro ⟨dircachectx, later⟩ ⟨rest, begun⟩
      have moved : (dircachectx.toList ++ cache.contexts).Perm
          ((cache.shared.sessions ++ [dircachectx]).filterMap id ++ cache.lost) := by
        have last : [dircachectx].filterMap id = dircachectx.toList := by cases dircachectx <;> rfl
        rw [List.filterMap_append, last, List.append_assoc]
        exact List.perm_append_comm_assoc _ _ _
      exact ⟨rest, begun.perm moved⟩
  | writeEntry place finfo =>
      simp only [linkedStep]
      split
      · trivial
      · rename_i dircachectx used
        apply Prog.returns_bind.mpr
        apply (accounts_dircacheWriteEntry accounts dircachectx finfo).mono
        intro later written
        exact ⟨linked, written⟩
  | writeEnd place =>
      simp only [linkedStep]
      split
      · trivial
      · rename_i dircachectx used
        have taken := (filterMap_eraseIdx_perm used).append_right cache.lost
        rw [List.append_assoc] at taken
        apply Prog.returns_bind.mpr
        exact (accounts_dircacheWriteEnd (accounts.perm taken)).mono fun _ after => after
  | abandon place =>
      refine ⟨linked, ?_⟩
      simp only [OwnedCache.contexts, LinkedShared.givenUp]
      cases used : cache.shared.sessions[place]? with
      | none =>
          have short : cache.shared.sessions.length ≤ place := List.getElem?_eq_none_iff.mp used
          rw [List.eraseIdx_of_length_le short]
          exact accounts
      | some dircachectx =>
          have taken := (filterMap_eraseIdx_perm used).append_right cache.lost
          rw [List.append_assoc] at taken
          exact accounts.perm (taken.trans (List.perm_append_comm_assoc _ _ _))

/-- In every state that the calls reach, in any order, each listing in memory is linked, or the
context of a session, or one that was given up, and of one of these only; deleting the cache
comes to its end and frees the linked ones, so that no others are left behind. -/
theorem listings_accounted {ulExpirationTime : UInt32} {cMaxEntries : Nat}
    {history : List (Taken Op SharedCall Unit)}
    (reached : Reaches (ownedStep ph fn) (fun _ _ => True)
      (emptyOwned ulExpirationTime cMaxEntries) history cache) :
    ∃ linked, cache.shared.pdc.links.Spells linked ∧ (linked ++ cache.contexts).Nodup ∧
      (∀ pdce, cache.shared.pdc.heap pdce ≠ none ↔ pdce ∈ linked ++ cache.contexts) ∧
      ∃ heap, cache.shared.pdc.dcDelete = some heap ∧
        ∀ pdce, heap pdce ≠ none ↔ pdce ∈ cache.contexts := by
  have empty : (emptyOwned ulExpirationTime cMaxEntries).Accounted :=
    ⟨[], Links.spells_nil, rfl, inventory_nil, fun _ used => absurd rfl used⟩
  obtain ⟨linked, accounts⟩ :=
    reached.invariant OwnedCache.Accounted empty fun _ call before _ => accounted_step before call
  obtain ⟨heap, deleted, left⟩ := accounts.dcDelete_eq
  exact ⟨linked, accounts.spelled, accounts.listed.once, accounts.listed.inUse, heap, deleted,
    left.inUse⟩

end Steps

theorem listings_accounted_lost :
    ∃ history cache, Reaches (ownedStep asciiPlatform noCallback) (fun _ _ => True)
      (emptyOwned 10 4) history cache ∧ cache.contexts = [1] ∧
      ∃ linked, cache.shared.pdc.links.Spells linked ∧ (linked ++ cache.contexts).Nodup ∧
        (∀ pdce, cache.shared.pdc.heap pdce ≠ none ↔ pdce ∈ linked ++ cache.contexts) ∧
        ∃ heap, cache.shared.pdc.dcDelete = some heap ∧
          ∀ pdce, heap pdce ≠ none ↔ pdce ∈ cache.contexts := by
  have created : Reaches (ownedStep asciiPlatform noCallback) (fun _ _ => True) (emptyOwned 10 4) []
      (emptyOwned 10 4) := .start
  have begun := created.executed usualReplies (.writeBegin directoryState 128) () _ trivial rfl
  have written := begun.executed usualReplies (.writeEntry 0 fileA) () _ trivial rfl
  have second := written.executed usualReplies (.writeBegin directoryState 128) () _ trivial rfl
  have ended := second.executed usualReplies (.writeEnd 0) () _ trivial rfl
  have lost := ended.executed usualReplies (.abandon 0) () _ trivial rfl
  exact ⟨_, _, lost, rfl, listings_accounted lost⟩

end NdpSmb
