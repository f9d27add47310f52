import Mathlib.Data.List.InsertIdx
import NdpSmb.DoublyLinked
import NdpSmb.SharedCache
import NdpSmb.Simulation

/-!
The cache as `dircache.c` keeps it in memory: the listings are linked by hand in both
directions, counted, and told apart by their addresses.
-/

namespace NdpSmb

open ByteString Interaction DoublyLinked

variable (ph : Platform)

/-- A `DirectoryCacheEntry` pointer other than NULL. -/
abbrev Address := Nat

/-- `heap` has what is behind the addresses in use; an address is not used twice. -/
structure LinkedCache where
  heap : Address → Option DirectoryCacheEntry := fun _ => none
  allocated : Nat := 0
  links : Links Address := {}
  cEntries : Int := 0
  fEnabled : Bool := false
  ulExpirationTime : UInt32
  cMaxEntries : Nat

def orFault {α : Type} : Option α → Program α
  | none => .fault
  | some value => pure value

namespace LinkedCache

def store (pdc : LinkedCache) (pdce : Address) (entry : Option DirectoryCacheEntry) :
    LinkedCache :=
  { pdc with heap := Function.update pdc.heap pdce entry }

def reads (pdc : LinkedCache) : Option Address → Bool
  | none => true
  | some pdce => (pdc.heap pdce).isSome

def dceDelete (pdc : LinkedCache) (pdce : Address) : Option LinkedCache :=
  if pdc.reads (some pdce) then some (pdc.store pdce none) else none

def matchesAt (pdc : LinkedCache) (matching : DirectoryCacheEntry → Bool) (pdce : Address) :
    Bool :=
  (pdc.heap pdce).any matching

/-- The walk along `pNext`; one that is longer than there are listings does not end. -/
def findFrom (pdc : LinkedCache) (matching : DirectoryCacheEntry → Bool) :
    Nat → Option Address → Option (Option Address)
  | _, none => some none
  | 0, some _ => none
  | fuel + 1, some iter =>
      match pdc.heap iter with
      | none => none
      | some entry =>
          if matching entry then some (some iter)
          else findFrom pdc matching fuel (pdc.links.next iter)

def dcFindDirCache (pdc : LinkedCache) (path : CString) (fPrefix : Bool) :
    Option (Option Address) :=
  pdc.findFrom (dcMatches ph path fPrefix) pdc.allocated pdc.links.head

def dcRemoveEntry (pdc : LinkedCache) (pdce : Address) : Option LinkedCache :=
  if pdc.reads (some pdce) && pdc.reads (pdc.links.next pdce) && pdc.reads (pdc.links.prev pdce)
  then some { pdc with links := pdc.links.unlink pdce, cEntries := pdc.cEntries - 1 }
  else none

def dcInsertEntry (pdc : LinkedCache) (pdce : Address) : Option LinkedCache :=
  if pdc.reads (some pdce) && pdc.reads pdc.links.head
  then some { pdc with links := pdc.links.pushFront pdce, cEntries := pdc.cEntries + 1 }
  else none

/-- `dcRemoveEntry` and then `dceDelete`. -/
def discard (pdc : LinkedCache) (pdce : Address) : Option LinkedCache :=
  (pdc.dcRemoveEntry pdce).bind fun pdc => pdc.dceDelete pdce

/-- A new listing at an address that was not in use, with both links NULL. -/
def dceCreate (pdc : LinkedCache) (path : CString) (cFiles : Nat) :
    Program (Option Address × LinkedCache) := do
  let created ← NdpSmb.dceCreate path cFiles
  match created with
  | none => pure (none, pdc)
  | some entry => pure (some pdc.allocated,
      { pdc.store pdc.allocated (some entry) with
        allocated := pdc.allocated + 1
        links := (pdc.links.setNext pdc.allocated none).setPrev pdc.allocated none })

def dcRead (pdc : LinkedCache) (path : CString) (fn : SmbwrpFileinfo → Program UInt32)
    (fForceCache : Bool) : Program (Option Nat × LinkedCache) :=
  if pdc.fEnabled = false then pure (none, pdc) else do
    let found ← orFault (pdc.dcFindDirCache ph path false)
    match found with
    | none => pure (none, pdc)
    | some pdce => do
        let entry ← orFault (pdc.heap pdce)
        if fForceCache then do
          addEach fn entry.aInfos
          pure (some entry.aInfos.length, pdc)
        else do
          let now ← perform Op.timesec
          if dceExpired now entry pdc.ulExpirationTime then do
            let pdc ← orFault (pdc.discard pdce)
            pure (none, pdc)
          else do
            addEach fn entry.aInfos
            pure (some entry.aInfos.length, pdc)

def dcWriteStart (pdc : LinkedCache) (path : CString) (cFiles : Nat) :
    Program (Option Address × LinkedCache) := do
  let found ← orFault (pdc.dcFindDirCache ph path false)
  match found with
  | none => pdc.dceCreate path cFiles
  | some pdce => do
      let entry ← orFault (pdc.heap pdce)
      let pdc ← orFault ((pdc.store pdce (some { entry with aInfos := [] })).dcRemoveEntry pdce)
      pure (some pdce, pdc)

def dcWriteBegin (pdc : LinkedCache) (path : CString) (cFiles : Nat) :
    Program (Option Address × LinkedCache) :=
  if pdc.fEnabled = false then pure (none, pdc) else do
    let (pdce, pdc) ← pdc.dcWriteStart ph path cFiles
    match pdce with
    | none => pure (none, pdc)
    | some pdce => do
        let entry ← orFault (pdc.heap pdce)
        let now ← perform Op.timesec
        pure (some pdce, pdc.store pdce (some { entry with ulLastUpdateTime := now }))

/-- Every pass takes out one of the listings that were ever made. -/
def dcInvalidateLoop (matching : DirectoryCacheEntry → Bool) :
    Nat → LinkedCache → Option LinkedCache
  | 0, _ => none
  | fuel + 1, pdc =>
      match pdc.findFrom matching pdc.allocated pdc.links.head with
      | none => none
      | some none => some pdc
      | some (some pdce) => (pdc.discard pdce).bind (dcInvalidateLoop matching fuel)

def dcInvalidate (pdc : LinkedCache) (path : CString) (fPrefix : Bool) : Option LinkedCache :=
  dcInvalidateLoop (dcMatches ph path fPrefix) (pdc.allocated + 1) pdc

def lookupFrom (pdc : LinkedCache) (parent name : CString) :
    Nat → Option Address → Option (Option (SmbwrpFileinfo × DirectoryCacheEntry))
  | _, none => some none
  | 0, some _ => none
  | fuel + 1, some pdce =>
      match pdc.heap pdce with
      | none => none
      | some entry =>
          match (if dcMatches ph parent false entry then
            entry.aInfos.find? (fun finfo => ph.SameName finfo.fname name) else none) with
          | some finfo => some (some (finfo, entry))
          | none => lookupFrom pdc parent name fuel (pdc.links.next pdce)

def dcFindPath (pdc : LinkedCache) (parent name : CString) :
    Program (Option (SmbwrpFileinfo × UInt32)) := do
  let found ← orFault (pdc.lookupFrom ph parent name pdc.allocated pdc.links.head)
  match found with
  | none => pure none
  | some (finfo, entry) => do
      let now ← perform Op.timesec
      pure (some (finfo, now - entry.ulLastUpdateTime))

def dircacheListFiles (pdc : LinkedCache) (state : FilelistState)
    (fn : SmbwrpFileinfo → Program UInt32) : Program (Option Nat × LinkedCache) :=
  match dcCreateDirPath state with
  | none => pure (none, pdc)
  | some path => pdc.dcRead ph path fn false

/-- A full cache gives up the listing at its tail. -/
def dcEvict (pdc : LinkedCache) : Option LinkedCache :=
  if pdc.cEntries ≥ pdc.cMaxEntries then pdc.links.tail.bind pdc.discard else some pdc

def dircacheWriteBegin (pdc : LinkedCache) (state : FilelistState) (cFiles : Nat) :
    Program (Option Address × LinkedCache) :=
  match dcCreateDirPath state with
  | none => pure (none, pdc)
  | some path => do
      let pdc ← orFault pdc.dcEvict
      pdc.dcWriteBegin ph path cFiles

def dircacheWriteEntry (pdc : LinkedCache) (dircachectx : Option Address)
    (finfo : SmbwrpFileinfo) : Program LinkedCache :=
  match dircachectx with
  | none => pure pdc
  | some pdce => do
      let entry ← orFault (pdc.heap pdce)
      let entry ← dceWriteEntry entry finfo
      pure (pdc.store pdce (some entry))

def dircacheWriteEnd (pdc : LinkedCache) (dircachectx : Option Address) : Program LinkedCache :=
  match dircachectx with
  | none => .fault
  | some pdce => do
      let entry ← orFault (pdc.heap pdce)
      if entry.fInvalid then orFault (pdc.dceDelete pdce)
      else do
        let entry ← dceAdjust entry
        orFault ((pdc.store pdce (some entry)).dcInsertEntry pdce)

def dircacheInvalidate (path : CString) (pdc : LinkedCache) (fParent : Bool) :
    Option LinkedCache :=
  pdc.dcInvalidate ph (if fParent then parentPath path else path) false

def dircacheFindPath (pdc : LinkedCache) (path : CString) :
    Program (Option (SmbwrpFileinfo × UInt32)) :=
  if hasWildcard path then pure none else pdc.dcFindPath ph (parentPath path) (lastName path)

end LinkedCache

structure LinkedShared where
  pdc : LinkedCache
  sessions : List (Option Address) := []

def linkedStep (fn : FilelistState → SmbwrpFileinfo → Program UInt32) (shared : LinkedShared) :
    SharedCall → Program (Unit × LinkedShared)
  | .listFiles state => do
      let (_, pdc) ← shared.pdc.dircacheListFiles ph state (fn state)
      pure ((), { shared with pdc })
  | .findPath path => do
      let _ ← shared.pdc.dircacheFindPath ph path
      pure ((), shared)
  | .invalidate path fParent => do
      let pdc ← orFault (shared.pdc.dircacheInvalidate ph path fParent)
      pure ((), { shared with pdc })
  | .writeBegin state cFiles => do
      let (dircachectx, pdc) ← shared.pdc.dircacheWriteBegin ph state cFiles
      pure ((), { pdc, sessions := shared.sessions ++ [dircachectx] })
  | .writeEntry place finfo =>
      match shared.sessions[place]? with
      | none => .fault
      | some dircachectx => do
          let pdc ← shared.pdc.dircacheWriteEntry dircachectx finfo
          pure ((), { shared with pdc })
  | .writeEnd place =>
      match shared.sessions[place]? with
      | none => .fault
      | some dircachectx => do
          let pdc ← shared.pdc.dircacheWriteEnd dircachectx
          pure ((), { pdc, sessions := shared.sessions.eraseIdx place })
  | .abandon place => pure ((), { shared with sessions := shared.sessions.eraseIdx place })

def emptyLinked (ulExpirationTime : UInt32) (cMaxEntries : Nat) : LinkedShared :=
  { pdc := { fEnabled := true, ulExpirationTime, cMaxEntries } }

/-! What the links and the memory behind them stand for. -/

/-- The links, the count and the memory behind them fit together. -/
structure LinkedCache.WellFormed (pdc : LinkedCache) (nodes : List Address) : Prop where
  walks : pdc.links.Walks nodes
  counted : pdc.cEntries = nodes.length
  present : ∀ pdce ∈ nodes, pdc.heap pdce ≠ none
  inUse : ∀ pdce ∈ nodes, pdce < pdc.allocated

/-- The linked listings, by address, are those of the cache in the order of `pNext`. -/
structure LinkedCache.Represents (pdc : LinkedCache) (nodes : List Address)
    (cache : DirectoryCache) : Prop where
  spelled : pdc.links.Spells nodes
  content : List.Forall₂ (fun pdce entry => pdc.heap pdce = some entry) nodes cache.entries
  counted : pdc.cEntries = nodes.length
  fEnabled : pdc.fEnabled = cache.fEnabled
  ulExpirationTime : pdc.ulExpirationTime = cache.ulExpirationTime
  cMaxEntries : pdc.cMaxEntries = cache.cMaxEntries
  inUse : ∀ pdce, pdc.heap pdce ≠ none → pdce < pdc.allocated

/-- The contexts of the threads, each with what it has been written so far. -/
structure LinkedShared.Abstracts (shared : LinkedShared) (nodes : List Address)
    (image : SharedCache) : Prop where
  cached : ∃ cache, image.pdc = some cache ∧ shared.pdc.Represents nodes cache
  written : image.sessions = shared.sessions.map fun dircachectx => dircachectx.bind shared.pdc.heap
  present : ∀ pdce, some pdce ∈ shared.sessions → shared.pdc.heap pdce ≠ none
  apart : (shared.sessions.filterMap id ++ nodes).Nodup

/-- Some of the listings are taken out, and nothing else is touched. -/
structure LinkedCache.Shrinks (pdc later : LinkedCache) (nodes rest : List Address)
    (cache : DirectoryCache) : Prop where
  represents : later.Represents rest cache
  part : rest.Sublist nodes
  frame : ∀ pdce, pdce ∉ nodes → pdce < pdc.allocated → later.heap pdce = pdc.heap pdce
  grows : pdc.allocated ≤ later.allocated

section Represents

variable {ph} {pdc later : LinkedCache} {nodes rest : List Address} {cache : DirectoryCache}
  {pdce : Address} {entry : DirectoryCacheEntry}

open LinkedCache

theorem heap_of_mem {entries : List DirectoryCacheEntry}
    (content : List.Forall₂ (fun pdce entry => pdc.heap pdce = some entry) nodes entries)
    (member : pdce ∈ nodes) : ∃ entry ∈ entries, pdc.heap pdce = some entry := by
  induction content with
  | nil => simp at member
  | cons here rest ih =>
      rcases List.mem_cons.mp member with rfl | inside
      · exact ⟨_, List.mem_cons_self, here⟩
      · obtain ⟨entry, inside, found⟩ := ih inside
        exact ⟨entry, List.mem_cons_of_mem _ inside, found⟩

theorem content_congr {heap : Address → Option DirectoryCacheEntry}
    {entries : List DirectoryCacheEntry}
    (content : List.Forall₂ (fun pdce entry => pdc.heap pdce = some entry) nodes entries)
    (same : ∀ pdce ∈ nodes, heap pdce = pdc.heap pdce) :
    List.Forall₂ (fun pdce entry => heap pdce = some entry) nodes entries := by
  induction content with
  | nil => exact .nil
  | @cons pdce entry nodes entries here rest ih =>
      refine .cons ((same pdce List.mem_cons_self).trans here) (ih fun other inside => ?_)
      exact same other (List.mem_cons_of_mem _ inside)

theorem LinkedCache.Represents.wellFormed (represents : pdc.Represents nodes cache) :
    pdc.WellFormed nodes where
  walks := represents.spelled.walks
  counted := represents.counted
  present pdce member := by
    obtain ⟨entry, -, found⟩ := heap_of_mem represents.content member
    simp [found]
  inUse pdce member := by
    obtain ⟨entry, -, found⟩ := heap_of_mem represents.content member
    exact represents.inUse pdce (by simp [found])

theorem LinkedCache.WellFormed.length_le (wellFormed : pdc.WellFormed nodes) :
    nodes.length ≤ pdc.allocated := by
  have inside : nodes ⊆ List.range pdc.allocated := fun pdce member =>
    List.mem_range.mpr (wellFormed.inUse pdce member)
  have short := List.Nodup.length_le_of_subset wellFormed.walks.forward.nodup inside
  rwa [List.length_range] at short

theorem findFrom_eq (matching : DirectoryCacheEntry → Bool) {first : Option Address}
    (visits : Visits pdc.links.next first nodes) (present : ∀ pdce ∈ nodes, pdc.heap pdce ≠ none)
    (fuel : Nat) (enough : nodes.length ≤ fuel) :
    pdc.findFrom matching fuel first = some (nodes.find? (pdc.matchesAt matching)) := by
  induction visits generalizing fuel with
  | stop => cases fuel <;> rfl
  | @go pdce rest _ ih =>
      cases fuel with
      | zero => simp at enough
      | succ fuel =>
          obtain ⟨entry, found⟩ :=
            Option.ne_none_iff_exists'.mp (present pdce List.mem_cons_self)
          have further := ih (fun other inside => present other (List.mem_cons_of_mem _ inside))
            fuel (by simpa using enough)
          simp only [findFrom, found]
          by_cases matched : matching entry = true
          · have here : pdc.matchesAt matching pdce = true := by simp [matchesAt, found, matched]
            rw [if_pos matched, List.find?_cons_of_pos here]
          · have missed : ¬ pdc.matchesAt matching pdce = true := by
              simpa [matchesAt, found] using matched
            rw [List.find?_cons_of_neg missed, if_neg matched, further]

theorem LinkedCache.WellFormed.find_eq (wellFormed : pdc.WellFormed nodes)
    (matching : DirectoryCacheEntry → Bool) :
    pdc.findFrom matching pdc.allocated pdc.links.head =
      some (nodes.find? (pdc.matchesAt matching)) :=
  findFrom_eq matching wellFormed.walks.forward wellFormed.present _ wellFormed.length_le

theorem LinkedCache.WellFormed.reads_link (wellFormed : pdc.WellFormed nodes)
    {link : Option Address} (inside : ∀ other, link = some other → other ∈ nodes) :
    pdc.reads link = true := by
  cases link with
  | none => rfl
  | some other => exact Option.isSome_iff_ne_none.mpr (wellFormed.present other (inside other rfl))

theorem LinkedCache.WellFormed.reads_of_mem (wellFormed : pdc.WellFormed nodes)
    (member : pdce ∈ nodes) : pdc.reads (some pdce) = true :=
  wellFormed.reads_link fun _ same => Option.some.inj same ▸ member

theorem LinkedCache.WellFormed.remove_eq (wellFormed : pdc.WellFormed nodes)
    (member : pdce ∈ nodes) :
    pdc.dcRemoveEntry pdce =
      some { pdc with links := pdc.links.unlink pdce, cEntries := pdc.cEntries - 1 } := by
  have here := wellFormed.reads_of_mem member
  have behind := wellFormed.reads_link fun _ follows => wellFormed.walks.next_mem member follows
  have before := wellFormed.reads_link fun _ precedes => wellFormed.walks.prev_mem member precedes
  simp [dcRemoveEntry, here, behind, before]

theorem LinkedCache.WellFormed.discard_eq (wellFormed : pdc.WellFormed nodes)
    (member : pdce ∈ nodes) :
    pdc.discard pdce = some (LinkedCache.store
      { pdc with links := pdc.links.unlink pdce, cEntries := pdc.cEntries - 1 } pdce none) := by
  have still : LinkedCache.reads
      { pdc with links := pdc.links.unlink pdce, cEntries := pdc.cEntries - 1 }
      (some pdce) = true := wellFormed.reads_of_mem member
  rw [discard, wellFormed.remove_eq member, Option.bind_some, LinkedCache.dceDelete, if_pos still]

theorem find_content (matching : DirectoryCacheEntry → Bool) {entries : List DirectoryCacheEntry}
    (content : List.Forall₂ (fun pdce entry => pdc.heap pdce = some entry) nodes entries) :
    (nodes.find? (pdc.matchesAt matching) = none ∧
        entries.find? matching = none) ∨
      ∃ pdce entry, nodes.find? (pdc.matchesAt matching) = some pdce ∧
        entries.find? matching = some entry ∧ pdc.heap pdce = some entry ∧
        List.Forall₂ (fun pdce entry => pdc.heap pdce = some entry) (nodes.erase pdce)
          (entries.eraseP matching) := by
  induction content with
  | nil => exact .inl ⟨rfl, rfl⟩
  | @cons pdce entry nodes entries here rest ih =>
      by_cases matched : matching entry = true
      · have hit : pdc.matchesAt matching pdce = true := by simp [matchesAt, here, matched]
        refine .inr ⟨pdce, entry, List.find?_cons_of_pos hit, List.find?_cons_of_pos matched,
          here, ?_⟩
        rwa [List.erase_cons_head, List.eraseP_cons_of_pos matched]
      · have missed : ¬ pdc.matchesAt matching pdce = true := by
          simpa [matchesAt, here] using matched
        rw [List.find?_cons_of_neg missed, List.find?_cons_of_neg matched,
          List.eraseP_cons_of_neg matched]
        rcases ih with ⟨none_here, none_there⟩ | ⟨other, found, foundHere, foundThere, back, erased⟩
        · exact .inl ⟨none_here, none_there⟩
        · refine .inr ⟨other, found, foundHere, foundThere, back, ?_⟩
          have apart : ¬ (pdce == other) = true := by
            intro same
            rw [beq_iff_eq.mp same] at missed
            exact missed (List.find?_some foundHere)
          rw [List.erase_cons_tail apart]
          exact .cons here erased

theorem LinkedCache.Represents.removed (represents : pdc.Represents nodes cache)
    (member : pdce ∈ nodes) {entries : List DirectoryCacheEntry}
    (erased : List.Forall₂ (fun pdce entry => pdc.heap pdce = some entry) (nodes.erase pdce)
      entries) :
    LinkedCache.Represents
      { pdc with links := pdc.links.unlink pdce, cEntries := pdc.cEntries - 1 }
      (nodes.erase pdce) { cache with entries } where
  spelled := represents.spelled.unlink member
  content := erased
  counted := by
    have present := List.length_pos_of_mem member
    have counted := represents.counted
    rw [List.length_erase_of_mem member]
    simp only
    omega
  fEnabled := represents.fEnabled
  ulExpirationTime := represents.ulExpirationTime
  cMaxEntries := represents.cMaxEntries
  inUse := represents.inUse

theorem LinkedCache.Represents.stored (represents : pdc.Represents nodes cache)
    (absent : pdce ∉ nodes) {stored : Option DirectoryCacheEntry}
    (inUse : stored ≠ none → pdce < pdc.allocated) :
    (pdc.store pdce stored).Represents nodes cache where
  spelled := represents.spelled
  content := by
    refine content_congr represents.content fun other member => ?_
    have apart : other ≠ pdce := fun same => absent (same ▸ member)
    exact Function.update_of_ne apart _ _
  counted := represents.counted
  fEnabled := represents.fEnabled
  ulExpirationTime := represents.ulExpirationTime
  cMaxEntries := represents.cMaxEntries
  inUse other present := by
    by_cases same : other = pdce
    · rw [same] at present ⊢
      exact inUse (by simpa [store] using present)
    · exact represents.inUse other (by simpa [store, same] using present)

theorem LinkedCache.Represents.not_mem_erase (represents : pdc.Represents nodes cache) :
    pdce ∉ nodes.erase pdce :=
  List.Nodup.not_mem_erase represents.spelled.nodup

theorem LinkedCache.Represents.discarded (represents : pdc.Represents nodes cache)
    (member : pdce ∈ nodes) {entries : List DirectoryCacheEntry}
    (erased : List.Forall₂ (fun pdce entry => pdc.heap pdce = some entry) (nodes.erase pdce)
      entries) :
    ∃ later, pdc.discard pdce = some later ∧ later.heap pdce = none ∧
      pdc.Shrinks later nodes (nodes.erase pdce) { cache with entries } := by
  have removed := represents.removed member erased
  have stored : LinkedCache.Represents
      (LinkedCache.store { pdc with links := pdc.links.unlink pdce, cEntries := pdc.cEntries - 1 }
        pdce none) (nodes.erase pdce) { cache with entries } :=
    removed.stored represents.not_mem_erase fun freed => absurd rfl freed
  refine ⟨_, ?_, ?_, stored, List.erase_sublist, fun other absent _ => ?_, le_refl _⟩
  · exact represents.wellFormed.discard_eq member
  · exact Function.update_self _ _ _
  · have apart : other ≠ pdce := fun same => absent (same ▸ member)
    exact Function.update_of_ne apart _ _

theorem LinkedCache.Shrinks.refl (represents : pdc.Represents nodes cache) :
    pdc.Shrinks pdc nodes nodes cache :=
  ⟨represents, .refl _, fun _ _ _ => rfl, le_refl _⟩

theorem LinkedCache.Shrinks.trans {last : LinkedCache} {fewer : List Address}
    {between : DirectoryCache} (first : pdc.Shrinks later nodes rest between)
    (second : later.Shrinks last rest fewer cache) : pdc.Shrinks last nodes fewer cache where
  represents := second.represents
  part := second.part.trans first.part
  frame pdce absent inUse := by
    have still := first.frame pdce absent inUse
    rw [← still]
    exact second.frame pdce (fun inside => absent (first.part.subset inside))
      (inUse.trans_le first.grows)
  grows := first.grows.trans second.grows

theorem LinkedCache.Represents.inserted (represents : pdc.Represents nodes cache)
    (absent : pdce ∉ nodes) (present : pdc.heap pdce = some entry) :
    ∃ later, pdc.dcInsertEntry pdce = some later ∧ later.heap = pdc.heap ∧
      later.Represents (pdce :: nodes) (NdpSmb.dcInsertEntry cache entry) := by
  have here : pdc.reads (some pdce) = true := by simp [reads, present]
  have front : pdc.reads pdc.links.head = true := by
    refine represents.wellFormed.reads_link fun other head => ?_
    rw [represents.spelled.forward.first_eq] at head
    exact List.mem_of_mem_head? head
  refine ⟨{ pdc with links := pdc.links.pushFront pdce, cEntries := pdc.cEntries + 1 }, ?_, rfl, ?_⟩
  · rw [LinkedCache.dcInsertEntry, here, front]
    rfl
  exact {
    spelled := represents.spelled.pushFront absent
    content := .cons present represents.content
    counted := by
      rw [List.length_cons, represents.counted]
      push_cast
      rfl
    fEnabled := represents.fEnabled
    ulExpirationTime := represents.ulExpirationTime
    cMaxEntries := represents.cMaxEntries
    inUse := represents.inUse }

/-! Each function on the links is the one on the list. -/

theorem related_orFault {α γ δ : Type} {same : γ → δ → Prop} {value : α} {option : Option α}
    {follow : α → Program γ} {other : Program δ} (some_eq : option = some value)
    (next : Related same (follow value) other) :
    Related same (orFault option >>= follow) other := by
  rw [some_eq]
  exact next

theorem related_dcRead (represents : pdc.Represents nodes cache) (path : CString)
    (fn : SmbwrpFileinfo → Program UInt32) (fForceCache : Bool) :
    Related (fun left right => left.1 = right.1 ∧
        ∃ rest, pdc.Shrinks left.2 nodes rest right.2)
      (pdc.dcRead ph path fn fForceCache) (NdpSmb.dcRead ph cache path fn fForceCache) := by
  have same : pdc.Shrinks pdc nodes nodes cache := .refl represents
  unfold LinkedCache.dcRead NdpSmb.dcRead
  rw [represents.fEnabled, represents.ulExpirationTime]
  split
  · exact .ret ⟨rfl, nodes, same⟩
  · refine related_orFault (represents.wellFormed.find_eq (dcMatches ph path false)) ?_
    rcases find_content (dcMatches ph path false) represents.content with
      ⟨missing, absent⟩ | ⟨pdce, entry, found, foundThere, present, erased⟩
    · simp only [missing, dcFindDirCache, absent]
      exact .ret ⟨rfl, nodes, same⟩
    · simp only [found, dcFindDirCache, foundThere]
      refine related_orFault present ?_
      split
      · exact (Related.refl (addEach fn entry.aInfos)).bind fun _ _ _ => .ret ⟨rfl, nodes, same⟩
      · refine .call fun now => ?_
        change Related _ (if dceExpired now entry cache.ulExpirationTime = true then _ else _)
          (if dceExpired now entry cache.ulExpirationTime = true then _ else _)
        split
        · have member := List.mem_of_find?_eq_some found
          obtain ⟨later, taken, -, shrinks⟩ := represents.discarded member erased
          exact related_orFault taken (.ret ⟨rfl, _, shrinks⟩)
        · exact (Related.refl (addEach fn entry.aInfos)).bind fun _ _ _ =>
            .ret ⟨rfl, nodes, same⟩

theorem LinkedCache.Represents.invalidated (matching : DirectoryCacheEntry → Bool) (fuel : Nat)
    (represents : pdc.Represents nodes cache) (enough : nodes.length < fuel) :
    ∃ later rest, dcInvalidateLoop matching fuel pdc = some later ∧
      pdc.Shrinks later nodes rest
        { cache with entries := cache.entries.filter fun entry => !matching entry } := by
  induction fuel generalizing pdc nodes cache with
  | zero => omega
  | succ fuel ih =>
      rw [LinkedCache.dcInvalidateLoop, represents.wellFormed.find_eq matching]
      rcases find_content matching represents.content with
        ⟨missing, absent⟩ | ⟨pdce, entry, found, foundThere, present, erased⟩
      · have kept : (cache.entries.filter fun entry => !matching entry) = cache.entries := by
          refine List.filter_eq_self.mpr fun entry member => ?_
          simpa using List.find?_eq_none.mp absent entry member
        rw [missing, kept]
        exact ⟨pdc, nodes, rfl, .refl represents⟩
      · have member := List.mem_of_find?_eq_some found
        obtain ⟨between, taken, -, shrinks⟩ := represents.discarded member erased
        have present := List.length_pos_of_mem member
        have shorter : (nodes.erase pdce).length < fuel := by
          rw [List.length_erase_of_mem member]
          omega
        obtain ⟨later, rest, done, more⟩ := ih shrinks.represents shorter
        rw [filter_eraseP] at more
        rw [found]
        refine ⟨later, rest, ?_, shrinks.trans more⟩
        change (pdc.discard pdce).bind (dcInvalidateLoop matching fuel) = some later
        rw [taken]
        exact done

theorem LinkedCache.Represents.dcInvalidate_eq (represents : pdc.Represents nodes cache)
    (path : CString) (fPrefix : Bool) :
    ∃ later rest, pdc.dcInvalidate ph path fPrefix = some later ∧
      pdc.Shrinks later nodes rest (NdpSmb.dcInvalidate ph cache path fPrefix) := by
  have enough : nodes.length < pdc.allocated + 1 := by
    have short := represents.wellFormed.length_le
    omega
  obtain ⟨later, rest, done, shrinks⟩ :=
    represents.invalidated (dcMatches ph path fPrefix) (pdc.allocated + 1) enough
  refine ⟨later, rest, done, ?_⟩
  have same : NdpSmb.dcInvalidate ph cache path fPrefix = { cache with
      entries := cache.entries.filter fun entry => !dcMatches ph path fPrefix entry } := by
    rw [← dcInvalidate_entries]
    rfl
  rwa [same]

theorem lookupFrom_eq (parent name : CString) {first : Option Address}
    {entries : List DirectoryCacheEntry} (visits : Visits pdc.links.next first nodes)
    (content : List.Forall₂ (fun pdce entry => pdc.heap pdce = some entry) nodes entries)
    (fuel : Nat) (enough : nodes.length ≤ fuel) :
    pdc.lookupFrom ph parent name fuel first =
      some (entries.findSome? fun entry => if dcMatches ph parent false entry then
        (entry.aInfos.find? fun finfo => ph.SameName finfo.fname name).map fun finfo =>
          (finfo, entry) else none) := by
  induction visits generalizing entries fuel with
  | stop =>
      cases content
      cases fuel <;> rfl
  | @go pdce rest _ ih =>
      cases content with
      | @cons _ entry _ entries here rest =>
          cases fuel with
          | zero => simp at enough
          | succ fuel =>
              have further := ih rest fuel (by simpa using enough)
              simp only [lookupFrom, here]
              by_cases matched : dcMatches ph parent false entry = true
              · rw [if_pos matched]
                cases found : entry.aInfos.find? (fun finfo => ph.SameName finfo.fname name) with
                | none => simp [further, matched, found]
                | some finfo => simp [matched, found]
              · rw [if_neg matched]
                simp [further, matched]

theorem related_dcFindPath (represents : pdc.Represents nodes cache) (parent name : CString) :
    Related Eq (pdc.dcFindPath ph parent name) (NdpSmb.dcFindPath ph cache parent name) := by
  have found : pdc.lookupFrom ph parent name pdc.allocated pdc.links.head =
      some (dcLookup ph cache parent name) :=
    lookupFrom_eq parent name represents.wellFormed.walks.forward represents.content _
      represents.wellFormed.length_le
  refine related_orFault found ?_
  unfold NdpSmb.dcFindPath
  cases dcLookup ph cache parent name with
  | none => exact .ret rfl
  | some found => exact Related.refl _

theorem LinkedCache.Represents.evicts (represents : pdc.Represents nodes cache)
    {init : List Address} {last : Address} (split : nodes = init ++ [last])
    (full : pdc.cEntries ≥ pdc.cMaxEntries) :
    ∃ later, pdc.dcEvict = some later ∧ pdc.links.tail = some last ∧ later.heap last = none ∧
      pdc.Shrinks later nodes init { cache with entries := cache.entries.dropLast } := by
  have content := represents.content
  have member : last ∈ nodes := by simp [split]
  have absent : last ∉ init := fun inside => by
    have apart := represents.spelled.nodup
    rw [split] at apart
    exact (List.nodup_append.mp apart).2.2 last inside last List.mem_cons_self rfl
  have erase : nodes.erase last = init := by
    rw [split, List.erase_append_right _ absent]
    simp
  have dropped : nodes.dropLast = init := by simp [split]
  have erased : List.Forall₂ (fun pdce entry => pdc.heap pdce = some entry)
      (nodes.erase last) cache.entries.dropLast := by
    rw [erase, ← dropped, List.dropLast_eq_take, List.dropLast_eq_take, content.length_eq]
    exact List.forall₂_take _ content
  have tail : pdc.links.tail = some last := by
    rw [represents.spelled.backward.first_eq, List.head?_reverse, split, List.getLast?_concat]
  obtain ⟨later, taken, freed, shrinks⟩ := represents.discarded member erased
  rw [erase] at shrinks
  refine ⟨later, ?_, tail, freed, shrinks⟩
  rw [LinkedCache.dcEvict, if_pos full, tail, Option.bind_some]
  exact taken

theorem LinkedCache.Represents.evicted (represents : pdc.Represents nodes cache) :
    (pdc.dcEvict = none ∧ NdpSmb.dcEvict cache = none) ∨
      ∃ later rest kept, pdc.dcEvict = some later ∧ NdpSmb.dcEvict cache = some kept ∧
        pdc.Shrinks later nodes rest kept := by
  have counted : pdc.cEntries ≥ pdc.cMaxEntries ↔ cache.entries.length ≥ cache.cMaxEntries := by
    rw [represents.counted, represents.cMaxEntries, represents.content.length_eq]
    exact Int.ofNat_le
  have content := represents.content
  by_cases full : cache.entries.length ≥ cache.cMaxEntries
  · rcases List.eq_nil_or_concat nodes with empty | ⟨init, last, split⟩
    · rw [empty] at content
      have none_there : cache.entries = [] := List.forall₂_nil_left_iff.mp content
      refine .inl ⟨?_, ?_⟩
      · rw [LinkedCache.dcEvict, if_pos (counted.mpr full),
          represents.spelled.backward.first_eq, empty]
        rfl
      · rw [NdpSmb.dcEvict, if_pos full, if_pos none_there]
    · rw [List.concat_eq_append] at split
      have member : last ∈ nodes := by simp [split]
      obtain ⟨entry, inside, -⟩ := heap_of_mem content member
      obtain ⟨later, taken, -, -, shrinks⟩ := represents.evicts split (counted.mpr full)
      refine .inr ⟨later, _, _, taken, ?_, shrinks⟩
      rw [NdpSmb.dcEvict, if_pos full, if_neg (List.ne_nil_of_mem inside)]
  · refine .inr ⟨pdc, nodes, cache, ?_, ?_, .refl represents⟩
    · rw [LinkedCache.dcEvict, if_neg (mt counted.mp full)]
    · rw [NdpSmb.dcEvict, if_neg full]

/-- What a session begins with is out of the list, at an address that nothing else has. -/
structure LinkedCache.Begins (pdc later : LinkedCache) (nodes : List Address)
    (dircachectx : Option Address) (begun : Option DirectoryCacheEntry)
    (cache : DirectoryCache) : Prop where
  shrinks : ∃ rest, pdc.Shrinks later nodes rest cache ∧ ∀ pdce, dircachectx = some pdce → pdce ∉ rest
  begun : begun = dircachectx.bind later.heap
  present : ∀ pdce, dircachectx = some pdce → later.heap pdce ≠ none
  apart : ∀ pdce, dircachectx = some pdce → pdce ∈ nodes ∨ pdc.allocated ≤ pdce

theorem related_dceCreate (represents : pdc.Represents nodes cache) (path : CString)
    (cFiles : Nat) :
    Related (fun left right => pdc.Begins left.2 nodes left.1 right.1 right.2)
      (pdc.dceCreate path cFiles) (do
        let pdce ← NdpSmb.dceCreate path cFiles
        pure (pdce, cache)) := by
  refine (Related.refl (NdpSmb.dceCreate path cFiles)).bind ?_
  rintro created _ rfl
  cases created with
  | none =>
      exact .ret ⟨⟨nodes, .refl represents, by simp⟩, rfl, by simp, by simp⟩
  | some entry =>
      have fresh : pdc.allocated ∉ nodes := fun inside => by
        obtain ⟨entry, -, found⟩ := heap_of_mem represents.content inside
        exact absurd (represents.inUse pdc.allocated (by simp [found])) (lt_irrefl _)
      have links : (pdc.links.setNext pdc.allocated none).setPrev pdc.allocated none =
          pdc.links := by
        obtain ⟨next, prev⟩ := represents.spelled.detached fresh
        have sameNext := Function.update_eq_self pdc.allocated pdc.links.next
        have samePrev := Function.update_eq_self pdc.allocated pdc.links.prev
        rw [next] at sameNext
        rw [prev] at samePrev
        simp [Links.setNext, Links.setPrev, sameNext, samePrev]
      have others (pdce : Address) (inUse : pdce < pdc.allocated) :
          Function.update pdc.heap pdc.allocated (some entry) pdce = pdc.heap pdce :=
        Function.update_of_ne (Nat.ne_of_lt inUse) _ _
      refine .ret ⟨⟨nodes, ⟨?_, .refl _, fun pdce _ inUse => others pdce inUse, Nat.le_succ _⟩,
        ?_⟩, ?_, ?_, ?_⟩
      · refine ⟨?_, ?_, represents.counted, represents.fEnabled, represents.ulExpirationTime,
          represents.cMaxEntries, fun pdce present => ?_⟩
        · rw [links]
          exact represents.spelled
        · refine content_congr represents.content fun pdce member => ?_
          exact others pdce (represents.inUse pdce (by
            obtain ⟨entry, -, found⟩ := heap_of_mem represents.content member
            simp [found]))
        · by_cases same : pdce = pdc.allocated
          · rw [same]
            exact Nat.lt_succ_self _
          · refine Nat.lt_succ_of_lt (represents.inUse pdce ?_)
            simpa [LinkedCache.store, same] using present
      · rintro pdce ⟨⟩
        exact fresh
      · have stored : Function.update pdc.heap pdc.allocated (some entry) pdc.allocated =
            some entry := Function.update_self _ _ _
        exact stored.symm
      · rintro pdce ⟨⟩ absent
        simp [LinkedCache.store] at absent
      · rintro pdce ⟨⟩
        exact .inr (le_refl _)

theorem reads_store (present : pdc.heap pdce ≠ none) (entry : DirectoryCacheEntry)
    (link : Option Address) : (pdc.store pdce (some entry)).reads link = pdc.reads link := by
  cases link with
  | none => rfl
  | some other =>
      by_cases same : other = pdce
      · have here : (pdc.heap pdce).isSome = true := Option.isSome_iff_ne_none.mpr present
        simp [reads, store, same, here]
      · simp [reads, store, same]

theorem related_dcWriteStart (represents : pdc.Represents nodes cache) (path : CString)
    (cFiles : Nat) :
    Related (fun left right => pdc.Begins left.2 nodes left.1 right.1 right.2)
      (pdc.dcWriteStart ph path cFiles) (NdpSmb.dcWriteStart ph cache path cFiles) := by
  unfold LinkedCache.dcWriteStart NdpSmb.dcWriteStart
  refine related_orFault (represents.wellFormed.find_eq (dcMatches ph path false)) ?_
  rcases find_content (dcMatches ph path false) represents.content with
    ⟨missing, absent⟩ | ⟨pdce, entry, found, foundThere, present, erased⟩
  · simp only [missing, NdpSmb.dcFindDirCache, absent]
    exact related_dceCreate represents path cFiles
  · simp only [found, NdpSmb.dcFindDirCache, foundThere]
    have member := List.mem_of_find?_eq_some found
    refine related_orFault present ?_
    have there : pdc.heap pdce ≠ none := by simp [present]
    have removed : (pdc.store pdce (some { entry with aInfos := [] })).dcRemoveEntry pdce =
        some (LinkedCache.store
          { pdc with links := pdc.links.unlink pdce, cEntries := pdc.cEntries - 1 } pdce
          (some { entry with aInfos := [] })) := by
      have before := represents.wellFormed.remove_eq member
      simp only [LinkedCache.dcRemoveEntry, reads_store there] at before ⊢
      split at before
      · rename_i readable
        exact if_pos readable
      · simp at before
    have stored : LinkedCache.Represents (LinkedCache.store
        { pdc with links := pdc.links.unlink pdce, cEntries := pdc.cEntries - 1 } pdce
        (some { entry with aInfos := [] })) (nodes.erase pdce)
        (dcRemoveFound ph cache path false) :=
      (represents.removed member erased).stored represents.not_mem_erase
        fun _ => represents.inUse pdce there
    refine related_orFault removed (.ret ⟨⟨_, ⟨stored, List.erase_sublist, ?_, le_refl _⟩, ?_⟩,
      ?_, ?_, ?_⟩)
    · intro other absent _
      have apart : other ≠ pdce := fun same => absent (same ▸ member)
      exact Function.update_of_ne apart _ _
    · rintro other ⟨⟩
      exact represents.not_mem_erase
    · have here : Function.update pdc.heap pdce (some { entry with aInfos := [] }) pdce =
          some { entry with aInfos := [] } := Function.update_self _ _ _
      exact here.symm
    · rintro other ⟨⟩ absent
      simp [LinkedCache.store] at absent
    · rintro other ⟨⟩
      exact .inl member

theorem related_dcWriteBegin (represents : pdc.Represents nodes cache) (path : CString)
    (cFiles : Nat) :
    Related (fun left right => pdc.Begins left.2 nodes left.1 right.1 right.2)
      (pdc.dcWriteBegin ph path cFiles) (NdpSmb.dcWriteBegin ph cache path cFiles) := by
  unfold LinkedCache.dcWriteBegin NdpSmb.dcWriteBegin
  rw [represents.fEnabled]
  split
  · exact .ret ⟨⟨nodes, .refl represents, by simp⟩, rfl, by simp, by simp⟩
  · refine (related_dcWriteStart represents path cFiles).bind ?_
    rintro ⟨dircachectx, later⟩ ⟨begun, between⟩ begins
    cases dircachectx with
    | none =>
        obtain rfl := begins.begun
        exact .ret begins
    | some pdce =>
        obtain ⟨entry, present⟩ := Option.ne_none_iff_exists'.mp (begins.present pdce rfl)
        obtain rfl : begun = some entry := begins.begun.trans present
        obtain ⟨rest, shrinks, absent⟩ := begins.shrinks
        refine related_orFault present (.call fun now => .ret ?_)
        have inUse := shrinks.represents.inUse pdce (begins.present pdce rfl)
        have here : Function.update later.heap pdce
            (some { entry with ulLastUpdateTime := now }) pdce =
            some { entry with ulLastUpdateTime := now } := Function.update_self _ _ _
        refine ⟨⟨rest, ⟨shrinks.represents.stored (absent pdce rfl) fun _ => inUse, shrinks.part,
          ?_, shrinks.grows⟩, absent⟩, here.symm, ?_, begins.apart⟩
        · intro other outside early
          have apart : other ≠ pdce := by
            rintro rfl
            rcases begins.apart other rfl with inside | beyond
            · exact outside inside
            · exact absurd early (Nat.not_lt.mpr beyond)
          exact (Function.update_of_ne apart _ _).trans (shrinks.frame other outside early)
        · rintro other ⟨⟩ gone
          simp [LinkedCache.store] at gone

end Represents

/-! The threads' calls. -/

section Abstracts

variable {ph} {shared : LinkedShared} {later : LinkedCache} {nodes rest : List Address}
  {image : SharedCache} {cache : DirectoryCache} {place : Nat} {pdce : Address}

theorem split_of_getElem? {α : Type} {list : List α} {value : α}
    (used : list[place]? = some value) :
    ∃ left right, list = left ++ value :: right ∧ left.length = place := by
  induction list generalizing place with
  | nil => simp at used
  | cons head rest ih =>
      cases place with
      | zero => exact ⟨[], rest, by simpa using used, rfl⟩
      | succ place =>
          obtain ⟨left, right, rfl, length⟩ := ih (by simpa using used)
          exact ⟨head :: left, right, rfl, by simp [length]⟩

theorem LinkedShared.Abstracts.outside (abstracts : shared.Abstracts nodes image)
    (represents : shared.pdc.Represents nodes cache) (session : some pdce ∈ shared.sessions) :
    pdce ∉ nodes ∧ pdce < shared.pdc.allocated := by
  refine ⟨fun inside => ?_, represents.inUse pdce (abstracts.present pdce session)⟩
  have begun : pdce ∈ shared.sessions.filterMap id :=
    List.mem_filterMap.mpr ⟨some pdce, session, rfl⟩
  exact (List.nodup_append.mp abstracts.apart).2.2 pdce begun pdce inside rfl

theorem bind_congr {heap other : Address → Option DirectoryCacheEntry}
    {sessions : List (Option Address)}
    (same : ∀ pdce, some pdce ∈ sessions → other pdce = heap pdce) :
    (sessions.map fun dircachectx => dircachectx.bind other) =
      sessions.map fun dircachectx => dircachectx.bind heap := by
  refine List.map_congr_left fun dircachectx member => ?_
  cases dircachectx with
  | none => rfl
  | some pdce => exact same pdce member

theorem LinkedShared.Abstracts.shrunk (abstracts : shared.Abstracts nodes image)
    (represents : shared.pdc.Represents nodes cache) {left : DirectoryCache}
    (shrinks : shared.pdc.Shrinks later nodes rest left) :
    LinkedShared.Abstracts { shared with pdc := later } rest { image with pdc := some left } := by
  have same (pdce : Address) (session : some pdce ∈ shared.sessions) :
      later.heap pdce = shared.pdc.heap pdce :=
    have ⟨absent, early⟩ := abstracts.outside represents session
    shrinks.frame pdce absent early
  refine ⟨⟨left, rfl, shrinks.represents⟩, ?_, fun pdce session => ?_, ?_⟩
  · exact abstracts.written.trans (bind_congr same).symm
  · rw [same pdce session]
    exact abstracts.present pdce session
  · exact abstracts.apart.sublist (List.Sublist.append_left shrinks.part _)

theorem LinkedShared.Abstracts.begins (abstracts : shared.Abstracts nodes image)
    (represents : shared.pdc.Represents nodes cache) {dircachectx : Option Address}
    {begun : Option DirectoryCacheEntry} {left : DirectoryCache}
    (begins : shared.pdc.Begins later nodes dircachectx begun left) :
    ∃ rest, LinkedShared.Abstracts ⟨later, shared.sessions ++ [dircachectx]⟩ rest
      ⟨some left, image.sessions ++ [begun]⟩ ∧ rest ⊆ nodes ∧
      ∀ pdce, some pdce ∈ shared.sessions → later.heap pdce = shared.pdc.heap pdce := by
  obtain ⟨rest, shrinks, absent⟩ := begins.shrinks
  have kept := abstracts.shrunk represents shrinks
  refine ⟨rest, ⟨⟨left, rfl, shrinks.represents⟩, ?_, fun pdce session => ?_, ?_⟩,
    shrinks.part.subset, fun pdce session => ?_⟩
  · have written := kept.written
    simp only at written
    rw [List.map_append, ← written, begins.begun]
    rfl
  · rcases List.mem_append.mp session with session | same
    · exact kept.present pdce session
    · exact begins.present pdce (List.mem_singleton.mp same).symm
  · cases dircachectx with
    | none => simpa using kept.apart
    | some pdce =>
        have fresh : pdce ∉ shared.sessions.filterMap id := fun inside => by
          obtain ⟨dircachectx, session, same⟩ := List.mem_filterMap.mp inside
          obtain rfl : dircachectx = some pdce := same
          obtain ⟨outside, early⟩ := abstracts.outside represents session
          rcases begins.apart pdce rfl with member | beyond
          · exact outside member
          · exact absurd early (Nat.not_lt.mpr beyond)
        have apart := kept.apart
        simp only [List.filterMap_append, List.filterMap_cons, List.filterMap_nil, id,
          List.append_assoc, List.singleton_append]
        exact (List.nodup_middle).mpr (List.nodup_cons.mpr
          ⟨fun inside => (List.mem_append.mp inside).elim fresh (absent pdce rfl), apart⟩)
  · obtain ⟨outside, early⟩ := abstracts.outside represents session
    exact shrinks.frame pdce outside early

theorem LinkedShared.Abstracts.writes (abstracts : shared.Abstracts nodes image)
    (represents : shared.pdc.Represents nodes cache)
    (used : shared.sessions[place]? = some (some pdce)) (entry : DirectoryCacheEntry) :
    LinkedShared.Abstracts { shared with pdc := shared.pdc.store pdce (some entry) } nodes
      ⟨some cache, image.sessions.set place (some entry)⟩ := by
  obtain ⟨pdc, sessions⟩ := shared
  obtain ⟨left, right, rfl, rfl⟩ := split_of_getElem? used
  have session : some pdce ∈ left ++ some pdce :: right := by simp
  obtain ⟨absent, early⟩ := abstracts.outside represents session
  have apart := (List.nodup_append.mp abstracts.apart).1
  simp only [List.filterMap_append, List.filterMap_cons, id] at apart
  have alone := (List.nodup_cons.mp (List.nodup_middle.mp apart)).1
  have others (other : Address) (inside : some other ∈ left ++ right) :
      (pdc.store pdce (some entry)).heap other = pdc.heap other := by
    have apart : other ≠ pdce := by
      rintro rfl
      refine alone ?_
      rw [← List.filterMap_append]
      exact List.mem_filterMap.mpr ⟨some other, inside, rfl⟩
    exact Function.update_of_ne apart _ _
  refine ⟨⟨cache, rfl, represents.stored absent fun _ => early⟩, ?_, fun other inside => ?_,
    abstracts.apart⟩
  · have written := abstracts.written
    simp only at written
    have here : (pdc.store pdce (some entry)).heap pdce = some entry := Function.update_self _ _ _
    have before := bind_congr fun other inside => others other (List.mem_append_left _ inside)
    have behind := bind_congr fun other inside => others other (List.mem_append_right _ inside)
    rw [written]
    simp [here, before, behind]
  · by_cases same : other = pdce
    · simp [LinkedCache.store, same]
    · have still : (pdc.store pdce (some entry)).heap other = pdc.heap other :=
        Function.update_of_ne same _ _
      simp only [still]
      exact abstracts.present other inside

theorem LinkedShared.Abstracts.ne_of_erased (abstracts : shared.Abstracts nodes image)
    (used : shared.sessions[place]? = some (some pdce)) {other : Address}
    (kept : some other ∈ shared.sessions.eraseIdx place) : other ≠ pdce := by
  obtain ⟨pdc, sessions⟩ := shared
  obtain ⟨left, right, rfl, rfl⟩ := split_of_getElem? used
  have apart := abstracts.apart
  simp only [List.filterMap_append, List.filterMap_cons, id, List.append_assoc,
    List.cons_append] at apart
  have alone := (List.nodup_cons.mp (List.nodup_middle.mp apart))
  rintro rfl
  refine alone.1 ?_
  rw [← List.append_assoc, ← List.filterMap_append]
  refine List.mem_append_left _ (List.mem_filterMap.mpr ⟨some other, ?_, rfl⟩)
  simpa [List.eraseIdx_append_of_length_le] using kept

theorem LinkedShared.Abstracts.closes (abstracts : shared.Abstracts nodes image)
    (used : shared.sessions[place]? = some (some pdce)) {front : List Address}
    (fronts : front = [pdce] ∨ front = []) (represents : later.Represents (front ++ nodes) cache)
    (same : ∀ other, other ≠ pdce → later.heap other = shared.pdc.heap other) :
    LinkedShared.Abstracts ⟨later, shared.sessions.eraseIdx place⟩ (front ++ nodes)
      ⟨some cache, image.sessions.eraseIdx place⟩ := by
  obtain ⟨pdc, sessions⟩ := shared
  obtain ⟨left, right, rfl, rfl⟩ := split_of_getElem? used
  have erased : (left ++ some pdce :: right).eraseIdx left.length = left ++ right := by
    simp [List.eraseIdx_append_of_length_le]
  have apart := abstracts.apart
  simp only [List.filterMap_append, List.filterMap_cons, id, List.append_assoc,
    List.cons_append] at apart
  have alone := (List.nodup_cons.mp (List.nodup_middle.mp apart))
  have others (other : Address) (inside : some other ∈ left ++ right) : other ≠ pdce :=
    abstracts.ne_of_erased used (erased ▸ inside)
  rw [erased]
  refine ⟨⟨cache, rfl, represents⟩, ?_, fun other inside => ?_, ?_⟩
  · have written := abstracts.written
    simp only at written
    have kept := bind_congr fun other inside => same other (others other inside)
    rw [kept, written]
    simp [List.eraseIdx_append_of_length_le]
  · rw [same other (others other inside)]
    refine abstracts.present other ?_
    rcases List.mem_append.mp inside with before | behind
    · exact List.mem_append_left _ before
    · exact List.mem_append_right _ (List.mem_cons_of_mem _ behind)
  · rw [List.filterMap_append, List.append_assoc]
    rcases fronts with rfl | rfl
    · rw [← List.append_assoc, List.singleton_append]
      refine List.nodup_middle.mpr (List.nodup_cons.mpr ⟨?_, ?_⟩)
      · rw [List.append_assoc]
        exact alone.1
      · rw [List.append_assoc]
        exact alone.2
    · exact alone.2

/-- Where the addresses go in one step: only the end of a session links one, that of a
listing that has lost nothing, and only its begin makes one a context. -/
structure Follows (shared : LinkedShared) (nodes : List Address) (call : SharedCall)
    (later : LinkedShared) (rest : List Address) : Prop where
  linked : ∀ pdce ∈ rest, pdce ∈ nodes ∨ ∃ place entry, call = .writeEnd place ∧
    shared.sessions[place]? = some (some pdce) ∧ shared.pdc.heap pdce = some entry ∧
    entry.fInvalid = false
  sessions : ∀ pdce, some pdce ∈ later.sessions → some pdce ∈ shared.sessions ∨
    (∃ state cFiles, call = .writeBegin state cFiles) ∧
      later.sessions = shared.sessions ++ [some pdce]
  invalid : ∀ pdce entry, some pdce ∈ shared.sessions → some pdce ∈ later.sessions →
    shared.pdc.heap pdce = some entry → entry.fInvalid = true →
    ∃ written, later.pdc.heap pdce = some written ∧ written.fInvalid = true

theorem follows_of_kept {call : SharedCall} {left : LinkedShared} (part : rest ⊆ nodes)
    (sessions : left.sessions ⊆ shared.sessions)
    (same : ∀ pdce, some pdce ∈ shared.sessions → left.pdc.heap pdce = shared.pdc.heap pdce) :
    Follows shared nodes call left rest where
  linked _ inside := .inl (part inside)
  sessions _ session := .inl (sessions session)
  invalid pdce entry session _ present lost := ⟨entry, (same pdce session).trans present, lost⟩

theorem LinkedShared.Abstracts.follows_shrunk (abstracts : shared.Abstracts nodes image)
    (represents : shared.pdc.Represents nodes cache) {left : DirectoryCache} {call : SharedCall}
    (shrinks : shared.pdc.Shrinks later nodes rest left) :
    Follows shared nodes call { shared with pdc := later } rest := by
  refine follows_of_kept shrinks.part.subset (List.Subset.refl _) fun pdce session => ?_
  obtain ⟨absent, early⟩ := abstracts.outside represents session
  exact shrinks.frame pdce absent early

theorem follows_of_begun {state : FilelistState} {cFiles : Nat} {dircachectx : Option Address}
    (part : rest ⊆ nodes)
    (same : ∀ pdce, some pdce ∈ shared.sessions → later.heap pdce = shared.pdc.heap pdce) :
    Follows shared nodes (.writeBegin state cFiles) ⟨later, shared.sessions ++ [dircachectx]⟩
      rest where
  linked _ inside := .inl (part inside)
  sessions _ session := by
    rcases List.mem_append.mp session with before | opened
    · exact .inl before
    · rw [← List.mem_singleton.mp opened]
      exact .inr ⟨⟨state, cFiles, rfl⟩, rfl⟩
  invalid pdce entry session _ present lost := ⟨entry, (same pdce session).trans present, lost⟩

theorem follows_of_written {call : SharedCall} {entry written : DirectoryCacheEntry}
    (present : shared.pdc.heap pdce = some entry)
    (loses : entry.fInvalid = true → written.fInvalid = true) :
    Follows shared nodes call { shared with pdc := shared.pdc.store pdce (some written) }
      nodes where
  linked _ inside := .inl inside
  sessions _ session := .inl session
  invalid other found _ _ there lost := by
    by_cases same : other = pdce
    · subst same
      obtain rfl := Option.some.inj (present.symm.trans there)
      exact ⟨written, Function.update_self _ _ _, loses lost⟩
    · exact ⟨found, (Function.update_of_ne same _ _).trans there, lost⟩

theorem LinkedShared.Abstracts.follows_closed (abstracts : shared.Abstracts nodes image)
    (used : shared.sessions[place]? = some (some pdce)) {front : List Address}
    (fronts : front = [] ∨ front = [pdce] ∧ ∃ entry, shared.pdc.heap pdce = some entry ∧
      entry.fInvalid = false)
    (same : ∀ other, other ≠ pdce → later.heap other = shared.pdc.heap other) :
    Follows shared nodes (.writeEnd place) ⟨later, shared.sessions.eraseIdx place⟩
      (front ++ nodes) where
  linked other inside := by
    rcases fronts with rfl | ⟨rfl, entry, present, valid⟩
    · exact .inl inside
    · rcases List.mem_cons.mp inside with rfl | inside
      · exact .inr ⟨place, entry, rfl, used, present, valid⟩
      · exact .inl inside
  sessions _ session := .inl (List.mem_of_mem_eraseIdx session)
  invalid other entry _ kept present lost :=
    ⟨entry, (same other (abstracts.ne_of_erased used kept)).trans present, lost⟩

def Alike (shared : LinkedShared) (nodes : List Address) (call : SharedCall)
    (left : Unit × LinkedShared) (right : Unit × SharedCache) : Prop :=
  left.1 = right.1 ∧ ∃ rest, left.2.Abstracts rest right.2 ∧
    Follows shared nodes call left.2 rest

theorem related_linkedStep (abstracts : shared.Abstracts nodes image)
    (fn : FilelistState → SmbwrpFileinfo → Program UInt32) (call : SharedCall) :
    Related (Alike shared nodes call) (linkedStep ph fn shared call) (sharedStep ph fn image call) := by
  obtain ⟨pdcThere, sessionsThere⟩ := image
  obtain ⟨cache, rfl, represents⟩ := abstracts.cached
  have place_eq (place : Nat) : sessionsThere[place]? =
      shared.sessions[place]?.map fun dircachectx => dircachectx.bind shared.pdc.heap := by
    rw [show sessionsThere = _ from abstracts.written, List.getElem?_map]
  have still : Follows shared nodes call shared nodes :=
    follows_of_kept (List.Subset.refl _) (List.Subset.refl _) fun _ _ => rfl
  cases call with
  | listFiles state =>
      simp only [linkedStep, sharedStep, LinkedCache.dircacheListFiles, dircacheListFiles]
      cases dcCreateDirPath state with
      | none => exact .ret ⟨rfl, nodes, abstracts, still⟩
      | some path =>
          simp only [Prog.bind_assoc]
          refine (related_dcRead represents path (fn state) false).bind ?_
          rintro left right ⟨-, rest, shrinks⟩
          exact .ret ⟨rfl, rest, abstracts.shrunk represents shrinks,
            abstracts.follows_shrunk represents shrinks⟩
  | findPath path =>
      simp only [linkedStep, sharedStep, LinkedCache.dircacheFindPath, dircacheFindPath]
      split
      · exact .ret ⟨rfl, nodes, abstracts, still⟩
      · refine (related_dcFindPath represents _ _).bind fun _ _ _ => ?_
        exact .ret ⟨rfl, nodes, abstracts, still⟩
  | invalidate path fParent =>
      obtain ⟨later, rest, done, shrinks⟩ :=
        represents.dcInvalidate_eq (if fParent then parentPath path else path) false
      exact related_orFault done (.ret ⟨rfl, rest, abstracts.shrunk represents shrinks,
        abstracts.follows_shrunk represents shrinks⟩)
  | writeBegin state cFiles =>
      simp only [linkedStep, sharedStep, LinkedCache.dircacheWriteBegin, dircacheWriteBegin]
      cases dcCreateDirPath state with
      | none =>
          have begins : shared.pdc.Begins shared.pdc nodes none none cache :=
            ⟨⟨nodes, .refl represents, by simp⟩, rfl, by simp, by simp⟩
          obtain ⟨rest, later, part, frame⟩ := abstracts.begins represents begins
          exact .ret ⟨rfl, rest, later, follows_of_begun part frame⟩
      | some path =>
          rcases represents.evicted with ⟨fault, faultThere⟩ | ⟨later, rest, kept, evicted,
            evictedThere, shrinks⟩
          · simp only [fault, faultThere]
            exact .fault
          · simp only [evicted, evictedThere, orFault, Prog.pure_eq, Prog.ret_bind,
              Prog.bind_assoc]
            have abstracted := abstracts.shrunk represents shrinks
            refine (related_dcWriteBegin shrinks.represents path cFiles).bind ?_
            rintro left right begins
            obtain ⟨fewer, last, part, frame⟩ := abstracted.begins shrinks.represents begins
            refine .ret ⟨rfl, fewer, last, follows_of_begun
              (List.Subset.trans part shrinks.part.subset) ?_⟩
            intro pdce session
            obtain ⟨outside, early⟩ := abstracts.outside represents session
            exact (frame pdce session).trans (shrinks.frame pdce outside early)
  | writeEntry place finfo =>
      simp only [linkedStep, sharedStep, place_eq]
      cases used : shared.sessions[place]? with
      | none => exact .fault
      | some dircachectx =>
          cases dircachectx with
          | none =>
              have unused : sessionsThere[place]? = some none := by rw [place_eq, used]; rfl
              obtain ⟨inside, same⟩ := List.getElem?_eq_some_iff.mp unused
              have kept : sessionsThere.set place none = sessionsThere := by
                rw [← same]
                exact List.set_getElem_self inside
              refine .ret ⟨rfl, nodes, ?_, still⟩
              change shared.Abstracts nodes ⟨some cache, sessionsThere.set place none⟩
              rw [kept]
              exact abstracts
          | some pdce =>
              have session : some pdce ∈ shared.sessions := List.mem_of_getElem? used
              obtain ⟨entry, present⟩ :=
                Option.ne_none_iff_exists'.mp (abstracts.present pdce session)
              simp only [LinkedCache.dircacheWriteEntry, Option.map_some, Option.bind_some, present,
                dircacheWriteEntry, orFault, Prog.pure_eq, Prog.ret_bind, Prog.bind_assoc]
              refine (Related.of_returns (returns_dceWriteEntry entry finfo)).bind ?_
              rintro written _ ⟨rfl, wrote⟩
              refine .ret ⟨rfl, nodes, abstracts.writes represents used written,
                follows_of_written present fun lost => ?_⟩
              rcases wrote.written with ⟨valid, -⟩ | ⟨invalid, -⟩
              · rw [valid, lost]
              · exact invalid
  | writeEnd place =>
      simp only [linkedStep, sharedStep, place_eq]
      cases used : shared.sessions[place]? with
      | none => exact .fault
      | some dircachectx =>
          cases dircachectx with
          | none => exact .fault
          | some pdce =>
              have session : some pdce ∈ shared.sessions := List.mem_of_getElem? used
              obtain ⟨entry, present⟩ :=
                Option.ne_none_iff_exists'.mp (abstracts.present pdce session)
              obtain ⟨absent, early⟩ := abstracts.outside represents session
              simp only [LinkedCache.dircacheWriteEnd, Option.map_some, Option.bind_some, present,
                dircacheWriteEnd, orFault, Prog.pure_eq, Prog.ret_bind]
              by_cases valid : entry.fInvalid = true
              · rw [if_pos valid, if_pos valid]
                have readable : shared.pdc.reads (some pdce) = true := by
                  simp [LinkedCache.reads, present]
                simp only [LinkedCache.dceDelete, if_pos readable]
                have freed : (shared.pdc.store pdce none).Represents nodes cache :=
                  represents.stored absent fun gone => absurd rfl gone
                have others (other : Address) (apart : other ≠ pdce) :
                    (shared.pdc.store pdce none).heap other = shared.pdc.heap other :=
                  Function.update_of_ne apart _ _
                exact .ret ⟨rfl, [] ++ nodes, abstracts.closes used (.inr rfl) freed others,
                  abstracts.follows_closed used (.inl rfl) others⟩
              · rw [if_neg valid, if_neg valid]
                simp only [Prog.bind_assoc]
                refine (Related.refl (dceAdjust entry)).bind ?_
                rintro adjusted _ rfl
                have stored : (shared.pdc.store pdce (some adjusted)).Represents nodes cache :=
                  represents.stored absent fun _ => early
                have here : (shared.pdc.store pdce (some adjusted)).heap pdce = some adjusted :=
                  Function.update_self _ _ _
                obtain ⟨later, inserted, heap, linked⟩ := stored.inserted absent here
                have others (other : Address) (apart : other ≠ pdce) :
                    later.heap other = shared.pdc.heap other := by
                  rw [heap]
                  exact Function.update_of_ne apart _ _
                exact related_orFault inserted (.ret ⟨rfl, [pdce] ++ nodes,
                  abstracts.closes used (.inl rfl) linked others,
                  abstracts.follows_closed used (.inr ⟨rfl, entry, present, by simpa using valid⟩)
                    others⟩)
  | abandon place =>
      refine .ret ⟨rfl, nodes, ⟨⟨cache, rfl, represents⟩, ?_, fun pdce session => ?_, ?_⟩, ?_⟩
      · have written : sessionsThere = _ := abstracts.written
        rw [written]
        exact List.eraseIdx_map _ _ _
      · exact abstracts.present pdce (List.mem_of_mem_eraseIdx session)
      · exact abstracts.apart.sublist
          (((List.eraseIdx_sublist _ _).filterMap id).append (List.Sublist.refl _))
      · exact follows_of_kept (List.Subset.refl _) (List.eraseIdx_sublist _ _).subset fun _ _ => rfl

theorem abstracts_emptyLinked (ulExpirationTime : UInt32) (cMaxEntries : Nat) :
    (emptyLinked ulExpirationTime cMaxEntries).Abstracts []
      (emptyShared ulExpirationTime cMaxEntries) where
  cached := ⟨_, rfl, ⟨Links.spells_nil, .nil, rfl, rfl, rfl, rfl, fun _ present => absurd rfl present⟩⟩
  written := rfl
  present pdce session := by simp [emptyLinked] at session
  apart := by simp [emptyLinked]

theorem reaches_abstracts {allowed : LinkedShared → SharedCall → Prop}
    {permitted : SharedCache → SharedCall → Prop}
    (allows : ∀ shared image call nodes, LinkedShared.Abstracts shared nodes image →
      allowed shared call → permitted image call)
    {fn : FilelistState → SmbwrpFileinfo → Program UInt32} {ulExpirationTime : UInt32}
    {cMaxEntries : Nat} {history : List (Taken Op SharedCall Unit)}
    (reached : Reaches (linkedStep ph fn) allowed (emptyLinked ulExpirationTime cMaxEntries)
      history shared) :
    ∃ image nodes, shared.Abstracts nodes image ∧
      Reaches (sharedStep ph fn) permitted (emptyShared ulExpirationTime cMaxEntries) history
        image := by
  have origin : ∃ nodes, LinkedShared.Abstracts (emptyLinked ulExpirationTime cMaxEntries) nodes
      (emptyShared ulExpirationTime cMaxEntries) := ⟨[], abstracts_emptyLinked _ _⟩
  obtain ⟨image, there, nodes, abstracts⟩ := reached.simulated
    (fun shared image => ∃ nodes, LinkedShared.Abstracts shared nodes image)
    (fun shared image call ⟨nodes, abstracts⟩ admitted =>
      ⟨allows shared image call nodes abstracts admitted,
        (related_linkedStep abstracts fn call).mono fun _ _ ⟨same, rest, later, _⟩ =>
          ⟨same, rest, later⟩⟩)
    origin
  exact ⟨image, nodes, abstracts, there⟩

end Abstracts

end NdpSmb
