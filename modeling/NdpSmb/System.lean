import NdpSmb.Mount

/-!
One mounted Resource with its Connections. A step is one call of an entry point, from
its first exchange with the environment to its return.
-/

namespace NdpSmb

open ByteString Interaction

inductive SessionCall
  | queryPathInfo (szPath : CString)
  | findStart (szPath : CString) (ulAttribute : UInt32)
  | setPathInfo (stat : Filestatus3L) (szPathName : CString)
  | setFileAttribute (szFileName : CString) (usAttr : UInt32)
  | setCurrentDir (szPath : CString)
  | forceDelete (szFile : CString)
  | createDir (szDirName : CString) (pFEAList : Option (List UInt8))
  | deleteDir (szDir : CString)
  | move (szDst szSrc : CString)
  | rename (szDst szSrc : CString)
  | changeCase (szDst szSrc : CString)
  | copy
  | copy2
  | move2
  | refresh
  | eaQuery (pGEAList pFEAList : Option (List UInt8))
  | eaSet (pFEAList : Option (List UInt8))
  | eaSize
  | openReplace (szFileName : CString) (ulOpenMode ulAttribute : UInt32)
      (pFEAList : Option (List UInt8))
  | openReplaceL (szFileName : CString) (ulOpenMode ulAttribute : UInt32)
      (pFEAList : Option (List UInt8))
  | openCreate (szFileName : CString) (ulOpenMode ulAttribute : UInt32)
      (pFEAList : Option (List UInt8))
  | openCreateL (szFileName : CString) (ulOpenMode ulAttribute : UInt32)
      (pFEAList : Option (List UInt8))
  | openExisting (szFileName : CString) (ulOpenMode : UInt32)
  | fileQueryInfo
  | fileEAQuery (pGEAList pFEAList : Option (List UInt8))
  | fileEASet (pFEAList : Option (List UInt8))
  | fileEASize
  | fileSetInfo (stat : Filestatus3L)
  | fileSetFilePtrL (llOffset : Int) (ulMethod : UInt32)
  | fileSetFilePtr (lOffset : Int) (ulMethod : UInt32)
  | fileClose
  | fileCommit
  | fileNewSize (ulLen : UInt32)
  | fileNewSizeL (llLen : Int)
  | fileRead (hasBuffer : Bool) (ulRead : UInt32)
  | fileWrite (pBuffer : Option (List UInt8))

def keeping (s : Session) (program : Program Int) : Program (Int × Session) := do
  let rc ← program
  pure (rc, s)

def dropping {α : Type} (program : Program (Int × Session × α)) : Program (Int × Session) := do
  let (rc, s, _) ← program
  pure (rc, s)

def keepingRc {α : Type} (s : Session) (program : Program (Int × α)) : Program (Int × Session) := do
  let (rc, _) ← program
  pure (rc, s)

variable (ph : Platform)

def SessionCall.run (s : Session) : SessionCall → Program (Int × Session)
  | .queryPathInfo szPath => ndpQueryPathInfo ph s szPath
  | .findStart szPath ulAttribute => ndpFindStart ph s szPath ulAttribute
  | .setPathInfo stat szPathName => ndpSetPathInfo ph s stat szPathName
  | .setFileAttribute szFileName usAttr => ndpSetFileAttribute ph s szFileName usAttr
  | .setCurrentDir szPath => ndpSetCurrentDir ph s szPath
  | .forceDelete szFile => ndpForceDelete ph s szFile
  | .createDir szDirName pFEAList => ndpCreateDir ph s szDirName pFEAList
  | .deleteDir szDir => ndpDeleteDir ph s szDir
  | .move szDst szSrc => ndpMove ph s szDst szSrc
  | .rename szDst szSrc => ndpRename ph s szDst szSrc
  | .changeCase szDst szSrc => ndpChangeCase ph s szDst szSrc
  | .copy => keeping s ndpCopy
  | .copy2 => keeping s ndpCopy2
  | .move2 => keeping s ndpMove2
  | .refresh => keeping s ndpRefresh
  | .eaQuery pGEAList pFEAList => keepingRc s (ndpEAQuery s pGEAList pFEAList)
  | .eaSet pFEAList => keeping s (ndpEASet s pFEAList)
  | .eaSize => keepingRc s (ndpEASize s)
  | .openReplace name mode attr pFEAList => ndpOpenReplace ph s name mode attr pFEAList
  | .openReplaceL name mode attr pFEAList => ndpOpenReplaceL ph s name mode attr pFEAList
  | .openCreate name mode attr pFEAList => ndpOpenCreate ph s name mode attr pFEAList
  | .openCreateL name mode attr pFEAList => ndpOpenCreateL ph s name mode attr pFEAList
  | .openExisting name mode => ndpOpenExisting ph s name mode
  | .fileQueryInfo => keeping s (ndpFileQueryInfo ph s)
  | .fileEAQuery pGEAList pFEAList => keepingRc s (ndpFileEAQuery s pGEAList pFEAList)
  | .fileEASet pFEAList => keeping s (ndpFileEASet s pFEAList)
  | .fileEASize => keepingRc s (ndpFileEASize s)
  | .fileSetInfo stat => ndpFileSetInfo ph s stat
  | .fileSetFilePtrL llOffset ulMethod => dropping (ndpFileSetFilePtrL s llOffset ulMethod)
  | .fileSetFilePtr lOffset ulMethod => dropping (ndpFileSetFilePtr s lOffset ulMethod)
  | .fileClose => ndpFileClose s
  | .fileCommit => keeping s ndpFileCommit
  | .fileNewSize ulLen => keeping s (ndpFileNewSize s ulLen)
  | .fileNewSizeL llLen => keeping s (ndpFileNewSizeL s llLen)
  | .fileRead hasBuffer ulRead => dropping (ndpFileRead s hasBuffer ulRead)
  | .fileWrite pBuffer => dropping (ndpFileWrite ph s pBuffer)

/-- A Connection that has been freed leaves its place empty. -/
structure System where
  pRes : Resource
  conns : List (Option Connection) := []
  deriving DecidableEq

inductive Call
  | createConnection
  | freeConnection (conn : Nat)
  | queryFSAllocate (hasPfsa : Bool)
  | on (conn : Nat) (ask : SessionCall)

namespace System

def connection (system : System) (conn : Nat) : Option Connection := (system.conns[conn]?).join

def added (system : System) (pConn : Option Connection) : System :=
  match pConn with
  | none => system
  | some pConn => { system with conns := system.conns ++ [some pConn] }

def replaced (system : System) (conn : Nat) (pConn : Option Connection) : System :=
  { system with conns := system.conns.set conn pConn }

def returned (system : System) (conn : Nat) (s : Session) : System :=
  { pRes := s.pRes, conns := system.conns.set conn (some s.pConn) }

/-- A handle that is not a Connection's is not followed. -/
def call (system : System) : Call → Program (Int × System)
  | .createConnection => do
      let (rc, pConn) ← ndpCreateConnection system.pRes
      pure (rc, system.added pConn)
  | .freeConnection conn =>
      match system.connection conn with
      | none => .fault
      | some pConn => do
          let (rc, left) ← ndpFreeConnection pConn
          pure (rc, system.replaced conn left)
  | .queryFSAllocate hasPfsa => do
      let (rc, _) ← ndpRsrcQueryFSAllocate system.pRes hasPfsa
      pure (rc, system)
  | .on conn ask =>
      match system.connection conn with
      | none => .fault
      | some pConn => do
          let (rc, s) ← ask.run ph ⟨system.pRes, pConn⟩
          pure (rc, system.returned conn s)

variable {ph} {system : System}

theorem run_on_iff {conn : Nat} {ask : SessionCall} {trace : List CallEvent} {rc : Int}
    {next : System} :
    Run (system.call ph (.on conn ask)) trace (some (rc, next)) ↔
      ∃ pConn s, system.connection conn = some pConn ∧
        Run (ask.run ph ⟨system.pRes, pConn⟩) trace (some (rc, s)) ∧ next = system.returned conn s := by
  cases present : system.connection conn with
  | none => simp [call, present]
  | some pConn =>
      simp only [call, present, run_bind_some_iff, Option.some.injEq, exists_eq_left',
        exists_and_left]
      constructor
      · rintro ⟨first, second, rfl, answer, run, rest⟩
        obtain ⟨rfl, same⟩ := run_ret_iff.mp rest
        obtain ⟨rfl, rfl⟩ := Prod.mk.inj (Option.some.inj same)
        exact ⟨answer.2, by simpa using run, rfl⟩
      · rintro ⟨s, run, rfl⟩
        exact ⟨trace, [], by simp, (rc, s), run, .ret⟩

theorem call_keeps_resource {call : Call} (other : ∀ conn ask, call ≠ .on conn ask) :
    (system.call ph call).Returns fun answer => answer.2.pRes = system.pRes := by
  cases call with
  | createConnection =>
      refine Prog.returns_bind.mpr (Prog.returns_of_forall ?_)
      rintro ⟨rc, _ | pConn⟩ <;> rfl
  | freeConnection conn =>
      simp only [System.call]
      split
      · trivial
      · exact Prog.returns_bind.mpr (Prog.returns_of_forall fun _ => rfl)
  | queryFSAllocate hasPfsa => exact Prog.returns_bind.mpr (Prog.returns_of_forall fun _ => rfl)
  | on conn ask => exact absurd rfl (other conn ask)

end System

/-- The histories of a mounted Resource, which has no Connection yet. -/
abbrev Mounted (pRes : Resource) : List (Taken Op Call Int) → System → Prop :=
  Reaches (System.call ph) (fun _ _ => True) { pRes }

end NdpSmb
