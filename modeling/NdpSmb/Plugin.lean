import NdpSmb.System

/-!
The plugin with all that it has mounted. A step is one call of an entry point, on one of the
Resources or on none.
-/

namespace NdpSmb

open ByteString Interaction

/-- A Resource that has been freed leaves its place empty, and its Connections are lost. -/
structure Plugin where
  mounts : List (Option System) := []
  deriving DecidableEq

inductive PluginCall
  | pluginLoad
  | pluginFree
  | mountResource
  | freeResource (res : Nat)
  | rsrcCompare (res res2 : Nat)
  | rsrcUpdate (res : Nat)
  | rsrcQueryInfo (res : Nat) (ifL : Bool) (insize : Nat)
  | rsrcQueryFSAttach (res : Nat) (ifL : Bool) (insize : Nat)
  | ioctl (function : UInt32) (input : Option CString) (insize outlen : UInt32)
  | on (res : Nat) (call : Call)

namespace Plugin

def system (plugin : Plugin) (res : Nat) : Option System := (plugin.mounts[res]?).join

def added (plugin : Plugin) (pRes : Option Resource) : Plugin :=
  match pRes with
  | none => plugin
  | some pRes => { mounts := plugin.mounts ++ [some { pRes }] }

def replaced (plugin : Plugin) (res : Nat) (system : Option System) : Plugin :=
  { mounts := plugin.mounts.set res system }

def call (ph : Platform) (plugin : Plugin) : PluginCall → Program (Int × Plugin)
  | .pluginLoad => do
      let rc ← ndpPluginLoad
      pure (rc, plugin)
  | .pluginFree => do
      let rc ← ndpPluginFree
      pure (rc, plugin)
  | .mountResource => do
      let (rc, pRes) ← ndpMountResource
      pure (rc, plugin.added pRes)
  | .freeResource res =>
      match plugin.system res with
      | none => .fault
      | some system => do
          let rc ← ndpFreeResource system.pRes
          pure (rc, if rc = noError then plugin.replaced res none else plugin)
  | .rsrcCompare res res2 =>
      match plugin.system res, plugin.system res2 with
      | some system, some system2 => pure (ndpRsrcCompare ph system.pRes system2.pRes, plugin)
      | _, _ => .fault
  | .rsrcUpdate res =>
      match plugin.system res with
      | none => .fault
      | some _ => do
          let rc ← ndpRsrcUpdate
          pure (rc, plugin)
  | .rsrcQueryInfo res ifL insize =>
      match plugin.system res with
      | none => .fault
      | some system => do
          let (rc, _) ← ndpRsrcQueryInfo ifL system.pRes insize
          pure (rc, plugin)
  | .rsrcQueryFSAttach res ifL insize =>
      match plugin.system res with
      | none => .fault
      | some system => do
          let (rc, _) ← ndpRsrcQueryFSAttach ifL system.pRes insize
          pure (rc, plugin)
  | .ioctl function input insize outlen => do
      let (rc, _) ← ndpIOCTL function input insize outlen
      pure (rc, plugin)
  | .on res call =>
      match plugin.system res with
      | none => .fault
      | some system => do
          let (rc, system) ← system.call ph call
          pure (rc, plugin.replaced res (some system))

end Plugin

def Op.Never : (R : Type) → Op R → Prop := fun _ _ => False

theorem never_ndpRsrcQueryInfo (ifL : Bool) (pRes : Resource) (insize : Nat) :
    (ndpRsrcQueryInfo ifL pRes insize).Only Op.Never :=
  Prog.Only.ite trivial trivial

theorem never_ndpIOCTL (function : UInt32) (input : Option CString) (insize outlen : UInt32) :
    (ndpIOCTL function input insize outlen).Only Op.Never := by
  unfold ndpIOCTL
  apply Prog.Only.ite
  · trivial
  · cases input with
    | none => trivial
    | some input =>
        simp only
        -- the length of the text is not to be computed
        generalize ioctlText function input insize outlen = text
        exact .ite trivial (.ite trivial trivial)

def Op.Configures : (R : Type) → Op R → Prop
  | _, .fsphQueryStringProperty _ | _, .fsphQueryUlongProperty _ | _, .fsphSetProperty .. => True
  | _, .malloc _ | _, .fsphCreateMutex => True
  | _, _ => False

section Footprints

variable {pRes : Resource}

theorem configures_named {name : CString} {follow : Option CString → Program Resource}
    (after : ∀ q, (follow q).Only Op.Configures) :
    (queryString name >>= follow).Only Op.Configures := by
  refine Prog.Only.bind (Prog.only_perform_bind.mpr ⟨trivial, fun reply => ?_⟩) after
  simp only
  split
  · trivial
  · split
    · trivial
    · split <;> trivial

theorem configures_withUlong (name : CString) (largest : UInt32)
    (set : Resource → UInt32 → Resource) :
    (withUlong name largest set pRes).Only Op.Configures := by
  refine Prog.Only.bind ?_ ?_
  · refine Prog.only_perform_bind.mpr ⟨trivial, fun reply => ?_⟩
    simp only
    split
    · trivial
    · split <;> trivial
  · rintro ⟨rc, _ | t⟩ <;> trivial

theorem configures_withSpassword (defaultPassword : Bool) :
    (withSpassword pRes defaultPassword).Only Op.Configures := by
  have stored : (toSpassword pRes).Only Op.Configures :=
    ⟨trivial, fun _ => ⟨trivial, fun _ => trivial⟩⟩
  refine Prog.only_perform_bind.mpr ⟨trivial, fun reply => ?_⟩
  simp only
  split
  · exact stored
  · split
    · trivial
    · split
      · unfold fromSpassword
        split
        · trivial
        · split
          · trivial
          · exact ⟨trivial, fun _ => trivial⟩
      · exact stored

theorem configures_initNames : (initNames pRes).Only Op.Configures := by
  refine Prog.Only.bind (configures_named ?_) fun _ => ?_
  · rintro (_ | _) <;> trivial
  refine Prog.Only.bind (configures_named ?_) fun _ => ?_
  · rintro (_ | _) <;> trivial
  refine Prog.Only.bind (configures_named ?_) fun _ => ?_
  · rintro (_ | _) <;> trivial
  refine Prog.Only.bind (configures_named ?_) fun _ => ?_
  · rintro (_ | _) <;> trivial
  refine Prog.Only.bind (configures_named ?_) fun _ => configures_named ?_
  · rintro (_ | _) <;> exact configures_withSpassword _
  · rintro (_ | _) <;> trivial

theorem configures_initOptions : (initOptions pRes).Only Op.Configures := by
  refine (configures_withUlong _ _ _).bind fun _ => ?_
  refine (configures_withUlong _ _ _).bind fun _ => ?_
  refine (configures_withUlong _ _ _).bind fun _ => ?_
  refine (configures_withUlong _ _ _).bind fun _ => ?_
  refine (configures_withUlong _ _ _).bind fun _ => ?_
  exact (configures_withUlong _ _ _).bind fun _ => configures_withUlong _ _ _

theorem configures_initResource : initResource.Only Op.Configures := by
  refine configures_initNames.bind fun _ => configures_initOptions.bind fun options => ?_
  refine Prog.Only.bind ?_ fun _ => trivial
  refine Prog.only_perform_bind.mpr ⟨trivial, fun pdc => ?_⟩
  split
  · trivial
  · refine Prog.only_perform_bind.mpr ⟨trivial, fun rc => ?_⟩
    split <;> trivial

end Footprints

abbrev Plugged (ph : Platform) : List (Taken Op PluginCall Int) → Plugin → Prop :=
  Reaches (Plugin.call ph) (fun _ _ => True) {}

end NdpSmb
