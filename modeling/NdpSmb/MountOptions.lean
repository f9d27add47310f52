import NdpSmb.Mount

/-!
Which numeric properties `initResource` accepts.
-/

namespace NdpSmb

open ByteString Interaction

structure NumericOption where
  name : CString
  largest : UInt32
  field : Resource → UInt32

def numericOptions : List NumericOption := [
  ⟨bytes "MASTERTYPE", 1, fun pRes => pRes.srv.ifmastergroup⟩,
  ⟨bytes "EASUPPORT", 1, fun pRes => pRes.easupport⟩,
  ⟨bytes "KRB5SUPPORT", 1, fun pRes => pRes.krb5support⟩,
  ⟨bytes "NTLMv1SUPPORT", 1, fun pRes => pRes.ntlmv1support⟩,
  ⟨bytes "ENCRYPTIONSUPPORT", 1, fun pRes => pRes.encryptionsupport⟩,
  ⟨bytes "CTO", 600, fun pRes => pRes.cachetimeout⟩,
  ⟨bytes "CLD", 96, fun pRes => pRes.cachedepth⟩]

def InRange (values : CString → UInt32) : Prop :=
  ∀ option ∈ numericOptions, values option.name ≤ option.largest

instance (values : CString → UInt32) : Decidable (InRange values) :=
  inferInstanceAs (Decidable (∀ option ∈ numericOptions, values option.name ≤ option.largest))

def HoldsOptions (values : CString → UInt32) (pRes : Resource) : Prop :=
  ∀ option ∈ numericOptions, option.field pRes = values option.name

def propertyReply : CallEvent → Option (Int × Option (CString × UInt32))
  | ⟨.fsphQueryUlongProperty name, (rc, t)⟩ => some (rc, some (name, t))
  | ⟨.fsphQueryStringProperty _, (rc, _, _)⟩ => some (rc, none)
  | _ => none

def Supplies (values : CString → UInt32) (event : CallEvent) : Prop :=
  ∀ reply ∈ propertyReply event, reply.1 = 0 ∧ ∀ given ∈ reply.2, given.2 = values given.1

instance (values : CString → UInt32) (event : CallEvent) : Decidable (Supplies values event) :=
  inferInstanceAs (Decidable (∀ reply ∈ propertyReply event,
    reply.1 = 0 ∧ ∀ given ∈ reply.2, given.2 = values given.1))

def supplyWatch (values : CString → UInt32) : Watch Op Unit where
  observe _ _ := ()
  admits _ event := Supplies values event

section Options

variable {values : CString → UInt32} {pRes : Resource}

def takeOption (values : CString → UInt32) (name : CString) (largest : UInt32)
    (set : Resource → UInt32 → Resource) (pRes : Resource) : Resource :=
  if values name > largest then pRes else set pRes (values name)

theorem ensures_withUlong (name : CString) (largest : UInt32) (set : Resource → UInt32 → Resource)
    {post : Int × Resource → Unit → Prop}
    (taken : post (if values name > largest then errorInvalidParameter else 0,
      takeOption values name largest set pRes) ()) :
    (supplyWatch values).Ensures post (withUlong name largest set pRes) () := by
  refine Watch.ensures_bind.mpr (Watch.ensures_perform_bind.mpr ?_)
  rintro ⟨rc, t⟩ supplies
  obtain ⟨rfl, valued⟩ := supplies _ rfl
  obtain rfl : t = values name := valued _ rfl
  unfold takeOption at taken
  simp only
  rw [if_neg (not_not.mpr rfl)]
  split at taken
  · rename_i large
    rw [if_pos large]
    exact taken
  · rename_i small
    rw [if_neg small]
    exact taken

def takeOptions (values : CString → UInt32) (pRes : Resource) : Resource :=
  let pRes := takeOption values (bytes "MASTERTYPE") 1
    (fun pRes t => { pRes with srv := { pRes.srv with ifmastergroup := t } }) pRes
  let pRes := takeOption values (bytes "EASUPPORT") 1
    (fun pRes t => { pRes with easupport := t }) pRes
  let pRes := takeOption values (bytes "KRB5SUPPORT") 1
    (fun pRes t => { pRes with krb5support := t }) pRes
  let pRes := takeOption values (bytes "NTLMv1SUPPORT") 1
    (fun pRes t => { pRes with ntlmv1support := t }) pRes
  let pRes := takeOption values (bytes "ENCRYPTIONSUPPORT") 1
    (fun pRes t => { pRes with encryptionsupport := t }) pRes
  let pRes := takeOption values (bytes "CTO") 600
    (fun pRes t => { pRes with cachetimeout := t }) pRes
  takeOption values (bytes "CLD") 96 (fun pRes t => { pRes with cachedepth := t }) pRes

theorem ensures_initOptions :
    (supplyWatch values).Ensures (fun answer _ =>
      answer.1 = (if values (bytes "CLD") > 96 then errorInvalidParameter else 0) ∧
      answer.2 = takeOptions values pRes) (initOptions pRes) () := by
  refine Watch.ensures_bind.mpr (ensures_withUlong _ _ _ ?_)
  refine Watch.ensures_bind.mpr (ensures_withUlong _ _ _ ?_)
  refine Watch.ensures_bind.mpr (ensures_withUlong _ _ _ ?_)
  refine Watch.ensures_bind.mpr (ensures_withUlong _ _ _ ?_)
  refine Watch.ensures_bind.mpr (ensures_withUlong _ _ _ ?_)
  refine Watch.ensures_bind.mpr (ensures_withUlong _ _ _ ?_)
  exact ensures_withUlong _ _ _ ⟨rfl, rfl⟩

theorem takeOption_of_le {name : CString} {largest : UInt32}
    {set : Resource → UInt32 → Resource} (small : values name ≤ largest) :
    takeOption values name largest set pRes = set pRes (values name) :=
  if_neg (UInt32.not_lt.mpr small)

theorem holdsOptions_takeOptions (inRange : InRange values) :
    HoldsOptions values (takeOptions values pRes) := by
  simp only [InRange, numericOptions, List.forall_mem_cons] at inRange
  obtain ⟨master, eas, krb5, ntlmv1, encryption, timeout, depth, -⟩ := inRange
  simp only [HoldsOptions, numericOptions, List.forall_mem_cons, takeOptions,
    takeOption_of_le master, takeOption_of_le eas, takeOption_of_le krb5,
    takeOption_of_le ntlmv1, takeOption_of_le encryption, takeOption_of_le timeout,
    takeOption_of_le depth]
  simp

theorem holdsOptions_cache (pdc : Option DirectoryCache) :
    HoldsOptions values { pRes with pdc } ↔ HoldsOptions values pRes := by
  simp [HoldsOptions, numericOptions]

theorem ensures_initResource :
    (supplyWatch values).Ensures (fun answer _ =>
      answer.1 = (if values (bytes "CLD") > 96 then errorInvalidParameter else 0) ∧
      (InRange values → HoldsOptions values answer.2)) initResource () := by
  refine Watch.ensures_bind.mpr (Watch.ensures_of_forall (fun _ => trivial) fun named later => ?_)
  apply ensures_initOptions.bind
  rintro ⟨rc, pRes⟩ _ ⟨told, rfl⟩
  refine Watch.ensures_bind.mpr (Watch.ensures_of_forall (fun _ => trivial) fun cache last => ?_)
  refine ⟨told, fun inRange => ?_⟩
  exact (holdsOptions_cache cache.2).mpr (holdsOptions_takeOptions inRange)

theorem depth_le (inRange : InRange values) : values (bytes "CLD") ≤ 96 := by
  simp only [InRange, numericOptions, List.forall_mem_cons] at inRange
  obtain ⟨-, -, -, -, -, -, depth, -⟩ := inRange
  exact depth

end Options

/-! The values can be supplied. -/

def Supplied {α : Type} (values : CString → UInt32) (program : Program α) (value : α) : Prop :=
  ∃ trace, Run program trace (some value) ∧ ∀ event ∈ trace, Supplies values event

section Supplied

variable {α β : Type} {values : CString → UInt32} {pRes : Resource} {program : Program α}
  {follow : α → Program β} {value : α} {result : β}

theorem supplied_pure (value : α) : Supplied values (pure value) value :=
  ⟨[], .ret, by simp⟩

theorem Supplied.bind (first : Supplied values program value)
    (second : Supplied values (follow value) result) :
    Supplied values (program >>= follow) result := by
  obtain ⟨before, given, supplied⟩ := first
  obtain ⟨after, rest, also⟩ := second
  refine ⟨before ++ after, given.bind rest, fun event member => ?_⟩
  rcases List.mem_append.mp member with inBefore | inAfter
  · exact supplied event inBefore
  · exact also event inAfter

theorem supplied_perform (op : Op α) (reply : α) (supplies : Supplies values ⟨op, reply⟩) :
    Supplied values (perform op) reply :=
  ⟨[⟨op, reply⟩], .call .ret, by simpa using supplies⟩

theorem supplied_string (name : CString) :
    Supplied values (perform (.fsphQueryStringProperty name)) (0, some [], 0) :=
  supplied_perform _ _ (by simp [Supplies, propertyReply])

theorem supplied_queryString (name : CString) : Supplied values (queryString name) none :=
  (supplied_string name).bind (supplied_pure none)

theorem supplied_set (name value : CString) :
    Supplied values (perform (.fsphSetProperty name value)) () :=
  supplied_perform _ _ (by simp [Supplies, propertyReply])

theorem supplied_withPassword : Supplied values (withPassword pRes) pRes := by
  refine (supplied_queryString _).bind ?_
  refine (supplied_string _).bind ?_
  exact (supplied_set _ _).bind ((supplied_set _ _).bind (supplied_pure pRes))

theorem supplied_unnamed (name : CString) {take : Option CString → Program Resource}
    (kept : take none = pure pRes) : Supplied values (queryString name >>= take) pRes := by
  refine (supplied_queryString name).bind ?_
  rw [kept]
  exact supplied_pure pRes

theorem supplied_initNames : Supplied values (initNames pRes) pRes := by
  refine (supplied_unnamed (bytes "WORKGROUP") rfl).bind ?_
  refine (supplied_unnamed (bytes "SERVER") rfl).bind ?_
  refine (supplied_unnamed (bytes "SHARE") rfl).bind ?_
  refine (supplied_unnamed (bytes "USER") rfl).bind ?_
  exact supplied_withPassword.bind (supplied_unnamed (bytes "MASTER") rfl)

theorem supplied_withUlong (name : CString) (largest : UInt32)
    (set : Resource → UInt32 → Resource) :
    Supplied values (withUlong name largest set pRes)
      (if values name > largest then errorInvalidParameter else 0,
        takeOption values name largest set pRes) := by
  have asked : Supplied values (perform (.fsphQueryUlongProperty name)) (0, values name) :=
    supplied_perform _ _ (by simp [Supplies, propertyReply])
  unfold takeOption
  by_cases large : values name > largest
  · have query : Supplied values (queryUlong name largest) (errorInvalidParameter, none) := by
      refine asked.bind ?_
      simp only
      rw [if_neg (not_not.mpr rfl), if_pos large]
      exact supplied_pure _
    rw [if_pos large, if_pos large]
    exact query.bind (supplied_pure _)
  · have query : Supplied values (queryUlong name largest) (0, some (values name)) := by
      refine asked.bind ?_
      simp only
      rw [if_neg (not_not.mpr rfl), if_neg large]
      exact supplied_pure _
    rw [if_neg large, if_neg large]
    exact query.bind (supplied_pure _)

theorem supplied_initOptions (values : CString → UInt32) (pRes : Resource) :
    Supplied values (initOptions pRes)
      (if values (bytes "CLD") > 96 then errorInvalidParameter else 0,
        takeOptions values pRes) := by
  refine (supplied_withUlong _ _ _).bind ?_
  refine (supplied_withUlong _ _ _).bind ?_
  refine (supplied_withUlong _ _ _).bind ?_
  refine (supplied_withUlong _ _ _).bind ?_
  refine (supplied_withUlong _ _ _).bind ?_
  refine (supplied_withUlong _ _ _).bind ?_
  exact supplied_withUlong _ _ _

theorem supplied_dircacheCreate (timeout : UInt32) (depth : Nat) :
    Supplied values (dircacheCreate timeout depth) (errorNotEnoughMemory, none) := by
  have refused : Supplied values (perform (.malloc sizeofDirectoryCache)) false :=
    supplied_perform _ _ (by simp [Supplies, propertyReply])
  exact refused.bind (supplied_pure _)

theorem supplied_initResource (values : CString → UInt32) :
    ∃ answer, Supplied values initResource answer := by
  refine ⟨(if values (bytes "CLD") > 96 then errorInvalidParameter else 0,
    { takeOptions values { easupport := 1 } with pdc := none }), ?_⟩
  refine supplied_initNames.bind ((supplied_initOptions values _).bind ?_)
  exact (supplied_dircacheCreate _ _).bind (supplied_pure _)

end Supplied

/-- For values of all the properties: success is returned exactly when they are all in range, and
the fields then hold them. -/
def ChecksOptions (values : CString → UInt32) : Prop :=
  ∀ trace rc pRes, Run initResource trace (some (rc, pRes)) →
    (∀ event ∈ trace, Supplies values event) →
    (rc = noError ↔ InRange values) ∧ (InRange values → HoldsOptions values pRes)

/-- They are checked as a whole exactly when a bad one comes with a bad depth. -/
theorem initResource_checksOptions_iff (values : CString → UInt32) :
    ChecksOptions values ↔ 96 < values (bytes "CLD") ∨ InRange values := by
  constructor
  · intro checks
    obtain ⟨⟨rc, pRes⟩, trace, run, supplied⟩ := supplied_initResource values
    have told := (ensures_initResource.run run
      (Watch.admits_of_forall _ fun event member _ => supplied event member)).1
    simp only at told
    have exact := (checks trace rc pRes run supplied).1
    by_cases deep : 96 < values (bytes "CLD")
    · exact .inl deep
    · rw [if_neg deep] at told
      exact .inr (exact.mp told)
  · intro condition trace rc pRes run supplied
    obtain ⟨told, holds⟩ := ensures_initResource.run run
      (Watch.admits_of_forall _ fun event member _ => supplied event member)
    refine ⟨?_, holds⟩
    simp only at told
    rw [told]
    rcases condition with deep | inRange
    · rw [if_pos deep]
      refine iff_of_false (by decide) fun inRange => ?_
      exact UInt32.not_lt.mpr (depth_le inRange) deep
    · rw [if_neg (UInt32.not_lt.mpr (depth_le inRange))]
      exact iff_of_true rfl inRange

def encryptionTwo (name : CString) : UInt32 :=
  if name = bytes "CLD" then 32 else if name = bytes "ENCRYPTIONSUPPORT" then 2 else 0

def supplyTwo : (R : Type) → Op R → R
  | _, .fsphQueryUlongProperty name => (0, encryptionTwo name)
  | _, op => op.usual

def encryptionRun : List CallEvent × Option (Int × Resource) :=
  exec (fun _ => supplyTwo) 0 initResource

/-- The value is refused, but the mount goes on with the default: no encryption. -/
theorem encryption_refusal_lost :
    ∃ trace pRes, Run initResource trace (some (noError, pRes)) ∧
      (∀ event ∈ trace, Supplies encryptionTwo event) ∧ ¬ InRange encryptionTwo ∧
      pRes.encryptionsupport = 0 := by
  have told : encryptionRun.2.map (fun answer => (answer.1, answer.2.encryptionsupport)) =
      some (noError, 0) := by decide
  obtain ⟨⟨rc, pRes⟩, outcome, same⟩ := Option.map_eq_some_iff.mp told
  obtain ⟨rfl, off⟩ := Prod.mk.inj same
  refine ⟨encryptionRun.1, pRes, ?_, by decide, by decide, off⟩
  have run : Run initResource encryptionRun.1 encryptionRun.2 := run_exec _ _ 0
  rw [outcome] at run
  exact run

end NdpSmb
