import NdpSmb.MountOptions

/-!
The password of a resource between mounts: how it is stored, that it is found again, and which
stored values `decryptPassword` can be given.
-/

namespace NdpSmb

open ByteString Interaction

/-- A digit as `tohex` writes it. -/
def IsHexDigit (c : UInt8) : Prop := 48 ≤ c ∧ c ≤ 57 ∨ 65 ≤ c ∧ c ≤ 70

instance (c : UInt8) : Decidable (IsHexDigit c) := inferInstanceAs (Decidable (_ ∨ _))

theorem forall_letters {P : UInt8 → Prop} (each : ∀ value : Fin 256, P (UInt8.ofFin value))
    (letter : UInt8) : P letter := by
  simpa using each letter.toFin

theorem isHexDigit_tohex (letter : UInt8) : IsHexDigit (tohex letter) := by
  revert letter
  apply forall_letters
  decide +kernel

theorem fromhex_tohex (letter : UInt8) :
    (fromhex (tohex (letter >>> 4)) <<< 4) + fromhex (tohex letter) = letter := by
  revert letter
  apply forall_letters
  decide +kernel

theorem tohex_signed (letter : UInt8) :
    tohex (letter.toInt8 >>> 4).toUInt8 = tohex (letter >>> 4) := by
  revert letter
  apply forall_letters
  decide +kernel

section Digits

variable {p : CString}

theorem encryptPassword_signed :
    encryptPassword p = p.flatMap fun (letter : UInt8) =>
      [tohex (letter.toInt8 >>> 4).toUInt8, tohex letter] := by
  simp only [encryptPassword, tohex_signed]

theorem length_encryptPassword : (encryptPassword p).length = 2 * p.length := by
  induction p with
  | nil => rfl
  | cons letter rest ih =>
      have longer : (encryptPassword (letter :: rest)).length = (encryptPassword rest).length + 2 := rfl
      rw [longer, ih, List.length_cons]
      omega

theorem isHexDigit_encryptPassword : ∀ c ∈ encryptPassword p, IsHexDigit c := by
  intro c member
  obtain ⟨letter, -, digit⟩ := List.mem_flatMap.mp member
  rcases List.mem_pair.mp digit with rfl | rfl
  · exact isHexDigit_tohex _
  · exact isHexDigit_tohex _

theorem decryptBytes_encryptPassword : decryptBytes (encryptPassword p) = some p := by
  induction p with
  | nil => rfl
  | cons letter rest ih =>
      have digits : encryptPassword (letter :: rest) =
          tohex (letter >>> 4) :: tohex letter :: encryptPassword rest := rfl
      rw [digits, decryptBytes, ih, fromhex_tohex]
      rfl

theorem beforeFirst_of_clean (clean : (0 : UInt8) ∉ p) : beforeFirst 0 p = p := by
  refine List.takeWhile_eq_self_iff.mpr fun letter member => ?_
  have nonzero : letter ≠ 0 := fun zero => clean (zero ▸ member)
  simpa using nonzero

theorem decryptPassword_encryptPassword (short : p.length < 1024) (clean : (0 : UInt8) ∉ p) :
    decryptPassword (encryptPassword p) = some p := by
  have room : ¬ p.length ≥ 1024 := by omega
  simp only [decryptPassword, decryptBytes_encryptPassword, if_neg room, beforeFirst_of_clean clean]

end Digits

/-! The properties of a resource, as NetDrive keeps them from one mount to the next. -/

abbrev Properties : Type := CString → Option CString

def Properties.set (properties : Properties) (name value : CString) : Properties :=
  fun asked => if asked = name then some value else properties asked

@[simp] theorem Properties.set_same (properties : Properties) (name value : CString) :
    properties.set name value name = some value := if_pos rfl

theorem Properties.set_other {properties : Properties} {name value asked : CString}
    (other : asked ≠ name) : properties.set name value asked = properties asked := if_neg other

/-- A property that is there is given, with a length that is zero only for the empty one. -/
def Properties.Gives (properties : Properties) (name : CString)
    (reply : Int × Option CString × UInt32) : Prop :=
  match properties name with
  | some value => reply.1 = 0 ∧ reply.2.1 = some value ∧ (value ≠ [] → reply.2.2 ≠ 0)
  | none => reply.1 ≠ 0

instance (properties : Properties) (name : CString) (reply : Int × Option CString × UInt32) :
    Decidable (properties.Gives name reply) :=
  match given : properties name with
  | some value => decidable_of_iff
      (reply.1 = 0 ∧ reply.2.1 = some value ∧ (value ≠ [] → reply.2.2 ≠ 0))
      (by rw [Properties.Gives, given])
  | none => decidable_of_iff (reply.1 ≠ 0) (by rw [Properties.Gives, given])

def stringReply : CallEvent → Option (CString × Int × Option CString × UInt32)
  | ⟨.fsphQueryStringProperty name, reply⟩ => some (name, reply)
  | _ => none

/-- No program may fault on properties that are given so. -/
def propertyWatch : Watch Op Properties where
  observe properties event :=
    match event with
    | ⟨.fsphSetProperty name value, _⟩ => properties.set name value
    | _ => properties
  admits properties event := ∀ answered ∈ stringReply event, properties.Gives answered.1 answered.2
  crash _ := False

instance (properties : Properties) (event : CallEvent) :
    Decidable (propertyWatch.admits properties event) :=
  (Option.decidableForallMem (stringReply event) :
    Decidable (∀ answered ∈ stringReply event, properties.Gives answered.1 answered.2))

def Properties.text (properties : Properties) (name : CString) : Option CString :=
  match properties name with
  | some value => if value = [] then none else some (value.take 255)
  | none => none

section Mounting

variable {properties : Properties} {pRes : Resource} {p : CString}

theorem ensures_queryString {post : Option CString → Properties → Prop} {name : CString}
    (asked : post (properties.text name) properties) :
    propertyWatch.Ensures post (queryString name) properties := by
  refine Watch.ensures_perform_bind.mpr ?_
  rintro ⟨rc, q, t⟩ answered
  have gives : properties.Gives name (rc, q, t) := answered _ rfl
  change propertyWatch.Ensures post _ properties
  unfold Properties.Gives at gives
  unfold Properties.text at asked
  split at gives
  · rename_i value present
    rw [present] at asked
    obtain ⟨rfl, rfl, length⟩ := gives
    simp only at asked ⊢
    by_cases empty : value = []
    · rw [if_pos empty] at asked
      split
      · exact asked
      · exact asked
    · rw [if_neg empty] at asked
      have long : t ≠ 0 := length empty
      rw [if_neg (by simp [long]), if_neg empty]
      exact asked
  · rename_i absent
    rw [absent] at asked
    have refused : rc ≠ 0 := gives
    simp only
    rw [if_pos (.inl refused)]
    exact asked

def KeepsPassword (properties : Properties) (pRes : Resource) (program : Program Resource) : Prop :=
  propertyWatch.Ensures
    (fun later store => store = properties ∧ later.srv.password = pRes.srv.password) program
    properties

theorem keepsPassword_withWorkgroup : KeepsPassword properties pRes (withWorkgroup pRes) := by
  refine Watch.ensures_bind.mpr (ensures_queryString ?_)
  cases properties.text (bytes "WORKGROUP") <;> exact ⟨rfl, rfl⟩

theorem keepsPassword_withServer : KeepsPassword properties pRes (withServer pRes) := by
  refine Watch.ensures_bind.mpr (ensures_queryString ?_)
  cases properties.text (bytes "SERVER") <;> exact ⟨rfl, rfl⟩

theorem keepsPassword_withShare : KeepsPassword properties pRes (withShare pRes) := by
  refine Watch.ensures_bind.mpr (ensures_queryString ?_)
  cases properties.text (bytes "SHARE") <;> exact ⟨rfl, rfl⟩

theorem keepsPassword_withUser : KeepsPassword properties pRes (withUser pRes) := by
  refine Watch.ensures_bind.mpr (ensures_queryString ?_)
  cases properties.text (bytes "USER") <;> exact ⟨rfl, rfl⟩

theorem keepsPassword_withMaster : KeepsPassword properties pRes (withMaster pRes) := by
  refine Watch.ensures_bind.mpr (ensures_queryString ?_)
  cases properties.text (bytes "MASTER") <;> exact ⟨rfl, rfl⟩

theorem ensures_withUlong_property {name : CString} {largest : UInt32}
    {set : Resource → UInt32 → Resource}
    (apart : ∀ pRes t, (set pRes t).srv.password = pRes.srv.password) :
    propertyWatch.Ensures
      (fun answer store => store = properties ∧ answer.2.srv.password = pRes.srv.password)
      (withUlong name largest set pRes) properties := by
  refine Watch.ensures_bind.mpr (Watch.ensures_perform_bind.mpr ?_)
  rintro ⟨rc, t⟩ -
  simp only
  split
  · exact ⟨rfl, rfl⟩
  · split
    · exact ⟨rfl, rfl⟩
    · exact ⟨rfl, apart pRes t⟩

theorem ensures_initOptions_property :
    propertyWatch.Ensures
      (fun answer store => store = properties ∧ answer.2.srv.password = pRes.srv.password)
      (initOptions pRes) properties := by
  have numeric {name : CString} {largest : UInt32} {set : Resource → UInt32 → Resource}
      {α : Type} {post : α → Properties → Prop} {pRes : Resource}
      {follow : Int × Resource → Program α}
      (apart : ∀ pRes t, (set pRes t).srv.password = pRes.srv.password)
      (next : ∀ rc later, later.srv.password = pRes.srv.password →
        propertyWatch.Ensures post (follow (rc, later)) properties) :
      propertyWatch.Ensures post (withUlong name largest set pRes >>= follow) properties := by
    apply (ensures_withUlong_property apart).bind
    rintro ⟨rc, later⟩ store ⟨rfl, same⟩
    exact next rc later same
  refine numeric (fun _ _ => rfl) fun _ first sameFirst => ?_
  refine numeric (fun _ _ => rfl) fun _ second sameSecond => ?_
  refine numeric (fun _ _ => rfl) fun _ third sameThird => ?_
  refine numeric (fun _ _ => rfl) fun _ fourth sameFourth => ?_
  refine numeric (fun _ _ => rfl) fun _ fifth sameFifth => ?_
  refine numeric (fun _ _ => rfl) fun _ sixth sameSixth => ?_
  have last : propertyWatch.Ensures
      (fun answer store => store = properties ∧ answer.2.srv.password = sixth.srv.password)
      (withCld sixth) properties := ensures_withUlong_property fun _ _ => rfl
  refine last.mono ?_
  rintro answer store ⟨rfl, same⟩
  refine ⟨rfl, ?_⟩
  rw [same, sameSixth, sameFifth, sameFourth, sameThird, sameSecond, sameFirst]

theorem ensures_dircacheCreate_property {ulExpirationTime : UInt32} {cMaxEntries : Nat} :
    propertyWatch.Ensures (fun _ store => store = properties)
      (dircacheCreate ulExpirationTime cMaxEntries) properties := by
  refine Watch.ensures_perform_bind.mpr fun malloced _ => ?_
  split
  · rfl
  · refine Watch.ensures_perform_bind.mpr fun rc _ => ?_
    split <;> rfl

theorem ensures_initResource_property {left : Properties}
    (found : ∀ pRes : Resource, pRes.srv.password = [] →
      propertyWatch.Ensures (fun later store => store = left ∧ later.srv.password = p)
        (withPassword pRes) properties) :
    propertyWatch.Ensures (fun answer store => store = left ∧ answer.2.srv.password = p)
      initResource properties := by
  have names : propertyWatch.Ensures (fun later store => store = left ∧ later.srv.password = p)
      (initNames { easupport := 1 }) properties := by
    apply keepsPassword_withWorkgroup.bind
    rintro first store ⟨rfl, sameFirst⟩
    apply keepsPassword_withServer.bind
    rintro second store ⟨rfl, sameSecond⟩
    apply keepsPassword_withShare.bind
    rintro third store ⟨rfl, sameThird⟩
    apply keepsPassword_withUser.bind
    rintro fourth store ⟨rfl, sameFourth⟩
    have blank : fourth.srv.password = [] := by
      rw [sameFourth, sameThird, sameSecond, sameFirst]
    apply (found fourth blank).bind
    rintro fifth store ⟨rfl, same⟩
    refine keepsPassword_withMaster.mono ?_
    rintro last store ⟨rfl, sameLast⟩
    exact ⟨rfl, sameLast.trans same⟩
  apply names.bind
  rintro named store ⟨rfl, same⟩
  apply ensures_initOptions_property.bind
  rintro ⟨rc, later⟩ store ⟨rfl, sameLater⟩
  apply ensures_dircacheCreate_property.bind
  rintro cache store rfl
  exact ⟨rfl, sameLater.trans same⟩

def Properties.secured (properties : Properties) (p : CString) : Properties :=
  (properties.set (bytes "SPASSWORD") (encryptPassword p)).set (bytes "PASSWORD") []

theorem ensures_withPassword_plain (short : p.length ≤ 255) (given : p ≠ [])
    (plain : properties (bytes "PASSWORD") = some p) :
    propertyWatch.Ensures (fun later store => store = properties.secured p ∧ later.srv.password = p)
      (withPassword pRes) properties := by
  have found : properties.text (bytes "PASSWORD") = some p := by
    simp [Properties.text, plain, given, List.take_of_length_le short]
  refine Watch.ensures_bind.mpr (ensures_queryString ?_)
  rw [found]
  refine Watch.ensures_perform_bind.mpr ?_
  rintro ⟨rc, q, t⟩ answered
  have stored (pRes : Resource) (same : pRes.srv.password = p) :
      propertyWatch.Ensures
        (fun later store => store = properties.secured p ∧ later.srv.password = p)
        (toSpassword pRes) properties := by
    refine fun _ _ _ _ => ⟨?_, same⟩
    rw [← same]
    rfl
  simp only
  split
  · exact stored _ rfl
  · rename_i succeeded
    have gives : properties.Gives (bytes "SPASSWORD") (rc, q, t) := answered _ rfl
    unfold Properties.Gives at gives
    split at gives
    · obtain ⟨-, rfl, -⟩ := gives
      simp only [Bool.false_eq_true, and_false, if_false]
      exact stored _ rfl
    · exact absurd gives succeeded

theorem ensures_withPassword_secret (short : p.length ≤ 255) (given : p ≠ [])
    (clean : (0 : UInt8) ∉ p) (blank : properties (bytes "PASSWORD") = some [])
    (secret : properties (bytes "SPASSWORD") = some (encryptPassword p)) :
    propertyWatch.Ensures
      (fun later store => store = properties.set (bytes "PASSWORD") [] ∧ later.srv.password = p)
      (withPassword pRes) properties := by
  have missing : properties.text (bytes "PASSWORD") = none := by simp [Properties.text, blank]
  refine Watch.ensures_bind.mpr (ensures_queryString ?_)
  rw [missing]
  refine Watch.ensures_perform_bind.mpr ?_
  rintro ⟨rc, q, t⟩ answered
  have gives : properties.Gives (bytes "SPASSWORD") (rc, q, t) := answered _ rfl
  unfold Properties.Gives at gives
  rw [secret] at gives
  obtain ⟨rfl, rfl, -⟩ := gives
  have digits : encryptPassword p ≠ [] := by
    intro none_left
    have length : (encryptPassword p).length = 0 := by rw [none_left]; rfl
    rw [length_encryptPassword] at length
    exact given (List.length_eq_zero_iff.mp (by omega))
  simp only
  rw [if_neg (by simp), if_pos ⟨digits, trivial⟩, fromSpassword,
    decryptPassword_encryptPassword (by omega) clean]
  simp only
  rw [if_neg given]
  refine fun _ _ => ⟨rfl, ?_⟩
  exact List.take_of_length_le short

end Mounting

/-- The mount finds the password, and leaves the plain property empty. -/
def FindsPassword (p : CString) (properties : Properties) (trace : List CallEvent)
    (outcome : Option (Int × Resource)) : Prop :=
  ∃ rc pRes, outcome = some (rc, pRes) ∧ pRes.srv.password = p ∧
    propertyWatch.after properties trace (bytes "PASSWORD") = some []

/-- A password is stored with two digits for each byte and read back from them; a mount that is
given it, and the next one on the properties that this one leaves, both find it. -/
theorem password_survivesRemount {p : CString} (short : p.length ≤ 255) (clean : (0 : UInt8) ∉ p) :
    decryptPassword (encryptPassword p) = some p ∧
    (∀ c ∈ encryptPassword p, IsHexDigit c) ∧
    (encryptPassword p).length = 2 * p.length ∧
    ∀ properties : Properties, p ≠ [] → properties (bytes "PASSWORD") = some p →
      ∀ trace outcome, Run initResource trace outcome → propertyWatch.Admits properties trace →
      ∀ again remounted, Run initResource again remounted →
        propertyWatch.Admits (propertyWatch.after properties trace) again →
        FindsPassword p properties trace outcome ∧
        FindsPassword p (propertyWatch.after properties trace) again remounted ∧
        propertyWatch.after (propertyWatch.after properties trace) again (bytes "SPASSWORD") =
          propertyWatch.after properties trace (bytes "SPASSWORD") := by
  refine ⟨decryptPassword_encryptPassword (by omega) clean, isHexDigit_encryptPassword,
    length_encryptPassword, ?_⟩
  intro properties given plain trace outcome run admitted again remounted rerun readmitted
  have first : propertyWatch.Ensures _ initResource properties :=
    ensures_initResource_property fun _ _ => ensures_withPassword_plain short given plain
  have concluded := Watch.ensures_iff_runs.mp first trace outcome run admitted
  cases outcome with
  | none => exact absurd concluded id
  | some answer =>
      obtain ⟨left, found⟩ := concluded
      have blank : properties.secured p (bytes "PASSWORD") = some [] := Properties.set_same _ _ _
      have secret : properties.secured p (bytes "SPASSWORD") = some (encryptPassword p) := by
        rw [Properties.secured, Properties.set_other (by decide), Properties.set_same]
      rw [left] at readmitted ⊢
      have second : propertyWatch.Ensures _ initResource (properties.secured p) :=
        ensures_initResource_property fun _ _ =>
          ensures_withPassword_secret short given clean blank secret
      have reconcluded := Watch.ensures_iff_runs.mp second again remounted rerun readmitted
      cases remounted with
      | none => exact absurd reconcluded id
      | some reanswer =>
          obtain ⟨releft, refound⟩ := reconcluded
          refine ⟨⟨_, _, rfl, found, ?_⟩, ⟨_, _, rfl, refound, ?_⟩, ?_⟩
          · rw [left]
            exact blank
          · rw [releft]
            exact Properties.set_same _ _ _
          · rw [releft]
            exact Properties.set_other (by decide)

def passProperties : Properties := fun name =>
  if name = bytes "PASSWORD" then some (bytes "pass") else some (bytes "41")

def propertyReplies (properties : Properties) : (R : Type) → Op R → R
  | _, .fsphQueryStringProperty name => (0, properties name, 1)
  | _, op => op.usual

def mountRun (properties : Properties) : List CallEvent × Option (Int × Resource) :=
  exec (fun _ => propertyReplies properties) 0 initResource

def remountProperties : Properties := propertyWatch.after passProperties (mountRun passProperties).1

theorem password_survivesRemount_pass :
    FindsPassword (bytes "pass") passProperties (mountRun passProperties).1
      (mountRun passProperties).2 ∧
    FindsPassword (bytes "pass") remountProperties (mountRun remountProperties).1
      (mountRun remountProperties).2 := by
  have survives := password_survivesRemount (by decide : (bytes "pass").length ≤ 255) (by decide)
  have found := survives.2.2.2 passProperties (by decide) rfl _ _ (run_exec _ _ _) (by decide)
    _ _ (run_exec _ _ _) (by decide : propertyWatch.Admits remountProperties (mountRun remountProperties).1)
  exact ⟨found.1, found.2.1⟩

/-! What `decryptPassword` reads and writes. -/

/-- The offset of `s` in `pszCrypt`, the offsets that have been read there, and the bytes that
have been written to `pszPlain`. -/
structure Decrypting where
  s : Nat := 0
  reads : List Nat := []
  pszPlain : List UInt8 := []

namespace Decrypting

/-- `*s` -/
def look (state : Decrypting) : Decrypting := { state with reads := state.s :: state.reads }

/-- `*s++` -/
def next (state : Decrypting) : Decrypting := { state.look with s := state.s + 1 }

/-- `*d++ = letter` -/
def put (state : Decrypting) (letter : UInt8) : Decrypting :=
  { state with pszPlain := state.pszPlain ++ [letter] }

end Decrypting

def decryptPair (pszCrypt : Nat → UInt8) (state : Decrypting) : Decrypting :=
  state.next.next.put
    ((fromhex (pszCrypt state.s) <<< 4) + fromhex (pszCrypt state.next.s))

inductive Decrypts (pszCrypt : Nat → UInt8) : Decrypting → Decrypting → Prop
  | stop {state : Decrypting} (ended : pszCrypt state.s = 0) :
      Decrypts pszCrypt state (state.look.put 0)
  | pair {state last : Decrypting} (more : pszCrypt state.s ≠ 0)
      (rest : Decrypts pszCrypt (decryptPair pszCrypt state.look) last) :
      Decrypts pszCrypt state last

/-- The value, with its terminator, from an offset on; what is behind it does not matter. -/
def StoredAt (pszCrypt : Nat → UInt8) (offset : Nat) (value : CString) : Prop :=
  (∀ place, place ≤ value.length → pszCrypt (offset + place) = value.getD place 0) ∧
    (0 : UInt8) ∉ value

/-- The loop ends, has read nothing behind the terminator, and has written no more than there
is room for. -/
def DecryptsWithin (pszCrypt : Nat → UInt8) (value : CString) (room : Nat) : Prop :=
  ∃ last, Decrypts pszCrypt {} last ∧ (∀ offset ∈ last.reads, offset ≤ value.length) ∧
    last.pszPlain.length ≤ room

section Loop

variable {pszCrypt : Nat → UInt8} {state last other : Decrypting} {value : CString}

theorem Decrypts.unique (run : Decrypts pszCrypt state last)
    (rerun : Decrypts pszCrypt state other) : last = other := by
  induction run with
  | stop ended =>
      cases rerun with
      | stop => rfl
      | pair more => exact absurd ended more
  | pair more _ ih =>
      cases rerun with
      | stop ended => exact absurd ended more
      | pair _ rest => exact ih rest

theorem Decrypts.reads_subset (run : Decrypts pszCrypt state last) :
    state.s :: state.reads ⊆ last.reads := by
  induction run with
  | stop => exact fun offset member => member
  | @pair state last _ _ ih =>
      intro offset member
      have kept : offset ∈ (decryptPair pszCrypt state.look).reads :=
        List.mem_cons_of_mem _ (List.mem_cons_of_mem _ member)
      exact ih (List.mem_cons_of_mem _ kept)

theorem StoredAt.ended {offset : Nat} (stored : StoredAt pszCrypt offset []) :
    pszCrypt offset = 0 :=
  stored.1 0 (le_refl 0)

theorem StoredAt.first {offset : Nat} {letter : UInt8}
    (stored : StoredAt pszCrypt offset (letter :: value)) :
    pszCrypt offset = letter ∧ letter ≠ 0 := by
  refine ⟨stored.1 0 (Nat.zero_le _), ?_⟩
  rintro rfl
  exact stored.2 List.mem_cons_self

theorem StoredAt.rest {offset : Nat} {letter : UInt8}
    (stored : StoredAt pszCrypt offset (letter :: value)) :
    StoredAt pszCrypt (offset + 1) value := by
  refine ⟨fun place inside => ?_, fun member => stored.2 (List.mem_cons_of_mem _ member)⟩
  have next := stored.1 (place + 1) (Nat.succ_le_succ inside)
  rw [Nat.add_assoc, Nat.add_comm 1 place, next]
  rfl

theorem decrypts_of_decryptBytes {plain : List UInt8} (stored : StoredAt pszCrypt state.s value)
    (paired : decryptBytes value = some plain) :
    ∃ last, Decrypts pszCrypt state last ∧
      (∀ offset ∈ last.reads, offset ∈ state.reads ∨ offset ≤ state.s + value.length) ∧
      last.pszPlain = state.pszPlain ++ plain ++ [0] := by
  induction value using decryptBytes.induct generalizing state plain with
  | case1 =>
      obtain rfl := Option.some.inj paired
      refine ⟨_, .stop stored.ended, fun offset member => ?_, by simp [Decrypting.put, Decrypting.look]⟩
      rcases List.mem_cons.mp member with rfl | before
      · exact .inr (Nat.le_add_right _ _)
      · exact .inl before
  | case2 letter => cases paired
  | case3 first second rest ih =>
      obtain ⟨decoded, found, rfl⟩ := Option.map_eq_some_iff.mp paired
      obtain ⟨here, more⟩ := stored.first
      have after : (decryptPair pszCrypt state.look).s = state.s + 1 + 1 := rfl
      have storedRest : StoredAt pszCrypt (decryptPair pszCrypt state.look).s rest := stored.rest.rest
      obtain ⟨last, run, reads, written⟩ := ih storedRest found
      refine ⟨last, .pair (by rw [here]; exact more) run, fun offset member => ?_, ?_⟩
      · rw [List.length_cons, List.length_cons]
        rcases reads offset member with before | inside
        · rcases List.mem_cons.mp before with rfl | before
          · exact .inr (by simp only [Decrypting.next, Decrypting.look]; omega)
          · rcases List.mem_cons.mp before with rfl | before
            · exact .inr (by simp only [Decrypting.look]; omega)
            · rcases List.mem_cons.mp before with rfl | before
              · exact .inr (by omega)
              · exact .inl before
        · rw [after] at inside
          exact .inr (by omega)
      · have digits : (decryptPair pszCrypt state.look).pszPlain =
            state.pszPlain ++ [(fromhex first <<< 4) + fromhex second] := by
          rw [← here, ← stored.rest.first.1]
          rfl
        rw [written, digits]
        simp

theorem reads_behind (stored : StoredAt pszCrypt state.s value) (odd : decryptBytes value = none)
    (run : Decrypts pszCrypt state last) : state.s + value.length + 1 ∈ last.reads := by
  induction value using decryptBytes.induct generalizing state with
  | case1 => cases odd
  | case2 letter =>
      obtain ⟨here, more⟩ := stored.first
      cases run with
      | stop ended => exact absurd (here.symm.trans ended) more
      | pair _ rest => exact rest.reads_subset List.mem_cons_self
  | case3 first second rest ih =>
      obtain ⟨here, more⟩ := stored.first
      have odd : decryptBytes rest = none := Option.map_eq_none_iff.mp odd
      cases run with
      | stop ended => exact absurd (here.symm.trans ended) more
      | pair _ behind =>
          have storedRest : StoredAt pszCrypt (decryptPair pszCrypt state.look).s rest :=
            stored.rest.rest
          have step : (decryptPair pszCrypt state.look).s + rest.length + 1 =
              state.s + (first :: second :: rest).length + 1 := by
            change state.s + 1 + 1 + rest.length + 1 = state.s + (rest.length + 1 + 1) + 1
            omega
          exact step ▸ ih storedRest odd behind

theorem length_decryptBytes {plain : List UInt8} (paired : decryptBytes value = some plain) :
    value.length = 2 * plain.length := by
  induction value using decryptBytes.induct generalizing plain with
  | case1 =>
      obtain rfl := Option.some.inj paired
      rfl
  | case2 letter => cases paired
  | case3 first second rest ih =>
      obtain ⟨decoded, found, rfl⟩ := Option.map_eq_some_iff.mp paired
      have shorter := ih found
      simp only [List.length_cons]
      omega

theorem decryptBytes_eq_none_iff : decryptBytes value = none ↔ value.length % 2 = 1 := by
  induction value using decryptBytes.induct with
  | case1 => simp [decryptBytes]
  | case2 letter => simp [decryptBytes]
  | case3 first second rest ih =>
      rw [decryptBytes, Option.map_eq_none_iff, ih, List.length_cons, List.length_cons]
      omega

/-- The model of `decryptPassword` gives nothing where the loop is not safe, and else the string
that the loop has written. -/
theorem decryptPassword_within (stored : StoredAt pszCrypt 0 value) :
    (DecryptsWithin pszCrypt value 1024 ↔ decryptPassword value ≠ none) ∧
      ∀ last p, Decrypts pszCrypt {} last → decryptPassword value = some p →
        p = beforeFirst 0 last.pszPlain.dropLast := by
  unfold decryptPassword
  cases paired : decryptBytes value with
  | none =>
      refine ⟨iff_of_false ?_ (not_not.mpr rfl), fun last p _ none_given => ?_⟩
      · rintro ⟨last, run, reads, -⟩
        have behind := reads _ (reads_behind stored paired run)
        simp only at behind
        omega
      · cases none_given
  | some plain =>
      obtain ⟨ended, run, reads, written⟩ :=
        @decrypts_of_decryptBytes pszCrypt {} value plain stored paired
      have length : ended.pszPlain.length = plain.length + 1 := by simp [written]
      constructor
      · simp only
        split
        · rename_i long
          refine iff_of_false ?_ (not_not.mpr rfl)
          rintro ⟨last, rerun, -, room⟩
          rw [← run.unique rerun] at room
          omega
        · refine iff_of_true ⟨ended, run, fun offset member => ?_, by omega⟩ (Option.some_ne_none _)
          rcases reads offset member with before | inside
          · simp at before
          · simpa using inside
      · intro last p rerun given
        rw [← run.unique rerun, written]
        simp only at given
        split at given
        · cases given
        · obtain rfl := Option.some.inj given
          simp

end Loop

/-- A stored value is decoded without a read behind its terminator and within the 1024 bytes
of its destination exactly when its length is even and at most 2046. -/
theorem storedPassword_within_iff {pszCrypt : Nat → UInt8} {value : CString}
    (stored : StoredAt pszCrypt 0 value) :
    DecryptsWithin pszCrypt value 1024 ↔ value.length % 2 = 0 ∧ value.length ≤ 2046 := by
  rw [(decryptPassword_within stored).1, decryptPassword]
  cases paired : decryptBytes value with
  | none =>
      have odd := decryptBytes_eq_none_iff.mp paired
      exact iff_of_false (not_not.mpr rfl) (by omega)
  | some plain =>
      have length := length_decryptBytes paired
      simp only
      split
      · exact iff_of_false (not_not.mpr rfl) (by omega)
      · exact iff_of_true (Option.some_ne_none _) (by omega)

def zeroBehind (value : CString) (place : Nat) : UInt8 := value.getD place 0

theorem storedAt_zeroBehind {value : CString} (clean : (0 : UInt8) ∉ value) :
    StoredAt (zeroBehind value) 0 value :=
  ⟨fun place _ => by rw [Nat.zero_add]; rfl, clean⟩

theorem storedPassword_within_pair :
    DecryptsWithin (zeroBehind (bytes "41")) (bytes "41") 1024 ↔
      (bytes "41").length % 2 = 0 ∧ (bytes "41").length ≤ 2046 :=
  storedPassword_within_iff (storedAt_zeroBehind (by decide))

/-- One digit alone. -/
theorem oddPassword_readsBehind :
    ∃ pszCrypt, StoredAt pszCrypt 0 (bytes "4") ∧ ¬ DecryptsWithin pszCrypt (bytes "4") 1024 := by
  have stored : StoredAt (zeroBehind (bytes "4")) 0 (bytes "4") := storedAt_zeroBehind (by decide)
  refine ⟨_, stored, ?_⟩
  rintro ⟨last, run, reads, -⟩
  exact absurd (reads _ (reads_behind stored rfl run)) (by decide)

end NdpSmb
