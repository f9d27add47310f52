import NdpSmb.PathSplit
import NdpSmb.CallRule

/-!
What `NdpMove` renames: the source is parsed, the destination is cut where the parsed source
begins.
-/

namespace NdpSmb

open ByteString Interaction

/-! How the components of two paths line up. -/

section Components

variable {ph : Platform} {count : Nat} {path first rest lead src dst : CString}

theorem nextComponent_append (absent : backslash ∉ first) :
    nextComponent (first ++ backslash :: rest) = (first, rest) := by
  have before : beforeFirst backslash (first ++ backslash :: rest) = first :=
    beforeFirst_append_separator backslash absent
  have whole := beforeFirst_append_fromFirst backslash (first ++ backslash :: rest)
  rw [before] at whole
  rw [nextComponent, before, List.append_cancel_left whole]
  rfl

theorem nextComponent_single (absent : backslash ∉ path) : nextComponent path = (path, []) := by
  have whole : beforeFirst backslash path = path := by
    apply List.takeWhile_eq_self_iff.mpr
    intro letter member
    simp only [decide_eq_true_eq]
    rintro rfl
    exact absent member
  have both := beforeFirst_append_fromFirst backslash path
  rw [whole] at both
  rw [nextComponent, whole, List.append_right_eq_self.mp both]
  rfl

theorem path_cases (path : CString) :
    backslash ∉ path ∨ ∃ first rest, backslash ∉ first ∧ path = first ++ backslash :: rest := by
  by_cases present : backslash ∈ path
  · obtain ⟨first, rest, whole, absent⟩ := List.eq_append_cons_of_mem present
    exact .inr ⟨first, rest, absent, whole⟩
  · exact .inl present

theorem count_append_slash (absent : backslash ∉ first) :
    (first ++ backslash :: rest).count backslash = rest.count backslash + 1 := by
  rw [List.count_append, List.count_eq_zero.mpr absent, List.count_cons_self, Nat.zero_add]

theorem behindComponents_nil (count : Nat) : behindComponents count [] = [] := by
  induction count with
  | zero => rfl
  | succ count ih => exact ih

theorem behindComponents_short (few : path.count backslash < count) :
    behindComponents count path = [] := by
  induction count generalizing path with
  | zero => omega
  | succ count ih =>
      rw [behindComponents]
      rcases path_cases path with absent | ⟨first, rest, absent, rfl⟩
      · rw [nextComponent_single absent]
        exact behindComponents_nil count
      · rw [count_append_slash absent] at few
        rw [nextComponent_append absent]
        change behindComponents count rest = []
        exact ih (by omega)

theorem components_append (rest : CString) (levelled : lead.count backslash + 1 = count) :
    leadingComponents count (lead ++ backslash :: rest) = leadingComponents count lead ∧
      behindComponents count (lead ++ backslash :: rest) = rest := by
  induction count generalizing lead with
  | zero => omega
  | succ count ih =>
      simp only [leadingComponents, behindComponents]
      rcases path_cases lead with absent | ⟨first, more, absent, rfl⟩
      · have none : count = 0 := by
          rw [List.count_eq_zero.mpr absent] at levelled
          omega
        subst none
        rw [nextComponent_append absent, nextComponent_single absent]
        exact ⟨rfl, rfl⟩
      · rw [count_append_slash absent] at levelled
        rw [List.append_assoc, List.cons_append, nextComponent_append absent,
          nextComponent_append absent]
        have inner : more.count backslash + 1 = count := by omega
        obtain ⟨leading, behind⟩ := ih inner
        exact ⟨congrArg (first :: ·) leading, behind⟩

theorem components_concat (few : path.count backslash < count) :
    leadingComponents count (path ++ [backslash]) = leadingComponents count path ∧
      behindComponents count (path ++ [backslash]) = [] := by
  induction count generalizing path with
  | zero => omega
  | succ count ih =>
      simp only [leadingComponents, behindComponents]
      rcases path_cases path with absent | ⟨first, more, absent, rfl⟩
      · rw [nextComponent_append absent, nextComponent_single absent]
        exact ⟨rfl, behindComponents_nil count⟩
      · rw [count_append_slash absent] at few
        rw [List.append_assoc, List.cons_append, nextComponent_append absent,
          nextComponent_append absent]
        have inner : more.count backslash < count := by omega
        obtain ⟨leading, behind⟩ := ih inner
        exact ⟨congrArg (first :: ·) leading, behind⟩

theorem components_cut (count : Nat) (path : CString) :
    path.count backslash < count + 1 ∨
      ∃ lead rest, path = lead ++ backslash :: rest ∧ lead.count backslash = count := by
  induction count generalizing path with
  | zero =>
      rcases path_cases path with absent | ⟨first, rest, absent, whole⟩
      · rw [List.count_eq_zero.mpr absent]
        exact .inl Nat.zero_lt_one
      · exact .inr ⟨first, rest, whole, List.count_eq_zero.mpr absent⟩
  | succ count ih =>
      rcases path_cases path with absent | ⟨first, more, absent, rfl⟩
      · rw [List.count_eq_zero.mpr absent]
        exact .inl (Nat.succ_pos _)
      · rcases ih more with few | ⟨lead, rest, rfl, levels⟩
        · rw [count_append_slash absent]
          exact .inl (Nat.succ_lt_succ few)
        · refine .inr ⟨first ++ backslash :: lead, rest, ?_, ?_⟩
          · rw [List.append_assoc, List.cons_append]
          · rw [count_append_slash absent, levels]

theorem length_components (count : Nat) (path : CString) :
    (leadingComponents count path).flatten.length + min count (path.count backslash) +
      (behindComponents count path).length = path.length := by
  induction count generalizing path with
  | zero =>
      rw [leadingComponents, behindComponents, List.flatten_nil, List.length_nil]
      omega
  | succ count ih =>
      rw [leadingComponents, behindComponents, List.flatten_cons, List.length_append]
      have tail := ih (nextComponent path).2
      rcases path_cases path with absent | ⟨first, more, absent, rfl⟩
      · simp only [nextComponent_single absent, List.count_nil, List.length_nil] at tail ⊢
        rw [List.count_eq_zero.mpr absent]
        omega
      · simp only [nextComponent_append absent] at tail ⊢
        rw [count_append_slash absent, List.length_append, List.length_cons]
        omega

theorem Platform.SameName.append {left right more others : CString}
    (same : ph.SameName left right) (tail : ph.SameName more others) :
    ph.SameName (left ++ more) (right ++ others) := by
  unfold Platform.SameName FoldEq at *
  rw [List.map_append, List.map_append, same, tail]

theorem Platform.SameName.cons {left right : CString} (letter : UInt8)
    (same : ph.SameName left right) : ph.SameName (letter :: left) (letter :: right) :=
  have first : ph.SameName [letter] [letter] := FoldEq.refl _
  first.append same

theorem Platform.sameName_cons_iff {left right : CString} (letter : UInt8) :
    ph.SameName (letter :: left) (letter :: right) ↔ ph.SameName left right := by
  unfold Platform.SameName FoldEq
  rw [List.map_cons, List.map_cons, List.cons.injEq, and_iff_right rfl]

theorem Platform.SameName.count_backslash {left right : CString} (same : ph.SameName left right) :
    left.count backslash = right.count backslash := by
  have folded (text : CString) :
      (text.map ph.toUpper).count (ph.toUpper backslash) = text.count backslash := by
    rw [List.count, List.countP_map, List.count]
    apply List.countP_congr
    intro letter _
    simp [ph.toUpper_backslash]
  rw [← folded left, ← folded right, show left.map ph.toUpper = right.map ph.toUpper from same]

theorem nextComponent_same (same : ph.SameName src dst) :
    ph.SameName (nextComponent src).1 (nextComponent dst).1 ∧
      ph.SameName (nextComponent src).2 (nextComponent dst).2 := by
  rcases path_cases src with absent | ⟨first, rest, absent, rfl⟩
  · have other : backslash ∉ dst := fun present =>
      absent ((FoldEq.mem_iff same ph.toUpper_backslash).mpr present)
    rw [nextComponent_single absent, nextComponent_single other]
    exact ⟨same, FoldEq.refl _⟩
  · have folded : dst.map ph.toUpper =
        first.map ph.toUpper ++ ph.toUpper backslash :: rest.map ph.toUpper := by
      have whole := same.symm
      unfold Platform.SameName FoldEq at whole
      rw [whole, List.map_append, List.map_cons]
    obtain ⟨start, tail, rfl, sameFirst, sameTail⟩ := List.map_eq_append_iff.mp folded
    obtain ⟨letter, others, rfl, slash, sameRest⟩ := List.map_eq_cons_iff.mp sameTail
    obtain rfl := (ph.toUpper_backslash letter).mp slash
    have alike : ph.SameName first start := Eq.symm sameFirst
    have other : backslash ∉ start := fun present =>
      absent ((FoldEq.mem_iff alike ph.toUpper_backslash).mpr present)
    rw [nextComponent_append absent, nextComponent_append other]
    exact ⟨alike, Eq.symm sameRest⟩

theorem leadingComponents_same (same : ph.SameName src dst) :
    List.Forall₂ ph.SameName (leadingComponents count src) (leadingComponents count dst) := by
  induction count generalizing src dst with
  | zero => exact .nil
  | succ count ih => exact .cons (nextComponent_same same).1 (ih (nextComponent_same same).2)

theorem same_of_components
    (same : List.Forall₂ ph.SameName (leadingComponents count src) (leadingComponents count dst))
    (few : src.count backslash < count) (long : src.length ≤ dst.length) :
    ph.SameName src (dst.take src.length) := by
  induction count generalizing src dst with
  | zero => omega
  | succ count ih =>
      simp only [leadingComponents, List.forall₂_cons] at same
      obtain ⟨sameFirst, sameRest⟩ := same
      rcases path_cases src with absent | ⟨first, rest, absent, rfl⟩
      · rw [nextComponent_single absent] at sameFirst
        have length := FoldEq.length_eq sameFirst
        have start : dst.take src.length = (nextComponent dst).1 := by
          have begins : (nextComponent dst).1 <+: dst := List.takeWhile_prefix _
          rw [length, ← List.prefix_iff_eq_take.mp begins]
        rw [start]
        exact sameFirst
      · rw [nextComponent_append absent] at sameFirst sameRest
        rw [count_append_slash absent] at few
        rw [List.length_append, List.length_cons] at long ⊢
        rcases path_cases dst with single | ⟨start, more, other, rfl⟩
        · simp only [nextComponent_single single] at sameFirst
          have length := FoldEq.length_eq sameFirst
          omega
        · simp only [nextComponent_append other] at sameFirst sameRest
          have length := FoldEq.length_eq sameFirst
          rw [List.length_append, List.length_cons] at long
          have sameTail := ih sameRest (by omega) (by omega)
          have taken : (start ++ backslash :: more).take (first.length + (rest.length + 1)) =
              start ++ backslash :: more.take rest.length := by
            rw [length, List.take_length_add_append, List.take_succ_cons]
          rw [taken]
          exact sameFirst.append (sameTail.cons backslash)

theorem flatten_length_same {left right : List CString}
    (same : List.Forall₂ ph.SameName left right) :
    left.flatten.length = right.flatten.length := by
  induction same with
  | nil => rfl
  | cons first _ ih =>
      rw [List.flatten_cons, List.flatten_cons, List.length_append, List.length_append, ih,
        FoldEq.length_eq first]

end Components

def withSlash (name : CString) : CString :=
  if name.head? = some backslash then name else backslash :: name

/-- The source is a file on its share, and the destination starts with another name than that
of the share, or goes on with a single backslash behind it. -/
def MovesFile (ph : Platform) (levels : Nat) (src dst : CString) : Prop :=
  ∃ lead rest, src = lead ++ backslash :: rest ∧ lead.count backslash + 1 = levels ∧
    (¬ ph.SameName lead (dst.take lead.length) ∨
      ∃ name, dst.drop lead.length = backslash :: name ∧ name.head? ≠ some backslash)

/-- The source names its share at most, and the destination starts with something else in place
of it (its last byte is not compared), or names the same and hardly more. -/
def MovesShare (ph : Platform) (levels : Nat) (src dst : CString) : Prop :=
  src.count backslash < levels ∧
    (src = [] ∧ dst = [] ∨ src ≠ [] ∧
      (¬ ph.SameName src.dropLast (dst.take (src.length - 1)) ∨
        ph.SameName src (dst.take src.length) ∧
          (dst.drop src.length = [] ∨ dst.drop src.length = [backslash] ∨
            src.count backslash + 1 = levels ∧
              (dst.drop src.length).head? = some backslash)))

/-- How the paths of a move line up: no component is taken off, or they are taken off right. -/
def LinesUp (ph : Platform) (levels : Nat) (src dst : CString) : Prop :=
  levels = 0 ∨ MovesFile ph levels src dst ∨ MovesShare ph levels src dst

def NamesTarget (ph : Platform) (levels : Nat) (src dst name : CString) : Prop :=
  withSlash name = backslash :: behindComponents levels dst ∧
    List.Forall₂ ph.SameName (leadingComponents levels src) (leadingComponents levels dst)

def CutRight (ph : Platform) (levels : Nat) (src dst : CString) :
    Option (Except Int CString) → Prop
  | none => False
  | some (.error rc) => rc ≠ noError
  | some (.ok name) => NamesTarget ph levels src dst name

section Target

variable {ph : Platform} {levels : Nat} {src dst lead rest name : CString}

theorem withSlash_slash (rest : CString) : withSlash (backslash :: rest) = backslash :: rest :=
  if_pos rfl

theorem length_withSlash (name : CString) :
    (withSlash name).length = name.length ∨ withSlash name = backslash :: name := by
  unfold withSlash
  split
  · exact .inl rfl
  · exact .inr rfl

theorem withSlash_plain (plain : name.head? ≠ some backslash) :
    withSlash name = backslash :: name :=
  if_neg plain

theorem moveTarget_file :
    moveTarget ph (backslash :: (lead ++ backslash :: rest)) (backslash :: dst)
        (backslash :: rest) =
      if ph.SameName lead (dst.take lead.length) then
        if dst.length < lead.length + 1 then none
        else some (.ok (dst.drop (lead.length + 1)))
      else some (.error errorWriteProtect) := by
  have longer : (backslash :: (lead ++ backslash :: rest)).length >
      (backslash :: rest).length := by
    simp only [List.length_cons, List.length_append]
    omega
  have taken : (backslash :: (lead ++ backslash :: rest)).length - (backslash :: rest).length =
      lead.length + 1 := by
    simp only [List.length_cons, List.length_append]
    omega
  simp only [moveTarget]
  rw [if_pos longer, taken]
  simp only [List.take_succ_cons, List.take_left, Platform.sameName_cons_iff, List.length_cons,
    List.drop_succ_cons, Nat.add_lt_add_iff_right]

theorem moveTarget_share (present : src ≠ []) :
    moveTarget ph (backslash :: src) (backslash :: dst) [backslash] =
      if ph.SameName src.dropLast (dst.take (src.length - 1)) then
        if dst.length < src.length then none else some (.ok (dst.drop src.length))
      else some (.error errorWriteProtect) := by
  have some : 0 < src.length := List.length_pos_iff.mpr present
  have longer : (backslash :: src).length > [backslash].length := by
    simp only [List.length_cons, List.length_nil]
    omega
  have taken : (backslash :: src).length - [backslash].length = src.length - 1 + 1 := by
    simp only [List.length_cons, List.length_nil]
    omega
  simp only [moveTarget]
  rw [if_pos longer, taken]
  simp only [List.take_succ_cons, Platform.sameName_cons_iff, List.length_cons,
    List.drop_succ_cons, Nat.add_lt_add_iff_right, ← List.dropLast_eq_take]
  rw [Nat.sub_add_cancel some]

theorem moveTarget_whole (szSrc szDst : CString) :
    moveTarget ph szSrc szDst szSrc = some (.ok szDst) :=
  if_neg (lt_irrefl _)

theorem namesTarget_file (rest : CString) (letter : UInt8) (name : CString) {start : CString}
    (same : ph.SameName lead start)
    (levelled : lead.count backslash + 1 = levels) :
    NamesTarget ph levels (lead ++ backslash :: rest) (start ++ letter :: name) name ↔
      letter = backslash ∧ name.head? ≠ some backslash := by
  have counted := same.count_backslash
  have length := FoldEq.length_eq same
  by_cases slash : letter = backslash
  · subst slash
    obtain ⟨leading, behind⟩ := components_append name (counted ▸ levelled)
    unfold NamesTarget
    rw [leading, behind, (components_append rest levelled).1, and_iff_left (leadingComponents_same same),
      and_iff_right rfl]
    constructor
    · intro whole slashed
      rw [withSlash, if_pos slashed] at whole
      exact absurd (congrArg List.length whole) (by simp)
    · exact withSlash_plain
  · refine iff_of_false ?_ fun both => slash both.1
    rintro ⟨whole, alike⟩
    rw [(components_append rest levelled).1] at alike
    have shorter := length_components levels lead
    have longer := length_components levels (start ++ letter :: name)
    rw [behindComponents_short (by omega), List.length_nil, flatten_length_same alike] at shorter
    rw [List.length_append, List.length_cons] at longer
    have named : name.length ≤ (behindComponents levels (start ++ letter :: name)).length := by
      omega
    have behind : (behindComponents levels (start ++ letter :: name)).length = name.length := by
      have sized := congrArg List.length whole
      rw [List.length_cons] at sized
      rcases length_withSlash name with same | slashed
      · omega
      · rw [slashed, List.length_cons] at sized
        omega
    rcases components_cut (levels - 1) (start ++ letter :: name) with few | ⟨first, more, cut, count⟩
    · omega
    · have last : behindComponents levels (start ++ letter :: name) = more := by
        rw [cut]
        exact (components_append more (by omega)).2
      rw [last] at behind
      have tails := (List.append_inj' cut (by rw [List.length_cons, List.length_cons, behind])).2
      exact slash (List.cons.inj tails).1

theorem namesTarget_share (ph : Platform) (more : CString) {start : CString}
    (length : start.length = src.length)
    (few : src.count backslash < levels) :
    NamesTarget ph levels src (start ++ more) more ↔
      ph.SameName src start ∧ (more = [] ∨ more = [backslash] ∨
        src.count backslash + 1 = levels ∧ more.head? = some backslash) := by
  constructor
  · rintro ⟨whole, alike⟩
    have same := same_of_components alike few (by rw [List.length_append]; omega)
    rw [← length, List.take_left] at same
    have counted := same.count_backslash
    have source := length_components levels src
    have target := length_components levels (start ++ more)
    rw [behindComponents_short few, List.length_nil, flatten_length_same alike] at source
    rw [List.length_append, List.count_append] at target
    have short (within : (start ++ more).count backslash < levels) :
        withSlash more = [backslash] := by
      rw [whole, behindComponents_short within]
    rw [List.count_append] at short
    have sized := congrArg List.length whole
    rw [List.length_cons] at sized
    refine ⟨same, ?_⟩
    by_cases slashed : more.head? = some backslash
    · by_cases deep : src.count backslash + 1 = levels
      · exact .inr (.inr ⟨deep, slashed⟩)
      · rw [withSlash, if_pos slashed] at sized
        have last := short (by omega)
        rw [withSlash, if_pos slashed] at last
        exact .inr (.inl last)
    · rw [withSlash_plain slashed, List.length_cons] at sized
      have last := short (by omega)
      rw [withSlash_plain slashed] at last
      exact .inl (List.cons.inj last).2
  · rintro ⟨same, empty | slash | ⟨deep, slashed⟩⟩
    · subst empty
      rw [List.append_nil]
      refine ⟨?_, leadingComponents_same same⟩
      rw [behindComponents_short (same.count_backslash ▸ few)]
      rfl
    · subst slash
      obtain ⟨leading, behind⟩ := components_concat (same.count_backslash ▸ few)
      rw [NamesTarget, leading, behind]
      exact ⟨rfl, leadingComponents_same same⟩
    · cases more with
      | nil => cases slashed
      | cons letter rest =>
          obtain rfl := Option.some.inj slashed
          obtain ⟨leading, behind⟩ := components_append rest (same.count_backslash ▸ deep)
          rw [NamesTarget, leading, behind]
          exact ⟨withSlash_slash rest, leadingComponents_same same⟩

theorem cutRight_file (levelled : lead.count backslash + 1 = levels) :
    CutRight ph levels (lead ++ backslash :: rest) dst
        (moveTarget ph (backslash :: (lead ++ backslash :: rest)) (backslash :: dst)
          (backslash :: rest)) ↔
      ¬ ph.SameName lead (dst.take lead.length) ∨
        ∃ name, dst.drop lead.length = backslash :: name ∧ name.head? ≠ some backslash := by
  rw [moveTarget_file]
  by_cases same : ph.SameName lead (dst.take lead.length)
  · rw [if_pos same]
    simp only [same, not_true, false_or]
    by_cases short : dst.length < lead.length + 1
    · rw [if_pos short]
      refine iff_of_false id ?_
      rintro ⟨name, rest, -⟩
      have sized := congrArg List.length rest
      rw [List.length_drop, List.length_cons] at sized
      omega
    · rw [if_neg short]
      have inside : lead.length < dst.length := by omega
      have dropped := List.drop_eq_getElem_cons inside
      have target := namesTarget_file rest dst[lead.length] (dst.drop (lead.length + 1)) same
        levelled
      rw [← dropped, List.take_append_drop] at target
      refine target.trans ?_
      rw [dropped]
      constructor
      · rintro ⟨slash, plain⟩
        exact ⟨_, congrArg (· :: _) slash, plain⟩
      · rintro ⟨name, whole, plain⟩
        obtain ⟨slash, rfl⟩ := List.cons.inj whole
        exact ⟨slash, plain⟩
  · rw [if_neg same]
    exact iff_of_true (by decide : errorWriteProtect ≠ noError) (.inl same)

theorem cutRight_share (present : src ≠ []) (few : src.count backslash < levels) :
    CutRight ph levels src dst (moveTarget ph (backslash :: src) (backslash :: dst) [backslash]) ↔
      ¬ ph.SameName src.dropLast (dst.take (src.length - 1)) ∨
        ph.SameName src (dst.take src.length) ∧
          (dst.drop src.length = [] ∨ dst.drop src.length = [backslash] ∨
            src.count backslash + 1 = levels ∧
              (dst.drop src.length).head? = some backslash) := by
  rw [moveTarget_share present]
  by_cases same : ph.SameName src.dropLast (dst.take (src.length - 1))
  · rw [if_pos same]
    simp only [same, not_true, false_or]
    by_cases short : dst.length < src.length
    · rw [if_pos short]
      refine iff_of_false id fun both => ?_
      have length := FoldEq.length_eq both.1
      rw [List.length_take] at length
      omega
    · rw [if_neg short]
      have length : (dst.take src.length).length = src.length := by
        rw [List.length_take]
        omega
      have target := namesTarget_share ph (dst.drop src.length) length few
      rw [List.take_append_drop] at target
      exact target
  · rw [if_neg same]
    exact iff_of_true (by decide : errorWriteProtect ≠ noError) (.inl same)

theorem cutRight_root (levelled : 0 < levels) :
    CutRight ph levels [] dst (moveTarget ph [backslash] (backslash :: dst) [backslash]) ↔
      dst = [] := by
  rw [moveTarget_whole]
  constructor
  · rintro ⟨whole, alike⟩
    rw [withSlash_slash, List.cons.injEq, and_iff_right rfl] at whole
    have source := length_components levels []
    have target := length_components levels dst
    rw [flatten_length_same alike, List.length_nil] at source
    rw [← whole] at target
    have none : dst.count backslash < levels := by omega
    rw [whole]
    exact behindComponents_short none
  · rintro rfl
    refine ⟨?_, leadingComponents_same (FoldEq.refl _)⟩
    rw [behindComponents_nil]
    rfl

theorem cutRight_iff (ph : Platform) (levels : Nat) (src dst : CString) :
    CutRight ph levels src dst (moveTarget ph (backslash :: src) (backslash :: dst)
      (backslash :: behindComponents levels src)) ↔ LinesUp ph levels src dst := by
  unfold LinesUp
  cases levels with
  | zero =>
      rw [behindComponents, moveTarget_whole]
      exact iff_of_true ⟨withSlash_slash dst, .nil⟩ (.inl rfl)
  | succ levels =>
      rw [or_iff_right (Nat.succ_ne_zero levels)]
      rcases components_cut levels src with few | ⟨lead, rest, rfl, count⟩
      · have noFile : ¬ MovesFile ph (levels + 1) src dst := by
          rintro ⟨lead, rest, rfl, levelled, -⟩
          rw [List.count_append, List.count_cons_self] at few
          omega
        rw [or_iff_right noFile, MovesShare, and_iff_right few, behindComponents_short few]
        by_cases root : src = []
        · subst root
          rw [cutRight_root (Nat.succ_pos levels)]
          simp
        · rw [cutRight_share root few]
          simp [root]
      · have levelled : lead.count backslash + 1 = levels + 1 := congrArg (· + 1) count
        have noShare : ¬ MovesShare ph (levels + 1) (lead ++ backslash :: rest) dst := by
          rintro ⟨few, -⟩
          rw [List.count_append, List.count_cons_self] at few
          omega
        rw [or_iff_left noShare, (components_append rest levelled).2, cutRight_file levelled]
        constructor
        · intro right
          exact ⟨lead, rest, rfl, levelled, right⟩
        · rintro ⟨first, more, whole, again, right⟩
          have same : rest = more := by
            rw [← (components_append rest levelled).2, whole, (components_append more again).2]
          obtain rfl := same
          obtain rfl := List.append_cancel_right whole
          exact right

end Target

/-! What is renamed in a run. -/

def renameOf : CallEvent → Option (CString × CString)
  | ⟨.request _ (.cliRename oldname newname), _⟩ => some (oldname, newname)
  | _ => none

def renames (trace : List CallEvent) : List (CString × CString) := trace.filterMap renameOf

def renameWatch (broken : List (CString × CString) → Prop) : Watch Op (List (CString × CString)) where
  observe seen event :=
    match renameOf event with
    | none => seen
    | some names => seen ++ [names]
  crash := broken

def PathFits (ph : Platform) (pRes : Resource) (path : CString) : Prop :=
  List.Forall₂ (Fits ph) (pRes.leading path) (pRes.srv.fields.drop pRes.rootlevel) ∧
    (pRes.serverPath path).length ≤ cchmaxpath

/-- Both names are those that `pathparser` computes, and lie on one share. -/
def RenamesTo (ph : Platform) (pRes : Resource) (szSrc szDst : CString)
    (names : CString × CString) : Prop :=
  names.1 = pRes.serverPath szSrc ∧ withSlash names.2 = pRes.serverPath szDst ∧
    List.Forall₂ ph.SameName (pRes.leading szSrc) (pRes.leading szDst)

structure MovesOrRefuses (ph : Platform) (pRes : Resource) (szSrc szDst : CString)
    (trace : List CallEvent) (outcome : Option (Int × Session)) : Prop where
  renamed : ∀ names ∈ renames trace, RenamesTo ph pRes szSrc szDst names
  refused : renames trace = [] → ∀ rc t, outcome = some (rc, t) → rc ≠ noError
  /-- It reads nothing behind the destination; only the source may be too long. -/
  inside : outcome = none → ¬ PathFits ph pRes szSrc

section Move

variable {ph : Platform} {s t : Session} {szSrc szDst szPath src : CString}
  {broken : List (CString × CString) → Prop} {pRes : Resource} {seen : List (CString × CString)}

theorem renames_eq (trace : List CallEvent) :
    (renameWatch broken).after seen trace = seen ++ renames trace := by
  induction trace generalizing seen with
  | nil => exact (List.append_nil seen).symm
  | cons event rest ih =>
      rw [Watch.after_cons, ih]
      unfold renames renameWatch
      cases found : renameOf event with
      | none => simp [found]
      | some names => simp [found]

def MoveAnswered (ph : Platform) (pRes : Resource) (szSrc szDst : CString) (rc : Int)
    (seen : List (CString × CString)) : Prop :=
  (∀ names ∈ seen, RenamesTo ph pRes szSrc szDst names) ∧ (seen = [] → rc ≠ noError)

def MoveOverrun (ph : Platform) (pRes : Resource) (szSrc szDst : CString)
    (seen : List (CString × CString)) : Prop :=
  (∀ names ∈ seen, RenamesTo ph pRes szSrc szDst names) ∧ ¬ PathFits ph pRes szSrc

theorem movesOrRefuses_iff {program : Program (Int × Session)} :
    (∀ trace outcome, Run program trace outcome →
      MovesOrRefuses ph pRes szSrc szDst trace outcome) ↔
    (renameWatch (MoveOverrun ph pRes szSrc szDst)).Ensures
      (fun answer later => MoveAnswered ph pRes szSrc szDst answer.1 later) program [] := by
  rw [Watch.ensures_iff_runs]
  constructor
  · intro all trace outcome run _
    obtain ⟨renamed, refused, inside⟩ := all trace outcome run
    rw [renames_eq, List.nil_append]
    cases outcome with
    | some answer => exact ⟨renamed, fun none => refused none answer.1 answer.2 rfl⟩
    | none => exact ⟨renamed, inside rfl⟩
  · intro all trace outcome run
    have concluded := all trace outcome run (Watch.admits_of_forall _ fun _ _ _ => trivial)
    rw [renames_eq, List.nil_append] at concluded
    cases outcome with
    | some answer =>
        constructor
        case renamed => exact concluded.1
        case refused =>
          rintro none rc t same
          obtain rfl := Option.some.inj same
          exact concluded.2 none
        case inside =>
          intro none
          cases none
    | none =>
        constructor
        case renamed => exact concluded.1
        case refused =>
          rintro - rc t same
          cases same
        case inside => exact fun _ => concluded.2

theorem ensures_pathparser_move (plain : iftestpath szPath = false)
    (breaks : ¬ PathFits ph s.pRes szPath → broken []) :
    (renameWatch broken).Ensures
      (fun answer later => later = [] ∧ answer.2.2 = s.pRes.serverPath szPath ∧
        PathFits ph s.pRes szPath)
      (pathparser ph s szPath) [] := by
  rw [pathparser, if_neg (by rw [plain]; exact Bool.false_ne_true)]
  cases found : parsePath ph s.pRes szPath with
  | none =>
      refine breaks fun fits => ?_
      obtain ⟨parsed, parses, -⟩ := parsePath_splitInto fits.1
      rw [found] at parses
      cases parses
  | some parsed =>
      have names := parsePath_fits found
      obtain ⟨other, parses, split⟩ := parsePath_splitInto names
      rw [found] at parses
      obtain rfl := Option.some.inj parses
      have result : backslash :: parsed.path = s.pRes.serverPath szPath := congrArg _ split.rest
      have finished (rc : Int) (t : Session) :
          (renameWatch broken).Ensures (fun answer later => later = [] ∧
            answer.2.2 = s.pRes.serverPath szPath ∧ PathFits ph s.pRes szPath)
            (finishPath rc t parsed.path) [] := by
        apply ensures_finishPath
        · intro long
          refine breaks fun fits => ?_
          have room := fits.2
          rw [← result, List.length_cons] at room
          omega
        · intro short
          refine ⟨rfl, result, names, ?_⟩
          rw [← result, List.length_cons]
          exact short
      simp only
      split
      · refine Watch.ensures_bind.mpr (Watch.ensures_perform_bind.mpr fun reply _ => ?_)
        cases reply with
        | refused rc => exact finished rc _
        | connected cli =>
            have quiet : (renameWatch broken).Ensures (fun _ later => later = [])
                (smbwrpDisconnect s.pConn.cli) [] :=
              ensures_smbwrpDisconnect (fun _ => rfl) fun _ _ => rfl
            apply quiet.bind
            rintro _ _ rfl
            exact finished 0 _
      · exact finished noError s

theorem run_pathparser_move (plain : iftestpath szPath = false) (fits : PathFits ph s.pRes szPath)
    (connected : s.pConn.cli ≠ none) :
    ∃ trace t cli, t.pConn.cli = some cli ∧
      Run (pathparser ph s szPath) trace (some (noError, t, s.pRes.serverPath szPath)) := by
  obtain ⟨parsed, found, split⟩ := parsePath_splitInto fits.1
  obtain ⟨cli, given⟩ := Option.ne_none_iff_exists'.mp connected
  have result : backslash :: parsed.path = s.pRes.serverPath szPath := congrArg _ split.rest
  have short : ¬ parsed.path.length ≥ cchmaxpath := by
    have room := fits.2
    rw [← result, List.length_cons] at room
    omega
  have finished (t : Session) : Run (finishPath noError t parsed.path) []
      (some (noError, t, s.pRes.serverPath szPath)) := by
    rw [finishPath, if_neg short, result]
    exact .ret
  rw [pathparser, if_neg (by rw [plain]; exact Bool.false_ne_true), found]
  simp only
  split
  · let tmpRes := { s.pRes with srv := parsed.srv }
    refine ⟨[⟨tmpRes.connect, .connected cli⟩, ⟨.cliShutdown cli, ()⟩],
      ⟨tmpRes, { s.pConn with cli := some cli }⟩, cli, rfl, ?_⟩
    refine .call ?_
    simp only [given, smbwrpDisconnect]
    exact .call (finished _)
  · exact ⟨[], s, cli, given, finished s⟩

theorem ensures_renameOn_iff {cli : Handle} (given : t.pConn.cli = some cli)
    (whole : ¬ broken []) :
    (renameWatch broken).Ensures (fun rc later => MoveAnswered ph pRes szSrc szDst rc later)
        (renameOn ph szSrc szDst t src) [] ↔
      match moveTarget ph szSrc szDst src with
      | none => False
      | some (.error rc) => rc ≠ noError
      | some (.ok name) => RenamesTo ph pRes szSrc szDst (src, name) := by
  unfold renameOn
  match moveTarget ph szSrc szDst src with
  | none => exact iff_of_false whole id
  | some (.error rc) =>
      constructor
      · intro answered
        exact answered.2 rfl
      · intro failed
        refine ⟨fun names member => ?_, fun _ => failed⟩
        cases member
  | some (.ok name) =>
      simp only [smbwrpRename, given, wrapped]
      have one (rc : Int) : MoveAnswered ph pRes szSrc szDst rc [(src, name)] ↔
          RenamesTo ph pRes szSrc szDst (src, name) := by
        unfold MoveAnswered
        simp
      constructor
      · intro ensured
        exact (one 0).mp (ensured true trivial)
      · intro right ok _
        cases ok with
        | true => exact (one 0).mpr right
        | false => exact fun errno _ => (one (maperror errno)).mpr right

theorem cutRight_renames_iff (source target : CString) :
    (match moveTarget ph (backslash :: source) (backslash :: target)
        (pRes.serverPath (backslash :: source)) with
      | none => False
      | some (.error rc) => rc ≠ noError
      | some (.ok name) => RenamesTo ph pRes (backslash :: source) (backslash :: target)
          (pRes.serverPath (backslash :: source), name)) ↔
      LinesUp ph pRes.levels source target := by
  rw [← cutRight_iff]
  change _ ↔ CutRight ph pRes.levels source target
    (moveTarget ph _ _ (pRes.serverPath (backslash :: source)))
  match moveTarget ph (backslash :: source) (backslash :: target)
    (pRes.serverPath (backslash :: source)) with
  | none => exact Iff.rfl
  | some (.error rc) => exact Iff.rfl
  | some (.ok name) => exact and_iff_right rfl

theorem ensures_onPath_move_iff (ph : Platform) (s : Session) (source target : CString)
    (connected : s.pConn.cli ≠ none)
    (plain : iftestpath (backslash :: source) = false) :
    (renameWatch (MoveOverrun ph s.pRes (backslash :: source) (backslash :: target))).Ensures
        (fun answer later =>
          MoveAnswered ph s.pRes (backslash :: source) (backslash :: target) answer.1 later)
        (onPath ph s (backslash :: source)
          (renameOn ph (backslash :: source) (backslash :: target))) [] ↔
      (PathFits ph s.pRes (backslash :: source) → LinesUp ph s.pRes.levels source target) := by
  have cut (fits : PathFits ph s.pRes (backslash :: source)) {t : Session} {cli : Handle}
      (given : t.pConn.cli = some cli) :
      (renameWatch (MoveOverrun ph s.pRes (backslash :: source) (backslash :: target))).Ensures
        (fun rc later => MoveAnswered ph s.pRes (backslash :: source) (backslash :: target) rc later)
        (renameOn ph (backslash :: source) (backslash :: target) t
          (s.pRes.serverPath (backslash :: source))) [] ↔
      LinesUp ph s.pRes.levels source target :=
    (ensures_renameOn_iff given fun overrun => overrun.2 fits).trans
      (cutRight_renames_iff source target)
  constructor
  · intro ensured fits
    obtain ⟨trace, t, cli, given, run⟩ := run_pathparser_move plain fits connected
    have admitted : (renameWatch (MoveOverrun ph s.pRes (backslash :: source)
        (backslash :: target))).Admits [] trace := Watch.admits_of_forall _ fun _ _ _ => trivial
    have quiet := (ensures_pathparser_move plain (absurd fits)).run run admitted
    have moved := (Watch.ensures_bind.mp ensured).run run admitted
    rw [quiet.1] at moved
    refine (cut fits given).mp ?_
    exact (Watch.ensures_bind.mp moved).mono fun rc later answered => answered
  · intro lines
    refine Watch.ensures_bind.mpr ?_
    refine ((ensures_pathparser_move plain ?_).and_returns
      (pathparser_connected _ connected)).mono ?_
    · intro tooLong
      refine ⟨fun names member => ?_, tooLong⟩
      cases member
    · rintro ⟨rc, t, src⟩ later ⟨⟨rfl, parsed, fits⟩, connected⟩
      obtain ⟨cli, given⟩ := Option.ne_none_iff_exists'.mp connected
      by_cases failed : rc = 0
      · subst failed
        simp only at parsed
        rw [parsed]
        exact Watch.ensures_bind.mpr ((cut fits given).mpr (lines fits))
      · simp only [ne_eq, failed, not_false_eq_true, if_true]
        refine ⟨fun names member => ?_, fun _ => failed⟩
        cases member

end Move

/-- A connected plugin moves a file to the destination it was given, or refuses to, exactly when
the paths line up (or the source itself is too long). -/
theorem ndpMove_moves_iff (ph : Platform) (s : Session) {szSrc szDst : CString}
    (connected : s.pConn.cli ≠ none) (srcRooted : szSrc.head? = some backslash)
    (dstRooted : szDst.head? = some backslash) (plain : iftestpath szSrc = false) :
    (∀ trace outcome, Run (ndpMove ph s szDst szSrc) trace outcome →
      MovesOrRefuses ph s.pRes szSrc szDst trace outcome) ↔
    (PathFits ph s.pRes szSrc →
      LinesUp ph s.pRes.levels (dropSlash szSrc) (dropSlash szDst)) := by
  obtain ⟨source, rfl⟩ := List.head?_eq_some_iff.mp srcRooted
  obtain ⟨target, rfl⟩ := List.head?_eq_some_iff.mp dstRooted
  let t := (s.invalidateParent ph (backslash :: source)).invalidateParent ph (backslash :: target)
  have work := ensures_onPath_move_iff ph t source target connected plain
  rw [movesOrRefuses_iff]
  constructor
  · intro ensured
    apply work.mp
    exact (ensures_of_guarded ensured trivial).mono fun _ _ released => released trivial
  · intro lines
    apply ensures_guarded
    · intro rcLock failed _
      refine ⟨fun names member => ?_, fun _ => failed⟩
      cases member
    · intro _
      exact (work.mpr lines).mono fun _ _ answered _ => answered

theorem ndpMove_moves_iff_sameShare :
    LinesUp asciiPlatform 1 (bytes "share\\f") (bytes "Share\\g") ∧ ∀ trace outcome,
      Run (ndpMove asciiPlatform rootSession (bytes "\\Share\\g") (bytes "\\share\\f")) trace outcome →
      MovesOrRefuses asciiPlatform rootSession.pRes (bytes "\\share\\f") (bytes "\\Share\\g")
        trace outcome := by
  have lines : LinesUp asciiPlatform 1 (bytes "share\\f") (bytes "Share\\g") :=
    .inr (.inl ⟨bytes "share", bytes "f", by decide, by decide,
      .inr ⟨bytes "g", by decide, by decide⟩⟩)
  refine ⟨lines, (ndpMove_moves_iff asciiPlatform rootSession ?_ ?_ ?_ ?_).mpr fun _ => lines⟩
  · decide
  · decide
  · decide
  · decide

def moveRun (szSrc szDst : CString) : List CallEvent × Option (Int × Session) :=
  exec (fun _ => opening 1 true) 0 (ndpMove asciiPlatform rootSession szDst szSrc)

/-- A file meant for another share whose name is longer is renamed on its own; and a destination
that ends in the name of the share is read behind its end. -/
theorem share_name_prefix_moves :
    (∃ trace outcome,
      Run (ndpMove asciiPlatform rootSession (bytes "\\share2\\g") (bytes "\\share\\f")) trace outcome ∧
      renames trace = [(bytes "\\f", bytes "\\g")] ∧
      ¬ MovesOrRefuses asciiPlatform rootSession.pRes (bytes "\\share\\f") (bytes "\\share2\\g")
        trace outcome) ∧
    (∃ trace,
      Run (ndpMove asciiPlatform rootSession (bytes "\\share") (bytes "\\share\\f")) trace none ∧
      ¬ MovesOrRefuses asciiPlatform rootSession.pRes (bytes "\\share\\f") (bytes "\\share")
        trace none) := by
  constructor
  · refine ⟨_, _, run_exec (fun _ => opening 1 true) _ 0, by decide, fun moves => ?_⟩
    have renamed := moves.renamed (bytes "\\f", bytes "\\g") (by decide)
    have shares := List.forall₂_cons.mp renamed.2.2
    exact absurd shares.1 (by decide)
  · have run := run_exec (fun _ => opening 1 true)
      (ndpMove asciiPlatform rootSession (bytes "\\share") (bytes "\\share\\f")) 0
    have crashes : (moveRun (bytes "\\share\\f") (bytes "\\share")).2 = none := by decide
    rw [show (exec _ _ _).2 = none from crashes] at run
    refine ⟨_, run, fun moves => moves.inside rfl ?_⟩
    exact ⟨.cons (.inl (by decide)) .nil, by decide⟩

end NdpSmb
