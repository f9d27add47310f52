import Mathlib.Data.List.Basic
import Mathlib.Data.List.Pairwise

/-!
Searching a list for the first entry that is the same as a key, when a cheaper test
is made before the comparison; and lists no two entries of which are the same.
-/

namespace Lookup

variable {α : Type} (test same : α → Bool)

theorem find?_and_eq_iff (entries : List α) :
    (entries.find? fun entry => test entry && same entry) = entries.find? same ↔
      ∀ entry, entries.find? same = some entry → test entry = true := by
  induction entries with
  | nil => simp
  | cons entry rest ih =>
      cases equal : same entry with
      | false => simp [equal, ih]
      | true =>
          cases passed : test entry with
          | true => simp [equal, passed]
          | false =>
              simp only [List.find?_cons, equal, passed, Bool.and_true, Option.some.injEq,
                forall_eq', Bool.false_eq_true, iff_false]
              intro found
              have back := List.find?_some found
              simp [passed] at back

theorem filter_and_clear_iff (entries : List α) :
    (∀ entry ∈ entries.filter fun entry => !(test entry && same entry), same entry = false) ↔
      ∀ entry ∈ entries, same entry = true → test entry = true := by
  constructor
  · intro clear entry member equal
    by_contra failed
    have kept := clear entry (List.mem_filter.mpr ⟨member, by simp [equal, failed]⟩)
    rw [equal] at kept
    exact Bool.noConfusion kept
  · intro tested entry member
    obtain ⟨inside, kept⟩ := List.mem_filter.mp member
    by_contra equal
    rw [Bool.not_eq_false] at equal
    simp [equal, tested entry inside equal] at kept

variable {different : α → α → Prop}

theorem pairwise_cons_eraseP (symmetric : ∀ {left right}, different left right →
    different right left) {found : α → Bool} {entries : List α} {entry : α}
    (apart : entries.Pairwise different) (first : entries.find? found = some entry) :
    (entry :: entries.eraseP found).Pairwise different := by
  induction entries with
  | nil => simp at first
  | cons head rest ih =>
      obtain ⟨headApart, restApart⟩ := List.pairwise_cons.mp apart
      cases hit : found head with
      | true =>
          rw [List.find?_cons_of_pos hit] at first
          obtain rfl := Option.some.inj first
          rwa [List.eraseP_cons_of_pos hit]
      | false =>
          rw [List.find?_cons_of_neg (by simp [hit])] at first
          have inner := ih restApart first
          obtain ⟨entryApart, erasedApart⟩ := List.pairwise_cons.mp inner
          rw [List.eraseP_cons_of_neg (by simp [hit])]
          refine List.pairwise_cons.mpr ⟨fun other present => ?_, List.pairwise_cons.mpr
            ⟨fun other present => headApart other (List.mem_of_mem_eraseP present), erasedApart⟩⟩
          rcases List.mem_cons.mp present with rfl | present
          · exact symmetric (headApart entry (List.mem_of_find?_eq_some first))
          · exact entryApart other present

theorem not_of_mem_eraseP {found : α → Bool} {entries : List α} {entry : α}
    (alike : ∀ left right, found left = true → found right = true → ¬ different left right)
    (apart : entries.Pairwise different) (member : entry ∈ entries.eraseP found) :
    found entry = false := by
  induction entries with
  | nil => simp at member
  | cons head rest ih =>
      obtain ⟨headApart, restApart⟩ := List.pairwise_cons.mp apart
      by_cases hit : found head = true
      · rw [List.eraseP_cons_of_pos hit] at member
        by_contra other
        exact alike head entry hit (by simpa using other) (headApart entry member)
      · rw [List.eraseP_cons_of_neg hit] at member
        rcases List.mem_cons.mp member with rfl | member
        · simpa using hit
        · exact ih restApart member

theorem find?_of_mem {found : α → Bool} {entries : List α} {entry : α}
    (alike : ∀ left right, found left = true → found right = true → ¬ different left right)
    (apart : entries.Pairwise different) (member : entry ∈ entries) (hit : found entry = true) :
    entries.find? found = some entry := by
  induction entries with
  | nil => simp at member
  | cons head rest ih =>
      obtain ⟨headApart, restApart⟩ := List.pairwise_cons.mp apart
      rcases List.mem_cons.mp member with rfl | member
      · exact List.find?_cons_of_pos hit
      · have missed : ¬ found head = true :=
          fun first => alike head entry first hit (headApart entry member)
        rw [List.find?_cons_of_neg missed]
        exact ih restApart member

theorem findSome?_of_mem {β : Type} {found : α → Bool} {inner : α → Option β} {entries : List α}
    {entry : α}
    (alike : ∀ left right, found left = true → found right = true → ¬ different left right)
    (apart : entries.Pairwise different) (member : entry ∈ entries) (hit : found entry = true) :
    (entries.findSome? fun other => if found other then inner other else none) = inner entry := by
  induction entries with
  | nil => simp at member
  | cons head rest ih =>
      obtain ⟨headApart, restApart⟩ := List.pairwise_cons.mp apart
      rcases List.mem_cons.mp member with rfl | member
      · have rest_missed : (rest.findSome? fun other => if found other then inner other else none) =
            none := by
          refine List.findSome?_eq_none_iff.mpr fun other inside => if_neg fun second => ?_
          exact alike entry other hit second (headApart other inside)
        cases result : inner entry with
        | none => simp [hit, result, rest_missed]
        | some value => simp [hit, result]
      · have missed : ¬ found head = true :=
          fun first => alike head entry first hit (headApart entry member)
        simpa [missed] using ih restApart member

section Changed

variable {found other : α → Bool} {entries fewer rest : List α} {entry : α}

theorem find?_eraseP (first : entries.find? found = some entry)
    (misses : entries.find? other ≠ some entry) :
    (entries.eraseP other).find? found = some entry := by
  induction entries with
  | nil => simp at first
  | cons head rest ih =>
      cases hit : other head with
      | true =>
          rw [List.find?_cons_of_pos hit] at misses
          rw [List.eraseP_cons_of_pos hit]
          by_cases here : found head = true
          · rw [List.find?_cons_of_pos here] at first
            exact absurd first misses
          · rwa [List.find?_cons_of_neg here] at first
      | false =>
          have passed : ¬ other head = true := by simp [hit]
          rw [List.find?_cons_of_neg passed] at misses
          rw [List.eraseP_cons_of_neg passed]
          by_cases here : found head = true
          · rw [List.find?_cons_of_pos here] at first ⊢
            exact first
          · rw [List.find?_cons_of_neg here] at first ⊢
            exact ih first misses

theorem find?_filter_of_kept (first : entries.find? found = some entry)
    (kept : other entry = true) : (entries.filter other).find? found = some entry := by
  induction entries with
  | nil => simp at first
  | cons head rest ih =>
      by_cases here : found head = true
      · rw [List.find?_cons_of_pos here] at first
        obtain rfl := Option.some.inj first
        rw [List.filter_cons_of_pos kept, List.find?_cons_of_pos here]
      · rw [List.find?_cons_of_neg here] at first
        have inner := ih first
        by_cases stays : other head = true
        · rw [List.filter_cons_of_pos stays, List.find?_cons_of_neg here]
          exact inner
        · rwa [List.filter_cons_of_neg stays]

theorem find?_of_append (first : (fewer ++ rest).find? found = some entry)
    (member : entry ∈ fewer) : fewer.find? found = some entry := by
  have hit := List.find?_some first
  rw [List.find?_append] at first
  cases within : fewer.find? found with
  | none => exact absurd hit (List.find?_eq_none.mp within entry member)
  | some earlier => simpa [within] using first

end Changed

end Lookup
