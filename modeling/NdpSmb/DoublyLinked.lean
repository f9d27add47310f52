import Mathlib.Data.List.Nodup
import Mathlib.Data.List.Infix
import Mathlib.Logic.Function.Basic

/-!
A list that is linked in both directions by hand: a link to the next and to the previous
node for every node, and one to each end. What the links spell is a list, and the edits
of the links are edits of that list.
-/

namespace DoublyLinked

variable {α : Type}

/-! Following one direction of the links. -/

/-- The nodes that are met from a link on, up to the end. -/
inductive Visits (step : α → Option α) : Option α → List α → Prop
  | stop : Visits step none []
  | go {node rest} : Visits step (step node) rest → Visits step (some node) (node :: rest)

section Visits

variable {step : α → Option α} {first : Option α} {nodes : List α} {node : α}

theorem Visits.unique {left right : List α} (one : Visits step first left)
    (other : Visits step first right) : left = right := by
  induction one generalizing right with
  | stop =>
      cases other
      rfl
  | go _ ih =>
      cases other with
      | go rest => rw [ih rest]

theorem Visits.head?_eq (visits : Visits step first nodes) : first = nodes.head? := by
  cases visits with
  | stop => rfl
  | go _ => rfl

theorem Visits.suffix {left right : List α} (visits : Visits step first (left ++ node :: right)) :
    Visits step (some node) (node :: right) := by
  induction left generalizing first with
  | nil =>
      have starts : first = some node := visits.head?_eq
      rwa [starts] at visits
  | cons other left ih =>
      cases visits with
      | go rest => exact ih rest

theorem Visits.nodup (visits : Visits step first nodes) : nodes.Nodup := by
  induction visits with
  | stop => exact List.nodup_nil
  | @go node rest onward ih =>
      refine List.nodup_cons.mpr ⟨fun again => ?_, ih⟩
      obtain ⟨left, right, split⟩ := List.append_of_mem again
      have whole : Visits step (some node) (node :: rest) := .go onward
      have part : Visits step (some node) (node :: right) := by
        rw [split] at onward
        exact onward.suffix
      have same := congrArg List.length (whole.unique part)
      have longer := congrArg List.length split
      simp only [List.length_cons, List.length_append] at same longer
      omega

theorem Visits.congr {other : α → Option α} (visits : Visits step first nodes)
    (same : ∀ node ∈ nodes, other node = step node) : Visits other first nodes := by
  induction visits with
  | stop => exact .stop
  | @go node rest _ ih =>
      refine .go ?_
      rw [same node List.mem_cons_self]
      exact ih fun other inside => same other (List.mem_cons_of_mem _ inside)

end Visits

variable [DecidableEq α]

def after : List α → α → Option α
  | [], _ => none
  | first :: rest, node => if node = first then rest.head? else after rest node

section After

variable {nodes left right : List α} {node other : α}

theorem after_eq_none_of_not_mem (absent : node ∉ nodes) : after nodes node = none := by
  induction nodes with
  | nil => rfl
  | cons first rest ih =>
      rw [List.mem_cons, not_or] at absent
      rw [after, if_neg absent.1]
      exact ih absent.2

theorem after_append_cons (absent : node ∉ left) :
    after (left ++ node :: right) node = right.head? := by
  induction left with
  | nil => simp [after]
  | cons first rest ih =>
      rw [List.mem_cons, not_or] at absent
      rw [List.cons_append, after, if_neg absent.1]
      exact ih absent.2

theorem after_eq_some_iff (nodup : nodes.Nodup) :
    after nodes node = some other ↔ ∃ left right, nodes = left ++ node :: other :: right := by
  constructor
  · intro follows
    by_cases member : node ∈ nodes
    · obtain ⟨left, right, rfl, absent⟩ := List.eq_append_cons_of_mem member
      rw [after_append_cons absent] at follows
      obtain ⟨rest, rfl⟩ := List.head?_eq_some_iff.mp follows
      exact ⟨left, rest, rfl⟩
    · rw [after_eq_none_of_not_mem member] at follows
      exact absurd follows (by simp)
  · rintro ⟨left, right, rfl⟩
    have apart := (List.nodup_append.mp nodup).2.2
    have absent : node ∉ left := fun inside =>
      apart node inside node List.mem_cons_self rfl
    rw [after_append_cons absent, List.head?_cons]

theorem mem_of_after (follows : after nodes node = some other) : other ∈ nodes := by
  by_cases member : node ∈ nodes
  · obtain ⟨left, right, rfl, absent⟩ := List.eq_append_cons_of_mem member
    rw [after_append_cons absent] at follows
    have inside := List.mem_of_mem_head? follows
    simp [inside]
  · rw [after_eq_none_of_not_mem member] at follows
    exact absurd follows (by simp)

theorem after_reverse_iff (nodup : nodes.Nodup) :
    after nodes.reverse other = some node ↔ after nodes node = some other := by
  rw [after_eq_some_iff (List.nodup_reverse.mpr nodup), after_eq_some_iff nodup]
  constructor
  · rintro ⟨left, right, same⟩
    refine ⟨right.reverse, left.reverse, ?_⟩
    rw [← List.reverse_reverse nodes, same]
    simp
  · rintro ⟨left, right, rfl⟩
    exact ⟨right.reverse, left.reverse, by simp⟩

theorem after_ne_self (nodup : nodes.Nodup) : after nodes node ≠ some node := by
  intro same
  obtain ⟨left, right, rfl⟩ := (after_eq_some_iff nodup).mp same
  have tail := (List.nodup_append.mp nodup).2.1
  exact (List.nodup_cons.mp tail).1 List.mem_cons_self

theorem after_eq_none_iff (nodup : nodes.Nodup) (member : node ∈ nodes) :
    after nodes node = none ↔ nodes.getLast? = some node := by
  obtain ⟨left, right, rfl, absent⟩ := List.eq_append_cons_of_mem member
  rw [after_append_cons absent]
  cases right with
  | nil => simp
  | cons first rest =>
      have fresh : node ∉ first :: rest :=
        (List.nodup_cons.mp (List.nodup_append.mp nodup).2.1).1
      have last : (left ++ node :: first :: rest).getLast? = (first :: rest).getLast? := by
        rw [List.append_cons, List.getLast?_append_of_ne_nil _ (by simp)]
      rw [last]
      refine iff_of_false (by simp) fun same => ?_
      exact fresh (List.mem_of_getLast? same)

theorem after_erase (nodup : nodes.Nodup) (member : node ∈ nodes) :
    after (nodes.erase node) other =
      if other = node then none
      else if after nodes other = some node then after nodes node
      else after nodes other := by
  induction nodes with
  | nil => simp at member
  | cons first rest ih =>
      obtain ⟨fresh, nodupRest⟩ := List.nodup_cons.mp nodup
      by_cases same : node = first
      · rw [← same] at fresh ⊢
        rw [List.erase_cons_head]
        by_cases self : other = node
        · rw [if_pos self, self]
          exact after_eq_none_of_not_mem fresh
        · have never : after rest other ≠ some node := fun follows => fresh (mem_of_after follows)
          simp [after, self, never]
      · have inside : node ∈ rest := List.mem_of_ne_of_mem same member
        rw [List.erase_cons_tail (by simp [Ne.symm same])]
        by_cases front : other = first
        · have different : ¬ first = node := Ne.symm same
          rw [front, after, if_pos rfl, if_neg different]
          simp only [after, if_true, if_neg same]
          cases rest with
          | nil => simp at inside
          | cons second rest =>
              by_cases next : node = second
              · rw [← next]
                simp [after]
              · have apart : second ≠ node := Ne.symm next
                simp [List.erase_cons_tail, apart]
        · simp only [after, if_neg front, if_neg same]
          exact ih nodupRest inside

theorem after_concat (nodup : (nodes ++ [node]).Nodup) :
    after (nodes ++ [node]) other =
      if nodes.getLast? = some other then some node else after nodes other := by
  induction nodes with
  | nil => simp [after]
  | cons first rest ih =>
      obtain ⟨fresh, nodupRest⟩ := List.nodup_cons.mp nodup
      have apart : first ∉ rest := fun inside => fresh (List.mem_append_left _ inside)
      cases rest with
      | nil =>
          by_cases front : other = first
          · simp [after, front]
          · simp [after, front, Ne.symm front]
      | cons second rest =>
          rw [List.getLast?_cons_cons, List.cons_append, after, after, ih nodupRest]
          by_cases front : other = first
          · have never : (second :: rest).getLast? ≠ some other := fun last =>
              apart (front ▸ List.mem_of_getLast? last)
            rw [if_pos front, if_pos front, if_neg never]
            rfl
          · rw [if_neg front, if_neg front]

end After

/-! One direction of the links spells a list. -/

structure Chain (step : α → Option α) (first : Option α) (nodes : List α) : Prop where
  first_eq : first = nodes.head?
  step_eq : ∀ node, step node = after nodes node

section Chain

variable {step : α → Option α} {first : Option α} {nodes : List α} {node : α}

theorem Chain.visits_from (chain : Chain step first nodes) (nodup : nodes.Nodup)
    (left right : List α) (split : nodes = left ++ right) : Visits step right.head? right := by
  induction right generalizing left with
  | nil => exact .stop
  | cons node rest ih =>
      have apart := nodup
      rw [split] at apart
      have absent : node ∉ left := fun inside =>
        (List.nodup_append.mp apart).2.2 node inside node List.mem_cons_self rfl
      have follows : step node = rest.head? := by
        rw [chain.step_eq, split, after_append_cons absent]
      refine .go ?_
      rw [follows]
      exact ih (left ++ [node]) (by simp [split])

theorem Chain.visits (chain : Chain step first nodes) (nodup : nodes.Nodup) :
    Visits step first nodes := by
  rw [chain.first_eq]
  exact chain.visits_from nodup [] nodes rfl

theorem Visits.chain (visits : Visits step first nodes)
    (detached : ∀ node, node ∉ nodes → step node = none) : Chain step first nodes where
  first_eq := visits.head?_eq
  step_eq node := by
    by_cases inside : node ∈ nodes
    · obtain ⟨left, right, split⟩ := List.append_of_mem inside
      have nodup := visits.nodup
      rw [split] at visits nodup
      have absent : node ∉ left := fun before =>
        (List.nodup_append.mp nodup).2.2 node before node List.mem_cons_self rfl
      rw [split, after_append_cons absent]
      cases visits.suffix with
      | go rest => exact rest.head?_eq
    · rw [detached node inside, after_eq_none_of_not_mem inside]

theorem Chain.erase (chain : Chain step first nodes) (nodup : nodes.Nodup)
    (member : node ∈ nodes) {later : α → Option α} {front : Option α}
    (front_eq : front = if first = some node then step node else first)
    (later_eq : ∀ other, later other = if other = node then none
      else if step other = some node then step node else step other) :
    Chain later front (nodes.erase node) where
  first_eq := by
    rw [front_eq, chain.first_eq, chain.step_eq]
    cases nodes with
    | nil => simp at member
    | cons head rest =>
        by_cases same : head = node
        · simp [same, after]
        · have apart : ¬ (head == node) = true := by simpa using same
          rw [List.erase_cons_tail apart, List.head?_cons, List.head?_cons,
            if_neg (by simpa using same)]
  step_eq other := by
    rw [later_eq, chain.step_eq, chain.step_eq, after_erase nodup member]

end Chain

/-! The links in both directions, and their edits. -/

structure Links (α : Type) where
  next : α → Option α := fun _ => none
  prev : α → Option α := fun _ => none
  head : Option α := none
  tail : Option α := none

structure Links.Spells (links : Links α) (nodes : List α) : Prop where
  nodup : nodes.Nodup
  forward : Chain links.next links.head nodes
  backward : Chain links.prev links.tail nodes.reverse

namespace Links

def setNext (links : Links α) (node : α) (link : Option α) : Links α :=
  { links with next := Function.update links.next node link }

def setPrev (links : Links α) (node : α) (link : Option α) : Links α :=
  { links with prev := Function.update links.prev node link }

/-- Point the node behind, or the end, to what is before; and the other way round. -/
def unlink (links : Links α) (node : α) : Links α :=
  let links := match links.next node with
    | some following => links.setPrev following (links.prev node)
    | none => { links with tail := links.prev node }
  let links := match links.prev node with
    | some preceding => links.setNext preceding (links.next node)
    | none => { links with head := links.next node }
  (links.setNext node none).setPrev node none

/-- Put a node in front; what it has as its previous link is left as it is. -/
def pushFront (links : Links α) (node : α) : Links α :=
  let links := links.setNext node links.head
  let links := match links.head with
    | some first => links.setPrev first (some node)
    | none => { links with tail := some node }
  { links with head := some node }

variable {links : Links α} {nodes : List α} {node other : α}

/-- The links of a node that is taken out are read before they are written. -/
theorem unlink_eq (loopless : links.next node ≠ some node) :
    links.unlink node =
      { next := Function.update (match links.prev node with
          | some preceding => Function.update links.next preceding (links.next node)
          | none => links.next) node none
        prev := Function.update (match links.next node with
          | some following => Function.update links.prev following (links.prev node)
          | none => links.prev) node none
        head := match links.prev node with
          | some _ => links.head
          | none => links.next node
        tail := match links.next node with
          | some _ => links.tail
          | none => links.prev node } := by
  cases behind : links.next node with
  | none =>
      cases before : links.prev node with
      | none => simp [unlink, setNext, setPrev, behind, before]
      | some preceding => simp [unlink, setNext, setPrev, behind, before]
  | some following =>
      have apart : node ≠ following := by
        rintro rfl
        exact loopless behind
      cases before : links.prev node with
      | none => simp [unlink, setNext, setPrev, behind, before, Function.update_of_ne apart]
      | some preceding =>
          simp [unlink, setNext, setPrev, behind, before, Function.update_of_ne apart]

theorem Spells.unlink (spelled : links.Spells nodes) (member : node ∈ nodes) :
    (links.unlink node).Spells (nodes.erase node) := by
  have nodup := spelled.nodup
  have backwards := List.nodup_reverse.mpr nodup
  have loopless : links.next node ≠ some node := by
    rw [spelled.forward.step_eq]
    exact after_ne_self nodup
  have mirrored (left right : α) : links.prev right = some left ↔ links.next left = some right := by
    rw [spelled.forward.step_eq, spelled.backward.step_eq]
    exact after_reverse_iff nodup
  have same : (nodes.erase node).reverse = nodes.reverse.erase node := by
    rw [nodup.erase_eq_filter, backwards.erase_eq_filter, List.filter_reverse]
  have isHead : links.prev node = none ↔ links.head = some node := by
    rw [spelled.backward.step_eq, spelled.forward.first_eq,
      after_eq_none_iff backwards (List.mem_reverse.mpr member), List.getLast?_reverse]
  have isTail : links.next node = none ↔ links.tail = some node := by
    rw [spelled.forward.step_eq, spelled.backward.first_eq, after_eq_none_iff nodup member,
      List.head?_reverse]
  rw [unlink_eq loopless]
  refine ⟨nodup.erase node, ?_, ?_⟩
  · refine spelled.forward.erase nodup member ?_ fun other => ?_
    · cases before : links.prev node with
      | none => rw [if_pos (isHead.mp before)]
      | some preceding =>
          rw [if_neg]
          intro head
          rw [isHead.mpr head] at before
          exact absurd before (by simp)
    · cases before : links.prev node with
      | none =>
          have never : links.next other ≠ some node := fun follows => by
            rw [← mirrored, before] at follows
            exact absurd follows (by simp)
          simp only [Function.update_apply, if_neg never]
      | some preceding =>
          simp only [Function.update_apply]
          have place : other = preceding ↔ links.next other = some node := by
            rw [← mirrored, before, Option.some.injEq, eq_comm]
          simp only [place]
  · rw [same]
    refine spelled.backward.erase backwards (List.mem_reverse.mpr member) ?_ fun other => ?_
    · cases behind : links.next node with
      | none => rw [if_pos (isTail.mp behind)]
      | some following =>
          rw [if_neg]
          intro tail
          rw [isTail.mpr tail] at behind
          exact absurd behind (by simp)
    · cases behind : links.next node with
      | none =>
          have never : links.prev other ≠ some node := fun precedes => by
            rw [mirrored, behind] at precedes
            exact absurd precedes (by simp)
          simp only [Function.update_apply, if_neg never]
      | some following =>
          simp only [Function.update_apply]
          have place : other = following ↔ links.prev other = some node := by
            rw [mirrored, behind, Option.some.injEq, eq_comm]
          simp only [place]

/-- The new node has no previous link because nothing that is not in the list has one. -/
theorem Spells.pushFront (spelled : links.Spells nodes) (absent : node ∉ nodes) :
    (links.pushFront node).Spells (node :: nodes) := by
  have nodup : (node :: nodes).Nodup := List.nodup_cons.mpr ⟨absent, spelled.nodup⟩
  have backwards : (nodes.reverse ++ [node]).Nodup := by
    rw [← List.reverse_cons]
    exact List.nodup_reverse.mpr nodup
  refine ⟨nodup, ⟨rfl, fun other => ?_⟩, ?_⟩
  · have behind : (links.pushFront node).next other =
        if other = node then links.head else links.next other := by
      unfold Links.pushFront
      cases head : links.head with
      | none => simp [setNext, head, Function.update_apply]
      | some first => simp [setNext, setPrev, head, Function.update_apply]
    rw [behind, after, spelled.forward.first_eq, spelled.forward.step_eq]
  · rw [List.reverse_cons]
    refine ⟨?_, fun other => ?_⟩
    · unfold Links.pushFront
      cases nodes with
      | nil => simp [setNext, spelled.forward.first_eq]
      | cons first rest =>
          simp [setNext, setPrev, spelled.forward.first_eq, spelled.backward.first_eq]
    · rw [after_concat backwards, List.getLast?_reverse, ← spelled.forward.first_eq,
        ← spelled.backward.step_eq]
      unfold Links.pushFront
      cases head : links.head with
      | none => simp [setNext, head]
      | some first =>
          by_cases front : other = first
          · simp [setNext, setPrev, head, front]
          · simp [setNext, setPrev, head, front, Ne.symm front]

/-- The nodes as both walks meet them; those outside may point anywhere. -/
structure Walks (links : Links α) (nodes : List α) : Prop where
  forward : Visits links.next links.head nodes
  backward : Visits links.prev links.tail nodes.reverse

theorem Spells.walks (spelled : links.Spells nodes) : links.Walks nodes :=
  ⟨spelled.forward.visits spelled.nodup,
    spelled.backward.visits (List.nodup_reverse.mpr spelled.nodup)⟩

def within (links : Links α) (nodes : List α) : Links α :=
  { links with
    next := fun node => if node ∈ nodes then links.next node else none
    prev := fun node => if node ∈ nodes then links.prev node else none }

theorem Walks.within_spells (walks : links.Walks nodes) : (links.within nodes).Spells nodes where
  nodup := walks.forward.nodup
  forward := by
    refine Visits.chain (walks.forward.congr fun node inside => ?_) fun node outside => ?_
    · exact if_pos inside
    · exact if_neg outside
  backward := by
    refine Visits.chain (walks.backward.congr fun node inside => ?_) fun node outside => ?_
    · exact if_pos (List.mem_reverse.mp inside)
    · exact if_neg (mt List.mem_reverse.mpr outside)

theorem walks_of_within (walks : (links.within nodes).Walks nodes) : links.Walks nodes where
  forward := walks.forward.congr fun _ inside => (if_pos inside).symm
  backward := walks.backward.congr fun _ inside => (if_pos (List.mem_reverse.mp inside)).symm

theorem Walks.next_mem (walks : links.Walks nodes) (member : node ∈ nodes)
    (follows : links.next node = some other) : other ∈ nodes := by
  have inside : (links.within nodes).next node = some other := (if_pos member).trans follows
  rw [walks.within_spells.forward.step_eq] at inside
  exact mem_of_after inside

theorem Walks.prev_mem (walks : links.Walks nodes) (member : node ∈ nodes)
    (precedes : links.prev node = some other) : other ∈ nodes := by
  have inside : (links.within nodes).prev node = some other := (if_pos member).trans precedes
  rw [walks.within_spells.backward.step_eq] at inside
  exact List.mem_reverse.mp (mem_of_after inside)

theorem Walks.loopless (walks : links.Walks nodes) (member : node ∈ nodes) :
    links.next node ≠ some node := by
  intro loop
  have inside : (links.within nodes).next node = some node := (if_pos member).trans loop
  rw [walks.within_spells.forward.step_eq] at inside
  exact after_ne_self walks.forward.nodup inside

theorem Walks.within_unlink (walks : links.Walks nodes) (member : node ∈ nodes) :
    (links.unlink node).within (nodes.erase node) = (links.within nodes).unlink node := by
  have nodup := walks.forward.nodup
  have next_eq : (links.within nodes).next node = links.next node := if_pos member
  have prev_eq : (links.within nodes).prev node = links.prev node := if_pos member
  have loopless := walks.loopless member
  rw [unlink_eq loopless, unlink_eq (next_eq ▸ loopless), next_eq, prev_eq]
  have kept (links : α → Option α) (at_link link : Option α)
      (inside : ∀ other, at_link = some other → other ∈ nodes) (other : α) :
      (if other ∈ nodes.erase node then Function.update (match at_link with
          | some there => Function.update links there link
          | none => links) node none other else none) =
        Function.update (match at_link with
          | some there => Function.update (fun node => if node ∈ nodes then links node else none)
              there link
          | none => fun node => if node ∈ nodes then links node else none) node none other := by
    by_cases same : other = node
    · rw [same, Function.update_self, Function.update_self, ite_self]
    · rw [Function.update_of_ne same, Function.update_of_ne same]
      simp only [nodup.mem_erase_iff, same, ne_eq, not_false_eq_true, true_and]
      cases at_link with
      | none => rfl
      | some there =>
          by_cases here : other = there
          · have there_inside := inside there rfl
            simp only [here, Function.update_self, if_pos there_inside]
          · simp only [Function.update_of_ne here]
  have nexts := kept links.next (links.prev node) (links.next node)
    fun other => walks.prev_mem member
  have prevs := kept links.prev (links.next node) (links.prev node)
    fun other => walks.next_mem member
  unfold within
  simp only [nexts, prevs]

theorem Walks.unlink (walks : links.Walks nodes) (member : node ∈ nodes) :
    (links.unlink node).Walks (nodes.erase node) := by
  refine walks_of_within ?_
  rw [walks.within_unlink member]
  exact (walks.within_spells.unlink member).walks

theorem spells_nil : (({} : Links α)).Spells [] :=
  ⟨List.nodup_nil, ⟨rfl, fun _ => rfl⟩, ⟨rfl, fun _ => rfl⟩⟩

theorem Spells.detached (spelled : links.Spells nodes) (absent : node ∉ nodes) :
    links.next node = none ∧ links.prev node = none := by
  rw [spelled.forward.step_eq, spelled.backward.step_eq]
  exact ⟨after_eq_none_of_not_mem absent,
    after_eq_none_of_not_mem (mt List.mem_reverse.mp absent)⟩

end Links

end DoublyLinked
