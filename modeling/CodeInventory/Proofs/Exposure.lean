import Mathlib.Data.List.TakeWhile
import CodeInventory.Proofs.Address
import CodeInventory.Proofs.Recording

set_option autoImplicit false

namespace CodeInventory.Walk

open Inventory

variable {rules : WalkRules} {tree node : SyntaxTree} {here below address : Address}
  {construct : Construct} {panic : Panic} {halt : Halt}

def verdictAt? (rules : WalkRules) (tree : SyntaxTree) (address : Address) :
    Option (Except Panic (Option Construct)) :=
  (tree.at? address).map (Recognition.classify rules.language rules.source address.length)

def constructAt? (rules : WalkRules) (tree : SyntaxTree) (address : Address) : Option Construct :=
  match verdictAt? rules tree address with
  | some (.ok found) => found
  | _ => none

def panicAt? (rules : WalkRules) (tree : SyntaxTree) (address : Address) : Option Panic :=
  match verdictAt? rules tree address with
  | some (.error panic) => some panic
  | _ => none

-- No node above this one is a construct.
def Exposed (rules : WalkRules) (tree : SyntaxTree) (address : Address) : Prop :=
  ∀ height < address.length, constructAt? rules tree (address.take height) = none

instance (rules : WalkRules) (tree : SyntaxTree) : DecidablePred (Exposed rules tree) :=
  fun address => inferInstanceAs (Decidable (∀ height < address.length, _))

-- A construct that is not part of another one.
def Topmost (rules : WalkRules) (tree : SyntaxTree) (address : Address) : Prop :=
  (constructAt? rules tree address).isSome ∧ Exposed rules tree address

instance (rules : WalkRules) (tree : SyntaxTree) : DecidablePred (Topmost rules tree) :=
  fun _ => inferInstanceAs (Decidable (_ ∧ _))

-- One step further down than a walk may go, by a way on which no construct stops it.
def Overdeep (rules : WalkRules) (tree : SyntaxTree) (address : Address) : Prop :=
  address.length = rules.maxDepth + 1 ∧ Exposed rules tree address

instance (rules : WalkRules) (tree : SyntaxTree) : DecidablePred (Overdeep rules tree) :=
  fun _ => inferInstanceAs (Decidable (_ ∧ _))

def topmost (rules : WalkRules) (tree : SyntaxTree) : List Address :=
  tree.addresses.filter fun address => Topmost rules tree address

def constructsAt (rules : WalkRules) (tree : SyntaxTree) (addresses : List Address) :
    List Construct :=
  addresses.filterMap (constructAt? rules tree)

theorem constructAt?_of_ok {found? : Option Construct} (found : tree.at? address = some node)
    (verdict : Recognition.classify rules.language rules.source address.length node = .ok found?) :
    constructAt? rules tree address = found? := by
  simp [constructAt?, verdictAt?, found, verdict]

theorem constructAt?_of_error (found : tree.at? address = some node)
    (verdict : Recognition.classify rules.language rules.source address.length node =
      .error panic) : constructAt? rules tree address = none := by
  simp [constructAt?, verdictAt?, found, verdict]

theorem panicAt?_of_ok {found? : Option Construct} (found : tree.at? address = some node)
    (verdict : Recognition.classify rules.language rules.source address.length node = .ok found?) :
    panicAt? rules tree address = none := by
  simp [panicAt?, verdictAt?, found, verdict]

theorem panicAt?_of_error (found : tree.at? address = some node)
    (verdict : Recognition.classify rules.language rules.source address.length node =
      .error panic) : panicAt? rules tree address = some panic := by
  simp [panicAt?, verdictAt?, found, verdict]

theorem constructAt?_eq_some_iff : constructAt? rules tree address = some construct ↔
    ∃ node, tree.at? address = some node ∧
      Recognition.classify rules.language rules.source address.length node =
        .ok (some construct) := by
  cases found : tree.at? address with
  | none => simp [constructAt?, verdictAt?, found]
  | some node =>
    cases verdict : Recognition.classify rules.language rules.source address.length node with
    | error panic => simp [constructAt?_of_error found verdict, verdict]
    | ok found? => simp [constructAt?_of_ok found verdict, verdict]

theorem panicAt?_eq_some_iff : panicAt? rules tree address = some panic ↔
    ∃ node, tree.at? address = some node ∧
      Recognition.classify rules.language rules.source address.length node = .error panic := by
  cases found : tree.at? address with
  | none => simp [panicAt?, verdictAt?, found]
  | some node =>
    cases verdict : Recognition.classify rules.language rules.source address.length node with
    | error other => simp [panicAt?_of_error found verdict, verdict]
    | ok found? => simp [panicAt?_of_ok found verdict, verdict]

theorem exposed_of_prefix (exposed : Exposed rules tree address) (path : here <+: address) :
    Exposed rules tree here := by
  intro height above
  rw [← exposed height (Nat.lt_of_lt_of_le above path.length_le)]
  obtain ⟨below, rfl⟩ := path
  rw [List.take_append_of_le_length (Nat.le_of_lt above)]

theorem exposed_append (exposed : Exposed rules tree (here ++ below)) (deeper : below ≠ []) :
    constructAt? rules tree here = none := by
  have above : here.length < (here ++ below).length := by
    simp [List.length_pos_iff.mpr deeper]
  simpa using exposed here.length above

theorem exposed_snoc (exposed : Exposed rules tree here)
    (unmatched : constructAt? rules tree here = none) (index : Nat) :
    Exposed rules tree (here ++ [index]) := by
  intro height above
  rw [List.length_append, List.length_singleton] at above
  rcases Nat.lt_or_eq_of_le (Nat.le_of_lt_succ above) with higher | rfl
  · rw [List.take_append_of_le_length (Nat.le_of_lt higher)]
    exact exposed height higher
  · simpa using unmatched

def haltAt? (rules : WalkRules) (tree : SyntaxTree) (address : Address) : Option Halt :=
  if Overdeep rules tree address then some (.fault (.depthLimitExceeded rules.maxDepth))
  else if Exposed rules tree address ∧ address.length ≤ rules.maxDepth then
    (panicAt? rules tree address).map .panic
  else none

def stopAt? (rules : WalkRules) (tree : SyntaxTree) (address : Address) : Option Stop :=
  match haltAt? rules tree address with
  | some halt => some (.halt halt)
  | none =>
      if Exposed rules tree address ∧ address.length ≤ rules.maxDepth then
        (constructAt? rules tree address).map .construct
      else none

theorem not_overdeep_of_within (within : address.length ≤ rules.maxDepth) :
    ¬ Overdeep rules tree address := by
  intro overdeep
  have := overdeep.1
  omega

theorem haltAt?_of_overdeep (overdeep : Overdeep rules tree address) :
    haltAt? rules tree address = some (.fault (.depthLimitExceeded rules.maxDepth)) := by
  simp [haltAt?, overdeep]

theorem haltAt?_of_within (exposed : Exposed rules tree address)
    (within : address.length ≤ rules.maxDepth) :
    haltAt? rules tree address = (panicAt? rules tree address).map .panic := by
  simp [haltAt?, not_overdeep_of_within within, exposed, within]

theorem haltAt?_eq_fault_iff {fault : Fault} : haltAt? rules tree address = some (.fault fault) ↔
    Overdeep rules tree address ∧ fault = .depthLimitExceeded rules.maxDepth := by
  by_cases overdeep : Overdeep rules tree address
  · simp [haltAt?_of_overdeep overdeep, overdeep, eq_comm]
  · simp [haltAt?, overdeep]

theorem not_overdeep_of_haltAt? (free : haltAt? rules tree address = none) :
    ¬ Overdeep rules tree address := by
  intro overdeep
  simp [haltAt?_of_overdeep overdeep] at free

theorem stopAt?_of_far (far : rules.maxDepth + 1 < address.length) :
    stopAt? rules tree address = none := by
  have notOverdeep : ¬ Overdeep rules tree address := fun overdeep => by
    have := overdeep.1
    omega
  have notWithin : ¬ address.length ≤ rules.maxDepth := by omega
  simp [stopAt?, haltAt?, notOverdeep, notWithin]

theorem stopAt?_of_hidden (hidden : ¬ Exposed rules tree address) :
    stopAt? rules tree address = none := by
  simp [stopAt?, haltAt?, Overdeep, hidden]

theorem stopAt?_of_haltAt? (ends : haltAt? rules tree address = some halt) :
    stopAt? rules tree address = some (.halt halt) := by
  simp [stopAt?, ends]

theorem stopAt?_of_ok {found? : Option Construct} (found : tree.at? address = some node)
    (exposed : Exposed rules tree address) (within : address.length ≤ rules.maxDepth)
    (verdict : Recognition.classify rules.language rules.source address.length node = .ok found?) :
    stopAt? rules tree address = found?.map .construct := by
  simp [stopAt?, haltAt?_of_within exposed within, panicAt?_of_ok found verdict, exposed, within,
    constructAt?_of_ok found verdict]

mutual

theorem trail_eq_stops (rules : WalkRules) (root tree : SyntaxTree) (here : Address)
    (found : root.at? here = some tree) (within : here.length ≤ rules.maxDepth + 1)
    (exposed : Exposed rules root here) :
    trail rules here.length tree =
      (tree.addresses.map (here ++ ·)).filterMap (stopAt? rules root) := by
  cases tree with
  | node label children =>
    -- The walk does not go below a stop, and the listing has no stops there either.
    have nothing (stopless : ∀ below, below ≠ [] → stopAt? rules root (here ++ below) = none) :
        ((SyntaxTree.addressesOfAll 0 children).map (here ++ ·)).filterMap (stopAt? rules root) =
          [] := by
      rw [List.filterMap_eq_nil_iff]
      intro address member
      obtain ⟨below, inside, rfl⟩ := List.mem_map.mp member
      apply stopless
      rintro rfl
      exact SyntaxTree.nil_not_mem_addressesOfAll children 0 inside
    rw [SyntaxTree.addresses, List.map_cons, List.append_nil, List.filterMap_cons]
    by_cases deep : rules.maxDepth < here.length
    · have overdeep : Overdeep rules root here := ⟨by omega, exposed⟩
      have rest := nothing fun below deeper => by
        apply stopAt?_of_far
        have := List.length_pos_iff.mpr deeper
        rw [List.length_append]
        omega
      rw [trail_overdeep deep, rest, stopAt?_of_haltAt? (haltAt?_of_overdeep overdeep)]
    · have shallow : here.length ≤ rules.maxDepth := Nat.le_of_not_lt deep
      have children_eq (unmatched : constructAt? rules root here = none) :
          trailOfAll rules (here.length + 1) children =
            ((SyntaxTree.addressesOfAll 0 children).map (here ++ ·)).filterMap
              (stopAt? rules root) := by
        refine trailOfAll_eq_stops rules root children here 0 ?_ shallow exposed unmatched
        intro index child member
        rw [Nat.zero_add, SyntaxTree.at?_snoc found]
        exact member
      match verdict : Recognition.classify rules.language rules.source here.length
          (.node label children) with
      | .error panic =>
        have ends : haltAt? rules root here = some (.panic panic) := by
          rw [haltAt?_of_within exposed shallow, panicAt?_of_error found verdict, Option.map_some]
        rw [trail_panic deep verdict, stopAt?_of_haltAt? ends]
        exact congrArg _ (children_eq (constructAt?_of_error found verdict))
      | .ok (some construct) =>
        have rest := nothing fun below deeper => by
          apply stopAt?_of_hidden
          intro exposedBelow
          have unmatched := exposed_append exposedBelow deeper
          rw [constructAt?_of_ok found verdict] at unmatched
          cases unmatched
        rw [trail_construct deep verdict, rest, stopAt?_of_ok found exposed shallow verdict]
        rfl
      | .ok none =>
        rw [trail_children deep verdict, stopAt?_of_ok found exposed shallow verdict]
        exact children_eq (constructAt?_of_ok found verdict)

theorem trailOfAll_eq_stops (rules : WalkRules) (root : SyntaxTree) (trees : List SyntaxTree)
    (here : Address) (first : Nat)
    (found : ∀ index, ∀ tree, trees[index]? = some tree →
      root.at? (here ++ [first + index]) = some tree)
    (within : here.length ≤ rules.maxDepth)
    (exposed : Exposed rules root here) (unmatched : constructAt? rules root here = none) :
    trailOfAll rules (here.length + 1) trees =
      ((SyntaxTree.addressesOfAll first trees).map (here ++ ·)).filterMap
        (stopAt? rules root) := by
  cases trees with
  | nil => rfl
  | cons tree trees =>
    have here' := trail_eq_stops rules root tree (here ++ [first]) (found 0 tree rfl)
      (by simpa using within) (exposed_snoc exposed unmatched first)
    have later := trailOfAll_eq_stops rules root trees here (first + 1)
      (fun index other member => by
        have := found (index + 1) other (by simpa using member)
        rwa [show first + 1 + index = first + (index + 1) by omega])
      within exposed unmatched
    rw [List.length_append, List.length_singleton] at here'
    rw [trailOfAll, here', later, SyntaxTree.addressesOfAll, List.map_append, List.filterMap_append,
      List.map_map]
    simp [Function.comp_def]

end

theorem trail_eq_filterMap (rules : WalkRules) (tree : SyntaxTree) :
    trail rules 0 tree = tree.addresses.filterMap (stopAt? rules tree) := by
  have whole := trail_eq_stops rules tree tree [] rfl (Nat.zero_le _) (by simp [Exposed])
  simpa using whole

def beforeHalt (rules : WalkRules) (tree : SyntaxTree) : List Address :=
  tree.addresses.takeWhile fun address => (haltAt? rules tree address).isNone

def reached (rules : WalkRules) (tree : SyntaxTree) : List Construct :=
  constructsAt rules tree ((beforeHalt rules tree).filter fun address => Topmost rules tree address)

-- How a walk ends when no collision ends it.
def halt? (rules : WalkRules) (tree : SyntaxTree) : Option Halt :=
  tree.addresses.findSome? (haltAt? rules tree)

theorem haltAt?_of_mem_beforeHalt (inside : address ∈ beforeHalt rules tree) :
    haltAt? rules tree address = none := by
  simpa using List.mem_takeWhile_imp inside

theorem addresses_split (rules : WalkRules) (tree : SyntaxTree) :
    ∃ later, tree.addresses = beforeHalt rules tree ++ later :=
  ⟨_, (List.takeWhile_append_dropWhile).symm⟩

theorem length_le_of_beforeHalt (inside : address ∈ beforeHalt rules tree)
    (exposed : Exposed rules tree address) : address.length ≤ rules.maxDepth := by
  by_contra far
  -- Else the walk to this node would meet one that is too deep, and that one is listed earlier.
  obtain ⟨later, split⟩ := addresses_split rules tree
  have path : address.take (rules.maxDepth + 1) <+: address := List.take_prefix _ _
  have above := SyntaxTree.mem_of_prefix_of_mem_left split path inside
  have length : (address.take (rules.maxDepth + 1)).length = rules.maxDepth + 1 := by
    rw [List.length_take]
    omega
  exact not_overdeep_of_haltAt? (haltAt?_of_mem_beforeHalt above)
    ⟨length, exposed_of_prefix exposed path⟩

theorem stops_beforeHalt (rules : WalkRules) (tree : SyntaxTree) :
    (beforeHalt rules tree).filterMap (stopAt? rules tree) =
      (reached rules tree).map .construct := by
  rw [reached, constructsAt, List.filterMap_filter, List.map_filterMap]
  apply List.filterMap_congr
  intro address inside
  have free := haltAt?_of_mem_beforeHalt inside
  by_cases exposed : Exposed rules tree address
  · have within := length_le_of_beforeHalt inside exposed
    cases matched : constructAt? rules tree address <;>
      simp [stopAt?, free, Topmost, exposed, within, matched]
  · simp [stopAt?_of_hidden exposed, Topmost, exposed]

theorem beforeHalt_of_split {earlier later : List Address} {first : Address}
    (split : tree.addresses = earlier ++ first :: later)
    (ends : haltAt? rules tree first = some halt)
    (free : ∀ address ∈ earlier, haltAt? rules tree address = none) :
    beforeHalt rules tree = earlier := by
  rw [beforeHalt, split, List.takeWhile_append_of_pos (by simpa using free)]
  simp [ends]

theorem exists_first_halt (ends : halt? rules tree = some halt) :
    ∃ first later, tree.addresses = beforeHalt rules tree ++ first :: later ∧
      haltAt? rules tree first = some halt := by
  obtain ⟨earlier, first, later, split, ends, free⟩ := List.findSome?_eq_some_iff.mp ends
  have cut := beforeHalt_of_split split ends free
  exact ⟨first, later, cut ▸ split, ends⟩

theorem halt?_eq_none_iff :
    halt? rules tree = none ↔ ∀ address ∈ tree.addresses, haltAt? rules tree address = none :=
  List.findSome?_eq_none_iff

theorem beforeHalt_of_free (free : halt? rules tree = none) :
    beforeHalt rules tree = tree.addresses := by
  rw [beforeHalt, List.takeWhile_eq_self_iff]
  simpa using halt?_eq_none_iff.mp free

theorem depthLimit_of_halt? {fault : Fault} (ends : halt? rules tree = some (.fault fault)) :
    fault = .depthLimitExceeded rules.maxDepth := by
  obtain ⟨first, later, -, here⟩ := exists_first_halt ends
  exact (haltAt?_eq_fault_iff.mp here).2

-- What is recorded depends on the policy and how far the walk gets on the tree.
theorem walk_eq_record_reached (rules : WalkRules) (before : Inventory) (tree : SyntaxTree) :
    walk rules before tree =
      andThen (follow rules before ((reached rules tree).map .construct)) fun filled =>
        ⟨filled, [], halt? rules tree⟩ := by
  rw [walk_eq_follow, trail_eq_filterMap]
  cases ends : halt? rules tree with
  | some halt =>
    obtain ⟨first, later, split, here⟩ := exists_first_halt ends
    rw [split, List.filterMap_append, List.filterMap_cons, stopAt?_of_haltAt? here,
      stops_beforeHalt, follow_append]
    rfl
  | none =>
    have stops := stops_beforeHalt rules tree
    rw [beforeHalt_of_free ends] at stops
    rw [stops, andThen_nothing]

theorem walk_of_recorded {before : Inventory}
    (done : (follow rules before ((reached rules tree).map .construct)).halt = none) :
    (walk rules before tree).halt = halt? rules tree ∧
      FilledBy before (walk rules before tree).inventory (reached rules tree) ∧
      (walk rules before tree).found = reached rules tree := by
  obtain ⟨filled, found⟩ := recorded_of_done done
  rw [walk_eq_record_reached, andThen_of_ok done]
  exact ⟨rfl, filled, by simpa [Outcome.found] using found⟩

end CodeInventory.Walk
