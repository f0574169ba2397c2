import TailscaleRs.Bart.Remove

namespace TailscaleRs.Bart

open Function BaseIndex
open Net (Family IpNet)
open StrideTrie (Canonical Sole Vacant)

variable {α : Type}

/-- What the closure does to a route, by itself: the entry after it, the value returned and what
was decided. -/
def Modifier.effect (f : Modifier α) : Option α → Option α × Option α × Op
  | none =>
    match f.absent with
    | .insert value => (some value, none, .insert)
    | decided => (none, none, decided.op)
  | some value =>
    match f.present value with
    | (value, .insert fresh) => (some fresh, some value, .insert)
    | (value, .remove) => (none, some value, .remove)
    | (value, .noop) => (some value, none, .noop)

variable {family : Family} {values : List UInt8 × BaseIndex → Option α} {height root : Nat}
  {path : List UInt8} {octet : UInt8} {node : Node α} {net : IpNet} {f : Modifier α}

/-- A walk of `modify_inner` that ended as it should. -/
def Modifies (family : Family) (values : List UInt8 × BaseIndex → Option α) (height : Nat)
    (path : List UInt8) (root : Nat) (net : IpNet) (f : Modifier α)
    (result : Except Panic (Modified α)) : Prop :=
  ∃ after removal, result = .ok ⟨after, (f.effect (values (key net))).2.1, removal,
      (f.effect (values (key net))).2.2⟩ ∧
    Settled family (update values (key net) (f.effect (values (key net))).1) height path
      root after removal

variable (placed : Placed values path root)
include placed

theorem modifies_absent (canonical : Canonical (labels family) values height path node)
    (absent : values (key net) = none) (insertFresh : α → Except Panic (Modified α))
    (inserts : ∀ value, ∃ after, insertFresh value = .ok ⟨after, none, none, .insert⟩ ∧
      Canonical (labels family) (update values (key net) (some value)) height path after) :
    Modifies family values height path root net f
      (match f.absent with
        | .insert value => insertFresh value
        | decided => .ok ⟨node, none, none, decided.op⟩) := by
  have same := placed.settled_same canonical absent
  rw [Modifies, absent, Modifier.effect]
  cases f.absent with
  | insert value =>
    obtain ⟨after, ran, held⟩ := inserts value
    exact ⟨after, none, ran, placed.settled_insert held⟩
  | remove => exact ⟨node, none, rfl, same⟩
  | noop => exact ⟨node, none, rfl, same⟩

variable (proper : (labels family).Proper net)
include proper

theorem finish_modified (below : path <+: (key net).1)
    (inside : path.length < family.size)
    (emptied : Canonical (labels family) (update values (key net) none) (height + 1) path
      node) {ret : Option α} :
    ∃ after removal, (do
        let (node, removal) ←
          tryRemoveLastChild node net.addr.octets path.length net.addr.family root
        return ⟨node, ret, removal, .remove⟩) =
        Except.ok (Modified.mk after ret removal .remove) ∧
      Settled family (update values (key net) none) (height + 1) path root after removal := by
  have sized : net.addr.octets.length = family.size := by rw [net.addr.sized, proper.1]
  have along : path = net.addr.octets.take path.length :=
    List.prefix_iff_eq_take.mp (below.trans (List.take_prefix _ _))
  obtain ⟨after, removal, ran, settled⟩ :=
    tryRemoveLastChild_settled placed sized along inside emptied
  rw [proper.1, ran]
  exact ⟨after, removal, rfl, settled⟩

theorem modifies_present (below : path <+: (key net).1)
    (inside : path.length < family.size) {value : α} (held : values (key net) = some value)
    {put : α → Node α} {emptied : Node α}
    (puts : ∀ value, Canonical (labels family) (update values (key net) (some value))
      (height + 1) path (put value))
    (empties : Canonical (labels family) (update values (key net) none) (height + 1) path
      emptied) {result : Except Panic (Modified α)}
    (is : result = match f.present value with
      | (value, .noop) => .ok ⟨put value, none, none, .noop⟩
      | (value, .insert fresh) => .ok ⟨put fresh, some value, none, .insert⟩
      | (value, .remove) => do
          let (node, removal) ←
            tryRemoveLastChild emptied net.addr.octets path.length net.addr.family root
          return ⟨node, some value, removal, .remove⟩) :
    Modifies family values (height + 1) path root net f result := by
  rw [is, Modifies, held, Modifier.effect]
  rcases f.present value with ⟨value', fresh | _ | _⟩
  · exact ⟨_, none, rfl, placed.settled_insert (puts fresh)⟩
  · exact finish_modified placed proper below inside empties
  · exact ⟨_, none, rfl, placed.settled_insert (puts value')⟩

omit placed

theorem modifyInner_modifies (below : path <+: (key net).1)
    (deep : path.length + height = family.size) (placed : Placed values path root)
    (canonical : Canonical (labels family) values height path node) :
    Modifies family values height path root net f
      (modifyInner net.addr.octets net f (net.addr.octets.drop path.length) path.length root
        node) := by
  induction height generalizing path root node with
  | zero => exact canonical.elim
  | succ height ih =>
    have inside : path.length < net.addr.family.size := by
      rw [proper.1]
      omega
    have limit : family.size ≤ maxDepth := size_le_maxDepth
    obtain ⟨octet, found, ends, further⟩ := key_step below inside
    rw [proper.1] at inside
    rw [drop_eq_cons found, modifyInner]
    dsimp only
    by_cases last : path.length = strideCount net
    · rw [if_pos last]
      have position := ends last
      have sets : ∀ entry, Canonical (labels family)
          (update values (key net) entry) (height + 1) path
          ⟨update node.prefixes (fromPrefix octet (overflowBits net)) entry, node.children⟩ := by
        intro entry
        rw [position]
        exact canonical.setPrefix _ entry
      have read : node.prefixes (fromPrefix octet (overflowBits net)) = values (key net) := by
        rw [position]
        exact canonical.1 _
      rw [read]
      cases held : values (key net) with
      | none =>
        rw [Modifies, held, Modifier.effect]
        cases f.absent with
        | insert value => exact ⟨_, none, rfl, placed.settled_insert (sets (some value))⟩
        | noop => exact ⟨node, none, rfl, placed.settled_same canonical held⟩
        | remove => exact finish_modified placed proper below inside (sets none)
      | some value =>
        dsimp only
        apply modifies_present placed proper below inside held (fun value => sets (some value))
          (sets none)
        rcases f.present value with ⟨_, _ | _ | _⟩ <;> rfl
    rw [if_neg last]
    have deeper := further last
    have fits := canonical.2 octet
    -- the closure puts a new route next to the child that is in the way
    have beside (absent : values (key net) = none) := modifies_absent (f := f) placed canonical
      absent (fun value => do
        let inserted ← insertInner node net value path.length
        return ⟨inserted.1, inserted.2, none, .insert⟩) fun value => by
      obtain ⟨after, ran, held⟩ := insertRounds_canonical (maxDepth - path.length) value proper
        below deep (by omega) canonical
      exact ⟨after, by rw [insertInner, ran, absent]; rfl, held⟩
    -- or in place of the one that is its own
    have puts {value : α} (sole : Sole values (path ++ [octet]) (key net) value) (fresh : α) :=
      canonical.setChild_update deeper (childFits_single proper (sole.replace fresh))
    cases child : node.children octet with
    | none =>
      rw [child] at fits
      apply modifies_absent placed canonical (fits (key net) deeper) _
      intro value
      rw [isFringe_eq deeper]
      have sole := Vacant.insert fits deeper value
      refine ⟨_, ?_, canonical.setChild_update deeper (childFits_single proper sole)⟩
      simp only [ok_bind, insertChild, decide_eq_true_eq]
      rfl
    | some child' =>
      rw [child] at fits
      cases child' with
      | leaf leafPrefix value =>
        have proper' : (labels family).Proper leafPrefix := fits.1
        have notFringe : key leafPrefix ≠ (path ++ [octet], one) := fits.2.1
        have sole : Sole values (path ++ [octet]) (key leafPrefix) value := fits.2.2
        dsimp only
        by_cases same : leafPrefix = net
        · subst same
          rw [if_neg (by simp), isFringe_eq deeper, decide_eq_false notFringe]
          apply modifies_present placed proper below inside sole.holds (puts sole)
            (canonical.eraseChild deeper sole)
          simp only [if_neg notFringe]
          rcases f.present value with ⟨_, _ | _ | _⟩ <;> rfl
        · rw [if_pos (by simpa using same)]
          apply beside
          apply sole.others (key net) deeper
          intro again
          exact same ((labels family).injective leafPrefix net proper' proper again.symm)
      | fringe value =>
        have sole : Sole values (path ++ [octet]) (path ++ [octet], one) value :=
          fits
        dsimp only
        rw [isFringe_eq deeper, ok_bind]
        by_cases fringe : key net = (path ++ [octet], one)
        · rw [if_neg (by simpa using fringe), decide_eq_true fringe]
          rw [← fringe] at sole
          apply modifies_present placed proper below inside sole.holds (puts sole)
            (canonical.eraseChild deeper sole)
          simp only [if_pos fringe]
          rcases f.present value with ⟨_, _ | _ | _⟩ <;> rfl
        · rw [if_pos (by simpa using fringe)]
          exact beside (sole.others (key net) deeper fringe)
      | path next =>
        have present : node.children octet ≠ none := by
          rw [child]
          exact Option.some_ne_none _
        have step : (path ++ [octet]).length = path.length + 1 := by simp
        obtain ⟨next', removal, ran, settled⟩ :=
          ih deeper (by omega) (placed.deeper fits.1) fits.2
        rw [step] at ran
        refine ⟨_, removal, ?_, settled.lift canonical present deep placed deeper⟩
        dsimp only
        rw [ran]
        rfl

omit proper

theorem modify_canonical (same : net.addr.family = family)
    (canonical : Canonical (labels family) values family.size [] node) :
    ∃ after, modify node net f = .ok (after, (f.effect (values (key net))).2) ∧
      Canonical (labels family)
        (update values (key net) (f.effect (values (key net))).1) family.size []
        after := by
  have proper : (labels family).Proper net.trunc := ⟨same, net.truncated_trunc⟩
  obtain ⟨walked, removal, ran, settled⟩ :=
    modifyInner_modifies (f := f) proper List.nil_prefix (by simp) (.inl ⟨rfl, rfl⟩) canonical
  rw [List.length_nil, List.drop_zero, key_trunc] at ran
  rw [key_trunc] at settled
  cases removal with
  | none =>
    refine ⟨walked, ?_, settled.1⟩
    rw [modify]
    simp only [ran, ok_bind]
    rfl
  | some info =>
    obtain ⟨after, compressed, held⟩ := settled.compress
    refine ⟨after, ?_, held⟩
    rw [modify]
    simp only [ran, ok_bind, compressed]
    rfl

/-- The closure under which `modify` removes. -/
def Modifier.remover : Modifier α := ⟨.remove, fun value => (value, .remove)⟩

theorem finish_eq {tried : Except Panic (Node α × Option (RemovalInfo α))} {ret : Option α} :
    (do let (node, removal) ← tried; return (node, ret, removal)) =
      (fun result : Modified α => (result.node, result.ret, result.removal)) <$>
        (do let (node, removal) ← tried; return ⟨node, ret, removal, .remove⟩) := by
  cases tried <;> rfl

theorem removeInner_eq (octets rest : List UInt8) (depth root : Nat) :
    removeInner octets net rest depth root node =
      (fun result => (result.node, result.ret, result.removal)) <$>
        modifyInner octets net .remover rest depth root node := by
  induction rest generalizing depth root node with
  | nil => rfl
  | cons octet rest ih =>
    rw [removeInner, modifyInner]
    by_cases last : depth = strideCount net
    · rw [if_pos last, if_pos last]
      dsimp only [removePrefix]
      cases node.prefixes (fromPrefix octet (overflowBits net)) <;> exact finish_eq
    · rw [if_neg last, if_neg last]
      cases node.children octet with
      | none => rfl
      | some child =>
        cases child with
        | leaf leafPrefix value =>
          dsimp only
          split
          · rfl
          · exact finish_eq
        | fringe value =>
          dsimp only
          rw [map_bind]
          congr 1
          funext fringe
          cases fringe
          · rfl
          · exact finish_eq
        | path next =>
          dsimp only
          rw [ih, map_bind, bind_map_left]
          rfl

theorem remove_canonical (same : net.addr.family = family)
    (canonical : Canonical (labels family) values family.size [] node) :
    ∃ after, remove node net = .ok (after, values (key net)) ∧
      Canonical (labels family) (update values (key net) none) family.size [] after := by
  obtain ⟨after, ran, held⟩ := modify_canonical (f := .remover) same canonical
  have effect : Modifier.effect .remover (values (key net)) =
      (none, values (key net), .remove) := by
    cases values (key net) <;> rfl
  rw [effect] at ran held
  refine ⟨after, ?_, held⟩
  have removed : remove node net = (fun result => (result.1, result.2.1)) <$>
      modify node net .remover := by
    rw [remove, modify]
    dsimp only
    rw [removeInner_eq, map_bind, bind_map_left]
    congr 1
    funext result
    cases result.removal with
    | none => rfl
    | some info =>
      dsimp only
      cases compressRemovalPath result.node info <;> rfl
  rw [removed, ran]
  rfl
end TailscaleRs.Bart
