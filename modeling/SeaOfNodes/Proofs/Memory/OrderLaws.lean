import SeaOfNodes.Proofs.Memory.KeptOrder

/-!
# Laws of exchanging order

`Graph.canReorder` as a relation between nodes: where it answers at all, that no node exchanges its
order with itself, and how the answers compare when the nodes are named the other way round, or when
another oracle is asked.

**`canReorder_laws`** needs nothing of the graph.  What the relation is symmetric and monotone in
comes down to one question to the oracle for each pair of touched locations
(`footprintsDisjoint_comm`, `footprintsDisjoint_mono`).  Everything that is decided before the
oracle is asked treats the two nodes alike, and does not depend on the oracle.
-/

namespace SeaOfNodes

/-- The oracle of identities answers the same whichever location is named first. -/
theorem AliasOracle.canReorder_identity_comm (u : LocationUniverse) (la lb : LocationId) :
    AliasOracle.identity.canReorder u la lb = AliasOracle.identity.canReorder u lb la := by
  have hrelation : AliasOracle.identity.relation u la lb =
      AliasOracle.identity.relation u lb la := by
    simp only [AliasOracle.identity]
    rcases u.get? la with _ | left <;> rcases u.get? lb with _ | right
    · rfl
    · rfl
    · rfl
    · simp only [Bool.or_comm left.isAny, eq_comm (a := la)]
  exact congrArg AliasRelation.permitsReorder hrelation

namespace Graph

variable {g : Graph} {a b id : NodeId} {oracle other : AliasOracle} {v : Violation}

/-! ## Where there is an answer -/

theorem exists_requireAlive_eq_error_iff :
    (∃ v, g.requireAlive id = .error v) ↔ g.isAlive id = false := by
  cases hrequired : g.requireAlive id with
  | ok node =>
      have halive := isAlive_iff_exists.mpr ⟨node, requireAlive_eq_ok_iff.mp hrequired⟩
      simp [halive]
  | error v =>
      have hdead : g.isAlive id ≠ true := by
        intro halive
        obtain ⟨node, hnode⟩ := isAlive_iff_exists.mp halive
        rw [requireAlive_eq_ok_iff.mpr hnode] at hrequired
        cases hrequired
      simp [hdead]

/-- The violation is that of the first of the two nodes that is not attached. -/
theorem canReorder_eq_error_iff :
    g.canReorder a b oracle = .error v ↔
      g.requireAlive a = .error v ∨ g.isAlive a = true ∧ g.requireAlive b = .error v := by
  cases ha : g.requireAlive a with
  | error w =>
      have hdead : g.isAlive a = false := exists_requireAlive_eq_error_iff.mp ⟨w, ha⟩
      unfold canReorder
      rw [ha, hdead]
      simp [bind, Except.bind]
  | ok nodeA =>
      have halive : g.isAlive a = true :=
        isAlive_iff_exists.mpr ⟨nodeA, requireAlive_eq_ok_iff.mp ha⟩
      cases hb : g.requireAlive b with
      | error w =>
          unfold canReorder
          rw [ha, hb, halive]
          simp [bind, Except.bind]
      | ok nodeB =>
          have halive' : g.isAlive b = true :=
            isAlive_iff_exists.mpr ⟨nodeB, requireAlive_eq_ok_iff.mp hb⟩
          by_cases hne : a = b
          · subst hne
            unfold canReorder
            rw [ha]
            simp [bind, Except.bind, pure, Except.pure]
          · rw [canReorder_of_isAlive halive halive' hne]
            simp

/-- There is no answer exactly if one of the two nodes is not attached. -/
theorem exists_canReorder_eq_error_iff :
    (∃ v, g.canReorder a b oracle = .error v) ↔
      ¬ (g.isAlive a = true ∧ g.isAlive b = true) := by
  simp only [canReorder_eq_error_iff, exists_or, exists_and_left, exists_requireAlive_eq_error_iff]
  cases g.isAlive a <;> cases g.isAlive b <;> simp

/-- Nodes about which there is an answer are attached. -/
theorem isAlive_of_canReorder {answer : Bool} (h : g.canReorder a b oracle = .ok answer) :
    g.isAlive a = true ∧ g.isAlive b = true := by
  refine Classical.byContradiction fun hdead => ?_
  obtain ⟨v, hv⟩ := exists_canReorder_eq_error_iff.mpr hdead
  rw [h] at hv
  cases hv

/-- No node exchanges its order with itself. -/
theorem canReorder_self (ha : g.isAlive a = true) : g.canReorder a a oracle = .ok false := by
  obtain ⟨node, hnode⟩ := isAlive_iff_exists.mp ha
  unfold canReorder
  rw [requireAlive_eq_ok_iff.mpr hnode]
  simp [bind, Except.bind, pure, Except.pure]

/-! ## Comparing answers -/

theorem footprintsDisjoint_eq_true_iff :
    g.footprintsDisjoint a b oracle = true ↔
      ∀ la ∈ g.footprint a, ∀ lb ∈ g.footprint b, oracle.canReorder g.locations la lb = true := by
  simp only [footprintsDisjoint, List.all_eq_true]

theorem footprintsDisjoint_comm
    (symmetric : ∀ la lb,
      oracle.canReorder g.locations la lb = oracle.canReorder g.locations lb la) :
    g.footprintsDisjoint a b oracle = g.footprintsDisjoint b a oracle := by
  rw [Bool.eq_iff_iff, footprintsDisjoint_eq_true_iff, footprintsDisjoint_eq_true_iff]
  constructor
  · intro h lb hb la ha
    rw [symmetric]
    exact h la ha lb hb
  · intro h la ha lb hb
    rw [symmetric]
    exact h lb hb la ha

theorem footprintsDisjoint_mono
    (weaker : ∀ la lb, oracle.canReorder g.locations la lb = true →
      other.canReorder g.locations la lb = true)
    (h : g.footprintsDisjoint a b oracle = true) : g.footprintsDisjoint a b other = true := by
  rw [footprintsDisjoint_eq_true_iff] at h ⊢
  exact fun la ha lb hb => weaker la lb (h la ha lb hb)

/-- **Symmetry.**  The answer does not depend on which node is named first, if the oracle's answers
do not depend on which location is. -/
theorem canReorder_comm
    (symmetric : ∀ la lb,
      oracle.canReorder g.locations la lb = oracle.canReorder g.locations lb la)
    (ha : g.isAlive a = true) (hb : g.isAlive b = true) :
    g.canReorder a b oracle = g.canReorder b a oracle := by
  by_cases hne : a = b
  · rw [hne]
  · rw [canReorder_of_isAlive ha hb hne, canReorder_of_isAlive hb ha (Ne.symm hne),
      footprintsDisjoint_comm symmetric, Bool.or_comm (g.footprint a).isEmpty,
      Bool.or_comm (g.witnesses a b), Bool.or_comm (g.isVolatile a)]

/-- Of two attached nodes one of the two answers is given. -/
theorem canReorder_eq_ok_true_iff (ha : g.isAlive a = true) (hb : g.isAlive b = true) :
    g.canReorder a b oracle = .ok true ↔ ¬ g.canReorder a b oracle = .ok false := by
  by_cases hne : a = b
  · rw [← hne, canReorder_self ha]
    simp
  · rw [canReorder_of_isAlive ha hb hne, Except.ok.injEq, Except.ok.injEq, Bool.not_eq_false]

/-- **Monotonicity.**  What may exchange its order under one oracle may do so under every oracle
that permits as much.  Whatever forbids it for the second forbids it for the first: only the
disjointness of the footprints depends on the oracle. -/
theorem canReorder_mono
    (weaker : ∀ la lb, oracle.canReorder g.locations la lb = true →
      other.canReorder g.locations la lb = true)
    (h : g.canReorder a b oracle = .ok true) : g.canReorder a b other = .ok true := by
  obtain ⟨ha, hb⟩ := isAlive_of_canReorder h
  have hne : a ≠ b := by
    rintro rfl
    rw [canReorder_self ha] at h
    cases h
  rw [canReorder_eq_ok_true_iff ha hb, canReorder_eq_ok_false_iff ha hb hne] at h ⊢
  rintro ⟨htouchesA, htouchesB, hreason⟩
  refine h ⟨htouchesA, htouchesB, hreason.imp_right (.imp_right (.imp_right (.imp_right ?_)))⟩
  intro hoverlap
  rw [Bool.eq_false_iff] at hoverlap ⊢
  exact fun hdisjoint => hoverlap (footprintsDisjoint_mono weaker hdisjoint)

/-! ## The laws -/

/-- **The laws of exchanging order**, for any two nodes of any graph.

* There is no answer exactly if one of the nodes is not attached, whatever the oracle.
* No node may exchange its order with itself, whatever the oracle.
* For attached nodes and an oracle that answers the same whichever location is named first, the
  answer is the same whichever node is named first; the oracle of identities is such an oracle.
* What may exchange its order under one oracle may do so under every oracle that permits for any two
  locations what the first permits. -/
theorem canReorder_laws (g : Graph) (a b : NodeId) :
    (∀ oracle, (∃ v, g.canReorder a b oracle = .error v) ↔
      ¬ (g.isAlive a = true ∧ g.isAlive b = true)) ∧
    (∀ oracle, g.canReorder a a oracle ≠ .ok true) ∧
    (∀ oracle : AliasOracle,
      (∀ la lb, oracle.canReorder g.locations la lb = oracle.canReorder g.locations lb la) →
      g.isAlive a = true → g.isAlive b = true →
      g.canReorder a b oracle = g.canReorder b a oracle) ∧
    (g.isAlive a = true → g.isAlive b = true →
      g.canReorder a b .identity = g.canReorder b a .identity) ∧
    ∀ oracle other : AliasOracle,
      (∀ la lb, oracle.canReorder g.locations la lb = true →
        other.canReorder g.locations la lb = true) →
      g.canReorder a b oracle = .ok true → g.canReorder a b other = .ok true := by
  refine ⟨fun oracle => exists_canReorder_eq_error_iff, fun oracle h => ?_,
    fun oracle symmetric => canReorder_comm symmetric,
    canReorder_comm (AliasOracle.canReorder_identity_comm g.locations),
    fun oracle other weaker => canReorder_mono weaker⟩
  obtain ⟨halive, -⟩ := isAlive_of_canReorder h
  rw [canReorder_self halive] at h
  cases h

/-- Two stores of one constant to the locations that are declared, one behind the other. -/
def twoStores (first second : LocationIdentity) : Graph :=
  let left := LocationUniverse.new.intern first
  let right := left.2.intern second
  (addWrite { control := ⟨5⟩, address := ⟨3⟩, location := right.1, value := ⟨4⟩ }).after <|
  (addWrite { control := ⟨0⟩, address := ⟨3⟩, location := left.1, value := ⟨4⟩ }).after <|
  (constInt 7 .int).after <|
  (offsetAddress ⟨1⟩ ⟨2⟩).after <|
  (constInt 16 .long).after <|
  (parameter 0 (.object false)).after <|
  (internLocation second).after <|
  (internLocation first).after new

theorem reachable_twoStores (first second : LocationIdentity) :
    (twoStores first second).Reachable := by
  unfold twoStores
  exact .edit (.edit (.edit (.edit (.edit (.edit (.edit (.edit (.refl new) (.internLocation _))
    (.internLocation _)) (.parameter _ _)) (.constInt _ _)) (.offsetAddress _ _)) (.constInt _ _))
    (.addWrite _)) (.addWrite _)

/-- Stores to two fields of a point. -/
def pointStores : Graph :=
  twoStores (.field "Point" "x" .int false) (.field "Point" "y" .int false)

/-- They may exchange their order, in either direction, and also for an oracle that knows more; and
neither of them with itself. -/
theorem canReorder_laws_pointStores :
    pointStores.canReorder ⟨5⟩ ⟨6⟩ .identity = .ok true ∧
      pointStores.canReorder ⟨6⟩ ⟨5⟩ .identity = .ok true ∧
      pointStores.canReorder ⟨5⟩ ⟨6⟩ tellsAllApart = .ok true ∧
      pointStores.canReorder ⟨5⟩ ⟨5⟩ tellsAllApart ≠ .ok true := by
  have hidentity : pointStores.canReorder ⟨5⟩ ⟨6⟩ .identity = .ok true := rfl
  obtain ⟨-, hself, hsymm, -, hmono⟩ := canReorder_laws pointStores ⟨5⟩ ⟨6⟩
  have hback := hsymm .identity
    (AliasOracle.canReorder_identity_comm pointStores.locations) rfl rfl
  exact ⟨hidentity, hback.symm.trans hidentity,
    hmono .identity tellsAllApart (fun _ _ _ => rfl) hidentity, hself tellsAllApart⟩

end Graph

end SeaOfNodes
