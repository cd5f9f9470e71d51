import SeaOfNodes.Proofs.Lowering.Acceptance
import SeaOfNodes.Proofs.Lowering.Substitution

/-!
# Lowering one node

Lowering an attached access succeeds, and the graph that it leaves is known node by node.  That is
`Graph.Splices`: the planned nodes are new, and all that the attached nodes hold, the new ones
included, is renamed by `Graph.reroute`.  **`run_lowerNode`** puts it together from the law of
expansions, the acceptance of planned replacements and the law of substitution.

Nothing after this module looks into the lowering of a single node.
-/

namespace SeaOfNodes

variable {σ α : Type}

/-! ## Runs of tools -/

theorem Edit.run_inTool {m : Edit α} {g g' : Graph} {a : α} (h : m.run g = .ok a g') (memory : σ) :
    (m.inTool : ToolM σ α).run (g, memory) = .ok a (g', memory) := by
  show Edit.inTool m (g, memory) = _
  rw [Edit.inTool, h]

theorem Edit.run_ask_of_ok {f : Graph → Except Violation α} {g : Graph} {a : α} (h : f g = .ok a) :
    (Edit.ask f).run g = .ok a g := by
  show Edit.ask f g = _
  unfold Edit.ask
  rw [h]

/-- A check is followed by what it permits, or by nothing. -/
theorem ToolM.run_inTool_ask_bind {β : Type} (f : Graph → Except Violation α) (k : α → ToolM σ β)
    (g : Graph) (memory : σ) :
    ((Edit.ask f).inTool >>= k).run (g, memory) =
      match f g with
      | .ok a => (k a).run (g, memory)
      | .error v => .error (.violation v) (g, memory) := by
  simp only [EStateM.run, bind, EStateM.bind, Edit.inTool, Edit.ask]
  cases f g <;> rfl

/-- **How the lowering of a node goes.**  The tool is run, its replacement is looked at, and carried
out if it is accepted.  What the tool allocated is taken back if it fails or its replacement is not
accepted, and not if carrying it out fails. -/
theorem run_lowerNode_eq (tool : LoweringTool σ) {g : Graph} {id : NodeId}
    {killed : Option Checkpoint} (hlowerable : g.requireLowerable id = .ok killed) (memory : σ) :
    (lowerNode tool id).run (g, memory) =
      match (tool id).run (g, memory) with
      | .error (.violation v) (h, memory') =>
        .error (.violation v) (h.discardSince g.size, memory')
      | .error .outOfRange s => .error .outOfRange s
      | .ok r (h, memory') =>
        match h.checkReplacement id killed r with
        | .error v => .error (.violation v) (h.discardSince g.size, memory')
        | .ok _ =>
          match (Graph.substitute id r).run h with
          | .ok _ g' => .ok r (g', memory')
          | .error e g' => .error e (g', memory') := by
  rw [lowerNode, ToolM.run_inTool_ask_bind, hlowerable]
  have hgraph : ∀ s : Graph × σ, ToolM.graph s = .ok s.1 s := fun _ => rfl
  simp only [EStateM.run, bind, EStateM.bind, hgraph, ToolM.orDiscard, Edit.inTool, Edit.ask, pure,
    EStateM.pure]
  rcases tool id (g, memory) with ⟨r, h, memory'⟩ | ⟨v | _, h, memory'⟩
  · dsimp only
    cases h.checkReplacement id killed r with
    | error v => rfl
    | ok =>
        dsimp only
        cases Graph.substitute id r h <;> rfl
  · rfl
  · rfl

/-- A node is lowered when the tool succeeds, and its replacement is accepted and carried out. -/
theorem run_lowerNode_of_ok {tool : LoweringTool σ} {g h g' : Graph} {memory memory' : σ}
    {id : NodeId} {killed : Option Checkpoint} {r : Replacement}
    (hlowerable : g.requireLowerable id = .ok killed)
    (htool : (tool id).run (g, memory) = .ok r (h, memory'))
    (hcheck : h.checkReplacement id killed r = .ok ())
    (hsubstitute : (Graph.substitute id r).run h = .ok () g') :
    (lowerNode tool id).run (g, memory) = .ok r (g', memory') := by
  rw [run_lowerNode_eq tool hlowerable, htool]
  dsimp only
  rw [hcheck]
  dsimp only
  rw [hsubstitute]

namespace Graph

variable {g g' : Graph} {id x : NodeId} {node : Node} {config : LoweringConfig}

theorem requireLowerable_eq_ok (hnode : g.node? id = some node) (halive : node.isAlive = true)
    (hlowerable : node.kind.isLowerable = true) :
    g.requireLowerable id = .ok (node.kind.kills.map .single) := by
  unfold requireLowerable
  rw [bind_eq_ok_iff]
  refine ⟨node, requireAlive_eq_ok_iff.mpr ⟨hnode, halive⟩, ?_⟩
  rw [if_pos hlowerable, checkpoint?_of_node? hnode]
  rfl

end Graph

/-- A planned node as it stands in the graph once its expansion was accepted. -/
def Node.settled (bci : UInt32) (node : Node) : Node := (node.entered bci).marked

namespace Graph

variable {g g' : Graph} {id x : NodeId} {node : Node} {config : LoweringConfig}

/-- **The graph `g'` after the node `id` of `g` was replaced by a plan.** -/
structure Splices (g : Graph) (id : NodeId) (plan : Plan) (g' : Graph) : Prop where
  /-- The invariant is kept. -/
  wellFormed : g'.WellFormed
  /-- The start node stays. -/
  start : g'.start = g.start
  /-- The locations stay. -/
  locations : g'.locations = g.locations
  /-- The bytecode index stays. -/
  nextBci : g'.nextBci = g.nextBci
  /-- The planned nodes are new, and no others. -/
  size : g'.size = g.size + plan.size
  /-- The node holds nothing any more. -/
  lowered : g'.node? id = (g.node? id).map Node.buried
  /-- The old nodes are renamed. -/
  old : ∀ x ≠ id, x.index < g.size →
    g'.node? x = (g.node? x).map (Node.redirect (reroute id (plan.replacement g.nextId)))
  /-- The new nodes are the planned ones, renamed. -/
  new : ∀ j, g'.node? (g.nextId.advance j) = ((plan.nodes g.nextId)[j]?).map fun node =>
    (node.settled g.nextBci).rename (reroute id (plan.replacement g.nextId))

theorem ne_advance_nextId (hnode : g.node? id = some node) (j : Nat) : g.nextId.advance j ≠ id := by
  rintro rfl
  have hlt : g.size + j < g.size := lt_size_of_node? hnode
  omega

/-- A new node that allows a role serves in it. -/
theorem serves_insertAll_advance {nodes : List Node} {j : Nat} {new : Node} {type : InputType}
    (hnew : nodes[j]? = some new) (hallows : new.kind.allows type = true) :
    (g.insertAll nodes).Serves (g.nextId.advance j) type :=
  ⟨new.entered g.nextBci, by rw [node?_insertAll_advance, hnew]; rfl, rfl, hallows⟩

/-- In every role in which the access is used after its expansion was built, a new node serves. -/
theorem exists_target_of_usedRole (hnode : g.node? id = some node) (halive : node.isAlive = true)
    {plan : Plan} (hplan : config.planOf g g.nextId id = some plan)
    (wf : (g.insertAll (plan.nodes g.nextId)).WellFormed) {type : InputType}
    (hused : type ∈ (g.insertAll (plan.nodes g.nextId)).usedRoles id) :
    ∃ target, (plan.replacement g.nextId).target type = some target ∧ target ≠ id ∧
      (g.insertAll (plan.nodes g.nextId)).Serves target type := by
  obtain ⟨view, hview, rfl⟩ := Option.map_eq_some_iff.mp hplan
  have hlive := liveNode?_of_isAlive hnode halive
  have hkind := kind_of_access? hview hlive
  obtain ⟨site, hsite, rfl⟩ := mem_usedRoles.mp hused
  obtain ⟨user, huser, huserAlive, -, hinput, hinfo⟩ := wf.mem_usageSites_iff.mp hsite
  -- the user may be a new node, but what it uses is the access itself, which allows the role
  obtain ⟨info, hinfo', found, hfound, -, hallows⟩ := wf.serves_of_input huser huserAlive hinput
  cases hinfo.symm.trans hinfo'
  rw [node?_insertAll_of_lt _ (lt_size_of_node? hnode), hnode] at hfound
  cases hfound
  obtain ⟨j, new, htarget, hnew, hnewAllows⟩ := config.exists_target g.locations
    (view.address.bind fun address => g.input address 0) g.nextId (hkind ▸ hallows)
  exact ⟨_, htarget, ne_advance_nextId hnode j, serves_insertAll_advance hnew hnewAllows⟩

theorem checkReplacement_plan (hnode : g.node? id = some node) (halive : node.isAlive = true)
    {plan : Plan} (hplan : config.planOf g g.nextId id = some plan)
    (wf : (g.insertAll (plan.nodes g.nextId)).WellFormed) :
    (g.insertAll (plan.nodes g.nextId)).checkReplacement id (node.kind.kills.map .single)
      (plan.replacement g.nextId) = .ok () := by
  refine checkReplacement_eq_ok_iff.mpr ⟨fun site hsite => ?_, ?_⟩
  · obtain ⟨target, htarget, -, hserves⟩ :=
      exists_target_of_usedRole hnode halive hplan wf (mem_usedRoles.mpr ⟨site, hsite, rfl⟩)
    exact ⟨target, htarget, hserves⟩
  · cases hkills : node.kind.kills with
    | none => rfl
    | some location =>
        -- the node of the access is a new one and kills what the access killed
        obtain ⟨view, hview, rfl⟩ := Option.map_eq_some_iff.mp hplan
        have hlive := liveNode?_of_isAlive hnode halive
        rw [← kind_of_access? hview hlive] at hkills
        obtain ⟨j, new, hnew, hnewKills⟩ := config.exists_kills g.locations
          (view.address.bind fun address => g.input address 0) g.nextId hkills
        have hj := (List.getElem?_eq_some_iff.mp hnew).1
        rw [Plan.length_nodes] at hj
        refine (killsAll_single wf.any _ location).trans (List.any_eq_true.mpr
          ⟨g.nextId.advance j, ArenaId.mem_span _ |>.mpr ⟨?_, ?_⟩, covers_of_kills
            (by rw [node?_insertAll_advance, hnew]; rfl : _ = some (new.entered g.nextBci))
            hnewKills⟩)
        · exact Nat.le_add_right _ _
        · exact Nat.add_lt_add_left hj _

/-- **Lowering an attached access succeeds, and splices its plan.** -/
theorem run_lowerNode (config : LoweringConfig) (wf : g.WellFormed) (hnode : g.node? id = some node)
    (halive : node.isAlive = true) (hlowerable : node.kind.isLowerable = true) :
    ∃ plan g', config.planOf g g.nextId id = some plan ∧
      (lowerNode config.tool id).run (g, ()) = .ok (plan.replacement g.nextId) (g', ()) ∧
      g.Splices id plan g' := by
  obtain ⟨plan, hplan, hbuilds⟩ := config.builds_expand wf hnode halive hlowerable
  have wf' := LoweringConfig.Builds.wellFormed config hbuilds wf
  have hnode' : (g.insertAll (plan.nodes g.nextId)).node? id = some node :=
    (node?_insertAll_of_lt _ (lt_size_of_node? hnode)).trans hnode
  obtain ⟨g', hsubstitute, -, hframe, hfind⟩ := wf'.run_substitute hnode' halive
    fun type htype => exists_target_of_usedRole hnode halive hplan wf' htype
  refine ⟨plan, g', hplan, ?_, ?_⟩
  · exact run_lowerNode_of_ok (requireLowerable_eq_ok hnode halive hlowerable)
      (Edit.run_inTool hbuilds ()) (checkReplacement_plan hnode halive hplan wf') hsubstitute
  · refine ⟨wf'.after_substitute hsubstitute, ?_, ?_, ?_, ?_, ?_, ?_, ?_⟩
    · exact hframe.start.trans (g.start_insertAll _)
    · exact hframe.locations.trans (g.locations_insertAll _)
    · exact hframe.nextBci.trans (g.nextBci_insertAll _)
    · rw [hframe.size, size_insertAll, Plan.length_nodes]
    · rw [hfind, if_pos rfl, hnode]
      rfl
    · -- old nodes are not marked
      intro x hx hlt
      have hnew : x ∉ (plan.replacement g.nextId).nodes := fun h =>
        Nat.not_le.mpr hlt (ArenaId.mem_span _ |>.mp h).1
      rw [hfind, if_neg (Ne.symm hx), node?_insertAll_of_lt _ hlt]
      simp only [hnew, false_and, if_false]
    · -- new nodes are, since all of them are listed in the replacement
      intro j
      rw [hfind, if_neg (ne_advance_nextId hnode j).symm, node?_insertAll_advance]
      cases hnew : (plan.nodes g.nextId)[j]? with
      | none => rfl
      | some new =>
          have hj := (List.getElem?_eq_some_iff.mp hnew).1
          rw [Plan.length_nodes] at hj
          have hmem : g.nextId.advance j ∈ (plan.replacement g.nextId).nodes :=
            (ArenaId.mem_span _).mpr ⟨Nat.le_add_right _ _, Nat.add_lt_add_left hj _⟩
          have hentered : (new.entered g.nextBci).isAlive = true := rfl
          simp only [Option.map_some, hmem, hentered, and_self, if_true]
          rw [Node.redirect_of_isAlive hentered]
          rfl

theorem run_lowerNode_of_liveNode? (config : LoweringConfig) (wf : g.WellFormed)
    (hlive : g.liveNode? id = some node) (hlowerable : node.kind.isLowerable = true) :
    ∃ plan g', config.planOf g g.nextId id = some plan ∧
      (lowerNode config.tool id).run (g, ()) = .ok (plan.replacement g.nextId) (g', ()) ∧
      g.Splices id plan g' := by
  obtain ⟨hnode, halive⟩ := liveNode?_eq_some_iff.mp hlive
  exact run_lowerNode config wf hnode halive hlowerable

/-! ## The new nodes -/

namespace Splices

variable {plan : Plan} {new : Node} {j : Nat}

theorem liveNode?_advance (h : g.Splices id plan g') (hnew : (plan.nodes g.nextId)[j]? = some new) :
    g'.liveNode? (g.nextId.advance j) =
      some ((new.settled g.nextBci).rename (reroute id (plan.replacement g.nextId))) := by
  refine liveNode?_of_isAlive ?_ rfl
  rw [h.new, hnew]
  rfl

/-- The machine access is attached, and what the replacement names for later accesses. -/
theorem exists_access (h : g.Splices id plan g') :
    ∃ control, (plan.replacement g.nextId).memory = some (plan.access g.nextId) ∧
      plan.access g.nextId ∈ (plan.replacement g.nextId).nodes ∧
      g'.liveNode? (plan.access g.nextId) =
        some (((plan.block.access.node control).settled g.nextBci).rename
          (reroute id (plan.replacement g.nextId))) := by
  obtain ⟨control, haccess⟩ := plan.exists_access g.nextId
  have hlive := h.liveNode?_advance haccess
  have hlt := Plan.offset_lt (show plan.offset .memory = some _ from rfl)
  rw [← ArenaId.advance_advance] at hlive
  refine ⟨control, rfl, ?_, hlive⟩
  rw [Plan.access, Plan.first, ArenaId.advance_advance]
  exact List.mem_map_of_mem (List.mem_range.mpr hlt)

theorem exists_of_listed (h : g.Splices id plan g') {n : NodeId}
    (hlisted : n ∈ (plan.replacement g.nextId).nodes) :
    ∃ new ∈ plan.nodes g.nextId, g'.liveNode? n =
      some ((new.settled g.nextBci).rename (reroute id (plan.replacement g.nextId))) := by
  obtain ⟨j, hj, rfl⟩ := List.mem_map.mp hlisted
  have hlt : j < (plan.nodes g.nextId).length := plan.length_nodes g.nextId ▸ List.mem_range.mp hj
  exact ⟨_, List.getElem_mem hlt, h.liveNode?_advance (List.getElem?_eq_getElem hlt)⟩

/-- **The nodes that the replacement lists** are the planned ones, as they stand in the graph. -/
theorem exists_listed_iff (h : g.Splices id plan g') {P : Node → Prop} :
    (∃ n ∈ (plan.replacement g.nextId).nodes, ∃ node, g'.liveNode? n = some node ∧ P node) ↔
      ∃ new ∈ plan.nodes g.nextId,
        P ((new.settled g.nextBci).rename (reroute id (plan.replacement g.nextId))) := by
  constructor
  · rintro ⟨n, hlisted, node, hnode, hP⟩
    obtain ⟨new, hnew, hlive⟩ := h.exists_of_listed hlisted
    cases hlive.symm.trans hnode
    exact ⟨new, hnew, hP⟩
  · rintro ⟨new, hnew, hP⟩
    obtain ⟨j, hlt, rfl⟩ := List.getElem_of_mem hnew
    have hlive := h.liveNode?_advance (List.getElem?_eq_getElem hlt)
    have hj : j < plan.size := plan.length_nodes g.nextId ▸ hlt
    exact ⟨_, List.mem_map_of_mem (List.mem_range.mpr hj), _, hlive, hP⟩

end Splices

/-- Nothing but itself is renamed to an old node: what takes the place of `id` is new. -/
theorem reroute_replacement_eq_iff {plan : Plan} {base d old : NodeId} {type : InputType}
    (hold : d.index < base.index) (hne : d ≠ id) :
    reroute id (plan.replacement base) type old = d ↔ old = d := by
  unfold reroute
  split
  · next he =>
    subst he
    rw [Plan.target_replacement]
    cases plan.offset type with
    | none => rfl
    | some j =>
        have hnew : base.advance j ≠ d := by
          rintro rfl
          exact Nat.not_lt.mpr (Nat.le_add_right _ _) hold
        exact iff_of_false hnew hne.symm
  · rfl

end Graph

end SeaOfNodes
