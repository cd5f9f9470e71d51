import Mathlib.Logic.Function.Basic
import SeaOfNodes.Proofs.Lowering.Schedule
import SeaOfNodes.Proofs.Lowering.Splice
import SeaOfNodes.Proofs.Lowering.Tally

/-!
# Lowering node after node

What is left after any number of nodes were lowered is known in terms of the graph before the first
of them.  Each lowered node has a plan *in that graph*, and a place where its expansion begins; a
`Placement` holds both.  `Graph.Lowered` then says of every node what has become of it: a lowered
node is buried, and all others, the planned ones included, are renamed by `Placement.successor`,
which sends each lowered node to whatever takes over from it.

That plans can be read off the graph before the first lowering is what makes the order of lowering
irrelevant.  It comes from `LoweringConfig.planOf_rename`: when the inputs of an access were lowered
before it, then the access is expanded to what its plan says, renamed.

**`Lowered.splice`** is the step and **`run_lowerAlong`** the run.
-/

namespace SeaOfNodes

/-- Where nodes are expanded, and to what. -/
structure Placement where
  /-- The id of the first new node. -/
  base : NodeId → NodeId
  /-- What the node is expanded to. -/
  plan : NodeId → Plan

instance : Inhabited Placement := ⟨⟨default, default⟩⟩

namespace Placement

/-- Place one more expansion. -/
def put (p : Placement) (id base : NodeId) (plan : Plan) : Placement where
  base := Function.update p.base id base
  plan := Function.update p.plan id plan

/-- The new nodes for one node. -/
def block (p : Placement) (id : NodeId) : List NodeId := (p.base id).span (p.plan id).size

/-- What takes the place of one node. -/
def replacement (p : Placement) (id : NodeId) : Replacement := (p.plan id).replacement (p.base id)

/-- What takes the place of a node after the listed ones were lowered. -/
def successor (p : Placement) (ids : List NodeId) : Renaming := fun type d =>
  if d ∈ ids then (((p.plan d).offset type).map (p.base d).advance).getD d else d

variable {p : Placement} {ids : List NodeId} {id base : NodeId} {plan : Plan}

@[simp] theorem base_put_self : (p.put id base plan).base id = base := Function.update_self ..

@[simp] theorem plan_put_self : (p.put id base plan).plan id = plan := Function.update_self ..

theorem base_put_of_ne {d : NodeId} (h : d ≠ id) : (p.put id base plan).base d = p.base d :=
  Function.update_of_ne h ..

theorem plan_put_of_ne {d : NodeId} (h : d ≠ id) : (p.put id base plan).plan d = p.plan d :=
  Function.update_of_ne h ..

theorem block_put_of_ne {d : NodeId} (h : d ≠ id) : (p.put id base plan).block d = p.block d := by
  unfold block
  rw [base_put_of_ne h, plan_put_of_ne h]

theorem replacement_put_of_ne {d : NodeId} (h : d ≠ id) :
    (p.put id base plan).replacement d = p.replacement d := by
  unfold replacement
  rw [base_put_of_ne h, plan_put_of_ne h]

/-- The blocks of nodes that were placed before stay. -/
theorem flatMap_block_put (h : id ∉ ids) :
    ids.flatMap (p.put id base plan).block = ids.flatMap p.block := by
  rw [List.flatMap, List.flatMap, List.map_congr_left fun d hd => ?_]
  exact block_put_of_ne fun he => h (he ▸ hd)

theorem mem_block_advance (h : id ∈ ids) {j : Nat} (hj : j < (p.plan id).size) :
    (p.base id).advance j ∈ ids.flatMap p.block := by
  refine List.mem_flatMap.mpr ⟨id, h, ArenaId.mem_span _ |>.mpr ⟨?_, ?_⟩⟩
  · exact Nat.le_add_right _ _
  · exact Nat.add_lt_add_left hj _

theorem successor_of_notMem (h : id ∉ ids) (type : InputType) : p.successor ids type id = id :=
  if_neg h

theorem successor_of_mem (h : id ∈ ids) {type : InputType} {j : Nat}
    (hoffset : (p.plan id).offset type = some j) :
    p.successor ids type id = (p.base id).advance j := by
  unfold successor
  rw [if_pos h, hoffset]
  rfl

/-- Placing one more expansion reroutes the node on top of all that was moved before. -/
theorem successor_put (base : NodeId) (plan : Plan) (hid : id ∉ ids)
    (hne : ∀ d ∈ ids, ∀ j, (p.base d).advance j ≠ id) :
    (p.put id base plan).successor (ids ++ [id]) =
      fun type d => Graph.reroute id (plan.replacement base) type (p.successor ids type d) := by
  funext type d
  by_cases hd : d = id
  · subst hd
    rw [successor_of_notMem hid, Graph.reroute, if_pos rfl, Plan.target_replacement, successor,
      if_pos (List.mem_append_right _ (List.mem_singleton_self _)), base_put_self, plan_put_self]
  · by_cases hmem : d ∈ ids
    · have hne' : p.successor ids type d ≠ id := by
        unfold successor
        rw [if_pos hmem]
        cases (p.plan d).offset type with
        | none => exact hd
        | some j => exact hne d hmem j
      rw [Graph.reroute, if_neg hne', successor, successor, if_pos hmem,
        if_pos (List.mem_append_left _ hmem), base_put_of_ne hd, plan_put_of_ne hd]
    · have hmem' : d ∉ ids ++ [id] := by
        rw [List.mem_append, List.mem_singleton]
        exact not_or.mpr ⟨hmem, hd⟩
      rw [successor_of_notMem hmem', successor_of_notMem hmem, Graph.reroute, if_neg hd]

end Placement

namespace Node

/-- A buried node holds nothing that could be renamed. -/
@[simp] theorem redirect_buried (f : Renaming) (node : Node) :
    node.buried.redirect f = node.buried :=
  if_neg Bool.false_ne_true

@[simp] theorem buried_redirect (f : Renaming) (node : Node) :
    (node.redirect f).buried = node.buried := by
  unfold redirect
  split <;> rfl

theorem settled_rename (bci : UInt32) (f : Renaming) (node : Node) :
    (node.rename f).settled bci = (node.settled bci).rename f := rfl

end Node

namespace Graph

variable {g g' : Graph} {id x : NodeId} {node : Node} {config : LoweringConfig}

/-- Among attached nodes there is no difference between redirecting and renaming. -/
theorem liveNode?_of_redirect {f : Renaming}
    (h : g'.node? x = (g.node? x).map (Node.redirect f)) :
    g'.liveNode? x = (g.liveNode? x).map (Node.rename f) := by
  unfold liveNode?
  rw [h]
  cases g.node? x with
  | none => rfl
  | some node =>
      by_cases halive : node.isAlive = true
      · simp [Option.filter, halive, Node.redirect_of_isAlive]
      · simp [Option.filter, halive]

/-- What an access has as its address is no access. -/
theorem WellFormed.address_isOffset (wf : g.WellFormed) (hlowerable : g.isLowerable id = true)
    {view : AccessView} (hview : g.access? id = some view) {address : NodeId}
    (haddress : view.address = some address) :
    ∃ node, g.node? address = some node ∧ node.isAlive = true ∧ node.kind = .offsetAddress := by
  obtain ⟨node, hnode, halive, hkind⟩ := isLowerable_iff.mp hlowerable
  obtain ⟨found, hfound, hfeeds⟩ := wf.exists_access hnode halive hkind
  cases hview.symm.trans hfound
  have hserves : g.Serves address .address := by
    cases view with
    | read r => cases haddress; exact hfeeds.2.1
    | write w => cases haddress; exact hfeeds.2.1
    | swap s => cases haddress
  obtain ⟨node, hnode, halive, hallows⟩ := hserves
  exact ⟨node, hnode, halive, allows_address_iff.mp hallows⟩

/-- **The plan of an access in a graph whose nodes were redirected.**  It is the plan that the
access had before, renamed. -/
theorem WellFormed.planOf_redirect (wf : g.WellFormed) (config : LoweringConfig)
    (hlowerable : g.isLowerable id = true) {f : Renaming} {base base' : NodeId}
    (hlocations : g'.locations = g.locations)
    (hid : g'.node? id = (g.node? id).map (Node.redirect f))
    (hoffset : ∀ address node, g.node? address = some node → node.kind = .offsetAddress →
      f .address address = address ∧ g'.node? address = (g.node? address).map (Node.redirect f))
    (hbase : ∀ type, f type base = base') :
    config.planOf g' base' id = (config.planOf g base id).map (Plan.rename f) := by
  refine config.planOf_rename hlocations (liveNode?_of_redirect hid) ?_ (hbase _) (hbase _)
  intro view address hview haddress
  obtain ⟨node, hnode, halive, hkind⟩ := wf.address_isOffset hlowerable hview haddress
  -- the address is in place, and its base is moved like any value
  obtain ⟨hfixed, hnode'⟩ := hoffset address node hnode hkind
  rw [hfixed, input, input, hnode', hnode]
  have hinfo : NodeKind.offsetAddress.layout[0]? = some (.required "base" .value) := rfl
  simp only [Option.map_some, Option.bind_some]
  rw [Node.redirect_of_isAlive halive]
  exact Node.input_rename_of_layout f hkind hinfo

/-! ## The graph after lowering some nodes -/

/-- **The graph `g` after the nodes `ids` of `g₀` were lowered, in this order.** -/
structure Lowered (config : LoweringConfig) (g₀ : Graph) (ids : List NodeId) (p : Placement)
    (g : Graph) : Prop where
  /-- The invariant is kept. -/
  wellFormed : g.WellFormed
  /-- The start node stays. -/
  start : g.start = g₀.start
  /-- The locations stay. -/
  locations : g.locations = g₀.locations
  /-- The bytecode index stays. -/
  nextBci : g.nextBci = g₀.nextBci
  /-- Nothing was lowered twice. -/
  nodup : ids.Nodup
  /-- Only lowerable nodes were lowered. -/
  lowerable : ∀ id ∈ ids, g₀.isLowerable id = true
  /-- The plans are those of the graph before. -/
  planned : ∀ id ∈ ids, config.planOf g₀ (p.base id) id = some (p.plan id)
  /-- The expansions were allocated one after the other, and nothing else was. -/
  allocated : g₀.nextId.span (ids.flatMap p.block).length = ids.flatMap p.block
  /-- There are as many new nodes as the expansions have. -/
  size : g.size = g₀.size + (ids.flatMap p.block).length
  /-- The lowered nodes hold nothing any more. -/
  lowered : ∀ id ∈ ids, g.node? id = (g₀.node? id).map Node.buried
  /-- The other nodes are renamed. -/
  old : ∀ x ∉ ids, x.index < g₀.size →
    g.node? x = (g₀.node? x).map (Node.redirect (p.successor ids))
  /-- The new nodes are the planned ones, renamed. -/
  new : ∀ id ∈ ids, ∀ j node, ((p.plan id).nodes (p.base id))[j]? = some node →
    g.node? ((p.base id).advance j) =
      some ((node.settled g₀.nextBci).rename (p.successor ids))

namespace Lowered

variable {g₀ : Graph} {ids : List NodeId} {p : Placement}

/-- Before the first node is lowered. -/
theorem nil (wf : g₀.WellFormed) (p : Placement) : Lowered config g₀ [] p g₀ where
  wellFormed := wf
  start := rfl
  locations := rfl
  nextBci := rfl
  nodup := .nil
  lowerable _ h := absurd h List.not_mem_nil
  planned _ h := absurd h List.not_mem_nil
  allocated := rfl
  size := rfl
  lowered _ h := absurd h List.not_mem_nil
  old x _ _ := by
    cases g₀.node? x with
    | none => rfl
    | some node =>
        refine congrArg some (Node.redirect_eq_self fun _ info d _ _ => ?_).symm
        exact Placement.successor_of_notMem List.not_mem_nil _
  new _ h := absurd h List.not_mem_nil

/-! ### Old and new ids -/

theorem lt_size (h : Lowered config g₀ ids p g) (hid : id ∈ ids) : id.index < g₀.size := by
  obtain ⟨node, hnode, -, -⟩ := isLowerable_iff.mp (h.lowerable id hid)
  exact lt_size_of_node? hnode

theorem size_le (h : Lowered config g₀ ids p g) : g₀.size ≤ g.size := by
  rw [h.size]
  exact Nat.le_add_right _ _

/-- The new ids are those of the blocks. -/
theorem mem_blocks_iff (h : Lowered config g₀ ids p g) :
    x ∈ ids.flatMap p.block ↔ g₀.size ≤ x.index ∧ x.index < g.size := by
  rw [← h.allocated, ArenaId.mem_span, h.size]
  rfl

/-- Expansions begin where the graph ended. -/
theorem size_le_base (h : Lowered config g₀ ids p g) (hid : id ∈ ids) :
    g₀.size ≤ (p.base id).index :=
  (h.mem_blocks_iff.mp (Placement.mem_block_advance hid (p.plan id).size_pos)).1

theorem advance_ne (h : Lowered config g₀ ids p g) (hid : id ∈ ids) (hx : x.index < g₀.size)
    (j : Nat) : (p.base id).advance j ≠ x := by
  rintro rfl
  have hbase := h.size_le_base hid
  rw [ArenaId.index_advance] at hx
  omega

/-- Only lowered nodes are moved. -/
theorem successor_of_size_le (h : Lowered config g₀ ids p g) (hx : g₀.size ≤ x.index)
    (type : InputType) : p.successor ids type x = x :=
  Placement.successor_of_notMem (fun hmem => Nat.not_lt.mpr hx (h.lt_size hmem)) type

theorem not_mem_of_kind (h : Lowered config g₀ ids p g) (hnode : g₀.node? id = some node)
    (hkind : node.kind.isLowerable = false) : id ∉ ids := by
  intro hmem
  obtain ⟨found, hfound, -, hlowerable⟩ := isLowerable_iff.mp (h.lowerable id hmem)
  cases hnode.symm.trans hfound
  rw [hkind] at hlowerable
  cases hlowerable

/-! ### One more node -/

/-- The plan that is carried out is the one of the graph before, renamed. -/
theorem exists_plan (wf₀ : g₀.WellFormed) (h : Lowered config g₀ ids p g) (hid : id ∉ ids)
    (hlowerable : g₀.isLowerable id = true) {plan' : Plan}
    (hplan : config.planOf g g.nextId id = some plan') :
    ∃ plan, config.planOf g₀ g.nextId id = some plan ∧ plan.rename (p.successor ids) = plan' := by
  obtain ⟨node, hnode, -, -⟩ := isLowerable_iff.mp hlowerable
  have hold := h.old id hid (lt_size_of_node? hnode)
  have hfresh : ∀ type, p.successor ids type g.nextId = g.nextId :=
    h.successor_of_size_le h.size_le
  rw [wf₀.planOf_redirect config hlowerable h.locations hold ?_ hfresh] at hplan
  · exact Option.map_eq_some_iff.mp hplan
  · intro address found hfound hoffset
    have hnotMem : address ∉ ids := h.not_mem_of_kind hfound (by rw [hoffset]; rfl)
    exact ⟨Placement.successor_of_notMem hnotMem _, h.old address hnotMem (lt_size_of_node? hfound)⟩

/-- **The step.**  Lowering one more node keeps the description of the graph. -/
theorem splice (h : Lowered config g₀ ids p g) (hid : id ∉ ids)
    (hlowerable : g₀.isLowerable id = true) {plan : Plan}
    (hplan : config.planOf g₀ g.nextId id = some plan)
    (hsplice : g.Splices id (plan.rename (p.successor ids)) g') :
    Lowered config g₀ (ids ++ [id]) (p.put id g.nextId plan) g' := by
  obtain ⟨node, hnode, halive, hkind⟩ := isLowerable_iff.mp hlowerable
  have hlt : id.index < g₀.size := lt_size_of_node? hnode
  have hne : ∀ d ∈ ids, d ≠ id := fun d hd he => hid (he ▸ hd)
  have hsuccessor := Placement.successor_put g.nextId plan hid fun d hd => h.advance_ne hd hlt
  have hold := hsplice.old
  have hnew := hsplice.new
  rw [Plan.replacement_rename] at hold hnew
  have hblocks : (ids ++ [id]).flatMap (p.put id g.nextId plan).block =
      ids.flatMap p.block ++ g.nextId.span plan.size := by
    rw [List.flatMap_append, Placement.flatMap_block_put hid, List.flatMap_singleton,
      Placement.block, Placement.base_put_self, Placement.plan_put_self]
  have hnext : g.nextId = g₀.nextId.advance (ids.flatMap p.block).length :=
    ArenaId.ext_index h.size
  -- each field is the one of the nodes before, read through the change, and that of the new node
  refine ⟨hsplice.wellFormed, hsplice.start.trans h.start, hsplice.locations.trans h.locations,
    hsplice.nextBci.trans h.nextBci, ?_, ?_, ?_, ?_, ?_, ?_, ?_, ?_⟩
  · exact List.nodup_append.mpr ⟨h.nodup, List.pairwise_singleton _ id, fun d hd other hother he =>
      hne d hd (he.trans (List.mem_singleton.mp hother))⟩
  · intro d hd
    rcases List.mem_append.mp hd with hd | hd
    · exact h.lowerable d hd
    · exact List.mem_singleton.mp hd ▸ hlowerable
  · intro d hd
    rcases List.mem_append.mp hd with hd | hd
    · rw [Placement.base_put_of_ne (hne d hd), Placement.plan_put_of_ne (hne d hd)]
      exact h.planned d hd
    · rw [List.mem_singleton.mp hd, Placement.base_put_self, Placement.plan_put_self]
      exact hplan
  · rw [hblocks, List.length_append, ArenaId.length_span, ArenaId.span_add, h.allocated, ← hnext]
  · rw [hblocks, hsplice.size, h.size, List.length_append, ArenaId.length_span, Plan.size_rename,
      Nat.add_assoc]
  · intro d hd
    rcases List.mem_append.mp hd with hd | hd
    · -- what was buried before has nothing left to be moved
      rw [hold d (hne d hd) (Nat.lt_of_lt_of_le (h.lt_size hd) h.size_le), h.lowered d hd,
        Option.map_map]
      refine congrArg (Option.map · _) ?_
      funext found
      exact Node.redirect_buried _ found
    · rw [List.mem_singleton.mp hd, hsplice.lowered, h.old id hid hlt, Option.map_map]
      refine congrArg (Option.map · _) ?_
      funext found
      exact Node.buried_redirect _ found
  · intro x hx hxlt
    rw [List.mem_append, List.mem_singleton, not_or] at hx
    rw [hold x hx.2 (Nat.lt_of_lt_of_le hxlt h.size_le), h.old x hx.1 hxlt, Option.map_map,
      hsuccessor]
    refine congrArg (Option.map · _) ?_
    funext found
    exact Node.redirect_redirect _ _ found
  · intro d hd j new hj
    rcases List.mem_append.mp hd with hd | hd
    · -- a new node of an earlier step is an old one for this step
      rw [Placement.base_put_of_ne (hne d hd), Placement.plan_put_of_ne (hne d hd)] at hj
      have hsize := (List.getElem?_eq_some_iff.mp hj).1
      rw [Plan.length_nodes] at hsize
      have hindex := (h.mem_blocks_iff.mp (Placement.mem_block_advance hd hsize)).2
      rw [Placement.base_put_of_ne (hne d hd), hold _ (h.advance_ne hd hlt j) hindex,
        h.new d hd j new hj, Option.map_some, Node.redirect_of_isAlive (by rfl),
        Node.rename_rename, hsuccessor]
    · rw [List.mem_singleton.mp hd, Placement.base_put_self, Placement.plan_put_self] at hj
      have hnodes : (plan.rename (p.successor ids)).nodes g.nextId =
          (plan.nodes g.nextId).map (Node.rename (p.successor ids)) :=
        (LoweringConfig.full_of_planOf hplan).nodes_rename fun _ _ =>
          h.successor_of_size_le (Nat.le_trans h.size_le (Nat.le_add_right _ _)) _
      rw [List.mem_singleton.mp hd, Placement.base_put_self, hnew, hnodes, List.getElem?_map, hj,
        Option.map_some, Option.map_some, Node.settled_rename, Node.rename_rename, hsuccessor,
        h.nextBci]

/-! ### The new nodes -/

theorem liveNode?_of_mem (h : Lowered config g₀ ids p g) (hid : id ∈ ids)
    (hnode : g₀.node? id = some node) : g₀.liveNode? id = some node := by
  obtain ⟨found, hfound, halive, -⟩ := isLowerable_iff.mp (h.lowerable id hid)
  cases hnode.symm.trans hfound
  exact liveNode?_of_isAlive hnode halive

/-- At every id of a block there is a planned node. -/
theorem exists_planned (h : Lowered config g₀ ids p g) (hid : id ∈ ids) {j : Nat}
    (hj : j < (p.plan id).size) :
    ∃ node, ((p.plan id).nodes (p.base id))[j]? = some node ∧
      g.node? ((p.base id).advance j) =
        some ((node.settled g₀.nextBci).rename (p.successor ids)) := by
  have hlength := (p.plan id).length_nodes (p.base id)
  have hnode := List.getElem?_eq_getElem (Nat.lt_of_lt_of_eq hj hlength.symm)
  exact ⟨_, hnode, h.new id hid j _ hnode⟩

/-- **The kinds of the new nodes for one node.** -/
theorem kinds_block (h : Lowered config g₀ ids p g) (hid : id ∈ ids)
    (hnode : g₀.liveNode? id = some node) :
    g.kinds (p.block id) = config.expansionKinds g₀.locations node.kind := by
  have hlength := (p.plan id).length_nodes (p.base id)
  rw [← LoweringConfig.kinds_nodes (h.planned id hid) hnode (p.base id)]
  refine kinds_eq ?_ fun j x kind hx hkind => ?_
  · unfold Placement.block
    rw [ArenaId.length_span, List.length_map, hlength]
  · have hj := (List.getElem?_eq_some_iff.mp hx).1
    unfold Placement.block at hj
    rw [ArenaId.length_span] at hj
    unfold Placement.block at hx
    rw [ArenaId.getElem?_span _ hj] at hx
    cases hx
    obtain ⟨planned, hplanned, hfound⟩ := h.exists_planned hid hj
    rw [List.getElem?_map, hplanned] at hkind
    cases hkind
    exact ⟨_, hfound, rfl⟩

/-- The kinds of all new nodes. -/
theorem kinds_blocks (h : Lowered config g₀ ids p g) {listed : List NodeId}
    (hsub : ∀ id ∈ listed, id ∈ ids) :
    g.kinds (listed.flatMap p.block) =
      (g₀.kinds listed).flatMap (config.expansionKinds g₀.locations) := by
  induction listed with
  | nil => rfl
  | cons id rest ih =>
      have hid := hsub id List.mem_cons_self
      obtain ⟨node, hnode, -, -⟩ := isLowerable_iff.mp (h.lowerable id hid)
      rw [List.flatMap_cons, kinds_append, kinds_cons hnode, List.flatMap_cons,
        h.kinds_block hid (h.liveNode?_of_mem hid hnode),
        ih fun other hother => hsub other (List.mem_cons_of_mem _ hother)]

theorem exists_of_mem_block (h : Lowered config g₀ ids p g) (hid : id ∈ ids)
    (hx : x ∈ p.block id) : ∃ node, g.node? x = some node := by
  obtain ⟨j, hj, rfl⟩ := List.mem_map.mp hx
  obtain ⟨planned, -, hnode⟩ := h.exists_planned hid (List.mem_range.mp hj)
  exact ⟨_, hnode⟩

end Lowered

/-! ## The run -/

/-- **Lowering one more node**, from wherever other nodes were lowered before. -/
theorem Lowered.run_lowerNode {g₀ : Graph} {done : List NodeId} {p : Placement}
    (wf₀ : g₀.WellFormed) (h : Lowered config g₀ done p g) (hid : id ∉ done)
    (hlowerable : g₀.isLowerable id = true) :
    ∃ p' g', Lowered config g₀ (done ++ [id]) p' g' ∧
      (lowerNode config.tool id).run (g, ()) = .ok (p'.replacement id) (g', ()) ∧
      ∀ d ∈ done, p'.replacement d = p.replacement d := by
  obtain ⟨node, hnode, halive, hkind⟩ := isLowerable_iff.mp hlowerable
  -- in the graph as it is now the node has other inputs, but it is the same kind of access
  have hnow : g.node? id = some (node.redirect (p.successor done)) := by
    rw [h.old id hid (lt_size_of_node? hnode), hnode]
    rfl
  obtain ⟨plan', g', hplan', hrun, hsplice⟩ := g.run_lowerNode config h.wellFormed hnow
    ((Node.isAlive_redirect _ _).trans halive) (by rwa [Node.kind_redirect])
  obtain ⟨plan, hplan, rfl⟩ := h.exists_plan wf₀ hid hlowerable hplan'
  refine ⟨_, g', h.splice hid hlowerable hplan hsplice, ?_, fun d hd => ?_⟩
  · rw [hrun, Placement.replacement, Placement.base_put_self, Placement.plan_put_self,
      Plan.replacement_rename]
  · exact Placement.replacement_put_of_ne fun he => hid (he ▸ hd)

/-- **Lowering a list of nodes**, from wherever other nodes were lowered before: one by one, and as
the pass does it, which counts them. -/
theorem Lowered.run_lowerAlong {g₀ : Graph} {done : List NodeId} {p : Placement}
    (wf₀ : g₀.WellFormed) (h : Lowered config g₀ done p g) (stats : LoweringStats)
    {ids : List NodeId} (hnodup : (done ++ ids).Nodup)
    (hlowerable : ∀ id ∈ ids, g₀.isLowerable id = true) :
    ∃ p' g', Lowered config g₀ (done ++ ids) p' g' ∧
      (∀ d ∈ done, p'.replacement d = p.replacement d) ∧
      (ids.mapM (lowerNode config.tool)).run (g, ()) = .ok (ids.map p'.replacement) (g', ()) ∧
      (lowerAlong config.tool stats ids).run (g, ()) =
        .ok (stats.tally (g₀.kinds ids)
          ((g₀.kinds ids).flatMap (config.expansionKinds g₀.locations))) (g', ()) := by
  induction ids generalizing done p g stats with
  | nil => exact ⟨p, g, (List.append_nil done).symm ▸ h, fun _ _ => rfl, rfl, rfl⟩
  | cons id ids ih =>
      -- the list does not repeat itself, so that `id` is still to be lowered
      have hid : id ∉ done := fun hmem =>
        (List.nodup_append.mp hnodup).2.2 id hmem id List.mem_cons_self rfl
      have hlow := hlowerable id List.mem_cons_self
      obtain ⟨p₁, g₁, hstep, hrun, hkept⟩ := h.run_lowerNode wf₀ hid hlow
      obtain ⟨node, hnode, -, -⟩ := isLowerable_iff.mp hlow
      have hkind : (fetchKind id).run (g, ()) = .ok node.kind (g, ()) := by
        have hnow := h.old id hid (lt_size_of_node? hnode)
        rw [hnode] at hnow
        rw [run_fetchKind hnow (), Node.kind_redirect]
      have hmem : id ∈ done ++ [id] := List.mem_append_right _ (List.mem_singleton_self _)
      have hcreated : ((p₁.replacement id).nodes.mapM fetchKind).run (g₁, ()) =
          .ok (config.expansionKinds g₀.locations node.kind) (g₁, ()) := by
        rw [← hstep.kinds_block hmem (hstep.liveNode?_of_mem hmem hnode)]
        exact run_mapM_fetchKind (fun x hx => hstep.exists_of_mem_block hmem hx) ()
      -- the rest of the list, from the statistics that this node leaves
      obtain ⟨p', g', hlowered, hkept', hmapM, hrest⟩ := ih hstep
        ((stats.tally [node.kind] []).tally [] (config.expansionKinds g₀.locations node.kind))
        (List.append_cons .. ▸ hnodup)
        fun other hother => hlowerable other (List.mem_cons_of_mem _ hother)
      refine ⟨p', g', List.append_cons .. ▸ hlowered, fun d hd => ?_, ?_, ?_⟩
      · rw [hkept' d (List.mem_append_left _ hd), hkept d hd]
      · rw [List.mapM_cons, run_bind_of_ok hrun, run_bind_of_ok hmapM, ← hkept' id hmem]
        rfl
      · rw [lowerAlong, run_bind_of_ok hkind, run_bind_of_ok hrun, run_bind_of_ok hcreated,
          LoweringStats.foldl_countCreated, LoweringStats.countLowered_eq_tally, hrest,
          kinds_cons hnode, List.flatMap_cons, LoweringStats.tally_tally,
          LoweringStats.tally_tally]
        rfl

end Graph

end SeaOfNodes
