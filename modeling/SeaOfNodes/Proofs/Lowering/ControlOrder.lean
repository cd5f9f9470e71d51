import SeaOfNodes.Proofs.Graph.ControlChain
import SeaOfNodes.Proofs.Lowering.Schedule

/-!
# The order that control flow puts on the lowerable nodes

In control-flow order a node comes behind those that it is met after on the way from the start
node, and the nodes that control does not reach come last (**`Reachable.controlFlow_topological`**).

The order is that of a depth-first search, which is followed here turn by turn (`Search.turn`).  A
turn does not look at the size of the graph, as `Graph.search` has to do in order to be a total
function on all graphs; that the search comes to an end nevertheless is part of the theorem.

### What is load-bearing

The path of the search is a control chain, the other way round.  A node that was entered before is
either on the path or finished.  It is not on the path if it follows the last node there, since no
node occurs twice in a control chain.  So a node is finished only after all that follow it
(`InControlOrder`), also where control runs in circles that the search does not reach.
-/

namespace SeaOfNodes

namespace Graph

variable {g : Graph} {a b id prev next : NodeId} {ids : List NodeId}

/-- Going back from `b` from one control predecessor to the next one comes to `a`. -/
def Precedes (g : Graph) (a b : NodeId) : Prop :=
  Relation.TransGen (fun next prev => g.controlPredecessor next = some prev) b a

/-! ## Going back -/

/-- One step back from a node that control reaches. -/
theorem WellFormed.step_back (wf : g.WellFormed) (halive : g.isAlive id = true)
    (hfollows : g.FollowsStart id) (hprev : g.controlPredecessor id = some prev) :
    g.isAlive prev = true ∧ g.FollowsStart prev ∧ id ∈ g.controlSuccessors prev := by
  obtain rfl | ⟨other, hother, hmem⟩ := Relation.ReflTransGen.cases_tail hfollows
  · rw [wf.controlPredecessor_start halive] at hprev
    cases hprev
  · cases hprev.symm.trans (wf.mem_controlSuccessors_iff.mp hmem).2
    obtain ⟨node, hnode, hnodeAlive⟩ := isAlive_iff_exists.mp halive
    exact ⟨(wf.exists_control hnode hnodeAlive hprev).2.2.2, hother, hmem⟩

/-- What is met on the way back from a node that control reaches is reached as well, and the node
follows it. -/
theorem WellFormed.follows_of_precedes (wf : g.WellFormed) (halive : g.isAlive b = true)
    (hfollows : g.FollowsStart b) (h : g.Precedes a b) :
    g.isAlive a = true ∧ g.FollowsStart a ∧ g.Follows a b := by
  induction h with
  | single hprev =>
      obtain ⟨haliveA, hstart, hmem⟩ := wf.step_back halive hfollows hprev
      exact ⟨haliveA, hstart, .single hmem⟩
  | tail _ hprev ih =>
      obtain ⟨haliveC, hstartC, hbehind⟩ := ih
      obtain ⟨haliveA, hstart, hmem⟩ := wf.step_back haliveC hstartC hprev
      exact ⟨haliveA, hstart, .head hmem hbehind⟩

/-! ## Lists in control order -/

/-- All that follows a node of the list comes behind it in the list. -/
def InControlOrder (g : Graph) : List NodeId → Prop
  | [] => True
  | id :: ids => (∀ next ∈ g.controlSuccessors id, next ∈ ids) ∧ g.InControlOrder ids

namespace InControlOrder

theorem mem_of_successor (h : g.InControlOrder ids) (hmem : prev ∈ ids)
    (hnext : next ∈ g.controlSuccessors prev) : next ∈ ids := by
  induction ids with
  | nil => cases hmem
  | cons id ids ih =>
      rcases List.mem_cons.mp hmem with rfl | hmem
      · exact List.mem_cons_of_mem _ (h.1 next hnext)
      · exact List.mem_cons_of_mem _ (ih h.2 hmem)

/-- What follows the first node comes behind it, however far. -/
theorem mem_of_follows (h : g.InControlOrder (a :: ids)) (hfollows : g.Follows a b) : b ∈ ids := by
  induction hfollows with
  | single hnext => exact h.1 _ hnext
  | tail _ hnext ih => exact h.2.mem_of_successor ih hnext

theorem sublist (h : g.InControlOrder ids) (hmem : a ∈ ids) (hfollows : g.Follows a b) :
    [a, b].Sublist ids := by
  induction ids with
  | nil => cases hmem
  | cons id ids ih =>
      rcases List.mem_cons.mp hmem with rfl | hmem
      · exact (List.singleton_sublist.mpr (h.mem_of_follows hfollows)).cons_cons a
      · exact (ih h.2 hmem).cons id

end InControlOrder

/-! ## The search, turn by turn -/

/-- Where a search stands. -/
structure Search where
  /-- The nodes that were entered. -/
  seen : BitSet
  /-- The nodes that were left again, the last one first. -/
  finished : List NodeId
  /-- The nodes that were entered and not left yet, the last one first. -/
  path : List Frame

/-- The search before its first turn: the start node is entered. -/
def Search.start (g : Graph) : Search :=
  ⟨(BitSet.withCapacity g.size).insert g.start.index, [], [(g.start, g.controlSuccessors g.start)]⟩

/-- One turn of the search, unless it is at its end: the last node of the path is left, or the next
of its successors is passed over, or entered. -/
def Search.turn (g : Graph) : Search → Option Search
  | ⟨_, _, []⟩ => none
  | ⟨seen, finished, (id, []) :: path⟩ => some ⟨seen, id :: finished, path⟩
  | ⟨seen, finished, (id, next :: rest) :: path⟩ =>
    if seen.contains next.index then some ⟨seen, finished, (id, rest) :: path⟩
    else some ⟨seen.insert next.index, finished,
      (next, g.controlSuccessors next) :: (id, rest) :: path⟩

/-- Some turns of the search. -/
def Search.Turns (g : Graph) : Search → Search → Prop :=
  Relation.ReflTransGen fun s t => s.turn g = some t

/-- What holds of the path while the search runs, where `child` is the node that was entered from
its last node, if there is one: it is a control chain, and what follows a node of the path is still
to be looked at, or finished, or the next node of the path. -/
def Pending (g : Graph) (finished : List NodeId) : Option NodeId → List Frame → Prop
  | _, [] => True
  | child, (id, rest) :: path =>
    g.ControlChain (id :: path.map Prod.fst).reverse id ∧ rest ⊆ g.controlSuccessors id ∧
      (∀ next ∈ g.controlSuccessors id, next ∈ rest ∨ next ∈ finished ∨ child = some next) ∧
      g.Pending finished (some id) path

/-- Finishing nodes leaves less to do. -/
theorem Pending.mono {finished finished' : List NodeId} {child : Option NodeId} {path : List Frame}
    (hsubset : finished ⊆ finished') (h : g.Pending finished child path) :
    g.Pending finished' child path := by
  induction path generalizing child with
  | nil => trivial
  | cons frame path ih =>
      obtain ⟨hchain, hrest, hnext, hpath⟩ := h
      refine ⟨hchain, hrest, fun next hmem => ?_, ih hpath⟩
      exact (hnext next hmem).imp_right (.imp_left (@hsubset next))

/-- When the last node of a path is finished, it is no longer the next node after the one before. -/
theorem Pending.finish {finished : List NodeId} {path : List Frame}
    (h : g.Pending finished (some id) path) : g.Pending (id :: finished) none path := by
  cases path with
  | nil => trivial
  | cons frame path =>
      obtain ⟨hchain, hrest, hnext, hpath⟩ := h
      refine ⟨hchain, hrest, fun next hmem => ?_, hpath.mono (List.subset_cons_self _ _)⟩
      obtain hlater | hfinished | hchild := hnext next hmem
      · exact .inl hlater
      · exact .inr (.inl (List.mem_cons_of_mem _ hfinished))
      · cases hchild
        exact .inr (.inl List.mem_cons_self)

/-- **What holds while the search runs.** -/
structure Search.Orders (g : Graph) (s : Search) : Prop where
  /-- What was seen is finished, or on the path. -/
  searching : Searching s.seen s.finished s.path
  /-- The search began at the start node. -/
  start : s.seen.contains g.start.index = true
  /-- Control reaches what was seen. -/
  reached : ∀ id ∈ s.finished ++ s.path.map Prod.fst, g.FollowsStart id
  /-- What was finished is in control order. -/
  finished : g.InControlOrder s.finished
  /-- What is left to do. -/
  pending : g.Pending s.finished none s.path

namespace Search.Orders

variable {s t : Search} {seen : BitSet} {finished rest : List NodeId} {path : List Frame}

/-- The search before its first turn. -/
theorem of_start (g : Graph) : (Search.start g).Orders g where
  searching := by
    refine ⟨List.pairwise_singleton _ _, fun id => ?_⟩
    show id ∈ [g.start] ↔ _
    simp only [Search.start]
    rw [BitSet.contains_insert, BitSet.contains_withCapacity, Bool.or_false, decide_eq_true_iff,
      ArenaId.index_inj, eq_comm]
    exact List.mem_singleton
  start := by
    simp only [Search.start]
    rw [BitSet.contains_insert, decide_eq_true rfl, Bool.true_or]
  reached := by
    intro id hmem
    rw [List.mem_singleton.mp hmem]
    exact .refl
  finished := trivial
  pending := ⟨.start, List.Subset.refl _, fun _ hmem => .inl hmem, trivial⟩

/-- A node is left when all that follows it is finished. -/
theorem finish (h : Search.Orders g ⟨seen, finished, (id, []) :: path⟩) :
    Search.Orders g ⟨seen, id :: finished, path⟩ where
  searching := h.searching.finish
  start := h.start
  reached := by
    intro other hmem
    exact h.reached other (List.perm_middle.mem_iff.mpr hmem)
  finished := by
    obtain ⟨-, -, hnext, -⟩ := h.pending
    refine ⟨fun next hmem => ?_, h.finished⟩
    obtain hlater | hfinished | hchild := hnext next hmem
    · cases hlater
    · exact hfinished
    · cases hchild
  pending := h.pending.2.2.2.finish

/-- A node that was not seen is entered. -/
theorem enter (wf : g.WellFormed) (h : Search.Orders g ⟨seen, finished, (id, next :: rest) :: path⟩)
    (hnew : seen.contains next.index = false) :
    Search.Orders g ⟨seen.insert next.index, finished,
      (next, g.controlSuccessors next) :: (id, rest) :: path⟩ := by
  obtain ⟨hchain, hrest, hnext, hpath⟩ := h.pending
  have hmem : next ∈ g.controlSuccessors id := hrest List.mem_cons_self
  refine ⟨h.searching.enter hnew, ?_, fun other hother => ?_, h.finished, ?_, List.Subset.refl _,
    fun _ hmem => .inl hmem, hchain, ?_, fun other hother => ?_, hpath⟩
  · show (seen.insert next.index).contains g.start.index = true
    rw [BitSet.contains_insert, h.start, Bool.or_true]
  · rcases List.mem_cons.mp (List.perm_middle.mem_iff.mp hother) with rfl | hother
    · exact .tail (h.reached id (List.mem_append_right _ List.mem_cons_self)) hmem
    · exact h.reached other hother
  · rw [List.reverse_cons]
    exact .next hchain (wf.mem_controlSuccessors_iff.mp hmem).2
  · exact fun _ hlater => hrest (List.mem_cons_of_mem _ hlater)
  · obtain hlater | hfinished | hchild := hnext other hother
    · rcases List.mem_cons.mp hlater with rfl | hlater
      · exact .inr (.inr rfl)
      · exact .inl hlater
    · exact .inr (.inl hfinished)
    · cases hchild

/-- A node that was seen is passed over.  It is finished: on the path, it would be twice in a
control chain. -/
theorem skip (wf : g.WellFormed) (h : Search.Orders g ⟨seen, finished, (id, next :: rest) :: path⟩)
    (hseen : seen.contains next.index = true) :
    Search.Orders g ⟨seen, finished, (id, rest) :: path⟩ := by
  obtain ⟨hchain, hrest, hnext, hpath⟩ := h.pending
  obtain ⟨halive, hprev⟩ := wf.mem_controlSuccessors_iff.mp (hrest List.mem_cons_self)
  have hfinished : next ∈ finished := by
    refine (List.mem_append.mp ((h.searching.mem_iff next).mpr hseen)).resolve_right fun hpath => ?_
    have hnodup := (ControlChain.next hchain hprev).nodup wf halive
    exact (List.nodup_append.mp hnodup).2.2 next (List.mem_reverse.mpr hpath) next
      (List.mem_singleton_self _) rfl
  refine ⟨h.searching.skip, h.start, h.reached, h.finished, hchain,
    fun _ hlater => hrest (List.mem_cons_of_mem _ hlater), fun other hother => ?_, hpath⟩
  obtain hlater | hother | hchild := hnext other hother
  · rcases List.mem_cons.mp hlater with rfl | hlater
    · exact .inr (.inl hfinished)
    · exact .inl hlater
  · exact .inr (.inl hother)
  · cases hchild

/-- **Every turn keeps it.** -/
theorem turn (wf : g.WellFormed) (h : s.Orders g) (hturn : s.turn g = some t) : t.Orders g := by
  obtain ⟨seen, finished, path⟩ := s
  rcases path with _ | ⟨⟨id, _ | ⟨next, rest⟩⟩, path⟩
  · cases hturn
  · cases hturn
    exact h.finish
  · rw [Search.turn] at hturn
    split at hturn
    · next hseen =>
      cases hturn
      exact h.skip wf hseen
    · next hnew =>
      cases hturn
      exact h.enter wf (Bool.eq_false_iff.mpr hnew)

/-- **Every run of turns keeps it.** -/
theorem turns (wf : g.WellFormed) (h : s.Orders g) (hturns : Search.Turns g s t) : t.Orders g := by
  induction hturns with
  | refl => exact h
  | tail _ hturn ih => exact ih.turn wf hturn

/-- **The search comes to an end**, which is what `Graph.search` answers. -/
theorem turns_search (wf : g.WellFormed) (h : Search.Orders g ⟨seen, finished, path⟩) :
    Search.Turns g ⟨seen, finished, path⟩
      ⟨(g.search seen finished path).2, (g.search seen finished path).1, []⟩ := by
  fun_induction g.search seen finished path with
  | case1 seen finished => exact .refl
  | case2 seen finished id path ih => exact .head rfl (ih h.finish)
  | case3 seen finished id next rest path hnext ih =>
      refine .head ?_ (ih (h.enter wf hnext.2))
      rw [Search.turn, if_neg (Bool.eq_false_iff.mp hnext.2)]
  | case4 seen finished id next rest path hnext ih =>
      -- what follows a node is attached, so that it is a node of the graph
      obtain ⟨halive, -⟩ := wf.mem_controlSuccessors_iff.mp (h.pending.2.1 List.mem_cons_self)
      obtain ⟨node, hnode, -⟩ := isAlive_iff_exists.mp halive
      have hseen : seen.contains next.index = true := by
        refine Classical.byContradiction fun hnew => hnext ⟨lt_size_of_node? hnode, ?_⟩
        exact Bool.eq_false_iff.mpr hnew
      refine .head ?_ (ih (h.skip wf hseen))
      rw [Search.turn, if_pos hseen]

/-- At the end the nodes that control reaches are finished. -/
theorem mem_finished_iff (h : Search.Orders g ⟨seen, finished, []⟩) :
    id ∈ finished ↔ g.FollowsStart id := by
  constructor
  · exact fun hmem => h.reached id (List.mem_append_left _ hmem)
  · intro hfollows
    induction hfollows with
    | refl =>
        have hmem := (h.searching.mem_iff g.start).mpr h.start
        rwa [List.map_nil, List.append_nil] at hmem
    | tail _ hnext ih => exact h.finished.mem_of_successor ih hnext

end Search.Orders

/-! ## The order -/

theorem pairwise_ids (g : Graph) : g.ids.Pairwise fun x y => x.index < y.index :=
  List.Pairwise.map ArenaId.mk (fun _ _ hlt => hlt) List.pairwise_lt_range

theorem controlFlowOrder_eq (g : Graph) :
    g.controlFlowOrder = g.searchFromStart.1.filter g.isLowerable ++
      g.lowerables.filter fun id => !g.searchFromStart.2.contains id.index := rfl

section

variable (wf : g.WellFormed)

include wf

/-- The search from the start node ends with what `Graph.searchFromStart` answers. -/
theorem WellFormed.turns_searchFromStart :
    Search.Turns g (Search.start g) ⟨g.searchFromStart.2, g.searchFromStart.1, []⟩ :=
  (Search.Orders.of_start g).turns_search wf

theorem WellFormed.orders_searchFromStart :
    Search.Orders g ⟨g.searchFromStart.2, g.searchFromStart.1, []⟩ :=
  (Search.Orders.of_start g).turns wf wf.turns_searchFromStart

theorem WellFormed.mem_searchFromStart_iff : id ∈ g.searchFromStart.1 ↔ g.FollowsStart id :=
  wf.orders_searchFromStart.mem_finished_iff

/-- What the search has seen is what control reaches. -/
theorem WellFormed.contains_searchFromStart_iff :
    g.searchFromStart.2.contains id.index = true ↔ g.FollowsStart id := by
  rw [← wf.mem_searchFromStart_iff, ← wf.orders_searchFromStart.searching.mem_iff, List.map_nil,
    List.append_nil]

theorem WellFormed.not_followsStart_of_cycle (halive : g.isAlive id = true)
    (hcycle : g.Precedes id id) : ¬ g.FollowsStart id := by
  intro hfollows
  obtain ⟨-, -, hself⟩ := wf.follows_of_precedes halive hfollows hcycle
  have hsublist := wf.orders_searchFromStart.finished.sublist
    (wf.mem_searchFromStart_iff.mpr hfollows) hself
  have hnodup := (List.nodup_append.mp wf.orders_searchFromStart.searching.nodup).1
  simpa using hnodup.sublist hsublist

theorem WellFormed.sublist_controlFlowOrder (ha : g.isLowerable a = true)
    (hb : g.isLowerable b = true) (hfollows : g.FollowsStart b) (h : g.Precedes a b) :
    [a, b].Sublist g.controlFlowOrder := by
  obtain ⟨-, hstart, hbehind⟩ := wf.follows_of_precedes (isAlive_of_isLowerable hb) hfollows h
  have hsublist := (wf.orders_searchFromStart.finished.sublist
    (wf.mem_searchFromStart_iff.mpr hstart) hbehind).filter g.isLowerable
  rw [List.filter_cons_of_pos ha, List.filter_cons_of_pos hb, List.filter_nil] at hsublist
  rw [controlFlowOrder_eq]
  exact hsublist.trans (List.sublist_append_left _ _)

end

/-- **Control-flow order is a topological order of the lowerable nodes.**  In a graph that a run
leads to:

* The search comes to its end after finitely many turns, and the order consists of the lowerable
  nodes that it finished, the last one first, and the lowerable nodes that it has not seen, by their
  ids.
* The order has every lowerable node once, and no others.
* A lowerable node that is met on the way back from another one that control reaches comes before
  it.
* The nodes that control reaches come first, and the others after them by increasing ids.  Nodes on
  a cycle of control are among the others.
* Creation order has the same nodes by increasing ids. -/
theorem Reachable.controlFlow_topological (h : g.Reachable) :
    (∃ last, Search.Turns g (Search.start g) last ∧ last.turn g = none ∧
      Traversal.controlFlow.order g = last.finished.filter g.isLowerable ++
        g.ids.filter fun id => !last.seen.contains id.index && g.isLowerable id) ∧
    ((Traversal.controlFlow.order g).Nodup ∧
      ∀ id, id ∈ Traversal.controlFlow.order g ↔ g.isLowerable id = true) ∧
    (∀ a b, g.isLowerable a = true → g.isLowerable b = true → g.FollowsStart b → g.Precedes a b →
      [a, b].Sublist (Traversal.controlFlow.order g)) ∧
    (∃ reached others, Traversal.controlFlow.order g = reached ++ others ∧
      (∀ id ∈ reached, g.FollowsStart id) ∧ (∀ id ∈ others, ¬ g.FollowsStart id) ∧
      others.Pairwise fun x y => x.index < y.index) ∧
    (∀ id, g.isLowerable id = true → g.Precedes id id → ¬ g.FollowsStart id) ∧
    ((∀ id, id ∈ Traversal.creation.order g ↔ g.isLowerable id = true) ∧
      (Traversal.creation.order g).Pairwise fun x y => x.index < y.index) := by
  have wf := h.wellFormed
  have schedules := Traversal.schedules_order .controlFlow g
  refine ⟨⟨_, wf.turns_searchFromStart, rfl, ?_⟩, ⟨schedules.nodup, fun id => schedules.mem_iff⟩,
    fun a b => wf.sublist_controlFlowOrder,
    ⟨_, _, g.controlFlowOrder_eq, fun id hid => ?_, fun id hid => ?_, ?_⟩,
    fun id hid => wf.not_followsStart_of_cycle (isAlive_of_isLowerable hid),
    fun id => g.schedules_lowerables.mem_iff, g.pairwise_ids.filter _⟩
  · exact g.controlFlowOrder_eq.trans (congrArg (_ ++ ·) List.filter_filter)
  · exact wf.mem_searchFromStart_iff.mp (List.mem_filter.mp hid).1
  · rw [← wf.contains_searchFromStart_iff]
    simpa using (List.mem_filter.mp hid).2
  · exact (g.pairwise_ids.filter _).filter _

/-- The graph of a store and a load behind it, where two further loads run in a circle of control
that was cut off from the store. -/
def storeThenCycle : Graph :=
  (setInput ⟨8⟩ 0 (some ⟨9⟩)).after <|
  (addRead { control := ⟨8⟩, address := ⟨3⟩, location := LocationUniverse.anyId }).after <|
  (addRead { control := ⟨5⟩, address := ⟨3⟩, location := LocationUniverse.anyId }).after
    storeThenLoad

/-- The store comes before the load, and the two loads of the circle last. -/
theorem controlFlow_topological_storeThenCycle :
    [⟨5⟩, ⟨6⟩].Sublist (Traversal.controlFlow.order storeThenCycle) ∧
      Traversal.controlFlow.order storeThenCycle = [⟨5⟩, ⟨6⟩, ⟨8⟩, ⟨9⟩] ∧
      storeThenCycle.Precedes ⟨8⟩ ⟨8⟩ ∧ ¬ storeThenCycle.FollowsStart ⟨8⟩ := by
  have reachable : storeThenCycle.Reachable :=
    .edit (.edit (.edit reachable_storeThenLoad (.addRead _)) (.addRead _)) (.setInput _ _ _)
  have hcycle : storeThenCycle.Precedes ⟨8⟩ ⟨8⟩ :=
    .tail (.single (show storeThenCycle.controlPredecessor ⟨8⟩ = some ⟨9⟩ by decide +kernel))
      (show storeThenCycle.controlPredecessor ⟨9⟩ = some ⟨8⟩ by decide +kernel)
  have hload : storeThenCycle.FollowsStart ⟨6⟩ :=
    .tail (.tail .refl
      (show (⟨5⟩ : NodeId) ∈ storeThenCycle.controlSuccessors ⟨0⟩ by decide +kernel))
      (show (⟨6⟩ : NodeId) ∈ storeThenCycle.controlSuccessors ⟨5⟩ by decide +kernel)
  obtain ⟨-, -, htopological, -, hcycles, -⟩ := Reachable.controlFlow_topological reachable
  refine ⟨htopological ⟨5⟩ ⟨6⟩ (by decide +kernel) (by decide +kernel) hload
    (.single (show storeThenCycle.controlPredecessor ⟨6⟩ = some ⟨5⟩ by decide +kernel)), ?_, hcycle,
    hcycles ⟨8⟩ (by decide +kernel) hcycle⟩
  decide +kernel

end Graph

end SeaOfNodes
