import SeaOfNodes.Proofs.Access.Exchanges

/-!
# Runs that keep accesses typed

Requests are checked, edges are not: a slot is set, or a node replaced, if the role of the edge is
allowed, and the stamp of what comes in is not looked at.  So there are runs that leave an access
whose operands do not fit, although it was requested (`Graph.not_accessesFit_objectStored`).

`Graph.TypedRun` is a run that takes care: whatever it puts into the place of an operand has the
same stamp or a compatible one.  This is asked of the four edits that can do so, and of the
substitution that a lowering ends with, whatever the tool; of all other edits it is known.
**`TypedRun.accessesFit`** says that such runs keep accesses typed, and that they need not look at
anything else.

### How a node can be in the graph

The step is about one node after a change.  Either it was there before, of the same kind, and its
operands are covered by the care that was taken; or it has just entered, and was checked; or it is
none of the accesses.  The last clause of `Graph.Typed` has what is needed of nodes by themselves
(`Node.Orderly`).  A node can be attached late, and is not checked as an access then; what is built
by hand, and waits, is none.
-/

namespace SeaOfNodes

/-- What is known of a node by itself. -/
structure Node.Orderly (node : Node) : Prop where
  /-- No access waits to be attached. -/
  waiting : node.state = .detached → node.kind.isLowerable = false
  /-- A swap answers whether it succeeded. -/
  answers : ∀ kind location, node.kind = .compareAndSwap kind location → node.stamp = .swapResult

theorem Node.orderly_of_not_lowerable {node : Node} (h : node.kind.isLowerable = false) :
    node.Orderly := by
  refine ⟨fun _ => h, fun kind location hkind => ?_⟩
  rw [hkind] at h
  cases h

/-- What becomes of a node that stays, or leaves the graph: it is what it was, and does not come
back. -/
structure Node.Remains (node node' : Node) : Prop where
  /-- It is of the same kind. -/
  kind : node'.kind = node.kind
  /-- It has the same stamp. -/
  stamp : node'.stamp = node.stamp
  /-- It is attached only if it was. -/
  alive : node'.isAlive = true → node.isAlive = true
  /-- It waits only if it did. -/
  detached : node'.state = .detached → node.state = .detached

namespace Node.Remains

variable {node node' node'' : Node}

theorem refl (node : Node) : node.Remains node := ⟨rfl, rfl, id, id⟩

theorem trans (h : node.Remains node') (h' : node'.Remains node'') : node.Remains node'' :=
  ⟨h'.kind.trans h.kind, h'.stamp.trans h.stamp, h.alive ∘ h'.alive, h.detached ∘ h'.detached⟩

theorem orderly (h : node.Remains node') (horderly : node.Orderly) : node'.Orderly where
  waiting hdetached := h.kind ▸ horderly.waiting (h.detached hdetached)
  answers kind location hkind := h.stamp.trans (horderly.answers kind location (h.kind ▸ hkind))

end Node.Remains

namespace Graph

variable {σ : Type} {tool : LoweringTool σ} {g g' h : Graph} {node node' : Node} {x id : NodeId}
  {memory : σ}

/-! ## The invariant -/

/-- **Accesses are typed.** -/
structure Typed (g : Graph) : Prop where
  /-- The graph is well formed. -/
  wellFormed : g.WellFormed
  /-- The operands of attached accesses fit. -/
  fits : g.AccessesFit
  /-- Swaps have the stamp of their result, and no access waits to be attached. -/
  orderly : ∀ x node, g.node? x = some node → node.Orderly

theorem typed_new : new.Typed := by
  have hplain : ∀ {x node}, new.node? x = some node → node.kind.isLowerable = false := by
    intro x node hnode
    rw [eq_startNode_of_new hnode]
    rfl
  exact ⟨wellFormed_new, fun x node hnode _ => operandsFit_of_not_lowerable (hplain hnode),
    fun x node hnode => Node.orderly_of_not_lowerable (hplain hnode)⟩

/-- A node that was there is covered by the care that was taken. -/
theorem Typed.operandsFit (typed : g.Typed) (keeps : KeepsTypes g g')
    (declares : g.locations.Declares g'.locations) (hnode : g.node? x = some node)
    (hnode' : g'.node? x = some node') (remains : node.Remains node')
    (halive' : node'.isAlive = true) : g'.OperandsFit node' := by
  have halive := remains.alive halive'
  exact (typed.fits x node hnode halive).transfer remains.kind declares
    (keeps x node node' hnode halive hnode' halive')

/-- One node is put into the graph, or attached. -/
theorem Typed.enter (typed : g.Typed) (keeps : KeepsTypes g g') (wf' : g'.WellFormed)
    (hlocations : g'.locations = g.locations)
    (hfind : ∀ x, g'.node? x = if id = x then some node' else g.node? x)
    (hfits : node'.isAlive = true → g'.OperandsFit node') (horderly : node'.Orderly) :
    g'.Typed := by
  refine ⟨wf', fun x found hfound halive => ?_, fun x found hfound => ?_⟩
  · by_cases he : id = x
    · rw [hfind, if_pos he] at hfound
      cases hfound
      exact hfits halive
    · have hold := hfound
      rw [hfind, if_neg he] at hold
      have declares : g.locations.Declares g'.locations :=
        hlocations ▸ g.locations.declares_refl
      exact typed.operandsFit keeps declares hold hfound (.refl found) halive
  · rw [hfind] at hfound
    split at hfound
    · cases hfound
      exact horderly
    · exact typed.orderly x found hfound

/-! ## Changes that bring no node in -/

/-- All nodes of `g'` were there in `g`. -/
structure Inherits (g g' : Graph) : Prop where
  /-- Locations are declared as before. -/
  declares : g.locations.Declares g'.locations
  /-- Every node was there. -/
  node : ∀ x node', g'.node? x = some node' → ∃ node, g.node? x = some node ∧ node.Remains node'

theorem Typed.inherit (typed : g.Typed) (keeps : KeepsTypes g g') (wf' : g'.WellFormed)
    (inherits : Inherits g g') : g'.Typed := by
  refine ⟨wf', fun x node' hnode' halive' => ?_, fun x node' hnode' => ?_⟩
  · obtain ⟨node, hnode, remains⟩ := inherits.node x node' hnode'
    exact typed.operandsFit keeps inherits.declares hnode hnode' remains halive'
  · obtain ⟨node, hnode, remains⟩ := inherits.node x node' hnode'
    exact remains.orderly (typed.orderly x node hnode)

theorem composes_inherits : Composes Inherits where
  refl g := ⟨g.locations.declares_refl, fun _ node hnode => ⟨node, hnode, .refl node⟩⟩
  trans {g h k} hgh hhk := by
    refine ⟨hgh.declares.trans hhk.declares, fun x node hnode => ?_⟩
    obtain ⟨between, hbetween, hremains'⟩ := hhk.node x node hnode
    obtain ⟨before, hbefore, hremains⟩ := hgh.node x between hbetween
    exact ⟨before, hbefore, hremains.trans hremains'⟩

theorem inherits_of_map {f : NodeId → Node → Node} (hlocations : g'.locations = g.locations)
    (hfind : ∀ x, g'.node? x = (g.node? x).map (f x))
    (hf : ∀ x (node : Node), node.Remains (f x node)) : Inherits g g' := by
  refine ⟨hlocations ▸ g.locations.declares_refl, fun x node' hnode' => ?_⟩
  rw [hfind] at hnode'
  obtain ⟨node, hnode, rfl⟩ := Option.map_eq_some_iff.mp hnode'
  exact ⟨node, hnode, hf x node⟩

/-- A change of one node. -/
theorem inherits_of_modify {f : Node → Node} (hlocations : g'.locations = g.locations)
    (hfind : ∀ x, g'.node? x = if id = x then (g.node? x).map f else g.node? x)
    (hf : ∀ node : Node, node.Remains (f node)) : Inherits g g' := by
  refine ⟨hlocations ▸ g.locations.declares_refl, fun x node' hnode' => ?_⟩
  rw [hfind] at hnode'
  split at hnode'
  · obtain ⟨node, hnode, rfl⟩ := Option.map_eq_some_iff.mp hnode'
    exact ⟨node, hnode, hf node⟩
  · exact ⟨node', hnode', .refl node'⟩

theorem inherits_relinkAll (g : Graph) (sites : List UseSite) (old new : Option NodeId) :
    Inherits g (g.relinkAll sites old new) :=
  inherits_of_map (g.sameFrame_relinkAll sites old new).locations
    (fun x => g.node?_relinkAll x sites old new) fun _ _ => ⟨rfl, rfl, id, id⟩

theorem inherits_bury (g : Graph) (id : NodeId) {state : NodeState}
    (hstate : state = .replaced ∨ state = .deleted) : Inherits g (g.bury id state) := by
  refine inherits_of_modify (g.sameFrame_bury id state).locations
    (fun x => g.node?_bury id x state) ?_
  rcases hstate with rfl | rfl
  · exact fun node => ⟨rfl, rfl, nofun, nofun⟩
  · exact fun node => ⟨rfl, rfl, nofun, nofun⟩

/-! ## The step -/

/-- What entered fits.  It did in the graph that it was checked in, and its operands are the same
ones in the new graph. -/
theorem operandsFit_insert (wf : g.WellFormed) (enters : Enters Node.Plain g node)
    (hfit : g.SlotsFit node) : (g.insert node).OperandsFit (node.entered g.nextBci) := by
  have same : node.SameData (node.entered g.nextBci) := ⟨rfl, fun _ _ _ _ => rfl⟩
  have hheld : ∀ slot d, node.input slot = some d →
      (g.insert node).isAlive d = true ∨ g.usages d ≠ [] := by
    intro slot d hinput
    obtain ⟨info, -, hfits⟩ := hfit slot (lt_length_of_input hinput)
    rw [hinput] at hfits
    obtain ⟨found, hfound, halive, -⟩ := Serves.insert hfits node
    exact .inl (isAlive_iff_exists.mpr ⟨found, hfound, halive⟩)
  refine (enters.operandsFit (fun _ plain => plain.2) wf hfit).transfer rfl ?_ ?_
  · rw [locations_insert]
    exact g.locations.declares_refl
  · exact (g.steady_insert node).operandStamps wf hfit hheld same

theorem Enters.orderly (enters : Enters Node.Plain g node) : (node.entered g.nextBci).Orderly := by
  cases enters with
  | given admitted => exact Node.orderly_of_not_lowerable admitted.2
  | plain built kind => exact Node.orderly_of_not_lowerable kind
  | read | write => exact ⟨nofun, nofun⟩
  | swap => exact ⟨nofun, fun _ _ _ => rfl⟩

/-- **Every change keeps accesses typed**, if it keeps the types of operands. -/
theorem Change.typed {label : Option NodeId} (change : Change Node.Plain g label g')
    (typed : g.Typed) (keeps : KeepsTypes g g') : g'.Typed := by
  have wf := typed.wellFormed
  have wf' : g'.WellFormed := change.wellFormed (fun _ plain => plain.1) wf
  cases change with
  | @insert node enters fit =>
      exact typed.enter keeps wf' (g.locations_insert node) node?_insert
        (fun _ => operandsFit_insert wf enters fit) enters.orderly
  | @allocate node admitted =>
      have hfind := fun x => (g.node?_allocate x
        { node with bci := g.nextBci, state := .detached }).trans (if_congr eq_comm rfl rfl)
      refine typed.enter keeps wf' rfl hfind ?_ (Node.orderly_of_not_lowerable admitted.2)
      intro halive
      cases halive
  | @attach id node found state fit =>
      have hfind := fun x => (node?_registerInputs _ id x).trans
        (g.node?_modifyNode id x fun node => { node with state := .attached })
      have hplain := (typed.orderly id node found).waiting state
      exact typed.enter keeps wf' (sameFrame_registerInputs _ id).locations
        (node?_of_modify found hfind) (fun _ => operandsFit_of_not_lowerable hplain)
        (Node.orderly_of_not_lowerable hplain)
  | move => exact typed.inherit keeps wf' (g.inherits_relinkAll _ _ _)
  | @append user =>
      exact typed.inherit keeps wf' (inherits_of_modify rfl (fun x => g.node?_modifyNode user x _)
        fun _ => ⟨rfl, rfl, id, id⟩)
  | @erase user =>
      exact typed.inherit keeps wf' (inherits_of_modify rfl (fun x => g.node?_modifyNode user x _)
        fun _ => ⟨rfl, rfl, id, id⟩)
  | delete => exact typed.inherit keeps wf' (g.inherits_bury _ (.inr rfl))
  | retire => exact typed.inherit keeps wf' (g.inherits_bury _ (.inl rfl))
  | mark user =>
      exact typed.inherit keeps wf' (inherits_of_modify rfl (fun x => g.node?_modifyNode user x _)
        fun _ => ⟨rfl, rfl, id, id⟩)
  | bci =>
      exact typed.inherit keeps wf'
        ⟨g.locations.declares_refl, fun _ node hnode => ⟨node, hnode, .refl node⟩⟩
  | intern identity =>
      exact typed.inherit keeps wf'
        ⟨typed.wellFormed.indexed.declares_intern identity,
          fun _ node hnode => ⟨node, hnode, .refl node⟩⟩

theorem Operation.typed {α : Type} {m : Edit α} (operation : Operation Node.Plain m)
    (typed : g.Typed) (keeps : Exchange m → KeepsTypes g (m.after g)) : (m.after g).Typed := by
  have hkeeps := operation.keepsTypes typed.wellFormed keeps
  generalize hafter : m.after g = g' at hkeeps
  rcases hafter ▸ operation.mayChange typed.wellFormed.toBalanced with _ | change
  · exact typed
  · exact change.typed typed hkeeps

/-! ## Lowering -/

/-- Taking back is safe: what is deleted is in no use. -/
theorem Typed.discard (typed : g.Typed) (id : NodeId) : (g.discard id).Typed := by
  rw [Graph.discard]
  split
  · next h =>
    obtain ⟨halive, hunused⟩ := Bool.and_eq_true_iff.mp h
    obtain ⟨node, hnode, hattached⟩ := isAlive_iff_exists.mp halive
    have change : Change Node.Plain g none (g.bury id .deleted) := Change.delete hnode
      (.inr ⟨(NodeState.isAlive_iff _).mp hattached, List.isEmpty_iff.mp hunused⟩)
    have steady : Steady g (g.bury id .deleted) :=
      steady_bury (fun _ => List.isEmpty_iff.mp hunused) rfl
    exact change.typed typed (steady.keepsTypes typed.wellFormed)
  · exact typed

theorem Typed.discardSince (typed : g.Typed) (mark : Nat) : (g.discardSince mark).Typed := by
  unfold Graph.discardSince
  generalize (g.ids.drop mark).reverse = ids
  induction ids generalizing g with
  | nil => exact typed
  | cons id ids ih => exact ih (typed.discard id)

theorem within_substitute_inherits (id : NodeId) (r : Replacement) :
    (substitute id r).Within Inherits := by
  refine within_substitute composes_inherits (fun old type new g => ?_) (fun id g => ?_)
    (fun g nodes => ?_) id r
  · rw [after_replaceAtUsagesOfType]
    split
    · exact g.inherits_relinkAll _ _ _
    · exact composes_inherits.refl g
  · rw [after_retire]
    split
    · exact g.inherits_bury id (.inl rfl)
    · exact composes_inherits.refl g
  · refine inherits_of_map (g.sameFrame_markLowered nodes).locations
      (fun x => g.node?_markLowered nodes x) fun x node => ?_
    split
    · exact ⟨rfl, rfl, fun halive => halive, fun hdetached => hdetached⟩
    · exact .refl node

theorem Typed.substitute (typed : g.Typed) (id : NodeId) (r : Replacement)
    (keeps : KeepsTypes g ((substitute id r).after g)) : ((substitute id r).after g).Typed := by
  have built : ∀ node : Node, node.Built → node.Built := fun _ h => h
  have wf' : ((Graph.substitute id r).after g).WellFormed :=
    (leads_substitute id r g typed.wellFormed.toBalanced).wellFormed built typed.wellFormed
  exact typed.inherit keeps wf' (within_substitute_inherits id r g)

/-- **Lowering a node keeps accesses typed**, if the tool does and what it answers keeps the types
of operands.  Whether the lowering succeeds does not matter. -/
theorem Typed.lowerNode (typed : g.Typed)
    (acts : g.isLowerable id = true → ((tool id).after g memory).Typed)
    (keeps : g.isLowerable id = true → ∀ r h memory',
      (tool id).run (g, memory) = .ok r (h, memory') →
      h.checkReplacement id (g.checkpoint? id) r = .ok () →
      KeepsTypes h ((Graph.substitute id r).after h)) :
    ((lowerNode tool id).after g memory).Typed := by
  by_cases hid : g.isLowerable id = true
  · have hacts := acts hid
    rw [ToolM.after] at hacts ⊢
    rw [run_lowerNode_eq tool (requireLowerable_of_isLowerable hid)]
    rcases hrun : (tool id).run (g, memory) with ⟨r, h, memory'⟩ | ⟨e, h, memory'⟩
    · rw [hrun] at hacts
      dsimp only at hacts ⊢
      cases hcheck : h.checkReplacement id (g.checkpoint? id) r with
      | error v => exact hacts.discardSince g.size
      | ok =>
          have hsubstitute := hacts.substitute id r (keeps hid r h memory' hrun hcheck)
          rw [Edit.after] at hsubstitute
          cases hresult : (Graph.substitute id r).run h with
          | ok | error =>
              rw [hresult] at hsubstitute
              exact hsubstitute
    · rw [hrun] at hacts
      cases e with
      | violation v => exact hacts.discardSince g.size
      | outOfRange => exact hacts
  · obtain ⟨v, hrefused⟩ := run_lowerNode_of_not_isLowerable tool hid memory
    rw [ToolM.after, hrefused]
    exact typed

/-! ## Runs -/

/-- `TypedRun g g'`: a run leads from `g` to `g'` in which accesses are requested, and what takes
the place of an operand has the same stamp or a compatible one. -/
inductive TypedRun : Graph → Graph → Prop where
  /-- The empty run. -/
  | refl (g : Graph) : TypedRun g g
  /-- An edit follows. -/
  | edit {g h : Graph} {α : Type} {m : Edit α} (reached : TypedRun g h)
      (operation : Operation Node.Plain m) (keeps : Exchange m → KeepsTypes h (m.after h)) :
      TypedRun g (m.after h)
  /-- A node is lowered.  The tool acts by a run, and whatever it answers is put in place. -/
  | lower {g h : Graph} {σ : Type} {tool : LoweringTool σ} {id : NodeId} {memory : σ}
      (reached : TypedRun g h)
      (acts : h.isLowerable id = true → TypedRun h ((tool id).after h memory))
      (keeps : h.isLowerable id = true → ∀ r k memory',
        (tool id).run (h, memory) = .ok r (k, memory') →
        k.checkReplacement id (h.checkpoint? id) r = .ok () →
        KeepsTypes k ((substitute id r).after k)) :
      TypedRun g ((lowerNode tool id).after h memory)

namespace TypedRun

theorem typed (run : TypedRun g g') (htyped : g.Typed) : g'.Typed := by
  induction run with
  | refl => exact htyped
  | edit _ operation keeps ih => exact operation.typed (ih htyped) keeps
  | lower _ _ keeps ih acts => exact (ih htyped).lowerNode (fun hid => acts hid (ih htyped)) keeps

/-- Nodes may be created, and accesses requested. -/
theorem create (run : TypedRun g h) (typed : g.Typed) {α : Type} {m : Edit α}
    (creation : Creation Node.Plain m) : TypedRun g (m.after h) :=
  .edit run creation.operation fun _ =>
    (creation.inserts h).keepsTypes (run.typed typed).wellFormed

/-- The pass is a run, if the lowerings are that it consists of. -/
theorem pass (run : TypedRun g h)
    (lowers : ∀ id k memory, TypedRun g k → TypedRun g ((lowerNode tool id).after k memory))
    (config : LoweringConfig) (order : Graph → List NodeId) (memory : σ) :
    TypedRun g ((runPass config order tool).after h memory) := by
  have c : Composes fun k k' => TypedRun g k → TypedRun g k' :=
    ⟨fun _ => id, fun hgh hhk hg => hhk (hgh hg)⟩
  exact within_runPass c (fun id k memory => lowers id k memory) config order h memory run

/-- **Runs that keep the types of operands keep accesses typed.** -/
theorem accessesFit (run : TypedRun new g) : g.AccessesFit := (run.typed typed_new).fits

end TypedRun

/-! ## Storing something else -/

/-- A field of an object is set to a number. -/
def pointStore : Graph :=
  (addWrite { control := ⟨0⟩, address := ⟨3⟩, location := ⟨2⟩, value := ⟨4⟩ }).after <|
  (internLocation (.field "Point" "x" .int false)).after <|
  (constInt 7 .int).after <|
  (offsetAddress ⟨1⟩ ⟨2⟩).after <|
  (constInt 16 .long).after <|
  (parameter 0 (.object false)).after new

theorem typedRun_pointStore : TypedRun new pointStore := by
  have numbers : TypedRun new _ :=
    (TypedRun.refl new).create typed_new (.parameter 0 (.object false))
      |>.create typed_new (.constInt 16 .long) |>.create typed_new (.offsetAddress ⟨1⟩ ⟨2⟩)
      |>.create typed_new (.constInt 7 .int)
  have declared : TypedRun new _ := .edit numbers
    (.internLocation (.field "Point" "x" .int false)) fun _ =>
      Steady.keepsTypes (steady_of_node? fun _ _ => rfl) (numbers.typed typed_new).wellFormed
  exact declared.create typed_new (.addWrite _)

/-- Another number takes the place of the number. -/
def numberStored : Graph :=
  (setInput ⟨5⟩ 2 (some ⟨6⟩)).after <|
  (constInt 8 .int).after pointStore

theorem accessesFit_numberStored :
    numberStored.input ⟨5⟩ 2 = some ⟨6⟩ ∧ numberStored.AccessesFit := by
  let g : Graph := (constInt 8 .int).after pointStore
  have run : TypedRun new g := typedRun_pointStore.create typed_new (.constInt 8 .int)
  have hsame : ∀ node ∈ g.node? ⟨5⟩, ∀ info ∈ node.slotInfo 2, info.inputType ≠ .address ∧
      g.slotStamp node 2 = (some ⟨6⟩ : Option NodeId).bind g.stamp? := by decide +kernel
  have keeps : KeepsTypes g ((setInput ⟨5⟩ 2 (some ⟨6⟩)).after g) := by
    refine keepsTypes_setInput (run.typed typed_new).wellFormed fun node info hnode hinfo => ?_
    obtain ⟨haddress, hstamp⟩ := hsame node hnode info hinfo
    exact ⟨haddress, fun _ => hstamp ▸ .same _⟩
  refine ⟨by decide +kernel, ?_⟩
  exact TypedRun.accessesFit (.edit run (.setInput ⟨5⟩ 2 (some ⟨6⟩)) fun _ => keeps)

/-- The object in which the field is takes the place of the number. -/
def objectStored : Graph := (setInput ⟨5⟩ 2 (some ⟨1⟩)).after pointStore

/-- Nothing is checked when an operand is exchanged. -/
theorem not_accessesFit_objectStored :
    Reaches Node.Plain new objectStored ∧ ¬ objectStored.AccessesFit := by
  refine ⟨?_, by decide +kernel⟩
  exact .edit (.edit (.edit (.edit (.edit (.edit (.edit (.refl new) (.parameter _ _))
    (.constInt _ _)) (.offsetAddress _ _)) (.constInt _ _)) (.internLocation _)) (.addWrite _))
    (.setInput _ _ _)

end Graph

end SeaOfNodes
