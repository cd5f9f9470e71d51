import SeaOfNodes.Lowering.Pass
import SeaOfNodes.Proofs.Graph.After
import SeaOfNodes.Proofs.Graph.Change

/-!
# Runs

A run is a sequence of operations, each of which may fail.  The operations are the edits of the
graph (`Graph.Operation`), the lowering of a node, and the pass.  A tool takes part in a run by
whatever it does itself, which must be a run again, on every graph: it may create, rewire and delete
nodes, or lower others (`Graph.Reaches`).

What a run keeps is found out by following computations through their definitions.  `Edit.Within`
and `ToolM.Within` say that a computation stays within a relation between graphs, whatever it is run
on, and both are closed under sequencing.
-/

namespace SeaOfNodes

variable {σ α β : Type}

/-- The graph that a computation of a tool leaves, whether it succeeds or fails. -/
def ToolM.after (m : ToolM σ α) (g : Graph) (memory : σ) : Graph :=
  match m.run (g, memory) with
  | .ok _ (g', _) | .error _ (g', _) => g'

namespace Graph

/-- The edits that are operations, with any arguments.  `admits` says which nodes may be built by
hand. -/
inductive Operation (admits : Node → Prop) : {α : Type} → Edit α → Prop where
  | add {node : Node} (admitted : admits node) : Operation admits (add node)
  | addDetached {node : Node} (admitted : admits node) : Operation admits (addDetached node)
  | attach (id : NodeId) : Operation admits (attach id)
  | parameter (index : UInt16) (stamp : Stamp) : Operation admits (parameter index stamp)
  | constInt (value : Int64) (kind : ValueKind) : Operation admits (constInt value kind)
  | constNull : Operation admits constNull
  | newInstance (control : NodeId) (size : UInt32) : Operation admits (newInstance control size)
  | offsetAddress (base offset : NodeId) : Operation admits (offsetAddress base offset)
  | frameState (bci : UInt32) (values : List NodeId) : Operation admits (frameState bci values)
  | nullCheckGuard (control object : NodeId) : Operation admits (nullCheckGuard control object)
  | returnValue (control : NodeId) (value : Option NodeId) :
      Operation admits (returnValue control value)
  | addRead (request : ReadRequest) : Operation admits (addRead request)
  | addWrite (request : WriteRequest) : Operation admits (addWrite request)
  | addCompareAndSwap (request : SwapRequest) : Operation admits (addCompareAndSwap request)
  | setInput (user : NodeId) (slot : Nat) (input : Option NodeId) :
      Operation admits (setInput user slot input)
  | addInput (user input : NodeId) : Operation admits (addInput user input)
  | removeInput (user : NodeId) (slot : Nat) : Operation admits (removeInput user slot)
  | replaceInput (user old new : NodeId) : Operation admits (replaceInput user old new)
  | replaceAtUsages (old new : NodeId) : Operation admits (replaceAtUsages old new)
  | replaceAtUsagesOfType (old : NodeId) (type : InputType) (new : Option NodeId) :
      Operation admits (replaceAtUsagesOfType old type new)
  | delete (id : NodeId) : Operation admits (delete id)
  | setStateAfter (id : NodeId) (state : Option NodeId) : Operation admits (setStateAfter id state)
  | setLastLocationAccess (id : NodeId) (access : Option NodeId) :
      Operation admits (setLastLocationAccess id access)
  | setGuard (id : NodeId) (guard : Option NodeId) : Operation admits (setGuard id guard)
  | setFlags (id : NodeId) (flags : NodeFlags) : Operation admits (setFlags id flags)
  | setNodeBci (id : NodeId) (bci : UInt32) : Operation admits (setNodeBci id bci)
  | setBci (bci : UInt32) : Operation admits (setBci bci)
  | internLocation (identity : LocationIdentity) : Operation admits (internLocation identity)

/-- `Reaches admits g g'`: some run leads from `g` to `g'`. -/
inductive Reaches (admits : Node → Prop) : Graph → Graph → Prop where
  /-- The empty run. -/
  | refl (g : Graph) : Reaches admits g g
  /-- An edit follows. -/
  | edit {g h : Graph} {α : Type} {m : Edit α} (reached : Reaches admits g h)
      (operation : Operation admits m) : Reaches admits g (m.after h)
  /-- A node is lowered by a tool that acts by runs, whatever it answers. -/
  | lower {g h : Graph} {σ : Type} {tool : LoweringTool σ} (reached : Reaches admits g h)
      (acts : ∀ id h memory, Reaches admits h ((tool id).after h memory)) (id : NodeId)
      (memory : σ) : Reaches admits g ((lowerNode tool id).after h memory)
  /-- The pass is run with such a tool. -/
  | pass {g h : Graph} {σ : Type} {tool : LoweringTool σ} (reached : Reaches admits g h)
      (acts : ∀ id h memory, Reaches admits h ((tool id).after h memory)) (config : LoweringConfig)
      (order : Graph → List NodeId) (memory : σ) :
      Reaches admits g ((runPass config order tool).after h memory)

/-- **The graphs that runs lead to**, from the empty graph and over nodes that were built by the
constructors of `Node`. -/
def Reachable (g : Graph) : Prop := Reaches Node.Built Graph.new g

/-- An operation that succeeds leads on. -/
theorem Reachable.of_run_ok {g g' : Graph} {m : Edit α} {a : α} (h : g.Reachable)
    (operation : Operation Node.Built m) (hrun : m.run g = .ok a g') : g'.Reachable := by
  rw [← Edit.after_of_run_ok hrun]
  exact .edit h operation

/-- A volatile store with a null check, and a load of the same location behind it. -/
def storeThenLoad : Graph :=
  (returnValue ⟨6⟩ (some ⟨6⟩)).after <|
  (addRead {
    control := ⟨5⟩, address := ⟨3⟩, location := LocationUniverse.anyId
    lastLocationAccess := some ⟨5⟩ }).after <|
  (addWrite {
    control := ⟨0⟩, address := ⟨3⟩, location := LocationUniverse.anyId, value := ⟨4⟩
    barrier := .field, nullCheck := true, order := .volatile }).after <|
  (constInt 7 .int).after <|
  (offsetAddress ⟨1⟩ ⟨2⟩).after <|
  (constInt 16 .long).after <|
  (parameter 0 (.object false)).after new

theorem reachable_storeThenLoad : storeThenLoad.Reachable :=
  .edit (.edit (.edit (.edit (.edit (.edit (.edit (.refl new) (.parameter _ _)) (.constInt _ _))
    (.offsetAddress _ _)) (.constInt _ _)) (.addWrite _)) (.addRead _)) (.returnValue _ _)

end Graph

/-! ## Computations that stay within a relation

`Edit.Within R` and `ToolM.Within R` say of a computation that whatever it is run on is related by
`R` to what it leaves.  For a relation that composes, both are closed under sequencing, so that the
lowering of a node and the pass are followed step by step through their definitions. -/

/-- Doing nothing is within the relation, and so is doing one thing after the other. -/
structure Graph.Composes (R : Graph → Graph → Prop) : Prop where
  /-- Doing nothing. -/
  refl : ∀ g, R g g
  /-- One thing after the other. -/
  trans : ∀ {g h k}, R g h → R h k → R g k

section Within

open SeaOfNodes.Graph

variable {R : Graph → Graph → Prop}

/-- An edit stays within a relation. -/
def Edit.Within (R : Graph → Graph → Prop) (m : Edit α) : Prop := ∀ g : Graph, R g (m.after g)

/-- A computation of a tool stays within a relation. -/
def ToolM.Within (R : Graph → Graph → Prop) (m : ToolM σ α) : Prop :=
  ∀ (g : Graph) (memory : σ), R g (m.after g memory)

namespace Edit.Within

theorem bind (c : Composes R) {m : Edit α} {k : α → Edit β} (hm : m.Within R)
    (hk : ∀ a, (k a).Within R) : (m >>= k).Within R := by
  intro g
  have hfirst := hm g
  rw [after_bind]
  rw [after] at hfirst
  cases hrun : m.run g with
  | ok a g' =>
      rw [hrun] at hfirst
      exact c.trans hfirst (hk a g')
  | error e g' =>
      rw [hrun] at hfirst
      exact hfirst

theorem pure (c : Composes R) (a : α) : (Pure.pure a : Edit α).Within R := fun g => c.refl g

theorem get (c : Composes R) : (MonadState.get : Edit Graph).Within R := fun g => c.refl g

theorem throw (c : Composes R) (e : Fault) : (MonadExcept.throw e : Edit α).Within R :=
  fun g => c.refl g

theorem ask (c : Composes R) (f : Graph → Except Violation α) : (Edit.ask f).Within R := by
  intro g
  unfold Edit.after EStateM.run Edit.ask
  cases f g <;> exact c.refl g

theorem fetch (c : Composes R) (f : Graph → Option α) : (Edit.fetch f).Within R := by
  intro g
  unfold Edit.after EStateM.run Edit.fetch
  cases f g <;> exact c.refl g

end Edit.Within

namespace ToolM.Within

theorem bind (c : Composes R) {m : ToolM σ α} {k : α → ToolM σ β} (hm : m.Within R)
    (hk : ∀ a, (k a).Within R) : (m >>= k).Within R := by
  intro g memory
  have hfirst := hm g memory
  unfold after EStateM.run at hfirst ⊢
  simp only [Bind.bind, EStateM.bind]
  cases hrun : m (g, memory) with
  | ok a s =>
      rw [hrun] at hfirst
      exact c.trans hfirst (hk a s.1 s.2)
  | error e s =>
      rw [hrun] at hfirst
      exact hfirst

theorem pure (c : Composes R) (a : α) : (Pure.pure a : ToolM σ α).Within R := fun g _ => c.refl g

theorem graph (c : Composes R) : (ToolM.graph : ToolM σ Graph).Within R := fun g _ => c.refl g

theorem inTool {m : Edit α} (h : m.Within R) : (m.inTool : ToolM σ α).Within R := by
  intro g memory
  have hm := h g
  rw [Edit.after] at hm
  show R g (match Edit.inTool m (g, memory) with | .ok _ (g', _) | .error _ (g', _) => g')
  rw [Edit.inTool]
  cases hrun : m.run g with
  | ok | error =>
      rw [hrun] at hm
      exact hm

theorem mapM (c : Composes R) {f : α → ToolM σ β} (h : ∀ a, (f a).Within R) (as : List α) :
    (as.mapM f).Within R := by
  induction as with
  | nil =>
      rw [List.mapM_nil]
      exact .pure c []
  | cons a as ih =>
      rw [List.mapM_cons]
      exact .bind c (h a) fun b => .bind c ih fun bs => .pure c (b :: bs)

/-- Taking back what was allocated must be within the relation as well. -/
theorem orDiscard (c : Composes R) (hdiscard : ∀ g mark, R g (g.discardSince mark)) (mark : Nat)
    {m : ToolM σ α} (h : m.Within R) : (ToolM.orDiscard mark m).Within R := by
  intro g memory
  have hm := h g memory
  show R g (match ToolM.orDiscard mark m (g, memory) with | .ok _ (g', _) | .error _ (g', _) => g')
  rw [ToolM.after] at hm
  rw [ToolM.orDiscard]
  cases hrun : m.run (g, memory) with
  | ok a s =>
      rw [hrun] at hm
      exact hm
  | error e s =>
      rw [hrun] at hm
      cases e with
      | violation v => exact c.trans hm (hdiscard s.1 mark)
      | outOfRange => exact hm

end ToolM.Within

variable {tool : LoweringTool σ}

theorem within_moveUsages (c : Composes R)
    (hmove : ∀ old type new, (replaceAtUsagesOfType old type new).Within R) (id : NodeId)
    (r : Replacement) (types : List InputType) : (moveUsages id r types).Within R := by
  induction types with
  | nil => exact .pure c ()
  | cons type types ih =>
      unfold moveUsages
      cases r.target type with
      | none => exact ih
      | some target => exact .bind c (hmove id type (some target)) fun _ => ih

/-- Substitution stays within a relation that its three steps stay within. -/
theorem within_substitute (c : Composes R)
    (hmove : ∀ old type new, (replaceAtUsagesOfType old type new).Within R)
    (hretire : ∀ id, (retire id).Within R) (hmark : ∀ g nodes, R g (g.markLowered nodes))
    (id : NodeId) (r : Replacement) : (substitute id r).Within R := by
  rw [substitute]
  refine .bind c (.get c) fun g => ?_
  refine .bind c (within_moveUsages c hmove id r _) fun _ => ?_
  exact .bind c (hretire id) fun _ => fun g => hmark g r.nodes

/-- Lowering a node stays within a relation that the tool, taking back and substitution stay
within. -/
theorem within_lowerNode (c : Composes R) (hdiscard : ∀ g mark, R g (g.discardSince mark))
    (hsubstitute : ∀ id r, (substitute id r).Within R) (acts : ∀ id, (tool id).Within R)
    (id : NodeId) : (lowerNode tool id).Within R := by
  rw [lowerNode]
  refine .bind c (.inTool (.ask c _)) fun killed => ?_
  refine .bind c (.graph c) fun before => ?_
  refine .bind c (.orDiscard c hdiscard _ ?_) fun replacement => ?_
  · refine .bind c (acts id) fun replacement => ?_
    exact .bind c (.inTool (.ask c _)) fun _ => .pure c replacement
  · exact .bind c (.inTool (hsubstitute id replacement)) fun _ => .pure c replacement

theorem within_fetchKind (c : Composes R) (id : NodeId) :
    (fetchKind id : ToolM σ NodeKind).Within R :=
  .inTool (.fetch c _)

theorem within_lowerAlong (c : Composes R) (hlower : ∀ id, (lowerNode tool id).Within R)
    (stats : LoweringStats) (ids : List NodeId) : (lowerAlong tool stats ids).Within R := by
  induction ids generalizing stats with
  | nil => exact .pure c stats
  | cons id ids ih =>
      rw [lowerAlong]
      refine .bind c (within_fetchKind c id) fun kind => ?_
      refine .bind c (hlower id) fun replacement => ?_
      exact .bind c (.mapM c (within_fetchKind c) replacement.nodes) fun created => ih _

/-- The pass stays within a relation that lowering a node stays within. -/
theorem within_runPass (c : Composes R) (hlower : ∀ id, (lowerNode tool id).Within R)
    (config : LoweringConfig) (order : Graph → List NodeId) :
    (runPass config order tool).Within R := by
  rw [runPass]
  refine .bind c (.graph c) fun before => ?_
  refine .bind c (within_lowerAlong c hlower _ _) fun stats => ?_
  have hfinish : (do
      let after ← ToolM.graph
      return { stats with finalLive := after.liveCount } : ToolM σ LoweringStats).Within R :=
    .bind c (.graph c) fun after => .pure c _
  split
  · exact .bind c (.inTool (.ask c _)) fun _ => hfinish
  · exact hfinish

end Within

end SeaOfNodes
