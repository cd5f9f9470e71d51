import SeaOfNodes.Proofs.Access.TargetLowering
import SeaOfNodes.Proofs.Lowering.Tally

/-!
# The types of loads

A read is given its stamp when it is requested, from the kind that its location is declared to hold.
The kind of its raw load is looked up again when the read is lowered, and a good deal may have been
declared in between.  `Graph.ReadsTyped` is what has to hold at that moment: every read has the
stamp of the values of its location.  Every change keeps it (`Change.readsTyped`), and so every run
does; **`Reaches.lowered_load_typed`** says what follows for the raw load and for the users of the
read.

### What is load-bearing

A location that is declared again is found by what it is apart from its mutability, so that it may
turn out to be mutable but never gets another kind (`LocationUniverse.Indexed.declares_intern`).
For a location that is not known a machine word is assumed, which a later declaration could
contradict: it matters that a read of such a location is refused.  And reads must be requested.  A
read that is built by hand may have any stamp, and its raw load inherits that.
-/

namespace SeaOfNodes

namespace LocationUniverse

variable {u u' : LocationUniverse} {location : LocationId}

theorem Declares.isSome_get? (h : u.Declares u') (hknown : (u.get? location).isSome = true) :
    (u'.get? location).isSome = true := by
  obtain ⟨identity, hidentity⟩ := Option.isSome_iff_exists.mp hknown
  obtain ⟨identity', hidentity', -⟩ := h location identity hidentity
  exact Option.isSome_iff_exists.mpr ⟨identity', hidentity'⟩

/-- The kind of the values at a known location is never declared anew. -/
theorem Declares.accessKind_eq (h : u.Declares u') (hknown : (u.get? location).isSome = true) :
    u'.accessKind location = u.accessKind location := by
  obtain ⟨identity, hidentity⟩ := Option.isSome_iff_exists.mp hknown
  obtain ⟨identity', hidentity', hkind, -⟩ := h location identity hidentity
  rw [accessKind, accessKind, valueKind, valueKind, hidentity, hidentity', Option.bind_some,
    Option.bind_some, hkind]

end LocationUniverse

namespace Node

/-- A node that was built, and is no read. -/
def BesideReads (node : Node) : Prop := node.Built ∧ node.kind.isRead = false

/-- If the node is a read, its location is known, and its stamp is that of the values there. -/
def LoadsTyped (u : LocationUniverse) (node : Node) : Prop :=
  ∀ access, node.kind = .read access →
    (u.get? access.location).isSome = true ∧ node.stamp = .onStack (u.accessKind access.location)

variable {u u' : LocationUniverse} {node node' : Node}

theorem loadsTyped_of_not_isRead (h : node.kind.isRead = false) : node.LoadsTyped u := by
  intro access hkind
  rw [hkind] at h
  cases h

theorem LoadsTyped.mono (h : node.LoadsTyped u) (declares : u.Declares u')
    (hkind : node'.kind = node.kind) (hstamp : node'.stamp = node.stamp) :
    node'.LoadsTyped u' := by
  intro access hread
  obtain ⟨hknown, htyped⟩ := h access (hkind ▸ hread)
  exact ⟨declares.isSome_get? hknown, by rw [hstamp, htyped, declares.accessKind_eq hknown]⟩

end Node

namespace Graph

variable {admits : Node → Prop} {g g' : Graph} {id : NodeId} {node : Node}
  {label : Option NodeId} {config : LoweringConfig}

/-- **Every read has the stamp of the values of its location.** -/
def ReadsTyped (g : Graph) : Prop :=
  ∀ id node, g.node? id = some node → node.LoadsTyped g.locations

/-! ## The step -/

/-- A change declares a location, or it does not touch the locations at all. -/
theorem Change.declares (change : Change admits g label g') (indexed : g.locations.Indexed) :
    g.locations.Declares g'.locations := by
  have same : ∀ {h : Graph}, SameFrame g h → g.locations.Declares h.locations :=
    fun frame => frame.locations ▸ g.locations.declares_refl
  cases change with
  | intern identity => exact indexed.declares_intern identity
  | @insert node => exact g.locations_insert node ▸ g.locations.declares_refl
  | attach =>
      rw [(sameFrame_registerInputs _ _).locations]
      exact g.locations.declares_refl
  | move => exact same (g.sameFrame_relinkAll _ _ _)
  | delete | retire => exact same (g.sameFrame_bury _ _)
  | allocate | append | erase | mark | bci => exact g.locations.declares_refl

/-- A read of a location that is not known is refused. -/
theorem isSome_get?_of_checkAddress {address : NodeId} {location : LocationId}
    (h : g.checkAddress address location = .ok ()) :
    (g.locations.get? location).isSome = true := by
  rw [checkAddress, bind_eq_ok_iff] at h
  obtain ⟨identity, hidentity, -⟩ := h
  exact Option.isSome_iff_exists.mpr ⟨identity, requireLocation_eq_ok_iff.mp hidentity⟩

theorem isRead_eq_false_of_not_lowerable {kind : NodeKind} (h : kind.isLowerable = false) :
    kind.isRead = false := by
  cases kind with
  | read => cases h
  | _ => rfl

/-- A read that enters the graph has the stamp of the values of its location. -/
theorem Enters.loadsTyped (enters : Enters admits g node)
    (beside : ∀ node, admits node → node.BesideReads) : node.LoadsTyped g.locations := by
  cases enters with
  | given admitted => exact Node.loadsTyped_of_not_isRead (beside node admitted).2
  | plain built kind => exact Node.loadsTyped_of_not_isRead (isRead_eq_false_of_not_lowerable kind)
  | read address =>
      rintro access ⟨⟩
      exact ⟨isSome_get?_of_checkAddress address, rfl⟩
  | write | swap => exact Node.loadsTyped_of_not_isRead rfl

/-- **Every change keeps reads typed**, as long as they are requested. -/
theorem Change.readsTyped (change : Change admits g label g') (indexed : g.locations.Indexed)
    (beside : ∀ node, admits node → node.BesideReads) (typed : g.ReadsTyped) :
    g'.ReadsTyped := by
  have declares := change.declares indexed
  intro id node' hnode'
  cases hold : g.node? id with
  | none =>
      rcases change.born hold hnode' with ⟨entered, enters, rfl⟩ | ⟨entered, admitted, rfl⟩
      · exact (enters.loadsTyped beside).mono declares rfl rfl
      · exact Node.loadsTyped_of_not_isRead (beside entered admitted).2
  | some node =>
      obtain ⟨after, hafter, fate⟩ := change.fate hold
      cases hafter.symm.trans hnode'
      cases fate with
      | stays _ kind stamp => exact (typed id node hold).mono declares kind stamp
      | attached | deleted | replaced => exact (typed id node hold).mono declares rfl rfl

/-! ## The run -/

/-- **Runs keep reads typed**, as long as reads are requested. -/
theorem Reaches.readsTyped (h : Reaches admits new g)
    (beside : ∀ node, admits node → node.BesideReads) : g.ReadsTyped := by
  have hchanges := h.changes balanced_new
  clear h
  induction hchanges with
  | refl =>
      intro id node hnode
      rw [eq_startNode_of_new hnode]
      exact Node.loadsTyped_of_not_isRead rfl
  | tail before change ih =>
      obtain ⟨label, change⟩ := change
      exact change.readsTyped (Changes.balanced before balanced_new).indexed beside ih

/-! ## The lowering -/

/-- **The raw load of a read** has the kind of the values of its location and the stamp of the read,
and takes its place wherever the read was used as a value. -/
theorem WellFormed.lowers_read (wf : g.WellFormed) (config : LoweringConfig)
    (hlive : g.liveNode? id = some node) {access : Access} (hread : node.kind = .read access) :
    ∃ r g' load raw, (lowerNode config.tool id).run (g, ()) = .ok r (g', ()) ∧
      r.value = some load ∧ load ∈ r.nodes ∧ g'.liveNode? load = some raw ∧
      raw.kind =
        .rawLoad ⟨access.location, g.locations.accessKind access.location, access.order⟩ ∧
      raw.stamp = node.stamp ∧
      ∀ x ≠ id, ∀ user slot info, g.liveNode? x = some user → user.slotInfo slot = some info →
        info.inputType = .value → user.input slot = some id →
        ∃ user', g'.liveNode? x = some user' ∧ user'.input slot = some load := by
  obtain ⟨plan, g', hplan, hrun, spliced⟩ :=
    run_lowerNode_of_liveNode? config wf hlive (by rw [hread]; rfl)
  obtain ⟨control, -, hlisted, hraw⟩ := spliced.exists_access
  have hkind := LoweringConfig.kind_access_of_planOf hplan hlive
  obtain ⟨view, hview, rfl⟩ := Option.map_eq_some_iff.mp hplan
  cases view with
  | write w | swap s => cases hread.symm.trans (kind_of_access? hview hlive).symm
  | read r =>
      refine ⟨_, g', _, _, hrun, rfl, hlisted, hraw, ?_, stamp_of_access? hview hlive, ?_⟩
      · rw [hread] at hkind
        exact hkind
      · intro x hne user slot info huser hinfo hvalue hinput
        have hold := lt_size_of_node? (liveNode?_eq_some_iff.mp huser).1
        have hrenamed := liveNode?_of_redirect (spliced.old x hne hold)
        rw [huser] at hrenamed
        refine ⟨_, hrenamed, ?_⟩
        rw [Node.input_rename_of_slotInfo hinfo, hinput, hvalue, Option.map_some, reroute,
          if_pos rfl]
        rfl

/-- **A lowered load has the type that its users were promised.**  In every graph that a run leads
to, over reads that were all requested, every attached read is lowered, for whatever configuration.
The value of its expansion is a raw load, which has the stamp of the read; this is also that of the
kind of the raw load on the operand stack.  Whoever held the read as a value holds the raw load. -/
theorem Reaches.lowered_load_typed (h : Reaches Node.BesideReads new g)
    (hlive : g.liveNode? id = some node) (hread : node.kind.isRead = true)
    (config : LoweringConfig) :
    ∃ r g' load raw access, (lowerNode config.tool id).run (g, ()) = .ok r (g', ()) ∧
      r.value = some load ∧ load ∈ r.nodes ∧ g'.liveNode? load = some raw ∧
      raw.kind = .rawLoad access ∧ raw.stamp = node.stamp ∧ raw.stamp = .onStack access.kind ∧
      ∀ x ≠ id, ∀ user slot info, g.liveNode? x = some user → user.slotInfo slot = some info →
        info.inputType = .value → user.input slot = some id →
        ∃ user', g'.liveNode? x = some user' ∧ user'.input slot = some load := by
  have wf : g.WellFormed := h.wellFormed (fun _ beside => beside.1) wellFormed_new
  obtain ⟨access, hkind⟩ : ∃ access, node.kind = .read access := by
    cases hnode : node.kind with
    | read access => exact ⟨access, rfl⟩
    | _ =>
        rw [hnode] at hread
        cases hread
  obtain ⟨r, g', load, raw, hrun, hvalue, hlisted, hraw, hrawKind, hstamp, husers⟩ :=
    wf.lowers_read config hlive hkind
  obtain ⟨-, htyped⟩ :=
    h.readsTyped (fun _ beside => beside) id node (liveNode?_eq_some_iff.mp hlive).1 access hkind
  exact ⟨r, g', load, raw, _, hrun, hvalue, hlisted, hraw, hrawKind, hstamp, hstamp.trans htyped,
    husers⟩

/-- A final field of the kind `byte` that is read and returned.  It is declared again, as mutable,
before the return is built. -/
def finalByte : Graph :=
  (returnValue ⟨4⟩ (some ⟨4⟩)).after <|
  (internLocation (.field "Lock" "state" .byte false)).after <|
  (addRead { control := ⟨0⟩, address := ⟨3⟩, location := ⟨2⟩ }).after <|
  (internLocation (.field "Lock" "state" .byte true)).after <|
  (offsetAddress ⟨1⟩ ⟨2⟩).after <|
  (constInt 16 .long).after <|
  (parameter 0 (.object false)).after new

theorem reaches_finalByte : Reaches Node.BesideReads new finalByte :=
  .edit (.edit (.edit (.edit (.edit (.edit (.edit (.refl new) (.parameter _ _)) (.constInt _ _))
    (.offsetAddress _ _)) (.internLocation _)) (.addRead _)) (.internLocation _)) (.returnValue _ _)

/-- The field is mutable by now.  Its raw load is an `int` on the operand stack, and it is what is
returned. -/
theorem lowered_load_typed_finalByte :
    finalByte.locations.get? ⟨2⟩ = some (.field "Lock" "state" .byte false) ∧
      ∃ r g' load raw user, (lowerNode LoweringConfig.forTesting.tool ⟨4⟩).run (finalByte, ()) =
          .ok r (g', ()) ∧
        r.value = some load ∧ g'.liveNode? load = some raw ∧ raw.stamp = .integer 32 ∧
        g'.liveNode? ⟨5⟩ = some user ∧ user.input 1 = some load := by
  obtain ⟨node, hlive, hread, hstamp⟩ : ∃ node, finalByte.liveNode? ⟨4⟩ = some node ∧
      node.kind.isRead = true ∧ node.stamp = .integer 32 := ⟨_, rfl, rfl, rfl⟩
  obtain ⟨r, g', load, raw, access, hrun, hvalue, -, hraw, -, hsame, -, husers⟩ :=
    Reaches.lowered_load_typed reaches_finalByte hlive hread .forTesting
  obtain ⟨user, huser, hinput⟩ := husers ⟨5⟩ (by decide) _ 1 _ rfl rfl rfl rfl
  exact ⟨rfl, r, g', load, raw, user, hrun, hvalue, hraw, hsame.trans hstamp, huser, hinput⟩

end Graph

end SeaOfNodes
