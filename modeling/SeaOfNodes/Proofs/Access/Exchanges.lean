import SeaOfNodes.Proofs.Access.Operands
import SeaOfNodes.Proofs.Lowering.Outcome

/-!
# Exchanges of values

When an operand is exchanged, the rule for accesses is kept if the new one is like the old one.  For
a value this is a matter of the two stamps (`Graph.Exchanges`); an address is another matter, since
what counts is its base.  **`keepsTypes_of_exchanges`** is the general form, and the lemmas after it
say what it takes for each edit that exchanges operands.
-/

namespace SeaOfNodes

namespace Graph

variable {g g' : Graph} {node node' : Node} {id user : NodeId}

/-- Slots that change hold values, in whose place like ones are put, or edges that are no data. -/
def Exchanges (g g' : Graph) : Prop :=
  ∀ x node node', g.node? x = some node → node.isAlive = true → g'.node? x = some node' →
    node'.isAlive = true →
      node'.kind = node.kind ∧ ∀ slot info, node.slotInfo slot = some info →
        node'.input slot = node.input slot ∨ info.inputType ≠ .address ∧
          (info.inputType = .value →
            Like (g.slotStamp node slot) ((node'.input slot).bind g.stamp?))

/-- **Exchanging values for like ones keeps the types of operands.** -/
theorem keepsTypes_of_exchanges (b : g.Balanced) (b' : g'.Balanced)
    (hstamp : ∀ x, g'.stamp? x = g.stamp? x) (exchanges : Exchanges g g') : KeepsTypes g g' := by
  have halike : ∀ x node node', g.node? x = some node → node.isAlive = true →
      g'.node? x = some node' → node'.isAlive = true → Alike g g' node node' := by
    intro x node node' hnode halive hnode' halive'
    obtain ⟨hkind, hslot⟩ := exchanges x node node' hnode halive hnode' halive'
    refine ⟨hkind, fun slot info hinfo haddress => ?_, fun slot info hinfo hdata => ?_⟩
    · rcases hslot slot info (Node.slotInfo_of_layout hinfo) with h | ⟨h, -⟩
      · exact h
      · exact absurd haddress h
    · have hsame : g'.slotStamp node' slot = (node'.input slot).bind g.stamp? := by
        rw [slotStamp, funext hstamp]
      rw [hsame]
      rcases hslot slot info (Node.slotInfo_of_layout hinfo) with h | ⟨haddress, hlike⟩
      · rw [h]
        exact .same _
      · cases hrole : info.inputType with
        | value => exact hlike hrole
        | address => exact absurd hrole haddress
        | _ =>
            rw [hrole] at hdata
            cases hdata
  intro x node node' hnode halive hnode' halive'
  have alike := halike x node node' hnode halive hnode' halive'
  refine alike.operandStamps ((b.placed hnode).slotsFit halive) ?_
  intro slot d held hinfo hinput hheld hattached
  have hinput' : node'.input slot = some d := (alike.address slot _ hinfo rfl).trans hinput
  obtain ⟨_, -, held', hheld', hattached', -⟩ := b'.serves_of_input hnode' halive' hinput'
  exact ⟨held', hheld', halike d held held' hheld hattached hheld' hattached'⟩

/-! ## The edits -/

theorem stamp?_relinkAll (g : Graph) (sites : List UseSite) (old new : Option NodeId) (x : NodeId) :
    (g.relinkAll sites old new).stamp? x = g.stamp? x := by
  rw [stamp?, node?_relinkAll, Option.map_map]
  rfl

/-- Slots are moved from one value to another like it, or carry no data. -/
theorem keepsTypes_relinkAll (wf : g.WellFormed) {sites : List UseSite} {old new : Option NodeId}
    (movable : g.Movable sites old new)
    (hlike : ∀ site ∈ sites, site.info.inputType ≠ .address ∧
      (site.info.inputType = .value → Like (old.bind g.stamp?) (new.bind g.stamp?))) :
    KeepsTypes g (g.relinkAll sites old new) := by
  have b' := wf.relinkAll movable.holds movable.fits movable.apart
  refine keepsTypes_of_exchanges wf.toBalanced b' (g.stamp?_relinkAll sites old new) ?_
  intro x node node' hnode halive hnode' _
  rw [node?_relinkAll, hnode, Option.map_some] at hnode'
  cases hnode'
  refine ⟨rfl, fun slot info hinfo => ?_⟩
  have hslot := lt_length_of_slotInfo ((wf.node hnode).layout_le (.inl halive)) hinfo
  rw [input_refill node x new sites hslot]
  split
  · next hsite =>
    obtain ⟨site, hmem, rfl, rfl⟩ := hsite
    obtain ⟨found, hfound, -, -, rfl, hinfo'⟩ := movable.holds site hmem
    cases hnode.symm.trans hfound
    cases hinfo.symm.trans hinfo'
    exact .inr (hlike site hmem)
  · exact .inl rfl

theorem keepsTypes_setInput (wf : g.WellFormed) {slot : Nat} {input : Option NodeId}
    (hlike : ∀ node info, g.node? user = some node → node.slotInfo slot = some info →
      info.inputType ≠ .address ∧
        (info.inputType = .value → Like (g.slotStamp node slot) (input.bind g.stamp?))) :
    KeepsTypes g ((setInput user slot input).after g) := by
  rw [after_setInput]
  split
  · next node hcheck =>
    split
    · next hslot =>
      obtain ⟨info, hinfo, movable⟩ := movable_of_checkSetInput hcheck hslot.2
      refine keepsTypes_relinkAll wf movable fun site hsite => ?_
      rw [List.mem_singleton.mp hsite]
      exact hlike node info (checkSetInput_eq_ok_iff.mp hcheck).1 hinfo
    · exact g.keepsTypes_refl
  · exact g.keepsTypes_refl

/-- What does not allow to be used as an address is held in other roles. -/
theorem WellFormed.ne_address_of_holds (wf : g.WellFormed) {site : UseSite} {old : NodeId}
    (holds : g.Holds site (some old)) (haddress : g.allowsUsage old .address = false) :
    site.info.inputType ≠ .address := by
  obtain ⟨node, hnode, halive, -, hinput, hinfo⟩ := holds
  obtain ⟨info, hfound, hserves⟩ := wf.serves_of_input hnode halive hinput
  cases hinfo.symm.trans hfound
  intro hrole
  rw [hrole] at hserves
  rw [(serves_iff.mp hserves).2] at haddress
  cases haddress

theorem keepsTypes_replaceInput (wf : g.WellFormed) {old new : NodeId}
    (haddress : g.allowsUsage old .address = false) (hlike : Like (g.stamp? old) (g.stamp? new)) :
    KeepsTypes g ((replaceInput user old new).after g) := by
  rw [after_replaceInput]
  split
  · next hcheck =>
    have movable := movable_of_checkReplaceInput hcheck
    exact keepsTypes_relinkAll wf movable fun site hsite =>
      ⟨wf.ne_address_of_holds (movable.holds site hsite) haddress, fun _ => hlike⟩
  · exact g.keepsTypes_refl

theorem keepsTypes_replaceAtUsages (wf : g.WellFormed) {old new : NodeId}
    (haddress : g.allowsUsage old .address = false) (hlike : Like (g.stamp? old) (g.stamp? new)) :
    KeepsTypes g ((replaceAtUsages old new).after g) := by
  rw [after_replaceAtUsages]
  split
  · next hcheck =>
    have movable := wf.movable_of_checkReplaceAtUsages hcheck
    exact keepsTypes_relinkAll wf movable fun site hsite =>
      ⟨wf.ne_address_of_holds (movable.holds site hsite) haddress, fun _ => hlike⟩
  · exact g.keepsTypes_refl

theorem keepsTypes_replaceAtUsagesOfType (wf : g.WellFormed) {old : NodeId} {type : InputType}
    {new : Option NodeId} (haddress : type ≠ .address)
    (hlike : type = .value → Like (g.stamp? old) (new.bind g.stamp?)) :
    KeepsTypes g ((replaceAtUsagesOfType old type new).after g) := by
  rw [after_replaceAtUsagesOfType]
  split
  · next hcheck =>
    have movable := wf.movable_of_checkReplaceAtUsagesOfType hcheck
    obtain ⟨-, rfl, -⟩ := checkReplaceAtUsagesOfType_eq_ok_iff.mp hcheck
    refine keepsTypes_relinkAll wf movable fun site hsite => ?_
    rw [of_decide_eq_true (List.mem_filter.mp hsite).2]
    exact ⟨haddress, hlike⟩
  · exact g.keepsTypes_refl

/-! ## Substitution -/

/-- Replacing a node exchanges values, if the value that takes its place is like it.  Addresses are
no part of a replacement. -/
theorem exchanges_of_reroute {r : Replacement}
    (hlike : ∀ v, r.value = some v → Like (g.stamp? id) (g.stamp? v))
    (hfind : ∀ x node node', g.node? x = some node → g'.node? x = some node' →
      node'.isAlive = true → node'.kind = node.kind ∧
        node'.slots = (node.redirect (reroute id r)).slots) : Exchanges g g' := by
  intro x node node' hnode halive hnode' halive'
  obtain ⟨hkind, hslots⟩ := hfind x node node' hnode hnode' halive'
  refine ⟨hkind, fun slot info hinfo => ?_⟩
  have hinput : node'.input slot = (node.input slot).map (reroute id r info.inputType) := by
    rw [← Node.input_rename_of_slotInfo hinfo, ← Node.redirect_of_isAlive halive, Node.input,
      hslots, Node.input]
  rw [hinput, slotStamp]
  cases hheld : node.input slot with
  | none => exact .inl rfl
  | some d =>
      by_cases hd : d = id
      · subst hd
        rw [Option.map_some, reroute, if_pos rfl]
        cases htarget : r.target info.inputType with
        | none => exact .inl rfl
        | some target =>
            refine .inr ⟨fun haddress => ?_, fun hvalue => ?_⟩
            · rw [haddress] at htarget
              cases htarget
            · rw [hvalue] at htarget
              exact hlike target htarget
      · rw [Option.map_some, reroute, if_neg hd]
        exact .inl rfl

/-- **Carrying out an accepted replacement keeps the types of operands**, if the value that takes
the place of the node is like it.  This is also so if the replacement fails half-way. -/
theorem keepsTypes_substitute (wf : g.WellFormed) (hid : g.isAlive id = true)
    {killed : Option Checkpoint} {r : Replacement}
    (hcheck : g.checkReplacement id killed r = .ok ())
    (hlike : ∀ v, r.value = some v → Like (g.stamp? id) (g.stamp? v)) :
    KeepsTypes g ((substitute id r).after g) := by
  have leads : Leads Node.Built g ((substitute id r).after g) := leads_substitute id r g
  have b' := (leads wf.toBalanced).balanced wf.toBalanced
  by_cases reinstates : g.Reinstates id r
  · obtain ⟨g', hrun, hfind⟩ := wf.run_substitute_of_reinstates hid
      (fun type htype => serves_of_checkReplacement hcheck htype) reinstates
    rw [Edit.after, hrun] at b' ⊢
    refine keepsTypes_of_exchanges wf.toBalanced b' (fun x => ?_) (exchanges_of_reroute hlike ?_)
    · rw [stamp?, hfind, Option.map_map]
      simp only [Function.comp_def, Node.stamp_redirect]
      rfl
    · intro x node node' hnode hnode' _
      rw [hfind, hnode] at hnode'
      cases hnode'
      exact ⟨node.kind_redirect _, rfl⟩
  · obtain ⟨node, hnode, halive⟩ := isAlive_iff_exists.mp hid
    obtain ⟨g', hrun, -, -, hfind⟩ := wf.run_substitute hnode halive
      fun type htype => exists_target_of_not_reinstates hcheck reinstates htype
    rw [Edit.after_of_run_ok hrun] at b' ⊢
    refine keepsTypes_of_exchanges wf.toBalanced b' (fun x => ?_) (exchanges_of_reroute hlike ?_)
    · rw [stamp?, hfind]
      split
      · next he =>
        rw [← he, stamp?, hnode]
        rfl
      · rw [Option.map_map, stamp?]
        congr 1
        funext found
        simp only [Function.comp_apply]
        split <;> exact found.stamp_redirect _
    · intro x found node' hfound hnode' halive'
      rw [hfind] at hnode'
      split at hnode'
      · cases hnode'
        cases halive'
      · rw [hfound] at hnode'
        cases hnode'
        dsimp only
        split <;> exact ⟨found.kind_redirect _, rfl⟩

end Graph

end SeaOfNodes
