import SeaOfNodes.Location.Alias
import SeaOfNodes.Proofs.Location.Indexed

/-!
# Interning over whole runs

A location universe is filled by calls, each of which declares an identity and is answered an id.
The calls differ in how they spell the identity (`Declaration`), and all of them intern it.

A run is described by its `Ledger`: the universe, and every declaration that it has answered with
the id of the answer.  The two distinguished locations are declared like all others, when the
universe is made.

**`Ledger.interning`** says what the ids mean, in terms of the ledger alone: two declarations are
answered one id exactly if they agree up to mutability, the id denotes what was declared from then
on, and the location is immutable as long as all its declarations are.  What the alias oracle of
identities answers is read off from that.

Agreement up to mutability is said form by form (`LocationIdentity.SameLocation`), without the keys
that the universe goes by.

### What is load-bearing

Whether a location is known is looked up in the key map, and the identity that is kept in the arena
may change later, when a declaration disagrees on mutability.  The map and the arena agree all the
same (`Ledger.Consistent.indexed`), so that the location is still found, and found under one id
only.
-/

namespace SeaOfNodes

open LocationUniverse (anyId initId)

/-! ## Agreement up to mutability -/

/-- The identities agree in everything but whether they are immutable. -/
inductive LocationIdentity.SameLocation : LocationIdentity → LocationIdentity → Prop where
  | any : SameLocation .any .any
  | init : SameLocation .init .init
  | field (holder name : String) (kind : ValueKind) (immutable immutable' : Bool) :
      SameLocation (.field holder name kind immutable) (.field holder name kind immutable')
  | arrayElement (kind : ValueKind) : SameLocation (.arrayElement kind) (.arrayElement kind)
  | named (name : String) (immutable immutable' : Bool) :
      SameLocation (.named name immutable) (.named name immutable')

/-- The key of a location is what its identities agree in. -/
theorem LocationIdentity.sameLocation_iff {left right : LocationIdentity} :
    left.SameLocation right ↔ left.asMutable = right.asMutable := by
  constructor
  · rintro (_ | _ | _ | _ | _) <;> rfl
  · intro h
    cases left <;> cases right <;> cases h <;> constructor

/-! ## Calls -/

/-- A call that declares a location. -/
inductive Declaration where
  | intern (identity : LocationIdentity)
  | field (holder name : String) (kind : ValueKind)
  | finalField (holder name : String) (kind : ValueKind)
  | arrayElement (kind : ValueKind)
  | named (name : String) (immutable : Bool)

namespace Declaration

/-- The identity that is declared. -/
def identity : Declaration → LocationIdentity
  | intern identity => identity
  | field holder name kind => .field holder name kind false
  | finalField holder name kind => .field holder name kind true
  | arrayElement kind => .arrayElement kind
  | named name immutable => .named name immutable

/-- Make the call: the id that is answered, and the universe afterwards. -/
def run (u : LocationUniverse) : Declaration → LocationId × LocationUniverse
  | intern identity => u.intern identity
  | field holder name kind => u.field holder name kind
  | finalField holder name kind => u.finalField holder name kind
  | arrayElement kind => u.arrayElement kind
  | named name immutable => u.named name immutable

theorem run_eq_intern (u : LocationUniverse) (call : Declaration) :
    call.run u = u.intern call.identity := by
  cases call <;> rfl

end Declaration

/-! ## Runs of calls -/

/-- A declaration that was answered. -/
structure Declared where
  /-- What was declared. -/
  identity : LocationIdentity
  /-- The id that was answered. -/
  id : LocationId
deriving DecidableEq

/-- A universe with all the declarations that it has answered, the oldest first. -/
structure Ledger where
  /-- The universe. -/
  locations : LocationUniverse
  /-- The declarations. -/
  entries : List Declared
deriving DecidableEq

namespace Ledger

/-- A new universe, in which the two distinguished locations are declared. -/
def new : Ledger := ⟨.new, [⟨.any, anyId⟩, ⟨.init, initId⟩]⟩

/-- One more call. -/
def record (ledger : Ledger) (call : Declaration) : Ledger :=
  let (id, locations) := call.run ledger.locations
  ⟨locations, ledger.entries ++ [⟨call.identity, id⟩]⟩

/-- The ledger of a new universe after the calls. -/
def ofCalls (calls : List Declaration) : Ledger := calls.foldl record new

variable {ledger : Ledger} {id a b : LocationId} {identity known : LocationIdentity}

/-- **What the ids of a universe have to do with the declarations that it has answered.** -/
structure Consistent (ledger : Ledger) : Prop where
  /-- The key map and the arena agree. -/
  indexed : ledger.locations.Indexed
  /-- The answer denotes what was declared. -/
  denotes : ∀ entry ∈ ledger.entries, ∃ known, ledger.locations.get? entry.id = some known ∧
    known.asMutable = entry.identity.asMutable
  /-- Every id was an answer. -/
  answered : ∀ {id known}, ledger.locations.get? id = some known →
    ∃ entry ∈ ledger.entries, entry.id = id
  /-- A location is immutable as long as every declaration says so. -/
  immutable : ∀ {id known}, ledger.locations.get? id = some known →
    (known.isImmutable = true ↔
      ∀ entry ∈ ledger.entries, entry.id = id → entry.identity.isImmutable = true)

/-! ## Runs are consistent -/

/-- A call makes one entry, and the entry is what interning the identity answers. -/
theorem record_eq (ledger : Ledger) (call : Declaration) :
    ledger.record call = ⟨(ledger.locations.intern call.identity).2,
      ledger.entries ++ [⟨call.identity, (ledger.locations.intern call.identity).1⟩]⟩ := by
  rw [record, call.run_eq_intern]

/-- Nothing is declared in a universe without locations. -/
theorem consistent_empty : Consistent ⟨.empty, []⟩ where
  indexed := LocationUniverse.indexed_empty
  denotes _ h := absurd h List.not_mem_nil
  answered h := by simp at h
  immutable h := by simp at h

/-- **A location that is declared again** keeps its id.  The identity that is kept under the id may
become another one, but not up to mutability. -/
theorem Consistent.redeclare (c : ledger.Consistent)
    (hfind : ledger.locations.find? identity = some id) :
    Consistent ⟨ledger.locations.redeclare id identity, ledger.entries ++ [⟨identity, id⟩]⟩ where
  indexed := c.indexed.redeclare hfind
  denotes entry hentry := by
    have hbefore : ∃ old, ledger.locations.get? entry.id = some old ∧
        old.asMutable = entry.identity.asMutable := by
      rcases List.mem_append.mp hentry with hold | hnew
      · exact c.denotes entry hold
      · cases List.mem_singleton.mp hnew
        exact c.indexed.find?_eq_some_iff.mp hfind
    obtain ⟨old, hold, hkey⟩ := hbefore
    obtain ⟨now, hnow, hsame, -⟩ := c.indexed.exists_redeclared hfind hold
    exact ⟨now, hnow, hsame.trans hkey⟩
  answered hnow := by
    obtain ⟨old, hold⟩ := LocationUniverse.exists_of_get?_redeclare hnow
    obtain ⟨entry, hentry, he⟩ := c.answered hold
    exact ⟨entry, List.mem_append_left _ hentry, he⟩
  immutable hnow := by
    obtain ⟨old, hold⟩ := LocationUniverse.exists_of_get?_redeclare hnow
    obtain ⟨found, hfound, -, himm⟩ := c.indexed.exists_redeclared hfind hold
    cases hnow.symm.trans hfound
    rw [himm, c.immutable hold]
    simp only [List.forall_mem_append, List.forall_mem_singleton]

/-- **A location that is declared for the first time** receives a new id. -/
theorem Consistent.push (c : ledger.Consistent)
    (hfind : ledger.locations.find? identity = none) :
    Consistent ⟨ledger.locations.push identity,
      ledger.entries ++ [⟨identity, ledger.locations.identities.nextId⟩]⟩ := by
  have old_ne : ∀ {x old}, ledger.locations.get? x = some old →
      x ≠ ledger.locations.identities.nextId := fun hold => Arena.ne_nextId_of_get? hold
  refine ⟨c.indexed.push hfind, ?_, ?_, ?_⟩
  · intro entry hentry
    rw [LocationUniverse.get?_push]
    rcases List.mem_append.mp hentry with hold | hnew
    · obtain ⟨known, hknown, hkey⟩ := c.denotes entry hold
      rw [if_neg (old_ne hknown)]
      exact ⟨known, hknown, hkey⟩
    · cases List.mem_singleton.mp hnew
      exact ⟨identity, if_pos rfl, rfl⟩
  · intro x known hknown
    rw [LocationUniverse.get?_push] at hknown
    split at hknown
    · next he => exact ⟨_, List.mem_append_right _ List.mem_cons_self, he.symm⟩
    · obtain ⟨entry, hentry, he⟩ := c.answered hknown
      exact ⟨entry, List.mem_append_left _ hentry, he⟩
  · intro x known hknown
    rw [LocationUniverse.get?_push] at hknown
    simp only [List.forall_mem_append, List.forall_mem_singleton]
    split at hknown
    · next he =>
      -- nothing was answered the new id before
      cases hknown
      refine ⟨fun himm => ⟨fun entry hentry hid => ?_, fun _ => himm⟩, fun h => h.2 he.symm⟩
      obtain ⟨old, hold, -⟩ := c.denotes entry hentry
      exact absurd (hid.trans he) (old_ne hold)
    · next hne =>
      rw [c.immutable hknown]
      exact (and_iff_left fun he => absurd he.symm hne).symm

/-- **The step.** -/
theorem Consistent.record (c : ledger.Consistent) (call : Declaration) :
    (ledger.record call).Consistent := by
  rw [record_eq, LocationUniverse.intern]
  rcases hfind : ledger.locations.find? call.identity with _ | id
  · exact c.push hfind
  · exact c.redeclare hfind

/-- The distinguished locations are declared like all others. -/
theorem new_eq :
    new = ((⟨.empty, []⟩ : Ledger).record (.intern .any)).record (.intern .init) := by
  decide +kernel

/-- **The run.** -/
theorem consistent_ofCalls (calls : List Declaration) : (ofCalls calls).Consistent := by
  refine List.foldlRecOn calls record ?_ fun _ c call _ => c.record call
  rw [new_eq]
  exact (consistent_empty.record _).record _

/-- Entries are never taken back. -/
theorem entries_grow (calls more : List Declaration) :
    (ofCalls calls).entries <+: (ofCalls (calls ++ more)).entries := by
  unfold ofCalls
  rw [List.foldl_append]
  generalize calls.foldl record new = ledger
  induction more generalizing ledger with
  | nil => exact List.prefix_refl _
  | cons call more ih =>
      have hlonger : ledger.entries <+: (ledger.record call).entries := by
        rw [record_eq]
        exact List.prefix_append _ _
      exact hlonger.trans (ih (ledger.record call))

theorem entries_new_subset (calls : List Declaration) : new.entries ⊆ (ofCalls calls).entries :=
  (entries_grow [] calls).subset

/-! ## What the answers mean -/

namespace Consistent

variable {e f : Declared}

/-- Two declarations are answered one id exactly if they agree up to mutability. -/
theorem id_eq_iff (c : ledger.Consistent) (he : e ∈ ledger.entries) (hf : f ∈ ledger.entries) :
    e.id = f.id ↔ e.identity.SameLocation f.identity := by
  rw [LocationIdentity.sameLocation_iff]
  obtain ⟨left, hleft, hkeyLeft⟩ := c.denotes e he
  obtain ⟨right, hright, hkeyRight⟩ := c.denotes f hf
  constructor
  · intro hid
    rw [hid, hright] at hleft
    cases hleft
    exact hkeyLeft.symm.trans hkeyRight
  · intro hkey
    exact c.indexed.eq_of_asMutable hleft hright (hkeyLeft.trans (hkey.trans hkeyRight.symm))

/-- The ids of a universe are the answers that it gave. -/
theorem lt_size_iff (c : ledger.Consistent) :
    id.index < ledger.locations.size ↔ ∃ e ∈ ledger.entries, e.id = id := by
  constructor
  · intro hlt
    obtain ⟨known, hknown⟩ : ∃ known, ledger.locations.get? id = some known := by
      rw [← Option.isSome_iff_exists, Option.isSome_iff_ne_none]
      intro hnone
      exact Nat.not_lt.mpr ((Arena.get?_eq_none_iff _ _).mp hnone) hlt
    exact c.answered hknown
  · rintro ⟨e, he, rfl⟩
    obtain ⟨known, hknown, -⟩ := c.denotes e he
    exact LocationUniverse.lt_size_of_get? hknown

/-- `ANY_LOCATION` is the location that overlaps every other, and no other location is. -/
theorem isAny_iff (c : ledger.Consistent) (hany : ⟨.any, anyId⟩ ∈ ledger.entries)
    (hknown : ledger.locations.get? id = some known) : known.isAny = true ↔ id = anyId := by
  obtain ⟨found, hfound, hkey⟩ := c.denotes _ hany
  constructor
  · intro h
    refine c.indexed.eq_of_asMutable hknown hfound ?_
    rw [hkey, LocationIdentity.isAny_iff.mp h]
  · rintro rfl
    rw [hknown] at hfound
    cases hfound
    exact LocationIdentity.isAny_iff.mpr (LocationIdentity.asMutable_eq_any_iff.mp hkey)

end Consistent

/-- Declarations that were answered `a` and `b` agree up to mutability. -/
def Agree (ledger : Ledger) (a b : LocationId) : Prop :=
  ∃ e ∈ ledger.entries, ∃ f ∈ ledger.entries,
    e.id = a ∧ f.id = b ∧ e.identity.SameLocation f.identity

/-- Declarations that agree were answered one id. -/
theorem Consistent.agree_iff (c : ledger.Consistent) (ha : ledger.locations.get? a = some known) :
    ledger.Agree a b ↔ a = b := by
  constructor
  · rintro ⟨e, he, f, hf, rfl, rfl, hkey⟩
    exact (c.id_eq_iff he hf).mpr hkey
  · rintro rfl
    obtain ⟨e, he, hid⟩ := c.answered ha
    exact ⟨e, he, e, he, hid, hid, LocationIdentity.sameLocation_iff.mpr rfl⟩

/-- **What the oracle of identities answers.** -/
theorem Consistent.relation_eq (c : ledger.Consistent) (hany : ⟨.any, anyId⟩ ∈ ledger.entries) :
    (ledger.locations.get? a = none ∨ ledger.locations.get? b = none ∨ a = anyId ∨ b = anyId →
      AliasOracle.identity.relation ledger.locations a b = .unknown) ∧
    (∀ left right, ledger.locations.get? a = some left → ledger.locations.get? b = some right →
      a ≠ anyId → b ≠ anyId →
        (ledger.Agree a b → AliasOracle.identity.relation ledger.locations a b = .same) ∧
        (¬ ledger.Agree a b →
          AliasOracle.identity.relation ledger.locations a b = .disjoint)) := by
  rcases ha : ledger.locations.get? a with _ | left
  · simp [AliasOracle.identity, ha]
  rcases hb : ledger.locations.get? b with _ | right
  · simp [AliasOracle.identity, ha, hb]
  simp only [AliasOracle.identity, ha, hb, Bool.or_eq_true, c.isAny_iff hany ha,
    c.isAny_iff hany hb]
  constructor
  · intro h
    exact if_pos (by simpa using h)
  · rintro _ _ - - hane hbne
    rw [c.agree_iff ha, if_neg (not_or.mpr ⟨hane, hbne⟩)]
    exact ⟨fun he => if_pos he, fun hne => if_neg hne⟩

/-- **Ids of locations are locations up to mutability.**  Of a new universe after any calls:

* two declarations are answered one id exactly if what they declare agrees up to mutability;
* whatever calls follow, the id that was answered denotes what was declared, up to mutability;
* the key map and the arena of the universe agree: a key leads to the one id whose location has it;
* the ids of the universe are the answers that it gave, the distinguished locations are where they
  are in a new universe, and no two ids denote the same up to mutability;
* the location of an id is immutable exactly if all declarations that were answered the id so far
  say so;
* the oracle of identities knows nothing of an id that is not known, or of the location that
  overlaps every other; two other ids are the same location to it if declarations that agree up to
  mutability were answered them, and disjoint otherwise. -/
theorem interning (calls more : List Declaration) :
    (∀ e ∈ (ofCalls calls).entries, ∀ f ∈ (ofCalls calls).entries,
      e.id = f.id ↔ e.identity.SameLocation f.identity) ∧
    (∀ e ∈ (ofCalls calls).entries, ∃ known,
      (ofCalls (calls ++ more)).locations.get? e.id = some known ∧
        known.SameLocation e.identity) ∧
    (ofCalls calls).locations.Indexed ∧
    ((∀ id : LocationId, id.index < (ofCalls calls).locations.size ↔
        ∃ e ∈ (ofCalls calls).entries, e.id = id) ∧
      (ofCalls calls).locations.get? anyId = some .any ∧
      (ofCalls calls).locations.get? initId = some .init ∧
      ∀ a b left right, (ofCalls calls).locations.get? a = some left →
        (ofCalls calls).locations.get? b = some right → left.SameLocation right → a = b) ∧
    (∀ id known, (ofCalls calls).locations.get? id = some known →
      (known.isImmutable = true ↔
        ∀ e ∈ (ofCalls calls).entries, e.id = id → e.identity.isImmutable = true)) ∧
    ∀ a b : LocationId,
      ((ofCalls calls).locations.get? a = none ∨ (ofCalls calls).locations.get? b = none ∨
        a = anyId ∨ b = anyId →
        AliasOracle.identity.relation (ofCalls calls).locations a b = .unknown) ∧
      ∀ left right, (ofCalls calls).locations.get? a = some left →
        (ofCalls calls).locations.get? b = some right → a ≠ anyId → b ≠ anyId →
        ((ofCalls calls).Agree a b →
          AliasOracle.identity.relation (ofCalls calls).locations a b = .same) ∧
        (¬ (ofCalls calls).Agree a b →
          AliasOracle.identity.relation (ofCalls calls).locations a b = .disjoint) := by
  have c := consistent_ofCalls calls
  have hany : ⟨.any, anyId⟩ ∈ (ofCalls calls).entries := entries_new_subset calls (by decide)
  have hinit : ⟨.init, initId⟩ ∈ (ofCalls calls).entries := entries_new_subset calls (by decide)
  refine ⟨fun e he f hf => c.id_eq_iff he hf, fun e he => ?_, c.indexed,
    ⟨fun id => c.lt_size_iff, ?_, ?_, ?_⟩, fun id known => c.immutable,
    fun a b => c.relation_eq hany⟩
  · obtain ⟨known, hknown, hkey⟩ :=
      (consistent_ofCalls (calls ++ more)).denotes e ((entries_grow calls more).subset he)
    exact ⟨known, hknown, LocationIdentity.sameLocation_iff.mpr hkey⟩
  · obtain ⟨known, hknown, hkey⟩ := c.denotes _ hany
    rw [hknown, LocationIdentity.asMutable_eq_any_iff.mp hkey]
  · obtain ⟨known, hknown, hkey⟩ := c.denotes _ hinit
    rw [hknown, LocationIdentity.asMutable_eq_init_iff.mp hkey]
  · exact fun a b left right ha hb hsame =>
      c.indexed.eq_of_asMutable ha hb (LocationIdentity.sameLocation_iff.mp hsame)

/-- A field that is declared final, then another location, then the field as before, then the field
as one that is written.  The field keeps its id and is found under it, but is not immutable any
more; and it is disjoint from the other location. -/
theorem interning_final_then_mutable :
    let calls : List Declaration :=
      [.finalField "Point" "x" .int, .named "mark" true, .finalField "Point" "x" .int,
        .field "Point" "x" .int]
    (ofCalls calls).entries = new.entries ++
      [⟨.field "Point" "x" .int true, ⟨2⟩⟩, ⟨.named "mark" true, ⟨3⟩⟩,
        ⟨.field "Point" "x" .int true, ⟨2⟩⟩, ⟨.field "Point" "x" .int false, ⟨2⟩⟩] ∧
    (∃ known, (ofCalls calls).locations.get? ⟨2⟩ = some known ∧ ¬ known.isImmutable = true) ∧
    (ofCalls calls).locations.interned.get? (.field "Point" "x" .int false) = some ⟨2⟩ ∧
    AliasOracle.identity.relation (ofCalls calls).locations ⟨2⟩ ⟨3⟩ = .disjoint := by
  intro calls
  have hentries : (ofCalls calls).entries = new.entries ++
      [⟨.field "Point" "x" .int true, ⟨2⟩⟩, ⟨.named "mark" true, ⟨3⟩⟩,
        ⟨.field "Point" "x" .int true, ⟨2⟩⟩, ⟨.field "Point" "x" .int false, ⟨2⟩⟩] := by
    decide +kernel
  obtain ⟨ids, denotes, indexed, -, immutable, relation⟩ := interning calls []
  have hfield : ⟨.field "Point" "x" .int false, ⟨2⟩⟩ ∈ (ofCalls calls).entries := by
    rw [hentries]
    decide
  have hmark : ⟨.named "mark" true, ⟨3⟩⟩ ∈ (ofCalls calls).entries := by
    rw [hentries]
    decide
  obtain ⟨field, hget, hsame⟩ := denotes _ hfield
  obtain ⟨mark, hgetMark, -⟩ := denotes _ hmark
  rw [List.append_nil] at hget hgetMark
  refine ⟨hentries, ⟨field, hget, fun himm => ?_⟩, ?_, ?_⟩
  · exact absurd ((immutable _ _ hget).mp himm _ hfield rfl) (by decide)
  · exact (indexed _ _).mpr (LocationUniverse.key?_eq_some_iff.mpr
      ⟨field, hget, LocationIdentity.sameLocation_iff.mp hsame⟩)
  · refine ((relation ⟨2⟩ ⟨3⟩).2 field mark hget hgetMark (by decide) (by decide)).2 ?_
    rintro ⟨e, he, f, hf, hid, hid', hsame⟩
    exact absurd (hid.symm.trans (((ids e he f hf).mpr hsame).trans hid')) (by decide)

end Ledger

end SeaOfNodes
