import ViewEngine.Proofs.Schema.Identities

/-!
What a schema is read as, said without the order of its definitions. Each definition stands for one entity, built upon
that of its parent. Main statement: the rounds of reading succeed exactly if every definition stands for an entity, and
then these are what is registered.
-/

namespace ViewEngine

variable {d p : EntityDefinition} {e f : Entity} {registry other next result : Registry}
  {definitions pending deferred : List EntityDefinition}

namespace EntityDraft

variable {draft : EntityDraft}

theorem build_frame (succeeded : draft.build = .ok e) :
    e.name = draft.name ∧ e.table = draft.table ∧ e.parent = draft.parent := by
  obtain ⟨attributes, -, succeeded⟩ := bind_eq_ok.mp succeeded
  obtain ⟨discriminator, -, succeeded⟩ := bind_eq_ok.mp succeeded
  obtain ⟨version, -, succeeded⟩ := bind_eq_ok.mp succeeded
  split at succeeded
  · cases succeeded
    exact ⟨rfl, rfl, rfl⟩
  · contradiction

end EntityDraft

theorem Registry.get?_of_entity {name : String} (found : registry.entity name = .ok e) :
    registry.get? name = some e := by
  unfold Registry.entity at found
  split at found
  · cases found
    assumption
  · contradiction

namespace EntityDefinition

theorem build_congr (same : ∀ parent, d.parent = some parent → registry.get? parent = other.get? parent) :
    d.build registry = d.build other := by
  unfold EntityDefinition.build
  cases inherits : d.parent with
  | none => rfl
  | some parent => simp only [Registry.entity, same parent inherits]

theorem build_name (succeeded : d.build registry = .ok e) : e.name = d.name := by
  unfold EntityDefinition.build at succeeded
  cases inherits : d.parent
  all_goals
    rw [inherits] at succeeded
    obtain ⟨draft, drafted, succeeded⟩ := bind_eq_ok.mp succeeded
    obtain ⟨attributes, -, succeeded⟩ := bind_eq_ok.mp succeeded
    refine (EntityDraft.build_frame succeeded).1.trans ?_
  case none =>
    cases drafted
    rfl
  case some =>
    obtain ⟨parent, -, rfl⟩ := map_eq_ok.mp drafted
    rfl

/-- What an entity has of its parent: the table, and all attributes, which stand in front of its own. -/
structure Inherits (e origin : Entity) (declared : List Attribute) : Prop where
  parent : e.parent = some origin.name
  table : e.table = origin.table
  attributes : e.attributes = origin.attributes ++ declared

theorem build_rootless (rootless : d.parent = none) (succeeded : d.build registry = .ok e) : e.parent = none := by
  unfold EntityDefinition.build at succeeded
  rw [rootless] at succeeded
  obtain ⟨draft, drafted, succeeded⟩ := bind_eq_ok.mp succeeded
  obtain ⟨attributes, -, succeeded⟩ := bind_eq_ok.mp succeeded
  cases drafted
  exact (EntityDraft.build_frame succeeded).2.2

theorem build_inherits {parent : String} (inherits : d.parent = some parent) (succeeded : d.build registry = .ok e) :
    ∃ f declared, registry.get? parent = some f ∧ Inherits e f declared ∧ ∀ a ∈ declared, a.id.entity = d.name := by
  unfold EntityDefinition.build at succeeded
  rw [inherits] at succeeded
  obtain ⟨draft, drafted, succeeded⟩ := bind_eq_ok.mp succeeded
  obtain ⟨attributes, -, succeeded⟩ := bind_eq_ok.mp succeeded
  obtain ⟨f, found, rfl⟩ := map_eq_ok.mp drafted
  obtain ⟨-, table, isParent⟩ := EntityDraft.build_frame succeeded
  refine ⟨f, _, Registry.get?_of_entity found, ⟨isParent, table, EntityDraft.build_attributes succeeded⟩, ?_⟩
  intro a member
  obtain ⟨b, -, rfl⟩ := List.mem_map.mp member
  rfl

inductive Derives (definitions : List EntityDefinition) : EntityDefinition → Entity → Prop
  | root {d : EntityDefinition} {e : Entity} (member : d ∈ definitions) (rootless : d.parent = none)
      (built : d.build {} = .ok e) : Derives definitions d e
  | upon {d p : EntityDefinition} {e f : Entity} (member : d ∈ definitions) (inherits : d.parent = some p.name)
      (parent : Derives definitions p f) (built : d.build (({} : Registry).register f) = .ok e) :
      Derives definitions d e

namespace Derives

theorem member (derives : Derives definitions d e) : d ∈ definitions := by
  cases derives <;> assumption

theorem name (derives : Derives definitions d e) : e.name = d.name := by
  cases derives with
  | root _ _ built => exact build_name built
  | upon _ _ _ built => exact build_name built

theorem of_subset {others : List EntityDefinition} (derives : Derives definitions d e) (known : definitions ⊆ others) :
    Derives others d e := by
  induction derives with
  | root member rootless built => exact .root (known member) rootless built
  | upon member inherits _ built ih => exact .upon (known member) inherits ih built

theorem unique (distinct : (definitions.map (·.name)).Nodup) (first : Derives definitions d e)
    (second : Derives definitions d f) : e = f := by
  induction first generalizing f with
  | root _ rootless built =>
      cases second with
      | root _ _ again => exact Except.ok.inj (built.symm.trans again)
      | upon _ inherits => cases rootless.symm.trans inherits
  | upon _ inherits parent built ih =>
      cases second with
      | root _ rootless => cases rootless.symm.trans inherits
      | upon _ inheritsToo other again =>
          have names := Option.some.inj (inherits.symm.trans inheritsToo)
          cases List.inj_on_of_nodup_map distinct parent.member other.member names
          cases ih other
          exact Except.ok.inj (built.symm.trans again)

end Derives

/-- A definition, that of its parent and so on, up to one that has no parent. -/
inductive IsLineage (definitions : List EntityDefinition) : List EntityDefinition → Prop
  | root {d : EntityDefinition} (member : d ∈ definitions) (rootless : d.parent = none) : IsLineage definitions [d]
  | upon {d p : EntityDefinition} {ancestors : List EntityDefinition} (member : d ∈ definitions)
      (inherits : d.parent = some p.name) (rest : IsLineage definitions (p :: ancestors)) :
      IsLineage definitions (d :: p :: ancestors)

theorem Derives.exists_lineage (derives : Derives definitions d e) :
    ∃ ancestors, IsLineage definitions (d :: ancestors) := by
  induction derives with
  | root member rootless => exact ⟨[], .root member rootless⟩
  | upon member inherits _ _ ih =>
      obtain ⟨ancestors, rest⟩ := ih
      exact ⟨_, .upon member inherits rest⟩

namespace IsLineage

variable {chain ancestors : List EntityDefinition}

theorem subset (lineage : IsLineage definitions chain) : chain ⊆ definitions := by
  induction lineage with
  | root member => exact List.cons_subset.mpr ⟨member, List.nil_subset _⟩
  | upon member _ _ ih => exact List.cons_subset.mpr ⟨member, ih⟩

theorem unique {others : List EntityDefinition} (distinct : (definitions.map (·.name)).Nodup)
    (first : IsLineage definitions (d :: ancestors)) (second : IsLineage definitions (d :: others)) :
    ancestors = others := by
  generalize starts : d :: ancestors = chain at first
  induction first generalizing d ancestors others with
  | root _ rootless =>
      cases starts
      cases second with
      | root => rfl
      | upon _ inherits => cases rootless.symm.trans inherits
  | upon _ inherits rest ih =>
      cases starts
      cases second with
      | root _ rootless => cases rootless.symm.trans inherits
      | upon _ inheritsToo other =>
          have names := Option.some.inj (inherits.symm.trans inheritsToo)
          cases List.inj_on_of_nodup_map distinct (rest.subset (List.mem_cons_self ..))
            (other.subset (List.mem_cons_self ..)) names
          rw [ih other rfl]

theorem exists_of_mem (lineage : IsLineage definitions chain) (member : d ∈ chain) :
    ∃ ancestors, IsLineage definitions (d :: ancestors) ∧ ancestors.length < chain.length := by
  induction lineage with
  | root isKnown rootless =>
      cases List.mem_singleton.mp member
      exact ⟨[], .root isKnown rootless, Nat.one_pos⟩
  | upon isKnown inherits rest ih =>
      rcases List.mem_cons.mp member with rfl | later
      · exact ⟨_, .upon isKnown inherits rest, Nat.lt_succ_self _⟩
      · obtain ⟨ancestors, lineage, shorter⟩ := ih later
        exact ⟨ancestors, lineage, Nat.lt_succ_of_lt shorter⟩

/-- There is no cycle in a lineage: a definition that came back would begin a shorter lineage than its only one. -/
theorem names_nodup (distinct : (definitions.map (·.name)).Nodup) (lineage : IsLineage definitions chain) :
    (chain.map (·.name)).Nodup := by
  induction lineage with
  | root => exact List.nodup_singleton _
  | @upon d p ancestors member inherits rest ih =>
      refine List.nodup_cons.mpr ⟨fun again => ?_, ih⟩
      obtain ⟨q, inside, same⟩ := List.mem_map.mp again
      cases List.inj_on_of_nodup_map distinct (rest.subset inside) member same
      obtain ⟨others, other, shorter⟩ := rest.exists_of_mem inside
      rw [← unique distinct (.upon member inherits rest) other] at shorter
      exact Nat.lt_irrefl _ shorter

end IsLineage

end EntityDefinition

open EntityDefinition

namespace Registry

theorem get?_register_self (registry : Registry) (e : Entity) : (registry.register e).get? e.name = some e :=
  Keyed.get?_insert_self ..

theorem get?_register_of_ne {name : String} (different : name ≠ e.name) :
    (registry.register e).get? name = registry.get? name :=
  Keyed.get?_insert_of_ne different ..

structure IsDerived (definitions : List EntityDefinition) (registry : Registry) : Prop where
  ascending : registry.entities.IsAscending
  derives : ∀ name e, registry.get? name = some e → ∃ d, d.name = name ∧ Derives definitions d e

namespace IsDerived

theorem empty : IsDerived definitions {} :=
  ⟨List.Pairwise.nil, fun _ _ found => by cases found⟩

theorem derives_of_build (derived : registry.IsDerived definitions) (member : d ∈ definitions)
    (built : d.build registry = .ok e) : Derives definitions d e := by
  cases inherits : d.parent with
  | none =>
      have same : d.build registry = d.build {} := build_congr fun parent found => by cases inherits.symm.trans found
      exact .root member inherits (same ▸ built)
  | some parent =>
      obtain ⟨f, _, found, -⟩ := build_inherits inherits built
      obtain ⟨p, rfl, derives⟩ := derived.derives parent f found
      refine .upon member inherits derives ((build_congr fun parent isParent => ?_).trans built)
      cases inherits.symm.trans isParent
      rw [found, ← derives.name, get?_register_self]

theorem build_of_derives (distinct : (definitions.map (·.name)).Nodup) (derived : registry.IsDerived definitions)
    (ready : d.isReady registry = true) (derives : Derives definitions d e) : d.build registry = .ok e := by
  unfold isReady at ready
  cases derives with
  | root _ rootless built =>
      exact (build_congr fun parent found => by cases rootless.symm.trans found).trans built
  | @upon _ p _ f _ inherits parent built =>
      refine (build_congr fun name isParent => ?_).trans built
      cases inherits.symm.trans isParent
      rw [inherits] at ready
      obtain ⟨g, found⟩ := Option.isSome_iff_exists.mp ready
      obtain ⟨q, same, derives⟩ := derived.derives _ g found
      cases List.inj_on_of_nodup_map distinct derives.member parent.member same
      cases parent.unique distinct derives
      rw [found, ← parent.name, get?_register_self]

theorem register (derived : registry.IsDerived definitions) (member : d ∈ definitions)
    (built : d.build registry = .ok e) : (registry.register e).IsDerived definitions := by
  refine ⟨derived.ascending.insert .., fun name f found => ?_⟩
  by_cases own : name = e.name
  · rw [own, get?_register_self] at found
    cases found
    exact ⟨d, own.trans (build_name built) |>.symm, derived.derives_of_build member built⟩
  · rw [get?_register_of_ne own] at found
    exact derived.derives name f found

theorem addReady (derived : registry.IsDerived definitions) (known : pending ⊆ definitions)
    (succeeded : registry.addReady pending = .ok (next, deferred)) :
    next.IsDerived definitions ∧ deferred ⊆ pending :=
  addReady_keeps (fun _ member _ _ before built => before.register (known member) built) derived succeeded

end IsDerived

/-- Rounds over the definitions, for as long as any of them waits: what comes out in the end, if it comes to an end. -/
inductive Loads : Registry → List EntityDefinition → Except SchemaError Registry → Prop
  | done (registry : Registry) : Loads registry [] (.ok registry)
  | fails {registry : Registry} {pending : List EntityDefinition} {cause : SchemaError} (waiting : pending ≠ [])
      (failed : registry.addReady pending = .error cause) : Loads registry pending (.error cause)
  | stuck {registry next : Registry} {pending deferred : List EntityDefinition} (waiting : pending ≠ [])
      (made : registry.addReady pending = .ok (next, deferred)) (all : deferred.length = pending.length) :
      Loads registry pending (.error (.unresolvableParents (deferred.map (·.name))))
  | round {registry next : Registry} {pending deferred : List EntityDefinition} {result : Except SchemaError Registry}
      (waiting : pending ≠ []) (made : registry.addReady pending = .ok (next, deferred))
      (fewer : deferred.length ≠ pending.length) (rest : Loads next deferred result) : Loads registry pending result

section Rounds

/-- After a round each definition waits or is registered, and what was registered stays. Where all of them wait, none
was ready. -/
theorem addReady_cases (succeeded : registry.addReady pending = .ok (next, deferred)) :
    (∀ name, (registry.get? name).isSome = true → (next.get? name).isSome = true) ∧
      (∀ d ∈ pending, d ∈ deferred ∨ (next.get? d.name).isSome = true) ∧ deferred.length ≤ pending.length ∧
      (deferred.length = pending.length → ∀ d ∈ pending, d.isReady registry = false) := by
  induction pending generalizing registry deferred with
  | nil =>
      cases succeeded
      exact ⟨fun _ => id, nofun, Nat.le_refl _, fun _ => nofun⟩
  | cons d rest ih =>
      rw [addReady] at succeeded
      split at succeeded
      next ready =>
        obtain ⟨e, built, succeeded⟩ := bind_eq_ok.mp succeeded
        obtain ⟨stays, each, fewer, -⟩ := ih succeeded
        have kept (name : String) (known : (registry.get? name).isSome = true ∨ name = e.name) :
            (next.get? name).isSome = true := by
          refine stays name ?_
          by_cases own : name = e.name
          · rw [own, get?_register_self, Option.isSome_some]
          · rw [get?_register_of_ne own]
            exact known.resolve_right own
        refine ⟨fun name known => kept name (.inl known), List.forall_mem_cons.mpr ⟨.inr ?_, each⟩, ?_, ?_⟩
        · exact kept d.name (.inr (build_name built).symm)
        · exact Nat.le_succ_of_le fewer
        · intro all
          rw [List.length_cons] at all
          omega
      next unready =>
        obtain ⟨⟨further, others⟩, made, succeeded⟩ := bind_eq_ok.mp succeeded
        cases succeeded
        obtain ⟨stays, each, fewer, none⟩ := ih made
        refine ⟨stays, List.forall_mem_cons.mpr ⟨.inl (List.mem_cons_self ..), fun other member => ?_⟩, ?_, ?_⟩
        · exact (each other member).imp_left (List.mem_cons_of_mem _)
        · exact Nat.succ_le_succ fewer
        · intro all
          exact List.forall_mem_cons.mpr ⟨Bool.eq_false_of_not_eq_true unready, none (Nat.succ.inj all)⟩

theorem addAll_loads {rounds : Nat} (enough : pending.length ≤ rounds) :
    Loads registry pending (addAll rounds registry pending) := by
  induction rounds generalizing registry pending with
  | zero =>
      cases List.length_eq_zero_iff.mp (Nat.le_zero.mp enough)
      exact .done registry
  | succ rounds ih =>
      cases pending with
      | nil => exact .done registry
      | cons d rest =>
          cases made : registry.addReady (d :: rest) with
          | error cause =>
              have failed : addAll (rounds + 1) registry (d :: rest) = .error cause := by
                simp only [addAll, made]
                rfl
              exact failed ▸ .fails nofun made
          | ok after =>
              obtain ⟨next, deferred⟩ := after
              have unfolded : addAll (rounds + 1) registry (d :: rest) =
                  if deferred.length = (d :: rest).length then .error (.unresolvableParents (deferred.map (·.name)))
                  else addAll rounds next deferred := by
                simp only [addAll, made]
                rfl
              obtain ⟨-, -, fewer, -⟩ := addReady_cases made
              rw [unfolded]
              split
              next all => exact .stuck nofun made all
              next different => exact .round nofun made different (ih (by omega))

theorem Loads.functional {first second : Except SchemaError Registry} (one : Loads registry pending first)
    (two : Loads registry pending second) : first = second := by
  induction one with
  | done registry =>
      cases two with
      | done => rfl
      | fails waiting | stuck waiting | round waiting => exact absurd rfl waiting
  | fails waiting failed =>
      cases two with
      | done => exact absurd rfl waiting
      | fails _ again => exact congrArg _ (Except.error.inj (failed.symm.trans again))
      | stuck _ made | round _ made => cases failed.symm.trans made
  | stuck waiting made all =>
      cases two with
      | done => exact absurd rfl waiting
      | fails _ failed => cases failed.symm.trans made
      | stuck _ again =>
          cases made.symm.trans again
          rfl
      | round _ again fewer =>
          cases made.symm.trans again
          exact absurd all fewer
  | round waiting made fewer _ ih =>
      cases two with
      | done => exact absurd rfl waiting
      | fails _ failed => cases failed.symm.trans made
      | stuck _ again all =>
          cases made.symm.trans again
          exact absurd all fewer
      | round _ again _ rest =>
          cases made.symm.trans again
          exact ih rest

theorem Loads.registers (loads : Loads registry pending (.ok result)) (derived : registry.IsDerived definitions)
    (known : pending ⊆ definitions) : result.IsDerived definitions ∧
      ∀ name, (registry.get? name).isSome = true ∨ name ∈ pending.map (·.name) → (result.get? name).isSome = true := by
  generalize outcome : Except.ok result = read at loads
  induction loads with
  | done registry =>
      cases outcome
      exact ⟨derived, fun name held => held.resolve_right List.not_mem_nil⟩
  | fails => cases outcome
  | stuck => cases outcome
  | round _ made _ _ ih =>
      obtain ⟨after, fewer⟩ := derived.addReady known made
      obtain ⟨stays, each, -⟩ := addReady_cases made
      obtain ⟨isDerived, registered⟩ := ih after (List.Subset.trans fewer known) outcome
      refine ⟨isDerived, fun name held => registered name ?_⟩
      rcases held with known | waits
      · exact .inl (stays name known)
      · obtain ⟨d, member, rfl⟩ := List.mem_map.mp waits
        exact (each d member).symm.imp_right List.mem_map_of_mem

theorem addReady_succeeds (distinct : (definitions.map (·.name)).Nodup)
    (derives : ∀ d ∈ definitions, ∃ e, Derives definitions d e) (derived : registry.IsDerived definitions)
    (known : pending ⊆ definitions) : ∃ after, registry.addReady pending = .ok after := by
  induction pending generalizing registry with
  | nil => exact ⟨_, rfl⟩
  | cons d rest ih =>
      obtain ⟨member, known⟩ := List.cons_subset.mp known
      rw [addReady]
      split
      next ready =>
        obtain ⟨e, isEntity⟩ := derives d member
        have built := derived.build_of_derives distinct ready isEntity
        obtain ⟨after, made⟩ := ih (derived.register member built) known
        exact ⟨after, by rw [built]; exact made⟩
      next =>
        obtain ⟨after, made⟩ := ih derived known
        exact ⟨_, by rw [made]; rfl⟩

/-- Where none of the waiting definitions is ready and all others are registered, those that wait stand for nothing. -/
theorem not_waiting_of_derives (registered : ∀ d ∈ definitions, d ∈ pending ∨ (registry.get? d.name).isSome = true)
    (unready : ∀ d ∈ pending, d.isReady registry = false) (derives : Derives definitions d e) : d ∉ pending := by
  induction derives with
  | root _ rootless _ =>
      intro waits
      have unready := unready _ waits
      rw [isReady, rootless] at unready
      contradiction
  | upon _ inherits parent _ ih =>
      intro waits
      have unready := unready _ waits
      rw [isReady, inherits] at unready
      exact Bool.false_ne_true (unready.symm.trans ((registered _ parent.member).resolve_left ih))

theorem Loads.succeeds {read : Except SchemaError Registry} (distinct : (definitions.map (·.name)).Nodup)
    (derives : ∀ d ∈ definitions, ∃ e, Derives definitions d e) (loads : Loads registry pending read)
    (derived : registry.IsDerived definitions) (known : pending ⊆ definitions)
    (registered : ∀ d ∈ definitions, d ∈ pending ∨ (registry.get? d.name).isSome = true) :
    ∃ result, read = .ok result := by
  induction loads with
  | done registry => exact ⟨registry, rfl⟩
  | fails _ failed =>
      obtain ⟨after, made⟩ := addReady_succeeds distinct derives derived known
      cases failed.symm.trans made
  | stuck waiting made all =>
      obtain ⟨-, -, -, none⟩ := addReady_cases made
      obtain ⟨d, waits⟩ := List.exists_mem_of_ne_nil _ waiting
      obtain ⟨e, isEntity⟩ := derives d (known waits)
      exact absurd waits (not_waiting_of_derives registered (none all) isEntity)
  | round _ made _ _ ih =>
      obtain ⟨after, fewer⟩ := derived.addReady known made
      obtain ⟨stays, each, -⟩ := addReady_cases made
      refine ih after (List.Subset.trans fewer known) fun d member => ?_
      exact (registered d member).elim (each d) fun held => .inr (stays _ held)

end Rounds

structure Holds (registry : Registry) (definitions : List EntityDefinition) : Prop where
  ascending : registry.entities.IsAscending
  entities : ∀ name e, registry.get? name = some e ↔ ∃ d, d.name = name ∧ Derives definitions d e
  complete : ∀ d ∈ definitions, ∃ e, Derives definitions d e

theorem Holds.eq (first : registry.Holds definitions) (second : other.Holds definitions) : registry = other := by
  suffices entries : registry.entities = other.entities by
    cases registry
    cases other
    exact congrArg _ entries
  refine first.ascending.ext second.ascending fun name => ?_
  exact Option.ext fun e => (first.entities name e).trans (second.entities name e).symm

theorem Holds.of_perm {others : List EntityDefinition} (holds : registry.Holds definitions)
    (reordered : definitions.Perm others) : registry.Holds others := by
  have derives {d : EntityDefinition} {e : Entity} : Derives definitions d e ↔ Derives others d e :=
    ⟨(·.of_subset reordered.subset), (·.of_subset reordered.symm.subset)⟩
  refine ⟨holds.ascending, fun name e => ?_, fun d member => ?_⟩
  · simp only [holds.entities, derives]
  · obtain ⟨e, isEntity⟩ := holds.complete d (reordered.mem_iff.mpr member)
    exact ⟨e, derives.mp isEntity⟩

theorem addAll_eq_ok_iff (distinct : (definitions.map (·.name)).Nodup) :
    addAll definitions.length {} definitions = .ok registry ↔ registry.Holds definitions := by
  have loads : Loads {} definitions (addAll definitions.length {} definitions) := addAll_loads (Nat.le_refl _)
  have holds {result : Registry} (read : addAll definitions.length {} definitions = .ok result) :
      result.Holds definitions := by
    rw [read] at loads
    obtain ⟨derived, registered⟩ := loads.registers .empty (List.Subset.refl _)
    have complete : ∀ d ∈ definitions, ∃ e, result.get? d.name = some e ∧ Derives definitions d e := by
      intro d member
      obtain ⟨e, found⟩ := Option.isSome_iff_exists.mp (registered d.name (.inr (List.mem_map_of_mem member)))
      obtain ⟨other, same, derives⟩ := derived.derives _ e found
      cases List.inj_on_of_nodup_map distinct derives.member member same
      exact ⟨e, found, derives⟩
    refine ⟨derived.ascending, fun name e => ⟨derived.derives name e, ?_⟩, fun d member => ?_⟩
    · rintro ⟨d, rfl, derives⟩
      obtain ⟨f, found, again⟩ := complete d derives.member
      exact derives.unique distinct again ▸ found
    · obtain ⟨e, -, derives⟩ := complete d member
      exact ⟨e, derives⟩
  refine ⟨holds, fun expected => ?_⟩
  obtain ⟨result, read⟩ := loads.succeeds distinct expected.complete .empty (List.Subset.refl _) fun d => .inl
  rw [read, (holds read).eq expected]

theorem ofDefinitions_eq_ok : ofDefinitions definitions = .ok registry ↔
    addAll definitions.length {} definitions = .ok registry ∧ registry.validate = .ok () := by
  constructor
  · intro succeeded
    obtain ⟨result, added, succeeded⟩ := bind_eq_ok.mp succeeded
    obtain ⟨⟨⟩, validated, succeeded⟩ := bind_eq_ok.mp succeeded
    cases succeeded
    exact ⟨added, validated⟩
  · rintro ⟨added, validated⟩
    exact bind_eq_ok.mpr ⟨registry, added, bind_eq_ok.mpr ⟨(), validated, rfl⟩⟩

/-- What an entity that is registered has of the definition that it is built from, and of its parent. -/
theorem Holds.built {name : String} (holds : registry.Holds definitions) (found : registry.get? name = some e) :
    ∃ d ∈ definitions, d.name = name ∧ d.parent = e.parent ∧
      ∀ parent, e.parent = some parent → ∃ f declared, registry.get? parent = some f ∧ Inherits e f declared ∧
        ∀ a ∈ declared, a.id.entity = name := by
  obtain ⟨d, rfl, derives⟩ := (holds.entities name e).mp found
  refine ⟨d, derives.member, rfl, ?_⟩
  cases derives with
  | root _ rootless built =>
      have none := build_rootless rootless built
      exact ⟨rootless.trans none.symm, fun parent isParent => by cases none.symm.trans isParent⟩
  | @upon _ p _ f member inherits derives built =>
      obtain ⟨g, declared, same, shares, own⟩ := build_inherits inherits built
      rw [← derives.name, get?_register_self] at same
      cases same
      refine ⟨by rw [inherits, shares.parent, derives.name], fun parent isParent => ?_⟩
      cases shares.parent.symm.trans isParent
      refine ⟨f, declared, (holds.entities _ f).mpr ⟨p, derives.name.symm, derives⟩, shares, own⟩

/-- Whichever order the definitions are given in, reading comes to an end with the same entities, or with none. Where it
succeeds, no lineage has a cycle, and each entity goes on from the attributes and the table of its parent. -/
theorem reading_ignores_order {others : List EntityDefinition} (distinct : (definitions.map (·.name)).Nodup)
    (reordered : definitions.Perm others) :
    (∀ read, Loads {} definitions read ↔ read = addAll definitions.length {} definitions) ∧
      (addAll definitions.length {} definitions).toOption = (addAll others.length {} others).toOption ∧
      (ofDefinitions definitions).toOption = (ofDefinitions others).toOption ∧
      ∀ registry, addAll definitions.length {} definitions = .ok registry →
        (∀ d ∈ definitions, (registry.get? d.name).isSome = true ∧
          ∃ ancestors, IsLineage definitions (d :: ancestors) ∧ ((d :: ancestors).map (·.name)).Nodup) ∧
        ∀ name e, registry.get? name = some e → ∃ d ∈ definitions, d.name = name ∧ d.parent = e.parent ∧
          ∀ parent, e.parent = some parent → ∃ f declared, registry.get? parent = some f ∧ Inherits e f declared ∧
            ∀ a ∈ declared, a.id.entity = name := by
  have reordered_distinct : (others.map (·.name)).Nodup := (reordered.map _).nodup_iff.mp distinct
  have same (registry : Registry) :
      addAll definitions.length {} definitions = .ok registry ↔ addAll others.length {} others = .ok registry := by
    rw [addAll_eq_ok_iff distinct, addAll_eq_ok_iff reordered_distinct]
    exact ⟨(·.of_perm reordered), (·.of_perm reordered.symm)⟩
  refine ⟨fun read => ⟨fun loads => loads.functional (addAll_loads (Nat.le_refl _)), ?_⟩, toOption_congr same,
    toOption_congr fun registry => ?_, fun registry read => ?_⟩
  · rintro rfl
    exact addAll_loads (Nat.le_refl _)
  · rw [ofDefinitions_eq_ok, ofDefinitions_eq_ok, same]
  · have holds := (addAll_eq_ok_iff distinct).mp read
    refine ⟨fun d member => ?_, fun name e found => holds.built found⟩
    obtain ⟨e, derives⟩ := holds.complete d member
    obtain ⟨ancestors, lineage⟩ := derives.exists_lineage
    exact ⟨Option.isSome_of_eq_some ((holds.entities _ e).mpr ⟨d, rfl, derives⟩), ancestors, lineage,
      lineage.names_nodup distinct⟩

end Registry

namespace Fleet

def column (property : String) (primaryKey : Bool) : AttributeDefinition :=
  ⟨property, some property, none, .varchar, primaryKey, !primaryKey, false, none⟩

def trucks : List EntityDefinition := [
  ⟨"Truck", none, some "Car", none, none, [column "load" false]⟩,
  ⟨"Car", none, some "Vehicle", none, none, [column "seats" false]⟩,
  ⟨"Vehicle", some "vehicle", none, none, none, [column "plate" true]⟩]

/-- A truck has the attributes of a vehicle and of a car in front of its own, and no table of its own. -/
theorem trucks_are_vehicles : (trucks.map (·.name)).Nodup ∧ trucks.Perm trucks.reverse ∧
    ∃ registry truck car declared, Registry.addAll 3 {} trucks = .ok registry ∧
      registry.get? "Truck" = some truck ∧ registry.get? "Car" = some car ∧ Inherits truck car declared ∧
      truck.table = "vehicle" ∧
      truck.attributes.map (·.id) = [⟨"Vehicle", "plate"⟩, ⟨"Car", "seats"⟩, ⟨"Truck", "load"⟩] ∧
      (Registry.addAll 3 {} trucks.reverse).toOption = some registry := by
  have distinct : (trucks.map (·.name)).Nodup := by decide
  have reordered : trucks.Perm trucks.reverse := (List.reverse_perm _).symm
  obtain ⟨-, same, -, each⟩ := Registry.reading_ignores_order distinct reordered
  have succeeds : (Registry.addAll 3 {} trucks).toOption.any (fun registry =>
      (registry.get? "Truck").any fun e => e.table == "vehicle" && e.parent == some "Car" &&
        e.attributes.map (·.id) == [⟨"Vehicle", "plate"⟩, ⟨"Car", "seats"⟩, ⟨"Truck", "load"⟩]) = true := by
    decide +kernel
  obtain ⟨registry, read, known⟩ := (Option.any_eq_true _ _).mp succeeds
  obtain ⟨truck, found, known⟩ := (Option.any_eq_true _ _).mp known
  simp only [Bool.and_eq_true, beq_iff_eq] at known
  obtain ⟨⟨table, isParent⟩, ids⟩ := known
  have isRead := eq_ok_of_toOption read
  obtain ⟨-, built⟩ := each registry isRead
  obtain ⟨-, -, -, -, inherits⟩ := built "Truck" truck found
  obtain ⟨car, declared, isCar, shares, -⟩ := inherits "Car" isParent
  exact ⟨distinct, reordered, registry, truck, car, declared, isRead, found, isCar, shares, table, ids,
    same.symm.trans read⟩

end Fleet

end ViewEngine
