import ViewEngine.Proofs.Compilation.Paths
import ViewEngine.Proofs.Joining.Chains
import ViewEngine.Proofs.Schema.Registered
import ViewEngine.View.Compile

/-!
Join plans in the making: each entry is reached from the root along the properties of its path, and no
path has two entries. A node of the view is therefore known by its path as well as by its table.
-/

namespace ViewEngine

open Compile

namespace Compile

/-- The first of the entities that has a property, and the attribute that it is there. -/
def declarer? (entities : List Entity) (property : String) : Option (Entity × Attribute) :=
  entities.findSome? fun e => (e.property? property).map fun a => (e, a)

/-- No property is an association of one entity and another attribute of another one. -/
def AreAgreed (entities : List Entity) : Prop :=
  ∀ e ∈ entities, ∀ other ∈ entities, ∀ property a b, e.property? property = some a →
    other.property? property = some b → a.isAssociation = true → a.id = b.id

variable {entities : List Entity} {property : String} {item : FilterItem} {e : Entity} {a : Attribute}

theorem declarer?_eq_some (declared : declarer? entities property = some (e, a)) :
    e ∈ entities ∧ e.property? property = some a := by
  obtain ⟨other, member, found⟩ := List.exists_of_findSome?_eq_some declared
  obtain ⟨b, held, same⟩ := Option.map_eq_some_iff.mp found
  cases same
  exact ⟨member, held⟩

theorem declarer?_property (declared : declarer? entities property = some (e, a)) : a.property = property := by
  simpa using List.find?_some (declarer?_eq_some declared).2

theorem declarer?_mem (declared : declarer? entities property = some (e, a)) : a ∈ e.attributes :=
  List.mem_of_find?_eq_some (declarer?_eq_some declared).2

theorem areAgreed_singleton (e : Entity) : AreAgreed [e] := by
  intro e inside other there property a b found again _
  cases List.mem_singleton.mp inside
  cases List.mem_singleton.mp there
  cases found.symm.trans again
  rfl

/-- What a node asks for is a property of one of the entities. -/
theorem resolve?_eq_some (found : resolve? item entities = some (e, a)) :
    e ∈ entities ∧ e.property? item.subject.property = some a ∧ a.id = item.subject.id := by
  obtain ⟨other, member, found⟩ := List.exists_of_findSome?_eq_some found
  obtain ⟨b, asked, same⟩ := Option.map_eq_some_iff.mp found
  cases same
  obtain ⟨held, sameId⟩ := Option.filter_eq_some_iff.mp asked
  exact ⟨member, held, beq_iff_eq.mp sameId⟩

/-- An association that a node asks for is that of the first entity that has the property. -/
theorem declarer?_of_resolve? (agreed : AreAgreed entities) (found : resolve? item entities = some (e, a))
    (isAssociation : a.isAssociation = true) : declarer? entities item.subject.property = some (e, a) := by
  obtain ⟨member, held, sameId⟩ := resolve?_eq_some found
  obtain ⟨before, other, after, rfl, found, passed⟩ := List.findSome?_eq_some_iff.mp found
  obtain ⟨b, -, same⟩ := Option.map_eq_some_iff.mp found
  cases same
  refine List.findSome?_eq_some_iff.mpr ⟨before, e, after, rfl, by rw [held]; rfl, fun x inside => ?_⟩
  -- An entity that is passed over does not have the property: it would be the same attribute there.
  cases there : x.property? item.subject.property with
  | none => rfl
  | some b =>
      have equal := agreed e member x (List.mem_append_left _ inside) _ a b held there isAssociation
      have skipped := passed x inside
      rw [there, Option.filter_some, if_pos (by rw [← equal, sameId, beq_self_eq_true])] at skipped
      contradiction

end Compile

/-- Names and attributes with which a view can be compiled: each association is a step of a path, and the
roots agree on what associations are. -/
structure Compile.Setting.IsAddressable (setting : Setting) (roots : List Entity) : Prop where
  steps : ∀ e ∈ roots ++ setting.registry.all, ∀ a ∈ e.attributes, a.isAssociation = true → IsStep a.property
  agreed : AreAgreed roots

/-- An entry joins the target of an association that its source has. -/
structure JoinEntry.IsBuilt (setting : Setting) (j : JoinEntry) : Prop where
  found : setting.registry.targetOf j.subject = .ok j.entity
  join : j.join = ⟨.leftOuter, ⟨joinedTable j.subject j.entity, some j.table⟩,
    joinCondition setting j.subject j.entity j.source j.table⟩
  earlier : j.source < j.table

namespace JoinPlan

/-- The entries that lead from the root to a table, with the entities and the path of the node there. -/
inductive Leads (plan : JoinPlan) (roots : List Entity) : List JoinEntry → List Entity → Nat → String → Prop
  | root : Leads plan roots [] roots 0 ""
  | join {way : List JoinEntry} {es : List Entity} {table : Nat} {path : String} {j : JoinEntry}
      (leads : Leads plan roots way es table path) (member : j ∈ plan.entries) (source : j.source = table)
      (declared : declarer? es j.subject.property = some (j.sourceEntity, j.subject))
      (named : j.path = Path.child path j.subject.property) :
      Leads plan roots (way ++ [j]) [j.entity] j.table j.path

structure IsBuilt (setting : Setting) (roots : List Entity) (plan : JoinPlan) : Prop where
  numbered : ∀ i j, plan.entries[i]? = some j → j.table = i + 1
  entries : ∀ j ∈ plan.entries, j.IsBuilt setting
  reached : ∀ j ∈ plan.entries, ∃ way es above, plan.Leads roots way es j.source above ∧
    declarer? es j.subject.property = some (j.sourceEntity, j.subject) ∧
    j.path = Path.child above j.subject.property
  paths : (plan.entries.map (·.path)).Nodup

variable {setting : Setting} {roots es others : List Entity} {plan further : JoinPlan}
  {way another : List JoinEntry} {table number : Nat} {path above : String} {j k : JoinEntry} {e : Entity}
  {a : Attribute}

theorem Leads.mono (leads : plan.Leads roots way es table path)
    (grown : ∀ j ∈ plan.entries, j ∈ further.entries) : further.Leads roots way es table path := by
  induction leads with
  | root => exact .root
  | join _ member source declared named ih => exact .join ih (grown _ member) source declared named

theorem Leads.members (leads : plan.Leads roots way es table path) : ∀ j ∈ way, j ∈ plan.entries := by
  induction leads with
  | root => simp
  | join _ member _ _ _ ih =>
      intro k inside
      rcases List.mem_append.mp inside with old | last
      · exact ih k old
      · rw [List.mem_singleton.mp last]
        exact member

namespace IsBuilt

theorem eq_of_table (built : plan.IsBuilt setting roots) (left : j ∈ plan.entries)
    (right : k ∈ plan.entries) (same : j.table = k.table) : j = k :=
  IsSequential.eq_of_table built.numbered left right same

theorem eq_of_path (built : plan.IsBuilt setting roots) (left : j ∈ plan.entries)
    (right : k ∈ plan.entries) (same : j.path = k.path) : j = k :=
  List.inj_on_of_nodup_map built.paths left right same

theorem table_ne_zero (built : plan.IsBuilt setting roots) (member : j ∈ plan.entries) : j.table ≠ 0 := by
  have earlier := (built.entries j member).earlier
  omega

end IsBuilt

theorem Leads.known (built : plan.IsBuilt setting roots) (leads : plan.Leads roots way es table path) :
    ∀ e ∈ es, e ∈ roots ++ setting.registry.all := by
  cases leads with
  | root => exact fun e member => List.mem_append_left _ member
  | join _ member =>
      intro e single
      rw [List.mem_singleton.mp single]
      exact List.mem_append_right _ (Registry.IsRegistered.mem_of_targetOf (built.entries _ member).found)

theorem Leads.agreed (agreed : AreAgreed roots) (leads : plan.Leads roots way es table path) : AreAgreed es := by
  cases leads with
  | root => exact agreed
  | join => exact areAgreed_singleton _

theorem Leads.isStep (addressable : setting.IsAddressable roots) (built : plan.IsBuilt setting roots)
    (leads : plan.Leads roots way es table path) {property : String} (declared : declarer? es property = some (e, a))
    {target : Entity} (found : setting.registry.targetOf a = .ok target) : IsStep a.property :=
  addressable.steps e (leads.known built e (declarer?_eq_some declared).1) a (declarer?_mem declared)
    (Registry.isAssociation_of_targetOf found)

theorem Leads.eq_of_table (built : plan.IsBuilt setting roots) (first : plan.Leads roots way es table path)
    (second : plan.Leads roots another others table above) : way = another ∧ es = others ∧ path = above := by
  induction first generalizing another others above with
  | root =>
      generalize zero : (0 : Nat) = table at second
      cases second with
      | root => exact ⟨rfl, rfl, rfl⟩
      | join _ member => exact absurd zero.symm (built.table_ne_zero member)
  | @join way es table path j leads member source declared named ih =>
      generalize same : j.table = table at second
      cases second with
      | root => exact absurd same (built.table_ne_zero member)
      | @join rest entities number start k leads' member' source' declared' named' =>
          obtain rfl := built.eq_of_table member member' same
          rw [← source', source] at leads'
          obtain ⟨rfl, rfl, rfl⟩ := ih leads'
          exact ⟨rfl, rfl, rfl⟩

theorem Leads.eq_of_path (addressable : setting.IsAddressable roots) (built : plan.IsBuilt setting roots)
    (first : plan.Leads roots way es table path) (second : plan.Leads roots another others number path) :
    way = another ∧ es = others ∧ table = number := by
  have nonempty {j : JoinEntry} {es : List Entity} {way : List JoinEntry} {table : Nat} {above : String}
      (leads : plan.Leads roots way es table above) (member : j ∈ plan.entries)
      (declared : declarer? es j.subject.property = some (j.sourceEntity, j.subject))
      (named : j.path = Path.child above j.subject.property) : j.path ≠ "" := by
    rw [named]
    exact Path.child_ne_empty (leads.isStep addressable built declared (built.entries j member).found)
  have same : table = number := by
    generalize equal : path = again at second
    cases first with
    | root =>
        cases second with
        | root => rfl
        | join leads member _ declared named => exact absurd equal.symm (nonempty leads member declared named)
    | join leads member _ declared named =>
        cases second with
        | root => exact absurd equal (nonempty leads member declared named)
        | join _ member' => rw [built.eq_of_path member member' equal]
  subst same
  obtain ⟨rfl, rfl, -⟩ := first.eq_of_table built second
  exact ⟨rfl, rfl, rfl⟩

/-- The end of a way is the root, or what its last entry joins. -/
theorem Leads.last (leads : plan.Leads roots way es table path) :
    (table = 0 ∧ es = roots) ∨ ∃ k ∈ way, k.table = table ∧ es = [k.entity] := by
  cases leads with
  | root => exact .inl ⟨rfl, rfl⟩
  | @join way es table path j => exact .inr ⟨j, by simp, rfl, rfl⟩

theorem Leads.lt_next (built : plan.IsBuilt setting roots) (leads : plan.Leads roots way es table path) {next : Nat}
    (follows : plan.IsNext next) : table < next := by
  rw [follows]
  rcases leads.last with ⟨rfl, -⟩ | ⟨k, inside, rfl, -⟩
  · exact Nat.succ_pos _
  · obtain ⟨i, there⟩ := List.getElem?_of_mem (leads.members k inside)
    obtain ⟨bound, -⟩ := List.getElem?_eq_some_iff.mp there
    rw [built.numbered i k there]
    omega

theorem Leads.of_start (leads : plan.Leads roots way es table path) {inner : List JoinEntry}
    (start : inner <+: way) : ∃ entities number above, plan.Leads roots inner entities number above := by
  induction leads with
  | root =>
      cases List.prefix_nil.mp start
      exact ⟨_, _, _, .root⟩
  | join leads member source declared named ih =>
      rcases List.prefix_concat_iff.mp start with rfl | earlier
      · exact ⟨_, _, _, leads.join member source declared named⟩
      · exact ih earlier

/-- A way is what is found by going back from its end. -/
theorem Leads.traces (built : plan.IsBuilt setting roots) (leads : plan.Leads roots way es table path) :
    plan.Traces table way := by
  induction leads with
  | root => exact .stop (ofTable?_eq_none_iff.mpr fun j member => built.table_ne_zero member)
  | @join way es table path j leads member source declared named ih =>
      refine .back ?_ (source ▸ ih)
      cases found : plan.ofTable? j.table with
      | none => exact absurd rfl (ofTable?_eq_none_iff.mp found j member)
      | some k =>
          obtain ⟨other, same⟩ := ofTable?_eq_some found
          rw [built.eq_of_table other member same]

/-- The joins that lead to a table are those of the way to it. -/
theorem chainTo_eq (built : plan.IsBuilt setting roots) (leads : plan.Leads roots way es table path) :
    plan.chainTo table = way.map (·.join) :=
  (leads.traces built).chainTo (fun j member => (built.entries j member).earlier) built.numbered

theorem isBuilt_empty : (⟨[]⟩ : JoinPlan).IsBuilt setting roots where
  numbered i j found := by simp at found
  entries := by simp
  reached := by simp
  paths := by simp

structure Joins (plan : JoinPlan) (e : Entity) (a : Attribute) (table : Nat) (above : String)
    (target : Entity) (j : JoinEntry) : Prop where
  member : j ∈ plan.entries
  subject : j.subject = a
  source : j.source = table
  sourceEntity : j.sourceEntity = e
  entity : j.entity = target
  path : j.path = Path.child above a.property

theorem Joins.leads {target : Entity} (joins : plan.Joins e a table above target j)
    (leads : plan.Leads roots way es table above) (declared : declarer? es a.property = some (e, a)) :
    plan.Leads roots (way ++ [j]) [target] j.table (Path.child above a.property) := by
  have next := leads.join joins.member joins.source
    (by rw [joins.subject, joins.sourceEntity]; exact declared) (by rw [joins.path, joins.subject])
  rwa [joins.entity, joins.path] at next

/-- The entry at the path of an association is that of the association. -/
theorem joins_of_path (addressable : setting.IsAddressable roots) (built : plan.IsBuilt setting roots)
    (leads : plan.Leads roots way es table above) (declared : declarer? es a.property = some (e, a))
    {target : Entity} (found : setting.registry.targetOf a = .ok target) (member : j ∈ plan.entries)
    (path : j.path = Path.child above a.property) : plan.Joins e a table above target j := by
  obtain ⟨others, entities, before, reached, declares, named⟩ := built.reached j member
  obtain ⟨rfl, property⟩ := Path.child_inj
    (reached.isStep addressable built declares (built.entries j member).found)
    (leads.isStep addressable built declared found) (named.symm.trans path)
  obtain ⟨-, rfl, source⟩ := reached.eq_of_path addressable built leads
  rw [property, declared] at declares
  cases declares
  exact ⟨member, rfl, source, rfl, Except.ok.inj ((built.entries j member).found.symm.trans found), path⟩

theorem isBuilt_add (built : plan.IsBuilt setting roots) (leads : plan.Leads roots way es j.source above)
    (declared : declarer? es j.subject.property = some (j.sourceEntity, j.subject))
    (path : j.path = Path.child above j.subject.property) (entry : j.IsBuilt setting)
    (next : plan.IsNext j.table) (fresh : ∀ k ∈ plan.entries, k.path ≠ j.path) :
    (plan.add j).IsBuilt setting roots := by
  have grown : ∀ k ∈ plan.entries, k ∈ (plan.add j).entries := fun k inside => List.mem_append_left _ inside
  constructor
  · exact IsSequential.add built.numbered next
  · intro k inside
    rcases List.mem_append.mp inside with old | new
    · exact built.entries k old
    · rw [List.mem_singleton.mp new]
      exact entry
  · intro k inside
    rcases List.mem_append.mp inside with old | new
    · obtain ⟨way, es, above, reached, declares, named⟩ := built.reached k old
      exact ⟨way, es, above, reached.mono grown, declares, named⟩
    · rw [List.mem_singleton.mp new]
      exact ⟨way, es, above, leads.mono grown, declared, path⟩
  · rw [add, List.map_append, List.nodup_append]
    refine ⟨built.paths, List.nodup_singleton _, ?_⟩
    intro path inside other new equal
    obtain ⟨k, old, rfl⟩ := List.mem_map.mp inside
    rw [List.map_singleton, List.mem_singleton] at new
    exact fresh k old (equal.trans new)

end JoinPlan

namespace Compile

open JoinPlan

variable {setting : Setting} {roots es : List Entity} {way : List JoinEntry} {table joined : Nat}
  {above : String} {e : Entity} {a : Attribute} {state after : State}

/-- A join that is new comes last in the plan; one at a path that there is already is used again. -/
theorem join_eq (addressable : setting.IsAddressable roots) (built : state.plan.IsBuilt setting roots)
    (next : state.plan.IsNext state.nextTable) (leads : state.plan.Leads roots way es table above)
    (declared : declarer? es a.property = some (e, a)) {target : Entity}
    (found : setting.registry.targetOf a = .ok target)
    (succeeded : state.join setting (Path.child above a.property) a e table = .ok (after, joined)) :
    ∃ j plan number, after = { state.addJoin j.join with plan := plan, nextTable := number } ∧ joined = j.table ∧
      plan.IsBuilt setting roots ∧ plan.IsNext number ∧ state.plan.entries <+: plan.entries ∧
      plan.Joins e a table above target j := by
  cases present : state.plan.find? (Path.child above a.property) a.id with
  | some j =>
      have inside := List.mem_of_find?_eq_some present
      have holds := List.find?_some present
      simp only [Bool.and_eq_true, beq_iff_eq] at holds
      rw [State.join, present] at succeeded
      cases succeeded
      exact ⟨j, state.plan, state.nextTable, rfl, rfl, built, next, List.prefix_refl _,
        joins_of_path addressable built leads declared found inside holds.1⟩
  | none =>
      have fresh {k : JoinEntry} (inside : k ∈ state.plan.entries) : k.path ≠ Path.child above a.property := by
        intro path
        have subject := (joins_of_path addressable built leads declared found inside path).subject
        have absent := List.find?_eq_none.mp present k inside
        simp [path, subject] at absent
      rw [State.join, present] at succeeded
      simp only [found] at succeeded
      cases succeeded
      let j : JoinEntry :=
        { path := Path.child above a.property, subject := a, sourceEntity := e, entity := target,
          source := table, table := state.nextTable
          join := ⟨.leftOuter, ⟨joinedTable a target, some state.nextTable⟩,
            joinCondition setting a target table state.nextTable⟩ }
      have member : j ∈ (state.plan.add j).entries := List.mem_append_right _ (List.mem_singleton_self j)
      have entry : j.IsBuilt setting := ⟨found, rfl, leads.lt_next built next⟩
      exact ⟨j, state.plan.add j, state.nextTable + 1, rfl, rfl,
        isBuilt_add built leads declared rfl entry next fun k inside => fresh inside, next.add,
        List.prefix_append _ _, ⟨member, rfl, rfl, rfl, rfl, rfl⟩⟩

end Compile

end ViewEngine
