import ViewEngine.Proofs.Compilation.Scoping
import ViewEngine.Proofs.Requests.Parts

/-!
Nothing that is asked for is left out. Each column that a path ends with is fetched once, by the statement of the
innermost collection on the way to it, and each predicate is tested in that statement and in no other one.
-/

namespace ViewEngine

open Sql Compile

/-- What a view makes of the requests that its tree was built by. Under the path of each column that was asked for, one
column is fetched, in the part of the innermost collection on the way. It is the column asked for, taken from where the
rows at the end of the way are joined, if the path leads to no other column. A part is restricted by the predicates of
the requests that belong to it, and by what holds of all rows of the root. -/
structure CompiledView.Answers (v : CompiledView) (registry : Registry) (t : FilterTree) (requests : List Request)
    (pointInTime : Option Timestamp) : Prop where
  apart : (v.parts.map (·.path)).Nodup
  aligned : ∀ x ∈ v.parts, x.IsAligned
  fetched : ∀ q ∈ requests, ∃ way a, t.resolve registry q.path = .ok (way, a) ∧
    (a.isAssociation = false → ∃ x ∈ v.parts, x.path = Path.along (innermost way) ∧ x.Joins v.joinPlan way ∧
      ∃ p, x.projections.filter (·.binding.label == q.path) = [p] ∧
        (registry.LeadsOnlyTo t.root q.path way a → ∃ column, a.column = some column ∧
          p = ⟨.columnOf (v.joinPlan.tableAlong way) column, ⟨q.path, some a, .value⟩⟩))
  tested : ∀ x ∈ v.parts, x.statement.conditions.Perm
    (((requests.filterMap (t.test? registry)).filter fun test => Path.along (innermost test.way) == x.path).map
      (·.condition v.joinPlan) ++ t.root.restrictions pointInTime)

variable {registry : Registry} {t : FilterTree} {requests : List Request} {settings : ViewSettings}
  {dialect : Dialect} {pointInTime : Option Timestamp} {page : Page} {v : CompiledView}

structure Part.Serves (setting : Setting) (r : Root) (plan : JoinPlan) (x : Part) (b : Branch) : Prop where
  path : x.path = Path.along b.way
  fetches : x.Fetches setting r plan b
  conditions : x.statement.conditions =
    (b.standings.filterMap (·.entry.test?)).map (·.condition plan) ++ r.root.restrictions setting.pointInTime

theorem serves_of_answers {setting : Setting} {r : Root} {plan : JoinPlan} {s : SubSelect} {b : Branch}
    (registered : setting.registry.IsRegistered) (known : r.root ∈ setting.registry.all) (single : r.others = [])
    (rooted : b.IsRooted setting.registry r.root) (collection : b.way ≠ [])
    (answers : r.Answers setting plan s b.collected) (serves : r.Serves setting plan s b.collected) :
    s.part.Serves setting r plan b := by
  obtain ⟨other, ⟨-, e, leads, -⟩, -, same, fetches⟩ := answers
  have way : other.way = b.way := by
    obtain ⟨-, e', follows, -⟩ := rooted
    exact (leads.eq_of_along registered.built known follows (congrArg Collected.path same)).1
  have nodes : other.nodes = b.nodes := congrArg Collected.nodes same
  have sameBranch : other = b := by
    cases other
    cases b
    cases way
    cases nodes
    rfl
  refine ⟨serves.path, sameBranch ▸ fetches, rooted.conditions registered known single ?_⟩
  rw [← rooted.reached registered known collection]
  exact serves.statement

theorem collections_serve (registered : registry.IsRegistered) (isOf : t.IsOf registry requests)
    (settings : ViewSettings) {plan : JoinPlan} {found : List SubSelect}
    (answers : List.Forall₂ ((Root.ofTree settings t).Answers ⟨registry, pointInTime⟩ plan) found
      (t.branches.tail.map (·.collected)))
    (serves : List.Forall₂ ((Root.ofTree settings t).Serves ⟨registry, pointInTime⟩ plan) found
      (t.branches.tail.map (·.collected))) :
    List.Forall₂ (Part.Serves ⟨registry, pointInTime⟩ (.ofTree settings t) plan) (found.map (·.part))
      t.branches.tail := by
  have both := List.forall₂_map_right_iff.mp (List.Forall₂.mp (fun _ _ => And.intro) answers serves)
  rw [List.forall₂_map_left_iff]
  rw [List.forall₂_iff_zip] at both ⊢
  refine ⟨both.1, fun {s b} pair => ?_⟩
  have split : t.branches = ⟨[], t.nodes⟩ :: t.branches.tail := rfl
  have inside : b ∈ t.branches.tail := (List.of_mem_zip pair).2
  have apart := isOf.nodup_ways
  rw [split, List.map_cons, List.nodup_cons] at apart
  have collection : b.way ≠ [] := fun root => apart.1 (List.mem_map.mpr ⟨b, inside, root⟩)
  obtain ⟨answers, serves⟩ := both.2 pair
  exact serves_of_answers registered isOf.known isOf.single (isOf.rooted b (split ▸ List.mem_cons_of_mem _ inside))
    collection answers serves

theorem parts_serve (registered : registry.IsRegistered) (isOf : t.IsOf registry requests) (settings : ViewSettings)
    (dialect : Dialect) (pointInTime : Option Timestamp) (page : Page) :
    ∃ v, compile registry settings dialect pointInTime page t = .ok v ∧
      List.Forall₂ (Part.Serves ⟨registry, pointInTime⟩ (.ofTree settings t) v.joinPlan) v.parts t.branches := by
  let setting : Setting := ⟨registry, pointInTime⟩
  let r : Root := .ofTree settings t
  obtain ⟨last, primary, resolved, follows, putDown, first⟩ := primary_fetches setting r registered rfl isOf
  obtain ⟨found, plan, made, grown, answers⟩ :=
    rounds_fetch setting (FilterNode.depthOfAll t.nodes + 1) registered isOf.known resolved follows putDown
  obtain ⟨v, compiled, rfl, rfl, columns, statement⟩ : ∃ v,
      compile registry settings dialect pointInTime page t = .ok v ∧ v.joinPlan = plan ∧ v.subSelects = found ∧
      v.columns = last.scope.columns ∧ v.primary =
        { last.scope.finish with offset := page.offset, limit := page.limit.or settings.defaultLimit } := by
    unfold compile
    simp only [setting, r, Root.ofTree] at primary made
    simp only [bind, Except.bind, primary, made]
    exact ⟨_, rfl, rfl, rfl, rfl, rfl⟩
  have collected := isOf.collectedFrom_eq registered v.joinPlan
  rw [collectedFrom, ← (primary_base primary grown).2] at collected
  rw [collected] at answers
  obtain ⟨⟨begun, offset, limit, isPrimary, writes⟩, serves⟩ := compile_writes compiled
  rw [isOf.collectedFrom_eq registered] at serves
  have rooted := isOf.rooted
  have split : t.branches = ⟨[], t.nodes⟩ :: t.branches.tail := rfl
  refine ⟨v, compiled, ?_⟩
  rw [CompiledView.parts, split]
  refine .cons ⟨rfl, ?_, ?_⟩ ?_
  · rw [columns, statement]
    exact (first _ _).mono grown
  · rw [isOf.reachedFrom_eq registered] at writes
    have conditions :=
      (rooted ⟨[], t.nodes⟩ (split ▸ List.mem_cons_self ..)).conditions registered isOf.known isOf.single writes
    rw [isPrimary]
    exact conditions
  · exact collections_serve registered isOf settings answers serves

section Parts

variable {setting : Setting} {r : Root} {plan : JoinPlan} {x : Part} {b : Branch} {way : List Attribute} {a : Attribute}
  {path : String}

theorem filter_label {projections : List Projection} {p : Projection}
    (labels : (projections.map (·.binding.label)).Nodup) (member : p ∈ projections) :
    projections.filter (·.binding.label == p.binding.label) = [p] := by
  obtain ⟨before, rest, rfl⟩ := List.append_of_mem member
  rw [List.map_append, List.map_cons, List.nodup_middle, ← List.map_append, List.nodup_cons] at labels
  have others {qs : List Projection} (among : ∀ q ∈ qs, q ∈ before ++ rest) :
      qs.filter (·.binding.label == p.binding.label) = [] := by
    rw [List.filter_eq_nil_iff]
    exact fun q inside same => labels.1 (List.mem_map.mpr ⟨q, among q inside, beq_iff_eq.mp same⟩)
  rw [List.filter_append, List.filter_cons, if_pos (beq_self_eq_true _),
    others fun q => List.mem_append_left _, others fun q => List.mem_append_right _, List.nil_append]

/-- What is fetched under the path of a column is the column that the path leads to, where it leads to one only. -/
theorem Part.Fetches.eq_of_leadsOnlyTo (fetches : x.Fetches setting r plan b)
    (only : setting.registry.LeadsOnlyTo r.root path way a) {column : String} (stored : a.column = some column)
    (apart : path ≠ r.keyAlias) {p : Projection} (member : p ∈ x.projections) (label : p.binding.label = path) :
    p = ⟨.columnOf (plan.tableAlong way) column, ⟨path, some a, .value⟩⟩ := by
  cases fetches.placed p member with
  | key => exact absurd label.symm apart
  | @column other e table above name b stands among held =>
      have leads : Path.along (other ++ [b]) = path := by
        rw [stands.follows.along_concat, stands.path]
        exact label
      obtain ⟨rfl, rfl⟩ := only other e b stands.follows among (by rw [held]; rfl) leads
      cases held.symm.trans stored
      rw [stands.table]
      exact congrArg (fun label => (⟨.columnOf table column, ⟨label, some b, .value⟩⟩ : Projection)) label

end Parts

theorem answers_of_serves (registered : registry.IsRegistered) (isOf : t.IsOf registry requests)
    (apart : ∀ q ∈ requests, q.path ≠ settings.rootKeyAlias)
    (serve : List.Forall₂ (Part.Serves ⟨registry, pointInTime⟩ (.ofTree settings t) v.joinPlan) v.parts t.branches) :
    v.Answers registry t requests pointInTime := by
  have rooted := isOf.rooted
  refine ⟨?_, fun x member => ?_, fun q among => ?_, fun x member => ?_⟩
  · have paths : v.parts.map (·.path) = (t.branches.map (·.collected)).map (·.path) := by
      rw [← List.forall₂_eq_eq_eq, List.map_map, List.forall₂_map_left_iff, List.forall₂_map_right_iff]
      exact serve.imp fun _ _ serves => serves.path
    rw [paths]
    exact Branch.nodup_paths registered.built isOf.known rooted isOf.nodup_ways
  · obtain ⟨b, -, serves⟩ := exists_of_mem_left serve member
    exact serves.fetches.aligned
  · obtain ⟨way, a, found, item, subject, there⟩ := isOf.asked q among
    obtain ⟨last, follows, member, -, path⟩ := FilterTree.follows_of_resolve isOf.single found
    refine ⟨way, a, found, fun isColumn => ?_⟩
    obtain ⟨b, inside, isInnermost, y, standing, entry⟩ := isOf.exists_standing there
    obtain ⟨x, isPart, serves⟩ := exists_of_mem_left serve.flip inside
    have built := registered.built last (follows.known isOf.known)
    obtain ⟨column, stored⟩ := Option.isSome_iff_exists.mp (built.isStored member isColumn)
    have isWay : y.way = way := congrArg Entry.way entry
    have isSubject : y.node.item.subject = a := (congrArg (·.item.subject) entry).trans subject
    obtain ⟨labelled, joins⟩ := serves.fetches.reads y standing (isSubject ▸ isColumn)
    rw [isWay, isSubject] at labelled
    obtain ⟨p, isProjection, label⟩ := labelled
    have label : p.binding.label = q.path := label.trans path
    refine ⟨x, isPart, serves.path.trans (congrArg _ isInnermost), isWay ▸ joins, p, ?_, fun only => ?_⟩
    · rw [← label]
      exact filter_label serves.fetches.labels isProjection
    · exact ⟨column, stored, serves.fetches.eq_of_leadsOnlyTo only stored (apart q among) isProjection label⟩
  · obtain ⟨b, inside, serves⟩ := exists_of_mem_left serve member
    obtain ⟨-, e, leads, -⟩ := rooted b inside
    rw [serves.conditions]
    refine List.Perm.append_right _ (List.Perm.map _ ?_)
    refine (isOf.tests_perm inside).trans ((isOf.tests.filter _).trans (.of_eq (List.filter_congr fun test held => ?_)))
    obtain ⟨q, -, resolved⟩ := List.mem_filterMap.mp held
    unfold FilterTree.test? at resolved
    split at resolved
    next found isFound =>
      obtain ⟨p, -, rfl⟩ := Option.map_eq_some_iff.mp resolved
      obtain ⟨last, follows, -⟩ := FilterTree.follows_of_resolve isOf.single isFound
      obtain ⟨middle, start⟩ := follows.innermost
      -- The collection is the same where its path is.
      rw [serves.path, Bool.eq_iff_iff, decide_eq_true_iff, beq_iff_eq]
      exact ⟨congrArg Path.along, fun same => (start.eq_of_along registered.built isOf.known leads same).1⟩
    next => contradiction

/-- Every request that is made of one root is answered, whatever the order in which paths share nodes of the tree: the
tree can be compiled, and nothing that was asked for is missing in the view. -/
theorem requests_are_answered {definitions : List EntityDefinition} {registry : Registry}
    (accepted : Registry.ofDefinitions definitions = .ok registry) {name : String} {root t : FilterTree}
    (rooted : FilterTree.ofNames registry [name] = .ok root) {requests : List Request}
    (requested : root.request registry requests = .ok t) (settings : ViewSettings)
    (apart : ∀ q ∈ requests, q.path ≠ settings.rootKeyAlias) (dialect : Dialect) (pointInTime : Option Timestamp)
    (page : Page) :
    ∃ v, compile registry settings dialect pointInTime page t = .ok v ∧
      v.Answers registry t requests pointInTime := by
  have registered := Registry.isRegistered_of_definitions accepted
  have isOf := (FilterTree.isOf_empty rooted).request registered requested
  obtain ⟨v, compiled, serve⟩ := parts_serve registered isOf settings dialect pointInTime page
  exact ⟨v, compiled, answers_of_serves registered isOf apart serve⟩

namespace Outline

def coded (code : String) : Outline where
  definitions := [
    entity "Order" "orders" [column "id" "id" .bigInt true, column "payer" "payer_id" .bigInt false,
      column code "code" .varchar false, association "customer" "Customer" "customer" "payer_id" "id" false,
      association "lines" "Line" "line" "code" "order_code" true],
    entity "Line" "line" [column "id" "id" .bigInt true, column "order" "order_code" .varchar false,
      column "amount" "amount" .bigInt false],
    entity "Customer" "customer" [column "id" "id" .bigInt true, column "name" "name" .varchar false]]
  roots := ["Order"]
  requests := [⟨"lines.amount", some ⟨.greater, .int 1, none⟩⟩, ⟨"customer.name", none⟩,
    ⟨"lines.amount", some ⟨.less, .int 9, none⟩⟩, ⟨"customer.name", some ⟨.notEquals, .text "a", none⟩⟩]

set_option maxRecDepth 100000 in
/-- Two predicates on the lines and one on the customers, each in the statement that it belongs to. Every path leads to
one column. -/
theorem orders_are_answered : ∃ registry root t v,
    Registry.ofDefinitions (coded "code").definitions = .ok registry ∧
    FilterTree.ofNames registry ["Order"] = .ok root ∧ root.request registry (coded "code").requests = .ok t ∧
    (∀ q ∈ (coded "code").requests, q.path ≠ ({} : ViewSettings).rootKeyAlias) ∧
    compile registry {} .sqlite none {} t = .ok v ∧
    v.parts.map (fun x => (x.path, x.statement.conditions.length)) = [("", 1), ("lines", 2)] ∧
    (∀ q ∈ (coded "code").requests, ∃ way a, t.resolve registry q.path = .ok (way, a) ∧ a.isAssociation = false ∧
      registry.LeadsOnlyTo t.root q.path way a) ∧
    v.Answers registry t (coded "code").requests none := by
  have checked : ((coded "code").compiled?.map fun found =>
      decide (∀ e ∈ found.1.all, ∀ a ∈ e.attributes, a.column.isSome = true → '.' ∉ a.property.toList) &&
      decide (∀ q ∈ (coded "code").requests,
        (found.2.1.resolve found.1 q.path).toOption.any (·.2.isAssociation == false) = true) &&
      found.2.2.parts.map (fun x => (x.path, x.statement.conditions.length)) == [("", 1), ("lines", 2)]) =
        some true := by
    decide +kernel
  obtain ⟨⟨registry, t, v⟩, found, checked⟩ := Option.map_eq_some_iff.mp checked
  simp only [Bool.and_eq_true, decide_eq_true_eq, Option.any_eq_true, beq_iff_eq] at checked
  obtain ⟨⟨whole, columns⟩, parts⟩ := checked
  obtain ⟨-, made, compiled⟩ := compiled_eq found
  obtain ⟨root, rooted, requested⟩ := request_eq made rfl
  have accepted := declared_eq found rfl
  have registered := Registry.isRegistered_of_definitions accepted
  have apart : ∀ q ∈ (coded "code").requests, q.path ≠ ({} : ViewSettings).rootKeyAlias := by decide
  obtain ⟨other, again, answers⟩ := requests_are_answered accepted rooted requested {} apart .sqlite none {}
  cases compiled.symm.trans again
  refine ⟨registry, root, t, v, accepted, rooted, requested, apart, compiled, parts, fun q among => ?_, answers⟩
  obtain ⟨⟨way, a⟩, resolved, isColumn⟩ := columns q among
  have isOf := (FilterTree.isOf_empty rooted).request registered requested
  have resolved := eq_ok_of_toOption resolved
  exact ⟨way, a, resolved, isColumn,
    FilterTree.leadsOnlyTo_of_resolve registered.built isOf.single isOf.known whole resolved isColumn⟩

/-- A code that is named like the path of another column is fetched for the lines. The name of the customer, which
that path asks for, is then not fetched by any statement. -/
theorem dotted_code_hides_name : ∃ registry root t v way a,
    Registry.ofDefinitions (coded "customer.name").definitions = .ok registry ∧
    FilterTree.ofNames registry ["Order"] = .ok root ∧
    root.request registry (coded "customer.name").requests = .ok t ∧
    (∀ q ∈ (coded "customer.name").requests, q.path ≠ ({} : ViewSettings).rootKeyAlias) ∧
    compile registry {} .sqlite none {} t = .ok v ∧
    ⟨"customer.name", none⟩ ∈ (coded "customer.name").requests ∧
    t.resolve registry "customer.name" = .ok (way, a) ∧ a.isAssociation = false ∧
    ∀ x ∈ v.parts, ∀ b ∈ x.columns, b.subject ≠ some a := by
  have checked : ((coded "customer.name").compiled?.map fun found =>
      (found.2.1.resolve found.1 "customer.name").toOption.any fun last => last.2.isAssociation == false &&
        decide (∀ x ∈ found.2.2.parts, ∀ b ∈ x.columns, b.subject ≠ some last.2)) = some true := by
    decide +kernel
  obtain ⟨⟨registry, t, v⟩, found, checked⟩ := Option.map_eq_some_iff.mp checked
  simp only [Bool.and_eq_true, decide_eq_true_eq, Option.any_eq_true, beq_iff_eq] at checked
  obtain ⟨⟨way, a⟩, resolved, isColumn, missing⟩ := checked
  obtain ⟨-, made, compiled⟩ := compiled_eq found
  obtain ⟨root, rooted, requested⟩ := request_eq made rfl
  exact ⟨registry, root, t, v, way, a, declared_eq found rfl, rooted, requested, by decide, compiled,
    List.mem_cons_of_mem _ (List.mem_cons_self ..), eq_ok_of_toOption resolved, isColumn, missing⟩

end Outline

end ViewEngine
