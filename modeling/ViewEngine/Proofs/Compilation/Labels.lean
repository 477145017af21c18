import ViewEngine.Proofs.Compilation.Statements

namespace ViewEngine

open Compile JoinPlan

namespace Compile

inductive Labelled (roots : List Entity) (asked : FilterItem → Prop) (plan : JoinPlan) : ColumnBinding → Prop
  | other {b : ColumnBinding} (kind : b.kind ≠ .value) : Labelled roots asked plan b
  | named {a : Attribute} {item : FilterItem} {label : String} (isAsked : asked item) (same : a.id = item.subject.id)
      (name : item.outputName = some label) : Labelled roots asked plan ⟨label, some a, .value⟩
  | placed {way : List JoinEntry} {es : List Entity} {table : Nat} {path : String} {e : Entity} {a : Attribute}
      (leads : plan.Leads roots way es table path) (member : e ∈ es) (offers : e.Offers a)
      (column : a.column.isSome = true) : Labelled roots asked plan ⟨Path.child path a.property, some a, .value⟩

variable {setting : Setting} {roots : List Entity} {asked : FilterItem → Prop} {r : Root} {plan further : JoinPlan}
  {b : ColumnBinding} {s : Scope} {state after : State}

theorem Labelled.mono (labelled : Labelled roots asked plan b) (grown : plan.entries <+: further.entries) :
    Labelled roots asked further b := by
  cases labelled with
  | other kind => exact .other kind
  | named isAsked same name => exact .named isAsked same name
  | placed leads member offers column =>
      exact .placed (leads.mono fun j inside => grown.subset inside) member offers column

def State.AreLabelled (roots : List Entity) (asked : FilterItem → Prop) (state : State) : Prop :=
  ∀ b ∈ state.scope.columns, Labelled roots asked state.plan b

theorem mem_project {expr : Sql.Expr} {label : String} {subject : Option Attribute} {kind : ColumnKind}
    (member : b ∈ (s.project expr label subject kind).columns) : b ∈ s.columns ∨ b = ⟨label, subject, kind⟩ := by
  unfold Scope.project at member
  split at member
  · exact .inl member
  · exact (List.mem_append.mp member).imp_right List.mem_singleton.mp

theorem mem_projectColumn {a : Attribute} {table : Nat} {path : String}
    (member : b ∈ (s.projectColumn a table path).columns) : b ∈ s.columns ∨
      (a.column.isSome = true ∧ b = ⟨Path.child path a.property, some a, .value⟩) := by
  unfold Scope.projectColumn at member
  split at member
  next column found => exact (mem_project member).imp_right fun new => ⟨by rw [found]; rfl, new⟩
  next => exact .inl member

theorem mem_walkColumn {item : FilterItem} {a : Attribute} {table : Nat} {path : String}
    (member : b ∈ (walkColumn item a table path state).scope.columns) : b ∈ state.scope.columns ∨
      (a.column.isSome = true ∧ b = ⟨item.outputName.getD path, some a, .value⟩) := by
  unfold walkColumn at member
  split at member
  · exact .inl member
  next column found =>
    have selected {statement : Sql.Statement} (inside : b ∈ (Scope.project { state.scope with statement := statement }
        (.columnOf table column) (item.outputName.getD path) (some a) .value).columns) :
        b ∈ state.scope.columns ∨
          (a.column.isSome = true ∧ b = ⟨item.outputName.getD path, some a, .value⟩) :=
      (mem_project inside).imp_right fun new => ⟨by rw [found]; rfl, new⟩
    dsimp only [State.mapScope] at member
    split at member
    · exact selected member
    · exact selected member

theorem Visit.labelled (addressable : setting.IsAddressable roots) (built : state.IsBuilt setting roots asked)
    (visit : Visit setting roots asked state after) (labelled : state.AreLabelled roots asked) :
    after.AreLabelled roots asked := by
  intro b added
  cases visit with
  | join stands declared found joins =>
      obtain ⟨j, plan, number, rfl, -, -, -, grown, -⟩ :=
        join_eq addressable built.plan built.next stands.leads declared found joins
      exact (labelled b added).mono grown
  | column stands inside offers =>
      rcases mem_projectColumn added with old | ⟨column, new⟩
      · exact labelled b old
      · rw [new]
        exact .placed stands.leads inside offers column
  | @item way es table above e a item stands member inside isAsked same =>
      rw [walkColumn_plan.1]
      rcases mem_walkColumn added with old | ⟨column, new⟩
      · exact labelled b old
      · rw [new]
        cases name : item.outputName with
        | some label => exact .named isAsked same name
        | none => exact .placed stands.leads member (.attribute inside) column
  | aggregate stands label =>
      rcases mem_project added with old | new
      · exact labelled b old
      · rw [new]
        exact .other (by rintro ⟨⟩)
  | defer => exact labelled b added
  | enter => exact labelled b added

theorem visits_labelled (addressable : setting.IsAddressable roots) (built : state.IsBuilt setting roots asked)
    (visits : Relation.ReflTransGen (Visit setting roots asked) state after)
    (labelled : state.AreLabelled roots asked) : after.AreLabelled roots asked := by
  induction visits with
  | refl => exact labelled
  | tail before visit ih => exact visit.labelled addressable (visits_built_grown addressable built before).1 ih

theorem Begins.labelled (begins : Begins setting roots asked r state) : state.AreLabelled roots asked := by
  have start (enclosing : List JoinedCollection) (plan : JoinPlan) :
      ∀ b ∈ (r.start enclosing).columns, Labelled roots asked plan b := by
    intro b member
    rcases mem_project member with none | key
    · contradiction
    · rw [key]
      exact .other (by rintro ⟨⟩)
  cases begins with
  | primary => exact start [] _
  | collection => exact start _ _

theorem IsMade.labelled {statement : Sql.Statement} {columns : List ColumnBinding}
    (addressable : setting.IsAddressable roots) (made : IsMade setting roots asked r plan statement columns) :
    ∀ b ∈ columns, Labelled roots asked plan b := by
  obtain ⟨start, last, begins, visits, grown, -, rfl⟩ := made.made
  intro b member
  exact (visits_labelled addressable begins.isBuilt visits begins.labelled b member).mono grown

end Compile

/-- A column of one of the statements of a view. -/
def CompiledView.Selects (v : CompiledView) (b : ColumnBinding) : Prop :=
  b ∈ v.columns ∨ ∃ s ∈ v.subSelects, b ∈ s.columns

theorem compile_labelled {registry : Registry} {settings : ViewSettings} {dialect : Sql.Dialect}
    {pointInTime : Option Timestamp} {page : Page} {t : FilterTree} {v : CompiledView} {b : ColumnBinding}
    (addressable : Setting.IsAddressable ⟨registry, pointInTime⟩ t.roots)
    (compiled : compile registry settings dialect pointInTime page t = .ok v) (selects : v.Selects b) :
    Labelled t.roots (· ∈ FilterNode.itemsOfAll t.nodes) v.joinPlan b := by
  obtain ⟨-, -, ⟨_, _, _, -, primary⟩, each⟩ := compile_made addressable compiled
  rcases selects with column | ⟨s, member, column⟩
  · exact primary.labelled addressable b column
  · exact (each s member).1.labelled addressable b column

end ViewEngine
