import ViewEngine.Proofs.Writing.Placeholders

/-!
For which columns parameters are bound. A parameter is named after its column, with everything but ASCII letters
and digits replaced. So two columns share a parameter exactly if nothing else tells them apart; every other
parameter is bound to the value of its own column alone.
-/

namespace ViewEngine

open Sql Planning BoundParameter

namespace Sql.Statement

/-- The columns that a statement gives values to, each with what it is given. -/
def given (s : Statement) : List (String × Expr) :=
  s.assignments ++ s.insertColumns.zip
    (s.source.elim s.insertValues fun source => source.selected.map (·.expr))

def restrictions (s : Statement) : List Condition :=
  (s.source.getD s).conditions

end Sql.Statement

namespace Planning

/-- What a parameter is bound for: a column that is written, the time of writing, or a key. -/
inductive Binding where
  | written (a : Attribute) (value : Value)
  | time
  | key (a : Attribute) (value : Value)

namespace Binding

variable {e : Entity} {now : Timestamp} {data : Row} {s : Statement} {first second : Binding}

def parameter (now : Timestamp) : Binding → BoundParameter
  | .written a value => valueParameter a value
  | .time => .now now
  | .key a value => .of (keyName a.columnName) value a.columnType

/-- Bindings of one kind, for columns that nothing but other characters than ASCII letters and digits tells apart. -/
def IsAlike : Binding → Binding → Prop
  | .written a _, .written b _ => plainName a.columnName = plainName b.columnName
  | .time, .time => True
  | .key a _, .key b _ => plainName a.columnName = plainName b.columnName
  | _, _ => False

def StandsIn (s : Statement) : Binding → Prop
  | .written a _ => (a.columnName, placeholder a) ∈ s.given
  | .time => ∃ column, (column, nowPlaceholder) ∈ s.given
  | .key a _ => .predicate (pin a) ∈ s.restrictions

/-- The value is the one of the column: what the data of a row hold under its property, or what is implied by the
entity of a new row. -/
inductive IsOwn (e : Entity) (now : Timestamp) (data : Row) : Binding → Prop
  | held (a : Attribute) : IsOwn e now data (.written a ((data.get? a.property).getD .null))
  | given {a : Attribute} {value : Value} (member : (a.property, value) ∈ data) : IsOwn e now data (.written a value)
  | discriminator {d : Discriminator} (declared : e.discriminator = some d) :
      IsOwn e now data (.written d.subject d.value)
  | opening {version : VersionColumns} (declared : e.version = some version) :
      IsOwn e now data (.written version.opening (.timestamp now))
  | time : IsOwn e now data .time
  | key {a : Attribute} {value : Value} (held : data.get? a.property = some value) : IsOwn e now data (.key a value)

/-- Two parameters share a name exactly if they are bound for the same kind of columns with the same plain name. -/
theorem parameter_name_eq_iff :
    (first.parameter now).name = (second.parameter now).name ↔ first.IsAlike second := by
  cases first <;> cases second
  case written.written => exact valueName_inj
  case key.key => exact keyName_inj
  case time.time => exact iff_of_true rfl trivial
  case written.time => exact iff_of_false valueName_ne_nowName not_false
  case written.key => exact iff_of_false keyName_ne_valueName.symm not_false
  case time.written => exact iff_of_false valueName_ne_nowName.symm not_false
  case time.key => exact iff_of_false keyName_ne_nowName.symm not_false
  case key.written => exact iff_of_false keyName_ne_valueName not_false
  case key.time => exact iff_of_false keyName_ne_nowName not_false

theorem map_written (columns : List Attribute) (data : Row) (now : Timestamp) :
    (columns.map fun a => Binding.written a ((data.get? a.property).getD .null)).map (parameter now) =
      valueParameters columns data := by
  rw [List.map_map]
  rfl

theorem map_key (keys : List (Attribute × Value)) (now : Timestamp) :
    (keys.map fun key => Binding.key key.1 key.2).map (parameter now) = keyParameters keys := by
  rw [List.map_map]
  rfl

end Binding

/-- What a write of an entity binds, each for a column of its statement and with the value of that column. -/
structure BindsOwn (w : Write) (e : Entity) (now : Timestamp) (data : Row) (bindings : List Binding) : Prop where
  parameters : w.parameters = bindings.map (Binding.parameter now)
  standing : ∀ binding ∈ bindings, binding.StandsIn w.statement
  own : ∀ binding ∈ bindings, binding.IsOwn e now data

variable {v : CompiledView} {strict : Bool} {context : Context} {row : Nat} {node path : String} {e : Entity}
  {data fields : Row} {columns : List Attribute} {keys given : List (Attribute × Value)} {writes : List Write}
  {w : Write} {now : Timestamp}

theorem updateWrite_bindsOwn (path : String) (now : Timestamp)
    (held : ∀ key ∈ keys, data.get? key.1.property = some key.2) :
    ∃ bindings, BindsOwn (updateWrite e path data columns keys) e now data bindings := by
  refine ⟨columns.map (fun a => .written a ((data.get? a.property).getD .null)) ++
    keys.map fun key => .key key.1 key.2, ?_, ?_, ?_⟩
  · rw [List.map_append, Binding.map_written, Binding.map_key]
    rfl
  · rw [updateWrite_statement]
    refine List.forall_mem_append.mpr ⟨List.forall_mem_map.mpr fun a member => ?_,
      List.forall_mem_map.mpr fun key member => ?_⟩
    · exact List.mem_append_left _ (List.mem_map_of_mem member)
    · exact List.mem_map_of_mem (List.mem_map_of_mem (List.mem_map_of_mem member))
  · exact List.forall_mem_append.mpr ⟨List.forall_mem_map.mpr fun a _ => .held a,
      List.forall_mem_map.mpr fun key member => .key (held key member)⟩

theorem closeWrite_bindsOwn (column path : String) (now : Timestamp)
    (held : ∀ key ∈ keys, data.get? key.1.property = some key.2) :
    ∃ bindings, BindsOwn (closeWrite e column path now keys) e now data bindings := by
  refine ⟨.time :: keys.map fun key => .key key.1 key.2, ?_, ?_, ?_⟩
  · rw [List.map_cons, Binding.map_key, closeWrite, closing_eq]
    rfl
  · rw [closeWrite, closing_eq]
    refine List.forall_mem_cons.mpr ⟨⟨column, List.mem_cons_self ..⟩,
      List.forall_mem_map.mpr fun key member => ?_⟩
    exact List.mem_map_of_mem (List.mem_append_left _ (List.mem_map_of_mem (List.mem_map_of_mem member)))
  · exact List.forall_mem_cons.mpr ⟨.time, List.forall_mem_map.mpr fun key member => .key (held key member)⟩

theorem successor_given (e : Entity) (opening : String) (columns : List Attribute) (keys : List (Attribute × Value)) :
    (successor e opening columns keys).given = successorItems e opening columns := by
  rw [successor_eq]
  simp only [Statement.given, Statement.insertInto, Option.elim_some, successorSource, List.map_map,
    List.nil_append, Function.comp_def, List.zip_map']
  exact List.map_id' _

theorem successorWrite_bindsOwn (opening property path : String) (now : Timestamp)
    (held : ∀ key ∈ keys, data.get? key.1.property = some key.2) :
    ∃ bindings, BindsOwn (successorWrite e opening property path row node now data columns keys) e now data
      bindings := by
  refine ⟨columns.map (fun a => .written a ((data.get? a.property).getD .null)) ++
    .time :: keys.map fun key => .key key.1 key.2, ?_, ?_, ?_⟩
  · rw [List.map_append, List.map_cons, Binding.map_written, Binding.map_key, successorWrite, successorParameters,
      List.append_assoc]
    rfl
  · rw [successorWrite]
    refine List.forall_mem_append.mpr ⟨List.forall_mem_map.mpr fun a member => ?_,
      List.forall_mem_cons.mpr ⟨⟨opening, ?_⟩, List.forall_mem_map.mpr fun key member => ?_⟩⟩
    · rw [Binding.StandsIn, successor_given]
      exact List.mem_append_left _ (List.mem_append_right _ (List.mem_map_of_mem member))
    · rw [successor_given]
      exact List.mem_append_right _ (List.mem_singleton_self _)
    · rw [Binding.StandsIn, successor_eq]
      exact List.mem_map_of_mem (List.mem_map_of_mem (List.mem_map_of_mem member))
  · exact List.forall_mem_append.mpr ⟨List.forall_mem_map.mpr fun a _ => .held a,
      List.forall_mem_cons.mpr ⟨.time, List.forall_mem_map.mpr fun key member => .key (held key member)⟩⟩

theorem StoresNode.bindsOwn (stores : StoresNode context row node e data columns keys writes)
    (held : ∀ key ∈ keys, data.get? key.1.property = some key.2) (member : w ∈ writes) :
    ∃ bindings, BindsOwn w e context.writeTime data bindings := by
  cases stores with
  | update =>
      cases List.mem_singleton.mp member
      exact updateWrite_bindsOwn _ _ held
  | version =>
      rcases member with _ | ⟨_, _ | ⟨_, ⟨⟩⟩⟩
      · exact closeWrite_bindsOwn _ _ _ held
      · exact successorWrite_bindsOwn _ _ _ _ held

/-- A column is given its own parameter by what is planned for a node, or it is copied from the version before, or
it is one of those between which a version lasts. -/
theorem StoresNode.gives (stores : StoresNode context row node e data columns keys writes) (member : w ∈ writes)
    {column : String} {expr : Expr} (given : (column, expr) ∈ w.statement.given) :
    expr = .parameter (valueName column) ∨ expr = .unqualified column ∨
      expr = nowPlaceholder ∧ ∃ a, e.isVersionAttribute a = true ∧ a.column = some column := by
  cases stores with
  | update =>
      cases List.mem_singleton.mp member
      rw [updateWrite_statement] at given
      rcases List.mem_append.mp given with assigned | none
      · obtain ⟨a, -, same⟩ := List.mem_map.mp assigned
        cases same
        exact .inl rfl
      · contradiction
  | @version version opening closing declared slow opens closes =>
      rcases member with _ | ⟨_, _ | ⟨_, ⟨⟩⟩⟩
      · rw [closeWrite, closing_eq] at given
        cases List.mem_singleton.mp given
        exact .inr (.inr ⟨rfl, version.closing, by simp [Entity.isVersionAttribute, declared], closes⟩)
      · rw [successorWrite, successor_given] at given
        rcases List.mem_append.mp given with first | last
        · rcases List.mem_append.mp first with carried | written
          · obtain ⟨other, -, same⟩ := List.mem_map.mp carried
            cases same
            exact .inr (.inl rfl)
          · obtain ⟨a, -, same⟩ := List.mem_map.mp written
            cases same
            exact .inl rfl
        · cases List.mem_singleton.mp last
          exact .inr (.inr ⟨rfl, version.opening, by simp [Entity.isVersionAttribute, declared], opens⟩)

theorem updateWrite_given {other : Entity} {others : List Attribute} {before : Row}
    {olds : List (Attribute × Value)} (written : AreWritten e columns) (writtenBefore : AreWritten other others)
    (same : columnNames columns = columnNames others) :
    (updateWrite other path before others olds).statement.given =
      (updateWrite e path data columns keys).statement.given := by
  rw [updateWrite_statement, updateWrite_statement, Statement.given, Statement.given,
    assigned_alike written writtenBefore same]
  rfl

theorem Removes.bindsOwn (removes : Removes now e keys w)
    (held : ∀ key ∈ keys, data.get? key.1.property = some key.2) :
    ∃ bindings, BindsOwn w e now data bindings := by
  cases removes with
  | close =>
      obtain ⟨bindings, own⟩ := closeWrite_bindsOwn _ "" now held
      exact ⟨bindings, own.parameters, own.standing, own.own⟩
  | delete =>
      refine ⟨keys.map fun key => .key key.1 key.2, (Binding.map_key keys now).symm, ?_,
        List.forall_mem_map.mpr fun key member => .key (held key member)⟩
      rw [pinned_eq]
      exact List.forall_mem_map.mpr fun key member =>
        List.mem_map_of_mem (List.mem_map_of_mem (List.mem_map_of_mem member))

theorem insertedValues_held (found : insertedValues v strict e fields = .ok given) :
    ∀ value ∈ given, (value.1.property, value.2) ∈ fields := by
  induction fields generalizing given with
  | nil =>
      cases found
      rintro _ ⟨⟩
  | cons field rest ih =>
      obtain ⟨property, value⟩ := field
      have later {values : List (Attribute × Value)} (found : insertedValues v strict e rest = .ok values) :
          ∀ held ∈ values, (held.1.property, held.2) ∈ (property, value) :: rest :=
        fun held member => List.mem_cons_of_mem _ (ih found held member)
      unfold insertedValues at found
      split at found
      next => contradiction
      next same =>
        cases same
        exact later found
      next same =>
        cases same
        exact later found
      next same =>
        cases same
        split at found
        · exact later found
        · split at found
          · obtain ⟨-, -, found⟩ := bind_eq_ok.mp found
            exact later found
          next a declared =>
            obtain ⟨values, below, found⟩ := bind_eq_ok.mp found
            have named : a.property = property := by simpa using List.find?_some declared
            dsimp only at found
            split at found
            · cases found
              exact List.forall_mem_cons.mpr ⟨named ▸ List.mem_cons_self .., later below⟩
            · cases found
              exact later below

theorem insertWrite_bindsOwn (found : insertedValues v strict e data = .ok given) :
    ∃ bindings, BindsOwn (insertWrite e row (storedValues e now given)) e now data bindings := by
  refine ⟨(storedValues e now given).map fun value => .written value.1 value.2, ?_, ?_, ?_⟩
  · rw [List.map_map]
    rfl
  · refine List.forall_mem_map.mpr fun value member => List.mem_append_right _ ?_
    simp only [insertWrite, insertStatement, Option.elim_none, Statement.insertInto, List.map_map, List.zip_map']
    exact List.mem_map_of_mem member
  · refine List.forall_mem_map.mpr fun value member => ?_
    rcases List.mem_append.mp member with first | opening
    · rcases List.mem_append.mp first with isGiven | discriminator
      · exact .given (insertedValues_held found value isGiven)
      · obtain ⟨d, kept, rfl⟩ := List.mem_map.mp discriminator
        exact .discriminator (Option.mem_toList.mp (List.mem_filter.mp kept).1)
    · obtain ⟨version, declared, rfl⟩ := List.mem_map.mp opening
      exact .opening (Option.mem_toList.mp declared)

end Planning

namespace View

variable {v : View} {strict : Bool} {context : Context} {w : Write} {origin : WriteOrigin}

/-- The entity and the data of the row or node that is written. -/
def HasSource (v : View) (e : Entity) (data : Row) : WriteOrigin → Prop
  | .node row node => ∃ r, v.rows[row]? = some r ∧ r.data.nodeAt node = .ok (some data) ∧
    v.compiled.entityAt? r.data (Path.withoutPositions node) = some e
  | .added row => ∃ r, v.rows[row]? = some r ∧ r.data = data ∧ v.compiled.rootOf data = e
  | .removed row => v.removed[row]? = some data ∧ v.compiled.rootOf data = e

theorem Plans.bindsOwn (plans : v.Plans strict context w origin) :
    ∃ e data bindings, v.HasSource e data origin ∧ BindsOwn w e context.writeTime data bindings := by
  cases origin with
  | node row node =>
      obtain ⟨r, writes, there, -, -, planned, member⟩ := plans
      cases nodeWrites_plans planned with
      | unresolved | absent | unchanged => contradiction
      | stored entity standing _ keyed stores =>
          obtain ⟨bindings, own⟩ := stores.bindsOwn (keyValues_held keyed).2 member
          exact ⟨_, _, bindings, ⟨r, there, standing, entity⟩, own⟩
  | added row =>
      obtain ⟨r, writes, there, -, planned, member⟩ := plans
      cases insertWrites_plans planned with
      | nothing => contradiction
      | stored found =>
          cases List.mem_singleton.mp member
          obtain ⟨bindings, own⟩ := insertWrite_bindsOwn found
          exact ⟨_, _, bindings, ⟨r, there, rfl, rfl⟩, own⟩
  | removed row =>
      obtain ⟨data, there, planned⟩ := plans
      obtain ⟨keys, keyed, removes⟩ := removalWrite_removes planned
      obtain ⟨bindings, own⟩ := removes.bindsOwn (keyValues_held keyed).2
      exact ⟨_, data, bindings, ⟨there, rfl⟩, own⟩

theorem Plans.given_shared {first : Write} {source : WriteOrigin} {row : Nat} {node : String}
    (plans : v.Plans strict context w (.node row node)) (before : v.Plans strict context first source)
    (shares : w.Shares first) : first.statement.given = w.statement.given := by
  rcases shares with rfl | ⟨batched, same⟩
  · rfl
  obtain ⟨key, isKey⟩ := Option.isSome_iff_exists.mp batched
  have purpose := plans.purpose isKey
  have purposeBefore := before.purpose (same.symm.trans isKey)
  obtain ⟨r, e, data, columns, keys, writes, -, -, -, written, -, stores, member⟩ := plans.stores
  obtain rfl := stores.eq_updateWrite member batched
  cases source with
  | node number above =>
      obtain ⟨r', e', data', columns', keys', writes', -, -, -, written', -, stores', member'⟩ := before.stores
      obtain rfl := stores'.eq_updateWrite member' (same ▸ batched)
      obtain ⟨path, -, columnsSame⟩ := BatchKey.mk.injEq .. ▸ Option.some.inj same
      rw [← path]
      exact updateWrite_given written written' columnsSame
  | added number => simp [purpose] at purposeBefore
  | removed number => simp [purpose] at purposeBefore

end View

/-- A value that a caller has set in a column that can be written, and not replaced since, is still read once the
writes are planned, unless it stands where a key is taken over from a neighbouring node. It is what is bound for the
column by what is planned for a node of a row that is stored: no other parameter has the name, or else it is that of
another column, and no other parameter is given to the column, or else a version lasts from it or to it. -/
theorem edits_survive_planning {v : View} {before after : List Edit} {edit : Edit} {slot : Slot}
    {settings : ViewSettings} {context : Context} {plan : WritePlan}
    (set : ((v.edited before).setValue edit.value edit.row edit.path).2 = .ok ())
    (named : v.slot? edit.row edit.path = some slot)
    (last : ∀ later ∈ after, ∀ changed, v.slot? later.row later.path = some changed → ¬ slot.Overlaps changed)
    (apart : ∀ r, (v.edited (before ++ edit :: after)).rows[slot.row]? = some r →
      ∀ place ∈ r.receivers v.compiled.joinPlan, ¬ slot.place.Overlaps place)
    (planned : ((v.edited (before ++ edit :: after)).plan settings context).2 = .ok plan) :
    ∃ w, ((v.edited (before ++ edit :: after)).plan settings context).1 = w ∧
      w.value edit.row edit.path = .ok edit.value ∧
      ∀ s ∈ plan.statements, ∀ parameters ∈ s.batch, ∃ write origin,
        w.Plans settings.strictWriteBack context write origin ∧ write.parameters = parameters ∧
        match origin with
        | .node row node => row = slot.row → Path.place? node slot.property = some slot.place →
          ∀ r e a, w.rows[row]? = some r → w.compiled.entityAt? r.data (Path.withoutPositions node) = some e →
            e.property? slot.property = some a → e.isWritable a = true →
            (∀ p ∈ parameters, p.name = valueName a.columnName → p.value = a.columnType.coerce edit.value ∨
              ∃ b ∈ e.scalars, b ≠ a ∧ valueName b.columnName = valueName a.columnName ∧
                ∃ other, p = valueParameter b other) ∧
            ∀ name, (a.columnName, .parameter name) ∈ s.statement.given → name = valueName a.columnName ∨
              name = nowName ∧ ∃ b, b ≠ a ∧ e.isVersionAttribute b = true ∧ b.column = some a.columnName
        | .added row => ∃ r, w.rows[row]? = some r ∧ r.isNew = true
        | .removed row => ∃ data, w.removed[row]? = some data := by
  have compiled : (v.edited (before ++ edit :: after)).compiled = v.compiled := View.edited_compiled _
  have holds : ((v.edited (before ++ edit :: after)).plan settings context).1.Holds slot edit.value :=
    View.holds_plan (View.holds_of_set set named last) (compiled ▸ apart)
  have reads : ((v.edited (before ++ edit :: after)).plan settings context).1.slot? edit.row edit.path = some slot := by
    rwa [View.slot?_plan, View.slot?_congr compiled (View.edited_length _)]
  refine ⟨_, rfl, View.value_of_holds reads holds, ?_⟩
  intro s member parameters bound
  obtain ⟨first, source, before, statement, -, shared⟩ := View.plan_stands planned member
  obtain ⟨write, origin, plans, rfl, shares⟩ := shared parameters bound
  refine ⟨write, origin, plans, rfl, ?_⟩
  cases origin with
  | added row =>
      obtain ⟨r, -, standing, isNew, -⟩ := plans
      exact ⟨r, standing, isNew⟩
  | removed row =>
      obtain ⟨data, standing, -⟩ := plans
      exact ⟨data, standing⟩
  | node row node =>
      rintro rfl placed r e a standing entity found writable
      refine ⟨fun p => View.bound_of_holds holds plans.binds placed standing entity found, fun name given => ?_⟩
      rw [statement, plans.given_shared before shares] at given
      obtain ⟨r', e', _, _, _, _, standing', -, entity', -, -, stores, inside⟩ := plans.stores
      cases standing.symm.trans standing'
      cases entity.symm.trans entity'
      have notVersion : e.isVersionAttribute a = false := by
        simp only [Entity.isWritable, Bool.and_eq_true, Bool.not_eq_true'] at writable
        exact writable.2
      rcases stores.gives inside given with own | copied | ⟨now, b, isVersion, column⟩
      · exact .inl (Expr.parameter.inj own)
      · contradiction
      · refine .inr ⟨Expr.parameter.inj now, b, ?_, isVersion, column⟩
        rintro rfl
        rw [isVersion] at notVersion
        contradiction

namespace Sample

/-- Whether the one row of a view is stored, and of what is planned for its nodes nothing but the inner item's own
write has a parameter for the value of the inner item. -/
def innerBindsAlone (w : View) : Bool :=
  w.rows.length == 1 && w.removed.isEmpty && w.rows.all fun r => !r.isNew &&
    ((w.compiled.entityAt? r.data "inner").any fun e => (e.property? "value").any fun a =>
      e.isWritable a && a.columnName == "value" && a.columnType == .varchar &&
        e.scalars.all fun b => b == a || valueName b.columnName != valueName a.columnName) &&
    r.changed.all fun path => Path.node path == "inner" ||
      (nodeWrites w.compiled false context 0 r (Path.node path)).toOption.any fun writes =>
        writes.all fun write => write.parameters.all (·.name != valueName "value")

theorem bound_of_innerBindsAlone {w : View} {write : Write} {origin : WriteOrigin} {p : BoundParameter}
    (alone : innerBindsAlone w = true) (plans : w.Plans false context write origin) (bound : p ∈ write.parameters)
    (isValue : p.name = valueName "value") : origin = .node 0 "inner" ∧ ∃ r e a, w.rows[0]? = some r ∧
      w.compiled.entityAt? r.data "inner" = some e ∧ e.property? "value" = some a ∧ e.isWritable a = true ∧
      a.columnName = "value" ∧ a.columnType = .varchar ∧
      ∀ b ∈ e.scalars, valueName b.columnName = valueName a.columnName → b = a := by
  simp only [innerBindsAlone, Bool.and_eq_true, List.all_eq_true, Option.any_eq_true, Bool.or_eq_true, beq_iff_eq,
    bne_iff_ne, ne_eq, Bool.not_eq_true', List.isEmpty_iff] at alone
  obtain ⟨⟨single, nothing⟩, each⟩ := alone
  cases origin with
  | removed row =>
      obtain ⟨data, standing, -⟩ := plans
      simp [nothing] at standing
  | added row =>
      obtain ⟨r, -, standing, isNew, -⟩ := plans
      rw [(each r (List.mem_of_getElem? standing)).1.1] at isNew
      contradiction
  | node row node =>
      obtain ⟨r, writes, standing, -, changed, planned, member⟩ := plans
      obtain ⟨⟨-, e, entity, a, found, ⟨⟨writable, column⟩, type⟩, own⟩, nodes⟩ :=
        each r (List.mem_of_getElem? standing)
      have first : row = 0 := by
        have inside := (List.getElem?_eq_some_iff.mp standing).1
        omega
      obtain ⟨path, inChanged, rfl⟩ := List.mem_map.mp changed
      subst first
      rcases nodes path inChanged with inner | ⟨others, plannedOthers, absent⟩
      · rw [inner]
        exact ⟨rfl, r, e, a, standing, entity, found, writable, column, type, fun b scalar same =>
          (own b scalar).resolve_right fun different => different same⟩
      · rw [planned] at plannedOthers
        cases plannedOthers
        exact absurd isValue (absent write member p bound)

set_option maxRecDepth 100000 in
/-- The value of the inner item survives and is what is bound for it, whatever becomes of the reference to it. -/
theorem inner_value_survives : ∃ compiled plan, outline.view? = some compiled ∧
    (((loaded compiled).edited edits.reverse).plan {} context).2 = .ok plan ∧
    (((loaded compiled).edited edits.reverse).plan {} context).1.value 0 "inner.value" = .ok (.text "x") ∧
    (∃ s ∈ plan.statements, ∃ parameters ∈ s.batch, ∃ p ∈ parameters, p.name = valueName "value") ∧
    ∀ s ∈ plan.statements, ∀ parameters ∈ s.batch, ∀ p ∈ parameters, p.name = valueName "value" →
      p.value = .text "x" := by
  have checked : (outline.view?.map fun compiled =>
      ((loaded compiled).setValue (.text "x") 0 "inner.value").2.isOk &&
      decide ((loaded compiled).slot? 0 "inner.value" = some innerValue) &&
      ((loaded compiled).slot? 0 "innerId").all (fun changed => !decide (innerValue.Overlaps changed)) &&
      (((loaded compiled).edited edits.reverse).rows[0]?).all (fun r =>
        (r.receivers compiled.joinPlan).all fun place => !decide (innerValue.place.Overlaps place)) &&
      (((loaded compiled).edited edits.reverse).plan {} context).2.toOption.any (fun plan =>
        plan.statements.any fun s => s.batch.any fun parameters => parameters.any (·.name == valueName "value")) &&
      innerBindsAlone (((loaded compiled).edited edits.reverse).plan {} context).1) = some true := by
    decide +kernel
  obtain ⟨compiled, found, checked⟩ := Option.map_eq_some_iff.mp checked
  simp only [Bool.and_eq_true, decide_eq_true_eq, Option.any_eq_true, List.any_eq_true, beq_iff_eq] at checked
  obtain ⟨⟨⟨⟨⟨set, named⟩, last⟩, apart⟩, plan, planned, bound⟩, alone⟩ := checked
  have planned := eq_ok_of_toOption planned
  have last : ∀ later ∈ [(⟨.int 5, 0, "innerId"⟩ : Edit)], ∀ changed,
      (loaded compiled).slot? later.row later.path = some changed → ¬ innerValue.Overlaps changed := by
    intro later member changed found overlaps
    cases List.mem_singleton.mp member
    simp [found, overlaps] at last
  have apart : ∀ r, ((loaded compiled).edited edits.reverse).rows[0]? = some r →
      ∀ place ∈ r.receivers compiled.joinPlan, ¬ innerValue.place.Overlaps place := by
    intro r standing place member overlaps
    rw [standing, Option.all_some, List.all_eq_true] at apart
    simpa [overlaps] using apart place member
  obtain ⟨w, isPlanned, reads, binds⟩ := @edits_survive_planning (loaded compiled) [] [⟨.int 5, 0, "innerId"⟩]
    ⟨.text "x", 0, "inner.value"⟩ innerValue {} context plan (eq_ok_of_isOk set) named last apart planned
  refine ⟨compiled, plan, found, planned, isPlanned ▸ reads, bound,
    fun s member parameters batched p isBound isValue => ?_⟩
  obtain ⟨write, origin, plans, rfl, own⟩ := binds s member parameters batched
  obtain ⟨rfl, r, e, a, standing, entity, declared, writable, column, type, single⟩ :=
    bound_of_innerBindsAlone (isPlanned ▸ alone) plans isBound isValue
  have isOwn : p.name = valueName a.columnName := by
    rw [isValue, column]
  obtain ⟨values, -⟩ := own rfl rfl r e a standing entity declared writable
  rcases values p isBound isOwn with value | ⟨b, scalar, other, same, -⟩
  · rw [value, type]
    rfl
  · exact absurd (single b scalar same) other

set_option maxRecDepth 100000 in
/-- The reference that is set is replaced by the key of the inner item, though the reference can be written and is no
key. -/
theorem key_replaces_edit : ∃ compiled plan, outline.view? = some compiled ∧
    (∃ a, compiled.root.property? "innerId" = some a ∧ compiled.root.isWritable a = true) ∧
    (∀ r ∈ (loaded compiled).rows, r.isNew = false) ∧
    ((loaded compiled).setValue (.int 5) 0 "innerId").2 = .ok () ∧
    ((loaded compiled).edited edits).value 0 "innerId" = .ok (.int 5) ∧
    (((loaded compiled).edited edits).plan {} context).2 = .ok plan ∧
    (((loaded compiled).edited edits).plan {} context).1.value 0 "innerId" = .ok (.int 10) := by
  have checked : (outline.view?.map fun compiled =>
      (compiled.root.property? "innerId").any (compiled.root.isWritable ·) &&
      (loaded compiled).rows.all (!·.isNew) &&
      ((loaded compiled).setValue (.int 5) 0 "innerId").2.isOk &&
      (((loaded compiled).edited edits).value 0 "innerId").toOption == some (.int 5) &&
      (((loaded compiled).edited edits).plan {} context).2.isOk &&
      ((((loaded compiled).edited edits).plan {} context).1.value 0 "innerId").toOption == some (.int 10)) =
        some true := by
    decide +kernel
  obtain ⟨compiled, found, checked⟩ := Option.map_eq_some_iff.mp checked
  simp only [Bool.and_eq_true, Option.any_eq_true, List.all_eq_true, Bool.not_eq_true', beq_iff_eq] at checked
  obtain ⟨⟨⟨⟨⟨writable, stored⟩, set⟩, before⟩, planned⟩, replaced⟩ := checked
  obtain ⟨plan, planned⟩ := exists_eq_ok_of_isOk planned
  exact ⟨compiled, plan, found, writable, stored, eq_ok_of_isOk set, eq_ok_of_toOption before, planned,
    eq_ok_of_toOption replaced⟩

end Sample

/-- Every parameter is bound for a column of the statement of its write, with the value of that column; the write
has its statement to itself, or shares that of another one, which gives the columns of a node what its own one does.
Parameters share a name exactly if they are bound for the same kind of columns with the same plain name, so each column
that is told apart by its plain name is bound to its own value and to nothing else. -/
theorem parameters_belong_to_plain_names {v : View} {settings : ViewSettings} {context : Context}
    {plan : WritePlan} (planned : (v.plan settings context).2 = .ok plan) :
    ∀ s ∈ plan.statements, ∃ first source,
      (v.plan settings context).1.Plans settings.strictWriteBack context first source ∧
      s.statement = first.statement ∧
      ∀ parameters ∈ s.batch, ∃ w origin e data bindings, w.Shares first ∧
        (v.plan settings context).1.Plans settings.strictWriteBack context w origin ∧
        (∀ row node, origin = .node row node → s.statement.given = w.statement.given) ∧
        (v.plan settings context).1.HasSource e data origin ∧
        w.parameters = parameters ∧ parameters.map (·.name) = w.statement.placeholders ∧
        BindsOwn w e context.writeTime data bindings ∧
        ∀ binding ∈ bindings,
          (∀ other ∈ bindings, (other.parameter context.writeTime).name =
            (binding.parameter context.writeTime).name ↔ other.IsAlike binding) ∧
          ((∀ other ∈ bindings, other.IsAlike binding → other = binding) →
            ∀ p ∈ parameters, p.name = (binding.parameter context.writeTime).name →
              p = binding.parameter context.writeTime) := by
  intro s member
  obtain ⟨first, source, before, statement, -, shared⟩ := View.plan_stands planned member
  refine ⟨first, source, before, statement, fun parameters bound => ?_⟩
  obtain ⟨w, origin, plans, rfl, shares⟩ := shared parameters bound
  obtain ⟨e, data, bindings, hasSource, own⟩ := plans.bindsOwn
  have given : ∀ row node, origin = .node row node → s.statement.given = w.statement.given := by
    rintro row node rfl
    rw [statement]
    exact plans.given_shared before shares
  refine ⟨w, origin, e, data, bindings, shares, plans, given, hasSource, rfl, plans.bindsPlaceholders, own,
    fun binding _ => ⟨fun other _ => Binding.parameter_name_eq_iff, fun alone p bound same => ?_⟩⟩
  rw [own.parameters] at bound
  obtain ⟨other, inside, rfl⟩ := List.mem_map.mp bound
  rw [alone other inside (Binding.parameter_name_eq_iff.mp same)]

namespace Catalog

open Outline (column entity)

def outline : Outline where
  definitions := [entity "Item" "item" [column "id" "id" .bigInt true, column "unitPrice" "unit price" .varchar false,
    column "unit_price" "unit_price" .varchar false]]
  roots := ["Item"]

def priced (compiled : CompiledView) : View :=
  (View.ofRows compiled [
    [("id", .int 1), ("rootKey", .int 1), ("unitPrice", .text "a"), ("unit_price", .text "b")]]).edited
      [⟨.text "x", 0, "unitPrice"⟩, ⟨.text "y", 0, "unit_price"⟩]

set_option maxRecDepth 100000 in
/-- The parameters of an item with two prices belong to their columns. -/
theorem prices_have_parameters : ∃ compiled plan, outline.view? = some compiled ∧
    ((priced compiled).plan {} Sample.context).2 = .ok plan ∧ plan.statements.length = 1 ∧
    ∀ s ∈ plan.statements, ∀ parameters ∈ s.batch, ∃ w e data bindings, w.parameters = parameters ∧
      parameters.map (·.name) = w.statement.placeholders ∧
      BindsOwn w e Sample.context.writeTime data bindings ∧ ∀ first ∈ bindings, ∀ second ∈ bindings,
        (second.parameter Sample.context.writeTime).name = (first.parameter Sample.context.writeTime).name ↔
          second.IsAlike first := by
  have checked : (outline.view?.map fun compiled =>
      ((priced compiled).plan {} Sample.context).2.toOption.any (·.statements.length == 1)) = some true := by
    decide +kernel
  obtain ⟨compiled, found, checked⟩ := Option.map_eq_some_iff.mp checked
  obtain ⟨plan, succeeded, single⟩ := (Option.any_eq_true ..).mp checked
  have planned := eq_ok_of_toOption succeeded
  refine ⟨compiled, plan, found, planned, beq_iff_eq.mp single, fun s member parameters bound => ?_⟩
  obtain ⟨first, -, -, -, bindsEach⟩ := parameters_belong_to_plain_names planned s member
  obtain ⟨w, -, e, data, bindings, -, -, -, -, same, names, own, alike⟩ := bindsEach parameters bound
  exact ⟨w, e, data, bindings, same, names, own, fun first member => (alike first member).1⟩

def boundTo (parameters : List BoundParameter) (text : String) : List String :=
  (parameters.filter fun p => p.value == .text text).map (·.name)

set_option maxRecDepth 100000 in
theorem prices_share_parameter : ∃ compiled plan s parameters, outline.view? = some compiled ∧
    ((priced compiled).plan {} Sample.context).2 = .ok plan ∧ plan.statements = [s] ∧ s.batch = [parameters] ∧
    s.statement.assignments.map (fun given => (given.1, given.2.placeholders)) =
      [("unit price", ["v_unit_price"]), ("unit_price", ["v_unit_price"])] ∧
    boundTo parameters "x" = ["v_unit_price"] ∧ boundTo parameters "y" = ["v_unit_price"] := by
  have checked : (outline.view?.map fun compiled =>
      ((priced compiled).plan {} Sample.context).2.toOption.any fun plan =>
        plan.statements.map (fun s => (s.statement.assignments.map (fun given => (given.1, given.2.placeholders)),
          s.batch.map fun parameters => (boundTo parameters "x", boundTo parameters "y"))) ==
            [([("unit price", ["v_unit_price"]), ("unit_price", ["v_unit_price"])],
              [(["v_unit_price"], ["v_unit_price"])])]) = some true := by
    decide +kernel
  obtain ⟨compiled, found, checked⟩ := Option.map_eq_some_iff.mp checked
  obtain ⟨plan, succeeded, form⟩ := (Option.any_eq_true ..).mp checked
  obtain ⟨s, single, form⟩ := List.map_eq_singleton_iff.mp (beq_iff_eq.mp form)
  obtain ⟨assigned, form⟩ := Prod.mk.injEq .. ▸ form
  obtain ⟨parameters, batch, form⟩ := List.map_eq_singleton_iff.mp form
  obtain ⟨first, second⟩ := Prod.mk.injEq .. ▸ form
  exact ⟨compiled, plan, s, parameters, found, eq_ok_of_toOption succeeded, single, batch, assigned, first, second⟩

end Catalog

end ViewEngine
