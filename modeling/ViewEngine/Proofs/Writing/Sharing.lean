import ViewEngine.View.Write

namespace ViewEngine

/-- A write can be carried out by the statement of another one. -/
def Write.Shares (w first : Write) : Prop :=
  w = first ∨ (w.batch.isSome = true ∧ w.batch = first.batch)

namespace PlannedStatement

variable {w : Write} {writes : List Write} {statements : List PlannedStatement} {s : PlannedStatement}

/-- A statement is that of one of the writes, and binds what is bound for those that share it. -/
structure StandsFor (writes : List Write) (s : PlannedStatement) (first : Write) : Prop where
  member : first ∈ writes
  form : s = { ofWrite first with batch := s.batch }
  shared : ∀ parameters ∈ s.batch, ∃ w ∈ writes, parameters = w.parameters ∧ w.Shares first

theorem standsFor_ofWrite (member : w ∈ writes) : (ofWrite w).StandsFor writes w where
  member := member
  form := rfl
  shared _ bound := ⟨w, member, List.mem_singleton.mp bound, .inl rfl⟩

theorem standsFor_add (member : w ∈ writes) (before : ∀ s ∈ statements, ∃ first, s.StandsFor writes first) :
    ∀ s ∈ add w statements, ∃ first, s.StandsFor writes first := by
  induction statements with
  | nil =>
      rintro s (_ | ⟨_, ⟨⟩⟩)
      exact ⟨w, standsFor_ofWrite member⟩
  | cons other rest ih =>
      intro s inside
      unfold add at inside
      split at inside
      next same =>
        rw [Bool.and_eq_true, beq_iff_eq] at same
        rcases List.mem_cons.mp inside with rfl | later
        · obtain ⟨first, stands⟩ := before other (List.mem_cons_self ..)
          have batchKey : other.batchKey = first.batch := congrArg batchKey stands.form
          refine ⟨first, stands.member, ?_, fun parameters bound => ?_⟩
          · rw [stands.form]
          · rcases List.mem_append.mp bound with old | new
            · exact stands.shared parameters old
            · exact ⟨w, member, List.mem_singleton.mp new, .inr ⟨same.1, same.2.symm.trans batchKey⟩⟩
        · exact before s (List.mem_cons_of_mem _ later)
      next =>
        rcases List.mem_cons.mp inside with rfl | later
        · exact before s (List.mem_cons_self ..)
        · exact ih (fun s old => before s (List.mem_cons_of_mem _ old)) s later

theorem standsFor_foldl {added : List Write} (members : ∀ w ∈ added, w ∈ writes)
    (before : ∀ s ∈ statements, ∃ first, s.StandsFor writes first) :
    ∀ s ∈ added.foldl (fun statements w => add w statements) statements, ∃ first, s.StandsFor writes first := by
  induction added generalizing statements with
  | nil => exact before
  | cons w rest ih =>
      exact ih (fun w later => members w (List.mem_cons_of_mem _ later))
        (standsFor_add (members w (List.mem_cons_self ..)) before)

theorem exists_standsFor (member : s ∈ ofWrites writes) : ∃ first, s.StandsFor writes first :=
  standsFor_foldl (fun _ inside => inside) (fun _ none => absurd none List.not_mem_nil) s member

structure Carries (s : PlannedStatement) (w : Write) : Prop where
  bound : w.parameters ∈ s.batch
  form : s = { ofWrite w with batch := s.batch } ∨ (w.batch.isSome = true ∧ s.batchKey = w.batch)

theorem exists_carries_add (w : Write) (statements : List PlannedStatement) :
    ∃ s ∈ add w statements, s.Carries w := by
  induction statements with
  | nil => exact ⟨ofWrite w, List.mem_cons_self .., List.mem_cons_self .., .inl rfl⟩
  | cons other rest ih =>
      unfold add
      split
      next same =>
        rw [Bool.and_eq_true, beq_iff_eq] at same
        exact ⟨_, List.mem_cons_self .., List.mem_append_right _ (List.mem_singleton_self _), .inr same⟩
      next =>
        obtain ⟨s, later, carries⟩ := ih
        exact ⟨s, List.mem_cons_of_mem _ later, carries⟩

theorem Carries.add {other : Write} (carries : s.Carries w) (member : s ∈ statements) :
    ∃ s ∈ add other statements, s.Carries w := by
  induction statements with
  | nil => contradiction
  | cons first rest ih =>
      unfold PlannedStatement.add
      split
      next =>
        rcases List.mem_cons.mp member with rfl | later
        · refine ⟨_, List.mem_cons_self .., List.mem_append_left _ carries.bound, carries.form.imp_left ?_⟩
          intro form
          rw [form]
        · exact ⟨s, List.mem_cons_of_mem _ later, carries⟩
      next =>
        rcases List.mem_cons.mp member with rfl | later
        · exact ⟨s, List.mem_cons_self .., carries⟩
        · obtain ⟨s, inside, carries⟩ := ih later
          exact ⟨s, List.mem_cons_of_mem _ inside, carries⟩

theorem exists_carries_foldl {added : List Write}
    (planned : w ∈ added ∨ ∃ s ∈ statements, s.Carries w) :
    ∃ s ∈ added.foldl (fun statements w => add w statements) statements, s.Carries w := by
  induction added generalizing statements with
  | nil => exact planned.resolve_left List.not_mem_nil
  | cons other rest ih =>
      refine ih ?_
      rcases planned with inside | ⟨s, member, carries⟩
      · rcases List.mem_cons.mp inside with rfl | later
        · exact .inr (exists_carries_add w statements)
        · exact .inl later
      · exact .inr (carries.add member)

theorem exists_carries (member : w ∈ writes) : ∃ s ∈ ofWrites writes, s.Carries w :=
  exists_carries_foldl (.inl member)

/-- The statement that carries a write out has the form of a write that shares it. -/
theorem Carries.shares {first : Write} (carries : s.Carries w) (stands : s.StandsFor writes first) :
    s.statement = w.statement ∨ w.Shares first := by
  rcases carries.form with form | ⟨shared, key⟩
  · exact .inl (congrArg statement form)
  · exact .inr (.inr ⟨shared, key.symm.trans (congrArg batchKey stands.form)⟩)

theorem batches_add (w : Write) (statements : List PlannedStatement) :
    ((add w statements).flatMap (·.batch)).Perm (w.parameters :: statements.flatMap (·.batch)) := by
  induction statements with
  | nil => exact .refl _
  | cons first rest ih =>
      unfold add
      split
      · rw [List.flatMap_cons, List.flatMap_cons, List.append_assoc]
        exact List.perm_middle
      · rw [List.flatMap_cons, List.flatMap_cons]
        exact (ih.append_left _).trans List.perm_middle

theorem batches_ofWrites (writes : List Write) :
    ((ofWrites writes).flatMap (·.batch)).Perm (writes.map (·.parameters)) := by
  have folded (statements : List PlannedStatement) :
      ((writes.foldl (fun statements w => add w statements) statements).flatMap (·.batch)).Perm
        (writes.map (·.parameters) ++ statements.flatMap (·.batch)) := by
    induction writes generalizing statements with
    | nil => exact .refl _
    | cons w rest ih =>
        rw [List.foldl_cons, List.map_cons]
        exact (ih _).trans (((batches_add w statements).append_left _).trans List.perm_middle)
  simpa [ofWrites] using folded []

theorem ofWrite_mem_add (alone : w.batch = none) (statements : List PlannedStatement) :
    ofWrite w ∈ add w statements := by
  induction statements with
  | nil => exact List.mem_singleton_self _
  | cons other rest ih =>
      unfold add
      rw [alone]
      exact List.mem_cons_of_mem _ ih

theorem mem_add_of_alone {other : Write} (alone : s.batchKey = none) (member : s ∈ statements) :
    s ∈ add other statements := by
  induction statements with
  | nil => contradiction
  | cons first rest ih =>
      unfold add
      split
      next same =>
        rw [Bool.and_eq_true, beq_iff_eq] at same
        refine List.mem_cons.mpr (.inr ((List.mem_cons.mp member).resolve_left ?_))
        rintro rfl
        rw [← same.2, alone] at same
        simp at same
      next => exact List.mem_cons.mpr ((List.mem_cons.mp member).imp_right ih)

theorem ofWrite_mem_foldl {added : List Write} (alone : w.batch = none)
    (among : w ∈ added ∨ ofWrite w ∈ statements) :
    ofWrite w ∈ added.foldl (fun statements w => add w statements) statements := by
  induction added generalizing statements with
  | nil => exact among.resolve_left List.not_mem_nil
  | cons first rest ih =>
      refine ih ?_
      rcases among with member | before
      · rcases List.mem_cons.mp member with rfl | later
        · exact .inr (ofWrite_mem_add alone statements)
        · exact .inl later
      · exact .inr (mem_add_of_alone alone before)

theorem ofWrite_mem (member : w ∈ writes) (alone : w.batch = none) : ofWrite w ∈ ofWrites writes :=
  ofWrite_mem_foldl alone (.inl member)

end PlannedStatement

end ViewEngine
