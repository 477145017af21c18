import Mathlib.Data.List.Forall2

namespace ViewEngine

variable {α β ε : Type}

/-- What stands in relation to another list, item by item, has a counterpart there. -/
theorem exists_of_mem_left {R : α → β → Prop} {items : List α} {others : List β} (each : List.Forall₂ R items others)
    {a : α} (member : a ∈ items) : ∃ b ∈ others, R a b := by
  induction each with
  | nil => contradiction
  | cons first _ ih =>
      rcases List.mem_cons.mp member with rfl | later
      · exact ⟨_, List.mem_cons_self .., first⟩
      · obtain ⟨b, inside, related⟩ := ih later
        exact ⟨b, List.mem_cons_of_mem _ inside, related⟩

theorem bind_eq_ok {x : Except ε α} {f : α → Except ε β} {b : β} :
    x >>= f = .ok b ↔ ∃ a, x = .ok a ∧ f a = .ok b := by
  cases x with
  | error cause => simp [bind, Except.bind]
  | ok a => simp [bind, Except.bind]

theorem map_eq_ok {x : Except ε α} {f : α → β} {b : β} :
    x.map f = .ok b ↔ ∃ a, x = .ok a ∧ f a = b := by
  cases x with
  | error cause => simp [Except.map]
  | ok a => simp [Except.map]

theorem mapError_eq_ok {δ : Type} {x : Except ε α} {f : ε → δ} {a : α} : x.mapError f = .ok a ↔ x = .ok a := by
  cases x with
  | error cause => simp [Except.mapError]
  | ok b => simp [Except.mapError]

theorem eq_ok_of_toOption {x : Except ε α} {a : α} (found : x.toOption = some a) : x = .ok a := by
  cases x with
  | error cause => contradiction
  | ok b => exact congrArg Except.ok (Option.some.inj found)

theorem eq_ok_of_isOk {x : Except ε Unit} (succeeded : x.isOk = true) : x = .ok () := by
  cases x with
  | error cause => contradiction
  | ok done => rfl

theorem exists_eq_ok_of_isOk {x : Except ε α} (succeeded : x.isOk = true) : ∃ a, x = .ok a := by
  cases x with
  | error cause => contradiction
  | ok a => exact ⟨a, rfl⟩

theorem toOption_congr {δ : Type} {x : Except ε α} {y : Except δ α} (same : ∀ a, x = .ok a ↔ y = .ok a) :
    x.toOption = y.toOption := by
  cases x with
  | ok a => rw [(same a).mp rfl]; rfl
  | error cause =>
      cases y with
      | error => rfl
      | ok a => cases (same a).mpr rfl

theorem exists_ok_of_optionMapM {f : α → Except ε β} {item : Option α} {result : β}
    (succeeded : item.mapM f = .ok (some result)) : ∃ given, item = some given ∧ f given = .ok result := by
  cases item with
  | none => cases succeeded
  | some given =>
      obtain ⟨other, found, same⟩ := map_eq_ok.mp succeeded
      cases same
      exact ⟨given, rfl, found⟩

theorem ok_of_forM {f : α → Except ε Unit} {items : List α} (succeeded : items.forM f = .ok ())
    {item : α} (member : item ∈ items) : f item = .ok () := by
  induction items with
  | nil => contradiction
  | cons first rest ih =>
      obtain ⟨⟨⟩, checked, succeeded⟩ := bind_eq_ok.mp succeeded
      rcases List.mem_cons.mp member with rfl | later
      · exact checked
      · exact ih succeeded later

theorem foldlM_keeps {P : β → Prop} {f : β → α → Except ε β} {items : List α} {start result : β}
    (kept : ∀ before item after, P before → f before item = .ok after → P after) (first : P start)
    (succeeded : items.foldlM f start = .ok result) : P result := by
  induction items generalizing start with
  | nil =>
      cases succeeded
      exact first
  | cons item rest ih =>
      obtain ⟨next, found, succeeded⟩ := bind_eq_ok.mp succeeded
      exact ih (kept start item next first found) succeeded

theorem mapM_eq_ok {f : α → Except ε β} {g : α → β} {items : List α}
    (each : ∀ item ∈ items, f item = .ok (g item)) : items.mapM f = .ok (items.map g) := by
  induction items with
  | nil => rfl
  | cons item rest ih =>
      rw [List.mapM_cons, each item (List.mem_cons_self ..),
        ih fun other member => each other (List.mem_cons_of_mem _ member)]
      rfl

theorem forall₂_of_mapM {f : α → Except ε β} {items : List α} {results : List β}
    (succeeded : items.mapM f = .ok results) :
    List.Forall₂ (fun item result => f item = .ok result) items results := by
  induction items generalizing results with
  | nil =>
      cases succeeded
      exact .nil
  | cons item rest ih =>
      rw [List.mapM_cons] at succeeded
      obtain ⟨first, found, succeeded⟩ := bind_eq_ok.mp succeeded
      obtain ⟨others, remaining, succeeded⟩ := bind_eq_ok.mp succeeded
      cases succeeded
      exact .cons found (ih remaining)

theorem exists_of_mem_mapM {f : α → Except ε β} {items : List α} {results : List β}
    (succeeded : items.mapM f = .ok results) {result : β} (member : result ∈ results) :
    ∃ item ∈ items, f item = .ok result :=
  exists_of_mem_left (forall₂_of_mapM succeeded).flip member

theorem exists_ok_of_mapM {f : α → Except ε β} {items : List α} {results : List β}
    (succeeded : items.mapM f = .ok results) {item : α} (member : item ∈ items) :
    ∃ result ∈ results, f item = .ok result :=
  exists_of_mem_left (forall₂_of_mapM succeeded) member

inductive Correspond (related : α → β → Prop) : Except ε α → Except ε β → Prop
  | error (cause : ε) : Correspond related (.error cause) (.error cause)
  | ok {a : α} {b : β} (same : related a b) : Correspond related (.ok a) (.ok b)

namespace Correspond

variable {γ δ : Type} {related : α → β → Prop} {further : γ → δ → Prop} {x : Except ε α} {y : Except ε β}

theorem bind {f : α → Except ε γ} {g : β → Except ε δ} (first : Correspond related x y)
    (next : ∀ a b, related a b → Correspond further (f a) (g b)) : Correspond further (x >>= f) (y >>= g) := by
  cases first with
  | error cause => exact .error cause
  | ok same => exact next _ _ same

theorem bind_right {f : α → Except ε γ} {g : α → Except ε δ} (next : ∀ a, Correspond further (f a) (g a)) :
    Correspond further (x >>= f) (x >>= g) := by
  cases x with
  | error cause => exact .error cause
  | ok a => exact next a

theorem map {f : α → γ} {g : β → δ} (first : Correspond related x y) (next : ∀ a b, related a b → further (f a) (g b)) :
    Correspond further (x.map f) (y.map g) := by
  cases first with
  | error cause => exact .error cause
  | ok same => exact .ok (next _ _ same)

theorem mapM {items : List γ} {f : γ → Except ε α} {g : γ → Except ε β}
    (each : ∀ item, Correspond related (f item) (g item)) :
    Correspond (List.Forall₂ related) (items.mapM f) (items.mapM g) := by
  induction items with
  | nil => exact .ok .nil
  | cons item rest ih =>
      simp only [List.mapM_cons]
      exact (each item).bind fun a b same => ih.bind fun as bs alike => .ok (.cons same alike)

theorem exists_ok {a : α} (alike : Correspond related x y) (succeeded : x = .ok a) : ∃ b, y = .ok b ∧ related a b := by
  subst succeeded
  cases alike with
  | ok same => exact ⟨_, rfl, same⟩

end Correspond

end ViewEngine
