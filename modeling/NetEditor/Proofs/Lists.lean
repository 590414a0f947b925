-- Lists parted at the first or the last item of a kind, and lists whose items go together in turn.
-- At the end, what a result is that was mapped.
import Mathlib.Data.List.Forall2

namespace NetEditor

/-- Either all items have the property, or the first one without it parts the list. -/
theorem forall_or_first {α : Type} (p : α → Prop) (items : List α) :
    (∀ item ∈ items, p item) ∨ ∃ front item back, items = front ++ item :: back ∧
      (∀ other ∈ front, p other) ∧ ¬ p item := by
  induction items with
  | nil => exact Or.inl (List.forall_mem_nil _)
  | cons first rest ih =>
    by_cases hfirst : p first
    · rcases ih with hrest | ⟨front, item, back, rfl, hfront, hitem⟩
      · exact Or.inl (List.forall_mem_cons.mpr ⟨hfirst, hrest⟩)
      · exact Or.inr ⟨first :: front, item, back, rfl,
          List.forall_mem_cons.mpr ⟨hfirst, hfront⟩, hitem⟩
    · exact Or.inr ⟨[], first, rest, rfl, List.forall_mem_nil _, hfirst⟩

/-- Either all items have the property, or the last one without it parts the list. -/
theorem forall_or_last {α : Type} (p : α → Prop) (items : List α) :
    (∀ item ∈ items, p item) ∨ ∃ front item back, items = front ++ item :: back ∧
      ¬ p item ∧ ∀ other ∈ back, p other := by
  rcases forall_or_first p items.reverse with hall | ⟨back, item, front, hsplit, hback, hitem⟩
  · exact Or.inl fun item hmem => hall item (List.mem_reverse.mpr hmem)
  · refine Or.inr ⟨front.reverse, item, back.reverse, ?_, hitem, fun other hmem =>
      hback other (List.mem_reverse.mp hmem)⟩
    rw [← List.reverse_reverse items, hsplit, List.reverse_append, List.reverse_cons,
      List.append_assoc, List.singleton_append]

/-- The first item of a list that is parted stands before the item that parts it, or is it. -/
theorem headD_of_split {α : Type} {first item : α} {rest front back : List α}
    (h : first :: rest = front ++ item :: back) : front.headD item = first := by
  cases front with
  | nil => exact (List.cons.inj h).1.symm
  | cons => exact (List.cons.inj h).1.symm

theorem exists_forall₂ {α β : Type} {R : α → β → Prop} {items : List α}
    (h : ∀ item ∈ items, ∃ result, R item result) : ∃ results, List.Forall₂ R items results := by
  induction items with
  | nil => exact ⟨[], .nil⟩
  | cons item rest ih =>
    obtain ⟨⟨result, hresult⟩, hrest⟩ := List.forall_mem_cons.mp h
    obtain ⟨results, hresults⟩ := ih hrest
    exact ⟨result :: results, .cons hresult hresults⟩

/-- What is true of a result by its item is true of all results. -/
theorem forall_right_of_forall₂ {α β : Type} {R : α → β → Prop} {p : β → Prop} {items : List α}
    {results : List β} (h : List.Forall₂ R items results)
    (hp : ∀ item result, R item result → p result) : ∀ result ∈ results, p result := by
  induction h with
  | nil => exact List.forall_mem_nil _
  | cons hfirst _ ih => exact List.forall_mem_cons.mpr ⟨hp _ _ hfirst, ih⟩

/-- What is true of an item by its result is true of all items. -/
theorem forall_left_of_forall₂ {α β : Type} {R : α → β → Prop} {p : α → Prop} {items : List α}
    {results : List β} (h : List.Forall₂ R items results)
    (hp : ∀ item result, R item result → p item) : ∀ item ∈ items, p item :=
  forall_right_of_forall₂ (List.Forall₂.flip h) fun result item => hp item result

/-- Where every item has a result, the results stand one for one in the order of the items. -/
theorem forall₂_filterMap {α β : Type} {f : α → Option β} {items : List α}
    (h : ∀ item ∈ items, ∃ result, f item = some result) :
    List.Forall₂ (fun item result => f item = some result) items (items.filterMap f) := by
  induction items with
  | nil => exact .nil
  | cons item rest ih =>
    obtain ⟨result, hresult⟩ := h item List.mem_cons_self
    rw [List.filterMap_cons_some hresult]
    exact .cons hresult (ih fun other ho => h other (List.mem_cons_of_mem item ho))

theorem exists_of_forall₂ {α β : Type} {R : α → β → Prop} {items : List α} {results : List β}
    (h : List.Forall₂ R items results) {item : α} (hm : item ∈ items) :
    ∃ result ∈ results, R item result := by
  induction h with
  | nil => simp at hm
  | cons hr _ ih =>
    rcases List.mem_cons.mp hm with rfl | hm
    · exact ⟨_, List.mem_cons_self, hr⟩
    · obtain ⟨result, hres, hrel⟩ := ih hm
      exact ⟨result, List.mem_cons_of_mem _ hres, hrel⟩

/-- Items with one of two properties, counted by each property, are counted twice if they have
both. -/
theorem countP_or_add_countP_and {α : Type} (p q : α → Bool) (items : List α) :
    (items.countP fun item => p item || q item) + (items.countP fun item => p item && q item) =
      items.countP p + items.countP q := by
  induction items with
  | nil => rfl
  | cons item rest ih =>
    simp only [List.countP_cons]
    cases p item <;> cases q item <;> simp <;> omega

end NetEditor

namespace Except

variable {ε α β : Type} {x : Except ε α} {f : α → β}

theorem map_eq_ok_iff {b : β} : x.map f = .ok b ↔ ∃ a, x = .ok a ∧ f a = b := by
  cases x <;> simp [Except.map]

theorem map_eq_error_iff {e : ε} : x.map f = .error e ↔ x = .error e := by
  cases x <;> simp [Except.map]

end Except
