-- The laws of cells. A record holds one cell for each name of its kind's schema, so it is known by
-- what is read under these names.
import NetEditor.Layer.Record
import Mathlib.Data.List.Forall2

namespace NetEditor.Layer

/-- Cells are related in turn once they are under each name, for the first name of a schema reads
the first cell and no later one does. -/
theorem forall₂_of_readCell {R : Option Value → Option Value → Prop} {params : List Param}
    {cells cells' : List (Option Value)} (hnames : (params.map (·.name)).Nodup)
    (hfits : fitsSchema params cells = true) (hfits' : fitsSchema params cells' = true)
    (h : ∀ param ∈ params, R (readCell param.name params cells)
      (readCell param.name params cells')) : List.Forall₂ R cells cells' := by
  fun_induction fitsSchema params cells generalizing cells' with
  | case1 =>
    cases cells' with
    | nil => exact .nil
    | cons cell' rest' => simp [fitsSchema] at hfits'
  | case2 param params cell cells ih =>
    cases cells' with
    | nil => simp [fitsSchema] at hfits'
    | cons cell' rest' =>
      simp only [fitsSchema, Bool.and_eq_true] at hfits hfits'
      rw [List.map_cons, List.nodup_cons] at hnames
      rw [List.forall_mem_cons] at h
      refine .cons ?_ (ih hnames.2 hfits.2 hfits'.2 fun other ho => ?_)
      · simpa [readCell] using h.1
      · have hne : param.name ≠ other.name := fun heq => hnames.1 (heq ▸ List.mem_map_of_mem ho)
        simpa [readCell, hne] using h.2 other ho
  | case3 => simp at hfits

/-- There is no cell for a name that is not in the schema. -/
theorem readCell_eq_none {name : String} {params : List Param}
    (h : ∀ param ∈ params, param.name ≠ name) (cells : List (Option Value)) :
    readCell name params cells = none := by
  fun_induction readCell name params cells with
  | case1 param params cell cells hname => exact absurd hname (h param List.mem_cons_self)
  | case2 param params cell cells hname ih =>
    exact ih fun other hother => h other (List.mem_cons_of_mem _ hother)
  | case3 => rfl

/-- Equality of two cells with reals taken as numbers. -/
def sameCell : Option Value → Option Value → Bool
  | none, none => true
  | some a, some b => a.same b
  | _, _ => false

namespace Record

variable {a b : Record}

theorem forall₂_cells {R : Option Value → Option Value → Prop} (hkind : a.kind = b.kind)
    (h : ∀ param ∈ a.kind.schema, R (a.get? param.name) (b.get? param.name)) :
    List.Forall₂ R a.cells b.cells := by
  refine forall₂_of_readCell a.kind.schema_names_nodup a.fits (hkind ▸ b.fits) fun param hp => ?_
  have hparam := h param hp
  unfold get? at hparam
  rwa [← hkind] at hparam

/-- Records of one kind with the same values under all names are the same. -/
theorem eq_of_get? (hkind : a.kind = b.kind)
    (h : ∀ param ∈ a.kind.schema, a.get? param.name = b.get? param.name) : a = b := by
  have hcells : a.cells = b.cells := by
    have hall := forall₂_cells (R := Eq) hkind h
    rwa [List.forall₂_eq_eq_eq] at hall
  cases a
  cases b
  simp_all

theorem same_of_get? (hkind : a.kind = b.kind)
    (h : ∀ param ∈ a.kind.schema, sameCell (a.get? param.name) (b.get? param.name) = true) :
    a.same b = true := by
  have hcells := forall₂_cells (R := fun x y => sameCell x y = true) hkind h
  unfold same
  rw [decide_eq_true hkind, Bool.true_and, List.all_eq_true]
  rintro ⟨x, y⟩ hm
  have hsame := List.forall₂_zip hcells hm
  unfold sameCell at hsame
  cases x <;> cases y <;> simp_all

end Record

end NetEditor.Layer
