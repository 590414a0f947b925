-- The laws of names. A name that the editor gives tells the kind and the serial number of its
-- node, and the name of an edge between two such nodes tells its ends. Items with names of their
-- own are found under them.
import NetEditor.Node.Basic
import Mathlib.Data.List.Nodup

namespace NetEditor

/-! ## Items under their names -/

/-- Where no two items have the same name, the one found under the name of an item is that item. -/
theorem find?_of_mem_of_nodup {α β : Type} [DecidableEq β] {name : α → β} {items : List α}
    {item : α} (h : (items.map name).Nodup) (hm : item ∈ items) :
    items.find? (fun other => name other = name item) = some item := by
  cases hf : items.find? fun other => name other = name item with
  | none => simpa using List.find?_eq_none.mp hf item hm
  | some other =>
    have hname : name other = name item := by simpa using List.find?_some hf
    rw [List.inj_on_of_nodup_map h (List.mem_of_find?_eq_some hf) hm hname]

/-! ## Names of nodes -/

namespace NodeId

theorem text_injective {a b : NodeId} (h : a.text = b.text) : a = b := by
  cases a; cases b; simp_all

theorem numbered_toList (kind : Layer.Kind) (serial : Nat) :
    (numbered kind serial).text.toList =
      kind.name.toList ++ '_' :: Nat.toDigits 10 serial := by
  simp [numbered]

theorem underscore_notMem_name (kind : Layer.Kind) : '_' ∉ kind.name.toList := by
  cases kind <;> decide

theorem dash_notMem_name (kind : Layer.Kind) : '-' ∉ kind.name.toList := by
  cases kind <;> decide

theorem dash_notMem_toDigits (n : Nat) : '-' ∉ Nat.toDigits 10 n := by
  intro h
  have hd := Nat.isDigit_of_mem_toDigits (by decide) (by decide) h
  simp at hd

theorem toDigits_injective {m n : Nat} (h : Nat.toDigits 10 m = Nat.toDigits 10 n) : m = n := by
  rw [← Nat.ofDigitChars_ten_toDigits (n := m), h, Nat.ofDigitChars_ten_toDigits]

/-- Two nodes have one name only if they are of one kind and one serial number. The first
underscore parts the two, for no kind has one in its name. -/
theorem numbered_inj {a b : Layer.Kind} {m n : Nat} :
    numbered a m = numbered b n ↔ a = b ∧ m = n := by
  constructor
  · intro h
    have ht := congrArg (fun id : NodeId => id.text.toList) h
    simp only [numbered_toList] at ht
    rw [List.append_cons_inj_of_notMem (underscore_notMem_name a)
      Nat.underscore_not_in_toDigits] at ht
    obtain ⟨hname, _, hdigits⟩ := ht
    exact ⟨Layer.Kind.name_injective (String.toList_inj.mp hname), toDigits_injective hdigits⟩
  · rintro ⟨rfl, rfl⟩
    rfl

/-- The name is one that the editor gives. -/
def IsNumbered (id : NodeId) : Prop := ∃ kind serial, id = numbered kind serial

theorem IsNumbered.dash_notMem {id : NodeId} (h : id.IsNumbered) : '-' ∉ id.text.toList := by
  obtain ⟨kind, serial, rfl⟩ := h
  rw [numbered_toList, List.mem_append, List.mem_cons]
  rintro (h | h | h)
  · exact dash_notMem_name kind h
  · simp at h
  · exact dash_notMem_toDigits serial h

end NodeId

/-! ## Names of edges -/

namespace EdgeId

theorem between_toList (source target : NodeId) :
    (between source target).text.toList =
      source.text.toList ++ '-' :: '>' :: target.text.toList := by
  simp [between]

/-- The arrow parts the two ends, for no name that the editor gives has a dash. -/
theorem between_inj {s t s' t' : NodeId} (hs : s.IsNumbered) (ht : t.IsNumbered) :
    between s t = between s' t' ↔ s = s' ∧ t = t' := by
  constructor
  · intro h
    have hl := congrArg (fun id : EdgeId => id.text.toList) h
    simp only [between_toList] at hl
    have hrest : '-' ∉ '>' :: t.text.toList := by simp [ht.dash_notMem]
    rw [List.append_cons_inj_of_notMem hs.dash_notMem hrest] at hl
    obtain ⟨h1, _, h2⟩ := hl
    exact ⟨NodeId.text_injective (String.toList_inj.mp h1),
      NodeId.text_injective (String.toList_inj.mp (List.cons.inj h2).2)⟩
  · rintro ⟨rfl, rfl⟩
    rfl

end EdgeId

end NetEditor
