import ClassAtlas.Layer.Stack

/-!
What a stack of layers says about a name: the first layer that holds it answers.
-/

namespace ClassAtlas

theorem Layer.containsUnit_eq (l : Layer) (name : String) :
    l.containsUnit name = (l.unit? name).isSome := by
  rw [containsUnit, unit?, Option.isSome_map, Std.TreeMap.contains_eq_isSome_getElem?]

namespace LayerStack

variable {s : LayerStack} {name : String} {l : Layer}

theorem containing?_eq_some : s.containing? name = some l ↔
    l.containsUnit name = true ∧ ∃ before after, s.layers = before ++ l :: after ∧
      ∀ x ∈ before, x.containsUnit name = false := by
  simp [containing?, List.find?_eq_some_iff_append]

theorem hasUnit_eq (s : LayerStack) (name : String) :
    s.hasUnit name = (s.containing? name).isSome := by
  rw [Bool.eq_iff_iff, hasUnit, containing?, List.find?_isSome, List.any_eq_true]

/-- A unit is that of the layer that the name stands for. -/
theorem unit?_eq_bind (s : LayerStack) (name : String) :
    s.unit? name = (s.containing? name).bind (·.unit? name) := by
  rw [unit?, containing?]
  induction s.layers with
  | nil => rfl
  | cons x xs ih =>
    rw [List.findSome?_cons, List.find?_cons, x.containsUnit_eq]
    cases hx : x.unit? name with
    | none => exact ih
    | some u => exact hx.symm

theorem unit?_isSome (s : LayerStack) (name : String) :
    (s.unit? name).isSome = s.hasUnit name := by
  rw [unit?_eq_bind, hasUnit_eq]
  cases hl : s.containing? name with
  | none => rfl
  | some l =>
    rw [Option.bind_some, ← l.containsUnit_eq, (containing?_eq_some.mp hl).1, Option.isSome_some]

theorem mem_unitNames : name ∈ s.unitNames ↔ ∃ l ∈ s.project, l.containsUnit name = true := by
  rw [unitNames, Std.TreeSet.mem_ofList, List.contains_iff_mem, List.mem_flatMap]
  simp only [Layer.unitNames, Std.TreeMap.mem_keys, Layer.containsUnit, Std.TreeMap.contains_iff_mem]

theorem unit?_eq_or (s : LayerStack) (name : String) :
    s.unit? name = (s.project.findSome? (·.unit? name)).or (s.runtime.unit? name) := by
  rw [unit?, layers, List.findSome?_append, List.findSome?_singleton]

/-- The names of the project are names of units. -/
theorem hasUnit_of_mem (h : name ∈ s.unitNames) : s.hasUnit name = true := by
  obtain ⟨l, hl, hname⟩ := mem_unitNames.mp h
  exact List.any_eq_true.mpr ⟨l, List.mem_append_left _ hl, hname⟩

/-- A unit that is there has a layer that it comes from. -/
theorem exists_of_hasUnit (h : s.hasUnit name = true) :
    ∃ u l, s.unit? name = some u ∧ s.containing? name = some l := by
  obtain ⟨u, hu⟩ := Option.isSome_iff_exists.mp ((s.unit?_isSome name).trans h)
  obtain ⟨l, hl⟩ := Option.isSome_iff_exists.mp ((s.hasUnit_eq name).symm.trans h)
  exact ⟨u, l, hu, hl⟩

end LayerStack

end ClassAtlas
