import ClassAtlas.Proofs.Layer.Stack
import ClassAtlas.Proofs.Workspace.Freshness
import Mathlib.Data.List.InsertIdx

/-!
Which layer a name stands for. Every question about a name is answered by the first layer that holds
it, in the order of the primary layer, the libraries and the runtime layer, whatever was done to the
workspace before. Libraries that are added come behind what the project holds, and one that is moved
changes its place alone.
-/

namespace ClassAtlas

theorem PrimaryEdit.apply_kind (l : Layer) (e : PrimaryEdit) : (e.apply l).kind = l.kind := by
  cases e <;> rfl

namespace Workspace

/-- What a question is answered. -/
def answer {α : Type} (w : Workspace) (question : Session α) : α :=
  (question.run w).1

/-- The layers are marked by the parts that they play. -/
structure Marked (w : Workspace) : Prop where
  primary : w.primary.kind = .primary
  libraries : ∀ l ∈ w.libraries, l.kind = .library
  runtime : w.runtime.layer.kind = .runtime

/-- All that can be asked about a name is answered by the first layer that holds it. -/
structure Agrees (w : Workspace) (name : String) : Prop where
  held : w.answer (Session.hasUnit name) = (w.answer (Session.containing? name)).isSome
  found : w.answer (Session.hasUnit name) = (w.answer (Session.unit? name)).isSome
  unit : w.answer (Session.unit? name) = (w.answer (Session.containing? name)).bind (·.unit? name)
  first : ∀ l, w.answer (Session.containing? name) = some l ↔ l.containsUnit name = true ∧
    ∃ before after, w.primary :: w.libraries ++ [w.runtime.layer] = before ++ l :: after ∧
      ∀ x ∈ before, x.containsUnit name = false
  named : name ∈ w.stack.unitNames ↔
    ∃ l, w.answer (Session.containing? name) = some l ∧ l.kind ≠ .runtime

/-- Operations that put nothing in place of the primary layer. -/
def Operation.KeepsParts : Operation → Prop
  | exchange _ => False
  | _ => True

theorem Marked.kind_ne_runtime {w : Workspace} (h : w.Marked) {l : Layer}
    (hl : l ∈ w.primary :: w.libraries) : l.kind ≠ .runtime := by
  rcases List.mem_cons.mp hl with rfl | hl
  · simp [h.primary]
  · simp [h.libraries l hl]

theorem Marked.named_iff {w : Workspace} (h : w.Marked) (name : String) :
    name ∈ w.stack.unitNames ↔ ∃ l, w.stack.containing? name = some l ∧ l.kind ≠ .runtime := by
  rw [LayerStack.mem_unitNames]
  constructor
  · rintro ⟨l, hl, hholds⟩
    obtain ⟨first, hfirst⟩ := Option.isSome_iff_exists.mp
      (List.find?_isSome.mpr ⟨l, hl, hholds⟩ : (w.stack.project.find? (·.containsUnit name)).isSome)
    refine ⟨first, ?_, h.kind_ne_runtime (List.mem_of_find?_eq_some hfirst)⟩
    rw [LayerStack.containing?, LayerStack.layers, List.find?_append, hfirst, Option.some_or]
  · rintro ⟨l, hl, hkind⟩
    rcases List.mem_append.mp (List.mem_of_find?_eq_some hl) with hproject | hruntime
    · exact ⟨l, hproject, (LayerStack.containing?_eq_some.mp hl).1⟩
    · obtain rfl := List.mem_singleton.mp hruntime
      exact absurd h.runtime hkind

theorem Marked.agrees {w : Workspace} (h : w.Marked) (name : String) : w.Agrees name where
  held := w.stack.hasUnit_eq name
  found := (w.stack.unit?_isSome name).symm
  unit := w.stack.unit?_eq_bind name
  first _ := LayerStack.containing?_eq_some
  named := h.named_iff name

/-! ### Single operations -/

/-- Marks are those of the layers. -/
theorem Marked.same {w w' : Workspace} (h : w.Marked) (hstack : w'.stack = w.stack) : w'.Marked := by
  obtain ⟨⟨hprimary, hlibraries⟩, hruntime⟩ :
      (w'.primary = w.primary ∧ w'.libraries = w.libraries) ∧ w'.runtime.layer = w.runtime.layer := by
    simpa [stack] using hstack
  exact ⟨hprimary ▸ h.primary, hlibraries ▸ h.libraries, hruntime ▸ h.runtime⟩

theorem hierarchyGraph_stack (w : Workspace) : w.hierarchyGraph.2.stack = w.stack := by
  unfold hierarchyGraph
  cases w.hierarchy.value with
  | some g => rfl
  | none => exact w.consultForGraphs_same.1

theorem flowGraph_stack (w : Workspace) : w.flowGraph.2.stack = w.stack := by
  rw [← w.hierarchyGraph_stack]
  unfold flowGraph
  dsimp only
  cases w.hierarchyGraph.2.flow.value with
  | some g => rfl
  | none => exact w.hierarchyGraph.2.consultForGraphs_same.1

theorem reportChanges_stack (w : Workspace) (names : Std.TreeSet String) :
    (w.reportChanges names).stack = w.stack := by
  unfold reportChanges
  dsimp only
  split <;> rfl

theorem moveLibrary_eq_ok {w w' : Workspace} {source target : Nat} :
    w.moveLibrary source target = .ok w' ↔ ∃ l, w.libraries[source]? = some l ∧
      target < w.libraries.length ∧ w' = { w with
        libraries := (w.libraries.eraseIdx source).insertIdx target l }.invalidate := by
  unfold moveLibrary
  cases w.libraries[source]? with
  | none => simp
  | some l =>
    by_cases htarget : target < w.libraries.length
    · simp [htarget, eq_comm]
    · simp [htarget]

theorem removeLibrary_eq_ok {w w' : Workspace} {name : String} {l : Layer} :
    w.removeLibrary name = .ok (l, w') ↔ w.libraries.find? (·.name == name) = some l ∧
      w' = { w with libraries := w.libraries.eraseP (·.name == name) }.invalidate := by
  unfold removeLibrary
  cases w.libraries.find? (·.name == name) with
  | none => simp
  | some found => simp [eq_comm]

/-- Operations leave the marks as they are, and mark what they add. -/
theorem perform_marked {w : Workspace} (h : w.Marked) {op : Operation} (hop : op.KeepsParts) :
    (w.perform op).2.Marked := by
  cases op with
  | withRuntime r => exact ⟨h.primary, h.libraries, r.isRuntime⟩
  | withCodec c => exact h.same rfl
  | withFlags flags => exact h.same rfl
  | addLibrary l =>
    refine ⟨h.primary, fun x hx => ?_, h.runtime⟩
    rcases List.mem_append.mp hx with hx | hx
    · exact h.libraries x hx
    · rw [List.mem_singleton.mp hx]
      rfl
  | removeLibrary name =>
    rw [perform, Rework.removeLibrary_run]
    cases hremoved : w.removeLibrary name with
    | error e => exact h
    | ok found =>
      obtain ⟨-, hw'⟩ := removeLibrary_eq_ok.mp hremoved
      change found.2.Marked
      rw [hw']
      exact ⟨h.primary, fun x hx => h.libraries x (List.mem_of_mem_eraseP hx), h.runtime⟩
  | moveLibrary source target =>
    rw [perform, Rework.moveLibrary_run]
    cases hmoved : w.moveLibrary source target with
    | error e => exact h
    | ok w' =>
      obtain ⟨l, hl, htarget, rfl⟩ := moveLibrary_eq_ok.mp hmoved
      refine ⟨h.primary, fun x hx => ?_, h.runtime⟩
      rcases List.eq_or_mem_of_mem_insertIdx hx with rfl | hx
      · exact h.libraries x (List.mem_of_getElem? hl)
      · exact h.libraries x (List.mem_of_mem_eraseIdx hx)
  | invalidate => exact h.same rfl
  | edit e => exact ⟨(e.apply_kind w.primary).trans h.primary, h.libraries, h.runtime⟩
  | exchange l => exact hop.elim
  | reportChanges names => exact h.same (w.reportChanges_stack names)
  | hierarchyGraph => exact h.same w.hierarchyGraph_stack
  | flowGraph => exact h.same w.flowGraph_stack
  | commonSuperclass a b => exact h.same w.hierarchyGraph_stack
  | encodeUnit d => exact h.same w.hierarchyGraph_stack

theorem run_marked {w : Workspace} (h : w.Marked) {ops : List Operation}
    (hops : ∀ op ∈ ops, op.KeepsParts) : (w.run ops).Marked := by
  induction ops generalizing w with
  | nil => exact h
  | cons op ops ih =>
    obtain ⟨hop, hops⟩ := List.forall_mem_cons.mp hops
    exact ih (perform_marked h hop) hops

/-- One library changes its place, and nothing else does. -/
structure Moved (w w' : Workspace) (source target : Nat) : Prop where
  place : ∃ l, w.libraries[source]? = some l ∧ w'.libraries[target]? = some l
  others : w'.libraries.eraseIdx target = w.libraries.eraseIdx source
  primary : w'.primary = w.primary
  runtime : w'.runtime = w.runtime
  undone : w'.moveLibrary target source = .ok w.invalidate

theorem moveLibrary_moved {w w' : Workspace} {source target : Nat}
    (h : w.moveLibrary source target = .ok w') : w.Moved w' source target := by
  obtain ⟨l, hl, htarget, rfl⟩ := moveLibrary_eq_ok.mp h
  obtain ⟨hsource, hget⟩ := List.getElem?_eq_some_iff.mp hl
  have hlength : (w.libraries.eraseIdx source).length = w.libraries.length - 1 :=
    List.length_eraseIdx_of_lt hsource
  have hplace : ((w.libraries.eraseIdx source).insertIdx target l)[target]? = some l := by
    rw [List.getElem?_insertIdx_self, if_pos (by omega)]
  refine ⟨⟨l, hl, hplace⟩, List.eraseIdx_insertIdx_self l, rfl, rfl, ?_⟩
  have hback : (((w.libraries.eraseIdx source).insertIdx target l).eraseIdx target).insertIdx
      source l = w.libraries := by
    rw [List.eraseIdx_insertIdx_self, ← hget, List.insertIdx_eraseIdx_getElem hsource]
  refine moveLibrary_eq_ok.mpr ⟨l, hplace, ?_, ?_⟩
  · change source < ((w.libraries.eraseIdx source).insertIdx target l).length
    rw [List.length_insertIdx_of_le_length (by omega)]
    omega
  · simp only [invalidate, hback, Cell.drop]

/-- The first library of a name is taken out, and nothing else is. -/
structure Removed (w w' : Workspace) (name : String) (l : Layer) : Prop where
  named : l.name = name
  place : ∃ before after, w.libraries = before ++ l :: after ∧
    (∀ x ∈ before, x.name ≠ name) ∧ w'.libraries = before ++ after
  primary : w'.primary = w.primary
  runtime : w'.runtime = w.runtime

theorem removeLibrary_removed {w w' : Workspace} {name : String} {l : Layer}
    (h : w.removeLibrary name = .ok (l, w')) : w.Removed w' name l := by
  obtain ⟨hfind, rfl⟩ := removeLibrary_eq_ok.mp h
  obtain ⟨hname, before, after, hlibraries, hbefore⟩ := List.find?_eq_some_iff_append.mp hfind
  have hnone : ∀ x ∈ before, ¬ (x.name == name) = true := by simpa using hbefore
  refine ⟨by simpa using hname, ⟨before, after, hlibraries, by simpa using hbefore, ?_⟩, rfl, rfl⟩
  change w.libraries.eraseP (·.name == name) = before ++ after
  rw [hlibraries, List.eraseP_append_right _ hnone]
  exact congrArg _ (List.eraseP_cons_of_pos hname)

/-- A library that is added answers for the names that the project does not hold. -/
theorem addLibrary_unit? (w : Workspace) (l : Layer) (name : String) :
    (w.addLibrary l).answer (Session.unit? name) =
      if name ∈ w.stack.unitNames then w.answer (Session.unit? name)
      else (l.unit? name).or (w.runtime.layer.unit? name) := by
  have hadded : (w.addLibrary l).stack.unit? name =
      (w.stack.project.findSome? (·.unit? name)).or
        ((l.unit? name).or (w.runtime.layer.unit? name)) := by
    have hproject : (w.addLibrary l).stack.project = w.stack.project ++ [l.withKind .library] := rfl
    rw [LayerStack.unit?_eq_or, hproject, List.findSome?_append, List.findSome?_singleton,
      Option.or_assoc]
    rfl
  have hheld : name ∈ w.stack.unitNames ↔
      (w.stack.project.findSome? (·.unit? name)).isSome = true := by
    simp only [LayerStack.mem_unitNames, Layer.containsUnit_eq, List.findSome?_isSome_iff]
  change (w.addLibrary l).stack.unit? name = if _ then w.stack.unit? name else _
  rw [hadded, w.stack.unit?_eq_or]
  cases hfound : w.stack.project.findSome? (·.unit? name) with
  | none => rw [if_neg (by simp [hheld, hfound]), Option.none_or]
  | some u => rw [if_pos (by simp [hheld, hfound]), Option.some_or, Option.some_or]

/-- Every way to ask for a name agrees, after any changes of a workspace and its libraries: the first
layer that holds the name answers, and it is one of the project exactly if the name is one of the
project's. A library that is added changes nothing that the project holds and comes before the
runtime layer; one that is removed is the first of its name; one that is moved is the only one that
changes its place, and can be moved back. -/
theorem resolution_agrees (primary : Layer) (libraries : List Layer) (runtime : RuntimeClasspath)
    (path : String) {ops : List Operation} (hops : ∀ op ∈ ops, op.KeepsParts) :
    let w := (ofLayers primary libraries runtime path).run ops
    w.Marked ∧ (∀ name, w.Agrees name) ∧
    (∀ l name, (w.addLibrary l).answer (Session.unit? name) =
      if name ∈ w.stack.unitNames then w.answer (Session.unit? name)
      else (l.unit? name).or (w.runtime.layer.unit? name)) ∧
    (∀ name l w', w.removeLibrary name = .ok (l, w') → w.Removed w' name l) ∧
    ∀ source target w', w.moveLibrary source target = .ok w' → w.Moved w' source target := by
  intro w
  have hstart : (ofLayers primary libraries runtime path).Marked :=
    ⟨rfl, by simp [ofLayers, Layer.withKind], runtime.isRuntime⟩
  have hmarked : w.Marked := run_marked hstart hops
  exact ⟨hmarked, hmarked.agrees, w.addLibrary_unit?, fun _ _ _ => removeLibrary_removed,
    fun _ _ _ => moveLibrary_moved⟩

/-- Two libraries with a unit of the same name are added, and the second is moved to the front. -/
def reordered : List Operation :=
  [.addLibrary ((Layer.empty "old" .primary).insertUnit ⟨"A", [1]⟩),
    .addLibrary ((Layer.empty "new" .primary).insertUnit ⟨"A", [2]⟩), .moveLibrary 1 0]

theorem reordered_agrees : (∀ op ∈ reordered, op.KeepsParts) ∧
    let w := (ofLayers (.empty "app" .primary) [] .empty "app.jar").run reordered
    w.libraries.map Layer.name = ["new", "old"] ∧
      (w.answer (Session.containing? "A")).map Layer.name = some "new" ∧
      w.answer (Session.unit? "A") = some ⟨"A", [2]⟩ ∧ "A" ∈ w.stack.unitNames := by
  have hops : ∀ op ∈ reordered, op.KeepsParts := by simp [reordered, Operation.KeepsParts]
  refine ⟨hops, ?_⟩
  intro w
  obtain ⟨-, hagrees, -⟩ := resolution_agrees (.empty "app" .primary) [] .empty "app.jar" hops
  let l : Layer := (Layer.empty "new" .library).insertUnit ⟨"A", [2]⟩
  have hfirst : w.answer (Session.containing? "A") = some l :=
    ((hagrees "A").first l).mpr ⟨rfl, [w.primary], w.libraries.tail ++ [w.runtime.layer], rfl, by
      intro x hx
      rw [List.mem_singleton.mp hx]
      rfl⟩
  have hunit := (hagrees "A").unit
  change w.answer (Session.unit? "A") = (w.answer (Session.containing? "A")).bind _ at hunit
  rw [hfirst] at hunit
  exact ⟨rfl, by rw [hfirst]; rfl, hunit, (hagrees "A").named.mpr ⟨l, hfirst, by decide⟩⟩

end Workspace

end ClassAtlas
