import ClassAtlas.Proofs.Workspace.Libraries

/-!
Kept graphs are those that would be built. Operations on a workspace either leave the layers alone or
drop both graphs; only changes of the primary layer do neither, and they count as unreported until a
batch of changes is. While nothing is unreported, a request is answered with the graph of the layers
as they are.
-/

namespace ClassAtlas

namespace Workspace

/-- What can be done with a workspace. -/
inductive Operation where
  | withRuntime (r : RuntimeClasspath)
  | withCodec (c : Codec)
  | withFlags (flags : WriterFlags)
  | addLibrary (l : Layer)
  | removeLibrary (name : String)
  | moveLibrary (source target : Nat)
  | invalidate
  | edit (e : PrimaryEdit)
  /-- Puts anything in place of the primary layer. -/
  | exchange (l : Layer)
  | reportChanges (names : Std.TreeSet String)
  | hierarchyGraph
  | flowGraph
  | commonSuperclass (a b : String)
  | encodeUnit (d : ClassDecl)

/-- What comes back from an operation. -/
inductive Outcome where
  | done
  | removed (l : Layer)
  | failed (e : Error)
  | hierarchy (g : HierarchyGraph)
  | flow (g : FlowGraph)
  | superclass (name : Option String)
  | encoded (result : Except Error Bytes)

/-- What comes back from an operation, and the workspace afterwards. -/
def perform (w : Workspace) : Operation → Outcome × Workspace
  | .withRuntime r => (.done, w.withRuntime r)
  | .withCodec c => (.done, w.withCodec c)
  | .withFlags flags => (.done, w.withFlags flags)
  | .addLibrary l => (.done, w.addLibrary l)
  | .removeLibrary name =>
    match (Rework.removeLibrary name).run.run w with
    | (.ok l, w) => (.removed l, w)
    | (.error e, w) => (.failed e, w)
  | .moveLibrary source target =>
    match (Rework.moveLibrary source target).run.run w with
    | (.ok (), w) => (.done, w)
    | (.error e, w) => (.failed e, w)
  | .invalidate => (.done, w.invalidate)
  | .edit e => (.done, w.edit e)
  | .exchange l => (.done, { w with primary := l })
  | .reportChanges names => (.done, w.reportChanges names)
  | .hierarchyGraph => let (g, w) := w.hierarchyGraph; (.hierarchy g, w)
  | .flowGraph => let (g, w) := w.flowGraph; (.flow g, w)
  | .commonSuperclass a b =>
    let (name, w) := (Session.commonSuperclass a b).run w
    (.superclass name, w)
  | .encodeUnit d => let (result, w) := (Session.encodeUnit d).run w; (.encoded result, w)

/-- The workspace after operations, done one after the other. -/
def run (w : Workspace) (ops : List Operation) : Workspace :=
  ops.foldl (fun w op => (w.perform op).2) w

/-- Whether the primary layer has changes after an operation that were not reported, if it had some
or none before. -/
def Operation.leavesUnreported (unreported : Bool) : Operation → Bool
  | edit _ => true
  | exchange _ => true
  | reportChanges names => unreported && names.isEmpty
  | _ => unreported

/-- Whether operations leave the primary layer with changes that were not reported. -/
def unreported (ops : List Operation) : Bool :=
  ops.foldl Operation.leavesUnreported false

/-- The inheritance graph of the layers as they are. -/
def hierarchyNow (w : Workspace) : HierarchyGraph :=
  .ofStack w.stack w.codec

def flowNow (w : Workspace) : FlowGraph :=
  .ofStack w.stack w.codec w.hierarchyNow

/-- The graphs that are kept are those of the layers as they are. -/
structure Fresh (w : Workspace) : Prop where
  hierarchy : ∀ g, w.hierarchy.value = some g → g = w.hierarchyNow
  flow : ∀ g, w.flow.value = some g → g = w.flowNow

namespace Fresh

variable {w : Workspace}

theorem of_empty (hhierarchy : w.hierarchy.value = none) (hflow : w.flow.value = none) :
    w.Fresh where
  hierarchy g hg := by
    rw [hhierarchy] at hg
    cases hg
  flow g hg := by
    rw [hflow] at hg
    cases hg

theorem invalidate (w : Workspace) : w.invalidate.Fresh :=
  of_empty rfl rfl

/-- Kept graphs stay fresh with the layers and the codec, and so do graphs that are built from
these. -/
theorem same {w' : Workspace} (h : w.Fresh) (hstack : w'.stack = w.stack)
    (hcodec : w'.codec = w.codec)
    (hhierarchy : ∀ g, w'.hierarchy.value = some g →
      w.hierarchy.value = some g ∨ g = w.hierarchyNow)
    (hflow : ∀ g, w'.flow.value = some g → w.flow.value = some g ∨ g = w.flowNow) :
    w'.Fresh := by
  have hnow : w'.hierarchyNow = w.hierarchyNow := by
    rw [hierarchyNow, hierarchyNow, hstack, hcodec]
  have hflowNow : w'.flowNow = w.flowNow := by
    rw [flowNow, flowNow, hnow, hstack, hcodec]
  constructor
  · intro g hg
    rw [hnow]
    rcases hhierarchy g hg with hkept | hbuilt
    · exact h.hierarchy g hkept
    · exact hbuilt
  · intro g hg
    rw [hflowNow]
    rcases hflow g hg with hkept | hbuilt
    · exact h.flow g hkept
    · exact hbuilt

end Fresh

/-! ### Requests -/

theorem consultForGraphs_same (w : Workspace) : w.consultForGraphs.stack = w.stack ∧
    w.consultForGraphs.codec = w.codec ∧ w.consultForGraphs.hierarchy = w.hierarchy ∧
    w.consultForGraphs.flow = w.flow := by
  unfold consultForGraphs
  split
  · exact ⟨rfl, rfl, rfl, rfl⟩
  · exact ⟨rfl, rfl, rfl, rfl⟩

/-- A request is answered with the graph of the layers, and leaves them as they are. -/
structure Answered {α : Type} (w : Workspace) (answer : α × Workspace) (now : α) : Prop where
  value : answer.1 = now
  fresh : answer.2.Fresh
  stack : answer.2.stack = w.stack
  codec : answer.2.codec = w.codec

theorem hierarchyGraph_answered {w : Workspace} (h : w.Fresh) :
    w.Answered w.hierarchyGraph w.hierarchyNow := by
  unfold hierarchyGraph
  cases hkept : w.hierarchy.value with
  | some g => exact ⟨h.hierarchy g hkept, h, rfl, rfl⟩
  | none =>
    obtain ⟨hstack, hcodec, _, hflow⟩ := w.consultForGraphs_same
    simp only [Cell.get, hkept]
    refine ⟨rfl, h.same hstack hcodec ?_ ?_, hstack, hcodec⟩
    · intro g hg
      cases hg
      exact .inr rfl
    · intro g hg
      rw [← hflow]
      exact .inl hg

theorem flowGraph_answered {w : Workspace} (h : w.Fresh) : w.Answered w.flowGraph w.flowNow := by
  obtain ⟨hanswer, hfresh, hstack, hcodec⟩ := hierarchyGraph_answered h
  unfold flowGraph
  generalize w.hierarchyGraph = asked at *
  obtain ⟨g, w'⟩ := asked
  have hnow : w'.flowNow = w.flowNow := by
    rw [flowNow, flowNow, hierarchyNow, hierarchyNow, hstack, hcodec]
  dsimp only at *
  cases hkept : w'.flow.value with
  | some g' =>
    refine ⟨?_, hfresh, hstack, hcodec⟩
    rw [← hnow]
    exact hfresh.flow g' hkept
  | none =>
    obtain ⟨hstack', hcodec', hhierarchy', _⟩ := w'.consultForGraphs_same
    have hbuilt : FlowGraph.ofStack w'.stack w'.codec g = w'.flowNow := by
      rw [hanswer, flowNow, hierarchyNow, hierarchyNow, hstack, hcodec]
    simp only [Cell.get, hkept]
    refine ⟨hbuilt.trans hnow, hfresh.same hstack' hcodec' ?_ ?_, hstack'.trans hstack,
      hcodec'.trans hcodec⟩
    · intro g' hg'
      rw [← hhierarchy']
      exact .inl hg'
    · intro g' hg'
      cases hg'
      exact .inr hbuilt

/-! ### Single operations -/

theorem removeLibrary_failed_iff {w : Workspace} {name : String} :
    (∃ e, (w.perform (.removeLibrary name)).1 = .failed e) ↔ ∀ l ∈ w.libraries, l.name ≠ name := by
  have hfind : w.libraries.find? (·.name == name) = none ↔ ∀ l ∈ w.libraries, l.name ≠ name := by
    simp only [List.find?_eq_none, beq_iff_eq, ne_eq]
  rw [← hfind, perform, Rework.removeLibrary_run, removeLibrary]
  cases w.libraries.find? (·.name == name) with
  | none => exact iff_of_true ⟨_, rfl⟩ rfl
  | some l =>
    refine iff_of_false ?_ (by simp)
    rintro ⟨e, he⟩
    cases he

theorem moveLibrary_failed_iff {w : Workspace} {source target : Nat} :
    (∃ e, (w.perform (.moveLibrary source target)).1 = .failed e) ↔
      w.libraries.length ≤ source ∨ w.libraries.length ≤ target := by
  rw [perform, Rework.moveLibrary_run, moveLibrary]
  by_cases hsource : source < w.libraries.length
  · rw [List.getElem?_eq_getElem hsource]
    dsimp only
    by_cases htarget : target < w.libraries.length
    · rw [if_pos htarget]
      refine iff_of_false ?_ (by omega)
      rintro ⟨e, he⟩
      cases he
    · rw [if_neg htarget]
      exact iff_of_true ⟨_, rfl⟩ (.inr (by omega))
  · rw [List.getElem?_eq_none (by omega)]
    exact iff_of_true ⟨_, rfl⟩ (.inl (by omega))

theorem failed_same {w : Workspace} {op : Operation} {e : Error}
    (h : (w.perform op).1 = .failed e) : (w.perform op).2 = w := by
  cases op with
  | removeLibrary name =>
    rw [perform, Rework.removeLibrary_run] at h ⊢
    cases hremoved : w.removeLibrary name with
    | error e => rfl
    | ok found =>
      rw [hremoved] at h
      cases h
  | moveLibrary source target =>
    rw [perform, Rework.moveLibrary_run] at h ⊢
    cases hmoved : w.moveLibrary source target with
    | error e => rfl
    | ok w' =>
      rw [hmoved] at h
      cases h
  | _ => cases h

/-- A library that is taken out or put elsewhere takes the graphs with it. -/
theorem removeLibrary_fresh {w w' : Workspace} {name : String} {l : Layer}
    (h : w.removeLibrary name = .ok (l, w')) : w'.Fresh := by
  unfold removeLibrary at h
  split at h
  · cases h
  · cases h
    exact .invalidate _

theorem moveLibrary_fresh {w w' : Workspace} {source target : Nat}
    (h : w.moveLibrary source target = .ok w') : w'.Fresh := by
  simp only [moveLibrary] at h
  split at h
  · cases h
  · split at h
    · cases h
      exact .invalidate _
    · cases h

theorem reportChanges_fresh {w : Workspace} {names : Std.TreeSet String}
    (h : names.isEmpty = true → w.Fresh) : (w.reportChanges names).Fresh := by
  unfold reportChanges
  by_cases hnames : names.isEmpty = true
  · simp only [hnames, if_true]
    exact (h hnames).same rfl rfl (fun _ hg => .inl hg) (fun _ hg => .inl hg)
  · simp only [hnames, Bool.false_eq_true, if_false]
    exact .of_empty rfl rfl

/-- An operation that leaves nothing unreported leaves no graph that is not fresh. -/
theorem perform_fresh {w : Workspace} {op : Operation} {before : Bool}
    (h : before = false → w.Fresh) (hafter : op.leavesUnreported before = false) :
    (w.perform op).2.Fresh := by
  cases op with
  | withRuntime r => exact .invalidate _
  | withCodec c => exact .invalidate _
  | withFlags flags => exact (h hafter).same rfl rfl (fun _ hg => .inl hg) (fun _ hg => .inl hg)
  | addLibrary l => exact .invalidate _
  | removeLibrary name =>
    rw [perform, Rework.removeLibrary_run]
    cases hremoved : w.removeLibrary name with
    | ok found => exact removeLibrary_fresh hremoved
    | error e => exact h hafter
  | moveLibrary source target =>
    rw [perform, Rework.moveLibrary_run]
    cases hmoved : w.moveLibrary source target with
    | ok w' => exact moveLibrary_fresh hmoved
    | error e => exact h hafter
  | invalidate => exact .invalidate _
  | edit e => cases hafter
  | exchange l => cases hafter
  | reportChanges names =>
    refine reportChanges_fresh fun hnames => h ?_
    simp only [Operation.leavesUnreported, hnames, Bool.and_true] at hafter
    exact hafter
  | hierarchyGraph => exact (hierarchyGraph_answered (h hafter)).fresh
  | flowGraph => exact (flowGraph_answered (h hafter)).fresh
  | commonSuperclass a b => exact (hierarchyGraph_answered (h hafter)).fresh
  | encodeUnit d => exact (hierarchyGraph_answered (h hafter)).fresh

theorem foldl_perform_fresh (ops : List Operation) {w : Workspace} {before : Bool}
    (h : before = false → w.Fresh)
    (hafter : ops.foldl Operation.leavesUnreported before = false) :
    (ops.foldl (fun w op => (w.perform op).2) w).Fresh := by
  induction ops generalizing w before with
  | nil => exact h hafter
  | cons op ops ih => exact ih (fun hop => perform_fresh h hop) hafter

/-- No run ends with a graph that is not fresh unless changes are unreported. -/
theorem run_fresh {w : Workspace} (hw : w.Fresh) {ops : List Operation}
    (hops : unreported ops = false) : (w.run ops).Fresh :=
  foldl_perform_fresh ops (fun _ => hw) hops

/-- Kept graphs are never stale. Whatever was done before, requests are answered as if the graphs
were built from the layers as they are, provided that changes of the primary layer were reported; and
operations that fail, which removing and moving do exactly for libraries that are not there, leave
everything as it is. -/
theorem requests_answered (primary : Layer) (libraries : List Layer) (runtime : RuntimeClasspath)
    (path : String) (before : List Operation) :
    let w := (ofLayers primary libraries runtime path).run before
    (unreported before = false →
      (w.perform .hierarchyGraph).1 = .hierarchy (.ofStack w.stack w.codec) ∧
      (w.perform .flowGraph).1 =
        .flow (.ofStack w.stack w.codec (.ofStack w.stack w.codec)) ∧
      (∀ a b, (w.perform (.commonSuperclass a b)).1 =
        .superclass ((HierarchyGraph.ofStack w.stack w.codec).commonSuperclass a b)) ∧
      ∀ d, (w.perform (.encodeUnit d)).1 =
        .encoded (w.codec.encode d w.flags (HierarchyGraph.ofStack w.stack w.codec).oracle)) ∧
    (∀ op e, (w.perform op).1 = .failed e → (w.perform op).2 = w) ∧
    (∀ name, (∃ e, (w.perform (.removeLibrary name)).1 = .failed e) ↔
      ∀ l ∈ w.libraries, l.name ≠ name) ∧
    (∀ source target, (∃ e, (w.perform (.moveLibrary source target)).1 = .failed e) ↔
      w.libraries.length ≤ source ∨ w.libraries.length ≤ target) := by
  intro w
  refine ⟨fun hreported => ?_, fun op e => failed_same, fun name => removeLibrary_failed_iff,
    fun source target => moveLibrary_failed_iff⟩
  have hfresh : w.Fresh := run_fresh (.of_empty rfl rfl) hreported
  have hhierarchy := hierarchyGraph_answered hfresh
  have hflow := flowGraph_answered hfresh
  refine ⟨congrArg Outcome.hierarchy hhierarchy.value, congrArg Outcome.flow hflow.value, ?_, ?_⟩
  · intro a b
    exact congrArg (fun g => Outcome.superclass (g.commonSuperclass a b)) hhierarchy.value
  · intro d
    have hencoded : (w.perform (.encodeUnit d)).1 = .encoded
        (w.hierarchyGraph.2.codec.encode d w.flags w.hierarchyGraph.1.oracle) := rfl
    rw [hencoded, hhierarchy.value, hhierarchy.codec]
    rfl

/-- A graph is asked for, a unit is put into the primary layer, and this is reported. -/
def editedRun : List Operation :=
  [.hierarchyGraph, .edit (.putUnit ⟨"A", []⟩), .reportChanges {"A"}]

theorem editedRun_answered : unreported editedRun = false ∧
    let w := (ofLayers (.empty "app" .primary) [] .empty "app.jar").run editedRun
    w.stack.hasUnit "A" = true ∧
      (w.perform .hierarchyGraph).1 = .hierarchy (.ofStack w.stack w.codec) := by
  have hreported : unreported editedRun = false := by decide
  have hanswered := requests_answered (.empty "app" .primary) [] .empty "app.jar" editedRun
  exact ⟨hreported, rfl, (hanswered.1 hreported).1⟩

end Workspace

end ClassAtlas
