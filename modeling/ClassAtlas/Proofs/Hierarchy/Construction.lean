import ClassAtlas.Hierarchy.Graph
import ClassAtlas.Proofs.Layer.Stack

/-!
What the inheritance graph holds. The search for types keeps an invariant about the names that it
has met: each belongs to the world that the project leads to, and each is either waiting, or a type,
or a failure. When nothing is waiting any more, the graph is that world.
-/

namespace ClassAtlas

theorem ClassDecl.mem_parents {d : ClassDecl} {name : String} :
    name ∈ d.parents ↔ d.superName = some name ∨ name ∈ d.interfaces := by
  rw [parents, List.mem_append, Option.mem_toList]

namespace LayerStack

variable {stack : LayerStack} {codec : Codec} {name : String}

/-- What the unit of a name is decoded to, if there is such a unit. -/
def decode? (stack : LayerStack) (codec : Codec) (name : String) :
    Option (Except Error ClassDecl) :=
  (stack.unit? name).map fun u => codec.decode u.name u.bytes

/-- The names that the project leads to: those of its units, and those of the units that are declared
as parents of what it leads to. -/
inductive World (stack : LayerStack) (codec : Codec) : String → Prop
  | unit {name : String} (h : name ∈ stack.unitNames) : World stack codec name
  | parent {child name : String} {d : ClassDecl} (hchild : World stack codec child)
    (hd : stack.decode? codec child = some (.ok d))
    (hparent : d.superName = some name ∨ name ∈ d.interfaces)
    (hunit : stack.hasUnit name = true) : World stack codec name

theorem World.hasUnit (h : stack.World codec name) : stack.hasUnit name = true := by
  cases h with
  | unit h => exact hasUnit_of_mem h
  | parent _ _ _ hunit => exact hunit

end LayerStack

namespace HierarchyGraph

variable {stack : LayerStack} {codec : Codec} {g : HierarchyGraph}

/-! ### Single steps -/

theorem mem_addChild {children : Std.TreeMap String (Std.TreeSet String)}
    {child parent c p : String} :
    c ∈ (addChild children child parent).getD p ∅ ↔
      (c = child ∧ p = parent) ∨ c ∈ children.getD p ∅ := by
  rw [addChild, Std.TreeMap.getD_insert]
  split
  · rename_i hp
    have hparent := Std.LawfulEqOrd.eq_of_compare hp
    subst hparent
    rw [Std.TreeSet.mem_insert, Std.LawfulEqOrd.compare_eq_iff_eq]
    constructor
    · rintro (h | h)
      · exact .inl ⟨h.symm, rfl⟩
      · exact .inr h
    · rintro (⟨h, _⟩ | h)
      · exact .inl h.symm
      · exact .inr h
  · rename_i hp
    constructor
    · exact .inr
    · rintro (⟨_, h⟩ | h)
      · rw [h] at hp
        exact absurd Std.ReflCmp.compare_self hp
      · exact h

/-- The index of children gains the new type under each of its parents. -/
theorem mem_foldl_addChild {parents : List String}
    {children : Std.TreeMap String (Std.TreeSet String)} {child c p : String} :
    c ∈ (parents.foldl (fun children parent => addChild children child parent) children).getD p ∅ ↔
      (c = child ∧ p ∈ parents) ∨ c ∈ children.getD p ∅ := by
  induction parents generalizing children with
  | nil => simp
  | cons parent parents ih =>
    rw [List.foldl_cons, ih, mem_addChild, List.mem_cons]
    constructor
    · rintro (⟨hc, hp⟩ | ⟨hc, hp⟩ | h)
      · exact .inl ⟨hc, .inr hp⟩
      · exact .inl ⟨hc, .inl hp⟩
      · exact .inr h
    · rintro (⟨hc, hp | hp⟩ | h)
      · exact .inr (.inl ⟨hc, hp⟩)
      · exact .inl ⟨hc, hp⟩
      · exact .inr (.inr h)

theorem contains_iff {x : String} : g.contains x = true ↔ (g.node? x).isSome := by
  rw [contains, node?, Std.TreeMap.contains_eq_isSome_getElem?]

theorem mem_directParents {p c : String} :
    p ∈ g.directParents c ↔ ∃ n, g.node? c = some n ∧ p ∈ n.parents := by
  rw [directParents]
  cases g.node? c with
  | none => simp
  | some n => simp

section AddType

variable (g : HierarchyGraph) (known : String → Bool) (name : String) (d : ClassDecl)
  (kind : LayerKind)

theorem node?_addType (x : String) : (g.addType known name d kind).node? x =
    if name = x then some (.ofDecl d kind) else g.node? x := by
  rw [node?, addType, Std.TreeMap.getElem?_insert]
  simp only [Std.LawfulEqOrd.compare_eq_iff_eq]
  rfl

theorem mem_directChildren_addType {c p : String} :
    c ∈ (g.addType known name d kind).directChildren p ↔
      (c = name ∧ p ∈ d.parents) ∨ c ∈ g.directChildren p := by
  rw [directChildren, directChildren, Std.TreeSet.mem_toList, Std.TreeSet.mem_toList]
  exact mem_foldl_addChild

theorem failure?_addFailure (e : Error) (x : String) : (g.addFailure name e).failure? x =
    if name = x then some e else g.failure? x := by
  rw [failure?, addFailure, Std.TreeMap.getElem?_insert]
  simp only [Std.LawfulEqOrd.compare_eq_iff_eq]
  rfl

end AddType

/-- Every name that is met has been seen before or waits to be visited. -/
theorem mem_discover_iff {known : String → Bool} {seen : Std.TreeSet String} {names : List String}
    {x : String} : x ∈ (discover known seen names).1 ↔
      x ∈ seen ∨ x ∈ (discover known seen names).2 := by
  induction names generalizing seen with
  | nil => simp [discover]
  | cons name names ih =>
    rw [discover]
    split
    · rw [ih, Std.TreeSet.mem_insert, Std.LawfulEqOrd.compare_eq_iff_eq, List.mem_cons,
        eq_comm (a := name), or_assoc, or_left_comm]
    · exact ih

theorem mem_discover {known : String → Bool} {seen : Std.TreeSet String} {names : List String}
    {x : String} : x ∈ (discover known seen names).1 ↔
      x ∈ seen ∨ (x ∈ names ∧ known x = true) := by
  induction names generalizing seen with
  | nil => simp [discover]
  | cons name names ih =>
    rw [discover]
    split
    · rename_i h
      obtain ⟨_, hknown⟩ := Bool.and_eq_true_iff.mp h
      rw [ih, Std.TreeSet.mem_insert, Std.LawfulEqOrd.compare_eq_iff_eq, List.mem_cons]
      constructor
      · rintro ((rfl | hx) | ⟨hx, hk⟩)
        · exact .inr ⟨.inl rfl, hknown⟩
        · exact .inl hx
        · exact .inr ⟨.inr hx, hk⟩
      · rintro (hx | ⟨rfl | hx, hk⟩)
        · exact .inl (.inr hx)
        · exact .inl (.inl rfl)
        · exact .inr ⟨hx, hk⟩
    · rename_i h
      rw [ih, List.mem_cons]
      constructor
      · rintro (hx | ⟨hx, hk⟩)
        · exact .inl hx
        · exact .inr ⟨.inr hx, hk⟩
      · rintro (hx | ⟨rfl | hx, hk⟩)
        · exact .inl hx
        · -- a known name that is passed over has been seen
          rw [hk, Bool.and_true, Bool.not_eq_true', Bool.not_eq_false] at h
          exact .inl (Std.TreeSet.contains_iff_mem.mp h)
        · exact .inr ⟨hx, hk⟩

/-- A unit that is visited is noted as a failure, or becomes a type. -/
theorem visit_cases (seen : Std.TreeSet String) (g : HierarchyGraph) {name : String}
    (h : stack.hasUnit name = true) :
    (∃ e, stack.decode? codec name = some (.error e) ∧
      visit stack codec seen g name = (g.addFailure name e, [])) ∨
    ∃ d l, stack.decode? codec name = some (.ok d) ∧ stack.containing? name = some l ∧
      visit stack codec seen g name =
        (g.addType (isKnown stack seen) name d l.kind, d.parents) := by
  obtain ⟨u, l, hu, hl⟩ := LayerStack.exists_of_hasUnit h
  rw [visit, LayerStack.decode?, hu, hl]
  dsimp only
  cases hd : codec.decode u.name u.bytes with
  | error e =>
    refine .inl ⟨e, ?_, rfl⟩
    rw [Option.map_some, hd]
  | ok d =>
    refine .inr ⟨d, l, ?_, rfl, rfl⟩
    rw [Option.map_some, hd]

/-! ### The search -/

/-- What the graph says of every name, and how the names that were met are accounted for. -/
structure Explored (stack : LayerStack) (codec : Codec) (g : HierarchyGraph)
    (seen : Std.TreeSet String) (queue : List String) : Prop where
  world : ∀ x ∈ seen, stack.World codec x
  queued : ∀ x ∈ queue, x ∈ seen
  visited : ∀ x ∈ seen, x ∈ queue ∨ (g.node? x).isSome ∨ (g.failure? x).isSome
  node : ∀ x n, g.node? x = some n → x ∈ seen ∧ ∃ d l, stack.decode? codec x = some (.ok d) ∧
    stack.containing? x = some l ∧ n = .ofDecl d l.kind
  failure : ∀ x e, g.failure? x = some e → x ∈ seen ∧ stack.decode? codec x = some (.error e)
  followed : ∀ x n, g.node? x = some n → ∀ p ∈ n.parents, stack.hasUnit p = true → p ∈ seen
  children : ∀ p c, c ∈ g.directChildren p ↔ ∃ n, g.node? c = some n ∧ p ∈ n.parents

theorem Explored.start (stack : LayerStack) (codec : Codec) :
    Explored stack codec empty stack.unitNames stack.unitNames.toList where
  world x hx := .unit hx
  queued x hx := Std.TreeSet.mem_toList.mp hx
  visited x hx := .inl (Std.TreeSet.mem_toList.mpr hx)
  node x n hn := by simp [node?, empty] at hn
  failure x e he := by simp [failure?, empty] at he
  followed x n hn := by simp [node?, empty] at hn
  children p c := by simp [directChildren, node?, empty]

variable {seen : Std.TreeSet String} {queue : List String} {name : String}

theorem Explored.fail {e : Error} (h : Explored stack codec g seen (name :: queue))
    (he : stack.decode? codec name = some (.error e)) :
    Explored stack codec (g.addFailure name e) seen queue where
  world := h.world
  queued x hx := h.queued x (List.mem_cons_of_mem _ hx)
  visited x hx := by
    rw [failure?_addFailure]
    split
    · exact .inr (.inr rfl)
    · rename_i hne
      rcases h.visited x hx with hq | hn | hf
      · rcases List.mem_cons.mp hq with rfl | hq
        · exact absurd rfl hne
        · exact .inl hq
      · exact .inr (.inl hn)
      · exact .inr (.inr hf)
  node := h.node
  failure x e' hx := by
    rw [failure?_addFailure] at hx
    split at hx
    · rename_i heq
      subst heq
      cases hx
      exact ⟨h.queued name List.mem_cons_self, he⟩
    · exact h.failure x e' hx
  followed := h.followed
  children := h.children

/-- All nodes of a name say the same. -/
theorem Explored.node_eq {d : ClassDecl} {l : Layer} {n : TypeNode}
    (h : Explored stack codec g seen queue) (hd : stack.decode? codec name = some (.ok d))
    (hl : stack.containing? name = some l) (hn : g.node? name = some n) :
    n = .ofDecl d l.kind := by
  obtain ⟨_, d', l', hd', hl', rfl⟩ := h.node name n hn
  rw [hd] at hd'
  rw [hl] at hl'
  cases hd'
  cases hl'
  rfl

theorem Explored.children_addType {d : ClassDecl} {l : Layer}
    (h : Explored stack codec g seen queue) (known : String → Bool)
    (hd : stack.decode? codec name = some (.ok d)) (hl : stack.containing? name = some l)
    (p c : String) :
    c ∈ (g.addType known name d l.kind).directChildren p ↔
      ∃ n, (g.addType known name d l.kind).node? c = some n ∧ p ∈ n.parents := by
  rw [mem_directChildren_addType, node?_addType, h.children]
  by_cases hc : name = c
  · subst hc
    rw [if_pos rfl]
    constructor
    · rintro (⟨_, hp⟩ | ⟨n, hn, hp⟩)
      · exact ⟨_, rfl, hp⟩
      · -- the type was there before, with the same parents
        rw [h.node_eq hd hl hn] at hp
        exact ⟨_, rfl, hp⟩
    · rintro ⟨n, hn, hp⟩
      cases hn
      exact .inl ⟨rfl, hp⟩
  · rw [if_neg hc]
    constructor
    · rintro (⟨heq, _⟩ | hold)
      · exact absurd heq.symm hc
      · exact hold
    · exact .inr

theorem Explored.add {d : ClassDecl} {l : Layer} (h : Explored stack codec g seen (name :: queue))
    (known : String → Bool) (hd : stack.decode? codec name = some (.ok d))
    (hl : stack.containing? name = some l) :
    Explored stack codec (g.addType known name d l.kind)
      (discover stack.hasUnit seen d.parents).1
      (queue ++ (discover stack.hasUnit seen d.parents).2) := by
  have hname : name ∈ seen := h.queued name List.mem_cons_self
  have hkept : ∀ x ∈ seen, x ∈ (discover stack.hasUnit seen d.parents).1 := fun x hx =>
    mem_discover.mpr (.inl hx)
  constructor
  case world =>
    intro x hx
    rcases mem_discover.mp hx with hx | ⟨hparent, hunit⟩
    · exact h.world x hx
    · exact .parent (h.world name hname) hd (ClassDecl.mem_parents.mp hparent) hunit
  case queued =>
    intro x hx
    rcases List.mem_append.mp hx with hx | hx
    · exact hkept x (h.queued x (List.mem_cons_of_mem _ hx))
    · exact mem_discover_iff.mpr (.inr hx)
  case visited =>
    intro x hx
    rw [node?_addType]
    split
    · exact .inr (.inl rfl)
    · rename_i hne
      rcases mem_discover_iff.mp hx with hx | hx
      · rcases h.visited x hx with hq | hdone
        · rcases List.mem_cons.mp hq with rfl | hq
          · exact absurd rfl hne
          · exact .inl (List.mem_append_left _ hq)
        · exact .inr hdone
      · exact .inl (List.mem_append_right _ hx)
  case node =>
    intro x n hn
    rw [node?_addType] at hn
    split at hn
    · rename_i heq
      subst heq
      cases hn
      exact ⟨hkept name hname, d, l, hd, hl, rfl⟩
    · obtain ⟨hx, hdecl⟩ := h.node x n hn
      exact ⟨hkept x hx, hdecl⟩
  case failure =>
    intro x e he
    obtain ⟨hx, hdecl⟩ := h.failure x e he
    exact ⟨hkept x hx, hdecl⟩
  case followed =>
    intro x n hn p hp hunit
    rw [node?_addType] at hn
    split at hn
    · cases hn
      exact mem_discover.mpr (.inr ⟨hp, hunit⟩)
    · exact hkept p (h.followed x n hn p hp hunit)
  case children => exact h.children_addType known hd hl

/-- One step of the search keeps account of all names. -/
theorem Explored.step (h : Explored stack codec g seen (name :: queue)) :
    Explored stack codec (visit stack codec seen g name).1
      (discover stack.hasUnit seen (visit stack codec seen g name).2).1
      (queue ++ (discover stack.hasUnit seen (visit stack codec seen g name).2).2) := by
  have hunit := (h.world name (h.queued name List.mem_cons_self)).hasUnit
  rcases visit_cases seen g hunit with ⟨e, he, hvisit⟩ | ⟨d, l, hd, hl, hvisit⟩
  · rw [hvisit]
    simp only [discover, List.append_nil]
    exact h.fail he
  · rw [hvisit]
    exact h.add (isKnown stack seen) hd hl

theorem Explored.run (h : Explored stack codec g seen queue) :
    ∃ all : Std.TreeSet String, (∀ x ∈ seen, x ∈ all) ∧
      Explored stack codec (explore stack codec g seen queue) all [] := by
  fun_induction explore stack codec g seen queue with
  | case1 g seen => exact ⟨seen, fun _ hx => hx, h⟩
  | case2 g seen name queue visited found ih =>
    obtain ⟨all, hall, hexplored⟩ := ih h.step
    exact ⟨all, fun x hx => hall x (mem_discover.mpr (.inl hx)), hexplored⟩

/-! ### The graph of a stack -/

theorem ofStack_explored (stack : LayerStack) (codec : Codec) :
    ∃ all : Std.TreeSet String, (∀ x ∈ stack.unitNames, x ∈ all) ∧
      Explored stack codec (ofStack stack codec) all [] :=
  (Explored.start stack codec).run

/-- Types are made of declarations that have been decoded. -/
theorem ofStack_decoded {x : String} {n : TypeNode} (hn : (ofStack stack codec).node? x = some n) :
    ∃ d l, stack.decode? codec x = some (.ok d) ∧ stack.containing? x = some l ∧
      n = .ofDecl d l.kind := by
  obtain ⟨all, -, h⟩ := ofStack_explored stack codec
  exact (h.node x n hn).2

/-- Failures are those of decoding. -/
theorem ofStack_failed {x : String} {e : Error} (he : (ofStack stack codec).failure? x = some e) :
    stack.decode? codec x = some (.error e) := by
  obtain ⟨all, -, h⟩ := ofStack_explored stack codec
  exact (h.failure x e he).2

/-- Types are units that have been decoded. -/
theorem ofStack_node? {x : String} {n : TypeNode} (hn : (ofStack stack codec).node? x = some n) :
    stack.hasUnit x = true ∧ (ofStack stack codec).failure? x = none := by
  obtain ⟨all, -, h⟩ := ofStack_explored stack codec
  refine ⟨(h.world x (h.node x n hn).1).hasUnit, ?_⟩
  obtain ⟨d, _, hd, -, -⟩ := ofStack_decoded hn
  cases hf : (ofStack stack codec).failure? x with
  | none => rfl
  | some e =>
    have hfailed := ofStack_failed hf
    rw [hd] at hfailed
    cases hfailed

theorem hasUnit_of_failure? {x : String} {e : Error}
    (he : (ofStack stack codec).failure? x = some e) : stack.hasUnit x = true := by
  obtain ⟨all, -, h⟩ := ofStack_explored stack codec
  exact (h.world x (h.failure x e he).1).hasUnit

/-- Once nothing waits, the names that were met are the world. -/
theorem Explored.world_iff {all : Std.TreeSet String} (h : Explored stack codec g all [])
    (hstart : ∀ x ∈ stack.unitNames, x ∈ all) (x : String) : stack.World codec x ↔ x ∈ all := by
  constructor
  · intro hx
    induction hx with
    | unit hx => exact hstart _ hx
    | @parent child x d _ hd hparent hunit ih =>
      rcases h.visited child ih with hq | hn | hf
      · cases hq
      · obtain ⟨n, hn⟩ := Option.isSome_iff_exists.mp hn
        obtain ⟨_, d', _, hd', _, rfl⟩ := h.node child n hn
        rw [hd] at hd'
        cases hd'
        exact h.followed child _ hn x (ClassDecl.mem_parents.mpr hparent) hunit
      · obtain ⟨e, he⟩ := Option.isSome_iff_exists.mp hf
        have hfailed := (h.failure child e he).2
        rw [hd] at hfailed
        cases hfailed
  · exact h.world x

/-- What the graph knows, as types and as failures, is the world. -/
theorem world_iff {x : String} : stack.World codec x ↔
    ((ofStack stack codec).node? x).isSome ∨ ((ofStack stack codec).failure? x).isSome := by
  obtain ⟨all, hall, h⟩ := ofStack_explored stack codec
  rw [h.world_iff hall]
  constructor
  · intro hx
    exact (h.visited x hx).resolve_left List.not_mem_nil
  · rintro (hn | hf)
    · obtain ⟨n, hn⟩ := Option.isSome_iff_exists.mp hn
      exact (h.node x n hn).1
    · obtain ⟨e, he⟩ := Option.isSome_iff_exists.mp hf
      exact (h.failure x e he).1

/-- The graph is the part of the layers that the project leads to: its types and failures are the
names of the least set that holds the units of the project and, with every type, its parents that are
units. A type says what its declaration does, and which part the layer plays that it comes from. -/
theorem ofStack_exact (stack : LayerStack) (codec : Codec) :
    (∀ x, ((ofStack stack codec).contains x = true ∨ ((ofStack stack codec).failure? x).isSome) ↔
      stack.World codec x) ∧
    (∀ x, ¬ ((ofStack stack codec).contains x = true ∧
      ((ofStack stack codec).failure? x).isSome)) ∧
    (∀ x n, (ofStack stack codec).node? x = some n → ∃ d l,
      stack.decode? codec x = some (.ok d) ∧ stack.containing? x = some l ∧
      n.name = d.name ∧ n.access = d.access ∧ n.superName = d.superName ∧
      n.interfaces = d.interfaces ∧
      n.methods = d.methods.map (fun m => ⟨m.name, m.descriptor, m.access⟩) ∧
      n.layer = l.kind) ∧
    (∀ x e, (ofStack stack codec).failure? x = some e → stack.decode? codec x = some (.error e)) ∧
    (∀ p c, c ∈ (ofStack stack codec).directChildren p ↔
      (ofStack stack codec).contains c = true ∧ p ∈ (ofStack stack codec).directParents c) := by
  refine ⟨fun x => ?_, fun x hx => ?_, fun x n hn => ?_, fun x e he => ofStack_failed he,
    fun p c => ?_⟩
  · rw [contains_iff, world_iff]
  · obtain ⟨n, hn⟩ := Option.isSome_iff_exists.mp (contains_iff.mp hx.1)
    rw [(ofStack_node? hn).2] at hx
    exact Bool.false_ne_true hx.2
  · obtain ⟨d, l, hd, hl, rfl⟩ := ofStack_decoded hn
    exact ⟨d, l, hd, hl, rfl, rfl, rfl, rfl, rfl, rfl⟩
  · obtain ⟨all, -, h⟩ := ofStack_explored stack codec
    rw [h.children, mem_directParents, contains_iff]
    constructor
    · rintro ⟨n, hn, hp⟩
      exact ⟨by rw [hn]; rfl, n, hn, hp⟩
    · exact fun hc => hc.2

end HierarchyGraph

end ClassAtlas
