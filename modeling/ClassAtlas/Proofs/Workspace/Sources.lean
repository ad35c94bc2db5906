import ClassAtlas.Proofs.Text.Utf8
import ClassAtlas.Proofs.Workspace.SourceNames
import Mathlib.Data.List.Sort

/-!
The analysis of source texts. It sees each name once, with the text that the first layer attaches to
it, and the names are in the order of their bytes. Layers may come up with their texts in any order:
what is noted first for a name is the text of the first layer in all of them, and once sorted nothing
else is left of the order.
-/

namespace ClassAtlas

/-! ### Texts by name -/

namespace Entries

variable {entries found : List (String × String)} {name text : String}

theorem lookup_cons_eq (key value : String) :
    ((key, value) :: entries).lookup name =
      if name = key then some value else entries.lookup name := by
  rw [List.lookup_cons]
  by_cases hname : name = key
  · simp [hname]
  · simp [hname, beq_eq_false_iff_ne.mpr hname]

theorem lookup_eq_some_iff_mem (hnames : (entries.map Prod.fst).Nodup) :
    entries.lookup name = some text ↔ (name, text) ∈ entries := by
  induction entries with
  | nil => simp
  | cons entry entries ih =>
    obtain ⟨key, value⟩ := entry
    obtain ⟨hnew, hnames⟩ := List.nodup_cons.mp hnames
    rw [lookup_cons_eq, List.mem_cons, Prod.mk.injEq]
    split
    · rename_i hname
      subst hname
      have hothers : (name, text) ∉ entries := fun hmem =>
        hnew (List.mem_map.mpr ⟨_, hmem, rfl⟩)
      simp [hothers, eq_comm]
    · rename_i hname
      simp [hname, ih hnames]

/-- Notes an entry behind those that were found, if there is none of its name. -/
def note (found : List (String × String)) (entry : String × String) : List (String × String) :=
  if found.any (·.1 == entry.1) then found else found ++ [entry]

theorem lookup_note (entry : String × String) :
    (note found entry).lookup name = (found.lookup name).or ([entry].lookup name) := by
  obtain ⟨key, value⟩ := entry
  unfold note
  split
  · rename_i hfound
    rw [lookup_cons_eq]
    split
    · rename_i hname
      have hheld : (found.lookup name).isSome = true := by
        obtain ⟨x, hx, heq⟩ := List.any_eq_true.mp hfound
        rw [List.lookup_isSome_iff]
        exact ⟨x, hx, beq_iff_eq.mpr (hname.trans (beq_iff_eq.mp heq).symm)⟩
      obtain ⟨text, htext⟩ := Option.isSome_iff_exists.mp hheld
      rw [htext, Option.some_or]
    · rw [List.lookup_nil, Option.or_none]
  · exact List.lookup_append

theorem note_nodup (entry : String × String) (hfound : (found.map Prod.fst).Nodup) :
    ((note found entry).map Prod.fst).Nodup := by
  unfold note
  split
  · exact hfound
  · rename_i hnew
    rw [List.map_append, List.map_singleton, List.nodup_append]
    refine ⟨hfound, List.nodup_singleton _, ?_⟩
    rintro a ha b hb rfl
    obtain ⟨x, hx, heq⟩ := List.mem_map.mp (List.mem_singleton.mp hb ▸ ha)
    exact hnew (List.any_eq_true.mpr ⟨x, hx, by simpa using heq⟩)

/-- Of the entries that come up, the first of each name is noted. -/
theorem lookup_foldl_note (found entries : List (String × String)) :
    (entries.foldl note found).lookup name = (found.lookup name).or (entries.lookup name) := by
  induction entries generalizing found with
  | nil => rw [List.foldl_nil, List.lookup_nil, Option.or_none]
  | cons entry entries ih =>
    rw [List.foldl_cons, ih, lookup_note, Option.or_assoc, ← List.lookup_append,
      List.singleton_append]

theorem foldl_note_nodup (hfound : (found.map Prod.fst).Nodup) :
    ((entries.foldl note found).map Prod.fst).Nodup := by
  induction entries generalizing found with
  | nil => exact hfound
  | cons entry entries ih => exact ih (note_nodup entry hfound)

theorem getElem?_foldl_insertIfNew (texts : Std.TreeMap String String) :
    (entries.foldl (fun texts entry => texts.insertIfNew entry.1 entry.2) texts)[name]? =
      (texts[name]?).or (entries.lookup name) := by
  induction entries generalizing texts with
  | nil => rw [List.foldl_nil, List.lookup_nil, Option.or_none]
  | cons entry entries ih =>
    obtain ⟨key, value⟩ := entry
    rw [List.foldl_cons, ih, lookup_cons_eq, Std.TreeMap.getElem?_insertIfNew]
    simp only [Std.LawfulEqOrd.compare_eq_iff_eq, Std.TreeMap.mem_iff_isSome_getElem?]
    by_cases hname : name = key
    · subst hname
      cases texts[name]? <;> simp
    · simp [hname, Ne.symm hname]

end Entries

theorem Layer.sources_nodup (l : Layer) : (l.sources.toList.map Prod.fst).Nodup := by
  rw [Std.TreeMap.map_fst_toList_eq_keys]
  exact Std.TreeMap.nodup_keys

theorem Layer.lookup_sources (l : Layer) (name : String) :
    l.sources.toList.lookup name = l.source? name := by
  ext text
  rw [Entries.lookup_eq_some_iff_mem l.sources_nodup, Std.TreeMap.mem_toList_iff_getElem?_eq_some]
  rfl

namespace LayerStack

variable {s : LayerStack} {name text : String}

theorem getElem?_foldl_sources (layers : List Layer) (texts : Std.TreeMap String String) :
    (layers.foldl (fun texts l =>
        l.sources.foldl (fun texts name text => texts.insertIfNew name text) texts)
      texts)[name]? = (texts[name]?).or (layers.findSome? (·.source? name)) := by
  induction layers generalizing texts with
  | nil => simp
  | cons l layers ih =>
    rw [List.foldl_cons, ih, Std.TreeMap.foldl_eq_foldl_toList, Entries.getElem?_foldl_insertIfNew,
      Layer.lookup_sources, List.findSome?_cons, Option.or_assoc]
    cases l.source? name <;> rfl

/-- The collected texts are those that the project attaches to its names. -/
theorem mem_sourceTexts : (name, text) ∈ s.sourceTexts ↔ s.source? name = some text := by
  rw [sourceTexts, Std.TreeMap.mem_toList_iff_getElem?_eq_some, getElem?_foldl_sources]
  simp [source?]

theorem sourceTexts_increasing (s : LayerStack) :
    (s.sourceTexts.map Prod.fst).Pairwise (· < ·) := by
  rw [List.pairwise_map]
  have hordered : s.sourceTexts.Pairwise fun a b => compare a.1 b.1 = .lt :=
    Std.TreeMap.ordered_keys_toList
  exact hordered.imp fun hlt => compareOfLessAndEq_eq_lt.mp hlt

/-- What is noted when the layers come up with their texts in these orders. -/
def gather (orders : List (List (String × String))) : List (String × String) :=
  orders.flatten.foldl Entries.note []

/-- Whatever the orders are, the text of the first layer is noted. -/
theorem lookup_gather {orders : List (List (String × String))} {layers : List Layer}
    (horders : List.Forall₂ (fun order l => order.Perm l.sources.toList) orders layers) :
    (gather orders).lookup name = layers.findSome? (·.source? name) := by
  rw [gather, Entries.lookup_foldl_note, List.lookup_nil, Option.none_or]
  induction horders with
  | nil => rfl
  | @cons order l orders layers hperm _ ih =>
    have hnames : (order.map Prod.fst).Nodup :=
      (hperm.map Prod.fst).nodup_iff.mpr l.sources_nodup
    have horder : order.lookup name = l.source? name := by
      rw [← l.lookup_sources]
      ext text
      rw [Entries.lookup_eq_some_iff_mem hnames,
        Entries.lookup_eq_some_iff_mem l.sources_nodup, hperm.mem_iff]
    rw [List.flatten_cons, List.lookup_append, ih, horder, List.findSome?_cons]
    cases l.source? name <;> rfl

/-- Sorted by name, what was noted is the same list for all orders. -/
theorem sorted_gather {orders : List (List (String × String))} {sorted : List (String × String)}
    (horders : List.Forall₂ (fun order l => order.Perm l.sources.toList) orders s.project)
    (hperm : sorted.Perm (gather orders)) (hsorted : (sorted.map Prod.fst).Pairwise (· ≤ ·)) :
    sorted = s.sourceTexts := by
  have hgathered : ((gather orders).map Prod.fst).Nodup := Entries.foldl_note_nodup .nil
  have hnames : (sorted.map Prod.fst).Nodup := (hperm.map Prod.fst).nodup_iff.mpr hgathered
  have hincreasing := s.sourceTexts_increasing
  have hdistinct : (s.sourceTexts.map Prod.fst).Nodup := hincreasing.imp fun hlt => ne_of_lt hlt
  have hmem (entry : String × String) : entry ∈ sorted ↔ entry ∈ s.sourceTexts := by
    rw [hperm.mem_iff, ← Entries.lookup_eq_some_iff_mem hgathered, lookup_gather horders,
      mem_sourceTexts]
    rfl
  refine List.Perm.eq_of_pairwise ?_ (List.pairwise_map.mp hsorted)
    ((List.pairwise_map.mp hincreasing).imp le_of_lt)
    ((List.perm_ext_iff_of_nodup hnames.of_map hdistinct.of_map).mpr hmem)
  intro a b ha hb hab hba
  exact List.inj_on_of_nodup_map hnames ha ((hmem b).mpr hb) (le_antisymm hab hba)

end LayerStack

/-! ### What is asked -/

/-- What the unit that a name stands for declares. -/
def LayerStack.membersOf (s : LayerStack) (codec : Codec) (name : String) :
    Except Error (Option TypeMembers) :=
  match s.resolveName name with
  | none => .ok none
  | some unit =>
    match s.unit? unit with
    | none => .ok none
    | some u =>
      match codec.decode u.name u.bytes with
      | .ok d => .ok (some (.ofDecl unit d))
      | .error e => .error e

/-- What a computation comes to whose questions are answered by a stack of layers. -/
def Inquiry.result {α : Type} (s : LayerStack) (codec : Codec) : Inquiry α → α
  | done a => a
  | hasType name next => (next (s.resolveName name).isSome).result s codec
  | members name next => (next (s.membersOf codec name)).result s codec

namespace Workspace

variable {α τ : Type}

/-- The layers and the codec are those of another workspace. -/
structure SameUnits (w w' : Workspace) : Prop where
  stack : w'.stack = w.stack
  codec : w'.codec = w.codec

theorem run_bind {α β : Type} (w : Workspace) (question : Session α) (next : α → Session β) :
    (question >>= next).run w = (next (w.answer question)).run (question.run w).2 := rfl

theorem resolveName_same (w : Workspace) (name : String) :
    w.SameUnits ((Session.resolveName name).run w).2 := by
  unfold Session.resolveName
  split
  · exact ⟨rfl, rfl⟩
  · exact ⟨rfl, rfl⟩

theorem decodeUnit_run (w : Workspace) (name : String) :
    (Session.decodeUnit name).run w = (match w.stack.unit? name with
      | none => .ok none
      | some u =>
        match w.codec.decode u.name u.bytes with
        | .ok d => .ok (some d)
        | .error e => .error e, w.consult) := by
  have hunit : w.answer (Session.unit? name) = w.stack.unit? name := rfl
  rw [Session.decodeUnit, run_bind, run_bind, hunit]
  cases w.stack.unit? name with
  | none => rfl
  | some u =>
    have hcodec : (((Session.unit? name).run w).2.answer get).codec = w.codec := rfl
    dsimp only
    rw [hcodec]
    cases w.codec.decode u.name u.bytes <;> rfl

theorem hasType_run (w : Workspace) (name : String) :
    (Session.hasType name).run w =
      ((w.stack.resolveName name).isSome, ((Session.resolveName name).run w).2) := by
  rw [← answer_resolveName]
  rfl

theorem members_run (w : Workspace) (name : String) :
    w.answer (Session.members name) = w.stack.membersOf w.codec name ∧
      w.SameUnits ((Session.members name).run w).2 := by
  obtain ⟨hstack, hcodec⟩ := w.resolveName_same name
  rw [answer, Session.members, run_bind, answer_resolveName, LayerStack.membersOf]
  cases w.stack.resolveName name with
  | none => exact ⟨rfl, hstack, hcodec⟩
  | some unit =>
    dsimp only
    rw [run_bind, answer, decodeUnit_run, hstack, hcodec]
    cases w.stack.unit? unit with
    | none => exact ⟨rfl, hstack, hcodec⟩
    | some u =>
      dsimp only
      cases w.codec.decode u.name u.bytes with
      | ok d => exact ⟨rfl, hstack, hcodec⟩
      | error e => exact ⟨rfl, hstack, hcodec⟩

theorem pursue_run (q : Inquiry α) (w : Workspace) :
    w.answer (Session.pursue q) = q.result w.stack w.codec ∧
      w.SameUnits ((Session.pursue q).run w).2 := by
  induction q generalizing w with
  | done a => exact ⟨rfl, rfl, rfl⟩
  | hasType name next ih =>
    obtain ⟨hstack, hcodec⟩ := w.resolveName_same name
    rw [answer, Session.pursue, run_bind, answer, hasType_run]
    dsimp only
    obtain ⟨hanswer, hstack', hcodec'⟩ := ih (w.stack.resolveName name).isSome
      ((Session.resolveName name).run w).2
    rw [hstack, hcodec] at hanswer
    exact ⟨hanswer, hstack'.trans hstack, hcodec'.trans hcodec⟩
  | members name next ih =>
    obtain ⟨hmembers, hstack, hcodec⟩ := members_run w name
    rw [answer, Session.pursue, run_bind, hmembers]
    obtain ⟨hanswer, hstack', hcodec'⟩ := ih (w.stack.membersOf w.codec name)
      ((Session.members name).run w).2
    rw [hstack, hcodec] at hanswer
    exact ⟨hanswer, hstack'.trans hstack, hcodec'.trans hcodec⟩

theorem answer_analyze (parser : SourceParser τ) (texts : List (String × String)) (w : Workspace) :
    w.answer (Session.analyze parser texts) = texts.map fun entry =>
      (entry.1, (parser entry.1 entry.2).result w.stack w.codec) := by
  induction texts generalizing w with
  | nil => rfl
  | cons entry texts ih =>
    obtain ⟨name, text⟩ := entry
    obtain ⟨hanswer, hstack, hcodec⟩ := pursue_run (parser name text) w
    rw [Session.analyze, answer_bind, answer_bind, hanswer, ih, hstack, hcodec]
    rfl

/-- The analysis of the sources has one entry for each name to which a layer of the project attaches a
text, in the order of the bytes of the names. The entry says what the parser makes, in this workspace,
of the text that is found for the name. A loop that notes the first text of each name, layer by layer
and in any order within a layer, and then sorts by name comes to the same entries. -/
theorem analyzeSources_exact (w : Workspace) (parser : SourceParser τ) :
    let found := w.answer (Session.analyzeSources parser)
    (∀ name, (∃ outcome, (name, outcome) ∈ found) ↔
      ∃ l ∈ w.primary :: w.libraries, (l.source? name).isSome) ∧
    (found.map fun entry => Utf8.encode entry.1).Pairwise (· < ·) ∧
    (∀ name outcome, (name, outcome) ∈ found ↔ ∃ text, w.stack.source? name = some text ∧
      outcome = w.answer (Session.pursue (parser name text))) ∧
    ∀ orders sorted,
      List.Forall₂ (fun order l => order.Perm l.sources.toList) orders
        (w.primary :: w.libraries) →
      sorted.Perm (LayerStack.gather orders) →
      (sorted.map fun entry => Utf8.encode entry.1).Pairwise (· ≤ ·) →
      w.answer (Session.analyze parser sorted) = found := by
  intro found
  have hfound : found = w.stack.sourceTexts.map fun entry =>
      (entry.1, (parser entry.1 entry.2).result w.stack w.codec) := answer_analyze _ _ _
  have hentry (name : String) (outcome : ParseOutcome τ) : (name, outcome) ∈ found ↔
      ∃ text, w.stack.source? name = some text ∧
        outcome = w.answer (Session.pursue (parser name text)) := by
    rw [hfound, List.mem_map]
    constructor
    · rintro ⟨⟨key, text⟩, hmem, heq⟩
      cases heq
      exact ⟨text, LayerStack.mem_sourceTexts.mp hmem, (pursue_run _ _).1.symm⟩
    · rintro ⟨text, htext, rfl⟩
      refine ⟨(name, text), LayerStack.mem_sourceTexts.mpr htext, ?_⟩
      rw [(pursue_run _ _).1]
  refine ⟨fun name => ?_, ?_, hentry, fun orders sorted horders hperm hsorted => ?_⟩
  · have hsource : (w.stack.source? name).isSome = true ↔
        ∃ l ∈ w.primary :: w.libraries, (l.source? name).isSome = true := by
      rw [LayerStack.source?, List.findSome?_isSome_iff]
      rfl
    rw [← hsource, Option.isSome_iff_exists]
    constructor
    · rintro ⟨outcome, hmem⟩
      obtain ⟨text, htext, -⟩ := (hentry name outcome).mp hmem
      exact ⟨text, htext⟩
    · rintro ⟨text, htext⟩
      exact ⟨_, (hentry name _).mpr ⟨text, htext, rfl⟩⟩
  · have hincreasing := List.pairwise_map.mp w.stack.sourceTexts_increasing
    rw [hfound, List.map_map, List.pairwise_map]
    exact hincreasing.imp Utf8.encode_lt_iff.mpr
  · have hnames : (sorted.map Prod.fst).Pairwise (· ≤ ·) :=
      List.pairwise_map.mpr ((List.pairwise_map.mp hsorted).imp Utf8.encode_le_iff.mp)
    rw [hfound, answer_analyze, LayerStack.sorted_gather (s := w.stack) horders hperm hnames]

/-- A project whose library has an older text for a name of the primary layer. -/
def annotated : Workspace :=
  .ofLayers ((Layer.empty "app" .primary).attachSource "B" "new")
    [((Layer.empty "lib" .library).attachSource "B" "old").attachSource "A" "text"] .empty "app.jar"

theorem older_text_shadowed :
    List.Forall₂ (fun order l => order.Perm l.sources.toList)
      [[("B", "new")], [("B", "old"), ("A", "text")]] (annotated.primary :: annotated.libraries) ∧
    annotated.answer (Session.analyzeSources fun _ text => .done (.parsed text)) =
      [("A", .parsed "text"), ("B", .parsed "new")] := by
  have horders : List.Forall₂ (fun order l => order.Perm l.sources.toList)
      [[("B", "new")], [("B", "old"), ("A", "text")]]
      (annotated.primary :: annotated.libraries) :=
    .cons (.refl _) (.cons (.swap _ _ _) .nil)
  obtain ⟨-, -, -, hsame⟩ := analyzeSources_exact annotated fun _ text =>
    (.done (.parsed text) : Inquiry (ParseOutcome String))
  have hperm : [("A", "text"), ("B", "new")].Perm
      (LayerStack.gather [[("B", "new")], [("B", "old"), ("A", "text")]]) := .swap _ _ _
  exact ⟨horders, (hsame _ _ horders hperm (by decide)).symm⟩

end Workspace

end ClassAtlas
