import ClassAtlas.Layer.Load
import Mathlib.Data.List.Induction

/-!
What a layer holds when files or archive entries have been put into it. The name of a file says
where its content goes, and from that place the name can be told again, so files of different names
never meet.
-/

namespace ClassAtlas

namespace Name

/-- An ending is taken off exactly the texts that have it. -/
theorem dropSuffix?_eq_some {s suffix rest : String} :
    dropSuffix? s suffix = some rest ↔ s = rest ++ suffix := by
  unfold dropSuffix?
  dsimp only
  rw [← String.toList_inj, String.toList_append]
  constructor
  · intro h
    split at h
    · rename_i hsuffix
      obtain ⟨front, hfront⟩ := List.isSuffixOf_iff_suffix.mp hsuffix
      cases h
      have hlength : s.toList.length - suffix.toList.length = front.length := by
        rw [← hfront, List.length_append]
        omega
      rw [String.toList_ofList, hlength, ← hfront, List.take_left]
    · cases h
  · intro h
    rw [h, if_pos (List.isSuffixOf_iff_suffix.mpr (List.suffix_append _ _)), List.length_append,
      Nat.add_sub_cancel, List.take_left, String.ofList_toList]

/-- An entry holds the unit that it is named for, if that has a name. -/
theorem ofEntry?_eq_some {entry name : String} :
    ofEntry? entry = some name ↔ entry = toEntry name ∧ name ≠ "" := by
  unfold ofEntry?
  rw [Option.filter_eq_some_iff, dropSuffix?_eq_some, toEntry]
  simp

/-- Entries of different units have different names. -/
theorem toEntry_injective : Function.Injective toEntry := by
  intro a b h
  have hname (name : String) : dropSuffix? (toEntry name) classSuffix = some name :=
    dropSuffix?_eq_some.mpr rfl
  rw [← Option.some_inj, ← hname a, h, hname]

end Name

namespace Zip

theorem endsWith_iff (s ending : String) :
    s.endsWith ending = true ↔ ending.toList <:+ s.toList := by
  rw [String.endsWith, String.Slice.endsWith_string_iff, String.copy_toSlice]

/-- The entry of a unit is never taken for a directory. -/
theorem namesDirectory_toEntry (name : String) : namesDirectory (Name.toEntry name) = false := by
  have hlast {c : Char} {ending : String} (hending : ending.toList = [c])
      (h : (Name.toEntry name).endsWith ending = true) : c = 's' := by
    obtain ⟨front, hfront⟩ := (endsWith_iff _ _).mp h
    have hsame := congrArg List.getLast? hfront
    rw [hending, List.getLast?_concat, Name.toEntry, String.toList_append,
      show Name.classSuffix.toList = ['.', 'c', 'l', 'a', 's'] ++ ['s'] by decide,
      ← List.append_assoc, List.getLast?_concat] at hsame
    exact Option.some.inj hsame
  rw [namesDirectory, Bool.or_eq_false_iff]
  constructor
  · exact Bool.eq_false_iff.mpr fun h => absurd (hlast (c := '/') (by decide) h) (by decide)
  · exact Bool.eq_false_iff.mpr fun h => absurd (hlast (c := '\\') (by decide) h) (by decide)

end Zip

namespace Layer

/-- A start is taken off exactly the texts that have it. -/
theorem dropStart?_eq_some {s start rest : String} :
    dropStart? s start = some rest ↔ s = start ++ rest := by
  unfold dropStart?
  rw [← String.toList_inj, String.toList_append, ← String.length_toList]
  constructor
  · intro h
    split at h
    · rename_i hprefix
      obtain ⟨tail, htail⟩ := List.isPrefixOf_iff_prefix.mp hprefix
      cases h
      rw [String.toList_ofList, ← htail, List.drop_left]
    · cases h
  · intro h
    rw [h, if_pos (List.isPrefixOf_iff_prefix.mpr (List.prefix_append _ _)), List.drop_left,
      String.ofList_toList]

/-- The name of an entry is that of a unit for a particular version of the host. -/
def IsVersioned (name : String) : Prop :=
  ∃ rest, name = versionedEntries ++ rest

theorem isVersioned_iff {name : String} :
    IsVersioned name ↔ (dropStart? name versionedEntries).isSome = true := by
  rw [Option.isSome_iff_exists]
  exact exists_congr fun rest => dropStart?_eq_some.symm

instance {name : String} : Decidable (IsVersioned name) :=
  decidable_of_iff _ isVersioned_iff.symm

/-- The name of an entry is that of a class: it ends like one, and something stands before that. -/
def NamesClass (entry : String) : Prop :=
  ∃ name, entry = Name.toEntry name ∧ name ≠ ""

theorem namesClass_iff {entry : String} :
    NamesClass entry ↔ Option.isSome ( Name.ofEntry? entry) = true := by
  rw [Option.isSome_iff_exists]
  exact exists_congr fun name => Name.ofEntry?_eq_some.symm

instance {entry : String} : Decidable (NamesClass entry) :=
  decidable_of_iff _ namesClass_iff.symm

/-- Outside of modules, an entry holds the unit that it is named for unless it is for a particular
version. -/
theorem entryUnit?_eq_some {entry name : String} : entryUnit? false entry = some name ↔
    entry = Name.toEntry name ∧ name ≠ "" ∧ ¬ IsVersioned entry := by
  rw [isVersioned_iff, ← and_assoc, ← Name.ofEntry?_eq_some]
  unfold entryUnit?
  cases hversioned : dropStart? entry versionedEntries <;> simp [Option.filter_some, hversioned]

/-- A unit that is not for a particular version of the host has an entry that is not either. -/
theorem not_isVersioned_toEntry {name : String} (h : ¬ IsVersioned name) :
    ¬ IsVersioned (Name.toEntry name) := by
  rintro ⟨rest, hrest⟩
  rw [Name.toEntry, ← String.toList_inj, String.toList_append, String.toList_append,
    List.append_eq_append_iff] at hrest
  rcases hrest with ⟨front, hfront, hsuffix⟩ | ⟨tail, htail, -⟩
  · cases front with
    | nil =>
      refine h ⟨"", String.ext ?_⟩
      rw [String.toList_append, hfront]
      simp
    | cons c front =>
      -- the suffix begins with a dot, and the start has none
      have hdot : '.' ∈ versionedEntries.toList := by
        have hc : c = '.' := (List.cons.inj hsuffix).1.symm
        rw [hfront, hc]
        simp
      exact absurd hdot (by decide)
  · refine h ⟨String.ofList tail, String.ext ?_⟩
    rw [htail, String.toList_append, String.toList_ofList]

/-! ### Keys -/

/-- What content is found under in a layer: the name of a unit or of a resource. -/
inductive Key where
  | unit (name : String)
  | resource (name : String)
  deriving DecidableEq

/-- The name of the file whose content belongs under a key. -/
def Key.fileName : Key → String
  | unit name => Name.toEntry name
  | resource name => name

/-- The key of a file of a directory. -/
def fileKey (path : String) : Key :=
  match Name.ofEntry? path with
  | some name => .unit name
  | none => .resource path

/-- The key of an archive entry, if it is no directory. -/
def entryKey? (isModule : Bool) (entry : String) : Option Key :=
  if Zip.namesDirectory entry then none
  else
    match entryUnit? isModule entry with
    | some name => some (.unit name)
    | none => some (.resource entry)

theorem fileName_fileKey (path : String) : (fileKey path).fileName = path := by
  unfold fileKey
  split
  · rename_i name hname
    exact (Name.ofEntry?_eq_some.mp hname).1.symm
  · rfl

theorem fileName_of_entryKey? {entry : String} {k : Key} (h : entryKey? false entry = some k) :
    k.fileName = entry := by
  unfold entryKey? at h
  split at h
  · cases h
  · split at h
    · rename_i name hname
      cases h
      exact (entryUnit?_eq_some.mp hname).1.symm
    · cases h
      rfl

/-- What a layer holds under a key. -/
def content? (l : Layer) : Key → Option Bytes
  | .unit name => l.units[name]?
  | .resource name => l.resources[name]?

/-- Two layers hold the same units and the same resources. -/
def SameContent (l l' : Layer) : Prop :=
  ∀ name : String, l.units[name]? = l'.units[name]? ∧ l.resources[name]? = l'.resources[name]?

theorem sameContent_iff {l l' : Layer} :
    l.SameContent l' ↔ ∀ k, l.content? k = l'.content? k := by
  constructor
  · intro h k
    cases k with
    | unit name => exact (h name).1
    | resource name => exact (h name).2
  · exact fun h name => ⟨h (.unit name), h (.resource name)⟩

/-- The layer with content under a key. -/
def put (l : Layer) (k : Key) (bytes : Bytes) : Layer :=
  match k with
  | .unit name => l.insertUnit ⟨name, bytes⟩
  | .resource name => l.insertResource name bytes

theorem content?_put (l : Layer) (k k' : Key) (bytes : Bytes) :
    (l.put k bytes).content? k' = if k = k' then some bytes else l.content? k' := by
  cases k <;> cases k' <;>
    simp [put, content?, insertUnit, insertResource, Std.TreeMap.getElem?_insert]

/-! ### Layers put together -/

/-- The layer with several contents under their keys; of contents under one key the last counts. -/
def putAll (l : Layer) (items : List (Key × Bytes)) : Layer :=
  items.foldl (fun l item => l.put item.1 item.2) l

theorem content?_empty (name : String) (kind : LayerKind) (k : Key) :
    (empty name kind).content? k = none := by
  cases k <;> simp [content?, empty]

/-- If no key is used for different contents, a layer holds exactly what was put into it. -/
theorem content?_putAll {items : List (Key × Bytes)}
    (hitems : ∀ x ∈ items, ∀ y ∈ items, x.1 = y.1 → x.2 = y.2) (name : String) (kind : LayerKind)
    (k : Key) (bytes : Bytes) :
    ((empty name kind).putAll items).content? k = some bytes ↔ (k, bytes) ∈ items := by
  induction items using List.reverseRecOn with
  | nil => simp [putAll, content?_empty]
  | append_singleton items item ih =>
    have hrest := ih fun x hx y hy =>
      hitems x (List.mem_append_left _ hx) y (List.mem_append_left _ hy)
    have hlast : item ∈ items ++ [item] := List.mem_append_right _ List.mem_cons_self
    rw [putAll, List.foldl_append, List.foldl_cons, List.foldl_nil, ← putAll, content?_put]
    split
    · rename_i hkey
      constructor
      · intro h
        cases h
        rw [← hkey]
        exact hlast
      · intro h
        exact congrArg some (hitems item hlast _ h hkey)
    · rename_i hkey
      rw [hrest, List.mem_append, List.mem_singleton, or_iff_left]
      rintro rfl
      exact hkey rfl

theorem ofFiles_eq (name : String) (kind : LayerKind) (files : List (String × Bytes)) :
    ofFiles name kind files =
      (empty name kind).putAll (files.map fun f => (fileKey f.1, f.2)) := by
  have hput (l : Layer) (path : String) (bytes : Bytes) :
      l.addFile path bytes = l.put (fileKey path) bytes := by
    unfold addFile fileKey
    cases Name.ofEntry? path <;> rfl
  simp only [ofFiles, putAll, List.foldl_map, hput]

theorem ofEntries_eq (name : String) (kind : LayerKind) (isModule : Bool)
    (entries : List ArchiveEntry) :
    ofEntries name kind isModule entries =
      (empty name kind).putAll (entries.filterMap fun e =>
        (entryKey? isModule e.name).map fun k => (k, e.data)) := by
  rw [ofEntries]
  generalize empty name kind = l
  induction entries generalizing l with
  | nil => rfl
  | cons e rest ih =>
    rw [List.foldl_cons, ih, List.filterMap_cons]
    unfold addEntry entryKey?
    split
    · rfl
    · cases entryUnit? isModule e.name <;> rfl

/-- A layer of files holds every file under its key, and nothing else. -/
theorem content?_ofFiles {files : List (String × Bytes)}
    (hfiles : ∀ f ∈ files, ∀ g ∈ files, f.1 = g.1 → f.2 = g.2) {name : String} {kind : LayerKind}
    {k : Key} {bytes : Bytes} :
    (ofFiles name kind files).content? k = some bytes ↔
      fileKey k.fileName = k ∧ (k.fileName, bytes) ∈ files := by
  rw [ofFiles_eq, content?_putAll]
  · rw [List.mem_map]
    constructor
    · rintro ⟨f, hf, hitem⟩
      cases hitem
      rw [fileName_fileKey]
      exact ⟨rfl, hf⟩
    · rintro ⟨hkey, hf⟩
      exact ⟨_, hf, by rw [hkey]⟩
  · rintro x hx y hy hkey
    obtain ⟨f, hf, rfl⟩ := List.mem_map.mp hx
    obtain ⟨g, hg, rfl⟩ := List.mem_map.mp hy
    refine hfiles f hf g hg ?_
    rw [← fileName_fileKey f.1, ← fileName_fileKey g.1]
    exact congrArg Key.fileName hkey

/-- A layer of archive entries holds every entry that is no directory under its key, and nothing
else. -/
theorem content?_ofEntries {entries : List ArchiveEntry}
    (hentries : ∀ e ∈ entries, ∀ e' ∈ entries, e.name = e'.name → e.data = e'.data)
    {name : String} {kind : LayerKind} {k : Key} {bytes : Bytes} :
    (ofEntries name kind false entries).content? k = some bytes ↔
      entryKey? false k.fileName = some k ∧ ⟨k.fileName, bytes⟩ ∈ entries := by
  rw [ofEntries_eq, content?_putAll]
  · simp only [List.mem_filterMap, Option.map_eq_some_iff, Prod.mk.injEq]
    constructor
    · rintro ⟨e, he, k', hkey, rfl, rfl⟩
      rw [fileName_of_entryKey? hkey]
      exact ⟨hkey, he⟩
    · rintro ⟨hkey, he⟩
      exact ⟨_, he, k, hkey, rfl, rfl⟩
  · intro x hx y hy hkey
    obtain ⟨e, he, hx⟩ := List.mem_filterMap.mp hx
    obtain ⟨e', he', hy⟩ := List.mem_filterMap.mp hy
    obtain ⟨k, hk, rfl⟩ := Option.map_eq_some_iff.mp hx
    obtain ⟨k', hk', rfl⟩ := Option.map_eq_some_iff.mp hy
    refine hentries e he e' he' ?_
    rw [← fileName_of_entryKey? hk, ← fileName_of_entryKey? hk']
    exact congrArg Key.fileName hkey

end Layer

end ClassAtlas
