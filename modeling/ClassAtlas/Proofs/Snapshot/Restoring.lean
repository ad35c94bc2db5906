import ClassAtlas.Proofs.Archive.RoundTrip
import ClassAtlas.Proofs.Layer.Contents
import ClassAtlas.Proofs.Layer.Loading
import ClassAtlas.Snapshot.Archive

/-!
Snapshots are read back. The layer that is loaded from an archive of units and resources holds
exactly these, as long as their names do not stand for something else in an archive.
-/

namespace ClassAtlas

namespace Layer

/-- The name of an archive entry that is a resource: not that of a directory, and that of a class
only if it is for a particular version of the host. -/
def NamesResource (name : String) : Prop :=
  (name.endsWith "/" = false ∧ name.endsWith "\\" = false) ∧
    ¬ (NamesClass name ∧ ¬ IsVersioned name)

instance {name : String} : Decidable (NamesResource name) :=
  inferInstanceAs (Decidable ((_ ∧ _) ∧ ¬ (_ ∧ ¬ _)))

theorem NamesResource.not_directory {name : String} (h : NamesResource name) :
    Zip.namesDirectory name = false :=
  Bool.or_eq_false_iff.mpr h.1

theorem entryKey?_toEntry {name : String} (hname : name ≠ "") (hversion : ¬ IsVersioned name) :
    entryKey? false (Name.toEntry name) = some (.unit name) := by
  have hunit : entryUnit? false (Name.toEntry name) = some name :=
    entryUnit?_eq_some.mpr ⟨rfl, hname, not_isVersioned_toEntry hversion⟩
  rw [entryKey?, Zip.namesDirectory_toEntry, hunit]
  rfl

theorem entryKey?_resource {name : String} (h : NamesResource name) :
    entryKey? false name = some (.resource name) := by
  have hunit : entryUnit? false name = none := by
    refine Option.eq_none_iff_forall_ne_some.mpr fun unit hunit => ?_
    obtain ⟨hentry, hempty, hversion⟩ := entryUnit?_eq_some.mp hunit
    exact h.2 ⟨⟨unit, hentry, hempty⟩, hversion⟩
  rw [entryKey?, h.not_directory, hunit]
  rfl

end Layer

namespace Snapshot

open Layer

/-- Units and resources that have names of their own in an archive. -/
structure Restorable (units : List ClassUnit) (resources : List ArchiveEntry) : Prop where
  units_distinct : (units.map ClassUnit.name).Nodup
  unit_names : ∀ u ∈ units, u.name ≠ "" ∧ ¬ IsVersioned u.name
  resources_distinct : (resources.map ArchiveEntry.name).Nodup
  resource_names : ∀ r ∈ resources, NamesResource r.name

section

variable {units : List ClassUnit} {resources : List ArchiveEntry}

theorem mem_entries {e : ArchiveEntry} : e ∈ entries units resources ↔
    (∃ u ∈ units, ⟨Name.toEntry u.name, u.bytes⟩ = e) ∨ e ∈ resources := by
  rw [entries, List.mem_append, List.mem_map]
  simp only [(sorted_perm units).mem_iff]
  rfl

/-- The key of an entry of a snapshot says whether it is that of a unit. -/
theorem Restorable.entryKey? (h : Restorable units resources) {e : ArchiveEntry}
    (he : e ∈ entries units resources) :
    (∃ u ∈ units, e = ⟨Name.toEntry u.name, u.bytes⟩ ∧
      Layer.entryKey? false e.name = some (.unit u.name)) ∨
    (e ∈ resources ∧ Layer.entryKey? false e.name = some (.resource e.name)) := by
  rcases mem_entries.mp he with ⟨u, hu, rfl⟩ | he
  · obtain ⟨hname, hversion⟩ := h.unit_names u hu
    exact .inl ⟨u, hu, rfl, entryKey?_toEntry hname hversion⟩
  · exact .inr ⟨he, entryKey?_resource (h.resource_names e he)⟩

theorem Restorable.entries_distinct (h : Restorable units resources) :
    ((entries units resources).map ArchiveEntry.name).Nodup := by
  have hunits : (((sorted units).map fun u => (⟨u.entryName, u.bytes⟩ : ArchiveEntry)).map
      ArchiveEntry.name).Nodup := by
    have hperm := (sorted_perm units).map ClassUnit.name
    have hsorted : ((sorted units).map ClassUnit.name).Nodup := hperm.nodup_iff.mpr h.units_distinct
    rw [List.map_map]
    have hentries := hsorted.map Name.toEntry_injective
    rwa [List.map_map] at hentries
  rw [entries, List.map_append, List.nodup_append']
  refine ⟨hunits, h.resources_distinct, ?_⟩
  intro name hunit hresource
  rw [List.map_map] at hunit
  obtain ⟨u, hu, rfl⟩ := List.mem_map.mp hunit
  obtain ⟨r, hr, hname⟩ := List.mem_map.mp hresource
  obtain ⟨hempty, hversion⟩ := h.unit_names u ((sorted_perm units).mem_iff.mp hu)
  have hkey := entryKey?_resource (h.resource_names r hr)
  rw [hname] at hkey
  exact absurd ((entryKey?_toEntry hempty hversion).symm.trans hkey) (by simp)

theorem content?_entries (h : Restorable units resources) {name : String} {kind : LayerKind}
    {k : Key} {bytes : Bytes} :
    (ofEntries name kind false (entries units resources)).content? k = some bytes ↔
      match k with
      | .unit n => ⟨n, bytes⟩ ∈ units
      | .resource n => ⟨n, bytes⟩ ∈ resources := by
  have hunique : ∀ e ∈ entries units resources, ∀ e' ∈ entries units resources,
      e.name = e'.name → e.data = e'.data := fun e he e' he' hname =>
    congrArg ArchiveEntry.data (List.inj_on_of_nodup_map h.entries_distinct he he' hname)
  rw [content?_ofEntries hunique]
  cases k with
  | unit n =>
    constructor
    · rintro ⟨hkey, he⟩
      rcases h.entryKey? he with ⟨u, hu, heq, -⟩ | ⟨-, hresource⟩
      · obtain ⟨hname, hbytes⟩ := ArchiveEntry.mk.inj heq
        rwa [Name.toEntry_injective hname, hbytes]
      · rw [hkey] at hresource
        cases hresource
    · intro hu
      obtain ⟨hempty, hversion⟩ := h.unit_names _ hu
      exact ⟨entryKey?_toEntry hempty hversion, mem_entries.mpr (.inl ⟨_, hu, rfl⟩)⟩
  | resource n =>
    constructor
    · rintro ⟨hkey, he⟩
      rcases h.entryKey? he with ⟨u, -, -, hunit⟩ | ⟨hr, -⟩
      · rw [hkey] at hunit
        cases hunit
      · exact hr
    · intro hr
      exact ⟨entryKey?_resource (h.resource_names _ hr), mem_entries.mpr (.inr hr)⟩

/-- The entries that a snapshot is made of have names of their own, so an archive can hold all of
them. From any archive that gives them back, a layer is loaded that has exactly the given units and
resources, in whatever order they were given. -/
theorem archive_restored (h : Restorable units resources) :
    ((entries units resources).map ArchiveEntry.name).Nodup ∧
    ∀ bytes, ¬ moduleMagic <+: bytes → Zip.decode bytes = .ok (entries units resources) →
      ∀ name kind, ∃ l, ofArchive name kind bytes = .ok l ∧
        (∀ n b, l.units[n]? = some b ↔ ⟨n, b⟩ ∈ units) ∧
        ∀ n b, l.resources[n]? = some b ↔ ⟨n, b⟩ ∈ resources := by
  refine ⟨h.entries_distinct, ?_⟩
  intro bytes hmodule hdecode name kind
  refine ⟨_, ofArchive_eq hmodule hdecode name kind, ?_, ?_⟩
  · exact fun n b => content?_entries h (k := .unit n)
  · exact fun n b => content?_entries h (k := .resource n)

end

namespace Saved

def units : List ClassUnit := [⟨"b/B", [2]⟩, ⟨"a/A", [1]⟩]

def resources : List ArchiveEntry := [⟨"META-INF/versions/9/A.class", [3]⟩]

theorem entries_eq : entries units resources =
    [⟨"a/A.class", [1]⟩, ⟨"b/B.class", [2]⟩, ⟨"META-INF/versions/9/A.class", [3]⟩] := by
  have hsorted : sorted units = [⟨"a/A", [1]⟩, ⟨"b/B", [2]⟩] := by
    simp [sorted, units, List.mergeSort]
  rw [entries, hsorted]
  decide

/-- Units in another order than that of their names, and a class for a particular version of the
host among the resources. -/
theorem all_restored : Restorable units resources ∧ ∃ bytes l,
    ¬ moduleMagic <+: bytes ∧ Zip.decode bytes = .ok (entries units resources) ∧
    ofArchive "app.jar" .primary bytes = .ok l ∧
    l.units["a/A"]? = some [1] ∧ l.units["b/B"]? = some [2] ∧
    l.units["META-INF/versions/9/A"]? = none ∧
    l.resources["META-INF/versions/9/A.class"]? = some [3] := by
  have hrestorable : Restorable units resources :=
    ⟨by decide, by decide +kernel, by decide, by decide +kernel⟩
  obtain ⟨hdistinct, hrestores⟩ := archive_restored hrestorable
  obtain ⟨bytes, hmodule, hdecode⟩ : ∃ bytes, ¬ moduleMagic <+: bytes ∧
      Zip.decode bytes = .ok (entries units resources) := by
    rw [entries_eq] at hdistinct ⊢
    exact Layer.exists_archive hdistinct ⟨by decide, by decide, by decide +kernel⟩
      (by unfold Zip.DirectoriesEmpty; decide +kernel)
  obtain ⟨l, hl, hunits, hresources⟩ := hrestores bytes hmodule hdecode "app.jar" .primary
  refine ⟨hrestorable, bytes, l, hmodule, hdecode, hl, ?_, ?_, ?_, ?_⟩
  · exact (hunits _ _).mpr (by decide)
  · exact (hunits _ _).mpr (by decide)
  · refine Option.eq_none_iff_forall_ne_some.mpr fun b hb => ?_
    have hmem := (hunits _ _).mp hb
    simp [units] at hmem
  · exact (hresources _ _).mpr (by decide)

end Saved

end Snapshot

end ClassAtlas
