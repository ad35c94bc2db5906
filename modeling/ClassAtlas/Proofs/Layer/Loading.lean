import ClassAtlas.Proofs.Archive.RoundTrip
import ClassAtlas.Proofs.Files.Contents
import ClassAtlas.Proofs.Layer.Contents
import ClassAtlas.Proofs.Steps

/-!
The same files in a directory and in an archive. Both are loaded into layers, and the layers hold
the same unless the archive passes over a name or takes a unit for one of a particular version.
-/

namespace ClassAtlas

namespace FileTree

/-- The files below a directory, by their paths in it. All of them can be read. -/
def HoldsBelow (t : FileTree) (root : String) (files : List (String × Bytes)) : Prop :=
  List.Forall₂ (fun names f => f.1 = "/".intercalate names ∧ t.read (Path.join root f.1) = .ok f.2)
    (t.list root) files

variable {t : FileTree} {root : String} {files : List (String × Bytes)}

/-- A path leads to one file. -/
theorem HoldsBelow.unique (h : t.HoldsBelow root files) {f g : String × Bytes} (hf : f ∈ files)
    (hg : g ∈ files) (hpath : f.1 = g.1) : f.2 = g.2 := by
  obtain ⟨_, _, _, hread⟩ := mem_of_forall₂ h hf
  obtain ⟨_, _, _, hread'⟩ := mem_of_forall₂ h hg
  rw [hpath, hread'] at hread
  exact (Except.ok.inj hread).symm

end FileTree

namespace Layer

open FileTree FileAccess

section

variable {t : FileTree} {root : String} {files : List (String × Bytes)}

theorem readFiles_run {names : List (List String)}
    (h : List.Forall₂ (fun names f =>
      f.1 = "/".intercalate names ∧ t.read (Path.join root f.1) = .ok f.2) names files) :
    (readFiles root names : StateM FileTree _).run t = (.ok files, t) := by
  induction h with
  | nil => rfl
  | @cons names f rest files hf _ ih =>
    obtain ⟨hpath, hread⟩ := hf
    have hfirst : (FileAccess.read (Path.join root f.1) : StateM FileTree _).run t =
        (.ok f.2, t) := congrArg (·, t) hread
    rw [readFiles, ← hpath, bind_run hfirst]
    dsimp only
    rw [bind_run ih]
    rfl

/-- A directory whose files can be read is loaded, and its layer is that of these files. -/
theorem load_directory (hroot : t.isDirectory root = true) (hfiles : t.HoldsBelow root files)
    (kind : LayerKind) : (load root kind : StateM FileTree _).run t =
      (.ok (ofFiles (Path.displayName root) kind files), t) := by
  have hdirectory : (FileAccess.isDirectory root : StateM FileTree _).run t = (true, t) :=
    congrArg (·, t) hroot
  have hlist : (FileAccess.list root : StateM FileTree _).run t = (t.list root, t) := rfl
  rw [load, bind_run hdirectory, if_pos rfl, bind_run hlist, bind_run (readFiles_run hfiles)]
  rfl

/-- An archive that is not that of a module has the layer of its entries. -/
theorem ofArchive_eq {bytes : Bytes} {entries : List ArchiveEntry}
    (hmodule : ¬ moduleMagic <+: bytes) (hentries : Zip.decode bytes = .ok entries) (name : String)
    (kind : LayerKind) : ofArchive name kind bytes = .ok (ofEntries name kind false entries) := by
  rw [ofArchive, archivePart, if_neg (mt List.isPrefixOf_iff_prefix.mp hmodule)]
  dsimp only
  rw [hentries]

/-- There are archives of entries for which short numbers are long enough. -/
theorem exists_archive {entries : List ArchiveEntry}
    (hdistinct : (entries.map ArchiveEntry.name).Nodup) (hfits : Zip.Fits entries)
    (hdirectories : Zip.DirectoriesEmpty entries) :
    ∃ bytes, ¬ moduleMagic <+: bytes ∧ Zip.decode bytes = .ok entries := by
  obtain ⟨bytes, hbytes⟩ : ∃ bytes, Zip.encode entries = .ok bytes :=
    ⟨_, Zip.encode_eq_ok.mpr ⟨hdistinct, hfits.writable, rfl⟩⟩
  refine ⟨bytes, ?_, Zip.decode_encode hfits hdirectories hbytes⟩
  obtain ⟨rest, rfl⟩ := Zip.encode_first hbytes
  simp [moduleMagic]

/-- The name of a file under which an archive holds what a directory does: it does not end like that
of a directory, and it is not that of a unit for a particular version of the host. -/
def Packs (path : String) : Prop :=
  Zip.namesDirectory path = false ∧ ¬ (IsVersioned path ∧ NamesClass path)

instance {path : String} : Decidable (Packs path) :=
  inferInstanceAs (Decidable (_ ∧ ¬ (_ ∧ _)))

theorem entryKey?_eq_fileKey {path : String} :
    entryKey? false path = some (fileKey path) ↔ Packs path := by
  have hunit : entryUnit? false path =
      if (dropStart? path versionedEntries).isNone then Name.ofEntry? path else none := by
    rw [entryUnit?, if_neg Bool.false_ne_true, Option.filter_some]
    split <;> rfl
  rw [entryKey?, Packs, isVersioned_iff, namesClass_iff, hunit, fileKey]
  cases Zip.namesDirectory path <;> cases dropStart? path versionedEntries <;>
    cases Name.ofEntry? path <;> simp

/-- A directory and an archive of the same files, in any order, can both be loaded. Their layers
hold the same units and resources, with the same content, exactly if every file has a name under
which the archive holds what the directory does. -/
theorem packed_agrees_iff {bytes : Bytes} {entries : List ArchiveEntry}
    (hroot : t.isDirectory root = true) (hfiles : t.HoldsBelow root files)
    (hmodule : ¬ moduleMagic <+: bytes) (hdecode : Zip.decode bytes = .ok entries)
    (hentries : entries.Perm (files.map fun f => ⟨f.1, f.2⟩)) (name : String) (kind : LayerKind) :
    ∃ directory archive, ((load root kind : StateM FileTree _).run t).1 = .ok directory ∧
      ofArchive name kind bytes = .ok archive ∧
      (directory.SameContent archive ↔ ∀ f ∈ files, Packs f.1) := by
  refine ⟨_, _, congrArg Prod.fst (load_directory hroot hfiles kind),
    ofArchive_eq hmodule hdecode name kind, ?_⟩
  have hmem {path : String} {content : Bytes} :
      (⟨path, content⟩ : ArchiveEntry) ∈ entries ↔ (path, content) ∈ files := by
    rw [hentries.mem_iff, List.mem_map]
    constructor
    · rintro ⟨f, hf, he⟩
      cases he
      exact hf
    · exact fun hf => ⟨_, hf, rfl⟩
  have hdirectory {k : Key} {content : Bytes} :
      (ofFiles (Path.displayName root) kind files).content? k = some content ↔
        fileKey k.fileName = k ∧ (k.fileName, content) ∈ files :=
    content?_ofFiles fun f hf g hg => hfiles.unique hf hg
  have harchive {k : Key} {content : Bytes} :
      (ofEntries name kind false entries).content? k = some content ↔
        entryKey? false k.fileName = some k ∧ (k.fileName, content) ∈ files := by
    rw [← hmem]
    exact content?_ofEntries fun e he e' he' hname =>
      hfiles.unique (hmem.mp he) (hmem.mp he') hname
  rw [sameContent_iff]
  constructor
  · intro hsame f hf
    have hheld :
        (ofFiles (Path.displayName root) kind files).content? (fileKey f.1) = some f.2 := by
      rw [hdirectory, fileName_fileKey]
      exact ⟨rfl, hf⟩
    rw [hsame, harchive, fileName_fileKey] at hheld
    exact entryKey?_eq_fileKey.mp hheld.1
  · intro hpacks k
    refine Option.ext fun content => ?_
    rw [hdirectory, harchive]
    refine and_congr_left fun hf => ?_
    rw [entryKey?_eq_fileKey.mpr (hpacks _ hf), Option.some_inj]

end

namespace Versioned

def tree : FileTree :=
  ((((FileTree.startingIn "app").insertDirectory ["app", "META-INF"]).insertDirectory
    ["app", "META-INF", "versions"]).insertDirectory
    ["app", "META-INF", "versions", "9"]).insertFile
    ["app", "META-INF", "versions", "9", "A.class"] [1]

def files : List (String × Bytes) := [("META-INF/versions/9/A.class", [1])]

def entries : List ArchiveEntry := files.map fun f => ⟨f.1, f.2⟩

/-- The class for a particular version of the host is a unit if it comes from the directory, and a
resource if it comes from the archive. -/
theorem loads_differ : ∃ bytes directory archive, Zip.decode bytes = .ok entries ∧
    ((load "/app" .primary : StateM FileTree _).run tree).1 = .ok directory ∧
    ofArchive "app.jar" .primary bytes = .ok archive ∧ ¬ directory.SameContent archive := by
  have hroot : tree.isDirectory "/app" = true := by decide +kernel
  have hfiles : tree.HoldsBelow "/app" files := by
    have hlist : tree.list "/app" = [["META-INF", "versions", "9", "A.class"]] := by decide +kernel
    rw [HoldsBelow, hlist]
    exact .cons ⟨by decide, by decide +kernel⟩ .nil
  have hdirectories : Zip.DirectoriesEmpty entries := by
    unfold Zip.DirectoriesEmpty
    decide +kernel
  obtain ⟨bytes, hmodule, hdecode⟩ :=
    exists_archive (by decide) ⟨by decide, by decide, by decide +kernel⟩ hdirectories
  obtain ⟨directory, archive, hdirectory, harchive, hsame⟩ :=
    packed_agrees_iff hroot hfiles hmodule hdecode (.refl entries) "app.jar" .primary
  refine ⟨bytes, directory, archive, hdecode, hdirectory, harchive, fun h => ?_⟩
  have hpacks : Packs "META-INF/versions/9/A.class" := hsame.mp h _ List.mem_cons_self
  exact absurd hpacks (by decide +kernel)

end Versioned

end Layer

end ClassAtlas
