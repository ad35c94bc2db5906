import ClassAtlas.Files.Tree

/-!
What is read from files after others have been written. Programs reach files through the operations of
an interface, so that the laws of these are stated for any kind of files; trees held in memory obey
them.
-/

namespace ClassAtlas

namespace FileAccess

variable {σ : Type} [FileAccess (StateM σ)]

/-- Reading the file at a path gives these bytes. -/
def Holds (files : σ) (path : String) (content : Bytes) : Prop :=
  ((FileAccess.read path : StateM σ _).run files).1 = .ok content

variable (σ) in
/-- Files that keep what they hold: neither looking, nor making a directory, nor a replacement that
fails changes a file, what has replaced a file is read from it, and a path that leads somewhere leads
where another spelling of it does. -/
structure Reliable : Prop where
  isFile_kept {files : σ} {p q : String} {content : Bytes} (h : Holds files p content) :
    Holds ((FileAccess.isFile q : StateM σ _).run files).2 p content
  isDirectory_kept {files : σ} {p q : String} {content : Bytes} (h : Holds files p content) :
    Holds ((FileAccess.isDirectory q : StateM σ _).run files).2 p content
  makeDirectory_kept {files : σ} {p q : String} {content : Bytes} (h : Holds files p content) :
    Holds ((FileAccess.makeDirectory q : StateM σ _).run files).2 p content
  replace_failed {files : σ} {p q : String} {content new : Bytes} {e : FileError}
    (hfail : ((FileAccess.replace q new : StateM σ _).run files).1 = .error e)
    (h : Holds files p content) :
    Holds ((FileAccess.replace q new : StateM σ _).run files).2 p content
  replace_done {files : σ} {p : String} {new : Bytes}
    (h : ((FileAccess.replace p new : StateM σ _).run files).1 = .ok ()) :
    Holds ((FileAccess.replace p new : StateM σ _).run files).2 p new
  same_file {files : σ} {p q : String} {content : Bytes} (hsame : Path.same p q)
    (h : Holds files p content) (hq : ((FileAccess.present q : StateM σ _).run files).1 = true) :
    Holds files q content

/-- The first step of a program, by what it yields and what it leaves behind. -/
theorem bind_run {σ α β : Type} {first : StateM σ α} {next : α → StateM σ β} {files files' : σ} {a : α}
    (h : first.run files = (a, files')) : (first >>= next).run files = (next a).run files' := by
  rw [StateT.run_bind, h]
  rfl

theorem Reliable.present_kept (hfiles : Reliable σ) {files : σ} {p q : String} {content : Bytes}
    (h : Holds files p content) :
    Holds ((FileAccess.present q : StateM σ _).run files).2 p content := by
  have hfile := hfiles.isFile_kept h (q := q)
  cases hlook : (FileAccess.isFile q : StateM σ _).run files with
  | mk found files' =>
    rw [hlook] at hfile
    rw [present, bind_run hlook]
    cases found with
    | true => exact hfile
    | false => exact hfiles.isDirectory_kept hfile

end FileAccess

namespace FileTree

variable {t : FileTree}

/-! ### Places that are there stay -/

/-- Directories and files of the first tree are where they were in the second one. -/
structure Grows (t t' : FileTree) : Prop where
  home : t'.home = t.home
  kept {names : List String} {place : Place} (h : t.look names = place)
    (hthere : ∀ ns, place ≠ .vacant ns) : t'.look names = place

theorem Grows.refl (t : FileTree) : t.Grows t :=
  ⟨rfl, fun h _ => h⟩

theorem Grows.trans {t' t'' : FileTree} (h : t.Grows t') (h' : t'.Grows t'') : t.Grows t'' :=
  ⟨h'.home.trans h.home, fun hlook hthere => h'.kept (h.kept hlook hthere) hthere⟩

/-- Whether there is a directory where names lead. -/
def IsListed (t : FileTree) (names : List String) : Prop :=
  names = [] ∨ key names ∈ t.directories

theorem look_listed {names : List String} (h : t.IsListed names) : t.look names = .directory names :=
  if_pos (by simpa [IsListed] using h)

theorem look_unlisted {names : List String} (h : ¬ t.IsListed names) : t.look names =
    match t.files[key names]? with
    | some content => .file names content
    | none => .vacant names :=
  if_neg (by simpa [IsListed] using h)

theorem look_eq_directory {names ns : List String} :
    t.look names = .directory ns ↔ ns = names ∧ t.IsListed names := by
  by_cases h : t.IsListed names
  · simp [look_listed h, h, eq_comm]
  · rw [look_unlisted h]
    split <;> simp [h]

theorem look_eq_file {names ns : List String} {content : Bytes} :
    t.look names = .file ns content ↔
      ns = names ∧ ¬ t.IsListed names ∧ t.files[key names]? = some content := by
  by_cases h : t.IsListed names
  · simp [look_listed h, h]
  · rw [look_unlisted h]
    split
    · rename_i found
      simp [h, found, eq_comm]
    · rename_i missing
      simp [missing]

theorem look_eq_vacant {names ns : List String} :
    t.look names = .vacant ns ↔ ns = names ∧ ¬ t.IsListed names ∧ t.files[key names]? = none := by
  by_cases h : t.IsListed names
  · simp [look_listed h, h]
  · rw [look_unlisted h]
    split
    · rename_i found
      simp [found]
    · rename_i missing
      simp [h, missing, eq_comm]

theorem insertDirectory_grows {names : List String} (h : t.look names = .vacant names) :
    t.Grows (t.insertDirectory names) := by
  obtain ⟨_, _, hmissing⟩ := look_eq_vacant.mp h
  have hlisted (ns : List String) : (t.insertDirectory names).IsListed ns ↔
      key names = key ns ∨ t.IsListed ns := by
    simp [IsListed, insertDirectory, Std.TreeMap.mem_insert, or_left_comm]
  refine ⟨rfl, ?_⟩
  intro ns place hlook hthere
  cases place with
  | directory =>
    obtain ⟨rfl, hd⟩ := look_eq_directory.mp hlook
    exact look_eq_directory.mpr ⟨rfl, (hlisted _).mpr (.inr hd)⟩
  | file =>
    obtain ⟨rfl, hns, hfile⟩ := look_eq_file.mp hlook
    refine look_eq_file.mpr ⟨rfl, fun hd => ?_, hfile⟩
    rcases (hlisted _).mp hd with hkey | hd
    · rw [← hkey, hmissing] at hfile
      cases hfile
    · exact hns hd
  | vacant => exact absurd rfl (hthere _)

theorem enter_eq_ok {names : List String} {part : String} {place : Place} :
    t.enter names part = .ok place ↔
      part = ".." ∧ .directory names.dropLast = place ∨
        part ≠ ".." ∧ part.utf8ByteSize ≤ longestName ∧ t.look (names ++ [part]) = place := by
  unfold enter
  by_cases hup : part = ".."
  · simp [hup]
  · by_cases hshort : part.utf8ByteSize ≤ longestName <;> simp [hup, hshort]

theorem enter_eq_vacant {names ns : List String} {part : String}
    (h : t.enter names part = .ok (.vacant ns)) : t.look ns = .vacant ns := by
  rcases enter_eq_ok.mp h with ⟨_, hup⟩ | ⟨_, _, hlook⟩
  · cases hup
  · obtain ⟨rfl, _⟩ := look_eq_vacant.mp hlook
    exact hlook

theorem makeFrom_grows (t : FileTree) (names parts : List String) :
    t.Grows (t.makeFrom names parts).2 := by
  induction parts generalizing t names with
  | nil => exact .refl t
  | cons part rest ih =>
    rw [makeFrom]
    split
    · exact ih t _
    · rename_i ns hvacant
      exact (insertDirectory_grows (enter_eq_vacant hvacant)).trans (ih _ _)
    · exact .refl t
    · exact .refl t

theorem makeDirectory_grows (t : FileTree) (path : String) : t.Grows (t.makeDirectory path).2 := by
  unfold makeDirectory
  split
  · exact .refl t
  · exact makeFrom_grows t _ _

theorem Grows.enter {t' : FileTree} (h : t.Grows t') {names : List String} {part : String}
    {place : Place} (henter : t.enter names part = .ok place) (hthere : ∀ ns, place ≠ .vacant ns) :
    t'.enter names part = .ok place := by
  rcases enter_eq_ok.mp henter with hup | ⟨hdown, hshort, hlook⟩
  · exact enter_eq_ok.mpr (.inl hup)
  · exact enter_eq_ok.mpr (.inr ⟨hdown, hshort, h.kept hlook hthere⟩)

/-- A way that ends at a file leads through directories. -/
theorem Grows.follow {t' : FileTree} (h : t.Grows t') {place : Place} {parts ns : List String}
    {content : Bytes} (hfile : t.follow place parts = .ok (.file ns content)) :
    t'.follow place parts = .ok (.file ns content) := by
  induction parts generalizing place with
  | nil => exact hfile
  | cons part rest ih =>
    cases place with
    | file => cases hfile
    | vacant => cases hfile
    | directory names =>
      rw [FileTree.follow] at hfile ⊢
      cases henter : t.enter names part with
      | error e =>
        rw [henter] at hfile
        cases hfile
      | ok next =>
        rw [henter] at hfile
        have hthere (missing : List String) : next ≠ .vacant missing := by
          rintro rfl
          cases rest <;> cases hfile
        rw [h.enter henter hthere]
        exact ih hfile

theorem resolve_eq_ok {path : String} {place : Place} :
    t.resolve path = .ok place ↔ refusal? path = none ∧
      t.follow (.directory (t.origin path)) (Path.parts path) = .ok place ∧
      ∀ ns content, place = .file ns content → Path.saysDirectory path = false := by
  unfold resolve
  cases refusal? path with
  | some e => simp
  | none =>
    dsimp only
    split
    · rename_i hfollow
      rw [hfollow]
      cases Path.saysDirectory path <;> simp
      rintro rfl
      simp
    · rename_i hother
      simp only [true_and]
      constructor
      · intro hfollow
        refine ⟨hfollow, fun ns content hfile => absurd hfollow ?_⟩
        rw [hfile]
        exact hother _ _
      · exact And.left

theorem Grows.resolve {t' : FileTree} (h : t.Grows t') {path : String} {ns : List String}
    {content : Bytes} (hfile : t.resolve path = .ok (.file ns content)) :
    t'.resolve path = .ok (.file ns content) := by
  obtain ⟨hrefusal, hfollow, hends⟩ := resolve_eq_ok.mp hfile
  have horigin : t'.origin path = t.origin path := by rw [origin, origin, h.home]
  exact resolve_eq_ok.mpr ⟨hrefusal, horigin ▸ h.follow hfollow, hends⟩

/-! ### What has been written is read -/

theorem read_eq_ok {path : String} {content : Bytes} :
    t.read path = .ok content ↔ ∃ ns, t.resolve path = .ok (.file ns content) := by
  unfold read
  cases t.resolve path with
  | error e => simp
  | ok place => cases place <;> simp

section Insertion

variable {ns : List String} {content : Bytes}

theorem look_insertFile (h : ¬ t.IsListed ns) :
    (t.insertFile ns content).look ns = .file ns content :=
  look_eq_file.mpr ⟨rfl, h, by simp [insertFile]⟩

theorem enter_insertFile {names : List String} {part : String}
    (h : (∃ old, t.enter names part = .ok (.file ns old)) ∨ t.enter names part = .ok (.vacant ns)) :
    (t.insertFile ns content).enter names part = .ok (.file ns content) := by
  rcases h with ⟨old, h⟩ | h
  · rcases enter_eq_ok.mp h with ⟨_, hup⟩ | ⟨hdown, hshort, hlook⟩
    · cases hup
    · obtain ⟨rfl, hunlisted, _⟩ := look_eq_file.mp hlook
      exact enter_eq_ok.mpr (.inr ⟨hdown, hshort, look_insertFile hunlisted⟩)
  · rcases enter_eq_ok.mp h with ⟨_, hup⟩ | ⟨hdown, hshort, hlook⟩
    · cases hup
    · obtain ⟨rfl, hunlisted, _⟩ := look_eq_vacant.mp hlook
      exact enter_eq_ok.mpr (.inr ⟨hdown, hshort, look_insertFile hunlisted⟩)

theorem enter_insertFile_directory {names below : List String} {part : String}
    (h : t.enter names part = .ok (.directory below)) :
    (t.insertFile ns content).enter names part = .ok (.directory below) := by
  rcases enter_eq_ok.mp h with hup | ⟨hdown, hshort, hlook⟩
  · exact enter_eq_ok.mpr (.inl hup)
  · have hlisted := look_eq_directory.mp hlook
    exact enter_eq_ok.mpr (.inr ⟨hdown, hshort, look_eq_directory.mpr hlisted⟩)

/-- Where a path led to a file, or to nothing in a directory, there is the file that is put there. -/
theorem follow_insertFile {names parts : List String}
    (h : (∃ old, t.follow (.directory names) parts = .ok (.file ns old)) ∨
      t.follow (.directory names) parts = .ok (.vacant ns)) :
    (t.insertFile ns content).follow (.directory names) parts = .ok (.file ns content) := by
  induction parts generalizing names with
  | nil => rcases h with ⟨_, h⟩ | h <;> cases h
  | cons part rest ih =>
    rw [follow] at h ⊢
    cases henter : t.enter names part with
    | error e => simp [henter] at h
    | ok next =>
      rw [henter] at h
      cases next with
      | directory below =>
        rw [enter_insertFile_directory henter]
        exact ih h
      | file | vacant =>
        cases rest with
        | cons => rcases h with ⟨_, h⟩ | h <;> cases h
        | nil =>
          have hthere : (t.insertFile ns content).enter names part = .ok (.file ns content) := by
            apply enter_insertFile
            simp_all [follow]
          rw [hthere]
          rfl

theorem resolve_write {path : String} {t' : FileTree} (h : t.write path content = (.ok (), t')) :
    ∃ ns, t'.resolve path = .ok (.file ns content) := by
  unfold write at h
  split at h
  · rename_i ns old hresolve
    cases h
    obtain ⟨hrefusal, hfollow, hends⟩ := resolve_eq_ok.mp hresolve
    exact ⟨ns, resolve_eq_ok.mpr
      ⟨hrefusal, follow_insertFile (.inl ⟨old, hfollow⟩), fun _ _ _ => hends _ _ rfl⟩⟩
  · rename_i ns hresolve
    split at h
    · cases h
    · rename_i hends
      cases h
      obtain ⟨hrefusal, hfollow, _⟩ := resolve_eq_ok.mp hresolve
      exact ⟨ns, resolve_eq_ok.mpr
        ⟨hrefusal, follow_insertFile (.inr hfollow), fun _ _ _ => by simpa using hends⟩⟩
  · cases h
  · cases h

end Insertion

theorem write_failed {path : String} {content : Bytes} {e : FileError} {t' : FileTree}
    (h : t.write path content = (.error e, t')) : t' = t := by
  unfold write at h
  split at h
  · cases h
  · split at h <;> cases h
    rfl
  · cases h
    rfl
  · cases h
    rfl

/-- Other spellings of the path of a file lead to that file, or nowhere. -/
theorem resolve_same {p q : String} {ns : List String} {content : Bytes} {place : Place}
    (hsame : Path.same p q) (hp : t.resolve p = .ok (.file ns content))
    (hq : t.resolve q = .ok place) : place = .file ns content := by
  simp only [Path.same, Bool.and_eq_true, beq_iff_eq] at hsame
  obtain ⟨⟨habsolute, _⟩, hparts⟩ := hsame
  obtain ⟨_, hp, _⟩ := resolve_eq_ok.mp hp
  obtain ⟨_, hq, _⟩ := resolve_eq_ok.mp hq
  have horigin : t.origin p = t.origin q := by rw [origin, origin, habsolute]
  rw [horigin, hparts, hq] at hp
  exact Except.ok.inj hp

theorem resolve_of_isFile {path : String} (h : t.isFile path = true) :
    ∃ place, t.resolve path = .ok place := by
  unfold isFile at h
  split at h
  · exact ⟨_, by assumption⟩
  · cases h

theorem resolve_of_isDirectory {path : String} (h : t.isDirectory path = true) :
    ∃ place, t.resolve path = .ok place := by
  unfold isDirectory at h
  split at h
  · exact ⟨_, by assumption⟩
  · cases h

theorem resolve_of_present {path : String}
    (h : ((FileAccess.present path : StateM FileTree Bool).run t).1 = true) :
    ∃ place, t.resolve path = .ok place := by
  have hlook : ((FileAccess.present path : StateM FileTree Bool).run t).1 =
      (t.isFile path || t.isDirectory path) := by
    have hfile : (FileAccess.isFile path : StateM FileTree Bool).run t = (t.isFile path, t) := rfl
    rw [FileAccess.present, FileAccess.bind_run hfile]
    cases t.isFile path <;> rfl
  rw [hlook, Bool.or_eq_true] at h
  exact h.elim resolve_of_isFile resolve_of_isDirectory

theorem holds_iff {path : String} {content : Bytes} :
    FileAccess.Holds t path content ↔ ∃ ns, t.resolve path = .ok (.file ns content) :=
  read_eq_ok

theorem reliable : FileAccess.Reliable FileTree where
  isFile_kept h := h
  isDirectory_kept h := h
  makeDirectory_kept h := by
    obtain ⟨ns, h⟩ := holds_iff.mp h
    exact holds_iff.mpr ⟨ns, (makeDirectory_grows _ _).resolve h⟩
  replace_failed hfail h := by
    have hkept := write_failed (Prod.ext hfail rfl)
    exact (congrArg (FileAccess.Holds · _ _) hkept).mpr h
  replace_done h := holds_iff.mpr (resolve_write (Prod.ext h rfl))
  same_file hsame h hq := by
    obtain ⟨ns, h⟩ := holds_iff.mp h
    obtain ⟨place, hplace⟩ := resolve_of_present hq
    rw [resolve_same hsame h hplace] at hplace
    exact holds_iff.mpr ⟨ns, hplace⟩

end FileTree

end ClassAtlas
