import ClassAtlas.Archive.Reader
import ClassAtlas.Archive.Writer
import ClassAtlas.Proofs.Text.Utf8

/-!
Archives are read back as they were written, as long as their entries can be counted by a short
number.
-/

namespace ClassAtlas

namespace Bytes

@[simp] theorem little_length (width n : Nat) : (little width n).length = width := by
  induction width generalizing n with
  | zero => rfl
  | succ width ih => rw [little, List.length_cons, ih]

theorem ofLittle_little {width n : Nat} (h : n < 256 ^ width) : ofLittle (little width n) = n := by
  induction width generalizing n with
  | zero => exact (Nat.lt_one_iff.mp h).symm
  | succ width ih =>
    have hrest : n / 256 < 256 ^ width := by
      rw [Nat.div_lt_iff_lt_mul (by decide), ← Nat.pow_succ]
      exact h
    have hlow : n.toUInt8.toNat = n % 256 := rfl
    rw [ofLittle, little, List.foldr_cons, ← ofLittle, ih hrest, hlow]
    omega

theorem split?_append (front rest : Bytes) :
    split? front.length (front ++ rest) = some (front, rest) := by
  induction front with
  | nil => rfl
  | cons b front ih => rw [List.length_cons, List.cons_append, split?, ih, Option.map_some]

theorem length_of_split? {n : Nat} {bytes front rest : Bytes}
    (h : split? n bytes = some (front, rest)) : bytes.length = n + rest.length := by
  induction n generalizing bytes front with
  | zero =>
    cases h
    exact (Nat.zero_add _).symm
  | succ n ih =>
    cases bytes with
    | nil => cases h
    | cons b bytes =>
      obtain ⟨⟨taken, rest⟩, hrest, hfront⟩ := Option.map_eq_some_iff.mp h
      cases hfront
      rw [List.length_cons, ih hrest]
      omega

theorem window_toArray (bytes : Bytes) (start length : Nat) :
    window bytes.toArray start length = (bytes.drop start).take length := by
  rw [window, List.extract_toArray, List.extract_eq_take_drop, Nat.add_sub_cancel_left]

end Bytes

namespace Zip

variable {α β : Type}

/-! ### Readers of parts -/

theorem bind_apply (r : PartReader α) (f : α → PartReader β) (data : Bytes) :
    (r >>= f) data = r data >>= fun p => f p.1 p.2 := rfl

/-- A reader that takes exactly the given bytes from the front and makes the given value of them. -/
def Takes (r : PartReader α) (front : Bytes) (a : α) : Prop :=
  ∀ rest, r (front ++ rest) = .ok (a, rest)

namespace Takes

theorem pure (a : α) : Takes (Pure.pure a) [] a := fun _ => rfl

theorem bind {r : PartReader α} {f : α → PartReader β} {front back : Bytes} {a : α} {b : β}
    (h : Takes r front a) (h' : Takes (f a) back b) : Takes (r >>= f) (front ++ back) b := by
  intro rest
  rw [List.append_assoc, bind_apply, h]
  exact h' rest

/-- A step that takes nothing. -/
theorem after {r : PartReader α} {f : α → PartReader β} {front : Bytes} {a : α} {b : β}
    (h : Takes r [] a) (h' : Takes (f a) front b) : Takes (r >>= f) front b :=
  h.bind h'

theorem bytes (front : Bytes) : Takes (Zip.bytes front.length) front front := by
  intro rest
  rw [Zip.bytes, Bytes.split?_append]

theorem number {width n : Nat} (h : n < 256 ^ width) :
    Takes (Zip.number width) (Bytes.little width n) n := by
  intro rest
  have htake := bytes (Bytes.little width n) rest
  rw [Bytes.little_length] at htake
  rw [Zip.number, htake]
  dsimp only
  rw [Bytes.ofLittle_little h]

theorem require {condition : Bool} (h : condition = true) (e : ArchiveError) :
    Takes (Zip.require condition e) [] () := by
  intro rest
  rw [Zip.require, if_pos h]
  rfl

theorem lift {e : Except ArchiveError α} {a : α} (h : e = .ok a) :
    Takes (liftM e : PartReader α) [] a := by
  intro rest
  rw [h]
  rfl

end Takes

/-! ### Directory records -/

/-- What a directory says about an entry that is stored as it is from an offset on. -/
def recordOf (e : ArchiveEntry) (offset : Nat) : Record :=
  ⟨Utf8.encode e.name, e.name, "", false, false, 0, (checksum e.data).toNat, e.data.length,
    e.data.length, offset⟩

theorem recordBytes_eq (e : ArchiveEntry) {offset : Nat} (hoffset : offset < tooLong) :
    recordBytes e offset =
    recordMark ++ ((Bytes.little 2 20 ++ Bytes.little 2 20) ++ (Bytes.little 2 utf8Flag ++
      (Bytes.little 2 0 ++ ((Bytes.little 2 0 ++ Bytes.little 2 firstDay) ++
      (Bytes.little 4 (checksum e.data).toNat ++ (Bytes.little 4 e.data.length ++
      (Bytes.little 4 e.data.length ++ (Bytes.little 2 (Utf8.encode e.name).length ++
      (Bytes.little 2 0 ++ (Bytes.little 2 0 ++
      ((Bytes.little 2 0 ++ Bytes.little 2 0 ++ Bytes.little 4 0) ++ (Bytes.little 4 offset ++
      (Utf8.encode e.name ++ ([] ++ ([] ++ []))))))))))))))) := by
  have hshort : longOffset offset = [] := if_pos hoffset
  simp only [recordBytes, commonFields, hshort, Nat.min_eq_left hoffset.le, List.length_nil,
    List.append_assoc, List.append_nil]

theorem takes_readRecord {e : ArchiveEntry} {offset : Nat}
    (hname : (Utf8.encode e.name).length < 65536) (hdata : e.data.length < 4294967296)
    (hoffset : offset < tooLong) :
    Takes (readRecord 0) (recordBytes e offset) (recordOf e offset) := by
  have hnumber : offset < 4294967296 := hoffset.trans (by decide)
  rw [recordBytes_eq e hoffset]
  unfold readRecord
  refine .bind (.bytes recordMark) ?_
  refine .after (.require (by decide) _) ?_
  refine .bind (.bytes (Bytes.little 2 20 ++ Bytes.little 2 20)) ?_
  refine .bind (.number (by decide)) ?_
  refine .bind (.number (by decide)) ?_
  refine .bind (.bytes (Bytes.little 2 0 ++ Bytes.little 2 firstDay)) ?_
  refine .bind (.number (UInt32.toNat_lt _)) ?_
  refine .bind (.number hdata) ?_
  refine .bind (.number hdata) ?_
  refine .bind (.number hname) ?_
  refine .bind (.number (by decide)) ?_
  refine .bind (.number (by decide)) ?_
  refine .bind (.bytes (Bytes.little 2 0 ++ Bytes.little 2 0 ++ Bytes.little 4 0)) ?_
  refine .bind (.number hnumber) ?_
  refine .bind (.bytes (Utf8.encode e.name)) ?_
  refine .bind (.bytes []) ?_
  refine .bind (.bytes []) ?_
  dsimp only
  have hflag : utf8Flag.testBit 11 = true := by decide
  have hopen : utf8Flag.testBit 0 = false := by decide
  have hextra (r : Record) (hmethod : r.method = 0) : withExtra r [] = .ok r := by
    rw [withExtra]
    simp [applyExtra, hmethod, hiddenMethod]
  refine .after (.lift (hextra _ rfl)) ?_
  refine .after (.require ?_ _) ?_
  · dsimp only
    exact decide_eq_true (by omega)
  · have hrecord : recordOf e offset = { (⟨Utf8.encode e.name, textOf true (Utf8.encode e.name),
        textOf true [], false, false, 0, (checksum e.data).toNat, e.data.length, e.data.length,
        offset⟩ : Record) with start := 0 + offset } := by
      rw [textOf, if_pos rfl, Utf8.decodeLossy_encode, Nat.zero_add]
      rfl
    rw [hflag, hopen, hrecord]
    exact .pure _

/-- The entries of an archive as they follow one another. -/
def contents (es : List ArchiveEntry) : Bytes :=
  (es.map entryBytes).flatten

/-- The directory records of entries that follow one another from an offset on. -/
def directoryBytes (offset : Nat) (es : List ArchiveEntry) : Bytes :=
  (records offset (es.map fun e => (e, entryBytes e))).flatten

/-- What a directory says about entries that follow one another from an offset on. -/
def recordsOf (offset : Nat) : List ArchiveEntry → List Record
  | [] => []
  | e :: rest => recordOf e offset :: recordsOf (offset + (entryBytes e).length) rest

theorem directoryBytes_cons (offset : Nat) (e : ArchiveEntry) (rest : List ArchiveEntry) :
    directoryBytes offset (e :: rest) =
      recordBytes e offset ++ directoryBytes (offset + (entryBytes e).length) rest := rfl

theorem contents_cons (e : ArchiveEntry) (rest : List ArchiveEntry) :
    contents (e :: rest) = entryBytes e ++ contents rest := rfl

theorem entryBytes_length (e : ArchiveEntry) :
    (entryBytes e).length = 30 + (Utf8.encode e.name).length + e.data.length := by
  simp only [entryBytes, commonFields, List.length_append, Bytes.little_length]
  rw [show entryMark.length = 4 from rfl]

theorem recordBytes_length (e : ArchiveEntry) (offset : Nat) :
    46 + (Utf8.encode e.name).length ≤ (recordBytes e offset).length := by
  simp only [recordBytes, commonFields, List.length_append, Bytes.little_length]
  rw [show recordMark.length = 4 from rfl]
  omega

theorem readRecords_directoryBytes {es : List ArchiveEntry} {offset : Nat}
    (hnames : ∀ e ∈ es, (Utf8.encode e.name).length < 65536)
    (hsize : offset + (contents es).length < tooLong) (acc : List Record) (rest : Bytes) :
    readRecords 0 es.length acc (directoryBytes offset es ++ rest) =
      .ok (acc.reverse ++ recordsOf offset es) := by
  induction es generalizing offset acc with
  | nil => simp [readRecords, recordsOf]
  | cons e es ih =>
    obtain ⟨hname, hnames⟩ := List.forall_mem_cons.mp hnames
    rw [contents_cons, List.length_append, ← Nat.add_assoc] at hsize
    have hlength := entryBytes_length e
    have hlimit : tooLong < 4294967296 := by decide
    have hrecord : Takes (readRecord 0) (recordBytes e offset) (recordOf e offset) :=
      takes_readRecord hname (by omega) (by omega)
    rw [List.length_cons, readRecords, directoryBytes_cons, List.append_assoc, hrecord]
    dsimp only
    rw [ih hnames hsize, List.reverse_cons, List.append_assoc, List.singleton_append, recordsOf]

/-! ### The end of a directory -/

theorem takes_readEnd {count size offset : Nat} (hcount : count < 65536) (hsize : size < 4294967296)
    (hoffset : offset < 4294967296) :
    Takes readEnd (endBytes count size offset) ⟨0, 0, count, count, offset, true⟩ := by
  have hbytes : endBytes count size offset = endMark ++ (Bytes.little 2 0 ++ (Bytes.little 2 0 ++
      (Bytes.little 2 count ++ (Bytes.little 2 count ++ (Bytes.little 4 size ++
      (Bytes.little 4 offset ++ (Bytes.little 2 0 ++ ([] ++ [])))))))) := by
    simp only [endBytes, List.append_assoc, List.append_nil]
  rw [hbytes]
  unfold readEnd
  refine .bind (.bytes endMark) ?_
  refine .after (.require (by decide) _) ?_
  refine .bind (.number (by decide)) ?_
  refine .bind (.number (by decide)) ?_
  refine .bind (.number hcount) ?_
  refine .bind (.number hcount) ?_
  refine .bind (.number hsize) ?_
  refine .bind (.number hoffset) ?_
  refine .bind (.number (by decide)) ?_
  exact .bind (.bytes []) (.pure _)

/-- A reader that takes at least the given number of bytes if it succeeds. -/
def Needs (r : PartReader α) (n : Nat) : Prop :=
  ∀ data a rest, r data = .ok (a, rest) → n + rest.length ≤ data.length

namespace Needs

theorem pure (a : α) : Needs (Pure.pure a) 0 := by
  rintro data _ _ h
  cases h
  exact (Nat.zero_add _).le

theorem bind {r : PartReader α} {f : α → PartReader β} {n k : Nat} (h : Needs r n)
    (h' : ∀ a, Needs (f a) k) : Needs (r >>= f) (n + k) := by
  intro data b rest hread
  rw [bind_apply] at hread
  cases hr : r data with
  | error e =>
    rw [hr] at hread
    cases hread
  | ok p =>
    rw [hr] at hread
    have hfirst := h data p.1 p.2 hr
    have hnext := h' p.1 p.2 b rest hread
    omega

theorem bytes (n : Nat) : Needs (Zip.bytes n) n := by
  intro data a rest h
  rw [Zip.bytes] at h
  split at h
  · rename_i hsplit
    cases h
    exact (Bytes.length_of_split? hsplit).ge
  · cases h

theorem number (width : Nat) : Needs (Zip.number width) width := by
  intro data a rest h
  rw [Zip.number] at h
  split at h
  · rename_i hbytes
    cases h
    exact bytes width _ _ _ hbytes
  · cases h

theorem require (condition : Bool) (e : ArchiveError) : Needs (Zip.require condition e) 0 := by
  intro data a rest h
  rw [Zip.require] at h
  split at h
  · cases h
    exact (Nat.zero_add _).le
  · cases h

end Needs

/-- The length of the end of a directory without a comment. -/
def endLength : Nat := 22

theorem endBytes_length (count size offset : Nat) :
    (endBytes count size offset).length = endLength := by
  simp only [endBytes, List.length_append, Bytes.little_length]
  rfl

theorem needs_readEnd : Needs readEnd endLength := by
  have hcomment (n : Nat) : Needs (bytes n) 0 := fun data a rest h => by
    have := Needs.bytes n data a rest h
    omega
  change Needs _ (4 + (0 + (2 + (2 + (2 + (2 + (4 + (4 + (2 + (0 + 0))))))))))
  unfold readEnd
  refine .bind (.bytes 4) fun _ => .bind (.require _ _) fun _ => ?_
  refine .bind (.number 2) fun _ => .bind (.number 2) fun _ => ?_
  refine .bind (.number 2) fun _ => .bind (.number 2) fun _ => ?_
  refine .bind (.number 4) fun _ => .bind (.number 4) fun _ => ?_
  exact .bind (.number 2) fun _ => .bind (hcomment _) fun _ => .pure _

/-- Nothing is read where fewer bytes are left than a reader needs. -/
theorem readAt?_eq_none {r : PartReader α} {n : Nat} (hr : Needs r n) {data : Bytes}
    {position : Nat} (h : data.length - position < n) (length : Nat) :
    readAt? data.toArray position length r = none := by
  rw [readAt?, Bytes.window_toArray]
  split
  · rename_i a rest hread
    have hneeds := hr _ _ _ hread
    rw [List.length_take, List.length_drop] at hneeds
    omega
  · rfl

theorem readAt?_eq_some {r : PartReader α} {data bytes : Bytes} {a : α} (hr : Takes r bytes a)
    {position length : Nat} (hdata : bytes <+: data.drop position)
    (hlength : bytes.length ≤ length) : readAt? data.toArray position length r = some a := by
  obtain ⟨rest, hrest⟩ := hdata
  rw [readAt?, Bytes.window_toArray, ← hrest, List.take_append, List.take_of_length_le hlength, hr]

theorem hasMark_of_prefix {data mark : Bytes} {position : Nat}
    (h : mark <+: data.drop position) : hasMark data.toArray mark position = true := by
  rw [hasMark, Bytes.window_toArray, ← List.prefix_iff_eq_take.mp h, beq_self_eq_true]

/-! ### The directory of an archive -/

/-- An archive with fewer entries than a short number can say. -/
def archiveBytes (es : List ArchiveEntry) : Bytes :=
  contents es ++ (directoryBytes 0 es ++
    endBytes es.length (directoryBytes 0 es).length (contents es).length)

/-- Where the end of the directory of an archive stands. -/
def endPosition (es : List ArchiveEntry) : Nat :=
  (contents es).length + (directoryBytes 0 es).length

theorem archiveBytes_length (es : List ArchiveEntry) :
    (archiveBytes es).length = endPosition es + endLength := by
  rw [archiveBytes, List.length_append, List.length_append, endBytes_length, endPosition]
  omega

theorem drop_directory (es : List ArchiveEntry) : (archiveBytes es).drop (contents es).length =
    directoryBytes 0 es ++
      endBytes es.length (directoryBytes 0 es).length (contents es).length :=
  List.drop_left

theorem drop_end (es : List ArchiveEntry) : (archiveBytes es).drop (endPosition es) =
    endBytes es.length (directoryBytes 0 es).length (contents es).length := by
  rw [endPosition, ← List.drop_drop, drop_directory, List.drop_left]

/-- The directory is found from what its end says. -/
theorem locate?_archiveBytes (es : List ArchiveEntry) :
    locate? (archiveBytes es).toArray (endPosition es)
      ⟨0, 0, es.length, es.length, (contents es).length, true⟩ =
      some ⟨0, (contents es).length, es.length⟩ := by
  cases es with
  | nil => rfl
  | cons e rest =>
    have hrecord : recordMark <+: directoryBytes 0 (e :: rest) := by
      rw [directoryBytes_cons, recordBytes_eq e (by decide)]
      exact (List.prefix_append _ _).trans (List.prefix_append _ _)
    have hmark : hasMark (archiveBytes (e :: rest)).toArray recordMark
        (contents (e :: rest)).length = true := by
      refine hasMark_of_prefix ?_
      rw [drop_directory]
      exact hrecord.trans (List.prefix_append _ _)
    have hroom : 46 ≤ (directoryBytes 0 (e :: rest)).length := by
      have hrecord := recordBytes_length e 0
      rw [directoryBytes_cons, List.length_append]
      omega
    have hpositions : positions (contents (e :: rest)).length (endPosition (e :: rest)) =
        (contents (e :: rest)).length :: List.range' ((contents (e :: rest)).length + 1)
          ((directoryBytes 0 (e :: rest)).length - 4) := by
      have hlength : endPosition (e :: rest) - 3 - (contents (e :: rest)).length =
          (directoryBytes 0 (e :: rest)).length - 4 + 1 := by
        rw [endPosition]
        omega
      rw [positions, hlength, List.range'_succ]
    rw [locate?, if_neg (by simp), hpositions, List.find?_cons_of_pos hmark]
    simp

/-- Entries whose names and data fit their records. -/
structure Writable (es : List ArchiveEntry) : Prop where
  names : ∀ e ∈ es, e.name.utf8ByteSize < 65536
  data : ∀ e ∈ es, e.data.length ≤ tooLong

/-- Entries for whose names, number and positions short numbers are long enough. -/
structure Fits (es : List ArchiveEntry) : Prop where
  names : ∀ e ∈ es, e.name.utf8ByteSize < 65536
  count : es.length < 65535
  size : endPosition es < tooLong

/-- No data is longer than all of the entries together. -/
theorem Fits.writable {es : List ArchiveEntry} (h : Fits es) : Writable es where
  names := h.names
  data e he := by
    have hpart : (entryBytes e).length ≤ (contents es).length := by
      rw [contents, List.length_flatten, List.map_map]
      exact List.le_sum_of_mem (List.mem_map_of_mem he)
    have hlength := entryBytes_length e
    have hsize := h.size
    rw [endPosition] at hsize
    omega

theorem directoryAt?_archiveBytes {es : List ArchiveEntry} (hes : Fits es) :
    directoryAt? (archiveBytes es).toArray (endPosition es) = some (recordsOf 0 es) := by
  have hcount := hes.count
  have hsize := hes.size
  rw [endPosition, tooLong] at hsize
  have hend : Takes readEnd (endBytes es.length (directoryBytes 0 es).length (contents es).length)
      ⟨0, 0, es.length, es.length, (contents es).length, true⟩ :=
    takes_readEnd (by omega) (by omega) (by omega)
  have hread : readAt? (archiveBytes es).toArray (endPosition es) (22 + 65535) readEnd =
      some ⟨0, 0, es.length, es.length, (contents es).length, true⟩ := by
    refine readAt?_eq_some hend ?_ ?_
    · rw [drop_end]
    · rw [endBytes_length, endLength]
      omega
  have hpointer : pointer? (archiveBytes es).toArray (endPosition es)
      ⟨0, 0, es.length, es.length, (contents es).length, true⟩ = none := by
    refine if_neg fun h => ?_
    have := h.1
    simp only [tooLong] at this
    omega
  have hrecords : readRecords 0 es.length []
      (Bytes.window (archiveBytes es).toArray (contents es).length
        (archiveBytes es).toArray.size) = .ok (recordsOf 0 es) := by
    rw [Bytes.window_toArray, List.take_of_length_le, drop_directory]
    · have hinside : 0 + (contents es).length < tooLong := by
        rw [tooLong]
        omega
      refine (readRecords_directoryBytes ?_ hinside [] _).trans rfl
      exact fun e he => (Utf8.encode_length _).trans_lt (hes.names e he)
    · rw [List.size_toArray, List.length_drop]
      exact Nat.sub_le _ _
  rw [directoryAt?, hread]
  simp only [Option.bind_eq_bind, Option.bind_some, hpointer, locate?_archiveBytes, Option.map_some,
    hrecords]
  rfl

/-- Behind the end of the directory there is no room for another one. -/
theorem directoryBefore_skips (es : List ArchiveEntry) (k : Nat) (hk : k < endLength) :
    directoryBefore (archiveBytes es).toArray (endPosition es + 1 + k) =
      directoryBefore (archiveBytes es).toArray (endPosition es + 1) := by
  induction k with
  | zero => rfl
  | succ k ih =>
    have hnone : directoryAt? (archiveBytes es).toArray (endPosition es + 1 + k) = none := by
      rw [directoryAt?, readAt?_eq_none needs_readEnd]
      · rfl
      · rw [archiveBytes_length]
        omega
    rw [← Nat.add_assoc, directoryBefore, hnone, ih (by omega), ite_self]

/-- The last records of the names so far, after those of further records. -/
theorem getElem?_foldl_insert {rs : List Record} (hrs : (rs.map Record.name).Nodup)
    (m : Std.HashMap String Record) {r : Record} (hr : r ∈ rs) :
    (rs.foldl (fun m r => m.insert r.name r) m)[r.name]? = some r := by
  induction rs using List.reverseRecOn with
  | nil => cases hr
  | append_singleton rs last ih =>
    rw [List.map_append, List.nodup_append] at hrs
    rw [List.foldl_append, List.foldl_cons, List.foldl_nil, Std.HashMap.getElem?_insert]
    rcases List.mem_append.mp hr with hr | hr
    · have hne : last.name ≠ r.name :=
        (hrs.2.2 _ (List.mem_map_of_mem hr) _ (by simp)).symm
      rw [if_neg (by simpa using hne), ih hrs.1 hr]
    · rw [List.mem_singleton.mp hr, beq_self_eq_true, if_pos rfl]

theorem keepFrom_eq {last : Std.HashMap String Record} {rs : List Record}
    (hlast : ∀ r ∈ rs, last[r.name]? = some r) (hrs : (rs.map Record.name).Nodup)
    {seen : Std.HashSet String} (hseen : ∀ r ∈ rs, r.name ∉ seen) : keepFrom last seen rs = rs := by
  induction rs generalizing seen with
  | nil => rfl
  | cons r rs ih =>
    obtain ⟨hfirst, hlast⟩ := List.forall_mem_cons.mp hlast
    obtain ⟨hnew, hrs⟩ := List.nodup_cons.mp hrs
    obtain ⟨hfresh, hseen⟩ := List.forall_mem_cons.mp hseen
    have hrest : keepFrom last (seen.insert r.name) rs = rs := by
      refine ih hlast hrs fun r' hr' => ?_
      rw [Std.HashSet.mem_insert, not_or]
      refine ⟨fun hname => hnew ?_, hseen r' hr'⟩
      rw [eq_of_beq hname]
      exact List.mem_map_of_mem hr'
    rw [keepFrom, if_neg (by simpa using hfresh), hrest, Std.HashMap.getD_eq_getD_getElem?, hfirst,
      Option.getD_some]

/-- Nothing is left out of records with different names. -/
theorem keepLast_eq {rs : List Record} (hrs : (rs.map Record.name).Nodup) : keepLast rs = rs :=
  keepFrom_eq (fun _ hr => getElem?_foldl_insert hrs ∅ hr) hrs (by simp)

theorem recordsOf_names (offset : Nat) (es : List ArchiveEntry) :
    (recordsOf offset es).map Record.name = es.map ArchiveEntry.name := by
  induction es generalizing offset with
  | nil => rfl
  | cons e rest ih => rw [recordsOf, List.map_cons, ih, List.map_cons, recordOf]

theorem directory_archiveBytes {es : List ArchiveEntry} (hes : Fits es)
    (hdistinct : (es.map ArchiveEntry.name).Nodup) :
    directory (archiveBytes es).toArray = .ok (recordsOf 0 es) := by
  have hmark : hasMark (archiveBytes es).toArray endMark (endPosition es) = true := by
    refine hasMark_of_prefix ?_
    rw [drop_end]
    simp only [endBytes, List.append_assoc]
    exact List.prefix_append _ _
  have hstart : (archiveBytes es).toArray.size = endPosition es + 1 + 21 := by
    rw [List.size_toArray, archiveBytes_length, endLength]
  rw [directory, hstart, directoryBefore_skips es 21 (by decide), directoryBefore, if_pos hmark,
    directoryAt?_archiveBytes hes]
  dsimp only
  rw [Except.map, keepLast_eq]
  rwa [recordsOf_names]

/-! ### Entries -/

/-- The first fields of an entry, which say nothing about where its data starts. -/
def headFields (e : ArchiveEntry) : Bytes :=
  Bytes.little 2 20 ++ Bytes.little 2 utf8Flag ++ Bytes.little 2 0 ++ Bytes.little 2 0 ++
    Bytes.little 2 firstDay ++ Bytes.little 4 (checksum e.data).toNat ++
    Bytes.little 4 e.data.length ++ Bytes.little 4 e.data.length

/-- What stands in front of the name of an entry. -/
def headBytes (e : ArchiveEntry) : Bytes :=
  entryMark ++ (headFields e ++ (Bytes.little 2 (Utf8.encode e.name).length ++ Bytes.little 2 0))

theorem entryBytes_eq (e : ArchiveEntry) :
    entryBytes e = headBytes e ++ (Utf8.encode e.name ++ e.data) := by
  simp only [entryBytes, commonFields, headBytes, headFields, List.append_assoc]

theorem headFields_length (e : ArchiveEntry) : (headFields e).length = 22 := by
  simp only [headFields, List.length_append, Bytes.little_length]

theorem headBytes_length (e : ArchiveEntry) : (headBytes e).length = headLength := by
  simp only [headBytes, List.length_append, Bytes.little_length, headFields_length]
  rfl

theorem takes_readHead {e : ArchiveEntry} (hname : (Utf8.encode e.name).length < 65536) :
    Takes readHead (headBytes e) (Utf8.encode e.name).length := by
  have hfields : Takes (bytes 22) (headFields e) (headFields e) := by
    rw [← headFields_length e]
    exact .bytes _
  unfold readHead headBytes
  refine .bind (.bytes entryMark) ?_
  refine .after (.require (by decide) _) ?_
  refine .bind hfields ?_
  refine .bind (.number hname) ?_
  rw [← List.append_nil (Bytes.little 2 0)]
  exact .bind (.number (by decide)) (.pure _)

/-- An entry is read back from where it stands. -/
theorem entry_recordOf {e : ArchiveEntry} (hname : e.name.utf8ByteSize < 65536)
    (hdirectory : namesDirectory e.name = true → e.data = []) {data : Bytes} {offset : Nat}
    (hdata : entryBytes e <+: data.drop offset) :
    (recordOf e offset).entry data.toArray = .ok e := by
  have hhead : readAt? data.toArray offset headLength readHead =
      some (Utf8.encode e.name).length := by
    refine readAt?_eq_some (takes_readHead ((Utf8.encode_length _).trans_lt hname)) ?_
      (headBytes_length e).le
    rw [entryBytes_eq] at hdata
    exact (List.prefix_append _ _).trans hdata
  have hstart : (recordOf e offset).dataStart data.toArray =
      .ok (offset + headLength + (Utf8.encode e.name).length) := by
    simp [Record.dataStart, recordOf, hhead]
  have hwindow : Bytes.window data.toArray (offset + headLength + (Utf8.encode e.name).length)
      e.data.length = e.data := by
    obtain ⟨rest, hrest⟩ := hdata
    rw [Bytes.window_toArray, ← List.drop_drop, ← List.drop_drop, ← hrest, entryBytes_eq,
      ← headBytes_length e, List.append_assoc, List.drop_left, List.append_assoc, List.drop_left,
      List.take_left]
  have hunpack : (recordOf e offset).unpack e.data = .ok e.data := by
    simp [Record.unpack, recordOf]
  rw [Record.entry, hstart]
  dsimp only
  split
  · rename_i hname
    rw [← hdirectory hname]
    rfl
  · rw [show (recordOf e offset).size = e.data.length from rfl, hwindow, hunpack]
    rfl

/-- An entry that stands for a directory has no data. -/
def DirectoriesEmpty (es : List ArchiveEntry) : Prop :=
  ∀ e ∈ es, namesDirectory e.name = true → e.data = []

theorem entries_recordsOf {es : List ArchiveEntry} (hnames : ∀ e ∈ es, e.name.utf8ByteSize < 65536)
    (hdirectories : DirectoriesEmpty es) {data : Bytes} {offset : Nat}
    (hdata : contents es <+: data.drop offset) :
    entries data.toArray (recordsOf offset es) = .ok es := by
  induction es generalizing offset with
  | nil => rfl
  | cons e rest ih =>
    obtain ⟨hname, hnames⟩ := List.forall_mem_cons.mp hnames
    obtain ⟨hdirectory, hdirectories⟩ := List.forall_mem_cons.mp hdirectories
    obtain ⟨behind, hbehind⟩ := hdata
    rw [contents_cons, List.append_assoc] at hbehind
    have hnext : contents rest <+: data.drop (offset + (entryBytes e).length) := by
      rw [← List.drop_drop, ← hbehind, List.drop_left]
      exact List.prefix_append _ _
    rw [recordsOf, entries, entry_recordOf hname hdirectory ⟨_, hbehind⟩]
    dsimp only
    rw [ih hnames hdirectories hnext, Except.map]

/-! ### Archives -/

theorem hasDuplicate_eq_false {names : List String} : hasDuplicate names = false ↔ names.Nodup := by
  have hperm : (Std.HashSet.ofList names).toList.Perm names.dedup := by
    refine (List.perm_ext_iff_of_nodup ?_ names.nodup_dedup).mpr fun name => ?_
    · exact Std.HashSet.distinct_toList.imp fun h => by simpa using h
    · simp
  rw [hasDuplicate, ← Std.HashSet.length_toList, hperm.length_eq, bne_eq_false_iff_eq]
  constructor
  · intro h
    rw [← List.dedup_eq_self]
    exact (List.dedup_sublist names).eq_of_length h
  · intro h
    rw [List.dedup_eq_self.mpr h]

/-- An archive is made exactly of entries with different names that fit their records. -/
theorem encode_eq_ok {es : List ArchiveEntry} {bytes : Bytes} : encode es = .ok bytes ↔
    (es.map ArchiveEntry.name).Nodup ∧ Writable es ∧ bytes = contents es ++ directoryBytes 0 es ++
      closing es.length (directoryBytes 0 es).length (contents es).length := by
  have hcontents : ((es.map fun e => (e, entryBytes e)).map Prod.snd).flatten = contents es := by
    rw [List.map_map]
    rfl
  unfold encode
  dsimp only
  rw [hcontents, ← directoryBytes, ← hasDuplicate_eq_false]
  split_ifs with hduplicate hlong hlarge
  · simp [hduplicate]
  · simp only [List.any_eq_true, decide_eq_true_eq] at hlong
    obtain ⟨e, he, hlong⟩ := hlong
    refine iff_of_false nofun fun h => ?_
    have := h.2.1.names e he
    omega
  · simp only [List.any_eq_true, decide_eq_true_eq] at hlarge
    obtain ⟨e, he, hlarge⟩ := hlarge
    refine iff_of_false nofun fun h => ?_
    have := h.2.1.data e he
    omega
  · have hnames : ∀ e ∈ es, e.name.utf8ByteSize < 65536 := by simpa using hlong
    have hdata : ∀ e ∈ es, e.data.length ≤ tooLong := by simpa using hlarge
    have hdistinct : hasDuplicate (es.map ArchiveEntry.name) = false := by simpa using hduplicate
    rw [Except.ok.injEq, eq_comm]
    exact ⟨fun h => ⟨hdistinct, ⟨hnames, hdata⟩, h⟩, fun h => h.2.2⟩

/-- Every archive that is written begins with the same byte. -/
theorem encode_first {es : List ArchiveEntry} {bytes : Bytes} (h : encode es = .ok bytes) :
    ∃ rest, bytes = 0x50 :: rest := by
  rw [(encode_eq_ok.mp h).2.2]
  cases es with
  | nil => exact ⟨_, rfl⟩
  | cons e rest => exact ⟨_, rfl⟩

/-- An archive for which short numbers are long enough is read back as it was written. -/
theorem decode_encode {es : List ArchiveEntry} (hes : Fits es) (hdirectories : DirectoriesEmpty es)
    {bytes : Bytes} (h : encode es = .ok bytes) : decode bytes = .ok es := by
  obtain ⟨hdistinct, _, hbytes⟩ := encode_eq_ok.mp h
  have hcount := hes.count
  have hsize := hes.size
  rw [endPosition] at hsize
  have harchive : bytes = archiveBytes es := by
    rw [hbytes, closing, if_pos ⟨by omega, by omega, by omega⟩, List.append_assoc, archiveBytes]
  rw [harchive, decode, directory_archiveBytes hes hdistinct]
  exact entries_recordsOf hes.names hdirectories (List.prefix_append _ _)

end Zip

end ClassAtlas
