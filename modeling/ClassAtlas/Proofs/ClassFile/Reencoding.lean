import ClassAtlas.Calls.Graph
import ClassAtlas.Proofs.ClassFile.Rewriting
import ClassAtlas.Proofs.Code.Growth
import ClassAtlas.Proofs.Code.StackDepth

/-!
Classes that are read, written and read again. Whatever is read can be written so that it can be read
again, and the second declaration says the same as the first: the pool may have grown and limits may
have been computed anew, but names, parents, methods, instructions and handlers are as before.
-/

namespace ClassAtlas

namespace ClassFile

open Reader

/-! ### What can be read -/

theorem readHandler_inRange (pool : Pool) (codeLength : Nat) :
    Yields (readHandler pool codeLength) (InRange codeLength) := by
  refine .bind fun start => .bind fun stop => .bind fun handler => .bind fun catchType => ?_
  split
  · exact .fail _
  · rename_i hrange
    refine .pure ?_
    simp only [Bool.or_eq_true, decide_eq_true_eq, ge_iff_le, UInt16.le_iff_toNat_le] at hrange
    simp only [InRange]
    omega

theorem readBody_inRange (pool : Pool) :
    Yields (readBody pool) fun body => ∀ x ∈ body.handlers, InRange body.code.length x := by
  refine .bind fun maxStack => .bind fun maxLocals => .bind fun length => ?_
  refine (Yields.take _).after fun code hcode => ?_
  have hhandlers : Yields (readList (readHandler pool length.toNat)) fun handlers =>
      ∀ x ∈ handlers, InRange length.toNat x :=
    .bind fun n => (readHandler_inRange pool length.toNat).many n.toNat
  refine hhandlers.after fun handlers hrange => .bind fun attributes => .pure ?_
  rw [hcode]
  exact hrange

/-- A method without a body has no attribute that could be taken for one. -/
structure MethodReadable (m : MethodDecl) : Prop where
  handlers : HandlersInRange m.body
  code : m.body = none → ∀ a ∈ m.attributes, a.name ≠ codeName

theorem splitBody_readable {pool : Pool} {label : String} {attributes rest : List Attribute}
    {body : Option MethodBody} (h : splitBody pool label attributes = .ok (body, rest)) :
    HandlersInRange body ∧ (body = none → ∀ a ∈ rest, a.name ≠ codeName) := by
  simp only [splitBody] at h
  split at h
  · rename_i before a after hspan
    cases hrun : (readBody pool).run label a.data with
    | error e =>
      rw [hrun] at h
      cases h
    | ok found =>
      rw [hrun] at h
      cases h
      simp only [Reader.run] at hrun
      split at hrun
      · rename_i c hread
        cases hrun
        refine ⟨?_, fun hnone => by cases hnone⟩
        intro b hb
        cases hb
        exact readBody_inRange pool _ _ _ hread
      · cases hrun
  · rename_i before hspan
    cases h
    refine ⟨by simp [HandlersInRange], fun _ a ha => ?_⟩
    rw [List.span_eq_takeWhile_dropWhile] at hspan
    have hbefore : attributes.takeWhile (·.name != codeName) = rest := congrArg Prod.fst hspan
    rw [← hbefore] at ha
    simpa using List.mem_takeWhile_imp ha

theorem readMethod_readable (pool : Pool) : Yields (readMethod pool) MethodReadable := by
  intro c m c' h
  obtain ⟨f, _, hsplit⟩ := readMethod_along pool c m c' h
  obtain ⟨hhandlers, hcode⟩ := splitBody_readable hsplit.split
  exact ⟨hhandlers, hcode⟩

/-- What is read has a sound pool, and all of its methods can be written so that they are read
again. -/
theorem parse_readable {label : String} {bytes : Bytes} {d : ClassDecl}
    (h : parse label bytes = .ok d) : d.pool.Sound ∧ ∀ m ∈ d.methods, MethodReadable m := by
  obtain ⟨c, hread⟩ := parse_ok h
  obtain ⟨minor, major, c₁, pool, c₂, _, hpool, hmembers, _⟩ := readFile_ok hread
  have hsound : pool.Sound := (Pool.Reachable.read hpool).sound
  have hmethods : Yields (readMembers minor major pool) fun d =>
      d.pool = pool ∧ ∀ m ∈ d.methods, MethodReadable m := by
    refine .bind fun access => .bind fun name => .bind fun superName => .bind fun interfaces =>
      .bind fun fields => ?_
    have hlist : Yields (readList (readMethod pool)) fun methods =>
        ∀ m ∈ methods, MethodReadable m :=
      .bind fun n => (readMethod_readable pool).many n.toNat
    exact hlist.after fun methods hall => .bind fun attributes => .pure ⟨rfl, hall⟩
  obtain ⟨rfl, hall⟩ := hmethods _ _ _ hmembers
  exact ⟨hsound, hall⟩

theorem decode_eq_ok {name : String} {bytes : Bytes} {d : ClassDecl} :
    decode name bytes = .ok d ↔ parse name bytes = .ok d ∧ d.name = name := by
  unfold decode
  cases parse name bytes with
  | error e => simp
  | ok found =>
    dsimp only
    split
    · rename_i hname
      constructor
      · intro h
        cases h
        exact ⟨rfl, hname⟩
      · rintro ⟨h, _⟩
        exact h
    · rename_i hname
      refine iff_of_false (by simp) ?_
      rintro ⟨h, hd⟩
      cases h
      exact hname hd

theorem codec_decode_eq_ok {name : String} {bytes : Bytes} {d : ClassDecl} :
    codec.decode name bytes = .ok d ↔ decode name bytes = .ok d := by
  simp only [codec]
  cases decode name bytes with
  | error e => simp
  | ok found => simp

end ClassFile

/-! ### What the second declaration says -/

namespace ClassDecl

/-- Both declarations say the same to whoever analyses the class. -/
structure Alike (d d' : ClassDecl) : Prop where
  name : d'.name = d.name
  access : d'.access = d.access
  superName : d'.superName = d.superName
  interfaces : d'.interfaces = d.interfaces
  methods : List.Forall₂ (fun m m' => m'.access = m.access ∧ m'.name = m.name ∧
    m'.descriptor = m.descriptor ∧ FlowGraph.methodCode d' m' = FlowGraph.methodCode d m)
    d.methods d'.methods

end ClassDecl

namespace ClassFile

theorem Rewritten.signature {d : ClassDecl} {recompute : Bool} {m m' : MethodDecl}
    (h : Rewritten d recompute m m') :
    m'.access = m.access ∧ m'.name = m.name ∧ m'.descriptor = m.descriptor := by
  unfold Rewritten at h
  split at h
  · rw [h]
    exact ⟨rfl, rfl, rfl⟩
  · obtain ⟨maxStack, maxLocals, _, rfl⟩ := h
    exact ⟨rfl, rfl, rfl⟩

/-- The code of a method is found again with the pool that has grown. -/
theorem Rewritten.methodCode {d d' : ClassDecl} {recompute : Bool} {m m' : MethodDecl}
    {code : List Instruction × List Handler} (hm : Rewritten d recompute m m')
    (hname : d'.name = d.name) (hpool : d.pool.Extends d'.pool)
    (hcode : FlowGraph.methodCode d m = .ok code) :
    FlowGraph.methodCode d' m' = .ok code := by
  unfold Rewritten at hm
  cases hbody : m.body with
  | none =>
    rw [hbody] at hm
    rw [hm]
    unfold FlowGraph.methodCode at hcode ⊢
    rw [hbody] at hcode ⊢
    exact hcode
  | some body =>
    rw [hbody] at hm
    obtain ⟨maxStack, maxLocals, _, rfl⟩ := hm
    unfold FlowGraph.methodCode at hcode ⊢
    rw [hbody] at hcode
    dsimp only at hcode ⊢
    cases hins : d.instructions body with
    | error e =>
      rw [hins] at hcode
      cases hcode
    | ok instructions =>
      rw [hins] at hcode
      have hlater : d'.instructions { body with maxStack := maxStack, maxLocals := maxLocals } =
          .ok instructions := by
        rw [ClassDecl.instructions, hname]
        exact Code.decode_later hpool hins
      rw [hlater]
      exact hcode

theorem encode_eq_ok {d : ClassDecl} {flags : WriterFlags} {bytes : Bytes}
    (h : encode d flags = .ok bytes) : ∃ recompute, write d recompute = .ok bytes := by
  cases flags with
  | computeFrames => cases h
  | computeMaxs => exact ⟨true, h⟩
  | none => exact ⟨false, h⟩

/-- A class whose methods can all be decoded says the same after it has been written and read. -/
theorem decode_encode_alike {name : String} {bytes bytes' : Bytes} {d : ClassDecl}
    {flags : WriterFlags} (hd : decode name bytes = .ok d)
    (hcode : ∀ m ∈ d.methods, ∃ code, FlowGraph.methodCode d m = .ok code)
    (h : encode d flags = .ok bytes') : ∃ d', decode name bytes' = .ok d' ∧ d.Alike d' := by
  obtain ⟨hparse, hname⟩ := decode_eq_ok.mp hd
  obtain ⟨hpool, hmethods⟩ := parse_readable hparse
  obtain ⟨recompute, hwrite⟩ := encode_eq_ok h
  obtain ⟨methods, pool, hrewritten, hkept, hread⟩ :=
    write_conveys hpool (fun m hm => (hmethods m hm).code) hwrite
  have hagain := (hread name).1 fun m hm => (hmethods m hm).handlers
  refine ⟨_, decode_eq_ok.mpr ⟨hagain, hname⟩, rfl, rfl, rfl, rfl, ?_⟩
  have hboth := (List.forall₂_and_left d.methods methods).mpr ⟨hcode, hrewritten⟩
  refine hboth.imp ?_
  rintro m m' ⟨⟨code, hm⟩, hm'⟩
  obtain ⟨haccess, hsame, hdescriptor⟩ := hm'.signature
  refine ⟨haccess, hsame, hdescriptor, ?_⟩
  rw [hm]
  exact hm'.methodCode rfl hkept hm

end ClassFile

/-!
A class that calls its own method, and whose pool holds the name of the class twice. The entry for the
class is looked for under the first of the two, so that writing the class adds another one, and the
stored limits are too high.
-/

namespace Doubled

open ClassFile Reader

def records : List Pool.Record :=
  [⟨[1, 0, 1, 65], .utf8 "A"⟩, ⟨[1, 0, 1, 65], .utf8 "A"⟩, ⟨[7, 0, 2], .classRef 2⟩,
    ⟨[1, 0, 1, 109], .utf8 "m"⟩, ⟨[1, 0, 3, 40, 41, 86], .utf8 "()V"⟩,
    ⟨[1, 0, 4, 67, 111, 100, 101], .utf8 "Code"⟩, ⟨[12, 0, 4, 0, 5], .nameAndType 4 5⟩,
    ⟨[10, 0, 3, 0, 7], .methodRef 3 7⟩]

def header : Bytes := [0xCA, 0xFE, 0xBA, 0xBE, 0, 0, 0, 52]

def pool : Bytes :=
  [0, 9, 1, 0, 1, 65, 1, 0, 1, 65, 7, 0, 2, 1, 0, 1, 109, 1, 0, 3, 40, 41, 86,
    1, 0, 4, 67, 111, 100, 101, 12, 0, 4, 0, 5, 10, 0, 3, 0, 7]

def members : Bytes :=
  [0, 33, 0, 3, 0, 0, 0, 0, 0, 0, 0, 1, 0, 9, 0, 4, 0, 5, 0, 1, 0, 6, 0, 0, 0, 16, 0, 7, 0, 7,
    0, 0, 0, 4, 0xB8, 0, 8, 0xB1, 0, 0, 0, 0, 0, 0]

def bytes : Bytes := header ++ pool ++ members

/-- The content of the code attribute. -/
def data : Bytes := [0, 7, 0, 7, 0, 0, 0, 4, 0xB8, 0, 8, 0xB1, 0, 0, 0, 0]

def body : MethodBody := ⟨7, 7, [0xB8, 0, 8, 0xB1], [], []⟩

def method : MethodDecl := ⟨⟨9⟩, "m", "()V", some body, []⟩

def type : ClassDecl where
  minor := 0
  major := 52
  access := ⟨0x21⟩
  name := "A"
  superName := none
  interfaces := []
  fields := []
  methods := [method]
  attributes := []
  pool := .ofRecords records

def instructions : List Instruction :=
  [⟨0, 0xB8, 3, false, .invoke ⟨.static, "A", "m", "()V", false⟩⟩, ⟨3, 0xB1, 1, false, .none⟩]

theorem records_encoded : ∀ r ∈ records, r.entry ≠ .unusable ∧ r.entry.encode = .ok r.bytes := by
  decide

theorem readMethod_members : readMethod (.ofRecords records) ⟨"A", members.drop 12, 60⟩ =
    .ok method ⟨"A", members.drop 42, 90⟩ := by
  have haccess : Reader.u16 ⟨"A", members.drop 12, 60⟩ = .ok 9 ⟨"A", members.drop 14, 62⟩ := rfl
  have hname : readText (.ofRecords records) ⟨"A", members.drop 14, 62⟩ =
      .ok "m" ⟨"A", members.drop 16, 64⟩ := rfl
  have hdescriptor : readText (.ofRecords records) ⟨"A", members.drop 16, 64⟩ =
      .ok "()V" ⟨"A", members.drop 18, 66⟩ := rfl
  have hattributes : readAttributes (.ofRecords records) ⟨"A", members.drop 18, 66⟩ =
      .ok [⟨codeName, data⟩] ⟨"A", members.drop 42, 90⟩ := rfl
  have hbody : readBody (.ofRecords records) (.start "m()V" data) = .ok body ⟨"m()V", [], 16⟩ := rfl
  have hsplit : splitBody (.ofRecords records) ("m" ++ "()V") [⟨codeName, data⟩] =
      .ok (some body, []) := by
    simp [splitBody, List.span_eq_takeWhile_dropWhile, Reader.run, hbody]
  rw [readMethod, bind_ok haccess, bind_ok hname, bind_ok hdescriptor, bind_ok hattributes, hsplit]
  rfl

theorem readMembers_members : readMembers 0 52 (.ofRecords records) ⟨"A", members, 48⟩ =
    .ok type ⟨"A", [], 92⟩ := by
  have haccess : Reader.u16 ⟨"A", members, 48⟩ = .ok 33 ⟨"A", members.drop 2, 50⟩ := rfl
  have hname : readClass (.ofRecords records) ⟨"A", members.drop 2, 50⟩ =
      .ok "A" ⟨"A", members.drop 4, 52⟩ := rfl
  have hsuper : readOptionalClass (.ofRecords records) ⟨"A", members.drop 4, 52⟩ =
      .ok none ⟨"A", members.drop 6, 54⟩ := rfl
  have hinterfaces : readList (readClass (.ofRecords records)) ⟨"A", members.drop 6, 54⟩ =
      .ok [] ⟨"A", members.drop 8, 56⟩ := rfl
  have hfields : readList (readField (.ofRecords records)) ⟨"A", members.drop 8, 56⟩ =
      .ok [] ⟨"A", members.drop 10, 58⟩ := rfl
  have hcount : Reader.u16 ⟨"A", members.drop 10, 58⟩ = .ok 1 ⟨"A", members.drop 12, 60⟩ := rfl
  have hmethods : readList (readMethod (.ofRecords records)) ⟨"A", members.drop 10, 58⟩ =
      .ok [method] ⟨"A", members.drop 42, 90⟩ := by
    rw [readList, bind_ok hcount]
    simp [Reader.many, Reader.manyFrom, readMethod_members]
  rw [readMembers, bind_ok haccess, bind_ok hname, bind_ok hsuper, bind_ok hinterfaces,
    bind_ok hfields, bind_ok hmethods]
  rfl

theorem decode_bytes : ClassFile.decode "A" bytes = .ok type := by
  have hpool : Reads Pool.read pool (.ofRecords records) := by
    rw [Pool.read_eq]
    exact (Pool.reads_stored (by decide) records_encoded).map Pool.ofRecords
  have hheader : readHeader (.start "A" bytes) = .ok (0, 52) ⟨"A", pool ++ members, 8⟩ := rfl
  have hfile : readFile (.start "A" bytes) = .ok type ⟨"A", [], 92⟩ := by
    rw [readFile, bind_ok hheader]
    dsimp only
    rw [bind_ok (hpool "A" members 8)]
    rw [show 8 + pool.length = 48 from rfl, bind_ok readMembers_members]
    rfl
  have hparse : parse "A" bytes = .ok type := by
    simp only [parse, Reader.run, hfile]
  exact ClassFile.decode_eq_ok.mpr ⟨hparse, rfl⟩

theorem instructions_body : type.instructions body = .ok instructions := by
  decide

theorem limits_body : type.limits method body = .ok (0, 0) := by
  have htype : MethodType.parse method.descriptor = .ok ⟨[], "V"⟩ := by decide
  have hlocals : localsOf method ⟨[], "V"⟩ instructions = 0 := by decide
  have hnodup : (instructions.map (·.offset)).Nodup := by decide
  have hdepth (label : String) :
      StackDepth.ofInstructions label instructions body.handlers = .ok 0 := by
    let l := Listing.ofList instructions
    calc StackDepth.ofInstructions label instructions body.handlers
      _ = StackDepth.search label l #[0, 0] [(0, 0)] 0 := if_neg (by decide)
      _ = StackDepth.search label l #[1, 0] [(3, 0)] 0 := StackDepth.search_enter label hnodup 0 0
      _ = StackDepth.search label l #[1, 1] [] 0 := StackDepth.search_enter label hnodup 1 0
      _ = .ok 0 := by rw [StackDepth.search]
  simp [ClassDecl.limits, htype, instructions_body, hlocals, hdepth]

/-- The class is found at the new entry, and the limits are those that its method needs. -/
def newMembers : Bytes :=
  [0, 33, 0, 9, 0, 0, 0, 0, 0, 0, 0, 1, 0, 9, 0, 4, 0, 5, 0, 1, 0, 6, 0, 0, 0, 16, 0, 0, 0, 0,
    0, 0, 0, 4, 0xB8, 0, 8, 0xB1, 0, 0, 0, 0, 0, 0]

/-- The code attribute with these limits. -/
def newData : Bytes := [0, 0, 0, 0, 0, 0, 0, 4, 0xB8, 0, 8, 0xB1, 0, 0, 0, 0]

def newPool : Bytes :=
  [0, 10, 1, 0, 1, 65, 1, 0, 1, 65, 7, 0, 2, 1, 0, 1, 109, 1, 0, 3, 40, 41, 86,
    1, 0, 4, 67, 111, 100, 101, 12, 0, 4, 0, 5, 10, 0, 3, 0, 7, 7, 0, 1]

/-- The pool that is written: the class has got an entry at slot nine. -/
def grown : Pool := type.pool.push (.classRef 1)

theorem type_sound : type.pool.Sound :=
  Pool.ofRecords_sound fun r hr => (records_encoded r hr).1

theorem grown_sound : grown.Sound :=
  type_sound.push (by simp)

theorem classEntry_type : type.pool.classEntry "A" = (9, grown) := by
  rw [Pool.classEntry, Pool.utf8, type_sound.intern_found (by simp) (n := 1) (by decide)]
  exact type_sound.intern_missing (by simp) (by decide)

theorem text_grown {s : String} {n : Nat} (h : grown.entries.toList.idxOf? (.utf8 s) = some n) :
    Emitter.text s grown = .ok (Bytes.ofUInt16 n.toUInt16, grown) := by
  rw [Emitter.text, Pool.utf8, grown_sound.intern_found (by simp) h]

theorem emitMethod_method : emitMethod type true method grown =
    .ok ([0, 9, 0, 4, 0, 5, 0, 1, 0, 6, 0, 0, 0, 16] ++ newData, grown) := by
  have hlimits : limitsOf type method body true grown = .ok ((0, 0), grown) := by
    simp only [limitsOf, limits_body, if_true]
  have hbody : limitedBody type true method grown = .ok (some (body, 0, 0), grown) := by
    simp only [limitedBody, show method.body = some body from rfl]
    rw [Emitter.bind_ok hlimits]
    rfl
  have hname : Emitter.text method.name grown = .ok ([0, 4], grown) :=
    text_grown (n := 4) (by decide)
  have hdescriptor : Emitter.text method.descriptor grown = .ok ([0, 5], grown) :=
    text_grown (n := 5) (by decide)
  have hcode : emitCode (some (body, 0, 0)) grown =
      .ok ([0, 6, 0, 0, 0, 16] ++ newData, grown) := by
    have hdata : emitBody body 0 0 grown = .ok (newData, grown) := rfl
    have htext : Emitter.text codeName grown = .ok ([0, 6], grown) :=
      text_grown (n := 6) (by decide)
    rw [emitCode, Emitter.bind_ok hdata, emitAttribute, Emitter.bind_ok htext]
    rfl
  rw [emitMethod, Emitter.bind_ok hbody, Emitter.bind_ok hname, Emitter.bind_ok hdescriptor]
  rw [Emitter.bind_ok (a := [0, 1]) (q := grown) rfl, Emitter.bind_ok hcode]
  rfl

theorem emitMembers_type : emitMembers type true type.pool = .ok (newMembers, grown) := by
  have hname : Emitter.className type.name type.pool = .ok ([0, 9], grown) := by
    rw [Emitter.className, show type.name = "A" from rfl, classEntry_type]
    rfl
  have hmethods : Emitter.list "methods" (emitMethod type true) type.methods grown =
      .ok ([0, 1, 0, 9, 0, 4, 0, 5, 0, 1, 0, 6, 0, 0, 0, 16] ++ newData, grown) := by
    have hall : [method].mapM (emitMethod type true) grown =
        .ok ([[0, 9, 0, 4, 0, 5, 0, 1, 0, 6, 0, 0, 0, 16] ++ newData], grown) := by
      rw [List.mapM_cons, Emitter.bind_ok emitMethod_method, List.mapM_nil]
      rfl
    rw [Emitter.list, Emitter.bind_ok (a := [0, 1]) (q := grown) rfl]
    rw [Emitter.all, Emitter.bind_ok (Emitter.bind_ok hall)]
    rfl
  rw [emitMembers, Emitter.bind_ok hname]
  rw [Emitter.bind_ok (a := [0, 0]) (q := grown) rfl, Emitter.bind_ok (a := [0, 0]) (q := grown) rfl,
    Emitter.bind_ok (a := [0, 0]) (q := grown) rfl, Emitter.bind_ok hmethods]
  rfl

theorem encode_type :
    ClassFile.encode type .computeMaxs = .ok (header ++ newPool ++ newMembers) := by
  have hpool : grown.encode = .ok newPool := by decide
  rw [ClassFile.encode, write, emitMembers_type]
  dsimp only
  rw [hpool]
  rfl

end Doubled

end ClassAtlas
