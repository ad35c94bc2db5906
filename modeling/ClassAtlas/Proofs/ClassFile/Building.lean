import ClassAtlas.ClassFile.Builder
import ClassAtlas.Proofs.Assembler.Handlers
import ClassAtlas.Proofs.ClassFile.RoundTrip
import ClassAtlas.Proofs.Code.StackDepth

/-!
Built classes and the files that are written for them. A class under construction collects what its
items ask for, and the file gives all of it back, if it can be read. The only check that is left to
the reader is that no handler has an empty range.
-/

namespace ClassAtlas

namespace ClassItem

def access? : ClassItem → Option Access
  | .access bits => some ⟨bits⟩
  | _ => none

/-- The superclass that is asked for, which may be none. -/
def superclass? : ClassItem → Option (Option String)
  | .superclass name => some (some name)
  | .noSuperclass => some none
  | _ => none

def interface? : ClassItem → Option String
  | .interface name => some name
  | _ => none

def field? : ClassItem → Option FieldDecl
  | .field bits name descriptor => some ⟨⟨bits⟩, name, descriptor, []⟩
  | _ => none

def isMethod : ClassItem → Bool
  | .abstractMethod .. | .method .. => true
  | _ => false

/-- The item asks for the method. Its code was assembled with a pool that has grown to this one. -/
inductive Declares (pool : Pool) : ClassItem → MethodDecl → Prop
  | abstractMethod (name descriptor : String) :
    Declares pool (.abstractMethod name descriptor) ⟨⟨0x0401⟩, name, descriptor, none, []⟩
  | method {p q : Pool} {body : MethodBody} (access : UInt16) (name descriptor : String)
    {code : List Statement} (hcode : Assembler.assemble p code = .ok (body, q))
    (hkept : q.Extends pool) :
    Declares pool (.method access name descriptor code) ⟨⟨access⟩, name, descriptor, some body, []⟩

theorem Declares.later {p q : Pool} {item : ClassItem} {m : MethodDecl} (h : Declares p item m)
    (hpq : p.Extends q) : Declares q item m := by
  cases h with
  | abstractMethod name descriptor => exact .abstractMethod name descriptor
  | method access name descriptor hcode hkept =>
    exact .method access name descriptor hcode (hkept.trans hpq)

end ClassItem

namespace ClassDecl

/-- The second class is the first one with all that the items ask for. The latest word on the access
and the superclass counts, and nothing is lost from the pool. -/
structure Declared (d : ClassDecl) (items : List ClassItem) (d' : ClassDecl)
    (methods : List MethodDecl) : Prop where
  parts : d' = { d with
    access := (items.filterMap ClassItem.access?).getLastD d.access
    superName := (items.filterMap ClassItem.superclass?).getLastD d.superName
    interfaces := d.interfaces ++ items.filterMap ClassItem.interface?
    fields := d.fields ++ items.filterMap ClassItem.field?
    methods := d.methods ++ methods
    pool := d'.pool }
  methods : List.Forall₂ (ClassItem.Declares d'.pool) (items.filter ClassItem.isMethod) methods
  pool : d.pool.Grows d'.pool fun _ => True

theorem Declared.refl {d : ClassDecl} (hd : d.pool.Sound) : Declared d [] d [] where
  parts := by simp
  methods := .nil
  pool := .refl hd fun _ => trivial

theorem Declared.trans {d d' d'' : ClassDecl} {before after : List ClassItem}
    {methods more : List MethodDecl} (h : Declared d before d' methods)
    (h' : Declared d' after d'' more) : Declared d (before ++ after) d'' (methods ++ more) where
  parts := by
    rw [h'.parts, h.parts]
    simp
  methods := by
    rw [List.filter_append]
    exact List.rel_append (h.methods.imp fun _ _ hm => hm.later h'.pool.kept) h'.methods
  pool := (h.pool.trans h'.pool).imp fun _ _ => trivial

/-- One item adds what it asks for. -/
theorem declare_spec {d d' : ClassDecl} {item : ClassItem} (hd : d.pool.Sound)
    (h : d.declare item = .ok d') : ∃ methods, Declared d [item] d' methods := by
  cases item with
  | access bits | superclass name | noSuperclass | interface name | field access name descriptor =>
    cases h
    exact ⟨[], by simp [ClassItem.access?, ClassItem.superclass?, ClassItem.interface?,
      ClassItem.field?], .nil, .refl hd fun _ => trivial⟩
  | abstractMethod name descriptor =>
    cases h
    refine ⟨[⟨⟨0x0401⟩, name, descriptor, none, []⟩], ?_, ?_, .refl hd fun _ => trivial⟩
    · simp [ClassItem.access?, ClassItem.superclass?, ClassItem.interface?, ClassItem.field?]
    · exact .cons (.abstractMethod name descriptor) .nil
  | method access name descriptor code =>
    simp only [declare] at h
    split at h
    · cases h
    · rename_i body pool hcode
      cases h
      refine ⟨[⟨⟨access⟩, name, descriptor, some body, []⟩], ?_, ?_,
        Assembler.assemble_grows hd hcode⟩
      · simp [ClassItem.access?, ClassItem.superclass?, ClassItem.interface?, ClassItem.field?]
      · exact .cons (.method access name descriptor hcode (.refl pool)) .nil

/-- The items of a list add what they ask for, one after the other. -/
theorem declareAll_spec {d d' : ClassDecl} {items : List ClassItem} (hd : d.pool.Sound)
    (h : d.declareAll items = .ok d') : ∃ methods, Declared d items d' methods := by
  induction items generalizing d with
  | nil =>
    cases h
    exact ⟨[], .refl hd⟩
  | cons item rest ih =>
    simp only [declareAll, List.foldlM_cons] at h
    cases hitem : d.declare item with
    | error e =>
      rw [hitem] at h
      cases h
    | ok next =>
      rw [hitem] at h
      obtain ⟨first, hfirst⟩ := declare_spec hd hitem
      obtain ⟨others, hothers⟩ := ih hfirst.pool.sound h
      exact ⟨first ++ others, hfirst.trans hothers⟩

/-- Every handler of the class has a range with something in it. -/
def RangesFilled (d : ClassDecl) : Prop :=
  ∀ m ∈ d.methods, ∀ body ∈ m.body, ∀ x ∈ body.handlers, x.start < x.stop

/-- A body whose limits can be computed has its handlers at instructions. -/
theorem handler_lt_of_limits {d : ClassDecl} {m : MethodDecl} {body : MethodBody}
    {stack locals : UInt16} (hcode : body.code ≠ []) (h : d.limits m body = .ok (stack, locals))
    {x : Handler} (hx : x ∈ body.handlers) : x.handler < body.code.length := by
  obtain ⟨instructions, hins, hdepth⟩ := StackDepth.limits_eq_ok h
  have htiles : Code.Tiles 0 instructions body.code.length := Code.decode_tiles hins
  have hne : instructions ≠ [] := by
    obtain ⟨i, hi, _⟩ := htiles.head (by simpa using hcode)
    exact List.ne_nil_of_mem hi
  obtain ⟨hwalks, _⟩ := StackDepth.ofInstructions_exact hne htiles.nodup hdepth
  obtain ⟨i, hi, hoffset, _⟩ := hwalks x.handler 1 (.handler hx)
  exact hoffset ▸ htiles.offset_lt hi

/-- The handlers of a body that has been assembled, and whose limits can be computed, lie in its code
exactly if their ranges have something in them. -/
theorem inRange_iff_of_limits {d : ClassDecl} {m : MethodDecl} {body : MethodBody}
    {stack locals : UInt16} {p q : Pool} {code : List Statement}
    (hcode : Assembler.assemble p code = .ok (body, q))
    (h : d.limits m body = .ok (stack, locals)) {x : Handler} (hx : x ∈ body.handlers) :
    ClassFile.InRange body.code.length x ↔ x.start < x.stop := by
  obtain ⟨_, hstop, _⟩ := Assembler.assemble_handlers hcode hx
  refine ⟨fun h => h.1, fun hrange => ⟨hrange, hstop, handler_lt_of_limits ?_ h hx⟩⟩
  rintro hempty
  rw [hempty, List.length_nil] at hstop
  omega

end ClassDecl

namespace ClassRecipe

/-- What a recipe starts from: a class or an interface that declares nothing. -/
def base (r : ClassRecipe) : ClassDecl :=
  if r.interface then ClassDecl.blankInterface r.name else ClassDecl.blank r.name

theorem base_methods (r : ClassRecipe) : r.base.methods = [] := by
  unfold base
  split <;> rfl

theorem base_pool (r : ClassRecipe) : r.base.pool = .empty := by
  unfold base
  split <;> rfl

/-- A recipe builds all that its items ask for. -/
theorem build_spec {r : ClassRecipe} {d : ClassDecl} (h : r.build = .ok d) :
    r.base.Declared r.items d d.methods := by
  have hbase : r.base.pool.Sound := r.base_pool ▸ Pool.empty_sound
  obtain ⟨methods, hdeclared⟩ := ClassDecl.declareAll_spec hbase h
  have hmethods : d.methods = methods := by
    rw [hdeclared.parts, base_methods, List.nil_append]
  rwa [hmethods]

theorem toBytes_eq_ok {r : ClassRecipe} {bytes : Bytes} (h : r.toBytes = .ok bytes) :
    ∃ d, r.build = .ok d ∧ ClassFile.write d true = .ok bytes := by
  unfold toBytes at h
  cases hbuild : r.build with
  | error e =>
    rw [hbuild] at h
    cases h
  | ok d =>
    rw [hbuild] at h
    exact ⟨d, rfl, h⟩

/-- The file of a recipe can be read, under whatever label, if and only if none of the handlers has
an empty range. What is read is then all that the recipe declares: names, fields and methods with the
code and the handlers as assembled, and the limits that the code needs. -/
theorem parse_toBytes_iff {r : ClassRecipe} {bytes : Bytes} (h : r.toBytes = .ok bytes) :
    ∃ d methods pool, r.build = .ok d ∧ r.base.Declared r.items d d.methods ∧
      List.Forall₂ (ClassFile.Rewritten d true) d.methods methods ∧ d.pool.Extends pool ∧
      ∀ label,
        ((∃ found, ClassFile.parse label bytes = .ok found) ↔ d.RangesFilled) ∧
        ∀ found, ClassFile.parse label bytes = .ok found →
          found = { d with methods := methods, pool := pool } := by
  obtain ⟨d, hbuild, hwrite⟩ := toBytes_eq_ok h
  have hdeclared := build_spec hbuild
  have hdeclares {m : MethodDecl} (hm : m ∈ d.methods) :
      ∃ item, ClassItem.Declares d.pool item m := by
    obtain ⟨item, _, hitem⟩ := mem_of_forall₂ hdeclared.methods hm
    exact ⟨item, hitem⟩
  have hnone : ∀ m ∈ d.methods, m.body = none → ∀ a ∈ m.attributes, a.name ≠ ClassFile.codeName := by
    intro m hm _ a ha
    obtain ⟨item, hitem⟩ := hdeclares hm
    cases hitem with
    | abstractMethod | method => cases ha
  obtain ⟨methods, pool, hmethods, hkept, hparse⟩ :=
    ClassFile.write_conveys hdeclared.pool.sound hnone hwrite
  have hgood : (∀ m ∈ d.methods, ClassFile.HandlersInRange m.body) ↔ d.RangesFilled := by
    refine forall₂_congr fun m hm => forall₂_congr fun body hbody => forall₂_congr fun x hx => ?_
    obtain ⟨item, hitem⟩ := hdeclares hm
    cases hitem with
    | abstractMethod => cases hbody
    | method access name descriptor hcode =>
      cases hbody
      obtain ⟨_, _, _, _, hlimits, _⟩ := mem_of_forall₂ hmethods.flip hm
      exact ClassDecl.inRange_iff_of_limits hcode hlimits hx
  refine ⟨d, methods, pool, hbuild, hdeclared, hmethods, hkept, fun label => ?_⟩
  obtain ⟨hread, hreads⟩ := hparse label
  rw [hgood] at hread hreads
  refine ⟨⟨fun ⟨found, hfound⟩ => hreads found hfound, fun hfilled => ⟨_, hread hfilled⟩⟩, ?_⟩
  intro found hfound
  rw [hread (hreads found hfound)] at hfound
  exact (Except.ok.inj hfound).symm

end ClassRecipe

/-!
A method whose only handler covers nothing. Its file is written, but reading it fails.
-/

namespace Guard

open ClassFile ClassFile.Emitter

def statements : List Statement :=
  [.bind 0, .plain Opcode.returnVoid, .handler 0 0 0 none]

def recipe : ClassRecipe := ⟨"Guard", false, [.method 9 "m" "()V" statements]⟩

def body : MethodBody := ⟨0, 0, [0xB1], [⟨0, 0, 0, none⟩], []⟩

def method : MethodDecl := ⟨⟨9⟩, "m", "()V", some body, []⟩

def type : ClassDecl :=
  { ClassDecl.blank "Guard" with methods := [method] }

def instructions : List Instruction := [⟨0, 0xB1, 1, false, .none⟩]

def header : Bytes := [0xCA, 0xFE, 0xBA, 0xBE, 0, 0, 0, 52]

def pool : Bytes :=
  [0, 8, 1, 0, 5, 71, 117, 97, 114, 100, 7, 0, 1,
    1, 0, 16, 106, 97, 118, 97, 47, 108, 97, 110, 103, 47, 79, 98, 106, 101, 99, 116, 7, 0, 3,
    1, 0, 1, 109, 1, 0, 3, 40, 41, 86, 1, 0, 4, 67, 111, 100, 101]

def members : Bytes :=
  [0, 33, 0, 2, 0, 4, 0, 0, 0, 0, 0, 1, 0, 9, 0, 5, 0, 6, 0, 1, 0, 7, 0, 0, 0, 21, 0, 1, 0, 0,
    0, 0, 0, 1, 0xB1, 0, 1, 0, 0, 0, 0, 0, 0, 0, 0, 0, 0, 0, 0]

theorem assemble_statements : Assembler.assemble .empty statements = .ok (body, .empty) := by
  simp [Assembler.assemble, statements, Assembler.Draft.add, Assembler.Draft.start, Assembler.piece,
    Assembler.Piece.ofBytes, Assembler.fill, Assembler.handlers, Assembler.resolve]
  rfl

theorem build_recipe : recipe.build = .ok type := by
  simp [ClassRecipe.build, recipe, ClassDecl.declareAll, ClassDecl.declare, ClassDecl.blank,
    assemble_statements, type, method]

theorem limits_body : type.limits method body = .ok (1, 0) := by
  have htype : MethodType.parse method.descriptor = .ok ⟨[], "V"⟩ := by decide
  have hins : type.instructions body = .ok instructions := by decide
  have hlocals : localsOf method ⟨[], "V"⟩ instructions = 0 := by decide
  have hnodup : (instructions.map (·.offset)).Nodup := by decide
  have hdepth (label : String) :
      StackDepth.ofInstructions label instructions body.handlers = .ok 1 := by
    let l := Listing.ofList instructions
    calc StackDepth.ofInstructions label instructions body.handlers
      _ = StackDepth.search label l #[0] [(0, 1), (0, 0)] 0 := if_neg (by decide)
      _ = StackDepth.search label l #[2] [(0, 0)] 1 := StackDepth.search_enter label hnodup 0 1
      _ = StackDepth.search label l #[2] [] 1 := StackDepth.search_pass label hnodup 0
      _ = .ok 1 := by rw [StackDepth.search]
  simp [ClassDecl.limits, htype, hins, hlocals, hdepth]

theorem emitMembers_type : ∃ p, ClassFile.emitMembers type true type.pool = .ok (members, p) ∧
    p.entries = #[.unusable, .utf8 "Guard", .classRef 1, .utf8 "java/lang/Object", .classRef 3,
      .utf8 "m", .utf8 "()V", .utf8 "Code"] := by
  have hlimits (p : Pool) : limitsOf type method body true p = .ok ((1, 0), p) := by
    simp only [limitsOf, limits_body, if_true]
  simp only [type, ClassDecl.blank, Name.object, method, body, Pool.empty] at hlimits
  simp [emitMembers, emitMethod, emitCode, emitBody, emitHandler, emitOffset, emitAttributes,
    emitAttribute, limitedBody, hlimits, Emitter.className, optionalClass, list, Emitter.all, count,
    text, bind, StateT.bind, Except.bind, Emitter.pure_apply, Pool.classEntry, Pool.utf8,
    Pool.intern, Pool.push, Pool.empty, Constant.isWide, Std.HashMap.mem_insertIfNew, List.mapM_cons,
    codeName, type, ClassDecl.blank, Name.object, method, body, members]
  decide

theorem toBytes_recipe : recipe.toBytes = .ok (header ++ pool ++ members) := by
  obtain ⟨p, hmembers, hentries⟩ := emitMembers_type
  have hencode : p.encode = .ok pool := by
    rw [Pool.encode, Pool.slotCount, hentries]
    decide
  simp only [ClassRecipe.toBytes, build_recipe, ClassFile.write, hmembers, hencode]
  rfl

theorem empty_range_refused : recipe.toBytes = .ok (header ++ pool ++ members) ∧
    ∀ label found, ClassFile.parse label (header ++ pool ++ members) ≠ .ok found := by
  refine ⟨toBytes_recipe, fun label found hfound => ?_⟩
  obtain ⟨d, _, _, hbuild, _, _, _, hparse⟩ := ClassRecipe.parse_toBytes_iff toBytes_recipe
  cases hbuild.symm.trans build_recipe
  have hfilled := (hparse label).1.mp ⟨found, hfound⟩
  have hrange := hfilled method List.mem_cons_self body rfl ⟨0, 0, 0, none⟩ List.mem_cons_self
  exact absurd hrange (Nat.lt_irrefl 0)

end Guard

end ClassAtlas
