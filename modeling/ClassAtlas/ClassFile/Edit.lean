import ClassAtlas.ClassFile.Declaration

/-!
Changes of declarations. Members are meant by their position, and a change of a member that is not
there changes nothing.
-/

namespace ClassAtlas

/-- A change of a field or method. -/
inductive MemberEdit where
  | access (bits : UInt16)
  | rename (name : String)
  | descriptor (descriptor : String)
  | attach (added : Attribute)
  /-- So many copies of the first attribute in place of all. -/
  | repeatAttribute (count : Nat)
  deriving Repr

/-- A change of the code of a method. -/
inductive BodyEdit where
  | limits (maxStack maxLocals : UInt16)
  | code (code : Bytes)
  | attach (added : Attribute)
  | handler (handler : Handler)
  /-- So many copies of the first attribute in place of all. -/
  | repeatAttribute (count : Nat)
  /-- So many copies of the first handler in place of all. -/
  | repeatHandler (count : Nat)
  deriving Repr

/-- A change of a declaration. -/
inductive ClassEdit where
  | version (major minor : UInt16)
  | access (bits : UInt16)
  | rename (name : String)
  | superclass (name : Option String)
  | interfaces (names : List String)
  | attach (added : Attribute)
  /-- So many copies of the first attribute in place of all. -/
  | repeatAttribute (count : Nat)
  | field (index : Nat) (change : MemberEdit)
  | removeField (index : Nat)
  /-- So many copies of a field in place of all. -/
  | repeatField (index count : Nat)
  | method (index : Nat) (change : MemberEdit)
  | removeMethod (index : Nat)
  | body (index : Nat) (change : BodyEdit)
  | dropBody (index : Nat)
  /-- Makes sure that the pool holds some constants. -/
  | intern (constants : List Constant)
  deriving Repr

namespace ClassEdit

/-- So many copies of the first item of a list. -/
def copies {α : Type} (count : Nat) (items : List α) : List α :=
  match items.head? with
  | some item => List.replicate count item
  | none => []

/-- The field after a change. -/
def onField (f : FieldDecl) : MemberEdit → FieldDecl
  | .access bits => { f with access := ⟨bits⟩ }
  | .rename name => { f with name := name }
  | .descriptor descriptor => { f with descriptor := descriptor }
  | .attach added => { f with attributes := f.attributes ++ [added] }
  | .repeatAttribute count => { f with attributes := copies count f.attributes }

/-- The method after a change. -/
def onMethod (m : MethodDecl) : MemberEdit → MethodDecl
  | .access bits => { m with access := ⟨bits⟩ }
  | .rename name => { m with name := name }
  | .descriptor descriptor => { m with descriptor := descriptor }
  | .attach added => { m with attributes := m.attributes ++ [added] }
  | .repeatAttribute count => { m with attributes := copies count m.attributes }

/-- The code after a change. -/
def onBody (b : MethodBody) : BodyEdit → MethodBody
  | .limits maxStack maxLocals => { b with maxStack := maxStack, maxLocals := maxLocals }
  | .code code => { b with code := code }
  | .attach added => { b with attributes := b.attributes ++ [added] }
  | .handler handler => { b with handlers := b.handlers ++ [handler] }
  | .repeatAttribute count => { b with attributes := copies count b.attributes }
  | .repeatHandler count => { b with handlers := copies count b.handlers }

/-- The declaration after a change. -/
def apply (d : ClassDecl) : ClassEdit → ClassDecl
  | version major minor => { d with major := major, minor := minor }
  | access bits => { d with access := ⟨bits⟩ }
  | rename name => { d with name := name }
  | superclass name => { d with superName := name }
  | interfaces names => { d with interfaces := names }
  | attach added => { d with attributes := d.attributes ++ [added] }
  | repeatAttribute count => { d with attributes := copies count d.attributes }
  | field index change => { d with fields := d.fields.modify index (onField · change) }
  | removeField index => { d with fields := d.fields.eraseIdx index }
  | repeatField index count => { d with fields := copies count (d.fields.drop index) }
  | method index change => { d with methods := d.methods.modify index (onMethod · change) }
  | removeMethod index => { d with methods := d.methods.eraseIdx index }
  | body index change =>
    let changed (m : MethodDecl) := { m with body := m.body.map (onBody · change) }
    { d with methods := d.methods.modify index changed }
  | dropBody index => { d with methods := d.methods.modify index fun m => { m with body := none } }
  | intern constants =>
    { d with pool := constants.foldl (fun pool c => (pool.intern c).2) d.pool }

end ClassEdit

end ClassAtlas
