import ClassAtlas.Pool.Constant

/-!
What can go wrong, as causes. Each kind of error has one function that words it.
-/

namespace ClassAtlas

/-- What a pool lookup looks for. -/
inductive PoolKind where
  | utf8
  | classEntry
  | nameAndType
  | member
  | invokeDynamic
  deriving DecidableEq, Repr

def PoolKind.describe : PoolKind → String
  | utf8 => "Utf8"
  | classEntry => "Class"
  | nameAndType => "NameAndType"
  | member => "member reference"
  | invokeDynamic => "InvokeDynamic"

/-- Why something could not be decoded. -/
inductive Reason where
  /-- Fewer bytes are left than were asked for. -/
  | endOfData (wanted : Nat)
  | badMagic (word : UInt32)
  | emptyPool
  | unknownTag (tag : UInt8)
  | wideOverflow
  | trailing (count : Nat)
  | handlerRange
  | branchTarget (target : Int)
  | switchBounds
  | negativePairs
  | wideOpcode (opcode : UInt8)
  | opcode (opcode : UInt8)
  | malformedDescriptor
  /-- A pool slot does not hold what its user needs. -/
  | wrongEntry (expected : PoolKind) (found : Option Constant)
  /-- The bytes hold a class of another name. -/
  | declares (name : String)
  /-- The reason, with the position of the reader that met it. -/
  | located (reason : Reason) (position : Nat)
  /-- The reason, met in a named part of the whole. -/
  | within (part : String) (reason : Reason)
  /-- Another failure of decoding, reported as it stands. -/
  | failed (part : String) (reason : Reason)
  | other (text : String)
  deriving DecidableEq, Repr

/-- Two hexadecimal digits. -/
private def hexByte (b : UInt8) : String :=
  Text.hexPadded 2 b.toNat

def Reason.message : Reason → String
  | endOfData wanted => s!"unexpected end of data, wanted {wanted} bytes"
  | badMagic word => "bad magic 0x" ++ (Text.hexPadded 8 word.toNat).map Char.toUpper
  | emptyPool => "constant pool count is zero"
  | unknownTag tag => s!"unknown constant tag {tag.toNat}"
  | wideOverflow => "wide constant overflows the pool"
  | trailing count => s!"{count} trailing bytes"
  | handlerRange => "exception handler out of range"
  | branchTarget target => s!"branch target {target} out of range"
  | switchBounds => "tableswitch high < low"
  | negativePairs => "negative lookupswitch pair count"
  | wideOpcode b => s!"invalid wide opcode 0x{hexByte b}"
  | opcode b => s!"invalid opcode 0x{hexByte b}"
  | malformedDescriptor => "malformed method descriptor"
  | wrongEntry expected found =>
    s!"expected {expected.describe}, found {Constant.describe? found}"
  | declares name => s!"class file declares {name}"
  | located reason position => s!"{reason.message} (at byte {position})"
  | within part reason => s!"{part}: {reason.message}"
  | failed part reason => s!"Failed to decode {part}: {reason.message}"
  | other text => text

/-- A failure to decode something with a name. -/
structure DecodeError where
  subject : String
  reason : Reason
  deriving DecidableEq, Repr

/-- The wording of a failure to decode. -/
def DecodeError.message (e : DecodeError) : String :=
  s!"Failed to decode {e.subject}: {e.reason.message}"

/-- The same failure, seen from a whole of the given name. -/
def DecodeError.relabel (whole : String) (e : DecodeError) : DecodeError :=
  if e.subject = whole then e else ⟨whole, .within e.subject e.reason⟩

/-- Why a declaration could not be written. -/
inductive EncodeError where
  | poolOverflow (slots : Nat)
  | longText (length : Nat)
  | tooMany (things : String) (count : Nat)
  | handlerOffset (offset : Nat)
  | longCode
  | longAttribute (name : String)
  | localsLimit (label : String) (count : Nat)
  | stackLimit (label : String) (depth : Int)
  | noInstruction (label : String) (offset : Nat)
  | underflow (label : String) (offset : Nat)
  /-- A loop deepens the operand stack each time round. -/
  | growingStack (label : String)
  | unboundLabel (index : Nat)
  | jumpRange (delta : Int)
  | other (text : String)
  deriving DecidableEq, Repr

/-- The wording of a failure to encode. -/
def EncodeError.message : EncodeError → String
  | poolOverflow slots => s!"constant pool overflow ({slots} slots)"
  | longText length => s!"string constant too long ({length} bytes)"
  | tooMany things count => s!"too many {things} ({count})"
  | handlerOffset offset => s!"handler offset {offset} too large"
  | longCode => "code too long"
  | longAttribute name => s!"attribute {name} too long"
  | localsLimit label count => s!"{label}: max_locals {count} exceeds limit"
  | stackLimit label depth => s!"{label}: max_stack {depth} exceeds limit"
  | noInstruction label offset => s!"{label}: no instruction at offset {offset}"
  | underflow label offset => s!"{label}: stack underflow at offset {offset}"
  | growingStack label => s!"{label}: operand stack grows without bound"
  | unboundLabel index => s!"label {index} never bound"
  | jumpRange delta => s!"jump offset {delta} out of range"
  | other text => text

/-- Why a text is not a name of the kind that is asked for. -/
inductive NameError where
  | empty
  | notInternal (name : String)
  | emptySegment (name : String)
  /-- Not the name of a method with its owner and descriptor. -/
  | notMethod (text : String)
  /-- Not a word for a kind of inheritance. -/
  | notEdgeKind (text : String)
  | other (text : String)
  deriving DecidableEq, Repr

/-- The wording of a bad name. -/
def NameError.message : NameError → String
  | empty => "empty name"
  | notInternal name => s!"not an internal name: {name}"
  | emptySegment name => s!"empty package segment: {name}"
  | notMethod text => s!"expected owner.name(descriptor): {text}"
  | notEdgeKind text => s!"Unknown edge kind: {text}"
  | other text => text

/-- Why an archive could not be read or written. -/
inductive ArchiveError where
  | noDirectory
  | damaged
  | duplicateName
  | longName
  | unsupported
  deriving DecidableEq, Repr

def ArchiveError.message : ArchiveError → String
  | noDirectory => "invalid Zip archive: Could not find EOCD"
  | damaged => "invalid Zip archive: Invalid header"
  | duplicateName => "invalid Zip archive: Duplicate filename"
  | longName => "invalid Zip archive: File name too long"
  | unsupported => "unsupported Zip archive: Compression method not supported"

/-- Why an operation on files was refused, or what is wrong with the data of a file. -/
inductive FileError where
  | notFound
  | notDirectory
  | isDirectory
  | exists
  | nameTooLong
  | invalidName
  | invalidText
  /-- Data that was stored under another checksum. -/
  | badChecksum
  /-- Packed data that cannot be unpacked. -/
  | corruptStream
  /-- Data that is too long for an archive entry. -/
  | largeEntry
  | other (text : String)
  deriving DecidableEq, Repr

def FileError.message : FileError → String
  | notFound => "No such file or directory (os error 2)"
  | notDirectory => "Not a directory (os error 20)"
  | isDirectory => "Is a directory (os error 21)"
  | .exists => "File exists (os error 17)"
  | nameTooLong => "File name too long (os error 36)"
  | invalidName => "file name contained an unexpected NUL byte"
  | invalidText => "stream did not contain valid UTF-8"
  | badChecksum => "Invalid checksum"
  | corruptStream => "corrupt deflate stream"
  | largeEntry => "Large file option has not been set"
  | other text => text

/-- Which layer an operation asked for in vain. -/
inductive LayerError where
  | unnamed (name : String)
  | position (source target count : Nat)
  deriving DecidableEq, Repr

/-- The wording of a missing layer. -/
def LayerError.message : LayerError → String
  | unnamed name => name
  | position source target count => s!"library index {source} -> {target} (have {count})"

/-- Any failure of the library. -/
inductive Error where
  | decode (error : DecodeError)
  | encode (error : EncodeError)
  | unsupported (text : String)
  | file (error : FileError)
  | archive (error : ArchiveError)
  | snapshot (text : String)
  | invalidName (error : NameError)
  | layerNotFound (error : LayerError)
  deriving DecidableEq, Repr

namespace Error

def message : Error → String
  | decode e => e.message
  | encode e => s!"Encode error: {e.message}"
  | unsupported text => s!"Unsupported: {text}"
  | file e => s!"IO error: {e.message}"
  | archive e => s!"Archive error: {e.message}"
  | snapshot text => s!"Snapshot error: {text}"
  | invalidName e => s!"Invalid name: {e.message}"
  | layerNotFound e => s!"Layer not found: {e.message}"

/-- The form in which an error is kept for later: an archive error survives by its wording only. -/
def retained : Error → Error
  | archive e => snapshot e.message
  | e => e

end Error

end ClassAtlas
