import ImportAtlas.Path.Normalize
import ImportAtlas.Text.Utf8

/-! Paths as the system has them. A name in a directory is a row of bytes, which need not
encode a text. Such a path is divided and put together byte by byte, and only what is shown
of it is decoded. A path that is a text has the bytes that encode it. -/

namespace ImportAtlas

/-- A path in bytes. -/
structure RawPath where
  bytes : List UInt8
  deriving DecidableEq, Repr, Inhabited

/-- The bytes of a path that is a text. -/
def Path.raw (p : Path) : RawPath :=
  ⟨Text.utf8 p.text.toList⟩

namespace RawPath

/-- Bytes as the characters that have their numbers. -/
def spell (bytes : List UInt8) : String :=
  String.ofList (bytes.map fun b => Char.ofNat b.toNat)

/-- The numbers of characters as bytes. -/
def unspell (text : String) : List UInt8 :=
  text.toList.map fun c => UInt8.ofNat c.toNat

/-- The path with one character for each byte. Slashes and points are single bytes, and
so this path has the components of the bytes. -/
def spelled (p : RawPath) : Path :=
  ⟨spell p.bytes⟩

/-- The path with one byte for each character. -/
def ofSpelled (p : Path) : RawPath :=
  ⟨unspell p.text⟩

/-- The components of a path, spelled with one character for each byte. -/
def components (p : RawPath) : List Path.Component :=
  p.spelled.components

/-- Whether a path starts at the root. -/
def isAbsolute (p : RawPath) : Bool :=
  p.spelled.isAbsolute

/-- The normal form of a path. -/
def normalize (p : RawPath) : RawPath :=
  ofSpelled p.spelled.normalize

/-- A path continued by another one. An absolute continuation stands for itself. -/
def join (p q : RawPath) : RawPath :=
  ofSpelled (p.spelled.join q.spelled)

/-- How bytes are shown: decoded, and with backslashes as slashes. -/
def decoded (p : RawPath) : String :=
  Path.withSlashes (String.ofList (Text.lossy p.bytes))

/-- How a path is shown in a project: relative to the project's root where it lies
below it. -/
def relativeTo (root p : RawPath) : String :=
  (ofSpelled (root.spelled.seenFrom p.spelled)).decoded

/-- How a report shows a path, relative to the root of the report if it has one. -/
def shown (root : Option RawPath) (p : RawPath) : String :=
  match root with
  | some root => root.relativeTo p
  | none => p.decoded

end RawPath
end ImportAtlas
