import TypedLoader.Cache.Blake3
import TypedLoader.Disk
import TypedLoader.Gzip.Basic
import TypedLoader.Json.Printer
import TypedLoader.Json.Reader
import TypedLoader.Text.Digits

namespace TypedLoader

/-- The hash of a module's text, the compiler and its options, and the query, in
hexadecimal digits. -/
structure CacheKey where
  digits : String
deriving DecidableEq, Inhabited

namespace CacheKey

def partBytes (s : String) : Bytes :=
  Gzip.littleEndian 8 s.utf8ByteSize ++ Text.encode s

def input (source identifier query : String) : Bytes :=
  [source, identifier, query].flatMap partBytes

def compute (source identifier query : String) : CacheKey :=
  ⟨Text.hex (Blake3.hash (input source identifier query))⟩

end CacheKey

structure CachedOutput where
  text : String
  sourceMap : Option String
deriving DecidableEq, Inhabited

namespace CachedOutput

def toJson (o : CachedOutput) : Json :=
  .obj [("text", .str o.text), ("sourceMap", Json.ofOption .str o.sourceMap)]

def ofDraft? (d : Json.Draft) : Option CachedOutput := do
  match ← d.fields? [["text"], ["sourceMap"]] with
  | [text, sourceMap] =>
    return {
      text := ← (← (← text).value?).string?
      sourceMap := ← match sourceMap with
        | none => some none
        | some d => d.value?.bind (Json.option? Json.string?) }
  | _ => none

def encode (o : CachedOutput) : Bytes := Gzip.encode (Text.encode o.toJson.text)

def decode? (bytes : Bytes) : Option CachedOutput := do
  ofDraft? (← Json.Draft.ofText? (← Text.decode? (← Gzip.decode? bytes)))

end CachedOutput

/-- A cache in a directory of the disk, given by an absolute path. In a relative one nothing is
stored or found. -/
structure OutputCache where
  directory : Path
deriving DecidableEq, Inhabited

namespace OutputCache

def entryPath (c : OutputCache) (key : CacheKey) : Path :=
  (c.directory.join ⟨(key.digits.take 2).toString⟩).join ⟨key.digits ++ ".json.gz"⟩

def get? (c : OutputCache) (d : Disk) (key : CacheKey) : Option CachedOutput :=
  match d.readBytes (c.entryPath key) with
  | .ok bytes => CachedOutput.decode? bytes
  | .error _ => none

/-- Writes an entry beside its place and then moves it there, so that no reader
sees a part of it. Tells whether the entry could be written. -/
def put (c : OutputCache) (d : Disk) (key : CacheKey) (o : CachedOutput) : Bool × Disk :=
  let path := c.entryPath key
  match d.makeDirectories (path.parent?.getD ⟨""⟩) with
  | (false, made) => (false, made)
  | (true, made) =>
    match made.write (path.withExtension "partial") o.encode with
    | none => (false, made)
    | some written =>
      match written.move (path.withExtension "partial") path with
      | none => (false, written)
      | some moved => (true, moved)

end OutputCache

end TypedLoader
