import Jarwright.Archive.Entry
import Jarwright.Text.Utf8

/-!
# The written form of archives

An archive is written as its entries, each behind a header of its own, then a directory that
repeats the headers with their places, and then a record that says where the directory is. A
deflated content is written in blocks that store their bytes.

* `Zip.encode` writes a list of entries;
* `Zip.parse?` looks for the last record from the end and follows it to the entries.
-/

namespace Jarwright.Archive

namespace Zip

/-- The lowest `width` bytes of `n`, least significant first. -/
def little (width n : Nat) : Bytes := (Bytes.bigEndian width n).reverse

/-- The number that bytes spell, least significant first. -/
def ofLittle (bs : Bytes) : Nat := Bytes.ofBigEndian bs.reverse

/-! ## Check sums -/

/-- Eight steps of division by the check polynomial. -/
def checkSteps : Nat → UInt32 → UInt32
  | 0, c => c
  | n + 1, c => checkSteps n (if c &&& 1 = 1 then (c >>> 1) ^^^ 0xedb88320 else c >>> 1)

/-- The check sum of a content. -/
def checkSum (bs : Bytes) : UInt32 :=
  ~~~ bs.foldl (fun c b => checkSteps 8 (c ^^^ b.toUInt32)) 0xffffffff

/-! ## Packing -/

/-- The bytes of a block that stores its content. -/
def block (final : Bool) (content : Bytes) : Bytes :=
  (if final then 1 else 0) :: little 2 content.length ++ little 2 (65535 - content.length) ++
    content

/-- Writes a content in blocks, of which `n` full ones precede the last. -/
def deflateBlocks : Nat → Bytes → Bytes
  | 0, content => block true content
  | n + 1, content => block false (content.take 65535) ++ deflateBlocks n (content.drop 65535)

/-- Packs a content without making it shorter. -/
def deflate (content : Bytes) : Bytes := deflateBlocks (content.length / 65536) content

/-- Reads stored blocks; `n` bounds their number. -/
def inflateBlocks : Nat → Bytes → Option Bytes
  | 0, _ => none
  | n + 1, tag :: a :: b :: _ :: _ :: rest => do
    let (content, rest) ← Bytes.splitExact (ofLittle [a, b]) rest
    if tag = 1 then some content
    else if tag = 0 then (content ++ ·) <$> inflateBlocks n rest
    else none
  | _ + 1, _ => none

/-- Unpacks a content. -/
def inflate? (packed : Bytes) : Option Bytes := inflateBlocks (packed.length + 1) packed

/-- The number of a method. -/
def methodCode : Method → Nat
  | .stored => 0
  | .deflated => 8
  | .other code => code

/-- The method of a number. -/
def methodOf (code : Nat) : Method :=
  if code = 0 then .stored else if code = 8 then .deflated else .other code

/-- Packs a content by a method. -/
def pack (method : Method) (content : Bytes) : Bytes :=
  match method with
  | .deflated => deflate content
  | _ => content

/-- Unpacks a content by a method. -/
def unpack? (method : Method) (packed : Bytes) : Option Bytes :=
  match method with
  | .stored => some packed
  | .deflated => inflate? packed
  | .other _ => none

/-! ## Times -/

/-- The number of a date. -/
def dateCode (t : Stamp) : Nat := (t.year - 1980) * 512 + t.month * 32 + t.day

/-- The number of a time of day. -/
def timeCode (t : Stamp) : Nat := t.hour * 2048 + t.minute * 32 + t.second / 2

/-- The stamp of two numbers. -/
def stampOf (date time : Nat) : Stamp :=
  ⟨1980 + date / 512, date / 32 % 16, date % 32, time / 2048, time / 32 % 64, time % 32 * 2⟩

/-! ## Writing -/

/-- What the two headers of an entry have in common. -/
def header (e : Entry) (packed : Bytes) : Bytes :=
  let name := Text.Utf8.ofString e.name
  let flags := if name.length = e.name.length then 0 else 0x800
  little 2 20 ++ little 2 flags ++ little 2 (methodCode e.method) ++ little 2 (timeCode e.time)
    ++ little 2 (dateCode e.time) ++ little 4 (checkSum e.content).toNat ++ little 4 packed.length
    ++ little 4 e.content.length ++ little 2 name.length ++ little 2 0

/-- An entry behind its own header. -/
def ownForm (e : Entry) (packed : Bytes) : Bytes :=
  little 4 0x04034b50 ++ header e packed ++ Text.Utf8.ofString e.name ++ packed

/-- The header of an entry in the directory. -/
def listing (e : Entry) (packed : Bytes) (offset : Nat) : Bytes :=
  little 4 0x02014b50 ++ little 2 20 ++ header e packed ++ little 2 0 ++ little 2 0 ++ little 2 0
    ++ little 4 0 ++ little 4 offset ++ Text.Utf8.ofString e.name

/-- Writes entries from an offset on: their bytes, and those of the directory. -/
def encodeFrom (offset : Nat) : List Entry → Bytes × Bytes
  | [] => ([], [])
  | e :: rest =>
    let packed := pack e.method e.content
    let bytes := ownForm e packed
    let (more, directory) := encodeFrom (offset + bytes.length) rest
    (bytes ++ more, listing e packed offset ++ directory)

/-- Writes an archive. -/
def encode (entries : List Entry) : Bytes :=
  let (bytes, directory) := encodeFrom 0 entries
  bytes ++ directory ++ little 4 0x06054b50 ++ little 2 0 ++ little 2 0 ++ little 2 entries.length
    ++ little 2 entries.length ++ little 4 directory.length ++ little 4 bytes.length ++ little 2 0

/-! ## Reading -/

/-- The number in `width` bytes at an offset. -/
def number (bs : Bytes) (offset width : Nat) : Nat := ofLittle ((bs.drop offset).take width)

/-- Reads the entry at the head of a directory and the rest of the directory. -/
def contentOf? (archive directory : Bytes) : Option (Entry × Bytes) := do
  guard (directory.length ≥ 46 ∧ number directory 0 4 = 0x02014b50)
  let method := methodOf (number directory 10 2)
  let time := stampOf (number directory 14 2) (number directory 12 2)
  let packedLength := number directory 20 4
  let nameLength := number directory 28 2
  let skipped := number directory 30 2 + number directory 32 2
  let (name, rest) ← Bytes.splitExact nameLength (directory.drop 46)
  let name ← Text.Utf8.decode? name
  let own := archive.drop (number directory 42 4)
  guard (own.length ≥ 30 ∧ number own 0 4 = 0x04034b50)
  let start := 30 + number own 26 2 + number own 28 2
  let (packed, _) ← Bytes.splitExact packedLength (own.drop start)
  let content ← unpack? method packed
  return (⟨String.ofList name, method, time, content⟩, rest.drop skipped)

/-- Reads `n` entries of a directory. -/
def readEntries? (archive : Bytes) : Nat → Bytes → Option (List Entry)
  | 0, _ => some []
  | n + 1, directory => do
    let (e, rest) ← contentOf? archive directory
    let more ← readEntries? archive n rest
    return e :: more

/-- Reads the archive that a record at the head of `tail` ends. -/
def readAt? (archive tail : Bytes) : Option (List Entry) := do
  guard (tail.length ≥ 22 ∧ number tail 0 4 = 0x06054b50)
  guard (tail.length ≥ 22 + number tail 20 2)
  readEntries? archive (number tail 10 2) (archive.drop (number tail 16 4))

/-- Looks for the record in the tails of an archive, the shortest one first. -/
def search? (archive : Bytes) : Bytes → Option (List Entry)
  | [] => none
  | b :: rest =>
    match search? archive rest with
    | some entries => some entries
    | none => if b = 0x50 then readAt? archive (b :: rest) else none

/-- The length of the part of a file in which the record has to start. -/
def searchLength : Nat := 22 + 65535

/-- The entries of an archive. -/
def parse? (bs : Bytes) : Option (List Entry) :=
  search? bs (bs.drop (bs.length - searchLength))

end Zip

end Jarwright.Archive
