import TreePlan.Encoding.Charset

/-!
The names of encodings. Case and punctuation do not matter, apart from the point: each run of other
characters than letters, digits and points counts as one underscore, and as nothing at the ends. Some
known names stand for transformations of bytes, which encode no text. A name that UTF-8 can't encode or
that has a null in it is refused before it is looked for.
-/

namespace TreePlan

inductive Codec where
  | charset (c : Charset)
  | transformation
deriving DecidableEq, Repr

namespace Codec

def isNameChar (c : CodePoint) : Bool :=
  c.isAsciiDigit || (0x41 ≤ c.val && c.val ≤ 0x5A) || (0x61 ≤ c.val && c.val ≤ 0x7A) || c = '.'

def lowered (c : CodePoint) : CodePoint :=
  if 0x41 ≤ c.val && c.val ≤ 0x5A then CodePoint.ofNat (c.val + 0x20) else c

/-- The words of a name, in lower case. -/
def nameWords : Text → List Text
  | [] => [[]]
  | c :: r =>
    if isNameChar c then
      match nameWords r with
      | [] => [[lowered c]]
      | w :: ws => (lowered c :: w) :: ws
    else [] :: nameWords r

def normalize (name : Text) : Text :=
  Text.unlines "_" ((nameWords name).filter fun w => !w.isEmpty)

/-- Names for each encoding, in normal form. Names with a point are also looked for with an
underscore in its place, except those of the first list. -/
def modules : List (Text × Codec) :=
  [("utf_8", .charset .utf8), ("utf_16", .charset .utf16), ("utf_16_le", .charset .utf16Little),
    ("utf_16_be", .charset .utf16Big), ("utf_32", .charset .utf32),
    ("utf_32_le", .charset .utf32Little), ("utf_32_be", .charset .utf32Big),
    ("utf_8_sig", .charset .utf8Marked), ("ascii", .charset .ascii),
    ("latin_1", .charset .latin1), ("iso8859_1", .charset .latin1),
    ("iso8859_15", .charset .latin9), ("cp1252", .charset .cp1252),
    ("koi8_r", .charset .koi8r), ("shift_jis", .charset .shiftJis), ("hex_codec", .transformation),
    ("rot_13", .transformation), ("base64_codec", .transformation)]

def aliases : List (Codec × List Text) :=
  [(.charset .utf8, ["u8", "utf", "utf8", "utf8_ucs2", "utf8_ucs4", "cp65001"]),
    (.charset .utf16, ["u16", "utf16"]),
    (.charset .utf16Little, ["unicodelittleunmarked", "utf_16le"]),
    (.charset .utf16Big, ["unicodebigunmarked", "utf_16be"]),
    (.charset .utf32, ["u32", "utf32"]),
    (.charset .utf32Little, ["utf_32le"]),
    (.charset .utf32Big, ["utf_32be"]),
    (.charset .ascii, ["646", "ansi_x3.4_1968", "ansi_x3_4_1968", "ansi_x3.4_1986", "cp367",
      "csascii", "ibm367", "iso646_us", "iso_646.irv_1991", "iso_ir_6", "us", "us_ascii"]),
    (.charset .latin1, ["8859", "cp819", "csisolatin1", "ibm819", "iso8859", "iso8859_1",
      "iso_8859_1", "iso_8859_1_1987", "iso_ir_100", "l1", "latin", "latin1"]),
    (.charset .latin9, ["iso_8859_15", "l9", "latin9"]),
    (.charset .cp1252, ["1252", "windows_1252"]),
    (.charset .koi8r, ["cskoi8r"]),
    (.charset .shiftJis, ["csshiftjis", "shiftjis", "sjis", "s_jis", "x_mac_japanese"]),
    (.transformation, ["hex", "rot13", "base64", "base_64"])]

def ofAlias? (name : Text) : Option Codec :=
  (aliases.find? fun p => p.2.contains name).map fun p => p.1

def ofNormalized? (name : Text) : Option Codec :=
  ofAlias? name
    <|> ofAlias? (name.map fun c : CodePoint => if c = '.' then CodePoint.ofChar '_' else c)
    <|> modules.lookup name

def ofName? (name : Text) : Option Codec := ofNormalized? (normalize name)

end Codec

/-- Why a name is no encoding for text. -/
inductive NameFault where
  | unencodable (fault : EncodingFault)
  | embeddedNull
  | unknown (name : Text)
  | notForText (name : Text)
deriving DecidableEq, Repr

def NameFault.message : NameFault → Text
  | .unencodable fault => fault.message
  | .embeddedNull => "embedded null character"
  | .unknown name => "unknown encoding: " ++ name
  | .notForText name =>
    "'" ++ name ++ "' is not a text encoding; use codecs.encode() to handle arbitrary codecs"

namespace Codec

def lookup (name : Text) : Except NameFault Codec :=
  match Charset.utf8.fault? name with
  | some fault => .error (.unencodable fault)
  | none =>
    if name.contains CodePoint.null then .error .embeddedNull
    else match ofName? name with
      | none => .error (.unknown name)
      | some codec => .ok codec

end Codec

def Charset.lookup (name : Text) : Except NameFault Charset := do
  match ← Codec.lookup name with
  | .charset cs => return cs
  | .transformation => throw (.notForText name)

end TreePlan
