import ExamplePrograms.Lib.Base64

/-!
# Sekure

`Sekure.main` of `Sekure.java` encrypts a file of the working directory in place or decrypts it: a file
that begins with `sek!` is taken for an encrypted one. The directory is a map from names to contents.

The classes of the Java platform that it uses are the fields of a `Platform`: the default charset, MD5,
the key factory, the PBE cipher, BASE64 and the line separator. `Platform.Lawful` is what the program
relies on. A name is a sequence of UTF-16 units and a file a sequence of bytes. The files that the
program opens can be read, and it can create a file of any name but the empty one and those of the
directory and its parent.
-/

set_option autoImplicit false

namespace ExamplePrograms.Java

/-- A string of UTF-16 units. -/
abbrev JString := List UInt16

/-- The string of some ASCII bytes. -/
def chars (bytes : List UInt8) : JString := bytes.map UInt8.toUInt16

/-- `sek!`. -/
def sekMark : List UInt8 := [115, 101, 107, 33]

/-- `.sek`. -/
def sekSuffix : JString := chars [46, 115, 101, 107]

/-- `.dec`. -/
def decSuffix : JString := chars [46, 100, 101, 99]

/-- The number of bytes in a line of `BASE64Encoder`. -/
def bytesPerLine : Nat := 57

/-- The iteration count of the key derivation. -/
def iterations : Nat := 19

/-- The salt of the key derivation. -/
def salt : List UInt8 := [0xFE, 0xA2, 0x77, 0x3C, 0x03, 0xA8, 0x82, 0xE3]

variable {Key : Type}

/-- What the program uses of the Java platform. -/
structure Platform (Key : Type) where
  /-- The bytes of a file as text, in the default charset. -/
  decode : List UInt8 → JString
  /-- `String.getBytes`. -/
  getBytes : JString → List UInt8
  /-- The MD5 digest. -/
  md5 : List UInt8 → List UInt8
  /-- The key of a password; some passwords have none. -/
  generateSecret : JString → Option Key
  /-- The cipher with a salt and an iteration count. The decrypting one fails on some data. -/
  encrypt : Key → List UInt8 → Nat → List UInt8 → List UInt8
  decrypt : Key → List UInt8 → Nat → List UInt8 → Option (List UInt8)
  /-- What a decrypting `CipherOutputStream` has written before it is closed. -/
  update : Key → List UInt8 → Nat → List UInt8 → List UInt8
  /-- A line of `BASE64Encoder`, without its end. -/
  encodeLine : List UInt8 → List UInt8
  /-- `BASE64Decoder.decodeBuffer`, which throws on some strings. -/
  decodeBuffer : JString → Option (List UInt8)
  lineSeparator : List UInt8

variable (p : Platform Key)

/-- `getPasswordHash`. -/
def getPasswordHash (pass : JString) : List UInt8 := p.md5 (p.getBytes pass)

/-! ## Reading -/

/-- The lines that `readLine` gives, behind the part `line` of the first one. A line ends with a line
feed, a carriage return or both. -/
def readLines : JString → JString → List JString
  | [], [] => []
  | line, [] => [line]
  | line, 13 :: 10 :: rest => line :: readLines [] rest
  | line, 13 :: rest => line :: readLines [] rest
  | line, 10 :: rest => line :: readLines [] rest
  | line, c :: rest => readLines (line ++ [c]) rest

/-- `isSekureFile`: the first four characters. -/
def isSekureFile (content : List UInt8) : Bool :=
  (p.decode content).take 4 = chars sekMark

/-- What came of reading an encrypted file: an exception, with what was written by then, a wrong
password, or the data that was written to the end. -/
inductive Opened where
  | exception (written : List UInt8)
  | incorrectPassword
  | data (bytes : List UInt8)
  deriving DecidableEq, Repr

/-- The bytes of the lines up to the first one that cannot be decoded, and whether there is none. -/
def decodeBody : List JString → List UInt8 × Bool
  | [] => ([], true)
  | line :: lines =>
      match p.decodeBuffer line with
      | none => ([], false)
      | some bytes => (bytes ++ (decodeBody lines).1, (decodeBody lines).2)

/-- The lines behind the password hash. `close` of the `CipherOutputStream` does not throw when the
cipher fails at the end of the data. -/
def openBody (key : Key) (lines : List JString) : Opened :=
  let body := decodeBody p lines
  let written := p.update key salt iterations body.1
  if body.2 then .data ((p.decrypt key salt iterations body.1).getD written)
  else .exception written

/-- Read an encrypted file. -/
def openFile (key : Key) (pass : JString) (content : List UInt8) : Opened :=
  match readLines [] (p.decode content) with
  | [] => .exception []
  | line :: lines =>
      if line.length < 4 then .exception []
      else
        match p.decodeBuffer (line.drop 4) with
        | none => .exception []
        | some encpass =>
            -- the rest of the file is read only when the hash is that of the password
            if encpass = getPasswordHash p pass then openBody p key lines else .incorrectPassword

/-! ## Writing -/

/-- Data in lines of `bytesPerLine`, the last one shorter. -/
def chunks : Nat → List UInt8 → List (List UInt8)
  | 0, _ => []
  | n + 1, data =>
      if data = [] then [] else data.take bytesPerLine :: chunks n (data.drop bytesPerLine)

/-- `BASE64Encoder.encode`: a full line has an end and the last one has none. -/
def encode (data : List UInt8) : JString :=
  chars ((chunks data.length data).flatMap fun chunk =>
    p.encodeLine chunk ++ if chunk.length < bytesPerLine then [] else p.lineSeparator)

/-- `BASE64Encoder.encodeBuffer`: every line has an end. -/
def encodeBuffer (data : List UInt8) : List UInt8 :=
  (chunks data.length data).flatMap fun chunk => p.encodeLine chunk ++ p.lineSeparator

/-- The encrypted file. -/
def sealed (key : Key) (pass : JString) (content : List UInt8) : List UInt8 :=
  p.getBytes (chars sekMark) ++ p.getBytes (encode p (getPasswordHash p pass)) ++
    p.getBytes (chars [10]) ++ encodeBuffer p (p.encrypt key salt iterations content)

/-! ## The program -/

/-- The files of the working directory. -/
abbrev Dir := JString → Option (List UInt8)

/-- A file that is written. -/
def Dir.write (dir : Dir) (name : JString) (content : List UInt8) : Dir :=
  fun other => if other = name then some content else dir other

/-- A file that is deleted. -/
def Dir.delete (dir : Dir) (name : JString) : Dir :=
  fun other => if other = name then none else dir other

/-- `renameTo`, where the content of the file is known. -/
def Dir.rename (dir : Dir) (source target : JString) (content : List UInt8) : Dir :=
  (dir.delete source).write target content

/-- A file of this name can be created. -/
def creatable (name : JString) : Bool :=
  name ≠ [] && name ≠ chars [46] && name ≠ chars [46, 46]

/-- `encryptFile`, from the content that was read. -/
def encryptFile (key : Key) (pass name : JString) (content : List UInt8) (dir : Dir) : Dir :=
  let newFile := name ++ sekSuffix
  -- the new file gets the name of the old one
  if creatable newFile then dir.rename newFile name (sealed p key pass content) else dir

/-- The name that a file is decrypted to. `substring` throws on a name of less than four characters. -/
def newFileName (name : JString) : Option JString :=
  if name.length < 4 then none
  else if name.drop (name.length - 4) = sekSuffix then some (name.take (name.length - 4))
  else some (name ++ decSuffix)

/-- `decryptFile`, from the content that was read. -/
def decryptFile (key : Key) (pass name : JString) (content : List UInt8) (dir : Dir) : Dir :=
  match newFileName name with
  | none => dir
  | some newFile =>
      if creatable newFile then
        match openFile p key pass content with
        -- the new file stays behind with what was written to it by then
        | .exception written => dir.write newFile written
        | .incorrectPassword => dir.delete newFile
        | .data bytes => dir.rename newFile name bytes
      else dir

/-- `main` with the name of a file in the working directory and the password that is typed. -/
def main (pass name : JString) (dir : Dir) : Dir :=
  match dir name with
  | none => dir
  | some content =>
      match p.generateSecret pass with
      | none => dir
      | some key =>
          if isSekureFile p content then decryptFile p key pass name content dir
          else encryptFile p key pass name content dir

/-! ## What the program relies on -/

/-- Bytes of ASCII characters. -/
def Ascii (bytes : List UInt8) : Prop := ∀ c ∈ bytes, c < 128

/-- A list of bytes that was checked is ASCII. -/
theorem ascii_of_all {bytes : List UInt8} (h : (bytes.all fun c => c < 128) = true) : Ascii bytes := by
  intro c hc
  exact of_decide_eq_true (List.all_eq_true.1 h c hc)

theorem Ascii.append {bytes bytes' : List UInt8} (h : Ascii bytes) (h' : Ascii bytes') :
    Ascii (bytes ++ bytes') :=
  List.forall_mem_append.2 ⟨h, h'⟩

/-- The default charset agrees with ASCII, the cipher decrypts what it encrypted, and the decoder reads
a line of the encoder. -/
structure Platform.Lawful (p : Platform Key) : Prop where
  decode_ascii : ∀ bytes, Ascii bytes → p.decode bytes = chars bytes
  getBytes_ascii : ∀ bytes, Ascii bytes → p.getBytes (chars bytes) = bytes
  md5_length : ∀ bytes, (p.md5 bytes).length = 16
  decrypt_encrypt : ∀ key salt iterations bytes,
    p.decrypt key salt iterations (p.encrypt key salt iterations bytes) = some bytes
  encodeLine_printable : ∀ bytes, ∀ c ∈ p.encodeLine bytes, 32 < c ∧ c < 127
  decodeBuffer_encodeLine : ∀ bytes, 0 < bytes.length → bytes.length ≤ bytesPerLine →
    p.decodeBuffer (chars (p.encodeLine bytes)) = some bytes
  lineSeparator : p.lineSeparator = [10] ∨ p.lineSeparator = [13, 10]

/-! ## Lines -/

/-- An LF ends a line. -/
theorem readLines_lf (line rest : JString) :
    readLines line (10 :: rest) = line :: readLines [] rest := by
  cases line <;> rfl

/-- A CR LF ends a line. -/
theorem readLines_crlf (line rest : JString) :
    readLines line (13 :: 10 :: rest) = line :: readLines [] rest := by
  cases line <;> rfl

/-- Any other character belongs to the line. -/
theorem readLines_char {c : UInt16} (hlf : c ≠ 10) (hcr : c ≠ 13) (line rest : JString) :
    readLines line (c :: rest) = readLines (line ++ [c]) rest := by
  rw [readLines]
  · exact fun _ h _ => hcr h
  · exact hcr
  · exact hlf

/-- Printable text has no line end. -/
def Printable (bytes : List UInt8) : Prop := ∀ c ∈ bytes, 32 < c ∧ c < 127

/-- Visible characters are ASCII. -/
theorem Printable.ascii {bytes : List UInt8} (h : Printable bytes) : Ascii bytes := by
  intro c hc
  have hlt := (h c hc).2
  rw [UInt8.lt_iff_toNat_lt] at hlt ⊢
  exact Nat.lt_of_lt_of_le hlt (by decide)

/-- Printable text stays in its line. -/
theorem readLines_printable {bytes : List UInt8} (h : Printable bytes) (line rest : JString) :
    readLines line (chars bytes ++ rest) = readLines (line ++ chars bytes) rest := by
  induction bytes generalizing line with
  | nil => exact congrArg (fun l => readLines l rest) (List.append_nil line).symm
  | cons c bytes ih =>
    obtain ⟨hlow, -⟩ := h c List.mem_cons_self
    -- the line ends are below the printable characters
    have hne : ∀ k : UInt8, k ≤ 32 → c.toUInt16 ≠ k.toUInt16 := by
      intro k hk heq
      have heq' : c = k := by
        have hnat := congrArg UInt16.toNat heq
        rw [UInt8.toNat_toUInt16, UInt8.toNat_toUInt16] at hnat
        exact UInt8.toNat_inj.1 hnat
      rw [heq'] at hlow
      exact absurd hlow (UInt8.not_lt.2 hk)
    have hlf : c.toUInt16 ≠ 10 := hne 10 (by decide)
    have hcr : c.toUInt16 ≠ 13 := hne 13 (by decide)
    have htail : Printable bytes := fun c' hc' => h c' (List.mem_cons_of_mem c hc')
    rw [chars, List.map_cons, List.cons_append, readLines_char hlf hcr, ← chars, ih htail,
      List.append_assoc]
    rfl

variable {p : Platform Key}

/-- A printable line with its end is the next line. -/
theorem Platform.Lawful.readLines_separator (h : p.Lawful) {bytes : List UInt8}
    (hbytes : Printable bytes) (rest : JString) :
    readLines [] (chars (bytes ++ p.lineSeparator) ++ rest) = chars bytes :: readLines [] rest := by
  rw [chars, List.map_append, ← chars, List.append_assoc, readLines_printable hbytes,
    List.nil_append]
  rcases h.lineSeparator with hsep | hsep
  · rw [hsep]
    exact readLines_lf (chars bytes) rest
  · rw [hsep]
    exact readLines_crlf (chars bytes) rest

/-! ## Lines of the encoder -/

/-- Nothing is cut into no chunks. -/
theorem chunks_nil (n : Nat) : chunks n [] = [] := by
  cases n with
  | zero => rfl
  | succ n => exact if_pos rfl

/-- The lines are not empty, not too long, and the data together. -/
theorem chunks_spec (n : Nat) (data : List UInt8) (hn : data.length ≤ n) :
    (chunks n data).flatten = data ∧
      ∀ chunk ∈ chunks n data, 0 < chunk.length ∧ chunk.length ≤ bytesPerLine := by
  induction n generalizing data with
  | zero =>
    obtain rfl := List.eq_nil_of_length_eq_zero (Nat.le_zero.1 hn)
    exact ⟨rfl, fun chunk hchunk => nomatch hchunk⟩
  | succ n ih =>
    rw [chunks]
    split
    · next hnil =>
      subst hnil
      exact ⟨rfl, fun chunk hchunk => nomatch hchunk⟩
    · next hne =>
      have hpos := List.length_pos_of_ne_nil hne
      -- a line takes at least one byte, so the steps suffice for the rest
      have hdrop : (data.drop bytesPerLine).length ≤ n := by
        rw [List.length_drop, bytesPerLine]
        omega
      obtain ⟨hflatten, hlengths⟩ := ih (data.drop bytesPerLine) hdrop
      constructor
      · rw [List.flatten_cons, hflatten, List.take_append_drop]
      · apply List.forall_mem_cons.2 ⟨?_, hlengths⟩
        rw [List.length_take, bytesPerLine]
        omega

/-- Data of less than a line. -/
theorem chunks_of_short {data : List UInt8} (hpos : 0 < data.length)
    (hlt : data.length < bytesPerLine) : chunks data.length data = [data] := by
  obtain ⟨n, hn⟩ : ∃ n, data.length = n + 1 := ⟨data.length - 1, by omega⟩
  have hne : data ≠ [] := List.ne_nil_of_length_pos hpos
  rw [hn, chunks, if_neg hne, List.take_of_length_le (Nat.le_of_lt hlt),
    List.drop_eq_nil_of_le (Nat.le_of_lt hlt), chunks_nil]

/-- A digest is encoded in one line without an end. -/
theorem Platform.Lawful.encode_hash (h : p.Lawful) (pass : JString) :
    encode p (getPasswordHash p pass) = chars (p.encodeLine (getPasswordHash p pass)) := by
  have hlength : (getPasswordHash p pass).length = 16 := h.md5_length _
  have hlt : (getPasswordHash p pass).length < bytesPerLine := by
    rw [hlength]
    decide
  rw [encode, chunks_of_short (by omega) hlt, List.flatMap_singleton, if_pos hlt, List.append_nil]

/-- The body is read line by line. -/
theorem Platform.Lawful.readLines_body (h : p.Lawful) (lines : List (List UInt8)) :
    readLines [] (chars (lines.flatMap fun chunk => p.encodeLine chunk ++ p.lineSeparator)) =
      lines.map fun chunk => chars (p.encodeLine chunk) := by
  induction lines with
  | nil => rfl
  | cons chunk lines ih =>
    rw [List.flatMap_cons, List.map_cons, ← ih, ← h.readLines_separator (h.encodeLine_printable chunk)]
    exact congrArg (readLines []) List.map_append

/-- The encoded lines of a body are decoded. -/
theorem Platform.Lawful.decodeBody_lines (h : p.Lawful) {lines : List (List UInt8)}
    (hlines : ∀ chunk ∈ lines, 0 < chunk.length ∧ chunk.length ≤ bytesPerLine) :
    decodeBody p (lines.map fun chunk => chars (p.encodeLine chunk)) = (lines.flatten, true) := by
  induction lines with
  | nil => rfl
  | cons chunk lines ih =>
    obtain ⟨⟨hpos, hle⟩, hrest⟩ := List.forall_mem_cons.1 hlines
    rw [List.map_cons, decodeBody, h.decodeBuffer_encodeLine chunk hpos hle, ih hrest]
    rfl

/-! ## Encrypted files -/

/-- The mark is visible text. -/
theorem sekMark_printable : Printable sekMark := by
  have hall : (sekMark.all fun c => 32 < c ∧ c < 127) = true := rfl
  intro c hc
  exact of_decide_eq_true (List.all_eq_true.1 hall c hc)

/-- The encoded text is ASCII. -/
theorem Platform.Lawful.encodeBuffer_ascii (h : p.Lawful) (data : List UInt8) :
    Ascii (encodeBuffer p data) := by
  -- the separator is LF or CR LF, both ASCII
  have hsep : Ascii p.lineSeparator := by
    rcases h.lineSeparator with hsep | hsep
    · rw [hsep]
      exact ascii_of_all rfl
    · rw [hsep]
      exact ascii_of_all rfl
  intro c hc
  obtain ⟨chunk, -, hc⟩ := List.mem_flatMap.1 hc
  exact (Printable.ascii (h.encodeLine_printable chunk)).append hsep c hc

/-- What is written, and the text that is read from it. -/
theorem Platform.Lawful.decode_sealed (h : p.Lawful) (key : Key) (pass : JString)
    (content : List UInt8) :
    p.decode (sealed p key pass content) =
      chars (sekMark ++ p.encodeLine (getPasswordHash p pass)) ++
        10 :: chars (encodeBuffer p (p.encrypt key salt iterations content)) := by
  have hmark := sekMark_printable.ascii
  have hhash := Printable.ascii (h.encodeLine_printable (getPasswordHash p pass))
  have hlf : Ascii [10] := ascii_of_all rfl
  have hbody := h.encodeBuffer_ascii (p.encrypt key salt iterations content)
  rw [sealed, h.encode_hash, h.getBytes_ascii _ hmark, h.getBytes_ascii _ hhash,
    h.getBytes_ascii _ hlf, h.decode_ascii _ (((hmark.append hhash).append hlf).append hbody),
    List.append_assoc]
  exact List.map_append

/-- A sealed content is taken for an encrypted one. -/
theorem Platform.Lawful.isSekureFile_sealed (h : p.Lawful) (key : Key) (pass : JString)
    (content : List UInt8) : isSekureFile p (sealed p key pass content) = true := by
  rw [isSekureFile, h.decode_sealed, chars, List.map_append]
  rfl

/-- An encrypted file is opened with its password. -/
theorem Platform.Lawful.openFile_sealed (h : p.Lawful) (key : Key) (pass : JString)
    (content : List UInt8) : openFile p key pass (sealed p key pass content) = .data content := by
  have hlength : (getPasswordHash p pass).length = 16 := h.md5_length _
  have hheader : Printable (sekMark ++ p.encodeLine (getPasswordHash p pass)) :=
    List.forall_mem_append.2 ⟨sekMark_printable, h.encodeLine_printable _⟩
  -- the first line is the header and the others are those of the encoder
  have hlines : readLines [] (p.decode (sealed p key pass content)) =
      chars (sekMark ++ p.encodeLine (getPasswordHash p pass)) ::
        (chunks (p.encrypt key salt iterations content).length
          (p.encrypt key salt iterations content)).map fun chunk => chars (p.encodeLine chunk) := by
    rw [h.decode_sealed, readLines_printable hheader, List.nil_append, readLines_lf, encodeBuffer,
      h.readLines_body]
  have hdrop : (chars (sekMark ++ p.encodeLine (getPasswordHash p pass))).drop 4 =
      chars (p.encodeLine (getPasswordHash p pass)) := by
    rw [chars, List.map_append]
    rfl
  have hfour : ¬ (chars (sekMark ++ p.encodeLine (getPasswordHash p pass))).length < 4 := by
    rw [chars, List.length_map, List.length_append, sekMark, List.length_cons, List.length_cons,
      List.length_cons, List.length_cons]
    omega
  have hhash : p.decodeBuffer (chars (p.encodeLine (getPasswordHash p pass))) =
      some (getPasswordHash p pass) :=
    h.decodeBuffer_encodeLine _ (by omega) (by rw [hlength]; decide)
  obtain ⟨hflatten, hchunks⟩ := chunks_spec _ (p.encrypt key salt iterations content) (Nat.le_refl _)
  rw [openFile, hlines]
  dsimp only
  rw [if_neg hfour, hdrop, hhash]
  dsimp only
  rw [if_pos rfl, openBody, h.decodeBody_lines hchunks, hflatten]
  dsimp only
  rw [if_pos rfl, h.decrypt_encrypt, Option.getD_some]

/-! ## Two runs -/

/-- A file that was written is read back. -/
theorem Dir.write_same (dir : Dir) (name : JString) (content : List UInt8) :
    dir.write name content name = some content := if_pos rfl

/-- Writing a file leaves the others alone. -/
theorem Dir.write_other (dir : Dir) {name other : JString} (hne : other ≠ name)
    (content : List UInt8) : dir.write name content other = dir other := if_neg hne

/-- Deleting a file leaves the others alone. -/
theorem Dir.delete_other (dir : Dir) {name other : JString} (hne : other ≠ name) :
    dir.delete name other = dir other := if_neg hne

/-- The name that a file is decrypted to is another one. -/
theorem newFileName_ne {name newFile : JString} (h : newFileName name = some newFile) :
    name ≠ newFile := by
  intro heq
  rw [newFileName] at h
  split at h
  · cases h
  · split at h
    · have hlength := congrArg List.length (Option.some.inj h)
      rw [List.length_take, ← heq] at hlength
      omega
    · have hlength := congrArg List.length (Option.some.inj h)
      rw [List.length_append, ← heq, decSuffix, chars, List.length_map] at hlength
      change name.length + 4 = name.length at hlength
      omega

/-- A name of four characters or more that is more than the suffix, behind no directory. -/
structure Restorable (name : JString) : Prop where
  long : 4 ≤ name.length
  suffix : name ≠ sekSuffix
  dot : name ≠ chars [46] ++ sekSuffix
  dotDot : name ≠ chars [46, 46] ++ sekSuffix

/-- A name of more than two characters is creatable. -/
theorem creatable_of_length {name : JString} (h : 2 < name.length) : creatable name = true := by
  have hne : ∀ other : JString, other.length ≤ 2 → name ≠ other := by
    intro other hle heq
    rw [heq] at h
    omega
  simp [creatable, hne [] (by decide), hne (chars [46]) (by decide),
    hne (chars [46, 46]) (by decide)]

/-- The name that `decryptFile` gives to the new file. -/
theorem Restorable.newFileName {name : JString} (h : Restorable name) :
    ∃ newFile, Java.newFileName name = some newFile ∧ creatable newFile = true := by
  have hlong := h.long
  rw [Java.newFileName, if_neg (by omega)]
  split
  · next hsuffix =>
    refine ⟨_, rfl, ?_⟩
    -- what is left without the suffix is a name: the exceptions are excluded
    have hname : name = name.take (name.length - 4) ++ sekSuffix := by
      rw [← hsuffix, List.take_append_drop]
    have hne : ∀ start : JString, name ≠ start ++ sekSuffix →
        name.take (name.length - 4) ≠ start := by
      intro start hstart heq
      apply hstart
      rw [← heq]
      exact hname
    simp [creatable, hne [] h.suffix, hne _ h.dot, hne _ h.dotDot]
  · refine ⟨_, rfl, creatable_of_length ?_⟩
    rw [List.length_append]
    omega

section Run

variable {key : Key} {pass name : JString} {content : List UInt8} {dir : Dir}
  (hfile : dir name = some content) (hkey : p.generateSecret pass = some key)

include hfile hkey

/-- The run of `main` for a key that was made. -/
theorem main_of_key : main p pass name dir =
    if isSekureFile p content then decryptFile p key pass name content dir
    else encryptFile p key pass name content dir := by
  rw [main, hfile]
  dsimp only
  rw [hkey]

/-- A file that does not look encrypted is encrypted. -/
theorem main_plain (hplain : isSekureFile p content = false) :
    main p pass name dir name = some (sealed p key pass content) := by
  have hcreatable : creatable (name ++ sekSuffix) = true := by
    apply creatable_of_length
    rw [List.length_append, sekSuffix, chars, List.length_map]
    exact Nat.lt_add_left name.length (by decide)
  rw [main_of_key hfile hkey, hplain, if_neg Bool.false_ne_true, encryptFile, if_pos hcreatable]
  exact Dir.write_same _ name _

/-- An encrypted file is decrypted, when the file for it can be created. -/
theorem main_sealed (hlooks : isSekureFile p content = true) (hname : Restorable name)
    {bytes : List UInt8} (hopen : openFile p key pass content = .data bytes) :
    main p pass name dir name = some bytes := by
  obtain ⟨newFile, hnew, hcreatable⟩ := hname.newFileName
  rw [main_of_key hfile hkey, if_pos hlooks, decryptFile, hnew]
  dsimp only
  rw [if_pos hcreatable, hopen]
  exact Dir.write_same _ name bytes

/-- A file that is not read to its end with the password is left as it is. -/
theorem main_unopened (hlooks : isSekureFile p content = true)
    (hopen : ∀ bytes, openFile p key pass content ≠ .data bytes) :
    main p pass name dir name = some content := by
  rw [main_of_key hfile hkey, if_pos hlooks, decryptFile]
  cases hnew : newFileName name with
  | none => exact hfile
  | some newFile =>
    have hne := newFileName_ne hnew
    dsimp only
    split
    · cases hresult : openFile p key pass content with
      | exception written => exact (Dir.write_other dir hne written).trans hfile
      | incorrectPassword => exact (Dir.delete_other dir hne).trans hfile
      | data bytes => exact absurd hresult (hopen bytes)
    · exact hfile

end Run

/-- Contents that two runs give back: those that do not look encrypted, those that look encrypted and
have another password or a line that cannot be decoded, and those the program itself writes for the
first kind. -/
def Regained (p : Platform Key) (pass : JString) (content : List UInt8) : Prop :=
  isSekureFile p content = false ∨ ∀ key, p.generateSecret pass = some key →
    (∀ bytes, openFile p key pass content ≠ .data bytes) ∨
      ∃ bytes, isSekureFile p bytes = false ∧ content = sealed p key pass bytes

/-- Two runs with one password give back the file, for every directory, every name of four characters
or more that is not a suffix behind nothing, a dot or two dots, and every content of `Regained`. -/
theorem sekure_round_trip (h : p.Lawful) (pass : JString) {name : JString} (hname : Restorable name)
    {dir : Dir} {content : List UInt8} (hfile : dir name = some content)
    (hcontent : Regained p pass content) :
    main p pass name (main p pass name dir) name = some content := by
  cases hkey : p.generateSecret pass with
  | none =>
    -- without a key neither run changes anything
    have hsame : main p pass name dir = dir := by
      rw [main, hfile]
      dsimp only
      rw [hkey]
    rw [hsame, hsame]
    exact hfile
  | some key =>
    cases hlooks : isSekureFile p content with
    | false =>
      -- encrypted by the first run and decrypted by the second
      have hfirst := main_plain hfile hkey hlooks
      exact main_sealed hfirst hkey (h.isSekureFile_sealed key pass content) hname
        (h.openFile_sealed key pass content)
    | true =>
      rcases hcontent with hplain | hcontent
      · exact nomatch hlooks.symm.trans hplain
      · rcases hcontent key hkey with hopen | ⟨bytes, hplain, rfl⟩
        · have hfirst := main_unopened hfile hkey hlooks hopen
          -- both runs leave it
          exact main_unopened hfirst hkey hlooks hopen
        · have hfirst := main_sealed hfile hkey hlooks hname (h.openFile_sealed key pass bytes)
          -- decrypted by the first run; the second encrypts it to the same file
          exact main_plain hfirst hkey hplain

/-! ## An instance -/

/-- `abc`. -/
def abc : List UInt8 := [97, 98, 99]

/-- `hi`. -/
def hi : List UInt8 := [104, 105]

/-- What the cipher makes of `hi` with the password `abc`. -/
def hiSealed : List UInt8 := [121, 94, 131, 109, 68, 225, 74, 137]

/-- What the cipher makes of no data with the password `abc`. -/
def nothingSealed : List UInt8 := [45, 88, 205, 221, 7, 222, 14, 20]

/-- The digest of `abc`. -/
def abcHash : List UInt8 :=
  [0x90, 0x01, 0x50, 0x98, 0x3c, 0xd2, 0x4f, 0xb0, 0xd6, 0x96, 0x3f, 0x7d, 0x28, 0xe1, 0x7f, 0x72]

/-- The cipher on the data above, and some other injection elsewhere. -/
def abcEncrypt (data : List UInt8) : List UInt8 :=
  if data = hi then hiSealed else if data = [] then nothingSealed else 1 :: data

/-- The inverse of `abcEncrypt`. -/
def abcDecrypt (data : List UInt8) : Option (List UInt8) :=
  if data = hiSealed then some hi
  else if data = nothingSealed ∨ data = [] then some []
  else if data.head? = some 1 then some data.tail
  else none

/-- The cipher is undone. -/
theorem abcDecrypt_abcEncrypt (data : List UInt8) : abcDecrypt (abcEncrypt data) = some data := by
  rw [abcEncrypt]
  split
  · next h =>
    subst h
    rfl
  · split
    · next h =>
      subst h
      rfl
    · have hhi : (1 :: data : List UInt8) ≠ hiSealed := by
        intro heq
        exact absurd (List.cons.inj heq).1 (by decide)
      have hnothing : ¬ ((1 :: data : List UInt8) = nothingSealed ∨ (1 :: data : List UInt8) = []) := by
        rintro (heq | heq)
        · exact absurd (List.cons.inj heq).1 (by decide)
        · cases heq
      rw [abcDecrypt, if_neg hhi, if_neg hnothing]
      exact if_pos rfl

/-- A platform with the charset ISO 8859-1 and BASE64, whose MD5 and cipher have their values for the
password `abc` and the data above. -/
def abcPlatform : Platform JString where
  decode := chars
  getBytes s := s.map fun c => if c < 256 then c.toUInt8 else 63
  md5 bytes := if bytes = abc then abcHash else List.replicate 16 0
  generateSecret pass := if pass.all fun c => 32 ≤ c && c ≤ 126 then some pass else none
  encrypt _ _ _ := abcEncrypt
  decrypt _ _ _ := abcDecrypt
  update _ _ _ _ := []
  encodeLine := Lib.Base64.encode
  decodeBuffer s := Lib.Base64.decode (s.map fun c => if c < 256 then c.toUInt8 else 63)
  lineSeparator := [10]

/-- The bytes of a text of single bytes. -/
theorem getBytes_chars (bytes : List UInt8) :
    (chars bytes).map (fun c => if c < 256 then c.toUInt8 else 63) = bytes := by
  have hbyte : ∀ c : UInt8, (if c.toUInt16 < 256 then c.toUInt16.toUInt8 else 63) = c := by
    intro c
    have hlt : c.toUInt16 < 256 := by
      rw [UInt16.lt_iff_toNat_lt, UInt8.toNat_toUInt16]
      exact c.toNat_lt
    rw [if_pos hlt, UInt8.toUInt8_toUInt16]
  rw [chars, List.map_map]
  exact (List.map_congr_left fun c _ => hbyte c).trans (List.map_id bytes)

/-- The platform keeps the laws. -/
theorem abcPlatform_lawful : abcPlatform.Lawful where
  decode_ascii _ _ := rfl
  getBytes_ascii bytes _ := getBytes_chars bytes
  md5_length bytes := by
    change (if bytes = abc then abcHash else List.replicate 16 0).length = 16
    split
    · rfl
    · rfl
  decrypt_encrypt _ _ _ bytes := abcDecrypt_abcEncrypt bytes
  encodeLine_printable := Lib.Base64.encode_printable
  decodeBuffer_encodeLine bytes _ _ := by
    change Lib.Base64.decode ((chars (Lib.Base64.encode bytes)).map _) = some bytes
    rw [getBytes_chars, Lib.Base64.decode_encode]
  lineSeparator := Or.inl rfl

/-- `note.txt`. -/
def noteTxt : JString := chars [110, 111, 116, 101, 46, 116, 120, 116]

/-- A directory of one file. -/
def oneFile (name : JString) (content : List UInt8) : Dir :=
  fun other => if other = name then some content else none

/-- The name `note.txt` is one of those that are restored. -/
theorem noteTxt_restorable : Restorable noteTxt :=
  ⟨by decide, by decide, by decide, by decide⟩

/-- The file `note.txt` with the content `hi`, encrypted and decrypted. -/
theorem sekure_round_trip_note :
    main abcPlatform (chars abc) noteTxt
      (main abcPlatform (chars abc) noteTxt (oneFile noteTxt hi)) noteTxt = some hi :=
  sekure_round_trip abcPlatform_lawful (chars abc) noteTxt_restorable rfl (Or.inl rfl)

/-- `sek!` and the digest of `abc`, with no line behind them. -/
def headerOnly : List UInt8 :=
  sekMark ++ [107, 65, 70, 81, 109, 68, 122, 83, 84, 55, 68, 87, 108, 106, 57, 57, 75, 79, 70, 47, 99,
    103, 61, 61, 10]

/-- A text file that looks encrypted is decrypted by the first run: it is left with no data, and the
second run encrypts that. -/
theorem header_lost : abcPlatform.Lawful ∧
    main abcPlatform (chars abc) noteTxt
      (main abcPlatform (chars abc) noteTxt (oneFile noteTxt headerOnly)) noteTxt ≠
        some headerOnly := by
  refine ⟨abcPlatform_lawful, ?_⟩
  have hopen : openFile abcPlatform (chars abc) (chars abc) headerOnly = .data [] := by decide
  have hfirst : main abcPlatform (chars abc) noteTxt (oneFile noteTxt headerOnly) noteTxt = some [] :=
    main_sealed rfl rfl rfl noteTxt_restorable hopen
  rw [main_plain hfirst rfl rfl]
  decide

end ExamplePrograms.Java
