import Mathlib.Algebra.Group.Nat.Defs
import Mathlib.Data.List.Basic
import Protolink.Wire.Binary

/-!
# Agreement on the wire

A codec and its caller agree if what the one writes is what the other reads.  Bytes are read one
record after the other, so `Spells` is said of bytes in front of any others, and then holds of what
is written piece by piece.  From the records it is read off what the fields of a message are.

Main statement: `Wire.binary_agrees`.
-/

namespace Protolink.Wire

/-- The other end of the wire: what it sends and what it can receive, and how. -/
structure Caller where
  sends : Request → Prop
  writeRequest : Request → Bytes
  receives : Response → Prop
  readResponse : Bytes → Option Response

/-- What one end of the wire writes, the other end reads. -/
structure Agree (codec : Codec) (caller : Caller) : Prop where
  request : ∀ r, caller.sends r → codec.readRequest (caller.writeRequest r) = some r
  response : ∀ x, caller.receives x → caller.readResponse (codec.writeResponse x) = some x

/-! ## Numbers -/

namespace Varint

variable {n bound : Nat}

theorem decodeGroups_of_small (h : n < 128) (limit : Nat) (rest : Bytes) :
    decodeGroups (limit + 1) (encode n ++ rest) = some (n, rest) := by
  have byte : (UInt8.ofNat n).toNat = n := UInt8.toNat_ofNat_of_lt' (Nat.lt_trans h (by decide))
  rw [encode, if_pos h, List.singleton_append, decodeGroups, byte, if_pos h]

/-- A number is read back if its groups of seven bits are not too many. -/
theorem decodeGroups_encode (limit : Nat) (h : n < 128 ^ (limit + 1)) (rest : Bytes) :
    decodeGroups (limit + 1) (encode n ++ rest) = some (n, rest) := by
  induction limit generalizing n with
  | zero => exact decodeGroups_of_small (by simpa using h) 0 rest
  | succ limit ih =>
    by_cases small : n < 128
    · exact decodeGroups_of_small small (limit + 1) rest
    · have byte : (UInt8.ofNat (n % 128 + 128)).toNat = n % 128 + 128 :=
        UInt8.toNat_ofNat_of_lt' (by have : UInt8.size = 256 := rfl; omega)
      have high : n / 128 < 128 ^ (limit + 1) := by
        rw [Nat.div_lt_iff_lt_mul (by decide), ← Nat.pow_succ]
        exact h
      rw [encode, if_neg small, List.cons_append, decodeGroups, byte, if_neg (by omega), ih high]
      have : n % 128 + 128 - 128 + 128 * (n / 128) = n := by omega
      exact congrArg (fun m => some (m, rest)) this

theorem decode_encode (h : n < UInt64.size) (rest : Bytes) :
    decode (encode n ++ rest) = some (n, rest) := by
  rw [decode, decodeGroups_encode 9 (Nat.lt_trans h (by decide))]
  exact congrArg (fun m => some (m, rest)) (Nat.mod_eq_of_lt h)

theorem decodeShort_encode (h : n < bound) (hbound : bound ≤ 128 ^ 5) (rest : Bytes) :
    decodeShort bound (encode n ++ rest) = some (n, rest) := by
  rw [decodeShort, decodeGroups_encode 4 (Nat.lt_of_lt_of_le h hbound)]
  exact if_pos h

end Varint

/-! ## Records -/

theorem take?_append (bs rest : Bytes) : take? bs.length (bs ++ rest) = some (bs, rest) := by
  rw [take?, if_pos (by simp), List.take_left, List.drop_left]

/-- The first number that is too big for a length. -/
abbrev maxLength : Nat := UInt32.size / 2

namespace Token

variable {field n : Nat} {bs rest : Bytes} {t : Token}

theorem read_numberField (hfield : 8 * field < UInt32.size) (hn : n < UInt64.size)
    (rest : Bytes) :
    read (numberField field n ++ rest) = some (.record ⟨field, .varint n⟩, rest) := by
  have number : 8 * field / 8 = field := by omega
  have form : 8 * field % 8 = 0 := by omega
  rw [read, numberField, List.append_assoc, Varint.decodeShort_encode hfield (by decide)]
  simp only [Option.bind_eq_bind, Option.bind_some, number, form]
  rw [ofTag, Varint.decode_encode hn]
  rfl

theorem read_bytesField (hfield : 8 * field + 2 < UInt32.size) (hbs : bs.length < maxLength)
    (rest : Bytes) :
    read (bytesField field bs ++ rest) = some (.record ⟨field, .bytes bs⟩, rest) := by
  have number : (8 * field + 2) / 8 = field := by omega
  have form : (8 * field + 2) % 8 = 2 := by omega
  rw [read, bytesField, List.append_assoc, List.append_assoc,
    Varint.decodeShort_encode hfield (by decide)]
  simp only [Option.bind_eq_bind, Option.bind_some, number, form]
  rw [ofTag, Varint.decodeShort_encode hbs (by decide)]
  simp only [Option.bind_eq_bind, Option.bind_some, take?_append]
  rfl

theorem readAll_of_read (h : read bs = some (t, rest)) :
    readAll bs = (readAll rest).map (t :: ·) := by
  have some_left : bs ≠ [] := by
    rintro rfl
    cases h
  rw [readAll, if_neg some_left]
  split
  · next none => cases h.symm.trans none
  · next t' rest' found =>
    cases h.symm.trans found
    rfl

theorem records_map_record {rs : Records} (h : ∀ r ∈ rs, r.number ≠ 0) (depth : Nat) :
    records depth [] (rs.map record) = some rs := by
  induction rs with
  | nil => rfl
  | cons r rs ih =>
    obtain ⟨hr, hrs⟩ := List.forall_mem_cons.mp h
    rw [List.map_cons, records, if_neg (by simp), if_neg hr, ih hrs]
    rfl

end Token

/-- The records of a field that holds certain bytes, which may be given several times. -/
def given (field : Nat) (chunks : List Bytes) : Records := chunks.map fun bs => ⟨field, .bytes bs⟩

/-- Bytes that are read as certain records, whatever comes behind them. -/
structure Spells (bs : Bytes) (rs : Records) : Prop where
  reads : ∀ rest, Token.readAll (bs ++ rest) =
    (Token.readAll rest).map (rs.map Token.record ++ ·)
  numbered : ∀ r ∈ rs, r.number ≠ 0

namespace Spells

variable {bs bs' : Bytes} {rs rs' : Records} {field n : Nat}

theorem nil : Spells [] [] where
  reads rest := by simp
  numbered := nofun

theorem append (h : Spells bs rs) (h' : Spells bs' rs') : Spells (bs ++ bs') (rs ++ rs') where
  reads rest := by
    rw [List.append_assoc, h.reads, h'.reads, Option.map_map]
    congr 1
    funext ts
    simp
  numbered := List.forall_mem_append.mpr ⟨h.numbered, h'.numbered⟩

theorem of_read {r : Record} (hr : r.number ≠ 0)
    (h : ∀ rest, Token.read (bs ++ rest) = some (.record r, rest)) : Spells bs [r] where
  reads rest := Token.readAll_of_read (h rest)
  numbered := List.forall_mem_singleton.mpr hr

theorem numberField (h₀ : field ≠ 0) (hfield : 8 * field < UInt32.size) (hn : n < UInt64.size) :
    Spells (numberField field n) [⟨field, .varint n⟩] :=
  of_read h₀ (Token.read_numberField hfield hn)

theorem bytesField (h₀ : field ≠ 0) (hfield : 8 * field + 2 < UInt32.size)
    (hbs : bs.length < maxLength) : Spells (bytesField field bs) [⟨field, .bytes bs⟩] :=
  of_read h₀ (Token.read_bytesField hfield hbs)

/-- A field that is given several times. -/
theorem flatMap_bytesField {chunks : List Bytes} (h₀ : field ≠ 0)
    (hfield : 8 * field + 2 < UInt32.size) (h : ∀ bs ∈ chunks, bs.length < maxLength) :
    Spells (chunks.flatMap (Wire.bytesField field)) (given field chunks) := by
  induction chunks with
  | nil => exact nil
  | cons bs chunks ih =>
    obtain ⟨hbs, hchunks⟩ := List.forall_mem_cons.mp h
    exact (bytesField h₀ hfield hbs).append (ih hchunks)

theorem records? (h : Spells bs rs) (depth : Nat) : records? depth bs = some rs := by
  have nothing : Token.readAll [] = some [] := by rw [Token.readAll, if_pos rfl]
  have whole := h.reads []
  rw [List.append_nil, nothing, Option.map_some, List.append_nil] at whole
  rw [Wire.records?, whole]
  exact Token.records_map_record h.numbered depth

end Spells

/-! ## Fields -/

@[simp] theorem text?_textBytes (s : String) : text? (textBytes s) = some s :=
  dif_pos s.isValidUTF8

namespace Records

variable (rs rs' : Records) (field number n : Nat) (chunks : List Bytes)

theorem chunks_nil : Records.chunks [] field = [] := rfl

theorem chunks_varint : Records.chunks (⟨number, .varint n⟩ :: rs) field = rs.chunks field := by
  by_cases h : number = field <;> simp [Records.chunks, Record.bytes?, h]

theorem chunks_append : (rs ++ rs').chunks field = rs.chunks field ++ rs'.chunks field :=
  List.filterMap_append

/-- Only the records of a field have something to say of it. -/
theorem chunks_given : Records.chunks (given number chunks) field =
    if number = field then chunks else [] := by
  by_cases h : number = field <;>
    simp [given, Records.chunks, List.filterMap_map, Function.comp_def, Record.bytes?, h]

/-- Bytes are no numbers. -/
theorem varints_given : (given number chunks).filterMap (Record.varint? field) = [] := by
  rw [given, List.filterMap_map, List.filterMap_eq_nil_iff]
  intro bs _
  by_cases h : number = field <;> simp [Record.varint?, h]

end Records

theorem length_le_bytesField (field : Nat) (bs : Bytes) :
    bs.length ≤ (bytesField field bs).length := by
  simp only [bytesField, List.length_append]
  omega

/-- What is inside of a message is not longer than the message. -/
theorem length_lt_of_flatMap (field : Nat) {chunks : List Bytes} {bound : Nat}
    (h : (chunks.flatMap (bytesField field)).length < bound) :
    ∀ bs ∈ chunks, bs.length < bound := by
  intro bs hbs
  have inside : (bytesField field bs).Sublist (chunks.flatMap (bytesField field)) := by
    rw [List.flatMap_def]
    exact List.sublist_flatten_of_mem (List.mem_map_of_mem hbs)
  exact Nat.lt_of_le_of_lt (Nat.le_trans (length_le_bytesField field bs) inside.length_le) h

/-! ## Responses -/

/-- Reads an output file from its records. -/
def readFile (rs : Records) : OutputFile := ⟨rs.string 1, rs.string 15⟩

/-- Reads a response, which is an error if there is one. -/
def readResponse (bs : Bytes) : Option Response :=
  (records? Shape.maxDepth bs).map fun (rs : Records) =>
    match rs.string? 1 with
    | some message => .failed message
    | none => .generated ((rs.number? 2).getD 0) ((rs.messages 15).map readFile)

/-- Whether a response is small enough to be written. -/
def Fits (x : Response) : Prop :=
  (encodeResponse x).length < maxLength ∧
    ∀ features files, x = .generated features files → features < UInt64.size

theorem spells_encodeFile {f : OutputFile} (h : (encodeFile f).length < maxLength) :
    Spells (encodeFile f) (given 1 [textBytes f.name] ++ given 15 [textBytes f.content]) := by
  rw [encodeFile, List.length_append] at h
  have name := length_le_bytesField 1 (textBytes f.name)
  have content := length_le_bytesField 15 (textBytes f.content)
  exact (Spells.bytesField (by decide) (by decide) (by omega)).append
    (Spells.bytesField (by decide) (by decide) (by omega))

theorem readFile_encodeFile {f : OutputFile} (h : (encodeFile f).length < maxLength) :
    readFile (recordsOf (encodeFile f)) = f := by
  rw [recordsOf, (spells_encodeFile h).records?, Option.getD_some]
  simp [readFile, Records.string, Records.string?, Records.texts, Records.chunks_append,
    Records.chunks_given]

theorem readResponse_failed {message : String}
    (h : (encodeResponse (.failed message)).length < maxLength) :
    readResponse (encodeResponse (.failed message)) = some (.failed message) := by
  have text := length_le_bytesField 1 (textBytes message)
  have spells : Spells (encodeResponse (.failed message)) (given 1 [textBytes message]) :=
    Spells.bytesField (by decide) (by decide) (Nat.lt_of_le_of_lt text h)
  rw [readResponse, spells.records?]
  simp [Records.string?, Records.texts, Records.chunks_given]

theorem readResponse_generated {features : Nat} {files : List OutputFile}
    (hfeatures : features < UInt64.size)
    (h : (encodeResponse (.generated features files)).length < maxLength) :
    readResponse (encodeResponse (.generated features files)) =
      some (.generated features files) := by
  have written : encodeResponse (.generated features files) =
      numberField 2 features ++ (files.map encodeFile).flatMap (bytesField 15) := by
    rw [encodeResponse, List.flatMap_map]
  rw [written, List.length_append] at h
  have short : ∀ bs ∈ files.map encodeFile, bs.length < maxLength :=
    length_lt_of_flatMap 15 (by omega)
  have spells : Spells (encodeResponse (.generated features files))
      (⟨2, .varint features⟩ :: given 15 (files.map encodeFile)) := by
    rw [written]
    exact (Spells.numberField (by decide) (by decide) hfeatures).append
      (Spells.flatMap_bytesField (by decide) (by decide) short)
  have contents : files.map ((readFile ∘ recordsOf) ∘ encodeFile) = files := by
    refine (List.map_congr_left fun f hf => ?_).trans files.map_id
    exact readFile_encodeFile (short _ (List.mem_map_of_mem hf))
  have no_error : Records.string? (⟨2, .varint features⟩ :: given 15 (files.map encodeFile)) 1 =
      none := by
    simp [Records.string?, Records.texts, Records.chunks_varint, Records.chunks_given]
  have number : Records.number? (⟨2, .varint features⟩ :: given 15 (files.map encodeFile)) 2 =
      some features := by
    have first : Record.varint? 2 ⟨2, .varint features⟩ = some features := rfl
    rw [Records.number?, List.filterMap_cons_some first, Records.varints_given]
    rfl
  rw [readResponse, spells.records?, Option.map_some, no_error, number, Option.getD_some,
    Records.messages, Records.chunks_varint, Records.chunks_given, if_pos rfl, List.map_map,
    List.map_map, contents]

theorem readResponse_encodeResponse {x : Response} (h : Fits x) :
    readResponse (encodeResponse x) = some x := by
  cases x with
  | failed message => exact readResponse_failed h.1
  | generated features files => exact readResponse_generated (h.2 features files rfl) h.1

/-! ## Requests -/

/-- A file that declares nothing. -/
def DeclaresNothing (d : FileDescriptor) : Prop :=
  d = { name := d.name, package := d.package, dependencies := d.dependencies }

/-- Writes a file that declares nothing. -/
def writeFile (d : FileDescriptor) : Bytes :=
  bytesField 1 (textBytes d.name) ++ bytesField 2 (textBytes d.package)
    ++ (d.dependencies.map textBytes).flatMap (bytesField 3)

/-- Writes a request for files that declare nothing. -/
def writeRequest (r : Request) : Bytes :=
  (r.filesToGenerate.map textBytes).flatMap (bytesField 1) ++ bytesField 2 (textBytes r.parameter)
    ++ (r.files.map writeFile).flatMap (bytesField 15)

theorem spells_writeFile {d : FileDescriptor} (h : (writeFile d).length < maxLength) :
    Spells (writeFile d) (given 1 [textBytes d.name] ++ given 2 [textBytes d.package]
      ++ given 3 (d.dependencies.map textBytes)) := by
  rw [writeFile, List.length_append, List.length_append] at h
  have name := length_le_bytesField 1 (textBytes d.name)
  have package := length_le_bytesField 2 (textBytes d.package)
  have dependencies : ∀ bs ∈ d.dependencies.map textBytes, bs.length < maxLength :=
    length_lt_of_flatMap 3 (by omega)
  exact ((Spells.bytesField (by decide) (by decide) (by omega)).append
    (Spells.bytesField (by decide) (by decide) (by omega))).append
      (Spells.flatMap_bytesField (by decide) (by decide) dependencies)

theorem spells_writeRequest {r : Request} (h : (writeRequest r).length < maxLength) :
    Spells (writeRequest r) (given 1 (r.filesToGenerate.map textBytes)
      ++ given 2 [textBytes r.parameter] ++ given 15 (r.files.map writeFile)) := by
  rw [writeRequest, List.length_append, List.length_append] at h
  have wanted : ∀ bs ∈ r.filesToGenerate.map textBytes, bs.length < maxLength :=
    length_lt_of_flatMap 1 (by omega)
  have parameter := length_le_bytesField 2 (textBytes r.parameter)
  have files : ∀ bs ∈ r.files.map writeFile, bs.length < maxLength :=
    length_lt_of_flatMap 15 (by omega)
  exact ((Spells.flatMap_bytesField (by decide) (by decide) wanted).append
    (Spells.bytesField (by decide) (by decide) (by omega))).append
      (Spells.flatMap_bytesField (by decide) (by decide) files)

namespace Shape

theorem accepts_of_spells {bs : Bytes} {rs : Records} (h : Spells bs rs) {depth : Nat} {s : Shape}
    (hrs : ∀ r ∈ rs, acceptsRecord (accepts depth) s r = true) :
    accepts (depth + 1) s bs = true := by
  rw [accepts, h.records?]
  exact List.all_eq_true.mpr hrs

theorem acceptsRecord_texts {accepts : Shape → Bytes → Bool} {s : Shape} {field : Nat}
    (h : s.content field = some .text) (ss : List String) :
    ∀ r ∈ given field (ss.map textBytes), acceptsRecord accepts s r = true := by
  rw [given, List.map_map, List.forall_mem_map]
  intro t _
  simp [acceptsRecord, h]

theorem acceptsRecord_messages {accepts : Shape → Bytes → Bool} {s s' : Shape} {field : Nat}
    (h : s.content field = some (.message s')) {chunks : List Bytes}
    (hchunks : ∀ bs ∈ chunks, accepts s' bs = true) :
    ∀ r ∈ given field chunks, acceptsRecord accepts s r = true := by
  rw [given, List.forall_mem_map]
  intro bs hbs
  simp [acceptsRecord, h, hchunks bs hbs]

theorem accepts_writeFile {d : FileDescriptor} (h : (writeFile d).length < maxLength)
    (depth : Nat) : accepts (depth + 1) file (writeFile d) = true := by
  refine accepts_of_spells (spells_writeFile h) ?_
  simp only [List.forall_mem_append]
  exact ⟨⟨acceptsRecord_texts rfl [d.name], acceptsRecord_texts rfl [d.package]⟩,
    acceptsRecord_texts rfl d.dependencies⟩

end Shape

theorem readSchemaFile_writeFile {d : FileDescriptor} (hd : DeclaresNothing d)
    (h : (writeFile d).length < maxLength) : readSchemaFile (recordsOf (writeFile d)) = d := by
  rw [recordsOf, (spells_writeFile h).records?, Option.getD_some, hd]
  simp [readSchemaFile, Records.string, Records.string?, Records.texts, Records.messages,
    Records.message, Records.chunks_nil, Records.chunks_append, Records.chunks_given]

theorem decodeRequest_writeRequest {r : Request} (hr : ∀ d ∈ r.files, DeclaresNothing d)
    (h : (writeRequest r).length < maxLength) : decodeRequest (writeRequest r) = some r := by
  have spells := spells_writeRequest h
  have short : ∀ bs ∈ r.files.map writeFile, bs.length < maxLength := by
    rw [writeRequest, List.length_append] at h
    exact length_lt_of_flatMap 15 (by omega)
  have accepted : Shape.accepts Shape.maxDepth .request (writeRequest r) = true := by
    refine Shape.accepts_of_spells spells ?_
    simp only [List.forall_mem_append]
    refine ⟨⟨Shape.acceptsRecord_texts rfl _, Shape.acceptsRecord_texts rfl [r.parameter]⟩, ?_⟩
    refine Shape.acceptsRecord_messages rfl (List.forall_mem_map.mpr fun d hd => ?_)
    exact Shape.accepts_writeFile (short _ (List.mem_map_of_mem hd)) _
  have files : r.files.map (readSchemaFile ∘ recordsOf ∘ writeFile) = r.files := by
    refine (List.map_congr_left fun d hd => ?_).trans r.files.map_id
    exact readSchemaFile_writeFile (hr d hd) (short _ (List.mem_map_of_mem hd))
  rw [decodeRequest, if_pos accepted, recordsOf, spells.records?, Option.getD_some]
  simp [Records.string, Records.string?, Records.texts, Records.messages, Records.chunks_append,
    Records.chunks_given, files]

/-- A caller that asks for files that declare nothing. -/
def importsCaller : Caller where
  sends r := (∀ d ∈ r.files, DeclaresNothing d) ∧ (writeRequest r).length < maxLength
  writeRequest := writeRequest
  receives := Fits
  readResponse := readResponse

theorem binary_agrees : Agree binary importsCaller where
  request _ h := decodeRequest_writeRequest h.1 h.2
  response _ h := readResponse_encodeResponse h

end Protolink.Wire
