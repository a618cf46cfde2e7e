import Mathlib.Tactic.Ring
import Ordexus.Library.Checked

/-!
# The Borsh byte format

Integers are little endian, byte strings carry their length in front, and fields
follow each other without separators. A reader takes a value from the front of a
byte string; `Reads` says that it takes exactly what a writer has put there, and
its rules are used to read back a record field by field.
-/

namespace Borsh

open Checked List

abbrev ByteString := List UInt8

/-- The `width` low bytes of a number, least significant first. -/
def littleEndian : ℕ → ℕ → ByteString
  | 0, _ => []
  | width + 1, value => UInt8.ofNat value :: littleEndian width (value / 256)

def ofLittleEndian : ByteString → ℕ
  | [] => 0
  | byte :: bytes => byte.toNat + 256 * ofLittleEndian bytes

/-- The `width` low bytes of a number, most significant first. -/
def bigEndian (width value : ℕ) : ByteString :=
  (littleEndian width value).reverse

def ofBigEndian (bytes : ByteString) : ℕ :=
  ofLittleEndian bytes.reverse

@[simp] theorem littleEndian_length (width value : ℕ) :
    (littleEndian width value).length = width := by
  induction width generalizing value with
  | zero => rfl
  | succ width ih => simp [littleEndian, ih]

@[simp] theorem littleEndian_succ_ne_nil (width value : ℕ) :
    littleEndian (width + 1) value ≠ [] := by
  simp [littleEndian]

@[simp] theorem bigEndian_length (width value : ℕ) : (bigEndian width value).length = width := by
  simp [bigEndian]

theorem ofLittleEndian_littleEndian {width value : ℕ} (hvalue : value < 256 ^ width) :
    ofLittleEndian (littleEndian width value) = value := by
  induction width generalizing value with
  | zero =>
    rw [pow_zero, Nat.lt_one_iff] at hvalue
    rw [hvalue]
    rfl
  | succ width ih =>
    have hrest : value / 256 < 256 ^ width := by
      omega
    simp only [littleEndian, ofLittleEndian, ih hrest, UInt8.toNat_ofNat']
    omega

theorem ofBigEndian_bigEndian {width value : ℕ} (hvalue : value < 256 ^ width) :
    ofBigEndian (bigEndian width value) = value := by
  rw [ofBigEndian, bigEndian, reverse_reverse, ofLittleEndian_littleEndian hvalue]

theorem ofLittleEndian_lt (bytes : ByteString) : ofLittleEndian bytes < 256 ^ bytes.length := by
  induction bytes with
  | nil => simp [ofLittleEndian]
  | cons byte bytes ih =>
    have hbyte := byte.toNat_lt
    simp only [ofLittleEndian, length_cons, pow_succ]
    omega

/-- Digits of one length are determined by their value. -/
theorem ofLittleEndian_inj {first second : ByteString} (hlength : first.length = second.length)
    (h : ofLittleEndian first = ofLittleEndian second) : first = second := by
  induction first generalizing second with
  | nil => exact (length_eq_zero_iff.mp hlength.symm).symm
  | cons byte first ih =>
    cases second with
    | nil => simp at hlength
    | cons other second =>
      simp only [ofLittleEndian] at h
      have hbyte := byte.toNat_lt
      have hother := other.toNat_lt
      have hsame : byte = other := UInt8.toNat_inj.mp (by omega)
      rw [hsame, ih (by simpa using hlength) (by omega)]

theorem ofBigEndian_inj {first second : ByteString} (hlength : first.length = second.length)
    (h : ofBigEndian first = ofBigEndian second) : first = second :=
  reverse_injective (ofLittleEndian_inj (by simpa using hlength) h)

/-- A continuation byte of a multi-byte rune. -/
def isContinuation (byte : UInt8) : Bool :=
  0x80 ≤ byte && byte ≤ 0xBF

def isThreeByteStart (first second : UInt8) : Bool :=
  (first = 0xE0 && 0xA0 ≤ second && second ≤ 0xBF) ||
    (0xE1 ≤ first && first ≤ 0xEF && first ≠ 0xED && isContinuation second) ||
    (first = 0xED && 0x80 ≤ second && second ≤ 0x9F)

def isFourByteStart (first second : UInt8) : Bool :=
  (first = 0xF0 && 0x90 ≤ second && second ≤ 0xBF) ||
    (0xF1 ≤ first && first ≤ 0xF3 && isContinuation second) ||
    (first = 0xF4 && 0x80 ≤ second && second ≤ 0x8F)

/-- Is a byte string the UTF-8 encoding of a text? -/
def validUTF8 : ByteString → Bool
  | [] => true
  | [first] => first < 0x80
  | first :: second :: rest =>
    if first < 0x80 then validUTF8 (second :: rest)
    else if 0xC2 ≤ first && first ≤ 0xDF && isContinuation second then validUTF8 rest
    else
      match rest with
      | [] => false
      | third :: rest =>
        if isThreeByteStart first second && isContinuation third then validUTF8 rest
        else
          match rest with
          | [] => false
          | fourth :: rest =>
            isFourByteStart first second && isContinuation third && isContinuation fourth &&
              validUTF8 rest

/-! ### Writers -/

def writeBytes (limit : ℕ) (value : ByteString) : Except String ByteString := do
  let length := value.length
  failIf (limit < length) s!"borsh: invalid length: bytes length {length} exceeds {limit}"
  pure (littleEndian 4 length ++ value)

def writeString (limit : ℕ) (value : ByteString) : Except String ByteString := do
  failIf (validUTF8 value = false) "borsh: invalid data: invalid utf8 string"
  writeBytes limit value

/-! ### Readers -/

/-- A reader takes a value from the front of a byte string and leaves the rest. -/
abbrev Reader (α : Type) := StateT ByteString (Except String) α

variable {α β : Type}

theorem Reader.bind_apply (reader : Reader α) (next : α → Reader β) (data : ByteString) :
    (reader >>= next) data = reader data >>= fun taken => next taken.1 taken.2 := rfl

theorem Reader.pure_apply (value : α) (data : ByteString) :
    (pure value : Reader α) data = .ok (value, data) := rfl

/-- An error is reported with the field that was being read. -/
def Reader.withContext (context : String) (reader : Reader α) : Reader α := fun data =>
  Checked.withContext context (reader data)

/-- The error of a read that runs out of input. -/
def endOfInput (data : ByteString) : String :=
  if data = [] then "EOF" else "unexpected EOF"

def readUint (width : ℕ) : Reader ℕ := fun data => do
  let bits := 8 * width
  failIf (data.length < width) (s!"borsh: invalid data: read u{bits}: " ++ endOfInput data)
  pure (ofLittleEndian (data.take width), data.drop width)

def readFixedBytes (limit length : ℕ) : Reader ByteString := fun data => do
  let remaining := data.length
  failIf (limit < length) s!"borsh: invalid length: fixed bytes length {length} exceeds {limit}"
  failIf (remaining < length)
    s!"borsh: invalid length: fixed bytes length {length} exceeds remaining {remaining}"
  pure (data.take length, data.drop length)

def readBytes (limit : ℕ) : Reader ByteString := do
  let length ← readUint 4
  fun data => do
    let remaining := data.length
    failIf (limit < length) s!"borsh: invalid length: bytes length {length} exceeds {limit}"
    failIf (remaining < length)
      s!"borsh: invalid length: bytes length {length} exceeds remaining {remaining}"
    pure (data.take length, data.drop length)

def readString (limit : ℕ) : Reader ByteString := do
  let value ← readBytes limit
  fun data => do
    failIf (validUTF8 value = false) "borsh: invalid data: invalid utf8 string"
    pure (value, data)

/-- An unsigned number; the error names the field. -/
def readField (width : ℕ) (context : String) : Reader ℕ :=
  (readUint width).withContext context

/-- A key or digest of 32 bytes as the number its bytes spell. -/
def readKey (limit : ℕ) (context : String) : Reader ℕ := do
  let value ← (readFixedBytes limit 32).withContext context
  pure (ofBigEndian value)

/-- `count` values one after the other; the error names the value that failed. -/
def readMany (context : ℕ → String) (reader : Reader α) : ℕ → ℕ → Reader (List α)
  | _, 0 => pure []
  | index, count + 1 => do
    let value ← reader.withContext (context index)
    let values ← readMany context reader (index + 1) count
    pure (value :: values)

/-- Fields that older writers have left out: stop with `value` at the end of the input. -/
def unlessEnd (value : α) (reader : Reader α) : Reader α := fun data =>
  if data = [] then .ok (value, []) else reader data

def ensureEOF : Reader Unit := fun data => do
  let remaining := data.length
  failIf (data ≠ []) s!"borsh: invalid data: {remaining} trailing bytes"
  pure ((), data)

/-- A test between two fields. -/
def require (bad : Prop) [Decidable bad] (message : String) : Reader Unit := fun data => do
  failIf bad message
  pure ((), data)

/-- A check of what has been read so far. -/
def check (test : Except String Unit) : Reader Unit := fun data => do
  test
  pure ((), data)

/-- A truth value is the byte zero or one. -/
def readBool (context : String) : Reader Bool := do
  let value ← readField 1 context
  require (1 < value) (context ++ s!": borsh: invalid bool: value {value}")
  pure (value = 1)

def boolByte (value : Bool) : ByteString :=
  [if value then 1 else 0]

/-- The signed number of a 64-bit pattern. -/
def toInt64 (value : ℕ) : ℤ :=
  if value < 2 ^ 63 then value else value - 2 ^ 64

/-- The 64-bit pattern of a signed number. -/
def ofInt64 (value : ℤ) : ℕ :=
  (value % 2 ^ 64).toNat

/-- A reader that must use up its input. -/
def readAll (reader : Reader α) (context : String) (data : ByteString) : Except String α := do
  let (value, rest) ← reader data
  let _ ← ensureEOF.withContext context rest
  pure value

/-! ### Reading back what was written -/

/-- The reader takes exactly `bytes` from the front of any input and makes `value` of it. -/
def Reads (reader : Reader α) (bytes : ByteString) (value : α) : Prop :=
  ∀ rest, reader (bytes ++ rest) = .ok (value, rest)

namespace Reads

variable {reader : Reader α} {written more : ByteString} {value : α} {other : β}

theorem pure (value : α) : Reads (Pure.pure value) [] value :=
  fun _ => rfl

theorem bind {next : α → Reader β} (hfirst : Reads reader written value)
    (hnext : Reads (next value) more other) : Reads (reader >>= next) (written ++ more) other := by
  intro rest
  rw [Reader.bind_apply, append_assoc, hfirst (more ++ rest)]
  exact hnext rest

theorem withContext (context : String) (h : Reads reader written value) :
    Reads (reader.withContext context) written value := by
  intro rest
  rw [Reader.withContext, h rest]
  rfl

theorem unlessEnd {early : α} (h : Reads reader written value) (hne : written ≠ []) :
    Reads (Borsh.unlessEnd early reader) written value := by
  intro rest
  rw [Borsh.unlessEnd, if_neg (by simp [hne])]
  exact h rest

theorem uint {width number : ℕ} (hnumber : number < 256 ^ width) :
    Reads (readUint width) (littleEndian width number) number := by
  intro rest
  have hlength := littleEndian_length width number
  have hlong : ¬(littleEndian width number ++ rest).length < width := by
    rw [length_append]
    omega
  have htake : (littleEndian width number ++ rest).take width = littleEndian width number :=
    take_left' hlength
  have hdrop : (littleEndian width number ++ rest).drop width = rest := drop_left' hlength
  simp only [readUint, failIf_of_not hlong, htake, hdrop, ofLittleEndian_littleEndian hnumber]
  rfl

theorem fixedBytes {limit : ℕ} (hlimit : written.length ≤ limit) :
    Reads (readFixedBytes limit written.length) written written := by
  intro rest
  have hlong : ¬(written ++ rest).length < written.length := by simp
  simp only [readFixedBytes, failIf_of_not (Nat.not_lt.mpr hlimit), failIf_of_not hlong,
    take_left, drop_left]
  rfl

theorem field {width number : ℕ} (context : String) (hnumber : number < 256 ^ width) :
    Reads (readField width context) (littleEndian width number) number :=
  (uint hnumber).withContext context

theorem key {limit number : ℕ} (context : String) (hlimit : 32 ≤ limit)
    (hnumber : number < 256 ^ 32) : Reads (readKey limit context) (bigEndian 32 number) number := by
  have hbytes : Reads (readFixedBytes limit 32) (bigEndian 32 number) (bigEndian 32 number) := by
    have hfixed := @fixedBytes (bigEndian 32 number) limit (by rwa [bigEndian_length])
    rwa [bigEndian_length] at hfixed
  have hkey : Reads (readKey limit context) (bigEndian 32 number ++ [])
      (ofBigEndian (bigEndian 32 number)) := (hbytes.withContext context).bind (pure _)
  rwa [ofBigEndian_bigEndian hnumber] at hkey

theorem bytes {limit : ℕ} {content : ByteString} (hlimit : limit < 256 ^ 4)
    (hwritten : writeBytes limit content = .ok written) :
    Reads (readBytes limit) written content := by
  simp only [writeBytes, eq_ok] at hwritten
  obtain ⟨hshort, rfl⟩ := hwritten
  refine bind (uint (by omega)) fun rest => ?_
  have hlong : ¬(content ++ rest).length < content.length := by simp
  simp only [failIf_of_not hshort, failIf_of_not hlong, take_left, drop_left]
  rfl

theorem string {limit : ℕ} {content : ByteString} (hlimit : limit < 256 ^ 4)
    (hwritten : writeString limit content = .ok written) :
    Reads (readString limit) written content := by
  simp only [writeString, eq_ok] at hwritten
  obtain ⟨hvalid, hwritten⟩ := hwritten
  have h : Reads (readString limit) (written ++ []) content := by
    refine bind (.bytes hlimit hwritten) fun rest => ?_
    simp only [failIf_of_not hvalid]
    rfl
  rwa [append_nil] at h

theorem many {context : ℕ → String} {encode : α → ByteString} {values : List α} (index : ℕ)
    (h : ∀ value ∈ values, Reads reader (encode value) value) :
    Reads (readMany context reader index values.length) (values.flatMap encode) values := by
  induction values generalizing index with
  | nil => exact pure []
  | cons value values ih =>
    have hhead := (h value mem_cons_self).withContext (context index)
    have htail := ih (index + 1) fun other hmem => h other (mem_cons_of_mem value hmem)
    have hall : Reads (readMany context reader index (values.length + 1))
        (encode value ++ (values.flatMap encode ++ [])) (value :: values) :=
      hhead.bind (htail.bind (pure (value :: values)))
    rwa [append_nil] at hall

theorem require {bad : Prop} [Decidable bad] {message : String} (h : ¬bad) :
    Reads (Borsh.require bad message) [] () := by
  intro rest
  simp only [Borsh.require, failIf_of_not h]
  rfl

theorem all (h : Reads reader written value) (context : String) :
    readAll reader context written = .ok value := by
  have hall := h []
  rw [append_nil] at hall
  rw [readAll, hall]
  rfl

end Reads

/-! ### What a reader may return -/

/-- Every value the reader returns has the property. -/
def Yields (reader : Reader α) (property : α → Prop) : Prop :=
  ∀ ⦃data value rest⦄, reader data = .ok (value, rest) → property value

namespace Yields

variable {reader : Reader α} {property : α → Prop} {goal : β → Prop} {value : α}

theorem any (reader : Reader α) : Yields reader fun _ => True :=
  fun _ _ _ _ => trivial

theorem pure (h : property value) : Yields (Pure.pure value) property := by
  rintro data _ rest ⟨⟩
  exact h

theorem bind {next : α → Reader β} (hfirst : Yields reader property)
    (hnext : ∀ value, property value → Yields (next value) goal) :
    Yields (reader >>= next) goal := by
  intro data other rest h
  rw [Reader.bind_apply, bind_eq_ok] at h
  obtain ⟨⟨value, middle⟩, hvalue, hother⟩ := h
  exact hnext value (hfirst hvalue) hother

theorem withContext (context : String) (h : Yields reader property) :
    Yields (reader.withContext context) property :=
  fun _ _ _ hread => h (withContext_eq_ok.mp hread)

theorem unlessEnd (hearly : property value) (h : Yields reader property) :
    Yields (Borsh.unlessEnd value reader) property := by
  intro data other rest hread
  unfold Borsh.unlessEnd at hread
  split at hread
  · obtain ⟨rfl, rfl⟩ := Prod.mk.inj (Except.ok.inj hread)
    exact hearly
  · exact h hread

theorem uint (width : ℕ) : Yields (readUint width) (· < 256 ^ width) := by
  intro data value rest hread
  simp only [readUint, eq_ok, Prod.mk.injEq] at hread
  obtain ⟨hlong, rfl, -⟩ := hread
  have hbound := ofLittleEndian_lt (data.take width)
  rwa [length_take, Nat.min_eq_left (Nat.le_of_not_lt hlong)] at hbound

theorem fixedBytes (limit length : ℕ) :
    Yields (readFixedBytes limit length) (·.length = length) := by
  intro data value rest hread
  simp only [readFixedBytes, eq_ok, Prod.mk.injEq] at hread
  obtain ⟨-, hlong, rfl, -⟩ := hread
  rw [length_take, Nat.min_eq_left (Nat.le_of_not_lt hlong)]

theorem field (width : ℕ) (context : String) : Yields (readField width context) (· < 256 ^ width) :=
  (uint width).withContext context

theorem key (limit : ℕ) (context : String) : Yields (readKey limit context) (· < 256 ^ 32) :=
  ((fixedBytes limit 32).withContext context).bind fun value hlength => by
    refine pure ?_
    have hbound := ofLittleEndian_lt value.reverse
    rwa [length_reverse, hlength] at hbound

theorem string (limit : ℕ) : Yields (readString limit) (validUTF8 · = true) := by
  intro data value rest hread
  rw [readString, Reader.bind_apply, bind_eq_ok] at hread
  obtain ⟨⟨content, middle⟩, -, hvalid⟩ := hread
  simp only [eq_ok, Prod.mk.injEq, Bool.not_eq_false] at hvalid
  obtain ⟨hvalid, rfl, -⟩ := hvalid
  exact hvalid

theorem many {context : ℕ → String} (h : Yields reader property) (index count : ℕ) :
    Yields (readMany context reader index count) (∀ value ∈ ·, property value) := by
  induction count generalizing index with
  | zero => exact pure (by simp)
  | succ count ih =>
    refine (h.withContext _).bind fun value hvalue => (ih (index + 1)).bind fun values hvalues => ?_
    exact pure (forall_mem_cons.mpr ⟨hvalue, hvalues⟩)

theorem require (bad : Prop) [Decidable bad] (message : String) :
    Yields (Borsh.require bad message) fun _ => ¬bad := by
  intro data value rest hread
  simp only [Borsh.require, eq_ok] at hread
  exact hread.1

theorem all {context : String} {data : ByteString} (h : Yields reader property)
    (hread : readAll reader context data = .ok value) : property value := by
  simp only [readAll, eq_ok] at hread
  obtain ⟨⟨_, rest⟩, hread, -, -, rfl⟩ := hread
  exact h hread

end Yields

end Borsh
