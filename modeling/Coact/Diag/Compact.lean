import Coact.Diag.Logger
import Coact.Foundation.Cells

/-! `CompactHexPolicy` (`diag/log.hpp`). A character is a `char`, a buffer is the memory from
its first byte on, and a null buffer is `none`. -/
namespace Coact.Diag
open Foundation Function

abbrev Buffer := Cells Char

structure LogRenderResult where
  length : Nat
  handled : Bool
  truncated : Bool

namespace CompactHexPolicy

def kEncodedLength : Nat := 56
def kBufferSize : Nat := kEncodedLength + 1

def kHex : List Char :=
  ['0', '1', '2', '3', '4', '5', '6', '7', '8', '9', 'A', 'B', 'C', 'D', 'E', 'F']

/-- A buffer that is being filled, with `offset`. -/
structure Cursor where
  buffer : Buffer
  offset : Nat

/-- `buffer[offset++] = c`. -/
def Cursor.push (cursor : Cursor) (c : Char) : Cursor where
  buffer := update cursor.buffer cursor.offset c
  offset := cursor.offset + 1

/-- `kHex[(value >> shift) & 0xFU]`, with `remaining` digits to come after it. -/
def digit (value : UInt32) (remaining : Nat) : Char :=
  kHex.getD ((value >>> (UInt32.ofNat (remaining * 4))) &&& 0xF).toNat '?'

/-- The loop of `append_hex`. -/
def appendDigits (value : UInt32) : Nat → Cursor → Cursor
  | 0, cursor => cursor
  | remaining + 1, cursor => appendDigits value remaining (cursor.push (digit value remaining))

def appendHex (cursor : Cursor) (value : UInt32) (digits : Nat) : Cursor :=
  (appendDigits value digits cursor).push ':'

/-- The seven fields with their widths, in the order in which they are appended. -/
def fields (record : LogRecord) : List (UInt32 × Nat) :=
  [(record.counter, 8), (record.eventId.toUInt32, 4), (record.sourceId.toUInt32, 4),
    (record.arg0, 8), (record.arg1, 8), (record.arg2, 8), (record.arg3, 8)]

def render (record : LogRecord) (buffer : Option Buffer) (capacity : UInt16) :
    Option Buffer × LogRenderResult :=
  match buffer with
  | none => (none, ⟨0, true, true⟩)
  | some buffer =>
    if kBufferSize ≤ capacity.toNat then
      let cursor := (fields record).foldl (fun cursor field => appendHex cursor field.1 field.2)
        (Cursor.push ⟨buffer, 0⟩ '@')
      -- The final separator gives way to the newline.
      let lined := update cursor.buffer (cursor.offset - 1) '\n'
      (some (update lined cursor.offset '\x00'), ⟨cursor.offset, true, false⟩)
    else if 0 < capacity then (some (update buffer 0 '\x00'), ⟨0, true, true⟩)
    else (some buffer, ⟨0, true, true⟩)

/-! The reader of the fixed columns, as in the round-trip test. -/

def nibble (c : Char) : UInt32 :=
  if c ≤ '9' then c.val - '0'.val else c.val - 'A'.val + 10

/-- `value = (value << 4U) | nibble`. -/
def readDigit (value : UInt32) (c : Char) : UInt32 := (value <<< 4) ||| nibble c

def decodeHex (text : List Char) (digits : Nat) : UInt32 :=
  (text.take digits).foldl readDigit 0

def decode (text : List Char) : LogRecord where
  counter := decodeHex (text.drop 1) 8
  eventId := (decodeHex (text.drop 10) 4).toUInt16
  sourceId := (decodeHex (text.drop 15) 4).toUInt16
  arg0 := decodeHex (text.drop 20) 8
  arg1 := decodeHex (text.drop 29) 8
  arg2 := decodeHex (text.drop 38) 8
  arg3 := decodeHex (text.drop 47) 8

/-- A stream of lines, cut at every 56th character. -/
def decodeStream (stream : List Char) : List LogRecord :=
  (blocks kEncodedLength (stream.length / kEncodedLength) stream).map decode

/-! The text of a line. -/

def hexText (value : UInt32) : Nat → List Char
  | 0 => []
  | remaining + 1 => digit value remaining :: hexText value remaining

/-- The fields with a separator after each but the last. -/
def columns : List (UInt32 × Nat) → List Char
  | [] => []
  | [(value, digits)] => hexText value digits
  | (value, digits) :: rest => hexText value digits ++ ':' :: columns rest

theorem columns_cons (value : UInt32) (digits : Nat) (next : UInt32 × Nat)
    (rest : List (UInt32 × Nat)) : columns ((value, digits) :: next :: rest) =
      hexText value digits ++ ':' :: columns (next :: rest) := rfl

def line (record : LogRecord) : List Char := '@' :: columns (fields record) ++ ['\n']

section
variable {value : UInt32} {n : Nat}

@[simp] theorem length_hexText (value : UInt32) (n : Nat) : (hexText value n).length = n := by
  induction n with
  | zero => rfl
  | succ _ ih => rw [hexText, List.length_cons, ih]

theorem length_line (record : LogRecord) : (line record).length = kEncodedLength := by
  simp [line, columns, fields, length_hexText, kEncodedLength]

theorem nibble_kHex : ∀ d < 16, (nibble (kHex.getD d '?')).toNat = d := by decide

theorem toNat_nibble_digit (few : n < 8) :
    (nibble (digit value n)).toNat = value.toNat / 16 ^ n % 16 := by
  have shift : (UInt32.ofNat (n * 4)).toNat % 32 = n * 4 := by
    rw [UInt32.toNat_ofNat']
    omega
  have index : ((value >>> (UInt32.ofNat (n * 4))) &&& 0xF).toNat = value.toNat / 16 ^ n % 16 := by
    rw [UInt32.toNat_and, UInt32.toNat_shiftRight, shift, Nat.shiftRight_eq_div_pow, Nat.mul_comm,
      Nat.pow_mul]
    exact Nat.and_two_pow_sub_one_eq_mod _ 4
  rw [digit, index]
  exact nibble_kHex _ (Nat.mod_lt _ (by decide))

theorem toNat_readDigit (room : acc.toNat < 2 ^ 28) (small : (nibble c).toNat < 16) :
    (readDigit acc c).toNat = acc.toNat * 16 + (nibble c).toNat := by
  have shifted : (acc <<< 4).toNat = acc.toNat <<< 4 := by
    apply Nat.mod_eq_of_lt
    rw [Nat.shiftLeft_eq]
    exact Nat.mul_lt_mul_of_pos_right room (by decide)
  rw [readDigit, UInt32.toNat_or, shifted, ← Nat.shiftLeft_add_eq_or_of_lt small, Nat.shiftLeft_eq]

/-- The reader has the digits above position `n` in `acc` and reads the rest. -/
theorem foldl_hexText (few : n ≤ 8) (above : acc.toNat = value.toNat / 16 ^ n) :
    (hexText value n).foldl readDigit acc = value := by
  induction n generalizing acc with
  | zero =>
    rw [Nat.pow_zero, Nat.div_one] at above
    exact UInt32.toNat_inj.mp above
  | succ n ih =>
    have bound := value.toNat_lt
    have digits : (nibble (digit value n)).toNat = value.toNat / 16 ^ n % 16 :=
      toNat_nibble_digit few
    have split : value.toNat / 16 ^ (n + 1) = value.toNat / 16 ^ n / 16 := by
      rw [Nat.pow_succ, Nat.div_div_eq_div_mul]
    have least : value.toNat / 16 ^ n ≤ value.toNat := Nat.div_le_self _ _
    apply ih (Nat.le_of_succ_le few)
    rw [toNat_readDigit (by omega) (by omega)]
    omega

theorem decodeHex_hexText (few : n ≤ 8) (fits : value.toNat < 16 ^ n) (rest : List Char) :
    decodeHex (hexText value n ++ rest) n = value := by
  rw [decodeHex, List.take_left' (length_hexText value n)]
  apply foldl_hexText few
  rw [Nat.div_eq_of_lt fits]
  rfl

theorem decodeHex_word (value : UInt32) (rest : List Char) :
    decodeHex (hexText value 8 ++ rest) 8 = value :=
  decodeHex_hexText le_rfl value.toNat_lt rest

theorem decodeHex_half (value : UInt16) (rest : List Char) :
    (decodeHex (hexText value.toUInt32 4 ++ rest) 4).toUInt16 = value := by
  have fits : value.toUInt32.toNat < 16 ^ 4 := by
    exact value.toNat_lt
  rw [decodeHex_hexText (by decide) fits]
  exact UInt16.toUInt16_toUInt32 value

theorem drop_hexText (behind : n ≤ k) : (hexText value n).drop k = [] :=
  List.drop_eq_nil_of_le (le_of_eq_of_le (length_hexText value n) behind)

theorem decode_line (record : LogRecord) : decode (line record) = record := by
  simp [decode, line, columns, fields, List.drop_append, drop_hexText, decodeHex_word,
    decodeHex_half]

theorem decodeStream_lines (records : List LogRecord) :
    decodeStream (records.flatMap line) = records := by
  have count : (records.flatMap line).length / kEncodedLength = records.length := by
    rw [length_flatMap_block length_line]
    exact Nat.mul_div_cancel _ (by decide)
  rw [decodeStream, count, blocks_flatMap length_line, List.map_map]
  exact (List.map_congr_left fun record _ => decode_line record).trans (List.map_id records)

end

section

/-- The cursor after a text has been appended to an empty buffer. -/
def filled (buffer : Buffer) (text : List Char) : Cursor := ⟨buffer.store 0 text, text.length⟩

variable {buffer : Buffer}

theorem push_filled (c : Char) : (filled buffer text).push c = filled buffer (text ++ [c]) := by
  simp [filled, Cursor.push, Cells.store_append, Cells.store]

theorem appendDigits_filled (value : UInt32) (n : Nat) :
    appendDigits value n (filled buffer text) = filled buffer (text ++ hexText value n) := by
  induction n generalizing text with
  | zero => rw [appendDigits, hexText, List.append_nil]
  | succ _ ih => rw [appendDigits, push_filled, ih, hexText, List.append_assoc, List.singleton_append]

theorem appendHex_filled (value : UInt32) (n : Nat) :
    appendHex (filled buffer text) value n =
      filled buffer (text ++ (hexText value n ++ [':'])) := by
  rw [appendHex, appendDigits_filled, push_filled, List.append_assoc]

theorem foldl_appendHex (some_field : values ≠ []) :
    values.foldl (fun cursor field => appendHex cursor field.1 field.2) (filled buffer text) =
      filled buffer (text ++ columns values ++ [':']) := by
  induction values generalizing text with
  | nil => exact absurd rfl some_field
  | cons field rest ih =>
    rw [List.foldl_cons, appendHex_filled]
    cases rest with
    | nil => rw [List.foldl_nil, columns, List.append_assoc]
    | cons =>
      rw [ih (List.cons_ne_nil _ _), columns_cons]
      simp

/-- The newline replaces the final separator, and the zero comes after it. -/
theorem terminated (text : List Char) :
    update (update (filled buffer (text ++ [':'])).buffer
        ((filled buffer (text ++ [':'])).offset - 1) '\n')
        (filled buffer (text ++ [':'])).offset '\x00' =
      buffer.store 0 (text ++ ['\n'] ++ ['\x00']) := by
  have length : (text ++ [':']).length = 0 + (text ++ ['\n']).length := by simp
  have separator : (text ++ [':']).length - 1 = 0 + text.length := by simp
  simp only [filled, separator]
  rw [Cells.update_store, length, Cells.store_append _ _ (text ++ ['\n'])]
  rfl

/-- A buffer that is large enough gets the line and a final zero, and nothing else. -/
theorem render_fits (record : LogRecord) (buffer : Buffer) {capacity : UInt16}
    (room : kBufferSize ≤ capacity.toNat) :
    render record (some buffer) capacity =
      (some (buffer.store 0 (line record ++ ['\x00'])), ⟨kEncodedLength, true, false⟩) := by
  have start : Cursor.push ⟨buffer, 0⟩ '@' = filled buffer ['@'] :=
    @push_filled buffer [] '@'
  have appended : (fields record).foldl (fun cursor field => appendHex cursor field.1 field.2)
      (filled buffer ['@']) = filled buffer ('@' :: columns (fields record) ++ [':']) :=
    foldl_appendHex (List.cons_ne_nil _ _)
  have length : (filled buffer ('@' :: columns (fields record) ++ [':'])).offset =
      kEncodedLength := by
    rfl
  simp only [render, if_pos room, start, appended, terminated]
  rw [length, line]

theorem render_small (record : LogRecord) (buffer : Buffer) {capacity : UInt16}
    (small : capacity.toNat < kBufferSize) :
    render record (some buffer) capacity =
      (some (if 0 < capacity then update buffer 0 '\x00' else buffer), ⟨0, true, true⟩) := by
  rw [render, if_neg (Nat.not_le_of_gt small)]
  split <;> rfl

end
end CompactHexPolicy
open CompactHexPolicy

/-- Every record is rendered as its line of 56 characters and a zero into any buffer with room
for both, and nothing else of the buffer changes; the line reads back as the record, two
records never share a line, and a stream of lines reads back as its records. Without room, or
without a buffer, there is no line, and at most the first character becomes a zero. -/
theorem compact_lines_lossless (record : LogRecord) (buffer : Buffer) (capacity : UInt16) :
    (57 ≤ capacity → ∃ written : Buffer,
      render record (some buffer) capacity = (some written, ⟨56, true, false⟩) ∧
      written.read 57 = line record ++ ['\x00'] ∧ (∀ i, 57 ≤ i → written i = buffer i) ∧
      decode (written.read 56) = record) ∧
    (∀ other, line other = line record → other = record) ∧
    (∀ records, decodeStream (records.flatMap line) = records) ∧
    (capacity < 57 → ∃ written : Buffer,
      render record (some buffer) capacity = (some written, ⟨0, true, true⟩) ∧
      (written 0 = '\x00' ∨ written 0 = buffer 0) ∧ ∀ i, 0 < i → written i = buffer i) ∧
    render record none capacity = (none, ⟨0, true, true⟩) := by
  refine ⟨?_, ?_, decodeStream_lines, ?_, rfl⟩
  · intro room
    have full : (line record ++ ['\x00']).length = 57 := by
      rfl
    refine ⟨_, render_fits record buffer (UInt16.le_iff_toNat_le.mp room), ?_, ?_, ?_⟩
    · have whole := buffer.read_store (line record ++ ['\x00']) []
      rwa [List.append_nil, full] at whole
    · intro i outside
      apply Cells.store_outside
      omega
    · have lined := buffer.read_store (line record) ['\x00']
      exact (congrArg decode lined).trans (decode_line record)
  · intro other same
    rw [← decode_line other, same, decode_line]
  · intro small
    refine ⟨_, render_small record buffer (UInt16.lt_iff_toNat_lt.mp small), ?_, ?_⟩
    · split
      · exact .inl (update_self ..)
      · exact .inr rfl
    · intro i later
      split
      · exact update_of_ne later.ne' ..
      · rfl

/-- The record of the golden test, in a buffer of exactly the right size. -/
theorem compact_lines_lossless_golden :
    line ⟨0x12345678, 0xABCD, 0x0123, 0, 1, 0x80000000, 0xFFFFFFFF⟩ =
      "@12345678:ABCD:0123:00000000:00000001:80000000:FFFFFFFF\n".toList ∧
    ∃ written : Buffer,
      render ⟨0x12345678, 0xABCD, 0x0123, 0, 1, 0x80000000, 0xFFFFFFFF⟩ (some fun _ => 'X') 57 =
        (some written, ⟨56, true, false⟩) ∧ written 57 = 'X' := by
  obtain ⟨written, rendered, -, kept, -⟩ := (compact_lines_lossless
    ⟨0x12345678, 0xABCD, 0x0123, 0, 1, 0x80000000, 0xFFFFFFFF⟩ (fun _ => 'X') 57).1 (by decide)
  exact ⟨by decide +kernel, written, rendered, kept 57 le_rfl⟩

end Coact.Diag
