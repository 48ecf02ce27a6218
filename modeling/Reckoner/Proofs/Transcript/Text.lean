import Reckoner.Transcript

/-!
# Transcript.Text — the lines of a text, as characters and as bytes

A text is cut at its line feeds, and an empty piece behind the last one is no line (`textLines`).  In UTF-8 a line feed
is a byte that no other character has in it, so the bytes of a text fall apart into the bytes of its lines
(`lines_encode`), and each of these is read as the line it was (`decode_encode`).
-/
namespace Reckoner
namespace Transcript

/-- **The lines of a text**: what stands between its line feeds, without an empty piece at the end. -/
def textLines (text : List Char) : List (List Char) :=
  if (text.splitOn '\n').getLast? = some [] then (text.splitOn '\n').dropLast else text.splitOn '\n'

/-- The bytes of a text in UTF-8. -/
def bytes (text : String) : List UInt8 := text.toUTF8.data.toList

def encode (text : List Char) : List UInt8 := text.flatMap String.utf8EncodeChar

theorem utf8Encode_eq (text : List Char) : text.utf8Encode = (encode text).toByteArray := rfl

theorem bytes_eq_encode (text : String) : bytes text = encode text.toList := by
  show text.toByteArray.data.toList = _
  rw [← String.utf8Encode_toList, utf8Encode_eq, List.toList_data_toByteArray]

theorem encode_append (text text' : List Char) : encode (text ++ text') = encode text ++ encode text' :=
  List.flatMap_append

/-- **What was encoded is read again.** -/
theorem decode_encode (text : List Char) : decode (encode text) = some (String.ofList text) := by
  have hbytes : (⟨(encode text).toArray⟩ : ByteArray) = text.utf8Encode := by
    apply ByteArray.ext
    rw [utf8Encode_eq]
    simp
  unfold decode String.fromUTF8?
  rw [hbytes, dif_pos ByteArray.isValidUTF8_utf8Encode]
  rfl

/-! ## Line feeds -/

theorem lineFeed_ne_or (x : UInt8) {y : UInt8} (hy : 128 ≤ y.toNat) : lineFeed ≠ x ||| y := by
  intro h
  have hle : y.toNat ≤ (x ||| y).toNat := by
    rw [UInt8.toNat_or]
    exact Nat.right_le_or
  rw [← h] at hle
  exact absurd (Nat.le_trans hy hle) (by decide)

/-- **No other character has a line feed among its bytes.** -/
theorem lineFeed_not_mem_utf8EncodeChar {c : Char} (hc : c ≠ '\n') : lineFeed ∉ String.utf8EncodeChar c := by
  obtain h | h | h | h := c.utf8Size_eq
  · rw [String.utf8EncodeChar_eq_singleton h, List.mem_singleton]
    intro hbyte
    have hle : c.val.toNat ≤ 127 := Char.utf8Size_eq_one_iff.1 h
    have hvalue : c.val.toNat = 10 := by
      have hmod : (10 : Nat) = c.val.toNat % 256 := congrArg UInt8.toNat hbyte
      omega
    exact hc (Char.ext (UInt32.toNat_inj.1 hvalue))
  · simp [String.utf8EncodeChar_eq_cons_cons h, lineFeed_ne_or]
  · simp [String.utf8EncodeChar_eq_cons_cons_cons h, lineFeed_ne_or]
  · simp [String.utf8EncodeChar_eq_cons_cons_cons_cons h, lineFeed_ne_or]

/-! ## Lines -/

/-- More in front of the first line. -/
def prepend {α : Type} (front : List α) : List (List α) → List (List α)
  | [] => [front]
  | line :: more => (front ++ line) :: more

theorem prepend_prepend {α : Type} (front front' : List α) (ls : List (List α)) :
    prepend front (prepend front' ls) = prepend (front ++ front') ls := by
  cases ls <;> simp [prepend]

theorem lines_cons_of_ne {b : UInt8} (hb : b ≠ lineFeed) (rest : List UInt8) :
    lines (b :: rest) = prepend [b] (lines rest) := by
  rw [lines, if_neg hb]
  cases lines rest <;> rfl

theorem lines_append_of_not_mem {front : List UInt8} (hne : front ≠ []) (h : lineFeed ∉ front) (rest : List UInt8) :
    lines (front ++ rest) = prepend front (lines rest) := by
  induction front with
  | nil => exact absurd rfl hne
  | cons b front ih =>
    have hb : b ≠ lineFeed := fun hb => h (by simp [hb])
    have hfront : lineFeed ∉ front := fun hmem => h (List.mem_cons_of_mem b hmem)
    rw [List.cons_append, lines_cons_of_ne hb]
    by_cases hnil : front = []
    · rw [hnil, List.nil_append]
    · rw [ih hnil hfront, prepend_prepend]
      rfl

theorem textLines_nil : textLines [] = [] := by simp [textLines]

theorem textLines_lineFeed (text : List Char) : textLines ('\n' :: text) = [] :: textLines text := by
  obtain ⟨piece, pieces, hpieces⟩ := List.exists_cons_of_ne_nil (List.splitOn_ne_nil '\n' text)
  unfold textLines
  rw [List.splitOn_cons_eq_if_modifyHead, hpieces]
  simp only [beq_self_eq_true, if_true, List.getLast?_cons_cons, List.dropLast_cons_cons]
  split <;> rfl

theorem textLines_cons {c : Char} (hc : c ≠ '\n') (text : List Char) :
    textLines (c :: text) = prepend [c] (textLines text) := by
  obtain ⟨piece, pieces, hpieces⟩ := List.exists_cons_of_ne_nil (List.splitOn_ne_nil '\n' text)
  unfold textLines
  rw [List.splitOn_cons_eq_if_modifyHead, hpieces]
  cases pieces with
  | nil => by_cases hpiece : piece = [] <;> simp [hc, hpiece, prepend]
  | cons piece' pieces =>
    by_cases hlast : (piece' :: pieces).getLast? = some []
    · simp [hc, hlast, prepend]
    · simp [hc, hlast, prepend]

/-- **The bytes of a text fall apart into the bytes of its lines.** -/
theorem lines_encode (text : List Char) : lines (encode text) = (textLines text).map encode := by
  induction text with
  | nil =>
    rw [textLines_nil]
    rfl
  | cons c text ih =>
    have hencode : encode (c :: text) = String.utf8EncodeChar c ++ encode text := List.flatMap_cons
    rw [hencode]
    by_cases hc : c = '\n'
    · have hbyte : String.utf8EncodeChar '\n' = [lineFeed] := by decide
      rw [hc, hbyte, textLines_lineFeed, List.singleton_append, lines_lineFeed_cons, ih]
      rfl
    · rw [lines_append_of_not_mem String.utf8EncodeChar_ne_nil (lineFeed_not_mem_utf8EncodeChar hc),
        textLines_cons hc, ih]
      cases textLines text with
      | nil => simp [prepend, encode]
      | cons line more => simp [prepend, encode]

end Transcript
end Reckoner
