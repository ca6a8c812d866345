import Mathlib.Data.String.Basic

/-!
# The order of words by their bytes

Texts are compared by the code points of their characters.  Comparing the bytes of their
UTF-8 encodings gives the same order: a greater code point takes no fewer bytes, the first
byte tells how many there are, and the bytes behind it hold the code point six bits at a
time, the highest ones first.

* `utf8Bytes` – the bytes of a text;
* `lineFeed_notMem_utf8EncodeChar` – only the line feed has the byte of a line feed;
* `utf8EncodeChar_append_lt` – the bytes of a greater character are greater, whatever
  stands behind them;
* `utf8Bytes_lt_iff` – a text precedes another one exactly if its bytes do.
-/

namespace MathQuery

/-- The bytes of a text in UTF-8. -/
def utf8Bytes (text : String) : List UInt8 := text.toUTF8.data.toList

/-- The bytes of a text are those of its characters in order. -/
theorem utf8Bytes_eq_flatMap (text : String) :
    utf8Bytes text = text.toList.flatMap String.utf8EncodeChar := by
  rw [utf8Bytes, String.toUTF8_eq_toByteArray, ← String.ofList_toList (s := text),
    String.toByteArray_ofList, String.toList_ofList, List.utf8Encode,
    List.toList_data_toByteArray]

/-! ## Characters -/

/-- Lists of bytes are compared by the first byte, then by the later ones. -/
theorem ofNat_cons_lt_cons {a b : ℕ} {l k : List UInt8} (hb : b < 256) (hle : a ≤ b)
    (hlater : a = b → l < k) : UInt8.ofNat a :: l < UInt8.ofNat b :: k := by
  have htoNat {n : ℕ} (hn : n < 256) : (UInt8.ofNat n).toNat = n := UInt8.toNat_ofNat_of_lt' hn
  rw [List.cons_lt_cons_iff, UInt8.lt_iff_toNat_lt, htoNat hb, htoNat (by omega)]
  rcases hle.lt_or_eq with hlt | heq
  · exact .inl hlt
  · exact .inr ⟨congrArg UInt8.ofNat heq, hlater heq⟩

theorem toNat_val_lt (c : Char) : c.val.toNat < 0x110000 := by
  rcases c.valid with hsmall | ⟨-, hlarge⟩
  · exact Nat.lt_trans hsmall (by decide)
  · exact hlarge

/-- Only the line feed has the byte of a line feed. -/
theorem lineFeed_notMem_utf8EncodeChar {c : Char} (h : c ≠ '\n') :
    10 ∉ String.utf8EncodeChar c := by
  have hne : c.val.toNat ≠ 10 := fun heq => h (Char.ext (UInt32.toNat_inj.mp heq))
  have hmax := toNat_val_lt c
  have hbyte {n : ℕ} (hlt : n < 256) (hn : n ≠ 10) : (10 : UInt8) ≠ UInt8.ofNat n := by
    intro heq
    have htoNat := congrArg UInt8.toNat heq
    rw [UInt8.toNat_ofNat_of_lt' hlt] at htoNat
    exact hn htoNat.symm
  unfold String.utf8EncodeChar
  dsimp only
  -- one case for each number of bytes; of several bytes each is at least 128
  split_ifs
  all_goals
    simp only [List.mem_cons, List.not_mem_nil, or_false, not_or]
    repeat' apply And.intro
    all_goals exact hbyte (by omega) (by omega)

/-- The bytes of a greater character are greater, whatever stands behind them. -/
theorem utf8EncodeChar_append_lt {c d : Char} (h : c < d) (l k : List UInt8) :
    String.utf8EncodeChar c ++ l < String.utf8EncodeChar d ++ k := by
  have hlt : c.val.toNat < d.val.toNat := h
  have hmax := toNat_val_lt d
  unfold String.utf8EncodeChar
  dsimp only
  -- one case for each number of bytes; the greater character has as many or more
  split_ifs
  all_goals
    simp only [List.cons_append, List.nil_append]
    repeat refine ofNat_cons_lt_cons (by omega) (by omega) fun _ => ?_
    omega

/-! ## Texts -/

theorem flatMap_utf8EncodeChar_lt {cs ds : List Char} (h : cs < ds) :
    cs.flatMap String.utf8EncodeChar < ds.flatMap String.utf8EncodeChar := by
  induction h with
  | @nil d ds =>
    obtain ⟨byte, bytes, hbytes⟩ :=
      List.exists_cons_of_ne_nil (String.utf8EncodeChar_ne_nil (c := d))
    rw [List.flatMap_nil, List.flatMap_cons, hbytes, List.cons_append]
    exact List.nil_lt_cons _ _
  | rel hcd => exact utf8EncodeChar_append_lt hcd _ _
  | cons _ ih => exact List.append_left_lt ih

/-- The order of texts is that of their bytes. -/
theorem utf8Bytes_lt_iff {s t : String} : utf8Bytes s < utf8Bytes t ↔ s < t := by
  have hmono {s t : String} (h : s < t) : utf8Bytes s < utf8Bytes t := by
    rw [utf8Bytes_eq_flatMap, utf8Bytes_eq_flatMap]
    exact flatMap_utf8EncodeChar_lt (String.lt_iff_toList_lt.mp h)
  refine ⟨fun h => ?_, hmono⟩
  rcases lt_trichotomy s t with hlt | rfl | hgt
  · exact hlt
  · exact absurd h (List.lt_irrefl _)
  · exact absurd (hmono hgt) (List.lt_asymm h)

end MathQuery
