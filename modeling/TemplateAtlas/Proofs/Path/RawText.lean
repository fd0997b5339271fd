import Mathlib.Data.List.Basic
import TemplateAtlas.Path.RawText
import TemplateAtlas.Proofs.Text.Pieces

/-!
# Texts as bytes

A text can be read back from its bytes, so texts in UTF-8 are shown as they are (`shown_ofString`)
and told apart by what is shown. Raw texts that are shown without a replacement character are such
texts (`ofString_shown`).
-/

namespace TemplateAtlas

open TemplateAtlas.Text

namespace RawText

instance : Std.LawfulEqOrd RawText where
  eq_of_compare {a b} h := by
    have hbytes : compare a.bytes b.bytes = .eq := h
    exact RawText.ext (Std.LawfulEqOrd.eq_of_compare hbytes)

@[simp] theorem bytes_append (a b : RawText) : (a ++ b).bytes = a.bytes ++ b.bytes := rfl

theorem append_assoc (a b c : RawText) : a ++ b ++ c = a ++ (b ++ c) :=
  RawText.ext (List.append_assoc a.bytes b.bytes c.bytes)

@[simp] theorem empty_append (raw : RawText) : ofString "" ++ raw = raw := rfl

@[simp] theorem mk_nil : (⟨[]⟩ : RawText) = "" := rfl

@[simp] theorem bytes_eq_nil_iff {raw : RawText} : raw.bytes = [] ↔ raw = "" :=
  ⟨fun h => RawText.ext h, fun h => h ▸ rfl⟩

@[simp] theorem isEmpty_iff {raw : RawText} : raw.isEmpty = true ↔ raw = "" :=
  List.isEmpty_iff.trans bytes_eq_nil_iff

@[simp] theorem isEmpty_eq_false_iff {raw : RawText} : raw.isEmpty = false ↔ raw ≠ "" := by
  rw [← Bool.not_eq_true, isEmpty_iff]

/-! ### Characters and their bytes -/

@[simp] theorem encode_nil : encode [] = [] := rfl

@[simp] theorem encode_cons (c : Char) (cs : List Char) :
    encode (c :: cs) = String.utf8EncodeChar c ++ encode cs :=
  List.flatMap_cons

@[simp] theorem encode_slash : String.utf8EncodeChar '/' = [slash] := rfl

theorem firstChar?_append (c : Char) (bytes : List UInt8) :
    firstChar? (String.utf8EncodeChar c ++ bytes) = some c := by
  rw [firstChar?, List.toByteArray_append]
  exact ByteArray.utf8DecodeChar?_utf8EncodeChar_append

/-- The bytes open with those of the character that they open with. -/
theorem exists_of_firstChar? {bytes : List UInt8} {c : Char} (h : firstChar? bytes = some c) :
    ∃ rest, bytes = String.utf8EncodeChar c ++ rest := by
  obtain ⟨rest, hrest⟩ := ByteArray.exists_of_utf8DecodeChar?_eq_some h
  refine ⟨rest.data.toList, ?_⟩
  have hlist := congrArg (fun b : ByteArray => b.data.toList) hrest
  simpa using hlist

theorem decode_go_drop (n : Nat) (bytes : List UInt8) :
    decode.go n bytes = decode (bytes.drop n) := by
  induction n generalizing bytes with
  | zero => rfl
  | succ n ih =>
    cases bytes with
    | nil => rfl
    | cons byte bytes => exact ih bytes

/-- A character in front of bytes is read first. -/
theorem decode_append (c : Char) (bytes : List UInt8) :
    decode (String.utf8EncodeChar c ++ bytes) = c :: decode bytes := by
  have hlength := String.length_utf8EncodeChar c
  have hfirst := firstChar?_append c bytes
  cases hc : String.utf8EncodeChar c with
  | nil =>
    have hpos := c.utf8Size_pos
    rw [hc, List.length_nil] at hlength
    omega
  | cons byte rest =>
    rw [hc] at hfirst hlength
    rw [List.cons_append] at hfirst
    rw [List.cons_append, decode, decode.go, hfirst]
    simp only [List.length_cons] at hlength
    have hsize : c.utf8Size - 1 = rest.length := by omega
    simp only [decode_go_drop, hsize, List.drop_left, List.drop_zero]

/-- Characters are read back from their bytes. -/
@[simp] theorem decode_encode (cs : List Char) : decode (encode cs) = cs := by
  induction cs with
  | nil => rfl
  | cons c cs ih => rw [encode_cons, decode_append, ih]

/-- A byte that is a character by itself stands in no other character. -/
theorem eq_of_mem_utf8EncodeChar {c d : Char} {byte : UInt8} (hd : String.utf8EncodeChar d = [byte])
    (h : byte ∈ String.utf8EncodeChar c) : c = d := by
  obtain ⟨i, hi, hbyte⟩ := List.getElem_of_mem h
  have hfirst : (String.utf8EncodeChar c)[i].IsUTF8FirstByte := by
    rw [hbyte]
    have hzero := @UInt8.isUTF8FirstByte_getElem_zero_utf8EncodeChar d
    simpa only [hd, List.getElem_cons_zero] using hzero
  obtain rfl := UInt8.isUTF8FirstByte_getElem_utf8EncodeChar.1 hfirst
  obtain ⟨rest, hrest⟩ : ∃ rest, String.utf8EncodeChar c = String.utf8EncodeChar d ++ rest := by
    rw [hd]
    cases hc : String.utf8EncodeChar c with
    | nil => simp [hc] at hi
    | cons first rest => exact ⟨rest, by simpa [hc] using hbyte⟩
  have hread := decode_append c []
  rw [List.append_nil, hrest, decode_append] at hread
  exact (List.cons.inj hread).1.symm

/-- The bytes open with a slash if the characters do. -/
theorem head?_encode_iff {cs : List Char} :
    (encode cs).head? = some slash ↔ cs.head? = some '/' := by
  cases cs with
  | nil => simp
  | cons c cs =>
    have hne : String.utf8EncodeChar c ≠ [] := by
      rw [← List.length_pos_iff, String.length_utf8EncodeChar]
      exact c.utf8Size_pos
    rw [encode_cons, List.head?_append_of_ne_nil _ hne, List.head?_cons, Option.some.injEq]
    exact ⟨fun h => eq_of_mem_utf8EncodeChar encode_slash (List.mem_of_head? h),
      fun h => by rw [h]; rfl⟩

/-- The pieces between the slashes are those of the characters. -/
theorem splitOn_encode (cs : List Char) :
    splitOn slash (encode cs) = (splitOn '/' cs).map encode := by
  induction cs with
  | nil => rfl
  | cons c cs ih =>
    obtain ⟨first, body, hsplit⟩ := List.exists_cons_of_ne_nil (splitOn_ne_nil '/' cs)
    rw [encode_cons, splitOn]
    split
    next hc => rw [hc, encode_slash, List.singleton_append, splitOn, if_pos rfl, ih,
      List.map_cons, encode_nil]
    next hc =>
      have hslash : slash ∉ String.utf8EncodeChar c :=
        fun h => hc (eq_of_mem_utf8EncodeChar encode_slash h)
      rw [splitOn_append_of_notMem hslash, ih, hsplit]
      simp

/-- Bytes that are read without a replacement are those of what is read. -/
theorem encode_decode {bytes : List UInt8} (h : '\ufffd' ∉ decode bytes) :
    encode (decode bytes) = bytes := by
  induction hlength : bytes.length using Nat.strongRecOn generalizing bytes with
  | _ n ih =>
    cases bytes with
    | nil => rfl
    | cons byte rest =>
      cases hfirst : firstChar? (byte :: rest) with
      | none =>
        rw [decode, decode.go, hfirst] at h
        simp at h
      | some c =>
        obtain ⟨bytes, hbytes⟩ := exists_of_firstChar? hfirst
        rw [hbytes, decode_append] at h ⊢
        have hshorter : bytes.length < n := by
          have := c.utf8Size_pos
          rw [← hlength, hbytes, List.length_append, String.length_utf8EncodeChar]
          omega
        rw [encode_cons, ih _ hshorter (fun hmem => h (List.mem_cons_of_mem c hmem)) rfl]

/-! ### Texts and what is shown of them -/

@[simp] theorem bytes_ofString (text : String) : (ofString text).bytes = encode text.toList := rfl

@[simp] theorem shown_ofString (text : String) : (ofString text).shown = text := by
  rw [shown, bytes_ofString, decode_encode, String.ofList_toList]

@[simp] theorem ofString_inj {s t : String} : ofString s = ofString t ↔ s = t :=
  ⟨fun h => by rw [← shown_ofString s, h, shown_ofString], congrArg ofString⟩

/-- A raw text that is shown without a replacement is the text that is shown. -/
theorem ofString_shown {raw : RawText} (h : '\ufffd' ∉ raw.shown.toList) :
    ofString raw.shown = raw := by
  rw [shown, String.toList_ofList] at h
  refine RawText.ext ?_
  rw [bytes_ofString, shown, String.toList_ofList, encode_decode h]

theorem text?_eq_some_iff {raw : RawText} {text : String} :
    raw.text? = some text ↔ raw = ofString text := by
  unfold text?
  constructor
  · intro h
    split at h
    next hsame => exact Option.some.inj h ▸ hsame.symm
    next => cases h
  · rintro rfl
    simp

/-- The texts are the raw texts that are made of characters. -/
theorem isText_iff {raw : RawText} : raw.isText = true ↔ ∃ text, raw = ofString text := by
  rw [isText, Option.isSome_iff_exists]
  exact exists_congr fun _ => text?_eq_some_iff

end RawText

end TemplateAtlas
