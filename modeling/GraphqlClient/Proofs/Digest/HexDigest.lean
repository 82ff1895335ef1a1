import GraphqlClient.Digest.Sha256
import Mathlib.Data.List.Basic

/-!
# Digests as text

The digits of a digest determine it, and the bytes of a text determine the text. So the hexadecimal
digests of texts are equal when their digests are (`hexDigest_eq_iff`).
-/

namespace GraphqlClient

namespace Text

/-! ## Bytes of texts -/

theorem loop_toList (bytes : ByteArray) (i : Nat) (taken : List UInt8) :
    ByteArray.toList.loop bytes i taken = taken.reverse ++ bytes.data.toList.drop i := by
  fun_induction ByteArray.toList.loop bytes i taken with
  | case1 i taken h ih =>
    have hi : i < bytes.data.toList.length := h
    have hget : bytes.get! i = bytes.data.toList[i] := by
      show bytes.data[i]! = bytes.data.toList[i]
      rw [getElem!_pos bytes.data i h, Array.getElem_toList]
    rw [ih, List.reverse_cons, List.append_assoc, List.drop_eq_getElem_cons hi, hget]
    rfl
  | case2 i taken h =>
    have hi : bytes.data.toList.length ≤ i := Nat.le_of_not_lt h
    rw [List.drop_eq_nil_of_le hi, List.append_nil]

/-- A text is known from its bytes. -/
theorem toList_toUTF8_inj {s t : String} : s.toUTF8.toList = t.toUTF8.toList ↔ s = t := by
  have hdata : ∀ bytes : ByteArray, bytes.toList = bytes.data.toList := fun bytes => by
    rw [ByteArray.toList, loop_toList, List.reverse_nil, List.nil_append, List.drop_zero]
  constructor
  · intro h
    rw [hdata, hdata, Array.toList_inj] at h
    exact String.toByteArray_inj.1 (ByteArray.ext h)
  · rintro rfl
    rfl

/-! ## Hexadecimal digits -/

/-- The lower-case hexadecimal digits. -/
def lowerHexDigits : List Char := "0123456789abcdef".toList

theorem digitChar_mem : ∀ d < 16, d.digitChar ∈ lowerHexDigits := by decide

theorem digitChar_inj : ∀ d < 16, ∀ e < 16, d.digitChar = e.digitChar → d = e := by decide

theorem hexPair_mem (b : UInt8) : ∀ c ∈ hexPair b.toNat, c ∈ lowerHexDigits := by
  have hb := b.toNat_lt
  intro c hc
  rcases List.mem_pair.1 hc with rfl | rfl
  · exact digitChar_mem _ (by omega)
  · exact digitChar_mem _ (by omega)

theorem hexPair_inj {a b : UInt8} (h : hexPair a.toNat = hexPair b.toNat) : a = b := by
  have ha := a.toNat_lt
  have hb := b.toNat_lt
  obtain ⟨hhigh, hlow⟩ := List.cons.inj h
  have hhigh := digitChar_inj _ (by omega) _ (by omega) hhigh
  have hlow := digitChar_inj _ (Nat.mod_lt _ (by decide)) _ (Nat.mod_lt _ (by decide))
    (List.cons.inj hlow).1
  refine UInt8.toNat_inj.1 ?_
  omega

theorem mem_hex {bytes : List UInt8} {c : Char} (hc : c ∈ hex bytes) : c ∈ lowerHexDigits := by
  obtain ⟨b, -, hb⟩ := List.mem_flatMap.1 hc
  exact hexPair_mem b c hb

/-- Bytes are known from their digits. -/
theorem hex_injective : Function.Injective hex := by
  intro as bs h
  induction as generalizing bs with
  | nil =>
    cases bs with
    | nil => rfl
    | cons b bs => cases h
  | cons a as ih =>
    cases bs with
    | nil => cases h
    | cons b bs =>
      unfold hex at h ih
      rw [List.flatMap_cons, List.flatMap_cons] at h
      obtain ⟨hpair, hrest⟩ := List.append_inj h rfl
      rw [hexPair_inj hpair, ih hrest]

end Text

namespace Digest

/-- Texts have one hexadecimal digest when the digests of their bytes are equal. -/
theorem hexDigest_eq_iff {s t : String} :
    hexDigest s = hexDigest t ↔ sha256 s.toUTF8.toList = sha256 t.toUTF8.toList := by
  unfold hexDigest
  rw [String.ofList_inj, Text.hex_injective.eq_iff]

end Digest

end GraphqlClient
