import Mathlib.Data.List.TakeWhile
import Mathlib.Tactic.IntervalCases
import SmaliBuild.Text.Utf8
/-!
# Reading back what was encoded

The bytes that `Text.encode` gives a text are well-formed, and `Text.decode?` gives the text again.
A character has one to four bytes.  For each length there is one lemma: the first byte has its
`Lead`, the second is within the bounds of that lead, which leave out overlong forms and surrogates,
and the others are ordinary continuation bytes.
-/
namespace SmaliBuild.Text

variable {b : UInt8} {l : Lead} {rest : Bytes} {n v : Nat}

theorem toNat_ofNat_of_lt (h : n < 256) : (UInt8.ofNat n).toNat = n := by
  rw [UInt8.toNat_ofNat']
  exact Nat.mod_eq_of_lt h

theorem firstPiece_of_lead (b' : UInt8) (cs rest : Bytes) (hb : ¬ b < 0x80)
    (hl : lead? b = some l) (hlow : l.low ≤ b') (hhigh : b' ≤ l.high)
    (hlength : cs.length = l.more) (hcs : cs.all isContinuation = true) :
    firstPiece b (b' :: cs ++ rest) = (some (l.character (b' :: cs)), rest) := by
  have htail : l.tail (b' :: (cs ++ rest)) = b' :: cs := by
    rw [Lead.tail, if_pos ⟨hlow, hhigh⟩, ← hlength, List.take_left]
    congr 1
    rw [List.takeWhile_eq_self_iff]
    simpa using hcs
  unfold firstPiece
  rw [if_neg hb, hl]
  simp only [List.cons_append, htail, List.length_cons, hlength, if_true, Prod.mk.injEq, true_and]
  rw [← hlength]
  simp

theorem lead?_two (h : 194 ≤ n) (h' : n ≤ 223) :
    lead? (UInt8.ofNat n) = some ⟨0x80, 0xBF, 0, n - 192⟩ := by
  have hn := toNat_ofNat_of_lt (n := n) (by omega)
  unfold lead?
  rw [if_pos, hn]
  simp only [UInt8.le_iff_toNat_le, hn]
  exact ⟨h, h'⟩

theorem lead?_three (h : 224 ≤ n) (h' : n ≤ 239) : lead? (UInt8.ofNat n) =
    some ⟨if n = 224 then 0xA0 else 0x80, if n = 237 then 0x9F else 0xBF, 1, n - 224⟩ := by
  interval_cases n <;> rfl

theorem lead?_four (h : 240 ≤ n) (h' : n ≤ 244) : lead? (UInt8.ofNat n) =
    some ⟨if n = 240 then 0x90 else 0x80, if n = 244 then 0x8F else 0xBF, 2, n - 240⟩ := by
  interval_cases n <;> rfl

theorem ofNat_le_ofNat {k : Nat} (h : k ≤ n) (hn : n < 256) :
    UInt8.ofNat k ≤ UInt8.ofNat n := by
  rw [UInt8.le_iff_toNat_le, toNat_ofNat_of_lt hn, toNat_ofNat_of_lt (by omega)]
  exact h

theorem not_ofNat_lt (h : 128 ≤ n) (hn : n < 256) : ¬ UInt8.ofNat n < 0x80 :=
  UInt8.not_lt.2 (ofNat_le_ofNat h hn)

theorem isContinuation_ofNat (h : n < 64) : isContinuation (UInt8.ofNat (n + 128)) = true := by
  rw [isContinuation, Bool.and_eq_true, decide_eq_true_eq, decide_eq_true_eq]
  exact ⟨ofNat_le_ofNat (k := 128) (by omega) (by omega),
    ofNat_le_ofNat (n := 191) (by omega) (by omega)⟩

/-! ## Sequences of each length -/

theorem firstPiece_one (h : v ≤ 127) :
    firstPiece (UInt8.ofNat v) rest = (some (Char.ofNat v), rest) := by
  have hv := toNat_ofNat_of_lt (n := v) (by omega)
  rw [firstPiece, if_pos, hv]
  rw [UInt8.lt_iff_toNat_lt, hv]
  exact Nat.lt_succ_of_le h

theorem firstPiece_two (h : 128 ≤ v) (h' : v ≤ 2047) :
    firstPiece (UInt8.ofNat (v / 64 % 32 + 192)) (UInt8.ofNat (v % 64 + 128) :: rest) =
      (some (Char.ofNat v), rest) := by
  have hpiece := firstPiece_of_lead (UInt8.ofNat (v % 64 + 128)) [] rest
    (not_ofNat_lt (by omega) (by omega))
    (lead?_two (n := v / 64 % 32 + 192) (by omega) (by omega))
    (ofNat_le_ofNat (k := 128) (by omega) (by omega))
    (ofNat_le_ofNat (n := 191) (by omega) (by omega)) rfl rfl
  have hvalue : (v / 64 % 32 + 192 - 192) * 64 + (v % 64 + 128 - 128) = v := by omega
  have hlast := toNat_ofNat_of_lt (n := v % 64 + 128) (by omega)
  simp only [Lead.character, List.foldl_cons, List.foldl_nil, hlast, hvalue] at hpiece
  exact hpiece

theorem firstPiece_three (h : 2048 ≤ v) (h' : v ≤ 65535) (hvalid : v < 0xD800 ∨ 0xDFFF < v) :
    firstPiece (UInt8.ofNat (v / 4096 % 16 + 224))
        (UInt8.ofNat (v / 64 % 64 + 128) :: UInt8.ofNat (v % 64 + 128) :: rest) =
      (some (Char.ofNat v), rest) := by
  have hlow : (if v / 4096 % 16 + 224 = 224 then 0xA0 else 0x80) ≤
      UInt8.ofNat (v / 64 % 64 + 128) := by
    split
    · exact ofNat_le_ofNat (k := 160) (by omega) (by omega)
    · exact ofNat_le_ofNat (k := 128) (by omega) (by omega)
  have hhigh : UInt8.ofNat (v / 64 % 64 + 128) ≤
      if v / 4096 % 16 + 224 = 237 then 0x9F else 0xBF := by
    split
    · exact ofNat_le_ofNat (n := 159) (by omega) (by omega)
    · exact ofNat_le_ofNat (n := 191) (by omega) (by omega)
  have hpiece := firstPiece_of_lead _ [UInt8.ofNat (v % 64 + 128)] rest
    (not_ofNat_lt (by omega) (by omega))
    (lead?_three (n := v / 4096 % 16 + 224) (by omega) (by omega)) hlow hhigh rfl
    (by rw [List.all_cons, isContinuation_ofNat (by omega), List.all_nil, Bool.and_true])
  have hvalue : ((v / 4096 % 16 + 224 - 224) * 64 + (v / 64 % 64 + 128 - 128)) * 64 +
      (v % 64 + 128 - 128) = v := by omega
  have hsecond := toNat_ofNat_of_lt (n := v / 64 % 64 + 128) (by omega)
  have hlast := toNat_ofNat_of_lt (n := v % 64 + 128) (by omega)
  simp only [Lead.character, List.foldl_cons, List.foldl_nil, hsecond, hlast, hvalue] at hpiece
  exact hpiece

theorem firstPiece_four (h : 65536 ≤ v) (h' : v < 0x110000) :
    firstPiece (UInt8.ofNat (v / 262144 % 8 + 240)) (UInt8.ofNat (v / 4096 % 64 + 128) ::
        UInt8.ofNat (v / 64 % 64 + 128) :: UInt8.ofNat (v % 64 + 128) :: rest) =
      (some (Char.ofNat v), rest) := by
  have hlow : (if v / 262144 % 8 + 240 = 240 then 0x90 else 0x80) ≤
      UInt8.ofNat (v / 4096 % 64 + 128) := by
    split
    · exact ofNat_le_ofNat (k := 144) (by omega) (by omega)
    · exact ofNat_le_ofNat (k := 128) (by omega) (by omega)
  have hhigh : UInt8.ofNat (v / 4096 % 64 + 128) ≤
      if v / 262144 % 8 + 240 = 244 then 0x8F else 0xBF := by
    split
    · exact ofNat_le_ofNat (n := 143) (by omega) (by omega)
    · exact ofNat_le_ofNat (n := 191) (by omega) (by omega)
  have hpiece := firstPiece_of_lead _
    [UInt8.ofNat (v / 64 % 64 + 128), UInt8.ofNat (v % 64 + 128)] rest
    (not_ofNat_lt (by omega) (by omega))
    (lead?_four (n := v / 262144 % 8 + 240) (by omega) (by omega)) hlow hhigh rfl
    (by rw [List.all_cons, List.all_cons, isContinuation_ofNat (by omega),
      isContinuation_ofNat (by omega), List.all_nil, Bool.and_true, Bool.and_true])
  have hvalue : (((v / 262144 % 8 + 240 - 240) * 64 + (v / 4096 % 64 + 128 - 128)) * 64 +
      (v / 64 % 64 + 128 - 128)) * 64 + (v % 64 + 128 - 128) = v := by omega
  have hsecond := toNat_ofNat_of_lt (n := v / 4096 % 64 + 128) (by omega)
  have hthird := toNat_ofNat_of_lt (n := v / 64 % 64 + 128) (by omega)
  have hlast := toNat_ofNat_of_lt (n := v % 64 + 128) (by omega)
  simp only [Lead.character, List.foldl_cons, List.foldl_nil, hsecond, hthird, hlast,
    hvalue] at hpiece
  exact hpiece

/-! ## Texts -/

theorem pieces_encodeChar (c : Char) (rest : Bytes) :
    pieces (String.utf8EncodeChar c ++ rest) = some c :: pieces rest := by
  have hvalid : c.toNat < 0xD800 ∨ 0xDFFF < c.toNat ∧ c.toNat < 0x110000 := c.valid
  have hc : Char.ofNat c.toNat = c := Char.ofNat_toNat c
  have hval : c.val.toNat = c.toNat := rfl
  unfold String.utf8EncodeChar
  simp only [hval]
  generalize c.toNat = v at hvalid hc
  split
  · next h => rw [List.singleton_append, pieces, firstPiece_one h, hc]
  split
  · next h h' =>
    rw [List.cons_append, List.cons_append, List.nil_append, pieces,
      firstPiece_two (by omega) h', hc]
  split
  · next h h' h'' =>
    simp only [List.cons_append, List.nil_append]
    rw [pieces, firstPiece_three (by omega) h'' (by omega), hc]
  · next h h' h'' =>
    simp only [List.cons_append, List.nil_append]
    rw [pieces, firstPiece_four (by omega) (by omega), hc]

theorem pieces_encode (s : List Char) : pieces (encode s) = s.map some := by
  induction s with
  | nil => rw [encode, List.flatMap_nil, pieces, List.map_nil]
  | cons c s ih => rw [encode, List.flatMap_cons, pieces_encodeChar, ← encode, ih, List.map_cons]

theorem decode?_encode (s : List Char) : decode? (encode s) = some s := by
  rw [decode?, pieces_encode]
  induction s with
  | nil => rfl
  | cons c s ih => simp [ih]

end SmaliBuild.Text
