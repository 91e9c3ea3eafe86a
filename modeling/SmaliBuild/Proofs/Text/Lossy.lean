import Mathlib.Data.List.Basic
import Mathlib.Data.List.Infix
import SmaliBuild.CompilerLog
import SmaliBuild.Proofs.Text.Utf8
/-!
# Lossy reading

`Text.Decoded` says what text a lossy reader gives to bytes without saying how it cuts them:
characters stand for themselves, and where none begins, one replacement character stands for the
longest piece that begins one, or for a single byte.  `Text.decodeLossy` gives every byte string the
one text that fits.

No byte below 0x80 is ever part of a malformed piece, and no piece is lost without a trace.  So the
ASCII words of the text are those of the bytes, also across the seam of two streams that were read
each by itself.
-/
namespace SmaliBuild.Text
open String (utf8EncodeChar)

variable {b : UInt8} {l : Lead} {bytes bytes' part rest tail : Bytes} {t t' word : List Char}

/-! ## Malformed pieces -/

/-- Some character's bytes begin with these. -/
def Begins (part : Bytes) : Prop := ∃ c, part <+: utf8EncodeChar c

/-- No character stands at the head of `bytes`, and `part` is what one replacement character covers
there: the longest piece that begins a character, or else one byte. -/
structure Malformed (part bytes : Bytes) : Prop where
  ne_nil : part ≠ []
  atHead : part <+: bytes
  undecodable : ∀ c, ¬ utf8EncodeChar c <+: bytes
  begins : part.length = 1 ∨ Begins part
  longest : ∀ piece, piece <+: bytes → Begins piece → piece.length ≤ part.length

/-- A text that a lossy reader gives to bytes. -/
inductive Decoded : Bytes → List Char → Prop
  | nil : Decoded [] []
  | character (c : Char) {rest : Bytes} {t : List Char} : Decoded rest t →
      Decoded (utf8EncodeChar c ++ rest) (c :: t)
  | replaced {part rest : Bytes} {t : List Char} : Malformed part (part ++ rest) → Decoded rest t →
      Decoded (part ++ rest) ('\uFFFD' :: t)

/-! ## What a lead demands -/

/-- A first byte in numbers, with the second byte that it admits. -/
theorem lead?_bounds {b' : UInt8} (h : lead? b = some l) (hlow : l.low ≤ b') (hhigh : b' ≤ l.high) :
    (128 ≤ b'.toNat ∧ b'.toNat ≤ 191) ∧
    ((194 ≤ b.toNat ∧ b.toNat ≤ 223 ∧ l.more = 0 ∧ l.bits = b.toNat - 192) ∨
    (224 ≤ b.toNat ∧ b.toNat ≤ 239 ∧ l.more = 1 ∧ l.bits = b.toNat - 224 ∧
      (b.toNat = 224 → 160 ≤ b'.toNat) ∧ (b.toNat = 237 → b'.toNat ≤ 159)) ∨
    240 ≤ b.toNat ∧ b.toNat ≤ 244 ∧ l.more = 2 ∧ l.bits = b.toNat - 240 ∧
      (b.toNat = 240 → 144 ≤ b'.toNat) ∧ (b.toNat = 244 → b'.toNat ≤ 143)) := by
  unfold lead? at h
  simp only [UInt8.le_iff_toNat_le, ← UInt8.toNat_inj] at h hlow hhigh
  split_ifs at h <;> cases h <;> simp at * <;> omega

/-- Bytes that go on as a lead demands, as far as they go. -/
def Lead.Admits (l : Lead) : Bytes → Prop
  | [] => True
  | b :: cs => (l.low ≤ b ∧ b ≤ l.high) ∧ cs.length ≤ l.more ∧ ∀ c ∈ cs, isContinuation c = true

theorem Lead.admits_tail (l : Lead) (rest : Bytes) : l.Admits (l.tail rest) := by
  cases rest with
  | nil => trivial
  | cons b rest =>
    rw [Lead.tail]
    split
    · next h =>
      refine ⟨h, ?_, fun c hc => List.mem_takeWhile_imp hc⟩
      exact (List.takeWhile_sublist _).length_le.trans (List.length_take_le _ _)
    · trivial

theorem Lead.tail_isPrefixOf (l : Lead) (rest : Bytes) : l.tail rest <+: rest := by
  cases rest with
  | nil => exact List.prefix_rfl
  | cons b rest =>
    rw [Lead.tail]
    split
    · exact (List.cons_prefix_cons.2 ⟨rfl, (List.takeWhile_prefix _).trans (List.take_prefix _ _)⟩)
    · exact List.nil_prefix

/-- What is read behind a lead is the longest piece that it admits. -/
theorem Lead.length_le_tail {piece : Bytes} (hp : piece <+: rest) (ha : l.Admits piece) :
    piece.length ≤ (l.tail rest).length := by
  cases piece with
  | nil => exact Nat.zero_le _
  | cons b cs =>
    obtain ⟨rest, rfl⟩ := hp
    obtain ⟨hb, hlength, hcs⟩ := ha
    rw [List.cons_append, Lead.tail, if_pos hb]
    have hkept : cs <+: ((cs ++ rest).take l.more).takeWhile isContinuation := by
      have htake : (cs ++ rest).take l.more = cs ++ rest.take (l.more - cs.length) := by
        rw [List.take_append, List.take_of_length_le hlength]
      rw [htake, List.takeWhile_append_of_pos hcs]
      exact List.prefix_append _ _
    simpa using hkept.length_le

theorem Lead.Admits.high (hl : lead? b = some l) (ha : l.Admits tail) : ∀ c ∈ tail, 0x80 ≤ c := by
  cases tail with
  | nil => exact fun c hc => absurd hc List.not_mem_nil
  | cons b' cs =>
    obtain ⟨⟨hlow, hhigh⟩, -, hcs⟩ := ha
    intro c hc
    rcases List.mem_cons.1 hc with rfl | hc
    · exact UInt8.le_iff_toNat_le.2 (lead?_bounds hl hlow hhigh).1.1
    · have hcont := hcs c hc
      rw [isContinuation, Bool.and_eq_true, decide_eq_true_eq] at hcont
      exact hcont.1

/-! ## Characters -/

theorem toNat_ofNat_of_valid {v : Nat} (h : v.isValidChar) : (Char.ofNat v).val.toNat = v := by
  rw [Char.ofNat, dif_pos h]
  rfl

theorem ofNat_eq {n : Nat} (h : n = b.toNat) : UInt8.ofNat n = b := by
  rw [h, UInt8.ofNat_toNat]

theorem continuation_bounds (h : isContinuation b = true) : 128 ≤ b.toNat ∧ b.toNat ≤ 191 := by
  simpa [isContinuation, UInt8.le_iff_toNat_le] using h

theorem encodeChar_two {v : Nat} (h : 128 ≤ v) (h' : v ≤ 2047) : utf8EncodeChar (Char.ofNat v) =
    [UInt8.ofNat (v / 64 % 32 + 192), UInt8.ofNat (v % 64 + 128)] := by
  have hvalid : v.isValidChar := Or.inl (by omega)
  simp only [utf8EncodeChar, toNat_ofNat_of_valid hvalid]
  rw [if_neg (by omega), if_pos h']

theorem encodeChar_three {v : Nat} (h : 2048 ≤ v) (h' : v ≤ 65535)
    (hvalid : v < 0xD800 ∨ 0xDFFF < v) : utf8EncodeChar (Char.ofNat v) =
      [UInt8.ofNat (v / 4096 % 16 + 224), UInt8.ofNat (v / 64 % 64 + 128),
        UInt8.ofNat (v % 64 + 128)] := by
  have hvalid : v.isValidChar := hvalid.imp_right fun h => ⟨h, by omega⟩
  simp only [utf8EncodeChar, toNat_ofNat_of_valid hvalid]
  rw [if_neg (by omega), if_neg (by omega), if_pos h']

theorem encodeChar_four {v : Nat} (h : 65536 ≤ v) (h' : v < 0x110000) :
    utf8EncodeChar (Char.ofNat v) =
      [UInt8.ofNat (v / 262144 % 8 + 240), UInt8.ofNat (v / 4096 % 64 + 128),
        UInt8.ofNat (v / 64 % 64 + 128), UInt8.ofNat (v % 64 + 128)] := by
  have hvalid : v.isValidChar := Or.inr ⟨by omega, h'⟩
  simp only [utf8EncodeChar, toNat_ofNat_of_valid hvalid]
  rw [if_neg (by omega), if_neg (by omega), if_neg (by omega)]

theorem encodeChar_of_lead (hl : lead? b = some l) (ha : l.Admits tail)
    (hlength : tail.length = l.more + 1) : utf8EncodeChar (l.character tail) = b :: tail := by
  obtain ⟨b', cs, rfl⟩ := List.exists_cons_of_length_eq_add_one hlength
  obtain ⟨⟨hlow, hhigh⟩, -, hcs⟩ := ha
  have hcs {c : UInt8} (hc : c ∈ cs) := continuation_bounds (hcs c hc)
  obtain ⟨hb', ⟨hn, hn', hmore, hbits⟩ | ⟨hn, hn', hmore, hbits, hover⟩ | ⟨hn, hn', hmore, hbits, hover⟩⟩ :=
    lead?_bounds hl hlow hhigh <;> rw [hmore, List.length_cons] at hlength <;>
    rw [Lead.character, hbits]
  · obtain rfl : cs = [] := by simpa using hlength
    simp only [List.foldl_cons, List.foldl_nil]
    rw [encodeChar_two (by omega) (by omega), ofNat_eq (b := b) (by omega),
      ofNat_eq (b := b') (by omega)]
  · obtain ⟨c, rfl⟩ := List.length_eq_one_iff.1 (Nat.succ.inj hlength)
    have hc := hcs (c := c) (by simp)
    simp only [List.foldl_cons, List.foldl_nil]
    rw [encodeChar_three (by omega) (by omega) (by omega), ofNat_eq (b := b) (by omega),
      ofNat_eq (b := b') (by omega), ofNat_eq (b := c) (by omega)]
  · obtain ⟨c, c', rfl⟩ := List.length_eq_two.1 (Nat.succ.inj hlength)
    have hc := hcs (c := c) (by simp)
    have hc' := hcs (c := c') (by simp)
    simp only [List.foldl_cons, List.foldl_nil]
    rw [encodeChar_four (by omega) (by omega), ofNat_eq (b := b) (by omega),
      ofNat_eq (b := b') (by omega), ofNat_eq (b := c) (by omega), ofNat_eq (b := c') (by omega)]

theorem encodeChar_ascii {c : Char} (hc : c.toNat < 0x80) :
    utf8EncodeChar c = [UInt8.ofNat c.toNat] := by
  have hval : c.val.toNat ≤ 127 := Nat.le_of_lt_succ hc
  simp only [utf8EncodeChar, if_pos hval]
  rfl

theorem encodeChar_ofNat (hb : b < 0x80) : utf8EncodeChar (Char.ofNat b.toNat) = [b] := by
  have hv : b.toNat < 128 := UInt8.lt_iff_toNat_lt.1 hb
  have hchar : (Char.ofNat b.toNat).toNat = b.toNat := toNat_ofNat_of_valid (Or.inl (by omega))
  rw [encodeChar_ascii (by rw [hchar]; exact hv), hchar, UInt8.ofNat_toNat]

/-- The bytes of a character above 0x7F are a first byte with all that it demands. -/
theorem exists_lead {c : Char} (hc : ¬ c.toNat < 0x80) :
    ∃ b l tail, utf8EncodeChar c = b :: tail ∧ lead? b = some l ∧ l.Admits tail ∧
      tail.length = l.more + 1 := by
  obtain ⟨b, tail, hb⟩ := List.exists_cons_of_ne_nil (String.utf8EncodeChar_ne_nil (c := c))
  have hpieces := pieces_encodeChar c []
  rw [hb, List.append_nil, pieces, pieces, List.cons.injEq] at hpieces
  obtain ⟨hfirst, hpieces⟩ := hpieces
  have hrest : (firstPiece b tail).2 = [] := by
    cases hr : (firstPiece b tail).2 with
    | nil => rfl
    | cons b' rest =>
      rw [hr, pieces] at hpieces
      cases hpieces
  unfold firstPiece at hfirst hrest
  split at hfirst
  · next hlt =>
    have hv : b.toNat < 128 := UInt8.lt_iff_toNat_lt.1 hlt
    have hvalid : b.toNat.isValidChar := Or.inl (by omega)
    obtain rfl := Option.some.inj hfirst
    exact absurd ((toNat_ofNat_of_valid hvalid).trans_lt hv) hc
  next hlt =>
  rw [if_neg hlt] at hrest
  cases hl : lead? b with
  | none => simp [hl] at hfirst
  | some l =>
    rw [hl] at hfirst hrest
    have hlength : (l.tail tail).length = l.more + 1 := by
      refine Classical.byContradiction fun hne => ?_
      simp [hne] at hfirst
    have hall : l.tail tail = tail := by
      refine (l.tail_isPrefixOf tail).eq_of_length_le ?_
      simpa using hrest
    rw [hall] at hlength
    exact ⟨b, l, tail, hb, hl, hall ▸ l.admits_tail tail, hlength⟩

/-- No byte below 0x80 belongs to a character of several bytes. -/
theorem encodeChar_high {c : Char} (hc : ¬ c.toNat < 0x80) : ∀ b ∈ utf8EncodeChar c, 0x80 ≤ b := by
  obtain ⟨b, l, tail, hb, hl, ha, hlength⟩ := exists_lead hc
  rw [hb]
  intro b' hb'
  rcases List.mem_cons.1 hb' with rfl | hb'
  · obtain ⟨c', tail, rfl⟩ := List.exists_cons_of_length_eq_add_one hlength
    rw [UInt8.le_iff_toNat_le]
    have := lead?_bounds hl ha.1.1 ha.1.2
    simp
    omega
  · exact ha.high hl b' hb'

/-! ## The pieces -/

theorem of_firstPiece_some {c : Char} (h : (firstPiece b rest).1 = some c) :
    b :: rest = utf8EncodeChar c ++ (firstPiece b rest).2 := by
  unfold firstPiece at h ⊢
  split at h
  · next hlt =>
    rw [if_pos hlt]
    obtain rfl := Option.some.inj h
    rw [encodeChar_ofNat hlt, List.singleton_append]
  next hlt =>
  rw [if_neg hlt]
  cases hl : lead? b with
  | none => simp [hl] at h
  | some l =>
    rw [hl] at h
    dsimp only at h ⊢
    split at h
    · next hlength =>
      obtain rfl := Option.some.inj h
      rw [encodeChar_of_lead hl (l.admits_tail rest) hlength, List.cons_append,
        List.prefix_iff_eq_append.1 (l.tail_isPrefixOf rest)]
    · cases h

theorem begins_of_admits (hl : lead? b = some l) (ha : l.Admits tail) (hne : tail ≠ []) :
    Begins (b :: tail) := by
  obtain ⟨b', cs, rfl⟩ := List.exists_cons_of_ne_nil hne
  obtain ⟨hb', hlength, hcs⟩ := ha
  refine ⟨l.character (b' :: (cs ++ List.replicate (l.more - cs.length) 0x80)), ?_⟩
  rw [encodeChar_of_lead hl]
  · exact List.prefix_append (b :: b' :: cs) _
  · refine ⟨hb', ?_, fun c hc => ?_⟩
    · rw [List.length_append, List.length_replicate]
      omega
    · rcases List.mem_append.1 hc with hc | hc
      · exact hcs c hc
      · rw [List.eq_of_mem_replicate hc]
        rfl
  · rw [List.length_cons, List.length_append, List.length_replicate]
    omega

theorem Lead.Admits.take {piece : Bytes} (ha : l.Admits tail) (hp : piece <+: tail) :
    l.Admits piece := by
  obtain ⟨rest, rfl⟩ := hp
  cases piece with
  | nil => trivial
  | cons b cs =>
    obtain ⟨hb, hlength, hcs⟩ := ha
    exact ⟨hb, (List.prefix_append cs rest).length_le.trans hlength,
      fun c hc => hcs c (List.mem_append_left _ hc)⟩

/-- What begins a character of several bytes goes on as its first byte demands. -/
theorem admits_of_begins (hb : 0x80 ≤ b) (h : Begins (b :: tail)) :
    ∃ l, lead? b = some l ∧ l.Admits tail := by
  obtain ⟨c, hc⟩ := h
  by_cases hascii : c.toNat < 0x80
  · rw [encodeChar_ascii hascii, List.cons_prefix_cons] at hc
    rw [hc.1, UInt8.le_iff_toNat_le, toNat_ofNat_of_lt (by omega)] at hb
    exact absurd hascii (Nat.not_lt.2 hb)
  · obtain ⟨b', l, tail', henc, hl, ha, -⟩ := exists_lead hascii
    rw [henc, List.cons_prefix_cons] at hc
    obtain ⟨rfl, hc⟩ := hc
    exact ⟨l, hl, ha.take hc⟩

theorem of_firstPiece_none (h : (firstPiece b rest).1 = none) :
    ∃ part, b :: rest = part ++ (firstPiece b rest).2 ∧ Malformed part (b :: rest) := by
  have hno : ∀ c, ¬ utf8EncodeChar c <+: b :: rest := by
    rintro c ⟨rest', hc⟩
    have hpieces := pieces_encodeChar c rest'
    rw [hc, pieces, h] at hpieces
    cases hpieces
  unfold firstPiece at h ⊢
  split at h
  · cases h
  next hlt =>
  have hb : 0x80 ≤ b := UInt8.not_lt.1 hlt
  rw [if_neg hlt]
  cases hl : lead? b with
  | none =>
    refine ⟨[b], rfl, List.cons_ne_nil _ _, ⟨rest, rfl⟩, hno, Or.inl rfl, fun piece hp hbegins => ?_⟩
    cases piece with
    | nil => exact Nat.zero_le _
    | cons b' piece =>
      obtain ⟨rfl, -⟩ := List.cons_prefix_cons.1 hp
      obtain ⟨l, hl', -⟩ := admits_of_begins hb hbegins
      rw [hl] at hl'
      cases hl'
  | some l =>
    refine ⟨b :: l.tail rest, ?_, List.cons_ne_nil _ _, ?_, hno, ?_, fun piece hp hbegins => ?_⟩
    · rw [List.cons_append, List.prefix_iff_eq_append.1 (l.tail_isPrefixOf rest)]
    · exact List.cons_prefix_cons.2 ⟨rfl, l.tail_isPrefixOf rest⟩
    · by_cases hnil : l.tail rest = []
      · exact Or.inl (by rw [hnil, List.length_singleton])
      · exact Or.inr (begins_of_admits hl (l.admits_tail rest) hnil)
    · cases piece with
      | nil => exact Nat.zero_le _
      | cons b' piece =>
        obtain ⟨rfl, hpiece⟩ := List.cons_prefix_cons.1 hp
        obtain ⟨l', hl', ha⟩ := admits_of_begins hb hbegins
        obtain rfl : l = l' := Option.some.inj (hl.symm.trans hl')
        exact Nat.succ_le_succ (Lead.length_le_tail hpiece ha)

/-! ## The text -/

theorem decodeLossy_cons (b : UInt8) (rest : Bytes) :
    decodeLossy (b :: rest) =
      (firstPiece b rest).1.getD '\uFFFD' :: decodeLossy (firstPiece b rest).2 := by
  rw [decodeLossy, pieces]
  rfl

theorem decoded_decodeLossy (bytes : Bytes) : Decoded bytes (decodeLossy bytes) := by
  cases bytes with
  | nil =>
    rw [decodeLossy, pieces]
    exact .nil
  | cons b rest =>
    have ih := decoded_decodeLossy (firstPiece b rest).2
    rw [decodeLossy_cons]
    cases hf : (firstPiece b rest).1 with
    | some c =>
      rw [of_firstPiece_some hf]
      exact .character c ih
    | none =>
      obtain ⟨part, heq, hpart⟩ := of_firstPiece_none hf
      rw [heq] at hpart ⊢
      exact .replaced hpart ih
termination_by bytes.length
decreasing_by
  have := length_firstPiece_le b rest
  simp only [List.length_cons]
  omega

theorem Malformed.length_le {part' : Bytes} (hp : Malformed part bytes)
    (hp' : Malformed part' bytes) : part.length ≤ part'.length := by
  rcases hp.begins with hone | hbegins
  · rw [hone]
    exact List.length_pos_of_ne_nil hp'.ne_nil
  · exact hp'.longest part hp.atHead hbegins

/-- The malformed piece at the head of bytes is determined by them. -/
theorem Malformed.unique {part' : Bytes} (hp : Malformed part bytes) (hp' : Malformed part' bytes) :
    part = part' :=
  (List.prefix_of_prefix_length_le hp.atHead hp'.atHead (hp.length_le hp')).eq_of_length
    (Nat.le_antisymm (hp.length_le hp') (hp'.length_le hp))

theorem Malformed.decodeLossy_append (hp : Malformed part (part ++ rest)) :
    decodeLossy (part ++ rest) = '\uFFFD' :: decodeLossy rest := by
  obtain ⟨b, tail, rfl⟩ := List.exists_cons_of_ne_nil hp.ne_nil
  rw [List.cons_append] at hp ⊢
  rw [decodeLossy_cons]
  cases hf : (firstPiece b (tail ++ rest)).1 with
  | some c => exact absurd ⟨_, (of_firstPiece_some hf).symm⟩ (hp.undecodable c)
  | none =>
    obtain ⟨part', heq, hpart'⟩ := of_firstPiece_none hf
    rw [← hp.unique hpart', List.cons_append, List.cons.injEq] at heq
    rw [← List.append_cancel_left heq.2]
    rfl

/-- The lossy reading of bytes is `decodeLossy`, and no other. -/
theorem decoded_iff : Decoded bytes t ↔ t = decodeLossy bytes := by
  refine ⟨fun h => ?_, fun h => h ▸ decoded_decodeLossy bytes⟩
  induction h with
  | nil =>
    rw [decodeLossy, pieces]
    rfl
  | character c _ ih =>
    rw [decodeLossy, pieces_encodeChar, List.map_cons, ← decodeLossy, ← ih]
    rfl
  | replaced hp _ ih => rw [hp.decodeLossy_append, ← ih]

/-! ## Words of ASCII characters -/

/-- Bytes and a text that go together up to what is not ASCII: a byte below 0x80 is a character of
its own, and a character above 0x7F has one byte or more, none of them below 0x80. -/
inductive Aligned : Bytes → List Char → Prop
  | nil : Aligned [] []
  | ascii {c : Char} {bytes : Bytes} {t : List Char} (hc : c.toNat < 0x80) : Aligned bytes t →
      Aligned (UInt8.ofNat c.toNat :: bytes) (c :: t)
  | high {part bytes : Bytes} {c : Char} {t : List Char} (hne : part ≠ [])
      (hpart : ∀ b ∈ part, 0x80 ≤ b) (hc : ¬ c.toNat < 0x80) : Aligned bytes t →
      Aligned (part ++ bytes) (c :: t)

theorem Malformed.high (hp : Malformed part bytes) : ∀ b ∈ part, 0x80 ≤ b := by
  obtain ⟨b, tail, rfl⟩ := List.exists_cons_of_ne_nil hp.ne_nil
  have hb : 0x80 ≤ b := by
    refine UInt8.not_lt.1 fun hlt => ?_
    refine hp.undecodable (Char.ofNat b.toNat) ?_
    rw [encodeChar_ofNat hlt]
    exact (List.prefix_append [b] tail).trans hp.atHead
  intro b' hb'
  rcases List.mem_cons.1 hb' with rfl | hb'
  · exact hb
  rcases hp.begins with hone | hbegins
  · rw [List.length_cons, Nat.add_eq_right, List.length_eq_zero_iff] at hone
    rw [hone] at hb'
    cases hb'
  · obtain ⟨l, hl, ha⟩ := admits_of_begins hb hbegins
    exact ha.high hl b' hb'

theorem Decoded.aligned (h : Decoded bytes t) : Aligned bytes t := by
  induction h with
  | nil => exact .nil
  | character c _ ih =>
    by_cases hc : c.toNat < 0x80
    · rw [encodeChar_ascii hc]
      exact .ascii hc ih
    · exact .high String.utf8EncodeChar_ne_nil (encodeChar_high hc) hc ih
  | replaced hp _ ih => exact .high hp.ne_nil hp.high (by decide) ih

/-- Two streams side by side. -/
theorem Aligned.append (h : Aligned bytes t) (h' : Aligned bytes' t') :
    Aligned (bytes ++ bytes') (t ++ t') := by
  induction h with
  | nil => exact h'
  | ascii hc _ ih => exact .ascii hc ih
  | high hne hpart hc _ ih =>
    rw [List.append_assoc]
    exact .high hne hpart hc ih

def Ascii (word : List Char) : Prop := ∀ c ∈ word, c.toNat < 0x80

theorem encode_cons {c : Char} (hw : Ascii (c :: word)) :
    encode (c :: word) = UInt8.ofNat c.toNat :: encode word := by
  rw [encode, List.flatMap_cons, encodeChar_ascii (hw c List.mem_cons_self)]
  rfl

theorem ofNat_toNat_lt {c : Char} (hc : c.toNat < 0x80) : ¬ 0x80 ≤ UInt8.ofNat c.toNat := by
  rw [UInt8.le_iff_toNat_le, toNat_ofNat_of_lt (by omega)]
  exact Nat.not_le.2 hc

/-- An ASCII word stands at the head of the text exactly if its bytes stand at the head of the
bytes. -/
theorem Aligned.atHead_iff (h : Aligned bytes t) (hw : Ascii word) :
    encode word <+: bytes ↔ word <+: t := by
  induction h generalizing word with
  | nil =>
    cases word with
    | nil => exact ⟨fun _ => List.nil_prefix, fun _ => List.nil_prefix⟩
    | cons c word => simp [encode_cons hw]
  | @ascii c bytes t hc _ ih =>
    cases word with
    | nil => exact ⟨fun _ => List.nil_prefix, fun _ => List.nil_prefix⟩
    | cons c' word =>
      have hc' : c'.toNat < 0x80 := hw c' List.mem_cons_self
      have hsame : UInt8.ofNat c'.toNat = UInt8.ofNat c.toNat ↔ c' = c := by
        refine ⟨fun hbyte => ?_, fun hchar => hchar ▸ rfl⟩
        rw [← UInt8.toNat_inj, toNat_ofNat_of_lt (by omega), toNat_ofNat_of_lt (by omega)] at hbyte
        rw [← Char.ofNat_toNat c', hbyte, Char.ofNat_toNat]
      rw [encode_cons hw, List.cons_prefix_cons, List.cons_prefix_cons, hsame,
        ih fun d hd => hw d (List.mem_cons_of_mem c' hd)]
  | @high part bytes c t hne hpart hc _ _ =>
    cases word with
    | nil => exact ⟨fun _ => List.nil_prefix, fun _ => List.nil_prefix⟩
    | cons c' word =>
      have hc' : c'.toNat < 0x80 := hw c' List.mem_cons_self
      obtain ⟨b, tail, rfl⟩ := List.exists_cons_of_ne_nil hne
      rw [encode_cons hw, List.cons_append, List.cons_prefix_cons, List.cons_prefix_cons]
      constructor
      · rintro ⟨rfl, -⟩
        exact absurd (hpart _ List.mem_cons_self) (ofNat_toNat_lt hc')
      · rintro ⟨rfl, -⟩
        exact absurd hc' hc

/-- An ASCII word does not reach into bytes above 0x7F. -/
theorem infix_append_iff (hw : Ascii word) (hne : word ≠ []) (hpart : ∀ b ∈ part, 0x80 ≤ b) :
    encode word <:+: part ++ bytes ↔ encode word <:+: bytes := by
  obtain ⟨c, word, rfl⟩ := List.exists_cons_of_ne_nil hne
  induction part with
  | nil => rfl
  | cons b part ih =>
    rw [List.cons_append, List.infix_cons_iff, ih fun d hd => hpart d (List.mem_cons_of_mem b hd),
      or_iff_right]
    rw [encode_cons hw, List.cons_prefix_cons]
    rintro ⟨rfl, -⟩
    exact ofNat_toNat_lt (hw c List.mem_cons_self) (hpart _ List.mem_cons_self)

theorem Aligned.infix_iff (h : Aligned bytes t) (hw : Ascii word) :
    encode word <:+: bytes ↔ word <:+: t := by
  by_cases hne : word = []
  · subst hne
    exact ⟨fun _ => List.nil_infix, fun _ => List.nil_infix⟩
  induction h with
  | nil =>
    obtain ⟨c, word, rfl⟩ := List.exists_cons_of_ne_nil hne
    simp [encode_cons hw]
  | ascii hc h ih =>
    rw [List.infix_cons_iff, List.infix_cons_iff, (Aligned.ascii hc h).atHead_iff hw, ih]
  | high hpne hpart hc h ih =>
    rw [infix_append_iff hw hne hpart, ih, List.infix_cons_iff, or_iff_right]
    obtain ⟨c', word, rfl⟩ := List.exists_cons_of_ne_nil hne
    rw [List.cons_prefix_cons]
    rintro ⟨rfl, -⟩
    exact hc (hw c' List.mem_cons_self)

theorem mem_decodeLossy_iff {c : Char} (hc : c.toNat < 0x80) :
    c ∈ decodeLossy bytes ↔ UInt8.ofNat c.toNat ∈ bytes := by
  have hword : Ascii [c] := fun d hd => List.mem_singleton.1 hd ▸ hc
  have hinfix := (decoded_decodeLossy bytes).aligned.infix_iff hword
  rw [encode_cons hword, encode, List.flatMap_nil, List.singleton_infix_iff,
    List.singleton_infix_iff] at hinfix
  exact hinfix.symm

/-! ## Bytes that are text -/

theorem decodeLossy_encode (s : List Char) : decodeLossy (encode s) = s := by
  rw [decodeLossy, pieces_encode, List.map_map]
  exact List.map_id s

theorem isText_encode (s : List Char) : isText (encode s) = true := by
  rw [isText, decode?_encode, Option.isSome_some]

theorem isText_nil : isText [] = true := isText_encode []

theorem eq_encode_of_pieces : (bytes : Bytes) → (∀ piece ∈ pieces bytes, piece ≠ none) →
    ∃ s, bytes = encode s
  | [], _ => ⟨[], rfl⟩
  | b :: rest, h => by
    rw [pieces, List.forall_mem_cons] at h
    obtain ⟨c, hc⟩ := Option.ne_none_iff_exists'.1 h.1
    obtain ⟨s, hs⟩ := eq_encode_of_pieces (firstPiece b rest).2 h.2
    refine ⟨c :: s, ?_⟩
    rw [of_firstPiece_some hc, hs, encode, encode, List.flatMap_cons]
termination_by bytes => bytes.length
decreasing_by
  have := length_firstPiece_le b rest
  simp only [List.length_cons]
  omega

theorem isText_iff : isText bytes = true ↔ ∃ s, bytes = encode s := by
  constructor
  · intro h
    apply eq_encode_of_pieces
    rw [isText, decode?] at h
    generalize pieces bytes = ps at h
    induction ps with
    | nil => exact fun _ hp => absurd hp List.not_mem_nil
    | cons p ps ih =>
      cases p with
      | none => simp at h
      | some c =>
        rw [List.forall_mem_cons]
        refine ⟨Option.some_ne_none c, ih ?_⟩
        cases hps : ps.mapM id with
        | none => simp [hps] at h
        | some s => rfl
  · rintro ⟨s, rfl⟩
    exact isText_encode s

/-- A lossy reader loses nothing exactly if the bytes are text. -/
theorem encode_decodeLossy_eq_iff : encode (decodeLossy bytes) = bytes ↔ isText bytes = true := by
  constructor
  · intro h
    exact isText_iff.2 ⟨_, h.symm⟩
  · intro h
    obtain ⟨s, rfl⟩ := isText_iff.1 h
    rw [decodeLossy_encode]

/-- Bytes around one that is ASCII are text together exactly if they are on either side of it. -/
theorem isText_append_cons (hb : b < 0x80) :
    isText (bytes ++ b :: rest) = true ↔ isText bytes = true ∧ isText rest = true := by
  simp only [isText_iff]
  constructor
  · rintro ⟨s, hs⟩
    induction s generalizing bytes with
    | nil => cases bytes <;> cases hs
    | cons c s ih =>
      rw [encode, List.flatMap_cons, ← encode] at hs
      rcases List.append_eq_append_iff.1 hs with ⟨more, hc, hrest⟩ | ⟨more, rfl, hmore⟩
      · cases more with
        | nil =>
          obtain ⟨-, hrest⟩ := @ih [] hrest
          rw [List.append_nil] at hc
          exact ⟨⟨[c], by rw [← hc, encode, List.flatMap_singleton]⟩, hrest⟩
        | cons b' more =>
          obtain ⟨rfl, rfl⟩ := List.cons.inj hrest
          by_cases hascii : c.toNat < 0x80
          · rw [encodeChar_ascii hascii] at hc
            rcases List.append_eq_singleton_iff.1 hc.symm with ⟨rfl, hmore⟩ | ⟨-, hmore⟩
            · obtain rfl : more = [] := (List.cons.inj hmore).2
              exact ⟨⟨[], rfl⟩, ⟨s, rfl⟩⟩
            · cases hmore
          · have hmem : b ∈ utf8EncodeChar c := hc ▸ List.mem_append_right _ List.mem_cons_self
            exact absurd hb (UInt8.not_lt.2 (encodeChar_high hascii b hmem))
      · obtain ⟨⟨u, rfl⟩, hrest⟩ := ih hmore.symm
        exact ⟨⟨c :: u, rfl⟩, hrest⟩
  · rintro ⟨⟨s, rfl⟩, ⟨t, rfl⟩⟩
    refine ⟨s ++ Char.ofNat b.toNat :: t, ?_⟩
    rw [encode, encode, encode, List.flatMap_append, List.flatMap_cons, encodeChar_ofNat hb,
      List.singleton_append]

end SmaliBuild.Text
