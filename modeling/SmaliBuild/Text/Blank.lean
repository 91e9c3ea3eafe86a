/-!
# Blank characters

The characters with the Unicode property White_Space, which is what trimming removes and what a
reader of a list of names splits at.
-/
namespace SmaliBuild.Text

/-- The property White_Space: the ASCII blanks from tab to carriage return and the space, next
line, no-break space, and the separators of the categories Zs, Zl and Zp. -/
def isBlank (c : Char) : Bool :=
  (9 ≤ c.toNat && c.toNat ≤ 13) || c.toNat == 0x20 || c.toNat == 0x85 || c.toNat == 0xA0 ||
  c.toNat == 0x1680 || (0x2000 ≤ c.toNat && c.toNat ≤ 0x200A) || c.toNat == 0x2028 ||
  c.toNat == 0x2029 || c.toNat == 0x202F || c.toNat == 0x205F || c.toNat == 0x3000

/-- A text that shows nothing: it is empty after trimming. -/
def isAllBlank (s : List Char) : Bool := s.all isBlank

def trimEnd (s : List Char) : List Char := (s.reverse.dropWhile isBlank).reverse

/-- What is trimmed off is all blank, and what stays does not end in a blank. -/
theorem exists_eq_trimEnd (s : List Char) : ∃ blanks, s = trimEnd s ++ blanks ∧
    (∀ c ∈ blanks, isBlank c = true) ∧ ∀ c ∈ (trimEnd s).getLast?, isBlank c = false := by
  refine ⟨(s.reverse.takeWhile isBlank).reverse, ?_, fun c hc => ?_, fun c hc => ?_⟩
  · rw [trimEnd, ← List.reverse_append, List.takeWhile_append_dropWhile, List.reverse_reverse]
  · exact List.all_eq_true.1 List.all_takeWhile c (List.mem_reverse.1 hc)
  · rw [trimEnd, List.getLast?_reverse] at hc
    simpa [Option.mem_def.1 hc] using List.head?_dropWhile_not isBlank s.reverse

end SmaliBuild.Text
