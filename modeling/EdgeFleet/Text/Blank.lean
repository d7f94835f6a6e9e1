namespace EdgeFleet.Text

/-- The characters with the White_Space property. -/
def isBlank (c : Char) : Bool :=
  let n := c.toNat
  (9 ≤ n && n ≤ 13) || n == 0x20 || n == 0x85 || n == 0xA0 || n == 0x1680 ||
    (0x2000 ≤ n && n ≤ 0x200A) || n == 0x2028 || n == 0x2029 || n == 0x202F ||
    n == 0x205F || n == 0x3000

/-- The characters without the white space at the end. -/
def trimEnd (cs : List Char) : List Char :=
  (cs.reverse.dropWhile isBlank).reverse

/-- The characters without the white space at both ends. -/
def trimChars (cs : List Char) : List Char :=
  trimEnd (cs.dropWhile isBlank)

/-- The text without the white space at both ends. -/
def trim (s : String) : String :=
  String.ofList (trimChars s.toList)

/-- Whether the text holds nothing but white space. -/
def isBlankText (s : String) : Bool :=
  s.toList.all isBlank

/-- The text without every `c` at its end. -/
def dropTrailing (c : Char) (s : String) : String :=
  String.ofList (s.toList.reverse.dropWhile (· == c)).reverse

/-- The text without every `c` at its start. -/
def dropLeading (c : Char) (s : String) : String :=
  String.ofList (s.toList.dropWhile (· == c))

/-- The text with its ASCII capitals made small. -/
def lowerAscii (s : String) : String :=
  String.ofList (s.toList.map Char.toLower)

theorem trimEnd_append_blank (cs : List Char) (b : Char) (h : isBlank b = true) :
    trimEnd (cs ++ [b]) = trimEnd cs := by
  simp [trimEnd, h]

theorem trimChars_cons_blank (c : Char) (cs : List Char) (h : isBlank c = true) :
    trimChars (c :: cs) = trimChars cs := by
  simp [trimChars, h]

theorem trimChars_concat_blank (cs : List Char) (c : Char) (h : isBlank c = true) :
    trimChars (cs ++ [c]) = trimChars cs := by
  rw [trimChars, trimChars, List.dropWhile_append]
  cases hd : cs.dropWhile isBlank with
  | nil => simp [h]
  | cons d ds => simpa using trimEnd_append_blank (d :: ds) c h

theorem trimChars_eq_nil_iff {cs : List Char} : trimChars cs = [] ↔ cs.all isBlank = true := by
  induction cs with
  | nil => exact ⟨fun _ => rfl, fun _ => rfl⟩
  | cons c rest ih =>
    cases h : isBlank c with
    | true => rw [trimChars_cons_blank c rest h, ih, List.all_cons, h, Bool.true_and]
    | false =>
      have hkeep : (rest.reverse ++ [c]).dropWhile isBlank ≠ [] := by
        rw [List.dropWhile_append]
        split
        · simp [h]
        · simp
      simp [trimChars, trimEnd, h, hkeep]

end EdgeFleet.Text
