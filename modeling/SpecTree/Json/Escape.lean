import SpecTree.Text.Digit

/-!
# Escapes in JSON strings

Quotes, backslashes and controls are escaped in every text; characters beyond the printable ones of
ASCII only where a text has to be ASCII, then as one or two groups of four digits.
-/

namespace SpecTree.Json

open Text (hexDigits hexValue?)

/-- A group of four digits after its mark. -/
def escapeUnit (n : Nat) : List Char := '\\' :: 'u' :: hexDigits 4 n

/-- A character in ASCII: two groups if it lies beyond the first 65536. -/
def escapeWide (c : Char) : List Char :=
  let n := c.toNat
  if n < 0x10000 then escapeUnit n
  else
    escapeUnit (0xD800 + (n - 0x10000) / 0x400) ++ escapeUnit (0xDC00 + (n - 0x10000) % 0x400)

/-- A character inside a string. -/
def escapeChar (ascii : Bool) (c : Char) : List Char :=
  if c = '"' then ['\\', '"']
  else if c = '\\' then ['\\', '\\']
  else if c = '\n' then ['\\', 'n']
  else if c = '\r' then ['\\', 'r']
  else if c = '\t' then ['\\', 't']
  else if c = '\x08' then ['\\', 'b']
  else if c = '\x0c' then ['\\', 'f']
  else if c.toNat < 0x20 then escapeUnit c.toNat
  else if ascii && 0x7E < c.toNat then escapeWide c
  else [c]

/-- A string in its quotes. -/
def quote (ascii : Bool) (s : String) : List Char :=
  '"' :: s.toList.flatMap (escapeChar ascii) ++ ['"']

/-- The number of a group of four digits. -/
def hexUnit? : List Char → Option (Nat × List Char)
  | a :: b :: c :: d :: rest =>
    match hexValue? a, hexValue? b, hexValue? c, hexValue? d with
    | some a, some b, some c, some d => some (a * 4096 + b * 256 + c * 16 + d, rest)
    | _, _, _, _ => none
  | _ => none

/-- The character that a backslash and the character after it stand for. -/
def shortEscape? : Char → Option Char
  | '"' => some '"'
  | '\\' => some '\\'
  | '/' => some '/'
  | 'b' => some '\x08'
  | 'f' => some '\x0c'
  | 'n' => some '\n'
  | 'r' => some '\r'
  | 't' => some '\t'
  | _ => none

/-- The second half of a pair of groups, if one follows. -/
def lowHalf? (cs : List Char) : Option (Nat × List Char) :=
  match cs with
  | '\\' :: 'u' :: rest =>
    match hexUnit? rest with
    | some (n, rest) => if 0xDC00 ≤ n && n ≤ 0xDFFF then some (n, rest) else none
    | none => none
  | _ => none

/-- The character of one or two groups whose first mark has been read. -/
def unescapeUnit? (cs : List Char) : Option (Char × List Char) :=
  match hexUnit? cs with
  | none => none
  | some (n, rest) =>
    if 0xD800 ≤ n && n ≤ 0xDBFF then
      match lowHalf? rest with
      | some (low, rest) =>
        some (Char.ofNat (0x10000 + (n - 0xD800) * 0x400 + (low - 0xDC00)), rest)
      | none => some ('\uFFFD', rest)
    else if 0xDC00 ≤ n && n ≤ 0xDFFF then some ('\uFFFD', rest)
    else some (Char.ofNat n, rest)

theorem hexUnit?_length {cs rest : List Char} {n : Nat} (h : hexUnit? cs = some (n, rest)) :
    rest.length < cs.length := by
  unfold hexUnit? at h
  split at h
  · split at h
    · cases h
      simp only [List.length_cons]
      omega
    · cases h
  · cases h

theorem lowHalf?_length {cs rest : List Char} {n : Nat} (h : lowHalf? cs = some (n, rest)) :
    rest.length < cs.length := by
  unfold lowHalf? at h
  split at h
  · split at h
    · next hu =>
      have := hexUnit?_length hu
      split at h
      · cases h
        simp only [List.length_cons]
        omega
      · cases h
    · cases h
  · cases h

theorem unescapeUnit?_length {cs rest : List Char} {c : Char}
    (h : unescapeUnit? cs = some (c, rest)) : rest.length < cs.length := by
  unfold unescapeUnit? at h
  split at h
  · cases h
  · next n after hu =>
    have h1 := hexUnit?_length hu
    split at h
    · split at h
      · next hl =>
        have h2 := lowHalf?_length hl
        simp only [Option.some.injEq, Prod.mk.injEq] at h
        obtain ⟨_, rfl⟩ := h
        omega
      · simp only [Option.some.injEq, Prod.mk.injEq] at h
        exact h.2 ▸ h1
    · split at h <;>
      · simp only [Option.some.injEq, Prod.mk.injEq] at h
        exact h.2 ▸ h1

/-- The text of a string after its opening quote, and what follows the closing one; raw controls
are refused. -/
def unquote? (cs : List Char) : Option (List Char × List Char) :=
  match cs with
  | [] => none
  | '"' :: rest => some ([], rest)
  | '\\' :: 'u' :: rest =>
    match _h : unescapeUnit? rest with
    | some (c, after) => (unquote? after).map fun (text, rest) => (c :: text, rest)
    | none => none
  | '\\' :: e :: rest =>
    match shortEscape? e with
    | some c => (unquote? rest).map fun (text, rest) => (c :: text, rest)
    | none => none
  | c :: rest =>
    if c = '\\' ∨ c.toNat < 0x20 then none
    else (unquote? rest).map fun (text, rest) => (c :: text, rest)
termination_by cs.length
decreasing_by
  · have := unescapeUnit?_length ‹_›
    simp only [List.length_cons]
    omega
  · simp only [List.length_cons]; omega
  · simp only [List.length_cons]; omega

theorem unquote?_length {cs rest text : List Char} (h : unquote? cs = some (text, rest)) :
    rest.length < cs.length := by
  fun_induction unquote? cs generalizing text rest with
  | case1 => cases h
  | case2 => cases h; simp
  | case3 r c after hu ih =>
    obtain ⟨⟨t, q⟩, h', heq⟩ := Option.map_eq_some_iff.1 h
    cases heq
    have := ih h'
    have := unescapeUnit?_length hu
    simp only [List.length_cons]
    omega
  | case4 => cases h
  | case5 e r _ c _ ih =>
    obtain ⟨⟨t, q⟩, h', heq⟩ := Option.map_eq_some_iff.1 h
    cases heq
    have := ih h'
    simp only [List.length_cons]
    omega
  | case6 => cases h
  | case7 => cases h
  | case8 c r _ _ _ _ ih =>
    obtain ⟨⟨t, q⟩, h', heq⟩ := Option.map_eq_some_iff.1 h
    cases heq
    have := ih h'
    simp only [List.length_cons]
    omega

end SpecTree.Json
