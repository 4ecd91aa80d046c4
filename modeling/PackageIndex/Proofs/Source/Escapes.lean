/-
  PackageIndex.Proofs.Source.Escapes — the spellings of a string, read back and delimited.

  Between quotes a character may stand for itself, or be spelt by the letter that names it or
  by its code point. Where a literal ends is told without looking at its escapes: a backslash
  goes with the next character, whatever that is. This does for every escape, as what
  follows its first character are digits and so no quotes (`exists_of_escape?`).

  - `literalText?_written`: however a string is spelt, it is read back.
  - `tokens_literal_of_some`: every literal that stands for something is one token.
  - `literals_delimited`: both of these, and that the digits of an escape fit in 32 bits.

  An escape is read as a character of its own, also where it is written for a byte. So the
  bytes of a string are read back as that string if they are its characters, and otherwise not:
  - `byteEscapes_iff`: what the bytes of a string stand for, and when that is the string.
  - `byteEscapes_apart`: two bytes of one character that are read as two.
-/

import PackageIndex.Proofs.Source.Lexing
import PackageIndex.Proofs.Source.Literal
import PackageIndex.Proofs.Source.Place

namespace PackageIndex.Source

/-! ## Spellings -/

def escapeNames : List (Char × Char) :=
  [('a', '\x07'), ('b', '\x08'), ('f', '\x0c'), ('n', '\n'), ('r', '\r'), ('t', '\t'), ('v', '\x0b'), ('\\', '\\'), ('"', '"')]

inductive HexForm where
  | byte
  | short
  | long
  deriving DecidableEq, Repr

namespace HexForm

def letter : HexForm → Char
  | byte => 'x'
  | short => 'u'
  | long => 'U'

def digits : HexForm → Nat
  | byte => 2
  | short => 4
  | long => 8

/-- The first code point that is not to be spelt so: a byte spells the characters that are one byte. -/
def limit : HexForm → Nat
  | byte => 0x80
  | short => 0x10000
  | long => 0x110000

end HexForm

inductive SpeltChar where
  | plain (c : Char) (h : c ≠ '"' ∧ c ≠ '\\' ∧ c ≠ '\n')
  | named (letter c : Char) (h : (letter, c) ∈ escapeNames)
  /-- In hexadecimal digits, each in upper case or lower. -/
  | hexadecimal (form : HexForm) (cases : List Bool) (c : Char) (h : cases.length = form.digits ∧ c.toNat < form.limit)
  | octal (c : Char) (h : c.toNat < 0x80)

def hexadecimalText (form : HexForm) (cases : List Bool) (n : Nat) : List Char := '\\' :: form.letter :: speltNumber 16 n cases

def octalText (n : Nat) : List Char := '\\' :: speltNumber 8 n [false, false, false]

namespace SpeltChar

def char : SpeltChar → Char
  | plain c _ => c
  | named _ c _ => c
  | hexadecimal _ _ c _ => c
  | octal c _ => c

def text : SpeltChar → List Char
  | plain c _ => [c]
  | named letter _ _ => ['\\', letter]
  | hexadecimal form cases c _ => hexadecimalText form cases c.toNat
  | octal c _ => octalText c.toNat

end SpeltChar

inductive WrittenLiteral where
  | interpreted (cs : List SpeltChar)
  | raw (body : List Char) (h : '`' ∉ body ∧ '\r' ∉ body)

namespace WrittenLiteral

def text : WrittenLiteral → List Char
  | interpreted cs => '"' :: (cs.flatMap SpeltChar.text ++ ['"'])
  | raw body _ => '`' :: (body ++ ['`'])

def value : WrittenLiteral → List Char
  | interpreted cs => cs.map SpeltChar.char
  | raw body _ => body

end WrittenLiteral

/-! ## Reading back -/

variable {s literal value body rest : List Char} {c : Char}

theorem charAt?_toNat (c : Char) : charAt? c.toNat = some c := by
  have hvalid : c.toNat.isValidChar := c.valid
  rw [charAt?, if_pos hvalid, Char.ofNat_toNat]

theorem escape?_named {letter : Char} (h : (letter, c) ∈ escapeNames) (rest : List Char) :
    escape? (letter :: rest) = some (c, 1) := by
  simp only [escapeNames, List.mem_cons, Prod.mk.injEq, List.not_mem_nil, or_false] at h
  rcases h with ⟨rfl, rfl⟩ | ⟨rfl, rfl⟩ | ⟨rfl, rfl⟩ | ⟨rfl, rfl⟩ | ⟨rfl, rfl⟩ | ⟨rfl, rfl⟩ | ⟨rfl, rfl⟩ | ⟨rfl, rfl⟩ | ⟨rfl, rfl⟩ <;> rfl

theorem escape?_hexadecimal {form : HexForm} {cases : List Bool} {n : Nat} (hcases : cases.length = form.digits)
    (hn : n < 16 ^ form.digits) (rest : List Char) :
    escape? (form.letter :: (speltNumber 16 n cases ++ rest)) = (charAt? n).map (·, form.digits + 1) := by
  have hnumeral : numeral? 16 form.digits (speltNumber 16 n cases ++ rest) = some n := by
    rw [← hcases, numeral?_speltNumber (by decide), hcases, Nat.mod_eq_of_lt hn]
  cases form <;> (simp only [HexForm.digits] at hnumeral; simp only [escape?, HexForm.letter, hnumeral, Option.bind_some]; rfl)

/-- An octal digit is none of the letters of escapes. -/
theorem octal_apart : ∀ d < 8, namedEscape? (speltDigit false d) = none ∧ speltDigit false d ≠ 'x' ∧
    speltDigit false d ≠ 'u' ∧ speltDigit false d ≠ 'U' := by decide

theorem escape?_octal {n : Nat} (hn : n < 256) (rest : List Char) :
    escape? (speltNumber 8 n [false, false, false] ++ rest) = (charAt? n).map (·, 3) := by
  have hnumeral : numeral? 8 3 (speltNumber 8 n [false, false, false] ++ rest) = some n := by
    have hread : numeral? 8 3 (speltNumber 8 n [false, false, false] ++ rest) = some (n % 8 ^ 3) :=
      numeral?_speltNumber (by decide) n [false, false, false] rest
    rwa [Nat.mod_eq_of_lt (by omega)] at hread
  obtain ⟨hnamed, hx, hu, hU⟩ := octal_apart (n / 8 ^ 2 % 8) (Nat.mod_lt _ (by decide))
  have hfirst : speltNumber 8 n [false, false, false] = speltDigit false (n / 8 ^ 2 % 8) :: speltNumber 8 n [false, false] := rfl
  rw [hfirst, List.cons_append] at hnumeral ⊢
  rw [escape?]
  · simp only [hnamed, hnumeral, Option.filter_some, hn, decide_true, if_true, Option.bind_some]
  · exact hx
  · exact hu
  · exact hU

/-- An escape is read as one character, and what follows it on its own. -/
theorem unescape?_escape {n : Nat} (h : escape? (s ++ rest) = some (c, n)) (hn : n = s.length) :
    unescape? ('\\' :: (s ++ rest)) = (unescape? rest).map (c :: ·) := by
  rw [unescape?, h, hn]
  simp

theorem unescape?_plain (hc : c ≠ '"' ∧ c ≠ '\\' ∧ c ≠ '\n') (rest : List Char) :
    unescape? (c :: rest) = (unescape? rest).map (c :: ·) := by
  rw [unescape?]
  · exact hc.1
  · exact hc.2.2
  · exact hc.2.1

theorem unescape?_text (sc : SpeltChar) (rest : List Char) :
    unescape? (sc.text ++ rest) = (unescape? rest).map (sc.char :: ·) := by
  cases sc with
  | plain c h => exact unescape?_plain h rest
  | named letter c h => exact unescape?_escape (s := [letter]) (escape?_named h rest) rfl
  | hexadecimal form cases c h =>
    have hn : c.toNat < 16 ^ form.digits := by
      have hlimit : form.limit ≤ 16 ^ form.digits := by cases form <;> decide
      omega
    have hescape := escape?_hexadecimal h.1 hn rest
    rw [charAt?_toNat, Option.map_some] at hescape
    refine unescape?_escape (s := form.letter :: speltNumber 16 c.toNat cases) hescape ?_
    rw [List.length_cons, length_speltNumber, h.1]
  | octal c h =>
    have hescape := escape?_octal (n := c.toNat) (by omega) rest
    rw [charAt?_toNat, Option.map_some] at hescape
    exact unescape?_escape hescape (length_speltNumber 8 c.toNat [false, false, false]).symm

/-- What is read one behind the other is read together. -/
theorem unescape?_flatMap {α : Type} {text : α → List Char} {char : α → Char}
    (h : ∀ a rest, unescape? (text a ++ rest) = (unescape? rest).map (char a :: ·)) (l : List α) :
    unescape? (l.flatMap text) = some (l.map char) := by
  induction l with
  | nil => rw [List.flatMap_nil, unescape?, List.map_nil]
  | cons a l ih => rw [List.flatMap_cons, h, ih, Option.map_some, List.map_cons]

/-- However a string is spelt, it is read back. -/
theorem literalText?_written (w : WrittenLiteral) : literalText? w.text = some w.value := by
  cases w with
  | interpreted cs => exact literalText?_eq_some.mpr (.inl ⟨_, rfl, unescape?_flatMap unescape?_text cs⟩)
  | raw body h =>
    refine literalText?_eq_some.mpr (.inr ⟨body, rfl, h.1, ?_⟩)
    have hkept : ∀ c ∈ body, decide (c ≠ '\r') = true := by
      intro c hc
      simp only [decide_eq_true_eq]
      rintro rfl
      exact h.2 hc
    exact (List.filter_eq_self.mpr hkept).symm

theorem literalText?_of_plain (h : IsPlainLiteral value) : literalText? ('"' :: (value ++ ['"'])) = some value := by
  have hunescape : unescape? value = some value := by
    induction value with
    | nil => rw [unescape?]
    | cons c value ih =>
      obtain ⟨hc, hvalue⟩ := List.forall_mem_cons.mp h
      rw [unescape?_plain hc, ih hvalue, Option.map_some]
  exact literalText?_eq_some.mpr (.inl ⟨value, rfl, hunescape⟩)

/-! ## Delimiting -/

theorem isPlainLiteral_of_isDigit (h : ∀ c ∈ s, isDigit c = true) : IsPlainLiteral s := by
  intro c hc
  have hdigit := h c hc
  refine ⟨?_, ?_, ?_⟩ <;> (rintro rfl; cases hdigit)

/-- What stands for something between quotes ends at the quote behind it and not before. -/
theorem interpretedLength?_of_unescape? (h : unescape? body = some value) (rest : List Char) :
    interpretedLength? (body ++ '"' :: rest) = some (body.length + 1) := by
  fun_induction unescape? body generalizing value with
  | case1 => rfl
  | case2 => cases h
  | case3 => cases h
  | case4 => cases h
  | case5 s c n hescape ih =>
    obtain ⟨more, hmore, -⟩ := Option.map_eq_some_iff.mp h
    obtain ⟨first, ds, after, rfl, rfl, -, hdigits⟩ := exists_of_escape? hescape
    have hafter : interpretedLength? (after ++ '"' :: rest) = some (after.length + 1) := by simpa using ih hmore
    rw [List.cons_append, List.cons_append, interpretedLength?, List.append_assoc,
      interpretedLength?_plain_append (isPlainLiteral_of_isDigit hdigits), hafter]
    simp only [Option.map_some, List.length_cons, List.length_append, Option.some.injEq]
    omega
  | case6 c s hquote hfeed hslash ih =>
    obtain ⟨more, hmore, -⟩ := Option.map_eq_some_iff.mp h
    have hplain : IsPlainLiteral [c] := List.forall_mem_singleton.mpr ⟨hquote, hslash, hfeed⟩
    rw [← List.singleton_append, List.append_assoc, interpretedLength?_plain_append hplain, ih hmore]
    simp

/-- Whatever follows, the text is read as one token, which is all of it. -/
def Reader.TakesLiteral (r : Reader) (literal : List Char) : Prop :=
  ∀ rest, r.tokens (literal ++ rest) =
    .token ⟨.string, literal, r.place, docAbove r.group r.place.line⟩ ((r.past (r.place.after literal)).tokens rest)

/-- Every literal that stands for something is one token. -/
theorem tokens_literal_of_some (h : literalText? literal = some value) (r : Reader) : r.TakesLiteral literal := by
  intro rest
  rcases literalText?_eq_some.mp h with ⟨body, rfl, hvalue⟩ | ⟨body, rfl, hquote, -⟩
  · have htake : (body ++ '"' :: rest).take (body.length + 1) = body ++ ['"'] := by
      simp [List.take_append, List.take_of_length_le]
    have hdrop : (body ++ '"' :: rest).drop (body.length + 1) = rest := by simp [List.drop_append]
    have hlexemes : lexemes ('"' :: (body ++ ['"']) ++ rest) = .interpreted ('"' :: (body ++ ['"'])) :: lexemes rest := by
      rw [List.cons_append, List.append_assoc, List.singleton_append, lexemes]
      simp only [interpretedLength?_of_unescape? hvalue rest, htake, hdrop]
    rw [Reader.tokens, hlexemes, ← along_eq_after (newline_not_mem_interpreted h)]
    rfl
  · have hfound : cutAt? ['`'] (body ++ '`' :: rest) = some (body, rest) := cutAt?_append hquote [] rest
    have hlexemes : lexemes ('`' :: (body ++ ['`']) ++ rest) = .raw ('`' :: (body ++ ['`'])) :: lexemes rest := by
      rw [List.cons_append, List.append_assoc, List.singleton_append, lexemes]
      split
      · rename_i hcut
        cases hfound.symm.trans hcut
      · rename_i hcut
        cases hfound.symm.trans hcut
        rfl
    rw [Reader.tokens, hlexemes]
    rfl

/-- As long as digits of an escape are left there is room for one more in 32 bits. -/
theorem room_for_digit {form : HexForm} {k n : Nat} (hk : k < form.digits) (h : numeral? 16 k s = some n) :
    n * 16 + 15 < 2 ^ 32 := by
  have hbound := numeral?_lt h
  have hdigits : form.digits ≤ 8 := by cases form <;> decide
  have hpow : 16 ^ k ≤ 16 ^ 7 := Nat.pow_le_pow_right (by decide) (by omega)
  omega

theorem literals_delimited (r : Reader) :
    (∀ w : WrittenLiteral, literalText? w.text = some w.value ∧ r.TakesLiteral w.text) ∧
      (∀ literal value, literalText? literal = some value → r.TakesLiteral literal) ∧
      ∀ (form : HexForm) (k : Nat) (s : List Char) (n : Nat), k < form.digits → numeral? 16 k s = some n →
        numeral? 16 (k + 1) s = (s[k]?.bind (digit? 16)).map (n * 16 + ·) ∧ n * 16 + 15 < 2 ^ 32 := by
  refine ⟨fun w => ?_, fun literal value h => tokens_literal_of_some h r, fun form k s n hk h => ?_⟩
  · exact ⟨literalText?_written w, tokens_literal_of_some (literalText?_written w) r⟩
  · exact ⟨numeral?_succ h, room_for_digit hk h⟩

def sampleLiteral : WrittenLiteral := .interpreted
  [.plain 'é' (by decide), .named '"' '"' (by decide), .hexadecimal .short [true, false, true, false] 'ﬀ' (by decide),
    .octal 'A' (by decide), .hexadecimal .long [true, true, false, false, true, true, true, true] '😀' (by decide),
    .hexadecimal .byte [false, false] '\\' (by decide), .plain '`' (by decide)]

def atStart : Reader := ⟨{}, 0, none⟩

theorem sampleLiteral_delimited : sampleLiteral.text = "\"é\\\"\\uFb00\\101\\U0001F600\\x5c`\"".toList ∧
    literalText? sampleLiteral.text = some "é\"ﬀA😀\\`".toList ∧ atStart.TakesLiteral sampleLiteral.text ∧
      literalText? "\"\\\\\"".toList = some ['\\'] ∧ atStart.TakesLiteral "\"\\\\\"".toList ∧
        numeral? 16 7 "FFFFFFFf".toList = some 0xFFFFFFF ∧ numeral? 16 8 "FFFFFFFf".toList = some 0xFFFFFFFF ∧
          0xFFFFFFF * 16 + 15 < 2 ^ 32 := by
  have hdelimited := literals_delimited atStart
  have hbackslash : literalText? "\"\\\\\"".toList = some ['\\'] := by decide +kernel
  have hnumeral : numeral? 16 7 "FFFFFFFf".toList = some 0xFFFFFFF := by decide
  obtain ⟨hnext, hroom⟩ := hdelimited.2.2 .long 7 _ _ (by decide) hnumeral
  exact ⟨by decide, (hdelimited.1 sampleLiteral).1, (hdelimited.1 sampleLiteral).2, hbackslash,
    hdelimited.2.1 _ _ hbackslash, hnumeral, hnext, hroom⟩

/-! ## Bytes -/

inductive SpeltByte where
  | hexadecimal (cases : List Bool) (b : UInt8) (h : cases.length = 2)
  | octal (b : UInt8)

namespace SpeltByte

def byte : SpeltByte → UInt8
  | hexadecimal _ b _ => b
  | octal b => b

def text : SpeltByte → List Char
  | hexadecimal cases b _ => hexadecimalText .byte cases b.toNat
  | octal b => octalText b.toNat

end SpeltByte

def bytesLiteral (bs : List SpeltByte) : List Char := '"' :: (bs.flatMap SpeltByte.text ++ ['"'])

def charOfByte (b : UInt8) : Char := Char.ofNat b.toNat

theorem charAt?_byte (b : UInt8) : charAt? b.toNat = some (charOfByte b) := by
  have hb := b.toNat_lt
  rw [charAt?, if_pos (by unfold Nat.isValidChar; omega)]
  rfl

theorem unescape?_byte (sb : SpeltByte) (rest : List Char) :
    unescape? (sb.text ++ rest) = (unescape? rest).map (charOfByte sb.byte :: ·) := by
  cases sb with
  | hexadecimal cases b h =>
    have hcases : cases.length = HexForm.byte.digits := h
    have hescape := escape?_hexadecimal hcases b.toNat_lt rest
    rw [charAt?_byte, Option.map_some] at hescape
    refine unescape?_escape (s := 'x' :: speltNumber 16 b.toNat cases) hescape ?_
    rw [List.length_cons, length_speltNumber, h]
    rfl
  | octal b =>
    have hescape := escape?_octal b.toNat_lt rest
    rw [charAt?_byte, Option.map_some] at hescape
    exact unescape?_escape hescape (length_speltNumber 8 b.toNat [false, false, false]).symm

theorem ascii_of_size (h : Utf8.size s = s.length) : ∀ c ∈ s, c.toNat < 0x80 := by
  induction s with
  | nil => exact List.forall_mem_nil _
  | cons c s ih =>
    have hrest := Utf8.length_le_size s
    have hpos := c.utf8Size_pos
    simp only [Utf8.size, List.length_cons] at h
    refine List.forall_mem_cons.mpr ⟨?_, ih (by omega)⟩
    have hone : c.utf8Size = 1 := by omega
    rw [Utf8.utf8Size_eq] at hone
    split at hone
    · assumption
    · split at hone
      · cases hone
      · split at hone <;> cases hone

/-- Only ASCII is the characters of its bytes. -/
theorem map_charOfByte_encode : (Utf8.encode s).map charOfByte = s ↔ ∀ c ∈ s, c.toNat < 0x80 := by
  constructor
  · intro h
    apply ascii_of_size
    rw [← Utf8.length_encode, ← List.length_map charOfByte, h]
  · intro h
    induction s with
    | nil => rfl
    | cons c s ih =>
      obtain ⟨hc, hs⟩ := List.forall_mem_cons.mp h
      have hone : Utf8.encodeChar c = [c.toNat.toUInt8] := by simp [Utf8.encodeChar, hc]
      have hchar : charOfByte c.toNat.toUInt8 = c := by
        rw [charOfByte, Utf8.toUInt8_toNat (by omega), Char.ofNat_toNat]
      show ((Utf8.encodeChar c) ++ Utf8.encode s).map charOfByte = c :: s
      rw [hone, List.map_append, ih hs, List.map_singleton, hchar, List.singleton_append]

/-- Each escaped byte is read as a character, so the bytes of a string are read back as that string exactly if it is
of ASCII. -/
theorem byteEscapes_iff {bs : List SpeltByte} (h : bs.map SpeltByte.byte = Utf8.encode s) :
    literalText? (bytesLiteral bs) = some ((Utf8.encode s).map charOfByte) ∧
      (literalText? (bytesLiteral bs) = some s ↔ ∀ c ∈ s, c.toNat < 0x80) := by
  have hvalue : literalText? (bytesLiteral bs) = some ((Utf8.encode s).map charOfByte) := by
    rw [← h, List.map_map]
    exact literalText?_eq_some.mpr (.inl ⟨_, rfl, unescape?_flatMap unescape?_byte bs⟩)
  refine ⟨hvalue, ?_⟩
  rw [hvalue, Option.some.injEq, map_charOfByte_encode]

def mixedBytes : List SpeltByte := [.octal 0x6E, .hexadecimal [true, false] 0xC3 rfl, .octal 0xA9]

theorem mixedBytes_read : bytesLiteral mixedBytes = "\"\\156\\xC3\\251\"".toList ∧
    mixedBytes.map SpeltByte.byte = Utf8.encode "né".toList ∧ literalText? (bytesLiteral mixedBytes) = some "nÃ©".toList ∧
      (literalText? (bytesLiteral mixedBytes) = some "né".toList ↔ ∀ c ∈ "né".toList, c.toNat < 0x80) := by
  have hbytes : mixedBytes.map SpeltByte.byte = Utf8.encode "né".toList := by decide +kernel
  obtain ⟨hvalue, hiff⟩ := byteEscapes_iff hbytes
  exact ⟨by decide, hbytes, hvalue.trans (by decide +kernel), hiff⟩

def partedBytes : List SpeltByte := [.hexadecimal [false, false] 0xC3 rfl, .hexadecimal [false, false] 0xA9 rfl]

theorem byteEscapes_apart : bytesLiteral partedBytes = "\"\\xc3\\xa9\"".toList ∧
    partedBytes.map SpeltByte.byte = Utf8.encode ['é'] ∧ literalText? (bytesLiteral partedBytes) = some ['Ã', '©'] ∧
      literalText? (bytesLiteral partedBytes) ≠ some ['é'] := by
  have hvalue : literalText? (bytesLiteral partedBytes) = some ['Ã', '©'] := by decide +kernel
  refine ⟨by decide, by decide, hvalue, ?_⟩
  rw [hvalue]
  decide

end PackageIndex.Source
