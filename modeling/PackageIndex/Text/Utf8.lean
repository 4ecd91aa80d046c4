/-
  PackageIndex.Text.Utf8 — text as bytes and bytes as text.

  A character is one to four bytes. Reading answers the first place where bytes stop
  being text, with the length of the broken sequence there (`none` when the bytes end
  inside one), and `lossy` reads on past each broken sequence, putting U+FFFD in its
  place. A broken sequence is as long as the bytes that could still have begun a
  character: a lead byte with each next byte that fits it.

  - `decode_encode`: what `encode` writes reads back.
-/

namespace PackageIndex.Utf8

/-! ## Writing -/

def encodeChar (c : Char) : List UInt8 :=
  let n := c.toNat
  if n < 0x80 then [n.toUInt8]
  else if n < 0x800 then [(0xC0 + n / 0x40).toUInt8, (0x80 + n % 0x40).toUInt8]
  else if n < 0x10000 then
    [(0xE0 + n / 0x1000).toUInt8, (0x80 + n / 0x40 % 0x40).toUInt8, (0x80 + n % 0x40).toUInt8]
  else
    [(0xF0 + n / 0x40000).toUInt8, (0x80 + n / 0x1000 % 0x40).toUInt8,
      (0x80 + n / 0x40 % 0x40).toUInt8, (0x80 + n % 0x40).toUInt8]

def encode (s : List Char) : List UInt8 := s.flatMap encodeChar

def ofString (s : String) : List UInt8 := encode s.toList

def size : List Char → Nat
  | [] => 0
  | c :: s => c.utf8Size + size s

/-! ## Reading one character -/

inductive Front where
  | char (c : Char) (length : Nat)
  /-- A broken sequence and its length; `none` when the bytes end inside it. -/
  | broken (length : Option Nat)
  deriving DecidableEq, Repr

abbrev IsTail (b : UInt8) : Prop := 0x80 ≤ b.toNat ∧ b.toNat < 0xC0

/-- The span that the second byte of a character must fall in, by its lead byte. -/
def secondSpan (lead : Nat) : Option (Nat × Nat) :=
  if lead < 0xC2 then none
  else if lead < 0xE0 then some (0x80, 0xBF)
  else if lead = 0xE0 then some (0xA0, 0xBF)
  else if lead = 0xED then some (0x80, 0x9F)
  else if lead < 0xF0 then some (0x80, 0xBF)
  else if lead = 0xF0 then some (0x90, 0xBF)
  else if lead < 0xF4 then some (0x80, 0xBF)
  else if lead = 0xF4 then some (0x80, 0x8F)
  else none

/-- The code point spelt by two, three and four bytes. -/
def point2 (a b : UInt8) : Nat := (a.toNat - 0xC0) * 0x40 + (b.toNat - 0x80)

def point3 (a b c : UInt8) : Nat :=
  (a.toNat - 0xE0) * 0x1000 + (b.toNat - 0x80) * 0x40 + (c.toNat - 0x80)

def point4 (a b c d : UInt8) : Nat :=
  (a.toNat - 0xF0) * 0x40000 + (b.toNat - 0x80) * 0x1000 + (c.toNat - 0x80) * 0x40 + (d.toNat - 0x80)

def front (a : UInt8) (rest : List UInt8) : Front :=
  if a.toNat < 0x80 then .char (Char.ofNat a.toNat) 1
  else match secondSpan a.toNat, rest with
    | none, _ => .broken (some 1)
    | some _, [] => .broken none
    | some (least, most), b :: rest =>
      if b.toNat < least ∨ most < b.toNat then .broken (some 1)
      else if a.toNat < 0xE0 then .char (Char.ofNat (point2 a b)) 2
      else match rest with
        | [] => .broken none
        | c :: rest =>
          if ¬ IsTail c then .broken (some 2)
          else if a.toNat < 0xF0 then .char (Char.ofNat (point3 a b c)) 3
          else match rest with
            | [] => .broken none
            | d :: _ =>
              if ¬ IsTail d then .broken (some 3)
              else .char (Char.ofNat (point4 a b c d)) 4

/-! ## Reading text -/

structure Fault where
  validUpTo : Nat
  /-- The length of the broken sequence; `none` when the bytes end inside it. -/
  length : Option Nat
  deriving DecidableEq, Repr

def Fault.message (f : Fault) : String :=
  match f.length with
  | some n => s!"invalid utf-8 sequence of {n} bytes from index {f.validUpTo}"
  | none => s!"incomplete utf-8 byte sequence from index {f.validUpTo}"

def decodeFrom (start : Nat) : List UInt8 → Except Fault (List Char)
  | [] => .ok []
  | a :: rest =>
    match front a rest with
    | .char c n => (decodeFrom (start + n) (rest.drop (n - 1))).map (c :: ·)
    | .broken n => .error ⟨start, n⟩
termination_by bytes => bytes.length
decreasing_by simp only [List.length_drop, List.length_cons]; omega

def decode (bytes : List UInt8) : Except Fault (List Char) := decodeFrom 0 bytes

/-- Reads any bytes, with U+FFFD for each broken sequence. -/
def lossy : List UInt8 → List Char
  | [] => []
  | a :: rest =>
    match front a rest with
    | .char c n => c :: lossy (rest.drop (n - 1))
    | .broken (some n) => '\ufffd' :: lossy (rest.drop (n - 1))
    | .broken none => ['\ufffd']
termination_by bytes => bytes.length
decreasing_by all_goals simp only [List.length_drop, List.length_cons]; omega

/-! ## Reading back -/

theorem toUInt8_toNat {n : Nat} (h : n < 256) : n.toUInt8.toNat = n := by
  simp only [Nat.toUInt8, UInt8.toNat_ofNat']
  omega

theorem toNat_cases (c : Char) : c.toNat < 0xD800 ∨ (0xE000 ≤ c.toNat ∧ c.toNat < 0x110000) := by
  have v := c.valid
  have e : c.val.toNat = c.toNat := rfl
  simp only [UInt32.isValidChar, Nat.isValidChar] at v
  rw [e] at v
  omega

theorem front_one {n : Nat} {a : UInt8} (rest : List UInt8) (hn : n < 0x80) (ha : a.toNat = n) :
    front a rest = .char (Char.ofNat n) 1 := by
  simp only [front]
  rw [if_pos (by omega), ha]

theorem front_two {n : Nat} {a b : UInt8} (rest : List UInt8) (hn : 0x80 ≤ n ∧ n < 0x800)
    (ha : a.toNat = 0xC0 + n / 0x40) (hb : b.toNat = 0x80 + n % 0x40) :
    front a (b :: rest) = .char (Char.ofNat n) 2 := by
  have hspan : secondSpan a.toNat = some (0x80, 0xBF) := by
    unfold secondSpan
    rw [if_neg (by omega), if_pos (by omega)]
  simp only [front, hspan]
  rw [if_neg (by omega), if_neg (by omega), if_pos (by omega)]
  rw [show point2 a b = n by unfold point2; omega]

theorem front_three {n : Nat} {a b c : UInt8} (rest : List UInt8) (hn : 0x800 ≤ n ∧ n < 0x10000)
    (hv : n < 0xD800 ∨ 0xE000 ≤ n) (ha : a.toNat = 0xE0 + n / 0x1000)
    (hb : b.toNat = 0x80 + n / 0x40 % 0x40) (hc : c.toNat = 0x80 + n % 0x40) :
    front a (b :: c :: rest) = .char (Char.ofNat n) 3 := by
  have hspan : ∃ p, secondSpan a.toNat = some p ∧ p.1 ≤ b.toNat ∧ b.toNat ≤ p.2 := by
    unfold secondSpan
    rw [if_neg (by omega), if_neg (by omega)]
    split
    · exact ⟨_, rfl, by simp only []; omega, by simp only []; omega⟩
    · split
      · exact ⟨_, rfl, by simp only []; omega, by simp only []; omega⟩
      · rw [if_pos (by omega)]
        exact ⟨_, rfl, by simp only []; omega, by simp only []; omega⟩
  obtain ⟨p, hspan, hp1, hp2⟩ := hspan
  simp only [front, hspan]
  rw [if_neg (by omega), if_neg (by omega), if_neg (by omega), if_neg (by omega),
    if_pos (by omega)]
  rw [show point3 a b c = n by unfold point3; omega]

theorem front_four {n : Nat} {a b c d : UInt8} (rest : List UInt8) (hn : 0x10000 ≤ n ∧ n < 0x110000)
    (ha : a.toNat = 0xF0 + n / 0x40000) (hb : b.toNat = 0x80 + n / 0x1000 % 0x40)
    (hc : c.toNat = 0x80 + n / 0x40 % 0x40) (hd : d.toNat = 0x80 + n % 0x40) :
    front a (b :: c :: d :: rest) = .char (Char.ofNat n) 4 := by
  have hspan : ∃ p, secondSpan a.toNat = some p ∧ p.1 ≤ b.toNat ∧ b.toNat ≤ p.2 := by
    unfold secondSpan
    rw [if_neg (by omega), if_neg (by omega), if_neg (by omega), if_neg (by omega), if_neg (by omega)]
    split
    · exact ⟨_, rfl, by simp only []; omega, by simp only []; omega⟩
    · split
      · exact ⟨_, rfl, by simp only []; omega, by simp only []; omega⟩
      · rw [if_pos (by omega)]
        exact ⟨_, rfl, by simp only []; omega, by simp only []; omega⟩
  obtain ⟨p, hspan, hp1, hp2⟩ := hspan
  simp only [front, hspan]
  rw [if_neg (by omega), if_neg (by omega), if_neg (by omega), if_neg (by omega),
    if_neg (by omega), if_neg (by omega)]
  rw [show point4 a b c d = n by unfold point4; omega]

/-- The bytes of one character are read as that character, whatever follows. -/
theorem front_encodeChar (c : Char) (rest : List UInt8) :
    ∃ a tail, encodeChar c = a :: tail ∧ front a (tail ++ rest) = .char c (tail.length + 1) := by
  have hc := toNat_cases c
  have hof : Char.ofNat c.toNat = c := Char.ofNat_toNat c
  have byte {n : Nat} (h : n < 256) : n.toUInt8.toNat = n := toUInt8_toNat h
  unfold encodeChar
  simp only []
  split
  · have h := front_one rest (by omega) (byte (n := c.toNat) (by omega))
    rw [hof] at h
    exact ⟨_, _, rfl, h⟩
  · split
    · have h := front_two (n := c.toNat) rest (by omega) (byte (by omega)) (byte (by omega))
      rw [hof] at h
      exact ⟨_, _, rfl, h⟩
    · split
      · have h := front_three (n := c.toNat) rest (by omega) (by omega) (byte (by omega)) (byte (by omega))
          (byte (by omega))
        rw [hof] at h
        exact ⟨_, _, rfl, h⟩
      · have h := front_four (n := c.toNat) rest (by omega) (byte (by omega)) (byte (by omega))
          (byte (by omega)) (byte (by omega))
        rw [hof] at h
        exact ⟨_, _, rfl, h⟩

theorem decodeFrom_encode (start : Nat) (s : List Char) : decodeFrom start (encode s) = .ok s := by
  induction s generalizing start with
  | nil => simp [encode, decodeFrom]
  | cons c s ih =>
    obtain ⟨a, tail, hc, hf⟩ := front_encodeChar c (encode s)
    have he : encode (c :: s) = a :: (tail ++ encode s) := by
      simp only [encode, List.flatMap_cons, hc, List.cons_append]
    rw [he, decodeFrom, hf]
    simp only [Nat.add_sub_cancel, List.drop_left, ih, Except.map]

theorem decode_encode (s : List Char) : decode (encode s) = .ok s := decodeFrom_encode 0 s

end PackageIndex.Utf8
